import SuiteHarness.Library.Machine

/-!
# The broker's capacity and its persistent sessions

The handlers of `create_app` and `SessionBroker` are tasks that run from one
await to the next. A step resumes one task with what its await gave; arrivals
are steps as well. Clocks are left to the events: idle and lifetime expiry,
timeouts and disconnects may come at any await that can see them.
-/

set_option autoImplicit false

namespace SuiteHarness.Sandbox.SessionBroker
open SuiteHarness.Library

structure Record where
  token : String
  closing : Bool := false
  sendLock : Bool := false
  receiveLock : Bool := false
  deriving DecidableEq

/-- `busy` of the application and the fields of `SessionBroker`. The tokens drawn so far and the
sessions whose `close` was invoked are kept as well. -/
structure Broker where
  busy : ℤ := 0
  opening : ℤ := 0
  records : List Record := []
  closed : Bool := false
  issued : List String := []
  closes : List String := []

inductive Received where
  | line | pending | ended | excessive | gone | refused | failed | cancelled
  deriving DecidableEq

inductive SessionAction where
  | «open» | send | receive | close
  deriving DecidableEq

/-- Where `_close_record` was called: in the body of `dispatch`, inside the inner block of
`receive`, or in an exception handler or a task of its own. -/
inductive CloseStage where
  | body | receive | handler
  deriving DecidableEq

inductive RunPoint where
  | body | waiting | stopping | ending | collecting
  deriving DecidableEq

inductive SessionPoint where
  | body (action : SessionAction)
  | opening
  | sending (token : String)
  | receiving (token : String)
  | disconnecting (token : String)
  | settling (token : String) (outcome : Received)
  | closing (token : String) (stage : CloseStage)
  deriving DecidableEq

/-- `orphan` is a command whose handler was cancelled while it waited for it in `finally`. -/
inductive Task where
  | run (point : RunPoint)
  | orphan
  | session (point : SessionPoint)
  | watcher (token : String) (started : Bool)
  | finish (token : String) (started : Bool)
  | closer (token : String)
  | shutdown (closed : Bool)
  deriving DecidableEq

/-- `refused` and `failed` are the exceptions answered with 400 and with 503. A request that was
read has a session id and says if the rest of it is valid. -/
inductive Event where
  | returned | refused | failed | cancelled | disconnected | timedOut
  | request (token : String) (valid : Bool)
  | opened (token : String)
  | received (outcome : Received)
  deriving DecidableEq

namespace Broker

variable (b : Broker) (token : String)

def count : ℤ := b.records.length + b.opening

def release : Broker := { b with busy := b.busy-1 }

def get : Option Record :=
  b.records.find? (fun r => r.token = token)

def update (f : Record → Record) : Broker :=
  { b with records := b.records.map (fun r => if r.token = token then f r else r) }

def pop : Broker :=
  { b with records := b.records.filter (fun r => r.token ≠ token) }

def closeRecord : Broker × List Task :=
  match b.get token with
  | none => (b,[])
  | some r =>
    if r.closing then (b,[])
    else (b.update token (fun r => { r with closing := true }),[.finish token false])

def closeThen (stage : CloseStage) : Broker × List Task :=
  ((b.closeRecord token).1,.session (.closing token stage)::(b.closeRecord token).2)

def register : Broker :=
  { b with
    records := b.records++[{ token := token }]
    issued := token::b.issued
    opening := b.opening-1 }

end Broker

def run (b : Broker) : RunPoint → Event → Option (Broker × List Task)
  | .body, .request _ true => some (b,[.run .waiting])
  | .body, .request _ false => some (b.release,[])
  | .body, .refused => some (b.release,[])
  | .body, .failed => some (b.release,[])
  | .body, .cancelled => some (b.release,[])
  | .waiting, .disconnected => some (b,[.run .stopping])
  | .waiting, .returned => some (b,[.run .ending])
  | .waiting, .refused => some (b,[.run .ending])
  | .waiting, .failed => some (b,[.run .ending])
  | .waiting, .cancelled => some (b,[.run .ending])
  | .stopping, .returned => some (b,[.run .ending])
  | .stopping, .cancelled => some (b,[.run .ending])
  | .ending, .returned => some (b,[.run .collecting])
  | .ending, .cancelled => some (b,[.orphan])
  | .collecting, .returned => some (b.release,[])
  | .collecting, .cancelled => some (b,[.orphan])
  | _, _ => none

def lockSend (locked : Bool) (r : Record) : Record := { r with sendLock := locked }

def lockReceive (locked : Bool) (r : Record) : Record := { r with receiveLock := locked }

def accept (b : Broker) (action : SessionAction) (token : String) (valid : Bool) :
    Broker × List Task :=
  match action with
  | .open =>
    if b.count+b.busy ≥ 4 then (b,[])
    else if valid then ({ b with opening := b.opening+1 },[.session .opening])
    else (b,[])
  | .close => b.closeThen token .body
  | .send =>
    match b.get token with
    | none => (b,[])
    | some r =>
      if r.closing || !valid || r.sendLock then (b,[])
      else (b.update token (lockSend true),[.session (.sending token)])
  | .receive =>
    match b.get token with
    | none => (b,[])
    | some r =>
      if r.closing || r.receiveLock then (b,[])
      else (b.update token (lockReceive true),[.session (.receiving token)])

def settle (b : Broker) (token : String) (outcome : Received) : Broker × List Task :=
  match outcome with
  | .line => (b.update token (lockReceive false),[])
  | .pending => (b.update token (lockReceive false),[])
  | .gone => (b.update token (lockReceive false),[])
  | .refused => (b.update token (lockReceive false),[])
  | .ended => (b.update token (lockReceive false)).closeThen token .body
  | .excessive => (b.update token (lockReceive false)).closeThen token .handler
  | .failed => (b.update token (lockReceive false)).closeThen token .handler
  | .cancelled => (b.update token (lockReceive false)).closeThen token .handler

def afterClose (b : Broker) (token : String) : CloseStage → Event → Option (Broker × List Task)
  | .body, .returned => some (b,[])
  | .body, .refused => some (b,[])
  | .body, .failed => some (b.closeThen token .handler)
  | .body, .cancelled => some (b.closeThen token .handler)
  | .receive, .returned => some (b,[.session (.settling token .gone)])
  | .receive, .refused => some (b,[.session (.settling token .refused)])
  | .receive, .failed => some (b,[.session (.settling token .failed)])
  | .receive, .cancelled => some (b,[.session (.settling token .cancelled)])
  | .handler, .returned => some (b,[])
  | .handler, .refused => some (b,[])
  | .handler, .failed => some (b,[])
  | .handler, .cancelled => some (b,[])
  | _, _ => none

def dispatch (b : Broker) : SessionPoint → Event → Option (Broker × List Task)
  | .body action, .request token valid => some (accept b action token valid)
  | .body _, .refused => some (b,[])
  | .body _, .failed => some (b,[])
  | .body _, .cancelled => some (b,[])
  | .opening, .opened token =>
    if token ∈ b.issued then none else some (b.register token,[.watcher token false])
  | .opening, .refused => some ({ b with opening := b.opening-1 },[])
  | .opening, .failed => some ({ b with opening := b.opening-1 },[])
  | .opening, .cancelled => some ({ b with opening := b.opening-1 },[])
  | .sending token, .returned => some (b.update token (lockSend false),[])
  | .sending token, .refused => some (b.update token (lockSend false),[])
  | .sending token, .failed => some ((b.update token (lockSend false)).closeThen token .handler)
  | .sending token, .cancelled => some ((b.update token (lockSend false)).closeThen token .handler)
  | .receiving token, .received outcome => some (b,[.session (.settling token outcome)])
  | .receiving token, .disconnected => some (b,[.session (.disconnecting token)])
  | .receiving token, .cancelled => some (b,[.session (.settling token .cancelled)])
  | .disconnecting token, .returned => some (b.closeThen token .receive)
  | .disconnecting token, .cancelled => some (b,[.session (.settling token .cancelled)])
  | .settling token outcome, .returned => some (settle b token outcome)
  | .settling token _, .cancelled => some (settle b token .cancelled)
  | .closing token stage, e => afterClose b token stage e
  | _, _ => none

def watch (b : Broker) (token : String) : Bool → Event → Option (Broker × List Task)
  | false, .returned => some (b,[.watcher token true])
  | false, .cancelled => some (b,[])
  | true, .timedOut =>
    if (b.get token).isSome then some (b,[.watcher token true])
    else some (b.closeThen token .handler)
  | true, .returned => some (b.closeThen token .handler)
  | true, .failed => some (b.closeThen token .handler)
  | true, .cancelled => some (b.closeThen token .handler)
  | _, _ => none

def finish (b : Broker) (token : String) : Bool → Event → Option (Broker × List Task)
  | false, .returned => some ({ b with closes := token::b.closes },[.finish token true])
  | false, .cancelled => some (b,[])
  | true, .returned => some (b.pop token,[])
  | true, .refused => some (b.pop token,[])
  | true, .failed => some (b.pop token,[])
  | true, .cancelled => some (b.pop token,[])
  | _, _ => none

def shutdown (b : Broker) : Bool → Event → Option (Broker × List Task)
  | false, .returned => some ({ b with closed := true },[.shutdown true])
  | true, .returned => some (b,b.records.map (fun r => .closer r.token))
  | true, .cancelled => some (b,[])
  | _, _ => none

def advance (b : Broker) : Task → Event → Option (Broker × List Task)
  | .run point, e => run b point e
  | .orphan, .returned => some (b,[])
  | .orphan, _ => none
  | .session point, e => dispatch b point e
  | .watcher token started, e => watch b token started e
  | .finish token started, e => finish b token started e
  | .closer token, .returned => some (b.closeThen token .handler)
  | .closer _, .cancelled => some (b,[])
  | .closer _, _ => none
  | .shutdown closed, e => shutdown b closed e

structure System where
  broker : Broker := {}
  tasks : List Task := []

inductive Action where
  | run
  | session (action : SessionAction)
  | stop
  | resume (index : ℕ) (event : Event)
  deriving DecidableEq

def resume (s : System) (index : ℕ) (e : Event) : Option System := do
  let t ← s.tasks[index]?
  let (b,new) ← advance s.broker t e
  pure ⟨b,new++s.tasks.eraseIdx index⟩

def step (s : System) : Action → System × Bool
  | .run =>
    if s.broker.busy+s.broker.count ≥ 4 then (s,false)
    else (⟨{ s.broker with busy := s.broker.busy+1 },.run .body::s.tasks⟩,true)
  | .session action =>
    if s.broker.closed then (s,false)
    else (⟨s.broker,.session (.body action)::s.tasks⟩,true)
  | .stop => (⟨s.broker,.shutdown false::s.tasks⟩,true)
  | .resume index e =>
    match resume s index e with
    | none => (s,false)
    | some t => (t,true)

/-! The number of tasks that run a command, open a session, or are about to
close a given session. -/

def Task.commands : Task → ℕ
  | .run _ => 1
  | .orphan => 1
  | _ => 0

def Task.openings : Task → ℕ
  | .session .opening => 1
  | _ => 0

def Task.finishes (token : String) : Task → ℕ
  | .finish other false => if other = token then 1 else 0
  | _ => 0

def total (w : Task → ℕ) (ts : List Task) : ℕ := (ts.map w).sum

@[simp] theorem total_nil (w : Task → ℕ) : total w [] = 0 := rfl

@[simp] theorem total_cons (w : Task → ℕ) (t : Task) (ts : List Task) :
    total w (t::ts) = w t+total w ts := by
  simp [total]

theorem total_erase (w : Task → ℕ) {ts : List Task} {i : ℕ} {t : Task} (h : ts[i]? = some t) :
    total w ts = w t+total w (ts.eraseIdx i) := by
  obtain ⟨hi,rfl⟩ := List.getElem?_eq_some_iff.1 h
  have hperm := List.getElem_cons_eraseIdx_perm hi
  simpa [total] using ((hperm.map w).sum_eq).symm

def System.commands (s : System) : ℕ := total Task.commands s.tasks

def System.openings (s : System) : ℕ := total Task.openings s.tasks

structure Sound (b : Broker) (ts : List Task) : Prop where
  opening : b.opening = total Task.openings ts
  busy : (total Task.commands ts : ℤ) ≤ b.busy
  capacity : b.busy+b.count ≤ 4
  known : ∀ token, token ∉ b.issued →
    b.closes.count token+total (Task.finishes token) ts = 0 ∧ ∀ r ∈ b.records, r.token ≠ token
  once : ∀ token, b.closes.count token+total (Task.finishes token) ts ≤ 1
  unclosed : ∀ r ∈ b.records, r.closing = false →
    b.closes.count r.token+total (Task.finishes r.token) ts = 0

variable {b : Broker} {t : Task} {ts : List Task} {token : String}

open SessionBroker.Task (finishes openings commands)

/-- Soundness depends on the tasks through their numbers only. -/
theorem Sound.of_totals {us : List Task} (h : Sound b ts)
    (hopenings : total openings us = total openings ts)
    (hcommands : total commands us ≤ total commands ts)
    (hfinishes : ∀ token, total (finishes token) us = total (finishes token) ts) :
    Sound b us where
  opening := by rw [hopenings]; exact h.opening
  busy := le_trans (by exact_mod_cast hcommands) h.busy
  capacity := h.capacity
  known token hnew := by rw [hfinishes]; exact h.known token hnew
  once token := by rw [hfinishes]; exact h.once token
  unclosed r hr hopen := by rw [hfinishes]; exact h.unclosed r hr hopen

def Task.idle (t : Task) : Prop :=
  t.commands = 0 ∧ t.openings = 0 ∧ ∀ token, t.finishes token = 0

theorem sound_cons_idle (ht : t.idle) : Sound b (t::ts) ↔ Sound b ts := by
  obtain ⟨hcommands,hopenings,hfinishes⟩ := ht
  constructor
  · intro h
    exact h.of_totals (by simp [hopenings]) (by simp) (by simp [hfinishes])
  · intro h
    exact h.of_totals (by simp [hopenings]) (by simp [hcommands]) (by simp [hfinishes])

theorem sound_append_idle {new : List Task} (hnew : ∀ t ∈ new, t.idle) :
    Sound b (new++ts) ↔ Sound b ts := by
  induction new with
  | nil => rfl
  | cons t new ih =>
    rw [List.cons_append, sound_cons_idle (hnew t List.mem_cons_self)]
    exact ih (fun u hu => hnew u (List.mem_cons_of_mem t hu))

theorem idle_watcher (token : String) (started : Bool) : (Task.watcher token started).idle :=
  ⟨rfl,rfl,fun _ => rfl⟩

theorem idle_closer (token : String) : (Task.closer token).idle := ⟨rfl,rfl,fun _ => rfl⟩

theorem idle_shutdown (closed : Bool) : (Task.shutdown closed).idle := ⟨rfl,rfl,fun _ => rfl⟩

theorem idle_finish_started (token : String) : (Task.finish token true).idle :=
  ⟨rfl,rfl,fun _ => rfl⟩

theorem idle_session {point : SessionPoint} (h : point ≠ .opening) : (Task.session point).idle := by
  refine ⟨rfl,?_,fun _ => rfl⟩
  cases point <;> first | rfl | exact absurd rfl h

/-! The broker's own operations. -/

open Broker

theorem sound_release {point : RunPoint} (h : Sound b (.run point::ts)) : Sound b.release ts where
  opening := by simpa [release, openings] using h.opening
  busy := by
    have hbusy := h.busy
    simp only [total_cons, commands, release] at hbusy ⊢
    omega
  capacity := by
    have hcapacity := h.capacity
    simp only [release, count] at hcapacity ⊢
    omega
  known token hnew := by simpa [release, finishes] using h.known token hnew
  once token := by simpa [release, finishes] using h.once token
  unclosed r hr hopen := by simpa [release, finishes] using h.unclosed r hr hopen

theorem sound_run_point {point : RunPoint} (next : Task) (hnext : next = .orphan ∨ ∃ q, next = .run q)
    (h : Sound b (.run point::ts)) : Sound b (next::ts) := by
  rcases hnext with rfl | ⟨q,rfl⟩
  · exact h.of_totals (by simp [openings]) (by simp [commands])
      (by simp [finishes])
  · exact h.of_totals (by simp [openings]) (by simp [commands])
      (by simp [finishes])

theorem sound_admit (hroom : ¬b.busy+b.count ≥ 4) (h : Sound b ts) :
    Sound { b with busy := b.busy+1 } (.run .body::ts) where
  opening := by simpa [openings] using h.opening
  busy := by
    have hbusy := h.busy
    simp only [total_cons, commands]
    push_cast
    omega
  capacity := by
    simp only [count] at hroom ⊢
    omega
  known token hnew := by simpa [finishes] using h.known token hnew
  once token := by simpa [finishes] using h.once token
  unclosed r hr hopen := by simpa [finishes] using h.unclosed r hr hopen

theorem sound_begin_open (hroom : ¬b.count+b.busy ≥ 4) (h : Sound b ts) :
    Sound { b with opening := b.opening+1 } (.session .opening::ts) where
  opening := by
    have hopening := h.opening
    simp only [total_cons, openings]
    push_cast
    omega
  busy := by simpa [commands] using h.busy
  capacity := by
    simp only [count] at hroom ⊢
    omega
  known token hnew := by simpa [finishes] using h.known token hnew
  once token := by simpa [finishes] using h.once token
  unclosed r hr hopen := by simpa [finishes] using h.unclosed r hr hopen

theorem sound_fail_open (h : Sound b (.session .opening::ts)) :
    Sound { b with opening := b.opening-1 } ts where
  opening := by
    have hopening := h.opening
    simp only [total_cons, openings] at hopening
    push_cast at hopening
    change b.opening-1 = _
    omega
  busy := by simpa [commands] using h.busy
  capacity := by
    have hcapacity := h.capacity
    simp only [count] at hcapacity ⊢
    omega
  known token hnew := by simpa [finishes] using h.known token hnew
  once token := by simpa [finishes] using h.once token
  unclosed r hr hopen := by simpa [finishes] using h.unclosed r hr hopen

theorem sound_register (hfresh : token ∉ b.issued) (h : Sound b (.session .opening::ts)) :
    Sound (b.register token) ts where
  opening := (sound_fail_open h).opening
  busy := (sound_fail_open h).busy
  capacity := by
    have hcapacity := h.capacity
    simp only [count, register, List.length_append, List.length_singleton]
      at hcapacity ⊢
    push_cast
    omega
  known other hnew := by
    simp only [register, List.mem_cons, not_or] at hnew
    have hother := (sound_fail_open h).known other hnew.2
    refine ⟨hother.1,fun r hr => ?_⟩
    rcases List.mem_append.1 hr with hr | hr
    · exact hother.2 r hr
    · rw [List.mem_singleton.1 hr]
      exact Ne.symm hnew.1
  once := (sound_fail_open h).once
  unclosed r hr hopen := by
    rcases List.mem_append.1 hr with hr | hr
    · exact (sound_fail_open h).unclosed r hr hopen
    · rw [List.mem_singleton.1 hr]
      exact ((sound_fail_open h).known token hfresh).1

/-- A change of a record that leaves its token and its `closing`. -/
theorem sound_update {f : Record → Record} (htoken : ∀ r, (f r).token = r.token)
    (hclosing : ∀ r, (f r).closing = r.closing) (h : Sound b ts) : Sound (b.update token f) ts where
  opening := h.opening
  busy := h.busy
  capacity := by simpa [count, update] using h.capacity
  known other hnew := by
    refine ⟨(h.known other hnew).1,fun r hr => ?_⟩
    obtain ⟨q,hq,rfl⟩ := List.mem_map.1 hr
    have hne := (h.known other hnew).2 q hq
    split
    · rw [htoken]
      exact hne
    · exact hne
  once := h.once
  unclosed r hr hopen := by
    obtain ⟨q,hq,rfl⟩ := List.mem_map.1 hr
    by_cases hqt : q.token = token
    · rw [if_pos hqt] at hopen ⊢
      rw [hclosing] at hopen
      rw [htoken]
      exact h.unclosed q hq hopen
    · rw [if_neg hqt] at hopen ⊢
      exact h.unclosed q hq hopen

theorem sound_pop (h : Sound b ts) : Sound (b.pop token) ts where
  opening := h.opening
  busy := h.busy
  capacity := by
    have hcapacity := h.capacity
    have hlength := List.length_filter_le (fun r : Record => r.token ≠ token) b.records
    simp only [count, pop] at hcapacity ⊢
    omega
  known other hnew := ⟨(h.known other hnew).1,
    fun r hr => (h.known other hnew).2 r (List.mem_filter.1 hr).1⟩
  once := h.once
  unclosed r hr hopen := h.unclosed r (List.mem_filter.1 hr).1 hopen

/-- The close of a session is about to be invoked only by the task of its first caller. -/
theorem sound_close_record (h : Sound b ts) :
    Sound (b.closeRecord token).1 ((b.closeRecord token).2++ts) := by
  unfold closeRecord
  split
  · exact h
  next r hget =>
    split
    · exact h
    next hopen =>
      have hr : r ∈ b.records := List.mem_of_find?_eq_some hget
      have htoken : r.token = token := by simpa using List.find?_some hget
      have hnone : b.closes.count token+total (finishes token) ts = 0 := by
        rw [← htoken]
        exact h.unclosed r hr (by simpa using hopen)
      have hfinish : ∀ other, total (finishes other) (.finish token false::ts) =
          (if token = other then 1 else 0)+total (finishes other) ts := by
        intro other
        simp [finishes]
      refine ⟨?_,?_,?_,?_,?_,?_⟩
      · simpa [update, openings] using h.opening
      · simpa [update, commands] using h.busy
      · simpa [count, update] using h.capacity
      · intro other hnew
        have hne : token ≠ other := by
          rw [← htoken]
          exact (h.known other hnew).2 r hr
        refine ⟨?_,fun q hq => ?_⟩
        · rw [List.singleton_append, hfinish, if_neg hne, zero_add]
          exact (h.known other hnew).1
        · obtain ⟨p,hp,rfl⟩ := List.mem_map.1 hq
          have hother := (h.known other hnew).2 p hp
          split <;> exact hother
      · intro other
        rw [List.singleton_append, hfinish]
        by_cases hother : token = other
        · subst hother
          rw [if_pos rfl]
          change b.closes.count token+_ ≤ 1
          omega
        · rw [if_neg hother, zero_add]
          exact h.once other
      · intro q hq hclosing
        obtain ⟨p,hp,rfl⟩ := List.mem_map.1 hq
        by_cases hpt : p.token = token
        · rw [if_pos hpt] at hclosing
          cases hclosing
        · rw [if_neg hpt] at hclosing ⊢
          rw [List.singleton_append, hfinish, if_neg (Ne.symm hpt), zero_add]
          exact h.unclosed p hp hclosing

theorem sound_close_then {stage : CloseStage} (h : Sound b ts) :
    Sound (b.closeThen token stage).1 ((b.closeThen token stage).2++ts) := by
  rw [closeThen, List.cons_append, sound_cons_idle (idle_session (by simp))]
  exact sound_close_record h

theorem sound_start_finish (h : Sound b (.finish token false::ts)) :
    Sound { b with closes := token::b.closes } ts := by
  have hmove : ∀ other, (token::b.closes).count other+total (finishes other) ts =
      b.closes.count other+total (finishes other) (.finish token false::ts) := by
    intro other
    simp only [List.count_cons, total_cons, finishes, beq_iff_eq]
    omega
  refine ⟨?_,?_,h.capacity,?_,?_,?_⟩
  · simpa [openings] using h.opening
  · simpa [commands] using h.busy
  · intro other hnew
    rw [hmove]
    exact h.known other hnew
  · intro other
    rw [hmove]
    exact h.once other
  · intro r hr hopen
    rw [hmove]
    exact h.unclosed r hr hopen

theorem sound_drop_finish (h : Sound b (.finish token false::ts)) : Sound b ts := by
  have hle : ∀ other, total (finishes other) ts ≤
      total (finishes other) (.finish token false::ts) := by
    intro other
    simp
  refine ⟨?_,?_,h.capacity,?_,?_,?_⟩
  · simpa [openings] using h.opening
  · simpa [commands] using h.busy
  · intro other hnew
    have hother := h.known other hnew
    have := hle other
    exact ⟨by omega,hother.2⟩
  · intro other
    have := h.once other
    have := hle other
    omega
  · intro r hr hopen
    have := h.unclosed r hr hopen
    have := hle r.token
    omega

/-! One lemma per handler: what it leaves is sound with the tasks it starts. -/

variable {e : Event} {next : Broker × List Task}

theorem run_sound {point : RunPoint} (hstep : run b point e = some next)
    (h : Sound b (.run point::ts)) : Sound next.1 (next.2++ts) := by
  have hpoint : ∀ q, Sound b (.run q::ts) := fun q =>
    sound_run_point (.run q) (.inr ⟨q,rfl⟩) h
  have horphan : Sound b (.orphan::ts) := sound_run_point .orphan (.inl rfl) h
  unfold run at hstep
  split at hstep <;> cases hstep <;>
    first
    | exact sound_release h
    | exact hpoint _
    | exact horphan

theorem accept_sound {action : SessionAction} {valid : Bool} (h : Sound b ts) :
    Sound (accept b action token valid).1 ((accept b action token valid).2++ts) := by
  cases action with
  | «open» =>
    rw [accept]
    split
    · exact h
    next hroom =>
      split
      · exact sound_begin_open hroom h
      · exact h
  | close => exact sound_close_then h
  | send | receive =>
    rw [accept]
    split
    · exact h
    · split
      · exact h
      · rw [List.singleton_append, sound_cons_idle (idle_session (by simp))]
        exact sound_update (fun _ => rfl) (fun _ => rfl) h

theorem settle_sound {outcome : Received} (h : Sound b ts) :
    Sound (settle b token outcome).1 ((settle b token outcome).2++ts) := by
  have hlock : Sound (b.update token (lockReceive false)) ts :=
    sound_update (fun _ => rfl) (fun _ => rfl) h
  cases outcome with
  | line | pending | gone | refused => exact hlock
  | ended | excessive | failed | cancelled => exact sound_close_then hlock

theorem after_close_sound {stage : CloseStage} (hstep : afterClose b token stage e = some next)
    (h : Sound b ts) : Sound next.1 (next.2++ts) := by
  have hsettling : ∀ outcome, Sound b ([.session (.settling token outcome)]++ts) := fun outcome =>
    (sound_cons_idle (idle_session (by simp))).2 h
  unfold afterClose at hstep
  split at hstep <;> cases hstep <;>
    first
    | exact h
    | exact sound_close_then h
    | exact hsettling _

/-- The handler of a session request apart from the open that is under way. -/
theorem dispatch_sound {point : SessionPoint} (hstep : dispatch b point e = some next)
    (h : Sound b (.session point::ts)) : Sound next.1 (next.2++ts) := by
  by_cases hopening : point = .opening
  · subst hopening
    unfold dispatch at hstep
    cases e with
    | opened token =>
      simp only at hstep
      split at hstep
      · cases hstep
      next hfresh =>
        cases hstep
        rw [List.singleton_append, sound_cons_idle (idle_watcher token false)]
        exact sound_register hfresh h
    | refused | failed | cancelled => cases hstep; exact sound_fail_open h
    | _ => cases hstep
  · have hs : Sound b ts := (sound_cons_idle (idle_session hopening)).1 h
    have hpoint : ∀ q, q ≠ .opening → Sound b ([.session q]++ts) := fun q hq =>
      (sound_cons_idle (idle_session hq)).2 hs
    have hsend : ∀ token, Sound (b.update token (lockSend false)) ts := fun token =>
      sound_update (fun _ => rfl) (fun _ => rfl) hs
    unfold dispatch at hstep
    split at hstep <;>
      first
      | exact absurd rfl hopening
      | exact after_close_sound hstep hs
      | (cases hstep <;>
          first
          | exact hs
          | exact accept_sound hs
          | exact hsend _
          | exact sound_close_then (hsend _)
          | exact hpoint _ (by simp)
          | exact sound_close_then hs
          | exact settle_sound hs)

theorem watch_sound {started : Bool} (hstep : watch b token started e = some next)
    (h : Sound b ts) : Sound next.1 (next.2++ts) := by
  have hwatcher : Sound b ([.watcher token true]++ts) :=
    (sound_cons_idle (idle_watcher token true)).2 h
  unfold watch at hstep
  split at hstep <;>
    first
    | (cases hstep <;>
        first
        | exact h
        | exact hwatcher
        | exact sound_close_then h)
    | (split at hstep <;> cases hstep
       · exact hwatcher
       · exact sound_close_then h)

theorem finish_sound {started : Bool} (hstep : finish b token started e = some next)
    (h : Sound b (.finish token started::ts)) : Sound next.1 (next.2++ts) := by
  cases started with
  | false =>
    cases e with
    | returned =>
      cases hstep
      rw [List.singleton_append, sound_cons_idle (idle_finish_started token)]
      exact sound_start_finish h
    | cancelled => cases hstep; exact sound_drop_finish h
    | _ => cases hstep
  | true =>
    have hs : Sound b ts := (sound_cons_idle (idle_finish_started token)).1 h
    cases e with
    | returned | refused | failed | cancelled => cases hstep; exact sound_pop hs
    | _ => cases hstep

theorem shutdown_sound {closed : Bool} (hstep : shutdown b closed e = some next)
    (h : Sound b ts) : Sound next.1 (next.2++ts) := by
  unfold shutdown at hstep
  split at hstep <;> cases hstep
  · rw [List.singleton_append, sound_cons_idle (idle_shutdown true)]
    exact ⟨h.opening,h.busy,h.capacity,h.known,h.once,h.unclosed⟩
  · refine (sound_append_idle (fun u hu => ?_)).2 h
    obtain ⟨r,-,rfl⟩ := List.mem_map.1 hu
    exact idle_closer r.token
  · exact h

theorem advance_sound (hstep : advance b t e = some next) (h : Sound b (t::ts)) :
    Sound next.1 (next.2++ts) := by
  cases t with
  | run point => exact run_sound hstep h
  | orphan =>
    cases e with
    | returned =>
      cases hstep
      exact h.of_totals (by simp [openings]) (by simp) (by simp [finishes])
    | _ => cases hstep
  | session point => exact dispatch_sound hstep h
  | watcher token started => exact watch_sound hstep ((sound_cons_idle (idle_watcher _ _)).1 h)
  | finish token started => exact finish_sound hstep h
  | closer token =>
    have hs : Sound b ts := (sound_cons_idle (idle_closer token)).1 h
    cases e with
    | returned => cases hstep; exact sound_close_then hs
    | cancelled => cases hstep; exact hs
    | _ => cases hstep
  | shutdown closed => exact shutdown_sound hstep ((sound_cons_idle (idle_shutdown closed)).1 h)

theorem resume_sound {s s' : System} {index : ℕ} (hstep : resume s index e = some s')
    (h : Sound s.broker s.tasks) : Sound s'.broker s'.tasks := by
  unfold resume at hstep
  cases ht : s.tasks[index]? with
  | none => simp [ht] at hstep
  | some t =>
    cases hnext : advance s.broker t e with
    | none => simp [ht, hnext] at hstep
    | some next =>
      simp only [ht, hnext, Option.bind_eq_bind, Option.bind_some, Option.pure_def,
        Option.some.injEq] at hstep
      subst hstep
      refine advance_sound hnext (h.of_totals ?_ ?_ ?_)
      · rw [total_cons, ← total_erase _ ht]
      · rw [total_cons, ← total_erase _ ht]
      · intro token
        rw [total_cons, ← total_erase _ ht]

theorem step_sound (s : System) (a : Action) (h : Sound s.broker s.tasks) :
    Sound (step s a).1.broker (step s a).1.tasks := by
  cases a with
  | run =>
    rw [step]
    split
    · exact h
    next hroom => exact sound_admit hroom h
  | session action =>
    rw [step]
    split
    · exact h
    · exact (sound_cons_idle (idle_session (by simp))).2 h
  | stop => exact (sound_cons_idle (idle_shutdown false)).2 h
  | resume index e =>
    rw [step]
    split
    · exact h
    next hstep => exact resume_sound hstep h

theorem sound_initial : Sound {} [] :=
  ⟨rfl,le_refl _,by decide,fun _ _ => ⟨rfl,by simp⟩,fun _ => Nat.zero_le _,by simp⟩

/-- In every interleaving the commands, the registered sessions and those being opened are at most
four, no counter is negative and no session is closed twice. -/
theorem broker_capacity_respected (actions : List Action) :
    let s := Machine.final step {} actions
    s.commands+s.broker.records.length+s.openings ≤ 4 ∧
      0 ≤ s.broker.busy ∧ 0 ≤ s.broker.opening ∧
      ∀ token, s.broker.closes.count token ≤ 1 := by
  intro s
  have h : Sound s.broker s.tasks :=
    Machine.final_invariant step (fun s => Sound s.broker s.tasks) step_sound {} actions
      sound_initial
  have hopening := h.opening
  have hbusy := h.busy
  have hcapacity := h.capacity
  simp only [count] at hcapacity
  refine ⟨?_,by omega,by omega,fun token => ?_⟩
  · simp only [System.commands, System.openings]
    omega
  · have honce := h.once token
    omega

/-- The fifth command is refused. -/
example : (Machine.final step {} [.run,.run,.run,.run,.run]).commands = 4 := by decide

end SuiteHarness.Sandbox.SessionBroker
