import SuiteHarness.Execution.Gates
import SuiteHarness.Library.BoundedQueue
import SuiteHarness.Library.Machine

/-!
# The event stream of a run

`stream` hands events to its consumer through a queue of sixteen places. The
loop and the tool tasks of a batch publish side by side: `publish` takes the
next number, builds the event and then waits for a place. The producer publishes
the result when all of them are over, and then the end marker. Numbers follow the
order of the queue as long as no event is published while another one waits for a
place, no waiting event is cancelled and every event that is built is valid.
-/

set_option autoImplicit false

namespace SuiteHarness.Execution

open SuiteHarness.Library

inductive RunEventKind where
  | started | delta | status | usage | compactStarted | compactCompleted | toolStarted
  | toolCompleted | completed | failed | cancelled | checkpoint
  deriving DecidableEq

structure RunEvent where
  runId : String
  sequence : ℕ
  kind : RunEventKind
  text : String
  data : Json
  result : Option RunResult
  deriving DecidableEq

inductive StreamItem where
  | event (e : RunEvent)
  | failure (message : String)
  | done
  deriving DecidableEq

def StreamItem.event? : StreamItem → Option RunEvent
  | .event e => some e
  | _ => none

inductive Producer where
  | opening | running | resulted | failed | finished
  deriving DecidableEq

structure EventStream where
  queue : BoundedQueue StreamItem := {}
  sequence : ℕ := 0
  textBytes : ℕ := 0
  producer : Producer := .opening
  received : List StreamItem := []
  deriving DecidableEq

inductive StreamOp where
  | started
  /-- The loop or a tool task publishes; `cancelling` is the state of its task, and `valid` says
  that `RunEvent` accepts the data, which need not be what its model once checked. -/
  | publish (who : ℕ) (cancelling : Bool) (kind : RunEventKind) (text : String) (data : Json)
      (valid : Bool)
  /-- A publisher woken by a free place runs again. -/
  | resume (who : ℕ)
  /-- The task of a publisher that waits for a place is cancelled. -/
  | cancel (who : ℕ)
  | returned (result : RunResult)
  | raised (message : String)
  | close
  | get

inductive EventStreamAnswer where
  | idle
  | published
  | cancelledError
  | valueError (message : String)
  | validationError
  | yielded (e : RunEvent)
  | reraised (message : String)
  | ended
  deriving DecidableEq

def maxsize : ℕ := 16

namespace EventStream

variable (policy : ExecutionPolicy) (s : EventStream)

def closed : Bool := s.received.any (fun x => x.event?.isNone)

def yielded : List RunEvent := s.received.filterMap StreamItem.event?

def enqueue (who : ℕ) (item : StreamItem) : EventStream :=
  { s with queue := s.queue.put maxsize who item }

def resultKind (result : RunResult) : RunEventKind :=
  match result.status with
  | .succeeded => .completed
  | .cancelled => .cancelled
  | _ => .failed

variable (runId : String) (kind : RunEventKind)

def countText (text : String) : EventStream :=
  if kind = .delta then { s with textBytes := s.textBytes+utf8Length text } else s

def refusal (data : Json) : Option String :=
  if kind = .delta ∧ policy.maxFinalOutputBytes < s.textBytes then
    some "stream output exceeds configured byte limit"
  else match jsonBytes data with
    | none => some "JSON values must not contain NaN or infinity"
    | some n =>
      if policy.maxToolResultBytes < n then some "event metadata exceeds configured byte limit"
      else none

def publish (s : EventStream) (who : ℕ) (cancelling : Bool) (kind : RunEventKind) (text : String)
    (data : Json) (valid : Bool) (result : Option RunResult) : EventStream × EventStreamAnswer :=
  if s.closed = true ∨ cancelling = true then (s,.cancelledError)
  else
    let counted := s.countText kind text
    match refusal policy counted kind data with
    | some message => (counted,.valueError message)
    | none =>
      let next := { counted with sequence := counted.sequence+1 }
      -- The number is taken before the event is built.
      if !valid then (next,.validationError)
      else (next.enqueue who (.event ⟨runId,next.sequence,kind,text,data,result⟩),.published)

def produce (s : EventStream) (kind : RunEventKind) (result : Option RunResult) (next : Producer) :
    EventStream × EventStreamAnswer :=
  match publish policy runId s 0 false kind "" (.obj []) true result with
  | (t,.published) => ({ t with producer := next },.published)
  | (t,.valueError message) =>
    ({ t.enqueue 0 (.failure message) with producer := .failed },.valueError message)
  | (t,answer) => (t,answer)

def quiet : Bool := s.queue.putters.isEmpty

def waits (who : ℕ) : Bool := s.queue.putters.any (fun p => decide (p.who = who))

def get : EventStream × EventStreamAnswer :=
  if s.closed then (s,.idle)
  else match s.queue.take with
    | none => (s,.idle)
    | some (item,queue) =>
      ({ s with queue := queue, received := s.received ++ [item] },
        match item with
        | .event e => .yielded e
        | .failure message => .reraised message
        | .done => .ended)

def step (policy : ExecutionPolicy) (runId : String) (s : EventStream) :
    StreamOp → EventStream × EventStreamAnswer
  | .started =>
    if s.producer = .opening then s.produce policy runId .started none .running else (s,.idle)
  | .publish who cancelling kind text data valid =>
    if s.producer = .running ∧ s.waits who = false then
      s.publish policy runId who cancelling kind text data valid none
    else (s,.idle)
  | .resume who => ({ s with queue := s.queue.retry maxsize who },.idle)
  | .cancel who =>
    if s.producer = .running then ({ s with queue := s.queue.cancel maxsize who },.idle)
    else (s,.idle)
  | .returned result =>
    if s.producer = .running ∧ s.quiet = true then
      s.produce policy runId (resultKind result) (some result) .resulted
    else (s,.idle)
  | .raised message =>
    if s.producer = .running ∧ s.quiet = true then
      ({ s.enqueue 0 (.failure message) with producer := .failed },.idle)
    else (s,.idle)
  | .close =>
    if (s.producer = .resulted ∨ s.producer = .failed) ∧ s.quiet = true then
      ({ s.enqueue 0 .done with producer := .finished },.idle)
    else (s,.idle)
  | .get => s.get

def run (ops : List StreamOp) : EventStream :=
  Machine.final (step policy runId) {} ops

def unhurried : StreamOp → Bool
  | .publish _ _ _ _ _ valid => s.quiet && valid
  | .cancel who => !s.waits who
  | _ => true

def readToEnd : Bool :=
  decide (StreamItem.done ∈ s.received) && s.received.all (fun x => x.event?.isSome || decide (x = .done))

def emitted : List StreamItem := s.received ++ s.queue.inFlight

def Unresolved (events : List RunEvent) : Prop := ∀ e ∈ events, e.result = none

def Resolved (events : List RunEvent) : Prop :=
  ∃ init e, events = init ++ [e] ∧ Unresolved init ∧ e.result.isSome = true

def Fits (events : List RunEvent) (markers : List StreamItem) : Producer → Prop
  | .opening | .running => markers = [] ∧ Unresolved events
  | .resulted => markers = [] ∧ Resolved events
  | .failed => (∃ message, markers = [.failure message]) ∧ Unresolved events
  | .finished => markers = [.done] ∧ Resolved events ∨
      (∃ message, markers = [.failure message,.done]) ∧ Unresolved events

def waiting : Producer → ℕ
  | .opening => 0
  | _ => 1

structure InOrder (s : EventStream) : Prop where
  single : s.queue.putters.length ≤ waiting s.producer
  numbered : ∃ events markers, s.emitted = events.map StreamItem.event ++ markers ∧
    events.map (fun e => e.sequence) = List.range' 1 s.sequence ∧ Fits events markers s.producer

theorem waiting_le_one (p : Producer) : waiting p ≤ 1 := by
  cases p <;> decide

theorem in_order_initial : InOrder {} := by
  refine ⟨Nat.zero_le _,[],[],rfl,rfl,rfl,?_⟩
  simp [Unresolved]

theorem quiet_putters {s : EventStream} (h : s.quiet = true) : s.queue.putters = [] :=
  List.isEmpty_iff.mp h

/-- A put that meets no waiting event goes behind everything put so far. -/
theorem enqueue_emitted {s : EventStream} (h : s.quiet = true) (who : ℕ) (item : StreamItem) :
    (s.enqueue who item).emitted = s.emitted ++ [item] ∧
    (s.enqueue who item).queue.putters.length ≤ 1 := by
  obtain ⟨hflight,hlen⟩ := BoundedQueue.put_in_flight maxsize s.queue who item (quiet_putters h)
  exact ⟨by simp [emitted, enqueue, hflight],hlen⟩

theorem count_text_cases (text : String) :
    ∃ n, s.countText kind text = { s with textBytes := n } := by
  unfold countText
  split_ifs
  · exact ⟨_,rfl⟩
  · exact ⟨s.textBytes,rfl⟩

/-- `publish` of a valid event raises and numbers nothing, or it numbers and puts its event. -/
theorem publish_cases (s : EventStream) (who : ℕ) (cancelling : Bool) (kind : RunEventKind)
    (text : String) (data : Json) (result : Option RunResult) :
    ∃ n, (∃ answer, answer ≠ .published ∧
        s.publish policy runId who cancelling kind text data true result =
          ({ s with textBytes := n },answer)) ∨
      s.publish policy runId who cancelling kind text data true result =
        (enqueue { s with textBytes := n, sequence := s.sequence+1 } who
          (.event ⟨runId,s.sequence+1,kind,text,data,result⟩),.published) := by
  obtain ⟨n,hn⟩ := count_text_cases s kind text
  unfold publish
  by_cases hout : s.closed = true ∨ cancelling = true
  · exact ⟨s.textBytes,.inl ⟨.cancelledError,nofun,by rw [if_pos hout]⟩⟩
  · rw [if_neg hout, hn]
    refine ⟨n,?_⟩
    cases hr : refusal policy { s with textBytes := n } kind data with
    | some message => exact .inl ⟨.valueError message,nofun,by simp only [hr]⟩
    | none => exact .inr (by simp [hr])

theorem InOrder.unmoved {s t : EventStream} (h : InOrder s)
    (hq : t.queue.putters.length ≤ s.queue.putters.length) (he : t.emitted = s.emitted)
    (hn : t.sequence = s.sequence) (hp : t.producer = s.producer) :
    InOrder t := by
  constructor
  · rw [hp]
    exact hq.trans h.single
  · rw [he, hn, hp]
    exact h.numbered

/-- The next number is published behind everything put so far. -/
theorem InOrder.numbers {s : EventStream} (h : InOrder s)
    (hopen : s.producer = .opening ∨ s.producer = .running) (hquiet : s.quiet = true) (n who : ℕ)
    (runId : String) (kind : RunEventKind) (text : String) (data : Json)
    (result : Option RunResult) (next : Producer)
    (hnext : next = if result.isSome then .resulted else .running) :
    InOrder { enqueue { s with textBytes := n, sequence := s.sequence+1 } who
      (.event ⟨runId,s.sequence+1,kind,text,data,result⟩) with producer := next } := by
  obtain ⟨events,markers,hitems,hseq,hfits⟩ := h.numbered
  obtain ⟨rfl,hplain⟩ : markers = [] ∧ Unresolved events := by
    rcases hopen with hp | hp <;> simpa only [hp, Fits] using hfits
  obtain ⟨hput,hlen⟩ := enqueue_emitted (s := { s with textBytes := n, sequence := s.sequence+1 })
    hquiet who (.event ⟨runId,s.sequence+1,kind,text,data,result⟩)
  refine ⟨?_,events ++ [⟨runId,s.sequence+1,kind,text,data,result⟩],[],?_,?_,?_⟩
  · subst hnext
    split_ifs <;> exact hlen
  · refine hput.trans ?_
    rw [show emitted { s with textBytes := n, sequence := s.sequence+1 } = s.emitted from rfl, hitems]
    simp
  · show _ = List.range' 1 (s.sequence+1)
    rw [List.map_append, hseq, List.range'_concat]
    simp [Nat.add_comm]
  · cases result with
    | none =>
      subst hnext
      refine ⟨rfl,fun e he => ?_⟩
      rcases List.mem_append.mp he with he | he
      · exact hplain e he
      · rw [List.mem_singleton.mp he]
    | some r =>
      subst hnext
      exact ⟨rfl,events,_,rfl,hplain,rfl⟩

theorem InOrder.fails {s : EventStream} (h : InOrder s)
    (hopen : s.producer = .opening ∨ s.producer = .running) (hquiet : s.quiet = true)
    (message : String) :
    InOrder { s.enqueue 0 (.failure message) with producer := .failed } := by
  obtain ⟨events,markers,hitems,hseq,hfits⟩ := h.numbered
  obtain ⟨rfl,hplain⟩ : markers = [] ∧ Unresolved events := by
    rcases hopen with hp | hp <;> simpa only [hp, Fits] using hfits
  obtain ⟨hput,hlen⟩ := enqueue_emitted hquiet 0 (.failure message)
  refine ⟨hlen,events,[.failure message],?_,hseq,⟨message,rfl⟩,hplain⟩
  refine hput.trans ?_
  rw [hitems, List.append_nil]

theorem InOrder.ends {s : EventStream} (h : InOrder s)
    (hlast : s.producer = .resulted ∨ s.producer = .failed) (hquiet : s.quiet = true) :
    InOrder { s.enqueue 0 .done with producer := .finished } := by
  obtain ⟨events,markers,hitems,hseq,hfits⟩ := h.numbered
  obtain ⟨hput,hlen⟩ := enqueue_emitted hquiet 0 .done
  refine ⟨hlen,events,markers ++ [.done],?_,hseq,?_⟩
  · refine hput.trans ?_
    rw [hitems, List.append_assoc]
  · rcases hlast with hp | hp <;> simp only [hp, Fits] at hfits
    · obtain ⟨rfl,hres⟩ := hfits
      exact .inl ⟨rfl,hres⟩
    · obtain ⟨⟨message,rfl⟩,hplain⟩ := hfits
      exact .inr ⟨⟨message,rfl⟩,hplain⟩

theorem produce_in_order {policy : ExecutionPolicy} {runId : String} {s : EventStream}
    (h : InOrder s) (hopen : s.producer = .opening ∨ s.producer = .running)
    (hquiet : s.quiet = true) (kind : RunEventKind) {result : Option RunResult} {next : Producer}
    (hnext : next = if result.isSome then .resulted else .running) :
    InOrder (s.produce policy runId kind result next).1 := by
  unfold produce
  obtain ⟨n,⟨answer,hne,hpub⟩ | hpub⟩ :=
    publish_cases policy runId s 0 false kind "" (.obj []) result
  · rw [hpub]
    have hcounted : InOrder { s with textBytes := n } := h.unmoved le_rfl rfl rfl rfl
    cases answer with
    | published => exact absurd rfl hne
    | valueError message => exact hcounted.fails hopen hquiet message
    | idle | cancelledError | validationError | yielded | reraised | ended => exact hcounted
  · rw [hpub]
    exact h.numbers hopen hquiet n 0 runId kind "" (.obj []) result next hnext

theorem cancel_unwaited {s : EventStream} {who : ℕ} (h : s.waits who = false) :
    s.queue.cancel maxsize who = s.queue := by
  have hnone : s.queue.putters.find? (fun p => decide (p.who = who)) = none := by
    rw [List.find?_eq_none]
    exact fun p hp => by simpa using (List.any_eq_false.mp h) p hp
  unfold BoundedQueue.cancel
  rw [hnone]

theorem get_in_order {s : EventStream} (h : InOrder s) : InOrder s.get.1 := by
  unfold get
  split_ifs
  · exact h
  · cases ht : s.queue.take with
    | none => exact h
    | some taken =>
      obtain ⟨item,queue⟩ := taken
      obtain ⟨hflight,hlen⟩ := BoundedQueue.take_in_flight ht
      exact h.unmoved hlen.le (by simp [emitted, hflight]) rfl rfl

theorem step_in_order (s : EventStream) (op : StreamOp) (hc : s.unhurried op = true)
    (h : InOrder s) : InOrder (s.step policy runId op).1 := by
  cases op with
  | started =>
    simp only [step]
    split_ifs with hp
    · have hquiet : s.quiet = true := by
        have hnone := h.single
        rw [hp, waiting, Nat.le_zero, List.length_eq_zero_iff] at hnone
        rw [quiet, hnone, List.isEmpty_nil]
      exact produce_in_order h (.inl hp) hquiet .started rfl
    · exact h
  | publish who cancelling kind text data valid =>
    obtain ⟨hquiet,rfl⟩ := Bool.and_eq_true_iff.mp hc
    simp only [step]
    split_ifs with hp
    · obtain ⟨n,⟨answer,-,hpub⟩ | hpub⟩ :=
        publish_cases policy runId s who cancelling kind text data none
      · rw [hpub]
        exact h.unmoved le_rfl rfl rfl rfl
      · have hnumbers := h.numbers (.inr hp.1) hquiet n who runId kind text data none s.producer hp.1
        rw [hpub]
        exact hnumbers
    · exact h
  | resume who =>
    obtain ⟨hflight,hlen⟩ := BoundedQueue.retry_in_flight maxsize s.queue who
      (h.single.trans (waiting_le_one _))
    exact h.unmoved hlen (by simp [step, emitted, hflight]) rfl rfl
  | cancel who =>
    simp only [step]
    split_ifs
    · rw [cancel_unwaited (by simpa [unhurried] using hc)]
      exact h
    · exact h
  | returned result =>
    simp only [step]
    split_ifs with hp
    · exact produce_in_order h (.inr hp.1) hp.2 (resultKind result) rfl
    · exact h
  | raised message =>
    simp only [step]
    split_ifs with hp
    · exact h.fails (.inr hp.1) hp.2 message
    · exact h
  | close =>
    simp only [step]
    split_ifs with hp
    · exact h.ends hp.1 hp.2
    · exact h
  | get => exact get_in_order h

theorem run_in_order {policy : ExecutionPolicy} {runId : String} {ops : List StreamOp}
    (hc : Machine.along (step policy runId) unhurried {} ops = true) :
    InOrder (run policy runId ops) :=
  Machine.final_invariant_along (step policy runId) unhurried InOrder
    (step_in_order policy runId) {} ops hc in_order_initial

variable {events : List RunEvent} {markers : List StreamItem} {p : Producer}

open StreamItem

theorem fits_marker (h : Fits events markers p) : ∀ x ∈ markers, x.event? = none := by
  cases p with
  | opening | running | resulted => simp [h.1]
  | failed =>
    obtain ⟨⟨message,rfl⟩,-⟩ := h
    simp [event?]
  | finished =>
    obtain ⟨rfl,-⟩ | ⟨⟨message,rfl⟩,-⟩ := h <;> simp [event?]

theorem filter_map_events (events : List RunEvent) :
    (events.map event).filterMap event? = events := by
  induction events with
  | nil => rfl
  | cons e events ih => simp [event?, ih]

/-- What the consumer has seen is a beginning of what was numbered. -/
theorem InOrder.yields {s : EventStream} (h : InOrder s) :
    ∃ events markers, s.emitted = events.map event ++ markers ∧
      events.map (fun e => e.sequence) = List.range' 1 s.sequence ∧
      Fits events markers s.producer ∧ s.yielded <+: events := by
  obtain ⟨events,markers,hitems,hseq,hfits⟩ := h.numbered
  refine ⟨events,markers,hitems,hseq,hfits,?_⟩
  have hmarkers : markers.filterMap event? = [] :=
    List.filterMap_eq_nil_iff.mpr (fits_marker hfits)
  have hevents : s.emitted.filterMap event? = events := by
    rw [hitems, List.filterMap_append, filter_map_events, hmarkers, List.append_nil]
  have hreceived : s.received <+: s.emitted := List.prefix_append _ _
  rw [← hevents]
  exact hreceived.filterMap _

theorem prefix_range {xs : List ℕ} {n : ℕ} (h : xs <+: List.range' 1 n) :
    xs = List.range' 1 xs.length := by
  have hlen : xs.length ≤ n := by simpa using h.length_le
  have hsplit : List.range' 1 xs.length ++ List.range' (1+xs.length) (n-xs.length) =
      List.range' 1 n := by
    rw [List.range'_append_1, Nat.add_sub_cancel' hlen]
  have hbegin : List.range' 1 xs.length <+: List.range' 1 n := ⟨_,hsplit⟩
  exact (List.prefix_of_prefix_length_le h hbegin (by simp)).eq_of_length (by simp)

theorem fits_result (h : Fits events markers p) {e : RunEvent} (he : e ∈ events)
    (hr : e.result.isSome = true) : Resolved events := by
  have hplain : ¬ Unresolved events := by
    intro hu
    rw [hu e he] at hr
    simp at hr
  cases p with
  | opening | running => exact absurd h.2 hplain
  | resulted => exact h.2
  | failed => exact absurd h.2 hplain
  | finished =>
    obtain ⟨-,hres⟩ | ⟨-,hu⟩ := h
    · exact hres
    · exact absurd hu hplain

/-- A beginning of the events that holds a result is all of them. -/
theorem resolved_prefix {xs : List RunEvent} (h : Resolved events) (hxs : xs <+: events)
    {e : RunEvent} (he : e ∈ xs) (hr : e.result.isSome = true) : xs = events := by
  obtain ⟨init,last,rfl,hinit,-⟩ := h
  rcases List.prefix_concat_iff.mp hxs with rfl | hshort
  · rfl
  · have hnone := hinit e (hshort.subset he)
    simp [hnone] at hr

theorem fits_done (h : Fits events markers p) (hd : done ∈ markers) :
    markers = [.done] ∧ Resolved events ∨ ∃ message, markers = [.failure message,.done] := by
  cases p with
  | opening | running | resulted => simp [h.1] at hd
  | failed =>
    obtain ⟨⟨message,rfl⟩,-⟩ := h
    simp at hd
  | finished =>
    obtain ⟨rfl,hres⟩ | ⟨⟨message,rfl⟩,-⟩ := h
    · exact .inl ⟨rfl,hres⟩
    · exact .inr ⟨message,rfl⟩

/-- A consumer at the end marker has received everything before it. -/
theorem received_all {s : EventStream} {rest : List StreamItem}
    (hitems : s.emitted = rest ++ [.done]) (hfree : done ∉ rest)
    (hdone : done ∈ s.received) : s.received = rest ++ [.done] := by
  have hbegin : s.received <+: rest ++ [.done] := by
    rw [← hitems]
    exact List.prefix_append _ _
  rcases List.prefix_concat_iff.mp hbegin with heq | hshort
  · exact heq
  · exact absurd (hshort.subset hdone) hfree

theorem read_to_end_items {s : EventStream}
    (hitems : s.emitted = events.map event ++ markers)
    (hfits : Fits events markers s.producer) (h : s.readToEnd = true) :
    s.yielded = events ∧ Resolved events := by
  simp only [readToEnd, Bool.and_eq_true, decide_eq_true_eq, List.all_eq_true] at h
  obtain ⟨hdone,hclean⟩ := h
  have hmem : done ∈ markers := by
    have hin : done ∈ s.emitted := List.mem_append_left _ hdone
    rw [hitems] at hin
    simpa using hin
  rcases fits_done hfits hmem with ⟨rfl,hres⟩ | ⟨message,rfl⟩
  · refine ⟨?_,hres⟩
    rw [yielded, received_all hitems (by simp) hdone, List.filterMap_append, filter_map_events]
    simp [event?]
  · have hsplit : s.emitted = (events.map event ++ [.failure message]) ++ [.done] := by
      simp [hitems]
    have hall := received_all hsplit (by simp) hdone
    have hbad := hclean (.failure message) (by simp [hall])
    simp [event?] at hbad

end EventStream

open EventStream

/-- Where no event is published while another waits for a place, no waiting event is
cancelled and every event built is valid, the consumer sees 1, 2, 3, … and the
result last. -/
theorem stream_events_in_sequence (policy : ExecutionPolicy) (runId : String)
    (ops : List StreamOp) (hc : Machine.along (step policy runId) unhurried {} ops = true) :
    (run policy runId ops).yielded.map (fun e => e.sequence) =
      List.range' 1 (run policy runId ops).yielded.length ∧
    (∀ pre e post, (run policy runId ops).yielded = pre ++ e::post → e.result.isSome = true →
      post = []) ∧
    ((run policy runId ops).readToEnd = true →
      (run policy runId ops).yielded.length = (run policy runId ops).sequence ∧
      ∃ init last, (run policy runId ops).yielded = init ++ [last] ∧
        last.result.isSome = true) := by
  obtain ⟨events,markers,hitems,hseq,hfits,hbegin⟩ := (run_in_order hc).yields
  refine ⟨?_,?_,?_⟩
  · have hnumbers := hbegin.map (fun e => e.sequence)
    rw [hseq] at hnumbers
    simpa using prefix_range hnumbers
  · intro pre e post hsplit hr
    have he : e ∈ (run policy runId ops).yielded := by simp [hsplit]
    have hres := fits_result hfits (hbegin.subset he) hr
    have hall := resolved_prefix hres hbegin he hr
    obtain ⟨init,last,hevents,hinit,-⟩ := hres
    by_contra hpost
    obtain ⟨post',x,rfl⟩ := List.eq_nil_or_concat post |>.resolve_left hpost
    have hends : (pre ++ e::post') ++ [x] = init ++ [last] := by
      rw [← hevents, ← hall, hsplit]
      simp
    have hin : e ∈ init := by
      rw [← List.append_inj_left' hends rfl]
      simp
    simp [hinit e hin] at hr
  · intro hread
    obtain ⟨hall,init,last,hevents,-,hr⟩ := read_to_end_items hitems hfits hread
    refine ⟨?_,init,last,by rw [hall, hevents],hr⟩
    have hlen := congrArg List.length hseq
    simpa [hall] using hlen

def deltaOp : StreamOp := .publish 0 false .delta "x" (.obj []) true

def toolStartedOp (who : ℕ) : StreamOp := .publish who false .toolStarted "" (.obj []) true

def sampleResult (status : RunStatus) : RunResult :=
  { runId := "run"
    status := status
    observations := []
    iterationsUsed := 1
    toolCallsUsed := 2
    startedAt := 0
    finishedAt := 1 }

def fullQueueOps : List StreamOp := .started::List.replicate 15 deltaOp ++ [toolStartedOp 1]

def patientOps : List StreamOp :=
  fullQueueOps ++ [.get,.resume 1,.returned (sampleResult .succeeded)] ++
    List.replicate 16 .get ++ [.resume 0,.close,.get,.get]

theorem stream_events_in_sequence_slow_consumer :
    Machine.along (step defaultPolicy "run") unhurried {} patientOps = true ∧
    (run defaultPolicy "run" patientOps).readToEnd = true ∧
    (run defaultPolicy "run" patientOps).yielded.length =
      (run defaultPolicy "run" patientOps).sequence := by
  have hc : Machine.along (step defaultPolicy "run") unhurried {} patientOps = true := by
    decide +kernel
  have hread : (run defaultPolicy "run" patientOps).readToEnd = true := by
    decide +kernel
  exact ⟨hc,hread,((stream_events_in_sequence defaultPolicy "run" patientOps hc).2.2 hread).1⟩

def overtakingOps : List StreamOp :=
  fullQueueOps ++ [.get,toolStartedOp 2,.resume 1,.get,.resume 1] ++
    List.replicate 16 .get ++ [.returned (sampleResult .succeeded),.close,.get,.get]

def cancelledOps : List StreamOp :=
  fullQueueOps ++ [.cancel 1] ++ List.replicate 16 .get ++
    [.returned (sampleResult .cancelled),.close,.get,.get]

def invalidOps : List StreamOp :=
  [.started,.publish 0 false .status "" (.obj []) false,.returned (sampleResult .failed),.close,
    .get,.get,.get]

theorem stream_events_out_of_sequence :
    ((run defaultPolicy "run" overtakingOps).readToEnd = true ∧
      (run defaultPolicy "run" overtakingOps).yielded.map (fun e => e.sequence) =
        List.range' 1 16 ++ [18,17,19]) ∧
    ((run defaultPolicy "run" cancelledOps).readToEnd = true ∧
      (run defaultPolicy "run" cancelledOps).yielded.map (fun e => e.sequence) =
        List.range' 1 16 ++ [18]) ∧
    (run defaultPolicy "run" invalidOps).readToEnd = true ∧
      (run defaultPolicy "run" invalidOps).yielded.map (fun e => e.sequence) = [1,3] := by
  decide +kernel

end SuiteHarness.Execution
