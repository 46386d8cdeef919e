import SuiteHarness.Sessions.Ownership

/-!
# Transcript accounting

A history tells which appends and checkpoint saves were new: those that
returned an event or a checkpoint nobody had been given before. The books of a
session say that its revision counts these and the status changes, that its
transcript is the list of the new events, and that its checkpoints are the
newest of those ever saved. They are kept by every effect whose errors leave the
store alone.
-/

set_option autoImplicit false

namespace SuiteHarness.Sessions
open SuiteHarness.Library SuiteHarness.Library.Table

abbrev Entry := (Readings × Call) × Outcome

variable (i : SessionIdentity)

def appendedBy (stored : List TranscriptEvent) : Entry → List TranscriptEvent
  | ((_,.append j _),.ok (.event e)) => if j = i ∧ e ∉ stored then stored ++ [e] else stored
  | _ => stored

def appended (h : List Entry) : List TranscriptEvent :=
  h.foldl (appendedBy i) []

def savedBy (saved : List SessionCheckpoint) : Entry → List SessionCheckpoint
  | ((_,.saveCheckpoint j _),.ok (.checkpoint c)) =>
    if j = i ∧ c ∉ saved then saved ++ [c] else saved
  | _ => saved

def saved (h : List Entry) : List SessionCheckpoint :=
  h.foldl (savedBy i) []

def changesStatus : Entry → Bool
  | ((_,.setStatus j _ _),.ok _) => decide (j = i)
  | _ => false

def statuses (h : List Entry) : ℕ := h.countP (changesStatus i)

theorem appended_concat (h : List Entry) (x : Entry) :
    appended i (h ++ [x]) = appendedBy i (appended i h) x := by
  simp [appended]

theorem saved_concat (h : List Entry) (x : Entry) :
    saved i (h ++ [x]) = savedBy i (saved i h) x := by
  simp [saved]

theorem statuses_concat (h : List Entry) (x : Entry) :
    statuses i (h ++ [x]) = statuses i h+if changesStatus i x then 1 else 0 := by
  simp [statuses, List.countP_append, List.countP_cons]

structure Booked (record : Option SessionRecord) (events : List TranscriptEvent)
    (checkpoints : List SessionCheckpoint) (stored : List TranscriptEvent)
    (kept : List SessionCheckpoint) (n : ℕ) : Prop where
  events : events = stored
  absent : record = none → stored = [] ∧ kept = [] ∧ n = 0
  revision : ∀ row, record = some row → row.revision = stored.length+kept.length+n
  suffix : checkpoints <:+ kept
  latest : kept ≠ [] → checkpoints ≠ []
  order : Ascending (fun c => c.revision) kept
  bound : ∀ row, record = some row → ∀ c ∈ kept, c.revision ≤ row.revision
  apart : ∀ e ∈ stored, ∀ c ∈ kept, e.revision ≠ c.revision

section Books
variable {record : Option SessionRecord} {row : SessionRecord} {events : List TranscriptEvent}
variable {checkpoints : List SessionCheckpoint} {stored : List TranscriptEvent}
variable {kept : List SessionCheckpoint} {n : ℕ} {i : SessionIdentity}
variable (new : SessionRecord)

theorem booked_new (h : Booked none events checkpoints stored kept n) (hr : new.revision = 0) :
    Booked (some new) [] [] stored kept n := by
  obtain ⟨rfl,rfl,rfl⟩ := h.absent rfl
  exact {
    events := rfl
    absent := nofun
    revision := by
      rintro row ⟨⟩
      exact hr
    suffix := List.suffix_rfl
    latest := fun hne => absurd rfl hne
    order := List.Pairwise.nil
    bound := by simp
    apart := by simp }

theorem booked_event (e : TranscriptEvent)
    (h : Booked (some row) events checkpoints stored kept n)
    (hc : Coherent i row events checkpoints) (he : e.revision = row.revision+1)
    (hr : new.revision = row.revision+1) :
    e ∉ stored ∧ Booked (some new) (events ++ [e]) checkpoints (stored ++ [e]) kept n := by
  have hevents := h.events
  subst hevents
  refine ⟨fun hmem => ?_,?_⟩
  · have hle := (hc.eventBound e hmem).2
    omega
  exact {
    events := rfl
    absent := nofun
    revision := by
      rintro row' ⟨⟩
      rw [hr, h.revision row rfl, List.length_append, List.length_singleton]
      omega
    suffix := h.suffix
    latest := h.latest
    order := h.order
    bound := by
      rintro row' ⟨⟩ c hmem
      have hle := h.bound row rfl c hmem
      omega
    apart := by
      intro e' he' c hmem
      rcases List.mem_append.mp he' with hold | hnew
      · exact h.apart e' hold c hmem
      · rw [List.mem_singleton.mp hnew]
        have hle := h.bound row rfl c hmem
        omega }

theorem booked_checkpoint (limits : SessionStoreLimits) (new : SessionRecord)
    (h : Booked (some row) events checkpoints stored kept n)
    (hc : Coherent i row events checkpoints) {c : SessionCheckpoint}
    (hrev : c.revision = row.revision+1) (hr : new.revision = row.revision+1)
    (hfits : stateBytes c ≤ limits.maxCheckpointBytesPerSession) :
    c ∉ kept ∧ Booked (some new) events (retained limits (checkpoints ++ [c])) stored
      (kept ++ [c]) n := by
  have hevents := h.events
  subst hevents
  refine ⟨fun hmem => ?_,?_⟩
  · have hle := h.bound row rfl c hmem
    omega
  exact {
    events := rfl
    absent := nofun
    revision := by
      rintro row' ⟨⟩
      rw [hr, h.revision row rfl, List.length_append, List.length_singleton]
      omega
    suffix := by
      obtain ⟨pruned,hpruned⟩ := h.suffix
      exact (retained_suffix limits _).trans ⟨pruned,by rw [← List.append_assoc, hpruned]⟩
    latest := fun _ => List.ne_nil_of_mem (retained_last limits checkpoints c hfits)
    order := by
      refine List.pairwise_append.mpr ⟨h.order,List.pairwise_singleton _ _,?_⟩
      intro a ha b hb
      rw [List.mem_singleton.mp hb]
      show a.revision < c.revision
      rw [hrev]
      exact Nat.lt_succ_of_le (h.bound row rfl a ha)
    bound := by
      rintro row' ⟨⟩ a ha
      rcases List.mem_append.mp ha with hold | hnew
      · have hle := h.bound row rfl a hold
        omega
      · rw [List.mem_singleton.mp hnew, hrev, hr]
    apart := by
      intro e he a ha
      rcases List.mem_append.mp ha with hold | hnew
      · exact h.apart e he a hold
      · rw [List.mem_singleton.mp hnew]
        have hle := (hc.eventBound e he).2
        omega }

theorem booked_status (h : Booked (some row) events checkpoints stored kept n)
    (hr : new.revision = row.revision+1) :
    Booked (some new) events checkpoints stored kept (n+1) where
  events := h.events
  absent := nofun
  revision := by
    rintro row' ⟨⟩
    rw [hr, h.revision row rfl]
    omega
  suffix := h.suffix
  latest := h.latest
  order := h.order
  bound := by
    rintro row' ⟨⟩ c hmem
    have hle := h.bound row rfl c hmem
    omega
  apart := h.apart

/-- The newest checkpoint ever saved is the newest one kept. -/
theorem Booked.last (h : Booked record events checkpoints stored kept n) :
    checkpoints.getLast? = kept.getLast? := by
  obtain ⟨pruned,rfl⟩ := h.suffix
  cases checkpoints using List.reverseRecOn with
  | nil =>
    have hnil : pruned ++ [] = [] := by
      by_contra hne
      exact h.latest hne rfl
    rw [hnil]
  | append_singleton front c => rw [← List.append_assoc]; simp

end Books

def Ledger (h : List Entry) (v : View) : Prop :=
  ∀ i, Booked (v.record i) (v.events i) (v.checkpoints i) (appended i h) (saved i h) (statuses i h)

theorem ledger_empty : Ledger [] View.empty := by
  intro i
  exact ⟨rfl,fun _ => ⟨rfl,rfl,rfl⟩,nofun,List.suffix_rfl,fun h => absurd rfl h,List.Pairwise.nil,
    nofun,by simp [appended]⟩

def Idle (h : List Entry) (x : Entry) : Prop :=
  appended i (h ++ [x]) = appended i h ∧ saved i (h ++ [x]) = saved i h ∧
    statuses i (h ++ [x]) = statuses i h

theorem idle_error (h : List Entry) (rc : Readings × Call) (e : SessionError) :
    Idle i h (rc,.error e) := by
  obtain ⟨r,c⟩ := rc
  unfold Idle
  rw [appended_concat, saved_concat, statuses_concat]
  cases c <;> simp [appendedBy, savedBy, changesStatus]

def Call.writes : Call → Option SessionIdentity
  | .append i _ => some i
  | .saveCheckpoint i _ => some i
  | .setStatus i _ _ => some i
  | _ => none

variable {pf : Platform} {limits : SessionStoreLimits} {r : Readings} {c : Call}

theorem idle_other (h : List Entry) (r : Readings) (o : Outcome)
    (hc : c.writes ≠ some i) : Idle i h ((r,c),o) := by
  unfold Idle
  rw [appended_concat, saved_concat, statuses_concat]
  cases o with
  | error e => cases c <;> simp [appendedBy, savedBy, changesStatus]
  | ok reply =>
    cases c with
    | append j a | saveCheckpoint j a =>
      have hj : j ≠ i := fun hj => hc (congrArg some hj)
      cases reply <;> simp [appendedBy, savedBy, changesStatus, hj]
    | setStatus j status expected =>
      have hj : j ≠ i := fun hj => hc (congrArg some hj)
      simp [appendedBy, savedBy, changesStatus, hj]
    | _ => exact ⟨rfl,rfl,by simp [changesStatus]⟩

section Effects
variable {rowErrors : List SessionError} {v w : View} {h : List Entry}

theorem ledger_idle {x : Entry} (hl : Ledger h v) (hrecord : w.record = v.record)
    (hevents : w.events = v.events) (hcheckpoints : w.checkpoints = v.checkpoints)
    (hx : ∀ i, Idle i h x) : Ledger (h ++ [x]) w := by
  intro i
  rw [hrecord, hevents, hcheckpoints, (hx i).1, (hx i).2.1, (hx i).2.2]
  exact hl i

/-- A call that answers from what is there stores nothing new. -/
theorem ledger_answer {reply : Reply} (hl : Ledger h v) (ha : Answers v r c reply) :
    Ledger (h ++ [((r,c),.ok reply)]) v := by
  refine ledger_idle hl rfl rfl rfl (fun i => ?_)
  by_cases hc : c.writes = some i
  · cases c with
    | append j a =>
      obtain rfl : j = i := Option.some.inj hc
      cases reply with
      | event e =>
        have hmem : e ∈ appended j h := (hl j).events ▸ ha.1
        unfold Idle
        rw [appended_concat, saved_concat, statuses_concat]
        simp [appendedBy, savedBy, changesStatus, hmem]
      | _ => cases ha
    | saveCheckpoint j a =>
      obtain rfl : j = i := Option.some.inj hc
      cases reply with
      | checkpoint c =>
        have hmem : c ∈ saved j h := (hl j).suffix.subset ha.1
        unfold Idle
        rw [appended_concat, saved_concat, statuses_concat]
        simp [appendedBy, savedBy, changesStatus, hmem]
      | _ => cases ha
    | setStatus j status expected => cases ha
    | _ => cases hc
  · exact idle_other i h r (.ok reply) hc

/-- A session replaced as a whole: its own books, and those of the others. -/
theorem ledger_session {o : Outcome} {i : SessionIdentity} {new : SessionRecord}
    {events : List TranscriptEvent} {checkpoints : List SessionCheckpoint}
    (point : RunKey → Option RunResumePoint) (hl : Ledger h v) (hc : c.writes = none ∨ c.writes = some i)
    (hi : Booked (some new) events checkpoints (appended i (h ++ [((r,c),o)]))
      (saved i (h ++ [((r,c),o)])) (statuses i (h ++ [((r,c),o)]))) :
    Ledger (h ++ [((r,c),o)]) ((v.setSession i new events checkpoints).setPoints point) := by
  intro j
  by_cases hj : j = i
  · subst hj
    simpa [View.setSession, View.setPoints] using hi
  · have hother : c.writes ≠ some j := by
      rcases hc with hc | hc <;> simp [hc, Ne.symm hj]
    obtain ⟨happended,hsaved,hstatuses⟩ := idle_other j h r o hother
    rw [happended, hsaved, hstatuses]
    simpa [View.setSession, View.setPoints, hj] using hl j

theorem ledger_effect {o : Outcome} (hl : Ledger h v) (hw : WellFormed pf v)
    (he : Effect pf limits rowErrors v r c o w) (herror : ∀ e, o = .error e → w = v) :
    Ledger (h ++ [((r,c),o)]) w := by
  cases he with
  | raise _ e => exact ledger_idle hl rfl rfl rfl (fun i => idle_error i h (r,c) e)
  | answer _ reply ha => exact ledger_answer hl ha
  | create i now hnone =>
    refine ledger_session v.point hl (.inl rfl) ?_
    obtain ⟨happended,hsaved,hstatuses⟩ := idle_other i h r (c := .create i)
      (.ok (.session (newRecord i now))) nofun
    rw [happended, hsaved, hstatuses]
    have hbooks := hl i
    rw [hnone] at hbooks
    exact booked_new _ hbooks rfl
  | append i a record source e point happ =>
    have hbooks := hl i
    rw [happ.session] at hbooks
    obtain ⟨hfresh,hnew⟩ := booked_event (recordAfterEvent record e source) e hbooks
      (hw.coherent i record happ.session) (by rw [happ.event]; rfl) (by rw [happ.event]; rfl)
    refine ledger_session point hl (.inr rfl) ?_
    rw [appended_concat, saved_concat, statuses_concat]
    simpa [appendedBy, savedBy, changesStatus, hfresh] using hnew
  | checkpoint i a record c hck =>
    have hbooks := hl i
    rw [hck.session] at hbooks
    have hrev : c.revision = record.revision+1 := by
      rw [hck.checkpoint]
      rfl
    obtain ⟨hfresh,hnew⟩ := booked_checkpoint limits
      { record with revision := c.revision, updatedAt := r.wall } hbooks
      (hw.coherent i record hck.session) hrev hrev hck.fits
    refine ledger_session v.point hl (.inr rfl) ?_
    rw [appended_concat, saved_concat, statuses_concat]
    simpa [appendedBy, savedBy, changesStatus, hfresh] using hnew
  | status i status record _ hrecord ho =>
    rcases ho with rfl | ⟨e,-,rfl⟩
    · have hbooks := hl i
      rw [hrecord] at hbooks
      refine ledger_session v.point hl (.inr rfl) ?_
      rw [appended_concat, saved_concat, statuses_concat]
      simpa [appendedBy, savedBy, changesStatus] using booked_status
        { record with status := status, revision := record.revision+1, updatedAt := r.wall } hbooks rfl
    · rw [herror e rfl]
      exact ledger_idle hl rfl rfl rfl (fun i => idle_error i h _ e)
  | acquire | expire | finalize | stop | refusePoint | savePoint | readPoint =>
    exact ledger_idle hl rfl rfl rfl (fun i => idle_other i h r _ nofun)

end Effects

variable {e : SessionError}

theorem settle_error {σ α : Type} {s : σ} {f : α → Reply} {x : Except SessionError (σ × α)}
    (h : (settle s f x).2 = .error e) : (settle s f x).1 = s := by
  cases x with
  | error e' => rfl
  | ok result => cases h

theorem settle_ok {σ α : Type} {s : σ} {f : α → Reply} {x : Except SessionError (σ × α)}
    {reply : Reply} (h : (settle s f x).2 = .ok reply) :
    ∃ a, x = .ok ((settle s f x).1,a) ∧ reply = f a := by
  cases x with
  | error e => cases h
  | ok result =>
    cases h
    exact ⟨result.2,rfl,rfl⟩

namespace InMemorySessionStore
variable {s t : InMemorySessionStore} {i : SessionIdentity}

theorem call_error (h : (s.call pf limits r c).2 = .error e) :
    (s.call pf limits r c).1 = s := by
  cases c with
  | get => cases h
  | _ => exact settle_error h

/-- An append returns a stored event and does nothing, or the next revision. -/
theorem append_ok {a : AppendArgs} {e : TranscriptEvent}
    (h : s.append limits r i a = .ok (t,e)) :
    t = s ∨ ∃ record, s.view.record i = some record ∧ e.revision = record.revision+1 := by
  unfold append require at h
  cases hp : prepareAppend limits a with
  | error error => simp [hp, bind, Except.bind] at h
  | ok prepared =>
    cases hr : s.sessions.get? i with
    | none => simp [hp, hr, bind, Except.bind] at h
    | some record =>
      simp only [hp, hr, bind, Except.bind] at h
      split at h
      · split_ifs at h
        cases h
        exact .inl rfl
      · split_ifs at h
        · split at h
          · cases h
            exact .inl rfl
          · cases h
        · refine .inr ⟨record,hr,?_⟩
          unfold appendNew at h
          cases hrev : checkRevision record a.expectedRevision with
          | error error => simp [hrev, bind, Except.bind] at h
          | ok =>
            simp only [hrev, bind, Except.bind] at h
            split_ifs at h
            cases hev : validateEvent
                (newEvent i a ((s.eventsOf i).length+1) (record.revision+1) r.wall) with
            | error error => simp [hev] at h
            | ok event =>
              simp only [hev, Except.ok.injEq, Prod.mk.injEq] at h
              rw [← h.2, validate_event_ok hev]
              rfl

theorem save_checkpoint_ok {a : CheckpointArgs} {c : SessionCheckpoint}
    (h : s.saveCheckpoint limits r i a = .ok (t,c)) :
    t = s ∨ ∃ record, s.view.record i = some record ∧ c.revision = record.revision+1 := by
  unfold saveCheckpoint require at h
  cases hp : prepareCheckpoint limits a with
  | error error => simp [hp, bind, Except.bind] at h
  | ok fingerprint =>
    cases hr : s.sessions.get? i with
    | none => simp [hp, hr, bind, Except.bind] at h
    | some record =>
      simp only [hp, hr, bind, Except.bind] at h
      split at h
      · split_ifs at h
        cases h
        exact .inl rfl
      · split_ifs at h
        refine .inr ⟨record,hr,?_⟩
        unfold checkpointNew at h
        cases hrev : checkRevision record (some a.expectedRevision) with
        | error error => simp [hrev, bind, Except.bind] at h
        | ok =>
          simp only [hrev, bind, Except.bind] at h
          cases hck : validateCheckpoint
              (newCheckpoint i a (s.eventsOf i).length (record.revision+1) r.wall) with
          | error error => simp [hck] at h
          | ok checkpoint =>
            simp only [hck, Except.ok.injEq, Prod.mk.injEq] at h
            rw [← h.2, validate_checkpoint_ok hck]
            rfl

theorem resume_total (hd : s.view.Timely) (i : SessionIdentity) :
    (s.call pf limits r (.resume i)).2 = .ok (.snapshot (snapshotOf s.view i)) := by
  unfold call resume
  cases hr : s.sessions.get? i with
  | none => simp [settle, snapshotOf, view, hr]
  | some record =>
    simp only [settle, snapshotOf, view, hr, if_neg (not_lt.mpr (hd i record hr))]
    rfl

end InMemorySessionStore

namespace SQLiteSessionStore
variable {db t : SQLiteSessionStore} {i : SessionIdentity}

/-- A status change that is committed under a steady clock is answered. -/
theorem set_status_error {status : SessionStatus} {expected : ℤ}
    (hc : db.view.steady (r,.setStatus i status expected) = true)
    (h : (db.setStatus r i status expected).2 = .error e) :
    (db.setStatus r i status expected).1 = db := by
  unfold setStatus at h ⊢
  rcases require_cases db i with ⟨row,hq,hr⟩ | ⟨e',hq,-⟩
  · simp only [bind, Except.bind, hq] at h ⊢
    cases hrev : checkRevision row (some expected) with
    | error e' => rfl
    | ok =>
      simp only [hrev] at h
      have hwall : row.createdAt ≤ r.wall := by
        simpa [View.steady, show db.view.record i = some row from hr] using hc
      have hnew := congrFun (session_row_update i (fun b => { b with
        status := status, revision := row.revision+1, updatedAt := r.wall }) row hr
        (fun _ h => h)) i
      rw [Function.update_self] at hnew
      unfold require record at h
      rw [hnew] at h
      simp [not_lt.mpr hwall] at h
  · simp only [bind, Except.bind, hq]

theorem call_error (hc : db.view.steady (r,c) = true)
    (h : (db.call pf limits r c).2 = .error e) : (db.call pf limits r c).1 = db := by
  cases c with
  | setStatus j status expected =>
    refine set_status_error hc (e := e) ?_
    simp only [call] at h
    cases hanswer : (db.setStatus r j status expected).2 with
    | error e' =>
      rw [hanswer] at h
      cases h
      rfl
    | ok row =>
      rw [hanswer] at h
      cases h
  | _ => exact settle_error h

theorem append_ok {a : AppendArgs} {e : TranscriptEvent}
    (h : db.append limits r i a = .ok (t,e)) :
    t = db ∨ ∃ row, db.view.record i = some row ∧ e.revision = row.revision+1 := by
  unfold append at h
  cases hp : prepareAppend limits a with
  | error error => simp [hp, bind, Except.bind] at h
  | ok prepared =>
    rcases require_cases db i with ⟨row,hq,hr⟩ | ⟨error,hq,-⟩
    · simp only [hp, hq, bind, Except.bind] at h
      split at h
      · split_ifs at h
        cases h
        exact .inl rfl
      · split_ifs at h
        · split at h
          · cases h
            exact .inl rfl
          · cases h
        · refine .inr ⟨row,hr,?_⟩
          unfold appendNew at h
          cases hrev : checkRevision row a.expectedRevision with
          | error error => simp [hrev, bind, Except.bind] at h
          | ok =>
            simp only [hrev, bind, Except.bind] at h
            split_ifs at h
            cases hev : validateEvent (newEvent i a (maxOf (fun row : EventRow =>
                row.event.sequence) (db.eventRows i)+1) (row.revision+1) r.wall) with
            | error error => simp [hev] at h
            | ok event =>
              simp only [hev] at h
              split_ifs at h
              cases h
              rw [validate_event_ok hev]
              rfl
    · simp [hp, hq, bind, Except.bind] at h

theorem save_checkpoint_ok {a : CheckpointArgs} {c : SessionCheckpoint}
    (h : db.saveCheckpoint limits r i a = .ok (t,c)) :
    t = db ∨ ∃ row, db.view.record i = some row ∧ c.revision = row.revision+1 := by
  unfold saveCheckpoint at h
  cases hp : prepareCheckpoint limits a with
  | error error => simp [hp, bind, Except.bind] at h
  | ok fingerprint =>
    rcases require_cases db i with ⟨row,hq,hr⟩ | ⟨error,hq,-⟩
    · simp only [hp, hq, bind, Except.bind] at h
      split at h
      · split_ifs at h
        cases h
        exact .inl rfl
      · refine .inr ⟨row,hr,?_⟩
        unfold checkpointNew at h
        cases hrev : checkRevision row (some a.expectedRevision) with
        | error error => simp [hrev, bind, Except.bind] at h
        | ok =>
          simp only [hrev, bind, Except.bind] at h
          cases hck : validateCheckpoint (newCheckpoint i a (maxOf (fun row : EventRow =>
              row.event.sequence) (db.eventRows i)) (row.revision+1) r.wall) with
          | error error => simp [hck] at h
          | ok checkpoint =>
            simp only [hck] at h
            split_ifs at h
            cases h
            rw [validate_checkpoint_ok hck]
            rfl
    · simp [hp, hq, bind, Except.bind] at h

theorem resume_total (hs : Stored pf db) (hw : WellFormed pf db.view) (hd : db.view.Timely)
    (i : SessionIdentity) :
    (db.call pf limits r (.resume i)).2 = .ok (.snapshot (snapshotOf db.view i)) := by
  have heffect := (call_lawful limits r hs hw (.resume i)).1
  have hok : ∃ reply, (db.call pf limits r (.resume i)).2 = .ok reply := by
    show ∃ reply, (settle db .snapshot (db.resume i)).2 = .ok reply
    unfold resume
    cases hr : db.sessionRow i with
    | none => exact ⟨_,rfl⟩
    | some row =>
      simp only [record]
      rw [if_neg (not_lt.mpr (hd i row hr))]
      exact ⟨_,rfl⟩
  obtain ⟨reply,hreply⟩ := hok
  rw [hreply] at heffect ⊢
  generalize (db.call pf limits r (.resume i)).1.view = w at heffect
  cases heffect with
  | answer _ _ ha =>
    cases reply with
    | snapshot snapshot => rw [show snapshot = snapshotOf db.view i from ha]
    | _ => cases ha

end SQLiteSessionStore

structure Accounted {pf : Platform} {limits : SessionStoreLimits} (S : LawfulStore pf limits)
    (C : S.State → Readings × Call → Bool) (h : List Entry) (s : S.State) : Prop where
  revision : ∀ i row, (S.view s).record i = some row →
    row.revision = (appended i h).length+(saved i h).length+statuses i h
  sequences : ∀ i, (S.view s).events i = appended i h ∧
    (appended i h).map (fun e => e.sequence) = List.range' 1 (appended i h).length
  increasing : ∀ i, (appended i h).Pairwise (fun e f => e.revision < f.revision)
  distinct : ∀ i, ((appended i h).map (fun e => e.revision) ++
    (saved i h).map (fun c => c.revision)).Nodup
  bounded : ∀ i row, (S.view s).record i = some row →
    (∀ e ∈ appended i h, e.revision ≤ row.revision) ∧ ∀ c ∈ saved i h, c.revision ≤ row.revision
  raises : ∀ r c e, C s (r,c) = true → (S.call r s c).2 = .error e → (S.call r s c).1 = s
  appendReplays : ∀ r i a e, (S.call r s (.append i a)).2 = .ok (.event e) → e ∈ appended i h →
    (S.call r s (.append i a)).1 = s
  saveReplays : ∀ r i a c, (S.call r s (.saveCheckpoint i a)).2 = .ok (.checkpoint c) →
    c ∈ saved i h → (S.call r s (.saveCheckpoint i a)).1 = s
  resumes : ∀ r i, (S.call r s (.resume i)).2 = .ok (.snapshot (((S.view s).record i).map
    (fun row => ⟨row,(saved i h).getLast?,(appended i h).filter (fun e => decide
      (((saved i h).getLast?.map (fun c => c.lastEventSequence)).getD 0 < e.sequence))⟩)))

section Accounts
variable {S : LawfulStore pf limits} {h : List Entry} {s : S.State} (hl : Ledger h (S.view s))
include hl

theorem books_coherent (hs : S.Sound s) (i : SessionIdentity) :
    (appended i h).map (fun e => e.sequence) = List.range' 1 (appended i h).length ∧
    (appended i h).Pairwise (fun e f => e.revision < f.revision) ∧
    ∀ row, (S.view s).record i = some row → ∀ e ∈ appended i h, e.revision ≤ row.revision := by
  have hbooks := hl i
  cases hr : (S.view s).record i with
  | none =>
    rw [hr] at hbooks
    rw [(hbooks.absent rfl).1]
    simp
  | some row =>
    have hc := hs.2.coherent i row hr
    rw [hbooks.events] at hc
    refine ⟨hc.sequences,hc.eventOrder,?_⟩
    rintro row' ⟨⟩ e he
    exact (hc.eventBound e he).2

theorem books_distinct (hs : S.Sound s) (i : SessionIdentity) :
    ((appended i h).map (fun e => e.revision) ++ (saved i h).map (fun c => c.revision)).Nodup := by
  obtain ⟨-,hincreasing,-⟩ := books_coherent hl hs i
  refine List.nodup_append.mpr ⟨?_,?_,?_⟩
  · exact List.pairwise_map.mpr (hincreasing.imp (fun hlt => hlt.ne))
  · exact List.pairwise_map.mpr ((hl i).order.imp (fun hlt => hlt.ne))
  · intro a ha b hb
    obtain ⟨e,he,rfl⟩ := List.mem_map.mp ha
    obtain ⟨c,hc,rfl⟩ := List.mem_map.mp hb
    exact (hl i).apart e he c hc

theorem books_snapshot (i : SessionIdentity) :
    snapshotOf (S.view s) i = ((S.view s).record i).map (fun row =>
      ⟨row,(saved i h).getLast?,(appended i h).filter (fun e => decide
        (((saved i h).getLast?.map (fun c => c.lastEventSequence)).getD 0 < e.sequence))⟩) := by
  unfold snapshotOf
  rw [(hl i).last, (hl i).events]

/-- The accounts follow from the books and from what the store's own calls do. -/
theorem accounted_of_ledger {C : S.State → Readings × Call → Bool} (hs : S.Sound s)
    (hraise : ∀ r c e, C s (r,c) = true → (S.call r s c).2 = .error e → (S.call r s c).1 = s)
    (happend : ∀ r i a e, (S.call r s (.append i a)).2 = .ok (.event e) →
      (S.call r s (.append i a)).1 = s ∨
      ∃ row, (S.view s).record i = some row ∧ e.revision = row.revision+1)
    (hsave : ∀ r i a c, (S.call r s (.saveCheckpoint i a)).2 = .ok (.checkpoint c) →
      (S.call r s (.saveCheckpoint i a)).1 = s ∨
      ∃ row, (S.view s).record i = some row ∧ c.revision = row.revision+1)
    (hresume : ∀ r i, (S.call r s (.resume i)).2 = .ok (.snapshot (snapshotOf (S.view s) i))) :
    Accounted S C h s where
  revision i := (hl i).revision
  sequences i := ⟨(hl i).events,(books_coherent hl hs i).1⟩
  increasing i := (books_coherent hl hs i).2.1
  distinct := books_distinct hl hs
  bounded i row hr := ⟨(books_coherent hl hs i).2.2 row hr,(hl i).bound row hr⟩
  raises := hraise
  appendReplays r i a e hok hmem := by
    rcases happend r i a e hok with hsame | ⟨row,hr,hrev⟩
    · exact hsame
    · have hle := (books_coherent hl hs i).2.2 row hr e hmem
      omega
  saveReplays r i a c hok hmem := by
    rcases hsave r i a c hok with hsame | ⟨row,hr,hrev⟩
    · exact hsame
    · have hle := (hl i).bound row hr c hmem
      omega
  resumes r i := by
    rw [hresume, books_snapshot hl i]

end Accounts

/-- The books along a history whose raising calls leave the store as it was. -/
theorem steady_ledger {pf : Platform} {limits : SessionStoreLimits} (S : LawfulStore pf limits)
    (hraise : ∀ r s c e, S.steady s (r,c) = true → (S.call r s c).2 = .error e →
      (S.call r s c).1 = s) {calls : List (Readings × Call)}
    (hc : Machine.along S.step S.steady S.init calls = true) :
    Ledger (S.history calls) (S.view (Machine.final S.step S.init calls)) ∧
      S.Sound (Machine.final S.step S.init calls) := by
  refine Machine.history_invariant_along S.step S.steady
    (fun h s => Ledger h (S.view s) ∧ S.Sound s) ?_ _ calls hc ⟨?_,S.sound_init⟩
  · rintro h s ⟨r,c⟩ hsteady ⟨hl,hs⟩
    refine ⟨ledger_effect hl hs.2 (S.call_effect r s c hs) (fun e he => ?_),S.sound_call r s c hs⟩
    exact congrArg S.view (hraise r s c e hsteady he)
  · rw [S.viewInit]
    exact ledger_empty

def statusCalls (wall : ℤ) : List (Readings × Call) :=
  [(⟨10,10⟩,.create bookIdentity),(⟨10,wall⟩,.setStatus bookIdentity .completed 0)]

end SuiteHarness.Sessions
