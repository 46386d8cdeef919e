import SuiteHarness.Sessions.Interface
import SuiteHarness.Library.Table

/-!
# What a session store does

The abstract store forgets layout: per session a record, its events and its
retained checkpoints, per run a claim, a stop flag and a saved point. `Effect`
says everything one call can do to it. It leaves open what only capacity and
eviction decide, so it is a relation, and both stores are proved to refine it.
`WellFormed` holds along every run of effects.
-/

set_option autoImplicit false

namespace SuiteHarness.Sessions
open SuiteHarness.Library SuiteHarness.Library.Table

@[ext] structure View where
  record : SessionIdentity → Option SessionRecord
  events : SessionIdentity → List TranscriptEvent
  checkpoints : SessionIdentity → List SessionCheckpoint
  claim : RunKey → Option RunClaim
  stopped : RunKey → Bool
  point : RunKey → Option RunResumePoint

namespace View

def empty : View := ⟨fun _ => none,fun _ => [],fun _ => [],fun _ => none,fun _ => false,fun _ => none⟩

variable (v : View)

def setSession (i : SessionIdentity) (record : SessionRecord) (events : List TranscriptEvent)
    (checkpoints : List SessionCheckpoint) : View :=
  { v with
    record := Function.update v.record i (some record)
    events := Function.update v.events i events
    checkpoints := Function.update v.checkpoints i checkpoints }

def setClaim (k : RunKey) (claim : RunClaim) : View :=
  { v with claim := Function.update v.claim k (some claim) }

def setStop (k : RunKey) : View :=
  { v with stopped := Function.update v.stopped k true }

def setPoints (point : RunKey → Option RunResumePoint) : View :=
  { v with point := point }

/-- The row of this session was updated before it was created: a reader that
validates the record raises on it. -/
def Untimely (i : SessionIdentity) : Prop :=
  ∃ row, v.record i = some row ∧ row.updatedAt < row.createdAt

def Timely : Prop :=
  ∀ i row, v.record i = some row → row.createdAt ≤ row.updatedAt

def steady (x : Readings × Call) : Bool :=
  match x.2 with
  | .saveCheckpoint i _ | .setStatus i _ _ =>
    (v.record i).all (fun row => decide (row.createdAt ≤ x.1.wall))
  | _ => true

theorem set_claim_self (k : RunKey) (claim : RunClaim) (h : v.claim k = some claim) :
    v.setClaim k claim = v := by
  simp [setClaim, ← h]

end View

def Shrinks (v : View) (point : RunKey → Option RunResumePoint) : Prop :=
  ∀ k q, point k = some q → v.point k = some q

def eventDigest (type : TranscriptEventType) (payload : Json) : Digest :=
  digest (.obj [("type",.str type.value),("payload",payload)])

theorem event_value_injective {s t : TranscriptEventType} (h : s.value = t.value) : s = t := by
  cases s <;> cases t <;> first | rfl | exact absurd h (by decide)

/-- The fingerprint identifies the type and the canonical payload. -/
theorem event_digest_eq_iff {s t : TranscriptEventType} {p q : Json} :
    eventDigest s p = eventDigest t q ↔ s = t ∧ p.canon = q.canon := by
  constructor
  · intro h
    have hfields := congrArg Digest.value h
    simp only [eventDigest, digest, Json.canon_obj, Json.obj.injEq] at hfields
    have hmem : ∀ e, e ∈ [("type",Json.str s.value),("payload",p)].map (fun e => (e.1,e.2.canon)) ↔
        e ∈ [("type",Json.str t.value),("payload",q)].map (fun e => (e.1,e.2.canon)) := by
      intro e
      rw [← Json.mem_sort_keys, hfields, Json.mem_sort_keys]
    have htype := (hmem ("type",.str s.value)).mp (by simp [Json.canon])
    have hpayload := (hmem ("payload",p.canon)).mp (by simp)
    simp only [List.map_cons, List.map_nil, List.mem_cons, Prod.mk.injEq, Json.canon,
      Json.str.injEq, List.not_mem_nil, or_false, true_and, String.reduceEq, false_and,
      false_or] at htype hpayload
    exact ⟨event_value_injective htype,hpayload⟩
  · rintro ⟨rfl,hp⟩
    simp only [eventDigest, digest, Json.canon_obj, List.map_cons, hp]

def live (claim : RunClaim) (now : ℤ) : Prop := claim.state = .active ∧ now < claim.expiresAt

def snapshotOf (v : View) (identity : SessionIdentity) : Option SessionSnapshot :=
  (v.record identity).map (fun record =>
    let checkpoint := (v.checkpoints identity).getLast?
    let after := (checkpoint.map (fun c => c.lastEventSequence)).getD 0
    ⟨record,checkpoint,(v.events identity).filter (fun e => decide (after < e.sequence))⟩)

def Answers (v : View) (r : Readings) : Call → Reply → Prop
  | .create i, .session record => v.record i = some record
  | .get i, .maybeSession record => record = v.record i
  | .claimRun i run _ _, .claim .active =>
    ∃ c, v.claim (i,run) = some c ∧ c.state ≠ .abandoned ∧ r.clock < c.expiresAt
  | .finalizeRun i run owner _, .finalized false =>
    ∀ c, v.claim (i,run) = some c → ¬ (c.ownerToken = owner ∧ c.state = .active)
  | .requestStop i run, .stop .notFound => v.claim (i,run) = none
  | .requestStop i run, .stop .alreadyFinished =>
    ∃ c, v.claim (i,run) = some c ∧ ¬ live c r.clock
  | .requestStop i run, .stop .alreadyRequested => v.stopped (i,run) = true
  | .stopRequested i run, .stopFlag b => b = v.stopped (i,run)
  | .activeRunIds i _, .runIds ids =>
    ∀ run ∈ ids, ∃ c, v.claim (i,run) = some c ∧ live c r.clock
  | .append i a, .event e => e ∈ v.events i ∧
    ((∃ k, a.idempotencyKey = some k ∧ e.idempotencyKey = some k ∧
      eventDigest e.type e.payload = eventDigest a.eventType a.payload) ∨
     (a.eventType = .memoryInvalidated ∧ ∃ record ns n, v.record i = some record ∧
      memoryInvalidationSource a.payload = .ok (some (ns,n)) ∧
      n ≤ (record.memorySourceVersions.get? ns).getD 0 ∧
      e.revision = record.memoryInvalidatedRevision))
  | .saveCheckpoint i a, .checkpoint c => c ∈ v.checkpoints i ∧
    c.idempotencyKey = a.idempotencyKey ∧ digest c.workflowState = digest a.workflowState
  | .resume i, .snapshot s => s = snapshotOf v i
  | .recentTranscript i limit, .transcript es => 1 ≤ limit ∧ limit ≤ 1000 ∧
    (v.record i).isSome ∧ es = (v.events i).drop ((v.events i).length-limit.toNat)
  | .transcriptPage i limit before, .transcript es => 1 ≤ limit ∧ limit ≤ 1000 ∧
    (v.record i).isSome ∧ ∃ stop, stop = before.elim (v.events i).length
      (fun b => min (v.events i).length (b-1).toNat) ∧
    es = ((v.events i).take stop).drop (stop-limit.toNat)
  | _, _ => False

def MayRaise (rowErrors : List SessionError) (v : View) : Call → SessionError → Prop
  | .claimRun i run owner lease, e => validateRunClaim run owner lease = .error e ∨
    (e ∈ rowErrors ∧ v.Untimely i) ∨ v.record i = none ∨ v.claim (i,run) = none
  | .finalizeRun i run owner lease, e => validateRunClaim run owner lease = .error e ∨
    (e ∈ rowErrors ∧ v.Untimely i) ∨ v.record i = none
  | _, _ => True

structure Appended (limits : SessionStoreLimits) (v : View) (r : Readings) (i : SessionIdentity)
    (a : AppendArgs) (record : SessionRecord) (source : Option (String × ℕ))
    (e : TranscriptEvent) : Prop where
  session : v.record i = some record
  prepared : prepareAppend limits a = .ok (source,eventDigest a.eventType a.payload)
  expected : ∀ n, a.expectedRevision = some n → n = record.revision
  newer : ∀ ns n, source = some (ns,n) → (record.memorySourceVersions.get? ns).getD 0 < n
  event : e = newEvent i a ((v.events i).length+1) (record.revision+1) r.wall
  valid : validateEvent e = .ok e
  freshId : ∀ x ∈ v.events i, x.eventId ≠ a.eventId
  freshKey : ∀ x ∈ v.events i, ∀ k, a.idempotencyKey = some k → x.idempotencyKey ≠ some k
  room : (v.events i).length < limits.maxTranscriptEventsPerSession

def retained (limits : SessionStoreLimits) : List SessionCheckpoint → List SessionCheckpoint
  | [] => []
  | c::cs =>
    if limits.maxCheckpointsPerSession < (c::cs).length ∨
        limits.maxCheckpointBytesPerSession < ((c::cs).map stateBytes).sum then
      retained limits cs
    else c::cs

variable (limits : SessionStoreLimits) (cs : List SessionCheckpoint)

theorem retained_suffix : retained limits cs <:+ cs := by
  induction cs with
  | nil => exact List.suffix_rfl
  | cons c cs ih =>
    rw [retained]
    split_ifs
    · exact ih.trans (List.suffix_cons c cs)
    · exact List.suffix_rfl

theorem retained_drop :
    retained limits (cs.drop (cs.length-limits.maxCheckpointsPerSession)) = retained limits cs := by
  induction cs with
  | nil => rw [List.drop_nil]
  | cons c cs ih =>
    by_cases h : limits.maxCheckpointsPerSession < (c::cs).length
    · rw [retained, if_pos (Or.inl h), ← ih, List.length_cons,
        Nat.succ_sub (Nat.lt_succ_iff.mp h), List.drop_succ_cons]
    · rw [Nat.sub_eq_zero_of_le (not_lt.mp h), List.drop_zero]

/-- A checkpoint that fits alone survives the pruning that its save starts. -/
theorem retained_last (c : SessionCheckpoint)
    (hc : stateBytes c ≤ limits.maxCheckpointBytesPerSession) :
    c ∈ retained limits (cs ++ [c]) := by
  induction cs with
  | nil =>
    have hcount := limits.checkpointRange.2.1.1
    have hfit : ¬ (limits.maxCheckpointsPerSession < [c].length ∨
        limits.maxCheckpointBytesPerSession < ([c].map stateBytes).sum) := by
      simp only [List.length_singleton, List.map_cons, List.map_nil, List.sum_cons, List.sum_nil]
      omega
    rw [List.nil_append, retained, if_neg hfit]
    exact List.mem_singleton_self c
  | cons b cs ih =>
    rw [List.cons_append, retained]
    split_ifs
    · exact ih
    · simp

structure Checkpointed (limits : SessionStoreLimits) (v : View) (r : Readings) (i : SessionIdentity) (a : CheckpointArgs)
    (record : SessionRecord) (c : SessionCheckpoint) : Prop where
  session : v.record i = some record
  expected : a.expectedRevision = record.revision
  checkpoint : c = newCheckpoint i a (v.events i).length (record.revision+1) r.wall
  valid : validateCheckpoint c = .ok c
  freshId : ∀ x ∈ v.checkpoints i, x.checkpointId ≠ a.checkpointId
  freshKey : ∀ x ∈ v.checkpoints i, x.idempotencyKey ≠ a.idempotencyKey
  fits : stateBytes c ≤ limits.maxCheckpointBytesPerSession

structure Saveable (pf : Platform) (v : View) (r : Readings) (i : SessionIdentity)
    (q : RunResumePoint) : Prop where
  safe : safeResumePoint pf q = some q
  identity : q.identity = i
  claim : ∃ c, v.claim (i,q.runId) = some c ∧ live c r.clock
  running : v.stopped (i,q.runId) = false
  fresh : resumePointFresh q r.clock = true
  record : ∃ record, v.record i = some record ∧
    q.memoryInvalidatedRevision = record.memoryInvalidatedRevision ∧
    q.memorySourceVersions.sameItems record.memorySourceVersions = true

inductive Effect (pf : Platform) (limits : SessionStoreLimits) (rowErrors : List SessionError)
    (v : View) (r : Readings) : Call → Outcome → View → Prop where
  | raise (c : Call) (e : SessionError) (h : MayRaise rowErrors v c e) :
    Effect pf limits rowErrors v r c (.error e) v
  | answer (c : Call) (reply : Reply) (h : Answers v r c reply) :
    Effect pf limits rowErrors v r c (.ok reply) v
  | create (i : SessionIdentity) (now : ℤ) (h : v.record i = none)
    (hn : now = r.clock ∨ now = r.wall) :
    Effect pf limits rowErrors v r (.create i) (.ok (.session (newRecord i now)))
      (v.setSession i (newRecord i now) [] [])
  | acquire (i : SessionIdentity) (run owner : String) (lease : ℤ)
    (hr : (v.record i).isSome) (h : v.claim (i,run) = none) :
    Effect pf limits rowErrors v r (.claimRun i run owner lease) (.ok (.claim .acquired))
      (v.setClaim (i,run) ⟨owner,.active,r.clock+lease⟩)
  | expire (i : SessionIdentity) (run owner : String) (lease : ℤ) (c : RunClaim)
    (h : v.claim (i,run) = some c) (hx : c.state = .abandoned ∨ c.expiresAt ≤ r.clock) :
    Effect pf limits rowErrors v r (.claimRun i run owner lease) (.ok (.claim .stale))
      (v.setClaim (i,run) { c with state := .abandoned })
  | finalize (i : SessionIdentity) (run owner : String) (lease : ℤ) (c : RunClaim)
    (h : v.claim (i,run) = some c) (ho : c.ownerToken = owner) (hs : c.state = .active) :
    Effect pf limits rowErrors v r (.finalizeRun i run owner lease) (.ok (.finalized true))
      (v.setClaim (i,run) ⟨owner,.finalizing,r.clock+lease⟩)
  | stop (i : SessionIdentity) (run : String) (c : RunClaim)
    (h : v.claim (i,run) = some c) (hl : live c r.clock) :
    Effect pf limits rowErrors v r (.requestStop i run) (.ok (.stop .requested))
      (v.setStop (i,run))
  | refusePoint (i : SessionIdentity) (q : RunResumePoint) (point : RunKey → Option RunResumePoint)
    (hp : Shrinks v point) :
    Effect pf limits rowErrors v r (.saveResumePoint i q) (.ok (.point none)) (v.setPoints point)
  | savePoint (i : SessionIdentity) (q : RunResumePoint) (point : RunKey → Option RunResumePoint)
    (hq : Saveable pf v r i q) (hs : point (i,q.runId) = some q)
    (hp : ∀ k p, k ≠ (i,q.runId) → point k = some p → v.point k = some p) :
    Effect pf limits rowErrors v r (.saveResumePoint i q) (.ok (.point (some q)))
      (v.setPoints point)
  | readPoint (i : SessionIdentity) (run : String) (found : Option RunResumePoint)
    (point : RunKey → Option RunResumePoint) (hp : Shrinks v point)
    (hf : ∀ q, found = some q → v.point (i,run) = some q ∧ resumePointFresh q r.clock = true) :
    Effect pf limits rowErrors v r (.getResumePoint i run) (.ok (.point found))
      (v.setPoints point)
  | append (i : SessionIdentity) (a : AppendArgs) (record : SessionRecord)
    (source : Option (String × ℕ)) (e : TranscriptEvent)
    (point : RunKey → Option RunResumePoint) (h : Appended limits v r i a record source e)
    (hp : Shrinks v point)
    (hd : ∀ run, finishedResumeRunId a.eventType a.payload = some run → point (i,run) = none) :
    Effect pf limits rowErrors v r (.append i a) (.ok (.event e))
      ((v.setSession i (recordAfterEvent record e source) (v.events i ++ [e])
        (v.checkpoints i)).setPoints point)
  | checkpoint (i : SessionIdentity) (a : CheckpointArgs) (record : SessionRecord)
    (c : SessionCheckpoint) (h : Checkpointed limits v r i a record c) :
    Effect pf limits rowErrors v r (.saveCheckpoint i a) (.ok (.checkpoint c))
      (v.setSession i { record with revision := c.revision, updatedAt := r.wall }
        (v.events i) (retained limits (v.checkpoints i ++ [c])))
  -- The durable store commits a status change before it reads the answer back.
  | status (i : SessionIdentity) (status : SessionStatus) (record : SessionRecord)
    (outcome : Outcome) (h : v.record i = some record)
    (ho : outcome = .ok (.session { record with
        status := status, revision := record.revision+1, updatedAt := r.wall }) ∨
      ∃ e ∈ rowErrors, outcome = .error e) :
    Effect pf limits rowErrors v r (.setStatus i status record.revision) outcome
      (v.setSession i { record with
        status := status, revision := record.revision+1, updatedAt := r.wall }
        (v.events i) (v.checkpoints i))

structure Coherent (i : SessionIdentity) (record : SessionRecord)
    (events : List TranscriptEvent) (checkpoints : List SessionCheckpoint) : Prop where
  recordIdentity : record.identity = i
  eventIdentity : ∀ e ∈ events, e.identity = i
  checkpointIdentity : ∀ c ∈ checkpoints, c.identity = i
  sequences : events.map (fun e => e.sequence) = List.range' 1 events.length
  eventOrder : Ascending (fun e => e.revision) events
  eventBound : ∀ e ∈ events, 1 ≤ e.revision ∧ e.revision ≤ record.revision
  checkpointOrder : Ascending (fun c => c.revision) checkpoints
  checkpointBound : ∀ c ∈ checkpoints, c.revision ≤ record.revision
  eventIds : events.Pairwise (fun e f => e.eventId ≠ f.eventId)
  eventKeys : events.Pairwise (fun e f => ∀ k, e.idempotencyKey = some k →
    f.idempotencyKey ≠ some k)
  checkpointIds : checkpoints.Pairwise (fun c d => c.checkpointId ≠ d.checkpointId)
  checkpointKeys : checkpoints.Pairwise (fun c d => c.idempotencyKey ≠ d.idempotencyKey)
  watermark : record.memoryInvalidatedRevision = 0 ∨ ∃ e ∈ events,
    e.type = .memoryInvalidated ∧ e.revision = record.memoryInvalidatedRevision
  watermarkBound : ∀ e ∈ events, e.type = .memoryInvalidated →
    e.revision ≤ record.memoryInvalidatedRevision
  versioned : ∀ ns n, record.memorySourceVersions.get? ns = some n →
    record.memoryInvalidatedRevision ≠ 0

structure WellFormed (pf : Platform) (v : View) : Prop where
  coherent : ∀ i record, v.record i = some record →
    Coherent i record (v.events i) (v.checkpoints i)
  absent : ∀ i, v.record i = none →
    v.events i = [] ∧ v.checkpoints i = [] ∧ ∀ run, v.claim (i,run) = none
  points : ∀ i run q, v.point (i,run) = some q →
    q.identity = i ∧ q.runId = run ∧ safeResumePoint pf q = some q

theorem well_formed_empty (pf : Platform) : WellFormed pf View.empty where
  coherent _ _ h := by simp [View.empty] at h
  absent _ _ := ⟨rfl,rfl,fun _ => rfl⟩
  points _ _ _ h := by simp [View.empty] at h

theorem coherent_new (i : SessionIdentity) (now : ℤ) : Coherent i (newRecord i now) [] [] where
  recordIdentity := rfl
  eventIdentity := by simp
  checkpointIdentity := by simp
  sequences := rfl
  eventOrder := List.Pairwise.nil
  eventBound := by simp
  checkpointOrder := List.Pairwise.nil
  checkpointBound := by simp
  eventIds := List.Pairwise.nil
  eventKeys := List.Pairwise.nil
  checkpointIds := List.Pairwise.nil
  checkpointKeys := List.Pairwise.nil
  watermark := Or.inl rfl
  watermarkBound := by simp
  versioned := by simp [newRecord]

section Preservation
variable {pf : Platform} {limits : SessionStoreLimits} {rowErrors : List SessionError}
variable {v : View} {r : Readings} {i : SessionIdentity} {record : SessionRecord}

/-- A record keeps its session coherent when only its status, its time or a
growing revision changes. -/
theorem coherent_record {events : List TranscriptEvent} {checkpoints : List SessionCheckpoint}
    (h : Coherent i record events checkpoints) {new : SessionRecord}
    (hi : new.identity = record.identity) (hr : record.revision ≤ new.revision)
    (hm : new.memoryInvalidatedRevision = record.memoryInvalidatedRevision)
    (hs : new.memorySourceVersions = record.memorySourceVersions) :
    Coherent i new events checkpoints :=
  { h with
    recordIdentity := hi.trans h.recordIdentity
    eventBound := fun e he => ⟨(h.eventBound e he).1,(h.eventBound e he).2.trans hr⟩
    checkpointBound := fun c hc => (h.checkpointBound c hc).trans hr
    watermark := by rw [hm]; exact h.watermark
    watermarkBound := by rw [hm]; exact h.watermarkBound
    versioned := by rw [hm, hs]; exact h.versioned }

theorem prepare_append_ok {a : AppendArgs} {source : Option (String × ℕ)} {d : Digest}
    (h : prepareAppend limits a = .ok (source,d)) :
    d = eventDigest a.eventType a.payload ∧
      (source ≠ none → a.eventType = .memoryInvalidated ∧
        memoryInvalidationSource a.payload = .ok source) := by
  unfold prepareAppend at h
  by_cases ht : a.eventType = .memoryInvalidated
  · rw [if_pos ht] at h
    cases hm : memoryInvalidationSource a.payload with
    | error e =>
      rw [hm] at h
      cases h
    | ok stamp =>
      rw [hm] at h
      simp only [bind, Except.bind] at h
      split at h
      · cases h
      · split at h
        · cases h
        · cases h
          exact ⟨rfl,fun _ => ⟨ht,rfl⟩⟩
  · simp only [if_neg ht, bind, Except.bind] at h
    split at h
    · cases h
    · split at h
      · cases h
      · cases h
        exact ⟨rfl,fun hn => absurd rfl hn⟩

theorem check_revision_ok {expected : Option ℤ}
    (h : checkRevision record expected = .ok ()) (n : ℤ) (hn : expected = some n) :
    n = record.revision := by
  subst hn
  by_contra hne
  simp [checkRevision, hne] at h

theorem validate_event_ok {e f : TranscriptEvent} (h : validateEvent e = .ok f) : f = e := by
  unfold validateEvent at h
  split_ifs at h
  exact (Except.ok.inj h).symm

theorem validate_checkpoint_ok {c d : SessionCheckpoint} (h : validateCheckpoint c = .ok d) :
    d = c := by
  unfold validateCheckpoint at h
  split_ifs at h
  exact (Except.ok.inj h).symm

theorem prepare_checkpoint_ok {a : CheckpointArgs} {d : Digest}
    (h : prepareCheckpoint limits a = .ok d) : d = digest a.workflowState ∧
      utf8Length a.workflowState.render ≤ limits.maxCheckpointStateBytes := by
  unfold prepareCheckpoint canonicalJson at h
  split_ifs at h with hf
  · simp only at h
    split_ifs at h with hb
    exact ⟨(Except.ok.inj h).symm,not_lt.mp hb⟩

theorem coherent_append {a : AppendArgs} {source : Option (String × ℕ)} {e : TranscriptEvent}
    (h : Coherent i record (v.events i) (v.checkpoints i))
    (ha : Appended limits v r i a record source e) :
    Coherent i (recordAfterEvent record e source) (v.events i ++ [e]) (v.checkpoints i) := by
  have hev := ha.event
  unfold newEvent at hev
  subst hev
  refine { h with
    recordIdentity := h.recordIdentity, eventIdentity := ?_, sequences := ?_, eventOrder := ?_,
    eventBound := ?_, checkpointBound := ?_, eventIds := ?_, eventKeys := ?_, watermark := ?_,
    watermarkBound := ?_, versioned := ?_ }
  · intro x hx
    rcases List.mem_append.mp hx with hx | hx
    · exact h.eventIdentity x hx
    · rw [List.mem_singleton.mp hx]
  · rw [List.map_append, h.sequences, List.length_append, List.length_singleton,
      List.range'_concat]
    simp [Nat.add_comm]
  · refine List.pairwise_append.mpr ⟨h.eventOrder,List.pairwise_singleton _ _,?_⟩
    intro x hx y hy
    rw [List.mem_singleton.mp hy]
    exact Nat.lt_succ_of_le (h.eventBound x hx).2
  · intro x hx
    rcases List.mem_append.mp hx with hx | hx
    · exact ⟨(h.eventBound x hx).1,(h.eventBound x hx).2.trans (Nat.le_succ _)⟩
    · rw [List.mem_singleton.mp hx]
      exact ⟨Nat.succ_le_succ (Nat.zero_le _),le_rfl⟩
  · intro c hc
    exact (h.checkpointBound c hc).trans (Nat.le_succ _)
  · refine List.pairwise_append.mpr ⟨h.eventIds,List.pairwise_singleton _ _,?_⟩
    intro x hx y hy
    rw [List.mem_singleton.mp hy]
    exact ha.freshId x hx
  · refine List.pairwise_append.mpr ⟨h.eventKeys,List.pairwise_singleton _ _,?_⟩
    intro x hx y hy k hk hky
    rw [List.mem_singleton.mp hy] at hky
    exact ha.freshKey x hx k hky hk
  · by_cases ht : a.eventType = .memoryInvalidated
    · exact Or.inr ⟨_,List.mem_append_right _ (List.mem_singleton_self _),ht,
        by simp [recordAfterEvent, ht]⟩
    · rcases h.watermark with h0 | ⟨x,hx,hxt,hxr⟩
      · exact Or.inl (by simpa [recordAfterEvent, ht] using h0)
      · exact Or.inr ⟨x,List.mem_append_left _ hx,hxt,by simpa [recordAfterEvent, ht] using hxr⟩
  · intro x hx hxt
    rcases List.mem_append.mp hx with hx | hx
    · by_cases ht : a.eventType = .memoryInvalidated
      · simpa [recordAfterEvent, ht] using (h.eventBound x hx).2.trans (Nat.le_succ _)
      · simpa [recordAfterEvent, ht] using h.watermarkBound x hx hxt
    · rw [List.mem_singleton.mp hx] at hxt ⊢
      simp only at hxt
      simp [recordAfterEvent, hxt]
  · intro ns n hn
    by_cases ht : a.eventType = .memoryInvalidated
    · simp [recordAfterEvent, ht]
    · have hs : source = none := by
        by_contra hs
        exact ht ((prepare_append_ok ha.prepared).2 hs).1
      simpa [recordAfterEvent, ht] using h.versioned ns n (by simpa [recordAfterEvent, hs] using hn)

theorem coherent_checkpoint {a : CheckpointArgs} {c : SessionCheckpoint}
    (h : Coherent i record (v.events i) (v.checkpoints i))
    (hc : Checkpointed limits v r i a record c) :
    Coherent i { record with revision := c.revision, updatedAt := r.wall } (v.events i)
      (retained limits (v.checkpoints i ++ [c])) := by
  have hsub := (retained_suffix limits (v.checkpoints i ++ [c])).sublist
  have hcp := hc.checkpoint
  unfold newCheckpoint at hcp
  subst hcp
  refine { h with
    recordIdentity := h.recordIdentity, checkpointIdentity := ?_, eventBound := ?_,
    checkpointOrder := ?_, checkpointBound := ?_, checkpointIds := ?_, checkpointKeys := ?_,
    watermark := h.watermark, watermarkBound := h.watermarkBound, versioned := h.versioned }
  · intro x hx
    rcases List.mem_append.mp (hsub.subset hx) with hx | hx
    · exact h.checkpointIdentity x hx
    · rw [List.mem_singleton.mp hx]
  · intro x hx
    exact ⟨(h.eventBound x hx).1,(h.eventBound x hx).2.trans (Nat.le_succ _)⟩
  · refine List.Pairwise.sublist hsub
      (List.pairwise_append.mpr ⟨h.checkpointOrder,List.pairwise_singleton _ _,?_⟩)
    intro x hx y hy
    rw [List.mem_singleton.mp hy]
    exact Nat.lt_succ_of_le (h.checkpointBound x hx)
  · intro x hx
    rcases List.mem_append.mp (hsub.subset hx) with hx | hx
    · exact (h.checkpointBound x hx).trans (Nat.le_succ _)
    · rw [List.mem_singleton.mp hx]
  · refine List.Pairwise.sublist hsub
      (List.pairwise_append.mpr ⟨h.checkpointIds,List.pairwise_singleton _ _,?_⟩)
    intro x hx y hy
    rw [List.mem_singleton.mp hy]
    exact hc.freshId x hx
  · refine List.Pairwise.sublist hsub
      (List.pairwise_append.mpr ⟨h.checkpointKeys,List.pairwise_singleton _ _,?_⟩)
    intro x hx y hy
    rw [List.mem_singleton.mp hy]
    exact hc.freshKey x hx

section
variable (hw : WellFormed pf v)
include hw

theorem well_formed_session {events : List TranscriptEvent}
    {checkpoints : List SessionCheckpoint} (h : Coherent i record events checkpoints) :
    WellFormed pf (v.setSession i record events checkpoints) where
  coherent j new hj := by
    by_cases hji : j = i
    · subst hji
      simp only [View.setSession, Function.update_self, Option.some.injEq] at hj ⊢
      exact hj ▸ h
    · simp only [View.setSession, Function.update_of_ne hji] at hj ⊢
      exact hw.coherent j new hj
  absent j hj := by
    by_cases hji : j = i
    · simp [View.setSession, hji] at hj
    · simp only [View.setSession, Function.update_of_ne hji] at hj ⊢
      exact hw.absent j hj
  points := hw.points

theorem well_formed_claim (run : String) (c : RunClaim)
    (hr : v.record i ≠ none) : WellFormed pf (v.setClaim (i,run) c) where
  coherent := hw.coherent
  absent j hj := by
    refine ⟨(hw.absent j hj).1,(hw.absent j hj).2.1,fun other => ?_⟩
    have hne : (j,other) ≠ (i,run) := by
      intro he
      exact hr ((Prod.mk.inj he).1 ▸ hj)
    simpa only [View.setClaim, Function.update_of_ne hne] using (hw.absent j hj).2.2 other
  points := hw.points

theorem well_formed_points {point : RunKey → Option RunResumePoint}
    (hp : ∀ i run q, point (i,run) = some q →
      q.identity = i ∧ q.runId = run ∧ safeResumePoint pf q = some q) :
    WellFormed pf (v.setPoints point) where
  coherent := hw.coherent
  absent := hw.absent
  points := hp

theorem claim_session {run : String} {c : RunClaim}
    (h : v.claim (i,run) = some c) : v.record i ≠ none := by
  intro hn
  have hc := (hw.absent i hn).2.2 run
  rw [h] at hc
  cases hc

end

theorem effect_well_formed {c : Call} {o : Outcome} {w : View}
    (h : Effect pf limits rowErrors v r c o w) (hw : WellFormed pf v) : WellFormed pf w := by
  cases h with
  | raise => exact hw
  | answer => exact hw
  | create i now => exact well_formed_session hw (coherent_new i now)
  | acquire i run owner lease hr =>
    exact well_formed_claim hw run _ (Option.ne_none_iff_isSome.mpr hr)
  | expire i run owner lease c hc | finalize i run owner lease c hc =>
      exact well_formed_claim hw run _ (claim_session hw hc)
  | stop => exact ⟨hw.coherent,hw.absent,hw.points⟩
  | refusePoint i q point hp | readPoint i run found point hp =>
    exact well_formed_points hw (fun j run p h => hw.points j run p (hp _ _ h))
  | savePoint i q point hq hs hp =>
    refine well_formed_points hw (fun j run p h => ?_)
    by_cases hk : (j,run) = (i,q.runId)
    · rw [hk, hs] at h
      cases hk
      cases h
      exact ⟨hq.identity,rfl,hq.safe⟩
    · exact hw.points j run p (hp _ _ hk h)
  | append i a record source e point ha hp =>
    refine well_formed_points (well_formed_session hw
      (coherent_append (hw.coherent i record ha.session) ha)) ?_
    exact fun j run p h => hw.points j run p (hp _ _ h)
  | checkpoint i a record c hc =>
    exact well_formed_session hw (coherent_checkpoint (hw.coherent i record hc.session) hc)
  | status i status record outcome hr =>
    exact well_formed_session hw (coherent_record (hw.coherent i record hr) rfl
      (Nat.le_succ _) rfl rfl)

theorem timely_session {w : View} (hd : v.Timely) (h : record.createdAt ≤ record.updatedAt)
    (hw : w.record = Function.update v.record i (some record)) : w.Timely := by
  intro j row hrow
  rw [hw] at hrow
  by_cases hj : j = i
  · rw [hj, Function.update_self] at hrow
    exact Option.some.inj hrow ▸ h
  · rw [Function.update_of_ne hj] at hrow
    exact hd j row hrow

theorem timely_event (hd : v.Timely) (hr : v.record i = some record) (e : TranscriptEvent)
    (source : Option (String × ℕ)) : (recordAfterEvent record e source).createdAt ≤
      (recordAfterEvent record e source).updatedAt :=
  (hd i record hr).trans (le_max_left _ _)

/-- Only a checkpoint and a status change stamp a row with the wall clock as it is. -/
theorem effect_timely {c : Call} {o : Outcome} {w : View}
    (h : Effect pf limits rowErrors v r c o w) (hd : v.Timely) (hc : v.steady (r,c) = true) :
    w.Timely := by
  cases h with
  | create i now => exact timely_session hd le_rfl rfl
  | append i a record source e point happ =>
    exact timely_session hd (timely_event hd happ.session e source) rfl
  | checkpoint i a record c hck =>
    exact timely_session hd (by simpa [View.steady, hck.session] using hc) rfl
  | status i status record outcome hr =>
    exact timely_session hd (by simpa [View.steady, hr] using hc) rfl
  | _ => exact hd

end Preservation
end SuiteHarness.Sessions
