import SuiteHarness.Sessions.Memory
import SuiteHarness.Sessions.Spec
import SuiteHarness.Library.Eviction

/-!
# The in-memory store refines the abstract store

The abstraction reads the dictionaries. The lookup dictionaries are redundant:
`Indexed` says each of them answers what a search of the session's list would,
and the byte table repeats the sizes of the saved points.
-/

set_option autoImplicit false

namespace SuiteHarness.Sessions.InMemorySessionStore
open SuiteHarness.Library SuiteHarness.Library.Eviction

variable (s : InMemorySessionStore)

def view : View where
  record := s.sessions.get?
  events := s.eventsOf
  checkpoints := s.checkpointsOf
  claim := s.runClaims.get?
  stopped k := decide (k ∈ s.runStops)
  point := s.resumePoints.get?

structure Indexed (pf : Platform) (s : InMemorySessionStore) : Prop where
  keyed : ∀ i k, s.eventIdempotency.get? (i,k) =
    ((s.eventsOf i).find? (fun e => decide (e.idempotencyKey = some k))).map
      (fun e => (eventDigest e.type e.payload,e))
  ids : ∀ i id, s.eventIds.get? (i,id) =
    (s.eventsOf i).find? (fun e => decide (e.eventId = id))
  checkpointKeyed : ∀ i k, s.checkpointIdempotency.get? (i,k) =
    ((s.checkpointsOf i).find? (fun c => decide (c.idempotencyKey = k))).map
      (fun c => (digest c.workflowState,c))
  bytes : ∀ k, s.resumePointBytes.get? k = (s.resumePoints.get? k).map pf.modelDumpJsonBytes

theorem view_init : init.view = View.empty := rfl

theorem indexed_init (pf : Platform) : Indexed pf init :=
  ⟨fun _ _ => rfl,fun _ _ => rfl,fun _ _ => rfl,fun _ => rfl⟩

variable (gone : RunKey → Bool)

def dropPoints : InMemorySessionStore :=
  { s with
    resumePoints := s.resumePoints.eraseWhere (fun e => gone e.1)
    resumePointBytes := s.resumePointBytes.eraseWhere (fun e => gone e.1) }

theorem drop_points_again (gone more : RunKey → Bool) :
    (s.dropPoints gone).dropPoints more = s.dropPoints (fun k => more k || gone k) := by
  simp [dropPoints, Dict.eraseWhere, List.filter_filter, Bool.not_or]

theorem foldl_discard (keys : List RunKey) (s : InMemorySessionStore) :
    keys.foldl discardResumePoint s = s.dropPoints (fun k => decide (k ∈ keys)) := by
  induction keys generalizing s with
  | nil => simp [dropPoints, Dict.eraseWhere]
  | cons key keys ih =>
    have hd : s.discardResumePoint key = s.dropPoints (fun k => decide (k = key)) := rfl
    rw [List.foldl_cons, ih, hd, drop_points_again]
    congr 1
    funext k
    by_cases hk : k = key <;> simp [hk]

theorem bytes_drop_points (k : RunKey) (h : gone k = false) :
    (s.dropPoints gone).bytesOf k = s.bytesOf k := by
  simp only [bytesOf, dropPoints, Dict.get_erase_where, h, Bool.not_false]
  cases s.resumePointBytes.get? k <;> rfl

/-- The eviction loop reads sizes from the shrinking byte table. Its keys are
distinct, so it sees the sizes of the store it started from. -/
theorem trim_loop_evicts (keep : RunKey) (maxCount maxBytes : ℕ) (keys : List RunKey)
    (hn : keys.Nodup) (count size : ℕ) (s : InMemorySessionStore) :
    trimLoop keep maxCount maxBytes keys count size s =
      (evict (fun k => decide (k = keep)) maxCount maxBytes
        (keys.map (fun k => (k,s.bytesOf k))) count size).foldl discardResumePoint s := by
  induction keys generalizing count size s with
  | nil => rfl
  | cons key keys ih =>
    obtain ⟨hk,hn⟩ := List.nodup_cons.mp hn
    have hb : keys.map (fun k => (k,(s.discardResumePoint key).bytesOf k)) =
        keys.map (fun k => (k,s.bytesOf k)) := by
      apply List.map_congr_left
      intro k hm
      have hne : k ≠ key := fun h => hk (h ▸ hm)
      exact congrArg (Prod.mk k)
        (bytes_drop_points s (fun k => decide (k = key)) k (decide_eq_false hne))
    simp only [trimLoop, List.map_cons, evict, decide_eq_true_eq]
    split_ifs
    · rfl
    · exact ih hn _ _ s
    · rw [ih hn, hb, List.foldl_cons]

theorem trim_scope_drops (scope : Option SessionIdentity) (keep : RunKey) (maxCount maxBytes : ℕ)
    (s : InMemorySessionStore) : ∃ gone : RunKey → Bool, gone keep = false ∧
      s.trimScope scope keep maxCount maxBytes = s.dropPoints gone := by
  have hn : (((s.resumePoints.entries.filter
      (fun e => scope.all (fun i => decide (e.1.1 = i)))).insertionSort
        (fun a b => a.2.createdAt ≤ b.2.createdAt)).map Prod.fst).Nodup := by
    refine (((List.perm_insertionSort _ _).map Prod.fst).nodup_iff).mpr ?_
    exact s.resumePoints.nodup.sublist (List.filter_sublist.map Prod.fst)
  unfold trimScope
  simp only
  rw [trim_loop_evicts keep _ _ _ hn, foldl_discard]
  refine ⟨_,?_,rfl⟩
  rw [decide_eq_false_iff_not]
  intro hm
  simpa using evict_keeps _ _ _ _ _ _ keep hm

theorem trim_resume_points_drops (limits : SessionStoreLimits) (identity : SessionIdentity)
    (keep : RunKey) (s : InMemorySessionStore) : ∃ gone : RunKey → Bool, gone keep = false ∧
      s.trimResumePoints limits identity keep = s.dropPoints gone := by
  obtain ⟨first,hf,h1⟩ := trim_scope_drops (some identity) keep
    limits.maxResumePointsPerSession limits.maxResumeBytesPerSession s
  obtain ⟨second,hs,h2⟩ := trim_scope_drops none keep limits.maxResumePointsTotal
    limits.maxResumeBytesTotal (s.dropPoints first)
  refine ⟨fun k => second k || first k,?_,?_⟩
  · simp only [hf, hs, Bool.or_self]
  · rw [trimResumePoints, h1, h2, drop_points_again]

theorem view_drop_points :
    (s.dropPoints gone).view = s.view.setPoints
      (fun k => if gone k then none else s.resumePoints.get? k) := by
  refine View.ext rfl rfl rfl rfl rfl ?_
  funext k
  simp only [view, dropPoints, View.setPoints, Dict.get_erase_where]
  cases gone k <;> cases s.resumePoints.get? k <;> rfl

theorem drop_points_shrinks : Shrinks s.view (fun k => if gone k then none else s.resumePoints.get? k) := by
  intro k q h
  simp only at h
  split at h
  · cases h
  · exact h

theorem indexed_drop_points {pf : Platform} {s : InMemorySessionStore} (h : Indexed pf s)
    (gone : RunKey → Bool) : Indexed pf (s.dropPoints gone) := by
  refine ⟨h.keyed,h.ids,h.checkpointKeyed,fun k => ?_⟩
  simp only [dropPoints, Dict.get_erase_where, h.bytes k]
  cases gone k <;> cases s.resumePoints.get? k <;> rfl

section Calls
variable {pf : Platform} {limits : SessionStoreLimits} {r : Readings} {s : InMemorySessionStore}

def Lawful (pf : Platform) (limits : SessionStoreLimits) (r : Readings)
    (s : InMemorySessionStore) (c : Call) (result : InMemorySessionStore × Outcome) : Prop :=
  Effect pf limits [] s.view r c result.2 result.1.view ∧ Indexed pf result.1

theorem lawful_raise (hs : Indexed pf s) {c : Call} {e : SessionError}
    (h : MayRaise [] s.view c e) : Lawful pf limits r s c (s,.error e) := ⟨.raise c e h,hs⟩

theorem lawful_answer (hs : Indexed pf s) {c : Call} {reply : Reply}
    (h : Answers s.view r c reply) : Lawful pf limits r s c (s,.ok reply) := ⟨.answer c reply h,hs⟩

theorem lawful_effect {t : InMemorySessionStore} {c : Call} {o : Outcome} {w : View}
    (h : Effect pf limits [] s.view r c o w) (hv : t.view = w) (ht : Indexed pf t) :
    Lawful pf limits r s c (t,o) := ⟨hv.symm ▸ h,ht⟩

theorem view_set_claim (k : RunKey) (c : RunClaim) :
    (s.setClaim k c).view = s.view.setClaim k c := by
  refine View.ext rfl rfl rfl ?_ rfl rfl
  funext l
  simp [view, setClaim, View.setClaim, Function.update_apply]

theorem indexed_set_claim (hs : Indexed pf s) (k : RunKey) (c : RunClaim) :
    Indexed pf (s.setClaim k c) := ⟨hs.keyed,hs.ids,hs.checkpointKeyed,hs.bytes⟩

variable (i j : SessionIdentity)

theorem events_get_set (events : List TranscriptEvent) :
    ((s.events.set i events).get? j).getD [] = Function.update s.eventsOf i events j := by
  by_cases hj : j = i
  · simp [hj]
  · simp [eventsOf, hj]

theorem checkpoints_get_set (checkpoints : List SessionCheckpoint) :
    ((s.checkpoints.set i checkpoints).get? j).getD [] =
      Function.update s.checkpointsOf i checkpoints j := by
  by_cases hj : j = i
  · simp [hj]
  · simp [checkpointsOf, hj]

theorem sessions_get_set (record : SessionRecord) :
    (s.sessions.set i record).get? j = Function.update s.sessions.get? i (some record) j := by
  simp [Function.update_apply]

section
variable (hs : Indexed pf s)
include hs

theorem create_lawful (hw : WellFormed pf s.view) (i : SessionIdentity) :
    Lawful pf limits r s (.create i) (settle s .session (s.create limits r i)) := by
  unfold create
  cases hr : s.sessions.get? i with
  | some record => exact lawful_answer hs hr
  | none =>
    obtain ⟨he,hc,-⟩ := hw.absent i hr
    have hev : Function.update s.eventsOf i [] = s.eventsOf := Function.update_eq_self_iff.mpr he.symm
    have hcp : Function.update s.checkpointsOf i [] = s.checkpointsOf :=
      Function.update_eq_self_iff.mpr hc.symm
    simp only
    split_ifs
    · exact lawful_raise hs trivial
    · refine lawful_effect (.create i r.wall hr (Or.inr rfl)) ?_ ⟨fun j k => ?_,fun j k => ?_,fun j k => ?_,hs.bytes⟩
      · exact View.ext (funext (sessions_get_set i · _)) (funext (events_get_set i · []))
          (funext (checkpoints_get_set i · [])) rfl rfl rfl
      · simpa only [eventsOf, events_get_set, hev] using hs.keyed j k
      · simpa only [eventsOf, events_get_set, hev] using hs.ids j k
      · simpa only [checkpointsOf, checkpoints_get_set, hcp] using hs.checkpointKeyed j k

variable (i : SessionIdentity)

theorem claim_run_lawful (run owner : String)
    (lease : ℤ) : Lawful pf limits r s (.claimRun i run owner lease)
      (settle s .claim (s.claimRun limits r i run owner lease)) := by
  unfold claimRun require
  cases hv : validateRunClaim run owner lease with
  | error e => exact lawful_raise hs (Or.inl hv)
  | ok =>
    cases hr : s.sessions.get? i with
    | none => exact lawful_raise hs (Or.inr (Or.inr (Or.inl hr)))
    | some record =>
      cases hc : s.runClaims.get? (i,run) with
      | none =>
        simp only [bind, Except.bind]
        split_ifs
        · exact lawful_raise hs (Or.inr (Or.inr (Or.inr hc)))
        · exact lawful_raise hs (Or.inr (Or.inr (Or.inr hc)))
        · exact lawful_effect (.acquire i run owner lease (by simp [view, hr]) hc)
            (view_set_claim _ _) (indexed_set_claim hs _ _)
      | some prior =>
        simp only [bind, Except.bind]
        split_ifs with ha hb
        · exact lawful_answer hs ⟨prior,hc,ha⟩
        · have hx : prior.expiresAt ≤ r.clock := not_lt.mp (fun hl => ha ⟨hb,hl⟩)
          exact lawful_effect (.expire i run owner lease prior hc (Or.inr hx))
            (view_set_claim _ _) (indexed_set_claim hs _ _)
        · have hx : prior.state = .abandoned := not_not.mp hb
          refine lawful_effect (.expire i run owner lease prior hc (Or.inl hx)) ?_ hs
          rw [View.set_claim_self]
          rw [← hx]
          exact hc

theorem finalize_run_lawful (run owner : String)
    (lease : ℤ) : Lawful pf limits r s (.finalizeRun i run owner lease)
      (settle s .finalized (s.finalizeRun r i run owner lease)) := by
  unfold finalizeRun require
  cases hv : validateRunClaim run owner lease with
  | error e => exact lawful_raise hs (Or.inl hv)
  | ok =>
    cases hr : s.sessions.get? i with
    | none => exact lawful_raise hs (Or.inr (Or.inr hr))
    | some record =>
      cases hc : s.runClaims.get? (i,run) with
      | none =>
        refine lawful_answer hs (fun c hc' => ?_)
        rw [show s.view.claim (i,run) = none from hc] at hc'
        cases hc'
      | some prior =>
        simp only [bind, Except.bind]
        split_ifs with ha
        · refine lawful_answer hs (fun c hc' => ?_)
          obtain rfl : prior = c := Option.some.inj (hc.symm.trans hc')
          rintro ⟨ho,hst⟩
          exact ha.elim (fun h => h ho) (fun h => h hst)
        · rw [not_or, not_not, not_not] at ha
          exact lawful_effect (.finalize i run owner lease prior hc ha.1 ha.2)
            (view_set_claim _ _) (indexed_set_claim hs _ _)

theorem request_stop_lawful (run : String) :
    Lawful pf limits r s (.requestStop i run) (settle s .stop (s.requestStop r i run)) := by
  unfold requestStop
  cases hv : validateRunId run with
  | error e => exact lawful_raise hs trivial
  | ok =>
    cases hc : s.runClaims.get? (i,run) with
    | none => exact lawful_answer hs hc
    | some claim =>
      simp only [bind, Except.bind]
      split_ifs with ha hb
      · exact lawful_answer hs ⟨claim,hc,fun hl => ha.elim (fun h => h hl.1) (not_le.mpr hl.2)⟩
      · exact lawful_answer hs (decide_eq_true hb)
      · rw [not_or, not_not, not_le] at ha
        refine lawful_effect (.stop i run claim hc ha) ?_ ⟨hs.keyed,hs.ids,hs.checkpointKeyed,hs.bytes⟩
        refine View.ext rfl rfl rfl rfl ?_ rfl
        funext k
        by_cases hk : k = (i,run)
        · simp [view, View.setStop, hk]
        · simp [view, View.setStop, hk]

theorem stop_requested_lawful (run : String) :
    Lawful pf limits r s (.stopRequested i run)
      (settle s .stopFlag (s.stopRequested i run)) := by
  unfold stopRequested
  cases hv : validateRunId run with
  | error e => exact lawful_raise hs trivial
  | ok => exact lawful_answer hs rfl

theorem active_run_ids_lawful (limit : ℤ) :
    Lawful pf limits r s (.activeRunIds i limit)
      (settle s .runIds (s.activeRunIds r i limit)) := by
  unfold activeRunIds
  cases hv : validateActiveRunLimit limit with
  | error e => exact lawful_raise hs trivial
  | ok =>
    refine lawful_answer hs (fun run hm => ?_)
    obtain ⟨e,he,rfl⟩ := List.mem_map.mp (List.mem_of_mem_take hm)
    obtain ⟨hmem,hp⟩ := List.mem_filter.mp he
    simp only [Bool.and_eq_true, decide_eq_true_eq] at hp
    obtain ⟨⟨rfl,hst⟩,hx⟩ := hp
    exact ⟨e.2,(s.runClaims.get_mem e.1 e.2).mpr hmem,hst,hx⟩

end

theorem expire_drops (now : ℤ) : ∃ gone : RunKey → Bool,
    s.expireResumePoints now = s.dropPoints gone := ⟨_,foldl_discard _ s⟩

theorem get_resume_point_lawful (hs : Indexed pf s) (i : SessionIdentity) (run : String) :
    Lawful pf limits r s (.getResumePoint i run)
      (settle s .point (s.getResumePoint r i run)) := by
  unfold getResumePoint
  cases hv : validateRunId run with
  | error e => exact lawful_raise hs trivial
  | ok =>
    obtain ⟨gone,hg⟩ := expire_drops (s := s) r.clock
    simp only [bind, Except.bind, hg]
    refine lawful_effect (.readPoint i run _ _ (drop_points_shrinks s gone) (fun q hq => ?_))
      (view_drop_points s gone) (indexed_drop_points hs gone)
    rw [Option.filter_eq_some_iff] at hq
    refine ⟨drop_points_shrinks s gone _ _ ?_,hq.2⟩
    rw [← hq.1]
    exact (congrFun (congrArg View.point (view_drop_points s gone)) (i,run)).symm

theorem save_resume_point_lawful (hs : Indexed pf s) (i : SessionIdentity)
    (q : RunResumePoint) : Lawful pf limits r s (.saveResumePoint i q)
      (settle s .point (s.saveResumePoint pf limits r i q)) := by
  have hself : Lawful pf limits r s (.saveResumePoint i q) (s,.ok (.point none)) :=
    lawful_effect (.refusePoint i q _ (fun _ _ h => h)) rfl hs
  unfold saveResumePoint
  cases hq : safeResumePoint pf q with
  | none => exact hself
  | some checked =>
    obtain rfl := safe_resume_point_eq pf q checked hq
    simp only
    split_ifs with hi hb
    · exact hself
    · exact hself
    rw [not_not] at hi
    obtain ⟨gone,hg⟩ := expire_drops (s := s) r.clock
    have hrefuse : Lawful pf limits r s (.saveResumePoint i checked)
        (s.dropPoints gone,.ok (.point none)) :=
      lawful_effect (.refusePoint i checked _ (drop_points_shrinks s gone))
        (view_drop_points s gone) (indexed_drop_points hs gone)
    rw [hg]
    cases hc : s.runClaims.get? (i,checked.runId) with
    | none =>
      simp only [dropPoints, hc]
      exact hrefuse
    | some claim =>
      cases hr : s.sessions.get? i with
      | none =>
        simp only [dropPoints, hc, hr]
        exact hrefuse
      | some record =>
        simp only [show (s.dropPoints gone).runClaims.get? (i,checked.runId) = some claim from hc,
          show (s.dropPoints gone).sessions.get? i = some record from hr]
        split_ifs with hx
        · exact hrefuse
        · simp only [not_or, not_not, Bool.not_eq_false, not_le] at hx
          obtain ⟨hst,hexp,hstop,hfresh,hm,hv,-⟩ := hx
          obtain ⟨trimmed,hkeep,ht⟩ := trim_resume_points_drops limits i (i,checked.runId)
            { s.dropPoints gone with
              resumePoints := (s.dropPoints gone).resumePoints.set (i,checked.runId) checked
              resumePointBytes := (s.dropPoints gone).resumePointBytes.set (i,checked.runId)
                (pf.modelDumpJsonBytes checked) }
          rw [ht]
          refine lawful_effect (.savePoint i checked _ ⟨hq,hi,⟨claim,hc,hst,hexp⟩,
            decide_eq_false hstop,hfresh,⟨record,hr,hm,hv⟩⟩ ?_ ?_) (view_drop_points _ trimmed)
            (indexed_drop_points ?_ trimmed)
          · simp [hkeep]
          · intro k p hk hp
            refine drop_points_shrinks s gone k p ?_
            refine (congrFun (congrArg View.point (view_drop_points s gone)) k).symm.trans ?_
            simp only [Dict.get_set, if_neg hk] at hp
            split at hp
            · cases hp
            · exact hp
          · refine ⟨hs.keyed,hs.ids,hs.checkpointKeyed,fun k => ?_⟩
            have hbytes := (indexed_drop_points hs gone).bytes k
            by_cases hk : k = (i,checked.runId)
            · simp [hk]
            · simpa [hk] using hbytes

/-- The event dictionaries after a new event answer what a search of the longer
list would. -/
theorem keyed_append (hs : Indexed pf s) {i : SessionIdentity} {a : AppendArgs}
    {e : TranscriptEvent} (hk : e.idempotencyKey = a.idempotencyKey)
    (hf : ∀ x ∈ s.eventsOf i, ∀ k, a.idempotencyKey = some k → x.idempotencyKey ≠ some k)
    (j : SessionIdentity) (k : String) :
    (match a.idempotencyKey with
      | none => s.eventIdempotency
      | some k => s.eventIdempotency.set (i,k) (eventDigest e.type e.payload,e)).get? (j,k) =
    ((Function.update s.eventsOf i (s.eventsOf i ++ [e]) j).find?
      (fun x => decide (x.idempotencyKey = some k))).map
        (fun x => (eventDigest x.type x.payload,x)) := by
  by_cases hj : j = i
  · subst hj
    rw [Function.update_self, List.find?_append]
    cases ha : a.idempotencyKey with
    | none => simp [hs.keyed, hk, ha]
    | some l =>
      by_cases hl : k = l
      · subst hl
        have hn : (s.eventsOf j).find? (fun x => decide (x.idempotencyKey = some k)) = none := by
          rw [List.find?_eq_none]
          intro x hx
          simpa using hf x hx k ha
        simp [hn, hk, ha]
      · simp [hl, hs.keyed, hk, ha, Ne.symm hl]
  · rw [Function.update_of_ne hj, ← hs.keyed]
    cases a.idempotencyKey with
    | none => rfl
    | some l => simp [hj]

theorem ids_append (hs : Indexed pf s) {i : SessionIdentity} {e : TranscriptEvent}
    (hf : ∀ x ∈ s.eventsOf i, x.eventId ≠ e.eventId) (j : SessionIdentity) (id : String) :
    (s.eventIds.set (i,e.eventId) e).get? (j,id) =
      (Function.update s.eventsOf i (s.eventsOf i ++ [e]) j).find?
        (fun x => decide (x.eventId = id)) := by
  by_cases hj : j = i
  · subst hj
    rw [Function.update_self, List.find?_append]
    by_cases hid : id = e.eventId
    · subst hid
      have hn : (s.eventsOf j).find? (fun x => decide (x.eventId = e.eventId)) = none := by
        rw [List.find?_eq_none]
        intro x hx
        simpa using hf x hx
      simp [hn]
    · simp [hid, hs.ids, Ne.symm hid]
  · rw [Function.update_of_ne hj, ← hs.ids]
    simp [hj]

theorem void_points_drops (s : InMemorySessionStore) (now : ℤ) (i : SessionIdentity)
    (finished : Option String) : ∃ gone : RunKey → Bool,
      s.voidPoints now i finished = s.dropPoints gone ∧
      ∀ run, finished = some run → gone (i,run) = true := by
  obtain ⟨gone,hg⟩ := expire_drops (s := s) now
  cases finished with
  | none => exact ⟨gone,hg,fun _ h => by cases h⟩
  | some run =>
    refine ⟨fun k => decide (k = (i,run)) || gone k,?_,?_⟩
    · rw [← drop_points_again, ← hg]
      rfl
    · intro other ho
      cases ho
      simp

theorem append_new_lawful (hs : Indexed pf s) (i : SessionIdentity) (a : AppendArgs)
    {source : Option (String × ℕ)} {record : SessionRecord}
    (hp : prepareAppend limits a = .ok (source,eventDigest a.eventType a.payload))
    (hr : s.sessions.get? i = some record)
    (hfresh : ∀ x ∈ s.eventsOf i, ∀ k, a.idempotencyKey = some k → x.idempotencyKey ≠ some k)
    (hnew : ∀ ns n, source = some (ns,n) → (record.memorySourceVersions.get? ns).getD 0 < n)
    (hids : ∀ x ∈ s.eventsOf i, x.eventId ≠ a.eventId) :
    Lawful pf limits r s (.append i a) (settle s .event
      (s.appendNew limits r i a source (eventDigest a.eventType a.payload) record)) := by
  unfold appendNew
  cases hrev : checkRevision record a.expectedRevision with
  | error e => exact lawful_raise hs trivial
  | ok =>
    simp only [bind, Except.bind]
    split_ifs with hroom htotal
    · exact lawful_raise hs trivial
    · exact lawful_raise hs trivial
    cases hev : validateEvent
        (newEvent i a ((s.eventsOf i).length+1) (record.revision+1) r.wall) with
    | error e => exact lawful_raise hs trivial
    | ok event =>
      have hevent := validate_event_ok hev
      obtain ⟨gone,hg,hfin⟩ := void_points_drops (s.storeEvent i a
        (eventDigest a.eventType a.payload) event (recordAfterEvent record event source)) r.clock i
        (finishedResumeRunId a.eventType a.payload)
      simp only [hg]
      refine lawful_effect (.append i a record source event _ ⟨hr,hp,check_revision_ok hrev,hnew,
        hevent,hevent ▸ hev,hids,hfresh,not_le.mp hroom⟩ (drop_points_shrinks s gone) ?_)
        ((view_drop_points _ gone).trans ?_) (indexed_drop_points ?_ gone)
      · intro run hrun
        simp [hfin run hrun]
      · exact View.ext (funext (sessions_get_set i · _)) (funext (events_get_set i · _))
          (Function.update_eq_self i _).symm rfl rfl rfl
      · have hd : eventDigest a.eventType a.payload = eventDigest event.type event.payload := by
          rw [hevent]
          rfl
        refine ⟨fun j k => ?_,fun j id => ?_,hs.checkpointKeyed,hs.bytes⟩
        · simp only [storeEvent, eventsOf, events_get_set, hd]
          exact keyed_append hs (by rw [hevent]; rfl) hfresh j k
        · have hid : a.eventId = event.eventId := by
            rw [hevent]
            rfl
          simp only [storeEvent, eventsOf, events_get_set, hid]
          exact ids_append hs (hid ▸ hids) j id

theorem append_lawful (hs : Indexed pf s) (i : SessionIdentity) (a : AppendArgs) :
    Lawful pf limits r s (.append i a) (settle s .event (s.append limits r i a)) := by
  unfold append require
  cases hp : prepareAppend limits a with
  | error e => exact lawful_raise hs trivial
  | ok prepared =>
    obtain ⟨source,fingerprint⟩ := prepared
    obtain ⟨rfl,hsource⟩ := prepare_append_ok hp
    cases hr : s.sessions.get? i with
    | none => exact lawful_raise hs trivial
    | some record =>
      simp only [bind, Except.bind]
      cases hb : a.idempotencyKey.bind (fun k => s.eventIdempotency.get? (i,k)) with
      | some prior =>
        obtain ⟨k,hk,hget⟩ := Option.bind_eq_some_iff.mp hb
        rw [hs.keyed] at hget
        obtain ⟨e,hfind,rfl⟩ := Option.map_eq_some_iff.mp hget
        simp only
        split_ifs with hd
        · exact lawful_raise hs trivial
        · exact lawful_answer hs ⟨List.mem_of_find?_eq_some hfind,Or.inl ⟨k,hk,
            by simpa using List.find?_some hfind,not_not.mp hd⟩⟩
      | none =>
        have hfresh : ∀ x ∈ s.eventsOf i, ∀ k, a.idempotencyKey = some k →
            x.idempotencyKey ≠ some k := by
          intro x hx k hk
          rw [hk, Option.bind_some, hs.keyed, Option.map_eq_none_iff, List.find?_eq_none] at hb
          simpa using hb x hx
        simp only
        split_ifs with hstale hid
        · cases source with
          | none => simp at hstale
          | some stamp =>
            simp only [Option.any_some, decide_eq_true_eq] at hstale
            split
            · rename_i event hfind
              obtain ⟨ht,hm⟩ := hsource (by simp)
              exact lawful_answer hs ⟨List.mem_of_find?_eq_some hfind,Or.inr ⟨ht,record,stamp.1,
                stamp.2,hr,hm,hstale,by simpa using List.find?_some hfind⟩⟩
            · exact lawful_raise hs trivial
        · exact lawful_raise hs trivial
        · refine append_new_lawful hs i a hp hr hfresh ?_ ?_
          · rintro ns n rfl
            simpa using hstale
          · intro x hx
            rw [Dict.contains, hs.ids, Option.isSome_iff_ne_none, ne_eq, not_not,
              List.find?_eq_none] at hid
            simpa using hid x hx

theorem prune_loop_retains (limits : SessionStoreLimits) (i : SessionIdentity)
    (cs : List SessionCheckpoint)
    (d : Dict RunKey (Digest × SessionCheckpoint)) :
    (pruneLoop limits i cs d).1 = retained limits cs := by
  induction cs generalizing d with
  | nil => rfl
  | cons c cs ih =>
    rw [pruneLoop, retained]
    split_ifs
    · exact ih _
    · rfl

def searched (f : SessionIdentity → List SessionCheckpoint) (k : RunKey) :
    Option (Digest × SessionCheckpoint) :=
  ((f k.1).find? (fun c => decide (c.idempotencyKey = k.2))).map
    (fun c => (digest c.workflowState,c))

theorem prune_loop_indexed (cs : List SessionCheckpoint)
    (hk : cs.Pairwise (fun c d => c.idempotencyKey ≠ d.idempotencyKey))
    (f : SessionIdentity → List SessionCheckpoint) (d : Dict RunKey (Digest × SessionCheckpoint))
    (h : ∀ k, d.get? k = searched (Function.update f i cs) k) (k : RunKey) :
    (pruneLoop limits i cs d).2.get? k =
      searched (Function.update f i (pruneLoop limits i cs d).1) k := by
  induction cs generalizing d with
  | nil => exact h k
  | cons c cs ih =>
    obtain ⟨hc,hrest⟩ := List.pairwise_cons.mp hk
    have hfound : d.get? (i,c.idempotencyKey) = some (digest c.workflowState,c) := by
      simp [h, searched]
    rw [pruneLoop]
    split_ifs
    · simp only [hfound, if_true]
      refine ih hrest _ (fun l => ?_)
      rw [Dict.get_erase]
      split_ifs with hl
      · subst hl
        have hn : cs.find? (fun x => decide (x.idempotencyKey = c.idempotencyKey)) = none := by
          rw [List.find?_eq_none]
          intro x hx
          simpa using (hc x hx).symm
        simp [searched, hn]
      · rw [h, searched, searched]
        by_cases hi : l.1 = i
        · have hne : c.idempotencyKey ≠ l.2 := fun he => hl (Prod.ext hi he.symm)
          simp [hi, hne]
        · simp [hi]
    · exact h k

section
variable (hs : Indexed pf s)
include hs

theorem checkpoint_new_lawful (hw : WellFormed pf s.view)
    (i : SessionIdentity) (a : CheckpointArgs) {record : SessionRecord}
    (hb : utf8Length a.workflowState.render ≤ limits.maxCheckpointStateBytes)
    (hr : s.sessions.get? i = some record)
    (hkey : ∀ x ∈ s.checkpointsOf i, x.idempotencyKey ≠ a.idempotencyKey)
    (hid : ∀ x ∈ s.checkpointsOf i, x.checkpointId ≠ a.checkpointId) :
    Lawful pf limits r s (.saveCheckpoint i a) (settle s .checkpoint
      (s.checkpointNew limits r i a (digest a.workflowState) record)) := by
  unfold checkpointNew
  cases hrev : checkRevision record (some a.expectedRevision) with
  | error e => exact lawful_raise hs trivial
  | ok =>
    simp only [bind, Except.bind]
    cases hv : validateCheckpoint
        (newCheckpoint i a (s.eventsOf i).length (record.revision+1) r.wall) with
    | error e => exact lawful_raise hs trivial
    | ok c =>
      have hc := validate_checkpoint_ok hv
      have hfit : stateBytes c ≤ limits.maxCheckpointBytesPerSession := by
        rw [hc]
        exact hb.trans limits.internallyConsistent.2.2.1
      have hpair : (s.checkpointsOf i ++ [c]).Pairwise
          (fun c d => c.idempotencyKey ≠ d.idempotencyKey) := by
        refine List.pairwise_append.mpr
          ⟨(hw.coherent i record hr).checkpointKeys,List.pairwise_singleton _ _,?_⟩
        intro x hx y hy
        rw [List.mem_singleton.mp hy, hc]
        exact hkey x hx
      refine lawful_effect (.checkpoint i a record c ⟨hr,check_revision_ok hrev _ rfl,hc,
        hc ▸ hv,hid,hkey,hfit⟩) ?_ ⟨hs.keyed,hs.ids,fun j k => ?_,hs.bytes⟩
      · rw [← prune_loop_retains limits i _
          (s.checkpointIdempotency.set (i,a.idempotencyKey) (digest a.workflowState,c))]
        exact View.ext (funext (sessions_get_set i · _)) (Function.update_eq_self i _).symm
          (funext (checkpoints_get_set i · _)) rfl rfl rfl
      · simp only [checkpointsOf, checkpoints_get_set]
        refine prune_loop_indexed i _ hpair s.checkpointsOf _ (fun l => ?_) (j,k)
        rw [Dict.get_set]
        by_cases hl : l = (i,a.idempotencyKey)
        · subst hl
          have hn : (s.checkpointsOf i).find?
              (fun x => decide (x.idempotencyKey = a.idempotencyKey)) = none := by
            rw [List.find?_eq_none]
            intro x hx
            simpa using hkey x hx
          simp [searched, hn, hc, newCheckpoint]
        · rw [if_neg hl, hs.checkpointKeyed l.1 l.2, searched]
          by_cases hli : l.1 = i
          · have hne : c.idempotencyKey ≠ l.2 := by
              intro he
              refine hl (Prod.ext hli ?_)
              rw [← he, hc]
              rfl
            simp [hli, hne]
          · simp [hli]

theorem save_checkpoint_lawful (hw : WellFormed pf s.view)
    (i : SessionIdentity) (a : CheckpointArgs) :
    Lawful pf limits r s (.saveCheckpoint i a)
      (settle s .checkpoint (s.saveCheckpoint limits r i a)) := by
  unfold saveCheckpoint require
  cases hp : prepareCheckpoint limits a with
  | error e => exact lawful_raise hs trivial
  | ok fingerprint =>
    obtain ⟨rfl,hb⟩ := prepare_checkpoint_ok hp
    cases hr : s.sessions.get? i with
    | none => exact lawful_raise hs trivial
    | some record =>
      simp only [bind, Except.bind]
      have hfind := hs.checkpointKeyed i a.idempotencyKey
      cases hget : s.checkpointIdempotency.get? (i,a.idempotencyKey) with
      | some prior =>
        rw [hget] at hfind
        obtain ⟨c,hc,rfl⟩ := Option.map_eq_some_iff.mp hfind.symm
        simp only
        split_ifs with hd
        · exact lawful_raise hs trivial
        · exact lawful_answer hs ⟨List.mem_of_find?_eq_some hc,
            by simpa using List.find?_some hc,not_not.mp hd⟩
      | none =>
        rw [hget, eq_comm, Option.map_eq_none_iff, List.find?_eq_none] at hfind
        simp only
        split_ifs with hid
        · exact lawful_raise hs trivial
        · refine checkpoint_new_lawful hs hw i a hb hr (fun x hx => by simpa using hfind x hx) ?_
          intro x hx he
          exact hid (List.any_eq_true.mpr ⟨x,hx,decide_eq_true he⟩)

variable (i : SessionIdentity)

theorem set_status_lawful (status : SessionStatus)
    (expected : ℤ) : Lawful pf limits r s (.setStatus i status expected)
      (settle s .session (s.setStatus r i status expected)) := by
  unfold setStatus require
  cases hr : s.sessions.get? i with
  | none => exact lawful_raise hs trivial
  | some record =>
    simp only [bind, Except.bind]
    cases hrev : checkRevision record (some expected) with
    | error e => exact lawful_raise hs trivial
    | ok =>
      obtain rfl := check_revision_ok hrev _ rfl
      refine lawful_effect (.status i status record _ hr (Or.inl rfl)) ?_
        ⟨hs.keyed,hs.ids,hs.checkpointKeyed,hs.bytes⟩
      exact View.ext (funext (sessions_get_set i · _)) (Function.update_eq_self i _).symm
        (Function.update_eq_self i _).symm rfl rfl rfl

theorem resume_lawful :
    Lawful pf limits r s (.resume i) (settle s .snapshot (s.resume i)) := by
  unfold resume
  cases hr : s.sessions.get? i with
  | none => exact lawful_answer hs (by simp [Answers, snapshotOf, view, hr])
  | some record =>
    simp only
    split_ifs
    · exact lawful_raise hs trivial
    · refine lawful_answer hs ?_
      simp only [Answers, snapshotOf, view, hr]
      rfl

theorem recent_transcript_lawful (limit : ℤ) :
    Lawful pf limits r s (.recentTranscript i limit)
      (settle s .transcript (s.recentTranscript i limit)) := by
  unfold recentTranscript require
  split_ifs with hl
  · exact lawful_raise hs trivial
  · cases hr : s.sessions.get? i with
    | none => exact lawful_raise hs trivial
    | some record =>
      exact lawful_answer hs ⟨by omega,by omega,by simp [view, hr],rfl⟩

theorem transcript_page_lawful (limit : ℤ)
    (before : Option ℤ) : Lawful pf limits r s (.transcriptPage i limit before)
      (settle s .transcript (s.transcriptPage i limit before)) := by
  unfold transcriptPage require
  cases hv : validateTranscriptPage limit before with
  | error e => exact lawful_raise hs trivial
  | ok =>
    cases hr : s.sessions.get? i with
    | none => exact lawful_raise hs trivial
    | some record =>
      have hl : 1 ≤ limit ∧ limit ≤ 1000 := by
        unfold validateTranscriptPage at hv
        split_ifs at hv
        omega
      refine lawful_answer hs ⟨hl.1,hl.2,by simp [view, hr],_,?_,rfl⟩
      cases before <;> rfl

end

/-- Every call of the in-memory store is an effect of the abstract store. -/
theorem call_lawful (limits : SessionStoreLimits) (r : Readings) (hs : Indexed pf s)
    (hw : WellFormed pf s.view) (c : Call) :
    Lawful pf limits r s c (s.call pf limits r c) := by
  cases c with
  | create i => exact create_lawful hs hw i
  | get i => exact lawful_answer hs rfl
  | claimRun i run owner lease => exact claim_run_lawful hs i run owner lease
  | finalizeRun i run owner lease => exact finalize_run_lawful hs i run owner lease
  | requestStop i run => exact request_stop_lawful hs i run
  | stopRequested i run => exact stop_requested_lawful hs i run
  | activeRunIds i limit => exact active_run_ids_lawful hs i limit
  | saveResumePoint i q => exact save_resume_point_lawful hs i q
  | getResumePoint i run => exact get_resume_point_lawful hs i run
  | append i a => exact append_lawful hs i a
  | saveCheckpoint i a => exact save_checkpoint_lawful hs hw i a
  | setStatus i status expected => exact set_status_lawful hs i status expected
  | resume i => exact resume_lawful hs i
  | recentTranscript i limit => exact recent_transcript_lawful hs i limit
  | transcriptPage i limit before => exact transcript_page_lawful hs i limit before

end Calls
end SuiteHarness.Sessions.InMemorySessionStore
