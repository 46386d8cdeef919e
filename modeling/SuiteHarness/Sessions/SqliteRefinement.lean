import SuiteHarness.Sessions.Sqlite
import SuiteHarness.Sessions.Spec
import SuiteHarness.Library.Eviction

/-!
# The SQLite store refines the abstract store

The abstraction selects rows by key. `Stored` keeps what the schema declares
and the writers maintain: primary keys, growing rowids, and the columns that
repeat part of a row's value.
-/

set_option autoImplicit false

namespace SuiteHarness.Sessions.SQLiteSessionStore
open SuiteHarness.Library SuiteHarness.Library.Table SuiteHarness.Library.Eviction

def claimKey (row : ClaimRow) : RunKey := (row.identity,row.runId)

def resumeKey (row : ResumeRow) : RunKey := (row.identity,row.runId)

def stopKey (row : StopRow) : RunKey := (row.identity,row.runId)

def sessionKey (row : SessionRecord) : SessionIdentity := row.identity

def claimOf (row : ClaimRow) : RunClaim := ⟨row.ownerToken,row.claimState,row.expiresAtUs⟩

variable (db : SQLiteSessionStore) (i : SessionIdentity)

theorem session_row_lookup : db.sessionRow i = lookup sessionKey i db.sessions := rfl

variable (run : String)

theorem claim_row_lookup : db.claimRow i run = lookup claimKey (i,run) db.runClaims := by
  simp [claimRow, lookup, claimKey]

theorem resume_row_lookup : db.resumeRow i run = lookup resumeKey (i,run) db.resumePoints := by
  simp [resumeRow, lookup, resumeKey]

theorem stop_row_lookup : db.stopRow i run = lookup stopKey (i,run) db.runStops := by
  simp [stopRow, lookup, stopKey]

def view (db : SQLiteSessionStore) : View where
  record := db.sessionRow
  events i := (db.eventRows i).map (fun row => row.event)
  checkpoints i := (db.checkpointRows i).map (fun row => row.checkpoint)
  claim k := (lookup claimKey k db.runClaims).map claimOf
  stopped k := (lookup stopKey k db.runStops).isSome
  point k := (lookup resumeKey k db.resumePoints).map (fun row => row.point)

structure Stored (pf : Platform) (db : SQLiteSessionStore) : Prop where
  sessions : Unique sessionKey db.sessions
  claims : Unique claimKey db.runClaims
  points : Unique resumeKey db.resumePoints
  rowids : Ascending (fun row => row.rowid) db.resumePoints
  columns : ∀ row ∈ db.resumePoints, row.createdAtUs = row.point.createdAt ∧
    row.pointBytes = pf.modelDumpJsonBytes row.point
  digests : ∀ row ∈ db.transcriptEvents,
    row.payloadDigest = eventDigest row.event.type row.event.payload
  stateDigests : ∀ row ∈ db.sessionCheckpoints,
    row.stateDigest = digest row.checkpoint.workflowState

theorem view_init : init.view = View.empty := rfl

theorem stored_init (pf : Platform) : Stored pf init :=
  ⟨.nil,.nil,.nil,.nil,by simp [init],by simp [init],by simp [init]⟩

def rowErrors : List SessionError := [.valueError "updated_at must not precede created_at"]

section Calls
variable {pf : Platform} {limits : SessionStoreLimits} {r : Readings} {db : SQLiteSessionStore}

def Lawful (pf : Platform) (limits : SessionStoreLimits) (r : Readings)
    (db : SQLiteSessionStore) (c : Call) (result : SQLiteSessionStore × Outcome) : Prop :=
  Effect pf limits rowErrors db.view r c result.2 result.1.view ∧ Stored pf result.1

theorem lawful_raise (hs : Stored pf db) {c : Call} {e : SessionError}
    (h : MayRaise rowErrors db.view c e) : Lawful pf limits r db c (db,.error e) :=
  ⟨.raise c e h,hs⟩

theorem lawful_answer (hs : Stored pf db) {c : Call} {reply : Reply}
    (h : Answers db.view r c reply) : Lawful pf limits r db c (db,.ok reply) :=
  ⟨.answer c reply h,hs⟩

theorem lawful_effect {t : SQLiteSessionStore} {c : Call} {o : Outcome} {w : View}
    (h : Effect pf limits rowErrors db.view r c o w) (hv : t.view = w) (ht : Stored pf t) :
    Lawful pf limits r db c (t,o) := ⟨hv.symm ▸ h,ht⟩

/-- A session row that is required is there and decodes to itself. -/
theorem require_cases (db : SQLiteSessionStore) (i : SessionIdentity) :
    (∃ record, db.require i = .ok record ∧ db.sessionRow i = some record) ∨
    (∃ e, db.require i = .error e ∧
      ((e ∈ rowErrors ∧ db.view.Untimely i) ∨ db.view.record i = none)) := by
  unfold require record
  cases hr : db.sessionRow i with
  | none => exact Or.inr ⟨_,rfl,Or.inr hr⟩
  | some row =>
    simp only
    split_ifs with hlate
    · exact Or.inr ⟨_,rfl,Or.inl ⟨List.mem_singleton_self _,row,hr,hlate⟩⟩
    · exact Or.inl ⟨row,rfl,rfl⟩

variable (i : SessionIdentity)

/-- Replacing one session's row by a row of the same session. -/
theorem session_row_update (f : SessionRecord → SessionRecord) (row : SessionRecord)
    (hr : db.sessionRow i = some row) (hf : ∀ a, a.identity = i → (f a).identity = i) :
    (db.updateSession i f).sessionRow = Function.update db.sessionRow i (some (f row)) := by
  funext j
  refine (lookup_update sessionKey i j f db.sessions hf).trans ?_
  by_cases hj : j = i
  · subst hj
    rw [if_pos rfl, ← session_row_lookup, hr, Function.update_self]
    rfl
  · rw [if_neg hj, Function.update_of_ne hj]
    rfl

theorem stored_sessions (hs : Stored pf db) {i : SessionIdentity}
    {f : SessionRecord → SessionRecord} (hf : ∀ a, a.identity = i → (f a).identity = i) :
    Stored pf (db.updateSession i f) :=
  { hs with sessions := unique_update sessionKey i f db.sessions hf hs.sessions }

open View (ext setClaim setSession)

/-- The abstract store after an update of a session that has a row. -/
theorem view_update_session {i : SessionIdentity} {f : SessionRecord → SessionRecord}
    {row : SessionRecord} (hr : db.sessionRow i = some row)
    (hf : ∀ a, a.identity = i → (f a).identity = i) :
    (db.updateSession i f).view =
      db.view.setSession i (f row) (db.view.events i) (db.view.checkpoints i) :=
  ext (session_row_update i f row hr hf) (Function.update_eq_self i _).symm
    (Function.update_eq_self i _).symm rfl rfl rfl

theorem session_row_insert (now : ℤ) (hr : db.sessionRow i = none) :
    (db.insertSession (newRecord i now)).sessionRow =
      Function.update db.sessionRow i (some (newRecord i now)) := by
  funext j
  refine (lookup_append sessionKey j db.sessions (newRecord i now)).trans ?_
  rw [← session_row_lookup]
  by_cases hj : j = i
  · subst hj
    simp [hr, sessionKey, newRecord]
  · have hij : i ≠ j := Ne.symm hj
    simp [hj, sessionKey, newRecord, hij]

theorem require_insert (now : ℤ) (hr : db.sessionRow i = none) :
    (db.insertSession (newRecord i now)).require i = .ok (newRecord i now) := by
  rw [require, session_row_insert i now hr, Function.update_self]
  simp [record, newRecord]

theorem create_lawful (hs : Stored pf db) (hw : WellFormed pf db.view) (i : SessionIdentity) :
    Lawful pf limits r db (.create i) (settle db .session (db.create limits r i)) := by
  unfold create
  cases hr : db.sessionRow i with
  | some row =>
    rcases require_cases db i with ⟨record,hq,hrow⟩ | ⟨e,hq,-⟩
    · simp only [hq, bind, Except.bind]
      exact lawful_answer hs hrow
    · simp only [hq, bind, Except.bind]
      exact lawful_raise hs trivial
  | none =>
    simp only
    split_ifs
    · exact lawful_raise hs trivial
    obtain ⟨he,hc,-⟩ := hw.absent i hr
    rw [require_insert i r.clock hr]
    refine lawful_effect (.create i r.clock hr (Or.inl rfl)) ?_
      { hs with sessions := unique_append sessionKey _ _ hs.sessions hr }
    exact ext (session_row_insert i r.clock hr) (Function.update_eq_self_iff.mpr he.symm).symm
      (Function.update_eq_self_iff.mpr hc.symm).symm rfl rfl rfl

theorem get_lawful (hs : Stored pf db) (i : SessionIdentity) :
    Lawful pf limits r db (.get i) (settle db .maybeSession (db.get i)) := by
  unfold get
  cases hr : db.sessionRow i with
  | none => exact lawful_answer hs hr.symm
  | some row =>
    simp only [record, bind, Except.bind]
    split_ifs
    · exact lawful_raise hs trivial
    · exact lawful_answer hs hr.symm

/-- The abstract store after a change of one run's claim row. -/
theorem view_update_claim {i : SessionIdentity} {run : String} {f : ClaimRow → ClaimRow}
    {row : ClaimRow} (hr : lookup claimKey (i,run) db.runClaims = some row)
    (hf : ∀ a, claimKey a = (i,run) → claimKey (f a) = (i,run)) :
    view { db with runClaims := updateWhere (fun a => decide (claimKey a = (i,run))) f db.runClaims } =
      db.view.setClaim (i,run) (claimOf (f row)) := by
  refine ext rfl rfl rfl ?_ rfl rfl
  funext k
  change (lookup claimKey k _).map claimOf = _
  rw [lookup_update claimKey (i,run) k f _ hf]
  by_cases hk : k = (i,run)
  · subst hk
    simp [hr, setClaim]
  · simp [hk, setClaim, view]

theorem claim_run_lawful (hs : Stored pf db) (i : SessionIdentity) (run owner : String)
    (lease : ℤ) : Lawful pf limits r db (.claimRun i run owner lease)
      (settle db .claim (db.claimRun limits r i run owner lease)) := by
  unfold claimRun
  cases hv : validateRunClaim run owner lease with
  | error e => exact lawful_raise hs (Or.inl hv)
  | ok =>
    rcases require_cases db i with ⟨record,hq,hrow⟩ | ⟨e,hq,he⟩
    · simp only [bind, Except.bind, hq]
      cases hc : db.claimRow i run with
      | none =>
        rw [claim_row_lookup] at hc
        have hcv : db.view.claim (i,run) = none := by simp [view, hc]
        simp only
        split_ifs
        · exact lawful_raise hs (Or.inr (Or.inr (Or.inr hcv)))
        · exact lawful_raise hs (Or.inr (Or.inr (Or.inr hcv)))
        · refine lawful_effect (.acquire i run owner lease (by simp [view, hrow]) hcv) ?_
            { hs with claims := unique_append claimKey _ _ hs.claims hc }
          refine ext rfl rfl rfl ?_ rfl rfl
          funext k
          change (lookup claimKey k _).map claimOf = _
          rw [lookup_append]
          by_cases hk : k = (i,run)
          · subst hk
            simp [hc, claimKey, claimOf, setClaim]
          · simp [hk, claimKey, setClaim, view, Ne.symm hk]
      | some prior =>
        rw [claim_row_lookup] at hc
        have hcv : db.view.claim (i,run) = some (claimOf prior) := by simp [view, hc]
        simp only
        split_ifs with ha hb
        · exact lawful_answer hs ⟨claimOf prior,hcv,ha⟩
        · have hx : prior.expiresAtUs ≤ r.clock := not_lt.mp (fun hl => ha ⟨hb,hl⟩)
          have hp : (fun row : ClaimRow => decide (row.identity = i ∧ row.runId = run)) =
              (fun a => decide (claimKey a = (i,run))) := by
            funext a
            simp [claimKey]
          simp only [hp]
          exact lawful_effect (.expire i run owner lease _ hcv (Or.inr hx))
            (view_update_claim hc (fun _ h => h))
            { hs with claims := unique_update claimKey _ _ _ (fun _ h => h) hs.claims }
        · have hx : prior.claimState = .abandoned := not_not.mp hb
          refine lawful_effect (.expire i run owner lease _ hcv (Or.inl hx)) ?_ hs
          rw [View.set_claim_self]
          rw [hcv, ← hx]
          rfl
    · simp only [bind, Except.bind, hq]
      exact lawful_raise hs (Or.inr (he.imp id Or.inl))

theorem finalizes_update (run owner : String) (expires : ℤ) (rows : List ClaimRow) :
    updateWhere (finalizes i run owner)
      (fun row => { row with claimState := .finalizing, expiresAtUs := expires }) rows =
    updateWhere (fun a => decide (claimKey a = (i,run)))
      (fun row => if row.ownerToken = owner ∧ row.claimState = .active then
        { row with claimState := .finalizing, expiresAtUs := expires } else row) rows := by
  apply List.map_congr_left
  intro a _
  by_cases hk : claimKey a = (i,run)
  · obtain ⟨h1,h2⟩ := Prod.mk.inj hk
    by_cases ho : a.ownerToken = owner ∧ a.claimState = .active <;>
      simp [finalizes, hk, h1, h2, ho]
  · have hn : ¬ (a.identity = i ∧ a.runId = run ∧ a.ownerToken = owner ∧ a.claimState = .active) :=
      fun h => hk (Prod.ext h.1 h.2.1)
    simp [finalizes, hk, hn]

theorem finalize_run_lawful (hs : Stored pf db) (i : SessionIdentity) (run owner : String)
    (lease : ℤ) : Lawful pf limits r db (.finalizeRun i run owner lease)
      (settle db .finalized (db.finalizeRun r i run owner lease)) := by
  unfold finalizeRun
  cases hv : validateRunClaim run owner lease with
  | error e => exact lawful_raise hs (Or.inl hv)
  | ok =>
    rcases require_cases db i with ⟨record,hq,hrow⟩ | ⟨e,hq,he⟩
    · simp only [bind, Except.bind, hq]
      have hcount := count_unique claimKey (i,run) (finalizes i run owner) db.runClaims hs.claims
        (fun a ha => by
          simp only [finalizes, decide_eq_true_eq] at ha
          exact Prod.ext ha.1 ha.2.1)
      by_cases hany : (lookup claimKey (i,run) db.runClaims).any (finalizes i run owner) = true
      · rw [if_pos hany] at hcount
        obtain ⟨row,hc,hrow⟩ := (Option.any_eq_true _ _).mp hany
        simp only [finalizes, decide_eq_true_eq] at hrow
        have hf (a : ClaimRow) (ha : claimKey a = (i,run)) : claimKey
            (if a.ownerToken = owner ∧ a.claimState = .active then
              { a with claimState := .finalizing, expiresAtUs := r.clock+lease } else a) =
            (i,run) := by
          split_ifs <;> exact ha
        rw [hcount, finalizes_update]
        refine lawful_effect (.finalize i run owner lease (claimOf row) (by simp [view, hc])
          hrow.2.2.1 hrow.2.2.2) ((view_update_claim hc hf).trans ?_)
          { hs with claims := unique_update claimKey _ _ _ hf hs.claims }
        rw [if_pos hrow.2.2]
        simp [claimOf, hrow.2.2.1]
      · rw [if_neg hany] at hcount
        rw [update_unselected _ _ _ (List.countP_eq_zero.mp hcount), hcount]
        refine lawful_answer hs (fun c h ho => hany ?_)
        obtain ⟨row,hc,rfl⟩ := Option.map_eq_some_iff.mp h
        obtain ⟨h1,h2⟩ := Prod.mk.inj (lookup_mem claimKey hc).2
        simpa [hc, finalizes, h1, h2, claimOf] using ho
    · simp only [bind, Except.bind, hq]
      exact lawful_raise hs (Or.inr he)

theorem request_stop_lawful (hs : Stored pf db) (i : SessionIdentity) (run : String) :
    Lawful pf limits r db (.requestStop i run) (settle db .stop (db.requestStop r i run)) := by
  unfold requestStop
  cases hv : validateRunId run with
  | error e => exact lawful_raise hs trivial
  | ok =>
    rw [claim_row_lookup, stop_row_lookup]
    cases hc : lookup claimKey (i,run) db.runClaims with
    | none => exact lawful_answer hs (by simp [Answers, view, hc])
    | some claim =>
      have hcv : db.view.claim (i,run) = some (claimOf claim) := by simp [view, hc]
      simp only [bind, Except.bind]
      split_ifs with ha
      · exact lawful_answer hs
          ⟨_,hcv,fun hl => ha.elim (fun h => h hl.1) (not_le.mpr hl.2)⟩
      · cases hst : lookup stopKey (i,run) db.runStops with
        | some row => exact lawful_answer hs (by simp [Answers, view, hst])
        | none =>
          rw [not_or, not_not, not_le] at ha
          refine lawful_effect (.stop i run _ hcv ha) ?_
            ⟨hs.sessions,hs.claims,hs.points,hs.rowids,hs.columns,hs.digests,hs.stateDigests⟩
          refine ext rfl rfl rfl rfl ?_ rfl
          funext k
          change (lookup stopKey k _).isSome = _
          rw [lookup_append]
          by_cases hk : k = (i,run)
          · simp [hk, View.setStop, stopKey]
          · simp [hk, View.setStop, stopKey, Ne.symm hk, view]

theorem stop_requested_lawful (hs : Stored pf db) (i : SessionIdentity) (run : String) :
    Lawful pf limits r db (.stopRequested i run)
      (settle db .stopFlag (db.stopRequested i run)) := by
  unfold stopRequested
  rw [stop_row_lookup]
  cases hv : validateRunId run with
  | error e => exact lawful_raise hs trivial
  | ok => exact lawful_answer hs rfl

theorem active_run_ids_lawful (hs : Stored pf db) (i : SessionIdentity) (limit : ℤ) :
    Lawful pf limits r db (.activeRunIds i limit)
      (settle db .runIds (db.activeRunIds r i limit)) := by
  unfold activeRunIds
  cases hv : validateActiveRunLimit limit with
  | error e => exact lawful_raise hs trivial
  | ok =>
    refine lawful_answer hs (fun run hm => ?_)
    obtain ⟨row,hrow,rfl⟩ := List.mem_map.mp (List.mem_of_mem_take hm)
    obtain ⟨hmem,hp⟩ := List.mem_filter.mp ((List.perm_insertionSort _ _).mem_iff.mp hrow)
    simp only [Bool.and_eq_true, decide_eq_true_eq] at hp
    obtain ⟨⟨rfl,hst⟩,hx⟩ := hp
    refine ⟨claimOf row,?_,hst,hx⟩
    change (lookup claimKey (claimKey row) db.runClaims).map claimOf = _
    rw [lookup_of_mem claimKey hs.claims hmem]
    rfl

def deletePoints (db : SQLiteSessionStore) (gone : ResumeRow → Bool) : SQLiteSessionStore :=
  { db with resumePoints := deleteWhere gone db.resumePoints }

theorem view_delete_points (hs : Stored pf db) (gone : ResumeRow → Bool) :
    (db.deletePoints gone).view = db.view.setPoints (fun k =>
      ((lookup resumeKey k db.resumePoints).filter (fun row => !gone row)).map
        (fun row => row.point)) := by
  refine ext rfl rfl rfl rfl rfl ?_
  funext k
  exact congrArg (Option.map _) (lookup_delete resumeKey gone k db.resumePoints hs.points)

theorem delete_points_shrinks (db : SQLiteSessionStore)
    (gone : ResumeRow → Bool) : Shrinks db.view (fun k =>
    ((lookup resumeKey k db.resumePoints).filter (fun row => !gone row)).map
      (fun row => row.point)) := by
  intro k q h
  obtain ⟨row,hrow,rfl⟩ := Option.map_eq_some_iff.mp h
  rw [Option.filter_eq_some_iff] at hrow
  simp [view, hrow.1]

theorem stored_delete_points (hs : Stored pf db) (gone : ResumeRow → Bool) :
    Stored pf (db.deletePoints gone) :=
  { hs with
    points := hs.points.sublist List.filter_sublist
    rowids := hs.rowids.sublist List.filter_sublist
    columns := fun row hrow => hs.columns row (List.mem_of_mem_filter hrow) }

theorem expire_deletes (now : ℤ) (db : SQLiteSessionStore) :
    db.expireResumePoints now =
      db.deletePoints (fun row => decide (row.createdAtUs ≤ now-resumePointTtl)) := rfl

theorem get_resume_point_lawful (hs : Stored pf db) (i : SessionIdentity) (run : String) :
    Lawful pf limits r db (.getResumePoint i run)
      (settle db .point (db.getResumePoint pf r.clock r.clock i run)) := by
  unfold getResumePoint
  cases hv : validateRunId run with
  | error e => exact lawful_raise hs trivial
  | ok =>
    simp only [bind, Except.bind, expire_deletes, resume_row_lookup]
    have hshrink := delete_points_shrinks db
      (fun row => decide (row.createdAtUs ≤ r.clock-resumePointTtl))
    have hview := view_delete_points hs
      (fun row => decide (row.createdAtUs ≤ r.clock-resumePointTtl))
    have hstored := stored_delete_points hs
      (fun row => decide (row.createdAtUs ≤ r.clock-resumePointTtl))
    split
    · exact lawful_effect (.readPoint i run none _ hshrink (fun _ h => by cases h)) hview hstored
    · rename_i row hrow
      refine lawful_effect (.readPoint i run _ _ hshrink (fun q hq => ?_)) hview hstored
      rw [Option.filter_eq_some_iff] at hq
      simp only [Bool.and_eq_true, decide_eq_true_eq] at hq
      obtain ⟨hsafe,-,hfresh⟩ := hq
      obtain rfl := safe_resume_point_eq pf _ _ hsafe
      refine ⟨hshrink _ _ ?_,hfresh⟩
      refine (congrFun (congrArg View.point hview) (i,run)).symm.trans ?_
      simp [view, hrow]

theorem trim_loop_evicts (keep maxCount maxBytes : ℕ) (rows : List ResumeRow) (count size : ℕ) :
    trimLoop keep maxCount maxBytes rows count size =
      evict (fun k => decide (k = keep)) maxCount maxBytes
        (rows.map (fun row => (row.rowid,row.pointBytes))) count size := by
  induction rows generalizing count size with
  | nil => rfl
  | cons row rows ih => simp only [trimLoop, List.map_cons, evict, decide_eq_true_eq, ih]

theorem trim_scope_deletes (scope : Option SessionIdentity) (keep maxCount maxBytes : ℕ)
    (db : SQLiteSessionStore) : ∃ gone : ResumeRow → Bool,
      (∀ row : ResumeRow, row.rowid = keep → gone row = false) ∧
      db.trimScope scope keep maxCount maxBytes = db.deletePoints gone := by
  refine ⟨_,?_,rfl⟩
  intro row hk
  rw [decide_eq_false_iff_not, trim_loop_evicts]
  intro hm
  simpa [hk] using evict_keeps _ _ _ _ _ _ _ hm

theorem delete_points_again (gone more : ResumeRow → Bool) :
    (db.deletePoints gone).deletePoints more = db.deletePoints (fun row => more row || gone row) := by
  simp [deletePoints, deleteWhere, List.filter_filter, Bool.not_or]

theorem trim_resume_points_deletes (limits : SessionStoreLimits) (i : SessionIdentity) (keep : ℕ)
    (db : SQLiteSessionStore) : ∃ gone : ResumeRow → Bool,
      (∀ row : ResumeRow, row.rowid = keep → gone row = false) ∧
      db.trimResumePoints limits i keep = db.deletePoints gone := by
  obtain ⟨first,hf,h1⟩ := trim_scope_deletes (some i) keep
    limits.maxResumePointsPerSession limits.maxResumeBytesPerSession db
  obtain ⟨second,hsec,h2⟩ := trim_scope_deletes none keep limits.maxResumePointsTotal
    limits.maxResumeBytesTotal (db.deletePoints first)
  refine ⟨fun row => second row || first row,fun row hrow => ?_,?_⟩
  · simp only [hf row hrow, hsec row hrow, Bool.or_self]
  · rw [trimResumePoints, h1, h2, delete_points_again]

theorem resume_key_iff (row : ResumeRow) (i : SessionIdentity) (run : String) :
    (row.identity = i ∧ row.runId = run) ↔ resumeKey row = (i,run) := Prod.mk_inj.symm

def upserted (db : SQLiteSessionStore) (i : SessionIdentity) (run : String)
    (point : RunResumePoint) (bytes : ℕ) : ResumeRow :=
  match lookup resumeKey (i,run) db.resumePoints with
  | some row => { row with point := point, pointBytes := bytes, createdAtUs := point.createdAt }
  | none => ⟨maxOf (fun row => row.rowid) db.resumePoints+1,i,run,point,bytes,point.createdAt⟩

theorem lookup_upsert (db : SQLiteSessionStore) (i : SessionIdentity) (run : String)
    (point : RunResumePoint) (bytes : ℕ)
    (k : RunKey) : lookup resumeKey k (db.upsertResume i run point bytes).resumePoints =
      if k = (i,run) then some (db.upserted i run point bytes)
      else lookup resumeKey k db.resumePoints := by
  unfold upsertResume upserted
  rw [resume_row_lookup]
  cases hc : lookup resumeKey (i,run) db.resumePoints with
  | some row =>
    simp only [resume_key_iff]
    refine (lookup_update resumeKey (i,run) k _ db.resumePoints ?_).trans ?_
    · exact fun _ h => h
    · split_ifs with hk
      · rw [hk, hc]
        rfl
      · rfl
  | none =>
    simp only
    rw [lookup_append]
    by_cases hk : k = (i,run)
    · subst hk
      simp [hc, resumeKey]
    · simp [hk, resumeKey, Ne.symm hk]

theorem stored_upsert (hs : Stored pf db) (i : SessionIdentity) (run : String)
    (point : RunResumePoint) :
    Stored pf (db.upsertResume i run point (pf.modelDumpJsonBytes point)) := by
  unfold upsertResume
  rw [resume_row_lookup]
  cases hc : lookup resumeKey (i,run) db.resumePoints with
  | some row =>
    simp only [resume_key_iff]
    refine { hs with
      points := unique_update resumeKey _ _ _ (fun _ h => h) hs.points
      rowids := ?_, columns := ?_ }
    · refine List.Pairwise.map _ (fun a b hab => ?_) hs.rowids
      split_ifs <;> exact hab
    · intro x hx
      obtain ⟨y,hy,rfl⟩ := List.mem_map.mp hx
      split_ifs
      · exact ⟨rfl,rfl⟩
      · exact hs.columns y hy
  | none =>
    refine { hs with
      points := unique_append resumeKey _ _ hs.points hc
      rowids := ?_, columns := ?_ }
    · refine List.pairwise_append.mpr ⟨hs.rowids,List.pairwise_singleton _ _,?_⟩
      intro a ha b hb
      rw [List.mem_singleton.mp hb]
      exact Nat.lt_succ_of_le (max_of_le (fun row : ResumeRow => row.rowid) _ a ha)
    · intro x hx
      rcases List.mem_append.mp hx with hx | hx
      · exact hs.columns x hx
      · rw [List.mem_singleton.mp hx]
        exact ⟨rfl,rfl⟩

theorem save_resume_point_lawful (hs : Stored pf db) (i : SessionIdentity)
    (q : RunResumePoint) : Lawful pf limits r db (.saveResumePoint i q)
      (settle db .point (db.saveResumePoint pf limits r i q)) := by
  have hself : Lawful pf limits r db (.saveResumePoint i q) (db,.ok (.point none)) :=
    lawful_effect (.refusePoint i q _ (fun _ _ h => h)) rfl hs
  unfold saveResumePoint
  cases hq : safeResumePoint pf q with
  | none => exact hself
  | some checked =>
    obtain rfl := safe_resume_point_eq pf q checked hq
    simp only
    split_ifs with hi hb
    · exact hself
    · exact hself
    rw [not_not] at hi
    rw [expire_deletes]
    generalize (fun row : ResumeRow => decide (row.createdAtUs ≤ r.clock-resumePointTtl)) = gone
    have hrefuse : Lawful pf limits r db (.saveResumePoint i checked)
        (db.deletePoints gone,.ok (.point none)) :=
      lawful_effect (.refusePoint i checked _ (delete_points_shrinks db gone))
        (view_delete_points hs gone) (stored_delete_points hs gone)
    rw [claim_row_lookup, stop_row_lookup]
    cases hc : lookup claimKey (i,checked.runId) (db.deletePoints gone).runClaims with
    | none => exact hrefuse
    | some claim =>
      have hcv : db.view.claim (i,checked.runId) = some (claimOf claim) :=
        congrArg (Option.map claimOf) hc
      simp only
      split_ifs with hx
      · exact hrefuse
      rcases require_cases (db.deletePoints gone) i with ⟨record,hr,hrow⟩ | ⟨e,hr,-⟩
      · simp only [bind, Except.bind, hr]
        split_ifs with hm
        · exact hrefuse
        · simp only [not_or, not_not, Bool.not_eq_false, not_le, Bool.not_eq_true] at hx hm
          obtain ⟨hst,hexp,hstop,hfresh,-⟩ := hx
          have hupsert := lookup_upsert (db.deletePoints gone) i checked.runId checked
            (pf.modelDumpJsonBytes checked)
          have hstored := stored_upsert (stored_delete_points hs gone) i checked.runId checked
          rw [resume_row_lookup, hupsert, if_pos rfl]
          simp only
          obtain ⟨trimmed,hkeep,ht⟩ := trim_resume_points_deletes limits i
            ((db.deletePoints gone).upserted i checked.runId checked
              (pf.modelDumpJsonBytes checked)).rowid
            ((db.deletePoints gone).upsertResume i checked.runId checked
              (pf.modelDumpJsonBytes checked))
          rw [ht]
          refine lawful_effect (.savePoint i checked _ ⟨hq,hi,⟨_,hcv,hst,hexp⟩,hstop,hfresh,
            ⟨record,hrow,hm.1,hm.2⟩⟩ ?_ ?_) (view_delete_points hstored trimmed)
            (stored_delete_points hstored trimmed)
          · rw [hupsert, if_pos rfl]
            simp only [Option.filter_some, hkeep _ rfl, Bool.not_false, if_true, Option.map_some]
            unfold upserted
            split <;> rfl
          · intro k p hk hp
            refine delete_points_shrinks db gone k p ?_
            refine (congrFun (congrArg View.point (view_delete_points hs gone)) k).symm.trans ?_
            rw [hupsert, if_neg hk] at hp
            obtain ⟨row,hrow,rfl⟩ := Option.map_eq_some_iff.mp hp
            rw [Option.filter_eq_some_iff] at hrow
            exact congrArg (Option.map _) hrow.1
      · simp only [bind, Except.bind, hr]
        exact lawful_raise hs trivial

theorem event_rows_sequences (hw : WellFormed pf db.view) (i : SessionIdentity) :
    (db.eventRows i).map (fun row => row.event.sequence) =
      List.range' 1 (db.eventRows i).length := by
  cases hr : db.sessionRow i with
  | none =>
    have he : (db.eventRows i).map (fun row => row.event) = [] := (hw.absent i hr).1
    rw [List.map_eq_nil_iff] at he
    rw [he]
    rfl
  | some record =>
    have h := (hw.coherent i record hr).sequences
    simpa [view, List.map_map, Function.comp_def] using h

theorem find_event_rows (db : SQLiteSessionStore) (i : SessionIdentity)
    (p : TranscriptEvent → Prop) [DecidablePred p] :
    db.transcriptEvents.find? (fun row => decide (row.event.identity = i ∧ p row.event)) =
      (db.eventRows i).find? (fun row => decide (p row.event)) := by
  rw [eventRows, List.find?_filter]
  congr 1
  funext row
  simp

theorem event_row_mem {i : SessionIdentity} {row : EventRow} (h : row ∈ db.eventRows i) :
    row.event ∈ db.view.events i ∧ row ∈ db.transcriptEvents :=
  ⟨List.mem_map.mpr ⟨row,h,rfl⟩,List.mem_of_mem_filter h⟩

theorem void_points_deletes (now : ℤ) (i : SessionIdentity) (finished : Option String)
    (db : SQLiteSessionStore) : ∃ gone : ResumeRow → Bool,
      db.voidPoints now i finished = db.deletePoints gone ∧
      ∀ run, finished = some run → ∀ row, resumeKey row = (i,run) → gone row = true := by
  cases finished with
  | none => exact ⟨_,rfl,fun _ h => by cases h⟩
  | some run =>
    refine ⟨_,delete_points_again (fun row => decide (row.createdAtUs ≤ now-resumePointTtl))
      (fun row => decide (row.identity = i ∧ row.runId = run)),?_⟩
    intro other ho row hrow
    cases ho
    obtain ⟨h1,h2⟩ := Prod.mk.inj hrow
    simp [h1, h2]

theorem event_rows_insert (j : SessionIdentity) (fingerprint : Digest) (event : TranscriptEvent)
    (record : SessionRecord) (he : event.identity = i) :
    (db.insertEvent i fingerprint event record).eventRows j =
      Function.update db.eventRows i (db.eventRows i ++ [⟨event,fingerprint⟩]) j := by
  change (db.transcriptEvents ++ [_]).filter _ = _
  rw [List.filter_append]
  by_cases hj : j = i
  · subst hj
    simp [eventRows, he]
  · have hij : i ≠ j := Ne.symm hj
    simp [eventRows, he, hj, hij]

theorem stored_insert_event (hs : Stored pf db) (i : SessionIdentity) (fingerprint : Digest)
    (event : TranscriptEvent) (record : SessionRecord)
    (hd : fingerprint = eventDigest event.type event.payload) (hr : record.identity = i) :
    Stored pf (db.insertEvent i fingerprint event record) := by
  refine { stored_sessions hs (fun _ _ => hr) with digests := ?_ }
  intro row hrow
  rcases List.mem_append.mp hrow with hold | hnew
  · exact hs.digests row hold
  · rw [List.mem_singleton.mp hnew]
    exact hd

variable {record : SessionRecord}

theorem append_new_lawful (hs : Stored pf db) (hw : WellFormed pf db.view) (i : SessionIdentity)
    (a : AppendArgs) {source : Option (String × ℕ)}
    (hp : prepareAppend limits a = .ok (source,eventDigest a.eventType a.payload))
    (hr : db.sessionRow i = some record)
    (hfresh : ∀ x ∈ db.view.events i, ∀ k, a.idempotencyKey = some k → x.idempotencyKey ≠ some k)
    (hnew : ∀ ns n, source = some (ns,n) → (record.memorySourceVersions.get? ns).getD 0 < n) :
    Lawful pf limits r db (.append i a) (settle db .event
      (db.appendNew limits r i a source (eventDigest a.eventType a.payload) record)) := by
  have hlen : (db.view.events i).length = (db.eventRows i).length := List.length_map _
  unfold appendNew
  rw [max_of_enumerated _ _ (event_rows_sequences hw i), ← hlen]
  cases hrev : checkRevision record a.expectedRevision with
  | error e => exact lawful_raise hs trivial
  | ok =>
    simp only [bind, Except.bind]
    split_ifs with hroom htotal
    · exact lawful_raise hs trivial
    · exact lawful_raise hs trivial
    cases hev : validateEvent
        (newEvent i a ((db.view.events i).length+1) (record.revision+1) r.wall) with
    | error e => exact lawful_raise hs trivial
    | ok event =>
      have hevent := validate_event_ok hev
      have hid : event.identity = i := by
        rw [hevent]
        rfl
      simp only
      split_ifs with hdup
      · exact lawful_raise hs trivial
      have hids : ∀ x ∈ db.view.events i, x.eventId ≠ a.eventId := by
        intro x hx he
        obtain ⟨row,hrow,rfl⟩ := List.mem_map.mp hx
        exact hdup (List.any_eq_true.mpr ⟨row,hrow,by simp [he]⟩)
      have hself : (recordAfterEvent record event source).identity = i :=
        (lookup_mem sessionKey hr).2
      have hfid : ∀ b : SessionRecord, b.identity = i →
          (recordAfterEvent record event source).identity = i := fun _ _ => hself
      have hstored := stored_insert_event hs i (eventDigest a.eventType a.payload) event
        (recordAfterEvent record event source) (by rw [hevent]; rfl) hself
      obtain ⟨gone,hg,hfin⟩ := void_points_deletes r.clock i
        (finishedResumeRunId a.eventType a.payload)
        (db.insertEvent i (eventDigest a.eventType a.payload) event
          (recordAfterEvent record event source))
      rw [hg]
      refine lawful_effect (.append i a record source event _ ⟨hr,hp,check_revision_ok hrev,hnew,
        hevent,hevent ▸ hev,hids,hfresh,not_le.mp (hlen ▸ hroom)⟩ (delete_points_shrinks db gone) ?_)
        ((view_delete_points hstored gone).trans ?_) (stored_delete_points hstored gone)
      · intro run hrun
        cases hl : lookup resumeKey (i,run) db.resumePoints with
        | none => rfl
        | some row => simp [hfin run hrun row (lookup_mem resumeKey hl).2]
      · refine ext (session_row_update i _ record hr hfid) ?_
          (Function.update_eq_self i _).symm rfl rfl rfl
        funext j
        change ((db.insertEvent i _ event _).eventRows j).map _ = _
        rw [event_rows_insert i j _ event _ hid]
        by_cases hj : j = i
        · subst hj
          simp [setSession, View.setPoints, view]
        · simp [setSession, View.setPoints, view, hj]

theorem append_lawful (hs : Stored pf db) (hw : WellFormed pf db.view) (i : SessionIdentity)
    (a : AppendArgs) :
    Lawful pf limits r db (.append i a) (settle db .event (db.append limits r i a)) := by
  unfold append
  cases hp : prepareAppend limits a with
  | error e => exact lawful_raise hs trivial
  | ok prepared =>
    obtain ⟨source,fingerprint⟩ := prepared
    obtain ⟨rfl,hsource⟩ := prepare_append_ok hp
    rcases require_cases db i with ⟨record,hq,hr⟩ | ⟨e,hq,-⟩
    · have hkey (k : String) := find_event_rows db i (fun e => e.idempotencyKey = some k)
      simp only [bind, Except.bind, hq, hkey]
      cases hb : a.idempotencyKey.bind (fun k => (db.eventRows i).find?
          (fun row => decide (row.event.idempotencyKey = some k))) with
      | some prior =>
        obtain ⟨k,hk,hfind⟩ := Option.bind_eq_some_iff.mp hb
        obtain ⟨hmem,hrow⟩ := event_row_mem (List.mem_of_find?_eq_some hfind)
        simp only
        split_ifs with hd
        · exact lawful_raise hs trivial
        · refine lawful_answer hs ⟨hmem,Or.inl ⟨k,hk,by simpa using List.find?_some hfind,?_⟩⟩
          rw [← hs.digests prior hrow]
          exact not_not.mp hd
      | none =>
        have hfresh : ∀ x ∈ db.view.events i, ∀ k, a.idempotencyKey = some k →
            x.idempotencyKey ≠ some k := by
          intro x hx k hk
          obtain ⟨row,hrow,rfl⟩ := List.mem_map.mp hx
          rw [hk, Option.bind_some, List.find?_eq_none] at hb
          simpa using hb row hrow
        simp only
        split_ifs with hstale
        · cases source with
          | none => simp at hstale
          | some stamp =>
            simp only [Option.any_some, decide_eq_true_eq] at hstale
            rw [find_event_rows db i (fun e => e.revision = record.memoryInvalidatedRevision)]
            split
            · rename_i prior hfind
              obtain ⟨hmem,hrow⟩ := event_row_mem (List.mem_of_find?_eq_some hfind)
              obtain ⟨ht,hm⟩ := hsource (by simp)
              exact lawful_answer hs ⟨hmem,Or.inr ⟨ht,record,stamp.1,stamp.2,hr,hm,hstale,
                by simpa using List.find?_some hfind⟩⟩
            · exact lawful_raise hs trivial
        · refine append_new_lawful hs hw i a hp hr hfresh ?_
          rintro ns n rfl
          simpa using hstale
    · simp only [bind, Except.bind, hq]
      exact lawful_raise hs trivial

theorem rows_of_delete_own (p : CheckpointRow → Prop) [DecidablePred p]
    (rows : List CheckpointRow) :
    rowsOf i (deleteWhere (fun row => decide (row.checkpoint.identity = i ∧ p row)) rows) =
      (rowsOf i rows).filter (fun row => decide (¬ p row)) := by
  simp only [rowsOf, deleteWhere, List.filter_filter]
  apply List.filter_congr
  intro row _
  by_cases hi : row.checkpoint.identity = i <;> simp [hi]

theorem rows_of_delete_other {i j : SessionIdentity} (hj : j ≠ i) (p : CheckpointRow → Prop)
    [DecidablePred p] (rows : List CheckpointRow) :
    rowsOf j (deleteWhere (fun row => decide (row.checkpoint.identity = i ∧ p row)) rows) =
      rowsOf j rows := by
  simp only [rowsOf, deleteWhere, List.filter_filter]
  apply List.filter_congr
  intro row _
  by_cases hr : row.checkpoint.identity = j
  · simp [hr, hj]
  · simp [hr]

theorem prune_bytes_sublist (n : ℕ) (rows : List CheckpointRow) :
    (pruneBytes limits i n rows).Sublist rows := by
  induction n generalizing rows with
  | zero => exact List.Sublist.refl rows
  | succ n ih =>
    unfold pruneBytes
    simp only
    split_ifs
    · exact List.Sublist.refl rows
    · split
      · exact List.Sublist.refl rows
      · exact (ih _).trans List.filter_sublist

theorem prune_bytes_other {i j : SessionIdentity} (hj : j ≠ i) (n : ℕ)
    (rows : List CheckpointRow) : rowsOf j (pruneBytes limits i n rows) = rowsOf j rows := by
  induction n generalizing rows with
  | zero => rfl
  | succ n ih =>
    unfold pruneBytes
    simp only
    split_ifs
    · rfl
    · split
      · rfl
      · rw [ih, rows_of_delete_other hj]

/-- With the count already in bounds, the byte loop leaves what is retained. -/
theorem prune_bytes_retains {i : SessionIdentity} {n : ℕ} {rows : List CheckpointRow}
    (ha : Ascending (fun row => row.checkpoint.revision) (rowsOf i rows))
    (hn : (rowsOf i rows).length ≤ n)
    (hc : (rowsOf i rows).length ≤ limits.maxCheckpointsPerSession) :
    (rowsOf i (pruneBytes limits i n rows)).map (fun row => row.checkpoint) =
      retained limits ((rowsOf i rows).map (fun row => row.checkpoint)) := by
  induction n generalizing rows with
  | zero =>
    have hz : rowsOf i rows = [] := List.length_eq_zero_iff.mp (Nat.le_zero.mp hn)
    simp [pruneBytes, hz, retained]
  | succ n ih =>
    unfold pruneBytes
    simp only
    have hbytes : ((rowsOf i rows).map (fun row => stateBytes row.checkpoint)) =
        ((rowsOf i rows).map (fun row => row.checkpoint)).map stateBytes := by
      rw [List.map_map]
      rfl
    rw [hbytes, order_by_ascending _ _ ha]
    cases hm : rowsOf i rows with
    | nil => simp [hm, retained]
    | cons oldest rest =>
      rw [hm] at ha hc hn
      rw [List.map_cons, retained]
      split_ifs with hfit hover hover
      · simp only [List.length_cons, List.length_map] at hover hc
        simp only [List.map_cons] at hfit hover
        omega
      · rw [hm, List.map_cons]
      · have hdel : rowsOf i (deleteWhere (fun row => decide (row.checkpoint.identity = i ∧
            row.checkpoint.revision = oldest.checkpoint.revision)) rows) = rest := by
          rw [rows_of_delete_own, hm]
          obtain ⟨hlt,-⟩ := List.pairwise_cons.mp ha
          rw [List.filter_cons_of_neg (by simp), List.filter_eq_self]
          intro row hrow
          simpa using (hlt row hrow).ne'
        simp only [List.head?_cons]
        rw [ih]
        · rw [hdel]
        · rw [hdel]
          exact (List.pairwise_cons.mp ha).2
        · rw [hdel]
          simpa using hn
        · rw [hdel]
          exact (Nat.le_succ _).trans hc
      · exact absurd (Or.inr (not_le.mp hfit)) hover

theorem prune_checkpoints_retains (limits : SessionStoreLimits) (i : SessionIdentity)
    (rows : List CheckpointRow)
    (ha : Ascending (fun row => row.checkpoint.revision) (rowsOf i rows)) :
    (rowsOf i (pruneCheckpoints limits i rows)).map (fun row => row.checkpoint) =
      retained limits ((rowsOf i rows).map (fun row => row.checkpoint)) := by
  have hnewest : ((orderByDesc (fun row => row.checkpoint.revision) (rowsOf i rows)).take
      limits.maxCheckpointsPerSession).map (fun row => row.checkpoint.revision) =
      (((rowsOf i rows).drop ((rowsOf i rows).length-limits.maxCheckpointsPerSession)).map
        (fun row => row.checkpoint.revision)).reverse := by
    rw [← latest_rows _ _ _ ha, List.map_reverse, List.reverse_reverse]
  have hkept : rowsOf i (deleteWhere (fun row => decide (row.checkpoint.identity = i ∧
      row.checkpoint.revision ∉ (((rowsOf i rows).drop ((rowsOf i rows).length-
        limits.maxCheckpointsPerSession)).map (fun row => row.checkpoint.revision)).reverse)) rows) =
      (rowsOf i rows).drop ((rowsOf i rows).length-limits.maxCheckpointsPerSession) := by
    refine Eq.trans ?_ (ascending_keep_last (fun row => row.checkpoint.revision) _ _ ha)
    rw [rows_of_delete_own]
    simp only [List.mem_reverse, not_not]
  unfold pruneCheckpoints
  simp only
  rw [hnewest, prune_bytes_retains]
  · rw [hkept, List.map_drop, ← List.length_map (fun row : CheckpointRow => row.checkpoint),
      retained_drop]
  · rw [hkept]
    exact ha.sublist (List.drop_sublist _ _)
  · exact le_rfl
  · rw [hkept, List.length_drop]
    omega

theorem prune_checkpoints_other (j : SessionIdentity) (hj : j ≠ i) (rows : List CheckpointRow) :
    rowsOf j (pruneCheckpoints limits i rows) = rowsOf j rows := by
  unfold pruneCheckpoints
  simp only
  rw [prune_bytes_other hj, rows_of_delete_other hj]

theorem prune_checkpoints_sublist (rows : List CheckpointRow) :
    (pruneCheckpoints limits i rows).Sublist rows :=
  (prune_bytes_sublist i _ _).trans List.filter_sublist

theorem checkpoint_rows_ascending (hw : WellFormed pf db.view) (i : SessionIdentity)
    (hr : db.sessionRow i = some record) :
    Ascending (fun row => row.checkpoint.revision) (db.checkpointRows i) :=
  (List.pairwise_map (f := fun row : CheckpointRow => row.checkpoint)).mp
    (hw.coherent i record hr).checkpointOrder

theorem checkpoint_new_lawful (hs : Stored pf db) (hw : WellFormed pf db.view)
    (i : SessionIdentity) (a : CheckpointArgs)
    (hb : utf8Length a.workflowState.render ≤ limits.maxCheckpointStateBytes)
    (hr : db.sessionRow i = some record)
    (hkey : ∀ x ∈ db.view.checkpoints i, x.idempotencyKey ≠ a.idempotencyKey) :
    Lawful pf limits r db (.saveCheckpoint i a) (settle db .checkpoint
      (db.checkpointNew limits r i a (digest a.workflowState) record)) := by
  have hlen : (db.view.events i).length = (db.eventRows i).length := List.length_map _
  unfold checkpointNew
  rw [max_of_enumerated _ _ (event_rows_sequences hw i), ← hlen]
  cases hrev : checkRevision record (some a.expectedRevision) with
  | error e => exact lawful_raise hs trivial
  | ok =>
    simp only [bind, Except.bind]
    cases hv : validateCheckpoint
        (newCheckpoint i a (db.view.events i).length (record.revision+1) r.wall) with
    | error e => exact lawful_raise hs trivial
    | ok c =>
      have hc := validate_checkpoint_ok hv
      simp only
      split_ifs with hdup
      · exact lawful_raise hs trivial
      have hid : ∀ x ∈ db.view.checkpoints i, x.checkpointId ≠ a.checkpointId := by
        intro x hx he
        obtain ⟨row,hrow,rfl⟩ := List.mem_map.mp hx
        exact hdup (List.any_eq_true.mpr ⟨row,hrow,by simp [he]⟩)
      have hfit : stateBytes c ≤ limits.maxCheckpointBytesPerSession := by
        rw [hc]
        exact hb.trans limits.internallyConsistent.2.2.1
      have hident : c.identity = i := by
        rw [hc]
        rfl
      have hrows (j : SessionIdentity) : rowsOf j
          (db.sessionCheckpoints ++ [⟨c,digest a.workflowState⟩]) =
            if j = i then db.checkpointRows i ++ [⟨c,digest a.workflowState⟩]
            else db.checkpointRows j := by
        by_cases hj : j = i
        · subst hj
          simp [rowsOf, checkpointRows, hident]
        · have hij : i ≠ j := Ne.symm hj
          simp [rowsOf, checkpointRows, hident, hj, hij]
      have hasc : Ascending (fun row : CheckpointRow => row.checkpoint.revision)
          (rowsOf i (db.sessionCheckpoints ++ [⟨c,digest a.workflowState⟩])) := by
        have hco := hw.coherent i record hr
        rw [hrows, if_pos rfl]
        refine List.pairwise_append.mpr
          ⟨checkpoint_rows_ascending hw i hr,List.pairwise_singleton _ _,?_⟩
        intro x hx y hy
        rw [List.mem_singleton.mp hy, hc]
        exact Nat.lt_succ_of_le (hco.checkpointBound x.checkpoint (List.mem_map.mpr ⟨x,hx,rfl⟩))
      refine lawful_effect (.checkpoint i a record c ⟨hr,check_revision_ok hrev _ rfl,hc,
        hc ▸ hv,hid,hkey,hfit⟩) ?_ (stored_sessions ?_ ?_)
      · refine ext (session_row_update i _ record hr (fun _ h => h))
          (Function.update_eq_self i _).symm ?_ rfl rfl rfl
        funext j
        change (rowsOf j (pruneCheckpoints limits i _)).map _ = _
        by_cases hj : j = i
        · subst hj
          rw [prune_checkpoints_retains limits j _ hasc, hrows, if_pos rfl]
          simp [setSession, view]
        · rw [prune_checkpoints_other i j hj, hrows, if_neg hj]
          simp [setSession, view, hj]
      · refine ⟨hs.sessions,hs.claims,hs.points,hs.rowids,hs.columns,hs.digests,?_⟩
        intro row hrow
        rcases List.mem_append.mp ((prune_checkpoints_sublist i _).subset hrow) with hm | hm
        · exact hs.stateDigests row hm
        · rw [List.mem_singleton.mp hm, hc]
          rfl
      · exact fun _ h => h

theorem find_checkpoint_rows (db : SQLiteSessionStore) (i : SessionIdentity) (key : String) :
    db.sessionCheckpoints.find? (fun row => decide (row.checkpoint.identity = i ∧
      row.checkpoint.idempotencyKey = key)) =
      (db.checkpointRows i).find? (fun row => decide (row.checkpoint.idempotencyKey = key)) := by
  rw [checkpointRows, rowsOf, List.find?_filter]
  congr 1
  funext row
  simp

theorem save_checkpoint_lawful (hs : Stored pf db) (hw : WellFormed pf db.view)
    (i : SessionIdentity) (a : CheckpointArgs) :
    Lawful pf limits r db (.saveCheckpoint i a)
      (settle db .checkpoint (db.saveCheckpoint limits r i a)) := by
  unfold saveCheckpoint
  cases hp : prepareCheckpoint limits a with
  | error e => exact lawful_raise hs trivial
  | ok stateDigest =>
    obtain ⟨rfl,hb⟩ := prepare_checkpoint_ok hp
    rcases require_cases db i with ⟨record,hq,hr⟩ | ⟨e,hq,-⟩
    · simp only [bind, Except.bind, hq]
      rw [find_checkpoint_rows]
      cases hfind : (db.checkpointRows i).find?
          (fun row => decide (row.checkpoint.idempotencyKey = a.idempotencyKey)) with
      | some prior =>
        have hmem := List.mem_of_find?_eq_some hfind
        simp only
        split_ifs with hd
        · exact lawful_raise hs trivial
        · refine lawful_answer hs
            ⟨List.mem_map.mpr ⟨prior,hmem,rfl⟩,by simpa using List.find?_some hfind,?_⟩
          rw [← hs.stateDigests prior (List.mem_of_mem_filter hmem)]
          exact not_not.mp hd
      | none =>
        rw [List.find?_eq_none] at hfind
        refine checkpoint_new_lawful hs hw i a hb hr ?_
        intro x hx he
        obtain ⟨row,hrow,rfl⟩ := List.mem_map.mp hx
        exact hfind row hrow (by simpa using he)
    · simp only [bind, Except.bind, hq]
      exact lawful_raise hs trivial

theorem set_status_lawful (hs : Stored pf db) (i : SessionIdentity) (status : SessionStatus)
    (expected : ℤ) : Lawful pf limits r db (.setStatus i status expected)
      ((db.setStatus r i status expected).1,(db.setStatus r i status expected).2.map .session) := by
  unfold setStatus
  rcases require_cases db i with ⟨record,hq,hr⟩ | ⟨e,hq,-⟩
  · simp only [bind, Except.bind, hq]
    cases hrev : checkRevision record (some expected) with
    | error e => exact lawful_raise hs trivial
    | ok =>
      obtain rfl := check_revision_ok hrev _ rfl
      have hrow := session_row_update i (fun row => { row with
        status := status, revision := record.revision+1, updatedAt := r.wall }) record hr
        (fun _ h => h)
      refine lawful_effect (.status i status record _ hr ?_)
        (view_update_session hr (fun _ h => h)) (stored_sessions hs (fun _ h => h))
      rcases require_cases (db.updateSession i (fun row => { row with
          status := status, revision := record.revision+1, updatedAt := r.wall })) i with
        ⟨new,hn,hnew⟩ | ⟨e,hn,he⟩
      · rw [hrow, Function.update_self] at hnew
        cases hnew
        exact Or.inl (congrArg (Except.map Reply.session) hn)
      · refine Or.inr ⟨e,?_,congrArg (Except.map Reply.session) hn⟩
        rcases he with he | he
        · exact he.1
        · cases (congrFun hrow i).symm.trans he |>.symm.trans (Function.update_self ..)
  · simp only [bind, Except.bind, hq]
    exact lawful_raise hs trivial

theorem latest_checkpoint (hw : WellFormed pf db.view) (i : SessionIdentity)
    (hr : db.sessionRow i = some record) :
    ((orderByDesc (fun row => row.checkpoint.revision) (db.checkpointRows i)).head?).map
      (fun row => row.checkpoint) = (db.view.checkpoints i).getLast? := by
  rw [order_by_desc_ascending _ _ (checkpoint_rows_ascending hw i hr), List.head?_reverse]
  exact (List.getLast?_map).symm

theorem resume_lawful (hs : Stored pf db) (hw : WellFormed pf db.view) (i : SessionIdentity) :
    Lawful pf limits r db (.resume i) (settle db .snapshot (db.resume i)) := by
  unfold resume
  cases hr : db.sessionRow i with
  | none => exact lawful_answer hs (by simp [Answers, snapshotOf, view, hr])
  | some row =>
    simp only [record]
    split_ifs
    · exact lawful_raise hs trivial
    · refine lawful_answer hs ?_
      have hseq := enumerated_ascending _ _ (event_rows_sequences hw i)
      rw [latest_checkpoint hw i hr, order_by_ascending _ _ (ascending_filter _ _ _ hseq)]
      change some _ = (db.sessionRow i).map _
      rw [hr]
      simp only [view, Option.map_some, List.filter_map]
      rfl

theorem recent_transcript_lawful (hs : Stored pf db) (hw : WellFormed pf db.view)
    (i : SessionIdentity) (limit : ℤ) : Lawful pf limits r db (.recentTranscript i limit)
      (settle db .transcript (db.recentTranscript i limit)) := by
  unfold recentTranscript
  split_ifs with hl
  · exact lawful_raise hs trivial
  · rcases require_cases db i with ⟨record,hq,hr⟩ | ⟨e,hq,-⟩
    · simp only [bind, Except.bind, hq]
      refine lawful_answer hs ⟨by omega,by omega,by simp [view, hr],?_⟩
      rw [latest_rows _ _ _ (enumerated_ascending _ _ (event_rows_sequences hw i)), List.map_drop]
      simp only [view, List.length_map]
    · simp only [bind, Except.bind, hq]
      exact lawful_raise hs trivial

theorem transcript_page_lawful (hs : Stored pf db) (hw : WellFormed pf db.view)
    (i : SessionIdentity) (limit : ℤ) (before : Option ℤ) :
    Lawful pf limits r db (.transcriptPage i limit before)
      (settle db .transcript (db.transcriptPage i limit before)) := by
  have hnum := event_rows_sequences hw i
  have hseq := enumerated_ascending _ _ hnum
  have hlen : (db.view.events i).length = (db.eventRows i).length := List.length_map _
  unfold transcriptPage
  cases hv : validateTranscriptPage limit before with
  | error e => exact lawful_raise hs trivial
  | ok =>
    have hl : 1 ≤ limit ∧ limit ≤ 1000 := by
      unfold validateTranscriptPage at hv
      split_ifs at hv
      omega
    rcases require_cases db i with ⟨record,hq,hr⟩ | ⟨e,hq,-⟩
    · simp only [bind, Except.bind, hq]
      cases hb : bindInt before with
      | error e => exact lawful_raise hs trivial
      | ok bound =>
        have hbound : bound = before := by
          unfold bindInt at hb
          split_ifs at hb
          exact (Except.ok.inj hb).symm
        subst hbound
        refine lawful_answer hs ⟨hl.1,hl.2,by simp [view, hr],_,rfl,?_⟩
        rw [latest_rows _ _ _ (ascending_filter _ _ _ hseq), hlen]
        cases bound with
        | none =>
          simp only [Option.all_none, List.filter_true, Option.elim, List.map_drop]
          rw [List.take_of_length_le (le_of_eq hlen)]
          rfl
        | some b =>
          simp only [Option.all_some, Option.elim]
          rw [enumerated_below _ _ _ hnum, List.map_drop, List.map_take, List.length_take,
            min_eq_left (min_le_left _ _)]
          rfl
    · simp only [bind, Except.bind, hq]
      exact lawful_raise hs trivial

/-- Every call of the SQLite store is an effect of the abstract store. -/
theorem call_lawful (limits : SessionStoreLimits) (r : Readings) (hs : Stored pf db)
    (hw : WellFormed pf db.view) (c : Call) :
    Lawful pf limits r db c (db.call pf limits r c) := by
  cases c with
  | create i => exact create_lawful hs hw i
  | get i => exact get_lawful hs i
  | claimRun i run owner lease => exact claim_run_lawful hs i run owner lease
  | finalizeRun i run owner lease => exact finalize_run_lawful hs i run owner lease
  | requestStop i run => exact request_stop_lawful hs i run
  | stopRequested i run => exact stop_requested_lawful hs i run
  | activeRunIds i limit => exact active_run_ids_lawful hs i limit
  | saveResumePoint i q => exact save_resume_point_lawful hs i q
  | getResumePoint i run => exact get_resume_point_lawful hs i run
  | append i a => exact append_lawful hs hw i a
  | saveCheckpoint i a => exact save_checkpoint_lawful hs hw i a
  | setStatus i status expected => exact set_status_lawful hs i status expected
  | resume i => exact resume_lawful hs hw i
  | recentTranscript i limit => exact recent_transcript_lawful hs hw i limit
  | transcriptPage i limit before => exact transcript_page_lawful hs hw i limit before

end Calls
end SuiteHarness.Sessions.SQLiteSessionStore
