import SuiteHarness.Sessions.Accounting

/-!
# Reading a stored session back

The durable store decodes a session row each time it reads it, and the decoder
refuses a row that was updated before it was created. A new event moves the time
of its row forward only; a checkpoint and a status change write the wall clock as
it is. One such write behind the creation time makes the session unreadable for
good, because every later write reads the row first.
-/

set_option autoImplicit false

namespace SuiteHarness.Sessions
open SuiteHarness.Library

namespace SQLiteSessionStore
variable {pf : Platform} {limits : SessionStoreLimits} {r : Readings}
variable {db : SQLiteSessionStore} {i : SessionIdentity}

def stampedRow (limits : SessionStoreLimits) (db : SQLiteSessionStore) (x : Readings × Call) :
    Option SessionRecord :=
  match x.2 with
  | .saveCheckpoint i a =>
    match db.require i, db.saveCheckpoint limits x.1 i a with
    | .ok row, .ok (_,c) => if c.revision = row.revision+1 then some row else none
    | _, _ => none
  | .setStatus i _ expected =>
    match db.require i with
    | .ok row => if expected = row.revision then some row else none
    | .error _ => none
  | _ => none

def inTime (limits : SessionStoreLimits) (db : SQLiteSessionStore) (x : Readings × Call) : Bool :=
  (stampedRow limits db x).all (fun row => decide (row.createdAt ≤ x.1.wall))

variable {row : SessionRecord}

theorem require_readable (hr : db.sessionRow i = some row) (h : row.createdAt ≤ row.updatedAt) :
    db.require i = .ok row := by
  simp [require, hr, record, not_lt.mpr h]

theorem require_unreadable (hr : db.sessionRow i = some row) (h : row.updatedAt < row.createdAt) :
    db.require i = .error (.valueError "updated_at must not precede created_at") := by
  simp [require, hr, record, h]

theorem readable_in_time (hs : Stored pf db) (hw : WellFormed pf db.view) (hd : db.view.Timely)
    {c : Call} (ht : inTime limits db (r,c) = true) : (db.call pf limits r c).1.view.Timely := by
  have heffect := (call_lawful limits r hs hw c).1
  generalize (db.call pf limits r c).1.view = w at heffect ⊢
  generalize ho : (db.call pf limits r c).2 = o at heffect
  cases heffect with
  | checkpoint j a record c hck =>
    have hq : db.require j = .ok record := require_readable hck.session (hd j record hck.session)
    obtain ⟨t,hsave,hc⟩ := settle_ok ho
    cases hc
    generalize (settle db Reply.checkpoint (db.saveCheckpoint limits r j a)).1 = stored at hsave
    have hrev : c.revision = record.revision+1 := by rw [hck.checkpoint]; rfl
    have hwall : record.createdAt ≤ r.wall := by
      simp only [inTime, stampedRow, hq, hsave, if_pos hrev] at ht
      simpa using ht
    exact timely_session hd hwall rfl
  | status j status record _ hrecord =>
    have hq : db.require j = .ok record := require_readable hrecord (hd j record hrecord)
    have hwall : record.createdAt ≤ r.wall := by simpa [inTime, stampedRow, hq] using ht
    exact timely_session hd hwall rfl
  | create j now => exact timely_session hd le_rfl rfl
  | append j a record source e point happ =>
    exact timely_session hd (timely_event hd happ.session e source) rfl
  | _ => exact hd

/-- A stamp before the creation time leaves a row that its decoder refuses. -/
theorem unreadable_stamp (pf : Platform) (hs : Stored pf db) (hw : WellFormed pf db.view)
    {c : Call} (ht : inTime limits db (r,c) = false) : ∃ j row,
      (db.call pf limits r c).1.sessionRow j = some row ∧ row.updatedAt < row.createdAt := by
  cases c with
  | saveCheckpoint j a =>
    rcases require_cases db j with ⟨row,hq,hr⟩ | ⟨e,hq,-⟩
    · cases hsave : db.saveCheckpoint limits r j a with
      | error e => simp [inTime, stampedRow, hq, hsave] at ht
      | ok stored =>
        have heffect := (call_lawful limits r hs hw (.saveCheckpoint j a)).1
        have ho : (db.call pf limits r (.saveCheckpoint j a)).2 = .ok (.checkpoint stored.2) := by
          simp [call, settle, hsave]
        rw [ho] at heffect
        simp only [inTime, stampedRow, hq, hsave] at ht
        split_ifs at ht with hrev
        · refine ⟨j,{ row with revision := stored.2.revision, updatedAt := r.wall },?_,by
            simpa using ht⟩
          change (db.call pf limits r (.saveCheckpoint j a)).1.view.record j = _
          generalize (db.call pf limits r (.saveCheckpoint j a)).1.view = w at heffect
          cases heffect with
          | answer _ _ ha =>
            have hbound := (hw.coherent j row hr).checkpointBound _ ha.1
            omega
          | checkpoint _ _ record _ hck =>
            have hsame : row = record := Option.some.inj (hr.symm.trans hck.session)
            rw [hsame]
            exact Function.update_self _ _ _
        · simp at ht
    · simp [inTime, stampedRow, hq] at ht
  | setStatus j status expected =>
    rcases require_cases db j with ⟨row,hq,hr⟩ | ⟨e,hq,-⟩
    · simp only [inTime, stampedRow, hq] at ht
      split_ifs at ht with hrev
      · refine ⟨j,{ row with status := status, revision := row.revision+1, updatedAt := r.wall },
          ?_,by simpa using ht⟩
        have hcheck : checkRevision row (some expected) = .ok () := by simp [checkRevision, hrev]
        simp only [call, setStatus, bind, Except.bind, hq, hcheck]
        have hnew := congrFun (session_row_update j (fun b => { b with
          status := status, revision := row.revision+1, updatedAt := r.wall }) row hr
          (fun _ h => h)) j
        rw [Function.update_self] at hnew
        exact hnew
      · simp at ht
    · simp [inTime, stampedRow, hq] at ht
  | _ => simp [inTime, stampedRow] at ht

/-- No call changes a row that cannot be read. -/
theorem unreadable_kept (hs : Stored pf db) (hw : WellFormed pf db.view)
    (hr : db.sessionRow i = some row) (h : row.updatedAt < row.createdAt) (c : Call) :
    (db.call pf limits r c).1.sessionRow i = some row := by
  have hq := require_unreadable hr h
  have hother : ∀ (j : SessionIdentity) (new : SessionRecord), j ≠ i →
      Function.update db.view.record j (some new) i = some row := by
    intro j new hj
    rw [Function.update_of_ne hj.symm]
    exact hr
  have heffect := (call_lawful limits r hs hw c).1
  change (db.call pf limits r c).1.view.record i = some row
  generalize hview : (db.call pf limits r c).1.view = w at heffect
  generalize ho : (db.call pf limits r c).2 = o at heffect
  cases heffect with
  | create j now hnone =>
    refine hother j _ (fun hj => ?_)
    rw [hj] at hnone
    rw [show db.view.record i = some row from hr] at hnone
    cases hnone
  | append j a record source e point happ =>
    refine hother j _ (fun hj => ?_)
    subst hj
    obtain ⟨t,happend,-⟩ := settle_ok ho
    cases hp : prepareAppend limits a with
    | error error => simp [append, hp, bind, Except.bind] at happend
    | ok prepared => simp [append, hp, hq, bind, Except.bind] at happend
  | checkpoint j a record c hck =>
    refine hother j _ (fun hj => ?_)
    subst hj
    obtain ⟨t,hsave,-⟩ := settle_ok ho
    cases hp : prepareCheckpoint limits a with
    | error error => simp [saveCheckpoint, hp, bind, Except.bind] at hsave
    | ok fingerprint => simp [saveCheckpoint, hp, hq, bind, Except.bind] at hsave
  | status j status record _ hrecord =>
    by_cases hj : j = i
    · subst hj
      rw [← hview]
      simp only [call, setStatus, bind, Except.bind, hq]
      exact hr
    · exact hother j _ hj
  | _ => exact hr

theorem unreadable_run (calls : List (Readings × Call)) (db : SQLiteSessionStore)
    (hs : (sqliteStore pf limits).Sound db) (hr : db.sessionRow i = some row)
    (h : row.updatedAt < row.createdAt) :
    (Machine.final (sqliteStore pf limits).step db calls).sessionRow i = some row := by
  induction calls generalizing db with
  | nil => exact hr
  | cons x calls ih =>
    exact ih _ ((sqliteStore pf limits).sound_call x.1 db x.2 hs)
      (unreadable_kept hs.1 hs.2 hr h x.2)

theorem readable_run (calls : List (Readings × Call)) (db : SQLiteSessionStore)
    (hs : (sqliteStore pf limits).Sound db) (hd : db.view.Timely) :
    (Machine.final (sqliteStore pf limits).step db calls).view.Timely ↔
      Machine.along (sqliteStore pf limits).step (inTime limits) db calls = true := by
  induction calls generalizing db with
  | nil => exact ⟨fun _ => rfl,fun _ => hd⟩
  | cons x calls ih =>
    have hnext := (sqliteStore pf limits).sound_call x.1 db x.2 hs
    simp only [Machine.along, Bool.and_eq_true]
    cases ht : inTime limits db x with
    | true =>
      exact (ih _ hnext (readable_in_time hs.1 hs.2 hd ht)).trans (and_iff_right rfl).symm
    | false =>
      obtain ⟨j,row,hrow,hlate⟩ := unreadable_stamp pf hs.1 hs.2 ht
      have hlast := unreadable_run calls _ hnext hrow hlate
      constructor
      · intro hread
        exact absurd (hread j row hlast) (not_le.mpr hlate)
      · intro hfalse
        cases hfalse.1

def ReadsBack (pf : Platform) (limits : SessionStoreLimits) (db : SQLiteSessionStore) : Prop :=
  ∀ r i, (∃ record, (db.call pf limits r (.get i)).2 = .ok (.maybeSession record)) ∧
    ∃ snapshot, (db.call pf limits r (.resume i)).2 = .ok (.snapshot snapshot)

theorem reads_back_iff : ReadsBack pf limits db ↔ db.view.Timely := by
  constructor
  · intro h i row hr
    change db.sessionRow i = some row at hr
    by_contra hlate
    obtain ⟨⟨record,hget⟩,-⟩ := h ⟨0,0⟩ i
    simp [call, get, hr, SQLiteSessionStore.record, not_le.mp hlate, bind, Except.bind, settle]
      at hget
  · intro hd r i
    cases hr : db.sessionRow i with
    | none => simp [call, get, resume, hr, settle]
    | some row =>
      have hok := not_lt.mpr (hd i row hr)
      simp [call, get, resume, hr, SQLiteSessionStore.record, hok, bind, Except.bind, settle]

end SQLiteSessionStore

/-- After every history, all rows have ordered times and all sessions read back
exactly when no checkpoint and no status change was stamped before the creation
of its session. -/
theorem stored_sessions_read_back_iff (pf : Platform) (limits : SessionStoreLimits)
    (calls : List (Readings × Call)) :
    ((∀ i row, (Machine.final (sqliteStore pf limits).step .init calls).sessionRow i = some row →
        row.createdAt ≤ row.updatedAt) ∧
      SQLiteSessionStore.ReadsBack pf limits
        (Machine.final (sqliteStore pf limits).step .init calls)) ↔
    Machine.along (sqliteStore pf limits).step (SQLiteSessionStore.inTime limits) .init calls =
      true := by
  have hrun := SQLiteSessionStore.readable_run calls .init (sqliteStore pf limits).sound_init nofun
  rw [SQLiteSessionStore.reads_back_iff, ← hrun]
  exact and_self_iff

def backwardCalls : List (Readings × Call) :=
  [(⟨10,10⟩,.create bookIdentity),
    (⟨10,9⟩,.saveCheckpoint bookIdentity ⟨"checkpoint",.null,0,"key"⟩)]

/-- Both writes are answered; after them the session cannot be read. -/
theorem backward_checkpoint_unreadable :
    let db := Machine.final (sqliteStore bookPlatform {}).step .init backwardCalls
    ((sqliteStore bookPlatform {}).history backwardCalls).map (fun x => x.2) =
      [.ok (.session (newRecord bookIdentity 10)),
        .ok (.checkpoint ⟨bookIdentity,"checkpoint",1,.null,0,9,"key"⟩)] ∧
    (db.call bookPlatform {} ⟨11,11⟩ (.get bookIdentity)).2 =
      .error (.valueError "updated_at must not precede created_at") ∧
    (db.call bookPlatform {} ⟨11,11⟩ (.resume bookIdentity)).2 =
      .error (.valueError "updated_at must not precede created_at") := by
  decide +kernel

end SuiteHarness.Sessions
