import SuiteHarness.Mcp.Durable
import SuiteHarness.Persistence.LostUpdates

/-!
# The stored cursor is never behind

Operations are numbered by their saves. The stored checkpoint is always the
state left by the last settled operation, or by the one after it when a save
has committed whose caller has not been told. An idempotency key of this writer
is used once, so an accepted save is a write and never a replay.
-/

set_option autoImplicit false

namespace SuiteHarness.Mcp
open SuiteHarness.Library SuiteHarness.Persistence

/-! ## The store -/

theorem sorted_fields (a b : Json) :
    Json.sortKeys [("session_id",a),("last_event_id",b)] = [("last_event_id",b),("session_id",a)] := by
  have hnot : ¬ ("session_id" : String) ≤ "last_event_id" := by decide
  simp [Json.sortKeys, hnot]

open HttpResumeState

theorem text_field_json (v : Option String) :
    textField (some (textJson v).canon) = some v := by
  cases v <;> rfl

theorem parse_stored (st : HttpResumeState) : parse st.json.canon = some st := by
  have hcanon : st.json.canon = .obj [("last_event_id",(textJson st.lastEventId).canon),
      ("session_id",(textJson st.sessionId).canon)] := by
    rw [json, Json.canon_obj]
    exact congrArg Json.obj (sorted_fields _ _)
  have hsession : (Json.obj [("last_event_id",(textJson st.lastEventId).canon),
      ("session_id",(textJson st.sessionId).canon)]).get? "session_id" =
      some (textJson st.sessionId).canon := rfl
  have hlast : (Json.obj [("last_event_id",(textJson st.lastEventId).canon),
      ("session_id",(textJson st.sessionId).canon)]).get? "last_event_id" =
      some (textJson st.lastEventId).canon := rfl
  rw [hcanon, parse, if_pos (by simp), hsession, hlast, text_field_json, text_field_json]
  exact dif_pos st.safe

def Holds (r : ResumeStore) (s : ProductState) (revision : ℕ) (st : HttpResumeState) : Prop :=
  r.load s = some (some ⟨st,revision⟩) ∨ (r.load s = some none ∧ revision = 0 ∧ st = {})

section Store
variable (r : ResumeStore)
variable {bound revision : ℕ} {s : ProductState} {st : HttpResumeState}

theorem load_congr {t : ProductState} (h : t.state.get? r.key = s.state.get? r.key) :
    r.load t = r.load s := by
  simp only [ResumeStore.load, ProductState.get, h]

theorem holds_congr {t : ProductState} (h : t.state.get? r.key = s.state.get? r.key)
    (hs : Holds r s revision st) : Holds r t revision st := by
  rw [Holds, load_congr r h]
  exact hs

theorem holds_revision (h : Holds r s revision st) :
    ProductState.actualRevision (s.state.get? r.key) = revision := by
  cases hrow : s.state.get? r.key with
  | none =>
    rw [Holds, ResumeStore.load, ProductState.get, hrow] at h
    rcases h with h | ⟨-,rfl,-⟩
    · cases h
    · rfl
  | some row =>
    rw [Holds, ResumeStore.load, ProductState.get, hrow] at h
    cases hbuild : (row.record r.key).build with
    | error e =>
      simp [hbuild, Except.map] at h
    | ok record =>
      obtain ⟨rfl,-⟩ := (build_ok _ _).mp hbuild
      simp only [hbuild, Except.map] at h
      split at h
      · simp at h
      · split at h
        · simp at h
        · rcases h with h | ⟨h,-⟩
          · cases h
            rfl
          · cases h

theorem load_row {row : StateRow} (hrow : s.state.get? r.key = some row)
    (htimes : row.createdAt ≤ row.updatedAt) (hvalue : row.valueJson = st.json.canon)
    (hvalid : st.invalid = none) : r.load s = some (some ⟨st,row.revision⟩) := by
  have hbuild : (row.record r.key).build = .ok (row.record r.key) := (build_ok _ _).mpr ⟨rfl,htimes⟩
  have hparse : parse (row.record r.key).value = some st := by
    rw [StateRow.record, hvalue, parse_stored]
  simp only [ResumeStore.load, ProductState.get, hrow, hbuild, Except.map, hparse, hvalid]
  rfl

def Fresh (s : ProductState) (bound : ℕ) : Prop :=
  ∀ n row, s.idempotency.get? (r.key.1,r.idempotencyKey n) = some row →
    row.commandDigest.stateKey = r.key.2 → n ≤ bound

theorem fresh_le {more : ℕ} (h : Fresh r s bound) (hle : bound ≤ more) : Fresh r s more :=
  fun n row hrow hkey => (h n row hrow hkey).trans hle

theorem fresh_purge (h : Fresh r s bound) (c : CompareAndSet) :
    Fresh r (s.purge r.env c) bound := by
  intro n row hrow
  exact h n row ((Dict.get_delete_expired _ _ _ _ _ _).mp hrow).1

theorem fresh_write (h : Fresh r s bound) (c : CompareAndSet) (record : StateRecord)
    (hnew : ∀ n, (r.key.1,r.idempotencyKey n) = (c.scope,c.idempotencyKey) →
      c.stateKey.2 = r.key.2 → n ≤ bound) :
    Fresh r ((s.purge r.env c).write r.env c record) bound := by
  intro n row hrow hkey
  rw [ProductState.write, Dict.get_set] at hrow
  split at hrow
  · rename_i heq
    cases hrow
    exact hnew n heq hkey
  · exact fresh_purge r h c n row hrow hkey

theorem idempotency_key_inj {m n : ℕ} (h : r.idempotencyKey m = r.idempotencyKey n) : m = n :=
  Nat.repr_inj.mp ((String.append_right_inj _).mp h)

/-- A command for another key leaves the checkpoint and the writer's keys alone. -/
theorem elsewhere_keeps (s : ProductState) (c : CompareAndSet) (hkey : c.stateKey ≠ r.key)
    (hfresh : Fresh r s bound) :
    (s.compareAndSet r.env c).1.state.get? r.key = s.state.get? r.key ∧
      Fresh r (s.compareAndSet r.env c).1 bound := by
  have hmoved := @ProductState.step_moved r.env s c
  generalize s.compareAndSet r.env c = out at hmoved ⊢
  obtain ⟨t,answer⟩ := out
  cases hmoved with
  | raised => exact ⟨rfl,hfresh⟩
  | replayed => exact ⟨rfl,fresh_purge r hfresh c⟩
  | wrote =>
    refine ⟨?_,fresh_write r hfresh c _ (fun n heq hstate => ?_)⟩
    · exact (Dict.get_set _ _ _ _).trans (if_neg (Ne.symm hkey))
    · have hscope : r.key.1 = c.stateKey.1 := (Prod.mk.inj heq).1
      exact absurd (Prod.ext hscope.symm hstate) hkey

/-- A save changes nothing it does not answer for: it fails and leaves the row,
or it commits the state at the next revision. -/
theorem save_spec {old : HttpResumeState} (hold : Holds r s revision old)
    (hfresh : Fresh r s bound) (st : HttpResumeState) (now : ℤ) :
    Fresh r (r.save s st revision (r.idempotencyKey (bound+1)) now).1 (bound+1) ∧
    ((∃ e, (r.save s st revision (r.idempotencyKey (bound+1)) now).2 = .error e ∧
        (r.save s st revision (r.idempotencyKey (bound+1)) now).1.state.get? r.key = s.state.get? r.key) ∨
      ((r.save s st revision (r.idempotencyKey (bound+1)) now).2 = .ok ⟨st,revision+1⟩ ∧
        Holds r (r.save s st revision (r.idempotencyKey (bound+1)) now).1 (revision+1) st)) := by
  rw [ResumeStore.save]
  cases hvalid : st.invalid with
  | some text => exact ⟨fresh_le r hfresh (Nat.le_succ bound),Or.inl ⟨_,rfl,rfl⟩⟩
  | none =>
    have hmoved := @ProductState.step_moved r.env s
      (r.command st revision (r.idempotencyKey (bound+1)) now)
    simp only
    generalize s.compareAndSet r.env (r.command st revision (r.idempotencyKey (bound+1)) now) = out
      at hmoved ⊢
    obtain ⟨t,answer⟩ := out
    cases hmoved with
    | raised e => exact ⟨fresh_le r hfresh (Nat.le_succ bound),Or.inl ⟨_,rfl,rfl⟩⟩
    | replayed row hrefusal hrow hdigest =>
      -- the key has not been used for this row before
      have hused := fresh_purge r hfresh _ (bound+1) row hrow (congrArg CommandDigest.stateKey hdigest)
      exact absurd hused (Nat.not_succ_le_self bound)
    | wrote hrefusal habsent hrevision hroom htimes =>
      refine ⟨?_,Or.inr ⟨?_,Or.inl ?_⟩⟩
      · apply fresh_write r (fresh_le r hfresh (Nat.le_succ bound))
        intro n heq _
        exact (idempotency_key_inj r (congrArg Prod.snd heq)).le
      · have hactual := holds_revision r hold
        simp only [ProductState.written, ResumeStore.command, hactual]
      · have hactual := holds_revision r hold
        have hload := load_row r
          (s := (s.purge r.env (r.command st revision (r.idempotencyKey (bound+1)) now)).write r.env
            (r.command st revision (r.idempotencyKey (bound+1)) now)
            (s.written (r.command st revision (r.idempotencyKey (bound+1)) now)))
          ((Dict.get_set _ _ _ _).trans (if_pos rfl)) htimes rfl hvalid
        rw [← hactual]
        exact hload

end Store

/-! ## The transport -/

namespace DurableTransport

structure Opened (r : ResumeStore) (w : DurableTransport) : Prop where
  holds : Holds r w.store w.revision w.inner
  sequence : w.sequence = 0
  available : w.persistenceFailure = none ∧ w.closed = false
  idle : w.stage = .idle
  left : w.left = []
  fresh : ∀ n, w.store.idempotency.get? (r.key.1,r.idempotencyKey n) = none

variable (r : ResumeStore) (first : HttpResumeState) (base : ℕ)

def Stores (w : DurableTransport) (k : ℕ) : Prop :=
  ∃ st, (first::w.left)[k]? = some st ∧ Holds r w.store (base+k) st

def SaveDone (w : DurableTransport) (settled : ℕ) (st : HttpResumeState) :
    Except SaveError Checkpoint → Prop
  | .ok checkpoint => checkpoint = ⟨st,base+settled+1⟩ ∧ Stores r first base w (settled+1)
  | .error _ => Stores r first base w settled ∨ Stores r first base w (settled+1)

inductive Tracks (w : DurableTransport) (settled : ℕ) : Prop where
  | ready (hstage : w.stage = .idle ∨ w.stage = .operating) (hfailure : w.persistenceFailure = none)
      (hrevision : w.revision = base+settled) (hsequence : w.sequence = settled)
      (hleft : w.left.length = settled) (hstores : Stores r first base w settled)
      (hfresh : Fresh r w.store settled)
  | saving (outcome : OperationOutcome) (st : HttpResumeState) (cancelled : Bool)
      (hstage : w.stage = .saving outcome st none cancelled) (hfailure : w.persistenceFailure = none)
      (hrevision : w.revision = base+settled) (hsequence : w.sequence = settled+1)
      (hleft : w.left.length = settled+1) (hst : w.left[settled]? = some st)
      (hstores : Stores r first base w settled) (hfresh : Fresh r w.store settled)
  | saved (outcome : OperationOutcome) (st : HttpResumeState) (answer : Except SaveError Checkpoint)
      (cancelled : Bool) (hstage : w.stage = .saving outcome st (some answer) cancelled)
      (hfailure : w.persistenceFailure = none) (hrevision : w.revision = base+settled)
      (hsequence : w.sequence = settled+1) (hleft : w.left.length = settled+1)
      (hst : w.left[settled]? = some st) (hdone : SaveDone r first base w settled st answer)
      (hfresh : Fresh r w.store (settled+1))
  | disabled (hstage : w.stage = .idle) (hfailure : w.persistenceFailure.isSome)
      (hrevision : w.revision = base+settled)
      (hstores : Stores r first base w settled ∨ Stores r first base w (settled+1))
      (hfresh : Fresh r w.store (settled+1))

variable {r first base}
variable {settled : ℕ} {w : DurableTransport}

/-- While a save is under way the writer is one checkpoint ahead of what is settled. -/
theorem tracks_saving (h : Tracks r first base w settled) {outcome : OperationOutcome}
    {st : HttpResumeState} {save : Option (Except SaveError Checkpoint)} {cancelled : Bool}
    (hstage : w.stage = .saving outcome st save cancelled) :
    w.persistenceFailure = none ∧ w.revision = base+settled ∧ w.sequence = settled+1 ∧
      w.left.length = settled+1 ∧ w.left[settled]? = some st ∧
      match save with
      | none => Stores r first base w settled ∧ Fresh r w.store settled
      | some answer => SaveDone r first base w settled st answer ∧ Fresh r w.store (settled+1) := by
  cases h with
  | ready hstage' => rw [hstage] at hstage'; exact hstage'.elim nofun nofun
  | saving _ _ _ hstage' hfailure hrevision hsequence hleft hst hstores hfresh =>
    rw [hstage] at hstage'
    cases hstage'
    exact ⟨hfailure,hrevision,hsequence,hleft,hst,hstores,hfresh⟩
  | saved _ _ _ _ hstage' hfailure hrevision hsequence hleft hst hdone hfresh =>
    rw [hstage] at hstage'
    cases hstage'
    exact ⟨hfailure,hrevision,hsequence,hleft,hst,hdone,hfresh⟩
  | disabled hstage' => rw [hstage] at hstage'; cases hstage'

theorem opened_tracks (h : w.Opened r) : Tracks r w.inner w.revision w 0 := by
  refine .ready (Or.inl h.idle) h.available.1 rfl h.sequence (by rw [h.left]; rfl)
    ⟨w.inner,rfl,h.holds⟩ ?_
  intro n row hrow
  rw [h.fresh n] at hrow
  cases hrow

/-- The row and the writer's keys are the same in another store. -/
theorem stores_store {k : ℕ} {s : ProductState}
    (hget : s.state.get? r.key = w.store.state.get? r.key) (h : Stores r first base w k) :
    Stores r first base { w with store := s } k := by
  obtain ⟨st,hst,hholds⟩ := h
  exact ⟨st,hst,holds_congr r hget hholds⟩

theorem stores_left {k : ℕ} (st : HttpResumeState) (stage : Stage) (n : ℕ)
    (h : Stores r first base w k) :
    Stores r first base { w with sequence := n, left := w.left++[st], stage := stage } k := by
  obtain ⟨st',hst,hholds⟩ := h
  refine ⟨st',?_,hholds⟩
  have hlt := (List.getElem?_eq_some_iff.mp hst).choose
  rw [← List.cons_append, List.getElem?_append_left hlt, hst]

theorem tracks_elsewhere (h : Tracks r first base w settled) {c : CompareAndSet}
    (hkey : c.stateKey ≠ r.key) :
    Tracks r first base { w with store := (w.store.compareAndSet r.env c).1 } settled := by
  have hkeeps := fun bound (hf : Fresh r w.store bound) => elsewhere_keeps r w.store c hkey hf
  cases h with
  | ready hstage hfailure hrevision hsequence hleft hstores hfresh =>
    obtain ⟨hget,hfresh'⟩ := hkeeps _ hfresh
    exact .ready hstage hfailure hrevision hsequence hleft (stores_store hget hstores) hfresh'
  | saving outcome st cancelled hstage hfailure hrevision hsequence hleft hst hstores hfresh =>
    obtain ⟨hget,hfresh'⟩ := hkeeps _ hfresh
    exact .saving outcome st cancelled hstage hfailure hrevision hsequence hleft hst
      (stores_store hget hstores) hfresh'
  | saved outcome st answer cancelled hstage hfailure hrevision hsequence hleft hst hdone hfresh =>
    obtain ⟨hget,hfresh'⟩ := hkeeps _ hfresh
    refine .saved outcome st answer cancelled hstage hfailure hrevision hsequence hleft hst ?_ hfresh'
    cases answer with
    | ok checkpoint => exact ⟨hdone.1,stores_store hget hdone.2⟩
    | error e => exact hdone.imp (stores_store hget) (stores_store hget)
  | disabled hstage hfailure hrevision hstores hfresh =>
    obtain ⟨hget,hfresh'⟩ := hkeeps _ hfresh
    exact .disabled hstage hfailure hrevision
      (hstores.imp (stores_store hget) (stores_store hget)) hfresh'

theorem run_save_spec {st : HttpResumeState} (hrevision : w.revision = base+settled)
    (hsequence : w.sequence = settled+1) (hst : w.left[settled]? = some st)
    (hstores : Stores r first base w settled) (hfresh : Fresh r w.store settled) (now : ℤ)
    (fault : Option Fault) (stage : Stage) :
    Fresh r (w.runSave r st now fault).1 (settled+1) ∧
    SaveDone r first base { w with store := (w.runSave r st now fault).1, stage := stage } settled st
      (w.runSave r st now fault).2 := by
  obtain ⟨old,hold,hholds⟩ := hstores
  have hspec := save_spec r hholds hfresh st now
  have hkept : ∀ s : ProductState, s.state.get? r.key = w.store.state.get? r.key →
      Stores r first base { w with store := s, stage := stage } settled :=
    fun s hget => ⟨old,hold,holds_congr r hget hholds⟩
  have hnext : ∀ s : ProductState, Holds r s (base+settled+1) st →
      Stores r first base { w with store := s, stage := stage } (settled+1) :=
    fun s hs => ⟨st,hst,hs⟩
  rw [runSave, hsequence, hrevision]
  generalize r.save w.store st (base+settled) (r.idempotencyKey (settled+1)) now = out at hspec ⊢
  obtain ⟨t,answer⟩ := out
  obtain ⟨hfresh',hanswer⟩ := hspec
  cases fault with
  | none =>
    refine ⟨hfresh',?_⟩
    rcases hanswer with ⟨e,rfl,hget⟩ | ⟨rfl,hs⟩
    · exact Or.inl (hkept t hget)
    · exact ⟨rfl,hnext t hs⟩
  | some fault =>
    cases fault with
    | beforeCommit => exact ⟨fresh_le r hfresh (Nat.le_succ settled),Or.inl (hkept _ rfl)⟩
    | afterCommit =>
      refine ⟨hfresh',?_⟩
      rcases hanswer with ⟨e,-,hget⟩ | ⟨-,hs⟩
      · exact Or.inl (hkept t hget)
      · exact Or.inr (hnext t hs)

def reported : Option DurableOutput → Option ℕ
  | some (.delivered n _) => some n
  | some (.cancelled n) => some n
  | _ => none

/-- A checkpoint of the saved state at the next revision is accepted. -/
theorem finish_accepted (w : DurableTransport) (outcome : OperationOutcome) (st : HttpResumeState)
    (cancelled : Bool) : w.finish outcome st (.ok ⟨st,w.revision+1⟩) cancelled =
      ({ w with revision := w.revision+1, stage := .idle },
        if cancelled then .cancelled w.sequence else .delivered w.sequence outcome) := by
  simp [finish]

theorem tracks_finish {outcome : OperationOutcome} {st : HttpResumeState}
    {answer : Except SaveError Checkpoint} {cancelled : Bool}
    (hfailure : w.persistenceFailure = none) (hrevision : w.revision = base+settled)
    (hsequence : w.sequence = settled+1) (hleft : w.left.length = settled+1)
    (hdone : SaveDone r first base w settled st answer) (hfresh : Fresh r w.store (settled+1)) :
    ∃ settled', settled ≤ settled' ∧ Tracks r first base (w.finish outcome st answer cancelled).1 settled' ∧
      ∀ n ∈ reported (some (w.finish outcome st answer cancelled).2), n ≤ settled' := by
  cases answer with
  | error e => exact ⟨settled,le_refl _,.disabled rfl rfl hrevision hdone hfresh,nofun⟩
  | ok checkpoint =>
    obtain ⟨rfl,hstores⟩ := hdone
    rw [← hrevision, finish_accepted]
    refine ⟨settled+1,Nat.le_succ _,?_,?_⟩
    · exact .ready (Or.inl rfl) hfailure (congrArg (·+1) hrevision) hsequence hleft hstores hfresh
    · intro n hn
      cases cancelled with
      | true | false =>
        cases hn
        exact hsequence.le

/-- One move keeps track; what it reports is settled after it. -/
theorem tracks_step (h : Tracks r first base w settled) (m : DurableMove) :
    ∃ settled', settled ≤ settled' ∧ Tracks r first base (w.step r m).1 settled' ∧
      ∀ n ∈ reported (w.step r m).2, n ≤ settled' := by
  have hidle : ∃ settled', settled ≤ settled' ∧ Tracks r first base w settled' ∧
      ∀ n ∈ reported none, n ≤ settled' := ⟨settled,le_refl _,h,nofun⟩
  cases m with
  | call =>
    rw [step]
    split
    · rename_i hstage
      split
      · exact ⟨settled,le_refl _,h,nofun⟩
      · rename_i havailable
        refine ⟨settled,le_refl _,?_,nofun⟩
        cases h with
        | ready _ hfailure hrevision hsequence hleft hstores hfresh =>
          exact .ready (Or.inr rfl) hfailure hrevision hsequence hleft hstores hfresh
        | saving _ _ _ hstage' | saved _ _ _ _ hstage' => rw [hstage] at hstage'; cases hstage'
        | disabled _ hfailure =>
          rw [unavailable, if_pos hfailure] at havailable
          split at havailable <;> cases havailable
    · exact hidle
  | innerMoves st =>
    rw [step]
    split
    · refine ⟨settled,le_refl _,?_,nofun⟩
      cases h with
      | ready hstage hfailure hrevision hsequence hleft hstores hfresh =>
        exact .ready hstage hfailure hrevision hsequence hleft hstores hfresh
      | saving outcome st' cancelled hstage hfailure hrevision hsequence hleft hst hstores hfresh =>
        exact .saving outcome st' cancelled hstage hfailure hrevision hsequence hleft hst hstores hfresh
      | saved outcome st' answer cancelled hstage hfailure hrevision hsequence hleft hst hdone hfresh =>
        exact .saved outcome st' answer cancelled hstage hfailure hrevision hsequence hleft hst
          (by cases answer <;> exact hdone) hfresh
      | disabled hstage hfailure hrevision hstores hfresh =>
        exact .disabled hstage hfailure hrevision hstores hfresh
    · exact hidle
  | operationEnds outcome =>
    rw [step]
    split
    · rename_i hstage
      refine ⟨settled,le_refl _,?_,nofun⟩
      cases h with
      | ready _ hfailure hrevision hsequence hleft hstores hfresh =>
        refine .saving outcome w.inner false rfl hfailure hrevision (congrArg (·+1) hsequence)
          (by rw [List.length_append, hleft]; rfl) ?_ (stores_left w.inner _ _ hstores) hfresh
        rw [← hleft]
        exact List.getElem?_concat_length
      | saving _ _ _ hstage' | saved _ _ _ _ hstage' | disabled hstage' =>
          rw [hstage] at hstage'; cases hstage'
    · exact hidle
  | storeRuns now fault =>
    rw [step]
    split
    · rename_i outcome st cancelled hstage
      refine ⟨settled,le_refl _,?_,nofun⟩
      obtain ⟨hfailure,hrevision,hsequence,hleft,hst,hstores,hfresh⟩ := tracks_saving h hstage
      obtain ⟨hfresh',hdone⟩ := run_save_spec hrevision hsequence hst hstores hfresh now fault
        (.saving outcome st (some (w.runSave r st now fault).2) cancelled)
      exact .saved outcome st _ cancelled rfl hfailure hrevision hsequence hleft hst hdone hfresh'
    · exact hidle
  | cancel =>
    rw [step]
    split
    · rename_i outcome st save cancelled hstage
      refine ⟨settled,le_refl _,?_,nofun⟩
      obtain ⟨hfailure,hrevision,hsequence,hleft,hst,hsave⟩ := tracks_saving h hstage
      cases save with
      | none =>
        exact .saving outcome st true rfl hfailure hrevision hsequence hleft hst hsave.1 hsave.2
      | some answer =>
        obtain ⟨hdone,hfresh⟩ := hsave
        exact .saved outcome st answer true rfl hfailure hrevision hsequence hleft hst
          (by cases answer <;> exact hdone) hfresh
    · exact hidle
  | wake =>
    rw [step]
    split
    · rename_i outcome st answer cancelled hstage
      obtain ⟨hfailure,hrevision,hsequence,hleft,-,hdone,hfresh⟩ := tracks_saving h hstage
      exact tracks_finish hfailure hrevision hsequence hleft hdone hfresh
    · exact hidle
  | close =>
    rw [step]
    split
    · rename_i hstage
      refine ⟨settled,le_refl _,?_,nofun⟩
      cases h with
      | ready hstage' hfailure hrevision hsequence hleft hstores hfresh =>
        exact .ready hstage' hfailure hrevision hsequence hleft hstores hfresh
      | saving _ _ _ hstage' | saved _ _ _ _ hstage' => rw [hstage] at hstage'; cases hstage'
      | disabled hstage' hfailure hrevision hstores hfresh =>
        exact .disabled hstage' hfailure hrevision hstores hfresh
    · exact hidle
  | elsewhere c =>
    rw [step]
    split
    · exact hidle
    · rename_i hkey
      exact ⟨settled,le_refl _,tracks_elsewhere h hkey,nofun⟩

/-! ## Runs -/

def isStart (out : Option DurableOutput) : Bool := out matches some (.started _)

def isEnd : Option DurableOutput → Bool
  | some (.delivered _ _) => true
  | some (.cancelled _) => true
  | some (.disabled _ _ _) => true
  | _ => false

def busy (w : DurableTransport) : ℕ :=
  match w.stage with
  | .idle => 0
  | _ => 1

theorem finish_ends (w : DurableTransport) (outcome : OperationOutcome) (st : HttpResumeState)
    (answer : Except SaveError Checkpoint) (cancelled : Bool) :
    (w.finish outcome st answer cancelled).1.stage = .idle ∧
      isStart (some (w.finish outcome st answer cancelled).2) = false ∧
      isEnd (some (w.finish outcome st answer cancelled).2) = true := by
  cases answer with
  | error e => exact ⟨rfl,rfl,rfl⟩
  | ok checkpoint =>
    simp only [finish]
    split
    · exact ⟨rfl,rfl,rfl⟩
    · cases cancelled <;> exact ⟨rfl,rfl,rfl⟩

theorem step_counts (w : DurableTransport) (m : DurableMove) :
    (isStart (w.step r m).2).toNat+w.busy = (isEnd (w.step r m).2).toNat+(w.step r m).1.busy := by
  cases m with
  | call =>
    rw [step]
    split
    · rename_i hstage
      split
      · rfl
      · simp [busy, hstage, isStart, isEnd]
    · rfl
  | wake =>
    rw [step]
    split
    · rename_i outcome st answer cancelled hstage
      obtain ⟨hidle,hstart,hend⟩ := w.finish_ends outcome st answer cancelled
      simp [busy, hstage, hidle, hstart, hend]
    · rfl
  | innerMoves st | close | elsewhere c =>
    rw [step]
    split <;> rfl
  | operationEnds outcome | storeRuns now fault | cancel =>
    rw [step]
    split
    · rename_i hstage
      simp [busy, hstage, isStart, isEnd]
    · rfl

theorem run_counts (w : DurableTransport) (moves : List DurableMove) :
    (Machine.trace (step r) w moves).countP (fun e => isStart e.2)+w.busy =
      (Machine.trace (step r) w moves).countP (fun e => isEnd e.2)+(Machine.final (step r) w moves).busy := by
  induction moves generalizing w with
  | nil => rfl
  | cons m moves ih =>
    have hstep := @step_counts r w m
    have hrest := ih (w.step r m).1
    have hone : ∀ b : Bool, (if b = true then 1 else 0) = b.toNat := by decide
    simp only [Machine.trace, Machine.final, List.countP_cons, hone]
    omega

def AttemptFailed (w : DurableTransport) : Prop :=
  w.persistenceFailure.isSome ∨ ∃ outcome st e cancelled,
    w.stage = .saving outcome st (some (.error e)) cancelled

def Blocked (w : DurableTransport) : Prop :=
  (w.persistenceFailure.isSome ∧ w.stage = .idle) ∨ ∃ outcome st e cancelled,
    w.stage = .saving outcome st (some (.error e)) cancelled

theorem tracks_blocked (h : Tracks r first base w settled) (hfailed : w.AttemptFailed) :
    w.Blocked := by
  rcases hfailed with hfailure | hstage
  · cases h with
    | ready _ hnone | saving _ _ _ _ hnone | saved _ _ _ _ _ hnone =>
        rw [hnone] at hfailure; cases hfailure
    | disabled hstage => exact Or.inl ⟨hfailure,hstage⟩
  · exact Or.inr hstage

theorem blocked_step (h : w.Blocked) (m : DurableMove) :
    (w.step r m).1.Blocked ∧ isStart (w.step r m).2 = false := by
  rcases h with ⟨hfailure,hstage⟩ | ⟨outcome,st,e,cancelled,hstage⟩
  · have hkeep : w.Blocked := Or.inl ⟨hfailure,hstage⟩
    cases m with
    | call =>
      have hrefused : ∃ text, w.unavailable = some text := by
        rw [unavailable, if_pos hfailure]
        split <;> exact ⟨_,rfl⟩
      obtain ⟨text,htext⟩ := hrefused
      simp only [step, hstage, htext]
      exact ⟨hkeep,rfl⟩
    | close =>
      simp only [step, hstage]
      exact ⟨Or.inl ⟨hfailure,rfl⟩,rfl⟩
    | elsewhere c =>
      rw [step]
      split
      · exact ⟨hkeep,rfl⟩
      · exact ⟨Or.inl ⟨hfailure,hstage⟩,rfl⟩
    | innerMoves _ | operationEnds _ | storeRuns _ _ | cancel | wake =>
      simp only [step, hstage]
      exact ⟨hkeep,rfl⟩
  · have hkeep : w.Blocked := Or.inr ⟨outcome,st,e,cancelled,hstage⟩
    cases m with
    | cancel =>
      simp only [step, hstage]
      exact ⟨Or.inr ⟨outcome,st,e,true,rfl⟩,rfl⟩
    | wake =>
      simp only [step, hstage, finish]
      exact ⟨Or.inl ⟨rfl,rfl⟩,rfl⟩
    | elsewhere c =>
      rw [step]
      split
      · exact ⟨hkeep,rfl⟩
      · exact ⟨Or.inr ⟨outcome,st,e,cancelled,hstage⟩,rfl⟩
    | call | innerMoves _ | operationEnds _ | storeRuns _ _ | close =>
      simp only [step, hstage]
      exact ⟨hkeep,rfl⟩

/-- An outcome is delivered only on top of its own checkpoint. -/
theorem delivered_spec (h : Tracks r first base w settled) {n : ℕ} {outcome : OperationOutcome}
    (hout : (w.step r .wake).2 = some (.delivered n outcome)) :
    n = settled+1 ∧ w.left.length = n ∧ (w.step r .wake).1.revision = w.revision+1 ∧
      ∃ st, w.left.getLast? = some st ∧ Holds r w.store (w.revision+1) st := by
  rw [step] at hout
  split at hout
  · rename_i outcome' st answer cancelled hstage
    obtain ⟨-,hrevision,hsequence,hleft,hst,hdone,-⟩ := tracks_saving h hstage
    cases answer with
    | error e => cases hout
    | ok checkpoint =>
      obtain ⟨rfl,st',hst',hholds⟩ := hdone
      rw [← hrevision] at hstage hout
      simp only [finish_accepted, Option.some.injEq] at hout
      split at hout
      · cases hout
      · cases hout
        have hsame : st' = st := Option.some.inj (hst'.symm.trans hst)
        refine ⟨hsequence,by rw [hleft, hsequence],?_,st,?_,?_⟩
        · simp only [step, hstage, finish_accepted]
        · rw [List.getLast?_eq_getElem?, hleft]
          exact hst
        · rw [hrevision, ← hsame]
          exact hholds
  · cases hout

end DurableTransport

open DurableTransport

/-- On one durable transport operations run one at a time, an outcome is
delivered on top of the checkpoint of its own state at the next revision, a
failed save ends the operations, and a process that starts from the store finds
a state at least as late as every outcome delivered. -/
theorem resume_cursor_never_lags (r : ResumeStore) (w : DurableTransport) (hopened : w.Opened r)
    (moves : List DurableMove) :
    (Machine.trace (step r) w moves).countP (fun e => isStart e.2) ≤
      (Machine.trace (step r) w moves).countP (fun e => isEnd e.2)+1 ∧
    (∀ n outcome, ((Machine.final (step r) w moves).step r .wake).2 =
        some (.delivered n outcome) →
      (Machine.final (step r) w moves).left.length = n ∧
      ((Machine.final (step r) w moves).step r .wake).1.revision =
        (Machine.final (step r) w moves).revision+1 ∧
      ∃ st, (Machine.final (step r) w moves).left.getLast? = some st ∧
        Holds r (Machine.final (step r) w moves).store
          ((Machine.final (step r) w moves).revision+1) st) ∧
    ((Machine.final (step r) w moves).AttemptFailed → ∀ more,
      ∀ e ∈ Machine.trace (step r) (Machine.final (step r) w moves) more,
        isStart e.2 = false) ∧
    ∃ k, Stores r w.inner w.revision (Machine.final (step r) w moves) k ∧
      ∀ e ∈ Machine.trace (step r) w moves,
        ∀ n ∈ reported e.2, n ≤ k := by
  have hrun : ∃ settled, Tracks r w.inner w.revision
      (Machine.final (step r) w moves) settled ∧
      ∀ e ∈ Machine.trace (step r) w moves,
        ∀ n ∈ reported e.2, n ≤ settled := by
    apply Machine.history_invariant_along (step r) (fun _ _ => true)
      (fun past v => ∃ settled, Tracks r w.inner w.revision v settled ∧
        ∀ e ∈ past, ∀ n ∈ reported e.2, n ≤ settled)
    · rintro past v m - ⟨settled,htracks,hpast⟩
      obtain ⟨settled',hle,htracks',hreported⟩ := tracks_step htracks m
      refine ⟨settled',htracks',fun e he n hn => ?_⟩
      rcases List.mem_append.mp he with hold | hnew
      · exact (hpast e hold n hn).trans hle
      · obtain rfl := List.mem_singleton.mp hnew
        exact hreported n hn
    · exact Machine.along_true _ _ _
    · exact ⟨0,opened_tracks hopened,fun _ h => absurd h List.not_mem_nil⟩
  obtain ⟨settled,htracks,hreported⟩ := hrun
  refine ⟨?_,fun n outcome hout => ?_,fun hfailed more => ?_,?_⟩
  · have hcounts := @run_counts r w moves
    have hbusy : (Machine.final (step r) w moves).busy ≤ 1 := by
      rw [busy]
      split <;> simp
    omega
  · exact (delivered_spec htracks hout).2
  · exact Machine.trace_forall (step r) Blocked
      (fun _ out => isStart out = false)
      (fun v m hv => (blocked_step hv m).1)
      (fun v m hv => (blocked_step hv m).2) _ more
      (tracks_blocked htracks hfailed)
  · cases htracks with
    | ready _ _ _ _ _ hstores | saving _ _ _ _ _ _ _ _ _ hstores =>
        exact ⟨settled,hstores,hreported⟩
    | saved _ _ answer _ _ _ _ _ _ _ hdone =>
      have hlate : ∀ k, settled ≤ k → Stores r w.inner w.revision
          (Machine.final (step r) w moves) k →
          ∃ k, Stores r w.inner w.revision
            (Machine.final (step r) w moves) k ∧
            ∀ e ∈ Machine.trace (step r) w moves,
              ∀ n ∈ reported e.2, n ≤ k :=
        fun k hk hstores => ⟨k,hstores,fun e he n hn => (hreported e he n hn).trans hk⟩
      cases answer with
      | ok checkpoint => exact hlate _ (Nat.le_succ _) hdone.2
      | error e => exact hdone.elim (hlate _ (le_refl _)) (hlate _ (Nat.le_succ _))
    | disabled _ _ _ hstores =>
      rcases hstores with hstores | hstores
      · exact ⟨settled,hstores,hreported⟩
      · exact ⟨settled+1,hstores,fun e he n hn => (hreported e he n hn).trans (Nat.le_succ _)⟩

def emptyResumeStore : ResumeStore where
  env := ⟨fun _ => ⟨1048576,1000,1000,1⟩,id,id,Char.isAlphanum⟩
  store := 0
  key := (⟨⟨"company",.refl true⟩,⟨"product",.refl true⟩,⟨"mcp.http_resume",.refl true⟩⟩,
    ⟨"server:digest",.refl true⟩)
  writerId := "writer"

def newTransport : DurableTransport where
  store := {}
  inner := {}
  revision := 0

theorem new_transport_opened : newTransport.Opened emptyResumeStore where
  holds := Or.inr ⟨rfl,rfl,rfl⟩
  sequence := rfl
  available := ⟨rfl,rfl⟩
  idle := rfl
  left := rfl
  fresh _ := rfl

/-- The second operation is cancelled while it is saved. -/
def twoOperations : List DurableMove :=
  [.call,.innerMoves { sessionId := some "s" },.operationEnds (.result .null),.storeRuns 5 none,.wake,
    .call,.innerMoves { sessionId := some "s", lastEventId := some "e" },
    .operationEnds (.result .null),.cancel,.storeRuns 6 none,.wake]

theorem two_operations_stored :
    (Machine.trace (step emptyResumeStore) newTransport twoOperations).filterMap Prod.snd =
      [.started 1,.delivered 1 (.result .null),.started 2,.cancelled 2] ∧
    ∃ k, Stores emptyResumeStore newTransport.inner newTransport.revision
      (Machine.final (step emptyResumeStore) newTransport twoOperations) k ∧
      ∀ e ∈ Machine.trace (step emptyResumeStore) newTransport twoOperations,
        ∀ n ∈ reported e.2, n ≤ k := by
  refine ⟨by decide +kernel,?_⟩
  exact (resume_cursor_never_lags emptyResumeStore newTransport new_transport_opened
    twoOperations).2.2.2

end SuiteHarness.Mcp
