import SuiteHarness.Mcp.ResumeCursor

/-!
# A durable connection in long use

Every operation saves its resume state under a new idempotency key, and the
record of a key is kept for the retention time of the store. On a database
without faults a save is refused for its value, for its clock or for the limits
of the namespace, and for nothing else: the revision is always the stored one,
and the key is always new.
-/

set_option autoImplicit false

namespace SuiteHarness.Mcp
open SuiteHarness.Library SuiteHarness.Persistence ProductState

section Store
variable (r : ResumeStore) {s : ProductState} {st : HttpResumeState} {revision : ℕ} {key : String}
  {now : ℤ}

def ResumeStore.fits (r : ResumeStore) (s : ProductState) (st : HttpResumeState) (revision : ℕ)
    (key : String) (now : ℤ) : Bool :=
  let c := r.command st revision key now
  let limits := r.env.stores r.store
  st.invalid.isNone && (c.refusal r.env).isNone && decide ((s.written c).createdAt ≤ now) &&
    ((s.state.get? r.key).isSome || decide (s.state.countIn r.key.1 < limits.maxRecords)) &&
    decide ((s.purge r.env c).idempotency.countIn r.key.1 < limits.maxIdempotencyRecords)

theorem capacity_none (env : StateEnv) (s : ProductState) (c : CompareAndSet) :
    s.capacityRefusal env c = none ↔
      ((s.state.get? c.stateKey).isSome = true ∨
        s.state.countIn c.scope < (env.stores c.store).maxRecords) ∧
      s.idempotency.countIn c.scope < (env.stores c.store).maxIdempotencyRecords := by
  unfold capacityRefusal
  cases hrow : s.state.get? c.stateKey <;>
    by_cases hrecords : s.state.countIn c.scope < (env.stores c.store).maxRecords <;>
    by_cases hkeys : s.idempotency.countIn c.scope < (env.stores c.store).maxIdempotencyRecords <;>
    simp [not_le.mpr, not_lt.mp, hrecords, hkeys]

theorem fits_iff : r.fits s st revision key now = true ↔
    st.invalid = none ∧ (r.command st revision key now).refusal r.env = none ∧
      (s.written (r.command st revision key now)).createdAt ≤ now ∧
      (s.purge r.env (r.command st revision key now)).capacityRefusal r.env
        (r.command st revision key now) = none := by
  rw [capacity_none]
  simp only [ResumeStore.fits, Bool.and_eq_true, Bool.or_eq_true, decide_eq_true_eq,
    Option.isNone_iff_eq_none, and_assoc]
  rfl

theorem transaction_wrote (env : StateEnv) (s : ProductState) (c : CompareAndSet)
    (habsent : (s.purge env c).idempotency.get? (c.scope,c.idempotencyKey) = none)
    (hrevision : (actualRevision (s.state.get? c.stateKey) : ℤ) = c.expectedRevision)
    (hroom : (s.purge env c).capacityRefusal env c = none)
    (htimes : (s.written c).createdAt ≤ c.now) :
    s.transaction env c =
      .ok ((s.purge env c).write env c (s.written c),⟨s.written c,false⟩) := by
  have hbuild : ((s.purge env c).written c).build = .ok (s.written c) :=
    (build_ok (s.written c) _).mpr ⟨rfl,htimes⟩
  have hcurrent : ¬(actualRevision ((s.purge env c).state.get? c.stateKey) : ℤ) ≠
      c.expectedRevision := not_not.mpr hrevision
  unfold transaction
  dsimp only
  rw [habsent]
  dsimp only
  rw [if_neg hcurrent, hroom]
  dsimp only
  rw [hbuild]
  rfl

theorem save_ok_iff (hrevision : actualRevision (s.state.get? r.key) = revision)
    (hnew : s.idempotency.get? (r.key.1,key) = none) :
    (∃ checkpoint, (r.save s st revision key now).2 = .ok checkpoint) ↔
      r.fits s st revision key now = true := by
  have habsent : (s.purge r.env (r.command st revision key now)).idempotency.get?
      (r.key.1,key) = none := Dict.delete_expired_none _ _ _ _ _ hnew
  rw [fits_iff]
  constructor
  · rintro ⟨checkpoint,hok⟩
    rw [ResumeStore.save] at hok
    cases hvalid : st.invalid with
    | some text =>
      rw [hvalid] at hok
      cases hok
    | none =>
      rw [hvalid] at hok
      simp only at hok
      have hmoved := @ProductState.step_moved r.env s (r.command st revision key now)
      generalize s.compareAndSet r.env (r.command st revision key now) = out at hmoved hok
      obtain ⟨t,answer⟩ := out
      cases hmoved with
      | raised => cases hok
      | replayed row _ hrow => cases habsent.symm.trans hrow
      | wrote hrefusal _ _ hroom htimes => exact ⟨rfl,hrefusal,htimes,hroom⟩
  · rintro ⟨hvalid,hrefusal,htimes,hroom⟩
    have htransaction := transaction_wrote r.env s (r.command st revision key now) habsent
      (congrArg Nat.cast hrevision) hroom htimes
    rw [ResumeStore.save, hvalid]
    simp only [compareAndSet, hrefusal, htransaction]
    exact ⟨_,rfl⟩

end Store

namespace DurableTransport

def Quiet (r : ResumeStore) : DurableMove → Prop
  | .storeRuns _ fault => fault = none
  | .elsewhere c => ∀ n, (r.key.1,r.idempotencyKey n) ≠ (c.scope,c.idempotencyKey)
  | _ => True

def roomy (r : ResumeStore) (w : DurableTransport) : DurableMove → Bool
  | .storeRuns now _ => match w.stage with
    | .saving _ st none _ => r.fits w.store st w.revision (r.idempotencyKey w.sequence) now
    | _ => true
  | _ => true

def used (w : DurableTransport) : ℕ :=
  match w.stage with
  | .saving _ _ none _ => w.sequence-1
  | _ => w.sequence

structure Up (r : ResumeStore) (first : HttpResumeState) (base : ℕ) (w : DurableTransport) :
    Prop where
  tracks : ∃ settled, Tracks r first base w settled
  spare : ∀ n, w.used < n → w.store.idempotency.get? (r.key.1,r.idempotencyKey n) = none
  failure : w.persistenceFailure = none
  accepted : ∀ outcome st answer cancelled, w.stage = .saving outcome st (some answer) cancelled →
    ∃ checkpoint, answer = .ok checkpoint

def Served : Option DurableOutput → Prop
  | some (.disabled _ _ _) => False
  | some (.refused text) => text = "durable MCP transport is closed"
  | _ => True

variable {r : ResumeStore} {first : HttpResumeState} {base : ℕ} {w : DurableTransport}

theorem opened_up (h : w.Opened r) : Up r w.inner w.revision w where
  tracks := ⟨0,opened_tracks h⟩
  spare := fun n _ => h.fresh n
  failure := h.available.1
  accepted := fun outcome st answer cancelled hstage => by
    rw [h.idle] at hstage
    cases hstage

theorem written_elsewhere (s : ProductState) (c : CompareAndSet) (k : StateScope × String)
    (hk : k ≠ (c.scope,c.idempotencyKey)) (hnone : s.idempotency.get? k = none) :
    (s.compareAndSet r.env c).1.idempotency.get? k = none := by
  have hmoved := @ProductState.step_moved r.env s c
  generalize s.compareAndSet r.env c = out at hmoved ⊢
  obtain ⟨t,answer⟩ := out
  have hpurged : (s.purge r.env c).idempotency.get? k = none := Dict.delete_expired_none _ _ _ _ _ hnone
  cases hmoved with
  | raised => exact hnone
  | replayed => exact hpurged
  | wrote => exact (Dict.get_set _ _ _ _).trans ((if_neg hk).trans hpurged)

variable {outcome : OperationOutcome} {st : HttpResumeState}

/-- A pending save is at the stored revision and under a new key. -/
theorem pending_save (h : Up r first base w)
    {cancelled : Bool} (hstage : w.stage = .saving outcome st none cancelled) :
    actualRevision (w.store.state.get? r.key) = w.revision ∧
      w.store.idempotency.get? (r.key.1,r.idempotencyKey w.sequence) = none := by
  obtain ⟨settled,htracks⟩ := h.tracks
  obtain ⟨-,hrevision,hsequence,-,-,⟨old,-,hold⟩,-⟩ := tracks_saving htracks hstage
  refine ⟨?_,h.spare _ ?_⟩
  · rw [hrevision]
    exact holds_revision r hold
  · rw [used, hstage]
    show w.sequence-1 < w.sequence
    omega

/-- The checkpoint of an accepted save is the expected one. -/
theorem accepted_checkpoint (h : Up r first base w)
    {answer : Except SaveError Checkpoint} {cancelled : Bool}
    (hstage : w.stage = .saving outcome st (some answer) cancelled) :
    answer = .ok ⟨st,w.revision+1⟩ := by
  obtain ⟨checkpoint,rfl⟩ := h.accepted outcome st answer cancelled hstage
  obtain ⟨settled,htracks⟩ := h.tracks
  obtain ⟨-,hrevision,-,-,-,hdone,-⟩ := tracks_saving htracks hstage
  rw [hdone.1, hrevision]

/-- The save of a connection that is up is accepted exactly when there is room. -/
theorem up_save (h : Up r first base w)
    {cancelled : Bool} (hstage : w.stage = .saving outcome st none cancelled) (now : ℤ) :
    (∃ checkpoint, (w.runSave r st now none).2 = .ok checkpoint) ↔
      roomy r w (.storeRuns now none) = true := by
  obtain ⟨hrevision,hnew⟩ := pending_save h hstage
  rw [roomy, hstage]
  exact save_ok_iff r hrevision hnew

theorem save_spares (w : DurableTransport) (st : HttpResumeState) (now : ℤ) (n : ℕ)
    (hn : w.sequence < n)
    (hnone : w.store.idempotency.get? (r.key.1,r.idempotencyKey n) = none) :
    (w.runSave r st now none).1.idempotency.get? (r.key.1,r.idempotencyKey n) = none := by
  have hne : (r.key.1,r.idempotencyKey n) ≠ (r.key.1,r.idempotencyKey w.sequence) :=
    fun heq => absurd (idempotency_key_inj r (congrArg Prod.snd heq)) hn.ne'
  have hwritten := written_elsewhere (r := r) w.store
    (r.command st w.revision (r.idempotencyKey w.sequence) now) _ hne hnone
  show (r.save w.store st w.revision (r.idempotencyKey w.sequence) now).1.idempotency.get? _ = none
  rw [ResumeStore.save]
  split
  · exact hnone
  · dsimp only
    split
    · exact hwritten
    · exact hwritten

theorem up_step (h : Up r first base w) (m : DurableMove) (hquiet : Quiet r m)
    (hroomy : roomy r w m = true) :
    Up r first base (w.step r m).1 ∧ Served (w.step r m).2 := by
  have htracks : ∃ settled, Tracks r first base (w.step r m).1 settled := by
    obtain ⟨settled,hsettled⟩ := h.tracks
    obtain ⟨settled',-,hnext,-⟩ := tracks_step hsettled m
    exact ⟨settled',hnext⟩
  have hidle : Up r first base w ∧ Served none := ⟨h,trivial⟩
  revert htracks
  cases m with
  | call =>
    rw [step]
    split
    · rename_i hstage
      split
      · rename_i text hclosed
        intro _
        refine ⟨h,?_⟩
        rw [unavailable, h.failure] at hclosed
        split at hclosed
        · exact (Option.some.inj hclosed).symm
        · cases hclosed
      · intro htracks
        refine ⟨⟨htracks,fun n hn => h.spare n ?_,h.failure,by simp⟩,trivial⟩
        rw [used, hstage]
        exact hn
    · exact fun _ => hidle
  | innerMoves st =>
    rw [step]
    split
    · rename_i hstage
      exact fun htracks => ⟨⟨htracks,h.spare,h.failure,h.accepted⟩,trivial⟩
    · exact fun _ => hidle
  | operationEnds outcome =>
    rw [step]
    split
    · rename_i hstage
      intro htracks
      refine ⟨⟨htracks,fun n hn => h.spare n ?_,h.failure,?_⟩,trivial⟩
      · rw [used, hstage]
        exact hn
      · rintro _ _ _ _ hnext
        cases hnext
    · exact fun _ => hidle
  | storeRuns now fault =>
    obtain rfl : fault = none := hquiet
    rw [step]
    split
    · rename_i outcome st cancelled hstage
      intro htracks
      obtain ⟨checkpoint,hok⟩ := (up_save h hstage now).mpr hroomy
      refine ⟨⟨htracks,?_,h.failure,?_⟩,trivial⟩
      · intro n hn
        apply save_spares w st now n hn
        apply h.spare n
        rw [used, hstage]
        exact (Nat.sub_le _ _).trans_lt hn
      · rintro _ _ _ _ hnext
        cases hnext
        exact ⟨checkpoint,hok⟩
    · exact fun _ => hidle
  | cancel =>
    rw [step]
    split
    · rename_i outcome st save cancelled hstage
      intro htracks
      refine ⟨⟨htracks,fun n hn => h.spare n ?_,h.failure,?_⟩,trivial⟩
      · rw [used, hstage]
        cases save with
        | none => exact hn
        | some => exact hn
      · rintro _ _ answer _ hnext
        cases hnext
        exact h.accepted outcome st answer cancelled hstage
    · exact fun _ => hidle
  | wake =>
    rw [step]
    split
    · rename_i outcome st answer cancelled hstage
      rw [accepted_checkpoint h hstage, finish_accepted]
      intro htracks
      refine ⟨⟨htracks,fun n hn => h.spare n ?_,h.failure,by simp⟩,?_⟩
      · rw [used, hstage]
        exact hn
      · cases cancelled with
        | true => trivial
        | false => trivial
    · exact fun _ => hidle
  | close =>
    rw [step]
    split
    · exact fun htracks => ⟨⟨htracks,h.spare,h.failure,h.accepted⟩,trivial⟩
    · exact fun _ => hidle
  | elsewhere c =>
    rw [step]
    split
    · exact fun _ => hidle
    · intro htracks
      refine ⟨⟨htracks,?_,h.failure,h.accepted⟩,trivial⟩
      intro n hn
      exact written_elsewhere w.store c _ (hquiet n) (h.spare n hn)

end DurableTransport

open DurableTransport

/-- In the runs whose saves all find room no operation is refused, and the next
save is accepted exactly when it finds room. -/
theorem durable_connection_lasts (r : ResumeStore) (w : DurableTransport) (hopened : w.Opened r)
    (moves : List DurableMove) (hquiet : ∀ m ∈ moves, Quiet r m)
    (hroomy : Machine.along (step r) (roomy r) w moves = true) :
    (∀ e ∈ Machine.trace (step r) w moves, Served e.2) ∧
    (Machine.final (step r) w moves).persistenceFailure = none ∧
    ∀ outcome st cancelled now,
      (Machine.final (step r) w moves).stage = .saving outcome st none cancelled →
      ((∃ checkpoint, ((Machine.final (step r) w moves).runSave r st now none).2 =
          .ok checkpoint) ↔
        roomy r (Machine.final (step r) w moves)
          (.storeRuns now none) = true) := by
  have hrun : ∀ (v : DurableTransport), Up r w.inner w.revision v →
      (∀ m ∈ moves, Quiet r m) →
      Machine.along (step r) (roomy r) v moves = true →
      (∀ e ∈ Machine.trace (step r) v moves, Served e.2) ∧
        Up r w.inner w.revision (Machine.final (step r) v moves) := by
    clear hquiet hroomy
    induction moves with
    | nil => exact fun v hv _ _ => ⟨fun _ he => absurd he List.not_mem_nil,hv⟩
    | cons m moves ih =>
      intro v hv hquiet hroomy
      rw [Machine.along, Bool.and_eq_true] at hroomy
      obtain ⟨hnext,hserved⟩ := up_step hv m (hquiet m List.mem_cons_self) hroomy.1
      obtain ⟨htrace,hfinal⟩ := ih _ hnext (fun m' hm' => hquiet m' (List.mem_cons_of_mem _ hm'))
        hroomy.2
      refine ⟨?_,hfinal⟩
      intro e he
      rcases List.mem_cons.mp he with rfl | he
      · exact hserved
      · exact htrace e he
  obtain ⟨hserved,hup⟩ := hrun w (opened_up hopened) hquiet hroomy
  exact ⟨hserved,hup.failure,fun outcome st cancelled now hstage =>
    up_save hup hstage now⟩

def smallResumeStore : ResumeStore :=
  { emptyResumeStore with env := ⟨fun _ => ⟨1048576,1000,2,10⟩,id,id,Char.isAlphanum⟩ }

def operationAt (now : ℤ) : List DurableMove :=
  [.call,.operationEnds (.result .null),.storeRuns now none,.wake]

theorem new_transport_small : newTransport.Opened smallResumeStore where
  holds := Or.inr ⟨rfl,rfl,rfl⟩
  sequence := rfl
  available := ⟨rfl,rfl⟩
  idle := rfl
  left := rfl
  fresh _ := rfl

/-- The third operation comes when the record of the first has expired. -/
theorem slow_connection_lasts :
    (Machine.final (step smallResumeStore) newTransport
      (operationAt 0 ++ operationAt 5 ++ operationAt 10)).persistenceFailure = none ∧
    ∀ e ∈ Machine.trace (step smallResumeStore) newTransport
      (operationAt 0 ++ operationAt 5 ++ operationAt 10), Served e.2 := by
  have hquiet : ∀ m ∈ operationAt 0 ++ operationAt 5 ++ operationAt 10,
      Quiet smallResumeStore m := by
    intro m hm
    simp only [operationAt, List.cons_append, List.nil_append, List.mem_cons, List.not_mem_nil,
      or_false] at hm
    rcases hm with rfl | rfl | rfl | rfl | rfl | rfl | rfl | rfl | rfl | rfl | rfl | rfl <;> trivial
  have hlasts := durable_connection_lasts smallResumeStore newTransport new_transport_small
    (operationAt 0 ++ operationAt 5 ++ operationAt 10) hquiet (by decide +kernel)
  exact ⟨hlasts.2.1,hlasts.1⟩

/-- The third operation within the retention time disables the connection. -/
theorem busy_connection_disabled :
    (Machine.trace (step smallResumeStore) newTransport
      (operationAt 0 ++ operationAt 1 ++ operationAt 2 ++ [.call])).filterMap Prod.snd =
    [.started 1,.delivered 1 (.result .null),.started 2,.delivered 2 (.result .null),
      .started 3,.disabled 3 disabledText none,
      .refused "durable MCP resume persistence previously failed; connection disabled"] := by
  decide +kernel

end SuiteHarness.Mcp
