import SuiteHarness.Sessions.MemoryRefinement
import SuiteHarness.Sessions.SqliteRefinement
import SuiteHarness.Library.Fence

/-!
# Run ownership

A lawful store is any implementation of the store contract that refines the
abstract store; both stores of the repository are lawful. The claim of a run is
a one-shot fence, so over every history of calls a run is acquired at most
once, finalized at most once by its owner, and dead once it was found stale.
-/

set_option autoImplicit false

namespace SuiteHarness.Sessions
open SuiteHarness.Library SuiteHarness.Library.Fence

variable {pf : Platform} {limits : SessionStoreLimits}

structure LawfulStore (pf : Platform) (limits : SessionStoreLimits) where
  State : Type
  init : State
  call : Readings → State → Call → State × Outcome
  view : State → View
  Kept : State → Prop
  rowErrors : List SessionError
  viewInit : view init = View.empty
  keptInit : Kept init
  lawful : ∀ r s c, Kept s → WellFormed pf (view s) →
    Effect pf limits rowErrors (view s) r c (call r s c).2 (view (call r s c).1) ∧
      Kept (call r s c).1

def memoryStore (pf : Platform) (limits : SessionStoreLimits) : LawfulStore pf limits where
  State := InMemorySessionStore
  init := .init
  call r s c := s.call pf limits r c
  view := InMemorySessionStore.view
  Kept := InMemorySessionStore.Indexed pf
  rowErrors := []
  viewInit := InMemorySessionStore.view_init
  keptInit := InMemorySessionStore.indexed_init pf
  lawful _ _ c hk hw := InMemorySessionStore.call_lawful _ _ hk hw c

def sqliteStore (pf : Platform) (limits : SessionStoreLimits) : LawfulStore pf limits where
  State := SQLiteSessionStore
  init := .init
  call r s c := s.call pf limits r c
  view := SQLiteSessionStore.view
  Kept := SQLiteSessionStore.Stored pf
  rowErrors := SQLiteSessionStore.rowErrors
  viewInit := SQLiteSessionStore.view_init
  keptInit := SQLiteSessionStore.stored_init pf
  lawful _ _ c hk hw := SQLiteSessionStore.call_lawful _ _ hk hw c

namespace LawfulStore
variable (S : LawfulStore pf limits)

abbrev step (s : S.State) (i : Readings × Call) : S.State × Outcome := S.call i.1 s i.2

def Sound (s : S.State) : Prop := S.Kept s ∧ WellFormed pf (S.view s)

theorem sound_init : S.Sound S.init :=
  ⟨S.keptInit,S.viewInit ▸ well_formed_empty pf⟩

theorem call_effect (r : Readings) (s : S.State) (c : Call) (h : S.Sound s) :
    Effect pf limits S.rowErrors (S.view s) r c (S.call r s c).2 (S.view (S.call r s c).1) :=
  (S.lawful r s c h.1 h.2).1

theorem sound_call (r : Readings) (s : S.State) (c : Call) (h : S.Sound s) :
    S.Sound (S.call r s c).1 :=
  ⟨(S.lawful r s c h.1 h.2).2,effect_well_formed (S.call_effect r s c h) h.2⟩

def history (calls : List (Readings × Call)) : List ((Readings × Call) × Outcome) :=
  Machine.trace S.step S.init calls

def steady (s : S.State) (x : Readings × Call) : Bool := (S.view s).steady x

theorem timely_run (calls : List (Readings × Call))
    (hc : Machine.along S.step S.steady S.init calls = true) :
    (S.view (Machine.final S.step S.init calls)).Timely := by
  refine (Machine.final_invariant_along S.step S.steady
    (fun s => S.Sound s ∧ (S.view s).Timely) ?_ S.init calls hc ⟨S.sound_init,?_⟩).2
  · rintro s ⟨r,c⟩ hsteady ⟨hs,hd⟩
    exact ⟨S.sound_call r s c hs,effect_timely (S.call_effect r s c hs) hd hsteady⟩
  · rw [S.viewInit]
    nofun

end LawfulStore

def claimCell : Option RunClaim → Cell String
  | none => .free
  | some c => match c.state with
    | .active => .held c.ownerToken
    | .finalizing => .finalizing c.ownerToken
    | .abandoned => .dead

def observe (key : RunKey) (e : (Readings × Call) × Outcome) : Event String :=
  match e.1.2, e.2 with
  | .claimRun i run owner _, .ok (.claim answer) =>
    if (i,run) = key then match answer with
      | .acquired => .acquired owner
      | .active => .busy
      | .stale => .stale
    else .other
  | .finalizeRun i run owner _, .ok (.finalized done) =>
    if (i,run) = key then if done then .finalized owner else .refused else .other
  | _, _ => .other

theorem cell_set_claim (v : View) (k key : RunKey) (c : RunClaim) :
    claimCell ((v.setClaim k c).claim key) =
      if key = k then claimCell (some c) else claimCell (v.claim key) := by
  by_cases h : key = k
  · simp [View.setClaim, h]
  · simp [View.setClaim, h]

section Effects
variable {rowErrors : List SessionError} {v w : View} {r : Readings} {c : Call} {o : Outcome}

theorem answer_move (key : RunKey) {reply : Reply} (h : Answers v r c reply) :
    Move (claimCell (v.claim key)) (observe key ((r,c),.ok reply)) (claimCell (v.claim key)) := by
  cases c with
  | claimRun i run owner lease =>
    cases reply with
    | claim answer =>
      cases answer with
      | active =>
        obtain ⟨claim,hc,hs,-⟩ := h
        by_cases hk : (i,run) = key
        · subst hk
          simp only [observe, if_true]
          rw [hc]
          unfold claimCell
          cases hst : claim.state with
          | active =>
            simp only [hst]
            exact .busyHeld _
          | finalizing =>
            simp only [hst]
            exact .busyFinalizing _
          | abandoned => exact absurd hst hs
        · simp only [observe, if_neg hk]
          exact .pass _
      | _ => exact absurd h id
    | _ => exact absurd h id
  | finalizeRun i run owner lease =>
    cases reply with
    | finalized done =>
      cases done with
      | true => exact absurd h id
      | false =>
        by_cases hk : (i,run) = key
        · simp only [observe, if_pos hk]
          exact .refuse _
        · simp only [observe, if_neg hk]
          exact .pass _
    | _ => exact absurd h id
  | _ => exact .pass _

/-- One call moves the claim of every run along the fence. -/
theorem effect_move (key : RunKey) (h : Effect pf limits rowErrors v r c o w) :
    Move (claimCell (v.claim key)) (observe key ((r,c),o)) (claimCell (w.claim key)) := by
  cases h with
  | raise => cases c <;> exact .pass _
  | answer c reply ha => exact answer_move key ha
  | acquire i run owner lease hr hc =>
    rw [cell_set_claim]
    by_cases hk : key = (i,run)
    · subst hk
      simp only [observe, if_true]
      rw [hc]
      exact .acquire owner
    · simp only [observe, if_neg hk, if_neg (Ne.symm hk)]
      exact .pass _
  | expire i run owner lease claim hc hx =>
    rw [cell_set_claim]
    by_cases hk : key = (i,run)
    · subst hk
      simp only [observe, if_true]
      rw [hc]
      refine .expire _ ?_
      unfold claimCell
      cases hst : claim.state <;> simp [hst]
    · simp only [observe, if_neg hk, if_neg (Ne.symm hk)]
      exact .pass _
  | finalize i run owner lease claim hc ho hs =>
    rw [cell_set_claim]
    by_cases hk : key = (i,run)
    · subst hk
      simp only [observe, if_true]
      rw [hc]
      simp only [claimCell, hs, ho]
      exact .finalize owner
    · simp only [observe, if_neg hk, if_neg (Ne.symm hk)]
      exact .pass _
  | status i status record outcome hr ho =>
    exact .pass _
  | _ => exact .pass _

variable {i : SessionIdentity} {owner run : String}

/-- A claim that exists makes a claim or a finalization raise only on its own
arguments, or where a row no longer decodes. -/
theorem claimed_raise (hw : WellFormed pf v) {lease : ℤ} {e : SessionError}
    (hc : v.claim (i,run) ≠ none) (h : Effect pf limits rowErrors v r c (.error e) w)
    (hcall : c = .claimRun i run owner lease ∨ c = .finalizeRun i run owner lease) :
    validateRunClaim run owner lease = .error e ∨ (e ∈ rowErrors ∧ v.Untimely i) := by
  have hr : v.record i ≠ none := fun hn => hc ((hw.absent i hn).2.2 run)
  rcases hcall with rfl | rfl
  · cases h with
    | raise c e hm =>
      rcases hm with hv | he | hn | hn
      · exact Or.inl hv
      · exact Or.inr he
      · exact absurd hn hr
      · exact absurd hn hc
  · cases h with
    | raise c e hm =>
      rcases hm with hv | he | hn
      · exact Or.inl hv
      · exact Or.inr he
      · exact absurd hn hr

theorem claim_run_outcome {lease : ℤ}
    (h : Effect pf limits rowErrors v r (.claimRun i run owner lease) o w) :
    (∃ answer, o = .ok (.claim answer)) ∨ ∃ e, o = .error e := by
  cases h with
  | raise c e => exact Or.inr ⟨e,rfl⟩
  | answer c reply ha =>
    cases reply with
    | claim answer => exact Or.inl ⟨answer,rfl⟩
    | _ => exact absurd ha id
  | acquire => exact Or.inl ⟨_,rfl⟩
  | expire => exact Or.inl ⟨_,rfl⟩

theorem finalize_run_outcome {lease : ℤ}
    (h : Effect pf limits rowErrors v r (.finalizeRun i run owner lease) o w) :
    (∃ done, o = .ok (.finalized done)) ∨ ∃ e, o = .error e := by
  cases h with
  | raise c e => exact Or.inr ⟨e,rfl⟩
  | answer c reply ha =>
    cases reply with
    | finalized done => exact Or.inl ⟨done,rfl⟩
    | _ => exact absurd ha id
  | finalize => exact Or.inl ⟨_,rfl⟩

end Effects

def Acquired (key : RunKey) (owner : String) (e : (Readings × Call) × Outcome) : Prop :=
  ∃ r lease, e = ((r,.claimRun key.1 key.2 owner lease),.ok (.claim .acquired))

def Finalized (key : RunKey) (owner : String) (e : (Readings × Call) × Outcome) : Prop :=
  ∃ r lease, e = ((r,.finalizeRun key.1 key.2 owner lease),.ok (.finalized true))

def FoundStale (key : RunKey) (e : (Readings × Call) × Outcome) : Prop :=
  ∃ r owner lease, e = ((r,.claimRun key.1 key.2 owner lease),.ok (.claim .stale))

def Rejected (rowErrors : List SessionError) (run owner : String) (lease : ℤ) (o : Outcome) :
    Prop :=
  ∃ e, o = .error e ∧ (validateRunClaim run owner lease = .error e ∨ e ∈ rowErrors)

structure OwnedOnce (rowErrors : List SessionError) (key : RunKey)
    (history : List ((Readings × Call) × Outcome)) : Prop where
  acquiredOnce : history.Pairwise (fun e f => ∀ a b, ¬ (Acquired key a e ∧ Acquired key b f))
  finalizedOnce : history.Pairwise (fun e f => ∀ a b, ¬ (Finalized key a e ∧ Finalized key b f))
  finalizedByOwner : ∀ pre e post owner, history = pre ++ e::post → Finalized key owner e →
    ∃ a ∈ pre, Acquired key owner a
  staleForever : ∀ pre e post, history = pre ++ e::post → FoundStale key e →
    ∀ f ∈ post, ∀ r owner lease,
      (f.1 = (r,.claimRun key.1 key.2 owner lease) →
        f.2 = .ok (.claim .stale) ∨ Rejected rowErrors key.2 owner lease f.2) ∧
      (f.1 = (r,.finalizeRun key.1 key.2 owner lease) →
        f.2 = .ok (.finalized false) ∨ Rejected rowErrors key.2 owner lease f.2)

variable {e : (Readings × Call) × Outcome} {key : RunKey}

theorem observe_acquired {owner : String} :
    observe key e = .acquired owner ↔ Acquired key owner e := by
  constructor
  · intro h
    obtain ⟨⟨r,c⟩,o⟩ := e
    simp only [observe] at h
    split at h
    · rename_i i run owner' lease answer
      split_ifs at h with hk
      subst hk
      cases answer <;> cases h
      exact ⟨r,lease,rfl⟩
    · split_ifs at h
    · cases h
  · rintro ⟨r,lease,rfl⟩
    simp [observe]

theorem observe_finalized {owner : String} :
    observe key e = .finalized owner ↔ Finalized key owner e := by
  constructor
  · intro h
    obtain ⟨⟨r,c⟩,o⟩ := e
    simp only [observe] at h
    split at h
    · rename_i i run owner' lease answer
      split_ifs at h with hk
      cases answer <;> cases h
    · rename_i i run owner' lease done
      split_ifs at h with hk hd
      subst hk
      subst hd
      cases h
      exact ⟨r,lease,rfl⟩
    · cases h
  · rintro ⟨r,lease,rfl⟩
    simp [observe]

namespace LawfulStore
variable (S : LawfulStore pf limits)

theorem run_path (key : RunKey) {s : S.State} (calls : List (Readings × Call)) (h : S.Sound s) :
    Path (claimCell ((S.view s).claim key)) ((Machine.trace S.step s calls).map (observe key))
      (claimCell ((S.view (Machine.final S.step s calls)).claim key)) :=
  trace_path S.step S.Sound (fun s => claimCell ((S.view s).claim key)) (observe key)
    (fun s i hs => S.sound_call i.1 s i.2 hs)
    (fun s i hs => effect_move key (S.call_effect i.1 s i.2 hs)) s calls h

theorem run_sound (s : S.State) (calls : List (Readings × Call)) (h : S.Sound s) :
    S.Sound (Machine.final S.step s calls) :=
  Machine.final_invariant S.step S.Sound (fun s i hs => S.sound_call i.1 s i.2 hs) s calls h

variable {pre post : List ((Readings × Call) × Outcome)}

theorem finalized_by_owner {calls : List (Readings × Call)}
    {owner : String} (h : S.history calls = pre ++ e::post) (hf : Finalized key owner e) :
    ∃ a ∈ pre, Acquired key owner a := by
  obtain ⟨js,ks,-,rfl,ho,-⟩ := Machine.trace_split S.step S.init calls e pre post h
  have hmove := effect_move key
    (S.call_effect e.1.1 _ e.1.2 (S.run_sound S.init js S.sound_init))
  have hobs := observe_finalized.mpr hf
  rw [← ho, hobs] at hmove
  rcases held_acquired (S.run_path key js S.sound_init) owner (finalized_held hmove) with
    hinit | hmem
  · rw [S.viewInit] at hinit
    cases hinit
  · obtain ⟨a,ha,hacq⟩ := List.mem_map.mp hmem
    exact ⟨a,ha,observe_acquired.mp hacq⟩

/-- A row error is one of `rows`, or never comes up because the clock is steady. -/
theorem stale_forever {calls : List (Readings × Call)} {rows : List SessionError}
    (hrows : S.rowErrors ⊆ rows ∨ Machine.along S.step S.steady S.init calls = true)
    (h : S.history calls = pre ++ e::post) (hst : FoundStale key e)
    {f : (Readings × Call) × Outcome} (hmem : f ∈ post) (r : Readings) (owner : String)
    (lease : ℤ) :
    (f.1 = (r,.claimRun key.1 key.2 owner lease) →
      f.2 = .ok (.claim .stale) ∨ Rejected rows key.2 owner lease f.2) ∧
    (f.1 = (r,.finalizeRun key.1 key.2 owner lease) →
      f.2 = .ok (.finalized false) ∨ Rejected rows key.2 owner lease f.2) := by
  obtain ⟨js,ks,rfl,-,ho,rfl⟩ := Machine.trace_split S.step S.init calls e pre post h
  have hsound := S.run_sound S.init js S.sound_init
  have hdead : 3 ≤ (claimCell ((S.view (S.step (Machine.final S.step S.init js) e.1).1).claim
      key)).rank := by
    have hmove := effect_move key (S.call_effect e.1.1 _ e.1.2 hsound)
    have hobs : observe key e = .stale := by
      obtain ⟨r,owner,lease,rfl⟩ := hst
      simp [observe]
    rw [← ho, hobs] at hmove
    exact (stale_rank hmove).ge
  have hnext := S.sound_call e.1.1 _ e.1.2 hsound
  -- The cell is dead from here on; the later call starts from a state behind it.
  obtain ⟨mid,rest,hs⟩ := List.append_of_mem hmem
  obtain ⟨ls,ms,rfl,-,hof,-⟩ := Machine.trace_split S.step _ ks f mid rest hs
  have hlater := S.run_sound _ ls hnext
  have hraised : ∀ err, err ∈ S.rowErrors ∧ View.Untimely (S.view (Machine.final S.step
      (S.step (Machine.final S.step S.init js) e.1).1 ls)) key.1 → err ∈ rows := by
    rintro err ⟨hmem,row,hrow,hlate⟩
    refine hrows.elim (fun hsub => hsub hmem) (fun hc => ?_)
    rw [← List.cons_append, ← List.append_assoc, Machine.along_append, Bool.and_eq_true] at hc
    have htimely := S.timely_run _ hc.1
    rw [Machine.final_append] at htimely
    exact absurd hlate (not_lt.mpr (htimely key.1 row hrow))
  have hrank := hdead.trans (path_rank (S.run_path key ls hnext))
  have heffect := S.call_effect f.1.1 _ f.1.2 hlater
  have hmove := effect_move key heffect
  rw [← hof] at hmove heffect
  have hclaim : (S.view (Machine.final S.step
      (S.step (Machine.final S.step S.init js) e.1).1 ls)).claim (key.1,key.2) ≠ none := by
    intro hn
    change (S.view _).claim key = none at hn
    rw [hn] at hrank
    simp [claimCell, Cell.rank] at hrank
  obtain ⟨⟨fr,fc⟩,fo⟩ := f
  constructor
  · intro hf
    cases hf
    rcases claim_run_outcome heffect with ⟨answer,rfl⟩ | ⟨err,rfl⟩
    · left
      have hev := dead_move hmove hrank
      cases answer <;> simp_all [observe]
    · exact Or.inr ⟨err,rfl,(claimed_raise hlater.2 hclaim heffect (Or.inl rfl)).imp id
        (hraised err)⟩
  · intro hf
    cases hf
    rcases finalize_run_outcome heffect with ⟨done,rfl⟩ | ⟨err,rfl⟩
    · left
      have hev := dead_move hmove hrank
      cases done <;> simp_all [observe]
    · exact Or.inr ⟨err,rfl,(claimed_raise hlater.2 hclaim heffect (Or.inr rfl)).imp id
        (hraised err)⟩

theorem owned_once (key : RunKey) (calls : List (Readings × Call)) (rows : List SessionError)
    (hrows : S.rowErrors ⊆ rows ∨ Machine.along S.step S.steady S.init calls = true) :
    OwnedOnce rows key (S.history calls) where
  acquiredOnce := by
    have h := List.pairwise_map.mp (acquired_once (S.run_path key calls S.sound_init))
    refine h.imp (fun hef a b hab => hef a b ?_)
    exact ⟨observe_acquired.mpr hab.1,observe_acquired.mpr hab.2⟩
  finalizedOnce := by
    have h := List.pairwise_map.mp (finalized_once (S.run_path key calls S.sound_init))
    refine h.imp (fun hef a b hab => hef a b ?_)
    exact ⟨observe_finalized.mpr hab.1,observe_finalized.mpr hab.2⟩
  finalizedByOwner pre e post owner h hf := S.finalized_by_owner h hf
  staleForever pre e post h hst f hf r owner lease :=
    S.stale_forever hrows h hst hf r owner lease

end LawfulStore

/-- Over every history of calls, with any callers, tokens and clock readings, each
run of each session is owned once. In the durable store a call on a stale run may
raise on an unreadable row instead of answering; with no save and no status change
behind the session's creation it never does. -/
theorem run_ownership_exactly_once (pf : Platform) (limits : SessionStoreLimits)
    (calls : List (Readings × Call)) (identity : SessionIdentity) (run : String) :
    OwnedOnce [] (identity,run) (Machine.trace
      (fun s (i : Readings × Call) => InMemorySessionStore.call pf limits i.1 s i.2)
      InMemorySessionStore.init calls) ∧
    OwnedOnce SQLiteSessionStore.rowErrors (identity,run) (Machine.trace
      (fun s (i : Readings × Call) => SQLiteSessionStore.call pf limits i.1 s i.2)
      SQLiteSessionStore.init calls) ∧
    (Machine.along (sqliteStore pf limits).step (sqliteStore pf limits).steady .init calls = true →
      OwnedOnce [] (identity,run) (Machine.trace
        (fun s (i : Readings × Call) => SQLiteSessionStore.call pf limits i.1 s i.2)
        SQLiteSessionStore.init calls)) :=
  ⟨(memoryStore pf limits).owned_once (identity,run) calls [] (Or.inl (List.Subset.refl _)),
    (sqliteStore pf limits).owned_once (identity,run) calls _ (Or.inl (List.Subset.refl _)),
    fun hc => (sqliteStore pf limits).owned_once (identity,run) calls [] (Or.inr hc)⟩

def bookIdentity : SessionIdentity :=
  ⟨⟨"tenant",.refl true⟩,⟨"product",.refl true⟩,⟨"agent",.refl true⟩,⟨"session",.refl true⟩,
    ⟨"principal",.refl true⟩⟩

def bookPlatform : Platform := ⟨fun _ => none,fun _ => 0⟩

def staleCalls (wall : ℤ) : List (Readings × Call) :=
  [(⟨10,10⟩,.create bookIdentity),
    (⟨10,10⟩,.claimRun bookIdentity "run" "0123456789abcdef0123456789abcdef" 5),
    (⟨20,20⟩,.claimRun bookIdentity "run" "fedcba9876543210fedcba9876543210" 5),
    (⟨20,wall⟩,.setStatus bookIdentity .active 0),
    (⟨20,20⟩,.claimRun bookIdentity "run" "fedcba9876543210fedcba9876543210" 5)]

theorem stale_run_owned_once :
    Machine.along (sqliteStore bookPlatform {}).step (sqliteStore bookPlatform {}).steady .init
      (staleCalls 10) = true ∧
    ((sqliteStore bookPlatform {}).history (staleCalls 10)).map (fun x => x.2) =
      [.ok (.session (newRecord bookIdentity 10)),.ok (.claim .acquired),.ok (.claim .stale),
        .ok (.session { newRecord bookIdentity 10 with revision := 1 }),.ok (.claim .stale)] ∧
    OwnedOnce [] (bookIdentity,"run") ((sqliteStore bookPlatform {}).history (staleCalls 10)) := by
  have hc : Machine.along (sqliteStore bookPlatform {}).step (sqliteStore bookPlatform {}).steady
      .init (staleCalls 10) = true := by decide +kernel
  exact ⟨hc,by decide +kernel,
    (run_ownership_exactly_once bookPlatform {} (staleCalls 10) bookIdentity "run").2.2 hc⟩

/-- A status change behind the creation comes between two claims of a stale run:
the second claim raises where the first answered STALE. -/
theorem stale_claim_raises :
    ((sqliteStore bookPlatform {}).history (staleCalls 9)).map (fun x => x.2) =
      [.ok (.session (newRecord bookIdentity 10)),.ok (.claim .acquired),.ok (.claim .stale),
        .error (.valueError "updated_at must not precede created_at"),
        .error (.valueError "updated_at must not precede created_at")] := by
  decide +kernel

end SuiteHarness.Sessions
