import SuiteHarness.Persistence.Events

/-!
# Event deduplication over whole runs

`Moved` lists what one call can do to the tables and to the tokens the tasks
hold. The invariant keeps every event in at most one of the two tables and every
owner token with one row and one owner. One claim is then followed through the
rest of a run: its row stays until its owner completes or releases it, or until
a call on the scope reads a clock at or past its expiry.
-/

set_option autoImplicit false

namespace SuiteHarness.Persistence

open SuiteHarness.Library

variable {env : DedupeEnv}

def DedupeOp.scope (env : DedupeEnv) : DedupeOp → StorageKey
  | .claim owner _ => DedupeState.scopeOf env owner
  | .complete owner _ => DedupeState.scopeOf env owner
  | .release owner => DedupeState.scopeOf env owner
  | .releaseCancelled owner => DedupeState.scopeOf env owner
  | .purgeExpired deduplicator _ => (env.instances deduplicator).scope.storageKey

def DedupeOp.purgeUs (env : DedupeEnv) : DedupeOp → Option ℤ
  | .claim _ now => some (env.epochUs now)
  | .complete _ _ => none
  | .release _ => none
  | .releaseCancelled _ => none
  | .purgeExpired _ now => some (env.epochUs now)

def DedupeOp.ReadsPast (env : DedupeEnv) (scope : StorageKey) (bound : ℤ) (op : DedupeOp) : Prop :=
  op.scope env = scope ∧ ∃ nowUs, op.purgeUs env = some nowUs ∧ bound ≤ nowUs

def DedupeAnswer.Idle : DedupeAnswer → Prop
  | .duplicate => True
  | .released none => True
  | .purged _ => True
  | .raised error => error ≠ .integrityError
  | _ => False

namespace DedupeState

def claimExpiry (env : DedupeEnv) (owner : ClaimOwner) (now : ℤ) : ℤ :=
  env.epochUs (now+(env.instances owner.deduplicator).processingLease)

def completionExpiry (env : DedupeEnv) (owner : ClaimOwner) (now : ℤ) : ℤ :=
  env.epochUs (now+(env.instances owner.deduplicator).ttl)

inductive Moved (env : DedupeEnv) (s : DedupeState) :
    DedupeOp → DedupeState → DedupeAnswer → Prop where
  | unchanged (op : DedupeOp) (drawn : ℕ) (answer : DedupeAnswer) (hdrawn : s.drawn ≤ drawn)
      (hanswer : answer.Idle) : Moved env s op { s with drawn } answer
  | purged (op : DedupeOp) (drawn : ℕ) (nowUs : ℤ) (answer : DedupeAnswer)
      (hdrawn : s.drawn ≤ drawn) (hread : op.purgeUs env = some nowUs) (hanswer : answer.Idle) :
      Moved env s op ({ s with drawn }.purge (op.scope env) nowUs) answer
  | forgotten (op : DedupeOp) (owner : ClaimOwner) (answer : DedupeAnswer)
      (hanswer : answer.Idle) : Moved env s op { s with owned := s.owned.erase owner } answer
  | claimed (owner : ClaimOwner) (now : ℤ) (owned : Dict ClaimOwner (ℕ × ℤ))
      (hclaims : (s.purge (scopeOf env owner) (env.epochUs now)).claims.get?
        (keyOf env owner) = none)
      (hprocessing : (s.purge (scopeOf env owner) (env.epochUs now)).processing.get?
        (keyOf env owner) = none)
      (hroom : (s.purge (scopeOf env owner) (env.epochUs now)).rows (scopeOf env owner) <
        (env.instances owner.deduplicator).maxEntries)
      (howned : ∀ o held, owned.get? o = some held →
        o = owner ∧ held.1 = s.drawn ∨ s.owned.get? o = some held) :
      Moved env s (.claim owner now)
        { s.purge (scopeOf env owner) (env.epochUs now) with
          processing := (s.purge (scopeOf env owner) (env.epochUs now)).processing.set
            (keyOf env owner) ⟨s.drawn,env.epochUs now,claimExpiry env owner now⟩
          owned := owned
          drawn := s.drawn+1 } (.claimed s.drawn)
  | completed (owner : ClaimOwner) (now : ℤ) (ownerToken : ℕ) (until_ : ℤ) (row : ProcessingRow)
      (howned : s.owned.get? owner = some (ownerToken,until_))
      (hrow : s.processing.get? (keyOf env owner) = some row) (htoken : row.ownerToken = ownerToken)
      (hlive : env.epochUs now < row.expiresAtUs)
      (hclaims : s.claims.get? (keyOf env owner) = none) :
      Moved env s (.complete owner now)
        { s with
          processing := s.processing.erase (keyOf env owner)
          claims := s.claims.set (keyOf env owner)
            ⟨env.epochUs now,completionExpiry env owner now⟩
          owned := s.owned.erase owner } (.completed ownerToken)
  | released (owner : ClaimOwner) (ownerToken : ℕ) (until_ : ℤ)
      (howned : s.owned.get? owner = some (ownerToken,until_)) :
      Moved env s (.release owner)
        { s with
          processing := s.processing.eraseWhere (fun row => decide (row.1 = keyOf env owner) &&
            decide (row.2.ownerToken = ownerToken))
          owned := s.owned.erase owner } (.released (some ownerToken))

structure Sound (env : DedupeEnv) (s : DedupeState) : Prop where
  apart : ∀ key, s.processing.get? key = none ∨ s.claims.get? key = none
  drawnRow : ∀ key row, s.processing.get? key = some row → row.ownerToken < s.drawn
  drawnOwner : ∀ owner held, s.owned.get? owner = some held → held.1 < s.drawn
  oneRow : ∀ key key' row row', s.processing.get? key = some row →
    s.processing.get? key' = some row' → row.ownerToken = row'.ownerToken → key = key'
  oneOwner : ∀ owner owner' held held', s.owned.get? owner = some held →
    s.owned.get? owner' = some held' → held.1 = held'.1 → owner = owner'
  ownRow : ∀ owner held key row, s.owned.get? owner = some held →
    s.processing.get? key = some row → row.ownerToken = held.1 → key = keyOf env owner

theorem claim_moved (s : DedupeState) (owner : ClaimOwner) (now : ℤ) :
    Moved env s (.claim owner now) (s.claim env owner now).1 (s.claim env owner now).2 := by
  unfold claim
  split
  · exact Moved.unchanged _ s.drawn _ le_rfl (by simp [DedupeAnswer.Idle])
  · dsimp only
    split
    · exact Moved.purged (.claim owner now) (s.drawn+1) _ _ (by omega) rfl trivial
    · rename_i hfree
      split
      · exact Moved.unchanged _ (s.drawn+1) _ (by omega) (by simp [DedupeAnswer.Idle])
      · rename_i hroom
        rw [Bool.or_eq_true, not_or, Dict.contains, Dict.contains] at hfree
        simp only [Bool.not_eq_true, Option.isSome_eq_false_iff, Option.isNone_iff_eq_none]
          at hfree
        refine Moved.claimed owner now _ hfree.1 hfree.2 (not_le.mp hroom) ?_
        intro o held hget
        rw [Dict.get_set] at hget
        split at hget
        · rename_i ho
          cases hget
          exact Or.inl ⟨ho,rfl⟩
        · rw [Dict.get_erase_where, Option.filter_eq_some_iff] at hget
          exact Or.inr hget.1

variable {answer : DedupeAnswer} {key : StorageKey × String} {now : ℤ} {op : DedupeOp}
  {owner : ClaimOwner} {ownerToken : ℕ} {row : ProcessingRow} {s t : DedupeState}

theorem complete_moved (owner : ClaimOwner) (now : ℤ) (h : Sound env s) :
    Moved env s (.complete owner now) (s.complete env owner now).1 (s.complete env owner now).2 := by
  have hexpired : Moved env s (.complete owner now) s ownershipExpired :=
    Moved.unchanged _ s.drawn _ le_rfl (by simp [DedupeAnswer.Idle, ownershipExpired])
  unfold complete
  split
  · exact Moved.unchanged _ s.drawn _ le_rfl (by simp [DedupeAnswer.Idle])
  · split
    · exact hexpired
    · rename_i ownerToken until_ howned
      dsimp only
      split
      · exact hexpired
      · rename_i row hrow
        split
        · rename_i hown
          have hclaims : s.claims.get? (keyOf env owner) = none := by
            apply (h.apart (keyOf env owner)).resolve_left
            simp [show s.processing.get? (keyOf env owner) = some row from hrow]
          have habsent : ¬s.claims.contains (keyOf env owner) = true := by
            simp [Dict.contains, hclaims]
          rw [if_neg habsent]
          exact Moved.completed owner now ownerToken until_ row howned hrow hown.1 hown.2 hclaims
        · exact hexpired

theorem release_moved (s : DedupeState) (owner : ClaimOwner) :
    Moved env s (.release owner) (s.release env owner).1 (s.release env owner).2 := by
  unfold release
  split
  · exact Moved.unchanged _ s.drawn _ le_rfl (by simp [DedupeAnswer.Idle])
  · split
    · exact Moved.unchanged _ s.drawn _ le_rfl trivial
    · rename_i ownerToken until_ howned
      exact Moved.released owner ownerToken until_ howned

theorem step_moved (s : DedupeState) (op : DedupeOp) (h : Sound env s) :
    Moved env s op (s.step env op).1 (s.step env op).2 := by
  cases op with
  | claim owner now => exact claim_moved s owner now
  | complete owner now => exact complete_moved owner now h
  | release owner => exact release_moved s owner
  | releaseCancelled owner => exact Moved.forgotten _ owner _ trivial
  | purgeExpired deduplicator now =>
    exact Moved.purged (.purgeExpired deduplicator now) s.drawn _ _ le_rfl rfl trivial

theorem moved_drawn (h : Moved env s op t answer) : s.drawn ≤ t.drawn := by
  cases h with
  | unchanged _ _ _ hdrawn => exact hdrawn
  | purged _ _ _ _ hdrawn => exact hdrawn
  | forgotten | completed | released => exact le_rfl
  | claimed => exact Nat.le_succ s.drawn

/-- A processing row was there before, or is the one of a new claim. -/
theorem moved_row (h : Moved env s op t answer) (hrow : t.processing.get? key = some row) :
    s.processing.get? key = some row ∨
      ∃ owner now, op = .claim owner now ∧ key = keyOf env owner ∧
        row = ⟨s.drawn,env.epochUs now,claimExpiry env owner now⟩ ∧ t.drawn = s.drawn+1 := by
  cases h with
  | unchanged => exact Or.inl hrow
  | purged => exact Or.inl ((Dict.get_delete_expired _ _ _ _ _ _).mp hrow).1
  | forgotten => exact Or.inl hrow
  | claimed owner now =>
    rw [Dict.get_set] at hrow
    split at hrow
    · rename_i hkey
      exact Or.inr ⟨owner,now,rfl,hkey,(Option.some.inj hrow).symm,rfl⟩
    · exact Or.inl ((Dict.get_delete_expired _ _ _ _ _ _).mp hrow).1
  | completed owner =>
    rw [Dict.get_erase] at hrow
    split at hrow
    · cases hrow
    · exact Or.inl hrow
  | released owner =>
    rw [Dict.get_erase_where, Option.filter_eq_some_iff] at hrow
    exact Or.inl hrow.1

theorem erase_origin {gone : ClaimOwner} {held : ℕ × ℤ}
    (h : (s.owned.erase gone).get? owner = some held) : s.owned.get? owner = some held := by
  rw [Dict.get_erase] at h
  split at h
  · cases h
  · exact h

/-- A held token was held before, or is the one of a new claim. -/
theorem moved_owned (h : Moved env s op t answer) {held : ℕ × ℤ}
    (howned : t.owned.get? owner = some held) :
    s.owned.get? owner = some held ∨
      ∃ now, op = .claim owner now ∧ held.1 = s.drawn ∧ t.drawn = s.drawn+1 := by
  cases h with
  | unchanged => exact Or.inl howned
  | purged => exact Or.inl howned
  | forgotten _ gone | completed gone | released gone => exact Or.inl (erase_origin howned)
  | claimed by_ now owned hclaims hprocessing hroom hnew =>
    rcases hnew owner held howned with ⟨rfl,htoken⟩ | hold
    · exact Or.inr ⟨now,rfl,htoken,rfl⟩
    · exact Or.inl hold

/-- A completed row was there before, or is the one the call's owner completed. -/
theorem moved_completed (h : Moved env s op t answer) {row : CompletedRow}
    (hrow : t.claims.get? key = some row) :
    (s.claims.get? key = some row ∧ (s.processing.get? key = none → t.processing.get? key = none)) ∨
      t.processing.get? key = none := by
  cases h with
  | unchanged => exact Or.inl ⟨hrow,id⟩
  | purged =>
    exact Or.inl ⟨((Dict.get_delete_expired _ _ _ _ _ _).mp hrow).1,
      fun hnone => Dict.delete_expired_none _ _ _ _ _ hnone⟩
  | forgotten => exact Or.inl ⟨hrow,id⟩
  | claimed owner now owned hclaims =>
    refine Or.inl ⟨((Dict.get_delete_expired _ _ _ _ _ _).mp hrow).1,fun hnone => ?_⟩
    have hkey : key ≠ keyOf env owner := by
      rintro rfl
      rw [hclaims] at hrow
      cases hrow
    rw [Dict.get_set, if_neg hkey]
    exact Dict.delete_expired_none _ _ _ _ _ hnone
  | completed owner =>
    rw [Dict.get_set] at hrow
    split at hrow
    · rename_i hkey
      refine Or.inr ?_
      rw [Dict.get_erase, if_pos hkey]
    · rename_i hkey
      refine Or.inl ⟨hrow,fun hnone => ?_⟩
      rw [Dict.get_erase, if_neg hkey]
      exact hnone
  | released =>
    refine Or.inl ⟨hrow,fun hnone => ?_⟩
    rw [Dict.get_erase_where, hnone]
    rfl

theorem moved_sound (hm : Moved env s op t answer) (h : Sound env s) : Sound env t := by
  have hdrawn := moved_drawn hm
  constructor
  · intro key
    cases hrow : t.claims.get? key with
    | none => exact Or.inr rfl
    | some row =>
      left
      rcases moved_completed hm hrow with ⟨hold,hkeep⟩ | hnone
      · apply hkeep
        apply (h.apart key).resolve_right
        rw [hold]
        nofun
      · exact hnone
  · intro key row hrow
    rcases moved_row hm hrow with hold | ⟨_,_,_,_,rfl,hnext⟩
    · exact lt_of_lt_of_le (h.drawnRow key row hold) hdrawn
    · exact hnext ▸ Nat.lt_succ_self s.drawn
  · intro owner held howned
    rcases moved_owned hm howned with hold | ⟨_,_,htoken,hnext⟩
    · exact lt_of_lt_of_le (h.drawnOwner owner held hold) hdrawn
    · omega
  · intro key key' row row' hrow hrow' htoken
    rcases moved_row hm hrow with hold | ⟨owner,now,hop,hkey,rfl,_⟩ <;>
      rcases moved_row hm hrow' with hold' | ⟨owner',now',hop',hkey',rfl,_⟩
    · exact h.oneRow key key' row row' hold hold' htoken
    · exact absurd htoken (ne_of_lt (h.drawnRow key row hold))
    · exact absurd htoken (ne_of_gt (h.drawnRow key' row' hold'))
    · cases hop.symm.trans hop'
      rw [hkey, hkey']
  · intro owner owner' held held' howned howned' htoken
    rcases moved_owned hm howned with hold | ⟨now,hop,htok,_⟩ <;>
      rcases moved_owned hm howned' with hold' | ⟨now',hop',htok',_⟩
    · exact h.oneOwner owner owner' held held' hold hold' htoken
    · have hlt := h.drawnOwner owner held hold
      omega
    · have hlt := h.drawnOwner owner' held' hold'
      omega
    · cases hop.symm.trans hop'
      rfl
  · intro owner held key row howned hrow htoken
    rcases moved_owned hm howned with hold | ⟨now,hop,htok,_⟩ <;>
      rcases moved_row hm hrow with hold' | ⟨owner',now',hop',hkey',rfl,_⟩
    · exact h.ownRow owner held key row hold hold' htoken
    · have hlt := h.drawnOwner owner held hold
      exact absurd htoken (ne_of_gt hlt)
    · have hlt := h.drawnRow key row hold'
      omega
    · cases hop.symm.trans hop'
      exact hkey'

theorem sound_initial : Sound env {} := by
  constructor <;> simp

theorem step_sound (s : DedupeState) (op : DedupeOp) (h : Sound env s) :
    Sound env (s.step env op).1 :=
  moved_sound (step_moved s op h) h

theorem run_sound (ops : List DedupeOp) : Sound env (Machine.final (step env) {} ops) :=
  Machine.final_invariant (step env) (Sound env) (step_sound) {} ops sound_initial

theorem purge_removed {nowUs : ℤ} {β : Type} {rows : Dict (StorageKey × String) β}
    {expiry : β → ℤ} {row : β} (hread : op.purgeUs env = some nowUs)
    (hrow : rows.get? key = some row)
    (hgone : (rows.deleteExpired (op.scope env) expiry nowUs).get? key ≠ some row) :
    op.ReadsPast env key.1 (expiry row) := by
  rw [ne_eq, Dict.get_delete_expired, not_and_not_right] at hgone
  obtain ⟨hscope,hexpired⟩ := hgone hrow
  exact ⟨hscope.symm,nowUs,hread,hexpired⟩

/-- A processing row goes when it expired, or when its owner ends it. -/
theorem moved_removed (h : Moved env s op t answer) (hrow : s.processing.get? key = some row)
    (hgone : t.processing.get? key ≠ some row) :
    op.ReadsPast env key.1 row.expiresAtUs ∨
      (∃ owner now until_, op = .complete owner now ∧ answer = .completed row.ownerToken ∧
        key = keyOf env owner ∧ s.owned.get? owner = some (row.ownerToken,until_) ∧
        t.claims.get? key = some ⟨env.epochUs now,completionExpiry env owner now⟩) ∨
      ∃ owner until_, op = .release owner ∧ answer = .released (some row.ownerToken) ∧
        key = keyOf env owner ∧ s.owned.get? owner = some (row.ownerToken,until_) := by
  cases h with
  | unchanged => exact absurd hrow hgone
  | purged _ _ nowUs _ _ hread =>
    exact Or.inl (purge_removed hread hrow hgone)
  | forgotten => exact absurd hrow hgone
  | claimed owner now _ _ hprocessing =>
    refine Or.inl (purge_removed
      rfl hrow fun hkept => hgone ?_)
    have hkey : key ≠ keyOf env owner := by
      rintro rfl
      cases hprocessing.symm.trans hkept
    rw [Dict.get_set, if_neg hkey]
    exact hkept
  | completed owner now ownerToken until_ own howned hown htoken =>
    refine Or.inr (Or.inl ?_)
    have hkey : key = keyOf env owner := by
      by_contra hne
      rw [Dict.get_erase, if_neg hne] at hgone
      exact hgone hrow
    subst hkey
    cases hrow.symm.trans hown
    subst htoken
    exact ⟨owner,now,until_,rfl,rfl,rfl,howned,by rw [Dict.get_set, if_pos rfl]⟩
  | released owner ownerToken until_ howned =>
    refine Or.inr (Or.inr ?_)
    rw [Dict.get_erase_where, hrow, ne_eq, Option.filter_eq_some_iff] at hgone
    simp only [true_and, Bool.not_eq_true', Bool.not_eq_false, Bool.and_eq_true,
      decide_eq_true_eq] at hgone
    obtain ⟨hkey,rfl⟩ := hgone
    exact ⟨owner,until_,rfl,rfl,hkey,howned⟩

theorem moved_forgets (h : Moved env s op t answer) {row : CompletedRow}
    (hrow : s.claims.get? key = some row) (hgone : t.claims.get? key ≠ some row) :
    op.ReadsPast env key.1 row.expiresAtUs := by
  cases h with
  | unchanged | forgotten | released => exact absurd hrow hgone
  | purged _ _ nowUs _ _ hread =>
    exact purge_removed hread hrow hgone
  | claimed owner now =>
    exact purge_removed rfl hrow hgone
  | completed owner now _ _ _ _ _ _ _ hclaims =>
    have hkey : key ≠ keyOf env owner := by
      rintro rfl
      cases hclaims.symm.trans hrow
    rw [Dict.get_set, if_neg hkey] at hgone
    exact absurd hrow hgone

theorem moved_completes (h : Moved env s op t (.completed ownerToken)) :
    ∃ key row, s.processing.get? key = some row ∧ row.ownerToken = ownerToken ∧
      t.processing.get? key = none := by
  cases h with
  | unchanged _ _ _ _ hanswer | purged _ _ _ _ _ _ hanswer | forgotten _ _ _ hanswer =>
      exact hanswer.elim
  | completed owner now _ until_ row howned hrow htoken =>
    exact ⟨_,row,hrow,htoken,by rw [Dict.get_erase, if_pos rfl]⟩

def Gone (ownerToken : ℕ) (s : DedupeState) : Prop :=
  ∀ key row, s.processing.get? key = some row → row.ownerToken ≠ ownerToken

theorem moved_gone (h : Moved env s op t answer) (hdrawn : ownerToken < s.drawn)
    (hgone : Gone ownerToken s) : Gone ownerToken t ∧ answer ≠ .completed ownerToken := by
  constructor
  · intro key row hrow
    rcases moved_row h hrow with hold | ⟨_,_,_,_,rfl,_⟩
    · exact hgone key row hold
    · exact ne_of_gt hdrawn
  · rintro rfl
    obtain ⟨key,row,hrow,htoken,_⟩ := moved_completes h
    exact hgone key row hrow htoken

abbrev History := List (DedupeOp × DedupeAnswer)

def NotCompleted (ownerToken : ℕ) (history : History) : Prop :=
  ∀ e ∈ history, e.2 ≠ .completed ownerToken

def Ended (env : DedupeEnv) (owner : ClaimOwner) (now : ℤ) (ownerToken : ℕ)
    (history : History) : Prop :=
  (NotCompleted ownerToken history ∧
    ∃ e ∈ history, e = (.release owner,.released (some ownerToken)) ∨
      e.1.ReadsPast env (scopeOf env owner) (claimExpiry env owner now)) ∨
  ∃ before completedAt after,
    history = before ++ (.complete owner completedAt,.completed ownerToken)::after ∧
    NotCompleted ownerToken before ∧ NotCompleted ownerToken after ∧
    ∃ e ∈ after, e.1.ReadsPast env (scopeOf env owner) (completionExpiry env owner completedAt)

inductive Followed (env : DedupeEnv) (owner : ClaimOwner) (now : ℤ) (ownerToken : ℕ)
    (history : History) (s : DedupeState) : Prop where
  | held (row : ProcessingRow) (hrow : s.processing.get? (keyOf env owner) = some row)
      (htoken : row.ownerToken = ownerToken) (hexpiry : row.expiresAtUs = claimExpiry env owner now)
      (hnot : NotCompleted ownerToken history)
  | retained (before : History) (completedAt : ℤ) (after : History) (row : CompletedRow)
      (hgone : Gone ownerToken s)
      (hsplit : history = before ++ (.complete owner completedAt,.completed ownerToken)::after)
      (hbefore : NotCompleted ownerToken before) (hafter : NotCompleted ownerToken after)
      (hrow : s.claims.get? (keyOf env owner) = some row)
      (hexpiry : row.expiresAtUs = completionExpiry env owner completedAt)
  | ended (hgone : Gone ownerToken s) (hended : Ended env owner now ownerToken history)

theorem not_completed_append (history : History) (op : DedupeOp)
    (h : NotCompleted ownerToken history) (hanswer : answer ≠ .completed ownerToken) :
    NotCompleted ownerToken (history ++ [(op,answer)]) := by
  intro e he
  rcases List.mem_append.mp he with hold | hnew
  · exact h e hold
  · rw [List.mem_singleton.mp hnew]
    exact hanswer

theorem ended_append (history : History) (op : DedupeOp)
    (h : Ended env owner now ownerToken history) (hanswer : answer ≠ .completed ownerToken) :
    Ended env owner now ownerToken (history ++ [(op,answer)]) := by
  rcases h with ⟨hnot,e,he,hend⟩ | ⟨before,completedAt,after,rfl,hbefore,hafter,e,he,hend⟩
  · exact Or.inl ⟨not_completed_append history op hnot hanswer,
      e,List.mem_append_left _ he,hend⟩
  · exact Or.inr ⟨before,completedAt,after ++ [(op,answer)],by simp,hbefore,
      not_completed_append after op hafter hanswer,
      e,List.mem_append_left _ he,hend⟩

section Follow

variable {owner : ClaimOwner} {now : ℤ} {ownerToken : ℕ}

def OwnedBy (owner : ClaimOwner) (ownerToken : ℕ) (s : DedupeState) : Prop :=
  ownerToken < s.drawn ∧
    ∀ other held, s.owned.get? other = some held → held.1 = ownerToken → other = owner

theorem moved_owned_by (hm : Moved env s op t answer) (h : OwnedBy owner ownerToken s) :
    OwnedBy owner ownerToken t := by
  refine ⟨lt_of_lt_of_le h.1 (moved_drawn hm),fun other held howned htoken => ?_⟩
  rcases moved_owned hm howned with hold | ⟨_,_,hnew,_⟩
  · exact h.2 other held hold htoken
  · exact absurd (hnew.symm.trans htoken) (ne_of_gt h.1)

theorem held_step (s t : DedupeState) (op : DedupeOp) (answer : DedupeAnswer) (history : History)
    (hm : Moved env s op t answer) (hs : Sound env s)
    (hby : OwnedBy owner ownerToken s) (row : ProcessingRow)
    (hrow : s.processing.get? (keyOf env owner) = some row) (htoken : row.ownerToken = ownerToken)
    (hexpiry : row.expiresAtUs = claimExpiry env owner now)
    (hnot : NotCompleted ownerToken history) :
    Followed env owner now ownerToken (history ++ [(op,answer)]) t := by
  by_cases hkept : t.processing.get? (keyOf env owner) = some row
  · refine Followed.held row hkept htoken hexpiry
      (not_completed_append history op hnot ?_)
    -- a completion would have removed the row of this token
    rintro rfl
    obtain ⟨key,row',hrow',htoken',hnone⟩ := moved_completes hm
    rw [← hs.oneRow _ _ row row' hrow hrow' (htoken.trans htoken'.symm), hkept] at hnone
    cases hnone
  · have hgone : Gone ownerToken t := by
      intro key row' hrow' htoken'
      rcases moved_row hm hrow' with hold | ⟨_,_,_,_,rfl,_⟩
      · have hkey := hs.oneRow _ _ row row' hrow hold (htoken.trans htoken'.symm)
        subst hkey
        cases hrow.symm.trans hold
        exact hkept hrow'
      · exact absurd htoken' (ne_of_gt hby.1)
    rcases moved_removed hm hrow hkept with
      hpast | ⟨other,at_,until_,rfl,rfl,hkey,howned,hclaims⟩ | ⟨other,until_,rfl,rfl,hkey,howned⟩
    · refine Followed.ended hgone (Or.inl ⟨?_,(op,answer),by simp,Or.inr (hexpiry ▸ hpast)⟩)
      apply not_completed_append history op hnot
      rintro rfl
      cases hm with
      | unchanged _ _ _ _ hanswer | purged _ _ _ _ _ _ hanswer | forgotten _ _ _ hanswer =>
          exact hanswer.elim
      | completed =>
        obtain ⟨-,_,hread,-⟩ := hpast
        cases hread
    · have hother := hby.2 other _ howned htoken
      subst hother
      rw [htoken]
      exact Followed.retained history at_ [] _ hgone rfl hnot (by simp [NotCompleted]) hclaims rfl
    · have hother := hby.2 other _ howned htoken
      subst hother
      rw [htoken]
      exact Followed.ended hgone (Or.inl ⟨not_completed_append _ _ hnot nofun,
        _,by simp,Or.inl rfl⟩)

theorem followed_step (history : History) (hm : Moved env s op t answer) (hs : Sound env s)
    (hby : OwnedBy owner ownerToken s) (h : Followed env owner now ownerToken history s) :
    Followed env owner now ownerToken (history ++ [(op,answer)]) t := by
  cases h with
  | held row hrow htoken hexpiry hnot =>
    exact held_step s t op answer history hm hs hby row hrow htoken hexpiry hnot
  | retained before completedAt after row hgone hsplit hbefore hafter hrow hexpiry =>
    obtain ⟨hgone',hanswer⟩ := moved_gone hm hby.1 hgone
    have hafter' := not_completed_append after op hafter hanswer
    have hsplit' : history ++ [(op,answer)] =
        before ++ (.complete owner completedAt,.completed ownerToken)::(after ++ [(op,answer)]) := by
      rw [hsplit]
      simp
    by_cases hkept : t.claims.get? (keyOf env owner) = some row
    · exact Followed.retained before completedAt _ row hgone' hsplit' hbefore hafter' hkept hexpiry
    · have hpast := moved_forgets hm hrow hkept
      exact Followed.ended hgone' (Or.inr ⟨before,completedAt,_,hsplit',hbefore,hafter',
        (op,answer),by simp,hexpiry ▸ hpast⟩)
  | ended hgone hended =>
    obtain ⟨hgone',hanswer⟩ := moved_gone hm hby.1 hgone
    exact Followed.ended hgone' (ended_append history op hended hanswer)

end Follow

theorem moved_rows (h : Moved env s op t answer) (scope : StorageKey) :
    t.rows scope ≤ s.rows scope ∨
      ∃ owner now, op = .claim owner now ∧ scopeOf env owner = scope ∧
        t.rows scope ≤ (env.instances owner.deduplicator).maxEntries := by
  have hpurge : ∀ part nowUs, (s.purge part nowUs).rows scope ≤ s.rows scope := fun part nowUs =>
    Nat.add_le_add (Dict.count_delete_expired part scope _ nowUs s.claims)
      (Dict.count_delete_expired part scope _ nowUs s.processing)
  cases h with
  | unchanged => exact Or.inl le_rfl
  | purged _ _ nowUs => exact Or.inl (hpurge _ nowUs)
  | forgotten => exact Or.inl le_rfl
  | claimed owner now owned hclaims hprocessing hroom =>
    have hcount := Dict.count_set_absent scope _ _
      (⟨s.drawn,env.epochUs now,claimExpiry env owner now⟩ : ProcessingRow) hprocessing
    by_cases hscope : scopeOf env owner = scope
    · refine Or.inr ⟨owner,now,rfl,hscope,?_⟩
      subst hscope
      rw [show (keyOf env owner).1 = scopeOf env owner from rfl, if_pos rfl] at hcount
      unfold rows at hroom ⊢
      dsimp only at hcount ⊢
      omega
    · left
      rw [show (keyOf env owner).1 = scopeOf env owner from rfl, if_neg hscope] at hcount
      have hle := hpurge (scopeOf env owner) (env.epochUs now)
      unfold rows at hle ⊢
      dsimp only at hcount ⊢
      omega
  | completed owner now ownerToken until_ row howned hrow htoken hlive hclaims =>
    left
    have hset := Dict.count_set_absent scope _ _
      (⟨env.epochUs now,completionExpiry env owner now⟩ : CompletedRow) hclaims
    have herase := Dict.count_erase scope _ _ _ hrow
    unfold rows
    dsimp only
    omega
  | released owner ownerToken =>
    exact Or.inl (Nat.add_le_add_left (List.filter_sublist.countP_le) _)

theorem run_rows {scope : StorageKey} {limit : ℕ}
    (hlimit : ∀ i, (env.instances i).scope.storageKey = scope → (env.instances i).maxEntries ≤ limit)
    (ops : List DedupeOp) : (Machine.final (step env) {} ops).rows scope ≤ limit := by
  have hrun := Machine.final_invariant (step env)
    (fun s => Sound env s ∧ s.rows scope ≤ limit) (fun s op h => by
      refine ⟨step_sound s op h.1,?_⟩
      rcases moved_rows (step_moved s op h.1) scope with hle | ⟨owner,now,_,hscope,hle⟩
      · exact hle.trans h.2
      · exact hle.trans (hlimit owner.deduplicator hscope)) {} ops
    ⟨sound_initial,Nat.zero_le limit⟩
  exact hrun.2

theorem moved_claims (h : Moved env s (.claim owner now) t (.claimed ownerToken)) :
    ownerToken = s.drawn ∧ t.drawn = s.drawn+1 ∧ t.claims.get? (keyOf env owner) = none ∧
      t.processing.get? (keyOf env owner) =
        some ⟨s.drawn,env.epochUs now,claimExpiry env owner now⟩ := by
  cases h with
  | unchanged _ _ _ _ hanswer | purged _ _ _ _ _ _ hanswer | forgotten _ _ _ hanswer =>
      exact hanswer.elim
  | claimed _ _ _ hclaims => exact ⟨rfl,rfl,hclaims,by rw [Dict.get_set, if_pos rfl]⟩

theorem claimed_owned_by (h : Moved env s (.claim owner now) t (.claimed ownerToken))
    (hs : Sound env s) : OwnedBy owner ownerToken t := by
  obtain ⟨rfl,hdrawn,-,-⟩ := moved_claims h
  refine ⟨by omega,fun other held howned htoken => ?_⟩
  rcases moved_owned h howned with hold | ⟨_,hop,_⟩
  · exact absurd htoken (ne_of_lt (hs.drawnOwner other held hold))
  · cases hop
    rfl

/-- The run after a claim keeps its token with its owner and follows its row. -/
theorem run_followed (hs : Sound env s)
    (hanswer : (s.step env (.claim owner now)).2 = .claimed ownerToken) (ops : List DedupeOp) :
    let t := (s.step env (.claim owner now)).1
    OwnedBy owner ownerToken (Machine.final (step env) t ops) ∧
      Followed env owner now ownerToken (Machine.trace (step env) t ops)
        (Machine.final (step env) t ops) := by
  intro t
  have hm : Moved env s (.claim owner now) t (.claimed ownerToken) :=
    hanswer ▸ step_moved s (.claim owner now) hs
  obtain ⟨rfl,-,-,hrow⟩ := moved_claims hm
  have hrun := Machine.history_invariant_along (step env) (fun _ _ => true)
    (fun history s' => Sound env s' ∧ OwnedBy owner s.drawn s' ∧
      Followed env owner now s.drawn history s')
    (fun history s' op _ h => by
      have hm' := step_moved s' op h.1
      exact ⟨step_sound s' op h.1,moved_owned_by hm' h.2.1,
        followed_step history hm' h.1 h.2.1 h.2.2⟩)
    t ops (Machine.along_true _ _ _)
    ⟨moved_sound hm hs,claimed_owned_by hm hs,
      Followed.held _ hrow rfl rfl (by simp [NotCompleted])⟩
  exact hrun.2

/-- A claimed entry of a run, taken apart into the run before it and after it. -/
theorem claimed_split {ops : List DedupeOp} {before after : History}
    (h : Machine.trace (step env) {} ops =
      before ++ (.claim owner now,.claimed ownerToken)::after) :
    ∃ s ks, Sound env s ∧ (s.step env (.claim owner now)).2 = .claimed ownerToken ∧
      after = Machine.trace (step env) (s.step env (.claim owner now)).1 ks ∧
      Machine.final (step env) {} ops =
        Machine.final (step env) (s.step env (.claim owner now)).1 ks := by
  obtain ⟨js,ks,rfl,-,hanswer,hafter⟩ := Machine.trace_split _ _ _ _ _ _ h
  exact ⟨Machine.final (step env) {} js,ks,run_sound js,hanswer.symm,hafter,
    Machine.final_append _ _ _ _⟩

/-- Between two accepted claims of one event the first one came to an end. -/
theorem claimed_twice {ops : List DedupeOp} {other : ClaimOwner} {now' : ℤ} {otherToken : ℕ}
    {before mid after : History}
    (h : Machine.trace (step env) {} ops = before ++ (.claim owner now,.claimed ownerToken)::
      (mid ++ (.claim other now',.claimed otherToken)::after))
    (hkey : keyOf env other = keyOf env owner) :
    ownerToken < otherToken ∧
      Ended env owner now ownerToken (mid ++ [(.claim other now',.claimed otherToken)]) := by
  obtain ⟨s,ks,hs,hanswer,hafter,-⟩ := claimed_split h
  obtain ⟨js,ks',rfl,rfl,hanswer',-⟩ := Machine.trace_split _ _ _ _ _ _ hafter.symm
  dsimp only at hanswer'
  set t := (s.step env (.claim owner now)).1
  set u := Machine.final (step env) t js
  have hsound : Sound env u :=
    Machine.final_invariant _ (Sound env) step_sound t js (step_sound s _ hs)
  have hm : Moved env u (.claim other now') (u.step env (.claim other now')).1
      (.claimed otherToken) := hanswer' ▸ step_moved u _ hsound
  obtain ⟨rfl,-,hclaims,hprocessing⟩ := moved_claims hm
  have hlt : ownerToken < u.drawn := (run_followed hs hanswer js).1.1
  have hfollow := (run_followed hs hanswer (js ++ [.claim other now'])).2
  rw [Machine.final_append, Machine.trace_append] at hfollow
  simp only [Machine.trace, Machine.final] at hfollow
  rw [← hanswer'] at hfollow
  refine ⟨hlt,?_⟩
  cases hfollow with
  | held row hrow htoken =>
    rw [← hkey] at hrow
    cases hprocessing.symm.trans hrow
    exact absurd htoken (ne_of_gt hlt)
  | retained _ _ _ row _ _ _ _ hrow =>
    rw [← hkey] at hrow
    cases hclaims.symm.trans hrow
  | ended _ hended => exact hended

theorem moved_conflict_free (s t : DedupeState) (op : DedupeOp)
    (h : Moved env s op t (.raised .integrityError)) : False := by
  cases h with
  | unchanged _ _ _ _ hidle | purged _ _ _ _ _ _ hidle | forgotten _ _ _ hidle => exact hidle rfl

def EndsClaimOf (owner : ClaimOwner) (op : DedupeOp) : Prop :=
  (∃ now, op = .complete owner now) ∨ op = .release owner ∨ op = .releaseCancelled owner

theorem ends_not_past (h : EndsClaimOf owner op) (scope : StorageKey) (bound : ℤ) :
    ¬op.ReadsPast env scope bound := by
  rintro ⟨-,_,hread,-⟩
  rcases h with ⟨now,rfl⟩ | rfl | rfl <;> exact nomatch hread

theorem ends_own_row (s : DedupeState) (op : DedupeOp) (owner : ClaimOwner) (hs : Sound env s)
    (hop : EndsClaimOf owner op) (key : StorageKey × String) (row : ProcessingRow)
    (hrow : s.processing.get? key = some row)
    (hother : ∀ held, s.owned.get? owner = some held → held.1 ≠ row.ownerToken) :
    (s.step env op).1.processing.get? key = some row := by
  by_contra hgone
  rcases moved_removed (step_moved s op hs) hrow hgone with
    hpast | ⟨by_,now,until_,rfl,-,-,howned,-⟩ | ⟨by_,until_,rfl,-,-,howned⟩
  · exact ends_not_past hop _ _ hpast
  · have hby : by_ = owner := by
      rcases hop with ⟨_,hop⟩ | hop | hop <;> cases hop
      rfl
    exact hother _ (hby ▸ howned) rfl
  · have hby : by_ = owner := by
      rcases hop with ⟨_,hop⟩ | hop | hop <;> cases hop
      rfl
    exact hother _ (hby ▸ howned) rfl

theorem ends_keeps_completed (hs : Sound env s) (hop : EndsClaimOf owner op) {row : CompletedRow}
    (hrow : s.claims.get? key = some row) : (s.step env op).1.claims.get? key = some row := by
  by_contra hgone
  exact ends_not_past hop _ _
    (moved_forgets (step_moved s op hs) hrow hgone)

theorem others_remove_expired (hs : Sound env s) (hop : ∀ owner, ¬EndsClaimOf owner op)
    (hrow : s.processing.get? key = some row)
    (hgone : (s.step env op).1.processing.get? key ≠ some row) :
    op.ReadsPast env key.1 row.expiresAtUs := by
  rcases moved_removed (step_moved s op hs) hrow hgone with
    hpast | ⟨by_,now,until_,rfl,_⟩ | ⟨by_,until_,rfl,_⟩
  · exact hpast
  · exact absurd (Or.inl ⟨now,rfl⟩) (hop by_)
  · exact absurd (Or.inr (Or.inl rfl)) (hop by_)

/-- In every run: no event is in both tables and no insert conflicts; ending a
claim changes no row of another generation; two accepted claims of an event are
separated by the end of the first; and the rows of a scope stay within the
limit, with only expired rows purged. -/
theorem events_deduplicated (env : DedupeEnv) (ops : List DedupeOp) :
    let s := Machine.final (step env) {} ops
    let history := Machine.trace (step env) {} ops
    (∀ key, s.processing.get? key = none ∨ s.claims.get? key = none) ∧
    (∀ e ∈ history, e.2 ≠ .raised .integrityError) ∧
    (∀ owner newer now ownerToken op key row,
      (DedupeOp.claim newer now,DedupeAnswer.claimed ownerToken) ∈ history →
      s.processing.get? key = some row → row.ownerToken = ownerToken →
      (owner ≠ newer ∨ ∀ held, s.owned.get? owner = some held → held.1 ≠ ownerToken) →
      EndsClaimOf owner op → (s.step env op).1.processing.get? key = some row) ∧
    (∀ owner op key row, EndsClaimOf owner op → s.claims.get? key = some row →
      (s.step env op).1.claims.get? key = some row) ∧
    (∀ owner other now now' ownerToken otherToken before mid after,
      history = before ++ (.claim owner now,.claimed ownerToken)::
        (mid ++ (.claim other now',.claimed otherToken)::after) →
      keyOf env other = keyOf env owner →
      ownerToken < otherToken ∧
        Ended env owner now ownerToken (mid ++ [(.claim other now',.claimed otherToken)])) ∧
    (∀ scope limit,
      (∀ i, (env.instances i).scope.storageKey = scope → (env.instances i).maxEntries ≤ limit) →
      s.rows scope ≤ limit) ∧
    (∀ op key row, (∀ owner, ¬EndsClaimOf owner op) → s.processing.get? key = some row →
      (s.step env op).1.processing.get? key ≠ some row →
      op.ReadsPast env key.1 row.expiresAtUs) ∧
    ∀ op key row, s.claims.get? key = some row → (s.step env op).1.claims.get? key ≠ some row →
      op.ReadsPast env key.1 row.expiresAtUs := by
  intro s history
  have hs : Sound env s := run_sound ops
  refine ⟨hs.apart,?_,?_,?_,?_,?_,?_,?_⟩
  · exact Machine.trace_forall (step env) (Sound env) (fun _ a => a ≠ .raised .integrityError)
      step_sound (fun s' op h hanswer => moved_conflict_free s' _ op (hanswer ▸ step_moved s' op h))
      {} ops sound_initial
  · intro owner newer now ownerToken op key row hmem hrow htoken hother hop
    refine ends_own_row s op owner hs hop key row hrow fun held howned => ?_
    rw [htoken]
    rcases hother with hne | hother
    · intro heq
      obtain ⟨before,after,hsplit⟩ := List.append_of_mem hmem
      obtain ⟨s',ks,hs',hanswer,-,hfinal⟩ := claimed_split hsplit
      have hby := (run_followed hs' hanswer ks).1
      rw [← hfinal] at hby
      exact hne (hby.2 owner held howned heq)
    · exact hother held howned
  · intro owner op key row hop hrow
    exact ends_keeps_completed hs hop hrow
  · intro owner other now now' ownerToken otherToken before mid after hsplit hkey
    exact claimed_twice hsplit hkey
  · intro scope limit hlimit
    exact run_rows hlimit ops
  · intro op key row hop hrow hgone
    exact others_remove_expired hs hop hrow hgone
  · intro op key row hrow hgone
    exact moved_forgets (step_moved s op hs) hrow hgone

end DedupeState
end SuiteHarness.Persistence
