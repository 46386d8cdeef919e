import SuiteHarness.Memory.CuratedSharing

/-!
# The life of a sharing candidate

A candidate is pending until it is decided, goes stale or is withdrawn, and what
was accepted or went stale may still be withdrawn. A pending candidate is always
one that the producer's policy would let a curator accept. The revision of an
entity counts its decisions and the withdrawals that retract something of it.
-/

set_option autoImplicit false

namespace SuiteHarness.Memory
open SuiteHarness.Library SuiteHarness.Library.Results SuiteHarness.Execution

def CandidateStatus.moves : CandidateStatus → CandidateStatus → Bool
  | .pending,next => decide (next ≠ .pending)
  | .accepted,next => decide (next = .withdrawn)
  | .stale,next => decide (next = .withdrawn)
  | _,_ => false

theorem CandidateStatus.moves_trans {a b c : CandidateStatus} (hab : a.moves b = true)
    (hbc : b.moves c = true) : a.moves c = true := by
  cases a <;> cases b <;> cases c <;> simp_all [moves]

namespace Customer360

variable (withdrawExisting : Bool) {ids : IdFactory} {s t u : Customer360} {op : Customer360Op}
  {scope : RequestScope} {key : IdempotencyKey} {command : Command} {result : MemoryResult}
  {policy : SharingPolicy} {c d e : ShareCandidate} {reason id : String} {now : ℤ} {entity : String × String}

inductive Restated (c : ShareCandidate) : ShareCandidate → Prop
  | same : Restated c c
  | moved (status : CandidateStatus) (now : ℤ) (h : c.status.moves status = true) :
      Restated c (restate status now c)

theorem restated_trans (h : Restated c d) (h' : Restated d e) : Restated c e := by
  cases h with
  | same => exact h'
  | moved status now hmoves =>
    cases h' with
    | same => exact .moved status now hmoves
    | moved last later hlast => exact .moved last later (CandidateStatus.moves_trans hmoves hlast)

theorem restated_entity (h : Restated c d) :
    (d.tenantId,d.entityId) = (c.tenantId,c.entityId) := by
  cases h <;> rfl

theorem restated_status (h : Restated c d) :
    d.status = c.status ∨ c.status.moves d.status = true := by
  cases h with
  | same => exact .inl rfl
  | moved _ _ hmoves => exact .inr hmoves

structure Moved (s t : Customer360) : Prop where
  old : ∀ k c, s.candidates.get? k = some c → ∃ d, t.candidates.get? k = some d ∧ Restated c d
  new : ∀ k d, t.candidates.get? k = some d → s.candidates.get? k = none → d.status = .pending

theorem moved_map {f : ShareCandidate → ShareCandidate}
    (hget : ∀ k, t.candidates.get? k = (s.candidates.get? k).map f) (hf : ∀ c, Restated c (f c)) :
    Moved s t := by
  refine ⟨fun k c hc => ⟨f c,by rw [hget, hc, Option.map_some],hf c⟩,fun k d hd hnone => ?_⟩
  rw [hget, hnone] at hd
  cases hd

theorem moved_same (h : t.candidates = s.candidates) : Moved s t :=
  moved_map (f := id) (fun k => by rw [h, Option.map_id, id]) fun _ => .same

theorem moved_set (hget : t.candidates = s.candidates.set id d)
    (hold : ∀ c, s.candidates.get? id = some c → Restated c d)
    (hnew : s.candidates.get? id = none → d.status = .pending) : Moved s t := by
  constructor
  · intro k c hc
    rw [hget, Dict.get_set]
    split_ifs with hk
    · exact ⟨d,rfl,hold c (hk ▸ hc)⟩
    · exact ⟨c,hc,.same⟩
  · intro k e he hnone
    rw [hget, Dict.get_set] at he
    split_ifs at he with hk
    · cases he
      exact hnew (hk ▸ hnone)
    · cases hnone.symm.trans he

theorem invalidated (policy : SharingPolicy) (now : ℤ) (c : ShareCandidate) :
    Restated c (if invalid policy c then restate .stale now c else c) := by
  split_ifs with h
  · simp only [invalid, Bool.and_eq_true, decide_eq_true_eq] at h
    exact .moved _ _ (by rw [h.1.2.2]; rfl)
  · exact .same

theorem withdrew (chosen : ShareCandidate → Bool) (now : ℤ) (c : ShareCandidate) :
    Restated c (if hits chosen c then restate .withdrawn now c else c) := by
  split_ifs with h
  · simp only [hits, Bool.and_eq_true, decide_eq_true_eq] at h
    refine .moved _ _ ?_
    cases hstatus : c.status <;> simp_all [CandidateStatus.moves]
  · exact .same

theorem stale_pending (h : (if invalid policy c then restate .stale now c else c).status = .pending) :
    (if invalid policy c then restate .stale now c else c) = c ∧ invalid policy c = false := by
  split_ifs at h ⊢ with hinvalid
  · cases h
  · exact ⟨rfl,Bool.eq_false_iff.mpr hinvalid⟩

theorem withdrew_pending {chosen : ShareCandidate → Bool}
    (h : (if hits chosen c then restate .withdrawn now c else c).status = .pending) :
    (if hits chosen c then restate .withdrawn now c else c) = c := by
  split_ifs at h ⊢
  · cases h
  · rfl

/-- A policy change restates candidates, and leaves pending what it permits. -/
theorem policy_candidates (s : Customer360) (policy : SharingPolicy) (withdrawExisting : Bool)
    (now : ℤ) : ∃ f, (∀ k, (s.applyPolicy policy withdrawExisting now).candidates.get? k =
      (s.candidates.get? k).map f) ∧ ∀ c, Restated c (f c) ∧
        ((f c).status = .pending → f c = c ∧ invalid policy c = false) := by
  cases withdrawExisting with
  | false =>
    exact ⟨_,invalidate_candidates _ policy now,fun c => ⟨invalidated policy now c,stale_pending⟩⟩
  | true =>
    refine ⟨_,fun k => (withdraw_candidates _ _ _ _ now k).trans
      (by rw [invalidate_candidates, Option.map_map]),fun c => ⟨?_,fun h => ?_⟩⟩
    · exact restated_trans (invalidated policy now c) (withdrew _ now _)
    · have hkept := withdrew_pending h
      rw [Function.comp_apply, hkept] at h ⊢
      exact stale_pending h

theorem written_moved (hs : Sound ids s) (h : Written ids s op command u result) : Moved s u := by
  cases h with
  | bound => exact moved_same rfl
  | policy =>
    obtain ⟨f,hget,hf⟩ := policy_candidates s _ command.withdraws _
    exact moved_map hget fun c => (hf c).1
  | known => exact moved_same rfl
  | proposed =>
    refine moved_set rfl (fun c hc => ?_) fun _ => rfl
    exact absurd rfl (drawn_old (hs.drawnCandidates _ c hc))
  | withdrawn scope source reason key profile now =>
    exact moved_map (withdraw_candidates s _ _ _ now) (withdrew _ now)
  | decided scope candidateId action reason expected key now _ c _ hc _ hpending =>
    have hset : (s.recordDecision ids scope (strip candidateId) c action (strip reason)
        (s.revisionOf (c.tenantId,c.entityId)) now).1.candidates = s.candidates.set
        (strip candidateId) (restate (if action = .accept then .accepted else .rejected) now c) := by
      cases action <;> rfl
    refine moved_set hset (fun c' hc' => ?_) fun hnone => ?_
    · cases hc.symm.trans hc'
      exact .moved _ _ (by rw [hpending]; cases action <;> rfl)
    · cases hnone.symm.trans hc

/-! The policy permits what is pending. -/

def Allowed (s : Customer360) : Prop :=
  ∀ k c, s.candidates.get? k = some c → c.status = .pending →
    candidateAllowed (s.policy c.tenantId c.sourceProductId) c = true

theorem allowed_kept (h : Allowed s) (hpolicies : t.policies = s.policies)
    (hold : ∀ k c, t.candidates.get? k = some c → c.status = .pending →
      s.candidates.get? k = some c) : Allowed t := by
  intro k c hc hpending
  rw [Customer360.policy, hpolicies]
  exact h k c (hold k c hc hpending) hpending

theorem apply_policy_policies :
    (s.applyPolicy policy withdrawExisting now).policies =
      s.policies.set (policy.tenantId,policy.productId) policy := by
  cases withdrawExisting <;> rfl

theorem policy_allowed (h : Allowed s) : Allowed (s.applyPolicy policy withdrawExisting now) := by
  intro k c hc hpending
  obtain ⟨f,hget,hf⟩ := policy_candidates s policy withdrawExisting now
  rw [hget, Option.map_eq_some_iff] at hc
  obtain ⟨old,hold,rfl⟩ := hc
  obtain ⟨hsame,hvalid⟩ := (hf old).2 hpending
  rw [hsame] at hpending ⊢
  rw [Customer360.policy, apply_policy_policies, Dict.get_set]
  split_ifs with howner
  · rw [Prod.mk.injEq] at howner
    simpa [invalid, howner, hpending] using hvalid
  · exact h k old hold hpending

theorem written_allowed (h : Allowed s) (hw : Written ids s op command u result) : Allowed u := by
  cases hw with
  | bound => exact allowed_kept h rfl fun _ _ hc _ => hc
  | policy => exact policy_allowed _ h
  | known => exact h
  | proposed scope source key claim now _ bound _ _ haudience =>
    intro k c hc hpending
    rw [Dict.get_set] at hc
    split_ifs at hc
    · cases hc
      exact decide_eq_true ⟨haudience,subset_rfl⟩
    · exact h k c hc hpending
  | withdrawn scope source reason key profile now =>
    refine allowed_kept h rfl fun k c hc hpending => ?_
    rw [withdraw_candidates, Option.map_eq_some_iff] at hc
    obtain ⟨old,hold,rfl⟩ := hc
    split_ifs at hpending ⊢
    · cases hpending
    · exact hold
  | decided scope candidateId action reason expected key now _ c =>
    have hcandidates : ∀ k, (s.recordDecision ids scope (strip candidateId) c action (strip reason)
        (s.revisionOf (c.tenantId,c.entityId)) now).1.candidates.get? k = if k = strip candidateId
        then some (restate (if action = .accept then .accepted else .rejected) now c)
        else s.candidates.get? k := by
      cases action <;> exact fun k => Dict.get_set _ _ _ _
    refine allowed_kept h (by cases action <;> rfl) fun k d hd hpending => ?_
    rw [hcandidates] at hd
    by_cases hk : k = strip candidateId
    · rw [if_pos hk] at hd
      cases hd
      cases action <;> cases hpending
    · rwa [if_neg hk] at hd

/-! Revisions count decisions and retractions. -/

def concerns (s : Customer360) (entity : String × String) (decision : CurationDecision) : Bool :=
  (s.candidates.get? decision.candidateId).any (fun c => decide ((c.tenantId,c.entityId) = entity))

def decisionsOn (s : Customer360) (entity : String × String) : List CurationDecision :=
  s.decisions.filter (s.concerns entity)

def Retracts (s t : Customer360) (entity : String × String) : Prop :=
  ∃ id claim next, s.sharedClaims.get? id = some claim ∧ t.sharedClaims.get? id = some next ∧
    claim.status = .selected ∧ next.status = .retracted ∧
    (claim.space.tenantId,claim.entityId) = entity

structure Counted (s t : Customer360) (new : Option CurationDecision) : Prop where
  decisions : t.decisions = s.decisions ++ new.toList
  retracted : ∀ entity, Retracts s t entity →
    new = none ∧ t.revisionOf entity = s.revisionOf entity+1
  kept : ∀ entity, ¬Retracts s t entity →
    t.revisionOf entity = s.revisionOf entity+(new.toList.filter (t.concerns entity)).length
  numbered : ∀ d ∈ new, ∃ c, t.candidates.get? d.candidateId = some c ∧
    d.newRevision = s.revisionOf (c.tenantId,c.entityId)+1

theorem not_retracts (h : ∀ id claim, s.sharedClaims.get? id = some claim →
    t.sharedClaims.get? id = some claim) : ¬Retracts s t entity := by
  rintro ⟨id,claim,next,hclaim,hnext,hselected,hretracted,-⟩
  cases (h id claim hclaim).symm.trans hnext
  cases hselected.symm.trans hretracted

theorem counted_quiet (hdecisions : t.decisions = s.decisions)
    (hclaims : t.sharedClaims = s.sharedClaims) (hrevisions : t.entityRevisions = s.entityRevisions) :
    Counted s t none where
  decisions := hdecisions.trans (List.append_nil _).symm
  retracted entity h := absurd h (not_retracts fun _ _ hclaim => hclaims ▸ hclaim)
  kept entity _ := by rw [revisionOf, hrevisions]; rfl
  numbered := nofun

theorem bump_loop (tenantId : String) (l : List String) (hn : l.Nodup)
    (acc : Dict (String × String) ℕ × List EntityRevision) :
    ((l.foldl (fun acc entityId =>
      let revision := (acc.1.get? (tenantId,entityId)).getD 0+1
      (acc.1.set (tenantId,entityId) revision,acc.2 ++ [⟨entityId,revision⟩])) acc).1.get?
        entity).getD 0 = (acc.1.get? entity).getD 0 +
          if entity.1 = tenantId ∧ entity.2 ∈ l then 1 else 0 := by
  induction l generalizing acc with
  | nil => simp
  | cons x xs ih =>
    obtain ⟨hx,hxs⟩ := List.nodup_cons.mp hn
    rw [List.foldl_cons, ih hxs, Dict.get_set]
    by_cases hentity : entity = (tenantId,x)
    · subst hentity
      simp [hx]
    · have hne : ¬(entity.1 = tenantId ∧ entity.2 = x) := fun h => hentity (Prod.ext h.1 h.2)
      rw [if_neg hentity]
      simp only [List.mem_cons, and_or_left, hne, false_or]

theorem bump_revision (revisions : Dict (String × String) ℕ) (tenantId : String)
    (entityIds : Finset String) (entity : String × String) :
    ((bumpEntities revisions tenantId entityIds).1.get? entity).getD 0 =
      (revisions.get? entity).getD 0 + if entity.1 = tenantId ∧ entity.2 ∈ entityIds then 1 else 0 := by
  rw [bumpEntities, bump_loop tenantId _ (Finset.sort_nodup _ _)]
  simp only [Finset.mem_sort]

section Withdrawing

variable {byCandidate : Dict String String} {chosen : ShareCandidate → Bool} {tenantId : String}

section
variable (hapart : ∀ k l id, byCandidate.get? k = some id → byCandidate.get? l = some id → k = l)
include hapart

/-- The rounds of other candidates leave a candidate's claim as it is. -/
theorem target_later (w : Withdrawal) (x : String × ShareCandidate) {k : String} (hk : k ≠ x.1) :
    target byCandidate (withdrawOne byCandidate chosen reason now w x) k = target byCandidate w k := by
  unfold target
  cases hid : byCandidate.get? k with
  | none => rfl
  | some id =>
    have hreaches : reaches byCandidate chosen id x = false := by
      rw [reaches, decide_eq_false fun h => hk (hapart _ _ id hid h), Bool.and_false]
    rw [Option.bind_some, Option.bind_some, withdraw_one_claims, hreaches, fade_if_none]

theorem withdraw_touched (es : List (String × ShareCandidate))
    (hn : (es.map Prod.fst).Nodup) (w : Withdrawal) (entityId : String) :
    entityId ∈ (es.foldl (withdrawOne byCandidate chosen reason now) w).touched ↔
      entityId ∈ w.touched ∨ ∃ x ∈ es, hits chosen x.2 = true ∧ x.2.entityId = entityId ∧
        (target byCandidate w x.1).isSome = true := by
  induction es generalizing w with
  | nil => simp
  | cons x es ih =>
    obtain ⟨hx,hes⟩ := List.nodup_cons.mp hn
    have hfirst : entityId ∈ (withdrawOne byCandidate chosen reason now w x).touched ↔
        entityId ∈ w.touched ∨ (hits chosen x.2 = true ∧ x.2.entityId = entityId ∧
          (target byCandidate w x.1).isSome = true) := by
      rw [withdraw_one_eq]
      cases hits chosen x.2 <;> cases target byCandidate w x.1 <;> simp [or_comm, eq_comm]
    have hrest : (∃ y ∈ es, hits chosen y.2 = true ∧ y.2.entityId = entityId ∧
        (target byCandidate (withdrawOne byCandidate chosen reason now w x) y.1).isSome = true) ↔
        ∃ y ∈ es, hits chosen y.2 = true ∧ y.2.entityId = entityId ∧
          (target byCandidate w y.1).isSome = true := by
      refine exists_congr fun y => and_congr_right fun hy => ?_
      rw [target_later hapart w x fun heq => hx (heq ▸ List.mem_map_of_mem hy)]
    rw [List.foldl_cons, ih hes, hfirst, hrest, or_assoc, List.exists_mem_cons_iff]

end

/-- A withdrawal retracts claims of the entities it touches. -/
theorem withdraw_retracts (hs : Sound ids s) (hchosen : ∀ c, chosen c = true → c.tenantId = tenantId) :
    Retracts s (s.withdraw tenantId chosen reason now).1 entity ↔ entity.1 = tenantId ∧
      entity.2 ∈ (s.withdraw tenantId chosen reason now).2.1.touched := by
  have hnodup : (s.candidates.entries.map Prod.fst).Nodup := s.candidates.nodup
  rw [show (s.withdraw tenantId chosen reason now).2.1.touched = (s.candidates.entries.foldl
    (withdrawOne s.sharedByCandidate chosen reason now)
    { candidates := s.candidates, sharedClaims := s.sharedClaims }).touched from rfl,
    withdraw_touched hs.apart _ hnodup]
  have htenant : ∀ c, hits chosen c = true → c.tenantId = tenantId :=
    fun c h => hchosen c (Bool.and_eq_true_iff.mp h).1
  constructor
  · rintro ⟨id,claim,next,hclaim,hnext,hselected,hretracted,rfl⟩
    obtain ⟨c,hb⟩ := hs.backed id claim hclaim
    rw [withdraw_claims, hclaim, Option.map_some, reached_iff hs hb] at hnext
    cases hhits : hits chosen c with
    | false =>
      rw [hhits, fade_if_false] at hnext
      cases hnext
      cases hselected.symm.trans hretracted
    | true =>
      refine ⟨by rw [hb.stems.space]; exact htenant c hhits,.inr ⟨(c.candidateId,c),?_,hhits,
        hb.stems.entity.symm,?_⟩⟩
      · exact (Dict.get_mem _ _ _).mp hb.stored
      · rw [(target_some _ (c.candidateId,c)).mpr ⟨hb.linked,hclaim,hselected⟩]
        rfl
  · rintro ⟨hentity,hnone | ⟨⟨k,c⟩,hmem,hhits,hid,htarget⟩⟩
    · simp at hnone
    obtain ⟨⟨id,claim⟩,htarget⟩ := Option.isSome_iff_exists.mp htarget
    obtain ⟨hlink,hclaim,hselected⟩ := (target_some _ (k,c)).mp htarget
    obtain ⟨c',hb⟩ := hs.backed id claim hclaim
    have hstored := (Dict.get_mem _ _ _).mpr hmem
    rw [hs.apart k c'.candidateId id hlink hb.linked, hb.stored] at hstored
    cases hstored
    refine ⟨id,claim,_,hclaim,by rw [withdraw_claims, hclaim, Option.map_some, reached_iff hs hb],
      hselected,?_,?_⟩
    · rw [hhits, fadeIf, if_pos ⟨rfl,hselected⟩]
      rfl
    · rw [hb.stems.space, hb.stems.entity]
      exact Prod.ext ((htenant c hhits).trans hentity.symm) hid

theorem withdraw_counted (hs : Sound ids s)
    (hchosen : ∀ c, chosen c = true → c.tenantId = tenantId) :
    Counted s (s.withdraw tenantId chosen reason now).1 none where
  decisions := (List.append_nil _).symm
  retracted entity h := by
    have hrevision := bump_revision s.entityRevisions tenantId
      (s.withdraw tenantId chosen reason now).2.1.touched entity
    rw [if_pos ((withdraw_retracts hs hchosen).mp h)] at hrevision
    exact ⟨rfl,hrevision⟩
  kept entity h := by
    have hrevision := bump_revision s.entityRevisions tenantId
      (s.withdraw tenantId chosen reason now).2.1.touched entity
    rw [if_neg fun hin => h ((withdraw_retracts hs hchosen).mpr hin)] at hrevision
    exact hrevision
  numbered := nofun

end Withdrawing

/-- A decision is about one entity, whose revision it raises. -/
theorem decision_counted {new : CurationDecision} {id : String}
    (hdecisions : t.decisions = s.decisions ++ [new]) (hid : new.candidateId = id)
    (hc : t.candidates.get? id = some c)
    (hclaims : ∀ id claim, s.sharedClaims.get? id = some claim → t.sharedClaims.get? id = some claim)
    (hrevisions : t.entityRevisions = s.entityRevisions.set (c.tenantId,c.entityId)
      (s.revisionOf (c.tenantId,c.entityId)+1))
    (hnumber : new.newRevision = s.revisionOf (c.tenantId,c.entityId)+1) : Counted s t (some new) where
  decisions := hdecisions
  retracted entity h := absurd h (not_retracts hclaims)
  kept entity _ := by
    have hconcerns : t.concerns entity new = decide ((c.tenantId,c.entityId) = entity) := by
      rw [concerns, hid, hc, Option.any_some]
    rw [revisionOf, hrevisions, Dict.get_set, Option.toList_some, List.filter_cons, hconcerns]
    by_cases hentity : entity = (c.tenantId,c.entityId)
    · simp [hentity]
    · rw [if_neg hentity, decide_eq_false fun h => hentity h.symm]
      rfl
  numbered d hd := by
    cases hd
    exact ⟨c,hid ▸ hc,hnumber⟩

theorem policy_counted (hs : Sound ids s) : Counted s (s.applyPolicy policy withdrawExisting now) none := by
  cases withdrawExisting with
  | false => exact counted_quiet rfl rfl rfl
  | true =>
    obtain ⟨hdecisions,hretracted,hkept,hnumbered⟩ : Counted
        ({ s with policies := s.policies.set (policy.tenantId,policy.productId) policy
          }.invalidatePending policy now) (s.applyPolicy policy true now) none :=
      withdraw_counted (policy_sound hs) fun c hc => (of_decide_eq_true hc).1
    exact ⟨hdecisions,hretracted,hkept,hnumbered⟩

theorem decided_candidate {id reason : String} (action : CurationAction) {current : ℕ} :
    (s.recordDecision ids scope id c action reason current now).1.candidates.get? id =
      some (restate (if action = .accept then .accepted else .rejected) now c) := by
  cases action <;> simp [recordDecision, restate]

theorem written_counted (hs : Sound ids s) (h : Written ids s op command u result) :
    ∃ new, Counted s u new := by
  cases h with
  | bound | known | proposed => exact ⟨none,counted_quiet rfl rfl rfl⟩
  | policy => exact ⟨none,policy_counted _ hs⟩
  | withdrawn scope source reason =>
    exact ⟨none,withdraw_counted hs fun c hc =>
      (of_decide_eq_true (Bool.and_eq_true_iff.mp hc).1).1⟩
  | decided scope candidateId action reason expected key now _ c =>
    cases action with
    | reject =>
      exact ⟨_,decision_counted rfl rfl (decided_candidate .reject) (fun _ _ h => h) rfl rfl⟩
    | accept =>
      exact ⟨_,decision_counted rfl rfl (decided_candidate .accept)
        (fun _ _ h => accept_kept hs h) rfl rfl⟩

structure Advances (s t : Customer360) : Prop where
  moved : Moved s t
  counted : ∃ new, Counted s t new

theorem step_advances (op : Customer360Op) (hs : Sound ids s) : Advances s (s.step ids op).1 := by
  rcases step_cases ids s op with hsame | ⟨key,command,u,result,-,-,hwritten,hstep⟩
  · rw [hsame]
    exact ⟨moved_same rfl,none,counted_quiet rfl rfl rfl⟩
  · have hm := written_moved hs hwritten
    obtain ⟨new,hc⟩ := written_counted hs hwritten
    rw [hstep]
    exact ⟨⟨hm.old,hm.new⟩,new,hc.decisions,hc.retracted,hc.kept,hc.numbered⟩

structure Orderly (ids : IdFactory) (s : Customer360) : Prop where
  sound : Sound ids s
  allowed : Allowed s
  known : ∀ d ∈ s.decisions, ∃ c, s.candidates.get? d.candidateId = some c
  below : ∀ entity, ∀ d ∈ s.decisionsOn entity, d.newRevision ≤ s.revisionOf entity
  increasing : ∀ entity, ((s.decisionsOn entity).map CurationDecision.newRevision).Pairwise (· < ·)

variable {new : Option CurationDecision}

theorem decisions_on_append (hm : Moved s t)
    (hc : Counted s t new) (hknown : ∀ d ∈ s.decisions, ∃ c, s.candidates.get? d.candidateId = some c) :
    t.decisionsOn entity = s.decisionsOn entity ++ new.toList.filter (t.concerns entity) := by
  rw [decisionsOn, hc.decisions, List.filter_append, decisionsOn]
  congr 1
  refine List.filter_congr fun d hd => ?_
  obtain ⟨c,hold⟩ := hknown d hd
  obtain ⟨c',hnew,hrestated⟩ := hm.old _ c hold
  rw [concerns, concerns, hold, hnew, Option.any_some, Option.any_some, restated_entity hrestated]

/-- The decision of a command has the entity's next revision. -/
theorem new_decision {d : CurationDecision} (hc : Counted s t new)
    (hd : d ∈ new.toList.filter (t.concerns entity)) :
    d.newRevision = s.revisionOf entity+1 ∧ t.revisionOf entity = s.revisionOf entity+1 := by
  obtain ⟨hmem,hconcerns⟩ := List.mem_filter.mp hd
  obtain rfl := Option.mem_toList.mp hmem
  obtain ⟨c,hstored,hnumber⟩ := hc.numbered d rfl
  have hentity := hconcerns
  rw [concerns, hstored, Option.any_some, decide_eq_true_eq] at hentity
  have hkept := hc.kept entity fun hr => nomatch (hc.retracted entity hr).1
  rw [Option.toList_some, List.filter_cons_of_pos hconcerns, List.filter_nil] at hkept
  rw [hentity] at hnumber
  exact ⟨hnumber,hkept⟩

theorem revision_grows (hc : Counted s t new) :
    s.revisionOf entity ≤ t.revisionOf entity := by
  by_cases hr : Retracts s t entity
  · have := (hc.retracted entity hr).2
    omega
  · have := hc.kept entity hr
    omega

theorem advance_orderly (h : Orderly ids s) (ht : Sound ids t) (hallowed : Allowed t)
    (ha : Advances s t) : Orderly ids t := by
  obtain ⟨hm,new,hc⟩ := ha
  have happend : ∀ entity, t.decisionsOn entity = s.decisionsOn entity ++
      new.toList.filter (t.concerns entity) := fun entity => decisions_on_append hm hc h.known
  refine ⟨ht,hallowed,?_,?_,?_⟩
  · intro d hd
    rw [hc.decisions, List.mem_append] at hd
    rcases hd with hold | hnew
    · obtain ⟨c,hstored⟩ := h.known d hold
      obtain ⟨c',hnext,-⟩ := hm.old _ c hstored
      exact ⟨c',hnext⟩
    · obtain ⟨c,hstored,-⟩ := hc.numbered d (Option.mem_toList.mp hnew)
      exact ⟨c,hstored⟩
  · intro entity d hd
    rw [happend, List.mem_append] at hd
    rcases hd with hold | hnew
    · exact (h.below entity d hold).trans (revision_grows hc)
    · have := new_decision hc hnew
      omega
  · intro entity
    rw [happend, List.map_append, List.pairwise_append]
    refine ⟨h.increasing entity,?_,?_⟩
    · cases new with
      | none => exact List.Pairwise.nil
      | some d =>
        rw [Option.toList_some, List.filter_singleton]
        cases t.concerns entity d <;> simp
    · intro a ha b hb
      obtain ⟨d,hd,rfl⟩ := List.mem_map.mp ha
      obtain ⟨d',hd',rfl⟩ := List.mem_map.mp hb
      have hbelow := h.below entity d hd
      have hnew := new_decision hc hd'
      omega

theorem step_orderly (s : Customer360) (op : Customer360Op) (h : Orderly ids s) :
    Orderly ids (s.step ids op).1 := by
  refine advance_orderly h (step_kept op h.sound).sound ?_ (step_advances op h.sound)
  rcases step_cases ids s op with hsame | ⟨key,command,u,result,-,-,hwritten,hstep⟩
  · rw [hsame]
    exact h.allowed
  · rw [hstep]
    exact allowed_kept (written_allowed h.allowed hwritten) rfl fun _ _ hc _ => hc

theorem orderly_run (ids : IdFactory) (ops : List Customer360Op) :
    Orderly ids (Machine.final (step ids) {} ops) :=
  Machine.final_invariant (step ids) (Orderly ids) step_orderly {} ops
    ⟨sound_initial,nofun,nofun,nofun,fun _ => List.Pairwise.nil⟩

/-! Accepting a pending candidate is never denied by policy. -/

def Undenied {α : Type} (x : Except MemoryCapabilityError α) : Prop :=
  ∀ error, x = .error error → error.code ≠ .policyDenied

theorem undenied_bind {α β : Type} {x : Except MemoryCapabilityError α}
    {f : α → Except MemoryCapabilityError β} (hx : Undenied x) (hf : ∀ a, Undenied (f a)) :
    Undenied (x >>= f) := by
  cases x with
  | error e => exact fun error h => hx error (congrArg Except.error (Except.error.inj h))
  | ok a => exact hf a

theorem undenied_ok {α : Type} (a : α) :
    Undenied (.ok a : Except MemoryCapabilityError α) := nofun

theorem undenied_error {α : Type} {code : MemoryErrorCode} {message : String}
    {detail : List (String × Json)} (h : code ≠ .policyDenied) :
    Undenied (.error ⟨code,message,detail⟩ : Except MemoryCapabilityError α) := by
  intro error heq
  cases heq
  exact h

theorem undenied_ite {α : Type} {p : Prop} [Decidable p] {x y : Except MemoryCapabilityError α}
    (hx : p → Undenied x) (hy : ¬p → Undenied y) : Undenied (if p then x else y) := by
  split_ifs with h
  · exact hx h
  · exact hy h

theorem check_text_undenied (value name : String) : Undenied (checkText value name) :=
  undenied_ite (fun _ => undenied_error (by decide)) fun _ => undenied_ok _

theorem idem_key_undenied (operation idempotencyKey : String) :
    Undenied (idemKey scope operation idempotencyKey) := by
  unfold idemKey
  exact undenied_bind (check_text_undenied _ _) fun _ => undenied_ok _

theorem check_revision_undenied (value : ℤ) (name : String) : Undenied (checkRevision value name) :=
  undenied_ite (fun _ => undenied_error (by decide)) fun _ => undenied_ok _

theorem once_undenied {execute : Except MemoryCapabilityError (Customer360 × MemoryResult)}
    (h : Undenied execute) : Undenied (s.once key command execute) := by
  refine undenied_bind ?_ fun stored => ?_
  · unfold replay
    split
    · exact undenied_ok _
    · exact undenied_ite (fun _ => undenied_error (by decide)) fun _ => undenied_ok _
  · cases stored with
    | some result => exact undenied_ok _
    | none => exact undenied_bind h fun _ => undenied_ok _

theorem settle_undenied {expected : ℕ} (h : Allowed s) :
    Undenied (s.settle ids scope id .accept reason expected now) := by
  unfold settle
  split
  · exact undenied_error (by decide)
  · rename_i c hc
    refine undenied_ite (fun _ => undenied_error (by decide)) fun _ =>
      undenied_ite (fun _ => undenied_error (by decide)) fun hpending =>
      undenied_ite (fun hdenied => ?_) fun _ =>
      undenied_ite (fun _ => undenied_error (by decide)) fun _ => undenied_ok _
    cases hdenied.2.symm.trans (h id c hc (not_not.mp hpending))

theorem accept_undenied {candidateId idempotencyKey : String} {expected : ℤ} (h : Allowed s) :
    Undenied (s.curate ids scope candidateId .accept reason expected idempotencyKey now) := by
  unfold curate
  exact undenied_bind (undenied_ite (fun _ => undenied_ok _) fun _ => undenied_error (by decide))
    fun _ => undenied_bind (check_text_undenied _ _) fun _ =>
    undenied_bind (check_text_undenied _ _) fun _ =>
    undenied_bind (check_revision_undenied _ _) fun _ =>
    undenied_bind (idem_key_undenied _ _) fun _ => once_undenied (settle_undenied h)

/-! Repeated commands. -/

theorem written_idempotency (h : Written ids s op command u result) :
    u.idempotency = s.idempotency := by
  cases h with
  | policy =>
    unfold applyPolicy
    cases command.withdraws <;> rfl
  | decided _ _ action => cases action <;> rfl
  | _ => rfl

theorem remembered_run {entry : Command × MemoryResult} (more : List Customer360Op)
    (h : s.idempotency.get? key = some entry) :
    (Machine.final (step ids) s more).idempotency.get? key = some entry := by
  refine Machine.final_invariant (step ids) (fun s => s.idempotency.get? key = some entry)
    (fun s op h => ?_) s more h
  rcases step_cases ids s op with hsame | ⟨key',command,u,result,-,hnew,hwritten,hstep⟩
  · rwa [hsame]
  · rw [hstep, remember, Dict.get_set, written_idempotency hwritten]
    split_ifs with hkey
    · rw [hkey, hnew] at h
      cases h
    · exact h

theorem remembered (h : s.fingerprint op = some (.ok (key,command)))
    (hok : (s.step ids op).2 = .ok result) :
    (s.step ids op).1.idempotency.get? key = some (command,result) := by
  cases called ids s op with
  | reads h' _ | refused _ h' _ => cases h.symm.trans h'
  | keyed key' command' body h' hstep _ =>
    cases h.symm.trans h'
    rw [hstep] at hok ⊢
    obtain ⟨hsame,hstored⟩ | ⟨-,u,-,hnext⟩ := once_ok (answered_ok hok)
    · rw [hsame]
      exact hstored
    · rw [hnext, remember, Dict.get_set, if_pos rfl]

theorem conflicts {command' : Command} (h : s.fingerprint op = some (.ok (key,command')))
    (hstored : s.idempotency.get? key = some (command,result)) (hne : command ≠ command') :
    (s.step ids op).2 ≠ .ok result := by
  cases called ids s op with
  | reads h' _ | refused _ h' _ => cases h.symm.trans h'
  | keyed key' _ body h' hstep _ =>
    cases h.symm.trans h'
    rw [hstep, once, replay, hstored]
    simp only [if_pos hne]
    intro hok
    cases hok

def disables : Customer360Op → Bool
  | .disablePublishing .. | .disableConsumption .. => true
  | _ => false

theorem fingerprint_fixed (h : disables op = false) : t.fingerprint op = s.fingerprint op := by
  cases op <;> first | rfl | cases h

/-- The same command, given at another time and with another answer of the profile. -/
def again (now : ℤ) (profile : Except MemoryCapabilityError PrivateClaim) :
    Customer360Op → Customer360Op
  | .bindEntityAlias scope source subject entity expected key _ =>
    .bindEntityAlias scope source subject entity expected key now
  | .configurePolicy scope args _ => .configurePolicy scope args now
  | .disablePublishing scope expected key withdraws _ =>
    .disablePublishing scope expected key withdraws now
  | .disableConsumption scope expected key _ => .disableConsumption scope expected key now
  | .proposeShare scope source key _ _ => .proposeShare scope source key profile now
  | .curate scope id action reason expected key _ => .curate scope id action reason expected key now
  | .withdrawSource scope source reason key _ _ =>
    .withdrawSource scope source reason key profile now
  | op => op

theorem fingerprint_again (now : ℤ) (profile : Except MemoryCapabilityError PrivateClaim) :
    s.fingerprint (again now profile op) = s.fingerprint op := by
  cases op <;> rfl

/-- What a disabling command hands over of a policy, the two flags apart. -/
def handedOver (policy : SharingPolicy) :=
  (policy.publishPredicates,policy.consumePredicates,policy.publishToProducts,
    policy.consumeFromProducts,ruleArgs policy.publishRules,ruleArgs policy.consumeRules)

/-- What the command reads of the policy is the same in both states: nothing, but
for a disabling command the allowlists, the rules and the flag it leaves alone. -/
def PolicyKept (s t : Customer360) : Customer360Op → Prop
  | .disablePublishing scope .. =>
    let p := s.policy scope.tenantId.val scope.productId.val
    let q := t.policy scope.tenantId.val scope.productId.val
    p.consumeEnabled = q.consumeEnabled ∧ handedOver p = handedOver q
  | .disableConsumption scope .. =>
    let p := s.policy scope.tenantId.val scope.productId.val
    let q := t.policy scope.tenantId.val scope.productId.val
    p.publishEnabled = q.publishEnabled ∧ handedOver p = handedOver q
  | _ => True

theorem fingerprint_kept (h : PolicyKept s t op) : t.fingerprint op = s.fingerprint op := by
  cases op with
  | disablePublishing | disableConsumption =>
    simp only [PolicyKept, handedOver, Prod.mk.injEq] at h
    simp only [fingerprint, currentArgs, h]
  | _ => rfl

theorem fingerprint_key {key' : IdempotencyKey} {command' : Command}
    (h : s.fingerprint op = some (.ok (key,command)))
    (h' : t.fingerprint op = some (.ok (key',command'))) : key' = key := by
  cases hop : disables op with
  | false =>
    cases (h'.symm.trans (fingerprint_fixed hop)).trans h
    rfl
  | true =>
    cases op with
    | disablePublishing | disableConsumption =>
      exact (check_policy_ok (Option.some.inj h')).key.trans
        (check_policy_ok (Option.some.inj h)).key.symm
    | _ => cases hop

theorem fingerprint_none (h : t.fingerprint op = none) : s.fingerprint op = none := by
  cases hop : disables op with
  | false => exact (fingerprint_fixed hop).trans h
  | true => cases op <;> simp_all [disables, fingerprint]

/-- A command that returned returns the same again exactly under the same fingerprint. -/
theorem repeated_iff {op' : Customer360Op} (more : List Customer360Op)
    (hcommand : s.fingerprint op ≠ none) (hop : t.fingerprint op' = t.fingerprint op)
    (hok : (s.step ids op).2 = .ok result)
    (ht : t = Machine.final (step ids) (s.step ids op).1 more) :
    t.step ids op' = (t,.ok result) ↔ t.fingerprint op = s.fingerprint op := by
  rcases fingerprint_ok hok with hnone | ⟨key,command,h⟩
  · exact absurd hnone hcommand
  have hstored : t.idempotency.get? key = some (command,result) := by
    rw [ht]
    exact remembered_run more (remembered h hok)
  constructor
  · intro hagain
    rcases fingerprint_ok (congrArg Prod.snd hagain) with hnone | ⟨key',command',h'⟩
    · exact absurd (fingerprint_none (hop.symm.trans hnone)) hcommand
    obtain rfl := fingerprint_key h (hop.symm.trans h')
    by_cases hsame : command = command'
    · rw [← hop, h', h, hsame]
    · exact absurd (congrArg Prod.snd hagain) (conflicts h' hstored hsame)
  · intro hsame
    exact replayed ((hop.trans hsame).trans h) hstored

end Customer360

open Customer360

/-- In every run, whatever command comes next: the status of a candidate only
moves as stated and new candidates are pending; the command takes at most one
decision, and the revision of an entity grows by one with a decision on it or
with a retraction, and not otherwise. What is pending is published by the
producer's current policy, so accepting it is not denied; a shared claim is
selected exactly while its candidate is accepted; the decisions on an entity have
increasing revisions. A command that returned returns the same when it is given
again at any later time and whatever the profile then answers, without effect,
exactly if its fingerprint is still the same; and it is, unless it is a disabling
command and what that hands over of the policy has changed. -/
theorem candidate_lifecycle (ids : IdFactory) (ops : List Customer360Op) :
    let s := Machine.final (step ids) {} ops
    (∀ op, let t := (s.step ids op).1
      (∀ k c, s.candidates.get? k = some c → ∃ d, t.candidates.get? k = some d ∧
        (d.status = c.status ∨ c.status.moves d.status = true)) ∧
      (∀ k d, t.candidates.get? k = some d → s.candidates.get? k = none → d.status = .pending) ∧
      ∃ new : Option CurationDecision, t.decisions = s.decisions ++ new.toList ∧ ∀ entity,
        (Retracts s t entity → new = none ∧ t.revisionOf entity = s.revisionOf entity+1) ∧
        (¬Retracts s t entity → t.revisionOf entity =
          s.revisionOf entity+(new.toList.filter (t.concerns entity)).length)) ∧
    (∀ k c, s.candidates.get? k = some c → c.status = .pending → c.audienceProductIds ≠ ∅ ∧
      c.audienceProductIds ⊆ (s.policy c.tenantId c.sourceProductId).publishAudienceFor c.predicate) ∧
    (∀ scope id reason expected key now error,
      (s.step ids (.curate scope id .accept reason expected key now)).2 = .error error →
        error.code ≠ .policyDenied) ∧
    (∀ id claim, s.sharedClaims.get? id = some claim → ∃ c,
      s.candidates.get? c.candidateId = some c ∧ claim.provenance = [provenanceOf c] ∧
      (claim.status = .selected ↔ c.status = .accepted)) ∧
    (∀ entity, ((s.decisionsOn entity).map CurationDecision.newRevision).Pairwise (· < ·)) ∧
    ∀ op result more now profile, s.fingerprint op ≠ none → (s.step ids op).2 = .ok result →
      let t := Machine.final (step ids) (s.step ids op).1 more
      (t.step ids (again now profile op) = (t,.ok result) ↔ t.fingerprint op = s.fingerprint op) ∧
      (PolicyKept s t op → t.step ids (again now profile op) = (t,.ok result)) := by
  intro s
  have h : Orderly ids s := orderly_run ids ops
  refine ⟨fun op => ?_,?_,?_,?_,h.increasing,?_⟩
  · obtain ⟨hm,new,hc⟩ := step_advances op h.sound
    refine ⟨fun k c hcandidate => ?_,hm.new,new,hc.decisions,fun entity =>
      ⟨hc.retracted entity,hc.kept entity⟩⟩
    obtain ⟨d,hd,hrestated⟩ := hm.old k c hcandidate
    exact ⟨d,hd,restated_status hrestated⟩
  · intro k c hc hpending
    exact of_decide_eq_true (h.allowed k c hc hpending)
  · intro scope id reason expected key now error herror
    cases hcurate : s.curate ids scope id .accept reason expected key now with
    | error e =>
      rw [step, hcurate] at herror
      cases herror
      exact accept_undenied h.allowed error hcurate
    | ok v =>
      rw [step, hcurate] at herror
      cases herror
  · intro id claim hclaim
    obtain ⟨c,hb⟩ := h.sound.backed id claim hclaim
    exact ⟨c,hb.stored,hb.stems.provenance,hb.selected⟩
  · intro op result more now profile hcommand hok
    have hiff := repeated_iff more hcommand (fingerprint_again now profile) hok rfl
    exact ⟨hiff,fun hkept => hiff.mpr (fingerprint_kept hkept)⟩

section Repeated
open RepeatedWithdrawal

/-- Publishing is disabled, and then configured anew for another predicate: the
disabling command under its old key is taken for another command. -/
theorem repeated_disabling_conflicts :
    let off := Customer360Op.disablePublishing sales 1 "off" false 2
    let s := Machine.final (step unaryIds) {} [.configurePolicy sales (publishes 0 "policy-1") 1]
    let t := Machine.final (step unaryIds) (s.step unaryIds off).1
      [.configurePolicy sales { publishes 2 "policy-2" with publishPredicates := ["phone"] } 3]
    (s.step unaryIds off).2.toOption ≠ none ∧
      (t.step unaryIds off).2 = .error ⟨.idempotencyConflict,
        "an idempotency key was reused with a different command",
        [("operation",.str "customer360.configure_policy")]⟩ := by
  decide +kernel

end Repeated

/-- A proposal under a new key returns a pending candidate of the entity to which
the claim's subject is bound, exactly if a candidate already on file for this
version of the claim under the current policy is such a candidate. -/
theorem proposal_goes_to_bound_entity (ids : IdFactory) (ops : List Customer360Op)
    (scope : RequestScope) (source key : String) (profile : Except MemoryCapabilityError PrivateClaim)
    (now : ℤ) (candidate : ShareCandidate) :
    let s := Machine.final (step ids) {} ops
    s.idempotency.get? (scope.tenantId.val,scope.productId.val,"customer360.propose_share",
      strip key) = none →
    (s.step ids (.proposeShare scope source key profile now)).2 = .ok (.candidate candidate) →
    ∃ claim bound, profile = .ok claim ∧
      s.aliases.get? (scope.tenantId.val,scope.productId.val,claim.localSubjectId) = some bound ∧
      ((candidate.entityId = bound.entityId ∧ candidate.status = .pending) ↔
        ∀ old, s.filed scope claim = some old →
          old.entityId = bound.entityId ∧ old.status = .pending) := by
  intro s hnew hok
  obtain hnone | ⟨key',command,h⟩ := fingerprint_ok hok
  · cases hnone
  have hkey : key' = (scope.tenantId.val,scope.productId.val,"customer360.propose_share",
      strip key) := by
    obtain ⟨_,_,h⟩ := bind_ok (Option.some.inj h)
    obtain ⟨_,_,h⟩ := bind_ok h
    obtain ⟨_,hkey,h⟩ := bind_ok h
    cases h
    exact idem_key_ok hkey
  obtain ⟨u,hwritten,-⟩ := executed h (hkey ▸ hnew) hok
  cases hwritten with
  | known _ _ _ claim _ _ bound _ hbound hfiled =>
    refine ⟨claim,bound,rfl,hbound,fun hpending old hold => ?_,fun hall => hall _ hfiled⟩
    cases hfiled.symm.trans hold
    exact hpending
  | proposed _ _ _ claim _ _ bound hbound hfiled =>
    refine ⟨claim,bound,rfl,hbound,fun _ old hold => ?_,fun _ => ⟨rfl,rfl⟩⟩
    cases hfiled.symm.trans hold

section Rebound
open RepeatedWithdrawal

def boundOnce : List Customer360Op :=
  [.configurePolicy sales (publishes 0 "policy") 1,
    .bindEntityAlias sales "sales" "local" "customer" 0 "bind-1" 2]

def firstCandidate : ShareCandidate :=
  newCandidate sales "a" ⟨"tenant","sales","local","customer",1,"operator",2⟩ email {"support"} 1 3

theorem first_proposal_goes_to_bound_entity :
    ∃ claim bound, (.ok email : Except MemoryCapabilityError PrivateClaim) = .ok claim ∧
      (Machine.final (step unaryIds) {} boundOnce).aliases.get?
        (sales.tenantId.val,sales.productId.val,claim.localSubjectId) = some bound ∧
      ((firstCandidate.entityId = bound.entityId ∧ firstCandidate.status = .pending) ↔
        ∀ old, (Machine.final (step unaryIds) {} boundOnce).filed sales claim = some old →
          old.entityId = bound.entityId ∧ old.status = .pending) :=
  proposal_goes_to_bound_entity unaryIds boundOnce sales "claim" "propose-1" (.ok email) 3
    firstCandidate (by decide +kernel) (by decide +kernel)

/-- The subject is bound to another customer after the first proposal: a second
proposal returns the first candidate, of the customer who was bound before. -/
theorem rebound_proposal_keeps_old_entity :
    let s := Machine.final (step unaryIds) {} (boundOnce ++
      [.proposeShare sales "claim" "propose-1" (.ok email) 3,
        .bindEntityAlias sales "sales" "local" "other" 1 "bind-2" 4])
    s.idempotency.get? ("tenant","sales","customer360.propose_share","propose-2") = none ∧
    (s.aliases.get? ("tenant","sales","local")).map EntityAlias.entityId = some "other" ∧
    (s.step unaryIds (.proposeShare sales "claim" "propose-2" (.ok email) 5)).2 =
      .ok (.candidate firstCandidate) ∧ firstCandidate.entityId = "customer" := by
  decide +kernel

end Rebound
end SuiteHarness.Memory
