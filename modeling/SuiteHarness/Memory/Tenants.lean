import SuiteHarness.Memory.Lifecycle

/-!
# Tenants do not reach each other

One provider holds the data of all tenants. The commands of other tenants leave a
tenant's claims, candidates, policies and revisions as they are.
-/

set_option autoImplicit false

namespace SuiteHarness.Memory
open SuiteHarness.Library SuiteHarness.Library.Multimap SuiteHarness.Library.Results
open SuiteHarness.Execution

def Customer360Op.scope : Customer360Op → RequestScope
  | .bindEntityAlias scope .. | .configurePolicy scope .. | .disablePublishing scope ..
  | .disableConsumption scope .. | .proposeShare scope .. | .curate scope .. | .withdrawSource scope ..
  | .readShared scope _ | .resolveEntityAlias scope _ | .getPolicy scope | .getCandidate scope _
  | .listCandidates scope _ | .entityRevision scope _ | .listDecisions scope => scope

namespace Customer360

variable {ids : IdFactory} {s t u : Customer360} {op : Customer360Op} {scope : RequestScope}
  {command : Command} {result : MemoryResult} {tenant : String} {now : ℤ}

section Agree
variable {β : Type} {p : β → Prop} {d e : Dict String β}

def Agree (p : β → Prop) (d e : Dict String β) : Prop :=
  ∀ k v, p v → (e.get? k = some v ↔ d.get? k = some v)

theorem agree_refl : Agree p d d := fun _ _ _ => Iff.rfl

theorem agree_set {k : String} {v : β} (hv : ¬p v) (hold : ∀ w, d.get? k = some w → ¬p w) :
    Agree p d (d.set k v) := by
  intro j w hw
  rw [Dict.get_set]
  split_ifs with hj
  · subst hj
    constructor
    · intro h
      exact absurd (Option.some.inj h ▸ hw) hv
    · exact fun h => absurd hw (hold w h)
  · rfl

theorem agree_map {f : String → β → β} (hget : ∀ k, e.get? k = (d.get? k).map (f k))
    (hf : ∀ k v, d.get? k = some v → p v ∨ p (f k v) → f k v = v) : Agree p d e := by
  intro k v hv
  rw [hget, Option.map_eq_some_iff]
  constructor
  · rintro ⟨w,hw,rfl⟩
    rw [hf k w hw (.inr hv)]
    exact hw
  · exact fun h => ⟨v,h,hf k v h (.inl hv)⟩

theorem agree_get (h : Agree p d e) (k : String) :
    e.get? k = d.get? k ∨ (∀ v ∈ e.get? k, ¬p v) ∧ ∀ v ∈ d.get? k, ¬p v := by
  by_cases hfound : ∃ v, p v ∧ e.get? k = some v
  · obtain ⟨v,hv,he⟩ := hfound
    exact .inl (he.trans ((h k v hv).mp he).symm)
  · exact .inr ⟨fun v he hv => hfound ⟨v,hv,he⟩,fun v hd hv => hfound ⟨v,hv,(h k v hv).mpr hd⟩⟩

end Agree

structure Untouched (tenant : String) (s t : Customer360) : Prop where
  policies : ∀ product, t.policy tenant product = s.policy tenant product
  revisions : ∀ entity, t.revisionOf (tenant,entity) = s.revisionOf (tenant,entity)
  entities : ∀ entity,
    members t.sharedByEntity (tenant,entity) = members s.sharedByEntity (tenant,entity)
  candidates : Agree (fun c => c.tenantId = tenant) s.candidates t.candidates
  claims : Agree (fun claim => claim.space.tenantId = tenant) s.sharedClaims t.sharedClaims

theorem untouched_refl : Untouched tenant s s :=
  ⟨fun _ => rfl,fun _ => rfl,fun _ => rfl,agree_refl,agree_refl⟩

theorem untouched_trans (h : Untouched tenant s t) (h' : Untouched tenant t u) :
    Untouched tenant s u where
  policies product := (h'.policies product).trans (h.policies product)
  revisions entity := (h'.revisions entity).trans (h.revisions entity)
  entities entity := (h'.entities entity).trans (h.entities entity)
  candidates k c hc := (h'.candidates k c hc).trans (h.candidates k c hc)
  claims id claim hclaim := (h'.claims id claim hclaim).trans (h.claims id claim hclaim)

theorem withdraw_untouched {chosen : ShareCandidate → Bool} {tenantId reason : String}
    (hs : Sound ids s) (hne : tenant ≠ tenantId)
    (hchosen : ∀ c, chosen c = true → c.tenantId = tenantId) :
    Untouched tenant s (s.withdraw tenantId chosen reason now).1 := by
  have hmissed : ∀ c, c.tenantId = tenant → hits chosen c = false := by
    intro c hc
    rw [hits, Bool.eq_false_iff.mpr fun h => hne (hc.symm.trans (hchosen c h)), Bool.false_and]
  refine { untouched_refl with revisions := ?_, candidates := ?_, claims := ?_ }
  · intro entity
    refine (bump_revision _ _ _ _).trans ?_
    rw [if_neg fun h => hne h.1]
    rfl
  · refine agree_map (withdraw_candidates s tenantId chosen reason now) fun k c _ hc => ?_
    rw [hmissed c (hc.elim id fun h => by split_ifs at h <;> exact h)]
    rfl
  · refine agree_map (withdraw_claims tenantId) fun id claim hclaim hspace => ?_
    obtain ⟨c,hb⟩ := hs.backed id claim hclaim
    have hc : c.tenantId = tenant := by
      rw [fades_space (fade_if_fades _ claim), or_self, hb.stems.space] at hspace
      exact hspace
    rw [reached_iff hs hb, hmissed c hc, fade_if_false]

theorem policy_untouched {policy : SharingPolicy} (withdrawExisting : Bool) (hs : Sound ids s)
    (hne : tenant ≠ policy.tenantId) :
    Untouched tenant s (s.applyPolicy policy withdrawExisting now) := by
  have hinvalid : Untouched tenant s ({ s with
      policies := s.policies.set (policy.tenantId,policy.productId) policy
      }.invalidatePending policy now) := by
    refine { untouched_refl with policies := fun product => ?_, candidates := ?_ }
    · exact congrArg (Option.getD · _) ((Dict.get_set _ _ _ _).trans
        (if_neg fun h => hne (Prod.mk.inj h).1))
    · refine agree_map (invalidate_candidates _ policy now) fun k c _ hc => ?_
      rw [if_neg]
      have htenant : c.tenantId = tenant := hc.elim id fun h => by split_ifs at h <;> exact h
      simp [invalid, htenant, hne]
  unfold applyPolicy
  cases withdrawExisting with
  | false => exact hinvalid
  | true =>
    refine untouched_trans hinvalid (withdraw_untouched (policy_sound hs) hne fun c hc => ?_)
    exact (of_decide_eq_true hc).1

theorem decision_untouched {id reason : String} {c : ShareCandidate} {current : ℕ}
    (action : CurationAction) (hs : Sound ids s) (hc : s.candidates.get? id = some c)
    (hne : tenant ≠ c.tenantId) :
    Untouched tenant s (s.recordDecision ids scope id c action reason current now).1 := by
  have hentity : ∀ entity, ¬(tenant,entity) = (c.tenantId,c.entityId) :=
    fun _ h => hne (Prod.mk.inj h).1
  have hcandidates : ∀ d : ShareCandidate, d.tenantId = c.tenantId →
      Agree (fun c => c.tenantId = tenant) s.candidates (s.candidates.set id d) := by
    intro d hd
    refine agree_set (fun h => hne (h.symm.trans hd)) fun w hw h => hne ?_
    rw [← h, Option.some.inj (hc.symm.trans hw)]
  have hrevisions : ∀ entity, ((s.entityRevisions.set (c.tenantId,c.entityId) (current+1)).get?
      (tenant,entity)).getD 0 = s.revisionOf (tenant,entity) := by
    intro entity
    rw [Dict.get_set, if_neg (hentity entity)]
    rfl
  cases action with
  | reject =>
    exact { untouched_refl with
      candidates := hcandidates _ rfl
      revisions := hrevisions }
  | accept =>
    exact { untouched_refl with
      candidates := hcandidates _ rfl
      revisions := hrevisions
      entities := fun entity => (members_set _ _ _ _).trans (if_neg (hentity entity))
      claims := agree_set (fun h => hne h.symm)
        fun claim hclaim => absurd rfl (drawn_old (hs.drawnClaims _ claim hclaim)) }

theorem written_untouched (hs : Sound ids s) (h : Written ids s op command u result)
    (hne : tenant ≠ op.scope.tenantId.val) : Untouched tenant s u := by
  cases h with
  | bound => exact { untouched_refl with }
  | policy op command scope now hop hrevision =>
    have hscope : op.scope = scope := by
      cases op with
      | configurePolicy | disablePublishing | disableConsumption => cases hop; rfl
      | _ => cases hop
    refine policy_untouched _ hs ?_
    rwa [(command.policy_owner scope _ now).1, ← hscope]
  | known => exact untouched_refl
  | proposed =>
    refine { untouched_refl with candidates := agree_set (fun h => hne h.symm) fun c hc => ?_ }
    exact absurd rfl (drawn_old (hs.drawnCandidates _ c hc))
  | decided scope id action reason expected key now _ c hrole hc htenant =>
    exact decision_untouched action hs hc fun h => hne (h.trans htenant)
  | withdrawn =>
    refine withdraw_untouched hs hne fun c hc => ?_
    exact (of_decide_eq_true (Bool.and_eq_true_iff.mp hc).1).1

theorem step_untouched (hs : Sound ids s) (hne : tenant ≠ op.scope.tenantId.val) :
    Untouched tenant s (s.step ids op).1 := by
  rcases step_cases ids s op with hsame | ⟨key,command,u,result,-,-,hwritten,hstep⟩
  · rw [hsame]
    exact untouched_refl
  · rw [hstep]
    exact { written_untouched hs hwritten hne with }

theorem read_shared_untouched (hs : Sound ids s) (h : Untouched scope.tenantId.val s t)
    (entity : String) : t.readShared scope entity = s.readShared scope entity := by
  have hclaims : ∀ entity, (members t.sharedByEntity (scope.tenantId.val,entity)).filterMap
      t.sharedClaims.get? =
      (members s.sharedByEntity (scope.tenantId.val,entity)).filterMap s.sharedClaims.get? := by
    intro entity
    rw [h.entities]
    refine List.filterMap_congr fun id hid => ?_
    obtain ⟨claim,hclaim,hspace⟩ := hs.entities _ entity id hid
    rw [hclaim]
    exact (h.claims id claim hspace).mpr hclaim
  have hvisible : t.visible scope = s.visible scope := by
    funext claim
    simp only [visible, h.policies]
  simp only [readShared, hclaims, hvisible, h.policies]

theorem get_candidate_untouched (h : Untouched scope.tenantId.val s t) (id : String) :
    t.getCandidate scope id = s.getCandidate scope id := by
  simp only [getCandidate]
  congr 1
  funext id
  rcases agree_get h.candidates id with hsame | ⟨hother,hother'⟩
  · rw [hsame]
  · cases ht : t.candidates.get? id <;> cases hs : s.candidates.get? id <;> simp_all

/-- In every reachable state, what a tenant can look up stays as it is under any commands of other
tenants: its shared claims, its candidates, its policies and its revisions. -/
theorem tenants_isolated (ids : IdFactory) (ops others : List Customer360Op) (scope : RequestScope) :
    let s := Machine.final (step ids) {} ops
    let t := Machine.final (step ids) {}
      (ops++others.filter (fun op => decide (scope.tenantId.val ≠ op.scope.tenantId.val)))
    (∀ entity, t.readShared scope entity = s.readShared scope entity) ∧
    (∀ candidate, t.getCandidate scope candidate = s.getCandidate scope candidate) ∧
    (∀ entity, t.entityRevision scope entity = s.entityRevision scope entity) ∧
    ∀ product, t.policy scope.tenantId.val product = s.policy scope.tenantId.val product := by
  intro s t
  have hs : Sound ids s := sound_run ops {} sound_initial
  have h : Untouched scope.tenantId.val s t := by
    dsimp only [t]
    rw [Machine.final_append]
    exact (Machine.final_invariant_on (step ids) (fun u => Sound ids u ∧ Untouched _ s u)
      (fun op => scope.tenantId.val ≠ op.scope.tenantId.val)
      (fun u op hne hu => ⟨(step_kept op hu.1).sound,untouched_trans hu.2 (step_untouched hu.1 hne)⟩)
      s _ (fun op hop => of_decide_eq_true (List.mem_filter.1 hop).2) ⟨hs,untouched_refl⟩).2
  refine ⟨read_shared_untouched hs h,get_candidate_untouched h,fun entity => ?_,h.policies⟩
  have hrevision := h.revisions
  simp only [revisionOf] at hrevision
  simp only [entityRevision, hrevision]

end Customer360
end SuiteHarness.Memory
