import SuiteHarness.Execution.Authority
import SuiteHarness.Library.Machine

/-!
# Attenuation over the grant forest

`Forested` is what every reachable authority satisfies. It is stated with a
list of pending grants, so that it also holds between two rounds of a
revocation: a pending grant may have lost its parent already. A revocation
removes exactly the subtree of its grant, and what is removed does not resolve
until its identifier is stored again.
-/

set_option autoImplicit false

namespace SuiteHarness.Execution
open SuiteHarness.Library SuiteHarness.Library.Multimap SuiteHarness.Library.Forest

structure Attenuates (child parent : CapabilityGrant) : Prop where
  tenant : child.tenantId = parent.tenantId
  product : child.productId = parent.productId
  identities : child.toolIdentities ⊆ parent.toolIdentities
  capabilities : child.capabilities ⊆ parent.capabilities
  principal : ∀ p, parent.principalId = some p → child.principalId = some p
  expiry : child.expiresAt ≤ parent.expiresAt

namespace CapabilityAuthority

def keys (s : CapabilityAuthority) : List String := s.grants.entries.map Prod.fst

structure Forested (pending : List String) (s : CapabilityAuthority) : Prop where
  owned : ∀ k, (s.grants.get? k).isSome = (s.grantOwners.get? k).isSome
  named : ∀ k g, s.grants.get? k = some g → g.grantId = k
  child : ∀ c p, s.grantParents.get? c = some p → (s.grants.get? c).isSome
  listed : ∀ c p, s.grantParents.get? c = some p → c ∉ pending → [p,c].Sublist s.keys
  kids : ∀ c p, c ∈ members s.grantChildren p → s.grantParents.get? c = some p
  parents : ∀ c p, s.grantParents.get? c = some p → c ∉ pending → c ∈ members s.grantChildren p
  attenuated : ∀ c p gc gp, s.grantParents.get? c = some p → s.grants.get? c = some gc →
    s.grants.get? p = some gp → Attenuates gc gp
  index : ∀ o x, x ∈ members s.ownerGrants o ↔ s.grantOwners.get? x = some (some o)

theorem forested_init : Forested [] init where
  owned _ := rfl
  named _ _ h := by cases h
  child _ _ h := by cases h
  listed _ _ h := by cases h
  kids _ _ h := by cases h
  parents _ _ h := by cases h
  attenuated _ _ _ _ h := by cases h
  index _ _ := by simp [init, members]

section Invariant
variable {s : CapabilityAuthority} {pending : List String}

theorem mem_keys (k : String) : k ∈ s.keys ↔ (s.grants.get? k).isSome := by
  rw [← Option.ne_none_iff_isSome, ne_eq, Dict.get_none, not_not, keys]

theorem mem_detach_children (id c p : String) :
    c ∈ members (s.detach id).grantChildren p ↔
      c ∈ members s.grantChildren p ∧ p ≠ id ∧ (s.grantParents.get? id = some p → c ≠ id) := by
  unfold detach
  cases s.grantParents.get? id with
  | none =>
    simp only [members_erase]
    by_cases hp : p = id
    · simp [hp]
    · simp [hp]
  | some q =>
    simp only [mem_discard, members_erase]
    by_cases hp : p = id
    · simp [hp]
    · simp [hp, eq_comm (a := q)]

theorem mem_detach_owned (id x o : String) :
    x ∈ members (s.detach id).ownerGrants o ↔
      x ∈ members s.ownerGrants o ∧ (s.grantOwner id = some o → x ≠ id) := by
  unfold detach
  cases s.grantOwner id with
  | none => simp
  | some q => simp [mem_discard, eq_comm (a := q)]

theorem detach_keys (id : String) : (s.detach id).keys = s.keys.filter (fun k => decide (k ≠ id)) := by
  rw [keys, keys, List.filter_map]
  change (s.grants.entries.filter _).map _ = _
  congr 2
  funext e
  simp

theorem detach_parent {id c p : String} :
    (s.detach id).grantParents.get? c = some p ↔ c ≠ id ∧ s.grantParents.get? c = some p := by
  by_cases h : c = id
  · simp [detach, h]
  · simp [detach, h]

variable {g : CapabilityGrant}

theorem detach_grant {id c : String} :
    (s.detach id).grants.get? c = some g ↔ c ≠ id ∧ s.grants.get? c = some g := by
  by_cases h : c = id
  · simp [detach, h]
  · simp [detach, h]

theorem forested_detach {id : String} (h : Forested (id::pending) s) :
    Forested ((members s.grantChildren id).reverse ++ pending) (s.detach id) := by
  have hsplit : ∀ c p, s.grantParents.get? c = some p → c ≠ id →
      c ∉ (members s.grantChildren id).reverse ++ pending → c ∉ id::pending ∧ p ≠ id := by
    intro c p hc hne hp
    rw [List.mem_append, List.mem_reverse, not_or] at hp
    have hpend : c ∉ id::pending := by
      rw [List.mem_cons, not_or]
      exact ⟨hne,hp.2⟩
    refine ⟨hpend,?_⟩
    rintro rfl
    exact hp.1 (h.parents c p hc hpend)
  constructor
  case owned =>
    intro k
    by_cases hk : k = id
    · simp [detach, hk]
    · simpa [detach, hk] using h.owned k
  case named =>
    intro k g hk
    exact h.named k g (detach_grant.mp hk).2
  case child =>
    intro c p hc
    obtain ⟨hne,hc⟩ := detach_parent.mp hc
    simpa [detach, hne] using h.child c p hc
  case listed =>
    intro c p hc hp
    obtain ⟨hne,hc⟩ := detach_parent.mp hc
    obtain ⟨hpend,hpid⟩ := hsplit c p hc hne hp
    have hsub := (h.listed c p hc hpend).filter (fun k => decide (k ≠ id))
    rw [detach_keys]
    simpa [hne, hpid] using hsub
  case kids =>
    intro c p hc
    obtain ⟨hmem,-,hne⟩ := (mem_detach_children id c p).mp hc
    have hpar := h.kids c p hmem
    refine detach_parent.mpr ⟨?_,hpar⟩
    rintro rfl
    exact hne hpar rfl
  case parents =>
    intro c p hc hp
    obtain ⟨hne,hc⟩ := detach_parent.mp hc
    obtain ⟨hpend,hpid⟩ := hsplit c p hc hne hp
    exact (mem_detach_children id c p).mpr ⟨h.parents c p hc hpend,hpid,fun _ => hne⟩
  case attenuated =>
    intro c p gc gp hc hgc hgp
    exact h.attenuated c p gc gp (detach_parent.mp hc).2 (detach_grant.mp hgc).2
      (detach_grant.mp hgp).2
  case index =>
    intro o x
    rw [mem_detach_owned, h.index o x]
    by_cases hx : x = id
    · subst hx
      simp only [detach, Dict.get_erase, if_true, reduceCtorEq, iff_false, not_and]
      intro ho hno
      exact hno (by rw [grantOwner, ho]; rfl) rfl
    · simp [detach, hx]

def Doomed (s : CapabilityAuthority) (pending : List String) (x : String) : Prop :=
  ∃ y ∈ pending, Descends s.grantParents.get? x y

theorem doomed_detach {id : String} (x : String) (h : Forested (id::pending) s) :
    Doomed s (id::pending) x ↔
      x = id ∨ Doomed (s.detach id) ((members s.grantChildren id).reverse ++ pending) x := by
  have hcut : (s.detach id).grantParents.get? = cut s.grantParents.get? id := by
    funext c
    by_cases hc : c = id
    · simp [detach, cut, hc]
    · simp [detach, cut, hc]
  unfold Doomed
  rw [hcut]
  apply under_pop
  · intro c hc
    exact h.kids c id (List.mem_reverse.mp hc)
  · intro c hne hc
    rw [List.mem_append, List.mem_reverse]
    by_cases hp : c ∈ pending
    · exact Or.inr hp
    · exact Or.inl (h.parents c id hc (by simp [hne, hp]))

theorem total_detach (id : String) :
    total (s.detach id).grantChildren + (members s.grantChildren id).length ≤
      total s.grantChildren := by
  have he := total_erase s.grantChildren id
  unfold detach
  cases s.grantParents.get? id with
  | none => exact le_of_eq he
  | some p =>
    have hd := total_discard (s.grantChildren.erase id) p id
    simp only
    omega

/-- A revocation loop with enough rounds ends in a forest without the doomed
grants and with every other grant, owner and parent as it was. -/
theorem revoke_loop_spec (n : ℕ) (h : Forested pending s)
    (hn : pending.length+total s.grantChildren ≤ n) :
    Forested [] (revokeLoop n pending s) ∧
    (revokeLoop n pending s).activeOwners = s.activeOwners ∧
    (∀ x, Doomed s pending x → (revokeLoop n pending s).grants.get? x = none) ∧
    ∀ x, ¬ Doomed s pending x →
      (revokeLoop n pending s).grants.get? x = s.grants.get? x ∧
      (revokeLoop n pending s).grantOwners.get? x = s.grantOwners.get? x ∧
      (revokeLoop n pending s).grantParents.get? x = s.grantParents.get? x := by
  induction n generalizing pending s with
  | zero =>
    obtain rfl : pending = [] := List.length_eq_zero_iff.mp (by omega)
    exact ⟨h,rfl,fun x ⟨y,hy,_⟩ => absurd hy (by simp),fun x _ => ⟨rfl,rfl,rfl⟩⟩
  | succ n ih =>
    cases pending with
    | nil => exact ⟨h,rfl,fun x ⟨y,hy,_⟩ => absurd hy (by simp),fun x _ => ⟨rfl,rfl,rfl⟩⟩
    | cons id pending =>
      have ht := total_detach (s := s) id
      obtain ⟨hf,ha,hgone,hkept⟩ := ih (forested_detach h) (by
        simp only [List.length_append, List.length_reverse, List.length_cons] at hn ⊢
        omega)
      rw [revokeLoop]
      refine ⟨hf,ha,fun x hx => ?_,fun x hx => ?_⟩
      · by_cases hd : Doomed (s.detach id) ((members s.grantChildren id).reverse ++ pending) x
        · exact hgone x hd
        · obtain rfl := ((doomed_detach x h).mp hx).resolve_right hd
          rw [(hkept x hd).1]
          simp [detach]
      · rw [doomed_detach x h, not_or] at hx
        obtain ⟨h1,h2,h3⟩ := hkept x hx.2
        rw [h1, h2, h3]
        simp [detach, hx.1]

def Shrinks (s t : CapabilityAuthority) : Prop :=
  ∀ x, t.grants.get? x = none ∨
    t.grants.get? x = s.grants.get? x ∧ t.grantOwners.get? x = s.grantOwners.get? x

theorem shrinks_trans {t u : CapabilityAuthority} (h : Shrinks s t) (h' : Shrinks t u) :
    Shrinks s u := by
  intro x
  rcases h' x with hx | ⟨hg,ho⟩
  · exact Or.inl hx
  · rw [hg, ho]
    exact h x

theorem revoke_subtree_spec (id : String) (h : Forested [] s) :
    Forested [] (s.revokeSubtree id) ∧ Shrinks s (s.revokeSubtree id) ∧
    ∀ x, Descends s.grantParents.get? x id → (s.revokeSubtree id).grants.get? x = none := by
  have hp : Forested [id] s :=
    { h with
      listed := fun c p hc _ => h.listed c p hc (by simp)
      parents := fun c p hc _ => h.parents c p hc (by simp) }
  obtain ⟨hf,-,hgone,hkept⟩ := revoke_loop_spec (total s.grantChildren+1) hp
    (by rw [List.length_singleton]; omega)
  refine ⟨hf,fun x => ?_,fun x hx => hgone x ⟨id,by simp,hx⟩⟩
  by_cases hd : Doomed s [id] x
  · exact Or.inl (hgone x hd)
  · exact Or.inr ⟨(hkept x hd).1,(hkept x hd).2.1⟩

theorem revoke_all_spec (ids : List String) (h : Forested [] s) :
    Forested [] (s.revokeAll ids) ∧ Shrinks s (s.revokeAll ids) ∧
    ∀ x ∈ ids, (s.revokeAll ids).grants.get? x = none := by
  induction ids generalizing s with
  | nil => exact ⟨h,fun x => Or.inr ⟨rfl,rfl⟩,by simp⟩
  | cons id ids ih =>
    have hstep : ∀ t : CapabilityAuthority, Forested [] t → Shrinks s t →
        t.grants.get? id = none → Forested [] (t.revokeAll ids) ∧ Shrinks s (t.revokeAll ids) ∧
          ∀ x ∈ id::ids, (t.revokeAll ids).grants.get? x = none := by
      intro t hf hs hid
      obtain ⟨hf',hs',hall⟩ := ih hf
      refine ⟨hf',shrinks_trans hs hs',fun x hx => ?_⟩
      rcases List.mem_cons.mp hx with rfl | hx
      · rcases hs' x with hx | ⟨hx,-⟩
        · exact hx
        · exact hx.trans hid
      · exact hall x hx
    rw [revokeAll, List.foldl_cons]
    split_ifs with hc
    · obtain ⟨hf,hs,hgone⟩ := revoke_subtree_spec id h
      exact hstep _ hf hs (hgone id (descends_refl id))
    · refine hstep s h (fun x => Or.inr ⟨rfl,rfl⟩) ?_
      rw [Dict.contains, Option.not_isSome_iff_eq_none] at hc
      exact hc

/-- The activation owners play no part in the shape of the forest. -/
theorem forested_owners (owners : Dict (String × String) String)
    {index : Dict String (List String)} (hi : ∀ o x, x ∈ members index o ↔
      s.grantOwners.get? x = some (some o)) (h : Forested [] s) :
    Forested [] { s with activeOwners := owners, ownerGrants := index } :=
  ⟨h.owned,h.named,h.child,h.listed,h.kids,h.parents,h.attenuated,hi⟩

theorem release_spec (owner : String) (h : Forested [] s) :
    Forested [] (s.releaseActivation owner) ∧ Shrinks s (s.releaseActivation owner) ∧
    ∀ x, s.grantOwners.get? x = some (some owner) →
      (s.releaseActivation owner).grants.get? x = none := by
  have hu := forested_owners (s.activeOwners.eraseWhere (fun e => decide (e.2 = owner))) h.index h
  obtain ⟨hf,hs,hgone⟩ := revoke_all_spec (members s.ownerGrants owner) hu
  have hall : ∀ x, s.grantOwners.get? x = some (some owner) → _ := fun x hx =>
    hgone x ((h.index owner x).mpr hx)
  refine ⟨?_,hs,hall⟩
  refine forested_owners _ (fun o x => ?_) hf
  rw [members_erase]
  split_ifs with ho
  · subst ho
    simp only [List.not_mem_nil, false_iff]
    intro hx
    have hsome := hf.owned x
    rw [hx, Option.isSome_some] at hsome
    rcases hs x with hn | ⟨-,howner⟩
    · rw [hn] at hsome
      cases hsome
    · rw [hall x (howner ▸ hx)] at hsome
      cases hsome
  · exact hf.index o x

/-- An identifier that is not stored occurs in no map of the forest. -/
theorem unstored (h : Forested [] s) {x : String} (hx : s.grants.get? x = none) :
    s.grantOwners.get? x = none ∧ s.grantParents.get? x = none ∧
    (∀ c, s.grantParents.get? c ≠ some x) ∧ x ∉ s.keys := by
  have hkeys : x ∉ s.keys := by
    rw [mem_keys, hx]
    simp
  refine ⟨?_,?_,fun c hc => ?_,hkeys⟩
  · have := h.owned x
    rw [hx] at this
    exact Option.isNone_iff_eq_none.mp (by simpa using this.symm)
  · cases hp : s.grantParents.get? x with
    | none => rfl
    | some p =>
      have := h.child x p hp
      rw [hx] at this
      cases this
  · exact hkeys ((h.listed c x hc (by simp)).subset (by simp))

theorem store_keys (owner : Option String) (hg : s.grants.get? g.grantId = none) :
    (s.store g owner).keys = s.keys ++ [g.grantId] := by
  change ((s.grants.set g.grantId g).entries).map _ = _
  rw [Dict.entries_set_absent _ _ _ hg, List.map_append]
  rfl

theorem forested_store (owner : Option String) (h : Forested [] s)
    (hg : s.grants.get? g.grantId = none) : Forested [] (s.store g owner) := by
  obtain ⟨hown,hpar,hkid,-⟩ := unstored h hg
  have hget : ∀ k, (s.store g owner).grants.get? k =
      if k = g.grantId then some g else s.grants.get? k := fun k => Dict.get_set _ _ _ _
  constructor
  case owned =>
    intro k
    by_cases hk : k = g.grantId
    · simp [store, hk]
    · simpa [store, hk] using h.owned k
  case named =>
    intro k g' hk
    rw [hget] at hk
    split_ifs at hk with he
    · rw [← Option.some.inj hk, he]
    · exact h.named k g' hk
  case child =>
    intro c p hc
    rw [hget]
    split_ifs
    · rfl
    · exact h.child c p hc
  case listed =>
    intro c p hc hp
    rw [store_keys owner hg]
    exact (h.listed c p hc hp).trans (List.sublist_append_left _ _)
  case kids => exact h.kids
  case parents => exact h.parents
  case attenuated =>
    intro c p gc gp hc hgc hgp
    change s.grantParents.get? c = some p at hc
    have hcne : c ≠ g.grantId := by
      rintro rfl
      rw [hpar] at hc
      cases hc
    have hpne : p ≠ g.grantId := by
      rintro rfl
      exact hkid c hc
    rw [hget, if_neg hcne] at hgc
    rw [hget, if_neg hpne] at hgp
    exact h.attenuated c p gc gp hc hgc hgp
  case index =>
    intro o x
    have hx := h.index o x
    cases owner with
    | none =>
      by_cases he : x = g.grantId
      · rw [he, hown] at hx
        simpa [store, he] using hx
      · simpa [store, he] using hx
    | some q =>
      by_cases he : x = g.grantId
      · rw [he, hown] at hx
        simp only [reduceCtorEq, iff_false] at hx
        simp [store, mem_add, he, hx, eq_comm (a := o)]
      · simp [store, mem_add, he, hx]

theorem forested_adopt {parent : CapabilityGrant} {p : String} (h : Forested [] s)
    (hg : s.grants.get? g.grantId = none) (hp : s.grants.get? p = some parent)
    (ha : Attenuates g parent) : Forested [] (s.adopt g p) := by
  have hs := forested_store (s.grantOwner p) h hg
  obtain ⟨-,hpar,-,-⟩ := unstored h hg
  have hne : p ≠ g.grantId := by
    rintro rfl
    rw [hg] at hp
    cases hp
  have hget : ∀ c q, (s.adopt g p).grantParents.get? c = some q ↔
      (c = g.grantId ∧ q = p) ∨ s.grantParents.get? c = some q := by
    intro c q
    change (s.grantParents.set g.grantId p).get? c = some q ↔ _
    rw [Dict.get_set]
    split_ifs with hc
    · simp [hc, hpar, eq_comm]
    · simp [hc]
  constructor
  case owned => exact hs.owned
  case named => exact hs.named
  case index => exact hs.index
  case child =>
    intro c q hc
    rcases (hget c q).mp hc with ⟨rfl,-⟩ | hc
    · simp [adopt, store]
    · exact hs.child c q hc
  case listed =>
    intro c q hc _
    rcases (hget c q).mp hc with ⟨rfl,rfl⟩ | hc
    · change [q,g.grantId].Sublist (s.store g (s.grantOwner q)).keys
      rw [store_keys _ hg]
      have hmem : q ∈ s.keys := (mem_keys q).mpr (by rw [hp]; rfl)
      exact (List.singleton_sublist.mpr hmem).append (List.Sublist.refl [g.grantId])
    · exact hs.listed c q hc (by simp)
  case kids =>
    intro c q hc
    rw [hget]
    rcases (mem_add s.grantChildren p q g.grantId c).mp hc with ⟨rfl,rfl⟩ | hc
    · exact Or.inl ⟨rfl,rfl⟩
    · exact Or.inr (h.kids c q hc)
  case parents =>
    intro c q hc _
    refine (mem_add s.grantChildren p q g.grantId c).mpr ?_
    rcases (hget c q).mp hc with ⟨rfl,rfl⟩ | hc
    · exact Or.inl ⟨rfl,rfl⟩
    · exact Or.inr (h.parents c q hc (by simp))
  case attenuated =>
    intro c q gc gq hc hgc hgq
    rcases (hget c q).mp hc with ⟨rfl,rfl⟩ | hc
    · simp only [adopt, store, Dict.get_set, if_true, Option.some.injEq] at hgc
      simp only [adopt, store, Dict.get_set, if_neg hne, hp, Option.some.injEq] at hgq
      rw [← hgc, ← hgq]
      exact ha
    · exact hs.attenuated c q gc gq hc hgc hgq

end Invariant

inductive Change (s : CapabilityAuthority) : Option String → CapabilityAuthority → Prop where
  | keep : Change s none s
  | root (g : CapabilityGrant) (owner : Option String) (hg : s.grants.get? g.grantId = none) :
    Change s (some g.grantId) (s.store g owner)
  | child (g parent : CapabilityGrant) (p : String) (hg : s.grants.get? g.grantId = none)
    (hp : s.grants.get? p = some parent) (ha : Attenuates g parent) :
    Change s (some g.grantId) (s.adopt g p)
  | revoke (id : String) : Change s none (s.revokeSubtree id)
  | bind (owners : Dict (String × String) String) (index : Dict String (List String))
    (hi : ∀ o, members index o = members s.ownerGrants o) :
    Change s none { s with activeOwners := owners, ownerGrants := index }
  | release (owner : String) : Change s none (s.releaseActivation owner)

section Steps
variable {s : CapabilityAuthority}
variable {g : CapabilityGrant} {t : CapabilityAuthority} {tenantId : String}

theorem register_change (h : s.register g = .ok t) : Change s (some g.grantId) t := by
  unfold register at h
  split_ifs at h with hc
  rw [Dict.contains, Option.not_isSome_iff_eq_none] at hc
  cases h
  exact .root g _ hc

theorem make_fields {grantId productId : String} {identities : Finset ToolIdentity}
    {capabilities : Finset String} {principal : Option String} {issuedAt expiresAt : ℤ}
    (h : CapabilityGrant.make grantId tenantId productId identities
      capabilities principal issuedAt expiresAt = .ok g) :
    g.tenantId = tenantId ∧ g.productId = productId ∧ g.toolIdentities = identities ∧
      g.capabilities = capabilities ∧ g.principalId = principal ∧ g.expiresAt = expiresAt := by
  unfold CapabilityGrant.make at h
  split_ifs at h
  cases h
  exact ⟨rfl,rfl,rfl,rfl,rfl,rfl⟩

theorem issue_change {args : IssueArgs} (h : s.issue args = .ok (t,g)) :
    Change s (some g.grantId) t := by
  have hin : ∀ tenant product : Identifier,
      (if args.lifetime ≤ 0 then .error (.valueError "grant lifetime must be positive")
      else do
        let grant ← CapabilityGrant.make args.grantId tenant.val product.val
          args.toolIdentities.toFinset args.capabilities.toFinset args.principalId args.now
          (args.now+args.lifetime)
        let s ← s.register grant
        .ok (s,grant) : Except AuthorityError (CapabilityAuthority × CapabilityGrant)) =
        .ok (t,g) → Change s (some g.grantId) t := by
    intro tenant product hi
    split_ifs at hi
    cases hm : CapabilityGrant.make args.grantId tenant.val product.val
        args.toolIdentities.toFinset args.capabilities.toFinset args.principalId args.now
        (args.now+args.lifetime) with
    | error e =>
      rw [hm] at hi
      cases hi
    | ok grant =>
      cases hr : s.register grant with
      | error e =>
        simp only [hm, hr, bind, Except.bind] at hi
        cases hi
      | ok u =>
        simp only [hm, hr, bind, Except.bind] at hi
        cases hi
        exact register_change hr
  unfold issue at h
  cases hs : args.scope with
  | root => simp [hs] at h
  | tenant _ => simp [hs] at h
  | product tenant product | agent tenant product _ _ =>
    simp only [hs] at h
    exact hin tenant product h

theorem issue_child_change (args : IssueChildArgs) (h : s.issueChild args = .ok (t,g)) :
    Change s (some g.grantId) t := by
  unfold issueChild at h
  cases hs : args.scope with
  | root | tenant _ | product _ _ => simp [hs] at h
  | agent tenant product _ _ =>
    simp only [hs] at h
    by_cases hl : args.lifetime ≤ 0
    · rw [if_pos hl] at h
      cases h
    rw [if_neg hl] at h
    cases hp : s.grants.get? args.parentGrantId with
    | none => simp [hp] at h
    | some parent =>
      simp only [hp] at h
      split_ifs at h with hlive hscope hprincipal hidentities hcapabilities
      cases hm : CapabilityGrant.make args.grantId parent.tenantId parent.productId
          args.toolIdentities.toFinset args.capabilities.toFinset (some args.principalId) args.now
          (min parent.expiresAt (args.now+args.lifetime)) with
      | error e =>
        rw [hm] at h
        cases h
      | ok grant =>
        obtain ⟨h1,h2,h3,h4,h5,h6⟩ := make_fields hm
        simp only [hm, bind, Except.bind] at h
        split_ifs at h with hc
        rw [Dict.contains, Option.not_isSome_iff_eq_none] at hc
        cases h
        refine .child g parent args.parentGrantId hc hp ⟨h1,h2,?_,?_,fun p hpp => ?_,?_⟩
        · rw [h3]
          exact hidentities
        · rw [h4]
          exact hcapabilities
        · rw [hpp] at hprincipal
          simp only [Option.any_some, decide_eq_true_eq, not_not] at hprincipal
          rw [h5, hprincipal]
        · rw [h6]
          exact min_le_left _ _

theorem bind_change {productIds : List String} {owner : String}
    (h : s.bindActivation tenantId productIds owner = .ok t) : Change s none t := by
  unfold bindActivation at h
  split_ifs at h with _ _ _ hc
  · cases h
    exact .bind _ _ (fun _ => rfl)
  · cases h
    refine .bind _ _ (fun o => ?_)
    rw [members_set]
    split_ifs with ho
    · rw [Dict.contains, Option.not_isSome_iff_eq_none] at hc
      rw [ho, members, hc]
      rfl
    · rfl

theorem step_change (s : CapabilityAuthority) (op : Op) :
    Change s (stored (op,(s.step op).2)) (s.step op).1 := by
  cases op with
  | register g =>
    cases h : s.register g with
    | error e =>
      simp only [step, h, answered, stored]
      exact .keep
    | ok t =>
      simp only [step, h, answered, stored]
      exact register_change h
  | issue args =>
    cases h : s.issue args with
    | error e =>
      simp only [step, h, answered, stored]
      exact .keep
    | ok t =>
      simp only [step, h, answered, stored]
      exact issue_change h
  | issueChild args =>
    cases h : s.issueChild args with
    | error e =>
      simp only [step, h, answered, stored]
      exact .keep
    | ok t =>
      simp only [step, h, answered, stored]
      exact issue_child_change args h
  | revoke id =>
    simp only [step, revoke, stored]
    split_ifs
    · exact .revoke id
    · exact .keep
  | bindActivation tenantId productIds owner =>
    cases h : s.bindActivation tenantId productIds owner with
    | error e =>
      simp only [step, h, answered, stored]
      exact .keep
    | ok t =>
      simp only [step, h, answered, stored]
      exact bind_change h
  | releaseActivation owner => exact .release owner

theorem change_forested {new : Option String} (h : Forested [] s) (hc : Change s new t) :
    Forested [] t := by
  cases hc with
  | keep => exact h
  | root g owner hg => exact forested_store owner h hg
  | child g parent p hg hp ha => exact forested_adopt h hg hp ha
  | revoke id => exact (revoke_subtree_spec id h).1
  | bind owners index hi => exact forested_owners owners (fun o x => by rw [hi, h.index]) h
  | release owner => exact (release_spec owner h).1

/-- A step that does not store an identifier leaves it as it was or removes it. -/
theorem change_kept {new : Option String} (h : Forested [] s) (hc : Change s new t) (x : String)
    (hx : new ≠ some x) :
    t.grants.get? x = none ∨
      t.grants.get? x = s.grants.get? x ∧ t.grantOwners.get? x = s.grantOwners.get? x := by
  cases hc with
  | keep => exact Or.inr ⟨rfl,rfl⟩
  | root g owner hg =>
    have hne : x ≠ g.grantId := fun he => hx (by rw [he])
    exact Or.inr (by simp [store, hne])
  | child g parent p hg hp ha =>
    have hne : x ≠ g.grantId := fun he => hx (by rw [he])
    exact Or.inr (by simp [adopt, store, hne])
  | revoke id => exact (revoke_subtree_spec id h).2.1 x
  | bind owners index hi => exact Or.inr ⟨rfl,rfl⟩
  | release owner => exact (release_spec owner h).2.1 x

end Steps

section Runs
variable {s : CapabilityAuthority}

theorem forested_run (h : Forested [] s) (ops : List Op) :
    Forested [] (Machine.final step s ops) :=
  Machine.final_invariant step (Forested [])
    (fun t op ht => change_forested ht (step_change t op)) s ops h

def Unstored (x : String) (s : CapabilityAuthority) (ops : List Op) : Prop :=
  ∀ e ∈ Machine.trace step s ops, stored e ≠ some x

theorem kept_run (h : Forested [] s) {x : String} {ops : List Op} (hx : Unstored x s ops) :
    (Machine.final step s ops).grants.get? x = none ∨
      (Machine.final step s ops).grants.get? x = s.grants.get? x ∧
      (Machine.final step s ops).grantOwners.get? x = s.grantOwners.get? x := by
  induction ops generalizing s with
  | nil => exact Or.inr ⟨rfl,rfl⟩
  | cons op ops ih =>
    have hc := step_change s op
    have hfirst := change_kept h hc x (hx _ List.mem_cons_self)
    have hrest := ih (change_forested h hc) (fun e he => hx e (List.mem_cons_of_mem _ he))
    rcases hrest with hn | ⟨hg,ho⟩
    · exact Or.inl hn
    · rw [Machine.final, hg, ho]
      exact hfirst

theorem absent_run (h : Forested [] s) {x : String} {ops : List Op} (hx : Unstored x s ops)
    (hn : s.grants.get? x = none) : (Machine.final step s ops).grants.get? x = none := by
  rcases kept_run h hx with hk | ⟨hk,-⟩
  · exact hk
  · exact hk.trans hn

theorem resolve_absent (x : String) (now : ℤ) (hn : s.grants.get? x = none) :
    s.resolve now x = none := by
  unfold resolve
  rw [hn]

theorem resolve_child (h : Forested [] s) {now : ℤ} {c : String} {g : CapabilityGrant}
    (hc : (s.grantParents.get? c).isSome) (hr : s.resolve now c = some g) (a : String)
    (ha : Descends s.grantParents.get? c a) :
    ∃ ga, s.grants.get? a = some ga ∧ now < ga.expiresAt ∧ s.grantOwner a = s.currentOwner ga := by
  have hlive : s.grantLive now c = true := by
    unfold resolve at hr
    cases hg : s.grants.get? c with
    | none =>
      rw [hg] at hr
      cases hr
    | some grant =>
      rw [hg] at hr
      simp only [Dict.contains, hc, if_true] at hr
      split_ifs at hr with hl
      exact hl
  have hidx : s.keys.idxOf c < s.grants.size+1 := by
    have hle := List.idxOf_le_length (a := c) (l := s.keys)
    rw [keys, List.length_map] at hle
    exact Nat.lt_succ_of_le hle
  have hall := (climb_iff s.grants.nodup (fun c p hp => h.listed c p hp (by simp)) _ _ c hidx).mp
    hlive a ha
  unfold liveHere at hall
  cases hg : s.grants.get? a with
  | none =>
    rw [hg] at hall
    cases hall
  | some ga =>
    rw [hg, Bool.and_eq_true, decide_eq_true_eq, decide_eq_true_eq] at hall
    exact ⟨ga,rfl,hall.1,hall.2⟩

theorem revoke_removes (h : Forested [] s) {g x : String}
    (hd : Descends s.grantParents.get? x g) : (s.step (.revoke g)).1.grants.get? x = none := by
  simp only [step, revoke]
  split_ifs with hc
  · exact (revoke_subtree_spec g h).2.2 x hd
  · rw [Dict.contains, Option.not_isSome_iff_eq_none] at hc
    rcases Relation.ReflTransGen.cases_tail hd with rfl | ⟨c,-,hcg⟩
    · exact hc
    · exact absurd hcg ((unstored h hc).2.2.1 c)

structure AttenuatedForest (s : CapabilityAuthority) : Prop where
  inverse : ∀ c p, s.grantParents.get? c = some p ↔ c ∈ members s.grantChildren p
  acyclic : ∀ c, ¬ Relation.TransGen (ChildOf s.grantParents.get?) c c
  attenuated : ∀ c p, s.grantParents.get? c = some p → ∃ gc gp, s.grants.get? c = some gc ∧
    s.grants.get? p = some gp ∧ Attenuates gc gp
  resolved : ∀ now c g, (s.grantParents.get? c).isSome → s.resolve now c = some g →
    ∀ a, Descends s.grantParents.get? c a → ∃ ga, s.grants.get? a = some ga ∧
      now < ga.expiresAt ∧ s.grantOwner a = s.currentOwner ga
  revoked : ∀ g x later now, Descends s.grantParents.get? x g →
    Unstored x (s.step (.revoke g)).1 later →
    (Machine.final step s (.revoke g::later)).resolve now x = none
  released : ∀ o x between later now, s.grantOwners.get? x = some (some o) →
    Unstored x s (between ++ .releaseActivation o::later) →
    (Machine.final step s (between ++ .releaseActivation o::later)).resolve now x = none

theorem capability_attenuation (ops : List Op) :
    AttenuatedForest (Machine.final step init ops) := by
  have h := forested_run forested_init ops
  revert h
  generalize Machine.final step init ops = s
  intro h
  refine ⟨fun c p => ⟨fun hc => h.parents c p hc (by simp),h.kids c p⟩,?_,?_,?_,?_,?_⟩
  · exact listed_acyclic s.grants.nodup (fun c p hp => h.listed c p hp (by simp))
  · intro c p hc
    obtain ⟨gc,hgc⟩ := Option.isSome_iff_exists.mp (h.child c p hc)
    have hp : (s.grants.get? p).isSome :=
      (mem_keys p).mp ((h.listed c p hc (by simp)).subset (by simp))
    obtain ⟨gp,hgp⟩ := Option.isSome_iff_exists.mp hp
    exact ⟨gc,gp,hgc,hgp,h.attenuated c p gc gp hc hgc hgp⟩
  · intro now c g hc hr
    exact resolve_child h hc hr
  · intro g x later now hd hx
    exact resolve_absent x now (absent_run (change_forested h (step_change s _)) hx
      (revoke_removes h hd))
  · intro o x between later now ho hx
    rw [Machine.final_append]
    unfold Unstored at hx
    rw [Machine.trace_append] at hx
    have hmid := forested_run h between
    have hlater : Unstored x ((Machine.final step s between).releaseActivation o) later :=
      fun e he => hx e (List.mem_append_right _ (List.mem_cons_of_mem _ he))
    have hgone : ((Machine.final step s between).releaseActivation o).grants.get? x = none := by
      obtain ⟨-,hshrink,hrel⟩ := release_spec o hmid
      rcases kept_run h (fun e he => hx e (List.mem_append_left _ he)) with hn | ⟨-,hk⟩
      · rcases hshrink x with hr | ⟨hr,-⟩
        · exact hr
        · exact hr.trans hn
      · exact hrel x (hk.trans ho)
    exact resolve_absent x now (absent_run (release_spec o hmid).1 hlater hgone)

end Runs

theorem no_names : ∀ c ∈ (∅ : Finset String), isName c = true := by simp

theorem root_window : (0 : ℤ) < 100 := by decide

def rootGrant : CapabilityGrant where
  grantId := "grant-root"
  tenantId := "tenant"
  productId := "product"
  toolIdentities := ∅
  capabilities := ∅
  principalId := none
  issuedAt := 0
  expiresAt := 100
  ids := by decide
  principal := .refl true
  names := no_names
  window := root_window

def childGrant : CapabilityGrant where
  grantId := "grant-child"
  tenantId := "tenant"
  productId := "product"
  toolIdentities := ∅
  capabilities := ∅
  principalId := some "principal"
  issuedAt := 1
  expiresAt := 11
  ids := by decide
  principal := .refl true
  names := no_names
  window := by decide

def reregistration : List Op :=
  [.register rootGrant,
   .issueChild ⟨"grant-child","grant-root",.agent ⟨"tenant",.refl true⟩ ⟨"product",.refl true⟩
     ⟨"agent",.refl true⟩ ⟨"session",.refl true⟩,[],[],"principal",10,1⟩,
   .revoke "grant-root",
   .register childGrant]

theorem reregistered_child_resolves :
    (Machine.trace step init reregistration).map (fun e => e.2) =
      [.ok .done,.ok (.granted childGrant),.ok (.revoked true),.ok .done] ∧
    (Machine.final step init (reregistration.take 2)).grantParents.get? "grant-child" =
      some "grant-root" ∧
    (Machine.final step init (reregistration.take 3)).resolve 2 "grant-child" = none ∧
    (Machine.final step init reregistration).resolve 2 "grant-child" = some childGrant := by
  decide

end CapabilityAuthority
end SuiteHarness.Execution
