import SuiteHarness.Library.Results
import SuiteHarness.Runtime.CustomerBundle

/-!
# A customer bundle plan cannot be forged

The constructor accepts what the resolver builds and nothing else: an accepted
plan is the one that the resolver makes from the same manifest and descriptors.
It lists the products by id, whatever order they were supplied in, and a snapshot
restores it from the trusted copies.
-/

set_option autoImplicit false

namespace SuiteHarness.Runtime.CustomerBundle
open SuiteHarness.Library SuiteHarness.Library.Results

variable {χ ρ κ : Type}

theorem valid_nodup {pkg : Packaging} {m : CustomerBundleManifest ρ} (h : m.valid pkg = true) :
    m.selected.Nodup := by
  simp only [CustomerBundleManifest.valid, Bool.and_eq_true, decide_eq_true_eq] at h
  exact h.1.1.2

theorem manifest_selections_eq {m : CustomerBundleManifest ρ} (h : m.selected.Nodup) :
    manifestSelections m = Dict.keyed CustomerProductSelection.productId h :=
  Dict.set_keyed _ h

section Plan

variable [DecidableEq ρ] [DecidableEq κ] {models : Models χ ρ κ}

structure Genuine (models : Models χ ρ κ) (harnessVersion : String)
    (manifest : CustomerBundleManifest ρ) (p : ResolvedCustomerProduct χ ρ κ) : Prop where
  selected : p.selection ∈ manifest.products
  descriptor : descriptorValid models p.descriptor = true
  productId : p.descriptor.productId = p.selection.productId
  version : p.selection.accepts models.toPackaging p.descriptor.version = true
  harness : p.descriptor.supportsHarness models.toPackaging harnessVersion = true
  config : models.parseConfig p.descriptor.configModel p.selection.config = some p.trustedConfig

theorem canonical_ok_iff {harnessVersion : String} {manifest : CustomerBundleManifest ρ}
    (hnodup : manifest.selected.Nodup) (p result : ResolvedCustomerProduct χ ρ κ) :
    canonicalProduct models harnessVersion (manifestSelections manifest) p = .ok result ↔
      Genuine models harnessVersion manifest p ∧
        result = .make p.selection p.descriptor p.trustedConfig := by
  rw [manifest_selections_eq hnodup, canonicalProduct]
  constructor
  · intro h
    cases hget : (Dict.keyed CustomerProductSelection.productId hnodup).get?
        p.selection.productId with
    | none =>
      rw [hget] at h
      cases h
    | some selection =>
      rw [hget] at h
      simp only at h
      split_ifs at h with hselection hdescriptor hid haccepts hharness
      rw [ne_eq, not_not] at hselection hid
      subst hselection
      cases hparse : models.parseConfig p.descriptor.configModel p.selection.config with
      | none =>
        rw [hparse] at h
        cases h
      | some config =>
        rw [hparse] at h
        simp only at h
        split_ifs at h with hconfig
        rw [ne_eq, not_not] at hconfig
        subst hconfig
        cases h
        exact ⟨⟨((Dict.get_keyed _ hnodup _ _).mp hget).1,by simpa using hdescriptor,hid,
          by simpa using haccepts,by simpa using hharness,hparse⟩,rfl⟩
  · rintro ⟨h,rfl⟩
    have hget := (Dict.get_keyed CustomerProductSelection.productId hnodup p.selection.productId
      p.selection).mpr ⟨h.selected,rfl⟩
    rw [hget]
    simp [h.descriptor, h.productId, h.version, h.harness, h.config]

end Plan

def supplied (products : List (ResolvedCustomerProduct χ ρ κ)) :
    List (ResolvedCustomerProduct χ ρ κ) :=
  sortBy (fun p => p.selection.productId) (products.map ResolvedCustomerProduct.snapshot)

open ResolvedCustomerProduct

theorem supplied_ids (products : List (ResolvedCustomerProduct χ ρ κ)) :
    (products.map snapshot).map (fun p => p.selection.productId) =
      products.map (fun p => p.trustedSelection.productId) := by
  rw [List.map_map]
  rfl

theorem mem_supplied {products : List (ResolvedCustomerProduct χ ρ κ)}
    {p : ResolvedCustomerProduct χ ρ κ} :
    p ∈ supplied products ↔ ∃ q ∈ products, q.snapshot = p := by
  rw [supplied, (sort_by_perm _ _).mem_iff, List.mem_map]

theorem supplied_snapshot {products : List (ResolvedCustomerProduct χ ρ κ)}
    {p : ResolvedCustomerProduct χ ρ κ} (h : p ∈ supplied products) :
    .make p.selection p.descriptor p.trustedConfig = p := by
  obtain ⟨q,-,rfl⟩ := mem_supplied.mp h
  rfl

theorem selection_keys {manifest : CustomerBundleManifest ρ} (hnodup : manifest.selected.Nodup) :
    (manifestSelections manifest).entries.map Prod.fst = manifest.selected := by
  rw [manifest_selections_eq hnodup]
  exact List.map_map

theorem get_sorted_items {β : Type} (d : Dict String β) (k : String) :
    (sortedItems d).get? k = d.get? k := by
  apply Option.ext
  intro v
  rw [Dict.get_mem, Dict.get_mem]
  exact (sort_by_perm Prod.fst d.entries).mem_iff

variable {selections : List (CustomerProductSelection ρ)}

/-- Validation does not look at the order of the selections. -/
theorem valid_perm (pkg : Packaging) {manifest : CustomerBundleManifest ρ}
    (hperm : selections.Perm manifest.products) :
    ({ manifest with products := selections } : CustomerBundleManifest ρ).valid pkg =
      manifest.valid pkg := by
  have hselected : (({ manifest with products := selections } :
      CustomerBundleManifest ρ).selected).Perm manifest.selected := hperm.map _
  have hall : selections.all (fun s => s.valid pkg) = manifest.products.all (fun s => s.valid pkg) :=
    hperm.all_eq
  have hempty : selections.isEmpty = manifest.products.isEmpty := by
    rw [Bool.eq_iff_iff, List.isEmpty_iff, List.isEmpty_iff]
    exact ⟨fun h => (h ▸ hperm).nil_eq.symm,fun h => (h ▸ hperm).eq_nil⟩
  simp only [CustomerBundleManifest.valid, hall, hempty, hselected.nodup_iff, hselected.mem_iff]

section Plan

variable [DecidableEq ρ] [DecidableEq κ] {models : Models χ ρ κ}

theorem canonical_all {harnessVersion : String} {manifest : CustomerBundleManifest ρ}
    (hnodup : manifest.selected.Nodup) (products canonical : List (ResolvedCustomerProduct χ ρ κ)) :
    (supplied products).mapM
        (canonicalProduct models harnessVersion (manifestSelections manifest)) = .ok canonical ↔
      (∀ p ∈ supplied products, Genuine models harnessVersion manifest p) ∧
        canonical = supplied products := by
  have hself : (∀ p ∈ supplied products, Genuine models harnessVersion manifest p) →
      (supplied products).mapM
        (canonicalProduct models harnessVersion (manifestSelections manifest)) =
          .ok (supplied products) := by
    intro hall
    have hmap := mapM_of_ok (f := canonicalProduct models harnessVersion
      (manifestSelections manifest)) id (l := supplied products) (fun p hp =>
        (canonical_ok_iff hnodup p p).mpr ⟨hall p hp,(supplied_snapshot hp).symm⟩)
    rwa [List.map_id] at hmap
  constructor
  · intro h
    have hall : ∀ p ∈ supplied products, Genuine models harnessVersion manifest p := by
      intro p hp
      obtain ⟨result,_,hresult⟩ := mapM_ok_mem h p hp
      exact ((canonical_ok_iff hnodup p result).mp hresult).1
    rw [hself hall] at h
    exact ⟨hall,(Except.ok.inj h).symm⟩
  · rintro ⟨hall,rfl⟩
    exact hself hall

theorem make_ok_iff {manifest : CustomerBundleManifest ρ} {harnessVersion : String}
    {products : List (ResolvedCustomerProduct χ ρ κ)} {sharing : Customer360SharingPlan}
    (plan : CustomerBundlePlan χ ρ κ) :
    makePlan models manifest harnessVersion products sharing = .ok plan ↔
      manifest.valid models.toPackaging = true ∧
      manifest.supportsHarness models.toPackaging harnessVersion = true ∧
      (products.map (fun p => p.trustedSelection.productId)).Perm manifest.selected ∧
      (∀ p ∈ supplied products, Genuine models harnessVersion manifest p) ∧
      sharing = sharingPlanFromManifest manifest ∧
      plan = ⟨manifest,harnessVersion,supplied products,sharing,manifest⟩ := by
  have hsame : sortBy (fun p => p.selection.productId)
      (products.map snapshot) = supplied products := rfl
  constructor
  · intro h
    have hvalid : manifest.valid models.toPackaging = true := by
      by_contra hnot
      rw [Bool.not_eq_true] at hnot
      simp [makePlan, hnot] at h
    have hharness : manifest.supportsHarness models.toPackaging harnessVersion = true := by
      by_contra hnot
      rw [Bool.not_eq_true] at hnot
      simp [makePlan, hvalid, hnot] at h
    have hnodup := valid_nodup hvalid
    simp only [makePlan, hvalid, hharness, Bool.not_true, Bool.false_eq_true, if_false,
      supplied_ids, selection_keys hnodup, hsame] at h
    cases hmap : (supplied products).mapM
        (canonicalProduct models harnessVersion (manifestSelections manifest)) with
    | error e =>
      rw [hmap] at h
      split_ifs at h
    | ok canonical =>
      rw [hmap] at h
      split_ifs at h with hmismatch hrepeated hdiffer hsharing
      rw [ne_eq, not_not] at hsharing hdiffer
      obtain ⟨hall,rfl⟩ := (canonical_all hnodup products canonical).mp hmap
      refine ⟨hvalid,hharness,?_,hall,hsharing,?_⟩
      · exact List.perm_of_nodup_nodup_toFinset_eq hrepeated hnodup hdiffer
      · rw [hsharing]
        exact (Except.ok.inj h).symm
  · rintro ⟨hvalid,hharness,hperm,hall,rfl,rfl⟩
    have hnodup := valid_nodup hvalid
    have hmap := (canonical_all hnodup products (supplied products)).mpr ⟨hall,rfl⟩
    have hmatch : (products.map snapshot).any
        (fun p => decide (p.descriptor.productId ≠ p.selection.productId)) = false := by
      rw [List.any_eq_false]
      intro p hp
      have hgenuine := hall p (mem_supplied.mpr (List.mem_map.mp hp))
      simp [hgenuine.productId]
    have hfinset : (products.map (fun p => p.trustedSelection.productId)).toFinset =
        manifest.selected.toFinset := List.toFinset_eq_of_perm _ _ hperm
    rw [makePlan]
    simp only [supplied_ids, selection_keys hnodup, hsame, hvalid, hharness, hmatch, hfinset, hmap]
    simp [hperm.nodup_iff.mpr hnodup]

section Accepted

variable {manifest : CustomerBundleManifest ρ} {harnessVersion : String}
  {products : List (ResolvedCustomerProduct χ ρ κ)} {sharing : Customer360SharingPlan}
  {plan : CustomerBundlePlan χ ρ κ}
  (h : makePlan models manifest harnessVersion products sharing = .ok plan)
include h

theorem accepted_ids_nodup : ((products.map snapshot).map
    (fun p => p.selection.productId)).Nodup := by
  obtain ⟨hvalid,-,hperm,-⟩ := (make_ok_iff plan).mp h
  rw [supplied_ids]
  exact hperm.nodup_iff.mpr (valid_nodup hvalid)

/-- The constructor looks at the trusted copies only, in no particular order. -/
theorem make_again (others : List (ResolvedCustomerProduct χ ρ κ))
    (hothers : (others.map snapshot).Perm
      (products.map snapshot)) :
    makePlan models manifest harnessVersion others sharing = .ok plan := by
  have hsupplied : supplied others = supplied products :=
    sort_by_of_perm _ hothers (accepted_ids_nodup h)
  obtain ⟨hvalid,hharness,hperm,hall,hsharing,rfl⟩ := (make_ok_iff plan).mp h
  refine (make_ok_iff _).mpr ⟨hvalid,hharness,?_,hsupplied ▸ hall,hsharing,by rw [hsupplied]⟩
  have hids := hothers.map (fun p => p.selection.productId)
  rw [supplied_ids, supplied_ids] at hids
  exact hids.trans hperm

theorem plan_snapshots : plan.products.map snapshot = plan.products := by
  obtain ⟨-,-,-,-,-,rfl⟩ := (make_ok_iff plan).mp h
  conv_rhs => rw [← List.map_id (supplied products)]
  apply List.map_congr_left
  intro p hp
  obtain ⟨q,-,rfl⟩ := mem_supplied.mp hp
  rfl

theorem plan_perm : plan.products.Perm (products.map snapshot) := by
  obtain ⟨-,-,-,-,-,rfl⟩ := (make_ok_iff plan).mp h
  exact sort_by_perm _ _

theorem make_plan_again : makePlan models plan.manifest plan.harnessVersion plan.products
    plan.sharing = .ok plan := by
  have hagain := make_again h plan.products (by
    rw [plan_snapshots h]
    exact plan_perm h)
  obtain ⟨-,-,-,-,-,rfl⟩ := (make_ok_iff plan).mp h
  exact hagain

theorem plan_sorted : plan.products.Pairwise
    (fun a b => a.selection.productId < b.selection.productId) := by
  have hids := accepted_ids_nodup h
  obtain ⟨-,-,-,-,-,rfl⟩ := (make_ok_iff plan).mp h
  have hsorted := sort_by_sorted (fun p : ResolvedCustomerProduct χ ρ κ => p.selection.productId)
    (products.map snapshot)
  have hdistinct : ((supplied products).map (fun p => p.selection.productId)).Nodup :=
    ((sort_by_perm _ _).map _).nodup_iff.mpr hids
  rw [List.Nodup, List.pairwise_map] at hdistinct
  exact (hsorted.and hdistinct).imp (fun hab => lt_of_le_of_ne hab.1 hab.2)

theorem plan_selections :
    (plan.products.map selection).Perm manifest.products := by
  have hsorted := plan_sorted h
  obtain ⟨hvalid,-,hperm,hall,-,rfl⟩ := (make_ok_iff plan).mp h
  have hnodup : ((supplied products).map selection).Nodup := by
    rw [List.Nodup, List.pairwise_map]
    refine hsorted.imp ?_
    intro a b hlt heq
    rw [heq] at hlt
    exact lt_irrefl _ hlt
  have hsub : (supplied products).map selection ⊆ manifest.products := by
    intro s hs
    obtain ⟨p,hp,rfl⟩ := List.mem_map.mp hs
    exact (hall p hp).selected
  refine (List.subperm_of_subset hnodup hsub).perm_of_length_le ?_
  have hlength := hperm.length_eq
  have hsupplied := (sort_by_perm (fun p => p.selection.productId)
    (products.map snapshot)).length_eq
  simp only [CustomerBundleManifest.selected, List.length_map] at hlength hsupplied ⊢
  exact le_of_eq (hlength.symm.trans hsupplied.symm)

theorem accepted_catalog : ∃ catalog,
    productCatalog (products.map descriptor) = .ok catalog ∧
    ∀ p ∈ plan.products, catalog.get? p.selection.productId = some p.descriptor := by
  have hids := accepted_ids_nodup h
  obtain ⟨-,-,-,hall,-,rfl⟩ := (make_ok_iff plan).mp h
  have hkeys : (products.map descriptor).map ProductDescriptor.productId =
      (products.map snapshot).map (fun p => p.selection.productId) := by
    rw [List.map_map, List.map_map]
    apply List.map_congr_left
    intro q hq
    exact (hall q.snapshot (mem_supplied.mpr ⟨q,hq,rfl⟩)).productId
  have hnodup := hkeys.symm ▸ hids
  refine ⟨sortedItems (Dict.keyed ProductDescriptor.productId hnodup),?_,fun p hp => ?_⟩
  · rw [productCatalog, Dict.claim_keyed ProductDescriptor.productId hnodup]
    rfl
  · obtain ⟨q,hq,rfl⟩ := mem_supplied.mp hp
    rw [get_sorted_items, Dict.get_keyed]
    exact ⟨List.mem_map.mpr ⟨q,hq,rfl⟩,(hall _ hp).productId⟩

theorem accepted_resolved {catalog : ProductCatalog χ}
    (hcatalog : ∀ p ∈ plan.products, catalog.get? p.selection.productId = some p.descriptor) :
    (sortBy CustomerProductSelection.productId manifest.products).mapM
      (resolveProduct models harnessVersion catalog) = .ok plan.products := by
  have hperm := plan_selections h
  have hsorted := plan_sorted h
  obtain ⟨hvalid,-,-,hall,-,rfl⟩ := (make_ok_iff plan).mp h
  have hselections : sortBy CustomerProductSelection.productId manifest.products =
      (supplied products).map selection := by
    refine (sorted_unique CustomerProductSelection.productId
      (hperm.trans (sort_by_perm _ manifest.products).symm) ?_ (sort_by_sorted _ _) ?_).symm
    · exact ((sort_by_perm _ manifest.products).map _).nodup_iff.mpr (valid_nodup hvalid)
    · rw [List.pairwise_map]
      exact hsorted.imp (fun hlt => le_of_lt hlt)
  rw [hselections, List.mapM_map]
  have hmap := mapM_of_ok id (f := resolveProduct models harnessVersion catalog ∘
      selection) (l := supplied products) (fun p hp => by
    have hgenuine := hall p hp
    simp only [Function.comp, resolveProduct, hcatalog p hp, hgenuine.version, hgenuine.harness,
      hgenuine.config]
    simp [supplied_snapshot hp])
  rw [List.map_id] at hmap
  exact hmap

/-- What the constructor accepts is what the resolver makes. -/
theorem accepted_resolves : ∃ catalog,
    productCatalog (products.map descriptor) = .ok catalog ∧
    resolveCustomerBundle models (.model manifest) catalog (.version harnessVersion) =
      .ok plan := by
  obtain ⟨catalog,hcatalog,hget⟩ := accepted_catalog h
  have hresolved := accepted_resolved h hget
  have hagain := make_plan_again h
  obtain ⟨-,hharness,-,-,hsharing,rfl⟩ := (make_ok_iff plan).mp h
  refine ⟨catalog,hcatalog,?_⟩
  simp only [resolveCustomerBundle, ManifestInput.parsed, HarnessVersion.parsed, hharness,
    hresolved, ← hsharing, hagain]
  rfl

end Accepted

theorem resolve_makes {input : ManifestInput ρ} {catalog : ProductCatalog χ}
    {harness : HarnessVersion} {plan : CustomerBundlePlan χ ρ κ}
    (h : resolveCustomerBundle models input catalog harness = .ok plan) :
    ∃ manifest version products sharing,
      makePlan models manifest version products sharing = .ok plan := by
  rw [resolveCustomerBundle] at h
  cases hparsed : input.parsed models.toPackaging with
  | error e =>
    rw [hparsed] at h
    cases h
  | ok manifest =>
    rw [hparsed] at h
    simp only at h
    cases hversion : harness.parsed models.toPackaging with
    | error text =>
      rw [hversion] at h
      cases h
    | ok version =>
      rw [hversion] at h
      simp only at h
      cases hresolved : (sortBy CustomerProductSelection.productId manifest.products).mapM
          (resolveProduct models version catalog) with
      | error e =>
        rw [hresolved] at h
        split_ifs at h
      | ok resolved =>
        rw [hresolved] at h
        split_ifs at h
        simp only at h
        refine ⟨manifest,version,resolved,sharingPlanFromManifest manifest,?_⟩
        cases hmake : makePlan models manifest version resolved
            (sharingPlanFromManifest manifest) with
        | error e =>
          rw [hmake] at h
          cases h
        | ok made =>
          rw [hmake] at h
          cases h
          rfl

section Order

variable (models) (manifest : CustomerBundleManifest ρ) (harnessVersion : String)
  (products : List (ResolvedCustomerProduct χ ρ κ)) (sharing : Customer360SharingPlan)

theorem make_products_perm {others : List (ResolvedCustomerProduct χ ρ κ)}
    (hperm : others.Perm products) :
    makePlan models manifest harnessVersion others sharing =
      makePlan models manifest harnessVersion products sharing := by
  have hsnapshots := hperm.map snapshot
  have hids := hsnapshots.map (fun p => p.selection.productId)
  have hany : ∀ f, (others.map snapshot).any f =
      (products.map snapshot).any f := fun f => hsnapshots.any_eq
  simp only [makePlan, hany, hids.nodup_iff, List.toFinset_eq_of_perm _ _ hids]
  by_cases hnodup : ((products.map snapshot).map
      (fun p => p.selection.productId)).Nodup
  · rw [sort_by_of_perm _ hsnapshots hnodup]
  · simp only [hnodup, not_false_eq_true, if_true]

/-- The order of the selections shows in the manifest of the plan only. -/
theorem make_selections_perm (hperm : selections.Perm manifest.products) :
    makePlan models { manifest with products := selections } harnessVersion products sharing =
      (makePlan models manifest harnessVersion products sharing).map (fun plan =>
        { plan with
          manifest := { manifest with products := selections }
          trustedManifest := { manifest with products := selections } }) := by
  have hvalid := valid_perm models.toPackaging hperm
  cases hm : manifest.valid models.toPackaging with
  | false => simp [makePlan, hvalid, hm, Except.map]
  | true =>
    have hnodup := valid_nodup hm
    have hother : ({ manifest with products := selections } : CustomerBundleManifest ρ).selected.Nodup :=
      valid_nodup (hvalid.trans hm)
    have hget : (manifestSelections { manifest with products := selections }).get? =
        (manifestSelections manifest).get? := by
      rw [manifest_selections_eq hnodup, manifest_selections_eq hother]
      exact Dict.keyed_perm _ hnodup hother hperm
    have hcanonical : canonicalProduct models harnessVersion
        (manifestSelections { manifest with products := selections }) =
        canonicalProduct models harnessVersion (manifestSelections manifest) := by
      funext p
      rw [canonicalProduct, canonicalProduct, hget]
    have hkeys : ({ manifest with products := selections } :
        CustomerBundleManifest ρ).selected.toFinset = manifest.selected.toFinset :=
      List.toFinset_eq_of_perm _ _ (hperm.map _)
    have hsharing : sharingPlanFromManifest { manifest with products := selections } =
        sharingPlanFromManifest manifest := rfl
    have hharness : ({ manifest with products := selections } :
        CustomerBundleManifest ρ).supportsHarness models.toPackaging harnessVersion =
          manifest.supportsHarness models.toPackaging harnessVersion := rfl
    simp only [makePlan, hvalid, hm, hharness, selection_keys hnodup, selection_keys hother, hkeys,
      hcanonical, hsharing]
    cases (sortBy (fun p => p.selection.productId)
        (products.map snapshot)).mapM
          (canonicalProduct models harnessVersion (manifestSelections manifest)) with
    | error e => split_ifs <;> rfl
    | ok canonical => split_ifs <;> rfl

end Order

end Plan

def CustomerBundlePlan.mutated (plan : CustomerBundlePlan χ ρ κ)
    (manifest : CustomerBundleManifest ρ)
    (selection : ResolvedCustomerProduct χ ρ κ → CustomerProductSelection ρ)
    (config : ResolvedCustomerProduct χ ρ κ → κ) : CustomerBundlePlan χ ρ κ :=
  { plan with
    manifest := manifest
    products := plan.products.map (fun p =>
      { p with selection := selection p, config := config p }) }

theorem mutated_snapshot [DecidableEq ρ] [DecidableEq κ] {models : Models χ ρ κ}
    {manifest : CustomerBundleManifest ρ} {harnessVersion : String}
    {products : List (ResolvedCustomerProduct χ ρ κ)} {sharing : Customer360SharingPlan}
    {plan : CustomerBundlePlan χ ρ κ}
    (h : makePlan models manifest harnessVersion products sharing = .ok plan)
    (other : CustomerBundleManifest ρ)
    (selection : ResolvedCustomerProduct χ ρ κ → CustomerProductSelection ρ)
    (config : ResolvedCustomerProduct χ ρ κ → κ) :
    (plan.mutated other selection config).snapshot models = .ok plan := by
  have hsnapshots : ((plan.mutated other selection config).products.map
      snapshot).map snapshot = plan.products := by
    conv_rhs => rw [← plan_snapshots h]
    rw [CustomerBundlePlan.mutated, List.map_map, List.map_map]
    rfl
  have hagain := make_again h _ (hsnapshots ▸ plan_perm h)
  obtain ⟨-,-,-,-,-,rfl⟩ := (make_ok_iff plan).mp h
  exact hagain

/-- The constructor and the resolver accept exactly each other's results. -/
theorem customer_plan_unforgeable [DecidableEq ρ] [DecidableEq κ] (models : Models χ ρ κ) :
    (∀ manifest harnessVersion (products : List (ResolvedCustomerProduct χ ρ κ)) sharing plan,
      makePlan models manifest harnessVersion products sharing = .ok plan →
      (∃ catalog, productCatalog (products.map descriptor) = .ok catalog ∧
        resolveCustomerBundle models (.model manifest) catalog (.version harnessVersion) =
          .ok plan) ∧
      plan.manifest = manifest ∧ plan.sharing = sharingPlanFromManifest manifest ∧
      plan.products.Pairwise (fun a b => a.selection.productId < b.selection.productId) ∧
      (plan.products.map selection).Perm manifest.products ∧
      (∀ p ∈ plan.products, p.descriptor.productId = p.selection.productId ∧
        models.parseConfig p.descriptor.configModel p.selection.config = some p.config) ∧
      ∀ other selection config, (plan.mutated other selection config).snapshot models = .ok plan) ∧
    (∀ manifest harnessVersion (products others : List (ResolvedCustomerProduct χ ρ κ)) sharing,
      others.Perm products → makePlan models manifest harnessVersion others sharing =
        makePlan models manifest harnessVersion products sharing) ∧
    (∀ (manifest : CustomerBundleManifest ρ) harnessVersion
      (products : List (ResolvedCustomerProduct χ ρ κ)) sharing selections,
      selections.Perm manifest.products →
        makePlan models { manifest with products := selections } harnessVersion products sharing =
          (makePlan models manifest harnessVersion products sharing).map (fun plan =>
            { plan with
              manifest := { manifest with products := selections }
              trustedManifest := { manifest with products := selections } })) ∧
    ∀ input catalog harness (plan : CustomerBundlePlan χ ρ κ),
      resolveCustomerBundle models input catalog harness = .ok plan →
        makePlan models plan.manifest plan.harnessVersion plan.products plan.sharing =
          .ok plan := by
  refine ⟨fun manifest harnessVersion products sharing plan h => ?_,
    fun manifest harnessVersion products _ sharing hperm =>
      make_products_perm models manifest harnessVersion products sharing hperm,
    fun manifest harnessVersion products sharing _ hperm =>
      make_selections_perm models manifest harnessVersion products sharing hperm,
    fun input catalog harness plan h => ?_⟩
  · refine ⟨accepted_resolves h,?_,?_,plan_sorted h,plan_selections h,fun p hp => ?_,
      mutated_snapshot h⟩
    · obtain ⟨-,-,-,-,-,rfl⟩ := (make_ok_iff plan).mp h
      rfl
    · obtain ⟨-,-,-,-,hsharing,rfl⟩ := (make_ok_iff plan).mp h
      exact hsharing
    · obtain ⟨-,-,-,hall,-,rfl⟩ := (make_ok_iff plan).mp h
      have hconfig := (hall p hp).config
      obtain ⟨q,-,rfl⟩ := mem_supplied.mp hp
      exact ⟨(hall _ hp).productId,hconfig⟩
  · obtain ⟨manifest,version,products,sharing,hmake⟩ := resolve_makes h
    exact make_plan_again hmake

namespace Duo

def models : Models Unit String ℕ where
  parse := some
  isSpecifier _ := true
  contains specifier version := decide (specifier = "any" ∨ specifier = version)
  strict _ := true
  parseConfig _ raw := some raw.length

def descriptor (productId : String) : ProductDescriptor Unit :=
  ⟨productId,"1.0","any",[],∅,()⟩

def crm : CustomerProductSelection String := ⟨"crm","1.0","fast"⟩
def billing : CustomerProductSelection String := ⟨"billing","any","monthly"⟩

def manifest (products : List (CustomerProductSelection String)) : CustomerBundleManifest String :=
  ⟨"1","acme","2.0","any",products,⟨.curated,[⟨"crm","billing",["name","email"]⟩]⟩⟩

def products : List (ResolvedCustomerProduct Unit String ℕ) :=
  [.make crm (descriptor "crm") 4,.make billing (descriptor "billing") 7]

def sharing : Customer360SharingPlan := ⟨.curated,[⟨"crm","billing",["email","name"]⟩]⟩

def plan (selections : List (CustomerProductSelection String)) :
    CustomerBundlePlan Unit String ℕ :=
  ⟨manifest selections,"3.0",products.reverse,sharing,manifest selections⟩

end Duo

open Duo

theorem customer_plan_unforgeable_duo :
    makePlan models (manifest [crm,billing]) "3.0" products sharing =
      .ok (plan [crm,billing]) ∧
    ((plan [crm,billing]).mutated (manifest []) (fun _ => crm)
      (fun _ => 0)).snapshot models = .ok (plan [crm,billing]) := by
  have hmake : makePlan models (manifest [crm,billing]) "3.0" products
      sharing = .ok (plan [crm,billing]) := by decide +kernel
  exact ⟨hmake,((customer_plan_unforgeable models).1 _ _ _ _ _ hmake).2.2.2.2.2.2 _ _ _⟩

/-- The manifest of a plan keeps the order of its selections. -/
theorem plan_keeps_selection_order :
    [billing,crm].Perm [crm,billing] ∧
    makePlan models (manifest [crm,billing]) "3.0" products sharing =
      .ok (plan [crm,billing]) ∧
    makePlan models (manifest [billing,crm]) "3.0" products sharing =
      .ok (plan [billing,crm]) ∧
    plan [billing,crm] ≠ plan [crm,billing] :=
  ⟨List.Perm.swap _ _ _,by decide +kernel,by decide +kernel,by decide +kernel⟩

end SuiteHarness.Runtime.CustomerBundle
