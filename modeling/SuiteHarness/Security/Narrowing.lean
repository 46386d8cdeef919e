import SuiteHarness.Security.JsonSchema

/-!
# Hardening and the meaning of schemas

The meaning of a schema on an instance is a failure, or the part of the
instance that the schema evaluated, which the two unevaluated keywords read.
The keywords that only compare their value with the instance are one given
predicate, apart from `maxItems`. A bound that is lowered makes a schema fail
more often; below a negation, a condition or an exactly-one-of that is no
narrowing.
-/

set_option autoImplicit false

namespace SuiteHarness.Security

structure Evaluated where
  items : ℕ := 0
  names : List String := []

def Evaluated.join (a b : Evaluated) : Evaluated := ⟨max a.items b.items,a.names++b.names⟩

abbrev Outcome := Option Evaluated

def passed : Outcome := some {}

def requires (ok : Bool) : Outcome := if ok then passed else none

def both (a b : Outcome) : Outcome :=
  match a, b with
  | some x, some y => some (x.join y)
  | _, _ => none

def every (rs : List Outcome) : Outcome := rs.foldr both passed

def someOf (rs : List Outcome) : Outcome :=
  match rs.filterMap id with
  | [] => none
  | e::es => some (es.foldr Evaluated.join e)

def exactlyOne (rs : List Outcome) : Outcome :=
  match rs.filterMap id with
  | [e] => some e
  | _ => none

def sequence (s : Json) (k : String) : Option (List Json) :=
  match s.get? k with
  | some (.arr cs) => some cs
  | _ => none

def named (s : Json) (k : String) : Option (List (String × Json)) :=
  match s.get? k with
  | some (.obj cs) => some cs
  | _ => none

section Meaning

-- `holds` compares the value of an assertion keyword with the instance; `sub` is the meaning of
-- the subschemas.
variable (holds : String → Json → Json → Bool) (value : String → ℚ) (sub : Json → Json → Outcome)

def plainKeyword (k : String) : Bool := k ∉ schemaKeywords && k ≠ "maxItems"

variable (s v : Json)

def asserts : Bool :=
  match s with
  | .obj fields => fields.all (fun f => !plainKeyword f.1 || holds f.1 f.2 v)
  | _ => true

def withinMaximum : Bool :=
  match s.get? "maxItems", v with
  | some x, .arr items => match number value x with
    | some q => (items.length : ℚ) ≤ q
    | none => true
  | _, _ => true

def inPlaceAll : Outcome :=
  match sequence s "allOf" with
  | some cs => every (cs.map (sub · v))
  | none => passed

def inPlaceAny : Outcome :=
  match sequence s "anyOf" with
  | some cs => someOf (cs.map (sub · v))
  | none => passed

def inPlaceOne : Outcome :=
  match sequence s "oneOf" with
  | some cs => exactlyOne (cs.map (sub · v))
  | none => passed

def inPlaceNot : Outcome :=
  match s.get? "not" with
  | some c => requires (sub c v).isNone
  | none => passed

def branch (k : String) : Outcome :=
  match s.get? k with
  | some c => sub c v
  | none => passed

def inPlaceIf : Outcome :=
  match s.get? "if" with
  | none => passed
  | some c => match sub c v with
    | some e => both (some e) (branch sub s v "then")
    | none => branch sub s v "else"

def dependent : Outcome :=
  match named s "dependentSchemas" with
  | some cs => every (cs.map (fun c => if v.hasKey c.1 then sub c.2 v else passed))
  | none => passed

def each (c : Json) (xs : List Json) : Outcome := every (xs.map (fun x => requires (sub c x).isSome))

def leadingItems : Outcome :=
  match sequence s "prefixItems", v with
  | some cs, .arr xs => both (every (List.zipWith (fun c x => requires (sub c x).isSome) cs xs))
      (some { items := min cs.length xs.length })
  | _, _ => passed

def leadingCount (s : Json) : ℕ := ((sequence s "prefixItems").map List.length).getD 0

def furtherItems : Outcome :=
  match s.get? "items", v with
  | some c, .arr xs => both (each sub c (xs.drop (leadingCount s))) (some { items := xs.length })
  | _, _ => passed

def declared (s : Json) : List String := ((named s "properties").map (List.map Prod.fst)).getD []

def property (v c : Json) (name : String) : Outcome :=
  match v.get? name with
  | some x => requires (sub c x).isSome
  | none => passed

def properties (s v : Json) : Outcome :=
  match named s "properties" with
  | some cs => both (every (cs.map (fun c => property sub v c.2 c.1)))
      (some { names := (declared s).filter v.hasKey })
  | none => passed

def undeclared (names : List String) (fs : List (String × Json)) : List (String × Json) :=
  fs.filter (fun f => f.1 ∉ names)

def additionalProperties (s v : Json) : Outcome :=
  match s.get? "additionalProperties", v with
  | some c, .obj fs => both (each sub c ((undeclared (declared s) fs).map Prod.snd))
      (some { names := (undeclared (declared s) fs).map Prod.fst })
  | _, _ => passed

def propertyNames (s v : Json) : Outcome :=
  match s.get? "propertyNames", v with
  | some c, .obj fs => each sub c (fs.map (fun f => .str f.1))
  | _, _ => passed

def unevaluatedItems (s v : Json) (e : Evaluated) : Outcome :=
  match s.get? "unevaluatedItems", v with
  | some c, .arr xs => both (each sub c (xs.drop e.items)) (some { items := xs.length })
  | _, _ => passed

def unevaluatedProperties (s v : Json) (e : Evaluated) : Outcome :=
  match s.get? "unevaluatedProperties", v with
  | some c, .obj fs => both (each sub c ((undeclared e.names fs).map Prod.snd))
      (some { names := fs.map Prod.fst })
  | _, _ => passed

def applicators : Outcome :=
  every [inPlaceAll sub s v,inPlaceAny sub s v,inPlaceOne sub s v,inPlaceNot sub s v,
    inPlaceIf sub s v,dependent sub s v,leadingItems sub s v,furtherItems sub s v,
    properties sub s v,additionalProperties sub s v,propertyNames sub s v]

def node : Outcome :=
  if asserts holds s v && withinMaximum value s v then
    match applicators sub s v with
    | some e => both (some e) (both (unevaluatedItems sub s v e) (unevaluatedProperties sub s v e))
    | none => none
  else none

def eval : ℕ → Json → Json → Outcome
  | _+1, .bool b, _ => requires b
  | n+1, .obj fields, v => node holds value (eval n) (.obj fields) v
  | _, _, _ => passed

def Accepts : Prop := ∃ deep, ∀ n ≥ deep, (eval holds value n s v).isSome = true

end Meaning

/-! An outcome is within another if it fails more often and evaluates less. -/

section Order

def Within (r r' : Outcome) : Prop :=
  ∀ e, r = some e → ∃ e', r' = some e' ∧ e.items ≤ e'.items ∧ e.names ⊆ e'.names

def Same (r r' : Outcome) : Prop := Within r r' ∧ Within r' r

variable {a a' b b' : Outcome} {rs rs' : List Outcome}

theorem Within.refl (r : Outcome) : Within r r := fun e he => ⟨e,he,le_refl _,fun _ hn => hn⟩

theorem Same.refl (r : Outcome) : Same r r := ⟨.refl r,.refl r⟩

theorem Within.isSome (h : Within a a') (ha : a.isSome = true) : a'.isSome = true := by
  obtain ⟨e,he⟩ := Option.isSome_iff_exists.1 ha
  obtain ⟨e',he',-⟩ := h e he
  rw [he']
  rfl

theorem Same.isSome (h : Same a a') : a.isSome = a'.isSome := by
  rw [Bool.eq_iff_iff]
  exact ⟨h.1.isSome,h.2.isSome⟩

theorem within_requires {p q : Bool} (h : p = true → q = true) : Within (requires p) (requires q) := by
  intro e he
  cases p with
  | false => cases he
  | true =>
    rw [h rfl]
    exact ⟨e,he,le_refl _,fun _ hn => hn⟩

theorem within_both (ha : Within a a') (hb : Within b b') : Within (both a b) (both a' b') := by
  intro e he
  cases a with
  | none => cases he
  | some x =>
    cases b with
    | none => cases he
    | some y =>
      cases he
      obtain ⟨x',rfl,hxi,hxn⟩ := ha x rfl
      obtain ⟨y',rfl,hyi,hyn⟩ := hb y rfl
      exact ⟨x'.join y',rfl,max_le_max hxi hyi,List.append_subset.2
        ⟨fun n hn => List.mem_append_left _ (hxn hn),fun n hn => List.mem_append_right _ (hyn hn)⟩⟩

theorem within_every (h : List.Forall₂ Within rs rs') : Within (every rs) (every rs') := by
  induction h with
  | nil => exact .refl _
  | cons hr _ ih => exact within_both hr ih

theorem passes_within (h : List.Forall₂ Within rs rs') :
    ∀ e ∈ rs.filterMap id, ∃ e' ∈ rs'.filterMap id, e.items ≤ e'.items ∧ e.names ⊆ e'.names := by
  induction h with
  | nil => nofun
  | @cons r r' rs rs' hr _ ih =>
    intro e he
    rw [List.mem_filterMap] at he
    obtain ⟨q,hq,he⟩ := he
    rcases List.mem_cons.1 hq with rfl | hq
    · obtain ⟨e',he',hle⟩ := hr e he
      exact ⟨e',List.mem_filterMap.2 ⟨r',List.mem_cons_self,he'⟩,hle⟩
    · obtain ⟨e',he',hle⟩ := ih e (List.mem_filterMap.2 ⟨q,hq,he⟩)
      obtain ⟨q',hq',hqe⟩ := List.mem_filterMap.1 he'
      exact ⟨e',List.mem_filterMap.2 ⟨q',List.mem_cons_of_mem r' hq',hqe⟩,hle⟩

theorem join_items_le (e : Evaluated) (es : List Evaluated) {n : ℕ} :
    (es.foldr Evaluated.join e).items ≤ n ↔ ∀ x ∈ e::es, x.items ≤ n := by
  induction es with
  | nil => simp
  | cons y es ih =>
    simp only [List.foldr_cons, Evaluated.join, max_le_iff, ih, List.forall_mem_cons]
    tauto

theorem mem_join_names (e : Evaluated) (es : List Evaluated) {name : String} :
    name ∈ (es.foldr Evaluated.join e).names ↔ ∃ x ∈ e::es, name ∈ x.names := by
  induction es with
  | nil => simp
  | cons y es ih =>
    simp only [List.foldr_cons, Evaluated.join, List.mem_append, ih, List.exists_mem_cons_iff]
    tauto

theorem within_some_of (h : List.Forall₂ Within rs rs') : Within (someOf rs) (someOf rs') := by
  intro e he
  have hpasses := passes_within h
  unfold someOf at he ⊢
  cases hrs : rs.filterMap id with
  | nil =>
    rw [hrs] at he
    cases he
  | cons x xs =>
    rw [hrs] at he hpasses
    cases he
    cases hrs' : rs'.filterMap id with
    | nil =>
      obtain ⟨e',he',-⟩ := hpasses x List.mem_cons_self
      rw [hrs'] at he'
      cases he'
    | cons y ys =>
      rw [hrs'] at hpasses
      refine ⟨_,rfl,?_,?_⟩
      · refine (join_items_le x xs).2 (fun z hz => ?_)
        obtain ⟨z',hz',hle,-⟩ := hpasses z hz
        exact le_trans hle ((join_items_le y ys).1 (le_refl _) z' hz')
      · intro name hname
        obtain ⟨z,hz,hzn⟩ := (mem_join_names x xs).1 hname
        obtain ⟨z',hz',-,hsub⟩ := hpasses z hz
        exact (mem_join_names y ys).2 ⟨z',hz',hsub hzn⟩

theorem passes_same (h : List.Forall₂ Same rs rs') :
    List.Forall₂ (fun e e' : Evaluated => e.items ≤ e'.items ∧ e.names ⊆ e'.names)
      (rs.filterMap id) (rs'.filterMap id) := by
  induction h with
  | nil => exact .nil
  | @cons r r' rs rs' hr _ ih =>
    cases r with
    | none =>
      cases r' with
      | none => exact ih
      | some e' => cases hr.isSome
    | some e =>
      obtain ⟨e',rfl,hle⟩ := hr.1 e rfl
      exact .cons hle ih

theorem within_exactly_one (h : List.Forall₂ Same rs rs') :
    Within (exactlyOne rs) (exactlyOne rs') := by
  intro e he
  have hpasses := passes_same h
  unfold exactlyOne at he ⊢
  split at he
  next x hx =>
    cases he
    rw [hx] at hpasses
    generalize rs'.filterMap id = es' at hpasses
    cases hpasses with
    | cons hle hrest =>
      cases hrest
      exact ⟨_,rfl,hle⟩
  · cases he

end Order

/-! Two schema objects whose keywords correspond. -/

section Pairs

def mixedKeywords : List String := ["if","not","oneOf"]

structure Paired (R : String → Json → Json → Prop) (s' s : Json) : Prop where
  sequence : ∀ k ∈ schemaSequenceChildren,
    Option.Rel (List.Forall₂ (R k)) (sequence s' k) (sequence s k)
  named : ∀ k ∈ schemaMapChildren,
    Option.Rel (List.Forall₂ (fun a b => a.1 = b.1 ∧ R k a.2 b.2)) (named s' k) (named s k)
  single : ∀ k ∈ schemaSingleChildren, Option.Rel (R k) (s'.get? k) (s.get? k)

def Narrow (sub : Json → Json → Outcome) (k : String) (c' c : Json) : Prop :=
  ∀ v, Within (sub c' v) (sub c v) ∧ (k ∈ mixedKeywords → Within (sub c v) (sub c' v))

variable {sub : Json → Json → Outcome} {s s' v c c' : Json} {k : String}

theorem Narrow.same (h : Narrow sub k c' c) (hk : k ∈ mixedKeywords) (v : Json) :
    Same (sub c' v) (sub c v) :=
  ⟨(h v).1,(h v).2 hk⟩

theorem forall_map {α : Type} {P : α → α → Prop} {Q : Outcome → Outcome → Prop} {f : α → Outcome}
    {xs' xs : List α} (h : List.Forall₂ P xs' xs) (hf : ∀ x' x, P x' x → Q (f x') (f x)) :
    List.Forall₂ Q (xs'.map f) (xs.map f) :=
  List.forall₂_map_left_iff.2 (List.forall₂_map_right_iff.2 (h.imp hf))

section
variable (h : Paired (Narrow sub) s' s)
include h

theorem within_in_place_all : Within (inPlaceAll sub s' v) (inPlaceAll sub s v) := by
  have hpair := h.sequence "allOf" (by decide)
  unfold inPlaceAll
  generalize sequence s' "allOf" = x', sequence s "allOf" = x at hpair
  cases hpair with
  | none => exact .refl _
  | some hcs => exact within_every (forall_map hcs (fun _ _ hc => (hc v).1))

theorem within_in_place_any :
    Within (inPlaceAny sub s' v) (inPlaceAny sub s v) := by
  have hpair := h.sequence "anyOf" (by decide)
  unfold inPlaceAny
  generalize sequence s' "anyOf" = x', sequence s "anyOf" = x at hpair
  cases hpair with
  | none => exact .refl _
  | some hcs => exact within_some_of (forall_map hcs (fun _ _ hc => (hc v).1))

theorem within_in_place_one :
    Within (inPlaceOne sub s' v) (inPlaceOne sub s v) := by
  have hpair := h.sequence "oneOf" (by decide)
  unfold inPlaceOne
  generalize sequence s' "oneOf" = x', sequence s "oneOf" = x at hpair
  cases hpair with
  | none => exact .refl _
  | some hcs => exact within_exactly_one (forall_map hcs (fun _ _ hc => hc.same (by decide) v))

theorem within_in_place_not :
    Within (inPlaceNot sub s' v) (inPlaceNot sub s v) := by
  have hpair := h.single "not" (by decide)
  unfold inPlaceNot
  generalize s'.get? "not" = x', s.get? "not" = x at hpair
  cases hpair with
  | none => exact .refl _
  | some hc =>
    refine within_requires (fun hnone => ?_)
    have hsame := (hc.same (by decide) v).isSome
    rw [← Option.not_isSome] at hnone ⊢
    rw [← hsame]
    exact hnone

theorem within_branch (hk : k ∈ schemaSingleChildren) :
    Within (branch sub s' v k) (branch sub s v k) := by
  have hpair := h.single k hk
  unfold branch
  generalize s'.get? k = x', s.get? k = x at hpair
  cases hpair with
  | none => exact .refl _
  | some hc => exact (hc v).1

theorem within_in_place_if :
    Within (inPlaceIf sub s' v) (inPlaceIf sub s v) := by
  have hpair := h.single "if" (by decide)
  have hthen : Within (branch sub s' v "then") (branch sub s v "then") :=
    within_branch h (by decide)
  have helse : Within (branch sub s' v "else") (branch sub s v "else") :=
    within_branch h (by decide)
  unfold inPlaceIf
  generalize s'.get? "if" = x', s.get? "if" = x at hpair
  cases hpair with
  | none => exact .refl _
  | @some c' c hc =>
    have hsame := hc.same (by decide) v
    have hsome := hsame.isSome
    cases hc' : sub c' v with
    | none =>
      cases hcv : sub c v with
      | none => simpa only [hc', hcv] using helse
      | some e => simp [hc', hcv] at hsome
    | some e' =>
      cases hcv : sub c v with
      | none => simp [hc', hcv] at hsome
      | some e =>
        rw [hc', hcv] at hsame
        simpa only [hc', hcv] using within_both hsame.1 hthen

theorem within_dependent :
    Within (dependent sub s' v) (dependent sub s v) := by
  have hpair := h.named "dependentSchemas" (by decide)
  unfold dependent
  generalize named s' "dependentSchemas" = x', named s "dependentSchemas" = x at hpair
  cases hpair with
  | none => exact .refl _
  | some hcs =>
    refine within_every (forall_map hcs (fun a b hab => ?_))
    rw [hab.1]
    split
    · exact (hab.2 v).1
    · exact .refl _

end

theorem each_eq (c : Json) (xs : List Json) :
    each sub c xs = requires (xs.all (fun x => (sub c x).isSome)) := by
  induction xs with
  | nil => rfl
  | cons x xs ih =>
    have hcons : each sub c (x::xs) = both (requires (sub c x).isSome) (each sub c xs) := rfl
    rw [hcons, ih, List.all_cons]
    cases (sub c x).isSome with
    | false => rfl
    | true => cases xs.all (fun x => (sub c x).isSome) <;> rfl

theorem within_each (hc : Narrow sub k c' c) {xs' xs : List Json} (hxs : xs ⊆ xs') :
    Within (each sub c' xs') (each sub c xs) := by
  rw [each_eq, each_eq]
  refine within_requires (fun hall => ?_)
  rw [List.all_eq_true] at hall ⊢
  exact fun x hx => (hc x).1.isSome (hall x (hxs hx))

theorem within_zip (k : String) {cs' cs : List Json} (h : List.Forall₂ (Narrow sub k) cs' cs)
    (xs : List Json) :
    Within (every (List.zipWith (fun c x => requires (sub c x).isSome) cs' xs))
      (every (List.zipWith (fun c x => requires (sub c x).isSome) cs xs)) := by
  induction h generalizing xs with
  | nil => exact .refl _
  | cons hc _ ih =>
    cases xs with
    | nil => exact .refl _
    | cons x xs => exact within_both (within_requires (hc x).1.isSome) (ih xs)

section
variable (h : Paired (Narrow sub) s' s)
include h

theorem within_leading_items :
    Within (leadingItems sub s' v) (leadingItems sub s v) := by
  have hpair := h.sequence "prefixItems" (by decide)
  unfold leadingItems
  generalize sequence s' "prefixItems" = x', sequence s "prefixItems" = x at hpair
  cases hpair with
  | none => exact .refl _
  | some hcs =>
    cases v with
    | arr xs =>
      simp only [hcs.length_eq]
      exact within_both (within_zip "prefixItems" hcs xs) (.refl _)
    | _ => exact .refl _

theorem leading_count_eq : leadingCount s' = leadingCount s := by
  have hpair := h.sequence "prefixItems" (by decide)
  unfold leadingCount
  generalize sequence s' "prefixItems" = x', sequence s "prefixItems" = x at hpair
  cases hpair with
  | none => rfl
  | some hcs => exact hcs.length_eq

theorem declared_eq : declared s' = declared s := by
  have hpair := h.named "properties" (by decide)
  unfold declared
  generalize named s' "properties" = x', named s "properties" = x at hpair
  cases hpair with
  | none => rfl
  | some hcs =>
    have hnames := hcs.imp (fun _ _ hab => hab.1)
    clear hcs
    simp only [Option.map_some, Option.getD_some]
    induction hnames with
    | nil => rfl
    | cons hname _ ih => rw [List.map_cons, List.map_cons, hname, ih]

theorem within_further_items :
    Within (furtherItems sub s' v) (furtherItems sub s v) := by
  have hpair := h.single "items" (by decide)
  unfold furtherItems
  rw [leading_count_eq h]
  generalize s'.get? "items" = x', s.get? "items" = x at hpair
  cases hpair with
  | none => exact .refl _
  | some hc =>
    cases v with
    | arr xs => exact within_both (within_each hc (List.Subset.refl _)) (.refl _)
    | _ => exact .refl _

end

theorem within_property (hc : Narrow sub k c' c) (name : String) :
    Within (property sub v c' name) (property sub v c name) := by
  unfold property
  split
  next x _ => exact within_requires (hc x).1.isSome
  · exact .refl _

variable (h : Paired (Narrow sub) s' s)
include h

theorem within_properties :
    Within (properties sub s' v) (properties sub s v) := by
  have hpair := h.named "properties" (by decide)
  unfold properties
  rw [declared_eq h]
  generalize named s' "properties" = x', named s "properties" = x at hpair
  cases hpair with
  | none => exact .refl _
  | some hcs =>
    refine within_both (within_every (forall_map hcs (fun a b hab => ?_))) (.refl _)
    rw [hab.1]
    exact within_property hab.2 b.1

theorem within_additional :
    Within (additionalProperties sub s' v) (additionalProperties sub s v) := by
  have hpair := h.single "additionalProperties" (by decide)
  unfold additionalProperties
  rw [declared_eq h]
  generalize s'.get? "additionalProperties" = x', s.get? "additionalProperties" = x at hpair
  cases hpair with
  | none => exact .refl _
  | some hc =>
    cases v with
    | obj fs => exact within_both (within_each hc (List.Subset.refl _)) (.refl _)
    | _ => exact .refl _

theorem within_property_names :
    Within (propertyNames sub s' v) (propertyNames sub s v) := by
  have hpair := h.single "propertyNames" (by decide)
  unfold propertyNames
  generalize s'.get? "propertyNames" = x', s.get? "propertyNames" = x at hpair
  cases hpair with
  | none => exact .refl _
  | some hc =>
    cases v with
    | obj fs => exact within_each hc (List.Subset.refl _)
    | _ => exact .refl _

theorem within_unevaluated_items {e' e : Evaluated} (he : e'.items ≤ e.items) :
    Within (unevaluatedItems sub s' v e') (unevaluatedItems sub s v e) := by
  have hpair := h.single "unevaluatedItems" (by decide)
  unfold unevaluatedItems
  generalize s'.get? "unevaluatedItems" = x', s.get? "unevaluatedItems" = x at hpair
  cases hpair with
  | none => exact .refl _
  | some hc =>
    cases v with
    | arr xs => exact within_both (within_each hc (List.drop_subset_drop_left xs he)) (.refl _)
    | _ => exact .refl _

theorem within_unevaluated_properties {e' e : Evaluated} (he : e'.names ⊆ e.names) :
    Within (unevaluatedProperties sub s' v e') (unevaluatedProperties sub s v e) := by
  have hpair := h.single "unevaluatedProperties" (by decide)
  unfold unevaluatedProperties
  generalize s'.get? "unevaluatedProperties" = x', s.get? "unevaluatedProperties" = x at hpair
  cases hpair with
  | none => exact .refl _
  | some hc =>
    cases v with
    | obj fs =>
      refine within_both (within_each hc (List.map_subset _ ?_)) (.refl _)
      intro f hf
      simp only [undeclared, List.mem_filter, decide_eq_true_eq] at hf ⊢
      exact ⟨hf.1,fun hn => hf.2 (he hn)⟩
    | _ => exact .refl _

theorem within_applicators :
    Within (applicators sub s' v) (applicators sub s v) :=
  within_every (.cons (within_in_place_all h) (.cons (within_in_place_any h)
    (.cons (within_in_place_one h) (.cons (within_in_place_not h) (.cons (within_in_place_if h)
    (.cons (within_dependent h) (.cons (within_leading_items h) (.cons (within_further_items h)
    (.cons (within_properties h) (.cons (within_additional h)
    (.cons (within_property_names h) .nil)))))))))))

/-- A node is narrower if its subschemas are and its own assertions imply the other's. -/
theorem within_node {holds : String → Json → Json → Bool} {value : String → ℚ}
    (hasserts : asserts holds s' v = true → asserts holds s v = true)
    (hmax : withinMaximum value s' v = true → withinMaximum value s v = true) :
    Within (node holds value sub s' v) (node holds value sub s v) := by
  intro e he
  unfold node at he ⊢
  split at he
  next hchecks =>
    rw [Bool.and_eq_true] at hchecks
    rw [hasserts hchecks.1, hmax hchecks.2]
    cases ha' : applicators sub s' v with
    | none => rw [ha'] at he; cases he
    | some x' =>
      obtain ⟨x,ha,hitems,hnames⟩ := within_applicators h x' ha'
      rw [ha'] at he
      rw [ha]
      have hx : Within (some x') (some x) := by
        rintro y ⟨⟩
        exact ⟨x,rfl,hitems,hnames⟩
      exact within_both hx (within_both (within_unevaluated_items h hitems)
        (within_unevaluated_properties h hnames)) e he
  · cases he

end Pairs

/-! Rewriting pairs every keyword with itself. -/

section Rewritten

variable {R : String → Json → Json → Prop} {room : ℕ} {fields : List (String × Json)}

theorem sequence_rewrite {k : String} (hk : k ∈ schemaSequenceChildren) :
    sequence (rewrite (room+1) (.obj fields)) k =
      (sequence (.obj fields) k).map (List.map (rewrite room)) := by
  have hmax : k ≠ "maxItems" :=
    keyword_ne_max (List.mem_append_left _ (List.mem_append_right _ hk))
  unfold sequence
  rw [rewrite, get_bounded hmax, get_map_parts]
  cases (Json.obj fields).get? k with
  | none => rfl
  | some x =>
    have hmap := map_keyword_disjoint hk
    cases x <;> simp [mapParts, hmap, hk]

theorem named_rewrite {k : String} (hk : k ∈ schemaMapChildren) :
    named (rewrite (room+1) (.obj fields)) k =
      (named (.obj fields) k).map (List.map (fun c => (c.1,rewrite room c.2))) := by
  have hmax : k ≠ "maxItems" :=
    keyword_ne_max (List.mem_append_left _ (List.mem_append_left _ hk))
  unfold named
  rw [rewrite, get_bounded hmax, get_map_parts]
  cases (Json.obj fields).get? k with
  | none => rfl
  | some x => cases x <;> simp [mapParts, hk]

theorem single_rewrite {k : String} (hk : k ∈ schemaSingleChildren) :
    (rewrite (room+1) (.obj fields)).get? k = ((Json.obj fields).get? k).map (rewrite room) := by
  have hmax : k ≠ "maxItems" := keyword_ne_max (List.mem_append_right _ hk)
  obtain ⟨hmap,hsequence⟩ := single_keyword_disjoint hk
  rw [rewrite, get_bounded hmax, get_map_parts]
  congr 1
  funext x
  unfold mapParts
  rw [if_neg hmap, if_neg hsequence, if_pos hk]

theorem rel_map {α : Type} {P : α → α → Prop} {f : α → α} {x : Option α}
    (h : ∀ a, x = some a → P (f a) a) : Option.Rel P (x.map f) x := by
  cases x with
  | none => exact .none
  | some a => exact .some (h a rfl)

theorem forall_map_self {α : Type} {P : α → α → Prop} {f : α → α} {xs : List α}
    (h : ∀ x ∈ xs, P (f x) x) : List.Forall₂ P (xs.map f) xs := by
  induction xs with
  | nil => exact .nil
  | cons x xs ih =>
    exact .cons (h x List.mem_cons_self) (ih (fun y hy => h y (List.mem_cons_of_mem x hy)))

/-- It suffices to relate the subschemas; other values under a keyword are left as they are. -/
theorem paired_rewrite (hrefl : ∀ k c, R k c c)
    (h : ∀ k, ∀ c ∈ childrenAt (.obj fields) k, R k (rewrite room c) c) :
    Paired R (rewrite (room+1) (.obj fields)) (.obj fields) := by
  have hchild : ∀ k c, (isSchema c = true → c ∈ childrenAt (.obj fields) k) →
      R k (rewrite room c) c := by
    intro k c hc
    cases hobj : c.isObj with
    | false =>
      rw [rewrite_not_obj room hobj]
      exact hrefl k c
    | true =>
      refine h k c (hc ?_)
      cases c with
      | obj fields => rfl
      | _ => cases hobj
  refine ⟨fun k hk => ?_,fun k hk => ?_,fun k hk => ?_⟩
  · rw [sequence_rewrite hk]
    refine rel_map (fun cs hcs => forall_map_self (fun c hc => hchild k c (fun hschema => ?_)))
    unfold sequence at hcs
    split at hcs
    next children hget =>
      cases hcs
      rw [childrenAt, hget]
      simpa [parts, map_keyword_disjoint hk, hk] using ⟨hc,hschema⟩
    · cases hcs
  · rw [named_rewrite hk]
    refine rel_map (fun cs hcs => forall_map_self (fun c hc => ⟨rfl,hchild k c.2 (fun hschema => ?_)⟩))
    unfold named at hcs
    split at hcs
    next children hget =>
      cases hcs
      rw [childrenAt, hget]
      simpa [parts, hk, hschema] using ⟨c.1,hc⟩
    · cases hcs
  · rw [single_rewrite hk]
    obtain ⟨hmap,hsequence⟩ := single_keyword_disjoint hk
    refine rel_map (fun c hget => hchild k c (fun hschema => ?_))
    rw [childrenAt, hget]
    simp [parts, hmap, hsequence, hk, hschema]

theorem paired_flip {s s' : Json} (h : Paired R s' s) : Paired (fun k c c' => R k c' c) s s' := by
  refine ⟨fun k hk => ?_,fun k hk => ?_,fun k hk => ?_⟩
  · have hpair := h.sequence k hk
    generalize sequence s' k = x', sequence s k = x at hpair ⊢
    cases hpair with
    | none => exact .none
    | some hcs => exact .some hcs.flip
  · have hpair := h.named k hk
    generalize named s' k = x', named s k = x at hpair ⊢
    cases hpair with
    | none => exact .none
    | some hcs => exact .some ((hcs.imp (fun _ _ hab => ⟨hab.1.symm,hab.2⟩)).flip)
  · have hpair := h.single k hk
    generalize s'.get? k = x', s.get? k = x at hpair ⊢
    cases hpair with
    | none => exact .none
    | some hc => exact .some hc

def Loose (s : Json) : Prop :=
  holdsItems s = true ∧ ∃ m, maximum s = some m ∧ s.get? "maxItems" ≠ some (.int m)

variable {holds : String → Json → Json → Bool} {value : String → ℚ} {v : Json}

theorem asserts_rewrite :
    asserts holds (rewrite (room+1) (.obj fields)) v = asserts holds (.obj fields) v := by
  have hmap : asserts holds (.obj (fields.map (fun f => (f.1,mapParts (rewrite room) f.1 f.2)))) v =
      asserts holds (.obj fields) v := by
    simp only [asserts, List.all_map]
    refine List.all_congr rfl (fun f => ?_)
    by_cases hk : f.1 ∈ schemaKeywords
    · simp [plainKeyword, hk]
    · have hsame : mapParts (rewrite room) f.1 f.2 = f.2 := by
        simp only [schemaKeywords, List.mem_append, not_or] at hk
        unfold mapParts
        rw [if_neg hk.1.1, if_neg hk.1.2, if_neg hk.2]
      simp only [Function.comp_apply, hsame]
  rw [rewrite, ← hmap, bounded]
  split
  · split
    · simp only [asserts, List.all_cons, List.all_filter]
      have hbound : plainKeyword "maxItems" = false := by decide
      rw [hbound]
      simp only [Bool.not_false, Bool.true_or, Bool.true_and]
      refine List.all_congr rfl (fun f => ?_)
      by_cases hf : f.1 = "maxItems"
      · simp [hf, hbound]
      · simp [hf]
    · rfl
  · rfl

theorem get_max_rewrite (room : ℕ) (hloose : ¬ Loose (.obj fields)) :
    (rewrite (room+1) (.obj fields)).get? "maxItems" = (Json.obj fields).get? "maxItems" := by
  cases hitems : holdsItems (.obj fields) with
  | false =>
    rw [rewrite, bounded, holds_items_map, hitems, if_neg Bool.false_ne_true, get_max_map]
  | true =>
    rcases rewrite_items room hitems with ⟨m,rest,hmax,hrewrite⟩ | ⟨-,hget,-⟩
    · have hsame : (Json.obj fields).get? "maxItems" = some (.int m) := by
        by_contra hne
        exact hloose ⟨hitems,m,hmax,hne⟩
      rw [hrewrite, hsame]
      simp [Json.get?]
    · exact hget

/-- The bound that is put in front is not above the one that was declared. -/
theorem maximum_declared {s : Json} {m n : ℤ} (h : maximum s = some m)
    (hget : s.get? "maxItems" = some (.int n)) : m ≤ n := by
  rw [maximum, hget] at h
  simp only at h
  split at h
  · cases h
    exact min_le_left _ _
  · cases h

theorem maximum_rewrite (h : withinMaximum value (rewrite (room+1) (.obj fields)) v = true) :
    withinMaximum value (.obj fields) v = true := by
  by_cases hloose : Loose (.obj fields)
  · obtain ⟨hitems,m,hmax,-⟩ := hloose
    rcases rewrite_items room hitems with ⟨m',rest,hmax',hrewrite⟩ | ⟨hnone,-⟩
    · have hfront : (Json.obj (("maxItems",.int m')::rest)).get? "maxItems" = some (.int m') := by
        simp [Json.get?]
      unfold withinMaximum at h ⊢
      rw [hrewrite, hfront] at h
      cases v with
      | arr xs =>
        simp only [number, decide_eq_true_eq] at h
        cases hget : (Json.obj fields).get? "maxItems" with
        | none => rfl
        | some x =>
          cases x with
          | int n =>
            have hle : (m' : ℚ) ≤ (n : ℚ) := by exact_mod_cast maximum_declared hmax' hget
            simpa [number] using le_trans h hle
          | float r =>
            rw [maximum_float hget] at hmax'
            cases hmax'
          | _ => rfl
      | _ => cases (Json.obj fields).get? "maxItems" <;> rfl
    · rw [hnone] at hmax
      cases hmax
  · unfold withinMaximum at h ⊢
    rw [← get_max_rewrite room hloose]
    exact h

theorem mem_children {s c : Json} {k : String} (hc : c ∈ childrenAt s k) : c ∈ children s := by
  have hk : k ∈ schemaKeywords := by
    by_contra hk
    obtain ⟨x,-,hx⟩ := List.mem_flatMap.1 hc
    simp only [schemaKeywords, List.mem_append, not_or] at hk
    unfold parts at hx
    rw [if_neg hk.1.1, if_neg hk.1.2, if_neg hk.2] at hx
    cases hx
  exact List.mem_flatMap.2 ⟨k,hk,hc⟩

theorem eval_same (n : ℕ) (s : Json) (room : ℕ) (h : ∀ d x, Reach s d x → ¬ Loose x) (v : Json) :
    Same (eval holds value n (rewrite room s) v) (eval holds value n s v) := by
  induction n generalizing s room v with
  | zero => exact .refl _
  | succ n ih =>
    cases room with
    | zero => exact .refl _
    | succ room =>
      cases s with
      | obj fields =>
        have hchildren : ∀ k, ∀ c ∈ childrenAt (.obj fields) k, ∀ v,
            Same (eval holds value n (rewrite room c) v) (eval holds value n c v) := by
          intro k c hc v
          exact ih c room (fun d x hreach => h (d+1) x (.child (mem_children hc) hreach)) v
        have hnarrow : Paired (Narrow (eval holds value n)) (rewrite (room+1) (.obj fields))
            (.obj fields) :=
          paired_rewrite (fun k c v => ⟨.refl _,fun _ => .refl _⟩)
            (fun k c hc v => ⟨(hchildren k c hc v).1,fun _ => (hchildren k c hc v).2⟩)
        have hwiden : Paired (Narrow (eval holds value n)) (.obj fields)
            (rewrite (room+1) (.obj fields)) :=
          paired_flip (R := fun k c' c => Narrow (eval holds value n) k c c')
            (paired_rewrite (fun k c v => ⟨.refl _,fun _ => .refl _⟩)
              (fun k c hc v => ⟨(hchildren k c hc v).2,fun _ => (hchildren k c hc v).1⟩))
        have hmax : withinMaximum value (.obj fields) v =
            withinMaximum value (rewrite (room+1) (.obj fields)) v := by
          unfold withinMaximum
          rw [get_max_rewrite room (h 1 _ (.self _))]
        have hasserts : asserts holds (.obj fields) v =
            asserts holds (rewrite (room+1) (.obj fields)) v := asserts_rewrite.symm
        refine ⟨within_node hnarrow ?_ ?_,within_node hwiden ?_ ?_⟩
        · exact fun ha => hasserts.trans ha
        · exact fun hm => hmax.trans hm
        · exact fun ha => hasserts.symm.trans ha
        · exact fun hm => hmax.symm.trans hm
      | _ => exact .refl _

def Guarded (root : Json) : Prop :=
  ∀ d s, Reach root d s → ∀ k ∈ mixedKeywords, ∀ c ∈ childrenAt s k,
    ∀ e x, Reach c e x → ¬ Loose x

theorem Guarded.child {s c : Json} (h : Guarded s) (hc : c ∈ children s) : Guarded c :=
  fun d x hreach => h (d+1) x (.child hc hreach)

theorem eval_within (n : ℕ) (s : Json) (room : ℕ) (h : Guarded s) (v : Json) :
    Within (eval holds value n (rewrite room s) v) (eval holds value n s v) := by
  induction n generalizing s room v with
  | zero => exact .refl _
  | succ n ih =>
    cases room with
    | zero => exact .refl _
    | succ room =>
      cases s with
      | obj fields =>
        have hnarrow : Paired (Narrow (eval holds value n)) (rewrite (room+1) (.obj fields))
            (.obj fields) := by
          refine paired_rewrite (fun k c v => ⟨.refl _,fun _ => .refl _⟩) (fun k c hc v => ⟨?_,?_⟩)
          · exact ih c room (h.child (mem_children hc)) v
          · intro hk
            exact (eval_same n c room (h 1 _ (.self _) k hk c hc) v).2
        exact within_node hnarrow (fun ha => asserts_rewrite.symm.trans ha) maximum_rewrite
      | _ => exact .refl _

end Rewritten

/-- A hardened schema accepts no more than the schema it was made from, unless a bound is lowered
in a place that is not monotone. -/
theorem hardening_narrows (it : Interpreter) (root : List (String × Json)) (out : Json)
    (h : hardenUntrustedJsonSchema it root = .ok out) (hguard : Guarded (.obj root))
    (holds : String → Json → Json → Bool) (value : String → ℚ) (v : Json)
    (haccepts : Accepts holds value out v) : Accepts holds value (.obj root) v := by
  obtain ⟨t,-,rfl⟩ := harden_ok h
  obtain ⟨deep,hdeep⟩ := haccepts
  exact ⟨deep,fun n hn => (eval_within n (.obj root) maxSchemaDepth hguard v).isSome (hdeep n hn)⟩

theorem any_array_guarded : Guarded (.obj anyArray) := by
  intro d s hreach k hk c hc
  have hnone : ∀ k ∈ mixedKeywords, childrenAt (.obj anyArray) k = [] := by decide
  rcases reach_any_array hreach with ⟨-,rfl⟩ | ⟨-,rfl⟩
  · rw [hnone k hk] at hc
    cases hc
  · cases hc

def boundedArray : List (String × Json) :=
  [("maxItems",.int 4096),("type",.str "array"),("items",.bool true)]

theorem any_array_accepts_null_item :
    Accepts (fun _ _ _ => true) (fun _ => 0) (.obj anyArray) (.arr [.null]) := by
  refine hardening_narrows writtenOrder anyArray (.obj boundedArray) (by decide) any_array_guarded
    _ _ _ ⟨2,fun n hn => ?_⟩
  obtain ⟨m,rfl⟩ : ∃ m, n = m+2 := ⟨n-2,by omega⟩
  rfl

def notAnArray : List (String × Json) := [("not",.obj [("items",.bool true)])]

def notAShortArray : List (String × Json) :=
  [("not",.obj [("maxItems",.int 4096),("items",.bool true)])]

def longArray : Json := .arr (List.replicate 4097 .null)

theorem any_items_pass (m : ℕ) (xs : List Json) : (eval (fun _ _ _ => true) (fun _ => 0) (m+2)
    (.obj [("items",.bool true)]) (.arr xs)).isSome = true := by
  have heach : each (eval (fun _ _ _ => true) (fun _ => 0) (m+1)) (.bool true) xs = passed := by
    rw [each_eq]
    simp [eval, requires, passed]
  have hitems : furtherItems (eval (fun _ _ _ => true) (fun _ => 0) (m+1))
      (.obj [("items",.bool true)]) (.arr xs) = some { items := xs.length } := by
    change both (each (eval (fun _ _ _ => true) (fun _ => 0) (m+1)) (.bool true) xs) _ = _
    rw [heach]
    simp [both, passed, Evaluated.join]
  rw [eval, node, applicators, hitems]
  rfl

/-- A long array is refused by the schema and accepted once it is hardened. -/
theorem negated_bound_widens :
    hardenUntrustedJsonSchema writtenOrder notAnArray = .ok (.obj notAShortArray) ∧
    Accepts (fun _ _ _ => true) (fun _ => 0) (.obj notAShortArray) longArray ∧
    ¬ Accepts (fun _ _ _ => true) (fun _ => 0) (.obj notAnArray) longArray := by
  refine ⟨by decide,⟨3,fun n hn => ?_⟩,?_⟩
  · obtain ⟨m,rfl⟩ : ∃ m, n = m+3 := ⟨n-3,by omega⟩
    have hrefused : eval (fun _ _ _ => true) (fun _ => 0) (m+2)
        (.obj [("maxItems",.int 4096),("items",.bool true)]) longArray = none := by
      have hlong : withinMaximum (fun _ => 0)
          (.obj [("maxItems",.int 4096),("items",.bool true)]) longArray = false := by
        change decide (((List.replicate 4097 Json.null).length : ℚ) ≤ ((4096 : ℤ) : ℚ)) = false
        rw [List.length_replicate]
        norm_num
      rw [eval, node, hlong, Bool.and_false]
      rfl
    have hnot : inPlaceNot (eval (fun _ _ _ => true) (fun _ => 0) (m+2)) (.obj notAShortArray)
        longArray = passed := by
      change requires (eval (fun _ _ _ => true) (fun _ => 0) (m+2) _ longArray).isNone = passed
      rw [hrefused]
      rfl
    rw [eval, node, applicators, hnot]
    rfl
  · rintro ⟨deep,hdeep⟩
    have haccepted := hdeep (deep+3) (by omega)
    have hitems := any_items_pass deep (List.replicate 4097 .null)
    have hnot : inPlaceNot (eval (fun _ _ _ => true) (fun _ => 0) (deep+2)) (.obj notAnArray)
        longArray = none := by
      change requires (eval (fun _ _ _ => true) (fun _ => 0) (deep+2) _ longArray).isNone = none
      rw [← Option.not_isSome, longArray, hitems]
      rfl
    rw [eval, node, applicators, hnot] at haccepted
    cases haccepted

end SuiteHarness.Security
