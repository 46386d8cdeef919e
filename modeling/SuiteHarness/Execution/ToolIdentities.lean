import SuiteHarness.CanonicalJson
import SuiteHarness.Execution.Models

/-!
# Default tool identities

`ToolIdentity.scoped` writes the scope of a registration into the origin, with
colons between the identifiers. Identifiers may contain colons themselves, so
two product scopes share an origin when a colon-terminated part of one product
identifier is the end of the other tenant identifier.
-/

set_option autoImplicit false

namespace SuiteHarness.Execution

def startsAlnum (room : ℕ) (others : List Char) (s : String) : Bool :=
  match s.toList with
  | [] => false
  | c::cs => isAlnum c && decide (cs.length ≤ room) &&
      cs.all (fun d => isAlnum d || others.contains d)

def isOrigin (s : String) : Bool := startsAlnum 511 ['.','_',':','/','-'] s

def isVersion (s : String) : Bool := startsAlnum 63 ['.','_','+','-'] s

inductive ToolIdentityError where
  | invalid (label value : String)
  | scopeKind (message : String)
  deriving DecidableEq

namespace ToolIdentity

variable (identity : ToolIdentity)

def refusals : List ToolIdentityError :=
  (if isName identity.nameSpace then [] else [.invalid "invalid namespace" identity.nameSpace])++
  (if isName identity.name then [] else [.invalid "invalid name" identity.name])++
  (if isOrigin identity.origin then [] else [.invalid "invalid tool origin" identity.origin])++
  (if isVersion identity.version then [] else [.invalid "invalid tool version" identity.version])

def construct : Except (List ToolIdentityError) ToolIdentity :=
  if identity.refusals = [] then .ok identity else .error identity.refusals

def scopedIdentity (scope : ScopePath) (name : String) (version : String := "1") :
    Except (List ToolIdentityError) ToolIdentity :=
  match scope with
  | .root => construct ⟨"root",name,"scope:root",version⟩
  | .tenant tenantId => construct ⟨"tenant",name,"scope:tenant:" ++ tenantId.val,version⟩
  | .product tenantId productId =>
    construct ⟨"product",name,"scope:product:" ++ tenantId.val ++ ":" ++ productId.val,version⟩
  | .agent _ _ _ _ =>
    .error [.scopeKind "tool identities require root, tenant, or product scope"]

def canonicalId : Digest :=
  digest (.obj [("name",.str identity.name),("namespace",.str identity.nameSpace),
    ("origin",.str identity.origin),("version",.str identity.version)])

theorem canonical_id_inj (i j : ToolIdentity) : canonicalId i = canonicalId j ↔ i = j := by
  constructor
  · intro h
    have hcanon := congrArg Digest.value h
    rw [canonicalId, canonicalId, digest, digest,
      Json.canon_obj_inj ["name","namespace","origin","version"] (by decide) rfl rfl] at hcanon
    simp only [List.map_cons, List.map_nil, List.cons.injEq, Prod.mk.injEq, true_and, and_true,
      Json.canon, Json.str.injEq] at hcanon
    cases i
    cases j
    simp_all
  · intro h
    rw [h]

theorem construct_ok {identity i : ToolIdentity} (h : construct identity = .ok i) :
    i = identity := by
  rw [construct] at h
  split at h
  · exact (Except.ok.inj h).symm
  · cases h

def Shifted (a b : ScopePath) : Prop :=
  ∃ (t p t' p' : Identifier) (moved : String), a = .product t p ∧ b = .product t' p' ∧
    t'.val = t.val ++ ":" ++ moved ∧ p.val = moved ++ ":" ++ p'.val

theorem Shifted.ne {a b : ScopePath} (h : Shifted a b) : a ≠ b := by
  obtain ⟨t,p,t',p',moved,rfl,rfl,ht,hp⟩ := h
  intro heq
  cases heq
  have hlength := congrArg (fun s : String => s.toList.length) ht
  simp only [String.toList_append, List.length_append] at hlength
  have hcolon : ":".toList.length = 1 := rfl
  omega

/-- Where a text splits at a colon in two ways, one split is inside the other's
left or right part. -/
theorem split_at_colon (t p t' p' : String) (h : t ++ ":" ++ p = t' ++ ":" ++ p') :
    (t = t' ∧ p = p') ∨ (∃ moved, t' = t ++ ":" ++ moved ∧ p = moved ++ ":" ++ p') ∨
      ∃ moved, t = t' ++ ":" ++ moved ∧ p' = moved ++ ":" ++ p := by
  have hlist := congrArg String.toList h
  simp only [String.toList_append, List.append_assoc] at hlist
  rcases List.append_eq_append_iff.mp hlist with ⟨gap,hleft,hright⟩ | ⟨gap,hleft,hright⟩
  · cases gap with
    | nil =>
      rw [List.append_nil] at hleft
      exact .inl ⟨String.toList_inj.mp hleft.symm,String.toList_inj.mp (List.append_cancel_left hright)⟩
    | cons c moved =>
      have hcons : ':'::p.toList = c::(moved++(":".toList++p'.toList)) := hright
      rw [List.cons.injEq] at hcons
      refine .inr (.inl ⟨String.ofList moved,?_,?_⟩)
      · rw [← String.toList_inj, hleft, ← hcons.1]
        simp
      · rw [← String.toList_inj, hcons.2]
        simp
  · cases gap with
    | nil =>
      rw [List.append_nil] at hleft
      exact .inl ⟨String.toList_inj.mp hleft,
        (String.toList_inj.mp (List.append_cancel_left hright)).symm⟩
    | cons c moved =>
      have hcons : ':'::p'.toList = c::(moved++(":".toList++p.toList)) := hright
      rw [List.cons.injEq] at hcons
      refine .inr (.inr ⟨String.ofList moved,?_,?_⟩)
      · rw [← String.toList_inj, hleft, ← hcons.1]
        simp
      · rw [← String.toList_inj, hcons.2]
        simp

theorem shifted_origin {t p t' p' : Identifier} (h : Shifted (.product t p) (.product t' p')) :
    t.val ++ ":" ++ p.val = t'.val ++ ":" ++ p'.val := by
  obtain ⟨_,_,_,_,moved,ha,hb,ht,hp⟩ := h
  cases ha
  cases hb
  rw [ht, hp]
  simp only [String.append_assoc]

theorem product_origin_iff (t p t' p' : Identifier) :
    t.val ++ ":" ++ p.val = t'.val ++ ":" ++ p'.val ↔
      ScopePath.product t p = .product t' p' ∨ Shifted (.product t p) (.product t' p') ∨
        Shifted (.product t' p') (.product t p) := by
  constructor
  · intro h
    rcases split_at_colon _ _ _ _ h with ⟨ht,hp⟩ | ⟨moved,ht,hp⟩ | ⟨moved,ht,hp⟩
    · exact .inl (by rw [Subtype.ext ht, Subtype.ext hp])
    · exact .inr (.inl ⟨t,p,t',p',moved,rfl,rfl,ht,hp⟩)
    · exact .inr (.inr ⟨t',p',t,p,moved,rfl,rfl,ht,hp⟩)
  · rintro (h | h | h)
    · cases h
      rfl
    · exact shifted_origin h
    · exact (shifted_origin h).symm

theorem scoped_ok {scope : ScopePath} {name version : String} {i : ToolIdentity}
    (h : scopedIdentity scope name version = .ok i) :
    i.name = name ∧ i.version = version ∧
      ((scope = .root ∧ i.nameSpace = "root" ∧ i.origin = "scope:root") ∨
        (∃ t, scope = .tenant t ∧ i.nameSpace = "tenant" ∧ i.origin = "scope:tenant:" ++ t.val) ∨
        ∃ t p, scope = .product t p ∧ i.nameSpace = "product" ∧
          i.origin = "scope:product:" ++ (t.val ++ ":" ++ p.val)) := by
  cases scope with
  | root => rw [construct_ok h]; exact ⟨rfl,rfl,.inl ⟨rfl,rfl,rfl⟩⟩
  | tenant t => rw [construct_ok h]; exact ⟨rfl,rfl,.inr (.inl ⟨t,rfl,rfl,rfl⟩)⟩
  | product t p =>
    rw [construct_ok h]
    exact ⟨rfl,rfl,.inr (.inr ⟨t,p,rfl,rfl,by simp only [String.append_assoc]⟩)⟩
  | agent t p a s => cases h

theorem append_left_cancel (s t t' : String) : s ++ t = s ++ t' ↔ t = t' := by
  rw [← String.toList_inj, String.toList_append, String.toList_append, List.append_cancel_left_eq,
    String.toList_inj]

theorem scoped_eq_iff {a b : ScopePath} {n m v w : String} {i j : ToolIdentity}
    (ha : scopedIdentity a n v = .ok i) (hb : scopedIdentity b m w = .ok j) :
    i = j ↔ (a = b ∨ Shifted a b ∨ Shifted b a) ∧ n = m ∧ v = w := by
  obtain ⟨hin,hiv,hi⟩ := scoped_ok ha
  obtain ⟨hjn,hjv,hj⟩ := scoped_ok hb
  have hfields : i = j ↔ (i.nameSpace = j.nameSpace ∧ i.origin = j.origin) ∧ n = m ∧ v = w := by
    rw [← hin, ← hjn, ← hiv, ← hjv]
    cases i
    cases j
    simp only [ToolIdentity.mk.injEq]
    tauto
  rw [hfields]
  refine and_congr_left fun _ => ?_
  -- Scopes of two kinds differ in the namespace; only product origins can coincide.
  rcases hi with ⟨rfl,his,hio⟩ | ⟨t,rfl,his,hio⟩ | ⟨t,p,rfl,his,hio⟩ <;>
    rcases hj with ⟨rfl,hjs,hjo⟩ | ⟨t',rfl,hjs,hjo⟩ | ⟨t',p',rfl,hjs,hjo⟩ <;>
    rw [his, hjs, hio, hjo]
  · simp
  · simp [Shifted]
  · simp [Shifted]
  · simp [Shifted]
  · rw [append_left_cancel]
    simp only [true_and, ScopePath.tenant.injEq, Shifted, reduceCtorEq, false_and, and_false,
      exists_false, or_false]
    exact Subtype.ext_iff.symm
  · simp [Shifted]
  · simp [Shifted]
  · simp [Shifted]
  · rw [append_left_cancel, product_origin_iff]
    simp

/-- Default identities, and the identifiers in records, tell scopes, names and
versions apart unless the scopes are shifted against each other. -/
theorem scoped_identities_unique_iff (a b : ScopePath) (n m v w : String) (i j : ToolIdentity)
    (ha : scopedIdentity a n v = .ok i) (hb : scopedIdentity b m w = .ok j) :
    ((i = j → a = b ∧ n = m ∧ v = w) ↔ ¬((Shifted a b ∨ Shifted b a) ∧ n = m ∧ v = w)) ∧
      (canonicalId i = canonicalId j ↔ i = j) := by
  refine ⟨?_,canonical_id_inj i j⟩
  rw [scoped_eq_iff ha hb]
  constructor
  · rintro h ⟨hshift,hsame⟩
    have heq := (h ⟨.inr hshift,hsame⟩).1
    rcases hshift with hs | hs
    · exact hs.ne heq
    · exact hs.ne heq.symm
  · rintro h ⟨hscope,hsame⟩
    rcases hscope with heq | hshift
    · exact ⟨heq,hsame⟩
    · exact absurd ⟨hshift,hsame⟩ h

theorem neighbours_have_own_identities :
    scopedIdentity (.product ⟨"a",by decide⟩ ⟨"b",by decide⟩) "fs.read" "1" =
        .ok ⟨"product","fs.read","scope:product:a:b","1"⟩ ∧
      scopedIdentity (.product ⟨"a",by decide⟩ ⟨"c",by decide⟩) "fs.read" "1" =
        .ok ⟨"product","fs.read","scope:product:a:c","1"⟩ ∧
      ((⟨"product","fs.read","scope:product:a:b","1"⟩ : ToolIdentity) =
          ⟨"product","fs.read","scope:product:a:c","1"⟩ →
        ScopePath.product ⟨"a",by decide⟩ ⟨"b",by decide⟩ = .product ⟨"a",by decide⟩ ⟨"c",by decide⟩) :=
  have hb : scopedIdentity (.product ⟨"a",by decide⟩ ⟨"b",by decide⟩) "fs.read" "1" =
      .ok ⟨"product","fs.read","scope:product:a:b","1"⟩ := by decide
  have hc : scopedIdentity (.product ⟨"a",by decide⟩ ⟨"c",by decide⟩) "fs.read" "1" =
      .ok ⟨"product","fs.read","scope:product:a:c","1"⟩ := by decide
  ⟨hb,hc,fun h => ((scoped_identities_unique_iff _ _ _ _ _ _ _ _ hb hc).1.mpr (by
    rintro ⟨(hs | hs),-⟩ <;>
    · obtain ⟨t,p,t',p',moved,ha,hb,ht,hp⟩ := hs
      cases ha
      cases hb
      have hlength := congrArg (fun s : String => s.toList.length) ht
      simp at hlength) h).1⟩

/-- Product `b:c` of tenant `a` and product `c` of tenant `a:b`. -/
theorem shifted_products_share_identity :
    ScopePath.product ⟨"a",by decide⟩ ⟨"b:c",by decide⟩ ≠ .product ⟨"a:b",by decide⟩ ⟨"c",by decide⟩ ∧
      scopedIdentity (.product ⟨"a",by decide⟩ ⟨"b:c",by decide⟩) "fs.read" =
        .ok ⟨"product","fs.read","scope:product:a:b:c","1"⟩ ∧
      scopedIdentity (.product ⟨"a:b",by decide⟩ ⟨"c",by decide⟩) "fs.read" =
        .ok ⟨"product","fs.read","scope:product:a:b:c","1"⟩ := by
  decide

end ToolIdentity

end SuiteHarness.Execution
