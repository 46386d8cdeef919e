import Mathlib

/-!
# Identifier patterns

The regular expressions that the validators of several packages share, each as
a decidable check of the whole text.
-/

set_option autoImplicit false

namespace SuiteHarness

/-! Sets of texts are sorted by code points. -/

instance textTrans : IsTrans String (· ≤ ·) := inferInstance

instance textAntisymm : Std.Antisymm (fun a b : String => a ≤ b) := inferInstance

def isAlnum (c : Char) : Bool := c.isAlphanum

def isIdentifier (s : String) : Bool :=
  match s.toList with
  | [] => false
  | c::cs => isAlnum c && decide (cs.length ≤ 127) &&
      cs.all (fun d => isAlnum d || ['.','_',':','-'].contains d)

theorem alnum_range (c : Char) (h : isAlnum c = true) :
    48 ≤ c.toNat ∧ c.toNat ≤ 122 ∧ c.toNat ≠ 92 := by
  simp only [isAlnum, Char.isAlphanum, Char.isAlpha, Char.isUpper, Char.isLower, Char.isDigit,
    Bool.or_eq_true, Bool.and_eq_true, decide_eq_true_eq, UInt32.le_iff_toNat_le, ge_iff_le] at h
  have htoNat : c.toNat = c.val.toNat := rfl
  rcases h with (⟨h,h'⟩ | ⟨h,h'⟩) | ⟨h,h'⟩ <;> simp at h h' <;> omega

theorem identifier_chars {s : String} (h : isIdentifier s = true) :
    s.toList.length ≤ 128 ∧ ∀ c ∈ s.toList, isAlnum c = true ∨ c ∈ ['.','_',':','-'] := by
  rw [isIdentifier] at h
  cases hchars : s.toList with
  | nil =>
    rw [hchars] at h
    cases h
  | cons c cs =>
    rw [hchars] at h
    simp only [Bool.and_eq_true, decide_eq_true_eq, List.all_eq_true] at h
    obtain ⟨⟨hfirst,hlength⟩,hrest⟩ := h
    refine ⟨by rw [List.length_cons]; omega,?_⟩
    intro d hd
    rcases List.mem_cons.mp hd with rfl | hd
    · exact .inl hfirst
    · have hchar := hrest d hd
      rwa [Bool.or_eq_true, List.contains_iff_mem] at hchar

def isSha256Hex (s : String) : Bool :=
  decide (s.toList.length = 64) &&
    s.toList.all (fun d => d.isDigit || ['a','b','c','d','e','f'].contains d)

def Identifier := {s : String // isIdentifier s = true}

instance : DecidableEq Identifier := inferInstanceAs (DecidableEq {s : String // isIdentifier s = true})

def nameTail : Bool → List Char → Bool
  | separated, [] => !separated
  | separated, c::cs =>
    if c.isLower || c.isDigit then nameTail false cs
    else !separated && ['.','_',':','/','-'].contains c && nameTail true cs

def isName (s : String) : Bool :=
  match s.toList with
  | [] => false
  | c::cs => c.isLower && nameTail false cs

def isSpace (c : Char) : Bool :=
  (9 ≤ c.toNat && c.toNat ≤ 13) || (28 ≤ c.toNat && c.toNat ≤ 32) ||
    (8192 ≤ c.toNat && c.toNat ≤ 8202) ||
    [133,160,5760,8232,8233,8239,8287,12288].contains c.toNat

def strip (s : String) : String :=
  String.ofList ((s.toList.dropWhile isSpace).reverse.dropWhile isSpace).reverse

end SuiteHarness
