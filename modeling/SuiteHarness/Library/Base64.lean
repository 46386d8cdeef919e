import Mathlib

/-!
# Base64

The standard alphabet with padding. Decoding reads groups of four characters;
only the last group may be padded, and its unused bits are ignored.
-/

set_option autoImplicit false

namespace SuiteHarness.Library.Base64

def alphabet : List Char :=
  "ABCDEFGHIJKLMNOPQRSTUVWXYZabcdefghijklmnopqrstuvwxyz0123456789+/".toList

def digit (n : ℕ) : Char := alphabet.getD n 'A'

def value (c : Char) : Option ℕ := alphabet.findIdx? (· = c)

def encode : List UInt8 → List Char
  | [] => []
  | [a] => [digit (a.toNat/4),digit (a.toNat%4*16),'=','=']
  | [a,b] => [digit (a.toNat/4),digit (a.toNat%4*16+b.toNat/16),digit (b.toNat%16*4),'=']
  | a::b::c::rest => digit (a.toNat/4)::digit (a.toNat%4*16+b.toNat/16)::
      digit (b.toNat%16*4+c.toNat/64)::digit (c.toNat%64)::encode rest

def first (w x : ℕ) : UInt8 := UInt8.ofNat (w*4+x/16)

def second (x y : ℕ) : UInt8 := UInt8.ofNat (x%16*16+y/4)

def third (y z : ℕ) : UInt8 := UInt8.ofNat (y%4*64+z)

def decode : List Char → Option (List UInt8)
  | [] => some []
  | w::x::y::z::rest =>
    if rest = [] ∧ z = '=' then
      if y = '=' then do
        let w ← value w
        let x ← value x
        pure [first w x]
      else do
        let w ← value w
        let x ← value x
        let y ← value y
        pure [first w x,second x y]
    else do
      let w ← value w
      let x ← value x
      let y ← value y
      let z ← value z
      let tail ← decode rest
      pure (first w x::second x y::third y z::tail)
  | _ => none

theorem value_digit (n : ℕ) (h : n < 64) : value (digit n) = some n := by
  have hall : ∀ n < 64, value (digit n) = some n := by decide
  exact hall n h

theorem digit_mem (n : ℕ) : digit n ∈ alphabet := by
  rw [digit, List.getD_eq_getElem?_getD]
  cases h : alphabet[n]? with
  | none => exact List.mem_cons_self
  | some c => exact List.mem_of_getElem? h

theorem digit_ne_pad (n : ℕ) : digit n ≠ '=' := by
  intro h
  exact absurd (h ▸ digit_mem n) (by decide)

theorem first_bytes (a : UInt8) (x : ℕ) (hx : x < 16) :
    first (a.toNat/4) (a.toNat%4*16+x) = a := by
  have ha := a.toNat_lt
  rw [first, show a.toNat/4*4+(a.toNat%4*16+x)/16 = a.toNat by omega, UInt8.ofNat_toNat]

theorem second_bytes (b : UInt8) (w y : ℕ) (hy : y < 4) :
    second (w*16+b.toNat/16) (b.toNat%16*4+y) = b := by
  have hb := b.toNat_lt
  rw [second, show (w*16+b.toNat/16)%16*16+(b.toNat%16*4+y)/4 = b.toNat by omega,
    UInt8.ofNat_toNat]

theorem third_bytes (c : UInt8) (y : ℕ) : third (y*4+c.toNat/64) (c.toNat%64) = c := by
  have hc := c.toNat_lt
  rw [third, show (y*4+c.toNat/64)%4*64+c.toNat%64 = c.toNat by omega, UInt8.ofNat_toNat]

variable (bytes : List UInt8)

theorem decode_encode : decode (encode bytes) = some bytes := by
  induction bytes using encode.induct with
  | case1 => rfl
  | case2 a =>
    have ha := a.toNat_lt
    have hfirst := first_bytes a 0 (by omega)
    rw [Nat.add_zero] at hfirst
    simp [encode, decode, value_digit _ (show a.toNat/4 < 64 by omega),
      value_digit _ (show a.toNat%4*16 < 64 by omega), hfirst]
  | case3 a b =>
    have ha := a.toNat_lt
    have hb := b.toNat_lt
    have hsecond := second_bytes b (a.toNat%4) 0 (by omega)
    rw [Nat.add_zero] at hsecond
    simp [encode, decode, digit_ne_pad, value_digit _ (show a.toNat/4 < 64 by omega),
      value_digit _ (show a.toNat%4*16+b.toNat/16 < 64 by omega),
      value_digit _ (show b.toNat%16*4 < 64 by omega), hsecond,
      first_bytes a (b.toNat/16) (by omega)]
  | case4 a b c rest ih =>
    have ha := a.toNat_lt
    have hb := b.toNat_lt
    have hc := c.toNat_lt
    simp [encode, decode, digit_ne_pad, value_digit _ (show a.toNat/4 < 64 by omega),
      value_digit _ (show a.toNat%4*16+b.toNat/16 < 64 by omega),
      value_digit _ (show b.toNat%16*4+c.toNat/64 < 64 by omega),
      value_digit _ (show c.toNat%64 < 64 by omega), ih, first_bytes a (b.toNat/16) (by omega),
      second_bytes b (a.toNat%4) (c.toNat/64) (by omega), third_bytes]

theorem encode_length : (encode bytes).length = (bytes.length+2)/3*4 := by
  induction bytes using encode.induct with
  | case1 => rfl
  | case2 a => simp [encode]
  | case3 a b => simp [encode]
  | case4 a b c rest ih =>
    simp only [encode, List.length_cons, ih]
    omega

theorem encode_mem : ∀ c ∈ encode bytes, c ∈ '='::alphabet := by
  have hdigit : ∀ n, digit n ∈ '='::alphabet := fun n => List.mem_cons_of_mem _ (digit_mem n)
  induction bytes using encode.induct with
  | case1 => nofun
  | case2 a =>
    intro d hd
    simp only [encode, List.mem_cons, List.not_mem_nil, or_false, or_self] at hd
    rcases hd with rfl | rfl | rfl
    · exact hdigit _
    · exact hdigit _
    · exact List.mem_cons_self
  | case3 a b =>
    intro d hd
    simp only [encode, List.mem_cons, List.not_mem_nil, or_false] at hd
    rcases hd with rfl | rfl | rfl | rfl
    · exact hdigit _
    · exact hdigit _
    · exact hdigit _
    · exact List.mem_cons_self
  | case4 a b c rest ih =>
    intro d hd
    simp only [encode, List.mem_cons] at hd
    rcases hd with rfl | rfl | rfl | rfl | hd
    · exact hdigit _
    · exact hdigit _
    · exact hdigit _
    · exact hdigit _
    · exact ih d hd

end SuiteHarness.Library.Base64
