import Mathlib

/-!
# Length-prefixed bytes

A frame is a fixed-width big-endian length and the bytes it counts. A frame can
be read off the front of any byte string, so a list of frames is determined by
its concatenation.
-/

set_option autoImplicit false

namespace SuiteHarness.Library

def bigEndian : ℕ → ℕ → List UInt8
  | 0, _ => []
  | width+1, n => bigEndian width (n/256) ++ [UInt8.ofNat (n%256)]

@[simp] theorem big_endian_length (width n : ℕ) : (bigEndian width n).length = width := by
  induction width generalizing n with
  | zero => rfl
  | succ width ih => rw [bigEndian, List.length_append, ih, List.length_singleton]

theorem big_endian_inj (width m n : ℕ) (hm : m < 256^width) (hn : n < 256^width)
    (h : bigEndian width m = bigEndian width n) : m = n := by
  induction width generalizing m n with
  | zero =>
    rw [pow_zero] at hm hn
    omega
  | succ width ih =>
    obtain ⟨hhigh,hlow⟩ := List.append_inj' h rfl
    have hquot : m/256 = n/256 := by
      apply ih _ _ _ _ hhigh
      · rw [pow_succ] at hm
        exact Nat.div_lt_of_lt_mul (by omega)
      · rw [pow_succ] at hn
        exact Nat.div_lt_of_lt_mul (by omega)
    have hrem : m%256 = n%256 := by
      have hbyte := congrArg UInt8.toNat (List.singleton_inj.mp hlow)
      rw [UInt8.toNat_ofNat', UInt8.toNat_ofNat'] at hbyte
      omega
    omega

def frame (width : ℕ) (bytes : List UInt8) : List UInt8 := bigEndian width bytes.length ++ bytes

/-- A frame is read off whatever follows it. -/
theorem frame_append_inj {width : ℕ} {a b rest rest' : List UInt8} (ha : a.length < 256^width)
    (hb : b.length < 256^width) (h : frame width a ++ rest = frame width b ++ rest') :
    a = b ∧ rest = rest' := by
  rw [frame, frame, List.append_assoc, List.append_assoc] at h
  obtain ⟨hlength,hbody⟩ := List.append_inj h (by rw [big_endian_length, big_endian_length])
  exact List.append_inj hbody (big_endian_inj width _ _ ha hb hlength)

def framedPairs (width : ℕ) (records : List (List UInt8 × List UInt8)) : List UInt8 :=
  records.flatMap (fun r => frame width r.1 ++ frame width r.2)

theorem framed_pairs_inj {width : ℕ} (hwidth : 0 < width)
    {records records' : List (List UInt8 × List UInt8)}
    (hr : ∀ r ∈ records, r.1.length < 256^width ∧ r.2.length < 256^width)
    (hr' : ∀ r ∈ records', r.1.length < 256^width ∧ r.2.length < 256^width)
    (h : framedPairs width records = framedPairs width records') : records = records' := by
  have hsome : ∀ (r : List UInt8 × List UInt8) (rest : List UInt8),
      frame width r.1 ++ frame width r.2 ++ rest ≠ [] := by
    intro r rest hnil
    have hlength := congrArg List.length hnil
    simp only [frame, List.length_append, big_endian_length, List.length_nil] at hlength
    omega
  induction records generalizing records' with
  | nil =>
    cases records' with
    | nil => rfl
    | cons r' rest' => exact absurd h.symm (hsome r' _)
  | cons r rest ih =>
    cases records' with
    | nil => exact absurd h (hsome r _)
    | cons r' rest' =>
      have hfirst := hr r List.mem_cons_self
      have hfirst' := hr' r' List.mem_cons_self
      rw [framedPairs, framedPairs, List.flatMap_cons, List.flatMap_cons, List.append_assoc,
        List.append_assoc] at h
      obtain ⟨hname,h⟩ := frame_append_inj hfirst.1 hfirst'.1 h
      obtain ⟨hbody,h⟩ := frame_append_inj hfirst.2 hfirst'.2 h
      rw [Prod.ext hname hbody, ih (fun x hx => hr x (List.mem_cons_of_mem _ hx))
        (fun x hx => hr' x (List.mem_cons_of_mem _ hx)) h]

end SuiteHarness.Library
