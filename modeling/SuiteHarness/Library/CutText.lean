import Mathlib

/-!
# Encoded text cut at a byte limit

The first bytes of an encoded text are whole characters and an unfinished one.
An incremental decoder returns the characters and keeps the unfinished bytes.
-/

set_option autoImplicit false

namespace SuiteHarness.Library.CutText

variable (cs : List Char)

def encodeText : List UInt8 := cs.flatMap String.utf8EncodeChar

def Unfinished (tail : List UInt8) : Prop :=
  ∃ c, tail <+: String.utf8EncodeChar c ∧ tail.length < c.utf8Size

@[simp] theorem encode_nil : encodeText [] = [] := rfl

theorem encode_cons (c : Char) (cs : List Char) :
    encodeText (c::cs) = String.utf8EncodeChar c++encodeText cs := List.flatMap_cons

theorem encode_append (front back : List Char) :
    encodeText (front++back) = encodeText front++encodeText back := List.flatMap_append

theorem encode_pos (h : cs ≠ []) : 0 < (encodeText cs).length := by
  cases cs with
  | nil => exact absurd rfl h
  | cons c cs =>
    rw [encode_cons, List.length_append, String.length_utf8EncodeChar]
    have hc := c.utf8Size_pos
    omega

theorem unfinished_nil : Unfinished [] := ⟨'a',List.nil_prefix,by decide⟩

theorem Unfinished.short {tail : List UInt8} (h : Unfinished tail) : tail.length ≤ 3 := by
  obtain ⟨c,-,hlength⟩ := h
  have hfour := c.utf8Size_le_four
  omega

/-- A cut leaves whole characters and an unfinished one. -/
theorem take_encode (limit : ℕ) (cs : List Char) :
    ∃ front back tail, cs = front++back ∧ Unfinished tail ∧
      (encodeText cs).take limit = encodeText front++tail := by
  induction cs generalizing limit with
  | nil => exact ⟨[],[],[],rfl,unfinished_nil,List.take_nil⟩
  | cons c cs ih =>
    rw [encode_cons, List.take_append, String.length_utf8EncodeChar]
    by_cases hfits : c.utf8Size ≤ limit
    · obtain ⟨front,back,tail,hcs,htail,htake⟩ := ih (limit-c.utf8Size)
      refine ⟨c::front,back,tail,by rw [hcs, List.cons_append],htail,?_⟩
      rw [htake, encode_cons, List.take_of_length_le (by rw [String.length_utf8EncodeChar]; exact hfits),
        List.append_assoc]
    · refine ⟨[],c::cs,(String.utf8EncodeChar c).take limit,rfl,⟨c,List.take_prefix _ _,?_⟩,?_⟩
      · rw [List.length_take]
        omega
      · rw [Nat.sub_eq_zero_of_le (by omega), List.take_zero, List.append_nil]
        rfl

/-- `codecs.getincrementaldecoder("utf-8")` on one chunk: the text and the bytes
kept for the next one, or nothing where it raises. It is assumed to decode whole
characters and to keep an unfinished one unless the chunk is the last. -/
structure IncrementalDecoder where
  decode : List UInt8 → Bool → Option (List Char × List UInt8)
  whole : ∀ cs, decode (encodeText cs) true = some (cs,[])
  cut : ∀ cs tail, Unfinished tail → decode (encodeText cs++tail) false = some (cs,tail)

def decodeWhole : ℕ → List UInt8 → List Char × List UInt8
  | 0, bytes => ([],bytes)
  | fuel+1, bytes => match ByteArray.utf8DecodeChar? bytes.toByteArray 0 with
    | none => ([],bytes)
    | some c =>
      let (cs,rest) := decodeWhole fuel (bytes.drop c.utf8Size)
      (c::cs,rest)

theorem decode_char_append (c : Char) (bytes : List UInt8) :
    ByteArray.utf8DecodeChar? (String.utf8EncodeChar c++bytes).toByteArray 0 = some c := by
  rw [List.toByteArray_append]
  exact ByteArray.utf8DecodeChar?_utf8EncodeChar_append

theorem decode_unfinished {tail : List UInt8} (h : Unfinished tail) :
    ByteArray.utf8DecodeChar? tail.toByteArray 0 = none := by
  obtain ⟨c,⟨rest,hrest⟩,hlength⟩ := h
  cases hdecode : ByteArray.utf8DecodeChar? tail.toByteArray 0 with
  | none => rfl
  | some d =>
    -- A decoded character would be the one that is unfinished.
    have hsame : some d = some c := by
      rw [← decode_char_append c [], List.append_nil, ← hrest, List.toByteArray_append,
        ByteArray.utf8DecodeChar?_append_eq_some hdecode]
    have hsize := ByteArray.le_size_of_utf8DecodeChar?_eq_some hdecode
    rw [Option.some.inj hsame, List.size_toByteArray] at hsize
    omega

theorem decode_whole_encode (tail : List UInt8) (htail : Unfinished tail) (fuel : ℕ)
    (hfuel : cs.length < fuel) : decodeWhole fuel (encodeText cs++tail) = (cs,tail) := by
  induction cs generalizing fuel with
  | nil =>
    cases fuel with
    | zero => exact absurd hfuel (Nat.not_lt_zero _)
    | succ fuel => rw [encode_nil, List.nil_append, decodeWhole, decode_unfinished htail]
  | cons c cs ih =>
    cases fuel with
    | zero => exact absurd hfuel (Nat.not_lt_zero _)
    | succ fuel =>
      have hdrop : (String.utf8EncodeChar c++(encodeText cs++tail)).drop c.utf8Size =
          encodeText cs++tail := List.drop_left' (String.length_utf8EncodeChar c)
      rw [encode_cons, List.append_assoc, decodeWhole, decode_char_append]
      simp only [hdrop, ih fuel (Nat.lt_of_succ_lt_succ hfuel)]

theorem length_le_encode : cs.length ≤ (encodeText cs).length := by
  induction cs with
  | nil => rfl
  | cons c cs ih =>
    rw [encode_cons, List.length_append, String.length_utf8EncodeChar, List.length_cons]
    have hc := c.utf8Size_pos
    omega

def wholeDecoder : IncrementalDecoder where
  decode bytes final :=
    let out := decodeWhole (bytes.length+1) bytes
    if final && !out.2.isEmpty then none else some out
  whole cs := by
    have h := decode_whole_encode cs [] unfinished_nil ((encodeText cs).length+1)
      (Nat.lt_succ_of_le (length_le_encode cs))
    rw [List.append_nil] at h
    simp [h]
  cut cs tail htail := by
    have hlength : cs.length < (encodeText cs++tail).length+1 := by
      have hle := length_le_encode cs
      rw [List.length_append]
      omega
    show some (decodeWhole _ (encodeText cs++tail)) = some (cs,tail)
    rw [decode_whole_encode cs tail htail _ hlength]

end SuiteHarness.Library.CutText
