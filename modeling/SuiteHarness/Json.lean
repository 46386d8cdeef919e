import Mathlib

/-!
# JSON values and their canonical text

The value type follows what the code can hold after validation. A floating
point number is kept as its printed form, the three non-finite forms included,
since the code inspects such a number only to reject it or to print it.
Canonical text sorts object keys, uses no blanks and escapes only what the
standard encoder escapes when it may emit non-ASCII characters.
-/

set_option autoImplicit false

namespace SuiteHarness

inductive Json where
  | null
  | bool (b : Bool)
  | int (n : ℤ)
  | float (repr : String)
  | str (s : String)
  | arr (items : List Json)
  | obj (fields : List (String × Json))
  deriving Repr

namespace Json

mutual

def decEq : (a b : Json) → Decidable (a = b)
  | .null, .null => isTrue rfl
  | .bool a, .bool b => if h : a = b then isTrue (by rw [h]) else isFalse (by simpa using h)
  | .int a, .int b => if h : a = b then isTrue (by rw [h]) else isFalse (by simpa using h)
  | .float a, .float b => if h : a = b then isTrue (by rw [h]) else isFalse (by simpa using h)
  | .str a, .str b => if h : a = b then isTrue (by rw [h]) else isFalse (by simpa using h)
  | .arr a, .arr b => match decEqItems a b with
    | isTrue h => isTrue (by rw [h])
    | isFalse h => isFalse (by simpa using h)
  | .obj a, .obj b => match decEqFields a b with
    | isTrue h => isTrue (by rw [h])
    | isFalse h => isFalse (by simpa using h)
  | .null, .bool _ | .null, .int _ | .null, .float _ | .null, .str _ | .null, .arr _
  | .null, .obj _ | .bool _, .null | .bool _, .int _ | .bool _, .float _ | .bool _, .str _
  | .bool _, .arr _ | .bool _, .obj _ | .int _, .null | .int _, .bool _ | .int _, .float _
  | .int _, .str _ | .int _, .arr _ | .int _, .obj _ | .float _, .null | .float _, .bool _
  | .float _, .int _ | .float _, .str _ | .float _, .arr _ | .float _, .obj _ | .str _, .null
  | .str _, .bool _ | .str _, .int _ | .str _, .float _ | .str _, .arr _ | .str _, .obj _
  | .arr _, .null | .arr _, .bool _ | .arr _, .int _ | .arr _, .float _ | .arr _, .str _
  | .arr _, .obj _ | .obj _, .null | .obj _, .bool _ | .obj _, .int _ | .obj _, .float _
  | .obj _, .str _ | .obj _, .arr _ => isFalse (by simp)

def decEqItems : (a b : List Json) → Decidable (a = b)
  | [], [] => isTrue rfl
  | x::xs, y::ys => match decEq x y, decEqItems xs ys with
    | isTrue h, isTrue h' => isTrue (by rw [h, h'])
    | isFalse h, _ => isFalse (by simp [h])
    | _, isFalse h => isFalse (by simp [h])
  | [], _::_ | _::_, [] => isFalse (by simp)

def decEqFields : (a b : List (String × Json)) → Decidable (a = b)
  | [], [] => isTrue rfl
  | (k,x)::xs, (l,y)::ys => if hk : k = l then match decEq x y, decEqFields xs ys with
      | isTrue h, isTrue h' => isTrue (by rw [hk, h, h'])
      | isFalse h, _ => isFalse (by simp [h])
      | _, isFalse h => isFalse (by simp [h])
    else isFalse (by simp [hk])
  | [], _::_ | _::_, [] => isFalse (by simp)

end

instance : DecidableEq Json := decEq

def get? (key : String) : Json → Option Json
  | .obj fields => (fields.find? (fun f => f.1 = key)).map Prod.snd
  | _ => none

def hasKey (key : String) (v : Json) : Bool := (v.get? key).isSome

def isObj : Json → Bool
  | .obj _ => true
  | _ => false

def isArr : Json → Bool
  | .arr _ => true
  | _ => false

mutual

def nonFinite : Json → Bool
  | .float r => ["nan","inf","-inf"].contains r
  | .arr items => nonFiniteItems items
  | .obj fields => nonFiniteFields fields
  | _ => false

def nonFiniteItems : List Json → Bool
  | [] => false
  | x::xs => nonFinite x || nonFiniteItems xs

def nonFiniteFields : List (String × Json) → Bool
  | [] => false
  | (_,x)::xs => nonFinite x || nonFiniteFields xs

end

def hexDigit (n : ℕ) : Char := if n < 10 then Char.ofNat (48+n) else Char.ofNat (87+n)

def escape (c : Char) : String :=
  if c = '"' then "\\\"" else if c = '\\' then "\\\\"
  else if c = '\n' then "\\n" else if c = '\r' then "\\r" else if c = '\t' then "\\t"
  else if c = '\x08' then "\\b" else if c = '\x0c' then "\\f"
  else if c.toNat < 32 then
    "\\u00" ++ String.ofList [hexDigit (c.toNat/16),hexDigit (c.toNat%16)]
  else c.toString

def quote (s : String) : String := "\"" ++ String.join (s.toList.map escape) ++ "\""

def joinComma (parts : List String) : String := String.intercalate "," parts

mutual

def render : Json → String
  | .null => "null"
  | .bool true => "true"
  | .bool false => "false"
  | .int n => toString n
  | .float r => r
  | .str s => quote s
  | .arr items => "[" ++ joinComma (renderItems items) ++ "]"
  | .obj fields => "\x7b" ++ joinComma
      (((renderFields fields).insertionSort (fun a b => a.1 ≤ b.1)).map
        (fun p => quote p.1 ++ ":" ++ p.2)) ++ "\x7d"

def renderItems : List Json → List String
  | [] => []
  | x::xs => render x::renderItems xs

def renderFields : List (String × Json) → List (String × String)
  | [] => []
  | (k,x)::xs => (k,render x)::renderFields xs

end

mutual

def canon : Json → Json
  | .arr items => .arr (canonItems items)
  | .obj fields => .obj ((canonFields fields).insertionSort (fun a b => a.1 ≤ b.1))
  | v => v

def canonItems : List Json → List Json
  | [] => []
  | x::xs => canon x::canonItems xs

def canonFields : List (String × Json) → List (String × Json)
  | [] => []
  | (k,x)::xs => (k,canon x)::canonFields xs

end

/-! Canonical form: sorting by key is stable under maps of the values, so the
canonical value has the text of the value it comes from. -/

section Sorting

variable {α β : Type}

def sortKeys (fields : List (String × α)) : List (String × α) :=
  fields.insertionSort (fun a b => a.1 ≤ b.1)

theorem sort_keys_map (f : α → β) (fields : List (String × α)) :
    (sortKeys fields).map (fun e => (e.1,f e.2)) = sortKeys (fields.map (fun e => (e.1,f e.2))) :=
  List.map_insertionSort _ _ _ fields (fun _ _ _ _ => Iff.rfl)

theorem sort_keys_twice (fields : List (String × α)) : sortKeys (sortKeys fields) = sortKeys fields := by
  have htotal : Std.Total (fun a b : String × α => a.1 ≤ b.1) := ⟨fun a b => le_total a.1 b.1⟩
  have htrans : IsTrans (String × α) (fun a b => a.1 ≤ b.1) := ⟨fun a b c => le_trans⟩
  exact (List.pairwise_insertionSort _ fields).insertionSort_eq

theorem mem_sort_keys (e : String × α) (fields : List (String × α)) :
    e ∈ sortKeys fields ↔ e ∈ fields :=
  (List.perm_insertionSort _ fields).mem_iff

end Sorting

variable (fields : List (String × Json)) (items : List Json)

theorem canon_items : canonItems items = items.map canon := by
  induction items with
  | nil => rfl
  | cons x xs ih => rw [canonItems, ih, List.map_cons]

theorem canon_fields : canonFields fields = fields.map (fun e => (e.1,canon e.2)) := by
  induction fields with
  | nil => rfl
  | cons e rest ih => rw [canonFields, ih, List.map_cons]

theorem render_items : renderItems items = items.map render := by
  induction items with
  | nil => rfl
  | cons x xs ih => rw [renderItems, ih, List.map_cons]

theorem render_fields : renderFields fields = fields.map (fun e => (e.1,render e.2)) := by
  induction fields with
  | nil => rfl
  | cons e rest ih => rw [renderFields, ih, List.map_cons]

theorem non_finite_items : nonFiniteItems items = items.any nonFinite := by
  induction items with
  | nil => rfl
  | cons x xs ih => rw [nonFiniteItems, ih, List.any_cons]

theorem non_finite_fields : nonFiniteFields fields = fields.any (fun e => nonFinite e.2) := by
  induction fields with
  | nil => rfl
  | cons e rest ih => rw [nonFiniteFields, ih, List.any_cons]

theorem canon_arr : canon (.arr items) = .arr (items.map canon) := by
  rw [canon, canon_items]

theorem canon_obj :
    canon (.obj fields) = .obj (sortKeys (fields.map (fun e => (e.1,canon e.2)))) := by
  rw [canon, canon_fields]
  rfl

theorem induction_within {P : Json → Prop} (hnull : P .null) (hbool : ∀ b, P (.bool b))
    (hint : ∀ n, P (.int n)) (hfloat : ∀ r, P (.float r)) (hstr : ∀ s, P (.str s))
    (harr : ∀ items, (∀ x ∈ items, P x) → P (.arr items))
    (hobj : ∀ fields, (∀ e ∈ fields, P e.2) → P (.obj fields)) (v : Json) : P v :=
  @Json.rec P (fun items => ∀ x ∈ items, P x) (fun fields => ∀ e ∈ fields, P e.2)
    (fun e => P e.2) hnull hbool hint hfloat hstr harr hobj
    nofun (fun _ _ hx hxs => List.forall_mem_cons.mpr ⟨hx,hxs⟩)
    nofun (fun _ _ hx hxs => List.forall_mem_cons.mpr ⟨hx,hxs⟩)
    (fun _ _ hx => hx) v

@[simp] theorem canon_canon (v : Json) : v.canon.canon = v.canon := by
  induction v using induction_within with
  | harr items ih =>
    rw [canon_arr, canon_arr, List.map_map]
    exact congrArg Json.arr (List.map_congr_left ih)
  | hobj fields ih =>
    rw [canon_obj, canon_obj, sort_keys_map, List.map_map, sort_keys_twice]
    have hmap : fields.map ((fun e => (e.1,canon e.2)) ∘ fun e => (e.1,canon e.2)) =
        fields.map (fun e => (e.1,canon e.2)) := by
      apply List.map_congr_left
      intro e he
      exact congrArg (Prod.mk e.1) (ih e he)
    rw [hmap]
  | hnull | hbool | hint | hfloat | hstr => rfl

theorem render_obj :
    render (.obj fields) = "\x7b" ++ joinComma ((sortKeys (fields.map (fun e => (e.1,render e.2)))).map
      (fun p => quote p.1 ++ ":" ++ p.2)) ++ "\x7d" := by
  rw [render, render_fields]
  rfl

theorem render_canon (v : Json) : v.canon.render = v.render := by
  induction v using induction_within with
  | harr items ih =>
    have hmap : (items.map canon).map render = items.map render := by
      rw [List.map_map]
      exact List.map_congr_left ih
    rw [canon_arr, render, render, render_items, render_items, hmap]
  | hobj fields ih =>
    have hmap : (fields.map (fun e => (e.1,canon e.2))).map (fun e => (e.1,render e.2)) =
        fields.map (fun e => (e.1,render e.2)) := by
      rw [List.map_map]
      apply List.map_congr_left
      intro e he
      exact congrArg (Prod.mk e.1) (ih e he)
    rw [canon_obj, render_obj, render_obj, sort_keys_map, sort_keys_twice, hmap]
  | hnull | hbool | hint | hfloat | hstr => rfl

theorem non_finite_canon (v : Json) : v.canon.nonFinite = v.nonFinite := by
  induction v using induction_within with
  | harr items ih =>
    rw [canon_arr, nonFinite, nonFinite, non_finite_items, non_finite_items, Bool.eq_iff_iff]
    simp only [List.any_eq_true, List.mem_map, exists_exists_and_eq_and]
    exact exists_congr fun x => and_congr_right fun hx => by rw [ih x hx]
  | hobj fields ih =>
    rw [canon_obj, nonFinite, nonFinite, non_finite_fields, non_finite_fields, Bool.eq_iff_iff]
    simp only [List.any_eq_true, mem_sort_keys, List.mem_map, exists_exists_and_eq_and]
    exact exists_congr fun e => and_congr_right fun he => by rw [ih e he]
  | hnull | hbool | hint | hfloat | hstr => rfl

inductive KeyWithin (key : String) : Json → Prop where
  | here (fields : List (String × Json)) (value : Json) (h : (key,value) ∈ fields) :
      KeyWithin key (.obj fields)
  | field (fields : List (String × Json)) (name : String) (value : Json)
      (h : (name,value) ∈ fields) (hvalue : KeyWithin key value) : KeyWithin key (.obj fields)
  | item (items : List Json) (value : Json) (h : value ∈ items) (hvalue : KeyWithin key value) :
      KeyWithin key (.arr items)

end Json

def canonicalJson (v : Json) : Option String := if v.nonFinite then none else some v.render

def utf8Length (s : String) : ℕ := s.utf8ByteSize

/-- The SHA-256 hex digest of canonical text, treated as injective: the digest
is represented by the canonical value itself. -/
structure Digest where
  value : Json
  deriving DecidableEq

def digest (v : Json) : Digest := ⟨v.canon⟩

def floatText (r : String) : String :=
  if r = "nan" then "NaN" else if r = "inf" then "Infinity"
  else if r = "-inf" then "-Infinity" else r

structure Encoder where
  comma : String
  colon : String
  float : String → String

namespace Encoder

mutual

def encode (w : Encoder) : Json → String
  | .null => "null"
  | .bool true => "true"
  | .bool false => "false"
  | .int n => toString n
  | .float r => w.float r
  | .str s => Json.quote s
  | .arr items => "[" ++ String.intercalate w.comma (encodeItems w items) ++ "]"
  | .obj fields => "\x7b" ++ String.intercalate w.comma (encodeFields w fields) ++ "\x7d"

def encodeItems (w : Encoder) : List Json → List String
  | [] => []
  | x::xs => encode w x::encodeItems w xs

def encodeFields (w : Encoder) : List (String × Json) → List String
  | [] => []
  | (k,x)::xs => (Json.quote k ++ w.colon ++ encode w x)::encodeFields w xs

end

def compact : Encoder := ⟨",",":",floatText⟩

def spaced : Encoder := ⟨", ",": ",floatText⟩

theorem encode_obj (w : Encoder) (fields : List (String × Json)) : w.encode (.obj fields) =
    "\x7b" ++ String.intercalate w.comma (w.encodeFields fields) ++ "\x7d" := by
  rw [encode]

end Encoder

def asciiLength (v : Json) : ℕ :=
  ((Encoder.spaced.encode v).toList.map
    (fun c => if c.toNat < 127 then 1 else if c.toNat < 65536 then 6 else 12)).sum

example : canonicalJson (.obj [("b",.int 12),("a",.arr [.null,.str "x\n"])]) =
    some "\x7b\"a\":[null,\"x\\n\"],\"b\":12\x7d" := by decide

end SuiteHarness
