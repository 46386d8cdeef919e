import SuiteHarness.Json

/-!
# When canonical values agree

Two objects that list the same keys have one canonical value exactly when their
fields have, so a digest of an object identifies each of its fields.
-/

set_option autoImplicit false

namespace SuiteHarness.Json

theorem eq_of_keys {α : Type} {l l' : List (String × α)} (hkeys : l.map Prod.fst = l'.map Prod.fst)
    (hnodup : (l.map Prod.fst).Nodup) (hmem : ∀ e ∈ l, e ∈ l') : l = l' := by
  induction l generalizing l' with
  | nil => exact (List.map_eq_nil_iff.mp hkeys.symm).symm
  | cons e rest ih =>
    cases l' with
    | nil => cases hkeys
    | cons e' rest' =>
      rw [List.map_cons, List.map_cons, List.cons.injEq] at hkeys
      rw [List.map_cons, List.nodup_cons] at hnodup
      have hhead : e = e' := by
        rcases List.mem_cons.mp (hmem e List.mem_cons_self) with heq | hrest
        · exact heq
        · exact absurd (hkeys.2 ▸ List.mem_map_of_mem hrest) hnodup.1
      have hrest : rest = rest' := by
        apply ih hkeys.2 hnodup.2
        intro x hx
        rcases List.mem_cons.mp (hmem x (List.mem_cons_of_mem _ hx)) with heq | hx'
        · rw [heq, ← hhead] at hx
          exact absurd (List.mem_map_of_mem hx) hnodup.1
        · exact hx'
      rw [hhead, hrest]

theorem canon_obj_inj (keys : List String) (hnodup : keys.Nodup)
    {fields fields' : List (String × Json)} (hkeys : fields.map Prod.fst = keys)
    (hkeys' : fields'.map Prod.fst = keys) :
    (Json.obj fields).canon = (Json.obj fields').canon ↔
      fields.map (fun e => (e.1,e.2.canon)) = fields'.map (fun e => (e.1,e.2.canon)) := by
  rw [canon_obj, canon_obj]
  constructor
  · intro h
    have hsorted := Json.obj.inj h
    apply eq_of_keys
    · rw [List.map_map, List.map_map]
      exact hkeys.trans hkeys'.symm
    · rw [List.map_map]
      exact hkeys ▸ hnodup
    · intro e he
      rw [← mem_sort_keys, ← hsorted, mem_sort_keys]
      exact he
  · intro h
    rw [h]

/-- An object written with sorted keys keeps their order. -/
theorem canon_obj_sorted (fields : List (String × Json))
    (h : (fields.map Prod.fst).Pairwise (· ≤ ·)) :
    (Json.obj fields).canon = .obj (fields.map (fun e => (e.1,e.2.canon))) := by
  have htotal : Std.Total (fun a b : String × Json => a.1 ≤ b.1) := ⟨fun a b => le_total a.1 b.1⟩
  have htrans : IsTrans (String × Json) (fun a b => a.1 ≤ b.1) := ⟨fun a b c => le_trans⟩
  have hsorted : (fields.map (fun e => (e.1,e.2.canon))).Pairwise (fun a b => a.1 ≤ b.1) :=
    List.pairwise_map.mpr (List.pairwise_map.mp h)
  rw [canon_obj, sortKeys, hsorted.insertionSort_eq]

theorem canon_str_inj (s t : String) : (Json.str s).canon = (Json.str t).canon ↔ s = t := by
  simp only [canon, Json.str.injEq]

theorem canon_arr_map {α : Type} (f : α → Json) (l l' : List α) :
    (Json.arr (l.map f)).canon = (Json.arr (l'.map f)).canon ↔
      l.map (fun x => (f x).canon) = l'.map (fun x => (f x).canon) := by
  rw [canon_arr, canon_arr, Json.arr.injEq, List.map_map, List.map_map]
  rfl

theorem canon_arr_inj {α : Type} {f : α → Json}
    (hf : ∀ x y, (f x).canon = (f y).canon → x = y) (l l' : List α) :
    (Json.arr (l.map f)).canon = (Json.arr (l'.map f)).canon ↔ l = l' := by
  rw [canon_arr_map]
  exact (List.map_injective_iff.mpr fun x y => hf x y).eq_iff

end SuiteHarness.Json
