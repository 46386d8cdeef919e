import Mathlib

/-!
# Relational tables as row lists

A table is the list of its rows in insertion order. A selection is a filter, an
`ORDER BY` is a stable sort and a `LIMIT` takes the first rows of the sorted
selection. Where a column increases along the table, sorting by it does
nothing and sorting backwards reverses.
-/

set_option autoImplicit false

namespace SuiteHarness.Library.Table

variable {α β γ : Type*}

section Order
variable [LinearOrder β]
variable (key : α → β) (rows : List α)

def orderBy : List α :=
  rows.insertionSort (fun a b => key a ≤ key b)

def orderByDesc : List α :=
  rows.insertionSort (fun a b => key b ≤ key a)

def maxOf (key : α → ℕ) (rows : List α) : ℕ := rows.foldr (fun a m => max (key a) m) 0

def Ascending : Prop := rows.Pairwise (fun a b => key a < key b)

theorem order_by_ascending (h : Ascending key rows) : orderBy key rows = rows := by
  apply List.Pairwise.insertionSort_eq
  exact h.imp (fun hab => hab.le)

theorem ordered_insert_last {key : α → β} {a : α} {rows : List α}
    (h : ∀ b ∈ rows, key a < key b) :
    rows.orderedInsert (fun a b => key b ≤ key a) a = rows ++ [a] := by
  induction rows with
  | nil => rfl
  | cons b rest ih =>
    have hb : ¬ key b ≤ key a := not_le.mpr (h b (by simp))
    rw [List.orderedInsert_cons, if_neg hb, ih (fun c hc => h c (by simp [hc]))]
    rfl

theorem order_by_desc_ascending (h : Ascending key rows) : orderByDesc key rows = rows.reverse := by
  induction rows with
  | nil => rfl
  | cons a rest ih =>
    obtain ⟨ha,hr⟩ := List.pairwise_cons.mp h
    have ih' := ih hr
    unfold orderByDesc at ih' ⊢
    rw [List.insertionSort_cons, ih', ordered_insert_last (by simpa using ha),
      List.reverse_cons]

theorem max_of_le (key : α → ℕ) (rows : List α) (a : α) (h : a ∈ rows) : key a ≤ maxOf key rows := by
  induction rows with
  | nil => simp at h
  | cons b rest ih =>
    rcases List.mem_cons.mp h with rfl | hr
    · exact Nat.le_max_left _ _
    · exact (ih hr).trans (Nat.le_max_right _ _)

/-- A column that counts the rows from one has the row count as its maximum. -/
theorem max_of_enumerated (key : α → ℕ) (rows : List α)
    (h : rows.map key = List.range' 1 rows.length) : maxOf key rows = rows.length := by
  have hb : ∀ (l : List α) (m : ℕ), (∀ a ∈ l, key a ≤ m) → maxOf key l ≤ m := by
    intro l m hl
    induction l with
    | nil => exact Nat.zero_le m
    | cons a rest ih =>
      exact max_le (hl a (by simp)) (ih (fun b hb => hl b (by simp [hb])))
  apply le_antisymm
  · apply hb
    intro a ha
    have hm : key a ∈ rows.map key := List.mem_map_of_mem ha
    rw [h, List.mem_range'_1] at hm
    omega
  · rcases Nat.eq_zero_or_pos rows.length with h0 | hp
    · omega
    · have hm : rows.length ∈ rows.map key := by
        rw [h, List.mem_range'_1]
        omega
      obtain ⟨a,ha,hk⟩ := List.mem_map.mp hm
      rw [← hk]
      exact max_of_le key rows a ha

end Order

variable (p : α → Bool) (f : α → α) (rows : List α)

def updateWhere : List α :=
  rows.map (fun a => if p a then f a else a)

def deleteWhere : List α := rows.filter (fun a => !p a)

theorem update_unselected (h : ∀ a ∈ rows, ¬ p a = true) : updateWhere p f rows = rows := by
  conv_rhs => rw [← List.map_id rows]
  apply List.map_congr_left
  intro a ha
  simp [h a ha]

section Keyed
variable {κ : Type*} [DecidableEq κ] (key : α → κ)
variable (k : κ) (rows : List α)

def lookup : Option α := rows.find? (fun a => decide (key a = k))

def Unique : Prop := rows.Pairwise (fun a b => key a ≠ key b)

theorem lookup_mem {k : κ} {rows : List α} {a : α} (h : lookup key k rows = some a) :
    a ∈ rows ∧ key a = k := by
  refine ⟨List.mem_of_find?_eq_some h,?_⟩
  simpa using List.find?_some h

theorem lookup_none {k : κ} {rows : List α} :
    lookup key k rows = none ↔ ∀ a ∈ rows, key a ≠ k := by
  simp [lookup]

theorem lookup_of_mem {rows : List α} (hu : Unique key rows) {a : α} (h : a ∈ rows) :
    lookup key (key a) rows = some a := by
  induction rows with
  | nil => cases h
  | cons b rest ih =>
    obtain ⟨hb,hr⟩ := List.pairwise_cons.mp hu
    rcases List.mem_cons.mp h with rfl | hm
    · simp [lookup]
    · simpa [lookup, hb a hm] using ih hr hm

theorem lookup_append (a : α) :
    lookup key k (rows ++ [a]) = (lookup key k rows).or (if key a = k then some a else none) := by
  rw [lookup, List.find?_append, lookup]
  by_cases h : key a = k <;> simp [h]

/-- An update of one key's rows is seen under that key only. -/
theorem lookup_update (l : κ) (f : α → α) (rows : List α) (hf : ∀ a, key a = k → key (f a) = k) :
    lookup key l (updateWhere (fun a => decide (key a = k)) f rows) =
      if l = k then (lookup key l rows).map f else lookup key l rows := by
  induction rows with
  | nil => simp [updateWhere, lookup]
  | cons b rest ih =>
    simp only [updateWhere, lookup, List.map_cons, List.find?_cons, decide_eq_true_eq] at ih ⊢
    by_cases hb : key b = k
    · rw [if_pos hb]
      by_cases hl : l = k
      · subst hl
        simp [hf b hb, hb]
      · have hkl : k ≠ l := Ne.symm hl
        simpa [hf b hb, hb, hl, hkl] using ih
    · rw [if_neg hb]
      by_cases hbl : key b = l
      · have hl : l ≠ k := fun h => hb (hbl.trans h)
        simp [hbl, hl]
      · simpa [hbl] using ih

theorem lookup_delete (p : α → Bool) (k : κ) (rows : List α) (hu : Unique key rows) :
    lookup key k (deleteWhere p rows) = (lookup key k rows).filter (fun a => !p a) := by
  have hs : Unique key (deleteWhere p rows) := hu.sublist List.filter_sublist
  cases hl : lookup key k rows with
  | none =>
    rw [lookup_none] at hl
    exact (lookup_none key).mpr (fun a ha => hl a (List.mem_of_mem_filter ha))
  | some a =>
    obtain ⟨ha,rfl⟩ := lookup_mem key hl
    by_cases hp : p a = true
    · simp only [Option.filter, hp]
      refine (lookup_none key).mpr (fun b hb he => ?_)
      obtain ⟨hb,hpb⟩ := List.mem_filter.mp hb
      have hab : a = b := Option.some.inj
        ((lookup_of_mem key hu ha).symm.trans (he ▸ lookup_of_mem key hu hb))
      simp [← hab, hp] at hpb
    · have hm : a ∈ deleteWhere p rows := List.mem_filter.mpr ⟨ha,by simpa using hp⟩
      simpa [Option.filter, hp] using lookup_of_mem key hs hm

theorem unique_update (f : α → α) (rows : List α) (hf : ∀ a, key a = k → key (f a) = k)
    (hu : Unique key rows) : Unique key (updateWhere (fun a => decide (key a = k)) f rows) := by
  have hk (a : α) : key (if decide (key a = k) = true then f a else a) = key a := by
    split_ifs with h
    · rw [decide_eq_true_eq] at h
      rw [hf a h, h]
    · rfl
  refine List.Pairwise.map _ (fun a b hab => ?_) hu
  rwa [hk, hk]

/-- A condition that fixes the key selects at most one row. -/
theorem count_unique (p : α → Bool) (rows : List α) (hu : Unique key rows)
    (hp : ∀ a, p a = true → key a = k) :
    rows.countP p = if (lookup key k rows).any p then 1 else 0 := by
  induction rows with
  | nil => rfl
  | cons b rest ih =>
    obtain ⟨hb,hr⟩ := List.pairwise_cons.mp hu
    by_cases hk : key b = k
    · have hz : rest.countP p = 0 := by
        rw [List.countP_eq_zero]
        intro a ha hpa
        exact hb a ha (hk.trans (hp a hpa).symm)
      cases hpb : p b <;> simp [lookup, hk, hz, hpb]
    · have hpb : p b = false := by
        by_contra h
        exact hk (hp b (by simpa using h))
      rw [List.countP_cons_of_neg (by simp [hpb]), ih hr]
      have hl : lookup key k (b::rest) = lookup key k rest := by simp [lookup, hk]
      rw [hl]

theorem unique_append (a : α) (hu : Unique key rows) (h : lookup key (key a) rows = none) :
    Unique key (rows ++ [a]) := by
  refine List.pairwise_append.mpr ⟨hu,List.pairwise_singleton _ _,?_⟩
  intro b hb c hc
  rw [List.mem_singleton.mp hc]
  exact (lookup_none key).mp h b hb

end Keyed

section Enumerated

variable (key : α → ℕ) (rows : List α)

theorem enumerated_ascending (h : rows.map key = List.range' 1 rows.length) :
    Ascending key rows := by
  refine List.pairwise_map.mp ?_
  rw [h]
  exact List.pairwise_lt_range'

theorem ascending_filter (p : α → Bool) (rows : List α) (h : Ascending key rows) :
    Ascending key (rows.filter p) := h.sublist List.filter_sublist

/-- The newest rows, oldest first, as `ORDER BY ... DESC LIMIT` read backwards. -/
theorem latest_rows (n : ℕ) (h : Ascending key rows) :
    ((orderByDesc key rows).take n).reverse = rows.drop (rows.length-n) := by
  rw [order_by_desc_ascending key rows h, List.take_reverse, List.reverse_reverse]

/-- Keeping the rows whose key is among the last keys keeps the last rows. -/
theorem ascending_keep_last (n : ℕ) (h : Ascending key rows) :
    rows.filter (fun a => decide (key a ∈ (rows.drop n).map key)) = rows.drop n := by
  have hsplit : rows.take n ++ rows.drop n = rows := List.take_append_drop n rows
  have hbelow : ∀ a ∈ rows.take n, ∀ b ∈ rows.drop n, key a < key b := by
    rw [← hsplit] at h
    exact (List.pairwise_append.mp h).2.2
  have hf : (rows.take n).filter (fun a => decide (key a ∈ (rows.drop n).map key)) = [] := by
    rw [List.filter_eq_nil_iff]
    intro a ha
    simp only [decide_eq_true_eq, List.mem_map, not_exists, not_and]
    intro b hb he
    exact absurd he (hbelow a ha b hb).ne'
  have hg : (rows.drop n).filter (fun a => decide (key a ∈ (rows.drop n).map key)) =
      rows.drop n := by
    rw [List.filter_eq_self]
    intro a ha
    simp only [decide_eq_true_eq]
    exact List.mem_map_of_mem ha
  calc rows.filter (fun a => decide (key a ∈ (rows.drop n).map key))
      = (rows.take n ++ rows.drop n).filter (fun a => decide (key a ∈ (rows.drop n).map key)) := by
        rw [hsplit]
    _ = rows.drop n := by rw [List.filter_append, hf, hg, List.nil_append]

theorem enumerated_below (bound : ℤ) (h : rows.map key = List.range' 1 rows.length) :
    rows.filter (fun a => decide ((key a : ℤ) < bound)) =
      rows.take (min rows.length (bound-1).toNat) := by
  have hkey (i : ℕ) (hi : i < rows.length) : key rows[i] = i+1 := by
    have hg : (rows.map key)[i]? = (List.range' 1 rows.length)[i]? := by rw [h]
    rw [List.getElem?_map, List.getElem?_eq_getElem hi, List.getElem?_range' hi] at hg
    simpa [Nat.add_comm] using hg
  have hsplit : rows = rows.take (min rows.length (bound-1).toNat) ++
      rows.drop (min rows.length (bound-1).toNat) := (List.take_append_drop _ _).symm
  conv_lhs => rw [hsplit]
  rw [List.filter_append, List.filter_eq_self.mpr ?_, List.filter_eq_nil_iff.mpr ?_,
    List.append_nil]
  · intro a ha
    obtain ⟨j,hj,rfl⟩ := List.mem_iff_getElem.mp ha
    rw [List.getElem_drop, hkey]
    rw [List.length_drop] at hj
    simp only [decide_eq_true_eq]
    omega
  · intro a ha
    obtain ⟨j,hj,rfl⟩ := List.mem_iff_getElem.mp ha
    rw [List.getElem_take, hkey]
    rw [List.length_take] at hj
    simp only [decide_eq_true_eq]
    omega

end Enumerated
end SuiteHarness.Library.Table
