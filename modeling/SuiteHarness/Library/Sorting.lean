import Mathlib

/-!
# Sorting by a key

A stable sort by a key gives the keys in order. If the keys are distinct, it does
not depend on the order the values come in.
-/

set_option autoImplicit false

namespace SuiteHarness.Library
variable {α β : Type*} [LinearOrder β] (key : α → β)

def sortBy (l : List α) : List α := l.insertionSort (fun a b => key a ≤ key b)

theorem sort_by_perm (l : List α) : (sortBy key l).Perm l := List.perm_insertionSort _ l

theorem sort_by_sorted (l : List α) : (sortBy key l).Pairwise (fun a b => key a ≤ key b) := by
  have htotal : Std.Total (fun a b => key a ≤ key b) := ⟨fun _ _ => le_total _ _⟩
  have htrans : IsTrans α (fun a b => key a ≤ key b) := ⟨fun _ _ _ => le_trans⟩
  exact List.pairwise_insertionSort _ l

theorem sorted_unique {l l' : List α} (hperm : l'.Perm l) (hkeys : (l.map key).Nodup)
    (h : l.Pairwise (fun a b => key a ≤ key b)) (h' : l'.Pairwise (fun a b => key a ≤ key b)) :
    l' = l := by
  refine List.Perm.eq_of_pairwise (fun a b ha hb hab hba => ?_) h' h hperm
  exact List.inj_on_of_nodup_map hkeys (hperm.mem_iff.mp ha) hb (le_antisymm hab hba)

theorem sort_by_of_perm {l l' : List α} (hperm : l'.Perm l) (hkeys : (l.map key).Nodup) :
    sortBy key l' = sortBy key l := by
  have hsorted : ((sortBy key l).map key).Nodup :=
    ((sort_by_perm key l).map key).nodup_iff.mpr hkeys
  exact sorted_unique key (((sort_by_perm key l').trans hperm).trans (sort_by_perm key l).symm)
    hsorted (sort_by_sorted key l) (sort_by_sorted key l')

end SuiteHarness.Library
