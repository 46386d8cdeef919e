import Mathlib

/-!
# Evicting the oldest entries of a bounded scope

The entries of a scope come oldest first with their sizes. While the scope
holds too many entries or too many bytes, the next entry goes, except the one
to keep.
-/

set_option autoImplicit false

namespace SuiteHarness.Library.Eviction

variable {κ μ : Type*}

def evict (keep : κ → Bool) (maxCount maxBytes : ℕ) : List (κ × ℕ) → ℕ → ℕ → List κ
  | [], _, _ => []
  | e::rest, count, size =>
    if count ≤ maxCount ∧ size ≤ maxBytes then []
    else if keep e.1 then evict keep maxCount maxBytes rest count size
    else e.1::evict keep maxCount maxBytes rest (count-1) (size-e.2)

variable (keep : κ → Bool) (maxCount maxBytes : ℕ) (entries : List (κ × ℕ))

theorem evict_keeps (count size : ℕ) :
    ∀ k ∈ evict keep maxCount maxBytes entries count size, keep k = false := by
  induction entries generalizing count size with
  | nil => simp [evict]
  | cons e rest ih =>
    rw [evict]
    split_ifs with h hk
    · simp
    · exact ih count size
    · intro k hm
      rcases List.mem_cons.mp hm with rfl | hm
      · exact Bool.not_eq_true _ ▸ hk
      · exact ih _ _ k hm

end SuiteHarness.Library.Eviction
