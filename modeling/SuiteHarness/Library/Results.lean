import Mathlib

/-!
# Computations that may raise

A chain of checks that returns a value has passed every check. These rules take
such a chain apart.
-/

set_option autoImplicit false

namespace SuiteHarness.Library.Results

variable {ε α β : Type} {x : Except ε α} {f : α → Except ε β} {g : α → β} {b : β}

theorem bind_ok (h : x >>= f = .ok b) : ∃ a, x = .ok a ∧ f a = .ok b := by
  cases x with
  | error e => cases h
  | ok a => exact ⟨a,rfl,h⟩

theorem map_ok (h : x.map g = .ok b) : ∃ a, x = .ok a ∧ g a = b := by
  cases x with
  | error e => cases h
  | ok a => exact ⟨a,rfl,Except.ok.inj h⟩

theorem guard_ok {p : Prop} [Decidable p] {e : ε} {y : Except ε β}
    (h : (if p then .error e else y) = .ok b) : ¬ p ∧ y = .ok b := by
  split_ifs at h with hp
  exact ⟨hp,h⟩

variable {l : List α}

theorem mapM_of_ok (g : α → β) (h : ∀ a ∈ l, f a = .ok (g a)) :
    l.mapM f = .ok (l.map g) := by
  induction l with
  | nil => rfl
  | cons a l ih =>
    rw [List.mapM_cons, h a List.mem_cons_self, ih (fun b hb => h b (List.mem_cons_of_mem a hb))]
    rfl

/-- A list that is mapped without an error is mapped element by element. -/
theorem mapM_ok {bs : List β} (h : l.mapM f = .ok bs) :
    List.Forall₂ (fun a b => f a = .ok b) l bs := by
  induction l generalizing bs with
  | nil =>
    cases h
    exact .nil
  | cons a l ih =>
    rw [List.mapM_cons] at h
    obtain ⟨b,hb,h⟩ := bind_ok h
    obtain ⟨rest,hrest,h⟩ := bind_ok h
    cases h
    exact .cons hb (ih hrest)

/-- Of two related lists, every element of the first has a partner in the second. -/
theorem forall₂_mem {R : α → β → Prop} {bs : List β} (h : List.Forall₂ R l bs) :
    ∀ a ∈ l, ∃ b ∈ bs, R a b := by
  induction h with
  | nil => nofun
  | cons hb _ ih =>
    intro c hc
    rcases List.mem_cons.mp hc with rfl | hmem
    · exact ⟨_,List.mem_cons_self,hb⟩
    · obtain ⟨d,hd,hfd⟩ := ih c hmem
      exact ⟨d,List.mem_cons_of_mem _ hd,hfd⟩

theorem mapM_ok_mem {bs : List β} (h : l.mapM f = .ok bs) :
    ∀ a ∈ l, ∃ b ∈ bs, f a = .ok b :=
  forall₂_mem (mapM_ok h)

/-- Every element of the result comes from one of the list. -/
theorem mapM_ok_of_mem {bs : List β} (h : l.mapM f = .ok bs) :
    ∀ b ∈ bs, ∃ a ∈ l, f a = .ok b :=
  forall₂_mem (mapM_ok h).flip

end SuiteHarness.Library.Results
