import Mathlib

/-!
# Forests given by a parent map

A forest over any type of nodes is a partial parent map whose parents stand
before their children in some list without repetition. Climbing to the root
then takes at most one step per listed node. Cutting the edge above a node
leaves every other path intact, which is what a deletion loop relies on.
-/

set_option autoImplicit false

namespace SuiteHarness.Library.Forest

variable {α : Type*} {par : α → Option α}

def ChildOf (par : α → Option α) (c p : α) : Prop := par c = some p

def Descends (par : α → Option α) : α → α → Prop := Relation.ReflTransGen (ChildOf par)

def Listed (nodes : List α) (par : α → Option α) : Prop :=
  ∀ c p, par c = some p → [p,c].Sublist nodes

theorem descends_refl (a : α) : Descends par a a := Relation.ReflTransGen.refl

theorem descends_root {a b : α} (ha : par a = none) (h : Descends par a b) : b = a := by
  rcases Relation.ReflTransGen.cases_head h with rfl | ⟨c,hc,-⟩
  · rfl
  · rw [ChildOf, ha] at hc
    cases hc

theorem descends_step {a p b : α} (ha : par a = some p) :
    Descends par a b ↔ b = a ∨ Descends par p b := by
  constructor
  · intro h
    rcases Relation.ReflTransGen.cases_head h with rfl | ⟨c,hc,hr⟩
    · exact Or.inl rfl
    · rw [ChildOf, ha] at hc
      exact Or.inr (Option.some.inj hc ▸ hr)
  · rintro (rfl | h)
    · exact descends_refl _
    · exact Relation.ReflTransGen.head ha h

theorem descends_mono {new : α → Option α} (h : ∀ c p, par c = some p → new c = some p)
    {a b : α} (hd : Descends par a b) : Descends new a b :=
  Relation.ReflTransGen.mono (fun c p hc => h c p hc) a b hd

section Index
variable [DecidableEq α] {nodes : List α}

theorem sublist_index {p c : α} (hn : nodes.Nodup) (h : [p,c].Sublist nodes) :
    nodes.idxOf p < nodes.idxOf c := by
  induction nodes with
  | nil => cases h
  | cons a rest ih =>
    obtain ⟨ha,hr⟩ := List.nodup_cons.mp hn
    cases h with
    | cons _ h =>
      have hp : a ≠ p := fun he => ha (he ▸ h.subset (by simp))
      have hc : a ≠ c := fun he => ha (he ▸ h.subset (by simp))
      rw [List.idxOf_cons_ne _ hp, List.idxOf_cons_ne _ hc]
      exact Nat.succ_lt_succ (ih hr h)
    | cons_cons _ h =>
      have hc : p ≠ c := fun he => ha (he ▸ h.subset (by simp))
      rw [List.idxOf_cons_self, List.idxOf_cons_ne _ hc]
      exact Nat.succ_pos _

theorem listed_acyclic (hn : nodes.Nodup) (h : Listed nodes par) (a : α) :
    ¬ Relation.TransGen (ChildOf par) a a := by
  have hdown : ∀ c b, Relation.TransGen (ChildOf par) c b → nodes.idxOf b < nodes.idxOf c := by
    intro c b ht
    induction ht with
    | single hc => exact sublist_index hn (h _ _ hc)
    | tail _ hc ih => exact (sublist_index hn (h _ _ hc)).trans ih
  exact fun ht => lt_irrefl _ (hdown a a ht)

def climb (par : α → Option α) (ok : α → Bool) : ℕ → α → Bool
  | 0, _ => false
  | n+1, a => ok a && (match par a with
    | none => true
    | some p => climb par ok n p)

theorem climb_iff (hn : nodes.Nodup) (h : Listed nodes par) (ok : α → Bool) (n : ℕ) (a : α)
    (hf : nodes.idxOf a < n) :
    climb par ok n a = true ↔ ∀ b, Descends par a b → ok b = true := by
  induction n generalizing a with
  | zero => omega
  | succ n ih =>
    rw [climb, Bool.and_eq_true]
    cases ha : par a with
    | none =>
      constructor
      · rintro ⟨hok,-⟩ b hb
        rw [descends_root ha hb]
        exact hok
      · intro hall
        exact ⟨hall a (descends_refl a),rfl⟩
    | some p =>
      have hp : nodes.idxOf p < n := by
        have := sublist_index hn (h a p ha)
        omega
      simp only [ih p hp, descends_step ha]
      constructor
      · rintro ⟨hok,hup⟩ b (rfl | hb)
        · exact hok
        · exact hup b hb
      · intro hall
        exact ⟨hall a (Or.inl rfl),fun b hb => hall b (Or.inr hb)⟩

def cut (par : α → Option α) (a : α) : α → Option α := Function.update par a none

theorem cut_some {a c p : α} : cut par a c = some p ↔ c ≠ a ∧ par c = some p := by
  by_cases h : c = a
  · simp [cut, h]
  · simp [cut, h]

theorem descends_cut (a : α) {x b : α} (h : Descends par x b) :
    Descends (cut par a) x b ∨ Descends (cut par a) x a := by
  induction h using Relation.ReflTransGen.head_induction_on with
  | refl => exact Or.inl (descends_refl b)
  | @head c d hc _ ih =>
    by_cases hca : c = a
    · rw [hca]
      exact Or.inr (descends_refl a)
    · have hcut : cut par a c = some d := cut_some.mpr ⟨hca,hc⟩
      exact ih.imp (Relation.ReflTransGen.head hcut) (Relation.ReflTransGen.head hcut)

/-- One round of a deletion loop: the nodes under `a` or a pending node are `a`
itself and, once the edge above `a` is cut, the nodes under its children or a
pending node. -/
theorem under_pop (a : α) (kids pending : List α) (hkids : ∀ c ∈ kids, par c = some a)
    (hall : ∀ c, c ≠ a → par c = some a → c ∈ kids ++ pending) (x : α) :
    (∃ y ∈ a::pending, Descends par x y) ↔
      x = a ∨ ∃ y ∈ kids ++ pending, Descends (cut par a) x y := by
  have hunder : Descends (cut par a) x a →
      x = a ∨ ∃ y ∈ kids ++ pending, Descends (cut par a) x y := by
    intro h
    rcases Relation.ReflTransGen.cases_tail h with rfl | ⟨c,hx,hc⟩
    · exact Or.inl rfl
    · exact Or.inr ⟨c,hall c (cut_some.mp hc).1 (cut_some.mp hc).2,hx⟩
  constructor
  · rintro ⟨y,hy,hx⟩
    rcases descends_cut a hx with hx | hx
    · rcases List.mem_cons.mp hy with rfl | hy
      · exact hunder hx
      · exact Or.inr ⟨y,List.mem_append_right _ hy,hx⟩
    · exact hunder hx
  · have hback : ∀ y, Descends (cut par a) x y → Descends par x y := fun y =>
      descends_mono (fun c p hc => (cut_some.mp hc).2)
    rintro (rfl | ⟨y,hy,hx⟩)
    · exact ⟨x,List.mem_cons_self,descends_refl x⟩
    · rcases List.mem_append.mp hy with hk | hp
      · exact ⟨a,List.mem_cons_self,Relation.ReflTransGen.tail (hback y hx) (hkids y hk)⟩
      · exact ⟨y,List.mem_cons_of_mem a hp,hback y hx⟩

end Index
end SuiteHarness.Library.Forest
