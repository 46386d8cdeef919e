import SuiteHarness.Library.Dict

/-!
# Dictionaries of sets

A set is kept as a list in insertion order. A key may be present with an empty
set or absent; `members` does not tell the two apart, and everything a program
can see through membership is stated with it.
-/

set_option autoImplicit false

namespace SuiteHarness.Library.Multimap

variable {α β : Type*} [DecidableEq α]
variable (d : Dict α (List β)) (k : α)

def members : List β := (d.get? k).getD []

variable (j : α) (x : β)

def add [DecidableEq β] : Dict α (List β) :=
  d.set k ((members d k).insert x)

def discard [DecidableEq β] : Dict α (List β) :=
  match d.get? k with
  | none => d
  | some xs => if xs.filter (fun y => decide (y ≠ x)) = [] then d.erase k
      else d.set k (xs.filter (fun y => decide (y ≠ x)))

def total : ℕ := (d.entries.map (fun e => e.2.length)).sum

theorem members_set (xs : List β) : members (d.set k xs) j = if j = k then xs else members d j := by
  unfold members
  rw [Dict.get_set]
  split_ifs <;> rfl

theorem members_erase : members (d.erase k) j = if j = k then [] else members d j := by
  unfold members
  rw [Dict.get_erase]
  split_ifs <;> rfl

theorem mem_add [DecidableEq β] (y : β) :
    y ∈ members (add d k x) j ↔ (j = k ∧ y = x) ∨ y ∈ members d j := by
  rw [add, members_set]
  split_ifs with h
  · simp [h, List.mem_insert_iff]
  · simp [h]

theorem members_discard [DecidableEq β] :
    members (discard d k x) j =
      if j = k then (members d k).filter (fun y => decide (y ≠ x)) else members d j := by
  unfold discard
  cases hg : d.get? k with
  | none =>
    by_cases hj : j = k
    · simp [members, hj, hg]
    · simp [hj]
  | some xs =>
    simp only
    have hk : members d k = xs := by simp [members, hg]
    split_ifs with he hj hj
    · rw [members_erase, if_pos hj, hk, he]
    · rw [members_erase, if_neg hj]
    · rw [members_set, if_pos hj, hk]
    · rw [members_set, if_neg hj]

theorem mem_discard [DecidableEq β] (y : β) :
    y ∈ members (discard d k x) j ↔ y ∈ members d j ∧ (j = k → y ≠ x) := by
  rw [members_discard]
  split_ifs with h
  · simp [h]
  · simp [h]

theorem sum_filter_key (f : α × List β → ℕ) (k : α) {es : List (α × List β)}
    (hn : (es.map Prod.fst).Nodup) :
    ((es.filter (fun e => !decide (e.1 = k))).map f).sum +
      (((Dict.find k es).map (fun xs => f (k,xs))).getD 0) = (es.map f).sum := by
  induction es with
  | nil => rfl
  | cons e rest ih =>
    obtain ⟨l,xs⟩ := e
    obtain ⟨hl,hr⟩ := List.nodup_cons.mp hn
    have ih' := ih hr
    by_cases h : l = k
    · subst h
      have hnone : Dict.find l rest = none := (Dict.find_eq_none l rest).mpr hl
      rw [hnone] at ih'
      simp [Dict.find] at ih' ⊢
      omega
    · simp [Dict.find, h] at ih' ⊢
      omega

theorem total_erase : total (d.erase k) + (members d k).length = total d := by
  have h := sum_filter_key (fun e : α × List β => e.2.length) k d.nodup
  unfold total members Dict.erase Dict.eraseWhere Dict.get?
  cases hf : Dict.find k d.entries with
  | none =>
    rw [hf] at h
    exact h
  | some xs =>
    rw [hf] at h
    exact h

theorem total_discard [DecidableEq β] : total (discard d k x) ≤ total d := by
  unfold discard
  cases hg : d.get? k with
  | none => exact le_rfl
  | some xs =>
    simp only
    split_ifs
    · have h := total_erase d k
      omega
    · have h := Dict.sum_set List.length d k (xs.filter (fun y => decide (y ≠ x)))
      rw [hg] at h
      have hle := List.length_filter_le (fun y => decide (y ≠ x)) xs
      simp only [Option.map_some, Option.getD_some] at h
      unfold total
      omega

end SuiteHarness.Library.Multimap
