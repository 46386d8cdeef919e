import Mathlib

/-!
# Splitting a list into blocks

A list is read from left to right. A skipped entry belongs to no block; every
other entry joins the last block, or begins a new one when there is none yet or
when the reader's state asks for it. A block holds the positions of its
entries. Leaving out the oldest blocks cuts the list at one position: before it
only skipped entries stay, from it on everything does.
-/

set_option autoImplicit false

namespace SuiteHarness.Library.Blocks

structure Rule (α σ : Type) where
  skipped : α → Bool
  begins : σ → α → Bool
  start : σ
  after : σ → α → σ

structure Split (σ : Type) where
  blocks : List (List ℕ)
  state : σ

def joinLast : List (List ℕ) → ℕ → List (List ℕ)
  | [], i => [[i]]
  | [b], i => [b++[i]]
  | b::c::rest, i => b::joinLast (c::rest) i

variable {α σ : Type}

def without (dropped : List ℕ) (xs : List α) : List α :=
  (xs.zipIdx.filter (fun e => decide (e.2 ∉ dropped))).map Prod.fst

namespace Rule
variable (rule : Rule α σ)

def add (s : Split σ) (e : α × ℕ) : Split σ :=
  if rule.skipped e.1 then s
  else if s.blocks.isEmpty || rule.begins s.state e.1 then
    ⟨s.blocks++[[e.2]],rule.after rule.start e.1⟩
  else ⟨joinLast s.blocks e.2,rule.after s.state e.1⟩

def split (xs : List α) : Split σ := xs.zipIdx.foldl rule.add ⟨[],rule.start⟩

def blocks (xs : List α) : List (List ℕ) := (rule.split xs).blocks

end Rule

theorem join_last_append (bs : List (List ℕ)) (b : List ℕ) (i : ℕ) :
    joinLast (bs++[b]) i = bs++[b++[i]] := by
  induction bs with
  | nil => rfl
  | cons c cs ih =>
    cases cs with
    | nil => rfl
    | cons d ds =>
      rw [List.cons_append, List.cons_append, joinLast, ← List.cons_append, ih]
      rfl

section Splitting
variable (rule : Rule α σ)
variable (xs : List α)

theorem split_append_one (x : α) :
    rule.split (xs++[x]) = rule.add (rule.split xs) (x,xs.length) := by
  simp [Rule.split, List.zipIdx_append, List.foldl_append]

theorem blocks_append_one (x : α) :
    (rule.skipped x = true ∧ rule.blocks (xs++[x]) = rule.blocks xs) ∨
    (rule.skipped x = false ∧ (rule.blocks xs = [] ∨ ∃ state, rule.begins state x = true) ∧
      rule.blocks (xs++[x]) = rule.blocks xs++[[xs.length]]) ∨
    (rule.skipped x = false ∧ ∃ bs b, rule.blocks xs = bs++[b] ∧
      rule.blocks (xs++[x]) = bs++[b++[xs.length]]) := by
  rw [Rule.blocks, split_append_one, Rule.add]
  cases hskip : rule.skipped x with
  | true => exact Or.inl ⟨rfl,by rw [if_pos rfl]; rfl⟩
  | false =>
    rw [if_neg Bool.false_ne_true]
    by_cases hnew : ((rule.split xs).blocks.isEmpty || rule.begins (rule.split xs).state x) = true
    · rw [if_pos (by exact hnew)]
      rcases Bool.or_eq_true_iff.mp hnew with hnil | hbegins
      · exact Or.inr (Or.inl ⟨rfl,Or.inl (List.isEmpty_iff.mp hnil),rfl⟩)
      · exact Or.inr (Or.inl ⟨rfl,Or.inr ⟨_,hbegins⟩,rfl⟩)
    · rw [if_neg (by exact hnew)]
      have hne : rule.blocks xs ≠ [] := by
        intro h
        exact hnew (by rw [Rule.blocks] at h; rw [h]; rfl)
      have hsplit := List.dropLast_append_getLast hne
      refine Or.inr (Or.inr ⟨rfl,(rule.blocks xs).dropLast,(rule.blocks xs).getLast hne,hsplit.symm,?_⟩)
      rw [← join_last_append, hsplit]
      rfl

/-- The blocks hold the positions that are not skipped, in order. -/
theorem blocks_flatten : (rule.blocks xs).flatten =
    (xs.zipIdx.filter (fun e => !rule.skipped e.1)).map Prod.snd := by
  induction xs using List.reverseRecOn with
  | nil => rfl
  | append_singleton xs x ih =>
    rw [List.zipIdx_append, List.filter_append, List.map_append, ← ih]
    rcases blocks_append_one rule xs x with ⟨hskip,h⟩ | ⟨hskip,-,h⟩ | ⟨hskip,bs,b,hbs,h⟩
    · rw [h]
      simp [hskip]
    · rw [h]
      simp [hskip]
    · rw [h, hbs]
      simp [hskip]

theorem blocks_nodup : (rule.blocks xs).flatten.Nodup := by
  have hall : (xs.zipIdx.map Prod.snd).Nodup := by
    rw [List.zipIdx_map_snd]
    exact List.nodup_range'
  rw [blocks_flatten]
  exact hall.sublist (List.filter_sublist.map _)

theorem mem_blocks (i : ℕ) : i ∈ (rule.blocks xs).flatten ↔
    ∃ x, xs[i]? = some x ∧ rule.skipped x = false := by
  rw [blocks_flatten]
  simp [List.mem_zipIdx_iff_getElem?]

/-- Entries may be replaced by others that the rule reads in the same way. -/
theorem blocks_map (f : α → α) (hskip : ∀ x, rule.skipped (f x) = rule.skipped x)
    (hbegins : ∀ state x, rule.begins state (f x) = rule.begins state x)
    (hafter : ∀ state x, rule.after state (f x) = rule.after state x) (xs : List α) :
    rule.blocks (xs.map f) = rule.blocks xs := by
  have hadd : (fun (s : Split σ) (e : α × ℕ) => rule.add s (Prod.map f id e)) = rule.add := by
    funext s e
    simp only [Rule.add, Prod.map_fst, Prod.map_snd, id_eq, hskip, hbegins, hafter]
  rw [Rule.blocks, Rule.split, List.zipIdx_map, List.foldl_map, hadd]
  rfl

structure Cut (xs : List α) (k s : ℕ) : Prop where
  le : s ≤ xs.length
  mem : ∀ i, i ∈ ((rule.blocks xs).take k).flatten ↔
    i < s ∧ ∃ x, xs[i]? = some x ∧ rule.skipped x = false
  begins : 0 < k → k < (rule.blocks xs).length →
    ∃ x state, xs[s]? = some x ∧ rule.skipped x = false ∧ rule.begins state x = true

theorem cut_all (k : ℕ) (hk : (rule.blocks xs).length ≤ k) : Cut rule xs k xs.length := by
  refine ⟨le_refl _,fun i => ?_,fun _ h => absurd h (Nat.not_lt.mpr hk)⟩
  rw [List.take_of_length_le hk, mem_blocks]
  constructor
  · rintro ⟨x,hx,hskip⟩
    exact ⟨(List.getElem?_eq_some_iff.mp hx).choose,x,hx,hskip⟩
  · rintro ⟨-,h⟩
    exact h

/-- A cut stays where it is when the list and its blocks grow at the end. -/
theorem Cut.append_one {xs : List α} {k s : ℕ} (x : α) (h : Cut rule xs k s)
    (htake : (rule.blocks (xs++[x])).take k = (rule.blocks xs).take k)
    (hbegins : 0 < k → k < (rule.blocks (xs++[x])).length →
      k < (rule.blocks xs).length ∨
        (s = xs.length ∧ rule.skipped x = false ∧ ∃ state, rule.begins state x = true)) :
    Cut rule (xs++[x]) k s := by
  refine ⟨by have := h.le; simp; omega,fun i => ?_,fun hpos hlt => ?_⟩
  · rw [htake, h.mem i]
    refine and_congr_right fun hi => ?_
    rw [List.getElem?_append_left (Nat.lt_of_lt_of_le hi h.le)]
  · rcases hbegins hpos hlt with hold | ⟨rfl,hskip,state,hstate⟩
    · obtain ⟨y,state,hy,hrest⟩ := h.begins hpos hold
      have hs := (List.getElem?_eq_some_iff.mp hy).choose
      exact ⟨y,state,by rw [List.getElem?_append_left hs, hy],hrest⟩
    · exact ⟨x,state,by simp,hskip,hstate⟩

theorem cut_exists (k : ℕ) : ∃ s, Cut rule xs k s := by
  induction xs using List.reverseRecOn with
  | nil => exact ⟨0,cut_all rule [] k (Nat.zero_le k)⟩
  | append_singleton xs x ih =>
    by_cases hall : (rule.blocks (xs++[x])).length ≤ k
    · exact ⟨_,cut_all rule _ k hall⟩
    obtain ⟨s,hs⟩ := ih
    rcases blocks_append_one rule xs x with ⟨-,h⟩ | ⟨hskip,hnew,h⟩ | ⟨-,bs,b,hbs,h⟩
    · exact ⟨s,hs.append_one rule x (by rw [h]) (fun _ hlt => Or.inl (by rwa [h] at hlt))⟩
    · -- the new block begins where the list ended before
      have hle : k ≤ (rule.blocks xs).length := by
        rw [h, List.length_append, List.length_singleton] at hall
        omega
      have htake : (rule.blocks (xs++[x])).take k = (rule.blocks xs).take k := by
        rw [h, List.take_append_of_le_length hle]
      rcases Nat.lt_or_eq_of_le hle with hlt | heq
      · exact ⟨s,hs.append_one rule x htake (fun _ _ => Or.inl hlt)⟩
      · refine ⟨xs.length,(cut_all rule xs k heq.ge).append_one rule x htake (fun hpos _ => ?_)⟩
        rcases hnew with hnil | hstate
        · rw [hnil] at heq
          exact absurd hpos (by simp [heq])
        · exact Or.inr ⟨rfl,hskip,hstate⟩
    · have hlt : k < (rule.blocks xs).length := by
        rw [h, List.length_append, List.length_singleton] at hall
        rw [hbs, List.length_append, List.length_singleton]
        omega
      have htake : (rule.blocks (xs++[x])).take k = (rule.blocks xs).take k := by
        rw [hbs, List.length_append, List.length_singleton] at hlt
        rw [h, hbs, List.take_append_of_le_length (by omega), List.take_append_of_le_length (by omega)]
      exact ⟨s,hs.append_one rule x htake (fun _ _ => Or.inl hlt)⟩

end Splitting

/-! What stays when positions are left out. -/

theorem filter_zip_idx (p : α → Bool) (xs : List α) (n : ℕ) :
    ((xs.zipIdx n).filter (fun e => p e.1)).map Prod.fst = xs.filter p := by
  have h := List.filter_map (p := p) (f := (Prod.fst : α × ℕ → α)) (l := xs.zipIdx n)
  rw [List.zipIdx_map_fst] at h
  exact h.symm

theorem without_nil (xs : List α) : without [] xs = xs := by
  simp [without]

theorem without_map {β : Type} (f : α → β) (dropped : List ℕ) (xs : List α) :
    without dropped (xs.map f) = (without dropped xs).map f := by
  rw [without, without, List.zipIdx_map, List.filter_map, List.map_map, List.map_map]
  rfl

theorem without_sublist {dropped more : List ℕ} (h : dropped ⊆ more) (xs : List α) :
    (without more xs).Sublist (without dropped xs) := by
  refine (List.monotone_filter_right _ fun e he => ?_).map _
  simp only [decide_eq_true_eq] at he ⊢
  exact fun hmem => he (h hmem)

theorem Cut.without (rule : Rule α σ) {xs : List α} {k s : ℕ} (h : Cut rule xs k s) :
    without ((rule.blocks xs).take k).flatten xs = (xs.take s).filter rule.skipped++xs.drop s := by
  have hsplit : xs.zipIdx = (xs.take s).zipIdx++(xs.drop s).zipIdx s := by
    conv_lhs => rw [← List.take_append_drop s xs]
    rw [List.zipIdx_append, List.length_take, Nat.min_eq_left h.le, Nat.zero_add]
  rw [Blocks.without, hsplit, List.filter_append, List.map_append]
  congr 1
  · rw [← filter_zip_idx rule.skipped (xs.take s) 0]
    congr 1
    apply List.filter_congr
    intro e he
    have hget := List.mem_zipIdx_iff_getElem?.mp he
    have hlt : e.2 < s := by
      have := (List.getElem?_eq_some_iff.mp hget).choose
      rw [List.length_take] at this
      omega
    rw [List.getElem?_take_of_lt hlt] at hget
    simp only [h.mem, hget, Option.some.injEq, exists_eq_left', hlt, true_and]
    cases rule.skipped e.1 <;> rfl
  · rw [List.filter_eq_self.mpr, List.zipIdx_map_fst]
    intro e he
    have hge := (List.mem_zipIdx he).1
    simp only [h.mem, decide_eq_true_eq]
    rintro ⟨hlt,-⟩
    omega

theorem last_not_dropped (rule : Rule α σ) (xs : List α) {k : ℕ}
    (hk : k < (rule.blocks xs).length) {last : List ℕ} (hlast : (rule.blocks xs).getLast? = some last)
    {i : ℕ} (hi : i ∈ last) : i ∉ ((rule.blocks xs).take k).flatten := by
  have hnodup := blocks_nodup rule xs
  rw [← List.take_append_drop k (rule.blocks xs), List.flatten_append, List.nodup_append] at hnodup
  intro hmem
  refine hnodup.2.2 i hmem i (List.mem_flatten.mpr ⟨last,?_,hi⟩) rfl
  have hdrop : ((rule.blocks xs).drop k).getLast? = some last := by
    rw [List.getLast?_drop, if_neg (by omega), hlast]
  exact List.mem_of_getLast? hdrop

end SuiteHarness.Library.Blocks
