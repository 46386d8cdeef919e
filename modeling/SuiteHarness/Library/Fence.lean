import SuiteHarness.Library.Machine

/-!
# One-shot lease fences

A cell is taken at most once. Its holder may finalize it once, and an expired
cell is dead for good. Every observation moves a cell up a rank that never
falls, and each one-shot observation needs one particular rank. A machine whose
steps move a cell along its observations inherits all of this on whole runs.
-/

set_option autoImplicit false

namespace SuiteHarness.Library.Fence

variable {κ : Type*}

inductive Cell (κ : Type*) where
  | free
  | held (owner : κ)
  | finalizing (owner : κ)
  | dead

inductive Event (κ : Type*) where
  | acquired (owner : κ)
  | busy
  | stale
  | finalized (owner : κ)
  | refused
  | other

def Cell.rank : Cell κ → ℕ
  | .free => 0
  | .held _ => 1
  | .finalizing _ => 2
  | .dead => 3

inductive Move : Cell κ → Event κ → Cell κ → Prop where
  | acquire (owner : κ) : Move .free (.acquired owner) (.held owner)
  | busyHeld (owner : κ) : Move (.held owner) .busy (.held owner)
  | busyFinalizing (owner : κ) : Move (.finalizing owner) .busy (.finalizing owner)
  | expire (cell : Cell κ) (h : cell ≠ .free) : Move cell .stale .dead
  | finalize (owner : κ) : Move (.held owner) (.finalized owner) (.finalizing owner)
  | refuse (cell : Cell κ) : Move cell .refused cell
  | pass (cell : Cell κ) : Move cell .other cell

inductive Path : Cell κ → List (Event κ) → Cell κ → Prop where
  | nil (c : Cell κ) : Path c [] c
  | cons {c d b : Cell κ} {e : Event κ} {es : List (Event κ)} :
      Move c e d → Path d es b → Path c (e::es) b

variable {c d : Cell κ} {es : List (Event κ)}

theorem move_rank {e : Event κ} (h : Move c e d) : c.rank ≤ d.rank := by
  cases h with
  | expire => cases c <;> simp [Cell.rank]
  | _ => simp [Cell.rank]

theorem path_rank (h : Path c es d) : c.rank ≤ d.rank := by
  induction h with
  | nil => exact le_rfl
  | cons hm hp ih => exact (move_rank hm).trans ih

theorem path_mem (h : Path c es d) : ∀ e ∈ es, ∃ a b, c.rank ≤ a.rank ∧ Move a e b := by
  induction h with
  | nil c => simp
  | cons hm hp ih =>
    intro e he
    rcases List.mem_cons.mp he with rfl | he
    · exact ⟨_,_,le_rfl,hm⟩
    · obtain ⟨a,b,hr,hab⟩ := ih e he
      exact ⟨a,b,(move_rank hm).trans hr,hab⟩

theorem acquired_rank {owner : κ} (h : Move c (.acquired owner) d) : c.rank = 0 ∧ d.rank = 1 := by
  cases h
  exact ⟨rfl,rfl⟩

theorem finalized_rank {owner : κ} (h : Move c (.finalized owner) d) : c.rank = 1 ∧ d.rank = 2 := by
  cases h
  exact ⟨rfl,rfl⟩

theorem finalized_held {owner : κ} (h : Move c (.finalized owner) d) : c = .held owner := by
  cases h
  rfl

/-- A kind of event that leads from one rank to a higher one happens once. -/
theorem ranked_once {kind : κ → Event κ} {n m : ℕ} (hlt : n < m)
    (hrank : ∀ (c d : Cell κ) (a : κ), Move c (kind a) d → c.rank = n ∧ d.rank = m) (h : Path c es d) :
    es.Pairwise (fun e f => ∀ a b : κ, ¬ (e = kind a ∧ f = kind b)) := by
  induction h with
  | nil c => exact List.Pairwise.nil
  | cons hm hp ih =>
    refine List.pairwise_cons.mpr ⟨?_,ih⟩
    rintro f hf a b ⟨rfl,rfl⟩
    obtain ⟨x,y,hr,hxy⟩ := path_mem hp _ hf
    have h1 := (hrank _ _ _ hm).2
    have h2 := (hrank _ _ _ hxy).1
    omega

theorem acquired_once (h : Path c es d) :
    es.Pairwise (fun e f => ∀ a b : κ, ¬ (e = .acquired a ∧ f = .acquired b)) :=
  ranked_once Nat.zero_lt_one (fun _ _ _ => acquired_rank) h

theorem finalized_once (h : Path c es d) :
    es.Pairwise (fun e f => ∀ a b : κ, ¬ (e = .finalized a ∧ f = .finalized b)) :=
  ranked_once Nat.one_lt_two (fun _ _ _ => finalized_rank) h

theorem held_acquired (h : Path c es d) (owner : κ) (hd : d = .held owner) :
    c = .held owner ∨ .acquired owner ∈ es := by
  induction h with
  | nil c => exact Or.inl hd
  | cons hm hp ih =>
    rcases ih hd with rfl | he
    · cases hm with
      | acquire => exact Or.inr (by simp)
      | busyHeld | refuse | pass => exact Or.inl rfl
    · exact Or.inr (List.mem_cons_of_mem _ he)

/-- From a dead cell nothing is acquired, found busy or finalized. -/
theorem dead_move {e : Event κ} (h : Move c e d) (hr : 3 ≤ c.rank) :
    e = .stale ∨ e = .refused ∨ e = .other := by
  cases h with
  | expire => exact Or.inl rfl
  | refuse => exact Or.inr (Or.inl rfl)
  | pass => exact Or.inr (Or.inr rfl)
  | _ => simp [Cell.rank] at hr

theorem stale_rank (h : Move c .stale d) : d.rank = 3 := by
  cases h
  rfl

section Run
variable {σ ι ω : Type*}

/-- A machine whose steps move a cell along what is observed of them traces a
path of that cell. -/
theorem trace_path (step : σ → ι → σ × ω) (P : σ → Prop) (cell : σ → Cell κ)
    (observe : ι × ω → Event κ) (hP : ∀ s i, P s → P (step s i).1)
    (hmove : ∀ s i, P s → Move (cell s) (observe (i,(step s i).2)) (cell (step s i).1))
    (s : σ) (is : List ι) (h : P s) :
    Path (cell s) ((Machine.trace step s is).map observe) (cell (Machine.final step s is)) := by
  induction is generalizing s with
  | nil => exact Path.nil _
  | cons i is ih => exact Path.cons (hmove s i h) (ih _ (hP s i h))

end Run
end SuiteHarness.Library.Fence
