import Mathlib

/-!
# Runs of machines with outputs

A machine answers each input and moves to a next state. Its trace pairs the
inputs of a run with their answers. The rules below turn one-step facts into
facts about whole runs: an invariant of the step is one of the run, every
position of a trace is a step from a state the run reached, and two machines
whose steps are matched by a relation have matched traces.
-/

set_option autoImplicit false

namespace SuiteHarness.Library.Machine

variable {σ τ ι ω ψ : Type*}

def final (step : σ → ι → σ × ω) (s : σ) : List ι → σ
  | [] => s
  | i::is => final step (step s i).1 is

def trace (step : σ → ι → σ × ω) (s : σ) : List ι → List (ι × ω)
  | [] => []
  | i::is => (i,(step s i).2)::trace step (step s i).1 is

variable (step : σ → ι → σ × ω)

theorem final_append (s : σ) (is js : List ι) :
    final step s (is++js) = final step (final step s is) js := by
  induction is generalizing s with
  | nil => rfl
  | cons i is ih => exact ih _

theorem trace_append (s : σ) (is js : List ι) :
    trace step s (is++js) = trace step s is ++ trace step (final step s is) js := by
  induction is generalizing s with
  | nil => rfl
  | cons i is ih => simp [trace, final, ih]

variable (C : σ → ι → Bool) (P : σ → Prop)

/-- An invariant of the steps on the inputs that satisfy a condition. -/
theorem final_invariant_on (Q : ι → Prop) (hstep : ∀ s i, Q i → P s → P (step s i).1) (s : σ)
    (is : List ι) (hq : ∀ i ∈ is, Q i) (h : P s) : P (final step s is) := by
  induction is generalizing s with
  | nil => exact h
  | cons i is ih =>
    exact ih _ (fun j hj => hq j (List.mem_cons_of_mem i hj)) (hstep s i (hq i List.mem_cons_self) h)

theorem final_invariant (hstep : ∀ s i, P s → P (step s i).1) (s : σ) (is : List ι) (h : P s) :
    P (final step s is) :=
  final_invariant_on step P (fun _ => True) (fun s i _ => hstep s i) s is (fun _ _ => trivial) h

def along (step : σ → ι → σ × ω) (C : σ → ι → Bool) (s : σ) : List ι → Bool
  | [] => true
  | i::is => C s i && along step C (step s i).1 is

theorem final_invariant_along (hstep : ∀ s i, C s i = true → P s → P (step s i).1) (s : σ) (is : List ι)
    (hc : along step C s is = true) (h : P s) : P (final step s is) := by
  induction is generalizing s with
  | nil => exact h
  | cons i is ih =>
    rw [along, Bool.and_eq_true] at hc
    exact ih _ hc.2 (hstep s i hc.1 h)

/-- An invariant of the answered history together with the state it led to. -/
theorem history_invariant_along (P : List (ι × ω) → σ → Prop)
    (hstep : ∀ h s i, C s i = true → P h s → P (h ++ [(i,(step s i).2)]) (step s i).1) (s : σ) (is : List ι)
    (hc : along step C s is = true) (h : P [] s) : P (trace step s is) (final step s is) := by
  have hgeneral : ∀ (past : List (ι × ω)) (s : σ), along step C s is = true → P past s →
      P (past ++ trace step s is) (final step s is) := by
    clear hc h
    induction is with
    | nil =>
      intro past s _ h
      simpa [trace, final] using h
    | cons i is ih =>
      intro past s hc h
      rw [along, Bool.and_eq_true] at hc
      have hnext := ih (past ++ [(i,(step s i).2)]) (step s i).1 hc.2 (hstep past s i hc.1 h)
      simpa [trace, final] using hnext
  exact hgeneral [] s hc h

theorem along_append (s : σ) (is js : List ι) :
    along step C s (is++js) = (along step C s is && along step C (final step s is) js) := by
  induction is generalizing s with
  | nil => rfl
  | cons i is ih => simp [along, final, ih, Bool.and_assoc]

theorem along_true (s : σ) (is : List ι) : along step (fun _ _ => true) s is = true := by
  induction is generalizing s with
  | nil => rfl
  | cons i is ih => exact ih _

/-- A position of a trace is one step between two states of the run. -/
theorem trace_split (s : σ) (is : List ι) (e : ι × ω) (pre post : List (ι × ω))
    (h : trace step s is = pre ++ e::post) :
    ∃ js ks, is = js ++ e.1::ks ∧ pre = trace step s js ∧
      e.2 = (step (final step s js) e.1).2 ∧
      post = trace step (step (final step s js) e.1).1 ks := by
  induction pre generalizing s is with
  | nil =>
    cases is with
    | nil => simp [trace] at h
    | cons i is =>
      simp only [trace, List.nil_append, List.cons.injEq] at h
      obtain ⟨rfl,rfl⟩ := h
      exact ⟨[],is,rfl,rfl,rfl,rfl⟩
  | cons d pre ih =>
    cases is with
    | nil => simp [trace] at h
    | cons i is =>
      simp only [trace, List.cons_append, List.cons.injEq] at h
      obtain ⟨rfl,h⟩ := h
      obtain ⟨js,ks,rfl,rfl,he,rfl⟩ := ih _ is h
      exact ⟨i::js,ks,rfl,rfl,he,rfl⟩

/-- A value that an observation has now and did not have at first was reached by
one step and has been kept since. -/
theorem final_since {β : Type*} (f : σ → β) (v : β) (s : σ) (is : List ι) (h0 : f s ≠ v)
    (hv : f (final step s is) = v) :
    ∃ js i ks, is = js ++ i::ks ∧ f (final step s js) ≠ v ∧
      f (step (final step s js) i).1 = v ∧
      ∀ ks' ks'', ks = ks' ++ ks'' → f (final step s (js ++ i::ks')) = v := by
  induction is using List.reverseRecOn with
  | nil => exact absurd hv h0
  | append_singleton is i ih =>
    have hlast : final step s (is ++ [i]) = (step (final step s is) i).1 := final_append step s is [i]
    rw [hlast] at hv
    by_cases hbefore : f (final step s is) = v
    · obtain ⟨js,j,ks,rfl,hne,heq,hkeep⟩ := ih hbefore
      refine ⟨js,j,ks ++ [i],by simp,hne,heq,fun ks' ks'' hks => ?_⟩
      rcases List.eq_nil_or_concat ks'' with rfl | ⟨ks'',x,rfl⟩
      · rw [List.append_nil] at hks
        rw [← hks, ← List.cons_append, ← List.append_assoc, hlast]
        exact hv
      · rw [List.concat_eq_append, ← List.append_assoc] at hks
        exact hkeep ks' ks'' (List.append_inj_left' hks rfl)
    · refine ⟨is,i,[],rfl,hbefore,hv,fun ks' ks'' hks => ?_⟩
      obtain ⟨rfl,-⟩ := List.append_eq_nil_iff.mp hks.symm
      rw [hlast]
      exact hv

theorem trace_forall (Q : ι → ω → Prop) (hstep : ∀ s i, P s → P (step s i).1)
    (hout : ∀ s i, P s → Q i (step s i).2) (s : σ) (is : List ι) (h : P s) :
    ∀ e ∈ trace step s is, Q e.1 e.2 := by
  intro e he
  obtain ⟨pre,post,hs⟩ := List.append_of_mem he
  obtain ⟨js,ks,-,-,ho,-⟩ := trace_split step s is e pre post hs
  rw [ho]
  exact hout _ _ (final_invariant step P hstep s js h)

/-- Stepwise agreement of two machines under a condition on the inputs still to
come. The condition is a predicate of the state pair and the rest of the run,
so it may speak about clocks that only move forward. -/
theorem trace_simulation (step' : τ → ι → τ × ψ) (R : σ → τ → List ι → Prop) (E : ω → ψ → Prop)
    (hstep : ∀ s t i is, R s t (i::is) →
      E (step s i).2 (step' t i).2 ∧ R (step s i).1 (step' t i).1 is) (s : σ) (t : τ)
    (is : List ι) (h : R s t is) :
    List.Forall₂ (fun a b => a.1 = b.1 ∧ E a.2 b.2) (trace step s is) (trace step' t is) := by
  induction is generalizing s t with
  | nil => exact List.Forall₂.nil
  | cons i is ih =>
    obtain ⟨he,hr⟩ := hstep s t i is h
    exact List.Forall₂.cons ⟨rfl,he⟩ (ih _ _ hr)

theorem final_simulation (step' : τ → ι → τ × ψ) (R : σ → τ → List ι → Prop)
    (hstep : ∀ s t i is, R s t (i::is) → R (step s i).1 (step' t i).1 is) (s : σ) (t : τ)
    (is : List ι) (h : R s t is) : R (final step s is) (final step' t is) [] := by
  induction is generalizing s t with
  | nil => exact h
  | cons i is ih => exact ih _ _ (hstep s t i is h)

/-! Machines whose inputs each belong to one key of the state. -/

section Keyed

variable {κ β : Type*} [DecidableEq κ]

structure Local (step : σ → ι → σ × ω) (key : ι → κ) (look : σ → κ → β) : Prop where
  frame : ∀ s i k, k ≠ key i → look (step s i).1 k = look s k
  reads : ∀ s t i, look s (key i) = look t (key i) →
    (step s i).2 = (step t i).2 ∧ look (step s i).1 (key i) = look (step t i).1 (key i)

/-- States that agree outside one key answer the inputs of the other keys alike. -/
theorem trace_elsewhere {step : σ → ι → σ × ω} {key : ι → κ} {look : σ → κ → β}
    (h : Local step key look) (k : κ) (s t : σ) (hst : ∀ l, l ≠ k → look s l = look t l)
    (is : List ι) :
    (trace step s is).filter (fun e => decide (key e.1 ≠ k)) =
      (trace step t is).filter (fun e => decide (key e.1 ≠ k)) := by
  induction is generalizing s t with
  | nil => rfl
  | cons i is ih =>
    have hrest := ih (step s i).1 (step t i).1 (fun l hl => by
      by_cases hkey : l = key i
      · subst hkey
        exact (h.reads s t i (hst _ hl)).2
      · rw [h.frame s i l hkey, h.frame t i l hkey]
        exact hst l hl)
    by_cases hkey : key i = k
    · simp only [trace, List.filter_cons, hkey, ne_eq, not_true_eq_false, decide_false,
        Bool.false_eq_true, if_false]
      exact hrest
    · simp only [trace, List.filter_cons, ne_eq, hkey, not_false_eq_true, decide_true, if_true]
      rw [(h.reads s t i (hst _ hkey)).1, hrest]

end Keyed

end SuiteHarness.Library.Machine
