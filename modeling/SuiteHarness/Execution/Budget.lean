import Mathlib

/-!
# The aggregate run budget

`AggregateRunBudget`, the quota that a run shares with the runs it delegates.
Every operation holds the pool's lock, so it is one step. Whether the deadline
has passed is an argument of each operation.
-/

set_option autoImplicit false

namespace SuiteHarness.Execution

structure AggregateRunBudget where
  maxIterations : ℕ
  maxToolCalls : ℕ
  maxChildren : ℕ
  iterationsUsed : ℕ := 0
  toolCallsUsed : ℕ := 0
  childCalls : List String := []
  activeChildren : ℤ := 0
  deriving DecidableEq

inductive BudgetError where
  | valueError (text : String)
  | runtimeError (text : String)
  deriving DecidableEq

inductive SlotAnswer where
  | acquired | refused | waiting
  deriving DecidableEq

namespace AggregateRunBudget

variable (p : AggregateRunBudget) (expired : Bool)

def takeIteration : AggregateRunBudget × Bool :=
  if expired = true ∨ p.maxIterations ≤ p.iterationsUsed then (p,false)
  else ({ p with iterationsUsed := p.iterationsUsed+1 },true)

def takeToolSlots (requested : ℕ) : AggregateRunBudget × ℕ :=
  if expired then (p,0)
  else
    let permitted := min requested (p.maxToolCalls-p.toolCallsUsed)
    ({ p with toolCallsUsed := p.toolCallsUsed+permitted },permitted)

def checkedToolSlots (requested : ℤ) : Except BudgetError (AggregateRunBudget × ℕ) :=
  if requested < 0 then
    .error (.valueError "requested tool slots must be a nonnegative integer")
  else .ok (p.takeToolSlots expired requested.toNat)

def childCeiling : Option ℤ → ℤ
  | none => p.maxChildren
  | some ceiling => min p.maxChildren ceiling

def reserveChild (callId : String) (ceiling : Option ℤ) : Except BudgetError (AggregateRunBudget × Bool) :=
  if callId = "" then .error (.valueError "a child reservation requires a call id")
  else if ceiling.any (fun c => decide (c < 0)) then
    .error (.valueError "child ceiling must be a nonnegative integer")
  else if expired = true ∨ callId ∈ p.childCalls ∨
      p.childCeiling ceiling ≤ p.childCalls.length then .ok (p,false)
  else .ok ({ p with childCalls := p.childCalls ++ [callId] },true)

def takeChildSlot (ceiling : ℤ) : Except BudgetError (AggregateRunBudget × SlotAnswer) :=
  let effective := min ceiling p.maxChildren
  if ceiling < 0 then
    .error (.valueError "child concurrency ceiling must be a nonnegative integer")
  else if expired = true ∨ effective = 0 then .ok (p,.refused)
  else if p.activeChildren < effective then
    .ok ({ p with activeChildren := p.activeChildren+1 },.acquired)
  else .ok (p,.waiting)

def releaseChildSlot : Except BudgetError AggregateRunBudget :=
  if p.activeChildren ≤ 0 then
    .error (.runtimeError "no child concurrency slot is active")
  else .ok { p with activeChildren := p.activeChildren-1 }

variable {q : AggregateRunBudget}

theorem take_iteration_true {p : AggregateRunBudget} {expired : Bool}
    (h : p.takeIteration expired = (q,true)) :
    p.iterationsUsed < p.maxIterations ∧ q = { p with iterationsUsed := p.iterationsUsed+1 } := by
  unfold takeIteration at h
  split_ifs at h with hr
  · simp at h
  · rw [Prod.mk.injEq] at h
    exact ⟨by omega,h.1.symm⟩

theorem take_iteration_false {p : AggregateRunBudget} {expired : Bool}
    (h : p.takeIteration expired = (q,false)) : q = p := by
  unfold takeIteration at h
  split_ifs at h with hr
  · rw [Prod.mk.injEq] at h
    exact h.1.symm
  · simp at h

theorem take_tool_slots_zero : p.takeToolSlots expired 0 = (p,0) := by
  unfold takeToolSlots
  split_ifs
  · rfl
  · simp

end AggregateRunBudget
end SuiteHarness.Execution
