import Mathlib

/-!
# A bounded queue with suspended puts

A put into a full queue suspends. A take frees a place and wakes the first
sleeping put; the woken put tests the queue again when it runs and goes back to
sleep if somebody has taken the place meanwhile. Puts that never meet another
suspended put enter in the order in which they were made.
-/

set_option autoImplicit false

namespace SuiteHarness.Library

structure Putter (α : Type*) where
  who : ℕ
  item : α
  woken : Bool := false
  deriving DecidableEq

structure BoundedQueue (α : Type*) where
  items : List α := []
  putters : List (Putter α) := []
  deriving DecidableEq

namespace BoundedQueue

variable {α : Type*}
variable (capacity : ℕ) (q : BoundedQueue α) (who : ℕ)

def put (a : α) : BoundedQueue α :=
  if q.items.length < capacity then { q with items := q.items ++ [a] }
  else { q with putters := q.putters ++ [⟨who,a,false⟩] }

def wakeNext : List (Putter α) → List (Putter α)
  | [] => []
  | p::ps => if p.woken then p::wakeNext ps else { p with woken := true }::ps

def take : Option (α × BoundedQueue α) :=
  match q.items with
  | [] => none
  | a::rest => some (a,⟨rest,wakeNext q.putters⟩)

def retry : BoundedQueue α :=
  match q.putters.find? (fun p => decide (p.who = who) && p.woken) with
  | none => q
  | some p =>
    let rest := q.putters.eraseP (fun p => decide (p.who = who) && p.woken)
    if q.items.length < capacity then ⟨q.items ++ [p.item],rest⟩
    else { q with putters := rest ++ [{ p with woken := false }] }

def cancel : BoundedQueue α :=
  match q.putters.find? (fun p => decide (p.who = who)) with
  | none => q
  | some p =>
    let rest := q.putters.eraseP (fun p => decide (p.who = who))
    if p.woken = true ∧ q.items.length < capacity then { q with putters := wakeNext rest }
    else { q with putters := rest }

def inFlight : List α := q.items ++ q.putters.map (fun p => p.item)

theorem wake_next_items (ps : List (Putter α)) :
    (wakeNext ps).map (fun p => p.item) = ps.map (fun p => p.item) := by
  induction ps with
  | nil => rfl
  | cons p ps ih =>
    rw [wakeNext]
    split_ifs
    · simp [ih]
    · rfl

theorem wake_next_length (ps : List (Putter α)) : (wakeNext ps).length = ps.length := by
  have h := congrArg List.length (wake_next_items ps)
  simpa using h

theorem put_in_flight (a : α) (h : q.putters = []) :
    (q.put capacity who a).inFlight = q.inFlight ++ [a] ∧
    (q.put capacity who a).putters.length ≤ 1 := by
  unfold put
  split_ifs <;> simp [inFlight, h]

theorem take_in_flight {q q' : BoundedQueue α} {a : α} (h : q.take = some (a,q')) :
    q.inFlight = a::q'.inFlight ∧ q'.putters.length = q.putters.length := by
  unfold take at h
  split at h
  · cases h
  · rename_i b rest hitems
    cases h
    simp [inFlight, hitems, wake_next_items, wake_next_length]

/-- A single suspended put keeps its place however often it tries. -/
theorem retry_in_flight (h : q.putters.length ≤ 1) :
    (q.retry capacity who).inFlight = q.inFlight ∧
    (q.retry capacity who).putters.length ≤ q.putters.length := by
  unfold retry
  split
  · exact ⟨rfl,le_rfl⟩
  · rename_i p hp
    obtain ⟨p',hq⟩ : ∃ p', q.putters = [p'] := by
      match hps : q.putters with
      | [] => simp [hps] at hp
      | [p'] => exact ⟨p',rfl⟩
      | _::_::_ => simp [hps] at h
    have hfound := List.find?_some hp
    have hmem := List.mem_of_find?_eq_some hp
    rw [hq, List.mem_singleton] at hmem
    subst hmem
    have herase : q.putters.eraseP (fun p => decide (p.who = who) && p.woken) = [] := by
      rw [hq, List.eraseP_cons, hfound, cond_true]
    simp only [herase]
    split_ifs <;> simp [inFlight, hq]

end BoundedQueue
end SuiteHarness.Library
