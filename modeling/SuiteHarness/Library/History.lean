import Mathlib

/-!
# Logs and worklists

A log grows at its end. `Throughout P log` says that every entry satisfies `P`
together with the entries before it; appending asks for the new entries only.
A worklist changes one entry at a time; what its entries contribute to a list
changes by the contribution of that entry.
-/

set_option autoImplicit false

namespace SuiteHarness.Library.History

variable {ε α β : Type*}
variable (P : List ε → ε → Prop) (log : List ε)

def Throughout (P : List ε → ε → Prop) (log : List ε) : Prop :=
  ∀ pre e post, log = pre ++ e::post → P pre e

theorem throughout_nil : Throughout P [] := by
  intro pre e post h
  simp at h

theorem throughout_append (es : List ε) :
    Throughout P (log ++ es) ↔ Throughout P log ∧ Throughout (fun pre => P (log ++ pre)) es := by
  constructor
  · intro h
    constructor
    · intro pre e post hlog
      exact h pre e (post ++ es) (by rw [hlog]; simp)
    · intro pre e post hes
      exact h (log ++ pre) e post (by rw [hes]; simp)
  · rintro ⟨hl,he⟩ pre e post h
    rcases List.append_eq_append_iff.mp h with ⟨mid,hpre,hes⟩ | ⟨mid,hlog,hmid⟩
    · subst hpre
      exact he mid e post hes
    · cases mid with
      | nil =>
        rw [List.append_nil] at hlog
        subst hlog
        simpa using he [] e post (by simpa using hmid.symm)
      | cons d mid =>
        obtain ⟨rfl,rfl⟩ : e = d ∧ post = mid ++ es := by simpa using hmid
        exact hl pre e mid hlog

theorem throughout_concat (e : ε) : Throughout P (log ++ [e]) ↔ Throughout P log ∧ P log e := by
  rw [throughout_append]
  refine and_congr_right fun _ => ⟨fun h => by simpa using h [] e [] rfl,fun h pre d post hd => ?_⟩
  cases pre with
  | nil =>
    obtain ⟨rfl,-⟩ : e = d ∧ [] = post := by simpa using hd
    simpa using h
  | cons x pre => simp at hd

theorem throughout_extend {P : List ε → ε → Prop} {log es : List ε} (h : Throughout P log)
    (hes : ∀ pre, ∀ e ∈ es, P pre e) : Throughout P (log ++ es) := by
  rw [throughout_append]
  refine ⟨h,fun pre e post hsplit => hes _ e ?_⟩
  rw [hsplit]
  simp

variable {xs : List α}

theorem set_entry {j k : ℕ} {x y : α} (h : (xs.set k y)[j]? = some x) :
    (j = k ∧ x = y) ∨ xs[j]? = some x := by
  rw [List.getElem?_set] at h
  split_ifs at h with hk hl
  · exact .inl ⟨hk.symm,(Option.some.inj h).symm⟩
  · exact .inr h

theorem sum_map_set (f : α → ℕ) {k : ℕ} {x : α} (h : xs[k]? = some x) (y : α) :
    ((xs.set k y).map f).sum+f x = (xs.map f).sum+f y := by
  induction xs generalizing k with
  | nil => simp at h
  | cons a xs ih =>
    cases k with
    | zero =>
      obtain rfl : a = x := by simpa using h
      simp only [List.set_cons_zero, List.map_cons, List.sum_cons]
      omega
    | succ k =>
      have hrec := ih (k := k) (by simpa using h)
      simp only [List.set_cons_succ, List.map_cons, List.sum_cons]
      omega

/-- The contributions of a worklist before and after one entry is replaced. -/
theorem filter_map_set_perm (f : α → Option β) {k : ℕ} {x : α} (h : xs[k]? = some x) (y : α) :
    ((f x).toList ++ (xs.set k y).filterMap f).Perm ((f y).toList ++ xs.filterMap f) := by
  induction xs generalizing k with
  | nil => simp at h
  | cons a xs ih =>
    cases k with
    | zero =>
      obtain rfl : a = x := by simpa using h
      rw [List.set_cons_zero, List.filterMap_cons, List.filterMap_cons]
      cases f a <;> cases f y <;> simp [List.Perm.swap]
    | succ k =>
      rw [List.set_cons_succ, List.filterMap_cons, List.filterMap_cons]
      have hrec := ih (k := k) (by simpa using h)
      cases f a with
      | none => exact hrec
      | some b => exact (List.perm_middle.trans (hrec.cons b)).trans List.perm_middle.symm

/-- An entry that hands over part of its contribution and keeps at most the rest. -/
theorem filter_map_set_subperm (f : α → Option β) {k : ℕ} {x y : α} {out : List β}
    (h : xs[k]? = some x) (hout : (out ++ (f y).toList).Sublist (f x).toList) :
    (out ++ (xs.set k y).filterMap f).Subperm (xs.filterMap f) := by
  rw [← List.subperm_append_left (f y).toList]
  have hswap : ((f y).toList ++ (out ++ (xs.set k y).filterMap f)).Perm
      ((out ++ (f y).toList) ++ (xs.set k y).filterMap f) := by
    rw [← List.append_assoc]
    exact List.perm_append_comm.append_right _
  have hkeep := (hout.append_right ((xs.set k y).filterMap f)).subperm
  exact (hswap.subperm.trans hkeep).trans (filter_map_set_perm f h y).subperm

end SuiteHarness.Library.History
