import SuiteHarness.Execution.Models
import SuiteHarness.Library.Dict
import SuiteHarness.Library.Machine

/-!
# The approval store

`InMemoryApprovalStore` keeps pending bindings under the digest of their
token. Every method holds the store's lock, so a run is a sequence of whole
calls. `issue` draws tokens until one is not pending: one draw is one step here,
and the drawn token comes with the operation.
-/

set_option autoImplicit false

namespace SuiteHarness.Execution

open SuiteHarness.Library

structure ApprovalStore where
  pending : Dict Digest ApprovalBinding := Dict.empty

inductive ApprovalOp where
  | issue (token : String) (binding : ApprovalBinding) (now : ℤ)
  | consume (token : String) (expected : ApprovalTarget) (now : ℤ)
  | revoke (token : String)

inductive ApprovalAnswer where
  | issued (token : String) (binding : ApprovalBinding)
  | drawnAgain
  | valueError (message : String)
  | bound (binding : ApprovalBinding)
  | unmatched
  | revoked (existed : Bool)
  deriving DecidableEq

def tokenDigest (token : String) : Digest := digest (.str token)

theorem token_digest_injective : Function.Injective tokenDigest := by
  intro a b h
  simpa [tokenDigest, digest, Json.canon] using h

def ApprovalOp.token : ApprovalOp → String
  | .issue token _ _ => token
  | .consume token _ _ => token
  | .revoke token => token

namespace ApprovalStore

variable (s : ApprovalStore) (token : String)

def lookup : Option ApprovalBinding :=
  s.pending.get? (tokenDigest token)

def issue (s : ApprovalStore) (token : String) (binding : ApprovalBinding) (now : ℤ) :
    ApprovalStore × ApprovalAnswer :=
  if now < binding.issuedAt then
    (s,.valueError "cannot issue an approval with a future issued_at")
  else if binding.expiresAt ≤ now then
    (s,.valueError "cannot issue an already-expired approval")
  else if s.pending.contains (tokenDigest token) then (s,.drawnAgain)
  else ({ pending := s.pending.set (tokenDigest token) binding },.issued token binding)

def consumeIfMatches (expected : ApprovalTarget) (now : ℤ) : ApprovalStore × ApprovalAnswer :=
  match s.pending.get? (tokenDigest token) with
  | none => (s,.unmatched)
  | some binding =>
    if binding.expiresAt ≤ now then
      ({ pending := s.pending.erase (tokenDigest token) },.unmatched)
    else if binding.target ≠ expected then (s,.unmatched)
    else ({ pending := s.pending.erase (tokenDigest token) },.bound binding)

def revoke : ApprovalStore × ApprovalAnswer :=
  ({ pending := s.pending.erase (tokenDigest token) },
    .revoked (s.pending.contains (tokenDigest token)))

def step (s : ApprovalStore) : ApprovalOp → ApprovalStore × ApprovalAnswer
  | .issue token binding now => s.issue token binding now
  | .consume token expected now => s.consumeIfMatches token expected now
  | .revoke token => s.revoke token

def outcome (held : Option ApprovalBinding) : ApprovalOp → Option ApprovalBinding × ApprovalAnswer
  | .issue token binding now =>
    if now < binding.issuedAt then
      (held,.valueError "cannot issue an approval with a future issued_at")
    else if binding.expiresAt ≤ now then
      (held,.valueError "cannot issue an already-expired approval")
    else if held.isSome then (held,.drawnAgain)
    else (some binding,.issued token binding)
  | .consume _ expected now =>
    match held with
    | none => (none,.unmatched)
    | some binding =>
      if binding.expiresAt ≤ now then (none,.unmatched)
      else if binding.target ≠ expected then (some binding,.unmatched)
      else (none,.bound binding)
  | .revoke _ => (none,.revoked held.isSome)

theorem lookup_set (other : String) (binding : ApprovalBinding) :
    lookup { pending := s.pending.set (tokenDigest token) binding } other =
      if other = token then some binding else s.lookup other := by
  rw [lookup, Dict.get_set]
  simp only [token_digest_injective.eq_iff]
  rfl

theorem lookup_erase (other : String) :
    lookup { pending := s.pending.erase (tokenDigest token) } other =
      if other = token then none else s.lookup other := by
  rw [lookup, Dict.get_erase]
  simp only [token_digest_injective.eq_iff]
  rfl

/-- A call answers from the binding of its token and changes nothing else. -/
theorem step_outcome (op : ApprovalOp) :
    (s.step op).2 = (outcome (s.lookup op.token) op).2 ∧
    ∀ token, (s.step op).1.lookup token =
      if token = op.token then (outcome (s.lookup op.token) op).1 else s.lookup token := by
  have hsame : ∀ token, s.lookup token =
      if token = op.token then s.lookup op.token else s.lookup token := by
    intro token
    split_ifs with h
    · rw [h]
    · rfl
  cases op with
  | issue token binding now =>
    show (s.issue token binding now).2 = (outcome (s.lookup token) (.issue token binding now)).2 ∧
      ∀ other, (s.issue token binding now).1.lookup other = if other = token then
        (outcome (s.lookup token) (.issue token binding now)).1 else s.lookup other
    unfold issue outcome
    have hcontains : s.pending.contains (tokenDigest token) = (s.lookup token).isSome := rfl
    by_cases hheld : (s.lookup token).isSome = true
    · simp only [hcontains, if_pos hheld]
      split_ifs <;> exact ⟨rfl,hsame⟩
    · simp only [hcontains, if_neg hheld]
      split_ifs
      · exact ⟨rfl,hsame⟩
      · exact ⟨rfl,hsame⟩
      · exact ⟨rfl,fun other => lookup_set s token other binding⟩
  | consume token expected now =>
    simp only [step, consumeIfMatches, outcome, ApprovalOp.token] at hsame ⊢
    rw [show s.pending.get? (tokenDigest token) = s.lookup token from rfl]
    cases hheld : s.lookup token with
    | none =>
      rw [hheld] at hsame
      exact ⟨rfl,hsame⟩
    | some binding =>
      rw [hheld] at hsame
      simp only
      split_ifs with hexpired htarget
      · exact ⟨rfl,lookup_erase s token⟩
      · exact ⟨rfl,hsame⟩
      · exact ⟨rfl,lookup_erase s token⟩
  | revoke token => exact ⟨rfl,lookup_erase s token⟩

theorem step_local : Machine.Local step ApprovalOp.token lookup where
  frame s op token h := by
    rw [(step_outcome s op).2 token, if_neg h]
  reads s t op h := by
    rw [(step_outcome s op).1, (step_outcome t op).1, (step_outcome s op).2, (step_outcome t op).2,
      if_pos rfl, if_pos rfl, h]
    exact ⟨rfl,rfl⟩

variable (e : ApprovalOp × ApprovalAnswer)

def yields : Bool :=
  decide (e.1.token = token) && match e.2 with
    | .bound _ => true
    | _ => false

def issues : Bool :=
  decide (e.1.token = token) && match e.2 with
    | .issued _ _ => true
    | _ => false

def spends : Bool :=
  decide (e.1.token = token) && match e.2 with
    | .bound _ => true
    | .revoked existed => existed
    | _ => false

variable {b : ApprovalBinding} {op : ApprovalOp} {held : Option ApprovalBinding}

/-- Only the binding itself is yielded, for its own target and before it expires. -/
theorem outcome_bound (h : (outcome held op).2 = .bound b) :
    held = some b ∧ (outcome held op).1 = none ∧
      ∃ token expected now, op = .consume token expected now ∧ b.target = expected ∧
        now < b.expiresAt := by
  cases op with
  | issue token binding now =>
    simp only [outcome] at h
    split_ifs at h
  | consume token expected now =>
    cases held with
    | none => simp [outcome] at h
    | some binding =>
      simp only [outcome] at h ⊢
      split_ifs at h ⊢ with hexpired htarget
      cases h
      exact ⟨rfl,rfl,token,expected,now,rfl,not_not.mp htarget,not_le.mp hexpired⟩
  | revoke token => simp [outcome] at h

theorem outcome_gains (hne : held ≠ some b) (h : (outcome held op).1 = some b) :
    ∃ now, op = .issue op.token b now ∧ (outcome held op).2 = .issued op.token b := by
  cases op with
  | issue token binding now =>
    simp only [outcome] at h ⊢
    split_ifs at h ⊢ with hfuture hexpired hheld
    · exact absurd h hne
    · exact absurd h hne
    · exact absurd h hne
    · cases h
      exact ⟨now,rfl,rfl⟩
  | consume token expected now =>
    cases held with
    | none => simp [outcome] at h
    | some binding =>
      simp only [outcome] at h
      split_ifs at h
      exact absurd h hne
  | revoke token => simp [outcome] at h

/-- A call that leaves its token pending did not spend it. -/
theorem outcome_kept (h : (outcome held op).1 = some b) :
    spends op.token (op,(outcome held op).2) = false := by
  cases op with
  | issue token binding now =>
    simp only [outcome]
    split_ifs <;> simp [spends]
  | consume token expected now =>
    cases held with
    | none => simp [outcome] at h
    | some binding =>
      simp only [outcome] at h ⊢
      split_ifs at h ⊢
      simp [spends]
  | revoke token => simp [outcome] at h

theorem outcome_balance (held : Option ApprovalBinding) (op : ApprovalOp) :
    (if yields op.token (op,(outcome held op).2) then 1 else 0)+(outcome held op).1.toList.length ≤
      (if issues op.token (op,(outcome held op).2) then 1 else 0)+held.toList.length := by
  cases op with
  | issue token binding now =>
    simp only [outcome]
    split_ifs with hfuture hexpired hheld
    all_goals simp_all [yields, issues]
  | consume token expected now =>
    cases held with
    | none => simp [outcome, yields]
    | some binding =>
      simp only [outcome]
      split_ifs <;> simp_all [yields, issues]
  | revoke token => simp [outcome, yields]

theorem yields_le_issues (s : ApprovalStore) (ops : List ApprovalOp) :
    (Machine.trace step s ops).countP (yields token) ≤
      (Machine.trace step s ops).countP (issues token)+(s.lookup token).toList.length := by
  induction ops generalizing s with
  | nil => simp [Machine.trace]
  | cons op ops ih =>
    obtain ⟨hanswer,hlook⟩ := step_outcome s op
    have hrest := ih (s.step op).1
    rw [Machine.trace, List.countP_cons, List.countP_cons]
    by_cases htoken : op.token = token
    · subst htoken
      have hbalance := outcome_balance (s.lookup op.token) op
      rw [hlook op.token, if_pos rfl] at hrest
      rw [hanswer]
      omega
    · rw [hlook token, if_neg (fun h => htoken h.symm)] at hrest
      simpa [yields, issues, htoken] using hrest

/-- The call that made a pending token pending, and none since that spent it. -/
theorem pending_since {ops : List ApprovalOp} {token : String}
    (h : (Machine.final step {} ops).lookup token = some b) :
    ∃ before now mid, Machine.trace step {} ops =
        before ++ (.issue token b now,.issued token b)::mid ∧
      ∀ e ∈ mid, spends token e = false := by
  obtain ⟨js,op,ks,rfl,hne,heq,hkeep⟩ :=
    Machine.final_since step (fun s => s.lookup token) (some b) {} ops (by simp [lookup]) h
  obtain ⟨hanswer,hlook⟩ := step_outcome (Machine.final step {} js) op
  have htoken : token = op.token := by
    by_contra hother
    exact hne ((hlook token).trans (if_neg hother) ▸ heq)
  subst htoken
  rw [hlook, if_pos rfl] at heq
  obtain ⟨now,hop,hissued⟩ := outcome_gains hne heq
  refine ⟨Machine.trace step {} js,now,Machine.trace step (step (Machine.final step {} js) op).1 ks,
    ?_,?_⟩
  · rw [Machine.trace_append, Machine.trace, hanswer, hissued, ← hop]
  · intro e he
    obtain ⟨pre,post,hsplit⟩ := List.append_of_mem he
    obtain ⟨ks',ks'',hks,-,hout,-⟩ := Machine.trace_split _ _ _ e pre post hsplit
    have hafter := hkeep (ks' ++ [e.1]) ks'' (by simp [hks])
    rw [show js ++ op::(ks' ++ [e.1]) = (js ++ op::ks') ++ [e.1] by simp, Machine.final_append,
      Machine.final_append] at hafter
    by_cases hsame : e.1.token = op.token
    · obtain ⟨hanswer',hlook'⟩ := step_outcome
        (Machine.final step (step (Machine.final step {} js) op).1 ks') e.1
      have hspent := outcome_kept (((hlook' op.token).trans (if_pos hsame.symm)).symm.trans hafter)
      rw [← hanswer', ← hout, hsame] at hspent
      exact hspent
    · simp [spends, hsame]

end ApprovalStore

open ApprovalStore

/-- A binding is yielded to its exact target before its expiry, since its issue
not spent before; no token is yielded more often than issued; a call touches no
other token's later answers, and a mismatch or an unknown token touches none. -/
theorem approvals_single_use_and_exact (ops : List ApprovalOp) :
    (∀ pre op b post, Machine.trace step {} ops = pre ++ (op,.bound b)::post →
      ∃ token expected now, op = .consume token expected now ∧ b.target = expected ∧
        now < b.expiresAt ∧
        ∃ before issuedAt mid, pre = before ++ (.issue token b issuedAt,.issued token b)::mid ∧
          ∀ e ∈ mid, spends token e = false) ∧
    (∀ token, (Machine.trace step {} ops).countP (yields token) ≤
      (Machine.trace step {} ops).countP (issues token)) ∧
    (∀ token expected now later,
      (Machine.trace step
          (step (Machine.final step {} ops) (.consume token expected now)).1 later).filter
            (fun e => decide (e.1.token ≠ token)) =
        (Machine.trace step (Machine.final step {} ops) later).filter
          (fun e => decide (e.1.token ≠ token)) ∧
      (((Machine.final step {} ops).lookup token = none ∨
        ∃ b, (Machine.final step {} ops).lookup token = some b ∧ now < b.expiresAt ∧
          b.target ≠ expected) →
        step (Machine.final step {} ops) (.consume token expected now) =
          (Machine.final step {} ops,.unmatched))) := by
  refine ⟨?_,?_,?_⟩
  · intro pre op b post hsplit
    obtain ⟨js,ks,rfl,hpre,hout,-⟩ := Machine.trace_split _ _ _ _ pre post hsplit
    have hbound : (outcome ((Machine.final step {} js).lookup op.token) op).2 = .bound b := by
      rw [← (step_outcome _ op).1]
      exact hout.symm
    obtain ⟨hheld,-,token,expected,now,rfl,htarget,htime⟩ := outcome_bound hbound
    refine ⟨token,expected,now,rfl,htarget,htime,?_⟩
    rw [hpre]
    exact pending_since hheld
  · intro token
    simpa [lookup] using yields_le_issues token {} ops
  · intro token expected now later
    constructor
    · apply Machine.trace_elsewhere step_local token
      intro other hother
      exact step_local.frame _ (.consume token expected now) other hother
    · rintro (hnone | ⟨b,hheld,htime,htarget⟩)
      · unfold lookup at hnone
        simp only [step, consumeIfMatches, hnone]
      · unfold lookup at hheld
        simp only [step, consumeIfMatches, hheld]
        rw [if_neg (not_le.mpr htime), if_pos htarget]

end SuiteHarness.Execution
