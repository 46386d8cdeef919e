import SuiteHarness.Execution.Moves
import SuiteHarness.Library.History

/-!
# The evidence behind a tool call

Each phase of a call is backed by events of the run's log. A step of the call
adds the events that its next phase asks for, and no later step takes one away,
so all of them stand before an invocation. The inversions of the call's step
say which answers lead on and which end the call.
-/

set_option autoImplicit false

namespace SuiteHarness.Execution

open Library.History

variable (l : Launch) (log : List Event)

def Audited (type : AuditEventType) (intent : ToolIntent) : Prop :=
  ∃ event : AuditEvent, .audit event ∈ log ∧ event.type = type ∧
    event.callId = some intent.callId ∧ event.toolName = some intent.toolName

def Granted (request : RunRequest) (log : List Event) (tag : CallTag) (reg : RegisteredTool) :
    Prop :=
  ∃ grant now, .grantResolved tag grant now ∈ log ∧
    grant.tenantId = request.scope.tenantId.val ∧ grant.productId = request.scope.productId.val ∧
    (∀ principal, grant.principalId = some principal → principal = request.scope.principalId.val) ∧
    now < grant.expiresAt ∧ reg.identity ∈ grant.toolIdentities ∧
    reg.spec.requiredCapabilities ⊆ grant.capabilities

def PolicySaid (cfg : RunnerConfig) (log : List Event) (tag : CallTag)
    (authorization : ToolAuthorization) : Prop :=
  if cfg.hasAuthorizationPolicy then .policyAnswered tag (.answered authorization) ∈ log
  else authorization = .default

def Approved (request : RunRequest) (log : List Event) (tag : CallTag) (intent : ToolIntent)
    (reg : RegisteredTool) : Prop :=
  ∃ binding now, .approvalObtained tag binding now ∈ log ∧
    binding.target = approvalTarget request intent reg ∧ binding.issuedAt ≤ now ∧
    now < binding.expiresAt ∧ binding.singleUse = true

structure Cleared (l : Launch) (log : List Event) (tag : CallTag) (intent : ToolIntent)
    (reg : RegisteredTool) (needed : Bool) : Prop where
  audited : Audited log .toolIntent intent
  lookedUp : .lookedUp tag intent.toolName (some reg) ∈ log
  granted : Granted l.request log tag reg
  readOnly : l.request.readOnly = true → reg.spec.isRead = true
  rechecked : l.request.resume.isSome = true →
    ∃ again, .rechecked tag intent.toolName (some again) ∈ log ∧
      trustedRegistration intent.toolName again = true
  validated : reg.validate intent.arguments = .passed
  policy : ∃ authorization, PolicySaid l.cfg log tag authorization ∧ authorization ≠ .deny ∧
    needed = approvalNeeded l.cfg authorization reg.spec

structure Backed (l : Launch) (log : List Event) (tag : CallTag) (intent : ToolIntent)
    (reg : RegisteredTool) (needed : Bool) : Prop where
  cleared : Cleared l log tag intent reg needed
  approved : needed = true → Approved l.request log tag intent reg

def Task.backed (tag : CallTag) (t : Task) : Prop :=
  match t.phase with
  | .granting _ registered => t.duplicate = false ∧ Audited log .toolIntent t.intent ∧
      .lookedUp tag t.intent.toolName registered ∈ log
  | .approving _ reg _ => t.duplicate = false ∧ Cleared l log tag t.intent reg true
  | .starting _ reg _ _ => t.duplicate = false ∧ ∃ needed, Backed l log tag t.intent reg needed
  | .announcing _ reg _ => t.duplicate = false ∧ (∃ needed, Backed l log tag t.intent reg needed) ∧
      Audited log .toolStarted t.intent
  | _ => True

variable {amb : Ambient} {tag : CallTag} {intent : ToolIntent} {reg : RegisteredTool}
  {request : RunRequest} {grant : CapabilityGrant} {reply : TaskAnswer} {r : TaskStep}

section Growth

variable {l : Launch} {log log' : List Event} {needed : Bool}

theorem Audited.grow {type : AuditEventType} (h : Audited log type intent) (hs : log ⊆ log') :
    Audited log' type intent := by
  obtain ⟨event,he,hrest⟩ := h
  exact ⟨event,hs he,hrest⟩

theorem Granted.grow {request : RunRequest} (h : Granted request log tag reg) (hs : log ⊆ log') :
    Granted request log' tag reg := by
  obtain ⟨grant,now,he,hrest⟩ := h
  exact ⟨grant,now,hs he,hrest⟩

theorem PolicySaid.grow {cfg : RunnerConfig} {authorization : ToolAuthorization}
    (h : PolicySaid cfg log tag authorization) (hs : log ⊆ log') :
    PolicySaid cfg log' tag authorization := by
  unfold PolicySaid at h ⊢
  split_ifs at h ⊢
  · exact hs h
  · exact h

theorem Approved.grow {request : RunRequest} (h : Approved request log tag intent reg)
    (hs : log ⊆ log') : Approved request log' tag intent reg := by
  obtain ⟨binding,now,he,hrest⟩ := h
  exact ⟨binding,now,hs he,hrest⟩

theorem Cleared.grow (h : Cleared l log tag intent reg needed) (hs : log ⊆ log') :
    Cleared l log' tag intent reg needed := by
  refine ⟨h.audited.grow hs,hs h.lookedUp,h.granted.grow hs,h.readOnly,?_,h.validated,?_⟩
  · intro hr
    obtain ⟨again,he,ht⟩ := h.rechecked hr
    exact ⟨again,hs he,ht⟩
  · obtain ⟨authorization,hp,hrest⟩ := h.policy
    exact ⟨authorization,hp.grow hs,hrest⟩

theorem Backed.grow (h : Backed l log tag intent reg needed) (hs : log ⊆ log') :
    Backed l log' tag intent reg needed :=
  ⟨h.cleared.grow hs,fun hn => (h.approved hn).grow hs⟩

theorem Task.backed_grow {t : Task} (h : t.backed l log tag) (hs : log ⊆ log') :
    t.backed l log' tag := by
  unfold Task.backed at h ⊢
  split at h
  · exact ⟨h.1,h.2.1.grow hs,hs h.2.2⟩
  · exact ⟨h.1,h.2.grow hs⟩
  · obtain ⟨hd,needed,hb⟩ := h
    exact ⟨hd,needed,hb.grow hs⟩
  · obtain ⟨hd,⟨needed,hb⟩,ha⟩ := h
    exact ⟨hd,⟨needed,hb.grow hs⟩,ha.grow hs⟩
  · trivial

end Growth

variable {e : Event}

/-- A grant that passed `_grant`. -/
theorem check_grant_ok {now : ℤ} {found : GrantAnswer}
    (h : checkGrant request now found = .ok grant) :
    found = .found grant ∧ grant.tenantId = request.scope.tenantId.val ∧
    grant.productId = request.scope.productId.val ∧
    (∀ principal, grant.principalId = some principal → principal = request.scope.principalId.val) ∧
    now < grant.expiresAt := by
  cases found with
  | raised => simp [checkGrant] at h
  | missing => simp [checkGrant] at h
  | found g =>
    simp only [checkGrant] at h
    split_ifs at h with hscope hexpired
    cases h
    push Not at hscope
    refine ⟨rfl,hscope.1,hscope.2.1,?_,by omega⟩
    intro principal hp
    have := hscope.2.2
    simpa [hp] using this

theorem safe_registration_some {tools : String → Option RegisteredTool} {name : String}
    (h : safeRegistration tools name = true) :
    ∃ reg, tools name = some reg ∧ trustedRegistration name reg = true := by
  unfold safeRegistration at h
  cases ht : tools name with
  | none => simp [ht] at h
  | some reg => exact ⟨reg,rfl,by simpa [ht] using h⟩

variable {registered : Option RegisteredTool}

/-- An intent that passed every gate between its grant and its approval. -/
theorem admission_ok {cfg : RunnerConfig} {reg : RegisteredTool} {needed : Bool}
    (h : admission cfg request amb intent registered grant = .ok (reg,needed)) :
    registered = some reg ∧ reg.identity ∈ grant.toolIdentities ∧
    reg.spec.requiredCapabilities ⊆ grant.capabilities ∧
    (request.readOnly = true → reg.spec.isRead = true) ∧
    (request.resume.isSome = true → safeRegistration amb.tools intent.toolName = true) ∧
    reg.validate intent.arguments = .passed ∧
    authorizationOf cfg (amb.evaluate reg.identity reg.spec intent.arguments) ≠ .deny ∧
    needed = approvalNeeded cfg
      (authorizationOf cfg (amb.evaluate reg.identity reg.spec intent.arguments)) reg.spec := by
  cases registered with
  | none => simp [admission] at h
  | some found =>
    simp only [admission, checkedCall] at h
    cases hv : found.validate intent.arguments with
    | invalid | raised =>
      simp only [hv] at h
      split_ifs at h
    | passed =>
      simp only [hv] at h
      split_ifs at h with h1 h2 h3 h4 h5 h6
      cases h
      refine ⟨rfl,h1,h2,?_,?_,hv,h5,rfl⟩
      · intro hr
        simpa [hr] using h3
      · intro hr
        simpa [hr] using h4

def TaskPhase.spent : TaskPhase → Bool
  | .waiting | .granting _ _ | .approving _ _ _ | .starting _ _ _ _ | .announcing _ _ _ => false
  | _ => true

theorem Task.backed_spent (tag : CallTag) {t : Task} (h : t.phase.spent = true) :
    t.backed l log tag := by
  unfold Task.backed
  cases hp : t.phase <;> simp_all [TaskPhase.spent]

theorem emit_then_cases (event : AuditEvent) (ok : Bool) (next : Option TaskPhase)
    (before : List Event) :
    emitThen event ok next before = ⟨next,before ++ [.audit event]⟩ ∨
    emitThen event ok next before = ⟨none,before⟩ := by
  unfold emitThen
  split_ifs
  · exact .inl rfl
  · exact .inr rfl

section Steps

variable {cfg : RunnerConfig} {duplicate : Bool} {phase : TaskPhase}

def TaskStep.Spends (r : TaskStep) : Prop :=
  (∀ next, r.next = some next → next.spent = true) ∧ ∀ e ∈ r.events, e.plain = true

theorem emit_then_spends (event : AuditEvent) (ok : Bool) {next : Option TaskPhase}
    (htype : event.type ≠ .runFinished) (h : ∀ p, next = some p → p.spent = true) :
    (emitThen event ok next).Spends := by
  rcases emit_then_cases event ok next [] with he | he
  · rw [he]
    exact ⟨h,by simp [Event.plain, htype]⟩
  · rw [he]
    exact ⟨by simp,by simp⟩

theorem failed_spent (intent : ToolIntent) (i : ℕ) (status : ToolCallStatus) (code : FailureCode)
    (message : String) (a b : ℤ) (next : TaskPhase)
    (h : (failedObservation intent i status code message a b).map TaskPhase.observed = some next) :
    next.spent = true := by
  obtain ⟨o,-,rfl⟩ := Option.map_eq_some_iff.mp h
  rfl

theorem after_result_spent (cfg : RunnerConfig) (amb : Ambient) (intent : ToolIntent) (a : ℤ)
    (reg : RegisteredTool) (grant : CapabilityGrant) (value : Json) :
    (afterResult cfg amb intent a reg grant value).spent = true := by
  unfold afterResult
  split
  · rfl
  · split_ifs <;> rfl

theorem spent_step (hp : phase.spent = true)
    (h : taskStep cfg request amb tag intent duplicate phase reply = some r) : r.Spends := by
  cases phase <;> simp only [TaskPhase.spent, reduceCtorEq] at hp <;> cases reply <;>
    simp only [taskStep, reduceCtorEq] at h
  case running.handled startedAt reg grant answer =>
    cases h
    refine ⟨?_,by simp⟩
    intro next hn
    cases hn
    cases answer with
    | returned value => exact after_result_spent _ _ _ _ _ _ _
    | nonJson => rfl
    | denied => rfl
    | raised => rfl
  case storing.stored startedAt reg value reference =>
    cases h
    refine ⟨?_,by simp⟩
    intro next hn
    cases hn
    cases reference <;> rfl
  case finishing.appended startedAt reg result ok =>
    cases h
    refine emit_then_spends _ _ nofun ?_
    intro next hn
    by_cases hlate : amb.now < startedAt
    · rw [if_pos hlate] at hn
      cases hn
    · rw [if_neg hlate] at hn
      cases hn
      rfl
  case denying.appended startedAt code message identity ok =>
    cases h
    exact emit_then_spends _ _ nofun (failed_spent _ _ _ _ _ _ _)
  case failing.appended startedAt code message identity ok =>
    cases h
    exact emit_then_spends _ _ nofun (failed_spent _ _ _ _ _ _ _)
  case observed.published observation ok =>
    split_ifs at h
    · cases h
      refine ⟨?_,by simp [Event.plain]⟩
      intro next hn
      cases hn
      rfl
    · cases h
      exact ⟨by simp,by simp⟩

theorem waiting_step (h : taskStep cfg request amb tag intent duplicate .waiting reply = some r) :
    (∀ e ∈ r.events, e.plain = true ∨ e = .lookedUp tag intent.toolName (amb.tools intent.toolName)) ∧
    ∀ next, r.next = some next → next.spent = true ∨
      (duplicate = false ∧ next = .granting amb.now (amb.tools intent.toolName) ∧
        Audited r.events .toolIntent intent ∧
        .lookedUp tag intent.toolName (amb.tools intent.toolName) ∈ r.events) := by
  cases reply <;> simp only [taskStep, reduceCtorEq] at h
  rename_i ok
  split at h
  · cases h
    exact ⟨by simp,by simp⟩
  · rename_i n hn
    cases h
    rcases emit_then_cases _ ok _ [.lookedUp tag intent.toolName (amb.tools intent.toolName)] with he | he
    · rw [he]
      refine ⟨by simp [Event.plain, callEvent],?_⟩
      intro next hnext
      split_ifs at hnext with hsize hdup
      · cases hnext
        exact .inl rfl
      · cases hnext
        exact .inl rfl
      · cases hnext
        refine .inr ⟨by simpa using hdup,rfl,⟨_,List.mem_append_right _ List.mem_cons_self,rfl,rfl,rfl⟩,
          by simp⟩
    · rw [he]
      exact ⟨by simp,by simp⟩

variable {startedAt : ℤ}

theorem granting_step (h : taskStep cfg request
    amb tag intent duplicate (.granting startedAt registered) reply = some r) :
    (r.events = [] ∧ ∀ next, r.next = some next → next.spent = true) ∨
    ∃ grant found reg needed, reply = .granted found ∧
      checkGrant request amb.now found = .ok grant ∧
      admission cfg request amb intent registered grant = .ok (reg,needed) ∧
      r = ⟨some (if needed then .approving startedAt reg grant
          else .starting startedAt reg grant none),
        [.grantResolved tag grant amb.now] ++
        (if request.resume.isSome then
          [.rechecked tag intent.toolName (amb.tools intent.toolName)] else []) ++
        (if cfg.hasAuthorizationPolicy then [.policyAnswered tag
          (amb.evaluate reg.identity reg.spec intent.arguments)] else [])⟩ := by
  cases reply <;> simp only [taskStep, reduceCtorEq] at h
  rename_i found
  split at h
  · cases h
    refine .inl ⟨rfl,fun next hn => ?_⟩
    cases hn
    rfl
  · rename_i grant hg
    split at h
    · cases h
      refine .inl ⟨rfl,fun next hn => ?_⟩
      cases hn
      rfl
    · cases h
      exact .inl ⟨rfl,by simp⟩
    · rename_i reg needed ha
      cases h
      exact .inr ⟨grant,found,reg,needed,rfl,hg,ha,rfl⟩

theorem approving_step
    (h : taskStep cfg request amb tag intent duplicate (.approving startedAt reg grant) reply =
      some r) :
    (r.events = [] ∧ ∀ next, r.next = some next → next.spent = true) ∨
    ∃ binding, approvalMatches (approvalTarget request intent reg) binding amb.now = true ∧
      r = ⟨some (.starting startedAt reg grant (some binding.approvedBy)),
        [.approvalObtained tag binding amb.now]⟩ := by
  cases reply <;> simp only [taskStep, reduceCtorEq] at h
  rename_i answer
  split at h
  · cases h
    refine .inl ⟨rfl,fun next hn => ?_⟩
    cases hn
    rfl
  · rename_i binding hb
    cases h
    exact .inr ⟨binding,(Option.filter_eq_some_iff.mp hb).2,rfl⟩

theorem starting_step {approvedBy : Option String}
    (h : taskStep cfg request amb tag intent duplicate
      (.starting startedAt reg grant approvedBy) reply = some r) :
    (∀ e ∈ r.events, e.plain = true) ∧ ∀ next, r.next = some next →
      next = .announcing startedAt reg grant ∧ Audited r.events .toolStarted intent := by
  cases reply <;> simp only [taskStep, reduceCtorEq] at h
  rename_i ok
  cases h
  rcases emit_then_cases _ ok (some (.announcing startedAt reg grant)) [] with he | he
  · rw [he]
    refine ⟨by simp [Event.plain, callEvent],?_⟩
    intro next hn
    cases hn
    exact ⟨rfl,_,List.mem_append_right _ List.mem_cons_self,rfl,rfl,rfl⟩
  · rw [he]
    exact ⟨by simp,by simp⟩

theorem announcing_step
    (h : taskStep cfg request amb tag intent duplicate (.announcing startedAt reg grant) reply =
      some r) :
    (r = ⟨none,[]⟩) ∨ ∃ announced : Event, announced.plain = true ∧
      r = ⟨some (.running startedAt reg grant),[announced,.invoked tag intent reg]⟩ := by
  cases reply <;> simp only [taskStep, reduceCtorEq] at h
  split_ifs at h
  · cases h
    exact .inr ⟨_,rfl,rfl⟩
  · cases h
    exact .inl rfl

end Steps

def Event.ofCall : Event → Bool
  | .checkpoint _ | .iterationStarted _ | .presented _ _ _ _ | .admitted _ _ _ => false
  | _ => true

theorem told_of_call (h : e.told = true) : e.ofCall = true := by
  cases e <;> simp_all [Event.told, Event.ofCall]

theorem plain_of_call (h : e.plain = true) : e.ofCall = true :=
  told_of_call (plain_told h)

inductive CallEvent (amb : Ambient) (tag : CallTag) (intent : ToolIntent) : Event → Prop where
  | plain {e : Event} (h : e.plain = true) : CallEvent amb tag intent e
  | lookedUp :
      CallEvent amb tag intent (.lookedUp tag intent.toolName (amb.tools intent.toolName))
  | granted (grant : CapabilityGrant) : CallEvent amb tag intent (.grantResolved tag grant amb.now)
  | rechecked :
      CallEvent amb tag intent (.rechecked tag intent.toolName (amb.tools intent.toolName))
  | policy (answer : PolicyAnswer) : CallEvent amb tag intent (.policyAnswered tag answer)
  | approved (binding : ApprovalBinding) :
      CallEvent amb tag intent (.approvalObtained tag binding amb.now)
  | invoked (reg : RegisteredTool) : CallEvent amb tag intent (.invoked tag intent reg)

theorem task_step_events {cfg : RunnerConfig} {tag : CallTag} {duplicate : Bool}
    {phase : TaskPhase} {reply : TaskAnswer} {r : TaskStep}
    (h : taskStep cfg request amb tag intent duplicate phase reply = some r) :
    ∀ e ∈ r.events, CallEvent amb tag intent e := by
  intro e he
  cases phase with
  | waiting =>
    rcases (waiting_step h).1 e he with hplain | rfl
    · exact .plain hplain
    · exact .lookedUp
  | granting startedAt registered =>
    rcases granting_step h with ⟨hnone,-⟩ | ⟨grant,found,reg,needed,-,-,-,rfl⟩
    · simp [hnone] at he
    · simp only [List.mem_append, List.mem_singleton] at he
      rcases he with (rfl | he) | he
      · exact .granted grant
      · split_ifs at he
        · rw [List.mem_singleton.mp he]
          exact .rechecked
        · cases he
      · split_ifs at he
        · rw [List.mem_singleton.mp he]
          exact .policy _
        · cases he
  | approving startedAt reg grant =>
    rcases approving_step h with ⟨hnone,-⟩ | ⟨binding,-,rfl⟩
    · simp [hnone] at he
    · rw [List.mem_singleton.mp he]
      exact .approved binding
  | starting startedAt reg grant approvedBy => exact .plain ((starting_step h).1 e he)
  | announcing startedAt reg grant =>
    rcases announcing_step h with rfl | ⟨announced,hplain,rfl⟩
    · cases he
    · rcases List.mem_cons.mp he with rfl | he
      · exact .plain hplain
      · rw [List.mem_singleton.mp he]
        exact .invoked reg
  | running | storing | finishing | denying | failing | observed | done | dead =>
    exact .plain ((spent_step rfl h).2 e he)

theorem CallEvent.of_call {tag : CallTag} (h : CallEvent amb tag intent e) : e.ofCall = true := by
  cases h with
  | plain h => exact plain_of_call h
  | lookedUp | granted | rechecked | policy | approved | invoked => rfl

def InvocationBacked : Event → Prop
  | .invoked tag intent reg => (∃ needed, Backed l log tag intent reg needed) ∧
      Audited log .toolStarted intent
  | _ => True

theorem told_backed (h : e.told = true) : InvocationBacked l log e := by
  cases e <;> simp_all [InvocationBacked, Event.told]

theorem plain_backed (h : e.plain = true) :
    InvocationBacked l log e := told_backed l log (plain_told h)

section Tasks

variable {l : Launch} {log : List Event} {t : Task}

theorem policy_said {cfg : RunnerConfig} {tag : CallTag} {log : List Event} {answer : PolicyAnswer}
    (hdeny : authorizationOf cfg answer ≠ .deny)
    (h : cfg.hasAuthorizationPolicy = true → .policyAnswered tag answer ∈ log) :
    PolicySaid cfg log tag (authorizationOf cfg answer) := by
  unfold PolicySaid authorizationOf at *
  split_ifs with hp
  · rw [if_pos hp] at hdeny
    have hmem := h hp
    cases answer with
    | answered authorization => exact hmem
    | raised => exact absurd rfl hdeny
    | other => exact absurd rfl hdeny
  · rfl

theorem cleared_of_gates {found : GrantAnswer} {reg : RegisteredTool}
    {needed : Bool} {events : List Event} (hg : checkGrant l.request amb.now found = .ok grant)
    (ha : admission l.cfg l.request amb t.intent registered grant = .ok (reg,needed))
    (haudit : Audited log .toolIntent t.intent)
    (hlook : .lookedUp tag t.intent.toolName registered ∈ log)
    (hevents : events = [.grantResolved tag grant amb.now] ++
      (if l.request.resume.isSome then
        [.rechecked tag t.intent.toolName (amb.tools t.intent.toolName)] else []) ++
      (if l.cfg.hasAuthorizationPolicy then [.policyAnswered tag
        (amb.evaluate reg.identity reg.spec t.intent.arguments)] else [])) :
    Cleared l (log ++ events) tag t.intent reg needed := by
  obtain ⟨-,htenant,hproduct,hprincipal,hlive⟩ := check_grant_ok hg
  obtain ⟨rfl,hid,hcap,hread,hsafe,hvalid,hdeny,hneeded⟩ := admission_ok ha
  have hgrow : log ⊆ log ++ events := List.subset_append_left _ _
  refine ⟨haudit.grow hgrow,hgrow hlook,?_,hread,?_,hvalid,_,policy_said hdeny ?_,hdeny,
    hneeded⟩
  · exact ⟨grant,amb.now,by simp [hevents],htenant,hproduct,hprincipal,hlive,hid,hcap⟩
  · intro hr
    obtain ⟨again,htools,htrusted⟩ := safe_registration_some (hsafe hr)
    exact ⟨again,by simp [hevents, hr, htools],htrusted⟩
  · intro hp
    simp [hevents, hp]

theorem backed_spends (hs : r.Spends) :
    ({ t with phase := r.next.getD .dead } : Task).backed l (log ++ r.events) tag ∧
    Throughout (fun pre => InvocationBacked l (log ++ pre)) r.events := by
  refine ⟨Task.backed_spent _ _ _ ?_,fun pre e post he => plain_backed _ _ (hs.2 e (by simp [he]))⟩
  cases hn : r.next with
  | none => rfl
  | some next => exact hs.1 next hn

/-- A step keeps the backing of its task and backs an invocation it makes. -/
theorem task_step_backed (hb : t.backed l log tag)
    (h : taskStep l.cfg l.request amb tag t.intent t.duplicate t.phase reply = some r) :
    ({ t with phase := r.next.getD .dead } : Task).backed l (log ++ r.events) tag ∧
    Throughout (fun pre => InvocationBacked l (log ++ pre)) r.events := by
  have hgrow : log ⊆ log ++ r.events := List.subset_append_left _ _
  have hgrow' : r.events ⊆ log ++ r.events := List.subset_append_right _ _
  cases hp : t.phase with
  | waiting =>
    rw [hp] at h
    obtain ⟨hplain,hnext⟩ := waiting_step h
    constructor
    · cases hn : r.next with
      | none => exact Task.backed_spent _ _ _ rfl
      | some next =>
        rcases hnext next hn with hspent | ⟨hdup,rfl,haudit,hlook⟩
        · exact Task.backed_spent _ _ _ hspent
        · exact ⟨hdup,haudit.grow hgrow',hgrow' hlook⟩
    · intro pre e post he
      rcases hplain e (by simp [he]) with hplain | rfl
      · exact plain_backed _ _ hplain
      · trivial
  | granting startedAt registered =>
    rw [hp] at h
    simp only [Task.backed, hp] at hb
    rcases granting_step h with ⟨hnone,hnext⟩ | ⟨grant,found,reg,needed,-,hg,ha,rfl⟩
    · exact backed_spends ⟨hnext,by simp [hnone]⟩
    · have hcleared := cleared_of_gates hg ha hb.2.1 hb.2.2 rfl
      constructor
      · cases needed with
        | true => exact ⟨hb.1,hcleared⟩
        | false => exact ⟨hb.1,false,hcleared,by simp⟩
      · intro pre e post he
        have hmem : e ∈ [Event.grantResolved tag grant amb.now] ++
            (if l.request.resume.isSome then
              [.rechecked tag t.intent.toolName (amb.tools t.intent.toolName)] else []) ++
            (if l.cfg.hasAuthorizationPolicy then [.policyAnswered tag
              (amb.evaluate reg.identity reg.spec t.intent.arguments)] else []) := by
          rw [show _ ++ _ ++ _ = _ from he]
          simp
        rcases List.mem_append.mp hmem with hmem | hmem
        · rcases List.mem_append.mp hmem with hmem | hmem
          · rw [List.mem_singleton.mp hmem]
            trivial
          · split_ifs at hmem
            · rw [List.mem_singleton.mp hmem]
              trivial
            · cases hmem
        · split_ifs at hmem
          · rw [List.mem_singleton.mp hmem]
            trivial
          · cases hmem
  | approving startedAt reg grant =>
    rw [hp] at h
    simp only [Task.backed, hp] at hb
    rcases approving_step h with ⟨hnone,hnext⟩ | ⟨binding,hmatch,rfl⟩
    · exact backed_spends ⟨hnext,by simp [hnone]⟩
    · simp only [approvalMatches, Bool.and_eq_true, decide_eq_true_eq] at hmatch
      obtain ⟨⟨⟨htarget,hissued⟩,hexpires⟩,hsingle⟩ := hmatch
      constructor
      · refine ⟨hb.1,true,hb.2.grow hgrow,fun _ => ?_⟩
        exact ⟨binding,amb.now,by simp,htarget,hissued,hexpires,hsingle⟩
      · refine throughout_extend (throughout_nil _) ?_
        simp [InvocationBacked]
  | starting startedAt reg grant approvedBy =>
    rw [hp] at h
    simp only [Task.backed, hp] at hb
    obtain ⟨hplain,hnext⟩ := starting_step h
    constructor
    · cases hn : r.next with
      | none => exact Task.backed_spent _ _ _ rfl
      | some next =>
        obtain ⟨rfl,haudit⟩ := hnext next hn
        obtain ⟨hdup,needed,hbacked⟩ := hb
        exact ⟨hdup,⟨needed,hbacked.grow hgrow⟩,haudit.grow hgrow'⟩
    · exact fun pre e post he => plain_backed _ _ (hplain e (by simp [he]))
  | announcing startedAt reg grant =>
    rw [hp] at h
    simp only [Task.backed, hp] at hb
    obtain ⟨-,⟨needed,hbacked⟩,haudit⟩ := hb
    rcases announcing_step h with rfl | ⟨announced,hplain,rfl⟩
    · exact backed_spends ⟨by simp,by simp⟩
    · refine ⟨Task.backed_spent _ _ _ rfl,?_⟩
      change Throughout _ ([announced] ++ [.invoked tag t.intent reg])
      rw [throughout_concat]
      constructor
      · exact throughout_extend (throughout_nil _) (by simpa using fun pre => plain_backed _ _ hplain)
      · exact ⟨⟨needed,hbacked.grow (List.subset_append_left _ _)⟩,
          haudit.grow (List.subset_append_left _ _)⟩
  | running | storing | finishing | denying | failing | observed | done | dead =>
    exact backed_spends (spent_step (by rw [hp]; rfl) h)

end Tasks

structure Warranted (l : Launch) (s : RunState) : Prop where
  log : Throughout (InvocationBacked l) s.log
  tasks : ∀ i overflow tasks abort, s.phase = .batch i overflow tasks abort →
    ∀ (k : ℕ) (t : Task), tasks[k]? = some t → t.backed l s.log ⟨i,k⟩

theorem Warranted.extend {l : Launch} {s s' : RunState} {es : List Event} (h : Warranted l s)
    (hlog : s'.log = s.log ++ es) (hes : ∀ pre, ∀ e ∈ es, InvocationBacked l pre e)
    (hphase : ∀ i overflow tasks abort, s'.phase ≠ .batch i overflow tasks abort) :
    Warranted l s' := by
  constructor
  · rw [hlog]
    exact throughout_extend h.log hes
  · intro i overflow tasks abort hp
    exact absurd hp (hphase i overflow tasks abort)

theorem warranted_move {l : Launch} {answer : Answer} {s s' : RunState}
    {pool pool' : AggregateRunBudget} (h : Warranted l s) (hm : Move l amb answer s pool s' pool') :
    Warranted l s' := by
  cases hm with
  | closed hc _ =>
    obtain ⟨es,hes,hlog⟩ := hc.told
    refine h.extend hlog (fun pre e he => told_backed l pre (hes e he)) ?_
    intro i overflow tasks abort hp
    have hclosing := hc.phase
    simp [hp, Phase.closing] at hclosing
  | opened hp | began => exact h.extend rfl (by simp [InvocationBacked]) (by simp)
  | resumed | started | charged | inherited | framed | planned | idle | gathered =>
      exact h.extend (List.append_nil _).symm (by simp) (by simp)
  | presented => exact h.extend rfl (by simp [InvocationBacked]) (by simp [RunState.present])
  | checkpointed =>
    refine h.extend (List.append_assoc _ _ _) ?_ (by simp [RunState.present])
    simp [InvocationBacked]
  | thought hp hp' hes =>
    refine h.extend rfl (fun pre e he => plain_backed l pre (hes e he)) ?_
    rintro i overflow tasks abort rfl
    exact hp'
  | batched hp hpool hcount =>
    constructor
    · refine throughout_extend h.log fun pre e he => ?_
      obtain ⟨k,hk,rfl⟩ := List.mem_mapIdx.mp he
      trivial
    · rintro i overflow tasks abort ⟨⟩ k t hk
      obtain ⟨f,-,rfl⟩ := List.mem_map.mp (List.mem_of_getElem? hk)
      trivial
  | tasked hp ha hk hr =>
    obtain ⟨hback,hevents⟩ := task_step_backed (h.tasks _ _ _ _ hp _ _ hk) hr
    constructor
    · exact (throughout_append _ _ _).mpr ⟨h.log,hevents⟩
    · rintro i overflow tasks abort ⟨⟩ j t hj
      rcases set_entry hj with ⟨rfl,rfl⟩ | hj
      · exact hback
      · exact Task.backed_grow (h.tasks _ _ _ _ hp _ _ hj) (List.subset_append_left _ _)
  | killed hp hk =>
    refine ⟨h.log,?_⟩
    rintro i overflow tasks abort ⟨⟩ j t hj
    rcases set_entry hj with ⟨rfl,rfl⟩ | hj
    · trivial
    · exact h.tasks _ _ _ _ hp _ _ hj
  | aborted hp =>
    refine ⟨h.log,?_⟩
    rintro i overflow tasks abort ⟨⟩ j t hj
    exact h.tasks _ _ _ _ hp _ _ hj

theorem run_warranted (inputs : List Input) : Warranted l (l.run inputs) := by
  refine l.run_invariant (Warranted l) ⟨throughout_nil _,?_⟩
    (fun _ _ _ _ _ _ hs hm => warranted_move hs hm) inputs
  intro i overflow tasks abort hp
  cases hp

end SuiteHarness.Execution
