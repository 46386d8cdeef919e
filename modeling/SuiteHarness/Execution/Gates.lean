import SuiteHarness.Execution.Models

/-!
# The gates of the execution runner

The checks of `ExecutionRunner` that run between two awaits. A step sees one
answer of the registry, of the authorization policy and of the clock; different
steps may see different ones, so nothing here assumes that they stay the same.
-/

set_option autoImplicit false

namespace SuiteHarness.Execution

def defaultPolicy : ExecutionPolicy := {}

structure RunnerConfig where
  policy : ExecutionPolicy := defaultPolicy
  hasAuthorizationPolicy : Bool := false
  hasInteractiveApprovals : Bool := false
  hasToolResults : Bool := false
  dumpResume : RunResumeState → Json

inductive PolicyAnswer where
  | answered (authorization : ToolAuthorization)
  | raised
  | other
  deriving DecidableEq

structure Ambient where
  tools : String → Option RegisteredTool
  evaluate : ToolIdentity → ToolSpec → Json → PolicyAnswer
  now : ℤ
  later : ℤ
  expired : Bool

def jsonBytes (v : Json) : Option ℕ := (canonicalJson v).map utf8Length

def runCredentialKeys : List String :=
  ["result_id","result_reference","approval_token","approval_binding","approval_credential"]

mutual

def containsRunCredentials : Json → Bool
  | .obj fields => fieldsContainRunCredentials fields
  | .arr items => itemsContainRunCredentials items
  | _ => false

def itemsContainRunCredentials : List Json → Bool
  | [] => false
  | x::xs => containsRunCredentials x || itemsContainRunCredentials xs

def fieldsContainRunCredentials : List (String × Json) → Bool
  | [] => false
  | (k,x)::xs => runCredentialKeys.contains k || containsRunCredentials x ||
      fieldsContainRunCredentials xs

end

def resumableTools (name : String) : Option (String × Finset ToolEffect) :=
  if ["suiteharness.fs.list","suiteharness.fs.read","suiteharness.fs.glob",
      "suiteharness.fs.grep"].contains name then some ("fs",{.read})
  else if ["suiteharness.web.search","suiteharness.web.fetch"].contains name then
    some ("web",{.read,.external})
  else none

def trustedRegistration (name : String) (registered : RegisteredTool) : Bool :=
  match resumableTools name with
  | none => false
  | some (family,effects) => decide (registered.registrationScope = .root) &&
      decide (registered.identity =
        ⟨"suiteharness",name,"suiteharness.builtin." ++ family,"1"⟩) &&
      decide (registered.spec.effects = effects)

variable (tools : String → Option RegisteredTool) (policy : ExecutionPolicy) (cfg : RunnerConfig)
  (request : RunRequest)

def safeRegistration (name : String) : Bool :=
  (tools name).any (trustedRegistration name)

def safeObservation (observation : ToolObservation) : Bool :=
  decide (observation.status = .succeeded) && safeRegistration tools observation.toolName &&
    (tools observation.toolName).any (fun registered =>
      decide (observation.toolIdentity = some registered.identity) &&
      !containsRunCredentials observation.result &&
      !observation.arguments.any containsRunCredentials)

inductive GrantAnswer where
  | raised
  | missing
  | found (grant : CapabilityGrant)
  deriving DecidableEq

def checkGrant (now : ℤ) :
    GrantAnswer → Except RunFailure CapabilityGrant
  | .raised => .error { code := .internalError, message := "capability authority failed" }
  | .missing => .error
      { code := .grantNotFound, message := "capability grant was not found or was revoked" }
  | .found grant =>
    if grant.tenantId ≠ request.scope.tenantId.val ∨
        grant.productId ≠ request.scope.productId.val ∨
        grant.principalId.any (fun p => decide (p ≠ request.scope.principalId.val)) = true then
      .error { code := .grantScopeMismatch, message :=
        "capability grant does not match the authenticated request scope" }
    else if grant.expiresAt ≤ now then
      .error { code := .grantExpired, message := "capability grant has expired" }
    else .ok grant

def visibleTool (grant : CapabilityGrant) (tools : String → Option RegisteredTool) (name : String) :
    Option ToolSpec :=
  match tools name with
  | none => none
  | some item =>
    if item.identity ∉ grant.toolIdentities then none
    else if ¬ item.spec.requiredCapabilities ⊆ grant.capabilities then none
    else if request.readOnly = true ∧ item.spec.isRead = false then none
    else if request.resume.isSome = true ∧ safeRegistration tools name = false then none
    else some item.spec

def visibleTools (grant : CapabilityGrant) (tools : String → Option RegisteredTool) : List ToolSpec :=
  ((grant.toolIdentities.image (fun identity => identity.name)).sort (· ≤ ·)).filterMap
    (visibleTool request grant tools)

def budgetPolicyFailure : Option RunFailure :=
  let violations :=
    (if policy.maxIterations < request.budget.maxIterations then ["max_iterations"] else []) ++
    (if policy.maxToolCalls < request.budget.maxToolCalls then ["max_tool_calls"] else []) ++
    (if policy.maxParallelCalls < request.budget.maxParallelCalls then ["max_parallel_calls"]
      else []) ++
    (if policy.maxTimeoutSeconds < request.budget.timeoutSeconds then ["timeout_seconds"] else [])
  if violations = [] then none
  else some { code := .budgetPolicyExceeded, message :=
    "requested execution budget exceeds root policy ceiling: " ++
      String.intercalate ", " violations }

def authorizationOf (answer : PolicyAnswer) : ToolAuthorization :=
  if cfg.hasAuthorizationPolicy then
    match answer with
    | .answered authorization => authorization
    | _ => .deny
  else .default

def approvalNeeded (authorization : ToolAuthorization) (spec : ToolSpec) : Bool :=
  decide (ToolEffect.destructive ∈ spec.effects) || decide (authorization = .requireApproval) ||
    (decide (authorization = .default) && cfg.policy.requiresApproval spec)

def approvalTarget (intent : ToolIntent) (registered : RegisteredTool) : ApprovalTarget :=
  ⟨request.scope.path,request.scope.principalId.val,request.runId.val,intent.callId,
    registered.identity,digest intent.arguments⟩

def approvalMatches (expected : ApprovalTarget) (binding : ApprovalBinding) (now : ℤ) : Bool :=
  decide (binding.target = expected) && decide (binding.issuedAt ≤ now) &&
    decide (now < binding.expiresAt) && binding.singleUse

def checkpointLimit : ℕ :=
  min (min (256*1024) policy.maxWorkflowStateBytes) policy.maxToolResultBytes

def webResumeTtl : ℤ := 300*1000000

def reusableObservation (amb : Ambient) (grant : CapabilityGrant) (observation : ToolObservation) : Bool :=
  safeObservation amb.tools observation &&
  (decide (observation.toolName ∉ ["suiteharness.web.search","suiteharness.web.fetch"]) ||
    (decide (0 ≤ amb.now-observation.finishedAt) &&
      decide (amb.now-observation.finishedAt < webResumeTtl))) &&
  (amb.tools observation.toolName).any (fun registered =>
    decide (registered.identity ∈ grant.toolIdentities) &&
    decide (registered.spec.requiredCapabilities ⊆ grant.capabilities) &&
    observation.arguments.all (fun arguments =>
      (jsonBytes arguments).any (fun n => decide (n ≤ cfg.policy.maxToolArgumentBytes)) &&
      decide (registered.validate arguments = .passed)) &&
    (if cfg.hasAuthorizationPolicy then
      observation.arguments.any (fun arguments =>
        match amb.evaluate registered.identity registered.spec arguments with
        | .answered .allow => true
        | .answered .default => !cfg.policy.requiresApproval registered.spec
        | _ => false)
    else !cfg.policy.requiresApproval registered.spec))

def validResume (amb : Ambient) (grant : CapabilityGrant) (resume : RunResumeState) : Bool :=
  request.readOnly && decide (request.runId.val ≠ resume.sourceRunId) &&
  decide (resume.iterationsUsed < request.budget.maxIterations) &&
  decide (resume.toolCallsUsed ≤ request.budget.maxToolCalls) &&
  (jsonBytes (cfg.dumpResume resume)).any (fun n => decide (n ≤ checkpointLimit cfg.policy)) &&
  !containsRunCredentials resume.workflowState &&
  decide (resume.toolCallsUsed = resume.observations.length) &&
  decide resume.callIds.Nodup &&
  decide (resume.callIds.toFinset = (resume.observations.map (fun o => o.callId)).toFinset) &&
  decide (resume.callIds.length = resume.observations.length) &&
  (resume.observations.isEmpty ||
    (decide (resume.iterationsUsed ≠ 0) && decide (resume.workflowState ≠ .null))) &&
  resume.observations.all (reusableObservation cfg amb grant)

def RunResumeState.valid (resume : RunResumeState) : Bool :=
  isIdentifier resume.sourceRunId && !resume.workflowState.nonFinite &&
  decide (resume.observations.length ≤ 1024) && decide (resume.iterationsUsed ≤ 10000) &&
  decide (resume.toolCallsUsed ≤ 100000) && decide (resume.callIds.length ≤ 1024) &&
  decide (1 ≤ resume.routeKey.length) && decide (resume.routeKey.length ≤ 4096)

def promptPayload (prompt : Option PromptEnvelope) : Json :=
  let rendered : Json := match prompt with
    | none => .null
    | some p => .obj [
        ("messages",.arr (p.messages.map (fun m =>
          .obj [("role",.str m.1),("content",.str m.2)]))),
        ("metadata",.obj (p.metadata.filter (fun f => decide (f.1 ≠ "run_id"))))]
  let scope := request.scope
  let agentField (f : Identifier × Identifier → Identifier) : Json := match scope.agent with
    | none => .null
    | some ids => .str (f ids).val
  .obj [("prompt",rendered),("input",request.input),("conversation",request.conversation),
    ("identity",.obj [
      ("tenant_id",.str scope.tenantId.val),("product_id",.str scope.productId.val),
      ("agent_id",agentField Prod.fst),("session_id",agentField Prod.snd),
      ("principal_id",.str scope.principalId.val),
      ("session_owner_id",.str scope.effectiveSessionOwnerId),
      ("channel_id",.str scope.channelId),
      ("roles",.arr ((scope.roles.insertionSort (· ≤ ·)).map .str))])]

def promptDigest (prompt : Option PromptEnvelope) : Option Digest :=
  if (promptPayload request prompt).nonFinite then none
  else some (digest (promptPayload request prompt))

end SuiteHarness.Execution
