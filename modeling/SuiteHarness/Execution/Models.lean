import SuiteHarness.Identifier
import SuiteHarness.Json

/-!
# Execution vocabulary

The records of `execution/models.py` and of the scopes they use. A scope path,
a tool specification, a grant, a budget and a root policy can only be built in
the shapes their constructors accept, so they carry those checks. Times are
integer microseconds. Fields that only strategies or handlers read are left out.
-/

set_option autoImplicit false

namespace SuiteHarness.Execution

inductive ScopePath where
  | root
  | tenant (tenantId : Identifier)
  | product (tenantId productId : Identifier)
  | agent (tenantId productId agentId sessionId : Identifier)
  deriving DecidableEq

structure RequestScope where
  tenantId : Identifier
  productId : Identifier
  agent : Option (Identifier × Identifier) := none
  principalId : Identifier
  channelId : String := "internal"
  roles : List String := []
  sessionOwnerId : Option String := none
  deriving DecidableEq

namespace RequestScope

def path (scope : RequestScope) : ScopePath :=
  match scope.agent with
  | none => .product scope.tenantId scope.productId
  | some (agentId,sessionId) => .agent scope.tenantId scope.productId agentId sessionId

def effectiveSessionOwnerId (scope : RequestScope) : String :=
  match scope.sessionOwnerId with
  | some owner => if owner = "" then scope.principalId.val else owner
  | none => scope.principalId.val

end RequestScope

structure ToolIdentity where
  nameSpace : String
  name : String
  origin : String
  version : String
  deriving DecidableEq

structure CapabilityGrant where
  grantId : String
  tenantId : String
  productId : String
  toolIdentities : Finset ToolIdentity
  capabilities : Finset String
  principalId : Option String
  issuedAt : ℤ
  expiresAt : ℤ
  ids : isIdentifier grantId = true ∧ isIdentifier tenantId = true ∧ isIdentifier productId = true
  principal : principalId.all isIdentifier = true
  names : ∀ c ∈ capabilities, isName c = true
  window : issuedAt < expiresAt
  deriving DecidableEq

inductive ToolEffect where
  | read | write | destructive | external
  deriving DecidableEq

def ToolEffect.value : ToolEffect → String
  | .read => "read"
  | .write => "write"
  | .destructive => "destructive"
  | .external => "external"

structure ToolSpec where
  name : String
  effects : Finset ToolEffect
  requiredCapabilities : Finset String := ∅
  shape : (ToolEffect.read ∈ effects ∨ ToolEffect.write ∈ effects) ∧
    (ToolEffect.destructive ∈ effects → ToolEffect.write ∈ effects) ∧
    ¬ (ToolEffect.read ∈ effects ∧ ToolEffect.write ∈ effects) := by decide
  deriving DecidableEq

def ToolSpec.isRead (spec : ToolSpec) : Bool :=
  decide (ToolEffect.read ∈ spec.effects ∧ ToolEffect.write ∉ spec.effects)

inductive Validation where
  | passed | invalid | raised
  deriving DecidableEq

structure RegisteredTool where
  registrationScope : ScopePath
  identity : ToolIdentity
  spec : ToolSpec
  handler : ℕ
  validate : Json → Validation

inductive ToolAuthorization where
  | default | allow | requireApproval | deny
  deriving DecidableEq

inductive FailureCode where
  | runConflict | grantNotFound | grantScopeMismatch | grantExpired | toolNotGranted | capabilityDenied
  | policyDenied | readOnlyDenied | approvalRequired | approvalInvalid | toolInputInvalid
  | runInputTooLarge | toolArgumentsTooLarge | toolResultTooLarge | finalOutputTooLarge
  | workflowStateTooLarge | duplicateCallId | invalidToolResult | toolError | workflowError
  | promptError | reflectionError | budgetPolicyExceeded | iterationBudgetExceeded
  | toolBudgetExceeded | timedOut | cancelled | internalError
  deriving DecidableEq

def FailureCode.value : FailureCode → String
  | .runConflict => "run_conflict"
  | .grantNotFound => "grant_not_found"
  | .grantScopeMismatch => "grant_scope_mismatch"
  | .grantExpired => "grant_expired"
  | .toolNotGranted => "tool_not_granted"
  | .capabilityDenied => "capability_denied"
  | .policyDenied => "policy_denied"
  | .readOnlyDenied => "read_only_denied"
  | .approvalRequired => "approval_required"
  | .approvalInvalid => "approval_invalid"
  | .toolInputInvalid => "tool_input_invalid"
  | .runInputTooLarge => "run_input_too_large"
  | .toolArgumentsTooLarge => "tool_arguments_too_large"
  | .toolResultTooLarge => "tool_result_too_large"
  | .finalOutputTooLarge => "final_output_too_large"
  | .workflowStateTooLarge => "workflow_state_too_large"
  | .duplicateCallId => "duplicate_call_id"
  | .invalidToolResult => "invalid_tool_result"
  | .toolError => "tool_error"
  | .workflowError => "workflow_error"
  | .promptError => "prompt_error"
  | .reflectionError => "reflection_error"
  | .budgetPolicyExceeded => "budget_policy_exceeded"
  | .iterationBudgetExceeded => "iteration_budget_exceeded"
  | .toolBudgetExceeded => "tool_budget_exceeded"
  | .timedOut => "timed_out"
  | .cancelled => "cancelled"
  | .internalError => "internal_error"

inductive RunStatus where
  | succeeded | failed | budgetExceeded | timedOut | cancelled
  deriving DecidableEq

def RunStatus.value : RunStatus → String
  | .succeeded => "succeeded"
  | .failed => "failed"
  | .budgetExceeded => "budget_exceeded"
  | .timedOut => "timed_out"
  | .cancelled => "cancelled"

inductive ToolCallStatus where
  | succeeded | denied | failed | budgetExceeded
  deriving DecidableEq

def ToolCallStatus.value : ToolCallStatus → String
  | .succeeded => "succeeded"
  | .denied => "denied"
  | .failed => "failed"
  | .budgetExceeded => "budget_exceeded"

structure ApprovalTarget where
  scope : ScopePath
  principalId : String
  runId : String
  callId : String
  toolIdentity : ToolIdentity
  argumentsDigest : Digest
  deriving DecidableEq

structure ApprovalBinding where
  target : ApprovalTarget
  approvedBy : String
  issuedAt : ℤ
  expiresAt : ℤ
  singleUse : Bool := true
  deriving DecidableEq

structure ToolIntent where
  callId : String
  toolName : String
  arguments : Json := .obj []
  approvalToken : Option String := none
  deriving DecidableEq

structure RunFailure where
  code : FailureCode
  message : String
  iteration : Option ℕ := none
  callId : Option String := none
  toolName : Option String := none
  deriving DecidableEq

structure ToolObservation where
  callId : String
  toolName : String
  toolIdentity : Option ToolIdentity := none
  arguments : Option Json := none
  status : ToolCallStatus
  result : Json := .null
  failure : Option RunFailure := none
  startedAt : ℤ
  finishedAt : ℤ
  deriving DecidableEq

structure PromptEnvelope where
  messages : List (String × String)
  metadata : List (String × Json)
  deriving DecidableEq

structure WorkflowFrame where
  iteration : ℕ
  observations : List ToolObservation
  availableTools : List ToolSpec
  workflowState : Json
  toolCallsUsed : ℕ
  deriving DecidableEq

inductive WorkflowDecisionKind where
  | final | tools
  deriving DecidableEq

def WorkflowDecisionKind.value : WorkflowDecisionKind → String
  | .final => "final"
  | .tools => "tools"

structure WorkflowDecision where
  kind : WorkflowDecisionKind
  intents : List ToolIntent := []
  output : Json := .null
  workflowState : Json := .null
  deriving DecidableEq

structure RunResumeState where
  sourceRunId : String
  workflowState : Json
  observations : List ToolObservation
  iterationsUsed : ℕ
  toolCallsUsed : ℕ
  callIds : List String
  promptDigest : Digest
  routeKey : String
  deriving DecidableEq

structure ExecutionBudget where
  maxIterations : ℕ := 16
  maxToolCalls : ℕ := 32
  maxParallelCalls : ℕ := 4
  timeoutSeconds : ℚ := 120
  iterationRange : 1 ≤ maxIterations ∧ maxIterations ≤ 10000 := by decide
  toolRange : maxToolCalls ≤ 100000 := by decide
  parallelRange : 1 ≤ maxParallelCalls ∧ maxParallelCalls ≤ 1024 := by decide
  timeoutRange : 0 < timeoutSeconds ∧ timeoutSeconds ≤ 86400 := by decide

structure RunRequest where
  runId : Identifier
  scope : RequestScope
  grantId : Identifier
  input : Json
  conversation : Json := .obj []
  readOnly : Bool := false
  budget : ExecutionBudget := {}
  resume : Option RunResumeState := none

structure RunResult where
  runId : String
  status : RunStatus
  output : Json := .null
  failure : Option RunFailure := none
  observations : List ToolObservation
  iterationsUsed : ℕ
  toolCallsUsed : ℕ
  startedAt : ℤ
  finishedAt : ℤ
  deriving DecidableEq

inductive AuditEventType where
  | runStarted | strategyDecision | toolIntent | toolDenied | toolStarted | toolFinished
  | runFinished
  deriving DecidableEq

structure AuditEvent where
  type : AuditEventType
  callId : Option String := none
  toolName : Option String := none
  toolIdentity : Option ToolIdentity := none
  data : Json := .obj []
  deriving DecidableEq

def AuditEvent.valid (e : AuditEvent) : Bool :=
  e.callId.all isIdentifier && e.toolName.all isName && !e.data.nonFinite &&
    e.toolIdentity.all (fun identity => e.toolName.any (fun name => decide (identity.name = name)))

structure ExecutionPolicy where
  approvalEffects : Finset ToolEffect := {.write,.destructive,.external}
  maxRunInputBytes : ℕ := 256*1024
  maxToolArgumentBytes : ℕ := 256*1024
  maxToolResultBytes : ℕ := 1024*1024
  maxFinalOutputBytes : ℕ := 1024*1024
  maxWorkflowStateBytes : ℕ := 256*1024
  maxIterations : ℕ := 16
  maxToolCalls : ℕ := 32
  maxParallelCalls : ℕ := 4
  maxTimeoutSeconds : ℚ := 120
  destructiveApproval : ToolEffect.destructive ∈ approvalEffects := by decide
  byteRange : (1 ≤ maxRunInputBytes ∧ maxRunInputBytes ≤ 8*1024*1024) ∧
    (1 ≤ maxToolArgumentBytes ∧ maxToolArgumentBytes ≤ 8*1024*1024) ∧
    (1 ≤ maxToolResultBytes ∧ maxToolResultBytes ≤ 32*1024*1024) ∧
    (1 ≤ maxFinalOutputBytes ∧ maxFinalOutputBytes ≤ 32*1024*1024) ∧
    (1 ≤ maxWorkflowStateBytes ∧ maxWorkflowStateBytes ≤ 8*1024*1024) := by decide
  budgetRange : (1 ≤ maxIterations ∧ maxIterations ≤ 10000) ∧
    (1 ≤ maxToolCalls ∧ maxToolCalls ≤ 100000) ∧
    (1 ≤ maxParallelCalls ∧ maxParallelCalls ≤ 1024) ∧
    0 < maxTimeoutSeconds ∧ maxTimeoutSeconds ≤ 86400 := by decide

def ExecutionPolicy.requiresApproval (policy : ExecutionPolicy) (spec : ToolSpec) : Bool :=
  decide (spec.effects ∩ policy.approvalEffects ≠ ∅)

end SuiteHarness.Execution
