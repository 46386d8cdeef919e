import SuiteHarness.Execution.Gates

/-!
# One tool call

`_execute_intent` as a machine: a phase stands at an await, an answer is what
the await returned, and a step runs to the next await. The events are what a
step did that others can see, and what it was told by the grant authority, the
registry, the policy and the approval source.
-/

set_option autoImplicit false

namespace SuiteHarness.Execution

structure CallTag where
  iteration : ℕ
  index : ℕ
  deriving DecidableEq

inductive Event where
  | audit (event : AuditEvent)
  | published (kind : String) (data : Json)
  | checkpoint (resume : RunResumeState)
  | iterationStarted (iteration : ℕ)
  | presented (frame : WorkflowFrame) (callIds : List String) (iterations toolSlots : ℕ)
  | admitted (tag : CallTag) (intent : ToolIntent) (duplicate : Bool)
  | lookedUp (tag : CallTag) (name : String) (registered : Option RegisteredTool)
  | grantResolved (tag : CallTag) (grant : CapabilityGrant) (now : ℤ)
  | rechecked (tag : CallTag) (name : String) (registered : Option RegisteredTool)
  | policyAnswered (tag : CallTag) (answer : PolicyAnswer)
  | approvalObtained (tag : CallTag) (binding : ApprovalBinding) (now : ℤ)
  | invoked (tag : CallTag) (intent : ToolIntent) (registered : RegisteredTool)

inductive HandlerAnswer where
  | returned (value : Json)
  | nonJson
  | denied
  | raised
  deriving DecidableEq

inductive TaskAnswer where
  | appended (ok : Bool)
  | granted (answer : GrantAnswer)
  | approval (binding : Option ApprovalBinding)
  | published (ok : Bool)
  | handled (answer : HandlerAnswer)
  | stored (reference : Option Json)
  deriving DecidableEq

inductive TaskPhase where
  | waiting
  | granting (startedAt : ℤ) (registered : Option RegisteredTool)
  | approving (startedAt : ℤ) (registered : RegisteredTool) (grant : CapabilityGrant)
  | starting (startedAt : ℤ) (registered : RegisteredTool) (grant : CapabilityGrant)
    (approvedBy : Option String)
  | announcing (startedAt : ℤ) (registered : RegisteredTool) (grant : CapabilityGrant)
  | running (startedAt : ℤ) (registered : RegisteredTool) (grant : CapabilityGrant)
  | storing (startedAt : ℤ) (registered : RegisteredTool) (value : Json)
  | finishing (startedAt : ℤ) (registered : RegisteredTool) (result : Json)
  | denying (startedAt : ℤ) (code : FailureCode) (message : String)
    (identity : Option ToolIdentity)
  | failing (startedAt : ℤ) (code : FailureCode) (message : String)
    (identity : Option ToolIdentity)
  | observed (observation : ToolObservation)
  | done (observation : ToolObservation)
  | dead

inductive Refusal where
  | denied (code : FailureCode) (message : String)
  | raised
  deriving DecidableEq

def checkedCall (cfg : RunnerConfig) (amb : Ambient) (intent : ToolIntent) (reg : RegisteredTool) :
    Except Refusal (RegisteredTool × Bool) :=
  match reg.validate intent.arguments with
  | .invalid => .error (.denied .toolInputInvalid
      "tool arguments do not match the declared input schema")
  | .raised => .error .raised
  | .passed =>
    let authorization := authorizationOf cfg (amb.evaluate reg.identity reg.spec intent.arguments)
    if authorization = .deny then .error (.denied .policyDenied
      "the trusted channel policy denied this tool call")
    else
      let needed := approvalNeeded cfg authorization reg.spec
      if needed = true ∧ intent.approvalToken = none ∧ cfg.hasInteractiveApprovals = false then
        .error (.denied .approvalRequired "this tool call requires a call-scoped approval")
      else .ok (reg,needed)

def admission (cfg : RunnerConfig) (request : RunRequest) (amb : Ambient) (intent : ToolIntent)
    (registered : Option RegisteredTool) (grant : CapabilityGrant) :
    Except Refusal (RegisteredTool × Bool) :=
  match registered with
  | none => .error (.denied .toolNotGranted "tool is unavailable for this grant")
  | some reg =>
    if reg.identity ∉ grant.toolIdentities then
      .error (.denied .toolNotGranted "tool is unavailable for this grant")
    else if ¬ reg.spec.requiredCapabilities ⊆ grant.capabilities then
      .error (.denied .capabilityDenied
        "tool requires capabilities not present in the product grant")
    else if request.readOnly = true ∧ reg.spec.isRead = false then
      .error (.denied .readOnlyDenied "non-read tool is blocked for a read-only run")
    else if request.resume.isSome = true ∧ safeRegistration amb.tools intent.toolName = false then
      .error (.denied .policyDenied "only trusted read tools are available during resume")
    else checkedCall cfg amb intent reg

structure TaskStep where
  next : Option TaskPhase
  events : List Event

def emitThen (event : AuditEvent) (ok : Bool) (next : Option TaskPhase) (before : List Event := []) :
    TaskStep :=
  if event.valid = true ∧ ok = true then ⟨next,before ++ [.audit event]⟩ else ⟨none,before⟩

def callEvent (type : AuditEventType) (intent : ToolIntent) (identity : Option ToolIdentity)
    (data : List (String × Json)) : AuditEvent :=
  ⟨type,some intent.callId,some intent.toolName,identity,.obj data⟩

def failedObservation (intent : ToolIntent) (iteration : ℕ) (status : ToolCallStatus)
    (code : FailureCode) (message : String) (startedAt finishedAt : ℤ) : Option ToolObservation :=
  if finishedAt < startedAt then none
  else some {
    callId := intent.callId
    toolName := intent.toolName
    status := status
    failure := some ⟨code,message,some iteration,some intent.callId,some intent.toolName⟩
    startedAt := startedAt
    finishedAt := finishedAt }

def utf8Prefix : ℕ → List Char → List Char
  | _, [] => []
  | n, c::cs => if c.utf8Size ≤ n then c::utf8Prefix (n-c.utf8Size) cs else []

def canReadResult (tools : String → Option RegisteredTool) (grant : CapabilityGrant) : Bool :=
  (tools "suiteharness.result.read").any (fun reader =>
    decide (reader.identity ∈ grant.toolIdentities) &&
    decide (reader.identity.nameSpace = "suiteharness") &&
    decide (reader.identity.origin = "suiteharness.builtin.result"))

def afterResult (cfg : RunnerConfig) (amb : Ambient) (intent : ToolIntent) (startedAt : ℤ)
    (registered : RegisteredTool) (grant : CapabilityGrant) (value : Json) : TaskPhase :=
  match jsonBytes value with
  | none => .failing startedAt .invalidToolResult "tool returned a non-JSON value"
      (some registered.identity)
  | some n =>
    if cfg.policy.maxToolResultBytes < n then
      .failing startedAt .toolResultTooLarge "tool result exceeds the configured byte limit"
        (some registered.identity)
    else if cfg.hasToolResults = true ∧ canReadResult amb.tools grant = true ∧
        intent.toolName ≠ "suiteharness.result.read" ∧ 16*1024 < n then
      .storing startedAt registered value
    else .finishing startedAt registered value

/-- One answer to a call. The arguments are those the intent came with; the source
hands one mutable dictionary to the policy, the broker and the handler. -/
def taskStep (cfg : RunnerConfig) (request : RunRequest) (amb : Ambient) (tag : CallTag)
    (intent : ToolIntent) (duplicate : Bool) : TaskPhase → TaskAnswer → Option TaskStep
  | .waiting, .appended ok =>
    let registered := amb.tools intent.toolName
    let identity := registered.map (fun reg => reg.identity)
    match jsonBytes intent.arguments with
    | none => some ⟨none,[]⟩
    | some n =>
      let next : TaskPhase :=
        if cfg.policy.maxToolArgumentBytes < n then .denying amb.now .toolArgumentsTooLarge
          "tool arguments exceed the configured byte limit" identity
        else if duplicate then .denying amb.now .duplicateCallId
          "call_id was already used in this run" identity
        else .granting amb.now registered
      some (emitThen (callEvent .toolIntent intent identity
        [("arguments_digest",(digest intent.arguments).value)]) ok (some next)
        [.lookedUp tag intent.toolName registered])
  | .granting startedAt registered, .granted answer =>
    let identity := registered.map (fun reg => reg.identity)
    match checkGrant request amb.now answer with
    | .error failure => some ⟨some (.denying startedAt failure.code failure.message identity),[]⟩
    | .ok grant => match admission cfg request amb intent registered grant with
      | .error (.denied code message) => some ⟨some (.denying startedAt code message identity),[]⟩
      | .error .raised => some ⟨none,[]⟩
      | .ok (reg,needed) => some ⟨some (if needed then .approving startedAt reg grant
            else .starting startedAt reg grant none),
          [.grantResolved tag grant amb.now] ++
          (if request.resume.isSome then
            [.rechecked tag intent.toolName (amb.tools intent.toolName)] else []) ++
          (if cfg.hasAuthorizationPolicy then [.policyAnswered tag
            (amb.evaluate reg.identity reg.spec intent.arguments)] else [])⟩
  | .approving startedAt reg grant, .approval binding =>
    match binding.filter (fun b => approvalMatches (approvalTarget request intent reg) b amb.now) with
    | none => some ⟨some (.denying startedAt .approvalInvalid
        "approval is expired, reused, or bound to a different call" (some reg.identity)),[]⟩
    | some b => some ⟨some (.starting startedAt reg grant (some b.approvedBy)),
        [.approvalObtained tag b amb.now]⟩
  | .starting startedAt reg grant approvedBy, .appended ok =>
    let effects : Json := .arr ((([.read,.write,.destructive,.external].filter
      (fun e => decide (e ∈ reg.spec.effects))).map ToolEffect.value).insertionSort (· ≤ ·)
        |>.map .str)
    let approver := match approvedBy with
      | none => []
      | some who => [("approved_by",Json.str who)]
    some (emitThen (callEvent .toolStarted intent (some reg.identity)
      (("effects",effects)::approver)) ok (some (.announcing startedAt reg grant)))
  | .announcing startedAt reg grant, .published ok =>
    -- The handler is entered without another await.
    if ok then some ⟨some (.running startedAt reg grant),
      [.published "tool_started" (.obj [("call_id",.str intent.callId),
        ("tool_name",.str intent.toolName)]),.invoked tag intent reg]⟩
    else some ⟨none,[]⟩
  | .running startedAt reg grant, .handled answer =>
    some ⟨some (match answer with
      | .returned value => afterResult cfg amb intent startedAt reg grant value
      | .nonJson => .failing startedAt .invalidToolResult "tool returned a non-JSON value"
          (some reg.identity)
      | .denied => .denying startedAt .policyDenied "trusted tool handler denied this call"
          (some reg.identity)
      | .raised => .failing startedAt .toolError "tool handler failed" (some reg.identity)),[]⟩
  | .storing startedAt reg value, .stored reference =>
    some ⟨some (match reference with
      | none => .failing startedAt .toolError "tool result storage unavailable" (some reg.identity)
      | some r => .finishing startedAt reg (.obj [("result_reference",r),
          ("preview",.str (String.ofList (utf8Prefix 1024 value.render.toList))),
          ("truncated",.bool true)])),[]⟩
  | .finishing startedAt reg result, .appended ok =>
    let arguments := if safeRegistration amb.tools intent.toolName = true ∧
      containsRunCredentials intent.arguments = false then some intent.arguments else none
    let observation : ToolObservation := {
      callId := intent.callId
      toolName := intent.toolName
      toolIdentity := some reg.identity
      arguments := arguments
      status := .succeeded
      result := result
      startedAt := startedAt
      finishedAt := amb.now }
    some (emitThen (callEvent .toolFinished intent (some reg.identity)
      [("status",.str ToolCallStatus.succeeded.value)]) ok
      (if amb.now < startedAt then none else some (.observed observation)))
  | .denying startedAt code message identity, .appended ok =>
    some (emitThen (callEvent .toolDenied intent identity [("code",.str code.value)]) ok
      ((failedObservation intent tag.iteration .denied code message startedAt amb.later).map
        .observed))
  | .failing startedAt code message identity, .appended ok =>
    some (emitThen (callEvent .toolFinished intent identity
      [("status",.str ToolCallStatus.failed.value),("code",.str code.value)]) ok
      ((failedObservation intent tag.iteration .failed code message startedAt amb.later).map
        .observed))
  | .observed observation, .published ok =>
    if ok then some ⟨some (.done observation),[.published "tool_completed"
      (.obj [("call_id",.str intent.callId),("tool_name",.str intent.toolName),
        ("status",.str observation.status.value)])]⟩
    else some ⟨none,[]⟩
  | _, _ => none

end SuiteHarness.Execution
