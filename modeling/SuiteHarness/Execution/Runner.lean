import SuiteHarness.Execution.Intent
import SuiteHarness.Execution.Budget

/-!
# The run loop

`_run_loop` with its batches. A phase stands at an await and holds the local
variables that are still needed; an answer is what the await returned. The
tasks of a batch step one at a time in any order, at most `max_parallel_calls`
of them between their start and their end. An exception or a cancellation ends
a batch only after every task of it has ended.
-/

set_option autoImplicit false

namespace SuiteHarness.Execution

structure Strategies where
  hasPrompt : Bool := false
  hasReflection : Bool := false

structure Task where
  intent : ToolIntent
  duplicate : Bool
  phase : TaskPhase

def Task.active (t : Task) : Bool :=
  match t.phase with
  | .waiting | .done _ | .dead => false
  | _ => true

def Task.over (t : Task) : Bool :=
  match t.phase with
  | .done _ | .dead => true
  | _ => false

def Task.result (t : Task) : Option ToolObservation :=
  match t.phase with
  | .done observation => some observation
  | _ => none

inductive Ending where
  | raised | cancelled
  deriving DecidableEq

inductive Phase where
  | begin
  | opened
  | charging (remaining : ℕ)
  | iteration (i : ℕ)
  | granting (i : ℕ)
  | prompting (i : ℕ) (frame : WorkflowFrame)
  | checkpointing (i : ℕ) (frame : WorkflowFrame) (resume : RunResumeState)
  | deciding (i : ℕ) (frame : WorkflowFrame)
  | reviewing (i : ℕ) (frame : WorkflowFrame) (decision : WorkflowDecision)
  | recording (i : ℕ) (decision : WorkflowDecision)
  | admitting (i : ℕ) (decision : WorkflowDecision)
  | batch (i : ℕ) (overflow : List ToolIntent) (tasks : List Task) (abort : Option Ending)
  | overflowing (i : ℕ) (intents : List ToolIntent)
  | finishing (result : RunResult)
  | returned (result : RunResult)
  | ended (ending : Ending)

structure RunState where
  startedAt : ℤ
  phase : Phase := .begin
  iterationsUsed : ℕ := 0
  toolCallsUsed : ℕ := 0
  observations : List ToolObservation := []
  callIds : List String := []
  workflowState : Json := .null
  checkpointSafe : Bool := true
  checkpointPending : Option ℕ := none
  log : List Event := []

inductive RenderAnswer where
  | raised
  | invalid
  | envelope (prompt : PromptEnvelope)

inductive RouteAnswer where
  | raised
  | key (key : Option String)
  | foreign
  deriving DecidableEq

def RouteAnswer.text : RouteAnswer → Option String
  | .key name => name
  | _ => none

def workflowKinds : List String :=
  ["delta","status","usage","compact_started","compact_completed"]

inductive StreamAnswer where
  | progress (kind : String) (data : Json) (ok : Bool)
  | failed
  | nothing
  | decided (decision : WorkflowDecision)

inductive ReviewAnswer where
  | raised
  | invalid
  | decided (decision : WorkflowDecision)

inductive Answer where
  | appended (ok : Bool)
  | granted (answer : GrantAnswer)
  | pooled
  | rendered (prompt : RenderAnswer) (route : RouteAnswer)
  | published (ok : Bool)
  | streamed (answer : StreamAnswer)
  | reviewed (answer : ReviewAnswer)
  | task (index : ℕ) (answer : TaskAnswer)
  | taskKilled (index : ℕ)
  | gathered
  | cancelled
  /-- An append was stored and its await was cancelled all the same. -/
  | interrupted

def firstIteration (request : RunRequest) : ℕ :=
  (request.resume.map (fun r => r.iterationsUsed)).getD 0+1

def decisionEvent (decision : WorkflowDecision) : AuditEvent where
  type := .strategyDecision
  data := .obj [("kind",.str decision.kind.value),("intent_count",.int decision.intents.length)]

def overflowEvent (amb : Ambient) (intent : ToolIntent) : AuditEvent :=
  callEvent .toolDenied intent ((amb.tools intent.toolName).map (fun reg => reg.identity))
    [("code",.str FailureCode.toolBudgetExceeded.value)]

def finishEvent (result : RunResult) : AuditEvent where
  type := .runFinished
  data := .obj (("status",.str result.status.value)::match result.failure with
    | none => []
    | some failure => [("code",.str failure.code.value)])

def Phase.auditEvent (amb : Ambient) : Phase → Option AuditEvent
  | .begin => some { type := .runStarted }
  | .recording _ decision => some (decisionEvent decision)
  | .overflowing _ (intent::_) => some (overflowEvent amb intent)
  | .finishing result => some (finishEvent result)
  | _ => none

namespace RunState

variable (s : RunState) (cfg : RunnerConfig) (request : RunRequest) (amb : Ambient)
  (pool : AggregateRunBudget) (i : ℕ) (intent : ToolIntent)

def emit (event : Event) : RunState := { s with log := s.log ++ [event] }

def raise : RunState := { s with phase := .ended .raised }

def result (status : RunStatus) (failure : Option RunFailure) (output : Json := .null) : Option RunResult :=
  if amb.later < s.startedAt then none
  else some {
    runId := request.runId.val
    status := status
    output := output
    failure := failure
    observations := s.observations
    iterationsUsed := s.iterationsUsed
    toolCallsUsed := s.toolCallsUsed
    startedAt := s.startedAt
    finishedAt := amb.later }

def finish (status : RunStatus) (failure : Option RunFailure) (output : Json := .null) : RunState :=
  match s.result request amb status failure output with
  | none => s.raise
  | some result => { s with phase := .finishing result }

def strategyFailure (code : FailureCode) (message : String) (i : ℕ) : RunState :=
  s.finish request amb .failed (some { code := code, message := message, iteration := some i })

def startIteration : RunState :=
  if i ≤ request.budget.maxIterations then { s with phase := .iteration i }
  else s.finish request amb .budgetExceeded (some {
    code := .iterationBudgetExceeded
    message := "workflow did not finish within the iteration budget"
    iteration := some request.budget.maxIterations })

def opening : RunState :=
  match budgetPolicyFailure cfg.policy request with
  | some failure => s.finish request amb .budgetExceeded (some failure)
  | none => match jsonBytes request.input with
    | none => s.raise
    | some n =>
      if cfg.policy.maxRunInputBytes < n then s.finish request amb .failed (some {
        code := .runInputTooLarge
        message := "run input exceeds the configured byte limit" })
      else { s with phase := .opened }

def resumeOrStart (grant : CapabilityGrant) : RunState :=
  match request.resume with
  | none => s.startIteration request amb 1
  | some resume =>
    if validResume cfg request amb grant resume then
      { s with
        iterationsUsed := resume.iterationsUsed
        toolCallsUsed := resume.toolCallsUsed
        observations := resume.observations
        callIds := resume.callIds.dedup
        workflowState := resume.workflowState
        phase := .charging resume.iterationsUsed }
    else s.strategyFailure request amb .workflowError
      "resume checkpoint is unsafe or no longer authorized" 1

def present (frame : WorkflowFrame) : RunState :=
  { s.emit (.presented frame s.callIds pool.iterationsUsed pool.toolCallsUsed) with
    phase := .deciding i frame }

inductive CheckpointPlan where
  | skip
  | raise
  | publish (resume : RunResumeState)

def planCheckpoint (digest : Digest) (route : Option String) (iterationsUsed : ℕ) : CheckpointPlan :=
  if 1024 < s.observations.length ∨ 1024 < s.callIds.length then .skip
  else if containsRunCredentials s.workflowState then .skip
  else match route with
    | none => .raise
    | some key =>
      let resume : RunResumeState := {
        sourceRunId := request.runId.val
        workflowState := s.workflowState
        observations := s.observations
        iterationsUsed := iterationsUsed
        toolCallsUsed := s.toolCallsUsed
        callIds := s.callIds.insertionSort (· ≤ ·)
        promptDigest := digest
        routeKey := key }
      if resume.valid = false then .raise
      else match jsonBytes (.obj [("resume_state",cfg.dumpResume resume),
          ("input",request.input),("conversation",request.conversation)]) with
        | none => .raise
        | some n => if n ≤ checkpointLimit cfg.policy then .publish resume else .skip

def checkpointWanted (route : RouteAnswer) : Option ℕ :=
  if route = .key none then none
  else if i = 1 ∧ request.resume = none then some 0
  else s.checkpointPending

def bindPrompt (frame : WorkflowFrame) (prompt : Option PromptEnvelope) (route : RouteAnswer) : RunState :=
  match promptDigest request prompt with
  | none => s.raise
  | some digest =>
    if route = .raised then s.strategyFailure request amb .workflowError
      "workflow resume compatibility check failed" i
    else if request.resume.any (fun r => decide (i = firstIteration request) &&
        (decide (route ≠ .key (some r.routeKey)) || decide (digest ≠ r.promptDigest))) then
      s.strategyFailure request amb .workflowError "resume route or prompt no longer matches" i
    else
      match s.checkpointWanted request i route with
      | none => { s with checkpointPending := none }.present pool i frame
      | some k =>
        let s := { s with checkpointPending := none }
        match s.planCheckpoint cfg request digest route.text k with
        | .skip => s.present pool i frame
        | .raise => s.raise
        | .publish resume => { s with phase := .checkpointing i frame resume }

def settleDecision (decision : WorkflowDecision) : RunState :=
  match jsonBytes decision.workflowState with
  | none => s.raise
  | some n =>
    if cfg.policy.maxWorkflowStateBytes < n then s.strategyFailure request amb
      .workflowStateTooLarge "workflow state exceeds the configured byte limit" i
    else
      let s := { s with workflowState := decision.workflowState }
      match decision.kind with
      | .tools => { s with phase := .admitting i decision }
      | .final => match jsonBytes decision.output with
        | none => s.raise
        | some m =>
          if cfg.policy.maxFinalOutputBytes < m then s.strategyFailure request amb
            .finalOutputTooLarge "final output exceeds the configured byte limit" i
          else s.finish request amb .succeeded none decision.output

def flagDuplicates : List String → List ToolIntent → List (ToolIntent × Bool) × List String
  | ids, [] => ([],ids)
  | ids, intent::rest =>
    let (flagged,after) := flagDuplicates (ids.insert intent.callId) rest
    ((intent,decide (intent.callId ∈ ids))::flagged,after)

def unsafeIntent : Bool :=
  intent.approvalToken.isSome || containsRunCredentials intent.arguments

def afterBatch (permitted overflow : List ToolIntent) (observations : List ToolObservation) : RunState :=
  let safe := s.checkpointSafe && overflow.isEmpty &&
    observations.all (safeObservation amb.tools) && !permitted.any unsafeIntent
  let s := { s with
    observations := s.observations ++ observations
    checkpointSafe := safe
    checkpointPending := if safe then some i else none }
  if overflow = [] then s.startIteration request amb (i+1)
  else { s with phase := .overflowing i overflow }

def admittedEvents (flagged : List (ToolIntent × Bool)) : List Event :=
  flagged.mapIdx (fun k f => .admitted ⟨i,k⟩ f.1 f.2)

def admitBatch (decision : WorkflowDecision) (count : ℕ) : RunState :=
  let permitted := decision.intents.take count
  let overflow := decision.intents.drop count
  let flagged := flagDuplicates s.callIds permitted
  let s := { s with
    toolCallsUsed := s.toolCallsUsed+permitted.length
    callIds := flagged.2
    log := s.log ++ admittedEvents i flagged.1 }
  if permitted = [] then s.afterBatch request amb i [] overflow []
  else
    let tasks : List Task := flagged.1.map (fun f => ⟨f.1,f.2,.waiting⟩)
    { s with phase := .batch i overflow tasks none }

def budgetObservation : Option ToolObservation :=
  failedObservation intent i .budgetExceeded .toolBudgetExceeded
    "tool call was not started because the budget was exhausted" amb.now amb.later

def recordOverflow (rest : List ToolIntent) (ok : Bool) : RunState :=
  let event := overflowEvent amb intent
  if event.valid = true ∧ ok = true then
    match budgetObservation amb i intent with
    | none => (s.emit (.audit event)).raise
    | some observation =>
      let s := { s.emit (.audit event) with observations := s.observations ++ [observation] }
      if rest = [] then s.finish request amb .budgetExceeded (some {
        code := .toolBudgetExceeded
        message := "workflow requested more tool calls than the remaining budget"
        iteration := some i })
      else { s with phase := .overflowing i rest }
  else s.raise

/-- One task of a batch steps. A waiting task needs a free place of the semaphore;
it may find one before a batch that is being aborted cancels it. -/
def batchTask (overflow : List ToolIntent) (tasks : List Task) (abort : Option Ending) (k : ℕ)
    (answer : TaskAnswer) : Option RunState :=
  match tasks[k]? with
  | none => none
  | some t =>
    if (match t.phase with
        | .waiting => decide (request.budget.maxParallelCalls ≤ tasks.countP Task.active)
        | _ => false) = true then none
    else (taskStep cfg request amb ⟨i,k⟩ t.intent t.duplicate t.phase answer).map (fun r =>
      { s with
        log := s.log ++ r.events
        phase := match r.next with
          | some next => .batch i overflow (tasks.set k { t with phase := next }) abort
          | none =>
            .batch i overflow (tasks.set k { t with phase := .dead }) (abort.or (some .raised)) })

def gather (overflow : List ToolIntent) (tasks : List Task) : Option Ending → Option RunState
  | some ending => if tasks.all Task.over then some { s with phase := .ended ending } else none
  | none => (tasks.mapM Task.result).map (fun observations =>
      s.afterBatch request amb i (tasks.map (fun t => t.intent)) overflow observations)

def step (strategies : Strategies) (amb : Ambient) (s : RunState) (pool : AggregateRunBudget) :
    Phase → Answer → Option (RunState × AggregateRunBudget)
  | .begin, .appended ok =>
    if ok then some ((s.emit (.audit { type := .runStarted })).opening cfg request amb,pool)
    else some (s.raise,pool)
  | .opened, .granted answer => match checkGrant request amb.now answer with
    | .error failure => some (s.finish request amb .failed (some failure),pool)
    | .ok grant => some (s.resumeOrStart cfg request amb grant,pool)
  | .charging (n+1), .pooled =>
    let (charged,ok) := pool.takeIteration amb.expired
    if ok then some ({ s with phase := .charging n },charged)
    else some (s.strategyFailure request amb .iterationBudgetExceeded
      "resume exceeds aggregate iteration budget" 1,charged)
  | .charging 0, .pooled =>
    let (charged,count) := pool.takeToolSlots amb.expired s.toolCallsUsed
    if count = s.toolCallsUsed then
      some (s.startIteration request amb (s.iterationsUsed+1),charged)
    else some (s.strategyFailure request amb .toolBudgetExceeded
      "resume exceeds aggregate tool budget" 1,charged)
  | .iteration i, .pooled =>
    let (charged,ok) := pool.takeIteration amb.expired
    if ok then some ({ s.emit (.iterationStarted i) with
      iterationsUsed := i, phase := .granting i },charged)
    else some (s.finish request amb .budgetExceeded (some {
      code := .iterationBudgetExceeded
      message := "parent and delegated runs exhausted their aggregate iteration budget"
      iteration := some i }),charged)
  | .granting i, .granted answer => match checkGrant request amb.now answer with
    | .error failure => some (s.finish request amb .failed (some failure),pool)
    | .ok grant => some ({ s with phase := .prompting i ⟨i,s.observations,
        visibleTools request grant amb.tools,s.workflowState,s.toolCallsUsed⟩ },pool)
  | .prompting i frame, .rendered render route =>
    match strategies.hasPrompt, render with
    | false, _ => some (s.bindPrompt cfg request amb pool i frame none route,pool)
    | true, .raised => some (s.strategyFailure request amb .promptError
        "prompt strategy failed" i,pool)
    | true, .invalid => some (s.strategyFailure request amb .promptError
        "prompt strategy returned an invalid result" i,pool)
    | true, .envelope prompt =>
      some (s.bindPrompt cfg request amb pool i frame (some prompt) route,pool)
  | .checkpointing i frame resume, .published ok =>
    if ok then some ((s.emit (.checkpoint resume)).present pool i frame,pool)
    else some (s.raise,pool)
  | .deciding i frame, .streamed answer => match answer with
    | .progress kind data ok => if workflowKinds.contains kind ∧ ok = true then
        some (s.emit (.published kind data),pool)
      else some (s.strategyFailure request amb .workflowError "workflow strategy failed" i,pool)
    | .failed => some (s.strategyFailure request amb .workflowError "workflow strategy failed" i,pool)
    | .nothing => some (s.strategyFailure request amb .workflowError
        "workflow strategy returned an invalid decision" i,pool)
    | .decided decision =>
      if strategies.hasReflection then some ({ s with phase := .reviewing i frame decision },pool)
      else some ({ s with phase := .recording i decision },pool)
  | .reviewing i _ _, .reviewed answer => match answer with
    | .raised => some (s.strategyFailure request amb .reflectionError
        "reflection strategy failed" i,pool)
    | .invalid => some (s.strategyFailure request amb .reflectionError
        "reflection strategy returned an invalid decision" i,pool)
    | .decided decision => some ({ s with phase := .recording i decision },pool)
  | .recording i decision, .appended ok =>
    if ok then some ((s.emit (.audit (decisionEvent decision))).settleDecision cfg request amb i
      decision,pool)
    else some (s.raise,pool)
  | .admitting i decision, .pooled =>
    let (charged,count) := pool.takeToolSlots amb.expired
      (min (request.budget.maxToolCalls-s.toolCallsUsed) decision.intents.length)
    some (s.admitBatch request amb i decision count,charged)
  | .batch i overflow tasks abort, .task k answer =>
    (s.batchTask cfg request amb i overflow tasks abort k answer).map (fun t => (t,pool))
  | .batch i overflow tasks abort, .taskKilled k => match tasks[k]? with
    | none => none
    | some t => if Task.over t then none
      else
        let killed := tasks.set k { t with phase := .dead }
        some ({ s with phase := .batch i overflow killed (abort.or (some .cancelled)) },pool)
  | .batch i overflow tasks abort, .gathered =>
    (s.gather request amb i overflow tasks abort).map (fun t => (t,pool))
  | .batch i overflow tasks abort, .cancelled =>
    some ({ s with phase := .batch i overflow tasks (abort.or (some .cancelled)) },pool)
  | .overflowing i (intent::rest), .appended ok =>
    some (s.recordOverflow request amb i intent rest ok,pool)
  | .finishing result, .appended ok =>
    if ok then some ({ s.emit (.audit (finishEvent result)) with phase := .returned result },pool)
    else some (s.raise,pool)
  | .returned _, .cancelled => none
  | .ended _, .cancelled => none
  | _, .cancelled => some ({ s with phase := .ended .cancelled },pool)
  | phase, .interrupted => (phase.auditEvent amb).map (fun event =>
      ({ s.emit (.audit event) with phase := .ended .cancelled },pool))
  | _, _ => none

end RunState

structure Launch where
  cfg : RunnerConfig
  request : RunRequest
  strategies : Strategies := {}
  startedAt : ℤ := 0

namespace Launch

def start (l : Launch) : RunState := { startedAt := l.startedAt }

def move (l : Launch) (s : RunState) (pool : AggregateRunBudget) (amb : Ambient)
    (answer : Answer) : RunState × AggregateRunBudget :=
  (RunState.step l.cfg l.request l.strategies amb s pool s.phase answer).getD (s,pool)

end Launch
end SuiteHarness.Execution
