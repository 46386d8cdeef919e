import SuiteHarness.Persistence.State

/-!
# The durable resume cursor

`SQLiteMcpHttpResumeStore` over the product state store, and
`_DurableResumeTransport`, which commits the inner transport's resume state
after every operation before it delivers the operation's outcome. Every await
is a move: callers queue on one lock, the inner transport changes its state
while it operates, the save task runs its transaction once, and cancellations
reach the caller while it waits for the save. The store may fail before or
after its commit, and other keys of the store are written at any time.
-/

set_option autoImplicit false

namespace SuiteHarness.Mcp
open SuiteHarness.Library SuiteHarness.Persistence

def headerSafe (value : Option String) : Bool :=
  value.all (fun v => decide (v ≠ "") && decide (v.length ≤ 4096) &&
    !v.toList.contains '\r' && !v.toList.contains '\n')

structure HttpResumeState where
  sessionId : Option String := none
  lastEventId : Option String := none
  safe : headerSafe sessionId = true ∧ headerSafe lastEventId = true := by decide
  deriving DecidableEq

structure Checkpoint where
  state : HttpResumeState
  revision : ℕ
  deriving DecidableEq

inductive SaveError where
  | value (text : String)
  | state (e : StateError)
  | database
  | invalidCheckpoint
  deriving DecidableEq

namespace HttpResumeState

def textJson : Option String → Json
  | none => .null
  | some v => .str v

def json (st : HttpResumeState) : Json :=
  .obj [("session_id",textJson st.sessionId),("last_event_id",textJson st.lastEventId)]

def textField : Option Json → Option (Option String)
  | none => some none
  | some .null => some none
  | some (.str v) => some (some v)
  | some _ => none

def parse (v : Json) : Option HttpResumeState :=
  match v with
  | .obj fields =>
    if fields.all (fun f => ["session_id","last_event_id"].contains f.1) then
      match textField (v.get? "session_id"), textField (v.get? "last_event_id") with
      | some sessionId, some lastEventId =>
        if h : headerSafe sessionId = true ∧ headerSafe lastEventId = true then
          some ⟨sessionId,lastEventId,h⟩
        else none
      | _, _ => none
    else none
  | _ => none

def storable (value : Option String) : Bool :=
  headerSafe value && value.all (fun v => !v.toList.contains (Char.ofNat 0))

def invalid (st : HttpResumeState) : Option String :=
  if !storable st.sessionId then some "invalid MCP session_id"
  else if !storable st.lastEventId then some "invalid MCP last_event_id"
  else none

end HttpResumeState

structure ResumeStore where
  env : StateEnv
  store : ℕ
  key : ProductStateKey
  writerId : String

namespace ResumeStore
variable (r : ResumeStore)

def idempotencyKey (sequence : ℕ) : String := "mcp-resume-" ++ r.writerId ++ "-" ++ sequence.repr

def command (st : HttpResumeState) (expectedRevision : ℕ) (idempotencyKey : String) (now : ℤ) :
    CompareAndSet :=
  ⟨r.store,r.key,st.json,expectedRevision,idempotencyKey,now⟩

def save (s : ProductState) (st : HttpResumeState) (expectedRevision : ℕ) (idempotencyKey : String)
    (now : ℤ) : ProductState × Except SaveError Checkpoint :=
  match st.invalid with
  | some text => (s,.error (.value text))
  | none =>
    let (t,answer) := s.compareAndSet r.env (r.command st expectedRevision idempotencyKey now)
    match answer with
    | .error e => (t,.error (.state e))
    | .ok result => (t,.ok ⟨st,result.record.revision⟩)

def load (s : ProductState) : Option (Option Checkpoint) :=
  match s.get r.key with
  | .error _ => none
  | .ok none => some none
  | .ok (some record) => match HttpResumeState.parse record.value with
    | none => none
    | some st => if st.invalid.isSome then none else some (some ⟨st,record.revision⟩)

end ResumeStore

inductive OperationOutcome where
  | result (value : Json)
  | failure (kind : String)
  deriving DecidableEq

inductive Stage where
  | idle
  | operating
  | saving (outcome : OperationOutcome) (state : HttpResumeState)
      (save : Option (Except SaveError Checkpoint)) (cancelled : Bool)

structure DurableTransport where
  store : ProductState
  inner : HttpResumeState
  revision : ℕ
  sequence : ℕ := 0
  persistenceFailure : Option SaveError := none
  closed : Bool := false
  stage : Stage := .idle
  left : List HttpResumeState := []

inductive Fault where
  | beforeCommit | afterCommit
  deriving DecidableEq

inductive DurableMove where
  /-- A `request` or `notify` acquires the lock. -/
  | call
  | innerMoves (st : HttpResumeState)
  | operationEnds (outcome : OperationOutcome)
  | storeRuns (now : ℤ) (fault : Option Fault)
  | cancel
  | wake
  | close
  | elsewhere (c : CompareAndSet)

inductive DurableOutput where
  | refused (text : String)
  | started (n : ℕ)
  | delivered (n : ℕ) (outcome : OperationOutcome)
  | cancelled (n : ℕ)
  | disabled (n : ℕ) (text : String) (note : Option String)
  deriving DecidableEq

def disabledText : String := "durable MCP resume state could not be persisted; connection disabled"

def OperationOutcome.note : OperationOutcome → Option String
  | .result _ => none
  | .failure kind => some
      ("The remote MCP operation also failed before persistence failed (" ++ kind ++ ").")

namespace DurableTransport
variable (r : ResumeStore)
variable (w : DurableTransport)

def unavailable : Option String :=
  if w.closed then some "durable MCP transport is closed"
  else if w.persistenceFailure.isSome then
    some "durable MCP resume persistence previously failed; connection disabled"
  else none

def runSave (st : HttpResumeState) (now : ℤ) (fault : Option Fault) :
    ProductState × Except SaveError Checkpoint :=
  let (t,answer) := r.save w.store st w.revision (r.idempotencyKey w.sequence) now
  match fault with
  | none => (t,answer)
  | some .beforeCommit => (w.store,.error .database)
  | some .afterCommit => (t,.error .database)

def finish (outcome : OperationOutcome) (st : HttpResumeState) (answer : Except SaveError Checkpoint)
    (cancelled : Bool) : DurableTransport × DurableOutput :=
  let disable := fun e =>
    ({ w with persistenceFailure := some e, stage := .idle },
      DurableOutput.disabled w.sequence disabledText outcome.note)
  match answer with
  | .error e => disable e
  | .ok checkpoint =>
    if checkpoint.revision ≠ w.revision+1 ∨ checkpoint.state ≠ st then disable .invalidCheckpoint
    else ({ w with revision := checkpoint.revision, stage := .idle },
      if cancelled then .cancelled w.sequence else .delivered w.sequence outcome)

def step : DurableMove → DurableTransport × Option DurableOutput
  | .call => match w.stage with
    | .idle => match w.unavailable with
      | some text => (w,some (.refused text))
      | none => ({ w with stage := .operating },some (.started (w.sequence+1)))
    | _ => (w,none)
  | .innerMoves st => match w.stage with
    | .operating => ({ w with inner := st },none)
    | _ => (w,none)
  | .operationEnds outcome => match w.stage with
    | .operating =>
      ({ w with
        sequence := w.sequence+1
        left := w.left++[w.inner]
        stage := .saving outcome w.inner none false },none)
    | _ => (w,none)
  | .storeRuns now fault => match w.stage with
    | .saving outcome st none cancelled =>
      let (t,answer) := w.runSave r st now fault
      ({ w with store := t, stage := .saving outcome st (some answer) cancelled },none)
    | _ => (w,none)
  | .cancel => match w.stage with
    | .saving outcome st save _ => ({ w with stage := .saving outcome st save true },none)
    | _ => (w,none)
  | .wake => match w.stage with
    | .saving outcome st (some answer) cancelled =>
      let (w',output) := w.finish outcome st answer cancelled
      (w',some output)
    | _ => (w,none)
  | .close => match w.stage with
    | .idle => ({ w with closed := true },none)
    | _ => (w,none)
  | .elsewhere c =>
    if c.stateKey = r.key then (w,none)
    else ({ w with store := (w.store.compareAndSet r.env c).1 },none)

end DurableTransport

end SuiteHarness.Mcp
