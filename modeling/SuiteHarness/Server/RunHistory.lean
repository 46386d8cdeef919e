import SuiteHarness.Server.Messages
import SuiteHarness.Sessions.Models

/-!
# The run history in a checkpoint

The application keeps the outcomes of recent runs in the session's checkpoint,
next to the state of its conversation memory. Finished runs give way when the
history is too long or too large; unfinished ones never do.
-/

set_option autoImplicit false

namespace SuiteHarness.Memory

structure MemoryState where
  coveredRevision : ℕ := 0
  summary : String := ""
  degraded : Bool := false
  deriving DecidableEq

inductive MemoryError where
  | valueError (message : String)
  | validation
  deriving DecidableEq

end SuiteHarness.Memory

namespace SuiteHarness.Server
open SuiteHarness.Sessions SuiteHarness.Memory

inductive Interrupt where
  | cancelled | generatorExit
  deriving DecidableEq

inductive ChannelError where
  | application (text : String)
  | messageConflict (text : String)
  | session (error : SessionError)
  | memory (error : MemoryError)
  | valueError (text : String)
  | typeError (text : String)
  | osError
  | host
  | interrupted (interrupt : Interrupt)
  deriving DecidableEq

inductive EntryState where
  | started | completed | failed
  deriving DecidableEq, Repr

def EntryState.value : EntryState → String
  | .started => "started"
  | .completed => OutboundEventKind.completed.value
  | .failed => OutboundEventKind.failed.value

def EntryState.ofValue (text : String) : Option EntryState :=
  [EntryState.started,.completed,.failed].find? (fun s => decide (s.value = text))

structure HistoryRun where
  runId : String
  messageDigest : String
  state : EntryState
  payload : Json
  deriving DecidableEq

def HistoryRun.dump (entry : HistoryRun) : Json :=
  .obj [("run_id",.str entry.runId),("message_digest",.str entry.messageDigest),
    ("state",.str entry.state.value),("payload",entry.payload)]

def checkpointSchema : String := "suiteharness.channel-application.v1"

variable (historyBytes : ℕ)

def checkOwner (state : Json) : Except ChannelError Unit :=
  match canonicalJson state with
  | none => .error (.valueError "JSON values must not contain NaN or infinity")
  | some text =>
    if historyBytes < utf8Length text then
      .error (.application "session checkpoint exceeds its byte limit")
    else if state.get? "schema" = some (.str checkpointSchema) then .ok ()
    else .error (.application "session checkpoint belongs to an incompatible owner")

def invalidEntry : ChannelError := .application "session checkpoint has an invalid run entry"

def readEntry (seen : List String) (item : Json) : Except ChannelError HistoryRun :=
  match item.get? "run_id", item.get? "message_digest", item.get? "state" with
  | some (.str runId), some (.str digest), some (.str text) =>
    match EntryState.ofValue text with
    | none => .error invalidEntry
    | some state =>
      if isIdentifier runId && !seen.contains runId && isSha256Hex digest &&
          (decide (state = .started) || (getOrNull "payload" item).isObj) then
        .ok ⟨runId,digest,state,getOrNull "payload" item⟩
      else .error invalidEntry
  | _, _, _ => .error invalidEntry

def readEntries : List String → List Json → Except ChannelError (List HistoryRun)
  | _, [] => .ok []
  | seen, item::items => do
    let entry ← readEntry seen item
    let entries ← readEntries (entry.runId::seen) items
    .ok (entry::entries)

def loadHistory (state : Json) : Except ChannelError (List HistoryRun) :=
  if state = .null then .ok []
  else do
    checkOwner historyBytes state
    match state.get? "runs" with
    | some (.arr items) => readEntries [] items
    | _ => .error (.application "session checkpoint has an invalid run history")

def readMemoryState (fields : List (String × Json)) : Option MemoryState :=
  if fields.all (fun f => ["covered_revision","summary","degraded"].contains f.1) then
    match ((Json.obj fields).get? "covered_revision").getD (.int 0),
        ((Json.obj fields).get? "summary").getD (.str ""),
        ((Json.obj fields).get? "degraded").getD (.bool false) with
    | .int covered, .str summary, .bool degraded =>
      if 0 ≤ covered ∧ summary.toList.length ≤ 12000 then some ⟨covered.toNat,summary,degraded⟩
      else none
    | _, _, _ => none
  else none

def loadMemoryState (state : Json) : Except ChannelError MemoryState :=
  if state = .null then .ok {}
  else do
    checkOwner historyBytes state
    match getOrNull "memory" state with
    | .null => .ok {}
    | .obj fields =>
      match readMemoryState fields with
      | some memory => .ok memory
      | none => .error (.application "session checkpoint has invalid memory state")
    | _ => .error (.application "session checkpoint has invalid memory state")

def memoryStateDump (memory : MemoryState) : Json :=
  .obj [("covered_revision",.int memory.coveredRevision),("summary",.str memory.summary),
    ("degraded",.bool memory.degraded)]

def dropFinished : List HistoryRun → Option (List HistoryRun)
  | [] => none
  | entry::history =>
    if entry.state ≠ .started then some history
    else (dropFinished history).map (fun rest => entry::rest)

def appendStarted (historyLimit : ℕ) (history : List HistoryRun) (runId messageDigest : String) :
    Except ChannelError (List HistoryRun) :=
  let entry : HistoryRun := ⟨runId,messageDigest,.started,.null⟩
  if historyLimit ≤ history.length then
    match dropFinished history with
    | none => .error (.application "checkpoint contains too many unfinished runs")
    | some rest => .ok (rest ++ [entry])
  else .ok (history ++ [entry])

def workflowState (history : List HistoryRun) (memory : MemoryState) : Json :=
  .obj [("schema",.str checkpointSchema),("runs",.arr (history.map HistoryRun.dump)),
    ("memory",memoryStateDump memory)]

def historyStateFrom (historyBytes : ℕ) (memory : MemoryState) :
    ℕ → List HistoryRun → Except ChannelError (List HistoryRun × Json)
  | fuel, history =>
    match canonicalJson (workflowState history memory) with
    | none => .error (.valueError "JSON values must not contain NaN or infinity")
    | some text =>
      if utf8Length text ≤ historyBytes then .ok (history,workflowState history memory)
      else match fuel, dropFinished history with
        | fuel+1, some rest => historyStateFrom historyBytes memory fuel rest
        | _, _ => .error (.application "checkpoint unfinished run history exceeds its byte limit")

def historyState (history : List HistoryRun) (memory : MemoryState) :
    Except ChannelError (List HistoryRun × Json) :=
  historyStateFrom historyBytes memory history.length history

end SuiteHarness.Server
