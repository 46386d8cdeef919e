import SuiteHarness.Library.Blocks
import SuiteHarness.Models.Types

/-!
# Bounded model context

`ContextManager` with any estimator: the estimate of a request, the check that
tool calls and results are paired, and `prepare`, which shortens tool results
and then leaves out the oldest rounds. The JSON reader is a parameter. It may
reject a text, which `prepare` catches, or exhaust the stack on a deeply nested
one, which it does not.
-/

set_option autoImplicit false

namespace SuiteHarness.Models
open SuiteHarness.Library

inductive LoadsError where
  | value | recursion
  deriving DecidableEq, Repr

inductive PrepareError where
  | value (text : String)
  | budget (text : String)
  | capacity (text : String)
  | recursion
  deriving DecidableEq, Repr

structure PreparedContext where
  request : ModelRequest
  estimatedInputTokens : ℤ
  removedRounds : ℕ := 0
  truncatedTools : ℕ := 0
  deriving DecidableEq

def utf8TokenEstimator (text : String) : ℤ := utf8Length text

structure ContextManager where
  estimator : String → ℤ
  imageTokens : ℕ
  positive : 1 ≤ imageTokens
  loads : String → Except LoadsError Json

/-! Pairing of tool calls and results. -/

def orphanResult : PrepareError := .budget "orphan or duplicate tool result"
def missingResults : PrepareError := .budget "tool calls are missing their results"
def duplicateCall : PrepareError := .budget "duplicate tool call id"

def openCalls (pending used : List String) :
    List ModelToolCall → Except PrepareError (List String × List String)
  | [] => .ok (pending,used)
  | call::calls =>
    if call.callId ∈ used then .error duplicateCall
    else openCalls (call.callId::pending) (call.callId::used) calls

def validateFrom (pending used : List String) : List ModelMessage → Except PrepareError Unit
  | [] => if pending = [] then .ok () else .error missingResults
  | m::rest => match m.role with
    | .system => validateFrom pending used rest
    | .tool => match m.toolCallId with
      | some id =>
        if id ∈ pending then validateFrom (pending.filter (fun x => decide (x ≠ id))) used rest
        else .error orphanResult
      | none => .error orphanResult
    | .user | .assistant =>
      if pending = [] then
        match openCalls pending used m.toolCalls with
        | .error e => .error e
        | .ok (pending',used') => validateFrom pending' used' rest
      else .error missingResults

def validatePairs (messages : List ModelMessage) : Except PrepareError Unit :=
  validateFrom [] [] messages

/-! Rounds: a user message begins one once the assistant has answered. -/

def roundRule : Blocks.Rule ModelMessage Bool where
  skipped m := m.role = .system
  begins answered m := m.role = .user && answered
  start := false
  after answered m := answered || (m.role = .assistant && m.toolCalls.isEmpty)

def rounds (messages : List ModelMessage) : List (List ℕ) := roundRule.blocks messages

/-! Excerpts of tool results. -/

def takeBytes : ℕ → List Char → List Char
  | _, [] => []
  | n, c::cs => if c.utf8Size ≤ n then c::takeBytes (n-c.utf8Size) cs else []

def excerptOf (raw : String) (bytes : ℕ) : String := String.ofList (takeBytes bytes raw.toList)

def referenceOf (payload : Json) : List (String × Json) :=
  match (payload.get? "result").bind (Json.get? "result_reference") with
  | some (.obj fields) =>
    if asciiLength (.obj fields) ≤ 512 then [("result_reference",.obj fields)] else []
  | _ => []

def compactValue (excerpt : String) (reference : List (String × Json)) : Json :=
  .obj ([("truncated",.bool true),("excerpt",.str excerpt)]++reference)

def compactText (excerpt : String) (reference : List (String × Json)) : String :=
  Encoder.spaced.encode (compactValue excerpt reference)

def reserve (r : ModelRequest) : ℕ := if r.maxOutputTokens = 0 then 4096 else r.maxOutputTokens

def perTool (budget : ℤ) (messages : List ModelMessage) : ℕ :=
  (max 64 (min 2048 (budget/max 4 (messages.countP (fun m => m.role = .tool)*2 : ℕ)))).toNat

def outputReserve : PrepareError := .capacity "output reserve exhausts context budget"
def currentInput : PrepareError := .capacity "required current input exceeds context budget"

namespace ContextManager
variable (c : ContextManager)

def jsonCost (value : Json) : ℤ := c.estimator (Encoder.compact.encode value)

def contentTokens : ContentPart → ℤ
  | .text t => c.estimator t
  | .image _ _ _ => c.imageTokens
  | .document _ _ dataBase64 => c.imageTokens+dataBase64.length

def messageTokens (m : ModelMessage) : ℤ :=
  16+c.estimator (m.name.getD "")+c.estimator (m.toolCallId.getD "")+
    (m.content.map c.contentTokens).sum+
    if m.toolCalls = [] then 0 else c.jsonCost (.arr (m.toolCalls.map ModelToolCall.json))

def estimate (r : ModelRequest) : ℤ :=
  32+c.jsonCost (.arr (r.tools.map ModelTool.json))+
    (r.responseSchema.elim 0 (fun s => c.jsonCost (.obj s)))+(r.messages.map c.messageTokens).sum

def truncate (limit : ℕ) (m : ModelMessage) : Except PrepareError (ModelMessage × Bool) :=
  if m.role = .tool ∧ limit < c.estimator m.rawText then
    match c.loads m.rawText with
    | .error .recursion => .error .recursion
    | .error .value => .ok (m.withText (compactText (excerptOf m.rawText (limit-64)) []),true)
    | .ok payload =>
      .ok (m.withText (compactText (excerptOf m.rawText (limit-64)) (referenceOf payload)),true)
  else .ok (m,false)

def truncateAll (limit : ℕ) : List ModelMessage → Except PrepareError (List ModelMessage × ℕ)
  | [] => .ok ([],0)
  | m::rest => match c.truncate limit m with
    | .error e => .error e
    | .ok (m',changed) => match truncateAll limit rest with
      | .error e => .error e
      | .ok (rest',n) => .ok (m'::rest',if changed then n+1 else n)

def dropRounds (budget : ℤ) (current : List ℕ → ModelRequest) (removed : List ℕ) (count : ℕ) :
    List (List ℕ) → List ℕ × ℕ
  | [] => (removed,count)
  | old::rest =>
    if c.estimate (current removed) ≤ budget then (removed,count)
    else dropRounds budget current (removed++old) (count+1) rest

def compactRequest (budget : ℤ) (r : ModelRequest) (messages : List ModelMessage)
    (truncated : ℕ) : Except PrepareError PreparedContext :=
  let current := fun removed => r.withMessages (Blocks.without removed messages)
  let (removed,count) := c.dropRounds budget current [] 0 (rounds messages).dropLast
  if budget < c.estimate (current removed) then .error currentInput
  else match validatePairs (current removed).messages with
    | .error e => .error e
    | .ok () => .ok ⟨current removed,c.estimate (current removed),count,truncated⟩

def prepare (r : ModelRequest) (windowTokens : ℤ) : Except PrepareError PreparedContext :=
  if windowTokens < 1 then .error (.value "window_tokens must be a positive integer")
  else match validatePairs r.messages with
    | .error e => .error e
    | .ok () =>
      let budget := windowTokens-reserve r
      if budget ≤ 0 then .error outputReserve
      else if c.estimate r ≤ budget then .ok { request := r, estimatedInputTokens := c.estimate r }
      else match c.truncateAll (perTool budget r.messages) r.messages with
        | .error e => .error e
        | .ok (messages,truncated) => c.compactRequest budget r messages truncated

end ContextManager

end SuiteHarness.Models
