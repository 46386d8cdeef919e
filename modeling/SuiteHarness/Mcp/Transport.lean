import SuiteHarness.Json
import SuiteHarness.Library.Dict
import SuiteHarness.Library.Machine

/-!
# Requests over one MCP session

`_SessionRpcTransport`: requests hold one lock, register a future under their id
and leave by an answer, by the timeout or because their caller is cancelled; a
reader task hands each response to the future of its id. Every await is a move.
The server is part of the state: it knows which requests it received and
answers each of them at most once. An id `suiteharness-n` is its number.
-/

set_option autoImplicit false

namespace SuiteHarness.Mcp
open SuiteHarness.Library

structure RpcError where
  code : ℤ
  message : String
  data : Option Json := none
  deriving DecidableEq

inductive Response where
  | result (value : Json)
  | error (e : RpcError)
  deriving DecidableEq

inductive McpError where
  | transport (text : String)
  | protocol (text : String)
  | answered (e : RpcError)
  deriving DecidableEq

inductive Future where
  | waiting
  | done (r : Response)
  | failed (e : McpError)
  | cancelled
  deriving DecidableEq

/-- Where the holder of the request lock stands: in `_send`, with whether the
server has the line already, in `wait_for`, or telling the server of a timeout. -/
inductive Phase where
  | sending (delivered : Bool)
  | waiting
  | notifying
  deriving DecidableEq

structure Active where
  id : ℕ
  method : String
  phase : Phase
  deriving DecidableEq

structure Session where
  counter : ℕ := 0
  active : Option Active := none
  pending : Dict ℕ Future := Dict.empty
  abandoned : List ℕ := []
  readerFailure : Option McpError := none
  received : List ℕ := []
  answers : List (ℕ × Response) := []

inductive Leaving where
  | cancelled
  | sendFailed (e : McpError)
  deriving DecidableEq

inductive Move where
  /-- A caller acquires the request lock. -/
  | request (method : String)
  /-- The line is handed over. A caller that is cancelled in `drain` has done this:
  the buffered line still reaches the server. -/
  | deliver
  | sendReturns
  /-- The reader reads the server's answer to a request it received. -/
  | answer (id : ℕ) (r : Response)
  /-- The reader handles a blank line, a notification or a request. -/
  | otherMessage
  | resume
  /-- The timeout fires; `evicted` is what `set.pop` would choose. -/
  | timeout (evicted : ℕ)
  /-- The notice of the timeout was sent, failed or was cancelled. -/
  | notified
  | leave (why : Leaving)

inductive Output where
  | refused (e : McpError)
  | returned (id : ℕ) (value : Json)
  | raised (id : ℕ) (e : McpError)
  | cancelled (id : ℕ)
  deriving DecidableEq

def readerFailed : McpError := .transport "MCP stdio reader previously failed"
def unknownId : McpError := .protocol "received response for an unknown request id"

def abandonedLimit : ℕ := 1024

def addId (id : ℕ) (ids : List ℕ) : List ℕ := if id ∈ ids then ids else id::ids

def popped (evicted : ℕ) (ids : List ℕ) : Option ℕ := if evicted ∈ ids then some evicted else ids.head?

def abandon (id evicted : ℕ) (ids : List ℕ) : List ℕ :=
  let added := addId id ids
  if abandonedLimit < added.length then
    match popped evicted added with
    | some victim => added.filter (fun x => decide (x ≠ victim))
    | none => added
  else added

namespace Session

variable (s : Session) (id : ℕ)

def outstanding : Bool :=
  decide (id ∈ s.received ∧ id ∉ s.answers.map Prod.fst)

def release : Session :=
  { s with active := none, pending := s.pending.erase id }

def failReader (e : McpError) : Session :=
  { s with
    readerFailure := some e
    pending := s.pending.entries.foldl
      (fun d f => if f.2 = .waiting then d.set f.1 (.failed e) else d) s.pending }

def readResponse (r : Response) : Session :=
  match s.pending.get? id with
  | none =>
    if id ∈ s.abandoned then { s with abandoned := s.abandoned.filter (fun x => decide (x ≠ id)) }
    else s.failReader unknownId
  | some .waiting => { s with pending := s.pending.set id (.done r) }
  | some _ => s

def addAnswer (r : Response) : Session :=
  { s with answers := (id,r)::s.answers }

def begin_ (method : String) : Session :=
  { s with
    counter := s.counter+1
    pending := s.pending.set (s.counter+1) .waiting
    active := some ⟨s.counter+1,method,.sending false⟩ }

def fireTimeout (a : Active) (evicted : ℕ) : Session :=
  { s with
    abandoned := abandon a.id evicted s.abandoned
    pending := if a.phase = .waiting ∧ s.pending.get? a.id = some .waiting then
      s.pending.set a.id .cancelled else s.pending
    active := some { a with phase := .notifying } }

def timedOut (method : String) : McpError := .transport ("MCP request timed out: " ++ method)

def outcome : Future → Option Output
  | .done (.result value) => some (.returned id value)
  | .done (.error e) => some (.raised id (.answered e))
  | .failed e => some (.raised id e)
  | .waiting | .cancelled => none

def leaving : Leaving → Output
  | .cancelled => .cancelled id
  | .sendFailed e => .raised id e

def stepActive (a : Active) : Move → Session × Option Output
  | .deliver =>
    if a.phase = .sending false then
      ({ s with active := some { a with phase := .sending true }, received := a.id::s.received },none)
    else (s,none)
  | .sendReturns =>
    if a.phase = .sending true then ({ s with active := some { a with phase := .waiting } },none)
    else (s,none)
  | .resume =>
    if a.phase = .waiting then
      match (s.pending.get? a.id).bind (outcome a.id) with
      | some out => (s.release a.id,some out)
      | none => (s,none)
    else (s,none)
  | .timeout evicted => if a.phase = .notifying then (s,none) else (s.fireTimeout a evicted,none)
  | .notified =>
    if a.phase = .notifying then (s.release a.id,some (.raised a.id (timedOut a.method))) else (s,none)
  | .leave why =>
    -- a send fails only while it runs; the notice of a timeout swallows a cancellation
    if a.phase = .notifying ∨ (a.phase = .waiting ∧ why ≠ .cancelled) then (s,none)
    else (s.release a.id,some (leaving a.id why))
  | _ => (s,none)

def step : Move → Session × Option Output
  | .answer id r =>
    if s.outstanding id && s.readerFailure.isNone then
      ((s.readResponse id r).addAnswer id r,none)
    else (s,none)
  | .otherMessage => (s,none)
  | .request method => match s.active with
    | none => if s.readerFailure.isSome then (s,some (.refused readerFailed)) else (s.begin_ method,none)
    | some _ => (s,none)
  | m => match s.active with
    | none => (s,none)
    | some a => s.stepActive a m

end Session

end SuiteHarness.Mcp
