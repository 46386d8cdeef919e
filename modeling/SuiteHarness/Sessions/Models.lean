import SuiteHarness.Json
import SuiteHarness.Identifier
import SuiteHarness.Library.Dict

/-!
# Session and transcript vocabulary

The records of `sessions/models.py` with their validators. Times are integer
microseconds. A limit record carries the ranges its constructor enforces; the
other records are validated where the code validates them, because the code
also builds unvalidated copies of them.
-/

set_option autoImplicit false

namespace SuiteHarness.Sessions
open SuiteHarness.Library

def isOwnerToken (s : String) : Bool :=
  decide (32 ≤ s.toList.length) && decide (s.toList.length ≤ 256) &&
    s.toList.all (fun d => isAlnum d || ['_','-'].contains d)

structure SessionIdentity where
  tenantId : Identifier
  productId : Identifier
  agentId : Identifier
  sessionId : Identifier
  principalId : Identifier
  deriving DecidableEq

structure SessionStoreLimits where
  maxSessions : ℕ := 100000
  maxTranscriptPayloadBytes : ℕ := 4*1024*1024
  maxTranscriptEventsPerSession : ℕ := 50000
  maxTranscriptEventsTotal : ℕ := 1000000
  maxRunClaimsPerSession : ℕ := 50000
  maxRunClaimsTotal : ℕ := 1000000
  maxCheckpointStateBytes : ℕ := 4*1024*1024
  maxCheckpointsPerSession : ℕ := 8
  maxCheckpointBytesPerSession : ℕ := 16*1024*1024
  maxResumePointBytes : ℕ := 512*1024
  maxResumePointsPerSession : ℕ := 8
  maxResumeBytesPerSession : ℕ := 2*1024*1024
  maxResumePointsTotal : ℕ := 10000
  maxResumeBytesTotal : ℕ := 128*1024*1024
  sessionRange : 1 ≤ maxSessions ∧ maxSessions ≤ 1000000 := by decide
  transcriptRange : (1024 ≤ maxTranscriptPayloadBytes ∧
      maxTranscriptPayloadBytes ≤ 32*1024*1024) ∧
    (1 ≤ maxTranscriptEventsPerSession ∧ maxTranscriptEventsPerSession ≤ 1000000) ∧
    (1 ≤ maxTranscriptEventsTotal ∧ maxTranscriptEventsTotal ≤ 10000000) := by decide
  claimRange : (1 ≤ maxRunClaimsPerSession ∧ maxRunClaimsPerSession ≤ 1000000) ∧
    (1 ≤ maxRunClaimsTotal ∧ maxRunClaimsTotal ≤ 10000000) := by decide
  checkpointRange : (1024 ≤ maxCheckpointStateBytes ∧
      maxCheckpointStateBytes ≤ 32*1024*1024) ∧
    (1 ≤ maxCheckpointsPerSession ∧ maxCheckpointsPerSession ≤ 256) ∧
    (1024 ≤ maxCheckpointBytesPerSession ∧
      maxCheckpointBytesPerSession ≤ 128*1024*1024) := by decide
  resumeRange : (1024 ≤ maxResumePointBytes ∧ maxResumePointBytes ≤ 512*1024) ∧
    (1 ≤ maxResumePointsPerSession ∧ maxResumePointsPerSession ≤ 256) ∧
    (1024 ≤ maxResumeBytesPerSession ∧ maxResumeBytesPerSession ≤ 128*1024*1024) ∧
    (1 ≤ maxResumePointsTotal ∧ maxResumePointsTotal ≤ 1000000) ∧
    (1024 ≤ maxResumeBytesTotal ∧ maxResumeBytesTotal ≤ 1024*1024*1024) := by decide
  internallyConsistent : maxTranscriptEventsPerSession ≤ maxTranscriptEventsTotal ∧
    maxRunClaimsPerSession ≤ maxRunClaimsTotal ∧
    maxCheckpointStateBytes ≤ maxCheckpointBytesPerSession ∧
    maxResumePointBytes ≤ maxResumeBytesPerSession ∧
    maxResumePointsPerSession ≤ maxResumePointsTotal ∧
    maxResumeBytesPerSession ≤ maxResumeBytesTotal := by decide

inductive SessionStatus where
  | active | waitingApproval | completed | failed | cancelled
  deriving DecidableEq, Repr

inductive SessionRunClaimState where
  | acquired | active | stale
  deriving DecidableEq, Repr

inductive RunStopOutcome where
  | requested | alreadyRequested | alreadyFinished | notFound
  deriving DecidableEq, Repr

inductive TranscriptEventType where
  | userMessage | assistantMessage | toolIntent | toolResult | approvalRequested
  | approvalResolved | status | error | cancel | memoryInvalidated
  deriving DecidableEq, Repr

def TranscriptEventType.value : TranscriptEventType → String
  | .userMessage => "user_message"
  | .assistantMessage => "assistant_message"
  | .toolIntent => "tool_intent"
  | .toolResult => "tool_result"
  | .approvalRequested => "approval_requested"
  | .approvalResolved => "approval_resolved"
  | .status => "status"
  | .error => "error"
  | .cancel => "cancel"
  | .memoryInvalidated => "memory_invalidated"

inductive SessionError where
  | capacity (text : String)
  | idempotencyConflict (text : String)
  | notFound (text : String)
  | payloadTooLarge (text : String)
  | revisionConflict (expected : ℤ) (actual : ℕ)
  | valueError (text : String)
  | assertion
  | overflow
  deriving DecidableEq, Repr

structure SessionRecord where
  identity : SessionIdentity
  status : SessionStatus
  revision : ℕ
  memoryInvalidatedRevision : ℕ
  memorySourceVersions : Dict String ℕ
  createdAt : ℤ
  updatedAt : ℤ
  deriving DecidableEq

structure RunResumePoint where
  identity : SessionIdentity
  runId : String
  payload : Json
  memoryInvalidatedRevision : ℕ
  memorySourceVersions : Dict String ℕ
  createdAt : ℤ
  deriving DecidableEq

structure TranscriptEvent where
  identity : SessionIdentity
  eventId : String
  sequence : ℕ
  revision : ℕ
  type : TranscriptEventType
  payload : Json
  occurredAt : ℤ
  idempotencyKey : Option String
  deriving DecidableEq

structure SessionCheckpoint where
  identity : SessionIdentity
  checkpointId : String
  revision : ℕ
  workflowState : Json
  lastEventSequence : ℕ
  createdAt : ℤ
  idempotencyKey : String
  deriving DecidableEq

structure SessionSnapshot where
  session : SessionRecord
  checkpoint : Option SessionCheckpoint
  transcript : List TranscriptEvent
  deriving DecidableEq

/-- What the model takes from outside: `datetime.fromisoformat` on aware
timestamps, and the size of pydantic's JSON dump of a resume point. -/
structure Platform where
  fromisoformat : String → Option ℤ
  modelDumpJsonBytes : RunResumePoint → ℕ

def resumePointTtl : ℤ := 300*1000000

def getOrNull (key : String) (v : Json) : Json := (v.get? key).getD .null

def memoryInvalidationSource (payload : Json) : Except SessionError (Option (String × ℕ)) :=
  if !payload.isObj then .ok none else
  match getOrNull "source_namespace" payload, getOrNull "source_version" payload with
  | .null, .null => .ok none
  | .str ns, .int v =>
    if isIdentifier ns && decide (1 ≤ v) then .ok (some (ns,v.toNat))
    else .error (.valueError
      "source namespace and positive integer version must be supplied together")
  | _, _ => .error (.valueError
      "source namespace and positive integer version must be supplied together")

def finishedResumeRunId (type : TranscriptEventType) (payload : Json) : Option String :=
  if type ≠ .assistantMessage ∧ type ≠ .error then none
  else if !payload.isObj || decide (getOrNull "run_status" payload = .str "cancelled") then none
  else match payload.get? "run_id" with
    | some (.str r) => if isIdentifier r then some r else none
    | _ => none

def validateTranscriptPage (limit : ℤ) (beforeSequence : Option ℤ) :
    Except SessionError Unit :=
  if limit < 1 ∨ 1000 < limit then
    .error (.valueError "transcript page limit must be between 1 and 1000")
  else match beforeSequence with
    | some b => if b < 1 then
        .error (.valueError "before_sequence must be a positive integer") else .ok ()
    | none => .ok ()

def forbiddenKeys : List String :=
  ["resultid","resultreference","approvaltoken","approvalbinding","approvalcredential",
   "accesstoken","refreshtoken","apikey","authorization","password","secret",
   "clientsecret","credential","credentials","grantid","ownertoken","privatekey",
   "approval","token","cookie"]

/-- `re.sub(r"[^a-z0-9]", "", key.lower())`. Outside ASCII only the Kelvin sign
and the dotted capital I have an ASCII letter in their lower case. -/
def normalizedKey (key : String) : String :=
  String.ofList ((key.toList.map (fun c =>
    if c.toNat = 0x212A then 'k' else if c.toNat = 0x130 then 'i' else c.toLower)).filter
      (fun c => c.isDigit || c.isLower))

mutual

def unsafeValue : Json → Bool
  | .obj fields => unsafeFields fields
  | .arr items => unsafeItems items
  | _ => false

def unsafeItems : List Json → Bool
  | [] => false
  | x::xs => unsafeValue x || unsafeItems xs

def unsafeFields : List (String × Json) → Bool
  | [] => false
  | (k,x)::xs => forbiddenKeys.contains (normalizedKey k) || unsafeValue x || unsafeFields xs

end

def toolFamily (name : String) : Option String :=
  if ["suiteharness.fs.list","suiteharness.fs.read","suiteharness.fs.glob",
      "suiteharness.fs.grep"].contains name then some "fs"
  else if ["suiteharness.web.search","suiteharness.web.fetch"].contains name then some "web"
  else none

variable (pf : Platform)

def observationTime (key : String) (observation : Json) : Option ℤ :=
  match observation.get? key with
  | some (.str s) => pf.fromisoformat s
  | _ => none

def checkObservation (observation : Json) : Option String :=
  if getOrNull "status" observation ≠ .str "succeeded" then none
  else if getOrNull "failure" observation ≠ .null then none
  else if !observation.hasKey "result" then none
  else match observation.get? "tool_name" with
    | some (.str name) => match toolFamily name with
      | some family =>
        let identity : Json := .obj [("namespace",.str "suiteharness"),("name",.str name),
          ("origin",.str ("suiteharness.builtin." ++ family)),("version",.str "1")]
        if (getOrNull "tool_identity" observation).canon ≠ identity.canon then none
        else match observationTime pf "started_at" observation,
            observationTime pf "finished_at" observation with
          | some start, some finish => if finish < start then none
            else match observation.get? "call_id" with
              | some (.str c) => some c
              | _ => none
          | _, _ => none
      | none => none
    | _ => none

def identifierStrings (items : List Json) : Option (List String) :=
  items.mapM (fun v => match v with
    | .str s => if isIdentifier s then some s else none
    | _ => none)

def checkResumeState (runId : String) (state : Json) : Bool :=
  let required := ["source_run_id","workflow_state","observations","iterations_used",
    "tool_calls_used","call_ids","prompt_digest","route_key"]
  state.isObj && required.all (fun k => state.hasKey k) &&
  decide (getOrNull "source_run_id" state = .str runId) &&
  match getOrNull "iterations_used" state, getOrNull "tool_calls_used" state,
      getOrNull "observations" state, getOrNull "call_ids" state,
      getOrNull "prompt_digest" state, getOrNull "route_key" state with
  | .int iterations, .int calls, .arr observations, .arr callIds, .str prompt, .str route =>
    decide (0 ≤ iterations) && decide (iterations ≤ 10000) && isSha256Hex prompt &&
    decide (1 ≤ route.length) && decide (route.length ≤ 4096) &&
    (match identifierStrings callIds, observations.mapM (checkObservation pf) with
    | some ids, some observed =>
      decide ids.Nodup && decide (calls = observations.length) &&
      decide (callIds.length = observations.length) && decide (observations.length ≤ 1024) &&
      !(!observations.isEmpty && (decide (iterations = 0) ||
        decide (getOrNull "workflow_state" state = .null))) &&
      decide (observed.Perm ids)
    | _, _ => false)
  | _, _, _, _, _, _ => false

def safeResumePoint (point : RunResumePoint) : Option RunResumePoint :=
  if unsafeValue point.payload then none
  else match canonicalJson point.payload with
    | none => none
    | some encoded =>
      if 512*1024 < utf8Length encoded then none
      else if !isIdentifier point.runId ||
        point.memorySourceVersions.entries.any (fun e => !isIdentifier e.1 || decide (e.2 < 1))
        then none
      else match getOrNull "message_digest" point.payload,
          getOrNull "conversation" point.payload with
        | .str md, conversation =>
          if isSha256Hex md && point.payload.hasKey "input" && conversation.isObj &&
            (getOrNull "messages" conversation).isArr &&
            checkResumeState pf point.runId (getOrNull "resume_state" point.payload)
            then some point else none
        | _, _ => none

theorem safe_resume_point_eq (point checked : RunResumePoint) (h : safeResumePoint pf point = some checked) :
    checked = point := by
  unfold safeResumePoint at h
  split at h
  · cases h
  split at h
  · cases h
  split at h
  · cases h
  split at h
  · cases h
  split at h
  · split at h
    · exact (Option.some.inj h).symm
    · cases h
  · cases h

end SuiteHarness.Sessions
