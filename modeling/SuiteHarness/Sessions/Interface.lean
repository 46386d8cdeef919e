import SuiteHarness.Sessions.Models

/-!
# The session store contract

One value per call of the store protocol, one per normal answer. Every call
runs under the store lock and, for the durable store, in one transaction, so a
call is a single step. Each step reads the injected clock and the wall clock;
nothing relates the readings of different steps unless a theorem says so.
-/

set_option autoImplicit false

namespace SuiteHarness.Sessions
open SuiteHarness.Library

structure Readings where
  clock : ℤ
  wall : ℤ
  deriving DecidableEq, Repr

structure AppendArgs where
  eventId : String
  eventType : TranscriptEventType
  payload : Json := .null
  idempotencyKey : Option String := none
  expectedRevision : Option ℤ := none
  occurredAt : Option ℤ := none
  deriving DecidableEq

structure CheckpointArgs where
  checkpointId : String
  workflowState : Json
  expectedRevision : ℤ
  idempotencyKey : String
  deriving DecidableEq

inductive Call where
  | create (identity : SessionIdentity)
  | get (identity : SessionIdentity)
  | claimRun (identity : SessionIdentity) (runId ownerToken : String) (lease : ℤ)
  | finalizeRun (identity : SessionIdentity) (runId ownerToken : String) (lease : ℤ)
  | requestStop (identity : SessionIdentity) (runId : String)
  | stopRequested (identity : SessionIdentity) (runId : String)
  | activeRunIds (identity : SessionIdentity) (limit : ℤ)
  | saveResumePoint (identity : SessionIdentity) (point : RunResumePoint)
  | getResumePoint (identity : SessionIdentity) (runId : String)
  | append (identity : SessionIdentity) (args : AppendArgs)
  | saveCheckpoint (identity : SessionIdentity) (args : CheckpointArgs)
  | setStatus (identity : SessionIdentity) (status : SessionStatus) (expectedRevision : ℤ)
  | resume (identity : SessionIdentity)
  | recentTranscript (identity : SessionIdentity) (limit : ℤ)
  | transcriptPage (identity : SessionIdentity) (limit : ℤ) (beforeSequence : Option ℤ)
  deriving DecidableEq

inductive Reply where
  | session (record : SessionRecord)
  | maybeSession (record : Option SessionRecord)
  | claim (state : SessionRunClaimState)
  | finalized (done : Bool)
  | stop (outcome : RunStopOutcome)
  | stopFlag (requested : Bool)
  | runIds (ids : List String)
  | point (point : Option RunResumePoint)
  | event (event : TranscriptEvent)
  | checkpoint (checkpoint : SessionCheckpoint)
  | snapshot (snapshot : Option SessionSnapshot)
  | transcript (events : List TranscriptEvent)
  deriving DecidableEq

abbrev Outcome := Except SessionError Reply

def settle {σ α : Type} (s : σ) (f : α → Reply) : Except SessionError (σ × α) → σ × Outcome
  | .ok (t,a) => (t,.ok (f a))
  | .error e => (s,.error e)

inductive ClaimState where
  | active | finalizing | abandoned
  deriving DecidableEq, Repr

structure RunClaim where
  ownerToken : String
  state : ClaimState
  expiresAt : ℤ
  deriving DecidableEq

abbrev RunKey := SessionIdentity × String

instance runKeyLawful : LawfulBEq RunKey := inferInstance

def validateRunClaim (runId ownerToken : String) (lease : ℤ) : Except SessionError Unit :=
  if !isIdentifier runId then .error (.valueError "invalid session run_id")
  else if !isOwnerToken ownerToken then .error (.valueError "invalid session run owner_token")
  else if lease ≤ 0 ∨ 172800*1000000 < lease then
    .error (.valueError "session run lease_seconds must be in (0, 172800]")
  else .ok ()

def validateRunId (runId : String) : Except SessionError Unit :=
  if !isIdentifier runId then .error (.valueError "invalid session run_id") else .ok ()

def validateActiveRunLimit (limit : ℤ) : Except SessionError Unit :=
  if limit < 1 ∨ 1000 < limit then
    .error (.valueError "active run limit must be between 1 and 1000") else .ok ()

def checkRevision (record : SessionRecord) (expected : Option ℤ) : Except SessionError Unit :=
  match expected with
  | none => .ok ()
  | some e => if e ≠ record.revision then .error (.revisionConflict e record.revision) else .ok ()

def prepareAppend (limits : SessionStoreLimits) (args : AppendArgs) :
    Except SessionError (Option (String × ℕ) × Digest) := do
  let source ← if args.eventType = .memoryInvalidated then memoryInvalidationSource args.payload
    else .ok none
  match canonicalJson args.payload with
  | none => .error (.valueError "JSON values must not contain NaN or infinity")
  | some text =>
    if limits.maxTranscriptPayloadBytes < utf8Length text then
      .error (.payloadTooLarge "transcript payload exceeds max_transcript_payload_bytes")
    else .ok (source,digest (.obj [("type",.str args.eventType.value),("payload",args.payload)]))

def prepareCheckpoint (limits : SessionStoreLimits) (args : CheckpointArgs) :
    Except SessionError Digest :=
  match canonicalJson args.workflowState with
  | none => .error (.valueError "JSON values must not contain NaN or infinity")
  | some text =>
    if limits.maxCheckpointStateBytes < utf8Length text then
      .error (.payloadTooLarge "checkpoint state exceeds max_checkpoint_state_bytes")
    else .ok (digest args.workflowState)

variable (identity : SessionIdentity)

def newRecord (now : ℤ) : SessionRecord :=
  ⟨identity,.active,0,0,Dict.empty,now,now⟩

def newEvent (args : AppendArgs) (sequence revision : ℕ) (now : ℤ) : TranscriptEvent :=
  ⟨identity,args.eventId,sequence,revision,args.eventType,args.payload,args.occurredAt.getD now,
    args.idempotencyKey⟩

def newCheckpoint (args : CheckpointArgs) (lastEventSequence revision : ℕ) (now : ℤ) : SessionCheckpoint :=
  ⟨identity,args.checkpointId,revision,args.workflowState,lastEventSequence,now,
    args.idempotencyKey⟩

def validateEvent (event : TranscriptEvent) : Except SessionError TranscriptEvent :=
  if !isIdentifier event.eventId then .error (.valueError "invalid event_id")
  else if event.idempotencyKey.any (fun k => !isIdentifier k) then
    .error (.valueError "invalid idempotency_key")
  else .ok event

def validateCheckpoint (checkpoint : SessionCheckpoint) : Except SessionError SessionCheckpoint :=
  if !isIdentifier checkpoint.checkpointId then .error (.valueError "invalid checkpoint_id")
  else if !isIdentifier checkpoint.idempotencyKey then
    .error (.valueError "invalid idempotency_key")
  else .ok checkpoint

def stateBytes (checkpoint : SessionCheckpoint) : ℕ := utf8Length checkpoint.workflowState.render

def recordAfterEvent (record : SessionRecord) (event : TranscriptEvent)
    (source : Option (String × ℕ)) : SessionRecord :=
  { record with
    revision := event.revision
    memoryInvalidatedRevision := if event.type = .memoryInvalidated then event.revision
      else record.memoryInvalidatedRevision
    memorySourceVersions := match source with
      | none => record.memorySourceVersions
      | some (ns,v) => record.memorySourceVersions.set ns v
    updatedAt := max record.updatedAt event.occurredAt }

def resumePointFresh (point : RunResumePoint) (now : ℤ) : Bool :=
  decide (0 ≤ now-point.createdAt) && decide (now-point.createdAt < resumePointTtl)

end SuiteHarness.Sessions
