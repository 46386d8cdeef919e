import SuiteHarness.Sessions.Interface

/-!
# The in-memory session store

`InMemorySessionStore` with its ten dictionaries. Iteration order is that of
the dictionaries, which decides ties when saved points are trimmed.
-/

set_option autoImplicit false

namespace SuiteHarness.Sessions
open SuiteHarness.Library

structure InMemorySessionStore where
  sessions : Dict SessionIdentity SessionRecord
  events : Dict SessionIdentity (List TranscriptEvent)
  checkpoints : Dict SessionIdentity (List SessionCheckpoint)
  eventIdempotency : Dict RunKey (Digest × TranscriptEvent)
  eventIds : Dict RunKey TranscriptEvent
  checkpointIdempotency : Dict RunKey (Digest × SessionCheckpoint)
  runClaims : Dict RunKey RunClaim
  runStops : List RunKey
  resumePoints : Dict RunKey RunResumePoint
  resumePointBytes : Dict RunKey ℕ
  deriving DecidableEq

namespace InMemorySessionStore

def init : InMemorySessionStore :=
  ⟨Dict.empty,Dict.empty,Dict.empty,Dict.empty,Dict.empty,Dict.empty,Dict.empty,[],
    Dict.empty,Dict.empty⟩

variable (now : ℤ) (pf : Platform) (limits : SessionStoreLimits) (r : Readings) (s : InMemorySessionStore)
  (identity : SessionIdentity)

def require : Except SessionError SessionRecord :=
  match s.sessions.get? identity with
  | some record => .ok record
  | none => .error (.notFound "session was not found for this identity")

def eventsOf : List TranscriptEvent :=
  (s.events.get? identity).getD []

def checkpointsOf : List SessionCheckpoint :=
  (s.checkpoints.get? identity).getD []

def setClaim (key : RunKey) (claim : RunClaim) : InMemorySessionStore :=
  { s with runClaims := s.runClaims.set key claim }

def create : Except SessionError (InMemorySessionStore × SessionRecord) :=
  match s.sessions.get? identity with
  | some record => .ok (s,record)
  | none =>
    if limits.maxSessions ≤ s.sessions.size then
      .error (.capacity "session store reached max_sessions")
    else
      let record := newRecord identity r.wall
      .ok ({ s with
        sessions := s.sessions.set identity record
        events := s.events.set identity []
        checkpoints := s.checkpoints.set identity [] },record)

def claimRun (runId ownerToken : String) (lease : ℤ) :
    Except SessionError (InMemorySessionStore × SessionRunClaimState) := do
  validateRunClaim runId ownerToken lease
  let _ ← s.require identity
  match s.runClaims.get? (identity,runId) with
  | none =>
    if limits.maxRunClaimsPerSession ≤
        s.runClaims.entries.countP (fun e => decide (e.1.1 = identity)) then
      .error (.capacity "session reached max_run_claims_per_session")
    else if limits.maxRunClaimsTotal ≤ s.runClaims.size then
      .error (.capacity "session store reached max_run_claims_total")
    else
      .ok (s.setClaim (identity,runId) ⟨ownerToken,.active,r.clock+lease⟩,.acquired)
  | some prior =>
    if prior.state ≠ .abandoned ∧ r.clock < prior.expiresAt then .ok (s,.active)
    else if prior.state ≠ .abandoned then
      .ok (s.setClaim (identity,runId) ⟨prior.ownerToken,.abandoned,prior.expiresAt⟩,.stale)
    else .ok (s,.stale)

def finalizeRun (runId ownerToken : String) (lease : ℤ) :
    Except SessionError (InMemorySessionStore × Bool) := do
  validateRunClaim runId ownerToken lease
  let _ ← s.require identity
  match s.runClaims.get? (identity,runId) with
  | none => .ok (s,false)
  | some prior =>
    if prior.ownerToken ≠ ownerToken ∨ prior.state ≠ .active then .ok (s,false)
    else .ok (s.setClaim (identity,runId) ⟨ownerToken,.finalizing,r.clock+lease⟩,true)

def requestStop (runId : String) : Except SessionError (InMemorySessionStore × RunStopOutcome) := do
  validateRunId runId
  match s.runClaims.get? (identity,runId) with
  | none => .ok (s,.notFound)
  | some claim =>
    if claim.state ≠ .active ∨ claim.expiresAt ≤ r.clock then .ok (s,.alreadyFinished)
    else if (identity,runId) ∈ s.runStops then .ok (s,.alreadyRequested)
    else .ok ({ s with runStops := s.runStops ++ [(identity,runId)] },.requested)

def stopRequested (runId : String) :
    Except SessionError (InMemorySessionStore × Bool) := do
  validateRunId runId
  .ok (s,decide ((identity,runId) ∈ s.runStops))

def activeRunIds (limit : ℤ) : Except SessionError (InMemorySessionStore × List String) := do
  validateActiveRunLimit limit
  .ok (s,((s.runClaims.entries.filter (fun e => decide (e.1.1 = identity) &&
    decide (e.2.state = .active) && decide (r.clock < e.2.expiresAt))).map
      (fun e => e.1.2)).take limit.toNat)

def discardResumePoint (key : RunKey) : InMemorySessionStore :=
  { s with
    resumePoints := s.resumePoints.erase key
    resumePointBytes := s.resumePointBytes.erase key }

def expireResumePoints : InMemorySessionStore :=
  let expired := (s.resumePoints.entries.filter
    (fun e => decide (resumePointTtl ≤ now-e.2.createdAt))).map Prod.fst
  expired.foldl discardResumePoint s

def bytesOf (key : RunKey) : ℕ :=
  (s.resumePointBytes.get? key).getD 0

def trimLoop (keep : RunKey) (maxCount maxBytes : ℕ) :
    List RunKey → ℕ → ℕ → InMemorySessionStore → InMemorySessionStore
  | [], _, _, s => s
  | key::keys, count, size, s =>
    if count ≤ maxCount ∧ size ≤ maxBytes then s
    else if key = keep then trimLoop keep maxCount maxBytes keys count size s
    else trimLoop keep maxCount maxBytes keys (count-1) (size-s.bytesOf key)
      (s.discardResumePoint key)

def trimScope (scope : Option SessionIdentity) (keep : RunKey) (maxCount maxBytes : ℕ)
    (s : InMemorySessionStore) : InMemorySessionStore :=
  let keys := ((s.resumePoints.entries.filter
    (fun e => scope.all (fun i => decide (e.1.1 = i)))).insertionSort
      (fun a b => a.2.createdAt ≤ b.2.createdAt)).map Prod.fst
  trimLoop keep maxCount maxBytes keys keys.length (keys.map s.bytesOf).sum s

def trimResumePoints (keep : RunKey) (s : InMemorySessionStore) : InMemorySessionStore :=
  trimScope none keep limits.maxResumePointsTotal limits.maxResumeBytesTotal
    (trimScope (some identity) keep limits.maxResumePointsPerSession
      limits.maxResumeBytesPerSession s)

def saveResumePoint (point : RunResumePoint) :
    Except SessionError (InMemorySessionStore × Option RunResumePoint) :=
  match safeResumePoint pf point with
  | none => .ok (s,none)
  | some checked =>
    if checked.identity ≠ identity then .ok (s,none)
    else if limits.maxResumePointBytes < pf.modelDumpJsonBytes checked then .ok (s,none)
    else
      let s := s.expireResumePoints r.clock
      let key : RunKey := (identity,checked.runId)
      match s.runClaims.get? key, s.sessions.get? identity with
      | some claim, some record =>
        if claim.state ≠ .active ∨ claim.expiresAt ≤ r.clock ∨ key ∈ s.runStops ∨
            resumePointFresh checked r.clock = false ∨
            checked.memoryInvalidatedRevision ≠ record.memoryInvalidatedRevision ∨
            checked.memorySourceVersions.sameItems record.memorySourceVersions = false ∨
            (s.resumePoints.get? key).any (fun prior =>
              decide (checked.createdAt < prior.createdAt)) = true
        then .ok (s,none)
        else
          let stored := { s with
            resumePoints := s.resumePoints.set key checked
            resumePointBytes := s.resumePointBytes.set key (pf.modelDumpJsonBytes checked) }
          .ok (stored.trimResumePoints limits identity key,some checked)
      | _, _ => .ok (s,none)

def getResumePoint (runId : String) :
    Except SessionError (InMemorySessionStore × Option RunResumePoint) := do
  validateRunId runId
  let s := s.expireResumePoints r.clock
  .ok (s,(s.resumePoints.get? (identity,runId)).filter
    (fun point => resumePointFresh point r.clock))

def totalEvents : ℕ :=
  (s.events.entries.map (fun e => e.2.length)).sum

variable (args : AppendArgs)

def storeEvent (fingerprint : Digest) (event : TranscriptEvent) (record : SessionRecord) :
    InMemorySessionStore :=
  { s with
    events := s.events.set identity (s.eventsOf identity ++ [event])
    eventIds := s.eventIds.set (identity,args.eventId) event
    eventIdempotency := match args.idempotencyKey with
      | none => s.eventIdempotency
      | some k => s.eventIdempotency.set (identity,k) (fingerprint,event)
    sessions := s.sessions.set identity record }

def voidPoints (finished : Option String) (s : InMemorySessionStore) : InMemorySessionStore :=
  let expired := s.expireResumePoints now
  match finished with
  | none => expired
  | some run => expired.discardResumePoint (identity,run)

def appendNew (source : Option (String × ℕ)) (fingerprint : Digest) (record : SessionRecord) :
    Except SessionError (InMemorySessionStore × TranscriptEvent) := do
  checkRevision record args.expectedRevision
  if limits.maxTranscriptEventsPerSession ≤ (s.eventsOf identity).length then
    .error (.capacity "session reached max_transcript_events_per_session")
  else if limits.maxTranscriptEventsTotal ≤ s.totalEvents then
    .error (.capacity "session store reached max_transcript_events_total")
  else
    let event ← validateEvent
      (newEvent identity args ((s.eventsOf identity).length+1) (record.revision+1) r.wall)
    let stored := s.storeEvent identity args fingerprint event
      (recordAfterEvent record event source)
    .ok (stored.voidPoints r.clock identity (finishedResumeRunId args.eventType args.payload),event)

def append : Except SessionError (InMemorySessionStore × TranscriptEvent) := do
  let (source,fingerprint) ← prepareAppend limits args
  let record ← s.require identity
  match args.idempotencyKey.bind (fun k => s.eventIdempotency.get? (identity,k)) with
  | some prior =>
    if prior.1 ≠ fingerprint then
      .error (.idempotencyConflict "event idempotency key was reused with different content")
    else .ok (s,prior.2)
  | none =>
    if source.any (fun v => decide (v.2 ≤ (record.memorySourceVersions.get? v.1).getD 0)) then
      match (s.eventsOf identity).find?
          (fun e => decide (e.revision = record.memoryInvalidatedRevision)) with
      | some event => .ok (s,event)
      | none => .error .assertion
    else if s.eventIds.contains (identity,args.eventId) then
      .error (.idempotencyConflict "event_id already exists in this session")
    else s.appendNew limits r identity args source fingerprint record

def pruneLoop (limits : SessionStoreLimits) (identity : SessionIdentity) :
    List SessionCheckpoint → Dict RunKey (Digest × SessionCheckpoint) →
      List SessionCheckpoint × Dict RunKey (Digest × SessionCheckpoint)
  | [], d => ([],d)
  | c::cs, d =>
    if limits.maxCheckpointsPerSession < (c::cs).length ∨
        limits.maxCheckpointBytesPerSession < ((c::cs).map stateBytes).sum then
      pruneLoop limits identity cs
        (match d.get? (identity,c.idempotencyKey) with
        | some prior => if prior.2.checkpointId = c.checkpointId
            then d.erase (identity,c.idempotencyKey) else d
        | none => d)
    else (c::cs,d)

def checkpointNew (args : CheckpointArgs) (fingerprint : Digest) (record : SessionRecord) :
    Except SessionError (InMemorySessionStore × SessionCheckpoint) := do
  checkRevision record (some args.expectedRevision)
  let checkpoint ← validateCheckpoint
    (newCheckpoint identity args (s.eventsOf identity).length (record.revision+1) r.wall)
  let pruned := pruneLoop limits identity (s.checkpointsOf identity ++ [checkpoint])
    (s.checkpointIdempotency.set (identity,args.idempotencyKey) (fingerprint,checkpoint))
  .ok ({ s with
    checkpoints := s.checkpoints.set identity pruned.1
    checkpointIdempotency := pruned.2
    sessions := s.sessions.set identity
      { record with revision := checkpoint.revision, updatedAt := r.wall } },checkpoint)

def saveCheckpoint (args : CheckpointArgs) :
    Except SessionError (InMemorySessionStore × SessionCheckpoint) := do
  let fingerprint ← prepareCheckpoint limits args
  let record ← s.require identity
  match s.checkpointIdempotency.get? (identity,args.idempotencyKey) with
  | some prior =>
    if prior.1 ≠ fingerprint then
      .error (.idempotencyConflict "checkpoint idempotency key was reused with different state")
    else .ok (s,prior.2)
  | none =>
    if (s.checkpointsOf identity).any (fun c => decide (c.checkpointId = args.checkpointId)) then
      .error (.idempotencyConflict "checkpoint_id already exists in this session")
    else s.checkpointNew limits r identity args fingerprint record

def setStatus (status : SessionStatus) (expectedRevision : ℤ) :
    Except SessionError (InMemorySessionStore × SessionRecord) := do
  let record ← s.require identity
  checkRevision record (some expectedRevision)
  let updated := { record with
    status := status, revision := record.revision+1, updatedAt := r.wall }
  .ok ({ s with sessions := s.sessions.set identity updated },updated)

def resume : Except SessionError (InMemorySessionStore × Option SessionSnapshot) :=
  match s.sessions.get? identity with
  | none => .ok (s,none)
  | some record =>
    -- `SessionSnapshot` runs the record's own validator again.
    if record.updatedAt < record.createdAt then
      .error (.valueError "updated_at must not precede created_at")
    else
      let checkpoint := (s.checkpointsOf identity).getLast?
      let after := (checkpoint.map (fun c => c.lastEventSequence)).getD 0
      .ok (s,some ⟨record,checkpoint,
        (s.eventsOf identity).filter (fun e => decide (after < e.sequence))⟩)

def recentTranscript (limit : ℤ) :
    Except SessionError (InMemorySessionStore × List TranscriptEvent) := do
  if limit < 1 ∨ 1000 < limit then
    .error (.valueError "recent transcript limit must be between 1 and 1000")
  else
    let _ ← s.require identity
    let events := s.eventsOf identity
    .ok (s,events.drop (events.length-limit.toNat))

def transcriptPage (limit : ℤ) (beforeSequence : Option ℤ) :
    Except SessionError (InMemorySessionStore × List TranscriptEvent) := do
  validateTranscriptPage limit beforeSequence
  let _ ← s.require identity
  let events := s.eventsOf identity
  let stop := match beforeSequence with
    | none => events.length
    | some b => min events.length (b-1).toNat
  .ok (s,(events.take stop).drop (stop-limit.toNat))

def call (pf : Platform) (limits : SessionStoreLimits) (r : Readings)
    (s : InMemorySessionStore) : Call → InMemorySessionStore × Outcome
  | .create identity => settle s .session (s.create limits r identity)
  | .get identity => (s,.ok (.maybeSession (s.sessions.get? identity)))
  | .claimRun identity run owner lease =>
    settle s .claim (s.claimRun limits r identity run owner lease)
  | .finalizeRun identity run owner lease =>
    settle s .finalized (s.finalizeRun r identity run owner lease)
  | .requestStop identity run => settle s .stop (s.requestStop r identity run)
  | .stopRequested identity run => settle s .stopFlag (s.stopRequested identity run)
  | .activeRunIds identity limit => settle s .runIds (s.activeRunIds r identity limit)
  | .saveResumePoint identity point =>
    settle s .point (s.saveResumePoint pf limits r identity point)
  | .getResumePoint identity run => settle s .point (s.getResumePoint r identity run)
  | .append identity args => settle s .event (s.append limits r identity args)
  | .saveCheckpoint identity args =>
    settle s .checkpoint (s.saveCheckpoint limits r identity args)
  | .setStatus identity status expected =>
    settle s .session (s.setStatus r identity status expected)
  | .resume identity => settle s .snapshot (s.resume identity)
  | .recentTranscript identity limit => settle s .transcript (s.recentTranscript identity limit)
  | .transcriptPage identity limit before =>
    settle s .transcript (s.transcriptPage identity limit before)

end InMemorySessionStore
end SuiteHarness.Sessions
