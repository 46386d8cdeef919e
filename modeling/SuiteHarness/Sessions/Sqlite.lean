import SuiteHarness.Sessions.Interface
import SuiteHarness.Library.Table

/-!
# The SQLite session store

`SQLiteSessionStore` over its six tables. A method that raises rolls its
transaction back, so an error returns no database. A JSON column holds the
value it encodes; `_record` revalidates a session row each time it is read.
-/

set_option autoImplicit false

namespace SuiteHarness.Sessions
open SuiteHarness.Library SuiteHarness.Library.Table

structure EventRow where
  event : TranscriptEvent
  payloadDigest : Digest
  deriving DecidableEq

structure CheckpointRow where
  checkpoint : SessionCheckpoint
  stateDigest : Digest
  deriving DecidableEq

structure ClaimRow where
  identity : SessionIdentity
  runId : String
  ownerToken : String
  claimState : ClaimState
  claimedAtUs : ℤ
  expiresAtUs : ℤ
  deriving DecidableEq

structure ResumeRow where
  rowid : ℕ
  identity : SessionIdentity
  runId : String
  point : RunResumePoint
  pointBytes : ℕ
  createdAtUs : ℤ
  deriving DecidableEq

structure StopRow where
  identity : SessionIdentity
  runId : String
  requestedAtUs : ℤ
  deriving DecidableEq

structure SQLiteSessionStore where
  sessions : List SessionRecord
  transcriptEvents : List EventRow
  sessionCheckpoints : List CheckpointRow
  runClaims : List ClaimRow
  resumePoints : List ResumeRow
  runStops : List StopRow
  deriving DecidableEq

namespace SQLiteSessionStore

def init : SQLiteSessionStore := ⟨[],[],[],[],[],[]⟩

def record (row : SessionRecord) : Except SessionError SessionRecord :=
  if row.updatedAt < row.createdAt then
    .error (.valueError "updated_at must not precede created_at")
  else .ok row

variable (now : ℤ) (pf : Platform) (limits : SessionStoreLimits) (r : Readings) (db : SQLiteSessionStore)
  (identity : SessionIdentity)

def sessionRow : Option SessionRecord :=
  db.sessions.find? (fun row => decide (row.identity = identity))

def require : Except SessionError SessionRecord :=
  match db.sessionRow identity with
  | some row => record row
  | none => .error (.notFound "session was not found for this identity")

def eventRows : List EventRow :=
  db.transcriptEvents.filter (fun row => decide (row.event.identity = identity))

def rowsOf (rows : List CheckpointRow) : List CheckpointRow :=
  rows.filter (fun row => decide (row.checkpoint.identity = identity))

def checkpointRows : List CheckpointRow :=
  rowsOf identity db.sessionCheckpoints

variable (runId : String)

def claimRow : Option ClaimRow :=
  db.runClaims.find? (fun row => decide (row.identity = identity ∧ row.runId = runId))

def stopRow : Option StopRow :=
  db.runStops.find? (fun row => decide (row.identity = identity ∧ row.runId = runId))

def resumeRow : Option ResumeRow :=
  db.resumePoints.find? (fun row => decide (row.identity = identity ∧ row.runId = runId))

def updateSession (f : SessionRecord → SessionRecord) : SQLiteSessionStore :=
  { db with sessions := updateWhere (fun row => decide (row.identity = identity)) f db.sessions }

def insertSession (row : SessionRecord) : SQLiteSessionStore :=
  { db with sessions := db.sessions ++ [row] }

def create : Except SessionError (SQLiteSessionStore × SessionRecord) :=
  match db.sessionRow identity with
  | some _ => do
    let row ← db.require identity
    .ok (db,row)
  | none =>
    if limits.maxSessions ≤ db.sessions.length then
      .error (.capacity "session store reached max_sessions")
    else do
      let inserted := db.insertSession (newRecord identity r.clock)
      let row ← inserted.require identity
      .ok (inserted,row)

def get : Except SessionError (SQLiteSessionStore × Option SessionRecord) :=
  match db.sessionRow identity with
  | none => .ok (db,none)
  | some row => do
    let row ← record row
    .ok (db,some row)

def claimRun (runId ownerToken : String) (lease : ℤ) :
    Except SessionError (SQLiteSessionStore × SessionRunClaimState) := do
  validateRunClaim runId ownerToken lease
  let _ ← db.require identity
  match db.claimRow identity runId with
  | none =>
    if limits.maxRunClaimsPerSession ≤
        db.runClaims.countP (fun row => decide (row.identity = identity)) then
      .error (.capacity "session reached max_run_claims_per_session")
    else if limits.maxRunClaimsTotal ≤ db.runClaims.length then
      .error (.capacity "session store reached max_run_claims_total")
    else
      .ok ({ db with runClaims := db.runClaims ++
        [⟨identity,runId,ownerToken,.active,r.clock,r.clock+lease⟩] },.acquired)
  | some prior =>
    if prior.claimState ≠ .abandoned ∧ r.clock < prior.expiresAtUs then .ok (db,.active)
    else if prior.claimState ≠ .abandoned then
      let claims := updateWhere (fun row => decide (row.identity = identity ∧ row.runId = runId))
        (fun row => { row with claimState := .abandoned }) db.runClaims
      .ok ({ db with runClaims := claims },.stale)
    else .ok (db,.stale)

def finalizes (runId ownerToken : String) (row : ClaimRow) : Bool :=
  decide (row.identity = identity ∧ row.runId = runId ∧ row.ownerToken = ownerToken ∧
    row.claimState = .active)

def finalizeRun (runId ownerToken : String) (lease : ℤ) :
    Except SessionError (SQLiteSessionStore × Bool) := do
  validateRunClaim runId ownerToken lease
  let _ ← db.require identity
  let claims := updateWhere (finalizes identity runId ownerToken)
    (fun row => { row with claimState := .finalizing, expiresAtUs := r.clock+lease }) db.runClaims
  .ok ({ db with runClaims := claims },
    decide (db.runClaims.countP (finalizes identity runId ownerToken) = 1))

def requestStop : Except SessionError (SQLiteSessionStore × RunStopOutcome) := do
  validateRunId runId
  match db.claimRow identity runId with
  | none => .ok (db,.notFound)
  | some claim =>
    if claim.claimState ≠ .active ∨ claim.expiresAtUs ≤ r.clock then .ok (db,.alreadyFinished)
    else match db.stopRow identity runId with
      | some _ => .ok (db,.alreadyRequested)
      | none => .ok ({ db with runStops := db.runStops ++ [⟨identity,runId,r.clock⟩] },.requested)

def stopRequested : Except SessionError (SQLiteSessionStore × Bool) := do
  validateRunId runId
  .ok (db,(db.stopRow identity runId).isSome)

def activeRunIds (limit : ℤ) : Except SessionError (SQLiteSessionStore × List String) := do
  validateActiveRunLimit limit
  let rows := db.runClaims.filter (fun row => decide (row.identity = identity) &&
    decide (row.claimState = .active) && decide (r.clock < row.expiresAtUs))
  .ok (db,((rows.insertionSort (fun a b => a.claimedAtUs < b.claimedAtUs ∨
    a.claimedAtUs = b.claimedAtUs ∧ a.runId ≤ b.runId)).map (fun row => row.runId)).take
      limit.toNat)

def expireResumePoints : SQLiteSessionStore :=
  { db with resumePoints :=
      deleteWhere (fun row => decide (row.createdAtUs ≤ now-resumePointTtl)) db.resumePoints }

def trimLoop (keepRowid maxCount maxBytes : ℕ) : List ResumeRow → ℕ → ℕ → List ℕ
  | [], _, _ => []
  | row::rows, count, size =>
    if count ≤ maxCount ∧ size ≤ maxBytes then []
    else if row.rowid = keepRowid then trimLoop keepRowid maxCount maxBytes rows count size
    else row.rowid::trimLoop keepRowid maxCount maxBytes rows (count-1) (size-row.pointBytes)

def trimScope (scope : Option SessionIdentity) (keepRowid maxCount maxBytes : ℕ)
    (db : SQLiteSessionStore) : SQLiteSessionStore :=
  let rows := (db.resumePoints.filter
    (fun row => scope.all (fun i => decide (row.identity = i)))).insertionSort
      (fun a b => a.createdAtUs < b.createdAtUs ∨
        a.createdAtUs = b.createdAtUs ∧ a.rowid ≤ b.rowid)
  let removed := trimLoop keepRowid maxCount maxBytes rows rows.length
    (rows.map (fun row => row.pointBytes)).sum
  { db with resumePoints :=
      deleteWhere (fun row => decide (row.rowid ∈ removed)) db.resumePoints }

def trimResumePoints (keepRowid : ℕ) (db : SQLiteSessionStore) : SQLiteSessionStore :=
  trimScope none keepRowid limits.maxResumePointsTotal limits.maxResumeBytesTotal
    (trimScope (some identity) keepRowid limits.maxResumePointsPerSession
      limits.maxResumeBytesPerSession db)

def upsertResume (point : RunResumePoint) (bytes : ℕ) : SQLiteSessionStore :=
  let rows := match db.resumeRow identity runId with
    | some _ => updateWhere (fun row => decide (row.identity = identity ∧ row.runId = runId))
        (fun row => { row with point := point, pointBytes := bytes, createdAtUs := point.createdAt })
        db.resumePoints
    | none => db.resumePoints ++ [⟨maxOf (fun row => row.rowid) db.resumePoints+1,identity,runId,
        point,bytes,point.createdAt⟩]
  { db with resumePoints := rows }

def saveResumePoint (point : RunResumePoint) :
    Except SessionError (SQLiteSessionStore × Option RunResumePoint) :=
  match safeResumePoint pf point with
  | none => .ok (db,none)
  | some checked =>
    if checked.identity ≠ identity then .ok (db,none)
    else if limits.maxResumePointBytes < pf.modelDumpJsonBytes checked then .ok (db,none)
    else
      let db := db.expireResumePoints r.clock
      match db.claimRow identity checked.runId with
      | none => .ok (db,none)
      | some claim =>
        if claim.claimState ≠ .active ∨ claim.expiresAtUs ≤ r.clock ∨
            (db.stopRow identity checked.runId).isSome = true ∨
            resumePointFresh checked r.clock = false ∨
            (db.resumeRow identity checked.runId).any (fun prior =>
              decide (checked.createdAt < prior.createdAtUs)) = true
        then .ok (db,none)
        else do
          let session ← db.require identity
          if checked.memoryInvalidatedRevision ≠ session.memoryInvalidatedRevision ∨
              checked.memorySourceVersions.sameItems session.memorySourceVersions = false
          then .ok (db,none)
          else
            let stored := db.upsertResume identity checked.runId checked
              (pf.modelDumpJsonBytes checked)
            match stored.resumeRow identity checked.runId with
            | none => .error .assertion
            | some row => .ok (stored.trimResumePoints limits identity row.rowid,some checked)

def getResumePoint (now later : ℤ) (db : SQLiteSessionStore) (identity : SessionIdentity) (runId : String) :
    Except SessionError (SQLiteSessionStore × Option RunResumePoint) := do
  validateRunId runId
  let db := db.expireResumePoints now
  match db.resumeRow identity runId with
  | none => .ok (db,none)
  | some row => .ok (db,(safeResumePoint pf row.point).filter (fun point =>
      decide (point.identity = identity) && decide (point.runId = runId) &&
        resumePointFresh point later))

def deleteResume : SQLiteSessionStore :=
  let mine : ResumeRow → Bool := fun row => decide (row.identity = identity ∧ row.runId = runId)
  { db with resumePoints := deleteWhere mine db.resumePoints }

def insertEvent (fingerprint : Digest) (event : TranscriptEvent) (record : SessionRecord) :
    SQLiteSessionStore :=
  let row : EventRow := ⟨event,fingerprint⟩
  let inserted := { db with transcriptEvents := db.transcriptEvents ++ [row] }
  inserted.updateSession identity (fun _ => record)

def voidPoints (finished : Option String) (db : SQLiteSessionStore) : SQLiteSessionStore :=
  let expired := db.expireResumePoints now
  match finished with
  | none => expired
  | some run => expired.deleteResume identity run

def appendNew (args : AppendArgs) (source : Option (String × ℕ)) (fingerprint : Digest)
    (session : SessionRecord) :
    Except SessionError (SQLiteSessionStore × TranscriptEvent) := do
  checkRevision session args.expectedRevision
  if limits.maxTranscriptEventsPerSession ≤ (db.eventRows identity).length then
    .error (.capacity "session reached max_transcript_events_per_session")
  else if limits.maxTranscriptEventsTotal ≤ db.transcriptEvents.length then
    .error (.capacity "session store reached max_transcript_events_total")
  else
    let event ← validateEvent (newEvent identity args
      (maxOf (fun row : EventRow => row.event.sequence) (db.eventRows identity)+1)
      (session.revision+1) r.wall)
    -- The UNIQUE constraints of the insert; the idempotency key is free here.
    if (db.eventRows identity).any (fun row => decide (row.event.eventId = args.eventId) ||
        decide (row.event.sequence = event.sequence)) then
      .error (.idempotencyConflict
        "event_id or idempotency_key already exists in this session")
    else
      let inserted := db.insertEvent identity fingerprint event
        (recordAfterEvent session event source)
      .ok (inserted.voidPoints r.clock identity
        (finishedResumeRunId args.eventType args.payload),event)

def append (args : AppendArgs) :
    Except SessionError (SQLiteSessionStore × TranscriptEvent) := do
  let (source,fingerprint) ← prepareAppend limits args
  let session ← db.require identity
  match args.idempotencyKey.bind (fun k => db.transcriptEvents.find? (fun row =>
      decide (row.event.identity = identity ∧ row.event.idempotencyKey = some k))) with
  | some prior =>
    if prior.payloadDigest ≠ fingerprint then
      .error (.idempotencyConflict "event idempotency key was reused with different content")
    else .ok (db,prior.event)
  | none =>
    if source.any (fun v => decide (v.2 ≤ (session.memorySourceVersions.get? v.1).getD 0)) then
      match db.transcriptEvents.find? (fun row => decide (row.event.identity = identity ∧
          row.event.revision = session.memoryInvalidatedRevision)) with
      | some prior => .ok (db,prior.event)
      | none => .error .assertion
    else db.appendNew limits r identity args source fingerprint session

def pruneBytes (limits : SessionStoreLimits) (identity : SessionIdentity) :
    ℕ → List CheckpointRow → List CheckpointRow
  | 0, rows => rows
  | n+1, rows =>
    let mine := rowsOf identity rows
    if (mine.map (fun row => stateBytes row.checkpoint)).sum ≤
        limits.maxCheckpointBytesPerSession then rows
    else match (orderBy (fun row => row.checkpoint.revision) mine).head? with
      | none => rows
      | some oldest => pruneBytes limits identity n (deleteWhere (fun row =>
          decide (row.checkpoint.identity = identity ∧
            row.checkpoint.revision = oldest.checkpoint.revision)) rows)

def pruneCheckpoints (rows : List CheckpointRow) : List CheckpointRow :=
  let mine := rowsOf identity rows
  let newest : List ℕ := ((orderByDesc (fun row => row.checkpoint.revision) mine).take
    limits.maxCheckpointsPerSession).map (fun row => row.checkpoint.revision)
  let kept := deleteWhere (fun row => decide (row.checkpoint.identity = identity ∧
    row.checkpoint.revision ∉ newest)) rows
  pruneBytes limits identity (rowsOf identity kept).length kept

def checkpointNew (args : CheckpointArgs) (stateDigest : Digest) (session : SessionRecord) :
    Except SessionError (SQLiteSessionStore × SessionCheckpoint) := do
  checkRevision session (some args.expectedRevision)
  let checkpoint ← validateCheckpoint (newCheckpoint identity args
    (maxOf (fun row : EventRow => row.event.sequence) (db.eventRows identity))
    (session.revision+1) r.wall)
  -- The UNIQUE constraints of the insert; the idempotency key is free here.
  if (db.checkpointRows identity).any (fun row =>
      decide (row.checkpoint.checkpointId = args.checkpointId) ||
      decide (row.checkpoint.revision = checkpoint.revision)) then
    .error (.idempotencyConflict
      "checkpoint_id or idempotency_key already exists in this session")
  else
    let rows := pruneCheckpoints limits identity
      (db.sessionCheckpoints ++ [⟨checkpoint,stateDigest⟩])
    let inserted := { db with sessionCheckpoints := rows }
    .ok (inserted.updateSession identity (fun row =>
      { row with revision := checkpoint.revision, updatedAt := r.wall }),checkpoint)

def saveCheckpoint (args : CheckpointArgs) :
    Except SessionError (SQLiteSessionStore × SessionCheckpoint) := do
  let stateDigest ← prepareCheckpoint limits args
  let session ← db.require identity
  match db.sessionCheckpoints.find? (fun row => decide (row.checkpoint.identity = identity ∧
      row.checkpoint.idempotencyKey = args.idempotencyKey)) with
  | some prior =>
    if prior.stateDigest ≠ stateDigest then
      .error (.idempotencyConflict "checkpoint idempotency key was reused with different state")
    else .ok (db,prior.checkpoint)
  | none => db.checkpointNew limits r identity args stateDigest session

def setStatus (status : SessionStatus) (expectedRevision : ℤ) :
    SQLiteSessionStore × Except SessionError SessionRecord :=
  match (do
    let session ← db.require identity
    checkRevision session (some expectedRevision)
    .ok session : Except SessionError SessionRecord) with
  | .error e => (db,.error e)
  | .ok session =>
    -- The answer is read back after the commit, so its decoder can still raise.
    let updated := db.updateSession identity (fun row =>
      { row with status := status, revision := session.revision+1, updatedAt := r.wall })
    (updated,updated.require identity)

def resume : Except SessionError (SQLiteSessionStore × Option SessionSnapshot) :=
  match db.sessionRow identity with
  | none => .ok (db,none)
  | some row => do
    let checkpoint := ((orderByDesc (fun row => row.checkpoint.revision)
      (db.checkpointRows identity)).head?).map (fun row => row.checkpoint)
    let after := (checkpoint.map (fun c => c.lastEventSequence)).getD 0
    let rows := orderBy (fun row : EventRow => row.event.sequence)
      ((db.eventRows identity).filter (fun row => decide (after < row.event.sequence)))
    let session ← record row
    .ok (db,some ⟨session,checkpoint,rows.map (fun row => row.event)⟩)

def recentTranscript (limit : ℤ) :
    Except SessionError (SQLiteSessionStore × List TranscriptEvent) := do
  if limit < 1 ∨ 1000 < limit then
    .error (.valueError "recent transcript limit must be between 1 and 1000")
  else
    let _ ← db.require identity
    let rows := (orderByDesc (fun row : EventRow => row.event.sequence)
      (db.eventRows identity)).take limit.toNat
    .ok (db,(rows.reverse).map (fun row => row.event))

def bindInt (n : Option ℤ) : Except SessionError (Option ℤ) :=
  if n.any (fun n => decide (n < -2^63 ∨ 2^63 ≤ n)) then .error .overflow else .ok n

def transcriptPage (limit : ℤ) (beforeSequence : Option ℤ) :
    Except SessionError (SQLiteSessionStore × List TranscriptEvent) := do
  validateTranscriptPage limit beforeSequence
  let _ ← db.require identity
  let before ← bindInt beforeSequence
  let rows := (orderByDesc (fun row : EventRow => row.event.sequence)
    ((db.eventRows identity).filter
      (fun row => before.all (fun b => decide ((row.event.sequence : ℤ) < b))))).take limit.toNat
  .ok (db,(rows.reverse).map (fun row => row.event))

def call (pf : Platform) (limits : SessionStoreLimits) (r : Readings)
    (db : SQLiteSessionStore) : Call → SQLiteSessionStore × Outcome
  | .create identity => settle db .session (db.create limits r identity)
  | .get identity => settle db .maybeSession (db.get identity)
  | .claimRun identity run owner lease =>
    settle db .claim (db.claimRun limits r identity run owner lease)
  | .finalizeRun identity run owner lease =>
    settle db .finalized (db.finalizeRun r identity run owner lease)
  | .requestStop identity run => settle db .stop (db.requestStop r identity run)
  | .stopRequested identity run => settle db .stopFlag (db.stopRequested identity run)
  | .activeRunIds identity limit => settle db .runIds (db.activeRunIds r identity limit)
  | .saveResumePoint identity point =>
    settle db .point (db.saveResumePoint pf limits r identity point)
  | .getResumePoint identity run =>
    settle db .point (db.getResumePoint pf r.clock r.clock identity run)
  | .append identity args => settle db .event (db.append limits r identity args)
  | .saveCheckpoint identity args =>
    settle db .checkpoint (db.saveCheckpoint limits r identity args)
  | .setStatus identity status expected =>
    ((db.setStatus r identity status expected).1,
      (db.setStatus r identity status expected).2.map .session)
  | .resume identity => settle db .snapshot (db.resume identity)
  | .recentTranscript identity limit =>
    settle db .transcript (db.recentTranscript identity limit)
  | .transcriptPage identity limit before =>
    settle db .transcript (db.transcriptPage identity limit before)

end SQLiteSessionStore
end SuiteHarness.Sessions
