import SuiteHarness.Identifier
import SuiteHarness.Library.Partition
import SuiteHarness.Library.Machine

/-!
# Channel event deduplication

`SQLiteChannelEventDeduplicator` over the two tables of one database. Instances
of any processes share the tables; each keeps the owner tokens of its tasks to
itself. A call reads its clock once and then runs one transaction, which is one
step here. Owner tokens are random, so they are drawn from a counter.
-/

set_option autoImplicit false

namespace SuiteHarness.Persistence

open SuiteHarness.Library

inductive ChannelEventScope where
  | deployment (deploymentId channelId : Identifier)
  | product (tenantId productId channelId : Identifier)
  deriving DecidableEq

abbrev StorageKey := String × String × String × String × String

def ChannelEventScope.storageKey : ChannelEventScope → StorageKey
  | .deployment deploymentId channelId => ("deployment",deploymentId.val,"","",channelId.val)
  | .product tenantId productId channelId =>
    ("product","",tenantId.val,productId.val,channelId.val)

structure Deduplicator where
  scope : ChannelEventScope
  ttl : ℤ
  processingLease : ℤ
  maxEntries : ℕ

/-- The instances of all processes, and the conversion of a clock reading into
the stored integer, which goes through floating point numbers. -/
structure DedupeEnv where
  instances : ℕ → Deduplicator
  epochUs : ℤ → ℤ

structure CompletedRow where
  claimedAtUs : ℤ
  expiresAtUs : ℤ
  deriving DecidableEq

structure ProcessingRow where
  ownerToken : ℕ
  claimedAtUs : ℤ
  expiresAtUs : ℤ
  deriving DecidableEq

structure ClaimOwner where
  deduplicator : ℕ
  task : ℕ
  eventId : String
  deriving DecidableEq

structure DedupeState where
  claims : Dict (StorageKey × String) CompletedRow := Dict.empty
  processing : Dict (StorageKey × String) ProcessingRow := Dict.empty
  owned : Dict ClaimOwner (ℕ × ℤ) := Dict.empty
  drawn : ℕ := 0

inductive DedupeError where
  | valueError (message : String)
  | runtimeError (message : String)
  | capacityError (message : String)
  | integrityError
  deriving DecidableEq

inductive DedupeAnswer where
  /-- `claim` returned true; the token stays inside the instance. -/
  | claimed (ownerToken : ℕ)
  | duplicate
  | completed (ownerToken : ℕ)
  | released (ownerToken : Option ℕ)
  | purged (count : ℕ)
  | raised (error : DedupeError)
  deriving DecidableEq

inductive DedupeOp where
  | claim (owner : ClaimOwner) (now : ℤ)
  | complete (owner : ClaimOwner) (now : ℤ)
  | release (owner : ClaimOwner)
  /-- A `release` that is cancelled before its transaction. -/
  | releaseCancelled (owner : ClaimOwner)
  | purgeExpired (deduplicator : ℕ) (now : ℤ)
  deriving DecidableEq

def validEventId (eventId : String) : Bool :=
  decide (eventId ≠ "") && decide (eventId.toList.length ≤ 1024) &&
    !eventId.toList.contains (Char.ofNat 0)

namespace DedupeState

def purge (s : DedupeState) (scope : StorageKey) (nowUs : ℤ) : DedupeState :=
  { s with
    claims := s.claims.deleteExpired scope CompletedRow.expiresAtUs nowUs
    processing := s.processing.deleteExpired scope ProcessingRow.expiresAtUs nowUs }

def rows (s : DedupeState) (scope : StorageKey) : ℕ :=
  s.claims.countIn scope+s.processing.countIn scope

def ownershipExpired : DedupeAnswer :=
  .raised (.runtimeError "event claim ownership expired before completion")

variable (env : DedupeEnv)
variable (s : DedupeState) (owner : ClaimOwner)

def scopeOf : StorageKey :=
  (env.instances owner.deduplicator).scope.storageKey

def keyOf : StorageKey × String :=
  (scopeOf env owner,owner.eventId)

def claim (now : ℤ) : DedupeState × DedupeAnswer :=
  if !validEventId owner.eventId then (s,.raised (.valueError "invalid channel event_id"))
  else
    let config := env.instances owner.deduplicator
    let scope := scopeOf env owner
    let nowUs := env.epochUs now
    let expiresAtUs := env.epochUs (now+config.processingLease)
    let drawn := { s with drawn := s.drawn+1 }
    let purged := drawn.purge scope nowUs
    if purged.claims.contains (keyOf env owner) ||
        purged.processing.contains (keyOf env owner) then (purged,.duplicate)
    else if config.maxEntries ≤ purged.rows scope then
      -- the transaction is rolled back, and the purge with it
      (drawn,.raised (.capacityError "channel deduplication scope has reached its event limit"))
    else
      ({ purged with
        processing := purged.processing.set (keyOf env owner) ⟨s.drawn,nowUs,expiresAtUs⟩
        owned := (s.owned.eraseWhere (fun e => decide (e.1.deduplicator = owner.deduplicator) &&
          decide (e.1.task = owner.task) && decide (e.2.2 ≤ nowUs))).set owner
            (s.drawn,expiresAtUs) },.claimed s.drawn)

def complete (now : ℤ) : DedupeState × DedupeAnswer :=
  if !validEventId owner.eventId then (s,.raised (.valueError "invalid channel event_id"))
  else match s.owned.get? owner with
    | none => (s,ownershipExpired)
    | some (ownerToken,_) =>
      let key := keyOf env owner
      let nowUs := env.epochUs now
      let expiresAtUs := env.epochUs (now+(env.instances owner.deduplicator).ttl)
      match s.processing.get? key with
      | none => (s,ownershipExpired)
      | some row =>
        if row.ownerToken = ownerToken ∧ nowUs < row.expiresAtUs then
          if s.claims.contains key then (s,.raised .integrityError)
          else
            ({ s with
              processing := s.processing.erase key
              claims := s.claims.set key ⟨nowUs,expiresAtUs⟩
              owned := s.owned.erase owner },.completed ownerToken)
        else (s,ownershipExpired)

def release : DedupeState × DedupeAnswer :=
  if !validEventId owner.eventId then (s,.raised (.valueError "invalid channel event_id"))
  else match s.owned.get? owner with
    | none => (s,.released none)
    | some (ownerToken,_) =>
      let key := keyOf env owner
      ({ s with
        processing := s.processing.eraseWhere (fun row => decide (row.1 = key) &&
          decide (row.2.ownerToken = ownerToken))
        owned := s.owned.erase owner },.released (some ownerToken))

def purgeExpired (deduplicator : ℕ) (now : ℤ) : DedupeState × DedupeAnswer :=
  let scope := (env.instances deduplicator).scope.storageKey
  let purged := s.purge scope (env.epochUs now)
  (purged,.purged (s.rows scope-purged.rows scope))

def step : DedupeOp → DedupeState × DedupeAnswer
  | .claim owner now => s.claim env owner now
  | .complete owner now => s.complete env owner now
  | .release owner => s.release env owner
  | .releaseCancelled owner => ({ s with owned := s.owned.erase owner },.released none)
  | .purgeExpired deduplicator now => s.purgeExpired env deduplicator now

end DedupeState
end SuiteHarness.Persistence
