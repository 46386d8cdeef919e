import SuiteHarness.Identifier
import SuiteHarness.Json
import SuiteHarness.Library.Machine
import SuiteHarness.Library.Partition

/-!
# Product state

`SQLiteProductStateStore` over its two tables. A call checks its arguments,
reads its clock and then runs one transaction, which is rolled back when it
raises. A column of canonical JSON holds the canonical value, and the digest of
a command is the triple it is computed from.
-/

set_option autoImplicit false

namespace SuiteHarness.Persistence

open SuiteHarness.Library

def isSeparator (c : Char) : Bool := ['.','_',':','/','-'].contains c

def validNamespace (s : String) : Bool :=
  decide (s.toList.length ≤ 128) && isName s &&
    (s.toList.splitOnP isSeparator).all
      (fun segment => !(["approval","approvals"].contains (String.ofList segment)))

def validStateKey (s : String) : Bool :=
  decide (s ≠ "") && decide (s.toList.length ≤ 512) && !s.toList.contains (Char.ofNat 0)

structure StateScope where
  tenantId : Identifier
  productId : Identifier
  space : {s : String // validNamespace s = true}
  deriving DecidableEq

abbrev ProductStateKey := StateScope × {s : String // validStateKey s = true}

structure ProductStateStore where
  maxValueBytes : ℕ
  maxRecords : ℕ
  maxIdempotencyRecords : ℕ
  idempotencyTtl : ℤ

structure StateEnv where
  stores : ℕ → ProductStateStore
  epochUs : ℤ → ℤ
  lower : String → String
  isalnum : Char → Bool

structure CommandDigest where
  stateKey : {s : String // validStateKey s = true}
  valueDigest : Digest
  expectedRevision : ℤ
  deriving DecidableEq

structure StateRow where
  valueJson : Json
  valueDigest : Digest
  revision : ℕ
  createdAt : ℤ
  updatedAt : ℤ
  deriving DecidableEq

structure StateIdempotencyRow where
  stateKey : {s : String // validStateKey s = true}
  commandDigest : CommandDigest
  resultValueJson : Json
  resultValueDigest : Digest
  resultRevision : ℕ
  resultCreatedAt : ℤ
  resultUpdatedAt : ℤ
  expiresAtUs : ℤ
  deriving DecidableEq

structure ProductState where
  state : Dict ProductStateKey StateRow := Dict.empty
  idempotency : Dict (StateScope × String) StateIdempotencyRow := Dict.empty

structure StateRecord where
  stateKey : ProductStateKey
  value : Json
  revision : ℕ
  digest : Digest
  createdAt : ℤ
  updatedAt : ℤ
  deriving DecidableEq

structure StateWriteResult where
  record : StateRecord
  replayed : Bool := false
  deriving DecidableEq

inductive StateError where
  | valueError (message : String)
  | payloadTooLarge (message : String)
  | idempotencyConflict (message : String)
  | revisionConflict (message : String)
  | capacityError (message : String)
  deriving DecidableEq

structure CompareAndSet where
  store : ℕ
  stateKey : ProductStateKey
  value : Json
  expectedRevision : ℤ
  idempotencyKey : String
  now : ℤ

abbrev StateAnswer := Except StateError StateWriteResult

def approvalCredentialNames : List String := ["approvaltoken","approvalcredential"]

def StateEnv.normalized (env : StateEnv) (key : String) : String :=
  String.ofList ((env.lower key).toList.filter env.isalnum)

mutual

def carriesCredential (env : StateEnv) : Json → Bool
  | .obj fields => fieldsCarryCredential env fields
  | .arr items => itemsCarryCredential env items
  | _ => false

def itemsCarryCredential (env : StateEnv) : List Json → Bool
  | [] => false
  | x::xs => carriesCredential env x || itemsCarryCredential env xs

def fieldsCarryCredential (env : StateEnv) : List (String × Json) → Bool
  | [] => false
  | (key,child)::rest => approvalCredentialNames.contains (env.normalized key) ||
      carriesCredential env child || fieldsCarryCredential env rest

end

namespace CompareAndSet

def scope (c : CompareAndSet) : StateScope := c.stateKey.1

def commandDigest (c : CompareAndSet) : CommandDigest :=
  ⟨c.stateKey.2,digest c.value,c.expectedRevision⟩

def refusal (env : StateEnv) (c : CompareAndSet) : Option StateError :=
  let maxValueBytes := (env.stores c.store).maxValueBytes
  if c.expectedRevision < 0 then some (.valueError "expected_revision must be non-negative")
  else if !isIdentifier c.idempotencyKey then some (.valueError "invalid idempotency_key")
  else if carriesCredential env c.value then
    some (.valueError "approval credentials must not be persisted")
  else match canonicalJson c.value with
    | none => some (.valueError "persistent JSON cannot contain NaN or infinity")
    | some text => if maxValueBytes < utf8Length text then
        some (.payloadTooLarge s!"serialized state exceeds {maxValueBytes} bytes")
      else none

def expiresAtUs (env : StateEnv) (c : CompareAndSet) : ℤ :=
  env.epochUs (c.now+(env.stores c.store).idempotencyTtl)

end CompareAndSet

def StateRecord.build (record : StateRecord) : Except StateError StateRecord :=
  if record.updatedAt < record.createdAt then
    .error (.valueError "updated_at must not precede created_at")
  else .ok record

def StateIdempotencyRow.idempotentRecord (scope : StateScope) (row : StateIdempotencyRow) :
    StateRecord :=
  { stateKey := (scope,row.stateKey)
    value := row.resultValueJson
    revision := row.resultRevision
    digest := row.resultValueDigest
    createdAt := row.resultCreatedAt
    updatedAt := row.resultUpdatedAt }

def StateRow.record (stateKey : ProductStateKey) (row : StateRow) : StateRecord :=
  { stateKey
    value := row.valueJson
    revision := row.revision
    digest := row.valueDigest
    createdAt := row.createdAt
    updatedAt := row.updatedAt }

namespace ProductState

variable (env : StateEnv)
variable (s : ProductState) (c : CompareAndSet) (record : StateRecord)

def get (stateKey : ProductStateKey) : Except StateError (Option StateRecord) :=
  match s.state.get? stateKey with
  | none => .ok none
  | some row => (row.record stateKey).build.map some

def actualRevision (row : Option StateRow) : ℕ := row.elim 0 StateRow.revision

def capacityRefusal : Option StateError :=
  let limits := env.stores c.store
  if (s.state.get? c.stateKey).isNone ∧ limits.maxRecords ≤ s.state.countIn c.scope then
    some (.capacityError "product state namespace has reached its record limit")
  else if limits.maxIdempotencyRecords ≤ s.idempotency.countIn c.scope then
    some (.capacityError "state idempotency namespace has reached its record limit")
  else none

def written : StateRecord :=
  let row := s.state.get? c.stateKey
  { stateKey := c.stateKey
    value := c.value
    revision := actualRevision row+1
    digest := digest c.value
    createdAt := row.elim c.now StateRow.createdAt
    updatedAt := c.now }

def stateRow : StateRow :=
  ⟨record.value.canon,record.digest,record.revision,record.createdAt,record.updatedAt⟩

def idempotencyRow : StateIdempotencyRow :=
  { stateKey := c.stateKey.2
    commandDigest := c.commandDigest
    resultValueJson := record.value.canon
    resultValueDigest := record.digest
    resultRevision := record.revision
    resultCreatedAt := record.createdAt
    resultUpdatedAt := record.updatedAt
    expiresAtUs := c.expiresAtUs env }

def write : ProductState :=
  { state := s.state.set c.stateKey (stateRow record)
    idempotency := s.idempotency.set (c.scope,c.idempotencyKey) (idempotencyRow env c record) }

def purge : ProductState :=
  { s with
    idempotency := s.idempotency.deleteExpired c.scope StateIdempotencyRow.expiresAtUs
      (env.epochUs c.now) }

def transaction : Except StateError (ProductState × StateWriteResult) :=
  let purged := s.purge env c
  match purged.idempotency.get? (c.scope,c.idempotencyKey) with
  | some replay =>
    if replay.commandDigest ≠ c.commandDigest then
      .error (.idempotencyConflict "idempotency_key was already used for a different state command")
    else (replay.idempotentRecord c.scope).build.map (fun record => (purged,⟨record,true⟩))
  | none =>
    let actual := actualRevision (purged.state.get? c.stateKey)
    if (actual : ℤ) ≠ c.expectedRevision then
      .error (.revisionConflict (s!"state revision conflict: expected {c.expectedRevision}, " ++
        s!"current revision is {actual}"))
    else match purged.capacityRefusal env c with
      | some error => .error error
      | none => (purged.written c).build.map
          (fun record => (purged.write env c record,⟨record,false⟩))

def compareAndSet : ProductState × StateAnswer :=
  match c.refusal env with
  | some error => (s,.error error)
  | none => match s.transaction env c with
    | .error error => (s,.error error)
    | .ok (next,result) => (next,.ok result)

end ProductState
end SuiteHarness.Persistence
