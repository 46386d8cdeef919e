import SuiteHarness.Execution.Models
import SuiteHarness.Library.Multimap

/-!
# Curated sharing between products

`InMemoryCustomer360Provider` with its ten maps. Every command runs under the
provider's lock and is one step with one reading of the clock, where the source
reads it for each record that it stamps. What the private profile provider answers
is an argument of the step. Generated ids come from an id source that never repeats
one. A stored fingerprint is the command itself.
-/

set_option autoImplicit false

namespace SuiteHarness.Memory
open SuiteHarness.Library SuiteHarness.Library.Multimap SuiteHarness.Execution

def privateRead : String := "memory.private.read"
def sharePropose : String := "memory.share.propose"
def sharedRead : String := "memory.shared.read"
def sharingAdmin : String := "memory.sharing.admin"
def entityAdmin : String := "memory.entity.admin"
def curator : String := "memory.customer360.curate"

inductive MemoryErrorCode where
  | permissionDenied | policyDenied | notFound | entityAliasNotFound | revisionConflict
  | idempotencyConflict | invalidState | invalidArgument
  deriving DecidableEq

structure MemoryCapabilityError where
  code : MemoryErrorCode
  message : String
  detail : List (String × Json) := []
  deriving DecidableEq

inductive SpaceKind where
  | productPrivate | customer360Shared
  deriving DecidableEq

structure SpaceRef where
  tenantId : String
  kind : SpaceKind
  ownerProductId : Option String := none
  deriving DecidableEq

def SpaceRef.customer360 (tenantId : String) : SpaceRef := ⟨tenantId,.customer360Shared,none⟩

inductive PrivateClaimStatus where
  | asserted | retracted
  deriving DecidableEq

structure PrivateClaim where
  claimId : String
  space : SpaceRef
  localSubjectId : String
  predicate : String
  value : Json
  sourceRef : String
  status : PrivateClaimStatus := .asserted
  version : ℕ := 1
  deriving DecidableEq

structure EntityAlias where
  tenantId : String
  sourceProductId : String
  localSubjectId : String
  entityId : String
  revision : ℕ
  boundBy : String
  boundAt : ℤ
  deriving DecidableEq

structure PeerPredicateRule where
  peerProductId : String
  predicates : Finset String
  deriving DecidableEq

structure SharingPolicy where
  tenantId : String
  productId : String
  publishEnabled : Bool := false
  consumeEnabled : Bool := false
  publishPredicates : Finset String := ∅
  consumePredicates : Finset String := ∅
  publishToProducts : Finset String := ∅
  consumeFromProducts : Finset String := ∅
  publishRules : List PeerPredicateRule := []
  consumeRules : List PeerPredicateRule := []
  revision : ℕ := 0
  updatedBy : String := ""
  updatedAt : Option ℤ := none
  deriving DecidableEq

namespace SharingPolicy

def publishAudienceFor (policy : SharingPolicy) (predicate : String) : Finset String :=
  if !policy.publishEnabled then ∅
  else if policy.publishRules ≠ [] then
    ((policy.publishRules.filter (fun rule => decide (predicate ∈ rule.predicates))).map
      PeerPredicateRule.peerProductId).toFinset
  else if predicate ∉ policy.publishPredicates then ∅
  else policy.publishToProducts

def canConsumeFrom (policy : SharingPolicy) (sourceProductId predicate : String) : Bool :=
  if !policy.consumeEnabled then false
  else if policy.consumeRules ≠ [] then
    policy.consumeRules.any (fun rule =>
      decide (rule.peerProductId = sourceProductId ∧ predicate ∈ rule.predicates))
  else decide (sourceProductId ∈ policy.consumeFromProducts ∧ predicate ∈ policy.consumePredicates)

end SharingPolicy

inductive CandidateStatus where
  | pending | accepted | rejected | stale | withdrawn
  deriving DecidableEq

def CandidateStatus.value : CandidateStatus → String
  | .pending => "pending"
  | .accepted => "accepted"
  | .rejected => "rejected"
  | .stale => "stale"
  | .withdrawn => "withdrawn"

structure ShareCandidate where
  candidateId : String
  tenantId : String
  entityId : String
  sourceSpace : SpaceRef
  sourceClaimId : String
  sourceClaimVersion : ℕ
  sourceProductId : String
  sourceRef : String
  predicate : String
  value : Json
  audienceProductIds : Finset String
  policyRevision : ℕ
  status : CandidateStatus
  proposedBy : String
  proposedAt : ℤ
  decidedAt : Option ℤ := none
  deriving DecidableEq

structure ProvenanceRef where
  sourceProductId : String
  sourceClaimId : String
  sourceClaimVersion : ℕ
  sourceRef : String
  candidateId : String
  policyRevision : ℕ
  deriving DecidableEq

inductive SharedClaimStatus where
  | selected | retracted
  deriving DecidableEq

structure SharedClaim where
  claimId : String
  space : SpaceRef
  entityId : String
  predicate : String
  value : Json
  audienceProductIds : Finset String
  provenance : List ProvenanceRef
  status : SharedClaimStatus
  createdAt : ℤ
  retractedAt : Option ℤ := none
  retractionReason : String := ""
  deriving DecidableEq

inductive CurationAction where
  | accept | reject
  deriving DecidableEq

structure CurationDecision where
  decisionId : String
  candidateId : String
  action : CurationAction
  reason : String
  curator : String
  previousRevision : ℕ
  newRevision : ℕ
  decidedAt : ℤ
  deriving DecidableEq

structure CurationResult where
  candidate : ShareCandidate
  decision : CurationDecision
  sharedClaim : Option SharedClaim
  entityRevision : ℕ
  deriving DecidableEq

structure EntityRevision where
  entityId : String
  revision : ℕ
  deriving DecidableEq

structure WithdrawalReceipt where
  sourceClaimId : String
  candidatesWithdrawn : ℕ
  sharedClaimsRetracted : ℕ
  entityRevisions : List EntityRevision
  deriving DecidableEq

inductive Command where
  | bindEntityAlias (sourceProductId localSubjectId entityId : String) (expectedRevision : ℕ)
  | configurePolicy (publishEnabled consumeEnabled : Bool)
      (publishPredicates consumePredicates publishToProducts consumeFromProducts : Finset String)
      (publishRules consumeRules : List PeerPredicateRule) (expectedRevision : ℕ)
      (withdrawExisting : Bool)
  | proposeShare (sourceClaimId : String)
  | curate (candidateId : String) (action : CurationAction) (reason : String)
      (expectedRevision : ℕ)
  | withdrawSource (sourceClaimId reason : String)
  deriving DecidableEq

inductive MemoryResult where
  | entityAlias (value : EntityAlias)
  | policy (value : SharingPolicy)
  | candidate (value : ShareCandidate)
  | candidates (values : List ShareCandidate)
  | curation (value : CurationResult)
  | receipt (value : WithdrawalReceipt)
  | claims (values : List SharedClaim)
  | revision (value : ℕ)
  | decisions (values : List CurationDecision)
  deriving DecidableEq

/-- The id factory: every drawn id is new. -/
structure IdFactory where
  text : ℕ → String
  distinct : Function.Injective text

abbrev IdempotencyKey := String × String × String × String

structure Customer360 where
  aliases : Dict (String × String × String) EntityAlias := Dict.empty
  policies : Dict (String × String) SharingPolicy := Dict.empty
  candidates : Dict String ShareCandidate := Dict.empty
  candidateBySourceRevision : Dict (String × String × String × ℕ × ℕ) String := Dict.empty
  sharedClaims : Dict String SharedClaim := Dict.empty
  sharedByCandidate : Dict String String := Dict.empty
  sharedByEntity : Dict (String × String) (List String) := Dict.empty
  entityRevisions : Dict (String × String) ℕ := Dict.empty
  decisions : List CurationDecision := []
  idempotency : Dict IdempotencyKey (Command × MemoryResult) := Dict.empty
  drawn : ℕ := 0
  deriving DecidableEq

/-! The checks of arguments. -/

def checkText (value name : String) : Except MemoryCapabilityError String :=
  if strip value = "" then
    .error ⟨.invalidArgument,name ++ " must not be empty",[("argument",.str name)]⟩
  else .ok (strip value)

def stringSet (values : List String) (name : String) : Except MemoryCapabilityError (Finset String) :=
  (values.mapM (fun value => checkText value name)).map List.toFinset

def peerRule (name : String) (entry : String × List String) :
    Except MemoryCapabilityError PeerPredicateRule := do
  let peerId ← checkText entry.1 (name ++ ".peer_product_id")
  let predicates ← stringSet entry.2 (name ++ "." ++ peerId)
  if predicates = ∅ then
    .error ⟨.invalidArgument,name ++ " entries must contain at least one predicate",
      [("argument",.str name),("peer_product_id",.str peerId)]⟩
  else .ok ⟨peerId,predicates⟩

def peerRules (values : Dict String (List String)) (name : String) :
    Except MemoryCapabilityError (List PeerPredicateRule) :=
  (values.entries.mapM (peerRule name)).map
    (fun rules => rules.insertionSort (fun a b => a.peerProductId ≤ b.peerProductId))

def flattenRules (rules : List PeerPredicateRule) : Finset String × Finset String :=
  ((rules.map PeerPredicateRule.peerProductId).toFinset,
    rules.foldr (fun rule predicates => rule.predicates ∪ predicates) ∅)

def checkRevision (value : ℤ) (name : String) : Except MemoryCapabilityError ℕ :=
  if value < 0 then
    .error ⟨.invalidArgument,name ++ " must be a non-negative integer",[("argument",.str name)]⟩
  else .ok value.toNat

def require (scope : RequestScope) (role : String) : Except MemoryCapabilityError Unit :=
  if role ∈ scope.roles then .ok ()
  else .error ⟨.permissionDenied,
    "the authenticated principal lacks the required memory capability",[("required_role",.str role)]⟩

def requireAny (scope : RequestScope) (roles : List String) : Except MemoryCapabilityError Unit :=
  if roles.any (fun role => decide (role ∈ scope.roles)) then .ok ()
  else .error ⟨.permissionDenied,
    "the authenticated principal lacks the required memory capability",
    [("required_any_role",.arr (roles.map Json.str))]⟩

def idemKey (scope : RequestScope) (operation idempotencyKey : String) :
    Except MemoryCapabilityError IdempotencyKey :=
  (checkText idempotencyKey "idempotency_key").map (fun key =>
    (scope.tenantId.val,scope.productId.val,operation,key))

structure PolicyArgs where
  publishEnabled : Bool
  consumeEnabled : Bool
  publishPredicates : List String
  consumePredicates : List String
  publishToProducts : List String
  consumeFromProducts : List String
  expectedRevision : ℤ
  idempotencyKey : String
  withdrawExisting : Bool := false
  publishRules : Option (Dict String (List String)) := none
  consumeRules : Option (Dict String (List String)) := none

def uniformRules (peers predicates : Finset String) : List PeerPredicateRule :=
  if predicates = ∅ then [] else peers.sort.map (fun peer => ⟨peer,predicates⟩)

def givenRules (given : Option (Dict String (List String))) (peers predicates : Finset String)
    (name : String) : Except MemoryCapabilityError (List PeerPredicateRule) :=
  match given with
  | none => .ok (uniformRules peers predicates)
  | some values => peerRules values name

def checkFlattened (given : Option (Dict String (List String))) (rules : List PeerPredicateRule)
    (peers predicates : Finset String) (name mismatch : String) : Except MemoryCapabilityError Unit :=
  if given.isSome ∧ flattenRules rules ≠ (peers,predicates) then
    .error ⟨.invalidArgument,mismatch,[("argument",.str name)]⟩
  else .ok ()

def Command.policy (scope : RequestScope) (revision : ℕ) (now : ℤ) : Command → SharingPolicy
  | .configurePolicy publishEnabled consumeEnabled publishPredicates consumePredicates
      publishToProducts consumeFromProducts publishRules consumeRules _ _ =>
    { tenantId := scope.tenantId.val
      productId := scope.productId.val
      publishEnabled, consumeEnabled, publishPredicates, consumePredicates, publishToProducts
      consumeFromProducts, publishRules, consumeRules, revision
      updatedBy := scope.principalId.val
      updatedAt := some now }
  | _ => { tenantId := scope.tenantId.val, productId := scope.productId.val }

def Command.withdraws : Command → Bool
  | .configurePolicy _ _ _ _ _ _ _ _ _ withdrawExisting => withdrawExisting
  | _ => false

def Command.expected : Command → ℕ
  | .configurePolicy _ _ _ _ _ _ _ _ expected _ => expected
  | _ => 0

namespace Customer360

variable (ids : IdFactory) (s : Customer360) (key : IdempotencyKey) (command : Command)
  (scope : RequestScope) (candidateId : String)

def replay : Except MemoryCapabilityError (Option MemoryResult) :=
  match s.idempotency.get? key with
  | none => .ok none
  | some (stored,result) =>
    if stored ≠ command then
      .error ⟨.idempotencyConflict,"an idempotency key was reused with a different command",
        [("operation",.str key.2.2.1)]⟩
    else .ok (some result)

def remember (result : MemoryResult) : Customer360 × MemoryResult :=
  ({ s with idempotency := s.idempotency.set key (command,result) },result)

def once (execute : Except MemoryCapabilityError (Customer360 × MemoryResult)) :
    Except MemoryCapabilityError (Customer360 × MemoryResult) := do
  match ← s.replay key command with
  | some result => .ok (s,result)
  | none =>
    let (t,result) ← execute
    .ok (t.remember key command result)

def policy (tenantId productId : String) : SharingPolicy :=
  (s.policies.get? (tenantId,productId)).getD { tenantId, productId }

def revisionConflict (message : String) (expected actual : ℕ) : MemoryCapabilityError :=
  ⟨.revisionConflict,message,[("expected",.int expected),("actual",.int actual)]⟩

def bindEntityAlias (sourceProductId localSubjectId entityId : String) (expectedRevision : ℤ)
    (idempotencyKey : String) (now : ℤ) :
    Except MemoryCapabilityError (Customer360 × MemoryResult) := do
  requireAny scope [entityAdmin,curator]
  let source ← checkText sourceProductId "source_product_id"
  let subject ← checkText localSubjectId "local_subject_id"
  let entity ← checkText entityId "entity_id"
  let expected ← checkRevision expectedRevision "expected_revision"
  let key ← idemKey scope "customer360.bind_entity_alias" idempotencyKey
  let aliasKey := (scope.tenantId.val,source,subject)
  let current := ((s.aliases.get? aliasKey).map EntityAlias.revision).getD 0
  s.once key (.bindEntityAlias source subject entity expected)
    (if expected ≠ current then
      .error (revisionConflict "entity alias revision changed" expected current)
    else
      let bound : EntityAlias := ⟨scope.tenantId.val,source,subject,entity,current+1,
        scope.principalId.val,now⟩
      .ok ({ s with aliases := s.aliases.set aliasKey bound },.entityAlias bound))

def candidateAllowed (policy : SharingPolicy) (candidate : ShareCandidate) : Bool :=
  decide (candidate.audienceProductIds ≠ ∅ ∧
    candidate.audienceProductIds ⊆ policy.publishAudienceFor candidate.predicate)

def invalid (policy : SharingPolicy) (candidate : ShareCandidate) : Bool :=
  decide (candidate.tenantId = policy.tenantId ∧ candidate.sourceProductId = policy.productId ∧
    candidate.status = .pending) && !candidateAllowed policy candidate

def invalidatePending (policy : SharingPolicy) (now : ℤ) : Customer360 :=
  { s with candidates := s.candidates.entries.foldl (fun candidates entry =>
      if invalid policy entry.2 then
        candidates.set entry.1 { entry.2 with status := .stale, decidedAt := some now }
      else candidates) s.candidates }

structure Withdrawal where
  candidates : Dict String ShareCandidate
  sharedClaims : Dict String SharedClaim
  withdrawn : ℕ := 0
  retracted : ℕ := 0
  touched : Finset String := ∅

def retire (now : ℤ) (reason : String) (claim : SharedClaim) : SharedClaim :=
  { claim with status := .retracted, retractedAt := some now, retractionReason := reason }

def hits (chosen : ShareCandidate → Bool) (candidate : ShareCandidate) : Bool :=
  chosen candidate && decide (candidate.status ≠ .rejected ∧ candidate.status ≠ .withdrawn)

def withdrawOne (byCandidate : Dict String String) (chosen : ShareCandidate → Bool)
    (reason : String) (now : ℤ) (w : Withdrawal) (entry : String × ShareCandidate) : Withdrawal :=
  if !hits chosen entry.2 then w
  else
    let w := { w with
      candidates := w.candidates.set entry.1
        { entry.2 with status := .withdrawn, decidedAt := some now }
      withdrawn := w.withdrawn+1 }
    match byCandidate.get? entry.1 with
    | none => w
    | some sharedId => match w.sharedClaims.get? sharedId with
      | none => w
      | some claim =>
        if claim.status = .selected then
          { w with
            sharedClaims := w.sharedClaims.set sharedId (retire now reason claim)
            retracted := w.retracted+1
            touched := insert entry.2.entityId w.touched }
        else w

def bumpEntities (revisions : Dict (String × String) ℕ) (tenantId : String)
    (entityIds : Finset String) : Dict (String × String) ℕ × List EntityRevision :=
  entityIds.sort.foldl (fun acc entityId =>
    let revision := (acc.1.get? (tenantId,entityId)).getD 0+1
    (acc.1.set (tenantId,entityId) revision,acc.2 ++ [⟨entityId,revision⟩])) (revisions,[])

def withdraw (tenantId : String) (chosen : ShareCandidate → Bool) (reason : String) (now : ℤ) :
    Customer360 × Withdrawal × List EntityRevision :=
  let w := s.candidates.entries.foldl (withdrawOne s.sharedByCandidate chosen reason now)
    { candidates := s.candidates, sharedClaims := s.sharedClaims }
  let bumped := bumpEntities s.entityRevisions tenantId w.touched
  ({ s with candidates := w.candidates, sharedClaims := w.sharedClaims, entityRevisions := bumped.1 },
    w,bumped.2)

def ofProduct (tenantId productId : String) (candidate : ShareCandidate) : Bool :=
  decide (candidate.tenantId = tenantId ∧ candidate.sourceProductId = productId)

def ofSource (tenantId productId sourceClaimId : String) (candidate : ShareCandidate) : Bool :=
  ofProduct tenantId productId candidate && decide (candidate.sourceClaimId = sourceClaimId)

def applyPolicy (policy : SharingPolicy) (withdrawExisting : Bool) (now : ℤ) : Customer360 :=
  let s := { s with policies := s.policies.set (policy.tenantId,policy.productId) policy }
  let s := s.invalidatePending policy now
  if withdrawExisting then
    (s.withdraw policy.tenantId (ofProduct policy.tenantId policy.productId)
      "sharing policy withdrew existing contributions" now).1
  else s

/-- What configuring checks before it takes the lock: the idempotency key and the command that the
fingerprint is made of. -/
def checkPolicy (args : PolicyArgs) :
    Except MemoryCapabilityError (IdempotencyKey × Command) := do
  require scope sharingAdmin
  let expected ← checkRevision args.expectedRevision "expected_revision"
  let publishPredicates ← stringSet args.publishPredicates "publish_predicates"
  let consumePredicates ← stringSet args.consumePredicates "consume_predicates"
  let publishToProducts ← stringSet args.publishToProducts "publish_to_products"
  let consumeFromProducts ← stringSet args.consumeFromProducts "consume_from_products"
  let publishRules ← givenRules args.publishRules publishToProducts publishPredicates "publish_rules"
  let consumeRules ← givenRules args.consumeRules consumeFromProducts consumePredicates "consume_rules"
  checkFlattened args.publishRules publishRules publishToProducts publishPredicates "publish_rules"
    "publish_rules must match the flattened publish allowlists"
  checkFlattened args.consumeRules consumeRules consumeFromProducts consumePredicates "consume_rules"
    "consume_rules must match the flattened consume allowlists"
  let key ← idemKey scope "customer360.configure_policy" args.idempotencyKey
  .ok (key,.configurePolicy args.publishEnabled args.consumeEnabled publishPredicates
    consumePredicates publishToProducts consumeFromProducts publishRules consumeRules expected
    args.withdrawExisting)

def changePolicy (now : ℤ) (command : Command) :
    Except MemoryCapabilityError (Customer360 × MemoryResult) :=
  let current := s.policy scope.tenantId.val scope.productId.val
  if current.revision ≠ command.expected then
    .error (revisionConflict "sharing policy revision changed" command.expected current.revision)
  else
    let policy := command.policy scope (current.revision+1) now
    .ok (s.applyPolicy policy command.withdraws now,.policy policy)

def configurePolicy (args : PolicyArgs) (now : ℤ) :
    Except MemoryCapabilityError (Customer360 × MemoryResult) := do
  let checked ← checkPolicy scope args
  s.once checked.1 checked.2 (s.changePolicy scope now checked.2)

def ruleArgs (rules : List PeerPredicateRule) : Option (Dict String (List String)) :=
  if rules = [] then none
  else some (rules.foldl (fun d rule => d.set rule.peerProductId rule.predicates.sort) Dict.empty)

def currentArgs (policy : SharingPolicy) (expectedRevision : ℤ) (idempotencyKey : String) :
    PolicyArgs where
  publishEnabled := policy.publishEnabled
  consumeEnabled := policy.consumeEnabled
  publishPredicates := policy.publishPredicates.sort
  consumePredicates := policy.consumePredicates.sort
  publishToProducts := policy.publishToProducts.sort
  consumeFromProducts := policy.consumeFromProducts.sort
  expectedRevision := expectedRevision
  idempotencyKey := idempotencyKey
  publishRules := ruleArgs policy.publishRules
  consumeRules := ruleArgs policy.consumeRules

def disablePublishing (expectedRevision : ℤ) (idempotencyKey : String) (withdrawExisting : Bool) (now : ℤ) :
    Except MemoryCapabilityError (Customer360 × MemoryResult) :=
  s.configurePolicy scope
    { currentArgs (s.policy scope.tenantId.val scope.productId.val) expectedRevision idempotencyKey with
      publishEnabled := false
      withdrawExisting := withdrawExisting } now

def disableConsumption (expectedRevision : ℤ) (idempotencyKey : String) (now : ℤ) :
    Except MemoryCapabilityError (Customer360 × MemoryResult) :=
  s.configurePolicy scope
    { currentArgs (s.policy scope.tenantId.val scope.productId.val) expectedRevision idempotencyKey with
      consumeEnabled := false } now

def newCandidate (id : String) (bound : EntityAlias) (claim : PrivateClaim) (audience : Finset String)
    (policyRevision : ℕ) (now : ℤ) : ShareCandidate where
  candidateId := id
  tenantId := scope.tenantId.val
  entityId := bound.entityId
  sourceSpace := claim.space
  sourceClaimId := claim.claimId
  sourceClaimVersion := claim.version
  sourceProductId := scope.productId.val
  sourceRef := claim.sourceRef
  predicate := claim.predicate
  value := claim.value
  audienceProductIds := audience
  policyRevision := policyRevision
  status := .pending
  proposedBy := scope.principalId.val
  proposedAt := now

def recordProposal (claim : PrivateClaim) (now : ℤ) :
    Except MemoryCapabilityError (Customer360 × MemoryResult) :=
  match s.aliases.get? (scope.tenantId.val,scope.productId.val,claim.localSubjectId) with
  | none => .error ⟨.entityAliasNotFound,"no verified Customer360 entity alias exists",[]⟩
  | some bound =>
    let policy := s.policy scope.tenantId.val scope.productId.val
    let audience := policy.publishAudienceFor claim.predicate
    if audience = ∅ then
      .error ⟨.policyDenied,"publishing is disabled or the predicate is not allowlisted",[]⟩
    else
      let naturalKey := (scope.tenantId.val,scope.productId.val,claim.claimId,claim.version,
        policy.revision)
      match (s.candidateBySourceRevision.get? naturalKey).bind s.candidates.get? with
      | some candidate => .ok (s,.candidate candidate)
      | none =>
        let id := ids.text s.drawn
        let candidate := newCandidate scope id bound claim audience policy.revision now
        .ok ({ s with
          candidates := s.candidates.set id candidate
          candidateBySourceRevision := s.candidateBySourceRevision.set naturalKey id
          drawn := s.drawn+1 },.candidate candidate)

def proposeShare (sourceClaimId idempotencyKey : String) (profile : Except MemoryCapabilityError PrivateClaim)
    (now : ℤ) : Except MemoryCapabilityError (Customer360 × MemoryResult) := do
  require scope sharePropose
  let source ← checkText sourceClaimId "source_claim_id"
  let key ← idemKey scope "customer360.propose_share" idempotencyKey
  s.once key (.proposeShare source) (do
    let claim ← profile
    if claim.status ≠ .asserted then
      .error ⟨.invalidState,"a retracted private claim cannot be proposed for sharing",[]⟩
    else s.recordProposal ids scope claim now)

def provenanceOf (candidate : ShareCandidate) : ProvenanceRef where
  sourceProductId := candidate.sourceProductId
  sourceClaimId := candidate.sourceClaimId
  sourceClaimVersion := candidate.sourceClaimVersion
  sourceRef := candidate.sourceRef
  candidateId := candidate.candidateId
  policyRevision := candidate.policyRevision

def sharedFrom (id : String) (candidate : ShareCandidate) (now : ℤ) : SharedClaim where
  claimId := id
  space := SpaceRef.customer360 candidate.tenantId
  entityId := candidate.entityId
  predicate := candidate.predicate
  value := candidate.value
  audienceProductIds := candidate.audienceProductIds
  provenance := [provenanceOf candidate]
  status := .selected
  createdAt := now

def recordDecision (candidate : ShareCandidate) (action : CurationAction) (reason : String) (current : ℕ)
    (now : ℤ) : Customer360 × MemoryResult :=
  let entity := (candidate.tenantId,candidate.entityId)
  let updated := { candidate with
    status := if action = .accept then .accepted else .rejected
    decidedAt := some now }
  let decision (n : ℕ) : CurationDecision := ⟨ids.text n,candidateId,action,reason,
    scope.principalId.val,current,current+1,now⟩
  match action with
  | .accept =>
    let shared := sharedFrom (ids.text s.drawn) candidate now
    ({ s with
      candidates := s.candidates.set candidateId updated
      sharedClaims := s.sharedClaims.set shared.claimId shared
      sharedByCandidate := s.sharedByCandidate.set candidateId shared.claimId
      sharedByEntity := s.sharedByEntity.set entity (members s.sharedByEntity entity ++ [shared.claimId])
      decisions := s.decisions ++ [decision (s.drawn+1)]
      entityRevisions := s.entityRevisions.set entity (current+1)
      drawn := s.drawn+2 },.curation ⟨updated,decision (s.drawn+1),some shared,current+1⟩)
  | .reject =>
    ({ s with
      candidates := s.candidates.set candidateId updated
      decisions := s.decisions ++ [decision s.drawn]
      entityRevisions := s.entityRevisions.set entity (current+1)
      drawn := s.drawn+1 },.curation ⟨updated,decision s.drawn,none,current+1⟩)

def settle (action : CurationAction) (reason : String) (expected : ℕ) (now : ℤ) :
    Except MemoryCapabilityError (Customer360 × MemoryResult) :=
  match s.candidates.get? candidateId with
  | none => .error ⟨.notFound,"share candidate not found",[]⟩
  | some candidate =>
    if candidate.tenantId ≠ scope.tenantId.val then
      .error ⟨.notFound,"share candidate not found",[]⟩
    else if candidate.status ≠ .pending then
      .error ⟨.invalidState,"only a pending candidate can be curated",
        [("status",.str candidate.status.value)]⟩
    else if action = .accept ∧ candidateAllowed
        (s.policy candidate.tenantId candidate.sourceProductId) candidate = false then
      .error ⟨.policyDenied,"the current producer policy no longer permits this candidate",[]⟩
    else
      let current := (s.entityRevisions.get? (candidate.tenantId,candidate.entityId)).getD 0
      if current ≠ expected then
        .error (revisionConflict "Customer360 entity revision changed" expected current)
      else .ok (s.recordDecision ids scope candidateId candidate action reason current now)

def curate (action : CurationAction) (reason : String) (expectedRevision : ℤ) (idempotencyKey : String)
    (now : ℤ) : Except MemoryCapabilityError (Customer360 × MemoryResult) := do
  require scope curator
  let id ← checkText candidateId "candidate_id"
  let why ← checkText reason "reason"
  let expected ← checkRevision expectedRevision "expected_revision"
  let key ← idemKey scope "customer360.curate" idempotencyKey
  s.once key (.curate id action why expected) (s.settle ids scope id action why expected now)

def withdrawSource (sourceClaimId reason idempotencyKey : String)
    (profile : Except MemoryCapabilityError PrivateClaim) (now : ℤ) :
    Except MemoryCapabilityError (Customer360 × MemoryResult) := do
  require scope sharePropose
  let source ← checkText sourceClaimId "source_claim_id"
  let why ← checkText reason "reason"
  let key ← idemKey scope "customer360.withdraw_source" idempotencyKey
  s.once key (.withdrawSource source why) (do
    let _ ← profile
    let (t,w,revisions) := s.withdraw scope.tenantId.val
      (ofSource scope.tenantId.val scope.productId.val source) why now
    .ok (t,.receipt ⟨source,w.withdrawn,w.retracted,revisions⟩))

def visible (claim : SharedClaim) : Bool :=
  decide (claim.status = .selected ∧ scope.productId.val ∈ claim.audienceProductIds) &&
    claim.provenance.any (fun provenance =>
      (s.policy scope.tenantId.val scope.productId.val).canConsumeFrom provenance.sourceProductId
        claim.predicate)

def readShared (entityId : String) :
    Except MemoryCapabilityError MemoryResult := do
  require scope sharedRead
  let entity ← checkText entityId "entity_id"
  if !(s.policy scope.tenantId.val scope.productId.val).consumeEnabled then
    .error ⟨.policyDenied,"Customer360 consumption is disabled",[]⟩
  else
    let claims := (members s.sharedByEntity (scope.tenantId.val,entity)).filterMap s.sharedClaims.get?
    .ok (.claims ((claims.filter (s.visible scope)).insertionSort (fun a b =>
      a.createdAt < b.createdAt ∨ (a.createdAt = b.createdAt ∧ a.claimId ≤ b.claimId))))

def resolveEntityAlias (localSubjectId : String) :
    Except MemoryCapabilityError MemoryResult := do
  require scope privateRead
  let subject ← checkText localSubjectId "local_subject_id"
  match s.aliases.get? (scope.tenantId.val,scope.productId.val,subject) with
  | none => .error ⟨.entityAliasNotFound,"no verified Customer360 entity alias exists",[]⟩
  | some bound => .ok (.entityAlias bound)

def getCandidate : Except MemoryCapabilityError MemoryResult := do
  let id ← checkText candidateId "candidate_id"
  match s.candidates.get? id with
  | none => .error ⟨.notFound,"share candidate not found",[]⟩
  | some candidate =>
    if candidate.tenantId ≠ scope.tenantId.val ∨ (curator ∉ scope.roles ∧
        ¬ (candidate.sourceProductId = scope.productId.val ∧ sharePropose ∈ scope.roles)) then
      .error ⟨.notFound,"share candidate not found",[]⟩
    else .ok (.candidate candidate)

def listCandidates (status : Option CandidateStatus) :
    Except MemoryCapabilityError MemoryResult := do
  requireAny scope [curator,sharePropose]
  let seen := (s.candidates.entries.map Prod.snd).filter (fun candidate =>
    decide (candidate.tenantId = scope.tenantId.val ∧ (curator ∈ scope.roles ∨
      candidate.sourceProductId = scope.productId.val)) &&
    status.all (fun wanted => decide (candidate.status = wanted)))
  .ok (.candidates (seen.insertionSort (fun a b => a.proposedAt ≤ b.proposedAt)))

def entityRevision (entityId : String) :
    Except MemoryCapabilityError MemoryResult := do
  requireAny scope [curator,sharedRead]
  let entity ← checkText entityId "entity_id"
  .ok (.revision ((s.entityRevisions.get? (scope.tenantId.val,entity)).getD 0))

def listDecisions : Except MemoryCapabilityError MemoryResult := do
  require scope curator
  .ok (.decisions (s.decisions.filter (fun decision =>
    (s.candidates.entries.map Prod.snd).any (fun candidate =>
      decide (candidate.candidateId = decision.candidateId ∧
        candidate.tenantId = scope.tenantId.val)))))

end Customer360

inductive Customer360Op where
  | bindEntityAlias (scope : RequestScope) (sourceProductId localSubjectId entityId : String)
      (expectedRevision : ℤ) (idempotencyKey : String) (now : ℤ)
  | configurePolicy (scope : RequestScope) (args : PolicyArgs) (now : ℤ)
  | disablePublishing (scope : RequestScope) (expectedRevision : ℤ) (idempotencyKey : String)
      (withdrawExisting : Bool) (now : ℤ)
  | disableConsumption (scope : RequestScope) (expectedRevision : ℤ) (idempotencyKey : String)
      (now : ℤ)
  | proposeShare (scope : RequestScope) (sourceClaimId idempotencyKey : String)
      (profile : Except MemoryCapabilityError PrivateClaim) (now : ℤ)
  | curate (scope : RequestScope) (candidateId : String) (action : CurationAction)
      (reason : String) (expectedRevision : ℤ) (idempotencyKey : String) (now : ℤ)
  | withdrawSource (scope : RequestScope) (sourceClaimId reason idempotencyKey : String)
      (profile : Except MemoryCapabilityError PrivateClaim) (now : ℤ)
  | readShared (scope : RequestScope) (entityId : String)
  | resolveEntityAlias (scope : RequestScope) (localSubjectId : String)
  | getPolicy (scope : RequestScope)
  | getCandidate (scope : RequestScope) (candidateId : String)
  | listCandidates (scope : RequestScope) (status : Option CandidateStatus)
  | entityRevision (scope : RequestScope) (entityId : String)
  | listDecisions (scope : RequestScope)

namespace Customer360

abbrev Outcome := Except MemoryCapabilityError MemoryResult

def answered (s : Customer360) :
    Except MemoryCapabilityError (Customer360 × MemoryResult) → Customer360 × Outcome
  | .ok (t,result) => (t,.ok result)
  | .error error => (s,.error error)

def step (ids : IdFactory) (s : Customer360) : Customer360Op → Customer360 × Outcome
  | .bindEntityAlias scope source subject entity expected key now =>
    s.answered (s.bindEntityAlias scope source subject entity expected key now)
  | .configurePolicy scope args now => s.answered (s.configurePolicy scope args now)
  | .disablePublishing scope expected key withdrawExisting now =>
    s.answered (s.disablePublishing scope expected key withdrawExisting now)
  | .disableConsumption scope expected key now =>
    s.answered (s.disableConsumption scope expected key now)
  | .proposeShare scope source key profile now =>
    s.answered (s.proposeShare ids scope source key profile now)
  | .curate scope candidate action reason expected key now =>
    s.answered (s.curate ids scope candidate action reason expected key now)
  | .withdrawSource scope source reason key profile now =>
    s.answered (s.withdrawSource scope source reason key profile now)
  | .readShared scope entity => (s,s.readShared scope entity)
  | .resolveEntityAlias scope subject => (s,s.resolveEntityAlias scope subject)
  | .getPolicy scope => (s,.ok (.policy (s.policy scope.tenantId.val scope.productId.val)))
  | .getCandidate scope candidate => (s,s.getCandidate scope candidate)
  | .listCandidates scope status => (s,s.listCandidates scope status)
  | .entityRevision scope entity => (s,s.entityRevision scope entity)
  | .listDecisions scope => (s,s.listDecisions scope)

end Customer360
end SuiteHarness.Memory
