import SuiteHarness.Execution.Models
import SuiteHarness.Library.Multimap
import SuiteHarness.Library.Forest

/-!
# The in-memory capability authority

`InMemoryCapabilityAuthority` with its six maps. Every method runs under the
authority's lock and is one step. The generated identifier of a new grant and
the clock reading of a step are arguments of the step.
-/

set_option autoImplicit false

namespace SuiteHarness.Execution
open SuiteHarness.Library SuiteHarness.Library.Multimap

inductive AuthorityError where
  | valueError (text : String)
  /-- The grant constructor refused a field. -/
  | validation
  deriving DecidableEq

structure IssueArgs where
  grantId : String
  scope : ScopePath
  toolIdentities : List ToolIdentity
  capabilities : List String := []
  principalId : Option String := none
  lifetime : ℤ := 3600*1000000
  now : ℤ

structure IssueChildArgs where
  grantId : String
  parentGrantId : String
  scope : ScopePath
  toolIdentities : List ToolIdentity
  capabilities : List String
  principalId : String
  lifetime : ℤ
  now : ℤ

def CapabilityGrant.make (grantId tenantId productId : String)
    (toolIdentities : Finset ToolIdentity) (capabilities : Finset String)
    (principalId : Option String) (issuedAt expiresAt : ℤ) :
    Except AuthorityError CapabilityGrant :=
  if h : (isIdentifier grantId = true ∧ isIdentifier tenantId = true ∧
      isIdentifier productId = true) ∧ principalId.all isIdentifier = true ∧
      (∀ c ∈ capabilities, isName c = true) ∧ issuedAt < expiresAt then
    .ok ⟨grantId,tenantId,productId,toolIdentities,capabilities,principalId,issuedAt,expiresAt,
      h.1,h.2.1,h.2.2.1,h.2.2.2⟩
  else .error .validation

structure CapabilityAuthority where
  grants : Dict String CapabilityGrant
  grantOwners : Dict String (Option String)
  activeOwners : Dict (String × String) String
  ownerGrants : Dict String (List String)
  grantParents : Dict String String
  grantChildren : Dict String (List String)
  deriving DecidableEq

namespace CapabilityAuthority

def init : CapabilityAuthority :=
  ⟨Dict.empty,Dict.empty,Dict.empty,Dict.empty,Dict.empty,Dict.empty⟩

variable (s : CapabilityAuthority) (grant : CapabilityGrant)

def currentOwner : Option String :=
  s.activeOwners.get? (grant.tenantId,grant.productId)

variable (grantId : String)

def grantOwner : Option String :=
  (s.grantOwners.get? grantId).join

def store (owner : Option String) : CapabilityAuthority :=
  { s with
    grants := s.grants.set grant.grantId grant
    grantOwners := s.grantOwners.set grant.grantId owner
    ownerGrants := match owner with
      | none => s.ownerGrants
      | some o => add s.ownerGrants o grant.grantId }

def register : Except AuthorityError CapabilityAuthority :=
  if s.grants.contains grant.grantId then
    .error (.valueError ("duplicate capability grant: " ++ grant.grantId))
  else .ok (s.store grant (s.currentOwner grant))

def issue (s : CapabilityAuthority) (args : IssueArgs) :
    Except AuthorityError (CapabilityAuthority × CapabilityGrant) :=
  let issueIn (tenant product : Identifier) :
      Except AuthorityError (CapabilityAuthority × CapabilityGrant) := do
    if args.lifetime ≤ 0 then
      .error (.valueError "grant lifetime must be positive")
    else
      let grant ← CapabilityGrant.make args.grantId tenant.val product.val
        args.toolIdentities.toFinset args.capabilities.toFinset args.principalId args.now
        (args.now+args.lifetime)
      let s ← s.register grant
      .ok (s,grant)
  match args.scope with
  | .product tenant product => issueIn tenant product
  | .agent tenant product _ _ => issueIn tenant product
  | _ => .error (.valueError "capability grants require a product or agent scope")

def liveHere (s : CapabilityAuthority) (now : ℤ) (grantId : String) : Bool :=
  match s.grants.get? grantId with
  | none => false
  | some grant => decide (now < grant.expiresAt) &&
      decide (s.grantOwner grantId = s.currentOwner grant)

def grantLive (now : ℤ) (grantId : String) : Bool :=
  Forest.climb s.grantParents.get? (s.liveHere now) (s.grants.size+1) grantId

def adopt (parentGrantId : String) : CapabilityAuthority :=
  { s.store grant (s.grantOwner parentGrantId) with
    grantParents := s.grantParents.set grant.grantId parentGrantId
    grantChildren := add s.grantChildren parentGrantId grant.grantId }

def issueChild (s : CapabilityAuthority) (args : IssueChildArgs) :
    Except AuthorityError (CapabilityAuthority × CapabilityGrant) :=
  match args.scope with
  | .agent tenant product _ _ =>
    if args.lifetime ≤ 0 then .error (.valueError "grant lifetime must be positive")
    else match s.grants.get? args.parentGrantId with
      | none => .error (.valueError "parent grant is not active")
      | some parent =>
        if s.grantLive args.now args.parentGrantId = false then
          .error (.valueError "parent grant is not active")
        else if (parent.tenantId,parent.productId) ≠ (tenant.val,product.val) then
          .error (.valueError "child grant cannot change tenant or product")
        else if parent.principalId.any (fun p => decide (args.principalId ≠ p)) then
          .error (.valueError "child grant cannot change principal")
        else if ¬ args.toolIdentities.toFinset ⊆ parent.toolIdentities then
          .error (.valueError "child grant cannot add tool identities")
        else if ¬ args.capabilities.toFinset ⊆ parent.capabilities then
          .error (.valueError "child grant cannot add capabilities")
        else do
          let grant ← CapabilityGrant.make args.grantId parent.tenantId parent.productId
            args.toolIdentities.toFinset args.capabilities.toFinset (some args.principalId)
            args.now (min parent.expiresAt (args.now+args.lifetime))
          if s.grants.contains grant.grantId then
            .error (.valueError ("duplicate capability grant: " ++ grant.grantId))
          else
            .ok (s.adopt grant args.parentGrantId,grant)
  | _ => .error (.valueError "child grants require an agent scope")

def resolve (s : CapabilityAuthority) (now : ℤ) (grantId : String) : Option CapabilityGrant :=
  match s.grants.get? grantId with
  | none => none
  | some grant =>
    if s.grantParents.contains grantId then
      if s.grantLive now grantId then some grant else none
    else match s.currentOwner grant with
      | none => if s.grantOwner grantId = none then some grant else none
      | some owner => if s.grantOwner grantId = some owner then some grant else none

def detach : CapabilityAuthority :=
  let children := s.grantChildren.erase grantId
  { s with
    grantChildren := match s.grantParents.get? grantId with
      | none => children
      | some parent => discard children parent grantId
    grantParents := s.grantParents.erase grantId
    grants := s.grants.erase grantId
    grantOwners := s.grantOwners.erase grantId
    ownerGrants := match s.grantOwner grantId with
      | none => s.ownerGrants
      | some owner => discard s.ownerGrants owner grantId }

def revokeLoop : ℕ → List String → CapabilityAuthority → CapabilityAuthority
  | 0, _, s => s
  | _, [], s => s
  | n+1, grantId::pending, s =>
    revokeLoop n ((members s.grantChildren grantId).reverse ++ pending) (s.detach grantId)

def revokeSubtree : CapabilityAuthority :=
  revokeLoop (total s.grantChildren+1) [grantId] s

def revoke : CapabilityAuthority × Bool :=
  if s.grants.contains grantId then (s.revokeSubtree grantId,true) else (s,false)

def bindActivation (tenantId : String) (productIds : List String) (ownerToken : String) :
    Except AuthorityError CapabilityAuthority :=
  if ownerToken = "" then .error (.valueError "activation owner token must not be empty")
  else if productIds = [] ∨ ¬ productIds.Nodup then
    .error (.valueError "activation product_ids must be non-empty and unique")
  else if productIds.any (fun p => s.activeOwners.contains (tenantId,p)) then
    .error (.valueError "capability scope already belongs to an activation")
  else
    let owners := productIds.foldl (fun d p => d.set (tenantId,p) ownerToken) s.activeOwners
    .ok { s with
      activeOwners := owners
      ownerGrants := if s.ownerGrants.contains ownerToken then s.ownerGrants
        else s.ownerGrants.set ownerToken [] }

def revokeAll (s : CapabilityAuthority) (grantIds : List String) : CapabilityAuthority :=
  grantIds.foldl (fun s grantId =>
    if s.grants.contains grantId then s.revokeSubtree grantId else s) s

def releaseActivation (ownerToken : String) : CapabilityAuthority :=
  let unbound := { s with
    activeOwners := s.activeOwners.eraseWhere (fun e => decide (e.2 = ownerToken)) }
  let revoked := unbound.revokeAll (members s.ownerGrants ownerToken)
  { revoked with ownerGrants := revoked.ownerGrants.erase ownerToken }

inductive Op where
  | register (grant : CapabilityGrant)
  | issue (args : IssueArgs)
  | issueChild (args : IssueChildArgs)
  | revoke (grantId : String)
  | bindActivation (tenantId : String) (productIds : List String) (ownerToken : String)
  | releaseActivation (ownerToken : String)

inductive Answer where
  | done
  | granted (grant : CapabilityGrant)
  | revoked (found : Bool)
  deriving DecidableEq

abbrev Outcome := Except AuthorityError Answer

def answered {α : Type} (f : α → CapabilityAuthority × Answer) :
    Except AuthorityError α → CapabilityAuthority × Outcome
  | .ok a => ((f a).1,.ok (f a).2)
  | .error e => (s,.error e)

def step (s : CapabilityAuthority) : Op → CapabilityAuthority × Outcome
  | .register grant => answered s (fun t => (t,.done)) (s.register grant)
  | .issue args => answered s (fun t => (t.1,.granted t.2)) (s.issue args)
  | .issueChild args => answered s (fun t => (t.1,.granted t.2)) (s.issueChild args)
  | .revoke grantId => ((s.revoke grantId).1,.ok (.revoked (s.revoke grantId).2))
  | .bindActivation tenantId productIds owner =>
    answered s (fun t => (t,.done)) (s.bindActivation tenantId productIds owner)
  | .releaseActivation owner => (s.releaseActivation owner,.ok .done)

def stored : Op × Outcome → Option String
  | (.register grant,.ok _) => some grant.grantId
  | (_,.ok (.granted grant)) => some grant.grantId
  | _ => none

end CapabilityAuthority
end SuiteHarness.Execution
