import SuiteHarness.Execution.Models
import SuiteHarness.Library.Dict
import SuiteHarness.Library.Machine

/-!
# The tool registry

`InMemoryToolRegistry` keeps at most one entry per scope and name. A protected
name belongs to one root entry and no narrower scope may use it. The handle of a
registration carries its random id, drawn here from a counter: ids never repeat.
Schemas are judged by the validation package, which is a parameter.
-/

set_option autoImplicit false

namespace SuiteHarness.Execution

open SuiteHarness.Library

namespace ScopePath

def isRoot : ScopePath → Bool
  | .root => true
  | _ => false

def isAgent : ScopePath → Bool
  | .agent _ _ _ _ => true
  | _ => false

def kindValue : ScopePath → String
  | .root => "root"
  | .tenant _ => "tenant"
  | .product _ _ => "product"
  | .agent _ _ _ _ => "agent"

def enclosing : ScopePath → List ScopePath
  | .root => [.root]
  | .tenant t => [.tenant t,.root]
  | .product t p => [.product t p,.tenant t,.root]
  | .agent t p a s => [.agent t p a s,.product t p,.tenant t,.root]

end ScopePath

def ToolIdentity.scoped (scope : ScopePath) (name : String) : Option ToolIdentity :=
  match scope with
  | .root => some ⟨scope.kindValue,name,"scope:root","1"⟩
  | .tenant t => some ⟨scope.kindValue,name,"scope:tenant:" ++ t.val,"1"⟩
  | .product t p => some ⟨scope.kindValue,name,"scope:product:" ++ t.val ++ ":" ++ p.val,"1"⟩
  | .agent _ _ _ _ => none

structure SchemaPackage where
  checkSchema : Json → Bool
  validator : Json → Json → Validation

mutual

def remoteReference : Json → Bool
  | .obj fields => remoteInFields fields
  | .arr items => remoteInItems items
  | _ => false

def remoteInItems : List Json → Bool
  | [] => false
  | x::xs => remoteReference x || remoteInItems xs

def remoteInFields : List (String × Json) → Bool
  | [] => false
  | (key,x)::xs =>
    (["$ref","$dynamicRef"].contains key && (match x with
      | .str target => !target.startsWith "#"
      | _ => false)) || remoteReference x || remoteInFields xs

end

inductive RegistryError where
  | valueError (message : String)
  | typeError (message : String)
  | schemaError (message : String)
  /-- The message of this error holds the digest of the identity. -/
  | identityTaken (identity : ToolIdentity)
  | effectScopeClosed
  deriving DecidableEq

structure RegisteredEntry where
  item : RegisteredTool
  registrationId : ℕ
  isProtected : Bool

structure ToolRegistrationHandle where
  registry : ℕ
  scope : ScopePath
  toolName : String
  registrationId : ℕ
  identity : ToolIdentity
  deriving DecidableEq

structure Registration where
  spec : ToolSpec
  schema : Json
  handler : Option ℕ

structure ToolRegistry where
  items : Dict (ScopePath × String) RegisteredEntry := Dict.empty
  protectedNames : Dict String ℕ := Dict.empty
  nextId : ℕ := 0
  /-- The ids of the handles whose `_closed` is set. -/
  closedHandles : List ℕ := []

def reservedNamespace (name : String) : Bool := ["suiteharness","framework"].contains name

namespace ToolRegistry

variable (pkg : SchemaPackage) (self : ℕ) (s : ToolRegistry) (scope : ScopePath) (r : Registration)
  (identity : ToolIdentity) (isProtected : Bool)

def refusal : Option RegistryError :=
  if scope.isAgent then
    some (.valueError "tools may only be registered at root, tenant, or product scope")
  else if identity.name ≠ r.spec.name then
    some (.valueError "tool identity name must match the model-facing tool name")
  else if !isProtected && reservedNamespace identity.nameSpace then
    some (.valueError "reserved framework namespaces require protected registration")
  else if r.handler.isNone then some (.typeError "tool handler must be callable")
  else if remoteReference r.schema then
    some (.schemaError "remote JSON Schema references are not supported")
  else if !pkg.checkSchema r.schema then some (.schemaError "invalid schema")
  else if !scope.isRoot && s.protectedNames.contains r.spec.name then
    some (.valueError ("protected root tool '" ++ r.spec.name ++ "' cannot be shadowed"))
  else if isProtected && s.items.entries.any
      (fun e => decide (e.1.2 = r.spec.name) && !e.1.1.isRoot) then
    some (.valueError
      ("cannot protect root tool '" ++ r.spec.name ++ "' while a shadow exists"))
  else if s.items.contains (scope,r.spec.name) then
    some (.valueError ("tool '" ++ r.spec.name ++ "' is already registered at " ++
      scope.kindValue ++ " scope"))
  else if s.items.entries.any (fun e => decide (e.2.item.identity = identity)) then
    some (.identityTaken identity)
  else none

def newEntry : RegisteredEntry :=
  { item := {
      registrationScope := scope
      identity := identity
      spec := r.spec
      handler := r.handler.getD 0
      validate := pkg.validator r.schema }
    registrationId := s.nextId
    isProtected := isProtected }

def added : ToolRegistry :=
  { s with
    items := s.items.set (scope,r.spec.name) (s.newEntry pkg scope r identity isProtected)
    protectedNames :=
      if isProtected then s.protectedNames.set r.spec.name s.nextId else s.protectedNames
    nextId := s.nextId+1 }

def install : Except RegistryError (ToolRegistry × ToolRegistrationHandle) :=
  match s.refusal pkg scope r identity isProtected with
  | some error => .error error
  | none => .ok (s.added pkg scope r identity isProtected,
      ⟨self,scope,r.spec.name,s.nextId,identity⟩)

def register : Except RegistryError (ToolRegistry × ToolRegistrationHandle) :=
  match ToolIdentity.scoped scope r.spec.name with
  | none => .error (.valueError "tool identities require root, tenant, or product scope")
  | some identity => s.install pkg self scope r identity false

def registerProtected (identity : Option ToolIdentity) :
    Except RegistryError (ToolRegistry × ToolRegistrationHandle) :=
  let protectedIdentity :=
    identity.getD ⟨"suiteharness",r.spec.name,"suiteharness.framework","1"⟩
  if reservedNamespace protectedIdentity.nameSpace then
    s.install pkg self .root r protectedIdentity true
  else .error (.valueError "protected tools must use a reserved framework namespace")

def removed (key : ScopePath × String) (current : RegisteredEntry) : ToolRegistry :=
  { s with
    items := s.items.erase key
    protectedNames :=
      if current.isProtected ∧ s.protectedNames.get? key.2 = some current.registrationId then
        s.protectedNames.erase key.2
      else s.protectedNames
    closedHandles := current.registrationId::s.closedHandles }

def unregister (toolName : String) (owner : ToolRegistrationHandle) : ToolRegistry × Bool :=
  if owner.registry ≠ self then (s,false)
  else if owner.scope ≠ scope ∨ owner.toolName ≠ toolName then (s,false)
  else match s.items.get? (scope,toolName) with
    | none => (s,false)
    | some current =>
      if current.registrationId ≠ owner.registrationId then (s,false)
      else (s.removed (scope,toolName) current,true)

def close (owner : ToolRegistrationHandle) : ToolRegistry :=
  if owner.registry = self ∧ owner.registrationId ∈ s.closedHandles then s
  else (s.unregister self owner.scope owner.toolName owner).1

def registerOwned (effectsOpen : Bool) (r : Registration) :
    ToolRegistry × Except RegistryError ToolRegistrationHandle :=
  match s.register pkg self scope r with
  | .error error => (s,.error error)
  | .ok (t,handle) =>
    if effectsOpen then (t,.ok handle) else (t.close self handle,.error .effectScopeClosed)

def registrationCandidates (scope : RequestScope) : List ScopePath :=
  let product := match scope.path with
    | .product t p => ScopePath.product t p
    | _ => .product scope.tenantId scope.productId
  [product,.tenant scope.tenantId,.root]

def resolve (scope : RequestScope) (toolName : String) : Option RegisteredTool :=
  (registrationCandidates scope).findSome?
    (fun candidate => (s.items.get? (candidate,toolName)).map (fun entry => entry.item))

end ToolRegistry

inductive RegistryOp where
  | register (scope : ScopePath) (r : Registration)
  | registerProtected (r : Registration) (identity : Option ToolIdentity)
  | registerOwned (scope : ScopePath) (effectsOpen : Bool) (r : Registration)
  | unregister (scope : ScopePath) (toolName : String) (owner : ToolRegistrationHandle)
  | close (owner : ToolRegistrationHandle)

inductive RegistryAnswer where
  | registered (handle : ToolRegistrationHandle)
  | refused (error : RegistryError)
  | removed (existed : Bool)
  | closed
  deriving DecidableEq

namespace ToolRegistry

def answered (s : ToolRegistry) :
    Except RegistryError (ToolRegistry × ToolRegistrationHandle) → ToolRegistry × RegistryAnswer
  | .error error => (s,.refused error)
  | .ok (t,handle) => (t,.registered handle)

def step (pkg : SchemaPackage) (self : ℕ) (s : ToolRegistry) :
    RegistryOp → ToolRegistry × RegistryAnswer
  | .register scope r => s.answered (s.register pkg self scope r)
  | .registerProtected r identity => s.answered (s.registerProtected pkg self r identity)
  | .registerOwned scope effectsOpen r =>
    match s.registerOwned pkg self scope effectsOpen r with
    | (t,.ok handle) => (t,.registered handle)
    | (t,.error error) => (t,.refused error)
  | .unregister scope toolName owner =>
    let (t,existed) := s.unregister self scope toolName owner
    (t,.removed existed)
  | .close owner => (s.close self owner,.closed)

structure Admissible (s : ToolRegistry) (scope : ScopePath) (name : String)
    (identity : ToolIdentity) (isProtected : Bool) : Prop where
  placed : scope.isAgent = false
  named : identity.name = name
  unreserved : scope.isRoot = false → s.protectedNames.get? name = none
  unshadowed : isProtected = true → ∀ key entry, s.items.get? key = some entry → key.2 = name →
    key.1.isRoot = true
  free : s.items.get? (scope,name) = none
  fresh : ∀ key entry, s.items.get? key = some entry → entry.item.identity ≠ identity

variable {current entry : RegisteredEntry} {identity : ToolIdentity} {isProtected : Bool}
  {key : ScopePath × String} {pkg : SchemaPackage} {r : Registration} {s t : ToolRegistry}
  {scope : ScopePath}

theorem entries_any_false {p : (ScopePath × String) × RegisteredEntry → Bool}
    (h : s.items.entries.any p = false) (hget : s.items.get? key = some entry) :
    p (key,entry) = false := by
  rw [List.any_eq_false] at h
  exact Bool.eq_false_iff.mpr (h _ ((Dict.get_mem _ _ _).mp hget))

theorem check_passed {α : Type} {p : Prop} [Decidable p] {error : α} {rest : Option α}
    (h : (if p then some error else rest) = none) : ¬p ∧ rest = none := by
  by_cases hp : p
  · rw [if_pos hp] at h
    cases h
  · rw [if_neg hp] at h
    exact ⟨hp,h⟩

theorem refusal_none (h : s.refusal pkg scope r identity isProtected = none) :
    s.Admissible scope r.spec.name identity isProtected := by
  obtain ⟨hagent,h⟩ := check_passed h
  obtain ⟨hname,h⟩ := check_passed h
  obtain ⟨-,h⟩ := check_passed h
  obtain ⟨-,h⟩ := check_passed h
  obtain ⟨-,h⟩ := check_passed h
  obtain ⟨-,h⟩ := check_passed h
  obtain ⟨hshadow,h⟩ := check_passed h
  obtain ⟨hexisting,h⟩ := check_passed h
  obtain ⟨hkey,h⟩ := check_passed h
  obtain ⟨hidentity,-⟩ := check_passed h
  refine ⟨by simpa using hagent,not_not.mp hname,?_,?_,?_,?_⟩
  · intro hroot
    simpa [hroot, Dict.contains] using hshadow
  · intro hprotected key entry hget hsame
    rw [hprotected, Bool.true_and, Bool.not_eq_true] at hexisting
    simpa [hsame] using entries_any_false hexisting hget
  · simpa [Dict.contains] using hkey
  · intro key entry hget
    rw [Bool.not_eq_true] at hidentity
    simpa using entries_any_false hidentity hget

inductive Change (pkg : SchemaPackage) (s : ToolRegistry) : ToolRegistry → Prop
  | none : Change pkg s s
  | added {scope : ScopePath} {r : Registration} {identity : ToolIdentity} {isProtected : Bool}
      (ok : s.Admissible scope r.spec.name identity isProtected)
      (root : isProtected = true → scope = .root) :
      Change pkg s (s.added pkg scope r identity isProtected)
  | removed {key : ScopePath × String} {current : RegisteredEntry}
      (live : s.items.get? key = some current) : Change pkg s (s.removed key current)

/-- A removal takes the live entry at the handle's place that carries its id. -/
theorem unregister_cases (self : ℕ) (s : ToolRegistry) (scope : ScopePath) (toolName : String)
    (owner : ToolRegistrationHandle) :
    (∃ current, owner.registry = self ∧ owner.scope = scope ∧ owner.toolName = toolName ∧
      s.items.get? (scope,toolName) = some current ∧
      current.registrationId = owner.registrationId ∧
      s.unregister self scope toolName owner = (s.removed (scope,toolName) current,true)) ∨
    (¬ (owner.registry = self ∧ owner.scope = scope ∧ owner.toolName = toolName ∧
      ∃ current, s.items.get? (scope,toolName) = some current ∧
        current.registrationId = owner.registrationId) ∧
      s.unregister self scope toolName owner = (s,false)) := by
  unfold unregister
  split_ifs with hself hplace
  · exact .inr ⟨fun h => hself h.1,rfl⟩
  · exact .inr ⟨fun h => hplace.elim (fun hs => hs h.2.1) (fun hn => hn h.2.2.1),rfl⟩
  · rw [not_or, not_not, not_not] at hplace
    cases hget : s.items.get? (scope,toolName) with
    | none => exact .inr ⟨by simp,rfl⟩
    | some current =>
      simp only
      split_ifs with hid
      · refine .inr ⟨?_,rfl⟩
        rintro ⟨-,-,-,current',hcurrent,hsame⟩
        cases hcurrent
        exact hid hsame
      · exact .inl ⟨current,not_not.mp hself,hplace.1,hplace.2,rfl,not_not.mp hid,rfl⟩

theorem unregister_change (pkg : SchemaPackage) (self : ℕ) (s : ToolRegistry) (scope : ScopePath)
    (toolName : String) (owner : ToolRegistrationHandle) :
    Change pkg s (s.unregister self scope toolName owner).1 := by
  obtain ⟨current,-,-,-,hlive,-,heq⟩ | ⟨-,heq⟩ := unregister_cases self s scope toolName owner
  · rw [heq]
    exact .removed hlive
  · rw [heq]
    exact .none

theorem close_change (pkg : SchemaPackage) (self : ℕ) (s : ToolRegistry)
    (owner : ToolRegistrationHandle) : Change pkg s (s.close self owner) := by
  unfold close
  split_ifs
  · exact .none
  · exact unregister_change pkg self s owner.scope owner.toolName owner

variable {handle : ToolRegistrationHandle} {self : ℕ}

/-- A registration that succeeds adds one entry and returns its handle. -/
theorem install_ok (h : s.install pkg self scope r identity isProtected = .ok (t,handle)) :
    s.Admissible scope r.spec.name identity isProtected ∧
    t = s.added pkg scope r identity isProtected ∧
    handle = ⟨self,scope,r.spec.name,s.nextId,identity⟩ := by
  unfold install at h
  cases hr : s.refusal pkg scope r identity isProtected with
  | some error => simp [hr] at h
  | none =>
    simp only [hr, Except.ok.injEq, Prod.mk.injEq] at h
    exact ⟨refusal_none hr,h.1.symm,h.2.symm⟩

theorem register_ok (h : s.register pkg self scope r = .ok (t,handle)) :
    ∃ identity, s.Admissible scope r.spec.name identity false ∧
      t = s.added pkg scope r identity false ∧
      handle = ⟨self,scope,r.spec.name,s.nextId,identity⟩ := by
  unfold register at h
  cases hi : ToolIdentity.scoped scope r.spec.name with
  | none => simp [hi] at h
  | some identity =>
    simp only [hi] at h
    exact ⟨identity,install_ok h⟩

theorem register_protected_ok {identity : Option ToolIdentity}
    (h : s.registerProtected pkg self r identity = .ok (t,handle)) :
    ∃ identity, s.Admissible .root r.spec.name identity true ∧
      t = s.added pkg .root r identity true ∧
      handle = ⟨self,.root,r.spec.name,s.nextId,identity⟩ := by
  unfold registerProtected at h
  simp only at h
  split_ifs at h
  exact ⟨_,install_ok h⟩

/-- A step is at most two changes; only an owned registration whose effect scope
is closed needs the second. -/
theorem step_changes (pkg : SchemaPackage) (self : ℕ) (s : ToolRegistry) (op : RegistryOp) :
    ∃ mid, Change pkg s mid ∧ Change pkg mid (s.step pkg self op).1 := by
  cases op with
  | register scope r =>
    simp only [step]
    cases hr : s.register pkg self scope r with
    | error error => exact ⟨s,.none,.none⟩
    | ok result =>
      obtain ⟨identity,hok,ht,-⟩ := register_ok hr
      exact ⟨_,.none,ht ▸ .added hok nofun⟩
  | registerProtected r identity =>
    simp only [step]
    cases hr : s.registerProtected pkg self r identity with
    | error error => exact ⟨s,.none,.none⟩
    | ok result =>
      obtain ⟨identity,hok,ht,-⟩ := register_protected_ok hr
      exact ⟨_,.none,ht ▸ .added hok (fun _ => rfl)⟩
  | registerOwned scope effectsOpen r =>
    simp only [step, registerOwned]
    cases hr : s.register pkg self scope r with
    | error error => exact ⟨s,.none,.none⟩
    | ok result =>
      obtain ⟨t,handle⟩ := result
      obtain ⟨identity,hok,ht,-⟩ := register_ok hr
      have hadded : Change pkg s t := ht ▸ .added hok nofun
      cases effectsOpen with
      | true => exact ⟨t,hadded,.none⟩
      | false => exact ⟨t,hadded,close_change pkg self t handle⟩
  | unregister scope toolName owner =>
    exact ⟨s,.none,unregister_change pkg self s scope toolName owner⟩
  | close owner => exact ⟨s,.none,close_change pkg self s owner⟩

structure Sound (s : ToolRegistry) : Prop where
  keyed : ∀ key entry, s.items.get? key = some entry → key.2 = entry.item.spec.name ∧
    entry.item.identity.name = entry.item.spec.name ∧ key.1.isAgent = false
  identities : ∀ key entry key' entry', s.items.get? key = some entry →
    s.items.get? key' = some entry' → entry.item.identity = entry'.item.identity → key = key'
  ids : ∀ key entry key' entry', s.items.get? key = some entry →
    s.items.get? key' = some entry' → entry.registrationId = entry'.registrationId → key = key'
  live : ∀ key entry, s.items.get? key = some entry → entry.registrationId < s.nextId ∧
    entry.registrationId ∉ s.closedHandles
  closed : ∀ id ∈ s.closedHandles, id < s.nextId
  guarded : ∀ name id, s.protectedNames.get? name = some id →
    (∃ entry, s.items.get? (.root,name) = some entry ∧ entry.isProtected = true ∧
      entry.registrationId = id) ∧
    ∀ key entry, s.items.get? key = some entry → key.2 = name → key.1 = .root
  reserved : ∀ key entry, s.items.get? key = some entry → entry.isProtected = true →
    key.1 = .root ∧ s.protectedNames.get? key.2 = some entry.registrationId

theorem sound_initial : Sound {} where
  keyed := by simp
  identities := by simp
  ids := by simp
  live := by simp
  closed := by simp
  guarded := by simp
  reserved := by simp

theorem is_root_eq {path : ScopePath} (h : path.isRoot = true) : path = .root := by
  cases path <;> first | rfl | simp [ScopePath.isRoot] at h

theorem added_get (pkg : SchemaPackage) (s : ToolRegistry) (scope : ScopePath) (r : Registration)
    (identity : ToolIdentity) (isProtected : Bool) (key : ScopePath × String) :
    (s.added pkg scope r identity isProtected).items.get? key =
      if key = (scope,r.spec.name) then some (s.newEntry pkg scope r identity isProtected)
      else s.items.get? key :=
  Dict.get_set _ _ _ _

theorem removed_get (s : ToolRegistry) (key other : ScopePath × String)
    (current : RegisteredEntry) :
    (s.removed key current).items.get? other = if other = key then none else s.items.get? other :=
  Dict.get_erase _ _ _

/-- An entry after a registration is the new one or an old one elsewhere. -/
theorem added_live (h : (s.added pkg scope r identity isProtected).items.get? key = some entry) :
    key = (scope,r.spec.name) ∧ entry = s.newEntry pkg scope r identity isProtected ∨
    key ≠ (scope,r.spec.name) ∧ s.items.get? key = some entry := by
  rw [added_get] at h
  split_ifs at h with hkey
  · exact .inl ⟨hkey,(Option.some.inj h).symm⟩
  · exact .inr ⟨hkey,h⟩

theorem removed_live {other : ScopePath × String}
    (h : (s.removed key current).items.get? other = some entry) :
    other ≠ key ∧ s.items.get? other = some entry := by
  rw [removed_get] at h
  split_ifs at h with hkey
  exact ⟨hkey,h⟩

theorem added_protected (pkg : SchemaPackage) (s : ToolRegistry) (scope : ScopePath)
    (r : Registration) (identity : ToolIdentity) (isProtected : Bool) (name : String) :
    (s.added pkg scope r identity isProtected).protectedNames.get? name =
      if isProtected = true ∧ name = r.spec.name then some s.nextId
      else s.protectedNames.get? name := by
  unfold added
  cases isProtected <;> simp

theorem sound_added (hs : Sound s) (ok : s.Admissible scope r.spec.name identity isProtected)
    (root : isProtected = true → scope = .root) :
    Sound (s.added pkg scope r identity isProtected) where
  keyed key entry h := by
    rcases added_live h with ⟨rfl,rfl⟩ | ⟨-,hold⟩
    · exact ⟨rfl,ok.named,ok.placed⟩
    · exact hs.keyed key entry hold
  identities key entry key' entry' h h' heq := by
    rcases added_live h with ⟨rfl,rfl⟩ | ⟨-,hold⟩ <;>
      rcases added_live h' with ⟨rfl,rfl⟩ | ⟨-,hold'⟩
    · rfl
    · exact absurd heq.symm (ok.fresh key' entry' hold')
    · exact absurd heq (ok.fresh key entry hold)
    · exact hs.identities key entry key' entry' hold hold' heq
  ids key entry key' entry' h h' heq := by
    rcases added_live h with ⟨rfl,rfl⟩ | ⟨-,hold⟩ <;>
      rcases added_live h' with ⟨rfl,rfl⟩ | ⟨-,hold'⟩
    · rfl
    · exact absurd heq.symm (hs.live key' entry' hold').1.ne
    · exact absurd heq (hs.live key entry hold).1.ne
    · exact hs.ids key entry key' entry' hold hold' heq
  live key entry h := by
    rcases added_live h with ⟨rfl,rfl⟩ | ⟨-,hold⟩
    · exact ⟨Nat.lt_succ_self _,fun hmem => (hs.closed _ hmem).false⟩
    · exact ⟨Nat.lt_succ_of_lt (hs.live key entry hold).1,(hs.live key entry hold).2⟩
  closed id hid := Nat.lt_succ_of_lt (hs.closed id hid)
  guarded name id h := by
    rw [added_protected] at h
    split_ifs at h with hnew
    · obtain ⟨hprotected,rfl⟩ := hnew
      obtain rfl := root hprotected
      refine ⟨⟨_,(added_get ..).trans (if_pos rfl),hprotected,Option.some.inj h⟩,?_⟩
      intro key entry hget hname
      rcases added_live hget with ⟨rfl,-⟩ | ⟨-,hold⟩
      · rfl
      · exact is_root_eq (ok.unshadowed hprotected key entry hold hname)
    · obtain ⟨⟨entry,hroot,hprotected,hid⟩,hall⟩ := hs.guarded name id h
      have hother : (ScopePath.root,name) ≠ (scope,r.spec.name) := by
        intro heq
        rw [heq, ok.free] at hroot
        cases hroot
      refine ⟨⟨entry,(added_get ..).trans ((if_neg hother).trans hroot),hprotected,hid⟩,?_⟩
      intro key entry' hget hname
      rcases added_live hget with ⟨rfl,-⟩ | ⟨-,hold⟩
      · cases hkind : scope.isRoot with
        | true => exact is_root_eq hkind
        | false =>
          have hnone := ok.unreserved hkind
          rw [show r.spec.name = name from hname, h] at hnone
          cases hnone
      · exact hall key entry' hold hname
  reserved key entry h hprotected := by
    rw [added_protected]
    rcases added_live h with ⟨rfl,rfl⟩ | ⟨hkey,hold⟩
    · exact ⟨root hprotected,if_pos ⟨hprotected,rfl⟩⟩
    · obtain ⟨hroot,hname⟩ := hs.reserved key entry hold hprotected
      refine ⟨hroot,?_⟩
      rw [if_neg, hname]
      rintro ⟨hnew,hsame⟩
      exact hkey (Prod.ext (hroot.trans (root hnew).symm) hsame)

/-- A removal takes the name's protection exactly with the protected entry. -/
theorem removed_protected (hs : Sound s) (live : s.items.get? key = some current) (name : String) :
    (s.removed key current).protectedNames.get? name =
      if current.isProtected = true ∧ name = key.2 then none else s.protectedNames.get? name := by
  unfold removed
  by_cases hprotected : current.isProtected = true
  · have hname := (hs.reserved key current live hprotected).2
    simp [hprotected, hname]
  · simp [hprotected]

theorem sound_removed (hs : Sound s) (live : s.items.get? key = some current) :
    Sound (s.removed key current) where
  keyed other entry h := hs.keyed other entry (removed_live h).2
  identities other entry other' entry' h h' :=
    hs.identities other entry other' entry' (removed_live h).2 (removed_live h').2
  ids other entry other' entry' h h' :=
    hs.ids other entry other' entry' (removed_live h).2 (removed_live h').2
  live other entry h := by
    obtain ⟨hkey,hold⟩ := removed_live h
    obtain ⟨hlt,hopen⟩ := hs.live other entry hold
    refine ⟨hlt,?_⟩
    rw [removed, List.mem_cons, not_or]
    exact ⟨fun heq => hkey (hs.ids other entry key current hold live heq),hopen⟩
  closed id hid := by
    rcases List.mem_cons.mp hid with rfl | hid
    · exact (hs.live key current live).1
    · exact hs.closed id hid
  guarded name id h := by
    rw [removed_protected hs live] at h
    split_ifs at h with hgone
    obtain ⟨⟨entry,hroot,hprotected,hid⟩,hall⟩ := hs.guarded name id h
    refine ⟨⟨entry,?_,hprotected,hid⟩,fun other entry' hget => hall other entry' (removed_live hget).2⟩
    rw [removed_get, if_neg, hroot]
    rintro rfl
    rw [live] at hroot
    cases hroot
    exact hgone ⟨hprotected,rfl⟩
  reserved other entry h hprotected := by
    obtain ⟨hkey,hold⟩ := removed_live h
    obtain ⟨hroot,hname⟩ := hs.reserved other entry hold hprotected
    refine ⟨hroot,?_⟩
    rw [removed_protected hs live, if_neg, hname]
    rintro ⟨hcurrent,hsame⟩
    exact hkey (Prod.ext (hroot.trans (hs.reserved key current live hcurrent).1.symm) hsame)

theorem sound_change (h : Change pkg s t) (hs : Sound s) : Sound t := by
  cases h with
  | none => exact hs
  | added ok root => exact sound_added hs ok root
  | removed live => exact sound_removed hs live

theorem sound_run (pkg : SchemaPackage) (self : ℕ) (s : ToolRegistry) (ops : List RegistryOp)
    (hs : Sound s) : Sound (Machine.final (step pkg self) s ops) := by
  apply Machine.final_invariant (step pkg self) Sound _ s ops hs
  intro s op hs
  obtain ⟨mid,hfirst,hsecond⟩ := step_changes pkg self s op
  exact sound_change hsecond (sound_change hfirst hs)

def nearest (s : ToolRegistry) (path : ScopePath) (toolName : String) : Option RegisteredTool :=
  path.enclosing.findSome?
    (fun scope => (s.items.get? (scope,toolName)).map (fun entry => entry.item))

theorem registration_candidates_eq (scope : RequestScope) :
    registrationCandidates scope =
      [.product scope.tenantId scope.productId,.tenant scope.tenantId,.root] := by
  unfold registrationCandidates RequestScope.path
  cases scope.agent <;> rfl

/-- The lookup may skip the agent scope: nothing is registered there. -/
theorem resolve_nearest (hs : Sound s) (scope : RequestScope) (toolName : String) :
    s.resolve scope toolName = s.nearest scope.path toolName := by
  unfold resolve nearest
  rw [registration_candidates_eq, RequestScope.path]
  cases scope.agent with
  | none => rfl
  | some agent =>
    obtain ⟨agentId,sessionId⟩ := agent
    have hnone : s.items.get?
        (.agent scope.tenantId scope.productId agentId sessionId,toolName) = none := by
      by_contra hsome
      obtain ⟨entry,hentry⟩ := Option.ne_none_iff_exists'.mp hsome
      have hagent := (hs.keyed _ entry hentry).2.2
      simp [ScopePath.isAgent] at hagent
    simp only [ScopePath.enclosing, List.findSome?_cons, hnone, Option.map_none]

theorem resolve_protected (hs : Sound s) {name : String} {id : ℕ}
    (h : s.protectedNames.get? name = some id) (hentry : s.items.get? (.root,name) = some entry)
    (scope : RequestScope) : s.resolve scope name = some entry.item := by
  have hnone : ∀ path, path ≠ .root → s.items.get? (path,name) = none := by
    intro path hpath
    by_contra hsome
    obtain ⟨shadow,hshadow⟩ := Option.ne_none_iff_exists'.mp hsome
    exact hpath ((hs.guarded name id h).2 _ shadow hshadow rfl)
  unfold resolve
  rw [registration_candidates_eq]
  simp [hnone, hentry]

structure Created (id : ℕ) (key : ScopePath × String) (entry : RegisteredEntry)
    (s : ToolRegistry) : Prop where
  drawn : id < s.nextId
  only : ∀ key' entry', s.items.get? key' = some entry' → entry'.registrationId = id →
    key' = key ∧ entry' = entry

theorem created_change {id : ℕ} (h : Change pkg s t) (hs : Created id key entry s) :
    Created id key entry t := by
  cases h with
  | none => exact hs
  | added ok root =>
    refine ⟨Nat.lt_succ_of_lt hs.drawn,fun key' entry' hget hid => ?_⟩
    rcases added_live hget with ⟨-,rfl⟩ | ⟨-,hold⟩
    · exact absurd hid hs.drawn.ne'
    · exact hs.only key' entry' hold hid
  | removed live => exact ⟨hs.drawn,fun key' entry' hget => hs.only key' entry' (removed_live hget).2⟩

theorem created_run {id : ℕ} (pkg : SchemaPackage) (self : ℕ) (ops : List RegistryOp)
    (hs : Created id key entry s) : Created id key entry (Machine.final (step pkg self) s ops) := by
  apply Machine.final_invariant (step pkg self) (Created id key entry) _ s ops hs
  intro s op hs
  obtain ⟨mid,hfirst,hsecond⟩ := step_changes pkg self s op
  exact created_change hsecond (created_change hfirst hs)

/-- A handle names the entry that its registration added. -/
theorem step_registered (hs : Sound s) {op : RegistryOp}
    (h : (s.step pkg self op).2 = .registered handle) :
    ∃ entry, (s.step pkg self op).1.items.get? (handle.scope,handle.toolName) = some entry ∧
      handle.registry = self ∧ entry.item.identity = handle.identity ∧
      entry.registrationId = handle.registrationId ∧
      Created handle.registrationId (handle.scope,handle.toolName) entry (s.step pkg self op).1 := by
  suffices hadded : ∃ scope r identity isProtected,
      (s.step pkg self op).1 = s.added pkg scope r identity isProtected ∧
        handle = ⟨self,scope,r.spec.name,s.nextId,identity⟩ by
    obtain ⟨scope,r,identity,isProtected,hstep,rfl⟩ := hadded
    rw [hstep]
    refine ⟨_,(added_get ..).trans (if_pos rfl),rfl,rfl,rfl,Nat.lt_succ_self _,?_⟩
    intro key entry hget hid
    rcases added_live hget with hnew | ⟨-,hold⟩
    · exact hnew
    · exact absurd hid (hs.live key entry hold).1.ne
  cases op with
  | register scope r =>
    simp only [step] at h ⊢
    cases hr : s.register pkg self scope r with
    | error error => simp [hr, answered] at h
    | ok result =>
      obtain ⟨t,handle'⟩ := result
      obtain ⟨identity,-,ht,hhandle⟩ := register_ok hr
      simp only [hr, answered, RegistryAnswer.registered.injEq] at h ⊢
      exact ⟨_,_,_,_,ht,h ▸ hhandle⟩
  | registerProtected r identity =>
    simp only [step] at h ⊢
    cases hr : s.registerProtected pkg self r identity with
    | error error => simp [hr, answered] at h
    | ok result =>
      obtain ⟨t,handle'⟩ := result
      obtain ⟨identity,-,ht,hhandle⟩ := register_protected_ok hr
      simp only [hr, answered, RegistryAnswer.registered.injEq] at h ⊢
      exact ⟨_,_,_,_,ht,h ▸ hhandle⟩
  | registerOwned scope effectsOpen r =>
    simp only [step, registerOwned] at h ⊢
    cases hr : s.register pkg self scope r with
    | error error => simp [hr] at h
    | ok result =>
      obtain ⟨t,handle'⟩ := result
      obtain ⟨identity,-,ht,hhandle⟩ := register_ok hr
      cases effectsOpen with
      | false => simp [hr] at h
      | true =>
        simp only [hr, if_true, RegistryAnswer.registered.injEq] at h ⊢
        exact ⟨_,_,_,_,ht,h ▸ hhandle⟩
  | unregister scope toolName owner => simp [step] at h
  | close owner => simp [step] at h

def releases (handle : ToolRegistrationHandle) (op : RegistryOp) : Prop :=
  op = .close handle ∨ op = .unregister handle.scope handle.toolName handle

/-- A released handle takes its own entry while that is live, and nothing else. -/
theorem release_items (ht : Sound t)
    (hself : handle.registry = self) (hid : entry.registrationId = handle.registrationId)
    (hc : Created handle.registrationId (handle.scope,handle.toolName) entry t) {op : RegistryOp}
    (hop : releases handle op) :
    (t.items.get? (handle.scope,handle.toolName) = some entry →
      (t.step pkg self op).1.items = t.items.erase (handle.scope,handle.toolName)) ∧
    (t.items.get? (handle.scope,handle.toolName) ≠ some entry →
      (t.step pkg self op).1.items = t.items) := by
  have hunregister := unregister_cases self t handle.scope handle.toolName handle
  have hstep : t.items.get? (handle.scope,handle.toolName) = some entry →
      (t.step pkg self op).1 = (t.unregister self handle.scope handle.toolName handle).1 := by
    intro hget
    rcases hop with rfl | rfl
    · have hopen := (ht.live _ entry hget).2
      rw [hid] at hopen
      simp only [step, close]
      rw [if_neg (fun h => hopen h.2)]
    · rfl
  constructor
  · intro hget
    rw [hstep hget]
    obtain ⟨current,-,-,-,-,-,heq⟩ | ⟨hno,-⟩ := hunregister
    · rw [heq, removed]
    · exact absurd ⟨hself,rfl,rfl,entry,hget,hid⟩ hno
  · intro hgone
    have hsame : (t.unregister self handle.scope handle.toolName handle).1 = t := by
      obtain ⟨current,-,-,-,hlive,hcurrent,-⟩ | ⟨-,heq⟩ := hunregister
      · exact absurd ((hc.only _ current hlive hcurrent).2 ▸ hlive) hgone
      · rw [heq]
    rcases hop with rfl | rfl
    · simp only [step, close]
      split_ifs
      · rfl
      · rw [hsame]
    · simp only [step]
      rw [hsame]

/-- A handle of another registry, or one used for another place, does nothing. -/
theorem unregister_elsewhere {toolName : String} {owner : ToolRegistrationHandle}
    (h : owner.registry ≠ self ∨ (scope,toolName) ≠ (owner.scope,owner.toolName)) :
    (s.unregister self scope toolName owner).1 = s := by
  obtain ⟨current,hself,hscope,hname,-⟩ | ⟨-,heq⟩ := unregister_cases self s scope toolName owner
  · rcases h with hother | hplace
    · exact absurd hself hother
    · exact absurd (by rw [hscope, hname]) hplace
  · rw [heq]

theorem close_elsewhere {owner : ToolRegistrationHandle} (h : owner.registry ≠ self) :
    s.close self owner = s := by
  rw [close, if_neg (fun hclosed => h hclosed.1)]
  exact unregister_elsewhere (.inl h)

end ToolRegistry

open ToolRegistry

end SuiteHarness.Execution
