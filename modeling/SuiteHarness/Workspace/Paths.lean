import SuiteHarness.Execution.Models

/-!
# Workspace paths and the channel policy

The four parsers of a workspace path: the channel policy, the file tools, the
access policy and the secure filesystem. Each is written as its module has it.
`PurePosixPath.parts` drops empty parts and single dots and puts a root of one
or two slashes first.
-/

set_option autoImplicit false

namespace SuiteHarness.Workspace

open SuiteHarness.Execution

def portable (value : String) : String :=
  String.ofList (value.toList.map (fun c => if c = '\\' then '/' else c))

variable (text : String)

def splitSlash : List String := (text.toList.splitOn '/').map String.ofList

def startsWithSlash : Bool := text.toList.head? == some '/'

def purePosixParts : List String :=
  let root := match text.toList with
    | '/' :: '/' :: '/' :: _ => ["/"]
    | '/' :: '/' :: _ => ["//"]
    | '/' :: _ => ["/"]
    | _ => []
  root++(splitSlash text).filter (fun part => !(["","."].contains part))

def hasDrive : Bool :=
  match text.toList with
  | c :: ':' :: _ => c.isAlpha
  | _ => false

def isDots (part : String) : Bool := ["",".",".."].contains part

def hasNul : Bool := text.toList.contains (Char.ofNat 0)

/-! `channels/policy.py`. -/

def policyParts (value : Option Json) (allowRoot : Bool) : Option (List String) :=
  match value with
  | some (.str value) =>
    if value = "" || hasNul value then none
    else
      let text := portable value
      if text = "." then (if allowRoot then some [] else none)
      else if startsWithSlash text || hasDrive text then none
      else
        let raw := splitSlash text
        if raw.any isDots then none
        else if raw = purePosixParts text then some (purePosixParts text) else none
  | _ => none

inductive WorkspaceSpace where
  | product | shared
  deriving DecidableEq

def WorkspaceSpace.value : WorkspaceSpace → String
  | .product => "product"
  | .shared => "shared"

structure WorkspaceWriteRule where
  space : WorkspaceSpace
  path : String
  normalized : (policyParts (some (.str path)) true).isSome = true

def selectedSpace (space : Json) : Json := if space = .null then .str "product" else space

def WorkspaceWriteRule.permits (rule : WorkspaceWriteRule) (space : Json) (path : Option Json) :
    Bool :=
  if selectedSpace space ≠ .str rule.space.value then false
  else match policyParts (some (.str rule.path)) true, policyParts path false with
    | some configured, some requested =>
      decide (configured = []) || decide (requested.take configured.length = configured)
    | _, _ => false

def feishuWritableTools : List String := ["suiteharness.fs.write","suiteharness.fs.edit"]

def spaceArgument (arguments : Json) : Json := (arguments.get? "space").getD (.str "product")

def evaluate (feishuWritableRoots : List WorkspaceWriteRule) (channelId : String)
    (identity : ToolIdentity) (spec : ToolSpec) (arguments : Json) : ToolAuthorization :=
  if channelId = "web" then
    if ToolEffect.write ∈ spec.effects ∨ ToolEffect.destructive ∈ spec.effects then .requireApproval
    else .allow
  else if channelId ≠ "feishu" then .default
  else if ToolEffect.destructive ∈ spec.effects then .deny
  else if spec.isRead then .allow
  else if ¬(identity.nameSpace = "suiteharness" ∧ identity.origin = "suiteharness.builtin.fs" ∧
      feishuWritableTools.contains identity.name ∧ spec.name = identity.name) then .deny
  else if feishuWritableRoots.any
      (fun rule => rule.permits (spaceArgument arguments) (arguments.get? "path")) then .allow
  else .deny

/-! `tools/workspace.py`. -/

inductive WorkspaceError where
  | valueError (message : String)
  | pathError (message : String)
  | accessDenied (message : String)
  | fileExists (message : String)
  /-- A `_path_error`: the action, the path and the detail of its text. -/
  | unsafePath (action path detail : String)
  deriving DecidableEq

def toSpace (value : Json) : Except WorkspaceError WorkspaceSpace :=
  if value = .str "product" then .ok .product
  else if value = .str "shared" then .ok .shared
  else .error (.valueError "space must be 'product' or 'shared'")

def relativePath (value : Option Json) (allowRoot : Bool) : Except WorkspaceError String :=
  match value with
  | some (.str value) =>
    if hasNul value || decide (4096 < value.toList.length) then
      .error (.valueError "path must be a bounded NUL-free string")
    else
      let text := portable value
      if text = "." ∧ allowRoot = true then .ok text
      else if text = "" || startsWithSlash text then
        .error (.valueError "path must be relative to the selected workspace")
      else if hasDrive text then .error (.valueError "drive-prefixed paths are forbidden")
      else if (splitSlash text).any isDots then
        .error (.valueError "path must be normalized and cannot contain '..'")
      else .ok text
  | _ => .error (.valueError "path must be a bounded NUL-free string")

/-! `workspace/access.py`. An absolute path is the list of its parts. -/

abbrev AbsolutePath := List String

def lexical (path : AbsolutePath) : AbsolutePath :=
  path.foldl (fun done part => if part = ".." then done.dropLast else done++[part]) []

def logicalCandidate (root : AbsolutePath) (relative : String) :
    Except WorkspaceError AbsolutePath :=
  let text := portable relative
  if text = "." then .ok (lexical root)
  else
    let raw := splitSlash text
    if text = "" || startsWithSlash text || raw.any isDots || decide (raw ≠ purePosixParts text)
    then .error (.accessDenied "workspace path must be normalized and relative")
    else .ok (lexical root++raw)

inductive WorkspaceOperation where
  | read | write | delete
  deriving DecidableEq

def WorkspaceOperation.value : WorkspaceOperation → String
  | .read => "read"
  | .write => "write"
  | .delete => "delete"

structure WorkspaceAccessPolicy where
  logicalReadableRoots : List AbsolutePath
  logicalWritableRoots : List AbsolutePath
  allowDelete : Bool := false

def underAny (path : AbsolutePath) (roots : List AbsolutePath) : Bool :=
  roots.any (fun root => root.isPrefixOf path)

def WorkspaceAccessPolicy.authorizeRelative (policy : WorkspaceAccessPolicy)
    (selectedRoot : AbsolutePath) (relative : String) (operation : WorkspaceOperation) :
    Except WorkspaceError AbsolutePath :=
  match logicalCandidate selectedRoot relative with
  | .error error => .error error
  | .ok candidate =>
    let allowed := match operation with
      | .read => underAny candidate policy.logicalReadableRoots
      | .write => underAny candidate policy.logicalWritableRoots
      | .delete => policy.allowDelete && underAny candidate policy.logicalWritableRoots
    if allowed then .ok candidate
    else .error (.accessDenied ("workspace " ++ operation.value ++ " operation is not allowed"))

/-! `workspace/secure_fs.py`. -/

def segments (relative : String) (allowRoot : Bool) : Except WorkspaceError (List String) :=
  if relative = "" || hasNul relative then
    .error (.pathError "workspace path must be a non-empty NUL-free string")
  else
    let text := portable relative
    if text = "." ∧ allowRoot = true then .ok []
    else if startsWithSlash text then .error (.pathError "workspace path must be relative")
    else
      let raw := splitSlash text
      if raw.any isDots then
        .error (.pathError "workspace path must be normalized and must not contain '..'")
      else if raw ≠ purePosixParts text then
        .error (.pathError "workspace path must be normalized")
      else .ok (purePosixParts text)

end SuiteHarness.Workspace
