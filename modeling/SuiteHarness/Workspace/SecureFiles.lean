import SuiteHarness.Library.Dict
import SuiteHarness.Workspace.Paths

/-!
# The secure filesystem and the writing file tools

Every component of a path is opened relative to an open directory and links are
never followed. A write creates a temporary file in the directory of its target
and publishes it there under the last segment. The names drawn for the
temporary file are an input; a failed call leaves the filesystem as it was.
-/

set_option autoImplicit false

namespace SuiteHarness.Workspace

open SuiteHarness.Library

abbrev Bytes := List UInt8

inductive Inode where
  | directory (entries : Dict String ℕ)
  | file (content : Bytes)
  | symlink
  | other

structure FileSystem where
  inode : ℕ → Option Inode
  next : ℕ
  fresh : ∀ i, next ≤ i → inode i = none
  slash : ∃ entries, inode 0 = some (.directory entries)

namespace FileSystem

variable (fs : FileSystem) (parent : ℕ) (names : List String) (root : AbsolutePath) (relative : String)

theorem next_pos : 0 < fs.next := by
  obtain ⟨entries,h⟩ := fs.slash
  by_contra hzero
  rw [fs.fresh 0 (by omega)] at h
  cases h

def entries (fs : FileSystem) (directory : ℕ) : Dict String ℕ :=
  match fs.inode directory with
  | some (.directory entries) => entries
  | _ => Dict.empty

def child (directory : ℕ) (name : String) : Option ℕ :=
  (fs.entries directory).get? name

def notFound : String := "does not exist"

def blocked : String :=
  "contains forbidden symbolic links or non-directory components; escapes are blocked"

def openDirectory (action path : String) (parent : ℕ) (name : String) : Except WorkspaceError ℕ :=
  match fs.child parent name with
  | none => .error (.unsafePath action path notFound)
  | some i => match fs.inode i with
    | some (.directory _) => .ok i
    | none => .error (.unsafePath action path notFound)
    | _ => .error (.unsafePath action path blocked)

def walk (fs : FileSystem) (action : String) (label : List String → String) :
    List String → ℕ → List String → Except WorkspaceError ℕ
  | _, directory, [] => .ok directory
  | passed, directory, part::parts =>
    match fs.openDirectory action (label (passed++[part])) directory part with
    | .error error => .error error
    | .ok i => fs.walk action label (passed++[part]) i parts

def joined (parts : List String) : String :=
  if parts = [] then "." else String.intercalate "/" parts

def openRoot : Except WorkspaceError ℕ :=
  if root.any isDots then .error (.pathError "secure workspace roots must be normalized")
  else fs.walk "root traversal" (fun _ => "/" ++ String.intercalate "/" root) [] 0 root

def openParent : Except WorkspaceError (ℕ × String) :=
  match segments relative false with
  | .error error => .error error
  | .ok parts => match fs.openRoot root with
    | .error error => .error error
    | .ok directory => match fs.walk "directory traversal" joined [] directory parts.dropLast with
      | .error error => .error error
      | .ok parent => .ok (parent,parts.getLastD "")

def readAt (leaf relative : String) (maxBytes : ℕ) : Except WorkspaceError (Bytes × ℕ) :=
  match fs.child parent leaf with
  | none => .error (.unsafePath "read" relative notFound)
  | some i => match fs.inode i with
    | some (.file content) => .ok (content.take (maxBytes+1),i)
    | some .symlink => .error (.unsafePath "read" relative blocked)
    | none => .error (.unsafePath "read" relative notFound)
    | _ => .error (.valueError "workspace read target must be a regular file")

def replaceRefusal (leaf : String) (expectedIdentity : Option ℕ) : Option WorkspaceError :=
  match fs.child parent leaf with
  | none => none
  | some i => match fs.inode i with
    | some (.file _) =>
      if expectedIdentity.all (fun expected => decide (i = expected)) then none
      else some (.pathError "edit target changed during the operation")
    | _ => some (.valueError "write target must be a regular file")

def createTemporary : Option String :=
  (names.take 32).find? (fun name => (fs.child parent name).isNone)

def publish (entries : Dict String ℕ) (content : Bytes) :
    FileSystem where
  inode i := if i = fs.next then some (.file content)
    else if i = parent ∧ i < fs.next then some (.directory entries) else fs.inode i
  next := fs.next+1
  fresh i hi := by
    rw [if_neg (by omega), if_neg (by omega)]
    exact fs.fresh i (by omega)
  slash := by
    have hpos := fs.next_pos
    rw [if_neg (by omega)]
    by_cases hparent : 0 = parent ∧ 0 < fs.next
    · exact ⟨entries,if_pos hparent⟩
    · rw [if_neg hparent]
      exact fs.slash

def atomicWriteAt (parent : ℕ) (leaf : String) (content : Bytes) (overwrite : Bool)
    (expectedIdentity : Option ℕ) : Except WorkspaceError FileSystem :=
  match if overwrite then fs.replaceRefusal parent leaf expectedIdentity else none with
  | some error => .error error
  | none => match fs.createTemporary parent names with
    | none => .error (.pathError "could not allocate a unique workspace temporary file")
    | some temporary =>
      let created := (fs.entries parent).set temporary fs.next
      if overwrite then
        .ok (fs.publish parent ((created.erase temporary).set leaf fs.next) content)
      else if created.contains leaf then
        .error (.fileExists "target exists; set overwrite=true to replace it")
      else .ok (fs.publish parent ((created.set leaf fs.next).erase temporary) content)

def writeFile (content : Bytes) (overwrite : Bool) : Except WorkspaceError FileSystem :=
  match fs.openParent root relative with
  | .error error => .error error
  | .ok (parent,leaf) => fs.atomicWriteAt names parent leaf content overwrite none

def transformFile {β : Type} (maxReadBytes maxWriteBytes : ℕ)
    (transform : Bytes → Except WorkspaceError (Bytes × β)) : Except WorkspaceError (FileSystem × β) :=
  match fs.openParent root relative with
  | .error error => .error error
  | .ok (parent,leaf) => match fs.readAt parent leaf relative maxReadBytes with
    | .error error => .error error
    | .ok (content,identity) =>
      if maxReadBytes < content.length then
        .error (.valueError "edit target exceeds the configured byte limit")
      else match transform content with
        | .error error => .error error
        | .ok (updated,result) =>
          if maxWriteBytes < updated.length then
            .error (.valueError "edited content exceeds the configured byte limit")
          else (fs.atomicWriteAt names parent leaf updated true (some identity)).map
            (fun next => (next,result))

end FileSystem

structure WorkspaceToolBinding where
  productRoot : AbsolutePath
  sharedRoot : AbsolutePath
  accessPolicy : WorkspaceAccessPolicy

variable (binding : WorkspaceToolBinding)

def WorkspaceToolBinding.root : WorkspaceSpace → AbsolutePath
  | .product => binding.productRoot
  | .shared => binding.sharedRoot

structure FileToolLimits where
  maxReadBytes : ℕ := 2097152
  maxWriteBytes : ℕ := 2097152
  positive : 0 < maxReadBytes ∧ 0 < maxWriteBytes := by decide

def encode (text : String) : Bytes := text.toUTF8.data.toList

def decode (content : Bytes) : Except WorkspaceError String :=
  match String.fromUTF8? ⟨content.toArray⟩ with
  | some text => .ok text
  | none => .error (.valueError "file is not valid utf-8 text")

def replaceText (old new : List Char) : ℕ → List Char → ℕ × List Char
  | _, [] => (0,[])
  | skip+1, _::rest => replaceText old new skip rest
  | 0, c::rest =>
    if old.isPrefixOf (c::rest) then
      let (count,text) := replaceText old new (old.length-1) rest
      (count+1,new++text)
    else
      let (count,text) := replaceText old new 0 rest
      (count,c::text)

def exactEdit (old new : String) (expected : ℤ) (content : Bytes) :
    Except WorkspaceError (Bytes × ℕ) :=
  match decode content with
  | .error error => .error error
  | .ok text =>
    let (actual,updated) := replaceText old.toList new.toList 0 text.toList
    if (actual : ℤ) ≠ expected then
      .error (.valueError
        s!"exact edit refused: expected {expected} matches but found {actual}")
    else .ok (encode (String.ofList updated),actual)

def toolTarget (arguments : Json) : Except WorkspaceError (WorkspaceSpace × String) :=
  match toSpace (spaceArgument arguments) with
  | .error error => .error error
  | .ok space => match relativePath (arguments.get? "path") false with
    | .error error => .error error
    | .ok relative => .ok (space,relative)

def parentOf (relative : String) : String :=
  FileSystem.joined (purePosixParts relative).dropLast

def authorizeAll (policy : WorkspaceAccessPolicy) (root : AbsolutePath) :
    List (String × WorkspaceOperation) → Except WorkspaceError Unit
  | [] => .ok ()
  | (relative,operation)::rest => match policy.authorizeRelative root relative operation with
    | .error error => .error error
    | .ok _ => authorizeAll policy root rest

def writeTool (limits : FileToolLimits) (names : List String) (fs : FileSystem) (arguments : Json) :
    Except WorkspaceError (FileSystem × Json) :=
  match toolTarget arguments with
  | .error error => .error error
  | .ok (space,relative) => match arguments.get? "content" with
    | some (.str text) =>
      let content := encode text
      if limits.maxWriteBytes < content.length then
        .error (.valueError "write content exceeds the configured byte limit")
      else match authorizeAll binding.accessPolicy (binding.root space)
          [(relative,.write),(parentOf relative,.write)] with
        | .error error => .error error
        | .ok _ => (fs.writeFile names (binding.root space) relative content
            (decide (arguments.get? "overwrite" = some (.bool true)))).map
          (fun next => (next,.obj [("space",.str space.value),("path",.str relative),
            ("bytes",.int content.length)]))
    | _ => .error (.valueError "content must be a string")

def editArguments (arguments : Json) : Except WorkspaceError (String × String × ℤ) :=
  match arguments.get? "old_text" with
  | some (.str old) =>
    if old = "" then .error (.valueError "old_text must be a non-empty string")
    else match arguments.get? "new_text" with
      | some (.str new) => match (arguments.get? "expected_replacements").getD (.int 1) with
        | .int expected =>
          if expected < 1 then
            .error (.valueError "expected_replacements must be a positive integer")
          else .ok (old,new,expected)
        | _ => .error (.valueError "expected_replacements must be a positive integer")
      | _ => .error (.valueError "new_text must be a string")
  | _ => .error (.valueError "old_text must be a non-empty string")

def editTool (limits : FileToolLimits) (names : List String) (fs : FileSystem) (arguments : Json) :
    Except WorkspaceError (FileSystem × Json) :=
  match toolTarget arguments with
  | .error error => .error error
  | .ok (space,relative) => match editArguments arguments with
    | .error error => .error error
    | .ok (old,new,expected) => match authorizeAll binding.accessPolicy (binding.root space)
        [(relative,.read),(relative,.write)] with
      | .error error => .error error
      | .ok _ => (fs.transformFile names (binding.root space) relative limits.maxReadBytes
          limits.maxWriteBytes (exactEdit old new expected)).map
        (fun out => (out.1,.obj [("space",.str space.value),("path",.str relative),
          ("replacements",.int out.2)]))

end SuiteHarness.Workspace
