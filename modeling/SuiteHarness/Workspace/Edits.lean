import SuiteHarness.Library.Machine
import SuiteHarness.Workspace.SecureFiles

/-!
# Concurrent edits of one file

`transform_file` as its system calls: open and read the target, compare its
identity with what the name refers to, write a temporary file and rename it
over the target. Any number of calls run in threads. An inode number is free
once no name and no descriptor refers to it, and may then be used again.
-/

set_option autoImplicit false

namespace SuiteHarness.Workspace
open SuiteHarness.Library

structure EditCall where
  transform : Bytes → Except WorkspaceError (Bytes × ℕ)
  limits : FileToolLimits := {}

def EditCall.apply (c : EditCall) (content : Bytes) : Except WorkspaceError Bytes :=
  if c.limits.maxReadBytes < content.length then
    .error (.valueError "edit target exceeds the configured byte limit")
  else match c.transform content with
    | .error error => .error error
    | .ok (updated,_) =>
      if c.limits.maxWriteBytes < updated.length then
        .error (.valueError "edited content exceeds the configured byte limit")
      else .ok updated

/-- Where a call stands. A checked call remembers how many renames preceded its
check, which the code does not. -/
inductive EditStage where
  | start
  | reading (inode : ℕ) (chunks : Bytes)
  | toCheck (identity : ℕ) (updated : Bytes)
  | toCreate (seen : ℕ) (updated : Bytes)
  | writing (temporary seen : ℕ) (rest : Bytes)
  | toRename (temporary seen : ℕ)
  | syncing
  | done
  | failed (e : WorkspaceError)

/-- The target's inode, the content of the inodes, the calls, and in which order
they renamed. -/
structure EditWorld where
  leaf : ℕ
  content : ℕ → Bytes
  stages : List EditStage
  renames : List ℕ := []

inductive Syscall where
  | openFile
  | read (bytes : ℕ)
  | check
  | create (inode : ℕ)
  | write (bytes : ℕ)
  | rename
  | sync
  | fail (e : WorkspaceError)

namespace EditStage

def reads : EditStage → Option ℕ
  | .reading inode _ => some inode
  | _ => none

def temporary : EditStage → Option ℕ
  | .writing n _ _ => some n
  | .toRename n _ => some n
  | _ => none

def identity : EditStage → Option ℕ
  | .toCheck n _ => some n
  | _ => none

def isDone : EditStage → Bool
  | .done => true
  | _ => false

end EditStage

namespace EditWorld
variable (calls : List EditCall)
variable (w : EditWorld)

def inUse (n : ℕ) : Bool :=
  decide (n = w.leaf) ||
    w.stages.any (fun st => decide (st.reads = some n) || decide (st.temporary = some n))

def put (i : ℕ) (st : EditStage) : EditWorld :=
  { w with stages := w.stages.set i st }

def fill (n : ℕ) (bytes : Bytes) : EditWorld :=
  { w with content := fun m => if m = n then bytes else w.content m }

def nextChunk (c : EditCall) (inode : ℕ) (chunks : Bytes) (bytes : ℕ) : Bytes :=
  ((w.content inode).drop chunks.length).take
    (min (max 1 bytes) (min (c.limits.maxReadBytes+1-chunks.length) 65536))

def advance (i : ℕ) (c : EditCall) : Syscall → EditStage → EditWorld
  | .openFile, .start => w.put i (.reading w.leaf [])
  | .read bytes, .reading inode chunks =>
    let chunk := w.nextChunk c inode chunks bytes
    if chunk = [] then
      match c.apply chunks with
      | .error e => w.put i (.failed e)
      | .ok updated => w.put i (.toCheck inode updated)
    else w.put i (.reading inode (chunks++chunk))
  | .check, .toCheck identity updated =>
    if w.leaf = identity then w.put i (.toCreate w.renames.length updated)
    else w.put i (.failed (.pathError "edit target changed during the operation"))
  | .create n, .toCreate seen updated =>
    if w.inUse n then w else (w.fill n []).put i (.writing n seen updated)
  | .write bytes, .writing n seen rest =>
    if rest = [] then w.put i (.toRename n seen)
    else (w.fill n (w.content n++rest.take (max 1 bytes))).put i
      (.writing n seen (rest.drop (max 1 bytes)))
  | .rename, .toRename n _ =>
    { w.put i .syncing with leaf := n, renames := w.renames++[i] }
  | .sync, .syncing => w.put i .done
  | .fail e, .reading _ _ | .fail e, .toCheck _ _ | .fail e, .toCreate _ _ | .fail e, .writing _ _ _
  | .fail e, .toRename _ _ | .fail e, .syncing => w.put i (.failed e)
  | _, _ => w

def step (m : ℕ × Syscall) : EditWorld × Unit :=
  match calls[m.1]?, w.stages[m.1]? with
  | some c, some st => (w.advance m.1 c m.2 st,())
  | _, _ => (w,())

def start (leaf : ℕ) (content : ℕ → Bytes) : EditWorld :=
  { leaf, content, stages := calls.map (fun _ => .start) }

def after (leaf : ℕ) (content : ℕ → Bytes) (moves : List (ℕ × Syscall)) : EditWorld :=
  Machine.final (step calls) (start calls leaf content) moves

end EditWorld

def EditCall.exact (old new : String) (expected : ℤ) : EditCall :=
  { transform := exactEdit old new expected }

def serially (calls : List EditCall) : List ℕ → Bytes → Option Bytes
  | [], content => some content
  | i::order, content => match calls[i]? with
    | none => none
    | some c => match c.apply content with
      | .error _ => none
      | .ok updated => serially calls order updated

end SuiteHarness.Workspace
