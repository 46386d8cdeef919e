import SuiteHarness.Sessions.Ownership

/-!
# The Markdown archive of one session

A completed run appends its question and answer to a Markdown document, after
the answer was committed and at a time of its own. The document's header holds
the revision of the newest terminal event in it. Nothing deletes the document
when the conversation is invalidated: readers and writers compare the header
with an invalidation watermark they read at different times.
-/

set_option autoImplicit false

namespace SuiteHarness.Server
open SuiteHarness.Library SuiteHarness.Sessions

inductive ArchiveError where
  | valueError (text : String)
  | osError
  deriving DecidableEq

structure MarkdownArchive where
  longTermEnabled : Bool
  maxFileBytes : ℕ
  document : Option String
  range : 1 ≤ maxFileBytes ∧ maxFileBytes ≤ 4*1024*1024
  deriving DecidableEq

namespace MarkdownArchive

def retrieve (a : MarkdownArchive) (maxChars : ℕ) : Except ArchiveError String :=
  if a.longTermEnabled = false then .ok ""
  else match a.document with
    | none => .ok ""
    | some document =>
      if maxChars = 0 then .ok ""
      else if a.maxFileBytes < utf8Length document then
        .error (.valueError "archive exceeds configured byte size limit")
      else .ok (String.ofList (document.toList.take (min maxChars a.maxFileBytes)))

def storeLocked (a : MarkdownArchive) (text : String) : Except ArchiveError MarkdownArchive :=
  if a.maxFileBytes < utf8Length text then
    .error (.valueError "archive text exceeds configured byte size limit")
  else .ok { a with document := some text }

/-- `update` holds the file lock from its read to its replacement, so it is one
step. The answer says whether the file was replaced. -/
def update (a : MarkdownArchive) (transform : String → Option String) :
    Except ArchiveError (MarkdownArchive × Bool) :=
  if a.longTermEnabled = false then .ok (a,false)
  else do
    let previous ← a.retrieve a.maxFileBytes
    match transform previous with
    | none => .ok (a,false)
    | some updated =>
      let stored ← a.storeLocked updated
      .ok (stored,true)

end MarkdownArchive

def headerOpen : String := "<!-- suiteharness-memory-v1 revision="

def headerClose : String := " -->\n"

def archiveHeader (revision : ℕ) : String := headerOpen ++ revision.repr ++ headerClose

def stripStart : List Char → List Char → Option (List Char)
  | [], text => some text
  | _::_, [] => none
  | c::literal, d::text => if c = d then stripStart literal text else none

def matchHeader (document : String) : Option (ℕ × String) := do
  let digits ← stripStart headerOpen.toList document.toList
  let number := digits.takeWhile Char.isDigit
  if number = [] then none
  else
    let body ← stripStart headerClose.toList (digits.dropWhile Char.isDigit)
    some (Nat.ofDigitChars 10 number 0,String.ofList body)

def archiveText (a : MarkdownArchive) (cutoff revision : ℕ) : Except ArchiveError String := do
  let document ← a.retrieve a.maxFileBytes
  match matchHeader document with
  | none => .ok ""
  | some (saved,body) => if cutoff < saved ∧ saved ≤ revision then .ok body else .ok ""

def archiveSection (question answer : String) : String :=
  "\n\n## User\n\n" ++ question ++ "\n\n## Assistant\n\n" ++ answer ++ "\n"

def decodeAfter : ℕ → List Char → List Char
  | 0, text => text
  | _+1, [] => []
  | skip+1, c::text => decodeAfter (skip+1-c.utf8Size) text

def sliceStart (budget : ℤ) (size : ℕ) : ℕ :=
  if 0 < budget then size-budget.toNat else (-budget).toNat

def bounded (budget : ℤ) (updated : String) : String :=
  String.ofList (decodeAfter (sliceStart budget (utf8Length updated)) updated.toList)

def previousText (cutoff : ℕ) : Option (ℕ × String) → String
  | some (savedRevision,body) => if cutoff < savedRevision then body else ""
  | none => ""

def appendIfNewer (maxFileBytes cutoff revision : ℕ) (question answer document : String) :
    Option String :=
  let saved := matchHeader document
  if saved.any (fun s => decide (revision ≤ s.1)) then none
  else
    let previous := previousText cutoff saved
    let header := archiveHeader revision
    let budget : ℤ := (maxFileBytes : ℤ)-utf8Length header
    some (header ++ bounded budget (previous ++ archiveSection question answer))

def answerText : Json → Option String
  | .str text => some text
  | output => canonicalJson output

def outputOf (payload : Json) : Json := (payload.get? "output").getD .null

/-! A call of `_archive_completed` waits twice: for the session record and for
the worker thread that updates the file. -/

inductive TaskStage where
  | checking | updating | over
  deriving DecidableEq

structure Completion where
  terminal : TranscriptEvent
  question : String
  output : Json
  deriving DecidableEq

def Completion.part (c : Completion) : String :=
  archiveSection c.question ((answerText c.output).getD "")

structure ArchiveTask where
  run : Completion
  cutoff : ℕ
  stage : TaskStage
  deriving DecidableEq

section Run
variable {pf : Platform} {limits : SessionStoreLimits} (S : LawfulStore pf limits)

structure ArchiveWorld where
  sessions : S.State
  archive : MarkdownArchive
  tasks : List ArchiveTask

/-- A completed run appends its terminal event; a redelivery finds one in the
transcript instead. Both then call `_archive_completed`, with the cutoff and
the question their handler has. -/
inductive ArchiveMove where
  | call (readings : Readings) (call : Call)
  | complete (readings : Readings) (args : AppendArgs) (cutoff : ℕ) (question : String)
  | recover (readings : Readings) (limit : ℤ) (place cutoff : ℕ) (question : String)
  | check (readings : Readings) (task : ℕ)
  | update (task : ℕ)
  | fail (task : ℕ)

namespace ArchiveWorld
variable {S}

def init (archive : MarkdownArchive) : ArchiveWorld S :=
  ⟨S.init,{ archive with document := none },[]⟩

variable (r : Readings)

def call (w : ArchiveWorld S) (r : Readings) (c : Call) : ArchiveWorld S :=
  { w with sessions := (S.call r w.sessions c).1 }

def events (w : ArchiveWorld S) (identity : SessionIdentity) : List TranscriptEvent :=
  (S.view w.sessions).events identity

def runs (w : ArchiveWorld S) : List Completion := w.tasks.map ArchiveTask.run

def start (w : ArchiveWorld S) (t : ArchiveTask) : ArchiveWorld S := { w with tasks := w.tasks ++ [t] }

def stage (w : ArchiveWorld S) (k : ℕ) (next : TaskStage) : ArchiveWorld S :=
  { w with tasks := w.tasks.modify k (fun t => { t with stage := next }) }

def complete (w : ArchiveWorld S) (identity : SessionIdentity) (r : Readings) (args : AppendArgs)
    (cutoff : ℕ) (question : String) : ArchiveWorld S :=
  match args.eventType, (S.call r w.sessions (.append identity args)).2 with
  | .assistantMessage, .ok (.event e) =>
    (w.call r (.append identity args)).start ⟨⟨e,question,outputOf args.payload⟩,cutoff,.checking⟩
  | _, _ => w.call r (.append identity args)

def recover (w : ArchiveWorld S) (identity : SessionIdentity) (r : Readings) (limit : ℤ)
    (place cutoff : ℕ) (question : String) : ArchiveWorld S :=
  match (S.call r w.sessions (.recentTranscript identity limit)).2 with
  | .ok (.transcript events) =>
    match events[place]? with
    | some e =>
      if e.type = .assistantMessage then
        (w.call r (.recentTranscript identity limit)).start
          ⟨⟨e,question,outputOf e.payload⟩,cutoff,.checking⟩
      else w.call r (.recentTranscript identity limit)
    | none => w.call r (.recentTranscript identity limit)
  | _ => w.call r (.recentTranscript identity limit)

def check (w : ArchiveWorld S) (identity : SessionIdentity) (r : Readings) (k : ℕ) (t : ArchiveTask) :
    ArchiveWorld S :=
  match (S.call r w.sessions (.get identity)).2 with
  | .ok (.maybeSession (some record)) =>
    if record.memoryInvalidatedRevision = t.cutoff then
      (w.call r (.get identity)).stage k .updating
    else (w.call r (.get identity)).stage k .over
  | _ => (w.call r (.get identity)).stage k .over

def archived (a : MarkdownArchive) (t : ArchiveTask) : MarkdownArchive :=
  match answerText t.run.output with
  | none => a
  | some answer =>
    match a.update (appendIfNewer a.maxFileBytes t.cutoff t.run.terminal.revision
        t.run.question answer) with
    | .ok (updated,_) => updated
    | .error _ => a

def step (identity : SessionIdentity) (w : ArchiveWorld S) : ArchiveMove → ArchiveWorld S
  | .call r c => w.call r c
  | .complete r args cutoff question => w.complete identity r args cutoff question
  | .recover r limit place cutoff question => w.recover identity r limit place cutoff question
  | .check r k =>
    match w.tasks[k]? with
    | some t => if t.stage = .checking then w.check identity r k t else w
    | none => w
  | .update k =>
    match w.tasks[k]? with
    | some t =>
      if t.stage = .updating then
        { w with archive := archived w.archive t }.stage k .over
      else w
    | none => w
  | .fail k => w.stage k .over

def after (identity : SessionIdentity) (w : ArchiveWorld S) (moves : List ArchiveMove) :
    ArchiveWorld S :=
  moves.foldl (step identity) w

end ArchiveWorld
end Run

end SuiteHarness.Server
