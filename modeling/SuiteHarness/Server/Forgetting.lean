import SuiteHarness.Server.Archive
import SuiteHarness.Sessions.Growth

/-!
# Invalidated text stays out of the archive

A task that passed its check knows that no invalidation lies between its cutoff
and its terminal event, and none can come between them later: revisions only
grow. The document therefore never joins two runs that an invalidation below
its header separates, and a reader behind the watermark sees newer runs only.
-/

set_option autoImplicit false

namespace SuiteHarness.Server
open SuiteHarness.Library SuiteHarness.Sessions

/-! Texts: headers are read back, bounded text is a tail. -/

theorem strip_start_append (literal text : List Char) :
    stripStart literal (literal++text) = some text := by
  induction literal with
  | nil => rfl
  | cons c literal ih => rw [List.cons_append, stripStart, if_pos rfl, ih]

theorem match_archive_header (revision : ℕ) (body : String) :
    matchHeader (archiveHeader revision ++ body) = some (revision,body) := by
  have hdigits : ∀ c ∈ Nat.toDigits 10 revision, c.isDigit = true := fun c hc =>
    Nat.isDigit_of_mem_toDigits (by decide) (by decide) hc
  have htext : (archiveHeader revision ++ body).toList =
      headerOpen.toList++(Nat.toDigits 10 revision++(headerClose.toList++body.toList)) := by
    simp [archiveHeader, Nat.toList_repr]
  have hclose : (headerClose.toList++body.toList).takeWhile Char.isDigit = [] := rfl
  have hrest : (headerClose.toList++body.toList).dropWhile Char.isDigit =
      headerClose.toList++body.toList := rfl
  simp only [matchHeader, htext, strip_start_append, Option.bind_eq_bind, Option.bind_some,
    List.takeWhile_append_of_pos hdigits, List.dropWhile_append_of_pos hdigits, hclose, hrest,
    List.append_nil, Nat.toDigits_ne_nil, if_false, String.ofList_toList,
    Nat.ofDigitChars_toDigits (by decide : 1 < 10) (by decide)]

theorem decode_after_suffix (skip : ℕ) (text : List Char) : decodeAfter skip text <:+ text := by
  induction text generalizing skip with
  | nil => cases skip <;> exact List.suffix_rfl
  | cons c text ih =>
    cases skip with
    | zero => exact List.suffix_rfl
    | succ skip => exact (ih _).trans (List.suffix_cons c text)

theorem bounded_suffix (budget : ℤ) (updated : String) :
    (bounded budget updated).toList <:+ updated.toList := by
  rw [bounded, String.toList_ofList]
  exact decode_after_suffix _ _

theorem length_le_utf8 (text : String) : text.toList.length ≤ utf8Length text := by
  have hlist : ∀ cs : List Char, cs.length ≤ String.utf8Len cs := by
    intro cs
    induction cs with
    | nil => exact le_refl _
    | cons c cs ih =>
      have hc := c.utf8Size_pos
      simp only [List.length_cons, String.utf8Len_cons]
      omega
  have htext := hlist text.toList
  rwa [← String.utf8ByteSize_ofList, String.ofList_toList] at htext

/-! What an update does to the file. -/

namespace MarkdownArchive
variable {a : MarkdownArchive}

def Fits (a : MarkdownArchive) : Prop := ∀ d, a.document = some d → utf8Length d ≤ a.maxFileBytes

def text (a : MarkdownArchive) : String := if a.longTermEnabled = false then "" else a.document.getD ""

theorem retrieve_text (h : a.Fits) : a.retrieve a.maxFileBytes = .ok a.text := by
  unfold retrieve text
  split
  · rfl
  · cases hd : a.document with
    | none => rfl
    | some d =>
      have hsize := h d hd
      have hrange := a.range.1
      have hall : d.toList.take (min a.maxFileBytes a.maxFileBytes) = d.toList :=
        List.take_of_length_le (by rw [min_self]; exact (length_le_utf8 d).trans hsize)
      simp only [hall, String.ofList_toList, Option.getD_some]
      rw [if_neg (by omega), if_neg (not_lt.mpr hsize)]

theorem update_cases (h : a.Fits) {transform : String → Option String} {b : MarkdownArchive}
    {changed : Bool} (hu : a.update transform = .ok (b,changed)) :
    b = a ∨ ∃ d, transform (a.document.getD "") = some d ∧ utf8Length d ≤ a.maxFileBytes ∧
      b = { a with document := some d } := by
  unfold update at hu
  split at hu
  case isTrue => exact Or.inl (Prod.mk.inj (Except.ok.inj hu)).1.symm
  case isFalse henabled =>
    have htext : a.text = a.document.getD "" := if_neg henabled
    rw [retrieve_text h, htext] at hu
    simp only [bind, Except.bind] at hu
    split at hu
    case h_1 => exact Or.inl (Prod.mk.inj (Except.ok.inj hu)).1.symm
    case h_2 d htransform =>
      unfold storeLocked at hu
      split at hu
      case h_1 => cases hu
      case h_2 stored hstored =>
        split at hstored
        case isTrue => cases hstored
        case isFalse hsize =>
          cases hstored
          exact Or.inr ⟨d,htransform,not_lt.mp hsize,(Prod.mk.inj (Except.ok.inj hu)).1.symm⟩

end MarkdownArchive

theorem append_if_newer_some {maxFileBytes cutoff revision : ℕ}
    {question answer document updated : String}
    (h : appendIfNewer maxFileBytes cutoff revision question answer document = some updated) :
    (∀ saved, matchHeader document = some saved → saved.1 < revision) ∧
    ∃ body, updated = archiveHeader revision ++ body ∧
      body.toList <:+ (previousText cutoff (matchHeader document)).toList++
        (archiveSection question answer).toList := by
  unfold appendIfNewer at h
  simp only at h
  split at h
  case isTrue => cases h
  case isFalse hnewer =>
    refine ⟨fun saved hsaved => ?_,_,(Option.some.inj h).symm,?_⟩
    · simpa [hsaved] using hnewer
    · rw [← String.toList_append]
      exact bounded_suffix _ _

namespace ArchiveWorld

theorem archived_cases {a : MarkdownArchive} (h : a.Fits) (t : ArchiveTask) :
    archived a t = a ∨ ∃ answer body, answerText t.run.output = some answer ∧
      (∀ saved, matchHeader (a.document.getD "") = some saved →
        saved.1 < t.run.terminal.revision) ∧
      utf8Length (archiveHeader t.run.terminal.revision ++ body) ≤ a.maxFileBytes ∧
      body.toList <:+ (previousText t.cutoff (matchHeader (a.document.getD ""))).toList++
        t.run.part.toList ∧
      archived a t = { a with document := some (archiveHeader t.run.terminal.revision ++ body) } := by
  unfold archived
  split
  case h_1 => exact Or.inl rfl
  case h_2 answer hanswer =>
    split
    case h_2 => exact Or.inl rfl
    case h_1 updated changed hupdate =>
      rcases MarkdownArchive.update_cases h hupdate with hsame | ⟨d,hd,hsize,hnew⟩
      · exact Or.inl hsame
      · obtain ⟨hnewer,body,rfl,hbody⟩ := append_if_newer_some hd
        have hpart : t.run.part = archiveSection t.run.question answer := by
          rw [Completion.part, hanswer, Option.getD_some]
        exact Or.inr ⟨answer,body,hanswer,hnewer,hsize,hpart ▸ hbody,hnew⟩

end ArchiveWorld

/-! What the calls of a store do to a transcript. -/

section Transcript
variable {pf : Platform} {limits : SessionStoreLimits} {rowErrors : List SessionError}
variable {v w : View} {r : Readings} {o : Outcome}
variable {i : SessionIdentity}

theorem appended_assistant {a : AppendArgs} {e : TranscriptEvent}
    (ha : a.eventType = .assistantMessage)
    (h : Effect pf limits rowErrors v r (.append i a) (.ok (.event e)) w) :
    e ∈ w.events i ∧ e.type = .assistantMessage := by
  have hother : a.eventType ≠ .memoryInvalidated := by rw [ha]; decide
  obtain ⟨hmem,-,hdigest⟩ := appended_event hother h
  exact ⟨hmem,(event_digest_eq_iff.mp hdigest).1.trans ha⟩

theorem recent_subset {limit : ℤ} {es : List TranscriptEvent} {e : TranscriptEvent} (he : e ∈ es)
    (h : Effect pf limits rowErrors v r (.recentTranscript i limit) (.ok (.transcript es)) w) :
    e ∈ v.events i := by
  cases h with
  | answer c reply hanswer =>
    obtain ⟨-,-,-,hes⟩ := hanswer
    rw [hes] at he
    exact List.mem_of_mem_drop he

theorem get_record {record : SessionRecord}
    (h : Effect pf limits rowErrors v r (.get i) (.ok (.maybeSession (some record))) w) :
    w.record i = some record := by
  cases h with
  | answer c reply hanswer => exact hanswer.symm

end Transcript

/-! The document, the tasks and the transcript of one session. -/

structure Composed (events : List TranscriptEvent) (runs : List Completion) (revision : ℕ)
    (body : String) (entries : List Completion) : Prop where
  recorded : ∀ c ∈ entries, c ∈ runs
  newest : ∃ c ∈ entries, c.terminal.revision = revision
  apart : ∀ x ∈ events, x.type = .memoryInvalidated → x.revision < revision →
    ∀ c ∈ entries, x.revision < c.terminal.revision
  text : body.toList <:+ entries.flatMap (fun c => c.part.toList)

def Clear (events : List TranscriptEvent) (t : ArchiveTask) : Prop :=
  ∀ x ∈ events, x.type = .memoryInvalidated →
    x.revision ≤ t.cutoff ∨ t.run.terminal.revision < x.revision

section Growth
variable {events new : List TranscriptEvent} {runs : List Completion}
variable {body : String} {entries : List Completion} {revision : ℕ} {t : ArchiveTask}

theorem Composed.grow (h : Composed events runs revision body entries)
    (hruns : ∀ c ∈ runs, c.terminal ∈ events)
    (hnew : ∀ x ∈ events, ∀ y ∈ new, x.revision < y.revision) :
    Composed (events++new) runs revision body entries :=
  { h with
    apart := by
      intro x hx hinvalidated hbelow
      rcases List.mem_append.mp hx with hx | hx
      · exact h.apart x hx hinvalidated hbelow
      · obtain ⟨c,hc,hrevision⟩ := h.newest
        have hlater := hnew c.terminal (hruns c (h.recorded c hc)) x hx
        omega }

theorem Clear.grow (h : Clear events t) (ht : t.run.terminal ∈ events)
    (hnew : ∀ x ∈ events, ∀ y ∈ new, x.revision < y.revision) : Clear (events++new) t := by
  intro x hx hinvalidated
  rcases List.mem_append.mp hx with hx | hx
  · exact h x hx hinvalidated
  · exact Or.inr (hnew t.run.terminal ht x hx)

theorem Composed.of_runs {more : List Completion} (h : Composed events runs revision body entries) :
    Composed events (runs++more) revision body entries :=
  { h with recorded := fun c hc => List.mem_append_left more (h.recorded c hc) }

/-- The first run of a document, and one that follows an invalidation. -/
theorem composed_single (hrun : t.run ∈ runs) (hbody : body.toList <:+ t.run.part.toList) :
    Composed events runs t.run.terminal.revision body [t.run] where
  recorded c hc := List.mem_singleton.mp hc ▸ hrun
  newest := ⟨t.run,List.mem_singleton_self _,rfl⟩
  apart x _ _ hbelow c hc := List.mem_singleton.mp hc ▸ hbelow
  text := by simpa using hbody

theorem Composed.extend {previous : String} (h : Composed events runs revision previous entries)
    (hkept : t.cutoff < revision) (hclear : Clear events t) (hrun : t.run ∈ runs)
    (hbody : body.toList <:+ previous.toList++t.run.part.toList) :
    Composed events runs t.run.terminal.revision body (entries++[t.run]) where
  recorded c hc := by
    rcases List.mem_append.mp hc with hc | hc
    · exact h.recorded c hc
    · exact List.mem_singleton.mp hc ▸ hrun
  newest := ⟨t.run,by simp,rfl⟩
  apart x hx hinvalidated hbelow c hc := by
    rcases List.mem_append.mp hc with hc | hc
    · have hcutoff : x.revision ≤ t.cutoff := by
        rcases hclear x hx hinvalidated with hle | hlater
        · exact hle
        · omega
      exact h.apart x hx hinvalidated (by omega) c hc
    · exact List.mem_singleton.mp hc ▸ hbelow
  text := by
    obtain ⟨cut,hcut⟩ := h.text
    rw [List.flatMap_append, List.flatMap_singleton, ← hcut]
    exact hbody.trans ⟨cut,(List.append_assoc _ _ _).symm⟩

end Growth

namespace ArchiveWorld
variable {pf : Platform} {limits : SessionStoreLimits} {S : LawfulStore pf limits}
variable {identity : SessionIdentity} {maxFileBytes : ℕ} {w : ArchiveWorld S}

structure Kept (identity : SessionIdentity) (maxFileBytes : ℕ) (w : ArchiveWorld S) : Prop where
  sound : S.Sound w.sessions
  limit : w.archive.maxFileBytes = maxFileBytes
  terminals : ∀ c ∈ w.runs, c.terminal ∈ w.events identity ∧ c.terminal.type = .assistantMessage
  ready : ∀ t ∈ w.tasks, t.stage = .updating → Clear (w.events identity) t
  fits : w.archive.Fits
  document : ∀ d, w.archive.document = some d → ∃ revision body entries,
    d = archiveHeader revision ++ body ∧ Composed (w.events identity) w.runs revision body entries

theorem kept_init (archive : MarkdownArchive) :
    Kept identity archive.maxFileBytes (init archive : ArchiveWorld S) where
  sound := S.sound_init
  limit := rfl
  terminals _ hc := absurd hc List.not_mem_nil
  ready _ ht := absurd ht List.not_mem_nil
  fits _ hd := nomatch hd
  document _ hd := nomatch hd

theorem call_events_grow (identity : SessionIdentity) (h : S.Sound w.sessions) (r : Readings)
    (c : Call) :
    ∃ new, (w.call r c).events identity = w.events identity++new ∧
      ∀ x ∈ w.events identity, ∀ y ∈ new, x.revision < y.revision := by
  obtain ⟨new,hnew⟩ := effect_events_grow h.2 (S.call_effect r w.sessions c h) identity
  have hascending := events_ascending (S.sound_call r w.sessions c h).2 identity
  rw [hnew] at hascending
  exact ⟨new,hnew,(List.pairwise_append.mp hascending).2.2⟩

theorem kept_call (h : Kept identity maxFileBytes w) (r : Readings) (c : Call) :
    Kept identity maxFileBytes (w.call r c) := by
  obtain ⟨new,hgrow,hnew⟩ := call_events_grow identity h.sound r c
  have hrun : ∀ t ∈ w.tasks, t.run.terminal ∈ w.events identity := fun t ht =>
    (h.terminals t.run (List.mem_map_of_mem ht)).1
  refine ⟨S.sound_call r w.sessions c h.sound,h.limit,?_,?_,h.fits,?_⟩
  · intro c hc
    rw [hgrow]
    exact ⟨List.mem_append_left new (h.terminals c hc).1,(h.terminals c hc).2⟩
  · intro t ht hstage
    rw [hgrow]
    exact (h.ready t ht hstage).grow (hrun t ht) hnew
  · intro d hd
    obtain ⟨revision,body,entries,hdocument,hcomposed⟩ := h.document d hd
    rw [hgrow]
    exact ⟨revision,body,entries,hdocument,hcomposed.grow (fun c hc => (h.terminals c hc).1) hnew⟩

theorem kept_start (h : Kept identity maxFileBytes w) {run : Completion} (cutoff : ℕ)
    (hterminal : run.terminal ∈ w.events identity) (htype : run.terminal.type = .assistantMessage) :
    Kept identity maxFileBytes (w.start ⟨run,cutoff,.checking⟩) := by
  have hruns : (w.start ⟨run,cutoff,.checking⟩).runs = w.runs++[run] := by simp [runs, start]
  refine ⟨h.sound,h.limit,?_,?_,h.fits,?_⟩
  · intro c hc
    rw [hruns] at hc
    rcases List.mem_append.mp hc with hc | hc
    · exact h.terminals c hc
    · rw [List.mem_singleton.mp hc]
      exact ⟨hterminal,htype⟩
  · intro t ht hstage
    rcases List.mem_append.mp ht with ht | ht
    · exact h.ready t ht hstage
    · rw [List.mem_singleton.mp ht] at hstage
      cases hstage
  · intro d hd
    obtain ⟨revision,body,entries,hdocument,hcomposed⟩ := h.document d hd
    rw [hruns]
    exact ⟨revision,body,entries,hdocument,hcomposed.of_runs⟩

theorem runs_stage (k : ℕ) (next : TaskStage) : (w.stage k next).runs = w.runs := by
  refine List.ext_getElem? fun n => ?_
  simp only [runs, stage, List.getElem?_map, List.getElem?_modify]
  cases w.tasks[n]? with
  | none => rfl
  | some t =>
    by_cases hk : k = n
    · simp [hk]
    · simp [hk]

section
variable (h : Kept identity maxFileBytes w)
include h

theorem kept_stage (k : ℕ) (next : TaskStage)
    (hready : next = .updating → ∀ t, w.tasks[k]? = some t → Clear (w.events identity) t) :
    Kept identity maxFileBytes (w.stage k next) := by
  refine ⟨h.sound,h.limit,runs_stage (w := w) k next ▸ h.terminals,?_,h.fits,
    runs_stage (w := w) k next ▸ h.document⟩
  intro t ht hstage
  obtain ⟨n,hn⟩ := List.mem_iff_getElem?.mp ht
  simp only [stage, List.getElem?_modify] at hn
  cases hold : w.tasks[n]? with
  | none => simp [hold] at hn
  | some old =>
    simp only [hold, Option.map_eq_map, Option.map_some, Option.some.injEq] at hn
    by_cases hk : k = n
    · subst hk
      rw [if_pos rfl] at hn
      subst hn
      exact hready hstage old hold
    · rw [if_neg hk] at hn
      exact hn ▸ h.ready old (List.mem_of_getElem? hold) (hn ▸ hstage)

theorem kept_complete (r : Readings) (args : AppendArgs) (cutoff : ℕ) (question : String) :
    Kept identity maxFileBytes (w.complete identity r args cutoff question) := by
  have hcall := kept_call h r (.append identity args)
  unfold complete
  split
  case h_1 e htype hreply =>
    have heffect := S.call_effect r w.sessions (.append identity args) h.sound
    rw [hreply] at heffect
    obtain ⟨hmem,hassistant⟩ := appended_assistant htype heffect
    exact kept_start hcall cutoff hmem hassistant
  case h_2 => exact hcall

theorem kept_recover (r : Readings) (limit : ℤ) (place cutoff : ℕ) (question : String) :
    Kept identity maxFileBytes (w.recover identity r limit place cutoff question) := by
  have hcall := kept_call h r (.recentTranscript identity limit)
  obtain ⟨new,hgrow,-⟩ := call_events_grow identity h.sound r (.recentTranscript identity limit)
  unfold recover
  split
  case h_2 => exact hcall
  case h_1 events hreply =>
    split
    case h_2 => exact hcall
    case h_1 e hplace =>
      split
      case isFalse => exact hcall
      case isTrue hassistant =>
        have heffect := S.call_effect r w.sessions (.recentTranscript identity limit) h.sound
        rw [hreply] at heffect
        refine kept_start hcall cutoff ?_ hassistant
        rw [hgrow]
        exact List.mem_append_left new (recent_subset (List.mem_of_getElem? hplace) heffect)

end

variable {t : ArchiveTask}

section
variable (h : Kept identity maxFileBytes w)
include h

/-- The watermark a task finds unchanged is above every invalidation so far. -/
theorem kept_check (r : Readings) {k : ℕ}
    (ht : w.tasks[k]? = some t) : Kept identity maxFileBytes (w.check identity r k t) := by
  have hcall := kept_call h r (.get identity)
  have hover := kept_stage hcall k .over nofun
  unfold check
  split
  case h_2 => exact hover
  case h_1 record hreply =>
    split
    case isFalse => exact hover
    case isTrue hcutoff =>
      have heffect := S.call_effect r w.sessions (.get identity) h.sound
      rw [hreply] at heffect
      have hrecord := get_record heffect
      refine kept_stage hcall k .updating fun _ t' ht' x hx hinvalidated => Or.inl ?_
      cases ht.symm.trans ht'
      rw [← hcutoff]
      exact (hcall.sound.2.coherent identity record hrecord).watermarkBound x hx hinvalidated

theorem kept_update {k : ℕ} (ht : w.tasks[k]? = some t) (hstage : t.stage = .updating) :
    Kept identity maxFileBytes { w with archive := archived w.archive t } := by
  have hmem := List.mem_of_getElem? ht
  have hrun : t.run ∈ w.runs := List.mem_map_of_mem hmem
  rcases archived_cases h.fits t with hsame | ⟨answer,body,-,hnewer,hsize,hbody,hnew⟩
  · rw [hsame]
    exact h
  · rw [hnew]
    refine ⟨h.sound,h.limit,h.terminals,h.ready,fun d hd => Option.some.inj hd ▸ hsize,?_⟩
    intro d hd
    have hcomposed : ∃ entries,
        Composed (w.events identity) w.runs t.run.terminal.revision body entries := by
      cases hdocument : w.archive.document with
      | none =>
        rw [hdocument] at hbody
        exact ⟨[t.run],composed_single hrun hbody⟩
      | some old =>
        obtain ⟨saved,previous,entries,hold,hcomposed⟩ := h.document old hdocument
        rw [hdocument, Option.getD_some, hold, match_archive_header, previousText] at hbody
        split at hbody
        case isTrue hkept =>
          exact ⟨_,hcomposed.extend hkept (h.ready t hmem hstage) hrun hbody⟩
        case isFalse => exact ⟨[t.run],composed_single hrun hbody⟩
    obtain ⟨entries,hcomposed⟩ := hcomposed
    exact ⟨_,body,entries,(Option.some.inj hd).symm,hcomposed⟩

theorem kept_step (move : ArchiveMove) :
    Kept identity maxFileBytes (w.step identity move) := by
  cases move with
  | call r c => exact kept_call h r c
  | complete r args cutoff question => exact kept_complete h r args cutoff question
  | recover r limit place cutoff question => exact kept_recover h r limit place cutoff question
  | check r k =>
    simp only [step]
    split
    case h_2 => exact h
    case h_1 t ht =>
      split
      case isFalse => exact h
      case isTrue => exact kept_check h r ht
  | update k =>
    simp only [step]
    split
    case h_2 => exact h
    case h_1 t ht =>
      split
      case isFalse => exact h
      case isTrue hstage =>
        exact kept_stage (kept_update h ht hstage) k .over nofun
  | fail k => exact kept_stage h k .over (fun hnext => nomatch hnext)

end

theorem kept_after (archive : MarkdownArchive) (moves : List ArchiveMove) :
    Kept identity archive.maxFileBytes (after identity (init archive : ArchiveWorld S) moves) := by
  have hrun : ∀ w : ArchiveWorld S, Kept identity archive.maxFileBytes w →
      Kept identity archive.maxFileBytes (after identity w moves) := by
    induction moves with
    | nil => exact fun w h => h
    | cons move moves ih => exact fun w h => ih _ (kept_step h move)
  exact hrun _ (kept_init archive)

variable (h : Kept identity maxFileBytes w)
include h

/-- A reader at the current watermark gets parts of newer runs only. -/
theorem kept_text {record : SessionRecord} {revision : ℕ}
    {text : String} (hrecord : (S.view w.sessions).record identity = some record)
    (htext : archiveText w.archive record.memoryInvalidatedRevision revision = .ok text) :
    ∃ entries : List Completion, text.toList <:+ entries.flatMap (fun c => c.part.toList) ∧
      ∀ c ∈ entries, c ∈ w.runs ∧ record.memoryInvalidatedRevision < c.terminal.revision := by
  have hempty : ∃ entries : List Completion,
      "".toList <:+ entries.flatMap (fun c => c.part.toList) ∧
      ∀ c ∈ entries, c ∈ w.runs ∧ record.memoryInvalidatedRevision < c.terminal.revision :=
    ⟨[],List.suffix_rfl,fun _ hc => absurd hc List.not_mem_nil⟩
  have hcoherent := h.sound.2.coherent identity record hrecord
  unfold archiveText at htext
  rw [MarkdownArchive.retrieve_text h.fits] at htext
  simp only [bind, Except.bind] at htext
  split at htext
  case h_1 => exact Except.ok.inj htext ▸ hempty
  case h_2 saved body hheader =>
    split at htext
    case isFalse => exact Except.ok.inj htext ▸ hempty
    case isTrue habove =>
      cases htext
      obtain ⟨d,hd,hshown⟩ : ∃ d, w.archive.document = some d ∧ w.archive.text = d := by
        unfold MarkdownArchive.text at hheader ⊢
        split at hheader
        · cases hheader
        · cases hdocument : w.archive.document with
          | none =>
            rw [hdocument] at hheader
            cases hheader
          | some d => exact ⟨d,rfl,by rw [if_neg ‹_›]; rfl⟩
      obtain ⟨newest,previous,entries,hdocument,hcomposed⟩ := h.document d hd
      rw [hshown, hdocument, match_archive_header] at hheader
      cases hheader
      refine ⟨entries,hcomposed.text,fun c hc => ⟨hcomposed.recorded c hc,?_⟩⟩
      rcases hcoherent.watermark with hzero | ⟨x,hx,hinvalidated,hwatermark⟩
      · have hterminal := (h.terminals c (hcomposed.recorded c hc)).1
        have hpositive := (hcoherent.eventBound c.terminal hterminal).1
        omega
      · rw [← hwatermark] at habove ⊢
        exact hcomposed.apart x hx hinvalidated habove.1 c hc

theorem update_raises_header (hchanged : (archived w.archive t).document ≠ w.archive.document) :
    ∃ d revision body, (archived w.archive t).document = some d ∧
      matchHeader d = some (revision,body) ∧
      ∀ old saved, w.archive.document = some old → matchHeader old = some saved →
        saved.1 < revision := by
  rcases archived_cases h.fits t with hsame | ⟨answer,body,-,hnewer,-,-,hnew⟩
  · rw [hsame] at hchanged
    exact absurd rfl hchanged
  · rw [hnew]
    refine ⟨_,_,body,rfl,match_archive_header _ body,fun old saved hold hsaved => ?_⟩
    apply hnewer
    rw [hold]
    exact hsaved

theorem step_raises_header {move : ArchiveMove}
    (hchanged : (w.step identity move).archive.document ≠ w.archive.document) :
    ∃ d revision body, (w.step identity move).archive.document = some d ∧
      matchHeader d = some (revision,body) ∧
      ∀ old saved, w.archive.document = some old → matchHeader old = some saved →
        saved.1 < revision := by
  have hfixed : (∀ k, move ≠ .update k) → (w.step identity move).archive = w.archive := by
    intro hmove
    cases move with
    | call r c => rfl
    | complete r args cutoff question => simp only [step, complete]; split <;> rfl
    | recover r limit place cutoff question =>
      simp only [step, recover]
      split
      · split
        · split <;> rfl
        · rfl
      · rfl
    | check r k =>
      simp only [step, check]
      split
      · split
        · split
          · split <;> rfl
          · rfl
        · rfl
      · rfl
    | update k => exact absurd rfl (hmove k)
    | fail k => rfl
  by_cases hmove : ∀ k, move ≠ .update k
  · rw [hfixed hmove] at hchanged
    exact absurd rfl hchanged
  · obtain ⟨k,rfl⟩ : ∃ k, move = .update k := by simpa using hmove
    simp only [step] at hchanged ⊢
    split at hchanged
    case h_2 => exact absurd rfl hchanged
    case h_1 t ht =>
      split at hchanged
      case isFalse => exact absurd rfl hchanged
      case isTrue hstage =>
        simp only [hstage, if_true]
        exact update_raises_header h hchanged

end ArchiveWorld

/-- Over every interleaving of store calls, completions, recoveries and archive
updates: a reader at the current watermark gets text of runs that ended above
it, every change of the document raises its header, and the document stays
within the byte limit. -/
theorem invalidated_text_never_resurfaces {pf : Platform} {limits : SessionStoreLimits}
    (S : LawfulStore pf limits) (identity : SessionIdentity) (archive : MarkdownArchive)
    (moves : List ArchiveMove) (w : ArchiveWorld S)
    (hw : w = ArchiveWorld.after identity (ArchiveWorld.init archive) moves) :
    (∀ record revision text, (S.view w.sessions).record identity = some record →
      archiveText w.archive record.memoryInvalidatedRevision revision = .ok text →
      ∃ entries : List Completion, text.toList <:+ entries.flatMap (fun c => c.part.toList) ∧
        ∀ c ∈ entries, c ∈ w.runs ∧ c.terminal ∈ (S.view w.sessions).events identity ∧
          c.terminal.type = .assistantMessage ∧
          record.memoryInvalidatedRevision < c.terminal.revision) ∧
    (∀ move, (w.step identity move).archive.document ≠ w.archive.document →
      ∃ d revision body, (w.step identity move).archive.document = some d ∧
        matchHeader d = some (revision,body) ∧
        ∀ old saved, w.archive.document = some old → matchHeader old = some saved →
          saved.1 < revision) ∧
    ∀ d, w.archive.document = some d → utf8Length d ≤ archive.maxFileBytes := by
  have hkept : w.Kept identity archive.maxFileBytes := hw ▸ ArchiveWorld.kept_after archive moves
  refine ⟨?_,fun move => ArchiveWorld.step_raises_header hkept,hkept.limit ▸ hkept.fits⟩
  intro record revision text hrecord htext
  obtain ⟨entries,hparts,hruns⟩ := ArchiveWorld.kept_text hkept hrecord htext
  refine ⟨entries,hparts,fun c hc => ?_⟩
  obtain ⟨hrun,hnewer⟩ := hruns c hc
  obtain ⟨hterminal,hassistant⟩ := hkept.terminals c hrun
  exact ⟨hrun,hterminal,hassistant,hnewer⟩

section Corrected

def archivedIdentity : SessionIdentity :=
  ⟨⟨"tenant",.refl true⟩,⟨"product",.refl true⟩,⟨"agent",.refl true⟩,⟨"session",.refl true⟩,
    ⟨"principal",.refl true⟩⟩

def smallArchive : MarkdownArchive := ⟨true,256,none,by decide⟩

def correctedMoves : List ArchiveMove :=
  [.call ⟨10,10⟩ (.create archivedIdentity),
    .complete ⟨11,11⟩ ⟨"e1",.assistantMessage,.obj [("output",.str "ten")],none,none,none⟩ 0 "price",
    .check ⟨12,12⟩ 0,
    .call ⟨13,13⟩ (.append archivedIdentity ⟨"e2",.memoryInvalidated,.obj [],none,none,none⟩),
    .update 0,
    .complete ⟨14,14⟩ ⟨"e3",.assistantMessage,.obj [("output",.str "twelve")],none,none,none⟩ 2
      "price again",
    .check ⟨15,15⟩ 1,
    .update 1]

def correctedWorld : ArchiveWorld (memoryStore ⟨fun _ => none,fun _ => 0⟩ {}) :=
  ArchiveWorld.after archivedIdentity (ArchiveWorld.init smallArchive) correctedMoves

theorem corrected_price_only :
    ∃ entries : List Completion,
      "\n\n## User\n\nprice again\n\n## Assistant\n\ntwelve\n".toList <:+
        entries.flatMap (fun c => c.part.toList) ∧
      ∀ c ∈ entries, c ∈ correctedWorld.runs ∧
        c.terminal ∈ correctedWorld.sessions.view.events archivedIdentity ∧
        c.terminal.type = .assistantMessage ∧ 2 < c.terminal.revision :=
  (invalidated_text_never_resurfaces (memoryStore ⟨fun _ => none,fun _ => 0⟩ {}) archivedIdentity
    smallArchive correctedMoves correctedWorld rfl).1
    ⟨archivedIdentity,.active,3,2,Dict.empty,10,14⟩ 3 _ (by decide +kernel) (by decide +kernel)

end Corrected

end SuiteHarness.Server
