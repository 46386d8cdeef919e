import SuiteHarness.Execution.Authority
import SuiteHarness.Execution.FullAuthority

/-!
# Revocation while a call waits for its approval

A run beside the grant authority that answers it. A call is checked against its
grant before it waits for an approval and not again. While it waits the grant
may be revoked, its activation released, or its time may run out; the call has
lapsed then, and reaches its handler exactly if the approval still comes.
-/

set_option autoImplicit false

namespace SuiteHarness.Execution
open SuiteHarness.Library

def CapabilityAuthority.grantAnswer (authority : CapabilityAuthority) (now : ℤ)
    (grantId : String) : GrantAnswer :=
  match authority.resolve now grantId with
  | none => .missing
  | some grant => .found grant

def TaskPhase.isApproving : TaskPhase → Bool
  | .approving _ _ _ => true
  | _ => false

def RunState.awaiting (s : RunState) : List CallTag :=
  match s.phase with
  | .batch i _ tasks _ => tasks.zipIdx.filterMap
      (fun t => if t.1.phase.isApproving then some ⟨i,t.2⟩ else none)
  | _ => []

/-- The call that is approved by an answer: it waits, and the binding is for this
call and not expired. -/
def RunState.approved (s : RunState) (request : RunRequest) (amb : Ambient) :
    Answer → Option (CallTag × ToolIntent × RegisteredTool)
  | .task k (.approval (some binding)) => match s.phase with
    | .batch i _ tasks _ => match tasks[k]? with
      | some ⟨intent,_,.approving _ reg _⟩ =>
        if approvalMatches (approvalTarget request intent reg) binding amb.now then
          some (⟨i,k⟩,intent,reg)
        else none
      | _ => none
    | _ => none
  | _ => none

structure GuardedRun where
  authority : CapabilityAuthority
  run : RunState
  lapsed : List CallTag := []

inductive GuardedMove where
  | administer (op : CapabilityAuthority.Op) (now : ℤ)
  | answer (input : Input)

namespace GuardedRun
variable (l : Launch)

def grantHolds (authority : CapabilityAuthority) (now : ℤ) : Bool :=
  match checkGrant l.request now (authority.grantAnswer now l.request.grantId.val) with
  | .ok _ => true
  | .error _ => false

variable (w : GuardedRun)

def lapse (now : ℤ) : GuardedRun :=
  if grantHolds l w.authority now then w
  else { w with lapsed := w.lapsed++w.run.awaiting }

def told (x : Input) : Answer :=
  match x.answer with
  | .granted _ => .granted (w.authority.grantAnswer x.amb.now l.request.grantId.val)
  | .task k (.granted _) =>
    .task k (.granted (w.authority.grantAnswer x.amb.now l.request.grantId.val))
  | answer => answer

def step : GuardedMove → GuardedRun × Unit
  | .administer op now =>
    (lapse l { w with authority := (w.authority.step op).1 } now,())
  | .answer x =>
    let w := w.lapse l x.amb.now
    ({ w with run := (l.move w.run x.pool x.amb (w.told l x)).1 },())

def after (authority : CapabilityAuthority) (moves : List GuardedMove) : GuardedRun :=
  Machine.final (step l) { authority, run := l.start } moves

def careful : GuardedMove → Bool
  | .administer _ _ => true
  | .answer x => match w.run.approved l.request x.amb x.answer with
    | some (tag,_) => decide (tag ∉ (w.lapse l x.amb.now).lapsed)
    | none => true

end GuardedRun

def Phase.passed (tag : CallTag) : Phase → Prop
  | .begin | .opened | .charging _ => False
  | .iteration i | .granting i | .prompting i _ | .checkpointing i _ _ | .deciding i _
  | .reviewing i _ _ | .recording i _ | .admitting i _ => tag.iteration < i
  | .batch i _ tasks _ => tag.iteration < i ∨
    (tag.iteration = i ∧ ∃ t, tasks[tag.index]? = some t ∧ t.phase.spent = true)
  | .overflowing _ _ | .finishing _ | .returned _ | .ended _ => True

def Phase.awaits (tag : CallTag) : Phase → Prop
  | .batch i _ tasks _ =>
    tag.iteration = i ∧ ∃ t, tasks[tag.index]? = some t ∧ t.phase.isApproving = true
  | _ => False

theorem approving_of_isApproving {p : TaskPhase} (h : p.isApproving = true) :
    ∃ startedAt reg grant, p = .approving startedAt reg grant := by
  cases p with
  | approving startedAt reg grant => exact ⟨startedAt,reg,grant,rfl⟩
  | _ => cases h

theorem mem_awaiting {s : RunState} {tag : CallTag} (h : tag ∈ s.awaiting) : s.phase.awaits tag := by
  unfold RunState.awaiting at h
  split at h
  · rename_i i overflow tasks abort hp
    rw [hp]
    obtain ⟨t,ht,htag⟩ := List.mem_filterMap.mp h
    split_ifs at htag with happroving
    cases htag
    exact ⟨rfl,t.1,List.mem_zipIdx_iff_getElem?.mp ht,happroving⟩
  · exact absurd h List.not_mem_nil

theorem passed_thinking {p : Phase} {i : ℕ} (h : p.thinking i) (tag : CallTag) :
    p.passed tag ↔ tag.iteration < i := by
  cases p <;> simp_all [Phase.thinking, Phase.passed]

theorem passed_closing {p : Phase} (h : p.closing = true) (tag : CallTag) : p.passed tag := by
  cases p <;> simp_all [Phase.closing, Phase.passed]

section Moves
variable {l : Launch} {amb : Ambient} {answer : Answer} {s s' : RunState}
  {pool pool' : AggregateRunBudget} {tag : CallTag}

theorem spent_of_spends {r : TaskStep} (h : r.Spends) : (r.next.getD .dead).spent = true := by
  cases hn : r.next with
  | none => rfl
  | some next => exact h.1 next hn

theorem passed_set {tasks : List Task} {i k : ℕ} {t t' : Task} (hk : tasks[k]? = some t)
    (hspent : t.phase.spent = true → t'.phase.spent = true)
    (h : tag.iteration < i ∨
      (tag.iteration = i ∧ ∃ u, tasks[tag.index]? = some u ∧ u.phase.spent = true)) :
    tag.iteration < i ∨
      (tag.iteration = i ∧ ∃ u, (tasks.set k t')[tag.index]? = some u ∧ u.phase.spent = true) := by
  rcases h with h|⟨hi,u,hu,hspentu⟩
  · exact .inl h
  · refine .inr ⟨hi,?_⟩
    by_cases htag : k = tag.index
    · subst htag
      rw [hk] at hu
      cases hu
      exact ⟨t',List.getElem?_set_self (List.getElem?_eq_some_iff.mp hk).1,hspent hspentu⟩
    · exact ⟨u,(List.getElem?_set_ne htag).trans hu,hspentu⟩

/-- What a run has passed it does not come back to. -/
theorem passed_move (hm : Move l amb answer s pool s' pool') (h : s.phase.passed tag) :
    s'.phase.passed tag := by
  cases hm with
  | closed hc _ => exact passed_closing hc.phase tag
  | opened hp | resumed hp | started hp | charged hp | inherited hp =>
    rw [hp] at h
    exact absurd h id
  | began hp | framed hp | presented hp | planned hp | checkpointed hp =>
    rw [hp] at h
    exact h
  | thought hp hp' => exact (passed_thinking hp' tag).mpr ((passed_thinking hp tag).mp h)
  | batched hp =>
    rw [hp] at h
    exact .inl h
  | idle hp =>
    rw [hp] at h
    exact Nat.lt_succ_of_lt h
  | tasked hp ha hk hr =>
    rw [hp] at h
    exact passed_set hk (fun hs => spent_of_spends (spent_step hs hr)) h
  | killed hp hk =>
    rw [hp] at h
    exact passed_set hk (fun _ => rfl) h
  | aborted hp =>
    rw [hp] at h
    exact h
  | gathered hp =>
    rw [hp] at h
    rcases h with h|⟨h,-⟩
    · exact Nat.lt_succ_of_lt h
    · exact h ▸ Nat.lt_succ_self _

theorem told_not_invoked {e : Event} (h : e.told = true) (intent : ToolIntent)
    (reg : RegisteredTool) : e ≠ .invoked tag intent reg := by
  rintro rfl
  cases h

/-- Only an announced call is invoked, and it is spent by that. -/
theorem invoked_by_task {phase : TaskPhase} {own : CallTag} {t : Task} {reply : TaskAnswer}
    {r : TaskStep} {intent : ToolIntent} {reg : RegisteredTool} (hp : t.phase = phase)
    (hr : taskStep l.cfg l.request amb own t.intent t.duplicate t.phase reply = some r)
    (h : .invoked tag intent reg ∈ r.events) :
    tag = own ∧ phase.spent = false ∧ phase.isApproving = false ∧
      (r.next.getD .dead).spent = true := by
  have htag : tag = own := by
    cases task_step_events hr _ h with
    | plain h => cases h
    | invoked => rfl
  subst hp
  cases hs : t.phase.spent with
  | true => exact absurd (plain_told ((spent_step hs hr).2 _ h)) (by simp [Event.told])
  | false =>
    rcases unspent_step hs hr with hnone|⟨⟨a,reg,grant,hphase⟩,-,hspent⟩
    · have := List.filterMap_eq_nil_iff.mp hnone _ h
      cases this
    · exact ⟨htag,rfl,by rw [hphase]; rfl,hspent⟩

/-- A move invokes at most the call it steps, which was neither passed nor waiting. -/
theorem invoked_move {intent : ToolIntent} {reg : RegisteredTool}
    (hm : Move l amb answer s pool s' pool') (h : .invoked tag intent reg ∈ s'.log) :
    .invoked tag intent reg ∈ s.log ∨
      (¬ s.phase.passed tag ∧ ¬ s.phase.awaits tag ∧ s'.phase.passed tag) := by
  have hold : ∀ es : List Event, (∀ e ∈ es, e.told = true) →
      .invoked tag intent reg ∈ s.log++es → .invoked tag intent reg ∈ s.log := by
    intro es hes hmem
    rcases List.mem_append.mp hmem with hmem|hmem
    · exact hmem
    · exact absurd rfl (told_not_invoked (hes _ hmem) intent reg)
  cases hm with
  | closed hc _ =>
    obtain ⟨es,hes,hlog⟩ := hc.told
    exact .inl (hold es hes (hlog ▸ h))
  | opened => exact .inl (hold [_] (by simp [Event.told]) h)
  | resumed | started | charged | inherited | framed | planned | idle | killed | aborted |
    gathered => exact .inl h
  | began => exact .inl (by simpa [RunState.emit] using h)
  | presented | checkpointed => exact .inl (by simpa [RunState.present, RunState.emit] using h)
  | thought hp hp' hes => exact .inl (hold _ (fun e he => plain_told (hes e he)) h)
  | batched =>
    rcases List.mem_append.mp h with h|h
    · exact .inl h
    · obtain ⟨k,hk,heq⟩ := List.mem_mapIdx.mp h
      cases heq
  | tasked hp ha hk hr =>
    rcases List.mem_append.mp h with h|h
    · exact .inl h
    · obtain ⟨rfl,hunspent,hnot,hspent⟩ := invoked_by_task rfl hr h
      refine .inr ⟨?_,?_,?_⟩
      · rw [hp]
        rintro (hlt|⟨-,u,hu,hs⟩)
        · exact absurd hlt (lt_irrefl _)
        · rw [hk] at hu
          cases hu
          rw [hunspent] at hs
          cases hs
      · rw [hp]
        rintro ⟨-,u,hu,hs⟩
        rw [hk] at hu
        cases hu
        rw [hnot] at hs
        cases hs
      · exact .inr ⟨rfl,_,List.getElem?_set_self (List.getElem?_eq_some_iff.mp hk).1,hspent⟩

theorem approved_some {request : RunRequest} {intent : ToolIntent} {reg : RegisteredTool}
    (h : s.approved request amb answer = some (tag,intent,reg)) :
    ∃ overflow tasks abort duplicate startedAt grant binding,
      s.phase = .batch tag.iteration overflow tasks abort ∧
      tasks[tag.index]? = some ⟨intent,duplicate,.approving startedAt reg grant⟩ ∧
      answer = .task tag.index (.approval (some binding)) ∧
      approvalMatches (approvalTarget request intent reg) binding amb.now = true := by
  unfold RunState.approved at h
  split at h <;> try cases h
  split at h <;> try cases h
  split at h <;> try cases h
  split_ifs at h with hmatches
  cases h
  exact ⟨_,_,_,_,_,_,_,‹_›,‹_›,rfl,hmatches⟩

/-- A waiting call goes on waiting or is passed, unless it is approved. -/
theorem awaits_move (hm : Move l amb answer s pool s' pool') (h : s.phase.awaits tag)
    (hnone : ∀ intent reg, s.approved l.request amb answer ≠ some (tag,intent,reg)) :
    s'.phase.awaits tag ∨ s'.phase.passed tag := by
  cases hm with
  | closed hc _ => exact .inr (passed_closing hc.phase tag)
  | opened hp | resumed hp | started hp | charged hp | inherited hp | began hp | framed hp
  | presented hp | planned hp | checkpointed hp | batched hp | idle hp =>
    rw [hp] at h
    exact absurd h id
  | thought hp =>
    exfalso
    revert h hp
    cases s.phase <;> simp [Phase.awaits, Phase.thinking]
  | aborted hp =>
    rw [hp] at h
    exact .inl h
  | gathered hp =>
    rw [hp] at h
    exact .inr (h.1 ▸ Nat.lt_succ_self _)
  | killed hp hk =>
    rw [hp] at h
    obtain ⟨hi,u,hu,hs⟩ := h
    rename_i k _ _ _ t
    by_cases htag : k = tag.index
    · subst htag
      exact .inr (.inr ⟨hi,_,List.getElem?_set_self (List.getElem?_eq_some_iff.mp hk).1,rfl⟩)
    · exact .inl ⟨hi,u,(List.getElem?_set_ne htag).trans hu,hs⟩
  | tasked hp ha hk hr =>
    rw [hp] at h
    obtain ⟨hi,u,hu,hs⟩ := h
    rename_i k _ _ _ t reply r
    by_cases htag : k = tag.index
    · subst htag
      rw [hk] at hu
      cases hu
      refine .inr (.inr ⟨hi,_,List.getElem?_set_self (List.getElem?_eq_some_iff.mp hk).1,?_⟩)
      -- the call takes no answer but one that does not approve it
      obtain ⟨startedAt,reg,grant,hphase⟩ := approving_of_isApproving hs
      rw [hphase] at hr
      cases reply <;> simp only [taskStep, reduceCtorEq] at hr
      rename_i binding
      split at hr
      · cases hr
        rfl
      · rename_i b hb
        obtain ⟨rfl,hmatches⟩ := Option.filter_eq_some_iff.mp hb
        obtain ⟨intent,duplicate,phase⟩ := t
        subst hphase
        refine absurd ?_ (hnone intent reg)
        rw [ha]
        simp [RunState.approved, hp, hk, hmatches, ← hi]
    · exact .inl ⟨hi,u,(List.getElem?_set_ne htag).trans hu,hs⟩

end Moves

structure Halting (w : GuardedRun) : Prop where
  invoked : ∀ tag intent reg, .invoked tag intent reg ∈ w.run.log → w.run.phase.passed tag
  lapsed : ∀ tag ∈ w.lapsed, (∀ intent reg, .invoked tag intent reg ∉ w.run.log) ∧
    (w.run.phase.awaits tag ∨ w.run.phase.passed tag)

theorem awaits_not_passed {p : Phase} {tag : CallTag} (h : p.awaits tag) : ¬ p.passed tag := by
  cases p with
  | batch i overflow tasks abort =>
    obtain ⟨hi,t,ht,happroving⟩ := h
    rintro (hlt|⟨-,u,hu,hspent⟩)
    · omega
    · rw [ht] at hu
      cases hu
      revert happroving hspent
      cases t.phase <;> simp [TaskPhase.isApproving, TaskPhase.spent]
  | _ => exact absurd h id

variable {w : GuardedRun}

theorem Halting.lapse (h : Halting w) (l : Launch) (now : ℤ) : Halting (w.lapse l now) := by
  unfold GuardedRun.lapse
  split
  · exact h
  · refine ⟨h.invoked,fun tag htag => ?_⟩
    rcases List.mem_append.mp htag with htag|htag
    · exact h.lapsed tag htag
    · have hawaits := mem_awaiting htag
      exact ⟨fun intent reg hmem => awaits_not_passed hawaits (h.invoked tag intent reg hmem),
        .inl hawaits⟩

theorem lapse_run (l : Launch) (w : GuardedRun) (now : ℤ) : (w.lapse l now).run = w.run := by
  unfold GuardedRun.lapse
  split <;> rfl

theorem told_approved (l : Launch) (w : GuardedRun) (x : Input) :
    w.run.approved l.request x.amb (w.told l x) = w.run.approved l.request x.amb x.answer := by
  unfold GuardedRun.told
  split <;> rename_i hx <;> first | rw [hx]; rfl | rfl

theorem halting_move {l : Launch} {x : Input} (h : Halting w)
    (hcareful : ∀ tag intent reg, w.run.approved l.request x.amb x.answer = some (tag,intent,reg) →
      tag ∉ w.lapsed) :
    Halting { w with run := (l.move w.run x.pool x.amb (w.told l x)).1 } := by
  rcases l.move_cases w.run x.pool x.amb (w.told l x) with hsame|hm
  · rw [hsame]
    exact h
  · constructor
    · intro tag intent reg hmem
      rcases invoked_move hm hmem with hold|⟨-,-,hpassed⟩
      · exact passed_move hm (h.invoked tag intent reg hold)
      · exact hpassed
    · intro tag htag
      obtain ⟨hfree,hstate⟩ := h.lapsed tag htag
      constructor
      · intro intent reg hmem
        rcases invoked_move hm hmem with hold|⟨hunpassed,hunawaited,-⟩
        · exact hfree intent reg hold
        · exact hstate.elim hunawaited hunpassed
      · rcases hstate with hawaits|hpassed
        · refine awaits_move hm hawaits (fun intent reg happroved => ?_)
          rw [told_approved] at happroved
          exact hcareful tag intent reg happroved htag
        · exact .inr (passed_move hm hpassed)

open GuardedRun (after careful)

theorem halting_step {l : Launch} {m : GuardedMove} (hcareful : w.careful l m = true)
    (h : Halting w) : Halting (w.step l m).1 := by
  cases m with
  | administer op now =>
    have hsame : Halting { w with authority := (w.authority.step op).1 } := ⟨h.invoked,h.lapsed⟩
    exact hsame.lapse l now
  | answer x =>
    refine halting_move (h.lapse l x.amb.now) (fun tag intent reg happroved => ?_)
    rw [lapse_run] at happroved
    simpa [careful, happroved] using hcareful

theorem halting_start (l : Launch) (authority : CapabilityAuthority) :
    Halting { authority, run := l.start } :=
  ⟨fun _ _ _ h => absurd h List.not_mem_nil,fun _ h => absurd h List.not_mem_nil⟩

/-! Nothing but the approval holds back a call that waits. -/

theorem task_run {l : Launch} {amb : Ambient} {i k : ℕ} {overflow : List ToolIntent}
    {tasks : List Task} {abort : Option Ending} {intent : ToolIntent} {duplicate : Bool}
    {phase next : TaskPhase} {reply : TaskAnswer} {es : List Event}
    (hp : w.run.phase = .batch i overflow tasks abort)
    (hk : tasks[k]? = some ⟨intent,duplicate,phase⟩) (hphase : phase ≠ .waiting)
    (hr : taskStep l.cfg l.request amb ⟨i,k⟩ intent duplicate phase reply = some ⟨some next,es⟩)
    (hreply : ∀ found, reply ≠ .granted found) (pool : AggregateRunBudget) :
    (w.step l (.answer ⟨pool,amb,.task k reply⟩)).1.run = { w.run with
      log := w.run.log++es
      phase := .batch i overflow (tasks.set k ⟨intent,duplicate,next⟩) abort } := by
  have htold : (w.lapse l amb.now).told l ⟨pool,amb,.task k reply⟩ = .task k reply := by
    cases reply <;> first | rfl | exact absurd rfl (hreply _)
  simp only [GuardedRun.step, htold, lapse_run, Launch.move, hp, RunState.step, RunState.batchTask,
    hk, hr]
  cases phase <;> first | exact absurd rfl hphase | rfl

/-- A call that is approved is started and invoked, whatever has become of its grant. -/
theorem approved_runs {l : Launch} {x : Input} {tag : CallTag} {intent : ToolIntent}
    {reg : RegisteredTool} (h : w.run.approved l.request x.amb x.answer = some (tag,intent,reg))
    (hvalid : (callEvent .toolStarted intent (some reg.identity) []).valid = true)
    (p q : AggregateRunBudget) (a b : Ambient) :
    .invoked tag intent reg ∈ (Machine.final (GuardedRun.step l) w [.answer x,
      .answer ⟨p,a,.task tag.index (.appended true)⟩,
      .answer ⟨q,b,.task tag.index (.published true)⟩]).run.log := by
  obtain ⟨overflow,tasks,abort,duplicate,startedAt,grant,binding,hp,hk,hx,hmatches⟩ :=
    approved_some h
  obtain ⟨pool,amb,answer⟩ := x
  cases hx
  have hlt := (List.getElem?_eq_some_iff.mp hk).1
  have happroval : taskStep l.cfg l.request amb tag intent duplicate (.approving startedAt reg grant)
      (.approval (some binding)) = some ⟨some (.starting startedAt reg grant (some binding.approvedBy)),
        [.approvalObtained tag binding amb.now]⟩ := by
    rw [taskStep, Option.filter, if_pos hmatches]
  have hstarted : ∃ event, taskStep l.cfg l.request a tag intent duplicate
      (.starting startedAt reg grant (some binding.approvedBy)) (.appended true) =
        some ⟨some (.announcing startedAt reg grant),[event]⟩ := by
    refine ⟨_,congrArg some (if_pos ⟨?_,rfl⟩)⟩
    simpa [callEvent, AuditEvent.valid, Json.nonFinite, Json.non_finite_fields, Json.non_finite_items]
      using hvalid
  obtain ⟨event,hstarted⟩ := hstarted
  have h₁ := task_run hp hk (by simp) happroval (by simp) pool
  have h₂ := task_run (congrArg RunState.phase h₁) (List.getElem?_set_self hlt) (by simp) hstarted
    (by simp) p
  have hpublished : taskStep l.cfg l.request b tag intent duplicate (.announcing startedAt reg grant)
      (.published true) = some ⟨some (.running startedAt reg grant),[.published "tool_started"
        (.obj [("call_id",.str intent.callId),("tool_name",.str intent.toolName)]),
        .invoked tag intent reg]⟩ := rfl
  have h₃ := task_run (congrArg RunState.phase h₂) (List.getElem?_set_self (by simpa using hlt))
    (by simp) hpublished (by simp) q
  change _ ∈ (GuardedRun.step l _ _).1.run.log
  rw [h₃]
  simp

section Sample

def deleteTool : RegisteredTool where
  registrationScope := .root
  identity := ⟨"product","delete","product","1"⟩
  spec := { name := "delete", effects := {.write,.destructive} }
  handler := 3
  validate := fun _ => .passed

def deleteGrant : CapabilityGrant :=
  { sampleGrant with toolIdentities := {deleteTool.identity} }

def deleteLaunch : Launch where
  cfg := { hasInteractiveApprovals := true, dumpResume := fun _ => .null }
  request := { freshRequest with readOnly := false }

def deleteAmbient : Ambient where
  tools name := if name = "delete" then some deleteTool else none
  evaluate _ _ _ := .raised
  now := 1
  later := 1
  expired := false

def deleteAnswer (answer : Answer) : GuardedMove := .answer ⟨samplePool,deleteAmbient,answer⟩

def deleteBinding : ApprovalBinding where
  target := approvalTarget deleteLaunch.request { callId := "call-1", toolName := "delete" }
    deleteTool
  approvedBy := "principal"
  issuedAt := 0
  expiresAt := 50

def deleteUntilApproval : List GuardedMove :=
  [deleteAnswer (.appended true),deleteAnswer (.granted .missing),deleteAnswer .pooled,
    deleteAnswer (.granted .missing),deleteAnswer (.rendered .invalid (.key none)),
    deleteAnswer (.streamed (.decided { kind := .tools, intents :=
      [{ callId := "call-1", toolName := "delete" }] })),
    deleteAnswer (.appended true),deleteAnswer .pooled,deleteAnswer (.task 0 (.appended true)),
    deleteAnswer (.task 0 (.granted .missing)),.administer (.revoke "grant") 1]

def deleteAuthority : CapabilityAuthority := CapabilityAuthority.init.store deleteGrant none

/-- Where no call is approved whose grant stopped resolving while it waited, the
handlers of such calls are never invoked. In every run a waiting call that is
approved, lapsed or not, is invoked as soon as its start is recorded and published. -/
theorem lapsed_calls_never_run (l : Launch) (authority : CapabilityAuthority)
    (moves : List GuardedMove) :
    (Machine.along (GuardedRun.step l) (careful l) { authority, run := l.start } moves = true →
      ∀ tag ∈ (after l authority moves).lapsed, ∀ intent reg,
        .invoked tag intent reg ∉ (after l authority moves).run.log) ∧
    ∀ (x : Input) tag intent reg,
      (after l authority moves).run.approved l.request x.amb x.answer = some (tag,intent,reg) →
      (callEvent .toolStarted intent (some reg.identity) []).valid = true → ∀ p q a b,
        .invoked tag intent reg ∈ (after l authority (moves++[.answer x,
          .answer ⟨p,a,.task tag.index (.appended true)⟩,
          .answer ⟨q,b,.task tag.index (.published true)⟩])).run.log := by
  constructor
  · intro hcareful
    have h := Machine.final_invariant_along (GuardedRun.step l) (careful l) Halting
      (fun w m hm hw => halting_step hm hw) _ moves hcareful (halting_start l authority)
    exact fun tag htag => (h.lapsed tag htag).1
  · intro x tag intent reg happroved hvalid p q a b
    rw [after, Machine.final_append]
    exact approved_runs happroved hvalid p q a b

/-- After the revocation comes a binding that has run out, and the handler does not run. -/
theorem refused_call_never_runs :
    let moves := deleteUntilApproval ++ [deleteAnswer (.task 0 (.approval (some
      { deleteBinding with expiresAt := 1 }))),deleteAnswer (.task 0 (.appended true))]
    (after deleteLaunch deleteAuthority moves).lapsed ≠ [] ∧
    ∀ tag ∈ (after deleteLaunch deleteAuthority moves).lapsed, ∀ intent reg,
      .invoked tag intent reg ∉ (after deleteLaunch deleteAuthority moves).run.log :=
  ⟨by decide +kernel,(lapsed_calls_never_run deleteLaunch deleteAuthority _).1 (by decide +kernel)⟩

/-- The grant is revoked while the call waits; the approval comes afterwards and
the handler runs. -/
theorem approval_outlives_revocation :
    ⟨1,0⟩ ∈ (after deleteLaunch deleteAuthority deleteUntilApproval).lapsed ∧
    (after deleteLaunch deleteAuthority (deleteUntilApproval ++
      [deleteAnswer (.task 0 (.approval (some deleteBinding))),
        deleteAnswer (.task 0 (.appended true)),
        deleteAnswer (.task 0 (.published true))])).run.log.any
      (fun e => decide (e.invokedId = some "call-1")) = true := by
  decide +kernel

end Sample
end SuiteHarness.Execution
