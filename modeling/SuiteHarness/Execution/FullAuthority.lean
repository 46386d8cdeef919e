import SuiteHarness.Execution.Evidence

/-!
# No handler runs without full authority

A call id reaches a handler at most once: a batch admits it as new at most
once, and its task leaves the phases before the handler at most once. With the
evidence behind each call this gives the contract of `_execute_intent` at every
invocation of every run.
-/

set_option autoImplicit false

namespace SuiteHarness.Execution

open Library.History

def Event.invokedId : Event → Option String
  | .invoked _ intent _ => some intent.callId
  | _ => none

def invokedIds (log : List Event) : List String := log.filterMap Event.invokedId

def Task.pendingId (t : Task) : Option String :=
  if t.duplicate = true ∨ t.phase.spent = true then none else some t.intent.callId

def Phase.pendingIds : Phase → List String
  | .batch _ _ tasks _ => tasks.filterMap Task.pendingId
  | _ => []

namespace RunState

def claimedIds (s : RunState) : List String := invokedIds s.log ++ s.phase.pendingIds

structure Unrepeated (s : RunState) : Prop where
  nodup : s.claimedIds.Nodup
  used : s.claimedIds ⊆ s.callIds
  paid : s.claimedIds.length ≤ s.toolCallsUsed
  early : s.phase = .begin ∨ s.phase = .opened → s.claimedIds = []

theorem Unrepeated.shrink {s s' : RunState} (h : Unrepeated s)
    (hsub : s'.claimedIds.Subperm s.claimedIds) (hids : s'.callIds = s.callIds)
    (htools : s'.toolCallsUsed = s.toolCallsUsed)
    (hearly : s'.phase = .begin ∨ s'.phase = .opened → s'.claimedIds = []) : Unrepeated s' := by
  obtain ⟨mid,hperm,hsublist⟩ := hsub
  refine ⟨?_,?_,?_,hearly⟩
  · exact hperm.nodup_iff.mp (h.nodup.sublist hsublist)
  · intro id hid
    rw [hids]
    exact h.used (hsublist.subset (hperm.mem_iff.mpr hid))
  · rw [htools, ← hperm.length_eq]
    exact hsublist.length_le.trans h.paid

end RunState

theorem invoked_ids_told {es : List Event} (h : ∀ e ∈ es, e.told = true) : invokedIds es = [] := by
  apply List.filterMap_eq_nil_iff.mpr
  intro e he
  have htold := h e he
  cases e <;> simp_all [Event.told, Event.invokedId]

theorem invoked_ids_plain {es : List Event} (h : ∀ e ∈ es, e.plain = true) : invokedIds es = [] :=
  invoked_ids_told (fun e he => plain_told (h e he))

theorem invoked_ids_append (a b : List Event) :
    invokedIds (a ++ b) = invokedIds a ++ invokedIds b := List.filterMap_append

section Flags

open RunState

def freshIds (flagged : List (ToolIntent × Bool)) : List String :=
  flagged.filterMap (fun f => if f.2 = true then none else some f.1.callId)

/-- The flags of a batch: each id is new at most once and only if it was not used. -/
theorem flag_duplicates_fresh (ids : List String) (intents : List ToolIntent) :
    (freshIds (flagDuplicates ids intents).1).Nodup ∧
    (∀ id ∈ freshIds (flagDuplicates ids intents).1,
      id ∉ ids ∧ id ∈ (flagDuplicates ids intents).2) ∧
    ids ⊆ (flagDuplicates ids intents).2 ∧
    (freshIds (flagDuplicates ids intents).1).length ≤ intents.length := by
  induction intents generalizing ids with
  | nil => simp [flagDuplicates, freshIds]
  | cons intent rest ih =>
    obtain ⟨hnodup,hfresh,hkeep,hlength⟩ := ih (ids.insert intent.callId)
    simp only [flagDuplicates]
    have hkept : ids ⊆ (flagDuplicates (ids.insert intent.callId) rest).2 := fun id hid =>
      hkeep (List.mem_insert_of_mem hid)
    by_cases hdup : intent.callId ∈ ids
    · have hhead : freshIds ((intent,decide (intent.callId ∈ ids))::
          (flagDuplicates (ids.insert intent.callId) rest).1) =
          freshIds (flagDuplicates (ids.insert intent.callId) rest).1 := by
        simp [freshIds, hdup]
      rw [hhead]
      refine ⟨hnodup,fun id hid => ?_,hkept,?_⟩
      · exact ⟨fun h => (hfresh id hid).1 (List.mem_insert_of_mem h),(hfresh id hid).2⟩
      · simp only [List.length_cons]
        omega
    · have hhead : freshIds ((intent,decide (intent.callId ∈ ids))::
          (flagDuplicates (ids.insert intent.callId) rest).1) =
          intent.callId::freshIds (flagDuplicates (ids.insert intent.callId) rest).1 := by
        simp [freshIds, hdup]
      rw [hhead]
      refine ⟨List.nodup_cons.mpr ⟨?_,hnodup⟩,?_,hkept,?_⟩
      · intro hid
        exact (hfresh _ hid).1 List.mem_insert_self
      · intro id hid
        rcases List.mem_cons.mp hid with rfl | hid
        · exact ⟨hdup,hkeep List.mem_insert_self⟩
        · exact ⟨fun h => (hfresh id hid).1 (List.mem_insert_of_mem h),(hfresh id hid).2⟩
      · simp only [List.length_cons]
        omega

end Flags

section Steps

variable {l : Launch} {amb : Ambient} {log : List Event} {tag : CallTag} {t : Task}
  {reply : TaskAnswer} {r : TaskStep}

theorem pending_id_next {t : Task} (p : TaskPhase) (h : t.phase.spent = false) :
    ({ t with phase := p } : Task).pendingId = none ∨
    ({ t with phase := p } : Task).pendingId = t.pendingId := by
  unfold Task.pendingId
  split_ifs with h1 h2 <;> simp_all

theorem pending_id_spent {t : Task} (h : t.phase.spent = true) : t.pendingId = none := by
  simp [Task.pendingId, h]

theorem unspent_step (hd : t.phase.spent = false)
    (h : taskStep l.cfg l.request amb tag t.intent t.duplicate t.phase reply = some r) :
    invokedIds r.events = [] ∨
    ((∃ a reg grant, t.phase = .announcing a reg grant) ∧
      invokedIds r.events = [t.intent.callId] ∧ (r.next.getD .dead).spent = true) := by
  cases hp : t.phase with
  | waiting =>
    rw [hp] at h
    left
    apply List.filterMap_eq_nil_iff.mpr
    intro e he
    rcases (waiting_step h).1 e he with hplain | rfl
    · cases e <;> simp_all [Event.plain, Event.invokedId]
    · rfl
  | granting startedAt registered =>
    rw [hp] at h
    left
    rcases granting_step h with ⟨hnone,-⟩ | ⟨grant,found,reg,needed,-,-,-,rfl⟩
    · rw [hnone]
      rfl
    · rw [invoked_ids_append, invoked_ids_append]
      split_ifs <;> rfl
  | approving startedAt reg grant =>
    rw [hp] at h
    left
    rcases approving_step h with ⟨hnone,-⟩ | ⟨binding,-,rfl⟩
    · rw [hnone]
      rfl
    · rfl
  | starting startedAt reg grant approvedBy =>
    rw [hp] at h
    exact .inl (invoked_ids_plain (starting_step h).1)
  | announcing startedAt reg grant =>
    rw [hp] at h
    rcases announcing_step h with rfl | ⟨announced,hplain,rfl⟩
    · exact .inl rfl
    · refine .inr ⟨⟨_,_,_,rfl⟩,?_,rfl⟩
      rw [show [announced,Event.invoked tag t.intent reg] = [announced] ++ [.invoked tag t.intent reg]
        from rfl, invoked_ids_append, invoked_ids_plain (by simpa using hplain)]
      rfl
  | running | storing | finishing | denying | failing | observed | done | dead =>
    rw [hp] at hd
    cases hd

/-- What a step adds to the invoked ids it takes from the pending ones. -/
theorem task_step_ids (hb : t.backed l log tag)
    (h : taskStep l.cfg l.request amb tag t.intent t.duplicate t.phase reply = some r) :
    (invokedIds r.events ++
      ({ t with phase := r.next.getD .dead } : Task).pendingId.toList).Sublist t.pendingId.toList := by
  cases hd : t.phase.spent with
  | true =>
    obtain ⟨hnext,hplain⟩ := spent_step hd h
    have hspent : ({ t with phase := r.next.getD .dead } : Task).pendingId = none := by
      apply pending_id_spent
      cases hn : r.next with
      | none => rfl
      | some next => exact hnext next hn
    simp [invoked_ids_plain hplain, hspent]
  | false =>
    rcases unspent_step hd h with hnone | ⟨⟨a,reg,grant,hp⟩,hone,hspent⟩
    · rw [hnone, List.nil_append]
      rcases pending_id_next (r.next.getD .dead) hd with hp | hp
      · simp [hp]
      · rw [hp]
    · have hdup : t.duplicate = false := by
        simp only [Task.backed, hp] at hb
        exact hb.1
      have hpending : t.pendingId = some t.intent.callId := by simp [Task.pendingId, hdup, hd]
      rw [hone, pending_id_spent (t := { t with phase := r.next.getD .dead }) hspent, hpending]
      rfl

end Steps

namespace RunState

variable {s : RunState}

theorem unrepeated_none (h : s.claimedIds = []) : Unrepeated s := by
  constructor <;> simp [h]

/-- A move that neither invokes a handler nor stands in a batch afterwards. -/
theorem Unrepeated.leave {s' : RunState} {es : List Event} (h : Unrepeated s)
    (hlog : s'.log = s.log ++ es) (hes : invokedIds es = []) (hphase : s'.phase.pendingIds = [])
    (hids : s'.callIds = s.callIds) (htools : s'.toolCallsUsed = s.toolCallsUsed)
    (hearly : s'.phase ≠ .begin ∧ s'.phase ≠ .opened) : Unrepeated s' := by
  refine h.shrink ?_ hids htools (fun he => absurd he (by simp [hearly]))
  unfold claimedIds
  rw [hlog, invoked_ids_append, hes, hphase, List.append_nil, List.append_nil]
  exact (List.sublist_append_left _ _).subperm

theorem unrepeated_claimed {ids : List String} (h : s.claimedIds = ids) (hnodup : ids.Nodup)
    (hused : ids ⊆ s.callIds) (hpaid : ids.length ≤ s.toolCallsUsed)
    (hearly : ¬ (s.phase = .begin ∨ s.phase = .opened)) : Unrepeated s := by
  subst h
  exact ⟨hnodup,hused,hpaid,fun he => absurd he hearly⟩

theorem fresh_claimed (s : RunState) (i : ℕ) (overflow : List ToolIntent)
    (flagged : List (ToolIntent × Bool)) :
    ({ s with
      log := s.log ++ admittedEvents i flagged
      phase := .batch i overflow (flagged.map (fun f => ⟨f.1,f.2,.waiting⟩)) none } :
        RunState).claimedIds = invokedIds s.log ++ freshIds flagged := by
  have hnone : invokedIds (admittedEvents i flagged) = [] := by
    apply List.filterMap_eq_nil_iff.mpr
    intro e he
    obtain ⟨k,hk,rfl⟩ := List.mem_mapIdx.mp he
    rfl
  unfold claimedIds
  rw [invoked_ids_append, hnone, List.append_nil]
  congr 1
  show (flagged.map _).filterMap Task.pendingId = _
  rw [List.filterMap_map]
  apply List.filterMap_congr
  intro f _
  simp [Task.pendingId, TaskPhase.spent]

theorem unrepeated_move {l : Launch} {amb : Ambient} {answer : Answer} {s' : RunState}
    {pool pool' : AggregateRunBudget} (hw : Warranted l s) (h : Unrepeated s)
    (hm : Move l amb answer s pool s' pool') : Unrepeated s' := by
  cases hm with
  | closed hc _ =>
    obtain ⟨es,hes,hlog⟩ := hc.told
    have hclosing := hc.phase
    refine h.leave hlog (invoked_ids_told hes) ?_ hc.callIds hc.toolCalls ?_
    · cases hp : s'.phase <;> simp_all [Phase.closing, Phase.pendingIds]
    · constructor <;> intro hp <;> simp [hp, Phase.closing] at hclosing
  | opened hp =>
    have hnone := h.early (.inl hp)
    simp only [claimedIds, hp, List.append_eq_nil_iff] at hnone
    refine unrepeated_none ?_
    show invokedIds (s.log ++ [_]) ++ [] = []
    rw [invoked_ids_append, hnone.1]
    rfl
  | resumed hp ha hg hr hv =>
    have hnone := h.early (.inr hp)
    simp only [claimedIds, hp, List.append_eq_nil_iff] at hnone
    refine unrepeated_none ?_
    show invokedIds s.log ++ [] = []
    rw [hnone.1]
    rfl
  | started | charged | inherited | framed | planned | idle | gathered =>
      exact h.leave (List.append_nil _).symm rfl rfl rfl rfl (by simp)
  | began => exact h.leave rfl rfl rfl rfl rfl (by simp)
  | presented => exact h.leave rfl rfl rfl rfl rfl (by simp [present])
  | checkpointed => exact h.leave (List.append_assoc _ _ _) rfl rfl rfl rfl (by simp [present])
  | thought hp hp' hes =>
    refine h.leave rfl (invoked_ids_plain hes) ?_ rfl rfl ?_
    · rename_i p _ _
      cases p <;> simp_all [Phase.thinking, Phase.pendingIds]
    · constructor <;> rintro rfl <;> exact hp'
  | batched hp hpool hcount =>
    rename_i i count decision
    obtain ⟨hnodup,hfresh,hkeep,hlength⟩ :=
      flag_duplicates_fresh s.callIds (decision.intents.take count)
    have hold : s.claimedIds = invokedIds s.log := by
      simp [claimedIds, hp, Phase.pendingIds]
    have hpaid := h.paid
    have hold' := h.nodup
    rw [hold] at hpaid hold'
    refine unrepeated_claimed (fresh_claimed s i (decision.intents.drop count)
      (flagDuplicates s.callIds (decision.intents.take count)).1) ?_ ?_ ?_ (by simp)
    · refine List.nodup_append.mpr ⟨hold',hnodup,?_⟩
      rintro a ha b hb rfl
      exact (hfresh a hb).1 (h.used (by rwa [hold]))
    · intro id hid
      rcases List.mem_append.mp hid with hid | hid
      · exact hkeep (h.used (by rwa [hold]))
      · exact (hfresh id hid).2
    · rw [List.length_append]
      show _ ≤ s.toolCallsUsed+(decision.intents.take count).length
      omega
  | tasked hp ha hk hr =>
    refine h.shrink ?_ rfl rfl (by simp)
    unfold claimedIds
    rw [invoked_ids_append, List.append_assoc, List.subperm_append_left, hp]
    exact filter_map_set_subperm _ hk (task_step_ids (hw.tasks _ _ _ _ hp _ _ hk) hr)
  | killed hp hk =>
    refine h.shrink ?_ rfl rfl (by simp)
    unfold claimedIds
    rw [List.subperm_append_left, hp]
    exact @filter_map_set_subperm _ _ _ _ _ _ _ [] hk (by simp [Task.pendingId, TaskPhase.spent])
  | aborted hp =>
    refine h.shrink ?_ rfl rfl (by simp)
    unfold claimedIds
    rw [hp]
    exact List.Subperm.refl _

end RunState

theorem run_unrepeated (l : Launch) (inputs : List Input) : (l.run inputs).Unrepeated := by
  have h : Warranted l (l.run inputs) ∧ (l.run inputs).Unrepeated := by
    refine l.run_invariant (fun s => Warranted l s ∧ s.Unrepeated) ⟨run_warranted l [],?_⟩ ?_ inputs
    · exact RunState.unrepeated_none rfl
    · intro amb answer s pool s' pool' hs hm
      exact ⟨warranted_move hs.1 hm,RunState.unrepeated_move hs.1 hs.2 hm⟩
  exact h.2

structure FullAuthority (l : Launch) (log : List Event) (tag : CallTag) (intent : ToolIntent)
    (reg : RegisteredTool) : Prop where
  intentAudited : Audited log .toolIntent intent
  startAudited : Audited log .toolStarted intent
  granted : Granted l.request log tag reg
  readOnly : l.request.readOnly = true → reg.spec.isRead = true
  resumable : l.request.resume.isSome = true → trustedRegistration intent.toolName reg = true
  validated : reg.validate intent.arguments = .passed
  authorised : ∃ authorization, PolicySaid l.cfg log tag authorization ∧ authorization ≠ .deny ∧
    (approvalNeeded l.cfg authorization reg.spec = true → Approved l.request log tag intent reg)
  first : intent.callId ∉ invokedIds log

def Agreeing (log : List Event) : Prop :=
  ∀ tag name registered again, .lookedUp tag name registered ∈ log →
    .rechecked tag name again ∈ log → registered = again

/-- In every run whose resume gate agrees with the first look-up, every handler
is invoked with full authority. -/
theorem handler_invoked_with_full_authority (l : Launch) (inputs : List Input)
    (hagree : Agreeing (l.run inputs).log) (pre post : List Event) (tag : CallTag)
    (intent : ToolIntent) (reg : RegisteredTool)
    (h : (l.run inputs).log = pre ++ .invoked tag intent reg::post) :
    FullAuthority l pre tag intent reg := by
  obtain ⟨⟨needed,hbacked⟩,hstarted⟩ := (run_warranted l inputs).log pre _ post h
  have hcleared := hbacked.cleared
  have hpre : pre ⊆ (l.run inputs).log := by
    rw [h]
    exact List.subset_append_left _ _
  refine ⟨hcleared.audited,hstarted,hcleared.granted,hcleared.readOnly,?_,hcleared.validated,?_,?_⟩
  · intro hr
    obtain ⟨again,hagain,htrusted⟩ := hcleared.rechecked hr
    obtain rfl := Option.some.inj (hagree _ _ _ _ (hpre hcleared.lookedUp) (hpre hagain))
    exact htrusted
  · obtain ⟨authorization,hsaid,hdeny,rfl⟩ := hcleared.policy
    exact ⟨authorization,hsaid,hdeny,hbacked.approved⟩
  · have hnodup := (run_unrepeated l inputs).nodup
    unfold RunState.claimedIds at hnodup
    rw [h, invoked_ids_append] at hnodup
    intro hmem
    have hdisjoint := List.nodup_append.mp (List.nodup_append.mp hnodup).1
    exact hdisjoint.2.2 _ hmem _ (List.mem_cons_self (a := intent.callId)) rfl

variable (tools : String → Option RegisteredTool)

def Event.fromRegistry : Event → Prop
  | .lookedUp _ name registered => registered = tools name
  | .rechecked _ name registered => registered = tools name
  | _ => True

theorem told_from_registry {e : Event} (h : e.told = true) : e.fromRegistry tools := by
  cases e <;> simp_all [Event.told, Event.fromRegistry]

theorem plain_from_registry {e : Event} (h : e.plain = true) :
    e.fromRegistry tools := told_from_registry tools (plain_told h)

theorem CallEvent.from_registry {amb : Ambient} {tag : CallTag} {intent : ToolIntent} {e : Event}
    (h : CallEvent amb tag intent e) : e.fromRegistry amb.tools := by
  cases h with
  | plain h => exact plain_from_registry _ h
  | lookedUp | rechecked => rfl
  | granted | policy | approved | invoked => trivial

theorem move_from_registry {l : Launch} {amb : Ambient} {answer : Answer} {s s' : RunState}
    {pool pool' : AggregateRunBudget} (h : ∀ e ∈ s.log, e.fromRegistry amb.tools)
    (hm : Move l amb answer s pool s' pool') : ∀ e ∈ s'.log, e.fromRegistry amb.tools := by
  obtain ⟨es,hlog,hes⟩ : ∃ es, s'.log = s.log ++ es ∧ ∀ e ∈ es, e.fromRegistry amb.tools := by
    cases hm with
    | closed hc _ =>
      obtain ⟨es,htold,hlog⟩ := hc.told
      exact ⟨es,hlog,fun e he => told_from_registry _ (htold e he)⟩
    | opened | began | presented => exact ⟨[_],rfl,by simp [Event.fromRegistry]⟩
    | checkpointed => exact ⟨[_,_],List.append_assoc _ _ _,by simp [Event.fromRegistry]⟩
    | thought hp hp' hes => exact ⟨_,rfl,fun e he => plain_from_registry _ (hes e he)⟩
    | batched =>
      refine ⟨_,rfl,fun e he => ?_⟩
      obtain ⟨k,hk,rfl⟩ := List.mem_mapIdx.mp he
      trivial
    | tasked hp ha hk hr => exact ⟨_,rfl,fun e he => (task_step_events hr e he).from_registry⟩
    | resumed | started | charged | inherited | framed | planned | idle | killed | aborted |
      gathered => exact ⟨[],(List.append_nil _).symm,by simp⟩
  intro e he
  rw [hlog] at he
  rcases List.mem_append.mp he with he | he
  · exact h e he
  · exact hes e he

/-- The condition holds in every run during which the registry does not change. -/
theorem agreeing_of_static_registry (l : Launch) (inputs : List Input)
    (tools : String → Option RegisteredTool) (h : ∀ x ∈ inputs, x.amb.tools = tools) :
    Agreeing (l.run inputs).log := by
  have hlog : ∀ e ∈ (l.run inputs).log, e.fromRegistry tools := by
    refine l.run_invariant_on (fun s => ∀ e ∈ s.log, e.fromRegistry tools)
      (fun x => x.amb.tools = tools) (by simp [Launch.start]) ?_ inputs h
    intro x s s' pool' hx hs hm
    subst hx
    exact move_from_registry hs hm
  intro tag name registered again hlook hagain
  exact (hlog _ hlook).trans (hlog _ hagain).symm

section Sample

def sampleScope : RequestScope where
  tenantId := ⟨"tenant",by decide⟩
  productId := ⟨"product",by decide⟩
  principalId := ⟨"principal",by decide⟩

def readSpec : ToolSpec where
  name := "suiteharness.fs.read"
  effects := {.read}

def builtinRead : RegisteredTool where
  registrationScope := .root
  identity := ⟨"suiteharness","suiteharness.fs.read","suiteharness.builtin.fs","1"⟩
  spec := readSpec
  handler := 1
  validate := fun _ => .passed

def productRead : RegisteredTool where
  registrationScope := .product ⟨"tenant",by decide⟩ ⟨"product",by decide⟩
  identity := ⟨"product","suiteharness.fs.read","product","1"⟩
  spec := readSpec
  handler := 2
  validate := fun _ => .passed

def sampleGrant : CapabilityGrant where
  grantId := "grant"
  tenantId := "tenant"
  productId := "product"
  toolIdentities := {builtinRead.identity,productRead.identity}
  capabilities := ∅
  principalId := none
  issuedAt := 0
  expiresAt := 100
  ids := by decide
  principal := by decide
  names := by simp
  window := by decide

def freshRequest : RunRequest where
  runId := ⟨"run-2",by decide⟩
  scope := sampleScope
  grantId := ⟨"grant",by decide⟩
  input := .null
  readOnly := true

def resumedLaunch : Launch where
  cfg := { dumpResume := fun _ => .null }
  request := { freshRequest with resume := some {
    sourceRunId := "run-1"
    workflowState := .null
    observations := []
    iterationsUsed := 0
    toolCallsUsed := 0
    callIds := []
    promptDigest := digest (promptPayload freshRequest none)
    routeKey := "route" } }

def samplePool : AggregateRunBudget where
  maxIterations := 16
  maxToolCalls := 32
  maxChildren := 2

def ambientOf (reg : RegisteredTool) : Ambient where
  tools name := if name = "suiteharness.fs.read" then some reg else none
  evaluate _ _ _ := .raised
  now := 1
  later := 1
  expired := false

def readCall (before after : RegisteredTool) : List Input :=
  [⟨samplePool,ambientOf before,.appended true⟩,
    ⟨samplePool,ambientOf before,.granted (.found sampleGrant)⟩,
    ⟨samplePool,ambientOf before,.pooled⟩,
    ⟨samplePool,ambientOf before,.pooled⟩,
    ⟨samplePool,ambientOf before,.granted (.found sampleGrant)⟩,
    ⟨samplePool,ambientOf before,.rendered .invalid (.key (some "route"))⟩,
    ⟨samplePool,ambientOf before,.streamed (.decided { kind := .tools, intents :=
      [{ callId := "call-1", toolName := "suiteharness.fs.read" }] })⟩,
    ⟨samplePool,ambientOf before,.appended true⟩,
    ⟨samplePool,ambientOf before,.pooled⟩,
    ⟨samplePool,ambientOf before,.task 0 (.appended true)⟩,
    ⟨samplePool,ambientOf after,.task 0 (.granted (.found sampleGrant))⟩,
    ⟨samplePool,ambientOf after,.task 0 (.appended true)⟩,
    ⟨samplePool,ambientOf after,.task 0 (.published true)⟩]

def Event.untrusted : Event → Bool
  | .invoked _ intent reg => !trustedRegistration intent.toolName reg
  | _ => false

/-- The handler of the product's tool runs in a resumed run, because the resume
gate asks about the tool that has the name by then. -/
theorem resumed_run_invokes_untrusted_tool :
    resumedLaunch.request.resume.isSome = true ∧
    (resumedLaunch.run (readCall productRead builtinRead)).log.any Event.untrusted = true := by
  decide +kernel

/-- The same run with an unchanged registry reaches the handler of the framework's tool. -/
theorem resumed_read_has_full_authority :
    ∃ pre post tag intent reg, (resumedLaunch.run (readCall builtinRead builtinRead)).log =
      pre ++ .invoked tag intent reg::post ∧ FullAuthority resumedLaunch pre tag intent reg := by
  have hinvoked : (resumedLaunch.run (readCall builtinRead builtinRead)).log.any
      (fun e => e.invokedId.isSome) = true := by decide +kernel
  obtain ⟨e,he,hid⟩ := List.any_eq_true.mp hinvoked
  obtain ⟨pre,post,hlog⟩ := List.append_of_mem he
  cases e <;> simp [Event.invokedId] at hid
  rename_i tag intent reg
  refine ⟨pre,post,tag,intent,reg,hlog,?_⟩
  refine handler_invoked_with_full_authority resumedLaunch _ ?_ pre post tag intent reg hlog
  exact agreeing_of_static_registry _ _ (ambientOf builtinRead).tools (by simp [readCall])

end Sample

end SuiteHarness.Execution
