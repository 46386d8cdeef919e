import SuiteHarness.Execution.FullAuthority

/-!
# Published checkpoints

A checkpoint is built one iteration after the batch it closes, from a flag that
every batch can only clear. Between two batches of a run whose flag stands, every
observation is a trusted read, the calls used are the observations made, and the
call ids are theirs. The flag is cleared by a batch that cannot be resumed, and
then no later checkpoint of the run is published.
-/

set_option autoImplicit false

namespace SuiteHarness

inductive Json.HasKey (key : String) : Json → Prop where
  | here {fields : List (String × Json)} {x : Json} (h : (key,x) ∈ fields) :
      HasKey key (.obj fields)
  | field {fields : List (String × Json)} {k : String} {x : Json} (h : (k,x) ∈ fields)
      (hx : HasKey key x) : HasKey key (.obj fields)
  | item {items : List Json} {x : Json} (h : x ∈ items) (hx : HasKey key x) :
      HasKey key (.arr items)

namespace Execution
open RunState

section Credentials

theorem items_contain {items : List Json} {x : Json} (h : x ∈ items)
    (hx : containsRunCredentials x = true) : itemsContainRunCredentials items = true := by
  induction items with
  | nil => exact absurd h List.not_mem_nil
  | cons y ys ih =>
    rw [itemsContainRunCredentials, Bool.or_eq_true]
    rcases List.mem_cons.mp h with rfl|h
    · exact .inl hx
    · exact .inr (ih h)

theorem fields_contain {fields : List (String × Json)} {k : String} {x : Json} (h : (k,x) ∈ fields)
    (hx : runCredentialKeys.contains k = true ∨ containsRunCredentials x = true) :
    fieldsContainRunCredentials fields = true := by
  induction fields with
  | nil => exact absurd h List.not_mem_nil
  | cons y ys ih =>
    obtain ⟨j,y⟩ := y
    rw [fieldsContainRunCredentials, Bool.or_eq_true, Bool.or_eq_true]
    rcases List.mem_cons.mp h with heq|h
    · cases heq
      exact .inl hx
    · exact .inr (ih h)

theorem credential_found {key : String} (hkey : key ∈ runCredentialKeys) {v : Json}
    (h : v.HasKey key) : containsRunCredentials v = true := by
  induction h with
  | here h => exact fields_contain h (.inl (by simpa using hkey))
  | field h _ ih => exact fields_contain h (.inr ih)
  | item h _ ih => exact items_contain h ih

def Uncredentialed (v : Json) : Prop := ∀ key ∈ runCredentialKeys, ¬ v.HasKey key

theorem uncredentialed_of_search {v : Json} (h : containsRunCredentials v = false) :
    Uncredentialed v := by
  intro key hkey hv
  rw [credential_found hkey hv] at h
  cases h

end Credentials

structure ToolObservation.Trusted (o : ToolObservation) : Prop where
  succeeded : o.status = .succeeded
  builtin : ∃ family effects, resumableTools o.toolName = some (family,effects) ∧
    o.toolIdentity = some ⟨"suiteharness",o.toolName,"suiteharness.builtin." ++ family,"1"⟩
  result : Uncredentialed o.result
  arguments : ∀ v, o.arguments = some v → Uncredentialed v

/-- Whatever the registry holds, an observation that passes is a trusted one. -/
theorem trusted_of_safe {tools : String → Option RegisteredTool} {o : ToolObservation}
    (h : safeObservation tools o = true) : o.Trusted := by
  simp only [safeObservation, Bool.and_eq_true, decide_eq_true_eq, Option.any_eq_true] at h
  obtain ⟨⟨hstatus,hsafe⟩,reg,hreg,⟨hid,hresult⟩,harguments⟩ := h
  simp only [safeRegistration, hreg, Option.any_some, trustedRegistration] at hsafe
  refine ⟨hstatus,?_,uncredentialed_of_search (by simpa using hresult),fun v hv => ?_⟩
  · split at hsafe
    · cases hsafe
    · rename_i family effects hname
      simp only [Bool.and_eq_true, decide_eq_true_eq] at hsafe
      exact ⟨family,effects,hname,hid.trans (congrArg some hsafe.1.2)⟩
  · exact uncredentialed_of_search (by simpa [hv] using harguments)

structure RunResumeState.Publishable (r : RunResumeState) : Prop where
  observations : ∀ o ∈ r.observations, o.Trusted
  calls : r.observations.length = r.toolCallsUsed
  callIds : r.callIds.Perm (r.observations.map (fun o => o.callId))
  workflowState : Uncredentialed r.workflowState

section Tasks

def TaskPhase.Truthful (intent : ToolIntent) (duplicate : Bool) : TaskPhase → Prop
  | .observed o | .done o =>
    o.callId = intent.callId ∧ (duplicate = true → o.status ≠ .succeeded)
  | .waiting | .denying _ _ _ _ | .failing _ _ _ _ | .dead => True
  | _ => duplicate = false

variable {cfg : RunnerConfig} {request : RunRequest} {amb : Ambient} {tag : CallTag}
  {intent : ToolIntent} {duplicate : Bool} {phase : TaskPhase} {reply : TaskAnswer} {r : TaskStep}

theorem emit_then_next {event : AuditEvent} {ok : Bool} {next : Option TaskPhase}
    {before : List Event} {p : TaskPhase} (h : (emitThen event ok next before).next = some p) :
    next = some p := by
  rcases emit_then_cases event ok next before with he|he
  · rwa [he] at h
  · rw [he] at h
    cases h

theorem failed_truthful {status : ToolCallStatus} {code : FailureCode} {message : String}
    {i : ℕ} {a b : ℤ} {p : TaskPhase} (hstatus : status ≠ .succeeded)
    (h : (failedObservation intent i status code message a b).map TaskPhase.observed = some p) :
    p.Truthful intent duplicate := by
  obtain ⟨o,ho,rfl⟩ := Option.map_eq_some_iff.mp h
  unfold failedObservation at ho
  split_ifs at ho
  cases ho
  exact ⟨rfl,fun _ => hstatus⟩

theorem after_result_truthful (reg : RegisteredTool) (grant : CapabilityGrant) (value : Json)
    (a : ℤ) : (afterResult cfg amb intent a reg grant value).Truthful intent false := by
  unfold afterResult
  split
  · trivial
  · split_ifs
    · trivial
    · rfl
    · rfl

theorem task_step_truthful (h : phase.Truthful intent duplicate)
    (hr : taskStep cfg request amb tag intent duplicate phase reply = some r) :
    (r.next.getD .dead).Truthful intent duplicate := by
  cases hn : r.next with
  | none => trivial
  | some next =>
    rw [Option.getD_some]
    cases phase with
    | waiting =>
      rcases (waiting_step hr).2 next hn with hspent|⟨hfresh,rfl,-⟩
      · -- a refused look-up goes to a denial
        cases reply <;> simp only [taskStep, reduceCtorEq] at hr
        split at hr
        · cases hr
          cases hn
        · cases hr
          have hnext := emit_then_next hn
          split_ifs at hnext <;> cases hnext <;> trivial
      · exact hfresh
    | granting startedAt registered =>
      have hfresh : duplicate = false := h
      cases reply <;> simp only [taskStep, reduceCtorEq] at hr
      split at hr
      · cases hr
        cases hn
        trivial
      · split at hr
        · cases hr
          cases hn
          trivial
        · cases hr
          cases hn
        · cases hr
          cases hn
          split_ifs <;> exact hfresh
    | approving startedAt reg grant =>
      have hfresh : duplicate = false := h
      cases reply <;> simp only [taskStep, reduceCtorEq] at hr
      split at hr
      · cases hr
        cases hn
        trivial
      · cases hr
        cases hn
        exact hfresh
    | starting startedAt reg grant approvedBy =>
      obtain ⟨rfl,-⟩ := (starting_step hr).2 next hn
      exact h
    | announcing startedAt reg grant =>
      rcases announcing_step hr with rfl|⟨announced,-,rfl⟩
      · cases hn
      · cases hn
        exact h
    | running startedAt reg grant =>
      have hfresh : duplicate = false := h
      subst hfresh
      cases reply <;> simp only [taskStep, reduceCtorEq] at hr
      rename_i answer
      cases hr
      cases hn
      cases answer with
      | returned value => exact after_result_truthful reg grant value startedAt
      | nonJson | denied | raised => trivial
    | storing startedAt reg value =>
      cases reply <;> simp only [taskStep, reduceCtorEq] at hr
      rename_i reference
      cases hr
      cases hn
      cases reference with
      | none => trivial
      | some reference => exact h
    | finishing startedAt reg result =>
      have hfresh : duplicate = false := h
      cases reply <;> simp only [taskStep, reduceCtorEq] at hr
      cases hr
      have hnext := emit_then_next hn
      by_cases hlate : amb.now < startedAt
      · rw [if_pos hlate] at hnext
        cases hnext
      rw [if_neg hlate] at hnext
      cases hnext
      exact ⟨rfl,fun hdup => absurd hdup (by simp [hfresh])⟩
    | denying startedAt code message identity | failing startedAt code message identity =>
      cases reply <;> simp only [taskStep, reduceCtorEq] at hr
      cases hr
      refine failed_truthful ?_ (emit_then_next hn)
      simp
    | observed o =>
      cases reply <;> simp only [taskStep, reduceCtorEq] at hr
      split_ifs at hr
      · cases hr
        cases hn
        exact h
      · cases hr
        cases hn
    | done o | dead => cases reply <;> simp only [taskStep, reduceCtorEq] at hr

end Tasks

section Flags

/-- A batch without a repeated id adds its ids to the used ones. -/
theorem flag_duplicates_perm {ids : List String} {intents : List ToolIntent}
    (h : ∀ f ∈ (flagDuplicates ids intents).1, f.2 = false) :
    (flagDuplicates ids intents).2.Perm (ids++intents.map (fun i => i.callId)) := by
  induction intents generalizing ids with
  | nil => simp [flagDuplicates]
  | cons intent rest ih =>
    simp only [flagDuplicates] at h ⊢
    have hhead : intent.callId ∉ ids := by simpa using h _ List.mem_cons_self
    have hrest := ih (fun f hf => h f (List.mem_cons_of_mem _ hf))
    rw [List.insert_of_not_mem hhead] at hrest ⊢
    rw [List.map_cons]
    exact hrest.trans List.perm_middle.symm

theorem flag_duplicates_intents (ids : List String) (intents : List ToolIntent) :
    (flagDuplicates ids intents).1.map (fun f => f.1) = intents := by
  induction intents generalizing ids with
  | nil => rfl
  | cons intent rest ih => simp [flagDuplicates, ih]

end Flags

section Runs
variable {l : Launch} {amb : Ambient} {answer : Answer} {s s' : RunState}
  {pool pool' : AggregateRunBudget}

def RunState.Tidy (s : RunState) : Prop :=
  (∀ o ∈ s.observations, o.Trusted) ∧ s.observations.length = s.toolCallsUsed ∧
    s.callIds.Perm (s.observations.map (fun o => o.callId))

structure RunState.Between (s : RunState) (i : ℕ) : Prop where
  positive : 1 ≤ i
  tidy : s.checkpointSafe = true → s.Tidy
  pending : s.checkpointPending.isSome = true → s.checkpointSafe = true
  first : i = 1 → s.checkpointSafe = true

structure RunState.InBatch (s : RunState) (i : ℕ) (tasks : List Task) : Prop where
  positive : 1 ≤ i
  truthful : ∀ t ∈ tasks, t.phase.Truthful t.intent t.duplicate
  ready : s.checkpointSafe = true → (∀ o ∈ s.observations, o.Trusted) ∧
    s.toolCallsUsed = s.observations.length+tasks.length ∧
    ∃ ids, ids.Perm (s.observations.map (fun o => o.callId)) ∧
      flagDuplicates ids (tasks.map (fun t => t.intent)) =
        (tasks.map (fun t => (t.intent,t.duplicate)),s.callIds)

def RunState.Sound (s : RunState) : Prop :=
  match s.phase with
  | .begin | .opened | .charging _ => s.Tidy ∧ s.checkpointSafe = true ∧ s.checkpointPending = none
  | .iteration i | .granting i | .prompting i _ | .deciding i _ | .reviewing i _ _
  | .recording i _ | .admitting i _ => s.Between i
  | .checkpointing i _ resume => s.Between i ∧ resume.Publishable
  | .batch i _ tasks _ => s.InBatch i tasks
  | .overflowing _ _ | .finishing _ | .returned _ | .ended _ => True

theorem sound_closing (h : s.phase.closing = true) : s.Sound := by
  unfold Sound
  cases hp : s.phase <;> simp_all [Phase.closing]

variable {e : Event} {i k : ℕ} {observations : List ToolObservation} {resume : RunResumeState}
  {tasks : List Task}

theorem sound_thinking (h : s.phase.thinking i) : s.Sound ↔ s.Between i := by
  unfold Sound
  cases hp : s.phase <;> rw [hp] at h <;> simp_all [Phase.thinking]

theorem resumed_tidy {grant : CapabilityGrant}
    (h : validResume l.cfg l.request amb grant resume = true) :
    (∀ o ∈ resume.observations, o.Trusted) ∧ resume.observations.length = resume.toolCallsUsed ∧
      resume.callIds.dedup.Perm (resume.observations.map (fun o => o.callId)) := by
  simp only [validResume, Bool.and_eq_true, decide_eq_true_eq, List.all_eq_true] at h
  obtain ⟨⟨⟨⟨⟨⟨-,hcalls⟩,hnodup⟩,hsame⟩,hlength⟩,-⟩,hreusable⟩ := h
  refine ⟨fun o ho => ?_,hcalls.symm,?_⟩
  · have hsafe := hreusable o ho
    rw [reusableObservation, Bool.and_eq_true, Bool.and_eq_true] at hsafe
    exact trusted_of_safe hsafe.1.1
  · rw [hnodup.dedup]
    refine List.perm_of_nodup_nodup_toFinset_eq hnodup ?_ hsame
    rw [← Multiset.coe_nodup, ← Multiset.toFinset_card_eq_card_iff_nodup]
    show (resume.observations.map (fun o => o.callId)).toFinset.card =
      (resume.observations.map (fun o => o.callId)).length
    rw [← hsame, List.toFinset_card_of_nodup hnodup, hlength, List.length_map]

theorem plan_publish {digest : Digest} {route : Option String}
    (h : s.planCheckpoint l.cfg l.request digest route k = .publish resume) :
    containsRunCredentials s.workflowState = false ∧
      resume.workflowState = s.workflowState ∧ resume.observations = s.observations ∧
      resume.toolCallsUsed = s.toolCallsUsed ∧
      resume.callIds = s.callIds.insertionSort (· ≤ ·) := by
  unfold planCheckpoint at h
  split_ifs at h with hmany hcredentials
  cases route with
  | none => cases h
  | some key =>
    simp only at h
    split_ifs at h
    split at h
    · cases h
    · split_ifs at h
      cases h
      exact ⟨by simpa using hcredentials,rfl,rfl,rfl,rfl⟩

theorem publishable_of_tidy {digest : Digest} {route : Option String} (h : s.Tidy)
    (hplan : s.planCheckpoint l.cfg l.request digest route k = .publish resume) :
    resume.Publishable := by
  obtain ⟨hfree,hstate,hobservations,hcalls,hids⟩ := plan_publish hplan
  refine ⟨?_,?_,?_,?_⟩
  · rw [hobservations]
    exact h.1
  · rw [hobservations, hcalls]
    exact h.2.1
  · rw [hids, hobservations]
    exact (List.perm_insertionSort _ _).trans h.2.2
  · rw [hstate]
    exact uncredentialed_of_search hfree

theorem map_set_same {α β : Type*} {f : α → β} {xs : List α} {x y : α} (hk : xs[k]? = some x)
    (hf : f y = f x) : (xs.set k y).map f = xs.map f := by
  obtain ⟨hlt,rfl⟩ := List.getElem?_eq_some_iff.mp hk
  rw [List.map_set, hf]
  refine List.ext_getElem? (fun j => ?_)
  by_cases hj : k = j
  · subst hj
    rw [List.getElem?_set_self (by simpa using hlt), List.getElem?_map,
      List.getElem?_eq_getElem hlt, Option.map_some]
  · rw [List.getElem?_set_ne hj]

/-- A step of one task keeps what the batch was flagged with. -/
theorem RunState.InBatch.set {t : Task} {p : TaskPhase} (h : s.InBatch i tasks)
    (hk : tasks[k]? = some t) (hp : p.Truthful t.intent t.duplicate) :
    s.InBatch i (tasks.set k { t with phase := p }) where
  positive := h.positive
  truthful := by
    intro u hu
    rcases List.mem_or_eq_of_mem_set hu with hu|rfl
    · exact h.truthful u hu
    · exact hp
  ready := by
    intro hsafe
    have hintents : (tasks.set k { t with phase := p }).map (fun t => t.intent) =
        tasks.map (fun t => t.intent) := map_set_same hk rfl
    have hflags : (tasks.set k { t with phase := p }).map (fun t => (t.intent,t.duplicate)) =
        tasks.map (fun t => (t.intent,t.duplicate)) := map_set_same hk rfl
    rw [List.length_set, hintents, hflags]
    exact h.ready hsafe

theorem mapM_some {α β : Type*} {f : α → Option β} {xs : List α} {ys : List β}
    (h : xs.mapM f = some ys) : xs.map f = ys.map some := by
  induction xs generalizing ys with
  | nil =>
    cases h
    rfl
  | cons x xs ih =>
    simp only [List.mapM_cons, Option.bind_eq_bind, Option.bind_eq_some_iff] at h
    obtain ⟨y,hy,zs,hzs,hpure⟩ := h
    cases hpure
    rw [List.map_cons, List.map_cons, hy, ih hzs]

theorem result_done {t : Task} {o : ToolObservation} (h : t.result = some o) :
    t.phase = .done o := by
  unfold Task.result at h
  split at h
  · cases h
    assumption
  · cases h

theorem batch_ids (htruthful : ∀ t ∈ tasks, t.phase.Truthful t.intent t.duplicate)
    (ho : tasks.map Task.result = observations.map some)
    (hsucceeded : ∀ o ∈ observations, o.status = .succeeded) :
    (∀ t ∈ tasks, t.duplicate = false) ∧
      tasks.map (fun t => t.intent.callId) = observations.map (fun o => o.callId) := by
  induction tasks generalizing observations with
  | nil =>
    cases observations with
    | nil => exact ⟨fun t ht => absurd ht List.not_mem_nil,rfl⟩
    | cons o os => cases ho
  | cons t tasks ih =>
    cases observations with
    | nil => cases ho
    | cons o os =>
      obtain ⟨hhead,hrest⟩ := List.cons.inj ho
      have htask := htruthful t List.mem_cons_self
      rw [result_done hhead] at htask
      obtain ⟨hfresh,hids⟩ := ih (fun u hu => htruthful u (List.mem_cons_of_mem _ hu)) hrest
        (fun u hu => hsucceeded u (List.mem_cons_of_mem _ hu))
      have hnew : t.duplicate = false := by
        by_contra hdup
        exact htask.2 (by simpa using hdup) (hsucceeded o List.mem_cons_self)
      refine ⟨fun u hu => ?_,?_⟩
      · rcases List.mem_cons.mp hu with rfl|hu
        · exact hnew
        · exact hfresh u hu
      · rw [List.map_cons, List.map_cons, hids, htask.1]

/-- A batch whose observations all pass leaves the run tidy. -/
theorem gathered_tidy (h : s.InBatch i tasks) (hsafe : s.checkpointSafe = true)
    (ho : tasks.mapM Task.result = some observations)
    (hall : observations.all (safeObservation amb.tools) = true) :
    (∀ o ∈ s.observations++observations, o.Trusted) ∧
      (s.observations++observations).length = s.toolCallsUsed ∧
      s.callIds.Perm ((s.observations++observations).map (fun o => o.callId)) := by
  obtain ⟨htrusted,hcalls,ids,hids,hflagged⟩ := h.ready hsafe
  have hmap := mapM_some ho
  have hnew : ∀ o ∈ observations, o.Trusted := fun o hmem =>
    trusted_of_safe (List.all_eq_true.mp hall o hmem)
  obtain ⟨hfresh,hcallIds⟩ := batch_ids h.truthful hmap (fun o hmem => (hnew o hmem).succeeded)
  have hlength : tasks.length = observations.length := by
    simpa using congrArg List.length hmap
  refine ⟨fun o hmem => ?_,?_,?_⟩
  · rcases List.mem_append.mp hmem with hmem|hmem
    · exact htrusted o hmem
    · exact hnew o hmem
  · rw [List.length_append, hcalls, hlength]
  · have hperm : s.callIds.Perm (ids++(tasks.map (fun t => t.intent)).map (fun i => i.callId)) := by
      have hflags := @flag_duplicates_perm ids (tasks.map (fun t => t.intent))
      rw [hflagged] at hflags
      refine hflags (fun f hf => ?_)
      obtain ⟨t,ht,rfl⟩ := List.mem_map.mp hf
      exact hfresh t ht
    rw [List.map_map] at hperm
    have hcomp : tasks.map ((fun i : ToolIntent => i.callId) ∘ fun t => t.intent) =
        observations.map (fun o => o.callId) := hcallIds
    rw [hcomp] at hperm
    rw [List.map_append]
    exact hperm.trans (hids.append_right _)

theorem between_of_tidy (hi : 1 ≤ i) (h : s.Tidy) (hsafe : s.checkpointSafe = true) : s.Between i :=
  ⟨hi,fun _ => h,fun _ => hsafe,fun _ => hsafe⟩

theorem sound_move (hm : Move l amb answer s pool s' pool') (h : s.Sound) : s'.Sound := by
  cases hm with
  | closed hc _ => exact sound_closing hc.phase
  | opened hp | charged hp =>
    rw [Sound, hp] at h
    exact h
  | resumed hp _ _ _ hv =>
    rw [Sound, hp] at h
    exact ⟨resumed_tidy hv,h.2⟩
  | started hp =>
    rw [Sound, hp] at h
    exact between_of_tidy (le_refl 1) h.1 h.2.1
  | inherited hp =>
    rw [Sound, hp] at h
    exact between_of_tidy (Nat.le_add_left 1 _) h.1 h.2.1
  | began hp | framed hp =>
    rw [Sound, hp] at h
    exact ⟨h.positive,h.tidy,h.pending,h.first⟩
  | presented hp =>
    rw [Sound, hp] at h
    exact ⟨h.positive,h.tidy,nofun,h.first⟩
  | planned hp hk hplan =>
    rw [Sound, hp] at h
    refine ⟨⟨h.positive,h.tidy,nofun,h.first⟩,?_⟩
    have hsafe : s.checkpointSafe = true := by
      rcases hk with ⟨hfirst,-,-⟩|hpending
      · exact h.first hfirst
      · exact h.pending (by rw [hpending]; rfl)
    exact publishable_of_tidy (h.tidy hsafe) hplan
  | checkpointed hp =>
    rw [Sound, hp] at h
    exact ⟨h.1.positive,h.1.tidy,h.1.pending,h.1.first⟩
  | thought hp hp' _ =>
    have hbetween := (sound_thinking hp).mp h
    refine (sound_thinking hp').mpr ?_
    exact ⟨hbetween.positive,hbetween.tidy,hbetween.pending,hbetween.first⟩
  | batched hp hpool hcount =>
    rw [Sound, hp] at h
    rename_i i count decision
    have hintents : ((flagDuplicates s.callIds (decision.intents.take count)).1.map
        (fun f : ToolIntent × Bool => (⟨f.1,f.2,.waiting⟩ : Task))).map (fun t => t.intent) =
        decision.intents.take count := by
      rw [List.map_map]
      exact flag_duplicates_intents _ _
    refine ⟨h.positive,fun t ht => ?_,fun hsafe => ?_⟩
    · obtain ⟨f,-,rfl⟩ := List.mem_map.mp ht
      trivial
    · obtain ⟨htrusted,hcalls,hids⟩ := h.tidy hsafe
      refine ⟨htrusted,?_,s.callIds,hids,?_⟩
      · have hlength := congrArg List.length (flag_duplicates_intents s.callIds
          (decision.intents.take count))
        rw [List.length_map] at hlength ⊢
        rw [hlength]
        exact congrArg (· + (decision.intents.take count).length) hcalls.symm
      · rw [hintents, List.map_map]
        refine Prod.ext ?_ rfl
        exact (List.map_id _).symm
  | idle hp =>
    rw [Sound, hp] at h
    refine ⟨Nat.le_add_left 1 _,h.tidy,fun hs => ?_,fun hfirst => ?_⟩
    · by_contra hrisky
      simp [hrisky] at hs
    · have := h.positive
      omega
  | tasked hp ha hk hr =>
    rw [Sound, hp] at h
    have hset := h.set hk (task_step_truthful (h.truthful _ (List.mem_of_getElem? hk)) hr)
    exact ⟨hset.positive,hset.truthful,hset.ready⟩
  | killed hp hk =>
    rw [Sound, hp] at h
    have hset := h.set hk (show TaskPhase.Truthful _ _ .dead from trivial)
    exact ⟨hset.positive,hset.truthful,hset.ready⟩
  | aborted hp =>
    rw [Sound, hp] at h
    exact ⟨h.positive,h.truthful,h.ready⟩
  | gathered hp ho _ =>
    rw [Sound, hp] at h
    refine ⟨Nat.le_add_left 1 _,fun hsafe => ?_,fun hs => ?_,fun hfirst => ?_⟩
    · simp only [Bool.and_eq_true] at hsafe
      exact gathered_tidy h hsafe.1.1 ho hsafe.1.2
    · by_contra hrisky
      simp only [Bool.not_eq_true] at hrisky
      simp only [hrisky] at hs
      cases hs
    · have := h.positive
      omega

theorem run_sound (l : Launch) (inputs : List Input) : (l.run inputs).Sound :=
  l.run_invariant RunState.Sound
    ⟨⟨fun _ h => absurd h List.not_mem_nil,rfl,List.Perm.refl _⟩,rfl,rfl⟩
    (fun _ _ _ _ _ _ hs hm => sound_move hm hs) inputs

def Event.Allowed : Event → Prop
  | .checkpoint resume => resume.Publishable
  | .published kind _ => kind ≠ "checkpoint"
  | _ => True

theorem plain_allowed (h : e.plain = true) : e.Allowed := by
  cases e <;> simp_all [Event.plain, Event.Allowed]

theorem CallEvent.allowed {tag : CallTag} {intent : ToolIntent} (h : CallEvent amb tag intent e) :
    e.Allowed := by
  cases h with
  | plain h => exact plain_allowed h
  | lookedUp | granted | rechecked | policy | approved | invoked => trivial

theorem move_appends (hm : Move l amb answer s pool s' pool') (h : s.Sound) :
    ∃ es, s'.log = s.log++es ∧ ∀ e ∈ es, e.Allowed := by
  cases hm with
  | closed hc _ =>
    obtain ⟨es,hlog,⟨hplain,-⟩|⟨r,-,rfl,-⟩⟩ := hc.log
    · exact ⟨es,hlog,fun e he => plain_allowed (hplain e he)⟩
    · exact ⟨_,hlog,by simp [Event.Allowed]⟩
  | opened | began | presented => exact ⟨[_],rfl,by simp [Event.Allowed]⟩
  | checkpointed hp =>
    rw [Sound, hp] at h
    refine ⟨[_,_],List.append_assoc _ _ _,fun e he => ?_⟩
    rcases List.mem_pair.mp he with rfl|rfl
    · exact h.2
    · trivial
  | thought hp hp' hes => exact ⟨_,rfl,fun e he => plain_allowed (hes e he)⟩
  | batched =>
    refine ⟨_,rfl,fun e he => ?_⟩
    obtain ⟨k,hk,rfl⟩ := List.mem_mapIdx.mp he
    trivial
  | tasked hp ha hk hr => exact ⟨_,rfl,fun e he => (task_step_events hr e he).allowed⟩
  | resumed | started | charged | inherited | framed | planned | idle | killed | aborted |
    gathered => exact ⟨[],(List.append_nil _).symm,fun e he => absurd he List.not_mem_nil⟩

theorem run_allowed (l : Launch) (inputs : List Input) :
    ∀ e ∈ (l.run inputs).log, e.Allowed := by
  refine (l.run_invariant (fun s => s.Sound ∧ ∀ e ∈ s.log, e.Allowed) ?_ ?_ inputs).2
  · exact ⟨run_sound l [],fun e he => absurd he List.not_mem_nil⟩
  · rintro amb answer s pool s' pool' ⟨hsound,hlog⟩ hm
    obtain ⟨es,hes,hallowed⟩ := move_appends hm hsound
    refine ⟨sound_move hm hsound,fun e he => ?_⟩
    rw [hes] at he
    rcases List.mem_append.mp he with he|he
    · exact hlog e he
    · exact hallowed e he

def Event.checkpoint? : Event → Option RunResumeState
  | .checkpoint resume => some resume
  | _ => none

def checkpoints (log : List Event) : List RunResumeState := log.filterMap Event.checkpoint?

def Task.Spoiling (t : Task) : Prop :=
  unsafeIntent t.intent = true ∨ ∃ o, t.phase = .done o ∧ ¬ o.Trusted

def RunState.Spoils (s : RunState) (x : Input) : Prop :=
  (∃ i refused, s.phase = .overflowing i refused) ∨
  ∃ i overflow tasks abort, s.phase = .batch i overflow tasks abort ∧
    (overflow ≠ [] ∨ (∃ t ∈ tasks, t.Spoiling) ∨
      (x.answer = .gathered ∧ ∃ observations, tasks.mapM Task.result = some observations ∧
        observations.all (safeObservation x.amb.tools) = false))

def RunState.Barred (s : RunState) : Prop :=
  match s.phase with
  | .begin | .opened | .charging _ | .checkpointing _ _ _ => False
  | .iteration i | .granting i | .prompting i _ | .deciding i _ | .reviewing i _ _
  | .recording i _ | .admitting i _ =>
    2 ≤ i ∧ s.checkpointSafe = false ∧ s.checkpointPending = none
  | .batch i overflow tasks abort => 1 ≤ i ∧
    (s.checkpointSafe = false ∨ overflow ≠ [] ∨ abort ≠ none ∨ ∃ t ∈ tasks, t.Spoiling)
  | .overflowing _ _ | .finishing _ | .returned _ | .ended _ => True

theorem barred_closing (h : s.phase.closing = true) : s.Barred := by
  unfold Barred
  cases hp : s.phase <;> simp_all [Phase.closing]

theorem barred_thinking (h : s.phase.thinking i) :
    s.Barred ↔ 2 ≤ i ∧ s.checkpointSafe = false ∧ s.checkpointPending = none := by
  unfold Barred
  cases hp : s.phase <;> rw [hp] at h <;> simp_all [Phase.thinking]

theorem checkpoints_told {log es : List Event} (h : ∀ e ∈ es, e.checkpoint? = none) :
    checkpoints (log++es) = checkpoints log := by
  rw [checkpoints, List.filterMap_append, List.filterMap_eq_nil_iff.mpr h, List.append_nil]
  rfl

theorem told_no_checkpoint (h : e.told = true) : e.checkpoint? = none := by
  cases e <;> simp_all [Event.told, Event.checkpoint?]

theorem CallEvent.no_checkpoint {tag : CallTag} {intent : ToolIntent}
    (h : CallEvent amb tag intent e) : e.checkpoint? = none := by
  cases h with
  | plain h => exact told_no_checkpoint (plain_told h)
  | lookedUp | granted | rechecked | policy | approved | invoked => rfl

theorem move_checkpoints (hm : Move l amb answer s pool s' pool') :
    (∃ i frame resume, s.phase = .checkpointing i frame resume) ∨
      checkpoints s'.log = checkpoints s.log := by
  cases hm with
  | checkpointed hp => exact .inl ⟨_,_,_,hp⟩
  | closed hc _ =>
    obtain ⟨es,htold,hlog⟩ := hc.told
    rw [hlog]
    exact .inr (checkpoints_told (fun e he => told_no_checkpoint (htold e he)))
  | opened | began | presented => exact .inr (checkpoints_told (by simp [Event.checkpoint?]))
  | thought hp hp' hes =>
    exact .inr (checkpoints_told (fun e he => told_no_checkpoint (plain_told (hes e he))))
  | batched =>
    refine .inr (checkpoints_told (fun e he => ?_))
    obtain ⟨k,hk,rfl⟩ := List.mem_mapIdx.mp he
    rfl
  | tasked hp ha hk hr =>
    exact .inr (checkpoints_told (fun e he => (task_step_events hr e he).no_checkpoint))
  | resumed | started | charged | inherited | framed | planned | idle | killed | aborted |
    gathered => exact .inr rfl

/-- A finished call takes no further step, so a spoiling one stays. -/
theorem spoiling_set {t : Task} {p : TaskPhase} (hk : tasks[k]? = some t)
    (hopen : ∀ o, t.phase ≠ .done o) (h : ∃ u ∈ tasks, u.Spoiling) :
    ∃ u ∈ tasks.set k { t with phase := p }, u.Spoiling := by
  obtain ⟨u,hu,hspoils⟩ := h
  obtain ⟨j,hj,rfl⟩ := List.getElem_of_mem hu
  have hjset : j < (tasks.set k { t with phase := p }).length := by rwa [List.length_set]
  refine ⟨_,List.getElem_mem hjset,?_⟩
  by_cases hkj : k = j
  · subst hkj
    rw [List.getElem_set_self]
    rw [List.getElem?_eq_getElem hj] at hk
    cases hk
    rcases hspoils with hintent|⟨o,ho,-⟩
    · exact .inl hintent
    · exact absurd ho (hopen o)
  · rw [List.getElem_set_ne hkj]
    exact hspoils

theorem spoiling_unsafe (ho : tasks.mapM Task.result = some observations)
    (h : ∃ t ∈ tasks, t.Spoiling) :
    (observations.all (safeObservation amb.tools) &&
      !(tasks.map (fun t => t.intent)).any unsafeIntent) = false := by
  obtain ⟨t,ht,hintent|⟨o,hphase,huntrusted⟩⟩ := h
  · have hany : (tasks.map (fun t => t.intent)).any unsafeIntent = true :=
      List.any_eq_true.mpr ⟨t.intent,List.mem_map_of_mem ht,hintent⟩
    rw [hany, Bool.not_true, Bool.and_false]
  · have hmem : o ∈ observations := by
      have hresult : t.result = some o := by rw [Task.result, hphase]
      have hsome : some o ∈ observations.map some :=
        mapM_some ho ▸ List.mem_map.mpr ⟨t,ht,hresult⟩
      obtain ⟨o',ho',heq⟩ := List.mem_map.mp hsome
      exact Option.some.inj heq ▸ ho'
    have hall : observations.all (safeObservation amb.tools) = false := by
      by_contra hsafe
      rw [Bool.not_eq_false, List.all_eq_true] at hsafe
      exact huntrusted (trusted_of_safe (hsafe o hmem))
    rw [hall, Bool.false_and]

theorem barred_move (hm : Move l amb answer s pool s' pool') (h : s.Barred) :
    s'.Barred ∧ checkpoints s'.log = checkpoints s.log := by
  refine ⟨?_,(move_checkpoints hm).resolve_left ?_⟩
  · cases hm with
    | closed hc _ => exact barred_closing hc.phase
    | opened hp | resumed hp | started hp | charged hp | inherited hp | checkpointed hp =>
      rw [Barred, hp] at h
      exact absurd h id
    | began hp | framed hp =>
      rw [Barred, hp] at h
      exact h
    | presented hp =>
      rw [Barred, hp] at h
      exact ⟨h.1,h.2.1,rfl⟩
    | planned hp hk _ =>
      rw [Barred, hp] at h
      rcases hk with ⟨hfirst,-,-⟩|hpending
      · omega
      · rw [h.2.2] at hpending
        cases hpending
    | thought hp hp' _ => exact (barred_thinking hp').mpr ((barred_thinking hp).mp h)
    | batched hp =>
      rw [Barred, hp] at h
      exact ⟨by omega,.inl h.2.1⟩
    | idle hp =>
      rw [Barred, hp] at h
      exact ⟨by omega,h.2.1,if_neg (by simp [h.2.1])⟩
    | tasked hp ha hk hr =>
      rw [Barred, hp] at h
      refine ⟨h.1,?_⟩
      rcases h.2 with hrisky|hoverflow|habort|hspoils
      · exact .inl hrisky
      · exact .inr (.inl hoverflow)
      · refine .inr (.inr (.inl ?_))
        split_ifs
        · exact habort
        · exact fun hnone => habort (Option.or_eq_none_iff.mp hnone).1
      · refine .inr (.inr (.inr (spoiling_set hk (fun o ho => ?_) hspoils)))
        rw [ho] at hr
        rename_i reply _
        cases reply <;> cases hr
    | killed hp _ | aborted hp =>
      rw [Barred, hp] at h
      exact ⟨h.1,.inr (.inr (.inl (fun hnone => nomatch (Option.or_eq_none_iff.mp hnone).2)))⟩
    | gathered hp ho hi =>
      rw [Barred, hp] at h
      rename_i tasks observations
      have hcleared : (s.checkpointSafe && observations.all (safeObservation amb.tools) &&
          !(tasks.map (fun t => t.intent)).any unsafeIntent) = false := by
        rcases h.2 with hrisky|hoverflow|habort|hspoils
        · rw [hrisky, Bool.false_and, Bool.false_and]
        · exact absurd rfl hoverflow
        · exact absurd rfl habort
        · rw [Bool.and_assoc, spoiling_unsafe ho hspoils, Bool.and_false]
      refine ⟨Nat.succ_le_succ h.1,hcleared,?_⟩
      show (if _ then _ else _) = _
      rw [hcleared]
      rfl
  · rintro ⟨i,frame,resume,hp⟩
    rw [Barred, hp] at h
    exact h

/-- Calls that do not pass, or are refused, bar the run once the step is taken. -/
theorem spoils_move {x : Input} (hsound : s.Sound) (h : s.Spoils x) :
    (l.move s x.pool x.amb x.answer).1.Barred ∧
      checkpoints (l.move s x.pool x.amb x.answer).1.log = checkpoints s.log := by
  have hkeeps : s.Barred → (l.move s x.pool x.amb x.answer).1.Barred ∧
      checkpoints (l.move s x.pool x.amb x.answer).1.log = checkpoints s.log := by
    intro hbarred
    rcases l.move_cases s x.pool x.amb x.answer with hsame|hm
    · rw [hsame]
      exact ⟨hbarred,rfl⟩
    · exact barred_move hm hbarred
  obtain ⟨i,refused,hp⟩ | ⟨i,overflow,tasks,abort,hp,hspoils⟩ := h
  · refine hkeeps ?_
    rw [Barred, hp]
    trivial
  have hbatch := hsound
  rw [Sound, hp] at hbatch
  rcases hspoils with hoverflow|hspoils|⟨hanswer,observations,ho,hrisky⟩
  · refine hkeeps ?_
    rw [Barred, hp]
    exact ⟨hbatch.positive,.inr (.inl hoverflow)⟩
  · refine hkeeps ?_
    rw [Barred, hp]
    exact ⟨hbatch.positive,.inr (.inr (.inr hspoils))⟩
  · cases abort with
    | some ending =>
      refine hkeeps ?_
      rw [Barred, hp]
      exact ⟨hbatch.positive,.inr (.inr (.inl nofun))⟩
    | none =>
      -- the batch is gathered with observations that do not pass
      have hmove : (l.move s x.pool x.amb x.answer).1 = s.afterBatch l.request x.amb i
          (tasks.map (fun t => t.intent)) overflow observations := by
        simp only [Launch.move, RunState.step, hp, hanswer, gather, ho, Option.map_some,
          Option.getD_some]
      rw [hmove]
      rcases after_batch_cases s l.request x.amb i (tasks.map (fun t => t.intent)) overflow
        observations (by simp [hp]) with ⟨-,-,hnext⟩|hc
      · rw [hnext]
        have hcleared : (s.checkpointSafe && observations.all (safeObservation x.amb.tools) &&
            !(tasks.map (fun t => t.intent)).any unsafeIntent) = false := by
          rw [hrisky, Bool.and_false, Bool.false_and]
        refine ⟨⟨Nat.succ_le_succ hbatch.positive,hcleared,?_⟩,rfl⟩
        show (if _ then _ else _) = _
        rw [hcleared]
        rfl
      · obtain ⟨es,htold,hlog⟩ := hc.told
        rw [hlog]
        exact ⟨barred_closing hc.phase,
          checkpoints_told (fun e he => told_no_checkpoint (htold e he))⟩

theorem barred_run (inputs : List Input) (h : s.Barred) :
    checkpoints (Library.Machine.final (fun s (x : Input) => l.move s x.pool x.amb x.answer)
      s inputs).log = checkpoints s.log := by
  refine (Library.Machine.final_invariant _
    (fun t => t.Barred ∧ checkpoints t.log = checkpoints s.log) ?_ s inputs ⟨h,rfl⟩).2
  rintro t x ⟨hbarred,hsame⟩
  rcases l.move_cases t x.pool x.amb x.answer with hstay|hm
  · rw [hstay]
    exact ⟨hbarred,hsame⟩
  · obtain ⟨hnext,hlog⟩ := barred_move hm hbarred
    exact ⟨hnext,hlog.trans hsame⟩

end Runs

/-- In every run, whatever its strategies, tools and registry: a published
checkpoint carries nothing but trusted reads, counts them as the calls used and
records exactly their ids, and has no credential; and once a batch or a refused
call spoiled the run, no checkpoint follows. -/
theorem published_checkpoints_are_safe (l : Launch) (inputs : List Input) :
    (∀ resume, .checkpoint resume ∈ (l.run inputs).log → resume.Publishable) ∧
    (∀ data, .published "checkpoint" data ∉ (l.run inputs).log) ∧
    ∀ before x after, inputs = before++x::after → (l.run before).Spoils x →
      checkpoints (l.run inputs).log = checkpoints (l.run before).log := by
  refine ⟨fun resume h => run_allowed l inputs _ h,fun data h => run_allowed l inputs _ h rfl,?_⟩
  rintro before x after rfl hspoils
  obtain ⟨hbarred,hsame⟩ := spoils_move (run_sound l before) hspoils
  rw [Launch.run, Library.Machine.final_append]
  exact (barred_run after hbarred).trans hsame

section Sample

def resumableLaunch : Launch where
  cfg := { dumpResume := fun _ => .null }
  request := freshRequest

def readInput (answer : Answer) : Input := ⟨samplePool,ambientOf builtinRead,answer⟩

def readIteration (intent : ToolIntent) : List Input :=
  [readInput .pooled,readInput (.granted (.found sampleGrant)),
    readInput (.rendered .invalid (.key (some "route"))),readInput (.published true),
    readInput (.streamed (.decided { kind := .tools, intents := [intent] })),
    readInput (.appended true),readInput .pooled]

def readTask : List Input :=
  [readInput (.task 0 (.appended true)),readInput (.task 0 (.granted (.found sampleGrant))),
    readInput (.task 0 (.appended true)),readInput (.task 0 (.published true)),
    readInput (.task 0 (.handled (.returned (.str "text")))),readInput (.task 0 (.appended true)),
    readInput (.task 0 (.published true)),readInput .gathered]

def twoReads : List Input :=
  [readInput (.appended true),readInput (.granted (.found sampleGrant))] ++
    readIteration ⟨"call-1","suiteharness.fs.read",.obj [],none⟩ ++ readTask ++
    readIteration ⟨"call-2","suiteharness.fs.read",.obj [],some "token"⟩ ++ readTask ++
    [readInput .pooled,readInput (.granted (.found sampleGrant)),
      readInput (.rendered .invalid (.key (some "route")))]

/-- A run that publishes a checkpoint before its first batch and one after it,
and none after the second. -/
theorem two_reads_checkpointed_twice :
    ((checkpoints (resumableLaunch.run twoReads).log).map (fun r => r.callIds) = [[],["call-1"]] ∧
      (resumableLaunch.run twoReads).observations.length = 2) ∧
    ∀ resume, .checkpoint resume ∈ (resumableLaunch.run twoReads).log → resume.Publishable :=
  ⟨by decide +kernel,(published_checkpoints_are_safe resumableLaunch twoReads).1⟩

end Sample

end Execution
end SuiteHarness
