import SuiteHarness.Execution.Runner
import SuiteHarness.Library.Machine

/-!
# What a step of the run loop can do

Every step of `RunState.step` is one of the moves below. A move says which
fields change, which events are appended and what is charged to the pool; the
invariants of a run are derived from the moves and not from the step function.
-/

set_option autoImplicit false

namespace SuiteHarness.Execution

def Phase.closing : Phase → Bool
  | .overflowing _ _ | .finishing _ | .returned _ | .ended _ => true
  | _ => false

def Phase.thinking (i : ℕ) : Phase → Prop
  | .deciding j _ | .reviewing j _ _ | .recording j _ | .admitting j _ => j = i
  | _ => False

def Event.told : Event → Bool
  | .audit _ | .published _ _ => true
  | _ => false

def Event.plain : Event → Bool
  | .audit event => decide (event.type ≠ .runFinished)
  | .published kind _ => decide (kind ≠ "checkpoint")
  | _ => false

theorem plain_told {e : Event} (h : e.plain = true) : e.told = true := by
  cases e <;> simp_all [Event.plain, Event.told]

namespace RunState

structure Closes (s s' : RunState) : Prop where
  phase : s'.phase.closing = true
  log : ∃ es : List Event, s'.log = s.log ++ es ∧
    ((∀ e ∈ es, e.plain = true) ∧ (∀ r, s'.phase ≠ .returned r) ∨
      ∃ r, s.phase = .finishing r ∧ es = [.audit (finishEvent r)] ∧
        (s'.phase = .returned r ∨ s'.phase = .ended .cancelled))
  iterations : s'.iterationsUsed = s.iterationsUsed
  toolCalls : s'.toolCallsUsed = s.toolCallsUsed
  callIds : s'.callIds = s.callIds

variable {s s' : RunState}

theorem Closes.told (h : Closes s s') :
    ∃ es : List Event, (∀ e ∈ es, e.told = true) ∧ s'.log = s.log ++ es := by
  obtain ⟨es,hlog,⟨hplain,-⟩ | ⟨r,-,rfl,-⟩⟩ := h.log
  · exact ⟨es,fun e he => plain_told (hplain e he),hlog⟩
  · exact ⟨_,by simp [Event.told],hlog⟩

theorem closes_silent (hphase : s'.phase.closing = true) (hreturned : ∀ r, s'.phase ≠ .returned r)
    (hlog : s'.log = s.log) (hi : s'.iterationsUsed = s.iterationsUsed)
    (ht : s'.toolCallsUsed = s.toolCallsUsed) (hc : s'.callIds = s.callIds) : Closes s s' :=
  ⟨hphase,⟨[],by simpa using hlog,.inl ⟨by simp,hreturned⟩⟩,hi,ht,hc⟩

theorem closes_raise (s : RunState) : Closes s s.raise :=
  closes_silent rfl (by simp [raise]) rfl rfl rfl rfl

theorem closes_finish (s : RunState) (request : RunRequest) (amb : Ambient) (status : RunStatus)
    (failure : Option RunFailure) (output : Json) :
    Closes s (s.finish request amb status failure output) := by
  unfold finish
  split
  · exact closes_raise s
  · exact closes_silent rfl (by simp) rfl rfl rfl rfl

theorem closes_ended (s : RunState) (ending : Ending) :
    Closes s { s with phase := .ended ending } :=
  closes_silent rfl (by simp) rfl rfl rfl rfl

/-- Fields that `Closes` does not name may change on the way. -/
theorem Closes.after {t : RunState} (h : Closes t s') (es : List Event)
    (hplain : ∀ e ∈ es, e.plain = true) (hopen : ∀ r, t.phase ≠ .finishing r)
    (hlog : t.log = s.log ++ es) (hi : t.iterationsUsed = s.iterationsUsed)
    (ht : t.toolCallsUsed = s.toolCallsUsed) (hc : t.callIds = s.callIds) : Closes s s' := by
  obtain ⟨fs,hlog',⟨hfs,hreturned⟩ | ⟨r,hp,-,-⟩⟩ := h.log
  · refine ⟨h.phase,⟨es ++ fs,?_,.inl ⟨?_,hreturned⟩⟩,h.iterations.trans hi,h.toolCalls.trans ht,
      h.callIds.trans hc⟩
    · rw [hlog', hlog, List.append_assoc]
    · intro e he
      rcases List.mem_append.mp he with he | he
      · exact hplain e he
      · exact hfs e he
  · exact absurd hp (hopen r)

theorem Closes.emitted {event : AuditEvent} (h : Closes (s.emit (.audit event)) s')
    (hopen : ∀ r, s.phase ≠ .finishing r) (htype : event.type ≠ .runFinished) : Closes s s' :=
  h.after [.audit event] (by simp [Event.plain, htype]) hopen rfl rfl rfl rfl

end RunState

open RunState in
inductive Move (l : Launch) (amb : Ambient) (answer : Answer) (s : RunState)
    (pool : AggregateRunBudget) : RunState → AggregateRunBudget → Prop where
  | closed {s' : RunState} {pool' : AggregateRunBudget} (h : Closes s s')
      (hpool : pool' = pool ∨ ∃ n, pool' = (pool.takeToolSlots amb.expired n).1) :
      Move l amb answer s pool s' pool'
  | opened (hp : s.phase = .begin) :
      Move l amb answer s pool { s.emit (.audit { type := .runStarted }) with phase := .opened } pool
  | resumed {grant : CapabilityGrant} {found : GrantAnswer} {resume : RunResumeState}
      (hp : s.phase = .opened) (ha : answer = .granted found)
      (hg : checkGrant l.request amb.now found = .ok grant) (hr : l.request.resume = some resume)
      (hv : validResume l.cfg l.request amb grant resume = true) :
      Move l amb answer s pool { s with
        iterationsUsed := resume.iterationsUsed
        toolCallsUsed := resume.toolCallsUsed
        observations := resume.observations
        callIds := resume.callIds.dedup
        workflowState := resume.workflowState
        phase := .charging resume.iterationsUsed } pool
  | started (hp : s.phase = .opened) (hr : l.request.resume = none)
      (hi : 1 ≤ l.request.budget.maxIterations) :
      Move l amb answer s pool { s with phase := .iteration 1 } pool
  | charged {n : ℕ} (hp : s.phase = .charging (n+1)) (hroom : pool.iterationsUsed < pool.maxIterations) :
      Move l amb answer s pool { s with phase := .charging n }
        { pool with iterationsUsed := pool.iterationsUsed+1 }
  | inherited {pool' : AggregateRunBudget} (hp : s.phase = .charging 0)
      (hpool : pool.takeToolSlots amb.expired s.toolCallsUsed = (pool',s.toolCallsUsed))
      (hi : s.iterationsUsed+1 ≤ l.request.budget.maxIterations) :
      Move l amb answer s pool { s with phase := .iteration (s.iterationsUsed+1) } pool'
  | began {i : ℕ} (hp : s.phase = .iteration i) (hroom : pool.iterationsUsed < pool.maxIterations) :
      Move l amb answer s pool
        { s.emit (.iterationStarted i) with iterationsUsed := i, phase := .granting i }
        { pool with iterationsUsed := pool.iterationsUsed+1 }
  | framed {i : ℕ} {grant : CapabilityGrant} {found : GrantAnswer} (hp : s.phase = .granting i)
      (ha : answer = .granted found) (hg : checkGrant l.request amb.now found = .ok grant) :
      Move l amb answer s pool { s with phase := .prompting i ⟨i,s.observations,
        visibleTools l.request grant amb.tools,s.workflowState,s.toolCallsUsed⟩ } pool
  | presented {i : ℕ} {frame : WorkflowFrame} (hp : s.phase = .prompting i frame) :
      Move l amb answer s pool ({ s with checkpointPending := none }.present pool i frame) pool
  | planned {i k : ℕ} {frame : WorkflowFrame} {resume : RunResumeState} {digest : Digest}
      {route : Option String} (hp : s.phase = .prompting i frame)
      (hk : (i = 1 ∧ l.request.resume = none ∧ k = 0) ∨ s.checkpointPending = some k)
      (hplan : s.planCheckpoint l.cfg l.request digest route k = .publish resume) :
      Move l amb answer s pool
        { s with checkpointPending := none, phase := .checkpointing i frame resume } pool
  | checkpointed {i : ℕ} {frame : WorkflowFrame} {resume : RunResumeState}
      (hp : s.phase = .checkpointing i frame resume) :
      Move l amb answer s pool ((s.emit (.checkpoint resume)).present pool i frame) pool
  | thought {i : ℕ} {p : Phase} {state : Json} {es : List Event} (hp : s.phase.thinking i)
      (hp' : p.thinking i) (hes : ∀ e ∈ es, e.plain = true) :
      Move l amb answer s pool
        { s with log := s.log ++ es, workflowState := state, phase := p } pool
  | batched {i count : ℕ} {decision : WorkflowDecision} {pool' : AggregateRunBudget}
      (hp : s.phase = .admitting i decision)
      (hpool : pool.takeToolSlots amb.expired (min (l.request.budget.maxToolCalls-s.toolCallsUsed)
        decision.intents.length) = (pool',count)) (hcount : decision.intents.take count ≠ []) :
      Move l amb answer s pool { s with
        toolCallsUsed := s.toolCallsUsed+(decision.intents.take count).length
        callIds := (flagDuplicates s.callIds (decision.intents.take count)).2
        log := s.log ++
          admittedEvents i (flagDuplicates s.callIds (decision.intents.take count)).1
        phase := .batch i (decision.intents.drop count)
          ((flagDuplicates s.callIds (decision.intents.take count)).1.map
            (fun f => ⟨f.1,f.2,.waiting⟩)) none } pool'
  | idle {i : ℕ} {decision : WorkflowDecision} (hp : s.phase = .admitting i decision)
      (hi : i+1 ≤ l.request.budget.maxIterations) :
      Move l amb answer s pool { s with
        checkpointPending := if s.checkpointSafe then some i else none
        phase := .iteration (i+1) } pool
  | tasked {i k : ℕ} {overflow : List ToolIntent} {tasks : List Task} {abort : Option Ending}
      {t : Task} {reply : TaskAnswer} {r : TaskStep} (hp : s.phase = .batch i overflow tasks abort)
      (ha : answer = .task k reply) (hk : tasks[k]? = some t)
      (hr : taskStep l.cfg l.request amb ⟨i,k⟩ t.intent t.duplicate t.phase reply = some r) :
      Move l amb answer s pool { s with
        log := s.log ++ r.events
        phase := .batch i overflow (tasks.set k { t with phase := r.next.getD .dead })
          (if r.next.isSome then abort else abort.or (some .raised)) } pool
  | killed {i k : ℕ} {overflow : List ToolIntent} {tasks : List Task} {abort : Option Ending}
      {t : Task} (hp : s.phase = .batch i overflow tasks abort) (hk : tasks[k]? = some t) :
      Move l amb answer s pool { s with
        phase := .batch i overflow (tasks.set k { t with phase := .dead })
          (abort.or (some .cancelled)) } pool
  | aborted {i : ℕ} {overflow : List ToolIntent} {tasks : List Task} {abort : Option Ending}
      (hp : s.phase = .batch i overflow tasks abort) :
      Move l amb answer s pool
        { s with phase := .batch i overflow tasks (abort.or (some .cancelled)) } pool
  | gathered {i : ℕ} {tasks : List Task} {observations : List ToolObservation}
      (hp : s.phase = .batch i [] tasks none)
      (ho : tasks.mapM Task.result = some observations)
      (hi : i+1 ≤ l.request.budget.maxIterations) :
      Move l amb answer s pool { s with
        observations := s.observations ++ observations
        checkpointSafe := s.checkpointSafe && observations.all (safeObservation amb.tools) &&
          !(tasks.map (fun t => t.intent)).any unsafeIntent
        checkpointPending := if (s.checkpointSafe && observations.all (safeObservation amb.tools) &&
          !(tasks.map (fun t => t.intent)).any unsafeIntent) then some i else none
        phase := .iteration (i+1) } pool

namespace RunState

variable {l : Launch} {amb : Ambient} {s s' : RunState} {pool pool' : AggregateRunBudget}

theorem start_iteration_cases (s : RunState) (request : RunRequest) (amb : Ambient) (i : ℕ) :
    (i ≤ request.budget.maxIterations ∧
      s.startIteration request amb i = { s with phase := .iteration i }) ∨
    Closes s (s.startIteration request amb i) := by
  unfold startIteration
  split_ifs with h
  · exact .inl ⟨h,rfl⟩
  · exact .inr (closes_finish s _ _ _ _ _)

theorem opening_cases (s : RunState) (cfg : RunnerConfig) (request : RunRequest) (amb : Ambient) :
    s.opening cfg request amb = { s with phase := .opened } ∨
    Closes s (s.opening cfg request amb) := by
  unfold opening
  split
  · exact .inr (closes_finish s _ _ _ _ _)
  · split
    · exact .inr (closes_raise s)
    · split_ifs
      · exact .inr (closes_finish s _ _ _ _ _)
      · exact .inl rfl

theorem settle_decision_cases (s : RunState) (cfg : RunnerConfig) (request : RunRequest)
    (amb : Ambient) (i : ℕ) (decision : WorkflowDecision) (hopen : ∀ r, s.phase ≠ .finishing r) :
    s.settleDecision cfg request amb i decision =
      { s with workflowState := decision.workflowState, phase := .admitting i decision } ∨
    Closes s (s.settleDecision cfg request amb i decision) := by
  unfold settleDecision
  split
  · exact .inr (closes_raise s)
  · split_ifs
    · exact .inr (closes_finish s _ _ _ _ _)
    · split
      · exact .inl rfl
      · split
        · exact .inr ((closes_raise _).after [] (by simp) hopen (by simp) rfl rfl rfl)
        · split_ifs
          · exact .inr ((closes_finish _ _ _ _ _ _).after [] (by simp) hopen (by simp) rfl rfl rfl)
          · exact .inr ((closes_finish _ _ _ _ _ _).after [] (by simp) hopen (by simp) rfl rfl rfl)

theorem after_batch_cases (s : RunState) (request : RunRequest) (amb : Ambient) (i : ℕ)
    (permitted overflow : List ToolIntent) (observations : List ToolObservation)
    (hopen : ∀ r, s.phase ≠ .finishing r) :
    (overflow = [] ∧ i+1 ≤ request.budget.maxIterations ∧
      s.afterBatch request amb i permitted overflow observations = { s with
        observations := s.observations ++ observations
        checkpointSafe := s.checkpointSafe && observations.all (safeObservation amb.tools) &&
          !permitted.any unsafeIntent
        checkpointPending := if (s.checkpointSafe && observations.all (safeObservation amb.tools) &&
          !permitted.any unsafeIntent) then some i else none
        phase := .iteration (i+1) }) ∨
    Closes s (s.afterBatch request amb i permitted overflow observations) := by
  unfold afterBatch
  by_cases ho : overflow = []
  · subst ho
    simp only [List.isEmpty_nil, Bool.and_true, if_true]
    rcases start_iteration_cases { s with
      observations := s.observations ++ observations
      checkpointSafe := s.checkpointSafe && observations.all (safeObservation amb.tools) &&
        !permitted.any unsafeIntent
      checkpointPending := if (s.checkpointSafe && observations.all (safeObservation amb.tools) &&
        !permitted.any unsafeIntent) then some i else none } request amb (i+1) with ⟨hi,h⟩ | h
    · exact .inl ⟨trivial,hi,h⟩
    · exact .inr (h.after [] (by simp) hopen (by simp) rfl rfl rfl)
  · simp only [ho, if_false]
    exact .inr (closes_silent rfl (by simp) rfl rfl rfl rfl)

theorem record_overflow_closes {s : RunState} (request : RunRequest) (amb : Ambient) (i : ℕ)
    (intent : ToolIntent) (rest : List ToolIntent) (ok : Bool) (hopen : ∀ r, s.phase ≠ .finishing r) :
    Closes s (s.recordOverflow request amb i intent rest ok) := by
  unfold recordOverflow
  dsimp only
  split
  · split
    · exact (closes_raise _).emitted hopen nofun
    · split
      · exact (closes_finish _ _ _ _ _ _).after [_] (by simp [Event.plain, overflowEvent, callEvent])
          hopen rfl rfl rfl rfl
      · exact ⟨rfl,⟨[_],rfl,.inl ⟨by simp [Event.plain, overflowEvent, callEvent],by simp⟩⟩,rfl,rfl,rfl⟩
  · exact closes_raise s

variable {i : ℕ}

theorem checkpoint_wanted_cases {request : RunRequest} {k : ℕ} {route : RouteAnswer}
    (h : s.checkpointWanted request i route = some k) :
    (i = 1 ∧ request.resume = none ∧ k = 0) ∨ s.checkpointPending = some k := by
  unfold checkpointWanted at h
  split_ifs at h with h1 h2
  · exact .inl ⟨h2.1,h2.2,(Option.some.inj h).symm⟩
  · exact .inr h

variable (answer : Answer)

theorem bind_prompt_move {frame : WorkflowFrame} (hp : s.phase = .prompting i frame)
    (prompt : Option PromptEnvelope) (route : RouteAnswer) :
    Move l amb answer s pool (s.bindPrompt l.cfg l.request amb pool i frame prompt route) pool := by
  unfold bindPrompt
  split
  · exact .closed (closes_raise s) (.inl rfl)
  · split_ifs
    · exact .closed (closes_finish s _ _ _ _ _) (.inl rfl)
    · exact .closed (closes_finish s _ _ _ _ _) (.inl rfl)
    · split
      · exact .presented hp
      · rename_i k hk
        dsimp only
        split
        · exact .presented hp
        · exact .closed ((closes_raise _).after [] (by simp) (by simp [hp]) (by simp) rfl rfl rfl) (.inl rfl)
        · rename_i hplan
          exact .planned hp (checkpoint_wanted_cases hk) hplan

theorem admit_batch_move {count : ℕ} {decision : WorkflowDecision}
    (hp : s.phase = .admitting i decision)
    (hpool : pool.takeToolSlots amb.expired (min (l.request.budget.maxToolCalls-s.toolCallsUsed)
      decision.intents.length) = (pool',count)) :
    Move l amb answer s pool (s.admitBatch l.request amb i decision count) pool' := by
  unfold admitBatch
  dsimp only
  split_ifs with hnone
  · simp only [hnone, flagDuplicates, List.length_nil, Nat.add_zero, admittedEvents,
      List.mapIdx_nil, List.append_nil]
    rcases after_batch_cases s l.request amb i [] (decision.intents.drop count) [] (by simp [hp]) with
      ⟨hover,hi,h⟩ | h
    · rw [h]
      have hempty : decision.intents = [] := by
        rw [← List.take_append_drop count decision.intents, hnone, hover]
        rfl
      have hcharged : pool' = pool := by
        rw [hempty, List.length_nil, Nat.min_zero, AggregateRunBudget.take_tool_slots_zero] at hpool
        exact (congrArg Prod.fst hpool).symm
      subst hcharged
      have hidle : Move l amb answer s pool' _ pool' := .idle hp hi
      simpa using hidle
    · exact .closed h (.inr ⟨_,(congrArg Prod.fst hpool).symm⟩)
  · exact .batched hp hpool hnone

theorem batch_task_move {k : ℕ} {overflow : List ToolIntent} {tasks : List Task}
    {abort : Option Ending} {reply : TaskAnswer} (hp : s.phase = .batch i overflow tasks abort)
    (h : s.batchTask l.cfg l.request amb i overflow tasks abort k reply = some s') :
    Move l amb (.task k reply) s pool s' pool := by
  unfold batchTask at h
  split at h
  · cases h
  · rename_i t hk
    split_ifs at h
    obtain ⟨r,hr,hs⟩ := Option.map_eq_some_iff.mp h
    have hmove : Move l amb (.task k reply) s pool _ pool := .tasked hp rfl hk hr
    subst hs
    cases hn : r.next with
    | none => simpa [hn] using hmove
    | some next => simpa [hn] using hmove

theorem gather_move {overflow : List ToolIntent} {tasks : List Task} {abort : Option Ending}
    (hp : s.phase = .batch i overflow tasks abort)
    (h : s.gather l.request amb i overflow tasks abort = some s') :
    Move l amb answer s pool s' pool := by
  cases abort with
  | some ending =>
    simp only [gather] at h
    split_ifs at h
    cases h
    exact .closed (closes_ended s ending) (.inl rfl)
  | none =>
    obtain ⟨observations,ho,hs⟩ := Option.map_eq_some_iff.mp h
    subst hs
    rcases after_batch_cases s l.request amb i (tasks.map (fun t => t.intent)) overflow
      observations (by simp [hp]) with ⟨rfl,hi,h⟩ | h
    · rw [h]
      exact .gathered hp ho hi
    · exact .closed h (.inl rfl)

theorem resume_or_start_move {found : GrantAnswer} {grant : CapabilityGrant}
    (hp : s.phase = .opened) (hg : checkGrant l.request amb.now found = .ok grant) :
    Move l amb (.granted found) s pool (s.resumeOrStart l.cfg l.request amb grant) pool := by
  unfold resumeOrStart
  split
  · rename_i hr
    rcases start_iteration_cases s l.request amb 1 with ⟨hi,h⟩ | h
    · rw [h]
      exact .started hp hr hi
    · exact .closed h (.inl rfl)
  · rename_i resume hr
    split_ifs with hv
    · exact .resumed hp rfl hg hr hv
    · exact .closed (closes_finish s _ _ _ _ _) (.inl rfl)

variable {answer : Answer}

theorem move_thought {p : Phase} (hp : s.phase.thinking i) (hp' : p.thinking i) :
    Move l amb answer s pool { s with phase := p } pool := by
  have h : Move l amb answer s pool
      { s with log := s.log ++ [], workflowState := s.workflowState, phase := p } pool :=
    .thought hp hp' (by simp)
  simpa using h

theorem move_published {frame : WorkflowFrame} (hp : s.phase = .deciding i frame) {kind : String}
    (hkind : workflowKinds.contains kind = true) (data : Json) :
    Move l amb answer s pool (s.emit (.published kind data)) pool := by
  have hthinking : s.phase.thinking i := by
    rw [hp]
    rfl
  have hfree : kind ≠ "checkpoint" := by
    rintro rfl
    revert hkind
    decide
  exact .thought hthinking hthinking (by simp [Event.plain, hfree])

theorem step_interrupted
    (h : step l.cfg l.request l.strategies amb s pool s.phase .interrupted = some (s',pool')) :
    Closes s s' ∧ pool' = pool := by
  cases hp : s.phase <;> simp only [hp, step, Phase.auditEvent, Option.map_none, Option.map_some,
    reduceCtorEq] at h
  case begin =>
    cases h
    exact ⟨(closes_ended _ _).emitted (by simp [hp]) nofun,rfl⟩
  case recording =>
    cases h
    exact ⟨(closes_ended _ _).emitted (by simp [hp]) nofun,rfl⟩
  case overflowing i intents =>
    cases intents with
    | nil => cases h
    | cons intent rest =>
      cases h
      exact ⟨(closes_ended _ _).emitted (by simp [hp]) nofun,rfl⟩
  case finishing result =>
    cases h
    exact ⟨⟨rfl,⟨[_],rfl,.inr ⟨result,hp,rfl,.inr rfl⟩⟩,rfl,rfl,rfl⟩,rfl⟩

theorem closed_move {t : RunState} (hclosed : Closes s t)
    (h : some (t,pool) = some (s',pool')) : Move l amb answer s pool s' pool' := by
  cases h
  exact .closed hclosed (.inl rfl)

theorem step_cancelled
    (h : step l.cfg l.request l.strategies amb s pool s.phase .cancelled = some (s',pool')) :
    Move l amb .cancelled s pool s' pool' := by
  cases hp : s.phase <;> simp only [hp, step, reduceCtorEq] at h
  case charging n => cases n <;> exact closed_move (closes_ended s _) h
  case batch i overflow tasks abort =>
    cases h
    exact .aborted hp
  case overflowing i intents => cases intents <;> exact closed_move (closes_ended s _) h
  all_goals exact closed_move (closes_ended s _) h

theorem charge_move {t failed : RunState} (hclosed : Closes s failed)
    (hroom : pool.iterationsUsed < pool.maxIterations →
      Move l amb answer s pool t { pool with iterationsUsed := pool.iterationsUsed+1 })
    (h : (if (pool.takeIteration amb.expired).2 = true then
        some (t,(pool.takeIteration amb.expired).1)
      else some (failed,(pool.takeIteration amb.expired).1)) = some (s',pool')) :
    Move l amb answer s pool s' pool' := by
  cases hc : pool.takeIteration amb.expired with
  | mk charged ok =>
    rw [hc] at h
    cases ok with
    | true =>
      cases h
      obtain ⟨hless,rfl⟩ := AggregateRunBudget.take_iteration_true hc
      exact hroom hless
    | false =>
      cases h
      exact .closed hclosed (.inl (AggregateRunBudget.take_iteration_false hc))

theorem step_move
    (h : step l.cfg l.request l.strategies amb s pool s.phase answer = some (s',pool')) :
    Move l amb answer s pool s' pool' := by
  by_cases hi : answer = .interrupted
  · subst hi
    exact .closed (step_interrupted h).1 (.inl (step_interrupted h).2)
  by_cases hc : answer = .cancelled
  · subst hc
    exact step_cancelled h
  cases hp : s.phase with
  | begin =>
    cases answer <;> simp only [step, hp, reduceCtorEq, not_true] at h hi hc
    split_ifs at h
    · cases h
      rcases opening_cases (s.emit (.audit { type := .runStarted })) l.cfg l.request amb with ho | ho
      · rw [ho]
        exact .opened hp
      · exact .closed (ho.emitted (by simp [hp]) nofun) (.inl rfl)
    · exact closed_move (closes_raise s) h
  | opened =>
    cases answer <;> simp only [step, hp, reduceCtorEq, not_true] at h hi hc
    split at h
    · exact closed_move (closes_finish s _ _ _ _ _) h
    · rename_i grant hg
      cases h
      exact resume_or_start_move hp hg
  | charging n =>
    cases n with
    | zero =>
      cases answer <;> simp only [step, hp, reduceCtorEq, not_true] at h hi hc
      split_ifs at h with hcount
      · cases h
        rcases start_iteration_cases s l.request amb (s.iterationsUsed+1) with ⟨hi,hs⟩ | hs
        · rw [hs]
          exact .inherited hp (Prod.ext rfl hcount) hi
        · exact .closed hs (.inr ⟨_,rfl⟩)
      · cases h
        exact .closed (closes_finish s _ _ _ _ _) (.inr ⟨_,rfl⟩)
    | succ n =>
      cases answer <;> simp only [step, hp, reduceCtorEq, not_true] at h hi hc
      exact charge_move (closes_finish s _ _ _ _ _) (fun hroom => .charged hp hroom) h
  | iteration i =>
    cases answer <;> simp only [step, hp, reduceCtorEq, not_true] at h hi hc
    exact charge_move (closes_finish s _ _ _ _ _) (fun hroom => .began hp hroom) h
  | granting i =>
    cases answer <;> simp only [step, hp, reduceCtorEq, not_true] at h hi hc
    split at h
    · exact closed_move (closes_finish s _ _ _ _ _) h
    · rename_i grant hg
      cases h
      exact .framed hp rfl hg
  | prompting i frame =>
    cases answer <;> simp only [step, hp, reduceCtorEq, not_true] at h hi hc
    split at h
    · cases h
      exact bind_prompt_move _ hp _ _
    · exact closed_move (closes_finish s _ _ _ _ _) h
    · exact closed_move (closes_finish s _ _ _ _ _) h
    · cases h
      exact bind_prompt_move _ hp _ _
  | checkpointing i frame resume =>
    cases answer <;> simp only [step, hp, reduceCtorEq, not_true] at h hi hc
    split_ifs at h
    · cases h
      exact .checkpointed hp
    · exact closed_move (closes_raise s) h
  | deciding i frame =>
    cases answer <;> simp only [step, hp, reduceCtorEq, not_true] at h hi hc
    split at h
    · split_ifs at h with hkind
      · cases h
        exact move_published hp hkind.1 _
      · exact closed_move (closes_finish s _ _ _ _ _) h
    · exact closed_move (closes_finish s _ _ _ _ _) h
    · exact closed_move (closes_finish s _ _ _ _ _) h
    · split_ifs at h
      · cases h
        exact move_thought (by rw [hp]; rfl) rfl
      · cases h
        exact move_thought (by rw [hp]; rfl) rfl
  | reviewing i frame decision =>
    cases answer <;> simp only [step, hp, reduceCtorEq, not_true] at h hi hc
    split at h
    · exact closed_move (closes_finish s _ _ _ _ _) h
    · exact closed_move (closes_finish s _ _ _ _ _) h
    · cases h
      exact move_thought (by rw [hp]; rfl) rfl
  | recording i decision =>
    cases answer <;> simp only [step, hp, reduceCtorEq, not_true] at h hi hc
    split_ifs at h
    · cases h
      rcases settle_decision_cases (s.emit (.audit _)) l.cfg l.request amb i decision
        (by simp [emit, hp]) with hs | hs
      · rw [hs]
        exact .thought (by rw [hp]; rfl) rfl (by simp [Event.plain, decisionEvent])
      · exact .closed (hs.emitted (by simp [hp]) nofun) (.inl rfl)
    · exact closed_move (closes_raise s) h
  | admitting i decision =>
    cases answer <;> simp only [step, hp, reduceCtorEq, not_true] at h hi hc
    cases h
    exact admit_batch_move _ hp rfl
  | batch i overflow tasks abort =>
    cases answer <;> simp only [step, hp, reduceCtorEq, not_true] at h hi hc
    · obtain ⟨t,ht,hs⟩ := Option.map_eq_some_iff.mp h
      cases hs
      exact batch_task_move hp ht
    · split at h
      · cases h
      · rename_i t hk
        split_ifs at h
        cases h
        exact .killed hp hk
    · obtain ⟨t,ht,hs⟩ := Option.map_eq_some_iff.mp h
      cases hs
      exact gather_move _ hp ht
  | overflowing i intents =>
    cases intents <;> cases answer <;> simp only [step, hp, reduceCtorEq, not_true] at h hi hc
    · cases h
      exact .closed (record_overflow_closes _ _ _ _ _ _ (by simp [hp])) (.inl rfl)
  | finishing result =>
    cases answer <;> simp only [step, hp, reduceCtorEq, not_true] at h hi hc
    split_ifs at h
    · cases h
      exact .closed ⟨rfl,⟨[_],rfl,.inr ⟨result,hp,rfl,.inl rfl⟩⟩,rfl,rfl,rfl⟩ (.inl rfl)
    · exact closed_move (closes_raise s) h
  | returned result | ended ending =>
      cases answer <;> simp only [step, hp, reduceCtorEq, not_true] at h hi hc

end RunState

structure Input where
  pool : AggregateRunBudget
  amb : Ambient
  answer : Answer

namespace Launch

variable (l : Launch)

def run (l : Launch) (inputs : List Input) : RunState :=
  Library.Machine.final (fun s x => l.move s x.pool x.amb x.answer) l.start inputs

theorem move_cases (s : RunState) (pool : AggregateRunBudget) (amb : Ambient) (answer : Answer) :
    l.move s pool amb answer = (s,pool) ∨
    Move l amb answer s pool (l.move s pool amb answer).1 (l.move s pool amb answer).2 := by
  unfold move
  cases h : RunState.step l.cfg l.request l.strategies amb s pool s.phase answer with
  | none => exact .inl rfl
  | some r => exact .inr (RunState.step_move h)

/-- An invariant of the moves made on inputs that satisfy a condition. -/
theorem run_invariant_on (P : RunState → Prop) (Q : Input → Prop) (hstart : P l.start)
    (hmove : ∀ (x : Input) s s' pool', Q x → P s → Move l x.amb x.answer s x.pool s' pool' → P s')
    (inputs : List Input) (hq : ∀ x ∈ inputs, Q x) : P (l.run inputs) := by
  refine Library.Machine.final_invariant_on _ P Q (fun s x hx hs => ?_) l.start inputs hq hstart
  rcases l.move_cases s x.pool x.amb x.answer with h | h
  · rw [h]
    exact hs
  · exact hmove x _ _ _ hx hs h

theorem run_invariant (P : RunState → Prop) (hstart : P l.start)
    (hmove : ∀ amb answer s pool s' pool', P s → Move l amb answer s pool s' pool' → P s')
    (inputs : List Input) : P (l.run inputs) :=
  l.run_invariant_on P (fun _ => True) hstart (fun _ _ _ _ _ hs hm => hmove _ _ _ _ _ _ hs hm) inputs
    (fun _ _ => trivial)

end Launch
end SuiteHarness.Execution
