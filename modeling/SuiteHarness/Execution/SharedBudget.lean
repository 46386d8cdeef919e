import SuiteHarness.Execution.FullAuthority

/-!
# The budget shared by a tree of runs

Any number of runs take their steps in any order and charge one pool, between
them anybody calls the pool's own operations. Every iteration a run starts and
every intent it admits is charged first, so the totals over all runs stay
within the pool, whatever each run does on its own.
-/

set_option autoImplicit false

namespace SuiteHarness.Execution

def Event.isStart : Event → Bool
  | .iterationStarted _ => true
  | _ => false

def Event.isAdmission : Event → Bool
  | .admitted _ _ _ => true
  | _ => false

namespace RunState

def startedIterations (s : RunState) : ℕ := s.log.countP Event.isStart

def admittedIntents (s : RunState) : ℕ := s.log.countP Event.isAdmission

end RunState

structure Charge (pool pool' : AggregateRunBudget) (i t : ℕ) : Prop where
  limits : pool'.maxIterations = pool.maxIterations ∧ pool'.maxToolCalls = pool.maxToolCalls ∧
    pool'.maxChildren = pool.maxChildren
  children : pool'.childCalls = pool.childCalls ∧ pool'.activeChildren = pool.activeChildren
  iterations : pool'.iterationsUsed = pool.iterationsUsed+i
  toolCalls : pool'.toolCallsUsed = pool.toolCallsUsed+t
  iterationRoom : i = 0 ∨ pool'.iterationsUsed ≤ pool.maxIterations
  toolRoom : t = 0 ∨ pool'.toolCallsUsed ≤ pool.maxToolCalls

theorem charge_none (pool : AggregateRunBudget) : Charge pool pool 0 0 :=
  ⟨⟨rfl,rfl,rfl⟩,⟨rfl,rfl⟩,rfl,rfl,.inl rfl,.inl rfl⟩

variable {amb : Ambient} {pool pool' : AggregateRunBudget} {s s' : RunState}

theorem charge_iteration (h : pool.iterationsUsed < pool.maxIterations) :
    Charge pool { pool with iterationsUsed := pool.iterationsUsed+1 } 1 0 :=
  ⟨⟨rfl,rfl,rfl⟩,⟨rfl,rfl⟩,rfl,rfl,.inr h,.inl rfl⟩

open AggregateRunBudget

theorem charge_tool_slots (pool : AggregateRunBudget) (expired : Bool) (n : ℕ) :
    Charge pool (pool.takeToolSlots expired n).1 0 (pool.takeToolSlots expired n).2 := by
  unfold takeToolSlots
  split_ifs
  · exact charge_none pool
  · refine ⟨⟨rfl,rfl,rfl⟩,⟨rfl,rfl⟩,rfl,rfl,.inl rfl,?_⟩
    show min n (pool.maxToolCalls-pool.toolCallsUsed) = 0 ∨
      pool.toolCallsUsed+min n (pool.maxToolCalls-pool.toolCallsUsed) ≤ pool.maxToolCalls
    omega

theorem take_tool_slots_le (pool : AggregateRunBudget) (expired : Bool) (n : ℕ) :
    (pool.takeToolSlots expired n).2 ≤ n := by
  unfold takeToolSlots
  split_ifs
  · exact Nat.zero_le n
  · exact Nat.min_le_left _ _

theorem of_call_counts {es : List Event} (h : ∀ e ∈ es, e.ofCall = true) :
    es.countP Event.isStart = 0 ∧ es.countP Event.isAdmission = 0 := by
  constructor <;> rw [List.countP_eq_zero] <;> intro e he <;> have hcall := h e he <;>
    cases e <;> simp_all [Event.ofCall, Event.isStart, Event.isAdmission]

theorem admitted_events_counts (i : ℕ) (flagged : List (ToolIntent × Bool)) :
    (RunState.admittedEvents i flagged).countP Event.isStart = 0 ∧
    (RunState.admittedEvents i flagged).countP Event.isAdmission = flagged.length := by
  constructor
  · rw [List.countP_eq_zero]
    intro e he
    obtain ⟨k,hk,rfl⟩ := List.mem_mapIdx.mp he
    simp [Event.isStart]
  · rw [List.countP_eq_length.mpr]
    · simp [RunState.admittedEvents]
    · intro e he
      obtain ⟨k,hk,rfl⟩ := List.mem_mapIdx.mp he
      rfl

theorem flag_duplicates_length (ids : List String) (intents : List ToolIntent) :
    (RunState.flagDuplicates ids intents).1.length = intents.length := by
  induction intents generalizing ids with
  | nil => rfl
  | cons intent rest ih => simp [RunState.flagDuplicates, ih]

/-- A move that appends no start and no admission and charges nothing for one. -/
theorem charge_quiet {es : List Event} {i t : ℕ} (hcharge : Charge pool pool' i t)
    (hlog : s'.log = s.log ++ es)
    (hes : es.countP Event.isStart = 0 ∧ es.countP Event.isAdmission = 0) :
    ∃ i t, Charge pool pool' i t ∧ s'.startedIterations ≤ s.startedIterations+i ∧
      s'.admittedIntents ≤ s.admittedIntents+t := by
  refine ⟨i,t,hcharge,?_,?_⟩
  · rw [RunState.startedIterations, hlog, List.countP_append, hes.1]
    exact Nat.le_add_right _ _
  · rw [RunState.admittedIntents, hlog, List.countP_append, hes.2]
    exact Nat.le_add_right _ _

theorem move_charge {l : Launch} {answer : Answer} (hm : Move l amb answer s pool s' pool') :
    ∃ i t, Charge pool pool' i t ∧ s'.startedIterations ≤ s.startedIterations+i ∧
      s'.admittedIntents ≤ s.admittedIntents+t := by
  cases hm with
  | closed hc hpool =>
    obtain ⟨es,hes,hlog⟩ := hc.told
    have hcounts := of_call_counts (fun e he => told_of_call (hes e he))
    rcases hpool with rfl | ⟨n,rfl⟩
    · exact charge_quiet (charge_none _) hlog hcounts
    · exact charge_quiet (charge_tool_slots _ _ n) hlog hcounts
  | opened | presented => exact charge_quiet (charge_none _) rfl ⟨rfl,rfl⟩
  | checkpointed => exact charge_quiet (charge_none _) (List.append_assoc _ _ _) ⟨rfl,rfl⟩
  | thought hp hp' hes =>
    exact charge_quiet (charge_none _) rfl (of_call_counts (fun e he => plain_of_call (hes e he)))
  | tasked hp ha hk hr =>
    exact charge_quiet (charge_none _) rfl (of_call_counts (fun e he => (task_step_events hr e he).of_call))
  | charged hp hroom =>
    exact charge_quiet (charge_iteration hroom) (List.append_nil _).symm ⟨rfl,rfl⟩
  | inherited hp hpool hi =>
    have hcharge := charge_tool_slots pool amb.expired s.toolCallsUsed
    rw [hpool] at hcharge
    exact charge_quiet hcharge (List.append_nil _).symm ⟨rfl,rfl⟩
  | began hp hroom =>
    refine ⟨1,0,charge_iteration hroom,?_,?_⟩
    · simp [RunState.startedIterations, RunState.emit, Event.isStart]
    · simp [RunState.admittedIntents, RunState.emit, Event.isAdmission]
  | batched hp hpool hcount =>
    rename_i i count decision
    have hcharge := charge_tool_slots pool amb.expired
      (min (l.request.budget.maxToolCalls-s.toolCallsUsed) decision.intents.length)
    rw [hpool] at hcharge
    obtain ⟨hstart,hadmitted⟩ := admitted_events_counts i
      (RunState.flagDuplicates s.callIds (decision.intents.take count)).1
    rw [flag_duplicates_length] at hadmitted
    refine ⟨0,count,hcharge,?_,?_⟩
    · simp [RunState.startedIterations, hstart]
    · simp only [RunState.admittedIntents, List.countP_append, hadmitted]
      exact Nat.add_le_add_left (List.length_take_le _ _) _
  | resumed | started | framed | planned | idle | killed | aborted | gathered =>
    exact charge_quiet (charge_none _) (List.append_nil _).symm ⟨rfl,rfl⟩

structure WithinBudget (l : Launch) (s : RunState) : Prop where
  iterations : s.iterationsUsed ≤ l.request.budget.maxIterations
  toolCalls : s.toolCallsUsed ≤ l.request.budget.maxToolCalls
  next : ∀ i, s.phase = .iteration i → i ≤ l.request.budget.maxIterations

theorem valid_resume_bounds {cfg : RunnerConfig} {request : RunRequest} {grant : CapabilityGrant}
    {resume : RunResumeState} (h : validResume cfg request amb grant resume = true) :
    resume.iterationsUsed < request.budget.maxIterations ∧
    resume.toolCallsUsed ≤ request.budget.maxToolCalls := by
  simp only [validResume, Bool.and_eq_true, decide_eq_true_eq] at h
  tauto

theorem within_budget_move {l : Launch} {answer : Answer} (h : WithinBudget l s)
    (hm : Move l amb answer s pool s' pool') : WithinBudget l s' := by
  cases hm with
  | closed hc _ =>
    refine ⟨hc.iterations ▸ h.iterations,hc.toolCalls ▸ h.toolCalls,fun i hp => ?_⟩
    have hclosing := hc.phase
    simp [hp, Phase.closing] at hclosing
  | resumed hp ha hg hr hv =>
    obtain ⟨hi,ht⟩ := valid_resume_bounds hv
    exact ⟨hi.le,ht,by simp⟩
  | started hp hr hi | inherited hp hpool hi | idle hp hi | gathered hp ho hi =>
    refine ⟨h.iterations,h.toolCalls,fun i hphase => ?_⟩
    cases hphase
    exact hi
  | began hp hroom => exact ⟨h.next _ hp,h.toolCalls,by simp⟩
  | thought hp hp' hes =>
    refine ⟨h.iterations,h.toolCalls,?_⟩
    rintro i rfl
    exact hp'.elim
  | batched hp hpool hcount =>
    rename_i i count decision
    have hle := take_tool_slots_le pool amb.expired
      (min (l.request.budget.maxToolCalls-s.toolCallsUsed) decision.intents.length)
    rw [hpool] at hle
    refine ⟨h.iterations,?_,by simp⟩
    have htake : (decision.intents.take count).length ≤ count := List.length_take_le _ _
    have hused := h.toolCalls
    show s.toolCallsUsed+(decision.intents.take count).length ≤ l.request.budget.maxToolCalls
    dsimp only at hle
    omega
  | opened | charged | framed | planned | presented | checkpointed | tasked | killed | aborted =>
    exact ⟨h.iterations,h.toolCalls,by simp [RunState.present]⟩

structure SharedRuns where
  pool : AggregateRunBudget
  runs : List (Launch × RunState) := []

inductive SharedOp where
  | launch (l : Launch)
  | run (k : ℕ) (amb : Ambient) (answer : Answer)
  | takeIteration (expired : Bool)
  | takeToolSlots (expired : Bool) (requested : ℤ)
  | reserveChild (expired : Bool) (callId : String) (ceiling : Option ℤ)
  | takeChildSlot (expired : Bool) (ceiling : ℤ)
  | releaseChildSlot

inductive SharedAnswer where
  | stepped
  | taken (ok : Bool)
  | slots (count : ℕ)
  | reserved (ok : Bool)
  | slot (answer : SlotAnswer)
  | released
  | raised (error : BudgetError)
  deriving DecidableEq

namespace SharedRuns

def step (w : SharedRuns) : SharedOp → SharedRuns × SharedAnswer
  | .launch l => ({ w with runs := w.runs ++ [(l,l.start)] },.stepped)
  | .run k amb answer => match w.runs[k]? with
    | none => (w,.stepped)
    | some (l,s) =>
      let next := l.move s w.pool amb answer
      (⟨next.2,w.runs.set k (l,next.1)⟩,.stepped)
  | .takeIteration expired =>
    let next := w.pool.takeIteration expired
    ({ w with pool := next.1 },.taken next.2)
  | .takeToolSlots expired requested => match w.pool.checkedToolSlots expired requested with
    | .error e => (w,.raised e)
    | .ok (pool,count) => ({ w with pool := pool },.slots count)
  | .reserveChild expired callId ceiling => match w.pool.reserveChild expired callId ceiling with
    | .error e => (w,.raised e)
    | .ok (pool,ok) => ({ w with pool := pool },.reserved ok)
  | .takeChildSlot expired ceiling => match w.pool.takeChildSlot expired ceiling with
    | .error e => (w,.raised e)
    | .ok (pool,answer) => ({ w with pool := pool },.slot answer)
  | .releaseChildSlot => match w.pool.releaseChildSlot with
    | .error e => (w,.raised e)
    | .ok pool => ({ w with pool := pool },.released)

def startedIterations (w : SharedRuns) : ℕ := (w.runs.map (fun r => r.2.startedIterations)).sum

def admittedIntents (w : SharedRuns) : ℕ := (w.runs.map (fun r => r.2.admittedIntents)).sum

structure Sound (limits : AggregateRunBudget) (w : SharedRuns) : Prop where
  sameLimits : w.pool.maxIterations = limits.maxIterations ∧
    w.pool.maxToolCalls = limits.maxToolCalls ∧ w.pool.maxChildren = limits.maxChildren
  iterations : w.startedIterations ≤ w.pool.iterationsUsed ∧
    w.pool.iterationsUsed ≤ limits.maxIterations
  toolCalls : w.admittedIntents ≤ w.pool.toolCallsUsed ∧ w.pool.toolCallsUsed ≤ limits.maxToolCalls
  children : w.pool.childCalls.Nodup ∧ w.pool.childCalls.length ≤ limits.maxChildren
  active : 0 ≤ w.pool.activeChildren
  runs : ∀ r ∈ w.runs, Warranted r.1 r.2 ∧ r.2.Unrepeated ∧ WithinBudget r.1 r.2

variable {limits : AggregateRunBudget} {w : SharedRuns}
variable {pool pool' : AggregateRunBudget}

/-- A charge that no run has work to show for. -/
theorem Sound.charge {i t : ℕ} (h : Sound limits w) (hc : Charge w.pool pool' i t) :
    Sound limits { w with pool := pool' } := by
  obtain ⟨h1,h2,h3⟩ := h.sameLimits
  obtain ⟨c1,c2,c3⟩ := hc.limits
  have hi := hc.iterations
  have ht := hc.toolCalls
  have hiterations := h.iterations
  have htoolCalls := h.toolCalls
  refine ⟨⟨c1.trans h1,c2.trans h2,c3.trans h3⟩,⟨?_,?_⟩,⟨?_,?_⟩,?_,?_,h.runs⟩
  · show w.startedIterations ≤ pool'.iterationsUsed
    omega
  · rcases hc.iterationRoom with hr | hr
    · show pool'.iterationsUsed ≤ limits.maxIterations
      omega
    · exact hr.trans h1.le
  · show w.admittedIntents ≤ pool'.toolCallsUsed
    omega
  · rcases hc.toolRoom with hr | hr
    · show pool'.toolCallsUsed ≤ limits.maxToolCalls
      omega
    · exact hr.trans h2.le
  · show pool'.childCalls.Nodup ∧ pool'.childCalls.length ≤ limits.maxChildren
    rw [hc.children.1]
    exact h.children
  · show 0 ≤ pool'.activeChildren
    rw [hc.children.2]
    exact h.active

theorem sound_launch (l : Launch) (h : Sound limits w) :
    Sound limits { w with runs := w.runs ++ [(l,l.start)] } := by
  refine ⟨h.sameLimits,⟨?_,h.iterations.2⟩,⟨?_,h.toolCalls.2⟩,h.children,h.active,?_⟩
  · simpa [startedIterations, Launch.start, RunState.startedIterations] using h.iterations.1
  · simpa [admittedIntents, Launch.start, RunState.admittedIntents] using h.toolCalls.1
  · intro r hr
    rcases List.mem_append.mp hr with hr | hr
    · exact h.runs r hr
    · rw [List.mem_singleton.mp hr]
      exact ⟨run_warranted l [],run_unrepeated l [],⟨Nat.zero_le _,Nat.zero_le _,by simp [Launch.start]⟩⟩

theorem sound_run {k : ℕ} {l : Launch} {answer : Answer} (h : Sound limits w) (hk : w.runs[k]? = some (l,s))
    (hm : Move l amb answer s w.pool s' pool') : Sound limits ⟨pool',w.runs.set k (l,s')⟩ := by
  obtain ⟨i,t,hc,hs,ha⟩ := move_charge hm
  have hcharged := h.charge hc
  have hi := Library.History.sum_map_set (fun r : Launch × RunState => r.2.startedIterations) hk (l,s')
  have ht := Library.History.sum_map_set (fun r : Launch × RunState => r.2.admittedIntents) hk (l,s')
  have hiterations := h.iterations
  have htoolCalls := h.toolCalls
  have hpi := hc.iterations
  have hpt := hc.toolCalls
  unfold startedIterations at hiterations
  unfold admittedIntents at htoolCalls
  refine ⟨hcharged.sameLimits,⟨?_,hcharged.iterations.2⟩,⟨?_,hcharged.toolCalls.2⟩,hcharged.children,
    hcharged.active,?_⟩
  · show ((w.runs.set k (l,s')).map (fun r => r.2.startedIterations)).sum ≤ pool'.iterationsUsed
    dsimp only at hi
    omega
  · show ((w.runs.set k (l,s')).map (fun r => r.2.admittedIntents)).sum ≤ pool'.toolCallsUsed
    dsimp only at ht
    omega
  · intro r hr
    rcases List.mem_or_eq_of_mem_set hr with hr | rfl
    · exact h.runs r hr
    · obtain ⟨hw,hu,hb⟩ := h.runs (l,s) (List.mem_of_getElem? hk)
      exact ⟨warranted_move hw hm,RunState.unrepeated_move hw hu hm,within_budget_move hb hm⟩

theorem sound_children (h : Sound limits w)
    (hsame : pool' = { w.pool with
      childCalls := pool'.childCalls, activeChildren := pool'.activeChildren })
    (hchildren : pool'.childCalls.Nodup ∧ pool'.childCalls.length ≤ limits.maxChildren)
    (hactive : 0 ≤ pool'.activeChildren) : Sound limits { w with pool := pool' } := by
  rw [hsame]
  exact ⟨h.sameLimits,h.iterations,h.toolCalls,hchildren,hactive,h.runs⟩

theorem sound_reserve {expired ok : Bool} {callId : String} {ceiling : Option ℤ}
    (h : Sound limits w) (hr : w.pool.reserveChild expired callId ceiling = .ok (pool',ok)) :
    Sound limits { w with pool := pool' } := by
  unfold reserveChild at hr
  split_ifs at hr with h1 h2 h3
  · cases hr
    exact h
  · cases hr
    push Not at h3
    refine sound_children h rfl ⟨?_,?_⟩ h.active
    · exact List.nodup_append.mpr ⟨h.children.1,List.nodup_singleton _,by
        rintro a ha b hb rfl
        rw [List.mem_singleton.mp hb] at ha
        exact h3.2.1 ha⟩
    · have hroom : (w.pool.childCalls.length : ℤ) < w.pool.maxChildren := by
        refine h3.2.2.trans_le ?_
        cases ceiling with
        | none => exact le_rfl
        | some c => exact min_le_left _ _
      have hsame := h.sameLimits.2.2
      simp only [List.length_append, List.length_singleton]
      omega

theorem take_child_slot_ok {expired : Bool} {ceiling : ℤ} {answer : SlotAnswer}
    (h : pool.takeChildSlot expired ceiling = .ok (pool',answer)) :
    (answer ≠ .acquired ∧ pool' = pool) ∨
    (answer = .acquired ∧ pool.activeChildren+1 ≤ min ceiling pool.maxChildren ∧
      pool' = { pool with activeChildren := pool.activeChildren+1 }) := by
  unfold takeChildSlot at h
  dsimp only at h
  split_ifs at h with h1 h2 h3
  · cases h
    exact .inl ⟨by simp,rfl⟩
  · cases h
    exact .inr ⟨rfl,h3,rfl⟩
  · cases h
    exact .inl ⟨by simp,rfl⟩

theorem release_child_slot_ok (h : pool.releaseChildSlot = .ok pool') :
    0 < pool.activeChildren ∧ pool' = { pool with activeChildren := pool.activeChildren-1 } := by
  unfold releaseChildSlot at h
  split_ifs at h with h1
  cases h
  exact ⟨by omega,rfl⟩

theorem sound_step (op : SharedOp) (h : Sound limits w) : Sound limits (w.step op).1 := by
  cases op with
  | launch l => exact sound_launch l h
  | run k amb answer =>
    simp only [step]
    split
    · exact h
    · rename_i l s hk
      rcases l.move_cases s w.pool amb answer with hm | hm
      · obtain ⟨hlt,hget⟩ := List.getElem?_eq_some_iff.mp hk
        simp only [hm]
        rw [← hget, List.set_getElem_self]
        exact h
      · exact sound_run h hk hm
  | takeIteration expired =>
    simp only [step]
    cases hc : w.pool.takeIteration expired with
    | mk pool ok =>
      cases ok with
      | true =>
        obtain ⟨hroom,rfl⟩ := take_iteration_true hc
        exact h.charge (charge_iteration hroom)
      | false =>
        rw [take_iteration_false hc]
        exact h
  | takeToolSlots expired requested =>
    simp only [step, checkedToolSlots]
    split
    · exact h
    · rename_i pool count hc
      split_ifs at hc
      have hpool := congrArg Prod.fst (Except.ok.inj hc)
      dsimp only at hpool
      subst hpool
      exact h.charge (charge_tool_slots _ _ _)
  | reserveChild expired callId ceiling =>
    simp only [step]
    split
    · exact h
    · rename_i hr
      exact sound_reserve h hr
  | takeChildSlot expired ceiling =>
    simp only [step]
    split
    · exact h
    · rename_i hr
      have hactive := h.active
      rcases take_child_slot_ok hr with ⟨-,rfl⟩ | ⟨-,-,rfl⟩
      · exact h
      · exact sound_children h rfl h.children (by dsimp only; omega)
  | releaseChildSlot =>
    simp only [step]
    split
    · exact h
    · rename_i hr
      obtain ⟨hpos,rfl⟩ := release_child_slot_ok hr
      exact sound_children h rfl h.children (by dsimp only; omega)

def reservedIds (trace : List (SharedOp × SharedAnswer)) : List String :=
  trace.filterMap (fun e => match e with
    | (.reserveChild _ callId _,.reserved true) => some callId
    | _ => none)

def heldSlots (trace : List (SharedOp × SharedAnswer)) : ℤ :=
  (trace.countP (fun e => decide (e.2 = .slot .acquired)) : ℤ)-
    trace.countP (fun e => decide (e.2 = .released))

theorem reserved_append (a b : List (SharedOp × SharedAnswer)) :
    reservedIds (a ++ b) = reservedIds a ++ reservedIds b := List.filterMap_append

theorem held_append (a b : List (SharedOp × SharedAnswer)) :
    heldSlots (a ++ b) = heldSlots a+heldSlots b := by
  simp only [heldSlots, List.countP_append]
  push_cast
  omega

/-- An operation that neither reserves nor holds anything. -/
theorem ledger_quiet {op : SharedOp} {answer : SharedAnswer}
    (hc : pool'.childCalls = pool.childCalls ∧ pool'.activeChildren = pool.activeChildren)
    (hr : reservedIds [(op,answer)] = []) (hh : heldSlots [(op,answer)] = 0) :
    pool'.childCalls = pool.childCalls ++ reservedIds [(op,answer)] ∧
    pool'.activeChildren = pool.activeChildren+heldSlots [(op,answer)] := by
  rw [hr, hh, List.append_nil, add_zero]
  exact hc

/-- The pool's own books agree with what its callers were told. -/
theorem step_ledger (w : SharedRuns) (op : SharedOp) :
    (w.step op).1.pool.childCalls = w.pool.childCalls ++ reservedIds [(op,(w.step op).2)] ∧
    (w.step op).1.pool.activeChildren = w.pool.activeChildren+heldSlots [(op,(w.step op).2)] := by
  cases op with
  | launch l => exact ledger_quiet ⟨rfl,rfl⟩ rfl rfl
  | run k amb answer =>
    simp only [step]
    split
    · exact ledger_quiet ⟨rfl,rfl⟩ rfl rfl
    · rename_i l s hk
      rcases l.move_cases s w.pool amb answer with hm | hm
      · rw [hm]
        exact ledger_quiet ⟨rfl,rfl⟩ rfl rfl
      · obtain ⟨i,t,hc,-,-⟩ := move_charge hm
        exact ledger_quiet hc.children rfl rfl
  | takeIteration expired =>
    simp only [step, takeIteration]
    split_ifs <;> exact ledger_quiet ⟨rfl,rfl⟩ rfl rfl
  | takeToolSlots expired requested =>
    simp only [step, checkedToolSlots, takeToolSlots]
    split_ifs <;> exact ledger_quiet ⟨rfl,rfl⟩ rfl rfl
  | reserveChild expired callId ceiling =>
    simp only [step, reserveChild]
    split_ifs
    · exact ledger_quiet ⟨rfl,rfl⟩ rfl rfl
    · exact ledger_quiet ⟨rfl,rfl⟩ rfl rfl
    · exact ledger_quiet ⟨rfl,rfl⟩ rfl rfl
    · exact ⟨rfl,by simp [heldSlots]⟩
  | takeChildSlot expired ceiling =>
    simp only [step]
    split
    · exact ledger_quiet ⟨rfl,rfl⟩ rfl rfl
    · rename_i answer hr
      rcases take_child_slot_ok hr with ⟨hne,rfl⟩ | ⟨rfl,-,rfl⟩
      · exact ledger_quiet ⟨rfl,rfl⟩ rfl (by simp [heldSlots, hne])
      · exact ⟨(List.append_nil _).symm,by simp [heldSlots]⟩
  | releaseChildSlot =>
    simp only [step]
    split
    · exact ledger_quiet ⟨rfl,rfl⟩ rfl rfl
    · rename_i hr
      obtain ⟨-,rfl⟩ := release_child_slot_ok hr
      exact ⟨(List.append_nil _).symm,by simp [heldSlots, sub_eq_add_neg]⟩

theorem run_ledger (w : SharedRuns) (ops : List SharedOp) :
    (Library.Machine.final step w ops).pool.childCalls =
      w.pool.childCalls ++ reservedIds (Library.Machine.trace step w ops) ∧
    (Library.Machine.final step w ops).pool.activeChildren =
      w.pool.activeChildren+heldSlots (Library.Machine.trace step w ops) := by
  induction ops generalizing w with
  | nil => simp [Library.Machine.final, Library.Machine.trace, reservedIds, heldSlots]
  | cons op ops ih =>
    obtain ⟨hc,ha⟩ := ih (w.step op).1
    obtain ⟨hc',ha'⟩ := step_ledger w op
    simp only [Library.Machine.final, Library.Machine.trace]
    rw [hc, ha, hc', ha', List.append_assoc, add_assoc, ← reserved_append, ← held_append]
    exact ⟨rfl,rfl⟩

structure NeverExceeded (limits : AggregateRunBudget) (trace : List (SharedOp × SharedAnswer))
    (w : SharedRuns) : Prop where
  iterations : w.startedIterations ≤ limits.maxIterations
  toolCalls : w.admittedIntents ≤ limits.maxToolCalls
  children : (reservedIds trace).Nodup ∧ (reservedIds trace).length ≤ limits.maxChildren
  held : 0 ≤ heldSlots trace
  acquired : ∀ expired ceiling, (w.step (.takeChildSlot expired ceiling)).2 = .slot .acquired →
    heldSlots (trace ++ [(.takeChildSlot expired ceiling,.slot .acquired)]) ≤
      min ceiling limits.maxChildren
  runs : ∀ r ∈ w.runs, r.2.iterationsUsed ≤ r.1.request.budget.maxIterations ∧
    r.2.toolCallsUsed ≤ r.1.request.budget.maxToolCalls ∧
    (invokedIds r.2.log).length ≤ r.2.toolCallsUsed

/-- Any runs, any strategies and any interleaving with the pool's operations. -/
theorem shared_budget_never_exceeded (maxIterations maxToolCalls maxChildren : ℕ)
    (ops : List SharedOp) :
    NeverExceeded ⟨maxIterations,maxToolCalls,maxChildren,0,0,[],0⟩
      (Library.Machine.trace step ⟨⟨maxIterations,maxToolCalls,maxChildren,0,0,[],0⟩,[]⟩ ops)
      (Library.Machine.final step ⟨⟨maxIterations,maxToolCalls,maxChildren,0,0,[],0⟩,[]⟩ ops) := by
  have hsound := Library.Machine.final_invariant step
    (Sound ⟨maxIterations,maxToolCalls,maxChildren,0,0,[],0⟩) (fun w op h => sound_step op h)
    ⟨⟨maxIterations,maxToolCalls,maxChildren,0,0,[],0⟩,[]⟩ ops
    ⟨⟨rfl,rfl,rfl⟩,⟨le_rfl,Nat.zero_le _⟩,⟨le_rfl,Nat.zero_le _⟩,⟨List.nodup_nil,Nat.zero_le _⟩,
      le_rfl,by simp⟩
  obtain ⟨hc,ha⟩ := run_ledger ⟨⟨maxIterations,maxToolCalls,maxChildren,0,0,[],0⟩,[]⟩ ops
  rw [List.nil_append] at hc
  rw [zero_add] at ha
  refine ⟨hsound.iterations.1.trans hsound.iterations.2,
    hsound.toolCalls.1.trans hsound.toolCalls.2,hc ▸ hsound.children,ha ▸ hsound.active,?_,?_⟩
  · intro expired ceiling htaken
    simp only [step] at htaken
    split at htaken
    · cases htaken
    · rename_i answer hr
      rcases take_child_slot_ok hr with ⟨hne,-⟩ | ⟨-,hroom,-⟩
      · exact absurd (SharedAnswer.slot.inj htaken) hne
      · rw [held_append, ← ha]
        rw [hsound.sameLimits.2.2] at hroom
        simpa [heldSlots] using hroom
  · intro r hr
    obtain ⟨-,hu,hb⟩ := hsound.runs r hr
    have hpaid := hu.paid
    rw [RunState.claimedIds, List.length_append] at hpaid
    exact ⟨hb.iterations,hb.toolCalls,by omega⟩

end SharedRuns

end SuiteHarness.Execution
