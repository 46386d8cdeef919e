import SuiteHarness.Execution.Evidence
import SuiteHarness.Execution.Registry

/-!
# Visible tools and admitted calls

The frame of an iteration advertises the tools that `_visible_tools` finds
through the names of the grant; `_execute_intent` resolves the name the workflow
chose. Over a registry in any reachable state the two agree: an advertised name
passes the gates with the very registration that was advertised, any other name
is refused by them.
-/

set_option autoImplicit false

namespace SuiteHarness.Execution
open SuiteHarness.Library

def gateRefusals : List Refusal :=
  [.denied .toolNotGranted "tool is unavailable for this grant",
    .denied .capabilityDenied "tool requires capabilities not present in the product grant",
    .denied .readOnlyDenied "non-read tool is blocked for a read-only run",
    .denied .policyDenied "only trusted read tools are available during resume"]

structure Passes (request : RunRequest) (grant : CapabilityGrant)
    (tools : String → Option RegisteredTool) (name : String) (reg : RegisteredTool) : Prop where
  resolved : tools name = some reg
  identity : reg.identity ∈ grant.toolIdentities
  capabilities : reg.spec.requiredCapabilities ⊆ grant.capabilities
  readOnly : ¬ (request.readOnly = true ∧ reg.spec.isRead = false)
  resume : ¬ (request.resume.isSome = true ∧ safeRegistration tools name = false)

variable {cfg : RunnerConfig} {intent : ToolIntent} {name : String}

section Agreement
variable {request : RunRequest} {amb : Ambient} {grant : CapabilityGrant}
variable {tools : String → Option RegisteredTool} {reg : RegisteredTool} {spec : ToolSpec}

theorem checked_call_past (cfg : RunnerConfig) (amb : Ambient) (intent : ToolIntent)
    (reg : RegisteredTool) :
    ∀ refusal ∈ gateRefusals, checkedCall cfg amb intent reg ≠ .error refusal := by
  intro refusal hmem heq
  unfold checkedCall at heq
  split at heq
  · cases heq
    exact absurd hmem (by decide)
  · cases heq
    exact absurd hmem (by decide)
  · simp only at heq
    split_ifs at heq
    · cases heq
      exact absurd hmem (by decide)
    · cases heq
      exact absurd hmem (by decide)

theorem admission_passes (hp : Passes request grant amb.tools intent.toolName reg) :
    admission cfg request amb intent (amb.tools intent.toolName) grant =
      checkedCall cfg amb intent reg := by
  rw [hp.resolved]
  simp only [admission]
  rw [if_neg (not_not.mpr hp.identity), if_neg (not_not.mpr hp.capabilities), if_neg hp.readOnly,
    if_neg hp.resume]

theorem admission_refused (cfg : RunnerConfig)
    (h : ∀ reg, ¬ Passes request grant amb.tools intent.toolName reg) :
    ∃ refusal ∈ gateRefusals,
      admission cfg request amb intent (amb.tools intent.toolName) grant = .error refusal := by
  cases hr : amb.tools intent.toolName with
  | none => exact ⟨_,List.mem_cons_self,rfl⟩
  | some reg =>
    simp only [admission]
    by_cases hidentity : reg.identity ∈ grant.toolIdentities
    · by_cases hcapabilities : reg.spec.requiredCapabilities ⊆ grant.capabilities
      · by_cases hread : request.readOnly = true ∧ reg.spec.isRead = false
        · rw [if_neg (not_not.mpr hidentity), if_neg (not_not.mpr hcapabilities), if_pos hread]
          exact ⟨_,by simp [gateRefusals],rfl⟩
        · have hresume : request.resume.isSome = true ∧
              safeRegistration amb.tools intent.toolName = false := by
            by_contra hresume
            exact h reg ⟨hr,hidentity,hcapabilities,hread,hresume⟩
          rw [if_neg (not_not.mpr hidentity), if_neg (not_not.mpr hcapabilities), if_neg hread,
            if_pos hresume]
          exact ⟨_,by simp [gateRefusals],rfl⟩
      · rw [if_neg (not_not.mpr hidentity), if_pos hcapabilities]
        exact ⟨_,by simp [gateRefusals],rfl⟩
    · rw [if_pos hidentity]
      exact ⟨_,by simp [gateRefusals],rfl⟩

theorem visible_tool_some : visibleTool request grant tools name = some spec ↔
    ∃ reg, Passes request grant tools name reg ∧ reg.spec = spec := by
  constructor
  · intro h
    unfold visibleTool at h
    split at h
    · cases h
    · rename_i reg hr
      split_ifs at h with h1 h2 h3 h4
      exact ⟨reg,⟨hr,h1,h2,h3,h4⟩,Option.some.inj h⟩
  · rintro ⟨reg,hp,rfl⟩
    rw [visibleTool, hp.resolved]
    simp only
    rw [if_neg (not_not.mpr hp.identity), if_neg (not_not.mpr hp.capabilities), if_neg hp.readOnly,
      if_neg hp.resume]

def Named (tools : String → Option RegisteredTool) : Prop :=
  ∀ name reg, tools name = some reg → reg.identity.name = name ∧ reg.spec.name = name

/-- The names of the grant are enough: a tool that passes the gates has its name there. -/
theorem mem_visible_tools (hn : Named tools) : spec ∈ visibleTools request grant tools ↔
    ∃ reg, Passes request grant tools spec.name reg ∧ reg.spec = spec := by
  simp only [visibleTools, List.mem_filterMap, Finset.mem_sort, Finset.mem_image]
  constructor
  · rintro ⟨name,-,hv⟩
    obtain ⟨reg,hp,rfl⟩ := visible_tool_some.mp hv
    obtain rfl := (hn name reg hp.resolved).2
    exact ⟨reg,hp,rfl⟩
  · rintro ⟨reg,hp,hs⟩
    exact ⟨spec.name,⟨reg.identity,hp.identity,(hn _ reg hp.resolved).1⟩,
      visible_tool_some.mpr ⟨reg,hp,hs⟩⟩

theorem visible_name_iff (hn : Named tools) :
    (∃ spec ∈ visibleTools request grant tools, spec.name = name) ↔
      ∃ reg, Passes request grant tools name reg := by
  constructor
  · rintro ⟨spec,hs,rfl⟩
    obtain ⟨reg,hp,-⟩ := (mem_visible_tools hn).mp hs
    exact ⟨reg,hp⟩
  · rintro ⟨reg,hp⟩
    have hname := (hn name reg hp.resolved).2
    refine ⟨reg.spec,(mem_visible_tools hn).mpr ⟨reg,?_,rfl⟩,hname⟩
    rw [hname]
    exact hp

theorem visible_names_distinct (hn : Named tools) :
    ((visibleTools request grant tools).map (fun spec => spec.name)).Nodup := by
  have hname : ∀ names : List String, names.Nodup → (((names.filterMap
      (visibleTool request grant tools)).map (fun spec => spec.name)).Nodup) := by
    intro names hnames
    induction names with
    | nil => exact List.nodup_nil
    | cons name rest ih =>
      obtain ⟨hfresh,hrest⟩ := List.nodup_cons.mp hnames
      cases hv : visibleTool request grant tools name with
      | none =>
        rw [List.filterMap_cons_none hv]
        exact ih hrest
      | some spec =>
        rw [List.filterMap_cons_some hv, List.map_cons, List.nodup_cons]
        refine ⟨fun hmem => hfresh ?_,ih hrest⟩
        obtain ⟨other,hother,hsame⟩ := List.mem_map.mp hmem
        obtain ⟨m,hm,hvm⟩ := List.mem_filterMap.mp hother
        obtain ⟨reg,hp,rfl⟩ := visible_tool_some.mp hv
        obtain ⟨reg',hp',rfl⟩ := visible_tool_some.mp hvm
        rw [(hn m reg' hp'.resolved).2, (hn name reg hp.resolved).2] at hsame
        exact hsame ▸ hm
  exact hname _ (Finset.sort_nodup _ _)

end Agreement

/-! One call from its first step to its end. -/

def callEvents (cfg : RunnerConfig) (request : RunRequest) (tag : CallTag) (intent : ToolIntent)
    (duplicate : Bool) : TaskPhase → List (Ambient × TaskAnswer) → List Event
  | _, [] => []
  | phase, x::rest => match taskStep cfg request x.1 tag intent duplicate phase x.2 with
    | none => callEvents cfg request tag intent duplicate phase rest
    | some r => r.events ++ match r.next with
      | none => []
      | some next => callEvents cfg request tag intent duplicate next rest

variable (request : RunRequest) (grant : CapabilityGrant) (tools : String → Option RegisteredTool)

def Steady (x : Ambient × TaskAnswer) : Prop :=
  x.1.tools = tools ∧ ∀ found other, x.2 = .granted found →
    checkGrant request x.1.now found = .ok other → other = grant

def Held (name : String) : TaskPhase → Prop
  | .granting _ registered => registered = tools name
  | .approving _ reg _ | .starting _ reg _ _ | .announcing _ reg _ =>
    Passes request grant tools name reg
  | _ => True

def Gated (name : String) : Event → Prop
  | .policyAnswered _ _ | .approvalObtained _ _ _ => ∃ reg, Passes request grant tools name reg
  | .invoked _ _ reg => Passes request grant tools name reg
  | _ => True

section Calls
variable {request : RunRequest} {grant : CapabilityGrant} {tools : String → Option RegisteredTool}
variable {tag : CallTag} {duplicate : Bool} {phase : TaskPhase}

theorem spent_held (h : phase.spent = true) : Held request grant tools name phase := by
  cases phase <;> trivial

theorem plain_gated {e : Event} (h : e.plain = true) : Gated request grant tools name e := by
  cases e <;> trivial

theorem held_step {x : Ambient × TaskAnswer} {r : TaskStep} (hx : Steady request grant tools x)
    (hh : Held request grant tools intent.toolName phase)
    (h : taskStep cfg request x.1 tag intent duplicate phase x.2 = some r) :
    (∀ next, r.next = some next → Held request grant tools intent.toolName next) ∧
    ∀ e ∈ r.events, Gated request grant tools intent.toolName e := by
  obtain ⟨htools,hgrant⟩ := hx
  cases phase with
  | waiting =>
    obtain ⟨hevents,hnext⟩ := waiting_step h
    refine ⟨fun next hn => ?_,fun e he => ?_⟩
    · rcases hnext next hn with hspent | ⟨-,rfl,-⟩
      · exact spent_held hspent
      · rw [htools]
        rfl
    · rcases hevents e he with hplain | rfl
      · exact plain_gated hplain
      · trivial
  | granting startedAt registered =>
    obtain rfl : registered = tools intent.toolName := hh
    rcases granting_step h with ⟨hnone,hspent⟩ | ⟨found,answer,reg,needed,hanswer,hg,hallow,rfl⟩
    · refine ⟨fun next hn => spent_held (hspent next hn),fun e he => ?_⟩
      rw [hnone] at he
      cases he
    · obtain rfl := hgrant answer found hanswer hg
      obtain ⟨hr,hidentity,hcapabilities,hread,hresume,-⟩ := admission_ok hallow
      rw [htools] at hresume
      have hp : Passes request found tools intent.toolName reg := by
        refine ⟨hr,hidentity,hcapabilities,?_,?_⟩
        · rintro ⟨hreadOnly,hnot⟩
          rw [hread hreadOnly] at hnot
          cases hnot
        · rintro ⟨hsome,hnot⟩
          rw [hresume hsome] at hnot
          cases hnot
      refine ⟨fun next hn => ?_,fun e he => ?_⟩
      · cases hn
        split_ifs
        · exact hp
        · exact hp
      · simp only [List.mem_append, List.mem_singleton] at he
        rcases he with (rfl | he) | he
        · trivial
        · split_ifs at he
          · rw [List.mem_singleton.mp he]
            trivial
          · cases he
        · split_ifs at he
          · rw [List.mem_singleton.mp he]
            exact ⟨reg,hp⟩
          · cases he
  | approving startedAt reg found =>
    rcases approving_step h with ⟨hnone,hspent⟩ | ⟨binding,-,rfl⟩
    · refine ⟨fun next hn => spent_held (hspent next hn),fun e he => ?_⟩
      rw [hnone] at he
      cases he
    · refine ⟨fun next hn => ?_,fun e he => ?_⟩
      · cases hn
        exact hh
      · rw [List.mem_singleton.mp he]
        exact ⟨reg,hh⟩
  | starting startedAt reg found approvedBy =>
    obtain ⟨hplain,hnext⟩ := starting_step h
    refine ⟨fun next hn => ?_,fun e he => plain_gated (hplain e he)⟩
    obtain ⟨rfl,-⟩ := hnext next hn
    exact hh
  | announcing startedAt reg found =>
    rcases announcing_step h with rfl | ⟨announced,hplain,rfl⟩
    · exact ⟨by simp,by simp⟩
    · refine ⟨fun next hn => ?_,fun e he => ?_⟩
      · cases hn
        trivial
      · rcases List.mem_cons.mp he with rfl | he
        · exact plain_gated hplain
        · rw [List.mem_singleton.mp he]
          exact hh
  | running | storing | finishing | denying | failing | observed | done | dead =>
    have hspends := spent_step rfl h
    exact ⟨fun next hn => spent_held (hspends.1 next hn),fun e he => plain_gated (hspends.2 e he)⟩

theorem call_events_gated (phase : TaskPhase) (inputs : List (Ambient × TaskAnswer))
    (hx : ∀ x ∈ inputs, Steady request grant tools x)
    (hh : Held request grant tools intent.toolName phase) :
    ∀ e ∈ callEvents cfg request tag intent duplicate phase inputs,
      Gated request grant tools intent.toolName e := by
  induction inputs generalizing phase with
  | nil =>
    intro e he
    cases he
  | cons x rest ih =>
    have hrest : ∀ y ∈ rest, Steady request grant tools y :=
      fun y hy => hx y (List.mem_cons_of_mem x hy)
    intro e he
    rw [callEvents] at he
    split at he
    · exact ih _ hrest hh e he
    · rename_i r hr
      obtain ⟨hnext,hevents⟩ := held_step (hx x List.mem_cons_self) hh hr
      rcases List.mem_append.mp he with he | he
      · exact hevents e he
      · split at he
        · cases he
        · rename_i next hn
          exact ih _ hrest (hnext next hn) e he

end Calls

structure VisibilityAgrees (request : RunRequest) (grant : CapabilityGrant)
    (tools : String → Option RegisteredTool) : Prop where
  shown : ∀ cfg strategies (amb : Ambient) (s : RunState) pool i found, amb.tools = tools →
    checkGrant request amb.now found = .ok grant → ∃ t frame,
    RunState.step cfg request strategies amb s pool (.granting i) (.granted found) = some (t,pool) ∧
    t.phase = .prompting i frame ∧ frame.availableTools = visibleTools request grant tools
  distinct : ((visibleTools request grant tools).map (fun spec => spec.name)).Nodup
  agrees : ∀ cfg (amb : Ambient) (intent : ToolIntent), amb.tools = tools →
    ((∃ spec ∈ visibleTools request grant tools, spec.name = intent.toolName) ↔
      ∀ refusal ∈ gateRefusals,
        admission cfg request amb intent (tools intent.toolName) grant ≠ .error refusal)
  advertised : ∀ cfg (amb : Ambient) (intent : ToolIntent), amb.tools = tools →
    ∀ spec ∈ visibleTools request grant tools, spec.name = intent.toolName →
    ∃ reg, tools intent.toolName = some reg ∧ reg.spec = spec ∧
      admission cfg request amb intent (tools intent.toolName) grant =
        checkedCall cfg amb intent reg
  refused : ∀ cfg (amb : Ambient) (intent : ToolIntent), amb.tools = tools →
    (∀ spec ∈ visibleTools request grant tools, spec.name ≠ intent.toolName) →
    ∃ refusal ∈ gateRefusals,
      admission cfg request amb intent (tools intent.toolName) grant = .error refusal
  calls : ∀ cfg tag (intent : ToolIntent) duplicate inputs,
    (∀ x ∈ inputs, Steady request grant tools x) →
    ∀ e ∈ callEvents cfg request tag intent duplicate .waiting inputs, match e with
      | .policyAnswered _ _ | .approvalObtained _ _ _ =>
        ∃ spec ∈ visibleTools request grant tools, spec.name = intent.toolName
      | .invoked _ _ reg => tools intent.toolName = some reg ∧
        reg.spec ∈ visibleTools request grant tools ∧ reg.spec.name = intent.toolName
      | _ => True

theorem visibility_agrees {tools : String → Option RegisteredTool} (hn : Named tools)
    (request : RunRequest) (grant : CapabilityGrant) : VisibilityAgrees request grant tools where
  shown := by
    intro cfg strategies amb s pool i found htools hgrant
    simp only [RunState.step, hgrant]
    exact ⟨_,_,rfl,rfl,by rw [htools]⟩
  distinct := visible_names_distinct hn
  agrees := by
    rintro cfg amb intent rfl
    rw [visible_name_iff hn]
    constructor
    · rintro ⟨reg,hp⟩ refusal hmem
      rw [admission_passes hp]
      exact checked_call_past cfg amb intent reg refusal hmem
    · intro h
      by_contra hnone
      obtain ⟨refusal,hmem,heq⟩ := admission_refused cfg (not_exists.mp hnone)
      exact h refusal hmem heq
  advertised := by
    rintro cfg amb intent rfl spec hs hname
    obtain ⟨reg,hp,hspec⟩ := (mem_visible_tools hn).mp hs
    rw [hname] at hp
    exact ⟨reg,hp.resolved,hspec,admission_passes hp⟩
  refused := by
    rintro cfg amb intent rfl hnone
    refine admission_refused cfg (fun reg hp => ?_)
    obtain ⟨spec,hs,hname⟩ := (visible_name_iff hn).mpr ⟨reg,hp⟩
    exact hnone spec hs hname
  calls := by
    intro cfg tag intent duplicate inputs hx e he
    have hgated := call_events_gated .waiting inputs hx trivial e he
    cases e with
    | policyAnswered | approvalObtained => exact (visible_name_iff hn).mpr hgated
    | invoked t i reg =>
      have hname := (hn _ reg hgated.resolved).2
      refine ⟨hgated.resolved,(mem_visible_tools hn).mpr ⟨reg,?_,rfl⟩,hname⟩
      rw [hname]
      exact hgated
    | _ => trivial

theorem resolve_named {s : ToolRegistry} (hs : ToolRegistry.Sound s) (scope : RequestScope) :
    Named (s.resolve scope) := by
  intro name reg h
  obtain ⟨candidate,-,hfound⟩ := List.exists_of_findSome?_eq_some h
  obtain ⟨entry,hentry,rfl⟩ := Option.map_eq_some_iff.mp hfound
  obtain ⟨hname,hidentity,-⟩ := hs.keyed _ entry hentry
  exact ⟨hidentity.trans hname.symm,hname.symm⟩

/-- In every reachable registry, for every request and grant. -/
theorem tool_visibility_agrees_with_admission (pkg : SchemaPackage) (self : ℕ)
    (ops : List RegistryOp) (request : RunRequest) (grant : CapabilityGrant) :
    VisibilityAgrees request grant
      ((Machine.final (ToolRegistry.step pkg self) {} ops).resolve request.scope) :=
  visibility_agrees (resolve_named (ToolRegistry.sound_run pkg self {} ops
    ToolRegistry.sound_initial) request.scope) request grant

end SuiteHarness.Execution
