import SuiteHarness.Models.Gateway

/-!
# One answer per stream

A stream's run is a list of provider calls followed by events of the last one:
once an event was delivered no error leads to another attempt. While every attempt
fails before it emits, the two loops of the gateway make the same calls, up to the
first stream whose opening raises: that one is neither retried nor followed by a
fallback.
-/

set_option autoImplicit false

namespace SuiteHarness.Models
open ModelGateway

/-! ## One attempt -/

structure PassedOn (parallel : Bool) (own source : List ModelStreamEvent) : Prop where
  begins : own <+: source
  foreign : ∀ e ∈ own, e.type ≠ .contextCompacted ∧ e.preparedMessages = none
  single : parallel = false → ∃ ids : List String, ids.length ≤ 1 ∧
    ∀ e ∈ own, ∀ c, e.toolCall = some c → c.callId ∈ ids

theorem add_call_id_subset (ids : List String) (event : ModelStreamEvent) : ids ⊆ addCallId ids event := by
  rw [addCallId]
  split
  · exact List.Subset.refl ids
  · split
    · exact List.Subset.refl ids
    · exact List.subset_cons_self _ _

theorem add_call_id_mem {ids : List String} {event : ModelStreamEvent} {c : ModelToolCall}
    (h : event.toolCall = some c) : c.callId ∈ addCallId ids event := by
  rw [addCallId, h]
  simp only
  split
  · assumption
  · exact List.mem_cons_self

section Attempts
variable (profile : ModelProfile) (parallel : Bool) (prepared : PreparedContext) (ending : AttemptEnd)
  (source : List ModelStreamEvent)

/-- What the loop over one provider stream delivers, with the ids it knew before. -/
theorem emit_spec (emitted : Bool) (ids : List String) (hids : parallel = false → ids.length ≤ 1) :
    ∃ own, own <+: source ∧ (∀ e ∈ own, e.type ≠ .contextCompacted ∧ e.preparedMessages = none) ∧
      (parallel = false → ∃ more : List String, more.length ≤ 1 ∧ ids ⊆ more ∧
        ∀ e ∈ own, ∀ c, e.toolCall = some c → c.callId ∈ more) ∧
      (emit profile parallel prepared ending emitted ids source).delivered =
        (if emitted ∨ own = [] then [] else lead prepared)++own ∧
      ((emit profile parallel prepared ending emitted ids source).emitted = true ↔
        emitted = true ∨ own ≠ []) := by
  induction source generalizing emitted ids with
  | nil => exact ⟨[], List.nil_prefix,by simp,fun h => ⟨ids,hids h,List.Subset.refl ids,by simp⟩,
      by simp [emit],by simp [emit]⟩
  | cons event rest ih =>
    by_cases howned : event.type = .contextCompacted ∨ event.preparedMessages.isSome
    · exact ⟨[], List.nil_prefix,by simp,fun h => ⟨ids,hids h,List.Subset.refl ids,by simp⟩,
        by simp [emit, howned],by simp [emit, howned]⟩
    by_cases hcalls : event.toolCall.isSome ∧ 1 < (addCallId ids event).length ∧ !parallel
    · exact ⟨[], List.nil_prefix,by simp,fun h => ⟨ids,hids h,List.Subset.refl ids,by simp⟩,
        by rw [emit, if_neg howned, if_pos hcalls]; simp,
        by rw [emit, if_neg howned, if_pos hcalls]; simp⟩
    -- the event passes, so without parallel calls at most one id is known after it
    have hmore : parallel = false → (addCallId ids event).length ≤ 1 := by
      intro hpar
      by_cases hsome : event.toolCall.isSome
      · by_contra hlong
        exact hcalls ⟨hsome,Nat.lt_of_not_le hlong,by rw [hpar]; rfl⟩
      · rw [addCallId, Option.not_isSome_iff_eq_none.mp hsome]
        exact hids hpar
    obtain ⟨own,hbegins,hforeign,hsingle,hdelivered,-⟩ := ih true (addCallId ids event) hmore
    have hrest : (emit profile parallel prepared ending true (addCallId ids event) rest).emitted = true := by
      obtain ⟨_,_,_,_,_,hemitted⟩ := ih true (addCallId ids event) hmore
      exact hemitted.mpr (Or.inl rfl)
    refine ⟨event::own,(List.prefix_cons_inj event).mpr hbegins,?_,fun hpar => ?_,?_,?_⟩
    · intro e he
      rcases List.mem_cons.mp he with rfl | he
      · rw [not_or, Option.not_isSome_iff_eq_none] at howned
        exact howned
      · exact hforeign e he
    · obtain ⟨more,hlength,hsub,hmem⟩ := hsingle hpar
      refine ⟨more,hlength,fun x hx => hsub (add_call_id_subset ids event hx),fun e he c hc => ?_⟩
      rcases List.mem_cons.mp he with rfl | he
      · exact hsub (add_call_id_mem hc)
      · exact hmem e he c hc
    · rw [emit, if_neg howned, if_neg hcalls]
      simp only [hdelivered]
      cases emitted <;> simp
    · rw [emit, if_neg howned, if_neg hcalls]
      simp [hrest]

theorem attempt_spec : ∃ own, PassedOn parallel own source ∧
      (emit profile parallel prepared ending false [] source).delivered =
        (if own = [] then [] else lead prepared++own) ∧
      ((emit profile parallel prepared ending false [] source).emitted = true ↔ own ≠ []) := by
  obtain ⟨own,hbegins,hforeign,hsingle,hdelivered,hemitted⟩ :=
    emit_spec profile parallel prepared ending source false [] (fun _ => Nat.zero_le 1)
  refine ⟨own,⟨hbegins,hforeign,fun hpar => ?_⟩,?_,by simpa using hemitted⟩
  · obtain ⟨more,hlength,-,hmem⟩ := hsingle hpar
    exact ⟨more,hlength,hmem⟩
  · rw [hdelivered]
    by_cases hown : own = [] <;> simp [hown]

end Attempts

/-! ## Whole runs -/

structure Answer (g : ModelGateway) (providers : Providers) (request : ModelRequest) (first : ℕ)
    (calls : List Call) (events : List ModelStreamEvent) where
  profileId : String
  profile : ModelProfile
  parallel : Bool
  prepared : PreparedContext
  attempt : ℕ
  own : List ModelStreamEvent
  admitted : g.admission profileId request true = .admitted profile parallel prepared
  last : calls.getLast? = some ⟨profile.profileId,attempt,prepared.request⟩
  passed : PassedOn parallel own
    (providers.stream (first+(calls.length-1)) ⟨profile.profileId,attempt,prepared.request⟩).events
  delivered : events <+: lead prepared++own

def Unspliced (g : ModelGateway) (providers : Providers) (request : ModelRequest) (first : ℕ)
    (trace : List Action) : Prop :=
  ∃ calls events, trace = calls.map Action.call++events.map Action.deliver ∧
    (events ≠ [] → Nonempty (Answer g providers request first calls events))

section Runs
variable (g : ModelGateway) (providers : Providers) (request : ModelRequest)

theorem unspliced_nil (first : ℕ) : Unspliced g providers request first [] :=
  ⟨[],[],rfl,fun h => absurd rfl h⟩

/-- Calls that delivered nothing may precede an unspliced run. -/
theorem unspliced_append {first : ℕ} (calls : List Call) {trace : List Action}
    (h : Unspliced g providers request (first+calls.length) trace) :
    Unspliced g providers request first (calls.map Action.call++trace) := by
  obtain ⟨later,events,rfl,hanswer⟩ := h
  refine ⟨calls++later,events,by simp,fun hne => ?_⟩
  obtain ⟨a⟩ := hanswer hne
  have hlater : later ≠ [] := by
    rintro rfl
    cases a.last
  have hpos := List.length_pos_iff.mpr hlater
  have hindex : first+((calls++later).length-1) = first+calls.length+(later.length-1) := by
    rw [List.length_append]
    omega
  exact ⟨{ a with
    last := by rw [List.getLast?_append_of_ne_nil _ hlater, a.last]
    passed := by rw [hindex]; exact a.passed }⟩

theorem unspliced_of_begins {first : ℕ} {seen trace : List Action} (hseen : seen <+: trace)
    (h : Unspliced g providers request first trace) : Unspliced g providers request first seen := by
  obtain ⟨calls,events,rfl,hanswer⟩ := h
  obtain ⟨n,hn⟩ : ∃ n, seen = (calls.map Action.call++events.map Action.deliver).take n :=
    ⟨_,List.prefix_iff_eq_take.mp hseen⟩
  rw [List.take_append, List.length_map, ← List.map_take, ← List.map_take] at hn
  refine ⟨calls.take n,events.take (n-calls.length),hn,fun hne => ?_⟩
  -- an event was delivered, so every call had been made
  have hlong : calls.length ≤ n := by
    by_contra hshort
    exact hne (by rw [Nat.sub_eq_zero_of_le (by omega), List.take_zero])
  have hevents : events ≠ [] := by
    rintro rfl
    exact hne List.take_nil
  obtain ⟨a⟩ := hanswer hevents
  rw [List.take_of_length_le hlong]
  exact ⟨{ a with delivered := ( List.take_prefix _ _).trans a.delivered }⟩

def OutcomeUnspliced (first : ℕ) : Outcome Action Ending → Prop
  | .ended trace _ => Unspliced g providers request first trace
  | .next trace _ calls => ∃ made : List Call, trace = made.map Action.call ∧ calls = first+made.length

theorem outcome_append {first : ℕ} (call : Call) {o : Outcome Action Ending}
    (h : OutcomeUnspliced g providers request (first+1) o) :
    OutcomeUnspliced g providers request first (o.prepend [.call call]) := by
  cases o with
  | ended trace ending => exact unspliced_append g providers request [call] h
  | next trace lastError calls =>
    obtain ⟨made,rfl,rfl⟩ := h
    exact ⟨call::made,rfl,by rw [List.length_cons]; omega⟩

theorem attempts_unspliced {profileId : String} {profile : ModelProfile} {parallel : Bool}
    {prepared : PreparedContext}
    (hadmitted : g.admission profileId request true = .admitted profile parallel prepared)
    (lastError : Option GatewayError) (first attempt left : ℕ) :
    OutcomeUnspliced g providers request first
      (streamAttempts providers profile parallel prepared lastError first attempt left) := by
  induction left generalizing lastError first attempt with
  | zero => exact ⟨[],rfl,rfl⟩
  | succ left ih =>
    obtain ⟨own,hpassed,hdelivered,hemitted⟩ := attempt_spec profile parallel prepared
      (providers.stream first ⟨profile.profileId,attempt,prepared.request⟩).ending
      (providers.stream first ⟨profile.profileId,attempt,prepared.request⟩).events
    -- whatever ends here shows this attempt's own events
    have hended : Unspliced g providers request first
        (Action.call ⟨profile.profileId,attempt,prepared.request⟩::(emit profile parallel prepared
          (providers.stream first ⟨profile.profileId,attempt,prepared.request⟩).ending false []
          (providers.stream first ⟨profile.profileId,attempt,prepared.request⟩).events).delivered.map
            Action.deliver) := by
      refine ⟨[⟨profile.profileId,attempt,prepared.request⟩],_,rfl,fun _ => ⟨⟨profileId,profile,parallel,
        prepared,attempt,own,hadmitted,rfl,hpassed,?_⟩⟩⟩
      rw [hdelivered]
      split
      · exact List.nil_prefix
      · exact List.prefix_refl _
    rw [streamAttempts]
    split
    · exact ⟨[_],[],rfl,fun h => absurd rfl h⟩
    · exact hended
    · exact hended
    · split
      · exact hended
      · rename_i hgo
        have hown : own = [] := by
          by_contra hne
          exact hgo (by rw [hemitted.mpr hne]; rfl)
        rw [hdelivered, if_pos hown] at hended ⊢
        split
        · exact hended
        · split
          · exact outcome_append g providers request _ (ih _ (first+1) (attempt+1))
          · exact ⟨[_],rfl,rfl⟩

theorem profiles_unspliced (profileIds : List String) (lastError : Option GatewayError) (first : ℕ) :
    Unspliced g providers request first
      (g.streamProfiles providers request lastError first profileIds).1 := by
  induction profileIds generalizing lastError first with
  | nil => exact unspliced_nil g providers request first
  | cons profileId rest ih =>
    rw [streamProfiles]
    split
    · exact unspliced_nil g providers request first
    · exact ih _ first
    · rename_i p parallel prepared hadmitted
      have hattempts := attempts_unspliced g providers request hadmitted lastError first 0 (p.maxRetries+1)
      split
      · rename_i heq
        rw [heq] at hattempts
        exact hattempts
      · rename_i heq
        rw [heq] at hattempts
        obtain ⟨made,rfl,rfl⟩ := hattempts
        split
        · simpa using unspliced_append g providers request made
            (unspliced_nil g providers request _)
        · exact unspliced_append g providers request made (ih _ _)

end Runs

/-! ## The number of calls -/

def callsOf (trace : List Action) : List Call :=
  trace.filterMap fun
    | .call c => some c
    | .deliver _ => none

theorem calls_of_append (a b : List Action) : callsOf (a++b) = callsOf a++callsOf b :=
  List.filterMap_append

theorem calls_of_deliver (events : List ModelStreamEvent) : callsOf (events.map Action.deliver) = [] := by
  rw [callsOf, List.filterMap_map]
  exact List.filterMap_eq_nil_iff.mpr (fun _ _ => rfl)

def Outcome.trace {α ε : Type} : Outcome α ε → List α
  | .ended trace _ => trace
  | .next trace _ _ => trace

@[simp] theorem Outcome.trace_prepend {α ε : Type} (trace : List α) (o : Outcome α ε) :
    (o.prepend trace).trace = trace++o.trace := by
  cases o <;> rfl

theorem stream_attempts_calls (providers : Providers) (profile : ModelProfile) (parallel : Bool)
    (prepared : PreparedContext) (lastError : Option GatewayError) (calls attempt left : ℕ) :
    (callsOf (streamAttempts providers profile parallel prepared lastError calls attempt left).trace).length
      ≤ left := by
  induction left generalizing lastError calls attempt with
  | zero => exact Nat.zero_le _
  | succ left ih =>
    have hone : ∀ events : List ModelStreamEvent,
        callsOf (Action.call ⟨profile.profileId,attempt,prepared.request⟩::events.map Action.deliver) =
          [⟨profile.profileId,attempt,prepared.request⟩] := by
      intro events
      rw [← List.singleton_append, calls_of_append, calls_of_deliver]
      rfl
    rw [streamAttempts]
    split
    · simp [Outcome.trace, callsOf]
    · simp [Outcome.trace, hone]
    · simp [Outcome.trace, hone]
    · split
      · simp [Outcome.trace, hone]
      · split
        · simp [Outcome.trace, hone]
        · split
          · rw [Outcome.trace_prepend, calls_of_append, hone, List.length_append,
              List.length_singleton, Nat.add_comm]
            exact Nat.succ_le_succ (ih _ _ _)
          · simp [Outcome.trace, hone]

namespace ModelGateway
variable (g : ModelGateway)

def attemptsOf (profileId : String) : ℕ := (g.profiles profileId).elim 0 (fun p => p.maxRetries+1)

def attemptBound (routeId : String) : ℕ :=
  (g.routes routeId).elim 0
    (fun r => ((r.primaryProfile::r.fallbackProfiles).map g.attemptsOf).sum)

theorem admitted_profile {profileId : String} {request : ModelRequest} {streaming : Bool}
    {p : ModelProfile} {parallel : Bool} {prepared : PreparedContext}
    (h : g.admission profileId request streaming = .admitted p parallel prepared) :
    g.profiles profileId = some p := by
  rw [admission, profile] at h
  cases hp : g.profiles profileId with
  | none => rw [hp] at h; cases h
  | some q =>
    rw [hp] at h
    simp only at h
    split at h
    · cases h
    · split at h
      · cases h
      · cases h
      · split at h <;> cases h
        rfl

theorem stream_profiles_calls (providers : Providers) (request : ModelRequest) (profileIds : List String)
    (lastError : Option GatewayError) (calls : ℕ) :
    (callsOf (g.streamProfiles providers request lastError calls profileIds).1).length ≤
      (profileIds.map g.attemptsOf).sum := by
  induction profileIds generalizing lastError calls with
  | nil => exact Nat.zero_le _
  | cons profileId rest ih =>
    rw [List.map_cons, List.sum_cons, streamProfiles]
    split
    · exact Nat.zero_le _
    · exact (ih _ _).trans (Nat.le_add_left _ _)
    · rename_i p parallel prepared hadmitted
      have hbound : g.attemptsOf profileId = p.maxRetries+1 := by
        rw [attemptsOf, g.admitted_profile hadmitted]
        rfl
      have hattempts := stream_attempts_calls providers p parallel prepared lastError calls 0
        (p.maxRetries+1)
      split
      · rename_i heq
        rw [heq] at hattempts
        rw [hbound]
        exact hattempts.trans (Nat.le_add_right _ _)
      · rename_i lastError' calls' heq
        rw [heq] at hattempts
        split
        · rw [hbound]
          exact hattempts.trans (Nat.le_add_right _ _)
        · simp only [calls_of_append, List.length_append, hbound]
          exact Nat.add_le_add hattempts (ih _ _)

end ModelGateway

/-! ## Both loops while nothing is emitted -/

/-- Each call raises its error: a completion when it is awaited, a stream when it is opened or
before its first event. -/
def FailsEarly (providers : Providers) (failure : ℕ → Call → ModelProviderError) : Prop :=
  ∀ n call, providers.complete n call = .error (.provider (failure n call)) ∧
    ((providers.stream n call).opening = some (.provider (failure n call)) ∨
      providers.stream n call = { events := [], ending := .failed (failure n call) })

def SupportsStreaming (g : ModelGateway) (profileId : String) : Prop :=
  ∀ p d capabilities, g.profiles profileId = some p → g.descriptor p.providerId = some d →
    p.effectiveCapabilities d.capabilities = .ok capabilities → capabilities.streaming = true

theorem missing_feature_streaming {request : ModelRequest} {p : ModelProfile} {d : ProviderDescriptor}
    {capabilities : ProviderCapabilities} (h : capabilities.streaming = true) :
    missingFeature p d capabilities request true =
      missingFeature p d capabilities request false := by
  simp only [missingFeature, h, Bool.not_true, Bool.and_false]

theorem admit_streaming {g : ModelGateway} {request : ModelRequest} {profileId : String}
    (h : SupportsStreaming g profileId) :
    g.admission profileId request true = g.admission profileId request false := by
  rw [admission, admission]
  cases hp : g.profile profileId with
  | error e => rfl
  | ok p =>
    have hvalidate : g.validateRequest p request true = g.validateRequest p request false := by
      rw [validateRequest, validateRequest]
      cases hd : g.descriptor p.providerId with
      | none => rfl
      | some d =>
        cases hc : p.effectiveCapabilities d.capabilities with
        | error e => simp only [hc]
        | ok capabilities =>
          have hprofile : g.profiles profileId = some p := by
            rw [profile] at hp
            split at hp
            · rename_i q hq
              cases hp
              exact hq
            · cases hp
          simp only [hc, missing_feature_streaming (h p d capabilities hprofile hd hc)]
    simp only [hvalidate]

section Failing
variable (providers : Providers) (failure : ℕ → Call → ModelProviderError)

def Opens (first : ℕ) (made : List Call) : Prop :=
  ∀ i c, made[i]? = some c → (providers.stream (first+i) c).opening = none

/-- The run of a stream beside the calls of a completion, which all fail: it makes the same calls, or
it ends at the first of them that cannot be opened. -/
inductive Follows (first : ℕ) (made : List Call) (last : Option GatewayError)
    (P : GatewayError → Prop) : Outcome Action Ending → Prop where
  | next (h : Opens providers first made) :
      Follows first made last P (.next (made.map Action.call) last (first+made.length))
  | raised (e : GatewayError) (h : Opens providers first made) (he : P e) :
      Follows first made last P (.ended (made.map Action.call) (.raised e))
  | opened (pre : List Call) (call : Call) (post : List Call) (hmade : made = pre++call::post)
      (h : Opens providers first pre)
      (ho : (providers.stream (first+pre.length) call).opening ≠ none) :
      Follows first made last P (.ended ((pre++[call]).map Action.call)
        (.raised (.provider (failure (first+pre.length) call))))

variable {providers failure} {first : ℕ} {made later : List Call} {last : Option GatewayError}
  {P : GatewayError → Prop}

theorem opens_append (h : Opens providers first made)
    (hlater : Opens providers (first+made.length) later) : Opens providers first (made++later) := by
  intro i c hc
  rcases Nat.lt_or_ge i made.length with hi | hi
  · rw [List.getElem?_append_left hi] at hc
    exact h i c hc
  · rw [List.getElem?_append_right hi] at hc
    have hopen := hlater _ c hc
    rwa [show first+made.length+(i-made.length) = first+i by omega] at hopen

theorem Follows.prepend {o : Outcome Action Ending} (h : Opens providers first made)
    (ho : Follows providers failure (first+made.length) later last P o) :
    Follows providers failure first (made++later) last P (o.prepend (made.map Action.call)) := by
  cases ho with
  | next hopens =>
    have hnext : Follows providers failure first (made++later) last P _ :=
      .next (opens_append h hopens)
    rw [List.map_append, List.length_append, ← Nat.add_assoc] at hnext
    exact hnext
  | raised e hopens he =>
    have hraised : Follows providers failure first (made++later) last P _ :=
      .raised e (opens_append h hopens) he
    rw [List.map_append] at hraised
    exact hraised
  | opened pre call post hmade hopens hcall =>
    have hopened : Follows providers failure first (made++later) last P _ :=
      .opened (made++pre) call post (by rw [hmade, List.append_assoc]) (opens_append h hopens)
        (by rwa [List.length_append, ← Nat.add_assoc])
    rw [List.append_assoc, List.map_append, List.length_append, ← Nat.add_assoc] at hopened
    exact hopened

/-- They agree unless an opening raises before the last call, or with another error than the last. -/
theorem follows_iff {e : GatewayError} {trace : List Action} {ending : Ending}
    (h : Follows providers failure 0 made last (· = e) (.ended trace ending)) :
    (trace,ending) = (made.map Action.call,.raised e) ↔
      ∀ i c, made[i]? = some c → (providers.stream i c).opening ≠ none →
        i+1 = made.length ∧ e = .provider (failure i c) := by
  cases h with
  | raised e' hopens he =>
    subst he
    refine iff_of_true rfl (fun i c hc hne => absurd ?_ hne)
    simpa using hopens i c hc
  | opened pre call post hmade hopens ho =>
    rw [Nat.zero_add] at ho ⊢
    subst hmade
    constructor
    · intro heq i c hc hne
      obtain ⟨htrace,hraised⟩ := Prod.mk.inj heq
      have hlength := congrArg List.length htrace
      simp only [List.length_map, List.length_append, List.length_cons, List.length_nil] at hlength
      obtain rfl : post = [] := List.eq_nil_of_length_eq_zero (by omega)
      have hi : i = pre.length := by
        by_contra hother
        have hlt : i < (pre++[call]).length := (List.getElem?_eq_some_iff.mp hc).1
        have hin : i < pre.length := by
          rw [List.length_append, List.length_singleton] at hlt
          omega
        rw [List.getElem?_append_left hin] at hc
        exact hne (by simpa using hopens i c hc)
      subst hi
      rw [List.getElem?_append_right le_rfl, Nat.sub_self] at hc
      cases hc
      exact ⟨by simp,(Ending.raised.inj hraised).symm⟩
    · intro hall
      obtain ⟨hlength,he⟩ := hall pre.length call (by simp) ho
      have hpost : post = [] := by
        rw [List.length_append, List.length_cons] at hlength
        exact List.eq_nil_of_length_eq_zero (by omega)
      rw [hpost, he]

variable (hfail : FailsEarly providers failure)
include hfail

theorem attempts_follow (profile : ModelProfile) (parallel : Bool) (prepared : PreparedContext)
    (lastError : Option GatewayError) (calls attempt left : ℕ) : ∃ made last,
    completeAttempts providers profile parallel prepared lastError calls attempt left =
      .next made last (calls+made.length) ∧
    Follows providers failure calls made last (fun e => fatal last = some e)
      (streamAttempts providers profile parallel prepared lastError calls attempt left) := by
  induction left generalizing lastError calls attempt with
  | zero => exact ⟨[],lastError,rfl,.next nofun⟩
  | succ left ih =>
    set call : Call := ⟨profile.profileId,attempt,prepared.request⟩ with hcall
    obtain ⟨hcomplete,hstream⟩ := hfail calls call
    have hopened (made : List Call) (last : Option GatewayError)
        (ho : (providers.stream calls call).opening = some (.provider (failure calls call))) :
        Follows providers failure calls (call::made) last (fun e => fatal last = some e)
          (streamAttempts providers profile parallel prepared lastError calls attempt (left+1)) := by
      rw [streamAttempts, ← hcall]
      simp only [ho]
      exact .opened [] call made rfl nofun (by rw [List.length_nil, Nat.add_zero, ho]; nofun)
    have hopens : providers.stream calls call =
        { events := [], ending := .failed (failure calls call) } → Opens providers calls [call] := by
      intro hearly i c hc
      obtain ⟨hi,rfl⟩ := List.getElem?_eq_some_iff.mp hc
      obtain rfl : i = 0 := Nat.lt_one_iff.mp hi
      exact congrArg StreamAttempt.opening hearly
    by_cases hstop : (!(failure calls call).retryable || decide (profile.maxRetries ≤ attempt)) = true
    · refine ⟨[call],some (.provider (failure calls call)),?_,?_⟩
      · rw [completeAttempts, ← hcall]
        simp only [hcomplete, checkedAnswer, if_pos hstop]
        rfl
      · rcases hstream with ho | hearly
        · exact hopened [] _ ho
        rw [streamAttempts, ← hcall]
        simp only [hearly, emit, StreamAttempt.close, List.map_nil, Bool.false_or]
        cases hretry : (failure calls call).retryable with
        | false => exact .raised _ (hopens hearly) (by simp [fatal, hretry])
        | true =>
          have hlast : ¬ attempt < profile.maxRetries := by simpa [hretry] using hstop
          simp only [Bool.not_true, Bool.false_eq_true, if_false, if_neg hlast]
          exact .next (hopens hearly)
    · obtain ⟨made,last,hmade,hfollows⟩ :=
        ih (some (.provider (failure calls call))) (calls+1) (attempt+1)
      refine ⟨call::made,last,?_,?_⟩
      · rw [completeAttempts, ← hcall]
        simp only [hcomplete, checkedAnswer, if_neg hstop, hmade, Outcome.prepend]
        rw [List.length_cons, Nat.add_assoc, Nat.add_comm 1]
        rfl
      · rcases hstream with ho | hearly
        · exact hopened made _ ho
        rw [Bool.or_eq_true, not_or, Bool.not_eq_true', Bool.not_eq_false,
          decide_eq_true_eq, not_le] at hstop
        rw [streamAttempts, ← hcall]
        simp only [hearly, emit, List.map_nil, Bool.false_or, hstop.1, Bool.not_true,
          Bool.false_eq_true, if_false, if_pos hstop.2]
        exact hfollows.prepend (hopens hearly)

theorem profiles_follow {g : ModelGateway} {request : ModelRequest} (profileIds : List String)
    (hstreaming : ∀ id ∈ profileIds, SupportsStreaming g id) (lastError : Option GatewayError)
    (calls : ℕ) : ∃ made e,
    g.completeProfiles providers request lastError calls profileIds = (made,.error e) ∧
    Follows providers failure calls made none (· = e)
      (.ended (g.streamProfiles providers request lastError calls profileIds).1
        (g.streamProfiles providers request lastError calls profileIds).2) := by
  induction profileIds generalizing lastError calls with
  | nil => exact ⟨[],_,rfl,.raised _ nofun rfl⟩
  | cons profileId rest ih =>
    have hrest := ih (fun id hid => hstreaming id (List.mem_cons_of_mem _ hid))
    rw [completeProfiles, streamProfiles,
      admit_streaming (hstreaming profileId List.mem_cons_self)]
    cases g.admission profileId request false with
    | stopped e => exact ⟨[],e,rfl,.raised _ nofun rfl⟩
    | skipped e => exact hrest _ _
    | admitted p parallel prepared =>
      obtain ⟨made,last,hcomplete,hfollows⟩ :=
        attempts_follow hfail p parallel prepared lastError calls 0 (p.maxRetries+1)
      simp only [hcomplete]
      generalize streamAttempts providers p parallel prepared lastError calls 0 (p.maxRetries+1) = s
        at hfollows
      obtain ⟨later,e,hlater,hnext⟩ := hrest last (calls+made.length)
      cases hfollows with
      | next h =>
        cases hf : fatal last with
        | some e =>
          simp only [hf]
          exact ⟨made,e,rfl,.raised e h rfl⟩
        | none =>
          simp only [hlater, hf]
          exact ⟨made++later,e,rfl,hnext.prepend h⟩
      | raised e h he =>
        simp only [he]
        exact ⟨made,e,rfl,.raised e h rfl⟩
      | opened pre call post hmade h ho =>
        cases hf : fatal last with
        | some e => exact ⟨made,e,rfl,.opened pre call post hmade h ho⟩
        | none =>
          simp only [hlater]
          exact ⟨made++later,e,rfl,.opened pre call (post++later) (by simp [hmade]) h ho⟩

end Failing

theorem image_positive : 1 ≤ 8192 := by decide

def soloGateway : ModelGateway where
  context := ⟨utf8TokenEstimator,8192,image_positive,fun _ => .error .value⟩
  defaultContextTokens := 32768
  profiles id := if id = "main" then some ⟨"main","acme","m1",2,[],{},false⟩ else none
  routes id := if id = "chat" then some ⟨"chat","main",[]⟩ else none
  descriptor id := if id = "acme" then some ⟨"acme",{}⟩ else none
  create _ := .ok ()

def overloaded : ModelProviderError where
  code := .unavailable
  message := "overloaded"
  retryable := true

def overloadedProviders : Providers where
  complete _ _ := .error (.provider overloaded)
  stream _ _ := { events := [], ending := .failed overloaded }

theorem user_plain : ModelRole.user ≠ .tool := by decide

def greeting : ModelRequest := { messages := [.plain .user "hi" user_plain] }

theorem solo_streams (r : ModelRoute) (hr : soloGateway.routes "chat" = some r) :
    ∀ id ∈ r.primaryProfile::r.fallbackProfiles, SupportsStreaming soloGateway id := by
  intro id hid p d capabilities hp hd hc
  cases hr
  obtain rfl := List.mem_singleton.mp hid
  cases hp
  cases hd
  cases hc
  rfl

def refusingProviders : Providers where
  complete _ _ := .error (.provider overloaded)
  stream _ _ := { opening := some (.provider overloaded), events := [], ending := .finished }

end SuiteHarness.Models
