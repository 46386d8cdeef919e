import SuiteHarness.Models.Context

/-!
# Routing and failover of model calls

`ModelGateway` with its two retry and fallback loops, `_complete` and
`_stream_unobserved`. A run is written as the provider calls it makes and the
events it delivers, in order. A provider is whatever each of its calls does: a
completion answers or raises, opening a stream may raise, a stream yields some
events, then ends or raises, and closing it may raise once more.
-/

set_option autoImplicit false

namespace SuiteHarness.Models
open SuiteHarness.Library

inductive GatewayError where
  | provider (e : ModelProviderError)
  | context (e : PrepareError)
  | value (text : String)
  | assertion
  | other
  deriving DecidableEq, Repr

def quoted (s : String) : String := "'" ++ s ++ "'"

namespace ModelProfile
variable (profile : ModelProfile)

def permitsModel (model : String) : Bool := model = profile.model || profile.allowedModels.contains model

def exceeds (name : String) : GatewayError :=
  .value ("profile " ++ quoted profile.profileId ++ " capability " ++ quoted name ++
    " exceeds provider defaults; an explicit allow_capability_overrides=true is required")

def override (name : String) (inherited : Bool) : Option Bool → Except GatewayError Bool
  | none => .ok inherited
  | some value =>
    if value && !inherited && !profile.allowCapabilityOverrides then .error (profile.exceeds name)
    else .ok value

def overrideWindow (inherited : Option ℕ) : Option ℕ → Except GatewayError (Option ℕ)
  | none => .ok inherited
  | some value =>
    if inherited.any (fun limit => decide (limit < value)) && !profile.allowCapabilityOverrides then
      .error (profile.exceeds "max_context_tokens")
    else .ok (some value)

def effectiveCapabilities (provider : ProviderCapabilities) : Except GatewayError ProviderCapabilities := do
  let own := profile.capabilities
  let streaming ← profile.override "streaming" provider.streaming own.streaming
  let tools ← profile.override "tools" provider.tools own.tools
  let parallelToolCalls ←
    profile.override "parallel_tool_calls" provider.parallelToolCalls own.parallelToolCalls
  let jsonSchema ← profile.override "json_schema" provider.jsonSchema own.jsonSchema
  let reasoning ← profile.override "reasoning" provider.reasoning own.reasoning
  let vision ← profile.override "vision" provider.vision own.vision
  let documents ← profile.override "documents" provider.documents own.documents
  let maxContextTokens ← profile.overrideWindow provider.maxContextTokens own.maxContextTokens
  return ⟨streaming,tools,parallelToolCalls,jsonSchema,reasoning,vision,documents,maxContextTokens⟩

end ModelProfile

structure ModelGateway where
  context : ContextManager
  defaultContextTokens : ℕ
  profiles : String → Option ModelProfile
  routes : String → Option ModelRoute
  descriptor : String → Option ProviderDescriptor
  /-- `ProviderRegistry.create` for a profile without a cached provider. -/
  create : ModelProfile → Except GatewayError Unit

structure Call where
  profileId : String
  attempt : ℕ
  request : ModelRequest
  deriving DecidableEq

inductive AttemptEnd where
  | finished
  | failed (e : ModelProviderError)
  | crashed
  deriving DecidableEq

structure StreamAttempt where
  /-- What the call that opens the stream raises. -/
  opening : Option GatewayError := none
  events : List ModelStreamEvent
  ending : AttemptEnd
  closing : Option GatewayError := none

structure Providers where
  complete : ℕ → Call → Except GatewayError ModelResponse
  stream : ℕ → Call → StreamAttempt

inductive Action where
  | call (c : Call)
  | deliver (e : ModelStreamEvent)
  deriving DecidableEq

inductive Ending where
  | finished
  | raised (e : GatewayError)
  deriving DecidableEq

def StreamAttempt.close (a : StreamAttempt) (ending : Ending) : Ending :=
  match a.closing with
  | none => ending
  | some e => .raised e

def unsupported (providerId message : String) : ModelProviderError :=
  { code := .unsupportedFeature, message := message, providerId := some providerId }

def parallelCalls (profile : ModelProfile) : ModelProviderError :=
  unsupported profile.providerId "model returned parallel tool calls disabled by the profile"

def gatewayOwned (profile : ModelProfile) : ModelProviderError where
  code := .responseInvalid
  message := "provider attempted to emit gateway-owned context state"
  providerId := some profile.providerId

def noUsableProfile : GatewayError :=
  .provider { code := .unavailable, message := "model route has no usable profile" }

def compactedEvent (prepared : PreparedContext) : ModelStreamEvent where
  type := .contextCompacted
  preparedMessages := some prepared.request.messages
  contextInfo := some ⟨prepared.estimatedInputTokens,prepared.removedRounds,prepared.truncatedTools⟩

def lead (prepared : PreparedContext) : List ModelStreamEvent :=
  if prepared.removedRounds ≠ 0 ∨ prepared.truncatedTools ≠ 0 then [compactedEvent prepared] else []

def addCallId (ids : List String) (event : ModelStreamEvent) : List String :=
  match event.toolCall with
  | none => ids
  | some c => if c.callId ∈ ids then ids else c.callId::ids

structure Emission where
  delivered : List ModelStreamEvent
  emitted : Bool
  ending : AttemptEnd

def emit (profile : ModelProfile) (parallel : Bool) (prepared : PreparedContext)
    (ending : AttemptEnd) (emitted : Bool) (ids : List String) : List ModelStreamEvent → Emission
  | [] => ⟨[],emitted,ending⟩
  | event::rest =>
    if event.type = .contextCompacted ∨ event.preparedMessages.isSome then
      ⟨[],emitted,.failed (gatewayOwned profile)⟩
    else if event.toolCall.isSome ∧ 1 < (addCallId ids event).length ∧ !parallel then
      ⟨[],emitted,.failed (parallelCalls profile)⟩
    else
      let later := emit profile parallel prepared ending true (addCallId ids event) rest
      { later with delivered := (if emitted then [] else lead prepared)++event::later.delivered }

inductive Outcome (α ε : Type) where
  | ended (trace : List α) (ending : ε)
  | next (trace : List α) (lastError : Option GatewayError) (calls : ℕ)

def Outcome.prepend {α ε : Type} (trace : List α) : Outcome α ε → Outcome α ε
  | .ended rest ending => .ended (trace++rest) ending
  | .next rest lastError calls => .next (trace++rest) lastError calls

def streamAttempts (providers : Providers) (profile : ModelProfile) (parallel : Bool)
    (prepared : PreparedContext) (lastError : Option GatewayError) (calls attempt : ℕ) :
    ℕ → Outcome Action Ending
  | 0 => .next [] lastError calls
  | left+1 =>
    let call : Call := ⟨profile.profileId,attempt,prepared.request⟩
    let stream := providers.stream calls call
    let emission := emit profile parallel prepared stream.ending false [] stream.events
    let trace := Action.call call::emission.delivered.map Action.deliver
    -- The stream is opened outside the `try` of the attempt.
    match stream.opening, emission.ending with
    | some e, _ => .ended [.call call] (.raised e)
    | none, .finished => .ended trace (stream.close .finished)
    | none, .crashed => .ended trace (stream.close (.raised .other))
    | none, .failed e =>
      if emission.emitted || !e.retryable then .ended trace (stream.close (.raised (.provider e)))
      else match stream.closing with
        | some e' => .ended trace (.raised e')
        | none =>
          if attempt < profile.maxRetries then
            (streamAttempts providers profile parallel prepared (some (.provider e)) (calls+1)
              (attempt+1) left).prepend trace
          else .next trace (some (.provider e)) (calls+1)

def checkedAnswer (profile : ModelProfile) (parallel : Bool) :
    Except GatewayError ModelResponse → Except GatewayError ModelResponse
  | .ok response =>
    if 1 < response.toolCalls.length ∧ !parallel then .error (.provider (parallelCalls profile))
    else .ok response
  | .error e => .error e

def completeAttempts (providers : Providers) (profile : ModelProfile) (parallel : Bool)
    (prepared : PreparedContext) (lastError : Option GatewayError) (calls attempt : ℕ) :
    ℕ → Outcome Call (Except GatewayError ModelResponse)
  | 0 => .next [] lastError calls
  | left+1 =>
    let call : Call := ⟨profile.profileId,attempt,prepared.request⟩
    match checkedAnswer profile parallel (providers.complete calls call) with
    | .ok response => .ended [call] (.ok response)
    | .error (.provider e) =>
      if !e.retryable || decide (profile.maxRetries ≤ attempt) then
        .next [call] (some (.provider e)) (calls+1)
      else (completeAttempts providers profile parallel prepared (some (.provider e)) (calls+1)
        (attempt+1) left).prepend [call]
    | .error e => .ended [call] (.error e)

namespace ModelGateway
variable (g : ModelGateway)

def notFound (kind name : String) : GatewayError :=
  .provider { code := .profileNotFound, message := "model " ++ kind ++ " " ++ quoted name ++ " was not found" }

def profile (profileId : String) : Except GatewayError ModelProfile :=
  match g.profiles profileId with
  | some p => .ok p
  | none => .error (notFound "profile" profileId)

def route (routeId : String) : Except GatewayError ModelRoute :=
  match g.routes routeId with
  | some r => .ok r
  | none => .error (notFound "route" routeId)

def missingFeature (p : ModelProfile) (d : ProviderDescriptor) (capabilities : ProviderCapabilities)
    (request : ModelRequest) (streaming : Bool) : Option String :=
  let parts := request.messages.flatMap ModelMessage.content
  let provider := "provider " ++ quoted d.providerId ++ " does not support "
  if streaming && !capabilities.streaming then
    some ("profile " ++ quoted p.profileId ++ " does not support streaming")
  else if !request.tools.isEmpty && !capabilities.tools then some (provider ++ "tools")
  else if request.responseSchema.isSome && !capabilities.jsonSchema then
    some (provider ++ "JSON Schema output")
  else if parts.any (fun part => part matches .image _ _ _) && !capabilities.vision then
    some (provider ++ "image input")
  else if parts.any (fun part => part matches .document _ _ _) && !capabilities.documents then
    some (provider ++ "document input")
  else none

def validateRequest (p : ModelProfile) (request : ModelRequest) (streaming : Bool) :
    Except GatewayError ProviderCapabilities :=
  let model := match request.model with
    | some m => if m = "" then p.model else m
    | none => p.model
  if !p.permitsModel model then
    .error (.provider
      { code := .permissionDenied
        message := "model " ++ quoted model ++ " is not allowed by profile " ++ quoted p.profileId
        providerId := some p.providerId })
  else match g.descriptor p.providerId with
    | none => .error (.provider
        { code := .providerNotFound
          message := "provider " ++ quoted p.providerId ++ " was not found" })
    | some d => match p.effectiveCapabilities d.capabilities with
      | .error e => .error e
      | .ok capabilities => match missingFeature p d capabilities request streaming with
        | some message => .error (.provider (unsupported d.providerId message))
        | none => .ok capabilities

def prepareContext (p : ModelProfile) (request : ModelRequest) : Except GatewayError PreparedContext :=
  match g.descriptor p.providerId with
  | none => .error .assertion
  | some d => match p.effectiveCapabilities d.capabilities with
    | .error e => .error e
    | .ok capabilities =>
      match g.context.prepare request (capabilities.maxContextTokens.getD g.defaultContextTokens) with
      | .error e => .error (.context e)
      | .ok prepared => .ok prepared

inductive Admission where
  | stopped (e : GatewayError)
  | skipped (e : GatewayError)
  | admitted (profile : ModelProfile) (parallel : Bool) (prepared : PreparedContext)

def admission (profileId : String) (request : ModelRequest) (streaming : Bool) : Admission :=
  match g.profile profileId with
  | .error e => .stopped e
  | .ok p => match g.validateRequest p request streaming with
    | .error e => .stopped e
    | .ok capabilities => match g.prepareContext p request with
      | .error (.context (.capacity text)) => .skipped (.context (.capacity text))
      | .error e => .stopped e
      | .ok prepared => match g.create p with
        | .error e => .stopped e
        | .ok () => .admitted p capabilities.parallelToolCalls prepared

def fatal : Option GatewayError → Option GatewayError
  | some (.provider e) => if e.retryable then none else some (.provider e)
  | _ => none

def streamProfiles (providers : Providers) (request : ModelRequest) (lastError : Option GatewayError)
    (calls : ℕ) : List String → List Action × Ending
  | [] => ([],.raised (lastError.getD noUsableProfile))
  | profileId::rest => match g.admission profileId request true with
    | .stopped e => ([],.raised e)
    | .skipped e => streamProfiles providers request (some e) calls rest
    | .admitted p parallel prepared =>
      match streamAttempts providers p parallel prepared lastError calls 0 (p.maxRetries+1) with
      | .ended trace ending => (trace,ending)
      | .next trace lastError calls' => match fatal lastError with
        | some e => (trace,.raised e)
        | none =>
          let later := streamProfiles providers request lastError calls' rest
          (trace++later.1,later.2)

def completeProfiles (providers : Providers) (request : ModelRequest) (lastError : Option GatewayError)
    (calls : ℕ) : List String → List Call × Except GatewayError ModelResponse
  | [] => ([],.error (lastError.getD noUsableProfile))
  | profileId::rest => match g.admission profileId request false with
    | .stopped e => ([],.error e)
    | .skipped e => completeProfiles providers request (some e) calls rest
    | .admitted p parallel prepared =>
      match completeAttempts providers p parallel prepared lastError calls 0 (p.maxRetries+1) with
      | .ended trace answer => (trace,answer)
      | .next trace lastError calls' => match fatal lastError with
        | some e => (trace,.error e)
        | none =>
          let later := completeProfiles providers request lastError calls' rest
          (trace++later.1,later.2)

def stream (providers : Providers) (routeId : String) (request : ModelRequest) : List Action × Ending :=
  match g.route routeId with
  | .error e => ([],.raised e)
  | .ok r => g.streamProfiles providers request none 0 (r.primaryProfile::r.fallbackProfiles)

def complete (providers : Providers) (routeId : String) (request : ModelRequest) :
    List Call × Except GatewayError ModelResponse :=
  match g.route routeId with
  | .error e => ([],.error e)
  | .ok r => g.completeProfiles providers request none 0 (r.primaryProfile::r.fallbackProfiles)

end ModelGateway

end SuiteHarness.Models
