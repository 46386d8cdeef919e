import SuiteHarness.Json

/-!
# Provider-neutral model vocabulary

Messages, tools and requests as the context manager and the gateway read them.
A message carries the check of its validator, so a tool result without a call
id or a tool call outside an assistant message cannot be built. Sampling values
are kept as they are printed.
-/

set_option autoImplicit false

namespace SuiteHarness.Models

inductive ModelRole where
  | system | user | assistant | tool
  deriving DecidableEq, Repr

inductive ContentPart where
  | text (text : String)
  | image (mimeType : String) (url dataBase64 : Option String)
  | document (mimeType name dataBase64 : String)
  deriving DecidableEq, Repr

structure ModelToolCall where
  callId : String
  name : String
  arguments : List (String × Json) := []
  deriving DecidableEq

def RoleShape (role : ModelRole) (content : List ContentPart) (toolCalls : List ModelToolCall)
    (toolCallId : Option String) : Prop :=
  (role = .tool → toolCallId ≠ none ∧ toolCallId ≠ some "") ∧
  (role ≠ .tool → toolCallId = none) ∧
  (toolCalls ≠ [] → role = .assistant) ∧
  (content ≠ [] ∨ toolCalls ≠ [])

instance (role : ModelRole) (content : List ContentPart) (toolCalls : List ModelToolCall)
    (toolCallId : Option String) : Decidable (RoleShape role content toolCalls toolCallId) :=
  inferInstanceAs (Decidable (_ ∧ _ ∧ _ ∧ _))

structure ModelMessage where
  role : ModelRole
  content : List ContentPart := []
  toolCalls : List ModelToolCall := []
  toolCallId : Option String := none
  name : Option String := none
  shape : RoleShape role content toolCalls toolCallId
  deriving DecidableEq

namespace ModelMessage

def plain (role : ModelRole) (value : String) (h : role ≠ .tool) : ModelMessage where
  role := role
  content := [.text value]
  shape := ⟨fun he => absurd he h,fun _ => rfl,fun he => absurd rfl he,Or.inl (List.cons_ne_nil _ _)⟩

def withText (m : ModelMessage) (text : String) : ModelMessage :=
  { m with
    content := [.text text]
    shape := ⟨m.shape.1,m.shape.2.1,m.shape.2.2.1,Or.inl (List.cons_ne_nil _ _)⟩ }

def rawText (m : ModelMessage) : String :=
  String.intercalate "\n" (m.content.filterMap fun
    | .text t => some t
    | _ => none)

end ModelMessage

structure ModelTool where
  name : String
  description : String := ""
  inputSchema : List (String × Json) := []
  deriving DecidableEq

inductive ToolChoice where
  | auto | none | required
  deriving DecidableEq, Repr

structure ModelRequest where
  messages : List ModelMessage
  model : Option String := .none
  tools : List ModelTool := []
  toolChoice : ToolChoice := .auto
  temperature : Option String := .none
  topP : Option String := .none
  maxOutputTokens : ℕ := 4096
  stop : List String := []
  responseSchema : Option (List (String × Json)) := .none
  metadata : List (String × Json) := []
  deriving DecidableEq

namespace ModelRequest

def withMessages (r : ModelRequest) (messages : List ModelMessage) : ModelRequest :=
  { r with messages := messages }

end ModelRequest

inductive ModelStreamEventType where
  | messageStart | textDelta | reasoningDelta | toolCallDelta | usage | messageEnd | contextCompacted
  deriving DecidableEq, Repr

structure ContextInfo where
  estimatedInputTokens : ℤ
  removedRounds : ℕ
  truncatedTools : ℕ
  deriving DecidableEq

structure ModelStreamEvent where
  type : ModelStreamEventType
  textDelta : Option String := none
  reasoningDelta : Option String := none
  toolCall : Option ModelToolCall := none
  contextInfo : Option ContextInfo := none
  preparedMessages : Option (List ModelMessage) := none
  deriving DecidableEq

structure ModelResponse where
  responseId : String
  content : List ContentPart := []
  toolCalls : List ModelToolCall := []
  deriving DecidableEq

structure ProviderCapabilities where
  streaming : Bool := true
  tools : Bool := true
  parallelToolCalls : Bool := true
  jsonSchema : Bool := false
  reasoning : Bool := false
  vision : Bool := false
  documents : Bool := false
  maxContextTokens : Option ℕ := none
  deriving DecidableEq, Repr

structure ModelCapabilities where
  streaming : Option Bool := none
  tools : Option Bool := none
  parallelToolCalls : Option Bool := none
  jsonSchema : Option Bool := none
  reasoning : Option Bool := none
  vision : Option Bool := none
  documents : Option Bool := none
  maxContextTokens : Option ℕ := none
  deriving DecidableEq, Repr

structure ProviderDescriptor where
  providerId : String
  capabilities : ProviderCapabilities := {}
  deriving DecidableEq, Repr

structure ModelProfile where
  profileId : String
  providerId : String
  model : String
  maxRetries : ℕ := 2
  allowedModels : List String := []
  capabilities : ModelCapabilities := {}
  allowCapabilityOverrides : Bool := false
  deriving DecidableEq, Repr

structure ModelRoute where
  routeId : String
  primaryProfile : String
  fallbackProfiles : List String := []
  deriving DecidableEq, Repr

inductive ModelErrorCode where
  | profileNotFound | providerNotFound | credentialMissing | authentication | permissionDenied
  | rateLimit | invalidRequest | timeout | unavailable | responseInvalid | unsupportedFeature
  | configuration
  deriving DecidableEq, Repr

structure ModelProviderError where
  code : ModelErrorCode
  message : String
  providerId : Option String := none
  statusCode : Option ℤ := none
  retryable : Bool := false
  deriving DecidableEq, Repr

def ModelToolCall.json (c : ModelToolCall) : Json :=
  .obj [("call_id",.str c.callId),("name",.str c.name),("arguments",.obj c.arguments)]

def ModelTool.json (t : ModelTool) : Json :=
  .obj [("name",.str t.name),("description",.str t.description),("input_schema",.obj t.inputSchema)]

end SuiteHarness.Models
