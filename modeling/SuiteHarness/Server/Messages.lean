import SuiteHarness.Sessions.Interface
import SuiteHarness.Execution.Models

/-!
# Channel messages and their identities

An inbound message, the scope it was authenticated for, and the session and run
that are derived from them.
-/

set_option autoImplicit false

namespace SuiteHarness.Server
open SuiteHarness.Sessions

inductive ChannelKind where
  | web | feishu
  deriving DecidableEq, Repr

def ChannelKind.value : ChannelKind → String
  | .web => "web"
  | .feishu => "feishu"

structure ChannelAttachment where
  attachmentId : String
  mediaType : String
  name : Option String := none
  sizeBytes : Option ℕ := none
  deriving DecidableEq

structure InboundMessage where
  channel : ChannelKind
  eventId : String
  messageId : String
  conversationId : String
  senderExternalId : String
  text : String
  productId : Option String := none
  attachments : List ChannelAttachment := []
  receivedAt : ℤ
  metadata : List (String × Json) := []
  deriving DecidableEq

inductive OutboundEventKind where
  | started | delta | status | approvalRequired | completed | failed
  deriving DecidableEq, Repr

def OutboundEventKind.value : OutboundEventKind → String
  | .started => "started"
  | .delta => "delta"
  | .status => "status"
  | .approvalRequired => "approval_required"
  | .completed => "completed"
  | .failed => "failed"

structure ChannelScope extends Execution.RequestScope where
  requestId : String := ""
  correlationId : String := ""
  deriving DecidableEq

/-- How the server writes what the model leaves to its libraries: SHA-256 of a
text, the hexadecimal form of the digest of a value, and instants. -/
structure Wire where
  sha256 : String → String
  hexdigest : Digest → String
  isoformat : ℤ → String

def Wire.stableId (wire : Wire) (kind : String) (values : List String) : String :=
  kind ++ "-" ++ wire.sha256 (String.intercalate "\x1f" values)

def sessionIdentity (scope : ChannelScope) : Option SessionIdentity :=
  match scope.agent with
  | none => none
  | some (agentId,sessionId) =>
    if h : isIdentifier scope.effectiveSessionOwnerId = true then
      some ⟨scope.tenantId,scope.productId,agentId,sessionId,⟨scope.effectiveSessionOwnerId,h⟩⟩
    else none

def Wire.runId (wire : Wire) (identity : SessionIdentity) (scope : ChannelScope)
    (messageId : String) : String :=
  wire.stableId "run" [identity.tenantId.val,identity.productId.val,identity.agentId.val,
    identity.sessionId.val,identity.principalId.val,scope.principalId.val,scope.channelId,messageId]

end SuiteHarness.Server
