import SuiteHarness.Server.Messages
import SuiteHarness.Library.Joined
import SuiteHarness.Library.Results

/-!
# The channel gateway

`EnterpriseChannelGateway` admits a message: it authenticates, routes to a
product, asks its authorizers and builds the only scope products see. Sessions
and runs are named by hashes of joined texts. Of the joined components only the
conversation, the session scope and the message id are chosen outside, and each
join holds at most one of them.
-/

set_option autoImplicit false

namespace SuiteHarness.Channels
open SuiteHarness.Server SuiteHarness.Sessions SuiteHarness.Library SuiteHarness.Library.Results

inductive GatewayError where
  | admission (text : String)
  | invalidIdentifier (label value : String)
  deriving DecidableEq

structure AuthenticatedPrincipal where
  tenantId : Identifier
  principalId : Identifier
  roles : List String := []
  rolesValid : ∀ role ∈ roles, isIdentifier role = true := by decide

structure ChannelRoute where
  channel : ChannelKind
  conversationId : String
  productId : String
  deriving DecidableEq

structure ProductRouter where
  products : List String
  routes : List ChannelRoute := []
  nonempty : products ≠ [] := by decide
  distinct : products.Nodup := by decide
  active : ∀ route ∈ routes, route.productId ∈ products := by decide
  unambiguous : routes.Pairwise (fun a b => ¬ (a.channel = b.channel ∧
    a.conversationId = b.conversationId)) := by decide

def ProductRouter.resolve (router : ProductRouter) (m : InboundMessage) :
    Except GatewayError String :=
  match router.routes.find? (fun route => decide (route.channel = m.channel ∧
      route.conversationId = m.conversationId)) with
  | some route =>
    if m.productId.any (fun p => decide (p ≠ route.productId)) then .error (.admission
      "the selected product conflicts with the configured conversation route")
    else .ok route.productId
  | none => match m.productId with
    | some p => if p ∉ router.products then
        .error (.admission "the selected product is not active") else .ok p
    | none => match router.products with
      | [p] => .ok p
      | _ => .error (.admission
          "multiple products are active; select a product or configure a conversation route")

structure EnterpriseChannelGateway where
  tenantId : String
  router : ProductRouter
  agentIds : Dict String String := Dict.empty
  shareConversationSessions : Bool := false
  hasConversationAuthorizer : Bool := false
  hasProductAccessAuthorizer : Bool := false

inductive AuthenticatorAnswer where
  | principal (principal : AuthenticatedPrincipal)
  | nothing
  | failed

inductive AuthorizerAnswer where
  | answered (allowed : Bool)
  | failed
  deriving DecidableEq

inductive Arrival where
  | provider (answer : AuthenticatorAnswer)
  | handshake (principal : AuthenticatedPrincipal)

structure Delivery where
  message : InboundMessage
  arrival : Arrival
  productAccess : AuthorizerAnswer := .answered true
  membership : AuthorizerAnswer := .answered true

def sessionScope (m : InboundMessage) : Except GatewayError String :=
  match m.channel with
  | .web => .ok m.conversationId
  | .feishu => match ((Json.obj m.metadata).get? "session_scope_id").getD .null with
    | .null => .ok m.conversationId
    | .str trusted =>
      if trusted = "" ∨ 1024 < trusted.length ∨ Char.ofNat 0 ∈ trusted.toList then
        .error (.admission "trusted channel session scope is invalid")
      else .ok trusted
    | _ => .error (.admission "trusted channel session scope is invalid")

def joined (values : List String) : String := String.intercalate "\x1f" values

def hashPart (wire : Wire) (text : String) : String :=
  String.ofList ((wire.sha256 text).toList.take 40)

def safeId (wire : Wire) (kind : String) (values : List String) : String :=
  kind ++ "-" ++ hashPart wire (joined values)

def identifier (value label : String) : Except GatewayError Identifier :=
  if h : isIdentifier value = true then .ok ⟨value,h⟩ else .error (.invalidIdentifier label value)

namespace EnterpriseChannelGateway

variable (wire : Wire) (g : EnterpriseChannelGateway) (m : InboundMessage)

def authenticate :
    AuthenticatorAnswer → Except GatewayError AuthenticatedPrincipal
  | .failed => .error (.admission "channel identity authentication failed closed")
  | .nothing => .error (.admission "channel identity is not authorized for this deployment")
  | .principal p => if p.tenantId.val ≠ g.tenantId then
      .error (.admission "channel identity is not authorized for this deployment") else .ok p

def principalOf (d : Delivery) : Except GatewayError AuthenticatedPrincipal :=
  match d.arrival with
  | .provider answer => g.authenticate answer
  | .handshake p => if d.message.channel ≠ .web then .error (.admission
      "pre-authenticated dispatch is available only to the Web channel") else .ok p

def checkProductAccess (answer : AuthorizerAnswer) : Except GatewayError Unit :=
  if g.hasProductAccessAuthorizer then match answer with
    | .failed => .error (.admission "product access authorization failed closed")
    | .answered false => .error (.admission
        "the authenticated principal may not access this product")
    | .answered true => .ok ()
  else .ok ()

def checkMembership (answer : AuthorizerAnswer) : Except GatewayError Unit :=
  if g.shareConversationSessions = true ∧ m.channel = .web then
    if g.hasConversationAuthorizer then match answer with
      | .failed => .error (.admission "conversation membership authorization failed closed")
      | .answered false => .error (.admission
          "the authenticated principal is not a member of this shared conversation")
      | .answered true => .ok ()
    else .error (.admission
      "the authenticated principal is not a member of this shared conversation")
  else .ok ()

def sessionValues (scopeId productId principalId : String) : List String :=
  [m.channel.value,scopeId,productId] ++
    (if g.shareConversationSessions then [] else [principalId])

def ownerValues (productId : String) : List String :=
  [g.tenantId,m.channel.value,m.conversationId,productId]

def sessionOwnerId (productId principalId : String) : String :=
  if g.shareConversationSessions then safeId wire "shared" (g.ownerValues m productId)
  else principalId

def scopeFor (d : Delivery) (principal : AuthenticatedPrincipal) : Except GatewayError ChannelScope := do
  let m := d.message
  let who := principal.principalId.val
  if principal.tenantId.val ≠ g.tenantId ∨ (m.channel = .web ∧ m.senderExternalId ≠ who) then
    .error (.admission "authenticated channel identity does not match the message")
  else
    let productId ← g.router.resolve m
    g.checkProductAccess d.productAccess
    g.checkMembership m d.membership
    let scopeId ← sessionScope m
    let requestId := safeId wire "request" [m.channel.value,m.eventId]
    let correlationId :=
      safeId wire "correlation" [m.channel.value,m.conversationId,m.messageId]
    let owner := g.sessionOwnerId wire m productId who
    let tenant ← identifier g.tenantId "tenant_id"
    let product ← identifier productId "product_id"
    let agent ← identifier ((g.agentIds.get? productId).getD "default") "agent_id"
    let session ← identifier (safeId wire "session" (g.sessionValues m scopeId productId who))
      "session_id"
    let _ ← identifier requestId "request_id"
    let _ ← identifier correlationId "correlation_id"
    let _ ← identifier owner "session_owner_id"
    .ok { tenantId := tenant
          productId := product
          agent := some (agent,session)
          principalId := principal.principalId
          channelId := m.channel.value
          roles := principal.roles
          sessionOwnerId := some owner
          requestId := requestId
          correlationId := correlationId }

def admittedScope (d : Delivery) :
    Except GatewayError ChannelScope := do
  let principal ← g.principalOf d
  g.scopeFor wire d principal

structure Admitted (wire : Wire) (g : EnterpriseChannelGateway) (d : Delivery)
    (scope : ChannelScope) (scopeId : String) : Prop where
  principal : ∃ p, g.principalOf d = .ok p ∧ scope.principalId = p.principalId
  product : g.router.resolve d.message = .ok scope.productId.val
  sessionScoped : sessionScope d.message = .ok scopeId
  tenant : scope.tenantId.val = g.tenantId
  channel : scope.channelId = d.message.channel.value
  agent : ∃ agent session, scope.agent = some (agent,session) ∧
    agent.val = (g.agentIds.get? scope.productId.val).getD "default" ∧
    session.val = safeId wire "session"
      (g.sessionValues d.message scopeId scope.productId.val scope.principalId.val)
  owner : scope.sessionOwnerId = some
    (g.sessionOwnerId wire d.message scope.productId.val scope.principalId.val)
  ownerValid : isIdentifier
    (g.sessionOwnerId wire d.message scope.productId.val scope.principalId.val) = true

theorem identifier_ok {value label : String} {i : Identifier} (h : identifier value label = .ok i) :
    i.val = value := by
  unfold identifier at h
  split_ifs at h
  exact congrArg Subtype.val (Except.ok.inj h).symm

theorem admitted_scope_ok {wire : Wire} {g : EnterpriseChannelGateway} {d : Delivery}
    {scope : ChannelScope} (h : g.admittedScope wire d = .ok scope) :
    ∃ scopeId, Admitted wire g d scope scopeId := by
  obtain ⟨principal,hprincipal,h⟩ := bind_ok h
  unfold scopeFor at h
  simp only at h
  split_ifs at h
  obtain ⟨productId,hproduct,h⟩ := bind_ok h
  obtain ⟨-,-,h⟩ := bind_ok h
  obtain ⟨-,-,h⟩ := bind_ok h
  obtain ⟨scopeId,hscope,h⟩ := bind_ok h
  obtain ⟨tenant,htenant,h⟩ := bind_ok h
  obtain ⟨product,hvalid,h⟩ := bind_ok h
  obtain ⟨agent,hagent,h⟩ := bind_ok h
  obtain ⟨session,hsession,h⟩ := bind_ok h
  obtain ⟨-,-,h⟩ := bind_ok h
  obtain ⟨-,-,h⟩ := bind_ok h
  obtain ⟨owner,howner,h⟩ := bind_ok h
  obtain rfl := Except.ok.inj h
  obtain rfl := identifier_ok hvalid
  refine ⟨scopeId,⟨principal,hprincipal,rfl⟩,hproduct,hscope,identifier_ok htenant,rfl,
    ⟨agent,session,rfl,identifier_ok hagent,identifier_ok hsession⟩,rfl,?_⟩
  rw [← identifier_ok howner]
  exact owner.property

end EnterpriseChannelGateway

/-! Which components of the joined texts may hold the separator. -/

def separator : Char := Char.ofNat 0x1f

theorem identifier_plain {s : String} (h : isIdentifier s = true) : separator ∉ s.toList := by
  intro hmem
  rcases (identifier_chars h).2 separator hmem with halnum | hother
  · exact absurd halnum (by decide)
  · exact absurd hother (by decide)

theorem channel_identifier (channel : ChannelKind) : isIdentifier channel.value = true := by
  cases channel <;> decide

theorem channel_injective {a b : ChannelKind} (h : a.value = b.value) : a = b := by
  cases a <;> cases b <;> first | rfl | exact absurd h (by decide)

section Joins
open EnterpriseChannelGateway
variable {wire : Wire} {g : EnterpriseChannelGateway} {m n : InboundMessage}
variable {product product' principal principal' : Identifier} {scopeId scopeId' : String}

/-- A join of identifiers and one arbitrary text in a fixed place. -/
theorem joined_injective (pre pre' post post' : List String) {x y : String}
    (hbefore : pre.length = pre'.length) (hafter : post.length = post'.length)
    (hids : ∀ s ∈ pre++post, isIdentifier s = true)
    (hids' : ∀ s ∈ pre'++post', isIdentifier s = true)
    (h : joined (pre++x::post) = joined (pre'++y::post')) : pre = pre' ∧ x = y ∧ post = post' :=
  Joined.intercalate_injective separator (by decide) hbefore hafter
    (fun s hs => identifier_plain (hids s hs)) (fun s hs => identifier_plain (hids' s hs)) h

theorem session_values_injective (h : joined (g.sessionValues m scopeId product.val principal.val) =
      joined (g.sessionValues n scopeId' product'.val principal'.val)) :
    m.channel = n.channel ∧ scopeId = scopeId' ∧ product = product' ∧
      (g.shareConversationSessions = false → principal = principal') := by
  unfold sessionValues at h
  cases hshare : g.shareConversationSessions with
  | true =>
    simp only [hshare, if_true, List.append_nil] at h
    have hids : ∀ (channel : ChannelKind) (p : Identifier),
        ∀ s ∈ [channel.value]++[p.val], isIdentifier s = true := by
      intro channel p
      simp [channel_identifier, p.property]
    obtain ⟨hchannel,hscope,hproduct⟩ := joined_injective [m.channel.value]
      [n.channel.value] [product.val] [product'.val] rfl rfl (hids _ _) (hids _ _) h
    simp only [List.cons.injEq, and_true] at hchannel hproduct
    exact ⟨channel_injective hchannel,hscope,Subtype.ext hproduct,fun hfalse => by cases hfalse⟩
  | false =>
    simp only [hshare, Bool.false_eq_true, if_false] at h
    have hids : ∀ (channel : ChannelKind) (p who : Identifier),
        ∀ s ∈ [channel.value]++[p.val,who.val], isIdentifier s = true := by
      intro channel p who
      simp [channel_identifier, p.property, who.property]
    obtain ⟨hchannel,hscope,hends⟩ := joined_injective [m.channel.value]
      [n.channel.value] [product.val,principal.val] [product'.val,principal'.val] rfl rfl
      (hids _ _ _) (hids _ _ _) h
    simp only [List.cons.injEq, and_true] at hchannel hends
    exact ⟨channel_injective hchannel,hscope,Subtype.ext hends.1,fun _ => Subtype.ext hends.2⟩

theorem owner_values_injective (ht : isIdentifier g.tenantId = true)
    (h : joined (g.ownerValues m product.val) = joined (g.ownerValues n product'.val)) :
    m.conversationId = n.conversationId := by
  have hids : ∀ (channel : ChannelKind) (p : Identifier),
      ∀ s ∈ [g.tenantId,channel.value]++[p.val], isIdentifier s = true := by
    intro channel p
    simp [channel_identifier, p.property, ht]
  exact (joined_injective [g.tenantId,m.channel.value] [g.tenantId,n.channel.value]
    [product.val] [product'.val] rfl rfl (hids _ _) (hids _ _) h).2.1

def runValues (i : SessionIdentity) (scope : ChannelScope) (messageId : String) : List String :=
  [i.tenantId.val,i.productId.val,i.agentId.val,i.sessionId.val,i.principalId.val,
    scope.principalId.val,scope.channelId,messageId]

theorem run_id_eq (wire : Wire) (i : SessionIdentity) (scope : ChannelScope) (messageId : String) :
    wire.runId i scope messageId =
      "run" ++ "-" ++ wire.sha256 (joined (runValues i scope messageId)) := rfl

theorem run_values_injective {i j : SessionIdentity} {scope scope' : ChannelScope}
    {messageId messageId' : String} {channel channel' : ChannelKind}
    (hc : scope.channelId = channel.value) (hc' : scope'.channelId = channel'.value)
    (h : joined (runValues i scope messageId) = joined (runValues j scope' messageId')) :
    i = j ∧ scope.principalId = scope'.principalId ∧ channel = channel' ∧
      messageId = messageId' := by
  have hids : ∀ (i : SessionIdentity) (who : Identifier) (channel : ChannelKind),
      ∀ s ∈ [i.tenantId.val,i.productId.val,i.agentId.val,i.sessionId.val,i.principalId.val,
        who.val,channel.value]++[], isIdentifier s = true := by
    intro i who channel
    simp [channel_identifier, i.tenantId.property, i.productId.property, i.agentId.property,
      i.sessionId.property, i.principalId.property, who.property]
  unfold runValues at h
  rw [hc, hc'] at h
  obtain ⟨hfront,hmessage,-⟩ := joined_injective
    [i.tenantId.val,i.productId.val,i.agentId.val,i.sessionId.val,i.principalId.val,
      scope.principalId.val,channel.value]
    [j.tenantId.val,j.productId.val,j.agentId.val,j.sessionId.val,j.principalId.val,
      scope'.principalId.val,channel'.value] [] [] rfl rfl
    (hids _ _ _) (hids _ _ _) h
  simp only [List.cons.injEq, and_true] at hfront
  obtain ⟨h1,h2,h3,h4,h5,h6,h7⟩ := hfront
  refine ⟨?_,Subtype.ext h6,channel_injective h7,hmessage⟩
  cases i
  cases j
  simp only [SessionIdentity.mk.injEq]
  exact ⟨Subtype.ext h1,Subtype.ext h2,Subtype.ext h3,Subtype.ext h4,Subtype.ext h5⟩

end Joins

theorem safe_id_inj {wire : Wire} {kind : String} {values values' : List String}
    (h : safeId wire kind values = safeId wire kind values') :
    hashPart wire (joined values) = hashPart wire (joined values') := by
  have hlists := congrArg String.toList h
  simp only [safeId, String.toList_append, List.append_cancel_left_eq] at hlists
  exact String.toList_inj.mp hlists

theorem run_id_inj {wire : Wire} {i j : SessionIdentity} {scope scope' : ChannelScope}
    {messageId messageId' : String}
    (h : wire.runId i scope messageId = wire.runId j scope' messageId') :
    hashPart wire (joined (runValues i scope messageId)) =
      hashPart wire (joined (runValues j scope' messageId')) := by
  have hlists := congrArg String.toList h
  simp only [run_id_eq, String.toList_append, List.append_cancel_left_eq] at hlists
  rw [hashPart, hashPart, hlists]

def hashedTexts (g : EnterpriseChannelGateway) (d : Delivery) (scope : ChannelScope)
    (i : SessionIdentity) : List String :=
  match sessionScope d.message with
  | .error _ => []
  | .ok scopeId =>
    [joined (g.sessionValues d.message scopeId scope.productId.val scope.principalId.val),
      joined (g.ownerValues d.message scope.productId.val),
      joined (runValues i scope d.message.messageId)]

def Uncollided (wire : Wire) (texts texts' : List String) : Prop :=
  ∀ pair ∈ texts.zip texts', hashPart wire pair.1 = hashPart wire pair.2 → pair.1 = pair.2

structure Isolated (wire : Wire) (g : EnterpriseChannelGateway) (a b : Delivery)
    (sa sb : ChannelScope) (ia ib : SessionIdentity) : Prop where
  session : ia = ib ↔ a.message.channel = b.message.channel ∧
    sessionScope a.message = sessionScope b.message ∧
    g.router.resolve a.message = g.router.resolve b.message ∧
    if g.shareConversationSessions then a.message.conversationId = b.message.conversationId
    else sa.principalId = sb.principalId
  run : wire.runId ia sa a.message.messageId = wire.runId ib sb b.message.messageId ↔
    ia = ib ∧ sa.principalId = sb.principalId ∧ a.message.channel = b.message.channel ∧
      a.message.messageId = b.message.messageId
  principals : g.shareConversationSessions = false → sa.principalId ≠ sb.principalId → ia ≠ ib

section Sessions
open EnterpriseChannelGateway
variable {wire : Wire} {g : EnterpriseChannelGateway} {a b : Delivery} {sa sb : ChannelScope}
variable {ia ib : SessionIdentity} {scopeA scopeB : String}

structure Identified (wire : Wire) (g : EnterpriseChannelGateway) (d : Delivery)
    (scope : ChannelScope) (scopeId : String) (i : SessionIdentity) : Prop where
  tenant : i.tenantId.val = g.tenantId
  product : i.productId = scope.productId
  agent : i.agentId.val = (g.agentIds.get? scope.productId.val).getD "default"
  session : i.sessionId.val = safeId wire "session"
    (g.sessionValues d.message scopeId scope.productId.val scope.principalId.val)
  owner : i.principalId.val =
    g.sessionOwnerId wire d.message scope.productId.val scope.principalId.val

theorem session_identity_admitted (h : Admitted wire g a sa scopeA) :
    ∃ i, sessionIdentity sa = some i ∧ Identified wire g a sa scopeA i := by
  obtain ⟨agent,session,hagent,hname,hsession⟩ := h.agent
  have hne : g.sessionOwnerId wire a.message sa.productId.val sa.principalId.val ≠ "" := by
    intro hempty
    have hvalid := h.ownerValid
    rw [hempty] at hvalid
    exact absurd hvalid (by decide)
  have howner : sa.effectiveSessionOwnerId =
      g.sessionOwnerId wire a.message sa.productId.val sa.principalId.val := by
    simp only [Execution.RequestScope.effectiveSessionOwnerId, h.owner, if_neg hne]
  have hvalid : isIdentifier sa.effectiveSessionOwnerId = true := howner ▸ h.ownerValid
  refine ⟨⟨sa.tenantId,sa.productId,agent,session,⟨sa.effectiveSessionOwnerId,hvalid⟩⟩,?_,
    h.tenant,rfl,hname,hsession,howner⟩
  simp only [sessionIdentity, hagent, dif_pos hvalid]

theorem same_session (hia : Identified wire g a sa scopeA ia)
    (hib : Identified wire g b sb scopeB ib) (hchannel : a.message.channel = b.message.channel)
    (hscope : scopeA = scopeB)
    (hproduct : sa.productId = sb.productId)
    (howner : if g.shareConversationSessions
      then a.message.conversationId = b.message.conversationId
      else sa.principalId = sb.principalId) : ia = ib := by
  have hsession : ia.sessionId.val = ib.sessionId.val := by
    rw [hia.session, hib.session]
    unfold sessionValues
    rw [hchannel, hscope, hproduct]
    cases hshare : g.shareConversationSessions with
    | true => rfl
    | false =>
      simp only [hshare, Bool.false_eq_true, if_false] at howner
      rw [howner]
  have hprincipal : ia.principalId.val = ib.principalId.val := by
    rw [hia.owner, hib.owner]
    unfold sessionOwnerId ownerValues
    cases hshare : g.shareConversationSessions with
    | true =>
      simp only [hshare, if_true] at howner ⊢
      rw [hchannel, howner, hproduct]
    | false =>
      simp only [hshare, Bool.false_eq_true, if_false] at howner ⊢
      rw [howner]
  have hagent : ia.agentId.val = ib.agentId.val := by rw [hia.agent, hib.agent, hproduct]
  obtain ⟨t,p,ag,se,pr⟩ := ia
  obtain ⟨t',p',ag',se',pr'⟩ := ib
  simp only [SessionIdentity.mk.injEq]
  exact ⟨Subtype.ext (hia.tenant.trans hib.tenant.symm),
    hia.product.trans (hproduct.trans hib.product.symm),Subtype.ext hagent,Subtype.ext hsession,
    Subtype.ext hprincipal⟩

theorem session_parts (ha : Admitted wire g a sa scopeA)
    (hia : Identified wire g a sa scopeA ia) (hib : Identified wire g b sb scopeB ib)
    (hsession : hashPart wire (joined
        (g.sessionValues a.message scopeA sa.productId.val sa.principalId.val)) =
      hashPart wire (joined
        (g.sessionValues b.message scopeB sb.productId.val sb.principalId.val)) →
      joined (g.sessionValues a.message scopeA sa.productId.val sa.principalId.val) =
      joined (g.sessionValues b.message scopeB sb.productId.val sb.principalId.val))
    (howner : hashPart wire (joined (g.ownerValues a.message sa.productId.val)) =
      hashPart wire (joined (g.ownerValues b.message sb.productId.val)) →
      joined (g.ownerValues a.message sa.productId.val) =
      joined (g.ownerValues b.message sb.productId.val)) (h : ia = ib) :
    a.message.channel = b.message.channel ∧ scopeA = scopeB ∧ sa.productId = sb.productId ∧
      if g.shareConversationSessions then a.message.conversationId = b.message.conversationId
      else sa.principalId = sb.principalId := by
  have hsame := hia.session.symm.trans ((congrArg (fun i => i.sessionId.val) h).trans hib.session)
  obtain ⟨hchannel,hscope,hproduct,hprincipal⟩ :=
    session_values_injective (hsession (safe_id_inj hsame))
  refine ⟨hchannel,hscope,hproduct,?_⟩
  cases hshare : g.shareConversationSessions with
  | true =>
    have howners := hia.owner.symm.trans
      ((congrArg (fun i => i.principalId.val) h).trans hib.owner)
    simp only [sessionOwnerId, hshare, if_true] at howners
    have htenant : isIdentifier g.tenantId = true := by
      rw [← ha.tenant]
      exact sa.tenantId.property
    exact owner_values_injective htenant (howner (safe_id_inj howners))
  | false => exact hprincipal hshare

end Sessions

/-- Admitted deliveries share a session exactly when they belong to one
conversation, and a run exactly when they are one message of one principal. -/
theorem conversations_isolated (wire : Wire) (g : EnterpriseChannelGateway) (a b : Delivery)
    (sa sb : ChannelScope) (ha : g.admittedScope wire a = .ok sa)
    (hb : g.admittedScope wire b = .ok sb) :
    ∃ ia ib, sessionIdentity sa = some ia ∧ sessionIdentity sb = some ib ∧
      (∃ p, g.principalOf a = .ok p ∧ sa.principalId = p.principalId) ∧
      (∃ p, g.principalOf b = .ok p ∧ sb.principalId = p.principalId) ∧
      (Uncollided wire (hashedTexts g a sa ia) (hashedTexts g b sb ib) →
        Isolated wire g a b sa sb ia ib) := by
  obtain ⟨scopeA,ha⟩ := EnterpriseChannelGateway.admitted_scope_ok ha
  obtain ⟨scopeB,hb⟩ := EnterpriseChannelGateway.admitted_scope_ok hb
  obtain ⟨ia,hia,hidA⟩ := session_identity_admitted ha
  obtain ⟨ib,hib,hidB⟩ := session_identity_admitted hb
  refine ⟨ia,ib,hia,hib,ha.principal,hb.principal,fun hw => ?_⟩
  simp only [Uncollided, hashedTexts, ha.sessionScoped, hb.sessionScoped, List.zip_cons_cons,
    List.zip_nil_right, List.forall_mem_cons] at hw
  obtain ⟨hsession,howner,hrun,-⟩ := hw
  have hparts := session_parts ha hidA hidB hsession howner
  have hscopes : sessionScope a.message = sessionScope b.message ↔ scopeA = scopeB := by
    rw [ha.sessionScoped, hb.sessionScoped, Except.ok.injEq]
  have hproducts : g.router.resolve a.message = g.router.resolve b.message ↔
      sa.productId = sb.productId := by
    rw [ha.product, hb.product, Except.ok.injEq]
    exact Subtype.ext_iff.symm
  have hiff : ia = ib ↔ a.message.channel = b.message.channel ∧ scopeA = scopeB ∧
      sa.productId = sb.productId ∧
      if g.shareConversationSessions then a.message.conversationId = b.message.conversationId
      else sa.principalId = sb.principalId :=
    ⟨hparts,fun h => same_session hidA hidB h.1 h.2.1 h.2.2.1 h.2.2.2⟩
  refine ⟨?_,⟨?_,?_⟩,?_⟩
  · rw [hscopes, hproducts]
    exact hiff
  · intro h
    exact run_values_injective ha.channel hb.channel (hrun (run_id_inj h))
  · rintro ⟨rfl,hprincipal,hchannel,hmessage⟩
    rw [run_id_eq, run_id_eq, runValues, runValues, hprincipal, ha.channel, hb.channel, hchannel,
      hmessage]
  · intro hshare hne h
    have hsame := (hiff.mp h).2.2.2
    simp only [hshare, Bool.false_eq_true, if_false] at hsame
    exact hne hsame

def letterWire : Wire where
  sha256 text := String.ofList (List.replicate 64 (if text.toList.contains 'A' then 'A' else 'b'))
  hexdigest _ := ""
  isoformat _ := ""

def roomGateway : EnterpriseChannelGateway where
  tenantId := "tenant"
  router := { products := ["product"] }

theorem no_roles : ∀ role ∈ ([] : List String), isIdentifier role = true := nofun

def roomDelivery (room : String) : Delivery where
  message := {
    channel := .web
    eventId := "event"
    messageId := "message"
    conversationId := room
    senderExternalId := "user"
    text := ""
    receivedAt := 0 }
  arrival := .handshake ⟨⟨"tenant",.refl true⟩,⟨"user",.refl true⟩,[],no_roles⟩

def roomScope (letter : Char)
    (h : isIdentifier ("session-" ++ String.ofList (List.replicate 40 letter)) = true) :
    ChannelScope where
  tenantId := ⟨"tenant",.refl true⟩
  productId := ⟨"product",.refl true⟩
  agent := some (⟨"default",.refl true⟩,⟨"session-" ++ String.ofList (List.replicate 40 letter),h⟩)
  principalId := ⟨"user",.refl true⟩
  channelId := "web"
  sessionOwnerId := some "user"
  requestId := "request-" ++ String.ofList (List.replicate 40 'b')
  correlationId := "correlation-" ++ String.ofList (List.replicate 40 letter)

theorem rooms_isolated :
    roomGateway.admittedScope letterWire (roomDelivery "A") = .ok (roomScope 'A' (by decide)) ∧
    roomGateway.admittedScope letterWire (roomDelivery "B") = .ok (roomScope 'b' (by decide)) ∧
    ∃ ia ib, sessionIdentity (roomScope 'A' (by decide)) = some ia ∧
      sessionIdentity (roomScope 'b' (by decide)) = some ib ∧
      Isolated letterWire roomGateway (roomDelivery "A") (roomDelivery "B")
        (roomScope 'A' (by decide)) (roomScope 'b' (by decide)) ia ib := by
  have ha : roomGateway.admittedScope letterWire (roomDelivery "A") =
      .ok (roomScope 'A' (by decide)) := by decide +kernel
  have hb : roomGateway.admittedScope letterWire (roomDelivery "B") =
      .ok (roomScope 'b' (by decide)) := by decide +kernel
  obtain ⟨ia,ib,hia,hib,-,-,h⟩ := conversations_isolated letterWire roomGateway (roomDelivery "A")
    (roomDelivery "B") _ _ ha hb
  refine ⟨ha,hb,ia,ib,hia,hib,h ?_⟩
  obtain rfl := Option.some.inj hia
  obtain rfl := Option.some.inj hib
  unfold Uncollided
  decide +kernel

end SuiteHarness.Channels
