import SuiteHarness.Library.Results
import SuiteHarness.Memory.Customer360

/-!
# The commands of the provider in one form

A writing command checks its arguments, which gives its idempotency key and its
fingerprint, and is then replayed or executed. `Written` lists what executing
does. The disabling commands are policy changes whose arguments are read from
the current policy, so their fingerprint depends on the state.
-/

set_option autoImplicit false

namespace SuiteHarness.Memory
open SuiteHarness.Library SuiteHarness.Library.Results SuiteHarness.Execution

theorem Command.policy_owner (command : Command) (scope : RequestScope) (revision : ℕ) (now : ℤ) :
    (command.policy scope revision now).tenantId = scope.tenantId.val ∧
      (command.policy scope revision now).productId = scope.productId.val := by
  cases command <;> exact ⟨rfl,rfl⟩

namespace Customer360

variable {ids : IdFactory} {s t u : Customer360} {scope : RequestScope} {args : PolicyArgs} {now : ℤ}
  {op : Customer360Op} {key : IdempotencyKey} {command : Command} {result : MemoryResult}

def fingerprint (s : Customer360) :
    Customer360Op → Option (Except MemoryCapabilityError (IdempotencyKey × Command))
  | .bindEntityAlias scope source subject entity expected key _ => some do
    requireAny scope [entityAdmin,curator]
    let source ← checkText source "source_product_id"
    let subject ← checkText subject "local_subject_id"
    let entity ← checkText entity "entity_id"
    let expected ← checkRevision expected "expected_revision"
    let key ← idemKey scope "customer360.bind_entity_alias" key
    .ok (key,.bindEntityAlias source subject entity expected)
  | .configurePolicy scope args _ => some (checkPolicy scope args)
  | .disablePublishing scope expected key withdrawExisting _ => some (checkPolicy scope
      { currentArgs (s.policy scope.tenantId.val scope.productId.val) expected key with
        publishEnabled := false
        withdrawExisting := withdrawExisting })
  | .disableConsumption scope expected key _ => some (checkPolicy scope
      { currentArgs (s.policy scope.tenantId.val scope.productId.val) expected key with
        consumeEnabled := false })
  | .proposeShare scope source key _ _ => some do
    require scope sharePropose
    let source ← checkText source "source_claim_id"
    let key ← idemKey scope "customer360.propose_share" key
    .ok (key,.proposeShare source)
  | .curate scope id action reason expected key _ => some do
    require scope curator
    let id ← checkText id "candidate_id"
    let reason ← checkText reason "reason"
    let expected ← checkRevision expected "expected_revision"
    let key ← idemKey scope "customer360.curate" key
    .ok (key,.curate id action reason expected)
  | .withdrawSource scope source reason key _ _ => some do
    require scope sharePropose
    let source ← checkText source "source_claim_id"
    let reason ← checkText reason "reason"
    let key ← idemKey scope "customer360.withdraw_source" key
    .ok (key,.withdrawSource source reason)
  | _ => none

def configures : Customer360Op → Option (RequestScope × ℤ)
  | .configurePolicy scope _ now => some (scope,now)
  | .disablePublishing scope _ _ _ now => some (scope,now)
  | .disableConsumption scope _ _ now => some (scope,now)
  | _ => none

def revisionOf (s : Customer360) (entity : String × String) : ℕ :=
  (s.entityRevisions.get? entity).getD 0

def naturalKey (s : Customer360) (scope : RequestScope) (claim : PrivateClaim) :
    String × String × String × ℕ × ℕ :=
  (scope.tenantId.val,scope.productId.val,claim.claimId,claim.version,
    (s.policy scope.tenantId.val scope.productId.val).revision)

def filed (s : Customer360) (scope : RequestScope) (claim : PrivateClaim) : Option ShareCandidate :=
  (s.candidateBySourceRevision.get? (s.naturalKey scope claim)).bind s.candidates.get?

def proposal (ids : IdFactory) (s : Customer360) (scope : RequestScope) (claim : PrivateClaim)
    (bound : EntityAlias) (now : ℤ) : ShareCandidate :=
  let policy := s.policy scope.tenantId.val scope.productId.val
  newCandidate scope (ids.text s.drawn) bound claim (policy.publishAudienceFor claim.predicate)
    policy.revision now

inductive Written (ids : IdFactory) (s : Customer360) :
    Customer360Op → Command → Customer360 → MemoryResult → Prop where
  | bound (scope : RequestScope) (source subject entity : String) (expected : ℤ) (key : String)
      (now : ℤ) (command : Command) (aliases : Dict (String × String × String) EntityAlias)
      (result : MemoryResult) :
      Written ids s (.bindEntityAlias scope source subject entity expected key now) command
        { s with aliases } result
  | policy (op : Customer360Op) (command : Command) (scope : RequestScope) (now : ℤ)
      (hop : configures op = some (scope,now))
      (hrevision : (s.policy scope.tenantId.val scope.productId.val).revision = command.expected) :
      Written ids s op command (s.applyPolicy (command.policy scope (command.expected+1) now)
        command.withdraws now) (.policy (command.policy scope (command.expected+1) now))
  | known (scope : RequestScope) (source key : String) (claim : PrivateClaim) (now : ℤ)
      (command : Command) (bound : EntityAlias) (candidate : ShareCandidate)
      (hbound : s.aliases.get? (scope.tenantId.val,scope.productId.val,claim.localSubjectId) =
        some bound) (hfiled : s.filed scope claim = some candidate) :
      Written ids s (.proposeShare scope source key (.ok claim) now) command s (.candidate candidate)
  | proposed (scope : RequestScope) (source key : String) (claim : PrivateClaim) (now : ℤ)
      (command : Command) (bound : EntityAlias)
      (hbound : s.aliases.get? (scope.tenantId.val,scope.productId.val,claim.localSubjectId) =
        some bound) (hfiled : s.filed scope claim = none)
      (haudience : (s.policy scope.tenantId.val scope.productId.val).publishAudienceFor
        claim.predicate ≠ ∅) :
      Written ids s (.proposeShare scope source key (.ok claim) now) command
        { s with
          candidates := s.candidates.set (ids.text s.drawn) (proposal ids s scope claim bound now)
          candidateBySourceRevision := s.candidateBySourceRevision.set (s.naturalKey scope claim)
            (ids.text s.drawn)
          drawn := s.drawn+1 } (.candidate (proposal ids s scope claim bound now))
  | decided (scope : RequestScope) (candidateId : String) (action : CurationAction)
      (reason : String) (expected : ℤ) (key : String) (now : ℤ) (command : Command)
      (c : ShareCandidate) (hrole : curator ∈ scope.roles)
      (hc : s.candidates.get? (strip candidateId) = some c) (htenant : c.tenantId = scope.tenantId.val)
      (hpending : c.status = .pending) (hallowed : action = .accept →
        candidateAllowed (s.policy c.tenantId c.sourceProductId) c = true) :
      Written ids s (.curate scope candidateId action reason expected key now) command
        (s.recordDecision ids scope (strip candidateId) c action (strip reason)
          (s.revisionOf (c.tenantId,c.entityId)) now).1
        (s.recordDecision ids scope (strip candidateId) c action (strip reason)
          (s.revisionOf (c.tenantId,c.entityId)) now).2
  | withdrawn (scope : RequestScope) (source reason key : String)
      (profile : Except MemoryCapabilityError PrivateClaim) (now : ℤ) (command : Command)
      (result : MemoryResult) :
      Written ids s (.withdrawSource scope source reason key profile now) command
        (s.withdraw scope.tenantId.val
          (ofSource scope.tenantId.val scope.productId.val (strip source)) (strip reason) now).1 result

theorem check_text_ok {value name clean : String} (h : checkText value name = .ok clean) :
    clean = strip value := by
  obtain ⟨-,h⟩ := guard_ok h
  exact (Except.ok.inj h).symm

theorem idem_key_ok {operation idempotencyKey : String}
    (h : idemKey scope operation idempotencyKey = .ok key) :
    key = (scope.tenantId.val,scope.productId.val,operation,strip idempotencyKey) := by
  obtain ⟨text,htext,rfl⟩ := map_ok h
  rw [check_text_ok htext]

theorem require_ok {role : String} {v : Unit} (h : require scope role = .ok v) :
    role ∈ scope.roles := by
  unfold require at h
  split_ifs at h with hrole
  exact hrole

structure CheckedPolicy (scope : RequestScope) (args : PolicyArgs) (key : IdempotencyKey)
    (command : Command) : Prop where
  role : sharingAdmin ∈ scope.roles
  key : key = (scope.tenantId.val,scope.productId.val,"customer360.configure_policy",
    strip args.idempotencyKey)
  expected : checkRevision args.expectedRevision "expected_revision" = .ok command.expected
  withdraws : command.withdraws = args.withdrawExisting
  revision : ∀ revision now, (command.policy scope revision now).revision = revision

theorem check_policy_ok (h : checkPolicy scope args = .ok (key,command)) :
    CheckedPolicy scope args key command := by
  obtain ⟨_,hrole,h⟩ := bind_ok h
  obtain ⟨_,hexpected,h⟩ := bind_ok h
  obtain ⟨_,_,h⟩ := bind_ok h
  obtain ⟨_,_,h⟩ := bind_ok h
  obtain ⟨_,_,h⟩ := bind_ok h
  obtain ⟨_,_,h⟩ := bind_ok h
  obtain ⟨_,_,h⟩ := bind_ok h
  obtain ⟨_,_,h⟩ := bind_ok h
  obtain ⟨_,_,h⟩ := bind_ok h
  obtain ⟨_,_,h⟩ := bind_ok h
  obtain ⟨_,hkey,h⟩ := bind_ok h
  cases h
  exact ⟨require_ok hrole,idem_key_ok hkey,hexpected,rfl,fun _ _ => rfl⟩

theorem change_policy_ok (hop : configures op = some (scope,now))
    (h : s.changePolicy scope now command = .ok (u,result)) : Written ids s op command u result := by
  obtain ⟨hrevision,h⟩ := guard_ok h
  cases h
  rw [not_not.mp hrevision]
  exact .policy op command scope now hop (not_not.mp hrevision)

theorem record_proposal_ok {source key : String} {claim : PrivateClaim}
    (h : s.recordProposal ids scope claim now = .ok (u,result)) :
    Written ids s (.proposeShare scope source key (.ok claim) now) command u result := by
  unfold recordProposal at h
  split at h
  · cases h
  · rename_i bound hbound
    obtain ⟨haudience,h⟩ := guard_ok h
    simp only at h
    split at h
    · rename_i candidate hfiled
      cases h
      exact .known _ _ _ _ _ _ bound _ hbound hfiled
    · rename_i hfiled
      cases h
      exact .proposed _ _ _ _ _ _ bound hbound hfiled haudience

theorem settle_ok {candidateId reason idempotencyKey : String} {action : CurationAction}
    {expected : ℕ} {revision : ℤ} (hrole : curator ∈ scope.roles)
    (h : s.settle ids scope (strip candidateId) action (strip reason) expected now =
      .ok (u,result)) :
    Written ids s (.curate scope candidateId action reason revision idempotencyKey now) command u
      result := by
  unfold settle at h
  split at h
  · cases h
  · rename_i c hc
    obtain ⟨htenant,h⟩ := guard_ok h
    obtain ⟨hpending,h⟩ := guard_ok h
    obtain ⟨hallowed,h⟩ := guard_ok h
    obtain ⟨-,h⟩ := guard_ok h
    rw [Except.ok.injEq] at h
    have hwritten : Written ids s _ command _ _ := .decided scope candidateId action reason revision
      idempotencyKey now command c hrole hc (not_not.mp htenant) (not_not.mp hpending)
      (fun haccept => by simpa [haccept] using hallowed)
    rwa [revisionOf, h] at hwritten

inductive Called (ids : IdFactory) (s : Customer360) (op : Customer360Op) : Prop where
  | reads (h : s.fingerprint op = none) (hstep : (s.step ids op).1 = s)
  | refused (error : MemoryCapabilityError) (h : s.fingerprint op = some (.error error))
      (hstep : s.step ids op = (s,.error error))
  | keyed (key : IdempotencyKey) (command : Command)
      (body : Except MemoryCapabilityError (Customer360 × MemoryResult))
      (h : s.fingerprint op = some (.ok (key,command)))
      (hstep : s.step ids op = s.answered (s.once key command body))
      (hbody : ∀ u result, body = .ok (u,result) → Written ids s op command u result)

/-- A check that both the fingerprint and the command begin with. -/
theorem called_bind {α : Type} {x : Except MemoryCapabilityError α}
    {f : α → Except MemoryCapabilityError (IdempotencyKey × Command)}
    {g : α → Except MemoryCapabilityError (Customer360 × MemoryResult)}
    (h : s.fingerprint op = some (x >>= f)) (hstep : s.step ids op = s.answered (x >>= g))
    (hok : ∀ a, x = .ok a → s.fingerprint op = some (f a) → s.step ids op = s.answered (g a) →
      Called ids s op) : Called ids s op := by
  cases x with
  | error error => exact .refused error h hstep
  | ok a => exact hok a rfl h hstep

theorem configured (hop : configures op = some (scope,now))
    (h : s.fingerprint op = some (checkPolicy scope args))
    (hstep : s.step ids op = s.answered (s.configurePolicy scope args now)) : Called ids s op := by
  rw [configurePolicy] at hstep
  rw [← bind_pure (checkPolicy scope args)] at h
  exact called_bind h hstep fun c _ h hstep =>
    .keyed c.1 c.2 _ h hstep fun u result => change_policy_ok hop

theorem called (ids : IdFactory) (s : Customer360) (op : Customer360Op) : Called ids s op := by
  cases op with
  | bindEntityAlias scope source subject entity expected key now =>
    refine called_bind rfl rfl fun _ _ h hstep => called_bind h hstep fun _ _ h hstep =>
      called_bind h hstep fun _ _ h hstep => called_bind h hstep fun _ _ h hstep =>
      called_bind h hstep fun _ _ h hstep => called_bind h hstep fun _ _ h hstep =>
      .keyed _ _ _ h hstep fun u result hbody => ?_
    obtain ⟨-,hbody⟩ := guard_ok hbody
    cases hbody
    exact .bound _ _ _ _ _ _ _ _ _ _
  | configurePolicy scope args now | disablePublishing scope expected key withdrawExisting now
  | disableConsumption scope expected key now => exact configured rfl rfl rfl
  | proposeShare scope source key profile now =>
    refine called_bind rfl rfl fun _ _ h hstep => called_bind h hstep fun _ _ h hstep =>
      called_bind h hstep fun _ _ h hstep => .keyed _ _ _ h hstep fun u result hbody => ?_
    obtain ⟨claim,rfl,hbody⟩ := bind_ok hbody
    obtain ⟨-,hbody⟩ := guard_ok hbody
    exact record_proposal_ok hbody
  | curate scope candidate action reason expected key now =>
    refine called_bind rfl rfl fun _ hrole h hstep => called_bind h hstep fun _ hid h hstep =>
      called_bind h hstep fun _ hreason h hstep => called_bind h hstep fun _ _ h hstep =>
      called_bind h hstep fun _ _ h hstep => .keyed _ _ _ h hstep fun u result hbody => ?_
    rw [check_text_ok hid, check_text_ok hreason] at hbody
    exact settle_ok (require_ok hrole) hbody
  | withdrawSource scope source reason key profile now =>
    refine called_bind rfl rfl fun _ _ h hstep => called_bind h hstep fun _ hsource h hstep =>
      called_bind h hstep fun _ hreason h hstep => called_bind h hstep fun _ _ h hstep =>
      .keyed _ _ _ h hstep fun u result hbody => ?_
    rw [check_text_ok hsource, check_text_ok hreason] at hbody
    obtain ⟨claim,-,hbody⟩ := bind_ok hbody
    cases hbody
    exact .withdrawn _ _ _ _ _ _ _ _
  | _ => exact .reads rfl rfl

/-- A command is replayed, or it is executed under a new key. -/
theorem once_ok {execute : Except MemoryCapabilityError (Customer360 × MemoryResult)}
    (h : s.once key command execute = .ok (t,result)) :
    (t = s ∧ s.idempotency.get? key = some (command,result)) ∨
    (s.idempotency.get? key = none ∧ ∃ u, execute = .ok (u,result) ∧
      t = (u.remember key command result).1) := by
  obtain ⟨stored,hreplay,h⟩ := bind_ok h
  unfold replay at hreplay
  cases hstored : s.idempotency.get? key with
  | none =>
    rw [hstored] at hreplay
    cases hreplay
    obtain ⟨v,hexecute,h⟩ := bind_ok h
    cases h
    exact .inr ⟨rfl,v.1,hexecute,rfl⟩
  | some entry =>
    rw [hstored] at hreplay
    obtain ⟨hsame,hreplay⟩ := guard_ok hreplay
    cases hreplay
    cases h
    rw [← not_not.mp hsame]
    exact .inl ⟨rfl,rfl⟩

theorem answered_ok {x : Except MemoryCapabilityError (Customer360 × MemoryResult)}
    (h : (s.answered x).2 = .ok result) : x = .ok ((s.answered x).1,result) := by
  cases x with
  | error error => cases h
  | ok v =>
    cases h
    rfl

theorem fingerprint_ok (hok : (s.step ids op).2 = .ok result) :
    s.fingerprint op = none ∨ ∃ key command, s.fingerprint op = some (.ok (key,command)) := by
  cases called ids s op with
  | reads h _ => exact .inl h
  | refused error _ hstep =>
    rw [hstep] at hok
    cases hok
  | keyed key command _ h _ _ => exact .inr ⟨key,command,h⟩

/-- A command under a stored key and fingerprint returns what is stored. -/
theorem replayed (h : s.fingerprint op = some (.ok (key,command)))
    (hstored : s.idempotency.get? key = some (command,result)) :
    s.step ids op = (s,.ok result) := by
  cases called ids s op with
  | reads h' _ | refused _ h' _ => cases h.symm.trans h'
  | keyed key' command' body h' hstep _ =>
    cases h.symm.trans h'
    rw [hstep, once, replay, hstored]
    simp only [ne_eq, not_true_eq_false, if_false]
    rfl

theorem executed (h : s.fingerprint op = some (.ok (key,command)))
    (hnew : s.idempotency.get? key = none) (hok : (s.step ids op).2 = .ok result) :
    ∃ u, Written ids s op command u result ∧
      s.step ids op = ((u.remember key command result).1,.ok result) := by
  cases called ids s op with
  | reads h' _ | refused _ h' _ => cases h.symm.trans h'
  | keyed key' command' body h' hstep hbody =>
    cases h.symm.trans h'
    rw [hstep] at hok
    obtain ⟨-,hstored⟩ | ⟨-,u,hu,hnext⟩ := once_ok (answered_ok hok)
    · cases hnew.symm.trans hstored
    · refine ⟨u,hbody u result hu,?_⟩
      rw [hstep, ← hnext, ← hok]

/-- A command leaves the state as it is, or it was executed and is remembered. -/
theorem step_cases (ids : IdFactory) (s : Customer360) (op : Customer360Op) :
    (s.step ids op).1 = s ∨ ∃ key command u result, s.fingerprint op = some (.ok (key,command)) ∧
      s.idempotency.get? key = none ∧ Written ids s op command u result ∧
      s.step ids op = ((u.remember key command result).1,.ok result) := by
  cases called ids s op with
  | reads _ hstep => exact .inl hstep
  | refused _ _ hstep => exact .inl (by rw [hstep])
  | keyed key command body h hstep hbody =>
    cases honce : s.once key command body with
    | error error => exact .inl (by rw [hstep, honce]; rfl)
    | ok v =>
      rw [honce] at hstep
      obtain ⟨hsame,-⟩ | ⟨hnew,u,hu,hnext⟩ := once_ok honce
      · exact .inl (by rw [hstep]; exact hsame)
      · refine .inr ⟨key,command,u,v.2,h,hnew,hbody u v.2 hu,?_⟩
        rw [hstep, ← hnext]
        rfl

end Customer360
end SuiteHarness.Memory
