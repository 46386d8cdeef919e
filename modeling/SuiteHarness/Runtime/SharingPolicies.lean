import SuiteHarness.Memory.PolicyChanges
import SuiteHarness.Runtime.CustomerPlans

/-!
# Applying the sharing policies of a bundle

The kernel writes one policy for each product of a plan. The idempotency key is
fixed by the bundle version, but the expected revision is read anew, so a key that
was used before never fits the command again.
-/

set_option autoImplicit false

namespace SuiteHarness.Memory
open SuiteHarness.Library SuiteHarness.Library.Results SuiteHarness.Execution

theorem strip_no_space {text : String} (h : ∀ c ∈ text.toList, isSpace c = false) :
    strip text = text := by
  have hdrop : ∀ l : List Char, (∀ c ∈ l, isSpace c = false) → l.dropWhile isSpace = l := by
    intro l hl
    cases l with
    | nil => rfl
    | cons c rest => rw [List.dropWhile_cons_of_neg (by simp [hl c List.mem_cons_self])]
  rw [strip, hdrop _ h, hdrop _ fun c hc => h c (List.mem_reverse.mp hc), List.reverse_reverse,
    String.ofList_toList]

theorem strip_ne_empty {text : String} {c : Char} (hc : c ∈ text.toList) (h : isSpace c = false) :
    strip text ≠ "" := by
  intro hempty
  have hnil := congrArg String.toList hempty
  rw [strip, String.toList_ofList, String.toList_empty, List.reverse_eq_nil_iff,
    List.dropWhile_eq_nil_iff] at hnil
  have hfront : c ∈ text.toList.dropWhile isSpace := by
    rw [← List.takeWhile_append_dropWhile (p := isSpace) (l := text.toList), List.mem_append] at hc
    rcases hc with htake | hdrop
    · cases h.symm.trans (List.mem_takeWhile_imp htake)
    · exact hdrop
  cases h.symm.trans (hnil c (List.mem_reverse.mpr hfront))

namespace Customer360

variable {ids : IdFactory} {s t u : Customer360} {op : Customer360Op} {scope : RequestScope}
  {args : PolicyArgs} {key : IdempotencyKey} {command : Command} {result : MemoryResult} {now : ℤ}

def Ahead (s : Customer360) : Prop :=
  ∀ tenantId productId text command result, s.idempotency.get?
    (tenantId,productId,"customer360.configure_policy",text) = some (command,result) →
      command.expected < (s.policy tenantId productId).revision

def Names (operation : String) (x : Except MemoryCapabilityError (IdempotencyKey × Command)) : Prop :=
  ∀ key command, x = .ok (key,command) → key.2.2.1 = operation

theorem names_bind {α : Type} {operation : String} {x : Except MemoryCapabilityError α}
    {f : α → Except MemoryCapabilityError (IdempotencyKey × Command)}
    (h : ∀ a, Names operation (f a)) : Names operation (x >>= f) := by
  intro key command hok
  obtain ⟨a,-,hok⟩ := bind_ok hok
  exact h a key command hok

theorem names_key {operation text : String} :
    Names operation (idemKey scope operation text >>= fun key => .ok (key,command)) := by
  intro key command hok
  obtain ⟨_,hkey,hok⟩ := bind_ok hok
  cases hok
  rw [idem_key_ok hkey]

/-- Other commands have other operation names in their keys. -/
theorem fingerprint_operation (hop : configures op = none)
    (h : s.fingerprint op = some (.ok (key,command))) :
    key.2.2.1 ≠ "customer360.configure_policy" := by
  cases op with
  | bindEntityAlias =>
    rw [names_bind (fun _ => names_bind fun _ => names_bind fun _ => names_bind fun _ =>
      names_bind fun _ => names_key) key command (Option.some.inj h)]
    decide
  | proposeShare =>
    rw [names_bind (fun _ => names_bind fun _ => names_key) key command (Option.some.inj h)]
    decide
  | curate =>
    rw [names_bind (fun _ => names_bind fun _ => names_bind fun _ => names_bind fun _ => names_key)
      key command (Option.some.inj h)]
    decide
  | withdrawSource =>
    rw [names_bind (fun _ => names_bind fun _ => names_bind fun _ => names_key) key command
      (Option.some.inj h)]
    decide
  | configurePolicy | disablePublishing | disableConsumption => cases hop
  | _ => cases h

theorem step_ahead (ids : IdFactory) (s : Customer360) (op : Customer360Op) (h : Ahead s) :
    Ahead (s.step ids op).1 := by
  rcases step_cases ids s op with hsame | ⟨key,command,u,result,hfingerprint,-,hwritten,hstep⟩
  · rw [hsame]
    exact h
  rw [hstep]
  intro tenantId productId text stored answer hstored
  rw [remember, Dict.get_set, written_idempotency hwritten] at hstored
  have hpolicy := written_policy hwritten tenantId productId
  split_ifs at hstored with hkey
  · cases hstored
    cases hop : configures op with
    | none => exact absurd (congrArg (·.2.2.1) hkey).symm (fingerprint_operation hop hfingerprint)
    | some configured =>
      obtain ⟨scope,now⟩ := configured
      obtain ⟨args,hcheck⟩ := fingerprint_policy hop hfingerprint
      have hchecked := check_policy_ok hcheck
      cases hwritten with
      | policy _ _ scope' now' hop' =>
        cases hop.symm.trans hop'
        rw [hchecked.key, Prod.mk.injEq, Prod.mk.injEq] at hkey
        have howner := command.policy_owner scope (command.expected+1) now
        change command.expected < ((s.applyPolicy _ _ now).policy tenantId productId).revision
        rw [Customer360.policy, apply_policy_policies, Dict.get_set, howner.1, howner.2,
          if_pos (Prod.ext hkey.1 hkey.2.1), Option.getD_some, hchecked.revision]
        exact Nat.lt_succ_self _
      | _ => cases hop
  · have hold := h tenantId productId text stored answer hstored
    change stored.expected < (u.policy tenantId productId).revision
    rcases hpolicy with hsame | ⟨scope,now,hop,-,hnext,hrevision⟩
    · rwa [hsame]
    · obtain ⟨args,hcheck⟩ := fingerprint_policy hop hfingerprint
      rw [hnext, (check_policy_ok hcheck).revision]
      omega

theorem ahead_run (ids : IdFactory) (ops : List Customer360Op) :
    Ahead (Machine.final (step ids) {} ops) := by
  refine Machine.final_invariant (step ids) Ahead (step_ahead ids) {} ops ?_
  intro tenantId productId text command result h
  cases h

end Customer360
end SuiteHarness.Memory

namespace SuiteHarness.Runtime.CustomerBundle
open SuiteHarness.Library SuiteHarness.Library.Results SuiteHarness.Execution SuiteHarness.Memory
open SuiteHarness.Memory.Customer360

variable {χ ρ κ : Type}

def CustomerBundlePlan.productIds (plan : CustomerBundlePlan χ ρ κ) : List String :=
  plan.products.map ResolvedCustomerProduct.productId

def collect (owner peer : ResolvedCustomer360Rule → String) (rules : List ResolvedCustomer360Rule)
    (productId : String) : Dict String (List String) :=
  (rules.filter (fun rule => decide (owner rule = productId))).foldl (fun d rule =>
    d.set (peer rule) ((d.get? (peer rule)).getD [] ++ rule.predicates)) Dict.empty

def outgoing : List ResolvedCustomer360Rule → String → Dict String (List String) :=
  collect ResolvedCustomer360Rule.producer ResolvedCustomer360Rule.consumer

def incoming : List ResolvedCustomer360Rule → String → Dict String (List String) :=
  collect ResolvedCustomer360Rule.consumer ResolvedCustomer360Rule.producer

def peersOf (d : Dict String (List String)) : List String := d.entries.map Prod.fst

def predicatesOf (d : Dict String (List String)) : List String := d.entries.flatMap Prod.snd

def sharingArgs (rules : List ResolvedCustomer360Rule) (productId : String) (revision : ℕ)
    (idempotencyKey : String) : PolicyArgs where
  publishEnabled := !(peersOf (outgoing rules productId)).isEmpty &&
    !(predicatesOf (outgoing rules productId)).isEmpty
  consumeEnabled := !(peersOf (incoming rules productId)).isEmpty &&
    !(predicatesOf (incoming rules productId)).isEmpty
  publishPredicates := predicatesOf (outgoing rules productId)
  consumePredicates := predicatesOf (incoming rules productId)
  publishToProducts := peersOf (outgoing rules productId)
  consumeFromProducts := peersOf (incoming rules productId)
  expectedRevision := revision
  idempotencyKey := idempotencyKey
  publishRules := some (outgoing rules productId)
  consumeRules := some (incoming rules productId)

def kernelScope (tenantId productId : Identifier) : RequestScope where
  tenantId := tenantId
  productId := productId
  principalId := ⟨"suiteharness-kernel",by decide⟩
  roles := [sharingAdmin]

inductive ActivationError where
  | invalidIdentifier (label value : String)
  | memory (error : MemoryCapabilityError)
  deriving DecidableEq

/-- The two texts of the scope that are built here are checked like every identifier. -/
def requestScope (plan : CustomerBundlePlan χ ρ κ) (tenantId context : Identifier)
    (productId : String) : Except ActivationError RequestScope :=
  let request := "activate-" ++ productId
  let correlation := "bundle-" ++ plan.manifest.customerBundleId
  if !isIdentifier request then .error (.invalidIdentifier "request_id" request)
  else if !isIdentifier correlation then
    .error (.invalidIdentifier "correlation_id" correlation)
  else .ok (kernelScope tenantId context)

def activationKey (tenantId : String) (plan : CustomerBundlePlan χ ρ κ) (productId : String) : String :=
  "activate:" ++ tenantId ++ ":" ++ plan.manifest.customerBundleId ++ ":" ++
    plan.manifest.version ++ ":" ++ productId

def configureSharingPolicies (tenantId : Identifier) (plan : CustomerBundlePlan χ ρ κ)
    (products : String → Identifier) (now : String → ℤ) :
    List String → Customer360 → Customer360 × Except ActivationError Unit
  | [],s => (s,.ok ())
  | productId::rest,s =>
    match requestScope plan tenantId (products productId) productId with
    | .error error => (s,.error error)
    | .ok scope =>
      match s.configurePolicy scope (sharingArgs plan.sharing.rules productId
          (s.policy scope.tenantId.val scope.productId.val).revision
          (activationKey tenantId.val plan productId)) (now productId) with
      | .error error => (s,.error (.memory error))
      | .ok (t,_) => configureSharingPolicies tenantId plan products now rest t

def CleanRule (rule : ResolvedCustomer360Rule) : Prop :=
  Clean rule.producer ∧ Clean rule.consumer ∧ (∀ text ∈ rule.predicates, Clean text) ∧
    rule.predicates ≠ []

section Collecting

variable {owner peer : ResolvedCustomer360Rule → String} {rules : List ResolvedCustomer360Rule}
  {productId other predicate : String}

theorem collect_loop (peer : ResolvedCustomer360Rule → String) (rules : List ResolvedCustomer360Rule)
    (other predicate : String) (d : Dict String (List String)) : predicate ∈ ((rules.foldl (fun d rule =>
      d.set (peer rule) ((d.get? (peer rule)).getD [] ++ rule.predicates)) d).get? other).getD [] ↔
      predicate ∈ (d.get? other).getD [] ∨
        ∃ rule ∈ rules, peer rule = other ∧ predicate ∈ rule.predicates := by
  induction rules generalizing d with
  | nil => simp
  | cons rule rest ih =>
    rw [List.foldl_cons, ih, Dict.get_set, List.exists_mem_cons_iff, ← or_assoc]
    refine or_congr_left ?_
    by_cases hpeer : other = peer rule
    · simp [hpeer]
    · simp [hpeer, Ne.symm hpeer]

theorem mem_collect : (∃ e ∈ (collect owner peer rules productId).entries,
    e.1 = other ∧ predicate ∈ e.2) ↔
    ∃ rule ∈ rules, owner rule = productId ∧ peer rule = other ∧ predicate ∈ rule.predicates := by
  have hloop := collect_loop peer (rules.filter (fun rule => decide (owner rule = productId))) other
    predicate Dict.empty
  simp only [Dict.get_empty, Option.getD_none, List.not_mem_nil, false_or, List.mem_filter,
    decide_eq_true_eq, and_assoc] at hloop
  rw [← hloop]
  constructor
  · rintro ⟨⟨k,v⟩,he,rfl,hmem⟩
    rw [← Dict.get_mem] at he
    change predicate ∈ ((collect owner peer rules productId).get? k).getD []
    rwa [he]
  · intro hmem
    change predicate ∈ ((collect owner peer rules productId).get? other).getD [] at hmem
    cases hget : (collect owner peer rules productId).get? other with
    | none =>
      rw [hget] at hmem
      cases hmem
    | some v =>
      rw [hget] at hmem
      exact ⟨(other,v),(Dict.get_mem _ _ _).mp hget,rfl,hmem⟩

theorem collect_clean (hrules : ∀ rule ∈ rules, Clean (peer rule) ∧
    (∀ text ∈ rule.predicates, Clean text) ∧ rule.predicates ≠ []) :
    ∀ e ∈ (collect owner peer rules productId).entries,
      Clean e.1 ∧ (∀ text ∈ e.2, Clean text) ∧ e.2 ≠ [] := by
  have hloop : ∀ (l : List ResolvedCustomer360Rule) (d : Dict String (List String)),
      (∀ rule ∈ l, rule ∈ rules) →
      (∀ e ∈ d.entries, Clean e.1 ∧ (∀ text ∈ e.2, Clean text) ∧ e.2 ≠ []) →
      ∀ e ∈ (l.foldl (fun d rule => d.set (peer rule)
        ((d.get? (peer rule)).getD [] ++ rule.predicates)) d).entries,
        Clean e.1 ∧ (∀ text ∈ e.2, Clean text) ∧ e.2 ≠ [] := by
    intro l
    induction l with
    | nil => exact fun d _ h => h
    | cons rule rest ih =>
      intro d hl hd
      refine ih _ (fun r hr => hl r (List.mem_cons_of_mem rule hr)) ?_
      rintro ⟨k,v⟩ he
      rw [← Dict.get_mem, Dict.get_set] at he
      split_ifs at he with hk
      · cases he
        obtain ⟨hpeer,hclean,hne⟩ := hrules rule (hl rule List.mem_cons_self)
        refine ⟨hk ▸ hpeer,fun text htext => ?_,fun hnil => hne (List.append_eq_nil_iff.mp hnil).2⟩
        rcases List.mem_append.mp htext with hold | hnew
        · cases hget : d.get? (peer rule) with
          | none =>
            rw [hget] at hold
            cases hold
          | some old =>
            rw [hget] at hold
            exact (hd _ ((Dict.get_mem _ _ _).mp hget)).2.1 text hold
        · exact hclean text hnew
      · exact hd _ ((Dict.get_mem _ _ _).mp he)
  exact hloop _ _ (fun rule hrule => (List.mem_filter.mp hrule).1) (by simp [Dict.empty])

def rulesOf (d : Dict String (List String)) : List PeerPredicateRule :=
  sortBy PeerPredicateRule.peerProductId (d.entries.map (fun e => ⟨e.1,e.2.toFinset⟩))

variable {d : Dict String (List String)}

theorem mem_rules_of (rule : PeerPredicateRule) :
    rule ∈ rulesOf d ↔ ∃ e ∈ d.entries, ⟨e.1,e.2.toFinset⟩ = rule := by
  rw [rulesOf, (sort_by_perm _ _).mem_iff, List.mem_map]

theorem flatten_rules_of :
    flattenRules (rulesOf d) = ((peersOf d).toFinset,(predicatesOf d).toFinset) := by
  have hfold : ∀ (rules : List PeerPredicateRule) (text : String), text ∈ rules.foldr
      (fun rule predicates => rule.predicates ∪ predicates) ∅ ↔ ∃ rule ∈ rules, text ∈ rule.predicates := by
    intro rules text
    induction rules with
    | nil => simp
    | cons rule rest ih => simp [ih]
  refine Prod.ext ?_ (Finset.ext fun text => ?_)
  · rw [flattenRules, rulesOf, List.toFinset_eq_of_perm _ _ ((sort_by_perm _ _).map _), List.map_map]
    rfl
  · rw [flattenRules, hfold]
    simp only [mem_rules_of, predicatesOf, List.mem_toFinset, List.mem_flatMap]
    constructor
    · rintro ⟨_,⟨e,he,rfl⟩,htext⟩
      exact ⟨e,he,List.mem_toFinset.mp htext⟩
    · rintro ⟨e,he,htext⟩
      exact ⟨_,⟨e,he,rfl⟩,List.mem_toFinset.mpr htext⟩

theorem flattened_rules_of {name mismatch : String} : checkFlattened (some d) (rulesOf d)
    (peersOf d).toFinset (predicatesOf d).toFinset name mismatch = .ok () :=
  if_neg (fun hbad => hbad.2 flatten_rules_of)

section
variable (h : ∀ e ∈ d.entries, Clean e.1 ∧ (∀ text ∈ e.2, Clean text) ∧ e.2 ≠ [])
include h

theorem given_rules_of {name : String} :
    givenRules (some d) (peersOf d).toFinset (predicatesOf d).toFinset name = .ok (rulesOf d) :=
  peer_rules_given h

theorem enabled_iff :
    (!(peersOf d).isEmpty && !(predicatesOf d).isEmpty) = !(rulesOf d).isEmpty := by
  cases hentries : d.entries with
  | nil => simp [peersOf, rulesOf, hentries, sortBy]
  | cons e rest =>
    obtain ⟨text,htext⟩ := List.exists_mem_of_ne_nil _ (h e (hentries ▸ List.mem_cons_self)).2.2
    have hrule : ⟨e.1,e.2.toFinset⟩ ∈ rulesOf d :=
      (mem_rules_of _).mpr ⟨e,hentries ▸ List.mem_cons_self,rfl⟩
    have hpredicate : text ∈ predicatesOf d :=
      List.mem_flatMap.mpr ⟨e,hentries ▸ List.mem_cons_self,htext⟩
    have hpeer : e.1 ∈ peersOf d := List.mem_map_of_mem (hentries ▸ List.mem_cons_self)
    rw [List.isEmpty_eq_false_iff.mpr (List.ne_nil_of_mem hrule),
      List.isEmpty_eq_false_iff.mpr (List.ne_nil_of_mem hpredicate),
      List.isEmpty_eq_false_iff.mpr (List.ne_nil_of_mem hpeer)]
    rfl

end

theorem rules_of_say : (∃ rule ∈ rulesOf d, rule.peerProductId = other ∧ predicate ∈ rule.predicates) ↔
    ∃ e ∈ d.entries, e.1 = other ∧ predicate ∈ e.2 := by
  simp only [mem_rules_of]
  constructor
  · rintro ⟨_,⟨e,he,rfl⟩,rfl,hpredicate⟩
    exact ⟨e,he,rfl,List.mem_toFinset.mp hpredicate⟩
  · rintro ⟨e,he,rfl,hpredicate⟩
    exact ⟨_,⟨e,he,rfl⟩,rfl,List.mem_toFinset.mpr hpredicate⟩

theorem audience_of {policy : SharingPolicy} (henabled : policy.publishEnabled = !(rulesOf d).isEmpty)
    (hrules : policy.publishRules = rulesOf d) : other ∈ policy.publishAudienceFor predicate ↔
      ∃ e ∈ d.entries, e.1 = other ∧ predicate ∈ e.2 := by
  rw [SharingPolicy.publishAudienceFor, henabled, hrules, ← rules_of_say]
  by_cases hnil : rulesOf d = []
  · simp [hnil]
  · simp [hnil, and_assoc, and_comm]

theorem consumes_of {policy : SharingPolicy} (henabled : policy.consumeEnabled = !(rulesOf d).isEmpty)
    (hrules : policy.consumeRules = rulesOf d) : policy.canConsumeFrom other predicate = true ↔
      ∃ e ∈ d.entries, e.1 = other ∧ predicate ∈ e.2 := by
  rw [SharingPolicy.canConsumeFrom, henabled, hrules, ← rules_of_say]
  by_cases hnil : rulesOf d = [] <;> simp [hnil]

end Collecting

structure Follows (rules : List ResolvedCustomer360Rule) (productId : String)
    (policy : SharingPolicy) : Prop where
  publishes : ∀ consumer predicate, consumer ∈ policy.publishAudienceFor predicate ↔
    ∃ rule ∈ rules, rule.producer = productId ∧ rule.consumer = consumer ∧ predicate ∈ rule.predicates
  consumes : ∀ producer predicate, policy.canConsumeFrom producer predicate = true ↔
    ∃ rule ∈ rules, rule.consumer = productId ∧ rule.producer = producer ∧ predicate ∈ rule.predicates

section Applying

variable {rules : List ResolvedCustomer360Rule} {tenantId : Identifier}
  {plan : CustomerBundlePlan χ ρ κ} {products : String → Identifier} {now : String → ℤ}

/-- The arguments of the kernel pass the checks, and the policy they give follows the rules. -/
theorem check_sharing (hrules : ∀ rule ∈ rules, CleanRule rule) (productId : Identifier)
    (name : String) (revision : ℕ) (key : String) (hkey : strip key ≠ "") :
    ∃ command, checkPolicy (kernelScope tenantId productId)
      (sharingArgs rules name revision key) =
        .ok (policyKey (kernelScope tenantId productId) key,command) ∧ command.expected = revision ∧
      ∀ next clock, Follows rules name
        (command.policy (kernelScope tenantId productId) next clock) := by
  have hout : ∀ e ∈ (outgoing rules name).entries, _ :=
    collect_clean fun rule hrule => (hrules rule hrule).2
  have hin : ∀ e ∈ (incoming rules name).entries, _ :=
    collect_clean fun rule hrule => ⟨(hrules rule hrule).1,(hrules rule hrule).2.2⟩
  have htexts : ∀ d : Dict String (List String),
      (∀ e ∈ d.entries, Clean e.1 ∧ (∀ text ∈ e.2, Clean text) ∧ e.2 ≠ []) →
      (∀ text ∈ peersOf d, Clean text) ∧ ∀ text ∈ predicatesOf d, Clean text := by
    intro d hd
    constructor
    · intro text htext
      obtain ⟨e,he,rfl⟩ := List.mem_map.mp htext
      exact (hd e he).1
    · intro text htext
      obtain ⟨e,he,htext⟩ := List.mem_flatMap.mp htext
      exact (hd e he).2.1 text htext
  have hrequire : require (kernelScope tenantId productId) sharingAdmin = .ok () :=
    if_pos List.mem_cons_self
  have hidem : idemKey (kernelScope tenantId productId) "customer360.configure_policy" key =
      .ok (policyKey (kernelScope tenantId productId) key) := by
    rw [idemKey, checkText, if_neg hkey]
    rfl
  have hrevision : checkRevision (revision : ℤ) "expected_revision" = .ok revision := by
    rw [checkRevision, if_neg (by omega), Int.toNat_natCast]
  have hcheck : checkPolicy (kernelScope tenantId productId) (sharingArgs rules name revision key) =
      .ok (policyKey (kernelScope tenantId productId) key,.configurePolicy
        (!(rulesOf (outgoing rules name)).isEmpty) (!(rulesOf (incoming rules name)).isEmpty)
        (predicatesOf (outgoing rules name)).toFinset (predicatesOf (incoming rules name)).toFinset
        (peersOf (outgoing rules name)).toFinset (peersOf (incoming rules name)).toFinset
        (rulesOf (outgoing rules name)) (rulesOf (incoming rules name)) revision false) := by
    simp only [checkPolicy, sharingArgs, hrequire, hrevision, hidem, bind, Except.bind,
      string_list_ok (htexts _ hout).1, string_list_ok (htexts _ hout).2,
      string_list_ok (htexts _ hin).1, string_list_ok (htexts _ hin).2, given_rules_of hout,
      given_rules_of hin, flattened_rules_of, enabled_iff hout, enabled_iff hin]
  refine ⟨_,hcheck,rfl,fun next clock => ⟨fun consumer predicate => ?_,fun producer predicate => ?_⟩⟩
  · exact (audience_of rfl rfl).trans mem_collect
  · exact (consumes_of rfl rfl).trans mem_collect

theorem activation_key_text (tenantId : String) (plan : CustomerBundlePlan χ ρ κ) (productId : String) :
    strip (activationKey tenantId plan productId) ≠ "" := by
  refine strip_ne_empty (c := 'a') ?_ (by decide)
  have hfirst : 'a' ∈ "activate:".toList := by decide
  delta activationKey
  simp only [String.toList_append, List.mem_append, hfirst, true_or]

def sharingKey (tenantId : Identifier) (plan : CustomerBundlePlan χ ρ κ)
    (products : String → Identifier) (productId : String) : IdempotencyKey :=
  policyKey (kernelScope tenantId (products productId)) (activationKey tenantId.val plan productId)

theorem round_iff (tenantId : Identifier) (products : String → Identifier) (now : String → ℤ)
    {s : Customer360} (hrules : ∀ rule ∈ plan.sharing.rules, CleanRule rule) (hs : Ahead s)
    (productId : String) :
    (∃ t result, s.configurePolicy (kernelScope tenantId (products productId))
      (sharingArgs plan.sharing.rules productId
        (s.policy tenantId.val (products productId).val).revision
        (activationKey tenantId.val plan productId)) (now productId) = .ok (t,result)) ↔
      s.idempotency.get? (sharingKey tenantId plan products productId) = none := by
  obtain ⟨command,hcheck,hexpected,-⟩ := check_sharing hrules (products productId) productId
    (s.policy tenantId.val (products productId).val).revision _
    (activation_key_text tenantId.val plan productId)
  constructor
  · rintro ⟨t,result,hok⟩
    rw [configurePolicy, hcheck] at hok
    obtain ⟨-,hstored⟩ | ⟨hnew,-⟩ := once_ok hok
    · have hahead := hs _ _ _ _ _ hstored
      exact absurd hexpected (ne_of_lt hahead)
    · exact hnew
  · intro hnew
    exact ⟨_,_,configured_ok (now productId) hcheck hnew hexpected.symm⟩

theorem round_state {s t : Customer360} {result : MemoryResult}
    (hrules : ∀ rule ∈ plan.sharing.rules, CleanRule rule) (productId : String)
    (hnew : s.idempotency.get? (sharingKey tenantId plan products productId) = none)
    (hok : s.configurePolicy (kernelScope tenantId (products productId))
      (sharingArgs plan.sharing.rules productId
        (s.policy tenantId.val (products productId).val).revision
        (activationKey tenantId.val plan productId)) (now productId) = .ok (t,result)) :
    Follows plan.sharing.rules productId (t.policy tenantId.val (products productId).val) ∧
    (∀ other, other ≠ (products productId).val →
      t.policy tenantId.val other = s.policy tenantId.val other) ∧
    ∀ key, key ≠ sharingKey tenantId plan products productId →
      t.idempotency.get? key = s.idempotency.get? key := by
  obtain ⟨command,hcheck,hexpected,hfollows⟩ := check_sharing hrules (products productId) productId
    (s.policy tenantId.val (products productId).val).revision _
    (activation_key_text tenantId.val plan productId)
  rw [configured_ok (now productId) hcheck hnew hexpected.symm] at hok
  have ht := congrArg Prod.fst (Except.ok.inj hok)
  subst ht
  have howner := command.policy_owner (kernelScope tenantId (products productId))
    (command.expected+1) (now productId)
  have hpolicy : ∀ other, ((s.applyPolicy (command.policy (kernelScope tenantId (products productId))
      (command.expected+1) (now productId)) command.withdraws (now productId)).policies.get?
      (tenantId.val,other)) = if other = (products productId).val then
        some (command.policy (kernelScope tenantId (products productId)) (command.expected+1)
          (now productId)) else s.policies.get? (tenantId.val,other) := by
    intro other
    rw [apply_policy_policies, Dict.get_set, howner.1, howner.2]
    simp [kernelScope]
  refine ⟨?_,fun other hother => ?_,fun key hkey => ?_⟩
  · rw [Customer360.policy]
    change Follows _ _ (((s.applyPolicy _ _ _).policies.get? _).getD _)
    rw [hpolicy, if_pos rfl]
    exact hfollows _ _
  · rw [Customer360.policy]
    change ((s.applyPolicy _ _ _).policies.get? _).getD _ = _
    rw [hpolicy, if_neg hother]
    rfl
  · change ((s.applyPolicy _ _ _).idempotency.set _ _).get? key = _
    rw [Dict.get_set]
    refine (if_neg hkey).trans ?_
    cases command.withdraws <;> rfl

/-- The texts of the product's scope are short enough and its key is new. -/
def Applicable (tenantId : Identifier) (plan : CustomerBundlePlan χ ρ κ)
    (products : String → Identifier) (s : Customer360) (p : String) : Prop :=
  isIdentifier ("activate-" ++ p) = true ∧
    isIdentifier ("bundle-" ++ plan.manifest.customerBundleId) = true ∧
    s.idempotency.get? (sharingKey tenantId plan products p) = none

/-- The loop succeeds exactly with valid scopes and new keys, and then every policy
follows the rules. -/
theorem apply_iff (tenantId : Identifier) (now : String → ℤ) (ids : IdFactory)
    (hrules : ∀ rule ∈ plan.sharing.rules, CleanRule rule)
    (l : List String) (s : Customer360) (hs : Ahead s) (hl : l.Nodup)
    (hproducts : ∀ p ∈ l, (products p).val = p) :
    ((configureSharingPolicies tenantId plan products now l s).2 = .ok () ↔
      ∀ p ∈ l, Applicable tenantId plan products s p) ∧
    ((∀ p ∈ l, Applicable tenantId plan products s p) →
      (∀ p ∈ l, Follows plan.sharing.rules p
        ((configureSharingPolicies tenantId plan products now l s).1.policy tenantId.val p)) ∧
      ∀ p, p ∉ l → (configureSharingPolicies tenantId plan products now l s).1.policy tenantId.val p =
        s.policy tenantId.val p) := by
  induction l generalizing s with
  | nil => exact ⟨⟨fun _ => by simp,fun _ => rfl⟩,fun _ => ⟨by simp,fun _ _ => rfl⟩⟩
  | cons p rest ih =>
    obtain ⟨hp,hrest⟩ := List.nodup_cons.mp hl
    have hround := round_iff tenantId products now hrules hs p
    rw [configureSharingPolicies, List.forall_mem_cons]
    by_cases hscope : isIdentifier ("activate-" ++ p) = true ∧
        isIdentifier ("bundle-" ++ plan.manifest.customerBundleId) = true
    case neg =>
      have herror : ∃ error, requestScope plan tenantId (products p) p = .error error := by
        by_cases hrequest : isIdentifier ("activate-" ++ p) = true
        · have hcorrelation := not_and.mp hscope hrequest
          exact ⟨_,by simp [requestScope, hrequest, hcorrelation]; rfl⟩
        · exact ⟨_,by simp [requestScope, hrequest]; rfl⟩
      obtain ⟨error,herror⟩ := herror
      have hnot : ¬Applicable tenantId plan products s p := fun h => hscope ⟨h.1,h.2.1⟩
      rw [herror]
      exact ⟨⟨by simp,fun h => absurd h.1 hnot⟩,fun h => absurd h.1 hnot⟩
    have hvalid : requestScope plan tenantId (products p) p =
        .ok (kernelScope tenantId (products p)) := by
      simp [requestScope, hscope.1, hscope.2]
    rw [hvalid]
    cases hok : s.configurePolicy (kernelScope tenantId (products p)) (sharingArgs
        plan.sharing.rules p (s.policy tenantId.val (products p).val).revision
        (activationKey tenantId.val plan p)) (now p) with
    | error error =>
      have hused : ¬Applicable tenantId plan products s p := by
        rintro ⟨-,-,hnew⟩
        rw [← hround, hok] at hnew
        obtain ⟨t,result,h⟩ := hnew
        cases h
      simp only [kernelScope] at hok ⊢
      rw [hok]
      exact ⟨⟨by simp,fun h => absurd h.1 hused⟩,fun h => absurd h.1 hused⟩
    | ok v =>
      obtain ⟨t,result⟩ := v
      have hnew := hround.mp ⟨t,result,hok⟩
      obtain ⟨hfollows,hothers,hkeys⟩ := round_state hrules p hnew hok
      have ht : Ahead t := by
        have hstep := step_ahead ids s (.configurePolicy (kernelScope tenantId (products p))
          (sharingArgs plan.sharing.rules p (s.policy tenantId.val (products p).val).revision
            (activationKey tenantId.val plan p)) (now p)) hs
        rwa [step, hok] at hstep
      have hvalue := hproducts p List.mem_cons_self
      have hfresh : ∀ q ∈ rest, t.idempotency.get? (sharingKey tenantId plan products q) =
          s.idempotency.get? (sharingKey tenantId plan products q) := by
        intro q hq
        refine hkeys _ fun hsame => hp ?_
        have hproduct : (products q).val = (products p).val := congrArg (·.2.1) hsame
        rw [hproducts q (List.mem_cons_of_mem p hq), hvalue] at hproduct
        exact hproduct ▸ hq
      obtain ⟨hiff,hall⟩ := ih t ht hrest fun q hq => hproducts q (List.mem_cons_of_mem p hq)
      have hsame : (∀ q ∈ rest, Applicable tenantId plan products t q) ↔
          ∀ q ∈ rest, Applicable tenantId plan products s q :=
        forall₂_congr fun q hq => by rw [Applicable, Applicable, hfresh q hq]
      rw [hsame] at hiff hall
      simp only [kernelScope] at hok ⊢
      rw [hok]
      refine ⟨hiff.trans ⟨fun h => ⟨⟨hscope.1,hscope.2,hnew⟩,h⟩,fun h => h.2⟩,fun h => ?_⟩
      obtain ⟨heach,hkept⟩ := hall h.2
      refine ⟨List.forall_mem_cons.mpr ⟨?_,heach⟩,fun q hq => ?_⟩
      · rw [hkept p hp, ← hvalue]
        rwa [hvalue] at hfollows ⊢
      · rw [List.mem_cons, not_or] at hq
        rw [hkept q hq.2, hothers q (hvalue.symm ▸ hq.1)]

end Applying

theorem letter_no_space {c : Char} (h : (c.isLower || c.isDigit) = true) : isSpace c = false := by
  simp only [Char.isLower, Char.isDigit, Bool.or_eq_true, Bool.and_eq_true, decide_eq_true_eq,
    ge_iff_le, UInt32.le_iff_toNat_le] at h
  have hrange : 97 ≤ c.toNat ∧ c.toNat ≤ 122 ∨ 48 ≤ c.toNat ∧ c.toNat ≤ 57 := h
  simp only [isSpace, List.contains_cons, List.contains_nil, Bool.or_eq_false_iff,
    Bool.and_eq_false_iff, decide_eq_false_iff_not, beq_eq_false_iff_ne, and_true]
  omega

theorem separated_clean {separators : List Char} {text : String}
    (hseparators : ∀ c ∈ separators, isSpace c = false) (h : isSeparated separators text = true) :
    Clean text := by
  have htail : ∀ (cs : List Char) (separated : Bool),
      separatedTail separators separated cs = true → ∀ c ∈ cs, isSpace c = false := by
    intro cs
    induction cs with
    | nil => exact fun _ _ => nofun
    | cons c cs ih =>
      intro separated hc
      rw [separatedTail] at hc
      split_ifs at hc with hletter
      · exact List.forall_mem_cons.mpr ⟨letter_no_space hletter,ih _ hc⟩
      · simp only [Bool.and_eq_true, List.contains_iff_mem] at hc
        exact List.forall_mem_cons.mpr ⟨hseparators c hc.1.2,ih _ hc.2⟩
  unfold isSeparated at h
  cases hlist : text.toList with
  | nil =>
    rw [hlist] at h
    cases h
  | cons c cs =>
    rw [hlist, Bool.and_eq_true] at h
    refine ⟨strip_no_space ?_,fun hempty => ?_⟩
    · rw [hlist]
      exact List.forall_mem_cons.mpr ⟨letter_no_space (by simp [h.1]),htail cs _ h.2⟩
    · rw [hempty] at hlist
      cases hlist

section Plan
variable [DecidableEq ρ] [DecidableEq κ] {models : Models χ ρ κ}
variable {manifest : CustomerBundleManifest ρ} {harnessVersion : String}
variable {products : List (ResolvedCustomerProduct χ ρ κ)}
variable {sharing : Customer360SharingPlan} {plan : CustomerBundlePlan χ ρ κ}
variable (h : makePlan models manifest harnessVersion products sharing = .ok plan)
include h

theorem plan_rules_clean : ∀ rule ∈ plan.sharing.rules, CleanRule rule := by
  obtain ⟨hvalid,-,-,-,rfl,rfl⟩ := (make_ok_iff plan).mp h
  intro rule hrule
  obtain ⟨r,hr,rfl⟩ := List.mem_map.mp hrule
  rw [(sort_by_perm _ _).mem_iff] at hr
  simp only [CustomerBundleManifest.valid, Customer360SharingManifest.valid, Bool.and_eq_true,
    List.all_eq_true] at hvalid
  have hrule := hvalid.1.1.1.1.2.1 r hr
  simp only [Customer360SharingRule.valid, Bool.and_eq_true, List.all_eq_true, decide_eq_true_eq] at hrule
  obtain ⟨⟨⟨⟨⟨hproducer,hconsumer⟩,hne⟩,hpredicates⟩,-⟩,-⟩ := hrule
  refine ⟨separated_clean (by simp [isSpace]) hproducer,separated_clean (by simp [isSpace]) hconsumer,?_,?_⟩
  · intro text htext
    rw [List.mem_insertionSort] at htext
    exact separated_clean (by simp [isSpace]) (hpredicates text htext).2
  · intro hnil
    have hlength := congrArg List.length hnil
    rw [List.length_insertionSort, List.length_nil, List.length_eq_zero_iff] at hlength
    simp [hlength] at hne

theorem plan_ids_nodup : plan.productIds.Nodup := by
  have hsorted := plan_sorted h
  obtain ⟨-,-,-,hall,-,rfl⟩ := (make_ok_iff plan).mp h
  rw [CustomerBundlePlan.productIds, List.Nodup, List.pairwise_map]
  refine hsorted.imp_of_mem fun ha hb hlt heq => ?_
  rw [ResolvedCustomerProduct.productId, ResolvedCustomerProduct.productId, (hall _ ha).productId,
    (hall _ hb).productId] at heq
  exact hlt.ne heq

end Plan

/-- Applying the sharing policies of a valid plan to any state that a run of the
provider reaches succeeds and puts the plan's rules into effect, exactly if no
product of the plan was ever configured under its key of this bundle version and
the ids built for the scopes stay within the length of an identifier. -/
theorem sharing_policies_apply_iff [DecidableEq ρ] [DecidableEq κ] (models : Models χ ρ κ)
    (manifest : CustomerBundleManifest ρ) (harnessVersion : String)
    (resolved : List (ResolvedCustomerProduct χ ρ κ)) (sharing : Customer360SharingPlan)
    (plan : CustomerBundlePlan χ ρ κ)
    (hplan : makePlan models manifest harnessVersion resolved sharing = .ok plan)
    (tenantId : Identifier) (products : String → Identifier)
    (hproducts : ∀ p ∈ plan.productIds, (products p).val = p) (now : String → ℤ)
    (ids : IdFactory) (ops : List Customer360Op) :
    let s := Machine.final (step ids) {} ops
    let applied := configureSharingPolicies tenantId plan products now plan.productIds s
    (applied.2 = .ok () ∧ ∀ producer ∈ plan.productIds, ∀ consumer ∈ plan.productIds, ∀ predicate,
      (consumer ∈ (applied.1.policy tenantId.val producer).publishAudienceFor predicate ∧
        (applied.1.policy tenantId.val consumer).canConsumeFrom producer predicate = true ↔
      ∃ rule ∈ plan.sharing.rules, rule.producer = producer ∧ rule.consumer = consumer ∧
        predicate ∈ rule.predicates)) ↔
    ∀ p ∈ plan.productIds, isIdentifier ("activate-" ++ p) = true ∧
      isIdentifier ("bundle-" ++ plan.manifest.customerBundleId) = true ∧
      s.idempotency.get? (sharingKey tenantId plan products p) = none := by
  intro s applied
  obtain ⟨hiff,hfollows⟩ := apply_iff tenantId now ids (plan_rules_clean hplan)
    plan.productIds s (ahead_run ids ops) (plan_ids_nodup hplan) hproducts
  refine ⟨fun h => hiff.mp h.1,fun hnew => ⟨hiff.mpr hnew,?_⟩⟩
  intro producer hproducer consumer hconsumer predicate
  have hall := (hfollows hnew).1
  rw [(hall producer hproducer).publishes, (hall consumer hconsumer).consumes]
  refine ⟨fun h => h.1,fun h => ⟨h,?_⟩⟩
  obtain ⟨rule,hrule,hp,hc,hpredicate⟩ := h
  exact ⟨rule,hrule,hc,hp,hpredicate⟩

namespace Duo

def contexts (productId : String) : Identifier :=
  if productId = "crm" then ⟨"crm",by decide⟩ else ⟨"billing",by decide⟩

def tenant : Identifier := ⟨"acme-tenant",by decide⟩

def applyDuo (s : Customer360) : Customer360 × Except ActivationError Unit :=
  configureSharingPolicies tenant (plan [crm,billing]) contexts (fun _ => 0)
    (plan [crm,billing]).productIds s

end Duo

section Repeated
open Memory.RepeatedWithdrawal

theorem first_application_succeeds : (Duo.applyDuo {}).2 = .ok () :=
  ((sharing_policies_apply_iff Duo.models (Duo.manifest [Duo.crm,Duo.billing]) "3.0" Duo.products
    Duo.sharing (Duo.plan [Duo.crm,Duo.billing]) (by decide +kernel) Duo.tenant Duo.contexts
    (by decide +kernel) (fun _ => 0) unaryIds []).mpr (by decide +kernel)).1

/-- Applied once more, the plan expects a newer revision under its old key. -/
theorem second_application_conflicts :
    (Duo.applyDuo (Duo.applyDuo {}).1).2 = .error (.memory ⟨.idempotencyConflict,
      "an idempotency key was reused with a different command",
      [("operation",.str "customer360.configure_policy")]⟩) := by
  decide +kernel

end Repeated
end SuiteHarness.Runtime.CustomerBundle
