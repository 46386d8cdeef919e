import SuiteHarness.Library.Sorting
import SuiteHarness.Memory.Lifecycle

/-!
# What a stored policy is, and switching it off

A policy is stored with stripped texts and with rules that flatten to its
allowlists. The disabling commands rebuild all arguments from the stored policy.
They write it back unchanged exactly if no peer has two rules: the dictionary in
which they hand the rules over keeps one rule for each peer.
-/

set_option autoImplicit false

namespace SuiteHarness.Memory
open SuiteHarness.Library SuiteHarness.Library.Results SuiteHarness.Execution

theorem strip_strip (text : String) : strip (strip text) = strip text := by
  unfold strip
  generalize hfront : text.toList.dropWhile isSpace = front
  generalize hback : front.reverse.dropWhile isSpace = back
  have hsuffix : back.reverse <+: front := by
    rw [← List.reverse_suffix, List.reverse_reverse, ← hback]
    exact List.dropWhile_suffix _
  have hfirst : back.reverse.dropWhile isSpace = back.reverse := by
    cases hlist : back.reverse with
    | nil => rfl
    | cons c rest =>
      obtain ⟨tail,htail⟩ := hlist ▸ hsuffix
      have hc : isSpace c = false := by
        have hhead := List.head?_dropWhile_not isSpace text.toList
        rw [hfront, ← htail] at hhead
        exact Bool.eq_false_iff.mpr (by simpa using hhead)
      rw [List.dropWhile_cons_of_neg (by simp [hc])]
  have hlast : back.dropWhile isSpace = back := by
    rw [← hback, List.dropWhile_idempotent]
  rw [String.toList_ofList, hfirst, List.reverse_reverse, hlast]

def Clean (text : String) : Prop := strip text = text ∧ text ≠ ""

theorem check_text_clean {value name text : String} (h : checkText value name = .ok text) :
    Clean text := by
  obtain ⟨hne,h⟩ := guard_ok h
  cases h
  exact ⟨strip_strip value,hne⟩

theorem check_clean {text : String} (h : Clean text) (name : String) :
    checkText text name = .ok text := by
  rw [checkText, h.1, if_neg h.2]

theorem string_set_clean {values : List String} {name : String} {set : Finset String}
    (h : stringSet values name = .ok set) : ∀ text ∈ set, Clean text := by
  obtain ⟨texts,htexts,rfl⟩ := map_ok h
  have hall := mapM_ok htexts
  intro text hmem
  rw [List.mem_toFinset] at hmem
  clear h htexts
  induction hall with
  | nil => cases hmem
  | cons hfirst _ ih =>
    rcases List.mem_cons.mp hmem with rfl | hrest
    · exact check_text_clean hfirst
    · exact ih hrest

theorem string_list_ok {texts : List String} (h : ∀ text ∈ texts, Clean text) (name : String) :
    stringSet texts name = .ok texts.toFinset := by
  rw [stringSet, mapM_of_ok id fun text htext => check_clean (h text htext) _, List.map_id]
  rfl

theorem string_set_ok {set : Finset String} (h : ∀ text ∈ set, Clean text) (name : String) :
    stringSet set.sort name = .ok set := by
  rw [string_list_ok fun text htext => h text ((Finset.mem_sort _).mp htext), Finset.sort_toFinset]

structure Stored (peers predicates : Finset String) (rules : List PeerPredicateRule) : Prop where
  cleanPeers : ∀ text ∈ peers, Clean text
  cleanPredicates : ∀ text ∈ predicates, Clean text
  flat : rules = [] ∧ uniformRules peers predicates = [] ∨
    rules ≠ [] ∧ flattenRules rules = (peers,predicates)
  sorted : rules.Pairwise (fun a b => a.peerProductId ≤ b.peerProductId)
  nonempty : ∀ rule ∈ rules, rule.predicates ≠ ∅

variable {peers predicates : Finset String} {rules : List PeerPredicateRule} {rule : PeerPredicateRule}
  {name mismatch : String}

theorem mem_flatten (hrule : rule ∈ rules) : rule.peerProductId ∈ (flattenRules rules).1 ∧
    rule.predicates ⊆ (flattenRules rules).2 := by
  refine ⟨by simpa [flattenRules] using ⟨rule,hrule,rfl⟩,?_⟩
  unfold flattenRules
  induction rules with
  | nil => cases hrule
  | cons first rest ih =>
    rcases List.mem_cons.mp hrule with rfl | hrest
    · exact Finset.subset_union_left
    · exact (ih hrest).trans Finset.subset_union_right

theorem stored_rule (h : Stored peers predicates rules) (hrule : rule ∈ rules) :
    Clean rule.peerProductId ∧ ∀ text ∈ rule.predicates, Clean text := by
  rcases h.flat with ⟨rfl,-⟩ | ⟨-,hflat⟩
  · cases hrule
  · have hmem := mem_flatten hrule
    rw [hflat] at hmem
    exact ⟨h.cleanPeers _ hmem.1,fun text htext => h.cleanPredicates text (hmem.2 htext)⟩

theorem flatten_uniform (hpeers : peers ≠ ∅) (hpredicates : predicates ≠ ∅) :
    flattenRules (uniformRules peers predicates) = (peers,predicates) := by
  rw [uniformRules, if_neg hpredicates, flattenRules, List.map_map]
  refine Prod.ext ?_ ?_
  · simp [Function.comp_def]
  · obtain ⟨peer,hpeer⟩ := Finset.nonempty_iff_ne_empty.mpr hpeers
    have hne : peers.sort ≠ [] := List.ne_nil_of_mem ((Finset.mem_sort _).mpr hpeer)
    have hfold : ∀ l : List String, l ≠ [] → (l.map (fun peer =>
        (⟨peer,predicates⟩ : PeerPredicateRule))).foldr
          (fun rule predicates => rule.predicates ∪ predicates) ∅ = predicates := by
      intro l
      induction l with
      | nil => exact fun h => absurd rfl h
      | cons x xs ih =>
        intro _
        cases xs with
        | nil => simp
        | cons y ys =>
          rw [List.map_cons, List.foldr_cons, ih (List.cons_ne_nil y ys), Finset.union_self]
    exact hfold _ hne

theorem peer_rule_ok {entry : String × List String} (h : peerRule name entry = .ok rule) :
    rule.peerProductId = strip entry.1 ∧ rule.predicates ≠ ∅ := by
  obtain ⟨peer,hpeer,h⟩ := bind_ok h
  obtain ⟨set,-,h⟩ := bind_ok h
  obtain ⟨hne,h⟩ := guard_ok h
  cases h
  exact ⟨Customer360.check_text_ok hpeer,hne⟩

open PeerPredicateRule

theorem peer_rules_ok {values : Dict String (List String)} (h : peerRules values name = .ok rules) :
    rules.Pairwise (fun a b => a.peerProductId ≤ b.peerProductId) ∧
      (∀ rule ∈ rules, rule.predicates ≠ ∅) ∧
      (rules.map peerProductId).Perm (values.entries.map (fun e => strip e.1)) := by
  obtain ⟨found,hfound,rfl⟩ := map_ok h
  have hperm := sort_by_perm peerProductId found
  have hall := mapM_ok hfound
  have heach : (∀ rule ∈ found, rule.predicates ≠ ∅) ∧
      found.map peerProductId = values.entries.map (fun e => strip e.1) := by
    clear h hfound hperm
    generalize values.entries = entries at hall ⊢
    induction hall with
    | nil => exact ⟨nofun,rfl⟩
    | cons hfirst _ ih =>
      have hrule := peer_rule_ok hfirst
      exact ⟨List.forall_mem_cons.mpr ⟨hrule.2,ih.1⟩,by simp [hrule.1, ih.2]⟩
  refine ⟨sort_by_sorted peerProductId found,?_,?_⟩
  · exact fun rule hrule => heach.1 rule (hperm.mem_iff.mp hrule)
  · rw [← heach.2]
    exact hperm.map _

theorem peer_rules_given {values : Dict String (List String)}
    (h : ∀ e ∈ values.entries, Clean e.1 ∧ (∀ text ∈ e.2, Clean text) ∧ e.2 ≠ []) :
    peerRules values name = .ok (sortBy peerProductId
      (values.entries.map (fun e => ⟨e.1,e.2.toFinset⟩))) := by
  rw [peerRules, mapM_of_ok (fun e => ⟨e.1,e.2.toFinset⟩)]
  · rfl
  · intro e he
    obtain ⟨hpeer,hpredicates,hne⟩ := h e he
    simp only [peerRule, check_clean hpeer, string_list_ok hpredicates, bind, Except.bind,
      List.toFinset_eq_empty_iff, hne, if_false]

theorem given_rules_stored {given : Option (Dict String (List String))}
    (hpeers : ∀ text ∈ peers, Clean text) (hpredicates : ∀ text ∈ predicates, Clean text)
    (h : givenRules given peers predicates name = .ok rules)
    (hcheck : checkFlattened given rules peers predicates name mismatch = .ok ()) :
    Stored peers predicates rules := by
  cases given with
  | none =>
    cases h
    by_cases hnone : uniformRules peers predicates = []
    · rw [hnone]
      exact ⟨hpeers,hpredicates,.inl ⟨rfl,hnone⟩,.nil,nofun⟩
    · have hp : predicates ≠ ∅ := fun h => hnone (if_pos h)
      have hq : peers ≠ ∅ := by
        rintro rfl
        exact hnone (by rw [uniformRules, if_neg hp, Finset.sort_empty, List.map_nil])
      refine ⟨hpeers,hpredicates,.inr ⟨hnone,flatten_uniform hq hp⟩,?_,?_⟩ <;>
        rw [uniformRules, if_neg hp]
      · exact List.pairwise_map.mpr (Finset.pairwise_sort peers _)
      · intro rule hrule
        obtain ⟨peer,-,rfl⟩ := List.mem_map.mp hrule
        exact hp
  | some values =>
    have hflat : flattenRules rules = (peers,predicates) := by
      simpa using (guard_ok hcheck).1
    obtain ⟨hsorted,hne,-⟩ := peer_rules_ok h
    refine ⟨hpeers,hpredicates,?_,hsorted,hne⟩
    by_cases hnil : rules = []
    · subst hnil
      rw [flattenRules, Prod.mk.injEq] at hflat
      exact .inl ⟨rfl,if_pos hflat.2.symm⟩
    · exact .inr ⟨hnil,hflat⟩

theorem rule_dict_keys (rules : List PeerPredicateRule) (d : Dict String (List String)) :
    ∀ e ∈ (rules.foldl (fun d rule => d.set rule.peerProductId rule.predicates.sort) d).entries,
      e ∈ d.entries ∨ ∃ rule ∈ rules, rule.peerProductId = e.1 := by
  induction rules generalizing d with
  | nil => exact fun e he => .inl he
  | cons rule rest ih =>
    intro e he
    rcases ih _ e he with hset | ⟨other,hother,hkey⟩
    · rw [← Dict.get_mem, Dict.get_set] at hset
      split_ifs at hset with hk
      · exact .inr ⟨rule,List.mem_cons_self,hk.symm⟩
      · exact .inl ((Dict.get_mem _ _ _).mp hset)
    · exact .inr ⟨other,List.mem_cons_of_mem rule hother,hkey⟩

theorem stored_flattened (h : Stored peers predicates rules) :
    checkFlattened (Customer360.ruleArgs rules) rules peers predicates name mismatch = .ok () := by
  rcases h.flat with ⟨rfl,-⟩ | ⟨-,hflat⟩
  · rfl
  · exact if_neg (fun hbad => hbad.2 hflat)

/-- The rules of a stored direction come back exactly if no peer has two of them. -/
theorem given_rules_again (h : Stored peers predicates rules) (name : String) :
    givenRules (Customer360.ruleArgs rules) peers predicates name = .ok rules ↔
      (rules.map peerProductId).Nodup := by
  rcases h.flat with ⟨rfl,hnone⟩ | ⟨hne,-⟩
  · simp [Customer360.ruleArgs, givenRules, hnone]
  rw [Customer360.ruleArgs, if_neg hne]
  constructor
  · intro hok
    rw [(peer_rules_ok hok).2.2.nodup_iff]
    have hkeys : ∀ e ∈ (rules.foldl (fun d rule => d.set rule.peerProductId rule.predicates.sort)
        Dict.empty).entries, strip e.1 = e.1 := by
      intro e he
      rcases rule_dict_keys rules Dict.empty e he with hnil | ⟨rule,hrule,hkey⟩
      · cases hnil
      · exact hkey ▸ (stored_rule h hrule).1.1
    rw [List.map_congr_left hkeys]
    exact Dict.nodup _
  · intro hnodup
    have hentries := Dict.set_all (rules.map (fun rule => (rule.peerProductId,rule.predicates.sort)))
      Dict.empty (by rw [List.map_map]; exact hnodup) (fun _ _ => rfl)
    rw [List.foldl_map, show (Dict.empty : Dict String (List String)).entries = [] from rfl,
      List.nil_append] at hentries
    rw [givenRules, peer_rules_given, hentries, List.map_map]
    · simp only [Function.comp_def, Finset.sort_toFinset]
      rw [List.map_id']
      exact congrArg Except.ok h.sorted.insertionSort_eq
    · rw [hentries]
      intro e he
      obtain ⟨rule,hrule,rfl⟩ := List.mem_map.mp he
      have hclean := stored_rule h hrule
      refine ⟨hclean.1,fun text htext => hclean.2 text ((Finset.mem_sort _).mp htext),fun hnil => ?_⟩
      exact h.nonempty rule hrule (by simpa using congrArg List.toFinset hnil)

structure Filed (tenantId productId : String) (policy : SharingPolicy) : Prop where
  tenant : policy.tenantId = tenantId
  product : policy.productId = productId
  publishes : Stored policy.publishToProducts policy.publishPredicates policy.publishRules
  consumes : Stored policy.consumeFromProducts policy.consumePredicates policy.consumeRules

theorem filed_initial (tenantId productId : String) :
    Filed tenantId productId { tenantId, productId } :=
  ⟨rfl,rfl,⟨nofun,nofun,.inl ⟨rfl,rfl⟩,.nil,nofun⟩,⟨nofun,nofun,.inl ⟨rfl,rfl⟩,.nil,nofun⟩⟩

def SharingPolicy.switched (policy : SharingPolicy) (scope : RequestScope) (now : ℤ)
    (publishEnabled consumeEnabled : Bool) : SharingPolicy :=
  { policy with
    publishEnabled := publishEnabled
    consumeEnabled := consumeEnabled
    revision := policy.revision+1
    updatedBy := scope.principalId.val
    updatedAt := some now }

namespace Customer360

variable {ids : IdFactory} {s t u : Customer360} {op : Customer360Op} {scope : RequestScope}
  {args : PolicyArgs} {key : IdempotencyKey} {command : Command} {result : MemoryResult}
  {policy : SharingPolicy} {now : ℤ} {idempotencyKey : String}

theorem check_policy_filed (h : checkPolicy scope args = .ok (key,command)) (revision : ℕ) (now : ℤ) :
    Filed scope.tenantId.val scope.productId.val (command.policy scope revision now) := by
  obtain ⟨_,_,h⟩ := bind_ok h
  obtain ⟨_,_,h⟩ := bind_ok h
  obtain ⟨publishPredicates,hpublish,h⟩ := bind_ok h
  obtain ⟨consumePredicates,hconsume,h⟩ := bind_ok h
  obtain ⟨publishTo,hto,h⟩ := bind_ok h
  obtain ⟨consumeFrom,hfrom,h⟩ := bind_ok h
  obtain ⟨publishRules,hpublishRules,h⟩ := bind_ok h
  obtain ⟨consumeRules,hconsumeRules,h⟩ := bind_ok h
  obtain ⟨_,hpublishes,h⟩ := bind_ok h
  obtain ⟨_,hconsumes,h⟩ := bind_ok h
  obtain ⟨_,_,h⟩ := bind_ok h
  cases h
  exact ⟨rfl,rfl,given_rules_stored (string_set_clean hto) (string_set_clean hpublish) hpublishRules
      hpublishes,
    given_rules_stored (string_set_clean hfrom) (string_set_clean hconsume) hconsumeRules hconsumes⟩

def rebuilt (policy : SharingPolicy) (idempotencyKey : String)
    (publishEnabled consumeEnabled withdrawExisting : Bool) : PolicyArgs :=
  { currentArgs policy policy.revision idempotencyKey with
    publishEnabled := publishEnabled
    consumeEnabled := consumeEnabled
    withdrawExisting := withdrawExisting }

/-- The texts of a stored policy pass again; what is left to check are its rules. -/
theorem check_rebuilt (publishEnabled consumeEnabled withdrawExisting : Bool)
    {tenantId productId : String} (hfiled : Filed tenantId productId policy)
    (hrole : sharingAdmin ∈ scope.roles) (hkey : strip idempotencyKey ≠ "") :
    checkPolicy scope (rebuilt policy idempotencyKey publishEnabled consumeEnabled withdrawExisting) =
      givenRules (ruleArgs policy.publishRules) policy.publishToProducts policy.publishPredicates
        "publish_rules" >>= fun publish =>
      givenRules (ruleArgs policy.consumeRules) policy.consumeFromProducts policy.consumePredicates
        "consume_rules" >>= fun consume =>
      checkFlattened (ruleArgs policy.publishRules) publish policy.publishToProducts
        policy.publishPredicates "publish_rules"
        "publish_rules must match the flattened publish allowlists" >>= fun _ =>
      checkFlattened (ruleArgs policy.consumeRules) consume policy.consumeFromProducts
        policy.consumePredicates "consume_rules"
        "consume_rules must match the flattened consume allowlists" >>= fun _ =>
      .ok (policyKey scope idempotencyKey,.configurePolicy publishEnabled consumeEnabled
        policy.publishPredicates policy.consumePredicates policy.publishToProducts
        policy.consumeFromProducts publish consume policy.revision withdrawExisting) := by
  have hrequire : require scope sharingAdmin = .ok () := if_pos hrole
  have hidem : idemKey scope "customer360.configure_policy" idempotencyKey =
      .ok (policyKey scope idempotencyKey) := by
    rw [idemKey, checkText, if_neg hkey]
    rfl
  have hrevision : checkRevision (policy.revision : ℤ) "expected_revision" = .ok policy.revision := by
    rw [checkRevision, if_neg (by omega), Int.toNat_natCast]
  simp only [checkPolicy, rebuilt, currentArgs, hrequire, hrevision, hidem,
    string_set_ok hfiled.publishes.cleanPeers, string_set_ok hfiled.publishes.cleanPredicates,
    string_set_ok hfiled.consumes.cleanPeers, string_set_ok hfiled.consumes.cleanPredicates]
  rfl

/-- A policy change with a new key and the current revision is made. -/
theorem configured_ok (now : ℤ) (hcheck : checkPolicy scope args = .ok (key,command))
    (hnew : s.idempotency.get? key = none)
    (hrevision : (s.policy scope.tenantId.val scope.productId.val).revision = command.expected) :
    s.configurePolicy scope args now =
      .ok ((s.applyPolicy (command.policy scope (command.expected+1) now) command.withdraws
        now).remember key command (.policy (command.policy scope (command.expected+1) now))) := by
  have hchange : s.changePolicy scope now command =
      .ok (s.applyPolicy (command.policy scope (command.expected+1) now) command.withdraws now,
        .policy (command.policy scope (command.expected+1) now)) := by
    rw [changePolicy, hrevision, if_neg (not_not.mpr rfl)]
  rw [configurePolicy, hcheck]
  simp only [bind, Except.bind, once, replay, hnew, hchange]

theorem configured_policy (hcheck : checkPolicy scope args = .ok (key,command))
    (hnew : s.idempotency.get? key = none)
    (hok : s.configurePolicy scope args now = .ok (t,.policy policy)) :
    policy = command.policy scope (command.expected+1) now := by
  rw [configurePolicy, hcheck] at hok
  obtain ⟨-,hstored⟩ | ⟨-,u,hu,-⟩ := once_ok hok
  · cases hnew.symm.trans hstored
  · obtain ⟨hrevision,hu⟩ := guard_ok hu
    cases hu
    rw [not_not.mp hrevision]

/-- A rebuilt policy is stored, with nothing but its switches changed, exactly if
no peer has two rules. -/
theorem rebuilt_iff {publishEnabled consumeEnabled withdrawExisting : Bool}
    (hpolicy : policy = s.policy scope.tenantId.val scope.productId.val)
    (hfiled : Filed scope.tenantId.val scope.productId.val policy)
    (hrole : sharingAdmin ∈ scope.roles) (hkey : strip idempotencyKey ≠ "")
    (hnew : s.idempotency.get? (policyKey scope idempotencyKey) = none) :
    (∃ t, s.configurePolicy scope (rebuilt policy idempotencyKey publishEnabled consumeEnabled
        withdrawExisting) now = .ok (t,.policy (policy.switched scope now publishEnabled
          consumeEnabled)) ∧ t.policy policy.tenantId policy.productId =
        policy.switched scope now publishEnabled consumeEnabled) ↔
      (policy.publishRules.map peerProductId).Nodup ∧
        (policy.consumeRules.map peerProductId).Nodup := by
  have hpublish := given_rules_again hfiled.publishes "publish_rules"
  have hconsume := given_rules_again hfiled.consumes "consume_rules"
  have hcheck := check_rebuilt publishEnabled consumeEnabled withdrawExisting hfiled hrole hkey
  constructor
  · rintro ⟨t,hok,-⟩
    have hchecked := hok
    rw [configurePolicy] at hchecked
    obtain ⟨⟨key,command⟩,hcommand,-⟩ := bind_ok hchecked
    have hcases := hcommand
    rw [hcheck] at hcases
    obtain ⟨publish,hp,hcases⟩ := bind_ok hcases
    obtain ⟨consume,hc,hcases⟩ := bind_ok hcases
    obtain ⟨_,_,hcases⟩ := bind_ok hcases
    obtain ⟨_,_,hcases⟩ := bind_ok hcases
    cases hcases
    have hsame := configured_policy hcommand hnew hok
    rw [SharingPolicy.switched, Command.policy, SharingPolicy.mk.injEq] at hsame
    obtain ⟨-,-,-,-,-,-,-,-,rfl,rfl,-⟩ := hsame
    exact ⟨hpublish.mp hp,hconsume.mp hc⟩
  · rintro ⟨hp,hc⟩
    simp only [hpublish.mpr hp, hconsume.mpr hc, stored_flattened hfiled.publishes,
      stored_flattened hfiled.consumes, bind, Except.bind] at hcheck
    have hnext : Command.policy scope (policy.revision+1) now (.configurePolicy publishEnabled
        consumeEnabled policy.publishPredicates policy.consumePredicates policy.publishToProducts
        policy.consumeFromProducts policy.publishRules policy.consumeRules policy.revision
        withdrawExisting) = policy.switched scope now publishEnabled consumeEnabled := by
      rw [Command.policy, SharingPolicy.switched, hfiled.tenant, hfiled.product]
    have hok := configured_ok now hcheck hnew (by rw [← hpolicy]; rfl)
    rw [show (Command.configurePolicy _ _ _ _ _ _ _ _ policy.revision _).expected = policy.revision
      from rfl, hnext] at hok
    refine ⟨_,hok,?_⟩
    change ((s.applyPolicy _ _ now).policies.get? (policy.tenantId,policy.productId)).getD _ = _
    rw [apply_policy_policies, Dict.get_set]
    exact congrArg (Option.getD · _) (if_pos rfl)

theorem written_policy (h : Written ids s op command u result) (tenantId productId : String) :
    u.policy tenantId productId = s.policy tenantId productId ∨ ∃ scope now,
      configures op = some (scope,now) ∧
      (tenantId,productId) = (scope.tenantId.val,scope.productId.val) ∧
      u.policy tenantId productId = command.policy scope (command.expected+1) now ∧
      (s.policy tenantId productId).revision = command.expected := by
  cases h with
  | policy _ _ scope now hop hrevision =>
    have howner := command.policy_owner scope (command.expected+1) now
    rw [Customer360.policy, apply_policy_policies, howner.1, howner.2, Dict.get_set]
    split_ifs with hkey
    · refine .inr ⟨scope,now,hop,hkey,rfl,?_⟩
      cases hkey
      exact hrevision
    · exact .inl rfl
  | decided _ _ action => cases action <;> exact .inl rfl
  | _ => exact .inl rfl

theorem fingerprint_policy (hop : configures op = some (scope,now))
    (h : s.fingerprint op = some (.ok (key,command))) :
    ∃ args, checkPolicy scope args = .ok (key,command) := by
  cases op with
  | configurePolicy | disablePublishing | disableConsumption =>
    cases hop
    exact ⟨_,Option.some.inj h⟩
  | _ => cases hop

theorem filed_run (ids : IdFactory) (ops : List Customer360Op) : ∀ tenantId productId,
    Filed tenantId productId ((Machine.final (step ids) {} ops).policy tenantId productId) := by
  refine Machine.final_invariant (step ids)
    (fun s => ∀ tenantId productId, Filed tenantId productId (s.policy tenantId productId))
    (fun s op h tenantId productId => ?_) {} ops filed_initial
  rcases step_cases ids s op with hsame | ⟨key,command,u,result,hfingerprint,-,hwritten,hstep⟩
  · rw [hsame]
    exact h tenantId productId
  · rw [hstep]
    rcases written_policy hwritten tenantId productId with hold | ⟨scope,now,hop,hkey,hnext,-⟩
    · exact hold ▸ h tenantId productId
    · obtain ⟨args,hcheck⟩ := fingerprint_policy hop hfingerprint
      cases hkey
      exact hnext ▸ check_policy_filed hcheck _ now

def Sets (ids : IdFactory) (s : Customer360) (op : Customer360Op) (policy : SharingPolicy) : Prop :=
  (s.step ids op).2 = .ok (.policy policy) ∧
    (s.step ids op).1.policy policy.tenantId policy.productId = policy

theorem sets_iff (h : s.step ids op = s.answered (s.configurePolicy scope args now)) :
    Sets ids s op policy ↔ ∃ t, s.configurePolicy scope args now = .ok (t,.policy policy) ∧
      t.policy policy.tenantId policy.productId = policy := by
  rw [Sets, h]
  cases s.configurePolicy scope args now with
  | error error => simp [answered]
  | ok v => simp [answered, Prod.ext_iff, eq_comm]

end Customer360

open Customer360

/-- A sharing administrator with the current revision and a new key can disable
publishing and consumption of the current policy, with nothing else changed in it
but its revision and audit fields, exactly if neither direction has two rules for
one peer. -/
theorem sharing_can_be_disabled (ids : IdFactory) (ops : List Customer360Op) (scope : RequestScope)
    (key : String) (now : ℤ) :
    let s := Machine.final (step ids) {} ops
    let policy := s.policy scope.tenantId.val scope.productId.val
    sharingAdmin ∈ scope.roles → strip key ≠ "" →
    s.idempotency.get? (policyKey scope key) = none →
    ((∀ withdrawExisting, Sets ids s
        (.disablePublishing scope policy.revision key withdrawExisting now)
        { policy with
          publishEnabled := false, revision := policy.revision+1
          updatedBy := scope.principalId.val, updatedAt := some now }) ∧
      Sets ids s (.disableConsumption scope policy.revision key now)
        { policy with
          consumeEnabled := false, revision := policy.revision+1
          updatedBy := scope.principalId.val, updatedAt := some now } ↔
      (policy.publishRules.map peerProductId).Nodup ∧
        (policy.consumeRules.map peerProductId).Nodup) := by
  intro s policy hrole hkey hnew
  have hfiled : Filed scope.tenantId.val scope.productId.val policy := filed_run ids ops _ _
  have hpublishing : ∀ withdrawExisting, Sets ids s
      (.disablePublishing scope policy.revision key withdrawExisting now)
      (policy.switched scope now false policy.consumeEnabled) ↔ _ := fun withdrawExisting =>
    (sets_iff (show _ = s.answered (s.configurePolicy scope (rebuilt policy key false
      policy.consumeEnabled withdrawExisting) now) from rfl)).trans
      (rebuilt_iff rfl hfiled hrole hkey hnew)
  have hconsumption : Sets ids s (.disableConsumption scope policy.revision key now)
      (policy.switched scope now policy.publishEnabled false) ↔ _ :=
    (sets_iff (show _ = s.answered (s.configurePolicy scope (rebuilt policy key
      policy.publishEnabled false false) now) from rfl)).trans
      (rebuilt_iff rfl hfiled hrole hkey hnew)
  constructor
  · rintro ⟨hsets,-⟩
    exact (hpublishing false).mp (hsets false)
  · intro hnodup
    exact ⟨fun withdrawExisting => (hpublishing withdrawExisting).mpr hnodup,
      hconsumption.mpr hnodup⟩

section Switching
open RepeatedWithdrawal

theorem published_sharing_can_be_disabled :
    let s := Machine.final (step unaryIds) {} [.configurePolicy sales (publishes 0 "policy") 1]
    let policy := s.policy "tenant" "sales"
    Sets unaryIds s (.disablePublishing sales policy.revision "off" false 2)
      { policy with
        publishEnabled := false, revision := policy.revision+1
        updatedBy := "operator", updatedAt := some 2 } :=
  ((sharing_can_be_disabled unaryIds [.configurePolicy sales (publishes 0 "policy") 1] sales "off" 2
    (by decide) (by decide +kernel) (by decide +kernel)).mpr (by decide +kernel)).1 false

def doubled : PolicyArgs :=
  { publishes 0 "policy" with
    publishPredicates := ["email","phone"]
    publishRules := some ((Dict.empty.set "support" ["email"]).set " support" ["phone"]) }

theorem doubled_rule_cannot_be_disabled :
    let s := Machine.final (step unaryIds) {} [.configurePolicy sales doubled 1]
    let policy := s.policy "tenant" "sales"
    policy.publishRules = [⟨"support",{"email"}⟩,⟨"support",{"phone"}⟩] ∧
    (s.step unaryIds (.disablePublishing sales policy.revision "off" false 2)).2 =
      .error ⟨.invalidArgument,"publish_rules must match the flattened publish allowlists",
        [("argument",.str "publish_rules")]⟩ := by
  intro s policy
  refine ⟨by decide +kernel,?_⟩
  have hfiled : Filed "tenant" "sales" policy := filed_run _ _ _ _
  have hcheck := check_rebuilt false policy.consumeEnabled false hfiled
    (by decide : sharingAdmin ∈ sales.roles) (by decide +kernel : strip "off" ≠ "")
  have hpublish : givenRules (ruleArgs policy.publishRules) policy.publishToProducts
      policy.publishPredicates "publish_rules" = .ok [⟨"support",{"phone"}⟩] := by
    decide +kernel
  have hconsume : givenRules (ruleArgs policy.consumeRules) policy.consumeFromProducts
      policy.consumePredicates "consume_rules" = .ok [] := by
    decide +kernel
  have hflat : checkFlattened (ruleArgs policy.publishRules) [⟨"support",{"phone"}⟩]
      policy.publishToProducts policy.publishPredicates "publish_rules"
      "publish_rules must match the flattened publish allowlists" = .error ⟨.invalidArgument,
        "publish_rules must match the flattened publish allowlists",
        [("argument",.str "publish_rules")]⟩ := by
    decide +kernel
  simp only [hpublish, hconsume, hflat, bind, Except.bind] at hcheck
  rw [show s.step unaryIds (.disablePublishing sales policy.revision "off" false 2) = s.answered
    (s.configurePolicy sales (rebuilt policy "off" false policy.consumeEnabled false) 2) from rfl,
    configurePolicy, hcheck]
  rfl

end Switching
end SuiteHarness.Memory
