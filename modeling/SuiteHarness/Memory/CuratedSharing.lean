import SuiteHarness.Memory.Commands
import SuiteHarness.Library.Machine

/-!
# Curated sharing is safe

A shared claim stems from one candidate and is selected exactly while the
candidate is accepted. What a product reads was accepted by a curator of its
tenant under a policy that published it to that product, and a withdrawal that is
executed leaves nothing of what it takes back selected, then or later. A command
repeated under its idempotency key is not executed again.
-/

set_option autoImplicit false

namespace SuiteHarness.Memory
open SuiteHarness.Library SuiteHarness.Library.Multimap SuiteHarness.Library.Results
open SuiteHarness.Execution

namespace Customer360

variable {ids : IdFactory} {s t u : Customer360} {op : Customer360Op} {scope : RequestScope}
  {key : IdempotencyKey} {command : Command} {result : MemoryResult} {policy : SharingPolicy}
  {c : ShareCandidate} {claim next : SharedClaim} {source reason id : String} {now : ℤ}

structure Stems (claim : SharedClaim) (c : ShareCandidate) : Prop where
  space : claim.space = SpaceRef.customer360 c.tenantId
  entity : claim.entityId = c.entityId
  content : claim.predicate = c.predicate ∧ claim.value = c.value
  audience : claim.audienceProductIds = c.audienceProductIds
  provenance : claim.provenance = [provenanceOf c]

def restate (status : CandidateStatus) (now : ℤ) (c : ShareCandidate) : ShareCandidate :=
  { c with status := status, decidedAt := some now }

theorem stems_restate (status : CandidateStatus) (h : Stems claim c) :
    Stems claim (restate status now c) :=
  ⟨h.space,h.entity,h.content,h.audience,h.provenance⟩

structure Backed (s : Customer360) (id : String) (claim : SharedClaim) (c : ShareCandidate) :
    Prop where
  stored : s.candidates.get? c.candidateId = some c
  stems : Stems claim c
  linked : s.sharedByCandidate.get? c.candidateId = some id
  decided : c.status ≠ .pending
  selected : claim.status = .selected ↔ c.status = .accepted

def Drawn (ids : IdFactory) (s : Customer360) (id : String) : Prop := ∃ n < s.drawn, id = ids.text n

structure Sound (ids : IdFactory) (s : Customer360) : Prop where
  named : ∀ k c, s.candidates.get? k = some c → c.candidateId = k
  drawnCandidates : ∀ k c, s.candidates.get? k = some c → Drawn ids s k
  drawnClaims : ∀ id claim, s.sharedClaims.get? id = some claim → Drawn ids s id
  drawnLinks : ∀ k id, s.sharedByCandidate.get? k = some id → Drawn ids s id
  apart : ∀ k l id, s.sharedByCandidate.get? k = some id → s.sharedByCandidate.get? l = some id →
    k = l
  backed : ∀ id claim, s.sharedClaims.get? id = some claim → ∃ c, Backed s id claim c
  entities : ∀ tenant entity, ∀ id ∈ members s.sharedByEntity (tenant,entity),
    ∃ claim, s.sharedClaims.get? id = some claim ∧ claim.space.tenantId = tenant

theorem drawn_later (h : Drawn ids s id) (hle : s.drawn ≤ t.drawn) : Drawn ids t id :=
  h.imp fun _ hn => ⟨hn.1.trans_le hle,hn.2⟩

theorem drawn_old (h : Drawn ids s id) : id ≠ ids.text s.drawn := by
  obtain ⟨n,hn,rfl⟩ := h
  exact fun heq => hn.ne (ids.distinct heq)

inductive Fades (claim : SharedClaim) : SharedClaim → Prop
  | same : Fades claim claim
  | retired (now : ℤ) (reason : String) : Fades claim (retire now reason claim)

theorem fades_stems (h : Fades claim next) (hs : Stems claim c) : Stems next c := by
  cases h with
  | same => exact hs
  | retired now reason => exact ⟨hs.space,hs.entity,hs.content,hs.audience,hs.provenance⟩

theorem fades_space (h : Fades claim next) : next.space = claim.space := by
  cases h <;> rfl

structure Accepts (ids : IdFactory) (s : Customer360) (op : Customer360Op) (scope : RequestScope)
    (c : ShareCandidate) (claim : SharedClaim) : Prop where
  curation : ∃ candidateId reason expected key now,
    op = .curate scope candidateId .accept reason expected key now ∧
      s.candidates.get? (strip candidateId) = some c
  role : curator ∈ scope.roles
  tenant : c.tenantId = scope.tenantId.val
  published : c.audienceProductIds ⊆
    (s.policy c.tenantId c.sourceProductId).publishAudienceFor c.predicate
  stems : Stems claim c
  answer : ∃ result shared, (s.step ids op).2 = .ok (.curation result) ∧
    result.sharedClaim = some shared ∧ shared.claimId = claim.claimId

structure Kept (ids : IdFactory) (op : Customer360Op) (s t : Customer360) : Prop where
  sound : Sound ids t
  forward : ∀ id claim, s.sharedClaims.get? id = some claim →
    ∃ next, t.sharedClaims.get? id = some next ∧ Fades claim next
  back : ∀ id next, t.sharedClaims.get? id = some next →
    (∃ claim, s.sharedClaims.get? id = some claim ∧ Fades claim next) ∨
      ∃ scope c, Accepts ids s op scope c next

theorem kept_quiet (h : Sound ids t) (hclaims : t.sharedClaims = s.sharedClaims) :
    Kept ids op s t := by
  refine ⟨h,fun id claim hclaim => ⟨claim,?_,.same⟩,fun id next hnext => .inl ⟨next,?_,.same⟩⟩
  · rwa [hclaims]
  · rwa [← hclaims]

/-- Candidates that no claim stems from may change or appear. -/
theorem sound_candidates (hs : Sound ids s) (hclaims : t.sharedClaims = s.sharedClaims)
    (hlinks : t.sharedByCandidate = s.sharedByCandidate)
    (hentities : t.sharedByEntity = s.sharedByEntity) (hdrawn : s.drawn ≤ t.drawn)
    (hkept : ∀ k c, s.candidates.get? k = some c → c.status ≠ .pending →
      t.candidates.get? k = some c)
    (hnew : ∀ k c, t.candidates.get? k = some c → c.candidateId = k ∧ Drawn ids t k) :
    Sound ids t := by
  refine ⟨fun k c hc => (hnew k c hc).1,fun k c hc => (hnew k c hc).2,?_,?_,?_,?_,?_⟩
  · rw [hclaims]
    exact fun id claim hclaim => drawn_later (hs.drawnClaims id claim hclaim) hdrawn
  · rw [hlinks]
    exact fun k id hlink => drawn_later (hs.drawnLinks k id hlink) hdrawn
  · rw [hlinks]
    exact hs.apart
  · intro id claim hclaim
    rw [hclaims] at hclaim
    obtain ⟨c,hb⟩ := hs.backed id claim hclaim
    refine ⟨c,hkept _ c hb.stored hb.decided,hb.stems,?_,hb.decided,hb.selected⟩
    rw [hlinks]
    exact hb.linked
  · rw [hentities, hclaims]
    exact hs.entities

theorem sound_same (hs : Sound ids s) (hcandidates : t.candidates = s.candidates)
    (hclaims : t.sharedClaims = s.sharedClaims)
    (hlinks : t.sharedByCandidate = s.sharedByCandidate)
    (hentities : t.sharedByEntity = s.sharedByEntity) (hdrawn : t.drawn = s.drawn) : Sound ids t := by
  refine sound_candidates hs hclaims hlinks hentities hdrawn.ge ?_ ?_ <;> rw [hcandidates]
  · exact fun k c hc _ => hc
  · exact fun k c hc => ⟨hs.named k c hc,drawn_later (hs.drawnCandidates k c hc) hdrawn.ge⟩

theorem kept_remember (h : Kept ids op s t) : Kept ids op s (t.remember key command result).1 :=
  ⟨sound_same h.sound rfl rfl rfl rfl rfl,h.forward,h.back⟩

theorem propose_sound (hs : Sound ids s) (hname : c.candidateId = ids.text s.drawn)
    (hcandidates : t.candidates = s.candidates.set (ids.text s.drawn) c)
    (hclaims : t.sharedClaims = s.sharedClaims)
    (hlinks : t.sharedByCandidate = s.sharedByCandidate)
    (hentities : t.sharedByEntity = s.sharedByEntity) (hdrawn : t.drawn = s.drawn+1) :
    Sound ids t := by
  refine sound_candidates hs hclaims hlinks hentities (by omega) ?_ ?_
  · intro k d hd _
    rw [hcandidates, Dict.get_set, if_neg (drawn_old (hs.drawnCandidates k d hd))]
    exact hd
  · intro k d hd
    rw [hcandidates, Dict.get_set] at hd
    split_ifs at hd with hk
    · cases hd
      exact ⟨hname.trans hk.symm,s.drawn,by omega,hk⟩
    · exact ⟨hs.named k d hd,drawn_later (hs.drawnCandidates k d hd) (by omega)⟩

/-- A pending candidate has no claim, so it may be decided. -/
theorem sound_decided {f : ShareCandidate → ShareCandidate} (hs : Sound ids s)
    (hclaims : t.sharedClaims = s.sharedClaims)
    (hlinks : t.sharedByCandidate = s.sharedByCandidate)
    (hentities : t.sharedByEntity = s.sharedByEntity) (hdrawn : s.drawn ≤ t.drawn)
    (hget : ∀ k, t.candidates.get? k = (s.candidates.get? k).map f)
    (hpending : ∀ c, c.status ≠ .pending → f c = c)
    (hid : ∀ c, (f c).candidateId = c.candidateId) : Sound ids t := by
  refine sound_candidates hs hclaims hlinks hentities hdrawn ?_ ?_
  · intro k c hc hne
    rw [hget, hc, Option.map_some, hpending c hne]
  · intro k c hc
    rw [hget, Option.map_eq_some_iff] at hc
    obtain ⟨d,hd,rfl⟩ := hc
    exact ⟨(hid d).trans (hs.named k d hd),drawn_later (hs.drawnCandidates k d hd) hdrawn⟩

theorem invalidate_candidates (s : Customer360) (policy : SharingPolicy) (now : ℤ) (k : String) :
    (s.invalidatePending policy now).candidates.get? k = (s.candidates.get? k).map
      (fun c => if invalid policy c then restate .stale now c else c) :=
  Dict.get_rewrite (fun e : String × ShareCandidate => invalid policy e.2)
    (fun e => restate .stale now e.2) s.candidates k

theorem invalidate_sound (hs : Sound ids s) : Sound ids (s.invalidatePending policy now) := by
  refine sound_decided hs rfl rfl rfl le_rfl (invalidate_candidates s policy now) ?_ ?_
  · intro c hc
    rw [if_neg]
    simp [invalid, hc]
  · intro c
    split_ifs <;> rfl

/-! The withdrawal loop. -/

section Withdrawing

variable {byCandidate : Dict String String} {chosen : ShareCandidate → Bool} (w : Withdrawal)
  (tenantId : String) (e : String × ShareCandidate)

def target (byCandidate : Dict String String) (w : Withdrawal) (k : String) :
    Option (String × SharedClaim) :=
  (byCandidate.get? k).bind fun id =>
    ((w.sharedClaims.get? id).filter (fun claim => decide (claim.status = .selected))).map (id,·)

theorem target_some : target byCandidate w e.1 = some (id,claim) ↔
    byCandidate.get? e.1 = some id ∧ w.sharedClaims.get? id = some claim ∧
      claim.status = .selected := by
  simp [target, Option.bind_eq_some_iff, Option.map_eq_some_iff, Option.filter_eq_some_iff]

theorem withdraw_one_eq : withdrawOne byCandidate chosen reason now w e =
    if hits chosen e.2 then
      { candidates := w.candidates.set e.1 (restate .withdrawn now e.2)
        sharedClaims := (target byCandidate w e.1).elim w.sharedClaims
          (fun x => w.sharedClaims.set x.1 (retire now reason x.2))
        withdrawn := w.withdrawn+1
        retracted := w.retracted+(target byCandidate w e.1).toList.length
        touched := (target byCandidate w e.1).elim w.touched
          (fun _ => insert e.2.entityId w.touched) }
    else w := by
  unfold withdrawOne target
  cases hits chosen e.2 with
  | false => rfl
  | true =>
    cases byCandidate.get? e.1 with
    | none => rfl
    | some id =>
      cases hclaim : w.sharedClaims.get? id with
      | none => simp [hclaim, restate]
      | some claim => by_cases hselected : claim.status = .selected <;>
        simp [hclaim, hselected, restate, Option.filter]

def reaches (byCandidate : Dict String String) (chosen : ShareCandidate → Bool) (id : String)
    (e : String × ShareCandidate) : Bool :=
  hits chosen e.2 && decide (byCandidate.get? e.1 = some id)

def fadeIf (now : ℤ) (reason : String) (reached : Bool) (claim : SharedClaim) : SharedClaim :=
  if reached = true ∧ claim.status = .selected then retire now reason claim else claim

theorem fade_if_false (claim : SharedClaim) : fadeIf now reason false claim = claim :=
  if_neg (fun h => nomatch h.1)

theorem fade_if_twice (a b : Bool) (claim : SharedClaim) :
    fadeIf now reason b (fadeIf now reason a claim) = fadeIf now reason (a || b) claim := by
  unfold fadeIf
  split_ifs <;> simp_all [retire]

theorem fade_if_fades (reached : Bool) (claim : SharedClaim) :
    Fades claim (fadeIf now reason reached claim) := by
  unfold fadeIf
  split_ifs
  · exact .retired now reason
  · exact .same

theorem fade_if_none (x : Option SharedClaim) : x.map (fadeIf now reason false) = x := by
  cases x <;> simp [fade_if_false]

theorem target_claims (k id : String) :
    ((target byCandidate w k).elim w.sharedClaims
      (fun x => w.sharedClaims.set x.1 (retire now reason x.2))).get? id =
      (w.sharedClaims.get? id).map (fadeIf now reason (decide (byCandidate.get? k = some id))) := by
  unfold target
  cases byCandidate.get? k with
  | none => simp [fade_if_none]
  | some j =>
    by_cases hj : id = j
    · subst hj
      cases hclaim : w.sharedClaims.get? id with
      | none => simp [hclaim]
      | some claim => by_cases hselected : claim.status = .selected <;>
        simp [hclaim, hselected, fadeIf, Option.filter]
    · rw [decide_eq_false (fun h => hj (Option.some.inj h).symm), fade_if_none]
      cases hclaim : w.sharedClaims.get? j with
      | none => simp [hclaim]
      | some claim => by_cases hselected : claim.status = .selected <;>
        simp [hclaim, hselected, Option.filter, hj]

theorem withdraw_one_claims (id : String) :
    (withdrawOne byCandidate chosen reason now w e).sharedClaims.get? id =
      (w.sharedClaims.get? id).map (fadeIf now reason (reaches byCandidate chosen id e)) := by
  rw [withdraw_one_eq, reaches]
  cases hits chosen e.2 with
  | false => rw [Bool.false_and, fade_if_none]; rfl
  | true => rw [Bool.true_and]; exact target_claims w e.1 id

theorem withdraw_loop_candidates (es : List (String × ShareCandidate)) :
    (es.foldl (withdrawOne byCandidate chosen reason now) w).candidates =
      es.foldl (fun c e => if hits chosen e.2 then c.set e.1 (restate .withdrawn now e.2) else c)
        w.candidates := by
  induction es generalizing w with
  | nil => rfl
  | cons e rest ih =>
    rw [List.foldl_cons, List.foldl_cons, ih, withdraw_one_eq]
    split_ifs <;> rfl

theorem withdraw_loop_claims (es : List (String × ShareCandidate)) (id : String) :
    (es.foldl (withdrawOne byCandidate chosen reason now) w).sharedClaims.get? id =
      (w.sharedClaims.get? id).map
        (fadeIf now reason (es.any (reaches byCandidate chosen id))) := by
  induction es generalizing w with
  | nil => rw [List.any_nil, fade_if_none]; rfl
  | cons e rest ih =>
    rw [List.foldl_cons, ih, withdraw_one_claims, Option.map_map, List.any_cons]
    congr 1
    funext claim
    exact fade_if_twice _ _ claim

theorem withdraw_candidates (s : Customer360) (tenantId : String) (chosen : ShareCandidate → Bool)
    (reason : String) (now : ℤ) (k : String) :
    (s.withdraw tenantId chosen reason now).1.candidates.get? k =
      (s.candidates.get? k).map (fun c => if hits chosen c then restate .withdrawn now c else c) := by
  unfold withdraw
  simp only [withdraw_loop_candidates]
  exact Dict.get_rewrite (fun e : String × ShareCandidate => hits chosen e.2)
    (fun e => restate .withdrawn now e.2) s.candidates k

theorem withdraw_claims (id : String) :
    (s.withdraw tenantId chosen reason now).1.sharedClaims.get? id =
      (s.sharedClaims.get? id).map
        (fadeIf now reason (s.candidates.entries.any (reaches s.sharedByCandidate chosen id))) :=
  withdraw_loop_claims _ _ id

/-- A claim is reached by the round of its own candidate only. -/
theorem reached_iff (hs : Sound ids s) (hb : Backed s id claim c) :
    s.candidates.entries.any (reaches s.sharedByCandidate chosen id) = hits chosen c := by
  rw [Bool.eq_iff_iff, List.any_eq_true]
  constructor
  · rintro ⟨⟨k,d⟩,he,hreach⟩
    simp only [reaches, Bool.and_eq_true, decide_eq_true_eq] at hreach
    have hd := (Dict.get_mem _ _ _).mpr he
    rw [hs.apart k c.candidateId id hreach.2 hb.linked, hb.stored] at hd
    cases hd
    exact hreach.1
  · intro hhits
    exact ⟨(c.candidateId,c),(Dict.get_mem _ _ _).mp hb.stored,by simp [reaches, hhits, hb.linked]⟩

/-- The claim and the candidate behind it after a withdrawal. -/
theorem withdraw_backed (hb : Backed s id claim c) :
    Backed (s.withdraw tenantId chosen reason now).1 id (fadeIf now reason (hits chosen c) claim)
      (if hits chosen c then restate .withdrawn now c else c) := by
  have hstored := withdraw_candidates s tenantId chosen reason now c.candidateId
  rw [hb.stored, Option.map_some] at hstored
  cases hhits : hits chosen c with
  | false =>
    rw [hhits] at hstored
    rw [fade_if_false]
    exact ⟨hstored,hb.stems,hb.linked,hb.decided,hb.selected⟩
  | true =>
    rw [hhits] at hstored
    refine ⟨hstored,stems_restate _ (fades_stems (fade_if_fades _ _) hb.stems),hb.linked,
      by simp [restate],?_⟩
    unfold fadeIf
    split_ifs with hselected <;> simp_all [restate, retire]

theorem withdraw_sound (hs : Sound ids s) :
    Sound ids (s.withdraw tenantId chosen reason now).1 := by
  refine ⟨?_,?_,?_,hs.drawnLinks,hs.apart,?_,?_⟩
  · intro k c hc
    rw [withdraw_candidates, Option.map_eq_some_iff] at hc
    obtain ⟨d,hd,rfl⟩ := hc
    split_ifs <;> exact hs.named k d hd
  · intro k c hc
    rw [withdraw_candidates, Option.map_eq_some_iff] at hc
    obtain ⟨d,hd,-⟩ := hc
    exact hs.drawnCandidates k d hd
  · intro id claim hclaim
    rw [withdraw_claims, Option.map_eq_some_iff] at hclaim
    obtain ⟨old,hold,-⟩ := hclaim
    exact hs.drawnClaims id old hold
  · intro id claim hclaim
    rw [withdraw_claims, Option.map_eq_some_iff] at hclaim
    obtain ⟨old,hold,rfl⟩ := hclaim
    obtain ⟨c,hb⟩ := hs.backed id old hold
    rw [reached_iff hs hb]
    exact ⟨_,withdraw_backed tenantId hb⟩
  · intro tenant entity id hid
    obtain ⟨claim,hclaim,htenant⟩ := hs.entities tenant entity id hid
    refine ⟨_,by rw [withdraw_claims, hclaim, Option.map_some],?_⟩
    rw [fades_space (fade_if_fades _ claim)]
    exact htenant

/-- After a withdrawal no selected claim stems from a chosen candidate. -/
theorem withdraw_unselected (hs : Sound ids s)
    (hclaim : (s.withdraw tenantId chosen reason now).1.sharedClaims.get? id = some claim)
    (hselected : claim.status = .selected) : ∃ c, Stems claim c ∧ chosen c = false := by
  obtain ⟨c,hb⟩ := (withdraw_sound tenantId hs).backed id claim hclaim
  have haccepted := hb.selected.mp hselected
  have hstored := hb.stored
  rw [withdraw_candidates, Option.map_eq_some_iff] at hstored
  obtain ⟨old,hold,hnext⟩ := hstored
  split_ifs at hnext with hhits
  · rw [← hnext] at haccepted
    cases haccepted
  · subst hnext
    refine ⟨old,hb.stems,?_⟩
    simpa [hits, haccepted] using hhits

theorem withdraw_kept (hs : Sound ids s) (hclaims : s.sharedClaims = u.sharedClaims) :
    Kept ids op u (s.withdraw tenantId chosen reason now).1 := by
  refine ⟨withdraw_sound tenantId hs,?_,?_⟩
  · intro id claim hclaim
    rw [← hclaims] at hclaim
    exact ⟨_,by rw [withdraw_claims, hclaim, Option.map_some],fade_if_fades _ claim⟩
  · intro id next hnext
    rw [withdraw_claims, Option.map_eq_some_iff, hclaims] at hnext
    obtain ⟨claim,hclaim,rfl⟩ := hnext
    exact .inl ⟨claim,hclaim,fade_if_fades _ claim⟩

end Withdrawing

/-- The state in which a new policy withdraws what its product contributed. -/
theorem policy_sound (hs : Sound ids s) :
    Sound ids ({ s with policies := s.policies.set (policy.tenantId,policy.productId) policy
      }.invalidatePending policy now) :=
  invalidate_sound (sound_same hs rfl rfl rfl rfl rfl)

theorem apply_policy_kept {withdrawExisting : Bool} (hs : Sound ids s) :
    Kept ids op s (s.applyPolicy policy withdrawExisting now) := by
  unfold applyPolicy
  cases withdrawExisting with
  | false => exact kept_quiet (policy_sound hs) rfl
  | true => exact withdraw_kept _ (policy_sound hs) rfl

section Deciding

variable {current : ℕ}

theorem reject_sound (hs : Sound ids s) (hc : s.candidates.get? id = some c)
    (hpending : c.status = .pending) :
    Sound ids (s.recordDecision ids scope id c .reject reason current now).1 := by
  have hget : ∀ k, (s.recordDecision ids scope id c .reject reason current now).1.candidates.get? k =
      if k = id then some (restate .rejected now c) else s.candidates.get? k :=
    fun k => Dict.get_set _ _ _ _
  refine sound_candidates hs rfl rfl rfl (Nat.le_succ _) ?_ ?_
  · intro k d hd hne
    rw [hget, if_neg]
    · exact hd
    · rintro rfl
      cases hc.symm.trans hd
      exact hne hpending
  · intro k d hd
    rw [hget] at hd
    split_ifs at hd with hk
    · cases hd
      subst hk
      exact ⟨hs.named k c hc,drawn_later (hs.drawnCandidates k c hc) (Nat.le_succ _)⟩
    · exact ⟨hs.named k d hd,drawn_later (hs.drawnCandidates k d hd) (Nat.le_succ _)⟩

theorem accept_claims (k : String) :
    (s.recordDecision ids scope id c .accept reason current now).1.sharedClaims.get? k =
      if k = ids.text s.drawn then some (sharedFrom (ids.text s.drawn) c now)
      else s.sharedClaims.get? k := Dict.get_set _ _ _ _

theorem accept_candidates (k : String) :
    (s.recordDecision ids scope id c .accept reason current now).1.candidates.get? k =
      if k = id then some (restate .accepted now c) else s.candidates.get? k := Dict.get_set _ _ _ _

theorem accept_links (k : String) :
    (s.recordDecision ids scope id c .accept reason current now).1.sharedByCandidate.get? k =
      if k = id then some (ids.text s.drawn) else s.sharedByCandidate.get? k := Dict.get_set _ _ _ _

theorem shared_stems : Stems (sharedFrom id c now) c := ⟨rfl,rfl,⟨rfl,rfl⟩,rfl,rfl⟩

/-- An old claim is still there when a new one is shared. -/
theorem accept_kept (hs : Sound ids s) {k : String} (hclaim : s.sharedClaims.get? k = some claim) :
    (s.recordDecision ids scope id c .accept reason current now).1.sharedClaims.get? k =
      some claim := by
  rw [accept_claims, if_neg (drawn_old (hs.drawnClaims k claim hclaim))]
  exact hclaim

theorem accept_sound (hs : Sound ids s) (hc : s.candidates.get? id = some c)
    (hpending : c.status = .pending) :
    Sound ids (s.recordDecision ids scope id c .accept reason current now).1 := by
  have hname : c.candidateId = id := hs.named id c hc
  have hlater : ∀ k, Drawn ids s k →
      Drawn ids (s.recordDecision ids scope id c .accept reason current now).1 k :=
    fun k hk => drawn_later hk (Nat.le_add_right _ 2)
  have hnew : Drawn ids (s.recordDecision ids scope id c .accept reason current now).1
      (ids.text s.drawn) := ⟨s.drawn,Nat.lt_add_of_pos_right two_pos,rfl⟩
  refine ⟨?_,?_,?_,?_,?_,?_,?_⟩
  · intro k d hd
    rw [accept_candidates] at hd
    split_ifs at hd with hk
    · cases hd
      exact hname.trans hk.symm
    · exact hs.named k d hd
  · intro k d hd
    rw [accept_candidates] at hd
    split_ifs at hd with hk
    · exact hlater k (hs.drawnCandidates k c (hk ▸ hc))
    · exact hlater k (hs.drawnCandidates k d hd)
  · intro k claim hclaim
    rw [accept_claims] at hclaim
    split_ifs at hclaim with hk
    · exact hk ▸ hnew
    · exact hlater k (hs.drawnClaims k claim hclaim)
  · intro k j hlink
    rw [accept_links] at hlink
    split_ifs at hlink
    · cases hlink
      exact hnew
    · exact hlater j (hs.drawnLinks k j hlink)
  · intro k l j hk hl
    rw [accept_links] at hk hl
    split_ifs at hk hl with hkid hlid hlid
    · exact hkid.trans hlid.symm
    · exact absurd (Option.some.inj hk).symm (drawn_old (hs.drawnLinks l j hl))
    · exact absurd (Option.some.inj hl).symm (drawn_old (hs.drawnLinks k j hk))
    · exact hs.apart k l j hk hl
  · intro k claim hclaim
    rw [accept_claims] at hclaim
    split_ifs at hclaim with hk
    · cases hclaim
      have hrestated : (restate .accepted now c).candidateId = id := hname
      refine ⟨restate .accepted now c,?_,stems_restate _ shared_stems,?_,by simp [restate],
        fun _ => rfl,fun _ => rfl⟩
      · rw [accept_candidates, if_pos hrestated]
      · rw [accept_links, if_pos hrestated, hk]
    · obtain ⟨d,hb⟩ := hs.backed k claim hclaim
      have hother : d.candidateId ≠ id := by
        intro heq
        cases hc.symm.trans (heq ▸ hb.stored)
        exact hb.decided hpending
      refine ⟨d,?_,hb.stems,?_,hb.decided,hb.selected⟩
      · rw [accept_candidates, if_neg hother]
        exact hb.stored
      · rw [accept_links, if_neg hother]
        exact hb.linked
  · intro tenant entity k hk
    have hmembers : k ∈ members (s.sharedByEntity.set (c.tenantId,c.entityId)
        (members s.sharedByEntity (c.tenantId,c.entityId) ++ [ids.text s.drawn]))
        (tenant,entity) := hk
    rw [members_set] at hmembers
    split_ifs at hmembers with hentity
    · rw [Prod.mk.injEq] at hentity
      rcases List.mem_append.mp hmembers with hold | hnew
      · obtain ⟨claim,hclaim,htenant⟩ := hs.entities _ _ k hold
        exact ⟨claim,accept_kept hs hclaim,htenant.trans hentity.1.symm⟩
      · rw [List.mem_singleton] at hnew
        exact ⟨_,by rw [accept_claims, if_pos hnew],hentity.1.symm⟩
    · obtain ⟨claim,hclaim,htenant⟩ := hs.entities _ _ k hmembers
      exact ⟨claim,accept_kept hs hclaim,htenant⟩

end Deciding

theorem written_kept (hs : Sound ids s) (h : Written ids s op command u result)
    (hstep : (s.step ids op).2 = .ok result) : Kept ids op s u := by
  cases h with
  | bound => exact kept_quiet (sound_same hs rfl rfl rfl rfl rfl) rfl
  | policy => exact apply_policy_kept hs
  | known => exact kept_quiet hs rfl
  | proposed => exact kept_quiet (propose_sound hs rfl rfl rfl rfl rfl rfl) rfl
  | withdrawn => exact withdraw_kept _ hs rfl
  | decided scope candidateId action reason expected key now _ c hrole hc htenant hpending hallowed =>
    cases action with
    | reject => exact kept_quiet (reject_sound hs hc hpending) rfl
    | accept =>
      refine ⟨accept_sound hs hc hpending,fun k claim hclaim => ⟨claim,accept_kept hs hclaim,.same⟩,
        fun k next hnext => ?_⟩
      rw [accept_claims] at hnext
      split_ifs at hnext with hk
      · cases hnext
        exact .inr ⟨scope,c,⟨candidateId,reason,expected,key,now,rfl,hc⟩,hrole,htenant,
          (of_decide_eq_true (hallowed rfl)).2,shared_stems,_,_,hstep,rfl,rfl⟩
      · exact .inl ⟨next,hnext,.same⟩

theorem step_kept (op : Customer360Op) (hs : Sound ids s) : Kept ids op s (s.step ids op).1 := by
  rcases step_cases ids s op with hsame | ⟨key,command,u,result,-,-,hwritten,hstep⟩
  · rw [hsame]
    exact kept_quiet hs rfl
  · rw [hstep]
    exact kept_remember (written_kept hs hwritten (by rw [hstep]))

theorem sound_initial : Sound ids {} where
  named := nofun
  drawnCandidates := nofun
  drawnClaims := nofun
  drawnLinks := nofun
  apart := nofun
  backed := nofun
  entities := by
    intro tenant entity id hid
    cases hid

theorem sound_run (ops : List Customer360Op) (s : Customer360) (hs : Sound ids s) :
    Sound ids (Machine.final (step ids) s ops) :=
  Machine.final_invariant (step ids) (Sound ids) (fun _ op hs => (step_kept op hs).sound) s ops hs

theorem fades_accepts (h : Fades claim next) (ha : Accepts ids s op scope c claim) :
    Accepts ids s op scope c next := by
  refine ⟨ha.curation,ha.role,ha.tenant,ha.published,fades_stems h ha.stems,?_⟩
  cases h <;> exact ha.answer

/-- Every shared claim of a run was accepted by one of its curations. -/
theorem accepted_run {ids : IdFactory} {ops : List Customer360Op} {id : String}
    (h : (Machine.final (step ids) {} ops).sharedClaims.get? id = some claim) :
    ∃ pre op post scope c, ops = pre ++ op::post ∧
      Accepts ids (Machine.final (step ids) {} pre) op scope c claim := by
  induction ops using List.reverseRecOn generalizing claim with
  | nil => cases h
  | append_singleton ops op ih =>
    rw [Machine.final_append] at h
    rcases (step_kept op (sound_run ops {} (sound_initial))).back id claim h with
      ⟨old,hold,hfades⟩ | ⟨scope,c,haccepts⟩
    · obtain ⟨pre,op',post,scope,c,rfl,haccepts⟩ := ih hold
      exact ⟨pre,op',post ++ [op],scope,c,by simp,fades_accepts hfades haccepts⟩
    · exact ⟨ops,op,[],scope,c,rfl,haccepts⟩

structure Ages (claim next : SharedClaim) : Prop where
  space : next.space = claim.space
  provenance : next.provenance = claim.provenance
  retracted : claim.status = .retracted → next.status = .retracted

theorem fades_ages {origin : SharedClaim} (h : Ages origin claim) (hfades : Fades claim next) :
    Ages origin next := by
  cases hfades with
  | same => exact h
  | retired now reason => exact ⟨h.space,h.provenance,fun _ => rfl⟩

theorem ages_run {id : String} (ops : List Customer360Op) (hs : Sound ids s)
    (hclaim : s.sharedClaims.get? id = some claim) :
    ∃ next, (Machine.final (step ids) s ops).sharedClaims.get? id = some next ∧ Ages claim next := by
  refine (Machine.final_invariant (step ids) (fun s => Sound ids s ∧ ∃ next,
    s.sharedClaims.get? id = some next ∧ Ages claim next) ?_ s ops
      ⟨hs,claim,hclaim,rfl,rfl,fun h => h⟩).2
  rintro s op ⟨hs,next,hnext,hages⟩
  have hkept := step_kept op hs
  obtain ⟨last,hlast,hfades⟩ := hkept.forward id next hnext
  exact ⟨hkept.sound,last,hlast,fades_ages hages hfades⟩

def fromProduct (tenantId productId : String) (claim : SharedClaim) : Bool :=
  decide (claim.space.tenantId = tenantId) &&
    claim.provenance.any (fun ref => decide (ref.sourceProductId = productId))

def fromSource (tenantId productId sourceClaimId : String) (claim : SharedClaim) : Bool :=
  decide (claim.space.tenantId = tenantId) && claim.provenance.any (fun ref =>
    decide (ref.sourceProductId = productId ∧ ref.sourceClaimId = sourceClaimId))

def policyKey (scope : RequestScope) (idempotencyKey : String) : String × String × String × String :=
  (scope.tenantId.val,scope.productId.val,"customer360.configure_policy",strip idempotencyKey)

def sourceKey (scope : RequestScope) (idempotencyKey : String) : String × String × String × String :=
  (scope.tenantId.val,scope.productId.val,"customer360.withdraw_source",strip idempotencyKey)

def takesBack : Customer360Op →
    Option ((String × String × String × String) × (SharedClaim → Bool))
  | .withdrawSource scope source _ key _ _ => some (sourceKey scope key,
      fromSource scope.tenantId.val scope.productId.val (strip source))
  | .configurePolicy scope args _ =>
    if args.withdrawExisting then some (policyKey scope args.idempotencyKey,
      fromProduct scope.tenantId.val scope.productId.val) else none
  | .disablePublishing scope _ key true _ => some (policyKey scope key,
      fromProduct scope.tenantId.val scope.productId.val)
  | _ => none

variable {taken : SharedClaim → Bool}

theorem takes_back_ages (hop : takesBack op = some (key,taken))
    (h : Ages claim next) : taken next = taken claim := by
  have hproduct : ∀ tenant product, fromProduct tenant product next = fromProduct tenant product claim := by
    intro tenant product
    rw [fromProduct, h.space, h.provenance, fromProduct]
  cases op with
  | withdrawSource scope source reason idempotencyKey profile now =>
    cases hop
    rw [fromSource, h.space, h.provenance, fromSource]
  | configurePolicy scope args now =>
    simp only [takesBack] at hop
    split_ifs at hop
    cases hop
    exact hproduct _ _
  | disablePublishing scope expected idempotencyKey withdrawExisting now =>
    cases withdrawExisting with
    | false => cases hop
    | true =>
      cases hop
      exact hproduct _ _
  | _ => cases hop

theorem stems_product {tenantId productId : String} (h : Stems claim c) :
    fromProduct tenantId productId claim = ofProduct tenantId productId c := by
  simp [fromProduct, ofProduct, h.space, h.provenance, SpaceRef.customer360, provenanceOf]

theorem stems_source {tenantId productId : String} (h : Stems claim c) :
    fromSource tenantId productId source claim = ofSource tenantId productId source c := by
  simp [fromSource, ofSource, ofProduct, h.space, h.provenance, SpaceRef.customer360, provenanceOf,
    Bool.and_assoc]

/-- The key of a withdrawing command, and the flag of a policy change among them. -/
theorem takes_back_key {key' : IdempotencyKey}
    (hop : takesBack op = some (key',taken)) (h : s.fingerprint op = some (.ok (key,command))) :
    key = key' ∧ (configures op ≠ none → command.withdraws = true) := by
  cases op with
  | withdrawSource scope source reason idempotencyKey profile now =>
    cases hop
    obtain ⟨_,_,h⟩ := bind_ok (Option.some.inj h)
    obtain ⟨_,_,h⟩ := bind_ok h
    obtain ⟨_,_,h⟩ := bind_ok h
    obtain ⟨k,hkey,h⟩ := bind_ok h
    cases h
    exact ⟨idem_key_ok hkey,fun hne => absurd rfl hne⟩
  | configurePolicy scope args now =>
    simp only [takesBack] at hop
    split_ifs at hop with hwithdraw
    cases hop
    have hc := check_policy_ok (Option.some.inj h)
    exact ⟨hc.key,fun _ => hc.withdraws.trans hwithdraw⟩
  | disablePublishing scope expected idempotencyKey withdrawExisting now =>
    cases withdrawExisting with
    | false => cases hop
    | true =>
      cases hop
      have hc := check_policy_ok (Option.some.inj h)
      exact ⟨hc.key,fun _ => hc.withdraws⟩
  | _ => cases hop

theorem takes_back_product (hop : takesBack op = some (key,taken))
    (hconfigures : configures op = some (scope,now)) :
    taken = fromProduct scope.tenantId.val scope.productId.val := by
  cases op with
  | configurePolicy scope args now =>
    cases hconfigures
    simp only [takesBack] at hop
    split_ifs at hop
    cases hop
    rfl
  | disablePublishing scope expected idempotencyKey withdrawExisting now =>
    cases hconfigures
    cases withdrawExisting with
    | false => cases hop
    | true =>
      cases hop
      rfl
  | disableConsumption => cases hop
  | _ => cases hconfigures

/-- A withdrawing command that is executed leaves nothing it takes back selected. -/
theorem takes_back_step (hs : Sound ids s)
    (hop : takesBack op = some (key,taken)) (hok : (s.step ids op).2 = .ok result)
    (hnew : s.idempotency.get? key = none)
    (hclaim : (s.step ids op).1.sharedClaims.get? id = some claim) (htaken : taken claim = true) :
    claim.status = .retracted := by
  rcases fingerprint_ok hok with hnone | ⟨key',command,h⟩
  · cases op <;> simp_all [fingerprint, takesBack]
  obtain ⟨rfl,hwithdraws⟩ := takes_back_key hop h
  obtain ⟨u,hwritten,hstep⟩ := executed h hnew hok
  rw [hstep] at hclaim
  cases hstatus : claim.status with
  | retracted => rfl
  | selected =>
    exfalso
    cases hwritten with
    | policy _ _ scope now hconfigures =>
      rw [takes_back_product hop hconfigures] at htaken
      rw [hwithdraws (by simp [hconfigures])] at hclaim
      obtain ⟨c,hstems,hchosen⟩ := withdraw_unselected
        (command.policy scope (command.expected+1) now).tenantId (policy_sound hs) hclaim hstatus
      have howner := command.policy_owner scope (command.expected+1) now
      rw [stems_product hstems, ← howner.1, ← howner.2, hchosen] at htaken
      cases htaken
    | withdrawn scope =>
      cases hop
      obtain ⟨c,hstems,hchosen⟩ := withdraw_unselected scope.tenantId.val hs hclaim hstatus
      rw [stems_source hstems, hchosen] at htaken
      cases htaken
    | _ => cases hop

theorem read_shared_ok {entityId : String} {claims : List SharedClaim}
    (h : s.readShared scope entityId = .ok (.claims claims)) (hclaim : claim ∈ claims) :
    ∃ id ∈ members s.sharedByEntity (scope.tenantId.val,strip entityId),
      s.sharedClaims.get? id = some claim ∧ s.visible scope claim = true := by
  unfold readShared at h
  simp only [bind, Except.bind] at h
  split at h
  · cases h
  split at h
  · cases h
  rename_i hentity
  split at h
  · cases h
  cases h
  rw [List.mem_insertionSort, List.mem_filter, List.mem_filterMap] at hclaim
  obtain ⟨⟨id,hid,hget⟩,hvisible⟩ := hclaim
  rw [check_text_ok hentity] at hid
  exact ⟨id,hid,hget,hvisible⟩

end Customer360

open Customer360

namespace RepeatedWithdrawal

def unaryIds : IdFactory where
  text n := String.ofList (List.replicate (n+1) 'a')
  distinct m n h := by simpa using congrArg (fun s => s.toList.length) h

def sales : RequestScope where
  tenantId := ⟨"tenant",.refl true⟩
  productId := ⟨"sales",.refl true⟩
  principalId := ⟨"operator",.refl true⟩
  roles := [sharingAdmin,entityAdmin,sharePropose,curator]

def publishes (expectedRevision : ℤ) (idempotencyKey : String) : PolicyArgs where
  publishEnabled := true
  consumeEnabled := false
  publishPredicates := ["email"]
  consumePredicates := []
  publishToProducts := ["support"]
  consumeFromProducts := []
  expectedRevision := expectedRevision
  idempotencyKey := idempotencyKey

def email : PrivateClaim where
  claimId := "claim"
  space := ⟨"tenant",.productPrivate,some "sales"⟩
  localSubjectId := "local"
  predicate := "email"
  value := .str "customer"
  sourceRef := "crm"

def withdrawal : Customer360Op :=
  .withdrawSource sales "claim" "consent withdrawn" "withdraw" (.ok email) 5

def sharedTwice : List Customer360Op :=
  [.configurePolicy sales (publishes 0 "policy-1") 1,
    .bindEntityAlias sales "sales" "local" "customer" 0 "bind" 2,
    .proposeShare sales "claim" "propose-1" (.ok email) 3,
    .curate sales "a" .accept "verified" 0 "curate-1" 4,
    withdrawal,
    .configurePolicy sales (publishes 1 "policy-2") 6,
    .proposeShare sales "claim" "propose-2" (.ok email) 7,
    .curate sales "aaaa" .accept "verified" 2 "curate-2" 8]

end RepeatedWithdrawal

end SuiteHarness.Memory
