import SuiteHarness.Channels.EventDeduplicator
import SuiteHarness.Persistence.Events

/-!
# The two event deduplicators

`InMemoryEventDeduplicator` against one `SQLiteChannelEventDeduplicator` on a
scope of its own. The entry of an event is matched with its row in one of the
two tables. The instances of the database forget the stale claims of a task when
it claims again; the entries of those claims are gone by then.
-/

set_option autoImplicit false

namespace SuiteHarness.Channels

open SuiteHarness.Library SuiteHarness.Persistence

def EventOp.eventId : EventOp → String
  | .claim _ eventId _ => eventId
  | .complete _ eventId _ => eventId
  | .release _ eventId => eventId

def EventOp.durable : EventOp → DedupeOp
  | .claim task eventId now => .claim ⟨0,task,eventId⟩ now
  | .complete task eventId now => .complete ⟨0,task,eventId⟩ now
  | .release task eventId => .release ⟨0,task,eventId⟩

def durableEnv (d : Deduplicator) : DedupeEnv := ⟨fun _ => d,id⟩

def durableStep (d : Deduplicator) (s : DedupeState) (op : EventOp) : DedupeState × DedupeAnswer :=
  s.step (durableEnv d) op.durable

def memoryConfig (d : Deduplicator) : DeduplicatorConfig :=
  ⟨d.ttl,d.processingLease,d.maxEntries⟩

def durableOutcome : DedupeAnswer → Option (Option Bool)
  | .claimed _ => some (some true)
  | .duplicate => some (some false)
  | .completed _ => some none
  | .released _ => some none
  | .purged _ => some none
  | .raised _ => none

inductive SameRows : Option Reservation → Option ProcessingRow → Option CompletedRow → Prop where
  | absent : SameRows none none none
  | pending (expiresAt claimedAt : ℤ) (ownerToken : ℕ) :
      SameRows (some ⟨expiresAt,ownerToken,false⟩) (some ⟨ownerToken,claimedAt,expiresAt⟩) none
  | completed (expiresAt claimedAt : ℤ) (ownerToken : ℕ) :
      SameRows (some ⟨expiresAt,ownerToken,true⟩) none (some ⟨claimedAt,expiresAt⟩)

section SameRows

variable {entry : Option Reservation} {processing : Option ProcessingRow}
  {claim : Option CompletedRow}

theorem SameRows.present (h : SameRows entry processing claim) :
    entry ≠ none ↔ (∃ row, claim = some row) ∨ ∃ row, processing = some row := by
  cases h <;> simp

theorem SameRows.apart {row : ProcessingRow} {row' : CompletedRow}
    (h : SameRows entry (some row) (some row')) : False := by
  cases h

theorem SameRows.row {current : Reservation} (h : SameRows (some current) processing claim)
    (hopen : current.completed = false) :
    claim = none ∧ ∃ claimedAt,
      processing = some ⟨current.ownerToken,claimedAt,current.expiresAt⟩ := by
  cases h with
  | pending expiresAt claimedAt ownerToken => exact ⟨rfl,claimedAt,rfl⟩
  | completed => cases hopen

theorem SameRows.reserved {row : ProcessingRow} (h : SameRows entry (some row) claim) :
    entry = some ⟨row.expiresAtUs,row.ownerToken,false⟩ := by
  cases h with
  | pending => rfl

theorem SameRows.live (h : SameRows entry processing claim) (now : ℤ) :
    SameRows (entry.filter (fun c => decide (now < c.expiresAt)))
      (processing.filter (fun row => decide (now < row.expiresAtUs)))
      (claim.filter (fun row => decide (now < row.expiresAtUs))) := by
  cases h with
  | absent => exact SameRows.absent
  | pending expiresAt claimedAt ownerToken =>
    simp only [Option.filter_some, Option.filter_none]
    split
    · exact SameRows.pending expiresAt claimedAt ownerToken
    · exact SameRows.absent
  | completed expiresAt claimedAt ownerToken =>
    simp only [Option.filter_some, Option.filter_none]
    split
    · exact SameRows.completed expiresAt claimedAt ownerToken
    · exact SameRows.absent

end SameRows

structure Matches (d : Deduplicator) (m : InMemoryEventDeduplicator) (s : DedupeState) : Prop where
  calls : s.drawn = m.calls
  rows : ∀ e, SameRows (m.entries.get? e) (s.processing.get? (d.scope.storageKey,e))
    (s.claims.get? (d.scope.storageKey,e))
  held : ∀ task e token until_, s.owned.get? ⟨0,task,e⟩ = some (token,until_) →
    m.ownedClaims.get? (task,e) = some token ∧ ∀ current, m.entries.get? e = some current →
      current.ownerToken = token → current.expiresAt = until_
  lost : ∀ task e token, m.ownedClaims.get? (task,e) = some token →
    s.owned.get? ⟨0,task,e⟩ = none → ∀ current, m.entries.get? e = some current →
      current.ownerToken ≠ token

def timely (s : InMemoryEventDeduplicator) : EventOp → Bool
  | .complete task eventId now =>
    (s.ownEntry task eventId).all (fun current => decide (now < current.expiresAt))
  | _ => true

variable {d : Deduplicator} {m : InMemoryEventDeduplicator} {s : DedupeState} {task : ℕ}
  {e : String} {now : ℤ} {current : Reservation}

theorem matches_size (h : Matches d m s) : m.entries.size = s.rows d.scope.storageKey := by
  have hmem : ∀ e, e ∈ m.entries.entries.map Prod.fst ↔
      e ∈ s.claims.keysIn d.scope.storageKey ++ s.processing.keysIn d.scope.storageKey := by
    intro e
    have hkey : e ∈ m.entries.entries.map Prod.fst ↔ m.entries.get? e ≠ none := by
      rw [Ne, Dict.get_none, not_not]
    rw [hkey, List.mem_append, Dict.mem_keys_in, Dict.mem_keys_in]
    exact (h.rows e).present
  have hdisjoint : (s.claims.keysIn d.scope.storageKey).Disjoint
      (s.processing.keysIn d.scope.storageKey) := by
    intro e hclaim hprocessing
    obtain ⟨row,hrow⟩ := (Dict.mem_keys_in _ _ e).mp hclaim
    obtain ⟨row',hrow'⟩ := (Dict.mem_keys_in _ _ e).mp hprocessing
    have hsame := h.rows e
    rw [hrow, hrow'] at hsame
    exact hsame.apart
  have hperm := (List.perm_ext_iff_of_nodup m.entries.nodup
    ((Dict.keys_in_nodup _ _).append (Dict.keys_in_nodup _ _) hdisjoint)).mpr hmem
  have hlength := hperm.length_eq
  rw [List.length_map, List.length_append, Dict.keys_in_length, Dict.keys_in_length] at hlength
  exact hlength

theorem matches_drawn (h : Matches d m s) :
    Matches d { m with calls := m.calls+1 } { s with drawn := s.drawn+1 } :=
  ⟨congrArg (·+1) h.calls,h.rows,h.held,h.lost⟩

open InMemoryEventDeduplicator

theorem matches_purged (h : Matches d m s) (hs : Sound (memoryConfig d) m) (now : ℤ) :
    Matches d (m.purgeExpired now) (s.purge d.scope.storageKey now) where
  calls := h.calls
  rows := by
    intro e
    rw [purge_get hs, DedupeState.purge, Dict.get_delete_expired_own, Dict.get_delete_expired_own]
    exact (h.rows e).live now
  held := by
    intro task e token until_ hget
    obtain ⟨hown,hexpiry⟩ := h.held task e token until_ hget
    exact ⟨hown,fun current hcurrent => hexpiry current (purge_get_some hs hcurrent).1⟩
  lost := fun task e token hown hnone current hcurrent =>
    h.lost task e token hown hnone current (purge_get_some hs hcurrent).1

theorem matches_full (h : Matches d m s) (hs : Sound (memoryConfig d) m)
    (hfull : d.maxEntries ≤ (m.purgeExpired now).entries.size) :
    Matches d { m.purgeExpired now with calls := m.calls+1 } { s with drawn := s.drawn+1 } := by
  -- a full map had no entry to purge
  have hsame : (m.purgeExpired now).entries = m.entries :=
    Dict.ext ((pop_expired_sublist m.expirations m.entries).eq_of_length_le
      (hs.bounded.trans hfull))
  refine ⟨congrArg (·+1) h.calls,?_,?_,?_⟩
  · show ∀ e, SameRows ((m.purgeExpired now).entries.get? e) _ _
    rw [hsame]
    exact h.rows
  · show ∀ task e token until_, _ → _ ∧ ∀ current, (m.purgeExpired now).entries.get? e = some current → _
    rw [hsame]
    exact h.held
  · show ∀ task e token, _ → _ → ∀ current, (m.purgeExpired now).entries.get? e = some current → _
    rw [hsame]
    exact h.lost

/-- Both take a free event; the database forgets the stale claims of the task. -/
theorem matches_claimed (h : Matches d m s) (expiresAt : ℤ) (token : ℕ)
    (hunheld : ∀ o held, m.ownedClaims.get? o = some held → held ≠ token)
    (hlive : ∀ e current, m.entries.get? e = some current → now < current.expiresAt)
    (hfree : m.entries.get? e = none) :
    Matches d
      { m with
        entries := m.entries.set e ⟨expiresAt,token,false⟩
        expirations := heappush (expiresAt,e,token) m.expirations
        ownedClaims := m.ownedClaims.set (task,e) token }
      { s with
        processing := s.processing.set (d.scope.storageKey,e) ⟨token,now,expiresAt⟩
        owned := (s.owned.eraseWhere (fun o => decide (o.1.deduplicator = 0) &&
          decide (o.1.task = task) && decide (o.2.2 ≤ now))).set ⟨0,task,e⟩ (token,expiresAt) } where
  calls := h.calls
  rows := by
    intro e'
    have hrows := h.rows e'
    rw [Dict.get_set, Dict.get_set]
    by_cases he : e' = e
    · subst he
      rw [hfree] at hrows
      rw [if_pos rfl, if_pos rfl, show s.claims.get? (d.scope.storageKey,e') = none by
        generalize s.processing.get? (d.scope.storageKey,e') = processing at hrows
        generalize s.claims.get? (d.scope.storageKey,e') = claim at hrows ⊢
        cases hrows
        rfl]
      exact SameRows.pending expiresAt now token
    · rw [if_neg he, if_neg (fun hkey => he (Prod.mk.inj hkey).2)]
      exact hrows
  held := by
    intro task' e' token' until_ hget
    rw [Dict.get_set] at hget
    split at hget
    · rename_i ho
      cases hget
      cases ho
      refine ⟨by rw [Dict.get_set, if_pos rfl],?_⟩
      intro current hcurrent _
      rw [Dict.get_set, if_pos rfl] at hcurrent
      cases hcurrent
      rfl
    · rename_i ho
      rw [Dict.get_erase_where, Option.filter_eq_some_iff] at hget
      obtain ⟨hown,hexpiry⟩ := h.held task' e' token' until_ hget.1
      refine ⟨?_,?_⟩
      · rw [Dict.get_set, if_neg (fun hkey => ho (by cases hkey; rfl))]
        exact hown
      · intro current hcurrent htoken
        rw [Dict.get_set] at hcurrent
        split at hcurrent
        · cases hcurrent
          exact absurd htoken.symm (hunheld _ _ hown)
        · exact hexpiry current hcurrent htoken
  lost := by
    intro task' e' token' hown hnone current hcurrent
    rw [Dict.get_set] at hown hnone hcurrent
    split at hown
    · rename_i ho
      cases ho
      rw [if_pos rfl] at hnone
      cases hnone
    · rename_i ho
      rw [if_neg (fun hkey => ho (by cases hkey; rfl))] at hnone
      split at hcurrent
      · cases hcurrent
        exact (hunheld _ _ hown).symm
      · intro htoken
        rw [Dict.get_erase_where] at hnone
        cases hold : s.owned.get? ⟨0,task',e'⟩ with
        | none => exact h.lost task' e' token' hown hold current hcurrent htoken
        | some claim =>
          -- a forgotten claim is past its lease, so its entry was purged
          obtain ⟨token'',until_⟩ := claim
          obtain ⟨hown',hexpiry⟩ := h.held task' e' token'' until_ hold
          obtain rfl := Option.some.inj (hown.symm.trans hown')
          have hstale : until_ ≤ now := by
            by_contra hlt
            simp [hold, Option.filter, hlt] at hnone
          have := hlive e' current hcurrent
          rw [hexpiry current hcurrent htoken] at this
          omega

theorem durable_claim (s : DedupeState) (task : ℕ) (now : ℤ) (hvalid : validEventId e = true) :
    s.claim (durableEnv d) ⟨0,task,e⟩ now =
      if ((s.purge d.scope.storageKey now).claims.contains (d.scope.storageKey,e) ||
          (s.purge d.scope.storageKey now).processing.contains (d.scope.storageKey,e)) = true then
        ({ s.purge d.scope.storageKey now with drawn := s.drawn+1 },.duplicate)
      else if d.maxEntries ≤ (s.purge d.scope.storageKey now).rows d.scope.storageKey then
        ({ s with drawn := s.drawn+1 },.raised (.capacityError
          "channel deduplication scope has reached its event limit"))
      else
        ({ s.purge d.scope.storageKey now with
          drawn := s.drawn+1
          processing := (s.purge d.scope.storageKey now).processing.set (d.scope.storageKey,e)
            ⟨s.drawn,now,now+d.processingLease⟩
          owned := (s.owned.eraseWhere (fun o => decide (o.1.deduplicator = 0) &&
            decide (o.1.task = task) && decide (o.2.2 ≤ now))).set ⟨0,task,e⟩
              (s.drawn,now+d.processingLease) },.claimed s.drawn) := by
  rw [DedupeState.claim, hvalid]
  rfl

theorem memory_claim (m : InMemoryEventDeduplicator) (task : ℕ) (e : String) (now : ℤ) :
    m.claim (memoryConfig d) task e now =
      if (m.purgeExpired now).entries.contains e = true then
        ({ m.purgeExpired now with calls := m.calls+1 },.ok (some false))
      else if d.maxEntries ≤ (m.purgeExpired now).entries.size then
        ({ m.purgeExpired now with calls := m.calls+1 },
          .error "event deduplication capacity has been reached")
      else
        ({ m.purgeExpired now with
          calls := m.calls+1
          entries := (m.purgeExpired now).entries.set e ⟨now+d.processingLease,m.calls,false⟩
          expirations := heappush (now+d.processingLease,e,m.calls) (m.purgeExpired now).expirations
          ownedClaims := m.ownedClaims.set (task,e) m.calls },.ok (some true)) := rfl

section
variable (h : Matches d m s)
include h

theorem claim_agrees (hs : Sound (memoryConfig d) m) (hvalid : validEventId e = true) :
    (m.claim (memoryConfig d) task e now).2.toOption =
        durableOutcome (s.claim (durableEnv d) ⟨0,task,e⟩ now).2 ∧
      Matches d (m.claim (memoryConfig d) task e now).1
        (s.claim (durableEnv d) ⟨0,task,e⟩ now).1 := by
  have hpurged := matches_drawn (matches_purged h hs now)
  have hcontains : (m.purgeExpired now).entries.contains e = true ↔
      ((s.purge d.scope.storageKey now).claims.contains (d.scope.storageKey,e) ||
        (s.purge d.scope.storageKey now).processing.contains (d.scope.storageKey,e)) = true := by
    rw [Bool.or_eq_true, Dict.contains, Dict.contains, Dict.contains, Option.isSome_iff_exists,
      Option.isSome_iff_exists, Option.isSome_iff_exists, ← Option.ne_none_iff_exists']
    exact (hpurged.rows e).present
  have hsize : (m.purgeExpired now).entries.size =
      (s.purge d.scope.storageKey now).rows d.scope.storageKey :=
    matches_size (matches_purged h hs now)
  rw [memory_claim, durable_claim s task now hvalid]
  by_cases hpresent : (m.purgeExpired now).entries.contains e = true
  · rw [if_pos hpresent, if_pos (hcontains.mp hpresent)]
    exact ⟨rfl,hpurged⟩
  · rw [if_neg hpresent, if_neg (fun hrow => hpresent (hcontains.mpr hrow))]
    by_cases hfull : d.maxEntries ≤ (m.purgeExpired now).entries.size
    · rw [if_pos hfull, if_pos (hfull.trans hsize.le)]
      exact ⟨rfl,matches_full h hs hfull⟩
    · rw [if_neg hfull, if_neg (fun hrows => hfull (hrows.trans hsize.ge)), h.calls]
      rw [show (s.purge d.scope.storageKey now).drawn = m.calls from h.calls] at hpurged
      refine ⟨rfl,matches_claimed hpurged _ m.calls ?_ ?_ ?_⟩
      · exact fun o held hheld => (hs.drawnOwner o held hheld).ne
      · exact fun e' current hcurrent => (purge_get_some hs hcurrent).2
      · rw [Dict.contains, Bool.not_eq_true, Option.isSome_eq_false_iff,
          Option.isNone_iff_eq_none] at hpresent
        exact hpresent

/-- The claim of a task that holds the token of an open entry. -/
theorem own_claim (hs : Sound (memoryConfig d) m) (hown : m.ownEntry task e = some current) :
    (∃ until_, s.owned.get? ⟨0,task,e⟩ = some (current.ownerToken,until_)) ∧
      s.claims.get? (d.scope.storageKey,e) = none ∧
      ∃ claimedAt, s.processing.get? (d.scope.storageKey,e) =
        some ⟨current.ownerToken,claimedAt,current.expiresAt⟩ := by
  obtain ⟨hget,htoken⟩ := own_entry_some hown
  have hopen : current.completed = false := by
    by_contra hdone
    exact hs.settled e current hget (Bool.not_eq_false _ ▸ hdone) _ htoken
  have hrows := h.rows e
  rw [hget] at hrows
  refine ⟨?_,hrows.row hopen⟩
  cases hclaim : s.owned.get? ⟨0,task,e⟩ with
  | none => exact absurd rfl (h.lost task e _ htoken hclaim current hget)
  | some claim =>
    have hheld := (h.held task e claim.1 claim.2 hclaim).1
    rw [htoken] at hheld
    exact ⟨claim.2,by rw [Option.some.inj hheld]⟩

/-- A task without an own entry has no row under its token. -/
theorem no_own_row (hown : m.ownEntry task e = none) (claim : ℕ × ℤ)
    (row : ProcessingRow) (hclaim : s.owned.get? ⟨0,task,e⟩ = some claim)
    (hrow : s.processing.get? (d.scope.storageKey,e) = some row) : row.ownerToken ≠ claim.1 := by
  intro htoken
  have hrows := h.rows e
  rw [hrow] at hrows
  have hheld := (h.held task e claim.1 claim.2 hclaim).1
  rw [ownEntry, hrows.reserved, Option.filter_some, if_pos (decide_eq_true (by
    rw [hheld, htoken]))] at hown
  cases hown

theorem matches_completed (hs : Sound (memoryConfig d) m)
    (hown : m.ownEntry task e = some current) (expiresAt : ℤ) :
    Matches d
      { m with
        entries := m.entries.set e ⟨expiresAt,current.ownerToken,true⟩
        expirations := heappush (expiresAt,e,current.ownerToken) m.expirations
        ownedClaims := m.ownedClaims.erase (task,e) }
      { s with
        processing := s.processing.erase (d.scope.storageKey,e)
        claims := s.claims.set (d.scope.storageKey,e) ⟨now,expiresAt⟩
        owned := s.owned.erase ⟨0,task,e⟩ } where
  calls := h.calls
  rows := by
    intro e'
    rw [Dict.get_set, Dict.get_set, Dict.get_erase]
    by_cases he : e' = e
    · subst he
      rw [if_pos rfl, if_pos rfl, if_pos rfl]
      exact SameRows.completed expiresAt now current.ownerToken
    · have hkey : (d.scope.storageKey,e') ≠ (d.scope.storageKey,e) :=
        fun hkey => he (Prod.mk.inj hkey).2
      rw [if_neg he, if_neg hkey, if_neg hkey]
      exact h.rows e'
  held := by
    intro task' e' token until_ hget
    rw [Dict.get_erase] at hget
    split at hget
    · cases hget
    · rename_i ho
      have hother : (task',e') ≠ (task,e) := fun hkey => ho (by cases hkey; rfl)
      obtain ⟨hheld,hexpiry⟩ := h.held task' e' token until_ hget
      refine ⟨by rw [Dict.get_erase, if_neg hother]; exact hheld,?_⟩
      intro other hget' htoken
      rw [Dict.get_set] at hget'
      split at hget'
      · -- the completed token belonged to the completing task
        cases hget'
        rw [← htoken] at hheld
        exact absurd (hs.oneOwner _ _ _ hheld (own_entry_some hown).2) hother
      · exact hexpiry other hget' htoken
  lost := by
    intro task' e' token hheld hnone other hget'
    rw [Dict.get_erase] at hheld hnone
    split at hheld
    · cases hheld
    · rename_i hother
      rw [if_neg (fun hkey => hother (by cases hkey; rfl))] at hnone
      rw [Dict.get_set] at hget'
      split at hget'
      · cases hget'
        intro htoken
        rw [← htoken] at hheld
        exact hother (hs.oneOwner _ _ _ hheld (own_entry_some hown).2)
      · exact h.lost task' e' token hheld hnone other hget'

/-- A completion is answered alike exactly when it is timely. -/
theorem complete_agrees (hs : Sound (memoryConfig d) m) (hvalid : validEventId e = true) :
    ((m.complete (memoryConfig d) task e now).2.toOption =
        durableOutcome (s.complete (durableEnv d) ⟨0,task,e⟩ now).2 ↔
      timely m (.complete task e now) = true) ∧
    (timely m (.complete task e now) = true →
      Matches d (m.complete (memoryConfig d) task e now).1
        (s.complete (durableEnv d) ⟨0,task,e⟩ now).1) := by
  rw [DedupeState.complete, if_neg (show ¬(!validEventId e) = true by rw [hvalid]; decide)]
  cases hown : m.ownEntry task e with
  | none =>
    have hlate : timely m (.complete task e now) = true := by rw [timely, hown]; rfl
    rw [complete, hown]
    cases hclaim : s.owned.get? ⟨0,task,e⟩ with
    | none => exact ⟨iff_of_true rfl hlate,fun _ => h⟩
    | some claim =>
      cases hrow : s.processing.get? (d.scope.storageKey,e) with
      | none =>
        simp only [DedupeState.keyOf, DedupeState.scopeOf, durableEnv, hrow]
        exact ⟨iff_of_true rfl hlate,fun _ => h⟩
      | some row =>
        have hne := no_own_row h hown claim row hclaim hrow
        simp only [DedupeState.keyOf, DedupeState.scopeOf, durableEnv, hrow, hne, false_and,
          if_false]
        exact ⟨iff_of_true rfl hlate,fun _ => h⟩
  | some current =>
    obtain ⟨⟨until_,hclaim⟩,habsent,claimedAt,hrow⟩ := own_claim h hs hown
    have htimely : timely m (.complete task e now) = true ↔ now < current.expiresAt := by
      rw [timely, hown, Option.all_some, decide_eq_true_eq]
    rw [complete, hown, hclaim, htimely]
    simp only [DedupeState.keyOf, DedupeState.scopeOf, durableEnv, hrow, true_and, id,
      Dict.contains, habsent, Option.isSome_none, Bool.false_eq_true, if_false]
    by_cases hlive : now < current.expiresAt
    · rw [if_pos hlive]
      exact ⟨iff_of_true rfl hlive,fun _ => matches_completed h hs hown _⟩
    · rw [if_neg hlive]
      exact ⟨iff_of_false (fun he => by cases he) hlive,fun hpos => absurd hpos hlive⟩

theorem matches_released (entries : Dict String Reservation)
    (processing : Dict (StorageKey × String) ProcessingRow) (owned : Dict ClaimOwner (ℕ × ℤ))
    (hkept : ∀ e' current, entries.get? e' = some current → m.entries.get? e' = some current)
    (hrows : ∀ e', SameRows (entries.get? e') (processing.get? (d.scope.storageKey,e'))
      (s.claims.get? (d.scope.storageKey,e')))
    (howned : ∀ o, owned.get? o = if o = ⟨0,task,e⟩ then none else s.owned.get? o) :
    Matches d { m with entries := entries, ownedClaims := m.ownedClaims.erase (task,e) }
      { s with processing := processing, owned := owned } where
  calls := h.calls
  rows := hrows
  held := by
    intro task' e' token until_ hget
    rw [howned] at hget
    split at hget
    · cases hget
    · rename_i ho
      obtain ⟨hheld,hexpiry⟩ := h.held task' e' token until_ hget
      refine ⟨?_,fun current hcurrent => hexpiry current (hkept e' current hcurrent)⟩
      rw [Dict.get_erase, if_neg (fun hkey => ho (by cases hkey; rfl))]
      exact hheld
  lost := by
    intro task' e' token hheld hnone current hcurrent
    rw [Dict.get_erase] at hheld
    rw [howned] at hnone
    split at hheld
    · cases hheld
    · rename_i hother
      rw [if_neg (fun hkey => hother (by cases hkey; rfl))] at hnone
      exact h.lost task' e' token hheld hnone current (hkept e' current hcurrent)

variable (hs : Sound (memoryConfig d) m)
include hs

theorem released_rows (claim : ℕ × ℤ)
    (hclaim : s.owned.get? ⟨0,task,e⟩ = some claim) (e' : String) :
    SameRows
      ((if (m.ownEntry task e).isSome then m.entries.erase e else m.entries).get? e')
      ((s.processing.eraseWhere (fun row => decide (row.1 = (d.scope.storageKey,e)) &&
        decide (row.2.ownerToken = claim.1))).get? (d.scope.storageKey,e'))
      (s.claims.get? (d.scope.storageKey,e')) := by
  rw [Dict.get_erase_where]
  cases hown : m.ownEntry task e with
  | none =>
    have hstays : (s.processing.get? (d.scope.storageKey,e')).filter (fun row =>
        !(decide ((d.scope.storageKey,e') = (d.scope.storageKey,e)) &&
          decide (row.ownerToken = claim.1))) = s.processing.get? (d.scope.storageKey,e') := by
      cases hrow : s.processing.get? (d.scope.storageKey,e') with
      | none => rfl
      | some row =>
        by_cases he : e' = e
        · subst he
          have hne := no_own_row h hown claim row hclaim hrow
          simp [Option.filter, hne]
        · simp [Option.filter, he]
    rw [hstays]
    exact h.rows e'
  | some current =>
    obtain ⟨⟨until_,hclaim'⟩,habsent,claimedAt,hrow⟩ := own_claim h hs hown
    rw [Option.isSome_some, if_pos rfl, Dict.get_erase]
    by_cases he : e' = e
    · subst he
      rw [hclaim] at hclaim'
      cases hclaim'
      rw [if_pos rfl, hrow, habsent]
      simp only [Option.filter_some, decide_true, Bool.and_self, Bool.not_true,
        Bool.false_eq_true, if_false]
      exact SameRows.absent
    · have hrows := h.rows e'
      rw [if_neg he]
      cases hother : s.processing.get? (d.scope.storageKey,e') with
      | none =>
        rw [hother] at hrows
        exact hrows
      | some row =>
        rw [hother] at hrows
        simpa [Option.filter, he] using hrows

theorem release_agrees (hvalid : validEventId e = true) :
    (m.release task e).2.toOption =
        durableOutcome (s.release (durableEnv d) ⟨0,task,e⟩).2 ∧
      Matches d (m.release task e).1 (s.release (durableEnv d) ⟨0,task,e⟩).1 := by
  rw [DedupeState.release, if_neg (show ¬(!validEventId e) = true by rw [hvalid]; decide), release]
  cases hclaim : s.owned.get? ⟨0,task,e⟩ with
  | none =>
    have hown : m.ownEntry task e = none := by
      cases hown : m.ownEntry task e with
      | none => rfl
      | some current =>
        obtain ⟨until_,hheld⟩ := (own_claim h hs hown).1
        rw [hclaim] at hheld
        cases hheld
    rw [hown]
    refine ⟨rfl,matches_released h m.entries s.processing s.owned (fun _ _ hget => hget) h.rows ?_⟩
    intro o
    split
    · rename_i ho
      rw [ho, hclaim]
    · rfl
  | some claim =>
    refine ⟨rfl,matches_released h _ _ _ ?_ (released_rows h hs claim hclaim)
      (fun o => Dict.get_erase _ _ _)⟩
    intro e' current hget
    split at hget
    · rw [Dict.get_erase] at hget
      split at hget
      · cases hget
      · exact hget
    · exact hget

theorem step_agrees (op : EventOp) (hvalid : validEventId op.eventId = true) :
    ((m.step (memoryConfig d) op).2.toOption = durableOutcome (durableStep d s op).2 ↔
      timely m op = true) ∧
    (timely m op = true → Matches d (m.step (memoryConfig d) op).1 (durableStep d s op).1) := by
  cases op with
  | claim task e now =>
    obtain ⟨hanswer,hnext⟩ := claim_agrees h hs hvalid
    exact ⟨iff_of_true hanswer rfl,fun _ => hnext⟩
  | complete task e now => exact complete_agrees h hs hvalid
  | release task e =>
    obtain ⟨hanswer,hnext⟩ := release_agrees h hs hvalid
    exact ⟨iff_of_true hanswer rfl,fun _ => hnext⟩

end

theorem matches_empty (d : Deduplicator) : Matches d {} {} where
  calls := rfl
  rows := fun _ => SameRows.absent
  held := nofun
  lost := nofun

/-- The answers of a run whose completions are timely, and of one more call. -/
theorem deduplicators_agree (d : Deduplicator) (ops : List EventOp) (op : EventOp)
    (hvalid : ∀ o ∈ op::ops, validEventId o.eventId = true)
    (htimely : Machine.along (step (memoryConfig d)) timely {} ops = true) :
    List.Forall₂ (fun a b => a.1 = b.1 ∧ a.2.toOption = durableOutcome b.2)
      (Machine.trace (step (memoryConfig d)) {} ops) (Machine.trace (durableStep d) {} ops) ∧
    ((step (memoryConfig d) (Machine.final (step (memoryConfig d)) {} ops) op).2.toOption =
        durableOutcome (durableStep d (Machine.final (durableStep d) {} ops) op).2 ↔
      timely (Machine.final (step (memoryConfig d)) {} ops) op = true) := by
  let R (m : InMemoryEventDeduplicator) (s : DedupeState) (rest : List EventOp) : Prop :=
    Matches d m s ∧ Sound (memoryConfig d) m ∧ (∀ o ∈ rest, validEventId o.eventId = true) ∧
      Machine.along (step (memoryConfig d)) timely m rest = true
  have hstart : R {} {} ops := ⟨matches_empty d,empty_sound _,
    fun o ho => hvalid o (List.mem_cons_of_mem _ ho),htimely⟩
  have hstep : ∀ m s o rest, R m s (o::rest) →
      (m.step (memoryConfig d) o).2.toOption = durableOutcome (durableStep d s o).2 ∧
        R (m.step (memoryConfig d) o).1 (durableStep d s o).1 rest := by
    rintro m s o rest ⟨hm,hs,hids,hrest⟩
    rw [Machine.along, Bool.and_eq_true] at hrest
    obtain ⟨hanswer,hnext⟩ := step_agrees hm hs o (hids o List.mem_cons_self)
    exact ⟨hanswer.mpr hrest.1,hnext hrest.1,moved_sound hs (step_moved m o),
      fun o' ho' => hids o' (List.mem_cons_of_mem _ ho'),hrest.2⟩
  have hend := Machine.final_simulation _ _ R (fun m s o rest h => (hstep m s o rest h).2) _ _ ops
    hstart
  exact ⟨Machine.trace_simulation _ _ R
    (fun a b => Except.toOption a = durableOutcome b) hstep _ _ ops hstart,
    (step_agrees hend.1 hend.2.1 op (hvalid op List.mem_cons_self)).1⟩

def shortLease : Deduplicator :=
  ⟨.deployment ⟨"main",by decide +kernel⟩ ⟨"feishu",by decide +kernel⟩,100,10,4⟩

theorem timely_completion_agrees :
    (step (memoryConfig shortLease)
        (Machine.final (step (memoryConfig shortLease)) {} [.claim 0 "e" 0]) (.complete 0 "e" 9)).2.toOption =
      durableOutcome (durableStep shortLease
        (Machine.final (durableStep shortLease) {} [.claim 0 "e" 0]) (.complete 0 "e" 9)).2 :=
  (deduplicators_agree shortLease [.claim 0 "e" 0] (.complete 0 "e" 9) (by decide +kernel)
    (by decide +kernel)).2.mpr (by decide +kernel)

/-- The owner completes at the end of its lease: the one returns, the other raises. -/
theorem late_completion_differs :
    (step (memoryConfig shortLease)
        (Machine.final (step (memoryConfig shortLease)) {} [.claim 0 "e" 0]) (.complete 0 "e" 10)).2.toOption =
      some none ∧
    durableOutcome (durableStep shortLease
        (Machine.final (durableStep shortLease) {} [.claim 0 "e" 0]) (.complete 0 "e" 10)).2 = none := by
  decide +kernel

end SuiteHarness.Channels
