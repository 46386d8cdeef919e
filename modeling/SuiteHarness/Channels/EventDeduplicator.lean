import SuiteHarness.Library.Dict
import SuiteHarness.Library.Machine

/-!
# The in-process event deduplicator

`InMemoryEventDeduplicator` of the Feishu processor: a map of reservations and a
heap of expiry records that is only cleaned by claims. The heap is the list of
its records by expiry. Records of one expiry are popped by the same purge, so
their order does not matter. A token is named by the claim call that draws it.
-/

set_option autoImplicit false

namespace SuiteHarness.Channels

open SuiteHarness.Library

structure DeduplicatorConfig where
  ttl : ℤ
  processingLease : ℤ
  maximum : ℕ

structure Reservation where
  expiresAt : ℤ
  ownerToken : ℕ
  completed : Bool
  deriving DecidableEq

abbrev ExpiryRecord := ℤ × String × ℕ

structure InMemoryEventDeduplicator where
  entries : Dict String Reservation := Dict.empty
  expirations : List ExpiryRecord := []
  /-- The token a task holds for an event. -/
  ownedClaims : Dict (ℕ × String) ℕ := Dict.empty
  calls : ℕ := 0

inductive EventOp where
  | claim (task : ℕ) (eventId : String) (now : ℤ)
  | complete (task : ℕ) (eventId : String) (now : ℤ)
  | release (task : ℕ) (eventId : String)
  deriving DecidableEq

abbrev EventAnswer := Except String (Option Bool)

def heappush (record : ExpiryRecord) (heap : List ExpiryRecord) : List ExpiryRecord :=
  heap.orderedInsert (fun a b => a.1 ≤ b.1) record

def popExpired (now : ℤ) : List ExpiryRecord → Dict String Reservation →
    List ExpiryRecord × Dict String Reservation
  | [], entries => ([],entries)
  | (expiresAt,eventId,ownerToken)::rest, entries =>
    if expiresAt ≤ now then
      popExpired now rest
        (if (entries.get? eventId).any (fun current =>
          decide (current.expiresAt = expiresAt ∧ current.ownerToken = ownerToken)) then
            entries.erase eventId
          else entries)
    else ((expiresAt,eventId,ownerToken)::rest,entries)

namespace InMemoryEventDeduplicator

variable (config : DeduplicatorConfig) (s : InMemoryEventDeduplicator)

def purgeExpired (now : ℤ) : InMemoryEventDeduplicator :=
  { s with
    entries := (popExpired now s.expirations s.entries).2
    expirations := (popExpired now s.expirations s.entries).1 }

def ownEntry (task : ℕ) (eventId : String) : Option Reservation :=
  (s.entries.get? eventId).filter (fun current =>
    decide (s.ownedClaims.get? (task,eventId) = some current.ownerToken))

def claim (task : ℕ) (eventId : String) (now : ℤ) : InMemoryEventDeduplicator × EventAnswer :=
  let purged := { s.purgeExpired now with calls := s.calls+1 }
  if purged.entries.contains eventId then (purged,.ok (some false))
  else if config.maximum ≤ purged.entries.size then
    (purged,.error "event deduplication capacity has been reached")
  else
    let expiresAt := now+config.processingLease
    ({ purged with
      entries := purged.entries.set eventId ⟨expiresAt,s.calls,false⟩
      expirations := heappush (expiresAt,eventId,s.calls) purged.expirations
      ownedClaims := purged.ownedClaims.set (task,eventId) s.calls },.ok (some true))

def complete (task : ℕ) (eventId : String) (now : ℤ) : InMemoryEventDeduplicator × EventAnswer :=
  match s.ownEntry task eventId with
  | none => (s,.error "event claim ownership expired before completion")
  | some current =>
    let expiresAt := now+config.ttl
    ({ s with
      entries := s.entries.set eventId ⟨expiresAt,current.ownerToken,true⟩
      expirations := heappush (expiresAt,eventId,current.ownerToken) s.expirations
      ownedClaims := s.ownedClaims.erase (task,eventId) },.ok none)

def release (task : ℕ) (eventId : String) : InMemoryEventDeduplicator × EventAnswer :=
  -- the heap keeps the record of the entry
  ({ s with
    entries := if (s.ownEntry task eventId).isSome then s.entries.erase eventId else s.entries
    ownedClaims := s.ownedClaims.erase (task,eventId) },.ok none)

def step :
    EventOp → InMemoryEventDeduplicator × EventAnswer
  | .claim task eventId now => s.claim config task eventId now
  | .complete task eventId now => s.complete config task eventId now
  | .release task eventId => s.release task eventId

end InMemoryEventDeduplicator

/-! Purging a heap in which every entry has its record. -/

theorem mem_heappush (record other : ExpiryRecord) (heap : List ExpiryRecord) :
    other ∈ heappush record heap ↔ other = record ∨ other ∈ heap :=
  List.mem_orderedInsert _

theorem sorted_heappush (record : ExpiryRecord) (heap : List ExpiryRecord)
    (h : heap.Pairwise (fun a b => a.1 ≤ b.1)) :
    (heappush record heap).Pairwise (fun a b => a.1 ≤ b.1) := by
  induction heap with
  | nil => exact List.pairwise_singleton _ _
  | cons first rest ih =>
    rw [List.pairwise_cons] at h
    rw [heappush, List.orderedInsert]
    split
    · rename_i hle
      apply List.Pairwise.cons _ (List.Pairwise.cons h.1 h.2)
      intro other hother
      rcases List.mem_cons.mp hother with rfl | hrest
      · exact hle
      · exact hle.trans (h.1 other hrest)
    · rename_i hlt
      apply List.Pairwise.cons _ (ih h.2)
      intro other hother
      rcases (mem_heappush record other rest).mp hother with rfl | hrest
      · exact (not_le.mp hlt).le
      · exact h.1 other hrest

variable {now : ℤ}

theorem pop_expired_heap (heap : List ExpiryRecord) (entries : Dict String Reservation)
    (h : heap.Pairwise (fun a b => a.1 ≤ b.1)) :
    (popExpired now heap entries).1 = heap.filter (fun r => decide (now < r.1)) := by
  induction heap generalizing entries with
  | nil => rfl
  | cons first rest ih =>
    rw [List.pairwise_cons] at h
    by_cases hdue : first.1 ≤ now
    · rw [popExpired, if_pos hdue, ih _ h.2, List.filter_cons_of_neg (by simpa using hdue)]
    · have hlive : ∀ r ∈ first::rest, decide (now < r.1) = true := by
        intro r hr
        rw [decide_eq_true_eq]
        rcases List.mem_cons.mp hr with rfl | hrest
        · exact not_le.mp hdue
        · exact (not_le.mp hdue).trans_le (h.1 r hrest)
      rw [popExpired, if_neg hdue, List.filter_eq_self.mpr hlive]

theorem pop_expired_get (heap : List ExpiryRecord) (entries : Dict String Reservation)
    (eventId : String) (h : heap.Pairwise (fun a b => a.1 ≤ b.1)) :
    (popExpired now heap entries).2.get? eventId = (entries.get? eventId).filter (fun current =>
      !decide (current.expiresAt ≤ now ∧ (current.expiresAt,eventId,current.ownerToken) ∈ heap)) := by
  induction heap generalizing entries with
  | nil => cases hget : entries.get? eventId <;> simp [popExpired, hget, Option.filter]
  | cons first rest ih =>
    obtain ⟨expiresAt,other,ownerToken⟩ := first
    rw [List.pairwise_cons] at h
    by_cases hdue : expiresAt ≤ now
    · rw [popExpired, if_pos hdue, ih _ h.2]
      by_cases hevent : eventId = other
      · subst hevent
        cases hget : entries.get? eventId with
        | none => simp [hget]
        | some current =>
          by_cases hown : current.expiresAt = expiresAt ∧ current.ownerToken = ownerToken
          · obtain ⟨rfl,rfl⟩ := hown
            simp [Option.filter, hdue]
          · rw [Option.any_some, decide_eq_false hown, if_neg Bool.false_ne_true, hget]
            simp only [Option.filter_some, List.mem_cons, Prod.mk.injEq, true_and, hown, false_or]
      · have hkeep : ((if (entries.get? other).any (fun current =>
            decide (current.expiresAt = expiresAt ∧ current.ownerToken = ownerToken)) then
              entries.erase other else entries).get? eventId) = entries.get? eventId := by
          split
          · rw [Dict.get_erase, if_neg hevent]
          · rfl
        rw [hkeep]
        simp [hevent]
    · have hlive : ∀ r ∈ (expiresAt,other,ownerToken)::rest, ¬r.1 ≤ now := by
        intro r hr
        rcases List.mem_cons.mp hr with rfl | hrest
        · exact hdue
        · exact not_le.mpr ((not_le.mp hdue).trans_le (h.1 r hrest))
      rw [popExpired, if_neg hdue]
      cases hget : entries.get? eventId with
      | none => rfl
      | some current =>
        symm
        apply Option.filter_eq_some_iff.mpr
        refine ⟨rfl,?_⟩
        rw [Bool.not_eq_true', decide_eq_false_iff_not]
        intro hboth
        exact hlive _ hboth.2 hboth.1

namespace InMemoryEventDeduplicator

structure Sound (config : DeduplicatorConfig) (s : InMemoryEventDeduplicator) : Prop where
  sorted : s.expirations.Pairwise (fun a b => a.1 ≤ b.1)
  recorded : ∀ eventId current, s.entries.get? eventId = some current →
    (current.expiresAt,eventId,current.ownerToken) ∈ s.expirations
  bounded : s.entries.size ≤ config.maximum
  drawnEntry : ∀ eventId current, s.entries.get? eventId = some current →
    current.ownerToken < s.calls
  drawnOwner : ∀ owner token, s.ownedClaims.get? owner = some token → token < s.calls
  oneOwner : ∀ owner owner' token, s.ownedClaims.get? owner = some token →
    s.ownedClaims.get? owner' = some token → owner = owner'
  settled : ∀ eventId current, s.entries.get? eventId = some current →
    current.completed = true → ∀ owner, s.ownedClaims.get? owner ≠ some current.ownerToken

variable {config : DeduplicatorConfig} {s t : InMemoryEventDeduplicator} {op : EventOp}
  {task : ℕ} {eventId : String} {current : Reservation}

theorem purge_get (h : Sound config s) (now : ℤ) (eventId : String) :
    (s.purgeExpired now).entries.get? eventId =
      (s.entries.get? eventId).filter (fun current => decide (now < current.expiresAt)) := by
  rw [purgeExpired, pop_expired_get _ _ _ h.sorted]
  cases hget : s.entries.get? eventId with
  | none => rfl
  | some current =>
    have hmem := h.recorded eventId current hget
    simp [Option.filter, hmem]

theorem purge_get_some (h : Sound config s)
    (hget : (s.purgeExpired now).entries.get? eventId = some current) :
    s.entries.get? eventId = some current ∧ now < current.expiresAt := by
  rw [purge_get h, Option.filter_eq_some_iff, decide_eq_true_eq] at hget
  exact hget

theorem pop_expired_sublist (heap : List ExpiryRecord) (entries : Dict String Reservation) :
    (popExpired now heap entries).2.entries.Sublist entries.entries := by
  induction heap generalizing entries with
  | nil => exact List.Sublist.refl _
  | cons first rest ih =>
    obtain ⟨expiresAt,other,ownerToken⟩ := first
    rw [popExpired]
    split
    · apply (ih _).trans
      split
      · exact List.filter_sublist
      · exact List.Sublist.refl _
    · exact List.Sublist.refl _

theorem purge_size (s : InMemoryEventDeduplicator) (now : ℤ) :
    (s.purgeExpired now).entries.size ≤ s.entries.size :=
  (pop_expired_sublist s.expirations s.entries).length_le

inductive Moved (config : DeduplicatorConfig) (s : InMemoryEventDeduplicator) :
    EventOp → InMemoryEventDeduplicator → Prop where
  | refused (task : ℕ) (eventId : String) (now : ℤ) :
      Moved config s (.complete task eventId now) s
  | purged (task : ℕ) (eventId : String) (now : ℤ) :
      Moved config s (.claim task eventId now) { s.purgeExpired now with calls := s.calls+1 }
  | claimed (task : ℕ) (eventId : String) (now : ℤ)
      (hfree : (s.purgeExpired now).entries.get? eventId = none)
      (hroom : (s.purgeExpired now).entries.size < config.maximum) :
      Moved config s (.claim task eventId now)
        ⟨(s.purgeExpired now).entries.set eventId ⟨now+config.processingLease,s.calls,false⟩,
          heappush (now+config.processingLease,eventId,s.calls) (s.purgeExpired now).expirations,
          s.ownedClaims.set (task,eventId) s.calls,s.calls+1⟩
  | completed (task : ℕ) (eventId : String) (now : ℤ) (current : Reservation)
      (hget : s.entries.get? eventId = some current)
      (hown : s.ownedClaims.get? (task,eventId) = some current.ownerToken) :
      Moved config s (.complete task eventId now)
        { s with
          entries := s.entries.set eventId ⟨now+config.ttl,current.ownerToken,true⟩
          expirations := heappush (now+config.ttl,eventId,current.ownerToken) s.expirations
          ownedClaims := s.ownedClaims.erase (task,eventId) }
  | released (task : ℕ) (eventId : String) (current : Reservation)
      (hown : s.ownEntry task eventId = some current) :
      Moved config s (.release task eventId)
        { s with
          entries := s.entries.erase eventId
          ownedClaims := s.ownedClaims.erase (task,eventId) }
  | forgotten (task : ℕ) (eventId : String) :
      Moved config s (.release task eventId)
        { s with ownedClaims := s.ownedClaims.erase (task,eventId) }

theorem own_entry_some (h : s.ownEntry task eventId = some current) :
    s.entries.get? eventId = some current ∧
      s.ownedClaims.get? (task,eventId) = some current.ownerToken := by
  rw [ownEntry, Option.filter_eq_some_iff, decide_eq_true_eq] at h
  exact h

theorem step_moved (s : InMemoryEventDeduplicator) (op : EventOp) :
    Moved config s op (s.step config op).1 := by
  cases op with
  | claim task eventId now =>
    simp only [step, claim]
    split
    · exact Moved.purged task eventId now
    · rename_i hfree
      split
      · exact Moved.purged task eventId now
      · rename_i hroom
        rw [Dict.contains, Bool.not_eq_true, Option.isSome_eq_false_iff,
          Option.isNone_iff_eq_none] at hfree
        exact Moved.claimed task eventId now hfree (not_le.mp hroom)
  | complete task eventId now =>
    simp only [step, complete]
    split
    · exact Moved.refused task eventId now
    · rename_i current hown
      obtain ⟨hget,htoken⟩ := own_entry_some hown
      exact Moved.completed task eventId now current hget htoken
  | release task eventId =>
    simp only [step, release]
    cases hown : s.ownEntry task eventId with
    | none => exact Moved.forgotten task eventId
    | some current => exact Moved.released task eventId current hown

section
variable (h : Sound config s)
include h

theorem purge_sound (now : ℤ) :
    Sound config { s.purgeExpired now with calls := s.calls+1 } where
  sorted := by
    show (popExpired now s.expirations s.entries).1.Pairwise _
    rw [pop_expired_heap _ _ h.sorted]
    exact h.sorted.filter _
  recorded := by
    intro eventId current hget
    obtain ⟨hold,hlive⟩ := purge_get_some h hget
    show _ ∈ (popExpired now s.expirations s.entries).1
    rw [pop_expired_heap _ _ h.sorted, List.mem_filter, decide_eq_true_eq]
    exact ⟨h.recorded eventId current hold,hlive⟩
  bounded := (purge_size s now).trans h.bounded
  drawnEntry := by
    intro eventId current hget
    exact Nat.lt_succ_of_lt (h.drawnEntry eventId current (purge_get_some h hget).1)
  drawnOwner := fun owner token hget => Nat.lt_succ_of_lt (h.drawnOwner owner token hget)
  oneOwner := h.oneOwner
  settled := fun eventId current hget => h.settled eventId current (purge_get_some h hget).1

/-- The reservations of a state whose owners lost a claim. -/
theorem forget_sound (entries : Dict String Reservation) (owner : ℕ × String)
    (hsize : entries.size ≤ config.maximum)
    (hget : ∀ eventId current, entries.get? eventId = some current →
      s.entries.get? eventId = some current) :
    Sound config { s with entries := entries, ownedClaims := s.ownedClaims.erase owner } := by
  have howned : ∀ o token, (s.ownedClaims.erase owner).get? o = some token →
      s.ownedClaims.get? o = some token := by
    intro o token ho
    rw [Dict.get_erase] at ho
    split at ho
    · cases ho
    · exact ho
  exact {
    sorted := h.sorted
    recorded := fun e c hc => h.recorded e c (hget e c hc)
    bounded := hsize
    drawnEntry := fun e c hc => h.drawnEntry e c (hget e c hc)
    drawnOwner := fun o token ho => h.drawnOwner o token (howned o token ho)
    oneOwner := fun o o' token ho ho' =>
      h.oneOwner o o' token (howned o token ho) (howned o' token ho')
    settled := fun e c hc hdone o ho => h.settled e c (hget e c hc) hdone o (howned o _ ho) }

theorem claimed_sound (task : ℕ) (eventId : String) (expiresAt : ℤ) (token : ℕ)
    (hcalls : s.calls = token+1) (hfresh : ∀ e c, s.entries.get? e = some c → c.ownerToken ≠ token)
    (hunheld : ∀ o, s.ownedClaims.get? o ≠ some token)
    (hfree : s.entries.get? eventId = none) (hroom : s.entries.size < config.maximum) :
    Sound config { s with
      entries := s.entries.set eventId ⟨expiresAt,token,false⟩
      expirations := heappush (expiresAt,eventId,token) s.expirations
      ownedClaims := s.ownedClaims.set (task,eventId) token } where
  sorted := sorted_heappush _ _ h.sorted
  recorded := by
    intro e c hget
    rw [mem_heappush]
    rw [Dict.get_set] at hget
    split at hget
    · rename_i he
      cases hget
      exact Or.inl (by rw [he])
    · exact Or.inr (h.recorded e c hget)
  bounded := by
    show (s.entries.set eventId _).size ≤ _
    rw [Dict.size_set_absent _ _ _ hfree]
    exact hroom
  drawnEntry := by
    intro e c hget
    rw [Dict.get_set] at hget
    split at hget
    · cases hget
      show token < s.calls
      omega
    · exact h.drawnEntry e c hget
  drawnOwner := by
    intro o held hget
    rw [Dict.get_set] at hget
    split at hget
    · cases hget
      show token < s.calls
      omega
    · exact h.drawnOwner o held hget
  oneOwner := by
    intro o o' held hget hget'
    rw [Dict.get_set] at hget hget'
    split at hget
    · rename_i ho
      cases hget
      split at hget'
      · rename_i ho'
        rw [ho, ho']
      · exact absurd hget' (hunheld o')
    · split at hget'
      · cases hget'
        exact absurd hget (hunheld o)
      · exact h.oneOwner o o' held hget hget'
  settled := by
    intro e c hget hdone o ho
    rw [Dict.get_set] at hget ho
    split at hget
    · cases hget
      cases hdone
    · split at ho
      · exact hfresh e c hget (Option.some.inj ho).symm
      · exact h.settled e c hget hdone o ho

theorem completed_sound (expiresAt : ℤ) (hget : s.entries.get? eventId = some current)
    (hown : s.ownedClaims.get? (task,eventId) = some current.ownerToken) :
    Sound config { s with
      entries := s.entries.set eventId ⟨expiresAt,current.ownerToken,true⟩
      expirations := heappush (expiresAt,eventId,current.ownerToken) s.expirations
      ownedClaims := s.ownedClaims.erase (task,eventId) } := by
  have howned : ∀ o token, (s.ownedClaims.erase (task,eventId)).get? o = some token →
      o ≠ (task,eventId) ∧ s.ownedClaims.get? o = some token := by
    intro o token ho
    rw [Dict.get_erase] at ho
    split at ho
    · cases ho
    · rename_i hne
      exact ⟨hne,ho⟩
  constructor
  case sorted => exact sorted_heappush _ _ h.sorted
  case recorded =>
    intro e c hc
    rw [mem_heappush]
    rw [Dict.get_set] at hc
    split at hc
    · rename_i he
      cases hc
      exact Or.inl (by rw [he])
    · exact Or.inr (h.recorded e c hc)
  case bounded =>
    show (s.entries.set eventId _).size ≤ _
    rw [Dict.size_set_present _ _ _ _ hget]
    exact h.bounded
  case drawnEntry =>
    intro e c hc
    rw [Dict.get_set] at hc
    split at hc
    · cases hc
      exact h.drawnEntry eventId current hget
    · exact h.drawnEntry e c hc
  case drawnOwner => exact fun o token ho => h.drawnOwner o token (howned o token ho).2
  case oneOwner =>
    exact fun o o' token ho ho' => h.oneOwner o o' token (howned o token ho).2 (howned o' token ho').2
  case settled =>
    intro e c hc hdone o ho
    obtain ⟨hne,ho⟩ := howned o _ ho
    rw [Dict.get_set] at hc
    split at hc
    · cases hc
      exact hne (h.oneOwner o _ _ ho hown)
    · exact h.settled e c hc hdone o ho

theorem moved_sound (hmoved : Moved config s op t) : Sound config t := by
  cases hmoved with
  | refused => exact h
  | purged task eventId now => exact purge_sound h now
  | claimed task eventId now hfree hroom =>
    refine claimed_sound (purge_sound h now) task eventId _ s.calls rfl ?_ ?_ hfree hroom
    · intro e c hget
      exact (h.drawnEntry e c (purge_get_some h hget).1).ne
    · intro o ho
      exact absurd (h.drawnOwner o _ ho) (lt_irrefl _)
  | completed task eventId now current hget hown => exact completed_sound h _ hget hown
  | released task eventId current hown =>
    have hsize : (s.entries.erase eventId).size ≤ s.entries.size := List.filter_sublist.length_le
    apply forget_sound h _ _ (hsize.trans h.bounded)
    intro e c hc
    rw [Dict.get_erase] at hc
    split at hc
    · cases hc
    · exact hc
  | forgotten task eventId => exact forget_sound h _ _ h.bounded (fun _ _ hc => hc)

end

theorem empty_sound (config : DeduplicatorConfig) : Sound config {} where
  sorted := List.Pairwise.nil
  recorded := nofun
  bounded := Nat.zero_le _
  drawnEntry := nofun
  drawnOwner := nofun
  oneOwner := nofun
  settled := nofun

theorem run_sound (config : DeduplicatorConfig) (ops : List EventOp) :
    Sound config (Machine.final (step config) {} ops) :=
  Machine.final_invariant (step config) (Sound config)
    (fun s op h => moved_sound h (step_moved s op)) _ ops (empty_sound config)

/-! The heap. -/

def lasting (config : DeduplicatorConfig) (s : InMemoryEventDeduplicator) : EventOp → Bool
  | .claim _ _ _ => true
  | .complete task eventId now =>
    (s.ownEntry task eventId).all (fun current => decide (current.expiresAt ≤ now+config.ttl))
  | .release task eventId => (s.ownEntry task eventId).isNone

def records (current : Reservation) : ℕ := if current.completed then 2 else 1

def recordsOf (s : InMemoryEventDeduplicator) (eventId : String) : ℕ :=
  (s.expirations.map (fun r => r.2.1)).count eventId

structure Tight (s : InMemoryEventDeduplicator) : Prop where
  covered : ∀ r ∈ s.expirations, ∃ current, s.entries.get? r.2.1 = some current ∧
    r.1 ≤ current.expiresAt
  few : ∀ eventId current, s.entries.get? eventId = some current →
    s.recordsOf eventId ≤ records current

theorem records_of_push (s : InMemoryEventDeduplicator) (record : ExpiryRecord) (eventId : String) :
    ((heappush record s.expirations).map (fun r => r.2.1)).count eventId =
      s.recordsOf eventId+if record.2.1 = eventId then 1 else 0 := by
  have hperm := (List.perm_orderedInsert (fun a b : ExpiryRecord => a.1 ≤ b.1) record
    s.expirations).map (fun r => r.2.1)
  rw [heappush, hperm.count_eq, List.map_cons, List.count_cons, recordsOf]
  simp only [beq_iff_eq]

theorem purge_tight (h : Sound config s) (ht : Tight s) (now : ℤ) :
    Tight { s.purgeExpired now with calls := s.calls+1 } := by
  have hheap : (s.purgeExpired now).expirations =
      s.expirations.filter (fun r => decide (now < r.1)) := pop_expired_heap _ _ h.sorted
  constructor
  · intro r hr
    replace hr : r ∈ (s.purgeExpired now).expirations := hr
    rw [hheap, List.mem_filter, decide_eq_true_eq] at hr
    obtain ⟨current,hget,hle⟩ := ht.covered r hr.1
    refine ⟨current,?_,hle⟩
    show (s.purgeExpired now).entries.get? r.2.1 = some current
    rw [purge_get h, hget, Option.filter_some, if_pos (decide_eq_true (hr.2.trans_le hle))]
  · intro eventId current hget
    have hfew := ht.few eventId current (purge_get_some h hget).1
    refine le_trans ?_ hfew
    show ((s.purgeExpired now).expirations.map _).count eventId ≤ _
    rw [hheap]
    exact (List.filter_sublist.map _).count_le _

theorem records_of_free (ht : Tight s) (hfree : s.entries.get? eventId = none) :
    s.recordsOf eventId = 0 := by
  rw [recordsOf, List.count_eq_zero]
  intro hmem
  obtain ⟨r,hr,rfl⟩ := List.mem_map.mp hmem
  obtain ⟨current,hget,-⟩ := ht.covered r hr
  rw [hfree] at hget
  cases hget

/-- A new entry of an event, with its record, in place of one that expires no later. -/
theorem push_tight (ht : Tight s) (next : Reservation) (owned : Dict (ℕ × String) ℕ)
    (hlater : ∀ current, s.entries.get? eventId = some current → current.expiresAt ≤ next.expiresAt)
    (hcount : s.recordsOf eventId+1 ≤ records next) :
    Tight { s with
      entries := s.entries.set eventId next
      expirations := heappush (next.expiresAt,eventId,next.ownerToken) s.expirations
      ownedClaims := owned } := by
  constructor
  · intro r hr
    rw [mem_heappush] at hr
    rcases hr with rfl | hr
    · exact ⟨next,by rw [Dict.get_set, if_pos rfl],le_rfl⟩
    · obtain ⟨current,hget,hle⟩ := ht.covered r hr
      rw [Dict.get_set]
      split
      · rename_i he
        rw [he] at hget
        exact ⟨next,rfl,hle.trans (hlater current hget)⟩
      · exact ⟨current,hget,hle⟩
  · intro e c hget
    show ((heappush _ s.expirations).map _).count e ≤ _
    rw [records_of_push]
    rw [Dict.get_set] at hget
    split at hget
    · rename_i he
      cases hget
      rw [he, if_pos rfl]
      exact hcount
    · rename_i he
      rw [if_neg (fun heq => he heq.symm)]
      exact ht.few e c hget

theorem moved_tight (h : Sound config s) (ht : Tight s) (hlast : lasting config s op = true)
    (hmoved : Moved config s op t) : Tight t := by
  cases hmoved with
  | refused => exact ht
  | purged task eventId now => exact purge_tight h ht now
  | claimed task eventId now hfree hroom =>
    have hpurged := purge_tight h ht now
    refine push_tight hpurged ⟨now+config.processingLease,s.calls,false⟩ _ ?_ ?_
    · intro current hget
      exact absurd (hfree.symm.trans hget) nofun
    · rw [records_of_free hpurged hfree]
      rfl
  | completed task eventId now current hget hown =>
    have hopen : current.completed = false := by
      by_contra hdone
      exact h.settled eventId current hget (Bool.not_eq_false _ ▸ hdone) _ hown
    have hentry : s.ownEntry task eventId = some current := by
      rw [ownEntry, hget, Option.filter_some, if_pos (decide_eq_true hown)]
    rw [lasting, hentry, Option.all_some, decide_eq_true_eq] at hlast
    refine push_tight ht ⟨now+config.ttl,current.ownerToken,true⟩ _ ?_ ?_
    · intro other hother
      rw [hget] at hother
      cases hother
      exact hlast
    · have hfew := ht.few eventId current hget
      rw [records, hopen] at hfew
      exact Nat.succ_le_succ hfew
  | released task eventId current hown =>
    rw [lasting, hown] at hlast
    cases hlast
  | forgotten task eventId => exact ⟨ht.covered,ht.few⟩

/-- Every event of the heap is a key of the map, with at most two records. -/
theorem tight_heap (ht : Tight s) : s.expirations.length ≤ 2*s.entries.size := by
  have hkeys : (s.expirations.map (fun r => r.2.1)).dedup ⊆ s.entries.entries.map Prod.fst := by
    intro e he
    obtain ⟨r,hr,rfl⟩ := List.mem_map.mp (List.mem_dedup.mp he)
    obtain ⟨current,hget,-⟩ := ht.covered r hr
    exact List.mem_map.mpr ⟨_,(Dict.get_mem _ _ _).mp hget,rfl⟩
  have hfew : ∀ n ∈ (s.expirations.map (fun r => r.2.1)).dedup.map s.recordsOf, n ≤ 2 := by
    intro n hn
    obtain ⟨e,he,rfl⟩ := List.mem_map.mp hn
    obtain ⟨r,hr,rfl⟩ := List.mem_map.mp (List.mem_dedup.mp he)
    obtain ⟨current,hget,-⟩ := ht.covered r hr
    apply (ht.few _ current hget).trans
    rw [records]
    split <;> omega
  have hsum := List.sum_le_card_nsmul _ 2 hfew
  have htotal := List.sum_map_count_dedup_eq_length (s.expirations.map (fun r => r.2.1))
  have hdistinct := ((List.nodup_dedup (s.expirations.map (fun r => r.2.1))).subperm hkeys).length_le
  rw [List.length_map] at hsum htotal hdistinct
  show s.expirations.length ≤ 2*s.entries.entries.length
  rw [← htotal]
  apply hsum.trans
  rw [smul_eq_mul, Nat.mul_comm]
  exact Nat.mul_le_mul_left 2 hdistinct

theorem run_tight (config : DeduplicatorConfig) (ops : List EventOp)
    (hlast : Machine.along (step config) (lasting config) {} ops = true) :
    Tight (Machine.final (step config) {} ops) := by
  refine (Machine.final_invariant_along (step config) (lasting config)
    (fun s => Sound config s ∧ Tight s) ?_ _ ops hlast ⟨empty_sound config,?_⟩).2
  · intro s op hop hs
    exact ⟨moved_sound hs.1 (step_moved s op),moved_tight hs.1 hs.2 hop (step_moved s op)⟩
  · exact ⟨nofun,nofun⟩

theorem claim_removes (h : Sound config s) (hget : s.entries.get? eventId = some current)
    (claimed : String) (hdue : current.expiresAt ≤ now) :
    (s.step config (.claim task claimed now)).1.entries.get? eventId ≠ some current := by
  have hgone : (s.purgeExpired now).entries.get? eventId ≠ some current :=
    fun hstill => absurd hdue (not_le.mpr (purge_get_some h hstill).2)
  have hmoved : Moved config s (.claim task claimed now) _ := step_moved s _
  generalize (s.step config (.claim task claimed now)).1 = t at hmoved
  cases hmoved with
  | purged => exact hgone
  | claimed _ _ _ hfree hroom =>
    rw [Dict.get_set]
    split
    · -- the token of the new entry is drawn by this call
      intro hnew
      have hdrawn := h.drawnEntry eventId current hget
      rw [← Option.some.inj hnew] at hdrawn
      exact absurd hdrawn (lt_irrefl _)
    · exact hgone

/-- The map is bounded in every run, and every entry has its record and is gone
after the first claim that reads a clock at or past its expiry. The heap is
bounded in the runs without removing releases and shortening completions. -/
theorem deduplicator_memory_bounded (config : DeduplicatorConfig) (ops : List EventOp) :
    (Machine.final (step config) {} ops).entries.size ≤ config.maximum ∧
    (∀ eventId current, (Machine.final (step config) {} ops).entries.get? eventId = some current →
      (current.expiresAt,eventId,current.ownerToken) ∈
          (Machine.final (step config) {} ops).expirations ∧
        ∀ task claimed now, current.expiresAt ≤ now →
          (step config (Machine.final (step config) {} ops) (.claim task claimed now)).1.entries.get?
            eventId ≠ some current) ∧
    (Machine.along (step config) (lasting config) {} ops = true →
      (Machine.final (step config) {} ops).expirations.length ≤ 2*config.maximum) := by
  have hsound := run_sound config ops
  refine ⟨hsound.bounded,?_,?_⟩
  · intro eventId current hget
    exact ⟨hsound.recorded eventId current hget,
      fun task claimed now hdue => claim_removes hsound hget claimed hdue⟩
  · intro hlast
    have hheap := tight_heap (run_tight config ops hlast)
    exact hheap.trans (Nat.mul_le_mul_left 2 hsound.bounded)

/-- An event that is completed for longer has two records. -/
theorem completed_records_bounded :
    let heap := (Machine.final (step ⟨5,2,1⟩) {} [.claim 0 "e" 0,.complete 0 "e" 1]).expirations
    heap.length = 2 ∧ heap.length ≤ 2*1 :=
  ⟨by decide +kernel,(deduplicator_memory_bounded ⟨5,2,1⟩ _).2.2 (by decide +kernel)⟩

def retries (n : ℕ) : List EventOp :=
  (List.replicate n [EventOp.claim 0 "e" 0,EventOp.release 0 "e"]).flatten

def leftRecords : ℕ → List ExpiryRecord
  | 0 => []
  | n+1 => (2,"e",n)::leftRecords n

theorem retried_claim (n : ℕ) :
    claim ⟨2,2,1⟩ ⟨Dict.empty,leftRecords n,Dict.empty,n⟩ 0 "e" 0 =
      (⟨Dict.empty.set "e" ⟨2,n,false⟩,leftRecords (n+1),Dict.empty.set (0,"e") n,n+1⟩,
        .ok (some true)) := by
  cases n with
  | zero => rfl
  | succ n => rfl

theorem retried_release (n : ℕ) (heap : List ExpiryRecord) :
    release ⟨Dict.empty.set "e" ⟨2,n,false⟩,heap,Dict.empty.set (0,"e") n,n+1⟩ 0 "e" =
      (⟨Dict.empty,heap,Dict.empty,n+1⟩,.ok none) := by
  have hown : ownEntry ⟨Dict.empty.set "e" ⟨2,n,false⟩,heap,Dict.empty.set (0,"e") n,n+1⟩ 0 "e" =
      some ⟨2,n,false⟩ := by simp [ownEntry]
  rw [release, hown]
  rfl

theorem retries_run (n : ℕ) :
    Machine.final (step ⟨2,2,1⟩) {} (retries n) = ⟨Dict.empty,leftRecords n,Dict.empty,n⟩ := by
  induction n with
  | zero => rfl
  | succ n ih =>
    have hsplit : retries (n+1) = retries n ++ [EventOp.claim 0 "e" 0,EventOp.release 0 "e"] := by
      rw [retries, retries, List.replicate_succ', List.flatten_append, List.flatten_singleton]
    rw [hsplit, Machine.final_append, ih]
    simp only [Machine.final, step, retried_claim, retried_release]

theorem left_records_length (n : ℕ) : (leftRecords n).length = n := by
  induction n with
  | zero => rfl
  | succ n ih => rw [leftRecords, List.length_cons, ih]

/-- No multiple of the capacity bounds the heap. -/
theorem released_records_stay : ¬ ∃ factor : ℕ, ∀ (config : DeduplicatorConfig) (ops : List EventOp),
    (Machine.final (step config) {} ops).expirations.length ≤ factor*config.maximum := by
  rintro ⟨factor,hfactor⟩
  have hheap := hfactor ⟨2,2,1⟩ (retries (factor+1))
  rw [retries_run, left_records_length] at hheap
  change factor+1 ≤ factor*1 at hheap
  omega

end InMemoryEventDeduplicator
end SuiteHarness.Channels
