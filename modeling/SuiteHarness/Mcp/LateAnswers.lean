import SuiteHarness.Mcp.Transport

/-!
# Late answers

A late answer is recognised by its id in `_abandoned`, where only the timeout
puts it. So the session survives every run in which no request is left by other
means while the server still owes its answer, and in which the bound on
`_abandoned` pushes out no id that is still owed.
-/

set_option autoImplicit false

namespace SuiteHarness.Mcp
open SuiteHarness.Library Session

def victim (id evicted : ℕ) (ids : List ℕ) : Option ℕ :=
  if abandonedLimit < (addId id ids).length then popped evicted (addId id ids) else none

theorem mem_add_id (id x : ℕ) (ids : List ℕ) : x ∈ addId id ids ↔ x = id ∨ x ∈ ids := by
  rw [addId]
  split
  · rename_i hmem
    exact ⟨Or.inr,fun h => h.elim (fun he => he ▸ hmem) (fun h => h)⟩
  · exact List.mem_cons

theorem mem_abandon {id evicted x : ℕ} {ids : List ℕ} (h : x = id ∨ x ∈ ids)
    (hvictim : victim id evicted ids ≠ some x) : x ∈ abandon id evicted ids := by
  have hmem := (mem_add_id id x ids).mpr h
  rw [abandon]
  rw [victim] at hvictim
  split
  · rename_i hfull
    rw [if_pos hfull] at hvictim
    split
    · rename_i y hy
      rw [hy] at hvictim
      exact List.mem_filter.mpr ⟨hmem,decide_eq_true (fun he => hvictim (by rw [he]))⟩
    · exact hmem
  · exact hmem

namespace Session

def careful (s : Session) : Move → Bool
  | .leave _ => s.active.all (fun a => !s.outstanding a.id)
  | .timeout evicted =>
    s.active.all (fun a => (victim a.id evicted s.abandoned).all (fun v => !s.outstanding v))
  | _ => true

def Agrees (s : Session) (a : Active) : Future → Prop
  | .waiting => True
  | .done r => (a.id,r) ∈ s.answers
  | .failed _ => False
  | .cancelled => a.phase = .notifying

structure Alive (s : Session) : Prop where
  reading : s.readerFailure = none
  known : ∀ id, s.outstanding id = true → (s.pending.get? id).isSome ∨ id ∈ s.abandoned
  issued : (∀ id ∈ s.received, id ≤ s.counter) ∧ ∀ e ∈ s.answers, e.1 ≤ s.counter
  holder : ∀ a, s.active = some a → a.id ≤ s.counter ∧
    (a.phase = .sending false → a.id ∉ s.received) ∧ ∃ f, s.pending.get? a.id = some f ∧ s.Agrees a f
  owner : ∀ id, (s.pending.get? id).isSome → ∃ a, s.active = some a ∧ a.id = id
  noted : ∀ a, s.active = some a → a.phase = .notifying →
    s.outstanding a.id = true → a.id ∈ s.abandoned

theorem outstanding_iff (s : Session) (id : ℕ) :
    s.outstanding id = true ↔ id ∈ s.received ∧ id ∉ s.answers.map Prod.fst := by
  rw [outstanding, decide_eq_true_eq]

theorem alive_init : Alive {} where
  reading := rfl
  known id h := absurd ((outstanding_iff _ _).mp h).1 List.not_mem_nil
  issued := ⟨fun _ h => absurd h List.not_mem_nil,fun _ h => absurd h List.not_mem_nil⟩
  holder a h := by cases h
  owner id h := by cases h
  noted a h := by cases h

variable {a : Active} {s : Session}

theorem owner_is (h : Alive s) (ha : s.active = some a) {id : ℕ} (hid : (s.pending.get? id).isSome) :
    a.id = id := by
  obtain ⟨b,hb,rfl⟩ := h.owner id hid
  rw [ha] at hb
  cases hb
  rfl

/-- The future of a request that is being sent is not cancelled, so it fits every later phase. -/
theorem holder_sending (h : Alive s) (ha : s.active = some a) {sent : Bool}
    (hphase : a.phase = .sending sent) : a.id ≤ s.counter ∧
      ∃ f, s.pending.get? a.id = some f ∧ ∀ phase, s.Agrees { a with phase := phase } f := by
  obtain ⟨hle,-,f,hf,hagrees⟩ := h.holder a ha
  refine ⟨hle,f,hf,fun phase => ?_⟩
  cases f with
  | cancelled => rw [Agrees, hphase] at hagrees; cases hagrees
  | waiting => trivial
  | done r => exact hagrees
  | failed e => exact hagrees

/-- Leaving the lock keeps the session alive when no answer is owed or the id
is remembered. -/
theorem alive_release (h : Alive s) (ha : s.active = some a)
    (howed : s.outstanding a.id = true → a.id ∈ s.abandoned) : Alive (s.release a.id) where
  reading := h.reading
  known id hid := by
    rcases Decidable.em (id = a.id) with rfl | hne
    · exact Or.inr (howed hid)
    · rcases h.known id hid with hp | hmem
      · exact absurd (owner_is h ha hp).symm hne
      · exact Or.inr hmem
  issued := h.issued
  holder b hb := by cases hb
  owner id hid := by
    rw [release, Dict.get_erase] at hid
    split at hid
    · cases hid
    · rename_i hne
      exact absurd (owner_is h ha hid).symm hne
  noted b hb := by cases hb

/-- `send_line` has returned. -/
theorem alive_sent (h : Alive s) (ha : s.active = some a) (hphase : a.phase = .sending true) :
    Alive { s with active := some { a with phase := .waiting } } where
  reading := h.reading
  known := h.known
  issued := h.issued
  holder b hb := by
    cases hb
    obtain ⟨hle,f,hf,hagrees⟩ := holder_sending h ha hphase
    exact ⟨hle,nofun,f,hf,hagrees _⟩
  owner id hid := ⟨_,rfl,owner_is h ha hid⟩
  noted b hb hb' := by
    cases hb
    cases hb'

theorem alive_begin (h : Alive s) (ha : s.active = none) (method : String) :
    Alive (s.begin_ method) where
  reading := h.reading
  known id hid := by
    rcases h.known id hid with hp | hmem
    · obtain ⟨b,hb,-⟩ := h.owner id hp
      rw [ha] at hb
      cases hb
    · exact Or.inr hmem
  issued := ⟨fun id hid => Nat.le_succ_of_le (h.issued.1 id hid),
    fun e he => Nat.le_succ_of_le (h.issued.2 e he)⟩
  holder b hb := by
    cases hb
    refine ⟨le_refl _,fun _ hmem => ?_,.waiting,by simp [begin_],trivial⟩
    exact absurd (h.issued.1 _ hmem) (Nat.not_succ_le_self _)
  owner id hid := by
    rw [begin_, Dict.get_set] at hid
    split at hid
    · rename_i he
      exact ⟨_,rfl,he.symm⟩
    · obtain ⟨b,hb,-⟩ := h.owner id hid
      rw [ha] at hb
      cases hb
  noted b hb hb' := by
    cases hb
    cases hb'

theorem alive_deliver (h : Alive s) (ha : s.active = some a) (hphase : a.phase = .sending false) :
    Alive { s with active := some { a with phase := .sending true }, received := a.id::s.received } where
  reading := h.reading
  known id hid := by
    obtain ⟨hreceived,hunanswered⟩ := (outstanding_iff _ _).mp hid
    rcases List.mem_cons.mp hreceived with rfl | hold
    · obtain ⟨-,-,f,hf,-⟩ := h.holder a ha
      exact Or.inl (by rw [hf]; rfl)
    · exact h.known id ((outstanding_iff _ _).mpr ⟨hold,hunanswered⟩)
  issued := by
    refine ⟨fun id hid => ?_,h.issued.2⟩
    rcases List.mem_cons.mp hid with rfl | hold
    · exact (h.holder a ha).1
    · exact h.issued.1 id hold
  holder b hb := by
    cases hb
    obtain ⟨hle,f,hf,hagrees⟩ := holder_sending h ha hphase
    exact ⟨hle,nofun,f,hf,hagrees _⟩
  owner id hid := ⟨_,rfl,owner_is h ha hid⟩
  noted b hb hb' := by
    cases hb
    cases hb'

/-- An owed answer meets its future or its remembered id. -/
theorem read_response_alive (h : Alive s) {id : ℕ} (r : Response)
    (howed : s.outstanding id = true) : (s.pending.get? id = none ∧ id ∈ s.abandoned ∧
      s.readResponse id r = { s with abandoned := s.abandoned.filter (fun x => decide (x ≠ id)) }) ∨
    (s.pending.get? id = some .waiting ∧
      s.readResponse id r = { s with pending := s.pending.set id (.done r) }) ∨
    ((∃ a, s.active = some a ∧ a.id = id ∧ a.phase = .notifying ∧ s.pending.get? id = some .cancelled) ∧
      s.readResponse id r = s) := by
  rw [readResponse]
  cases hf : s.pending.get? id with
  | none =>
    have hmem := (h.known id howed).resolve_left (by rw [hf]; decide)
    exact Or.inl ⟨rfl,hmem,if_pos hmem⟩
  | some f =>
    obtain ⟨a,ha,rfl⟩ := h.owner id (by rw [hf]; rfl)
    obtain ⟨-,-,f',hf',hagrees⟩ := h.holder a ha
    rw [hf] at hf'
    cases hf'
    cases f with
    | waiting => exact Or.inr (Or.inl ⟨rfl,rfl⟩)
    | done r' =>
      -- a future that is done was answered before
      exact absurd (List.mem_map_of_mem hagrees) ((outstanding_iff _ _).mp howed).2
    | failed e => exact hagrees.elim
    | cancelled => exact Or.inr (Or.inr ⟨⟨a,ha,rfl,hagrees,rfl⟩,rfl⟩)

theorem outstanding_add_answer {id x : ℕ} {r : Response}
    (h : (s.addAnswer id r).outstanding x = true) : s.outstanding x = true ∧ x ≠ id := by
  rw [outstanding_iff, addAnswer, List.map_cons, List.mem_cons, not_or] at h
  exact ⟨(outstanding_iff _ _).mpr ⟨h.1,h.2.2⟩,h.2.1⟩

theorem agrees_add_answer {f : Future} (id : ℕ) (r : Response) (h : s.Agrees a f) :
    (s.addAnswer id r).Agrees a f := by
  cases f with
  | done r => exact List.mem_cons_of_mem _ h
  | waiting => trivial
  | failed _ => exact h
  | cancelled => exact h

theorem alive_answer (h : Alive s) {id : ℕ} (r : Response) (howed : s.outstanding id = true) :
    Alive ((s.readResponse id r).addAnswer id r) := by
  have hagrees : ∀ a, s.active = some a → a.id ≤ s.counter ∧
      (a.phase = .sending false → a.id ∉ s.received) ∧
      ∃ f, s.pending.get? a.id = some f ∧ (s.addAnswer id r).Agrees a f := by
    intro a ha
    obtain ⟨hle,hsend,f,hf,hagrees⟩ := h.holder a ha
    exact ⟨hle,hsend,f,hf,agrees_add_answer id r hagrees⟩
  have hissued : (∀ x ∈ s.received, x ≤ s.counter) ∧ ∀ e ∈ (id,r)::s.answers, e.1 ≤ s.counter :=
    ⟨h.issued.1,List.forall_mem_cons.mpr
      ⟨h.issued.1 id ((outstanding_iff _ _).mp howed).1,h.issued.2⟩⟩
  rcases read_response_alive h r howed with ⟨-,-,heq⟩ | ⟨hf,heq⟩ | ⟨-,heq⟩
  · rw [heq]
    refine ⟨h.reading,fun x hx => ?_,hissued,hagrees,h.owner,fun a ha hphase hx => ?_⟩
    · obtain ⟨hold,hne⟩ := outstanding_add_answer hx
      exact (h.known x hold).imp_right (fun hmem => List.mem_filter.mpr ⟨hmem,decide_eq_true hne⟩)
    · obtain ⟨hold,hne⟩ := outstanding_add_answer hx
      exact List.mem_filter.mpr ⟨h.noted a ha hphase hold,decide_eq_true hne⟩
  · rw [heq]
    refine ⟨h.reading,fun x hx => ?_,hissued,fun a ha => ?_,fun x hx => ?_,fun a ha hphase hx =>
      h.noted a ha hphase (outstanding_add_answer hx).1⟩
    · obtain ⟨hold,hne⟩ := outstanding_add_answer hx
      refine (h.known x hold).imp_left (fun hp => ?_)
      rw [addAnswer, Dict.get_set, if_neg hne]
      exact hp
    · obtain ⟨hle,hsend,f,hf',hold⟩ := hagrees a ha
      refine ⟨hle,hsend,?_⟩
      rw [addAnswer, Dict.get_set]
      split
      · rename_i he
        subst he
        exact ⟨_,rfl,List.mem_cons_self⟩
      · exact ⟨f,hf',hold⟩
    · rw [addAnswer, Dict.get_set] at hx
      split at hx
      · rename_i he
        rw [he]
        exact h.owner id (by rw [hf]; rfl)
      · exact h.owner x hx
  · rw [heq]
    exact ⟨h.reading,fun x hx => h.known x (outstanding_add_answer hx).1,hissued,hagrees,h.owner,
      fun a ha hphase hx => h.noted a ha hphase (outstanding_add_answer hx).1⟩

theorem alive_timeout (h : Alive s) (ha : s.active = some a) {evicted : ℕ}
    (hcareful : (victim a.id evicted s.abandoned).all (fun v => !s.outstanding v) = true) :
    Alive (s.fireTimeout a evicted) := by
  have hget : ∀ id, ((s.fireTimeout a evicted).pending.get? id).isSome = (s.pending.get? id).isSome := by
    intro id
    rw [fireTimeout]
    split
    · rename_i hwaiting
      rw [Dict.get_set]
      split
      · rename_i he
        rw [he, hwaiting.2]
        rfl
      · rfl
    · rfl
  have hkept : ∀ id, s.outstanding id = true → id = a.id ∨ id ∈ s.abandoned →
      id ∈ abandon a.id evicted s.abandoned := by
    intro id howed hmem
    apply mem_abandon hmem
    intro hv
    rw [hv] at hcareful
    simp [howed] at hcareful
  refine ⟨h.reading,fun id hid => ?_,h.issued,fun b hb => ?_,fun id hid => ?_,fun b hb _ hid => ?_⟩
  · rw [hget]
    exact (h.known id hid).imp_right (fun hmem => hkept id hid (Or.inr hmem))
  · cases hb
    obtain ⟨hle,-,f,hf,hagrees⟩ := h.holder a ha
    refine ⟨hle,by simp,?_⟩
    rw [fireTimeout]
    split
    · exact ⟨.cancelled,by simp,rfl⟩
    · refine ⟨f,hf,?_⟩
      cases f with
      | cancelled => rfl
      | waiting => trivial
      | done r => exact hagrees
      | failed e => exact hagrees
  · rw [hget] at hid
    exact ⟨_,rfl,owner_is h ha hid⟩
  · cases hb
    exact hkept a.id hid (Or.inl rfl)

/-! ## Runs -/

def Honest (s : Session) : Option Output → Prop
  | some (.refused _) => False
  | some (.returned id value) => (id,.result value) ∈ s.answers
  | _ => True

theorem honest_mono {t : Session} (h : s.answers ⊆ t.answers) {out : Option Output}
    (hs : s.Honest out) : t.Honest out := by
  cases out with
  | none => trivial
  | some o =>
    cases o with
    | returned id value => exact h hs
    | refused e => exact hs
    | raised id e => trivial
    | cancelled id => trivial

theorem read_response_answers (s : Session) (id : ℕ) (r : Response) :
    (s.readResponse id r).answers = s.answers := by
  rw [readResponse]
  split
  · split <;> rfl
  · rfl
  · rfl

theorem alive_step_active (h : Alive s) (ha : s.active = some a) {m : Move}
    (hcareful : s.careful m = true) : Alive (s.stepActive a m).1 ∧
      (s.stepActive a m).1.answers = s.answers ∧ s.Honest (s.stepActive a m).2 := by
  cases m with
  | deliver =>
    rw [stepActive]
    split
    · rename_i hphase
      exact ⟨alive_deliver h ha hphase,rfl,trivial⟩
    · exact ⟨h,rfl,trivial⟩
  | sendReturns =>
    rw [stepActive]
    split
    · rename_i hphase
      exact ⟨alive_sent h ha hphase,rfl,trivial⟩
    · exact ⟨h,rfl,trivial⟩
  | resume =>
    rw [stepActive]
    split
    · obtain ⟨-,-,f,hf,hagrees⟩ := h.holder a ha
      rw [hf, Option.bind_some]
      cases f with
      | done r =>
        have howed : s.outstanding a.id = true → a.id ∈ s.abandoned := fun howed =>
          absurd (List.mem_map_of_mem hagrees) ((outstanding_iff _ _).mp howed).2
        cases r with
        | result value => exact ⟨alive_release h ha howed,rfl,hagrees⟩
        | error e => exact ⟨alive_release h ha howed,rfl,trivial⟩
      | failed e => exact hagrees.elim
      | waiting | cancelled => exact ⟨h,rfl,trivial⟩
    · exact ⟨h,rfl,trivial⟩
  | timeout evicted =>
    rw [stepActive]
    split
    · exact ⟨h,rfl,trivial⟩
    · rw [careful, ha] at hcareful
      exact ⟨alive_timeout h ha hcareful,rfl,trivial⟩
  | notified =>
    rw [stepActive]
    split
    · rename_i hphase
      exact ⟨alive_release h ha (h.noted a ha hphase),rfl,trivial⟩
    · exact ⟨h,rfl,trivial⟩
  | leave why =>
    rw [stepActive]
    split
    · exact ⟨h,rfl,trivial⟩
    · rw [careful, ha] at hcareful
      refine ⟨alive_release h ha (fun howed => ?_),rfl,by cases why <;> trivial⟩
      simp [howed] at hcareful
  | request _ | answer _ _ | otherMessage => exact ⟨h,rfl,trivial⟩

theorem alive_step (h : Alive s) {m : Move} (hcareful : s.careful m = true) :
    Alive (s.step m).1 ∧ s.answers ⊆ (s.step m).1.answers ∧ s.Honest (s.step m).2 := by
  have hidle : Alive s ∧ s.answers ⊆ s.answers ∧ s.Honest none := ⟨h,List.Subset.refl _,trivial⟩
  have hactive : ∀ a, s.active = some a → Alive (s.stepActive a m).1 ∧
      s.answers ⊆ (s.stepActive a m).1.answers ∧ s.Honest (s.stepActive a m).2 := by
    intro a ha
    obtain ⟨halive,hanswers,hhonest⟩ := alive_step_active h ha hcareful
    exact ⟨halive,by rw [hanswers]; exact List.Subset.refl _,hhonest⟩
  unfold step
  split
  · rename_i id r
    split
    · rename_i howed
      refine ⟨alive_answer h r (Bool.and_eq_true_iff.mp howed).1,?_,trivial⟩
      rw [addAnswer, read_response_answers]
      exact List.subset_cons_self _ _
    · exact hidle
  · exact hidle
  · rename_i method
    split
    · rename_i ha
      rw [h.reading]
      exact ⟨alive_begin h ha method,List.Subset.refl _,trivial⟩
    · exact hidle
  · split
    · exact hidle
    · rename_i a ha
      exact hactive a ha

/-- The next two outputs of a request whose answer comes while it waits. -/
theorem waiting_request_served (h : Alive s) (ha : s.active = some a)
    (hphase : a.phase = .waiting) (howed : s.outstanding a.id = true) (value : Json) :
    (Machine.trace step s [.answer a.id (.result value),.resume]).map Prod.snd =
      [none,some (.returned a.id value)] := by
  rcases read_response_alive h (.result value) howed with ⟨hf,-,-⟩ | ⟨-,heq⟩ | ⟨⟨b,hb,-,hnotify,-⟩,-⟩
  · obtain ⟨-,-,f,hf',-⟩ := h.holder a ha
    rw [hf] at hf'
    cases hf'
  · simp [Machine.trace, step, stepActive, howed, h.reading, heq, addAnswer, ha, hphase, outcome]
  · rw [ha] at hb
    cases hb
    rw [hphase] at hnotify
    cases hnotify

/-- A further request is sent, and returns what the server answers to it. -/
theorem next_request_served (h : Alive s) (ha : s.active = none) (method : String) (value : Json) :
    (Machine.trace step s [.request method,.deliver,.sendReturns,
      .answer (s.counter+1) (.result value),.resume]).map Prod.snd =
      [none,none,none,none,some (.returned (s.counter+1) value)] := by
  have hbegin : s.step (.request method) = (s.begin_ method,none) := by
    simp [step, ha, h.reading]
  have halive := alive_sent (alive_deliver (alive_begin h ha method) rfl rfl) rfl rfl
  have hnew : s.counter+1 ∉ s.answers.map Prod.fst := by
    intro hmem
    obtain ⟨e,he,heq⟩ := List.mem_map.mp hmem
    have := h.issued.2 e he
    omega
  have hserved := waiting_request_served halive rfl rfl
    ((outstanding_iff _ _).mpr ⟨List.mem_cons_self,hnew⟩) value
  rw [Machine.trace, hbegin, Machine.trace, Machine.trace, List.map_cons, List.map_cons, List.map_cons]
  exact congrArg (fun outs => none::none::none::outs) hserved

end Session

/-- A run in which no request is left between the handing over of its line and its
answer, save by a timeout, keeps the reader alive, refuses no request, and serves the waiting request and every further one with its own answer. -/
theorem careful_session_survives (moves : List Move)
    (hcareful : Machine.along step careful {} moves = true) :
    (Machine.final step {} moves).readerFailure = none ∧
    (∀ e ∈ Machine.trace step {} moves,
      (Machine.final step {} moves).Honest e.2) ∧
    (∀ a value, (Machine.final step {} moves).active = some a → a.phase = .waiting →
      (Machine.final step {} moves).outstanding a.id = true →
      (Machine.trace step (Machine.final step {} moves)
        [.answer a.id (.result value),.resume]).map Prod.snd = [none,some (.returned a.id value)]) ∧
    ∀ method value, (Machine.final step {} moves).active = none →
      (Machine.trace step (Machine.final step {} moves)
        [.request method,.deliver,.sendReturns,
          .answer ((Machine.final step {} moves).counter+1) (.result value),.resume]).map Prod.snd =
        [none,none,none,none,
          some (.returned ((Machine.final step {} moves).counter+1) value)] := by
  have hrun : (Machine.final step {} moves).Alive ∧
      ∀ e ∈ Machine.trace step {} moves, (Machine.final step {} moves).Honest e.2 := by
    apply Machine.history_invariant_along step careful
      (fun past s => s.Alive ∧ ∀ e ∈ past, s.Honest e.2)
    · intro past s m hc hs
      obtain ⟨halive,hanswers,hhonest⟩ := alive_step hs.1 hc
      refine ⟨halive,fun e he => ?_⟩
      rcases List.mem_append.mp he with hold | hnew
      · exact honest_mono hanswers (hs.2 e hold)
      · obtain rfl := List.mem_singleton.mp hnew
        exact honest_mono hanswers hhonest
    · exact hcareful
    · exact ⟨alive_init,fun _ h => absurd h List.not_mem_nil⟩
  exact ⟨hrun.1.reading,hrun.2,fun a value ha hphase howed =>
    waiting_request_served hrun.1 ha hphase howed value,fun method value ha =>
    next_request_served hrun.1 ha method value⟩

def cancelledRequest : List Move :=
  [.request "tools/list",.deliver,.sendReturns,.leave .cancelled,.answer 1 (.result .null),
    .request "tools/call"]

theorem cancelled_request_breaks_session :
    (Machine.final step {} cancelledRequest).readerFailure =
      some (.protocol "received response for an unknown request id") ∧
    (Machine.trace step {} cancelledRequest).map Prod.snd =
      [none,none,none,some (.cancelled 1),none,
        some (.refused (.transport "MCP stdio reader previously failed"))] := by
  decide +kernel

def timedOutRequest : List Move :=
  [.request "tools/list",.deliver,.sendReturns,.timeout 0,.notified,.answer 1 (.result .null)]

theorem timed_out_request_survives :
    Machine.along step careful {} timedOutRequest = true ∧
    (Machine.final step {} timedOutRequest).readerFailure = none := by
  have hcareful : Machine.along step careful {} timedOutRequest = true := by
    decide +kernel
  exact ⟨hcareful,(careful_session_survives timedOutRequest hcareful).1⟩

end SuiteHarness.Mcp
