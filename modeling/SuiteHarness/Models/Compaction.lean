import SuiteHarness.Models.Context

/-!
# What a prepared context keeps

A round begins where no tool call is open, so leaving out the oldest rounds
leaves calls and results paired. `prepare` returns the original messages with
some tool results replaced by excerpts, without the fewest oldest rounds that
let the request fit.
-/

set_option autoImplicit false

namespace SuiteHarness.Models
open SuiteHarness.Library

/-! ## Pairing -/

variable {messages : List ModelMessage} {pending used : List String}

theorem open_calls_fewer {fewer pending' used' : List String} {calls : List ModelToolCall}
    (hsub : fewer ⊆ used) (h : openCalls pending used calls = .ok (pending',used')) :
    ∃ fewer', openCalls pending fewer calls = .ok (pending',fewer') ∧ fewer' ⊆ used' := by
  induction calls generalizing pending used fewer with
  | nil =>
    obtain ⟨rfl,rfl⟩ := Prod.mk.inj (Except.ok.inj h)
    exact ⟨fewer,rfl,hsub⟩
  | cons call calls ih =>
    rw [openCalls] at h
    split at h
    · cases h
    · rename_i hnew
      rw [openCalls, if_neg (fun hmem => hnew (hsub hmem))]
      exact ih (List.cons_subset_cons _ hsub) h

/-- Forgetting used ids never makes a paired conversation fail. -/
theorem validate_fewer_used {fewer : List String} (hsub : fewer ⊆ used)
    (h : validateFrom pending used messages = .ok ()) :
    validateFrom pending fewer messages = .ok () := by
  induction messages generalizing pending used fewer with
  | nil => exact h
  | cons m rest ih =>
    rw [validateFrom] at h ⊢
    split at h
    · exact ih hsub h
    · split at h
      · split at h
        · rename_i hmem
          rw [if_pos hmem]
          exact ih hsub h
        · cases h
      · cases h
    all_goals
      split at h
      · rename_i hnil
        rw [if_pos hnil]
        split at h
        · cases h
        · rename_i hopen
          obtain ⟨fewer',hopen',hsub'⟩ := open_calls_fewer hsub hopen
          rw [hopen']
          exact ih hsub' h
      · cases h

theorem validate_from_user {before rest : List ModelMessage} {m : ModelMessage}
    (hrole : m.role = .user) (h : validateFrom pending used (before++m::rest) = .ok ()) :
    ∃ used', validateFrom [] used' (m::rest) = .ok () := by
  induction before generalizing pending used with
  | nil =>
    have hnil : pending = [] := by
      rw [List.nil_append, validateFrom, hrole] at h
      by_contra hne
      simp [hne] at h
    exact ⟨used,hnil ▸ h⟩
  | cons x before ih =>
    rw [List.cons_append, validateFrom] at h
    split at h
    · exact ih h
    · split at h
      · split at h
        · exact ih h
        · cases h
      · cases h
    all_goals
      split at h
      · split at h
        · cases h
        · exact ih h
      · cases h

theorem validate_systems (messages rest : List ModelMessage) (pending used : List String) :
    validateFrom pending used (messages.filter roundRule.skipped++rest) =
      validateFrom pending used rest := by
  induction messages with
  | nil => rfl
  | cons m messages ih =>
    rw [List.filter_cons]
    split
    · rename_i hsystem
      have hrole : m.role = .system := of_decide_eq_true hsystem
      rw [List.cons_append, validateFrom, hrole]
      exact ih
    · exact ih

def leaving (k : ℕ) (messages : List ModelMessage) : List ModelMessage :=
  Blocks.without ((rounds messages).take k).flatten messages

theorem leaving_zero (messages : List ModelMessage) : leaving 0 messages = messages :=
  Blocks.without_nil messages

theorem leaving_cut {k s : ℕ} (h : Blocks.Cut roundRule messages k s) :
    leaving k messages = (messages.take s).filter roundRule.skipped++messages.drop s :=
  h.without roundRule

theorem pairs_survive (h : validatePairs messages = .ok ()) (k : ℕ) :
    validatePairs (leaving k messages) = .ok () := by
  rcases Nat.eq_zero_or_pos k with rfl | hpos
  · rwa [leaving_zero]
  by_cases hall : (rounds messages).length ≤ k
  · rw [leaving_cut (Blocks.cut_all roundRule messages k hall), validatePairs, validate_systems,
      List.drop_length]
    rfl
  -- the first message that stays begins a round, hence is a user message
  obtain ⟨s,hcut⟩ := Blocks.cut_exists roundRule messages k
  obtain ⟨m,answered,hget,-,hbegins⟩ := hcut.begins hpos (Nat.not_le.mp hall)
  have hrole : m.role = .user := of_decide_eq_true (Bool.and_eq_true_iff.mp hbegins).1
  obtain ⟨hs,hm⟩ := List.getElem?_eq_some_iff.mp hget
  have hdrop : messages.drop s = m::messages.drop (s+1) := by
    rw [List.drop_eq_getElem_cons hs, hm]
  rw [leaving_cut hcut, validatePairs, validate_systems, hdrop]
  rw [validatePairs, ← List.take_append_drop s messages, hdrop] at h
  obtain ⟨used,hused⟩ := validate_from_user hrole h
  exact validate_fewer_used (List.nil_subset used) hused

theorem systems_stay (k : ℕ) (messages : List ModelMessage) :
    (leaving k messages).filter roundRule.skipped = messages.filter roundRule.skipped := by
  obtain ⟨s,hcut⟩ := Blocks.cut_exists roundRule messages k
  rw [leaving_cut hcut, List.filter_append, List.filter_filter]
  simp only [Bool.and_self]
  rw [← List.filter_append, List.take_append_drop]

/-! ## Shortened tool results -/

theorem take_bytes_begins (n : ℕ) (cs : List Char) : takeBytes n cs <+: cs := by
  induction cs generalizing n with
  | nil => exact List.prefix_refl []
  | cons c cs ih =>
    rw [takeBytes]
    split
    · exact List.prefix_cons_inj c |>.mpr (ih _)
    · exact List.nil_prefix

theorem excerpt_begins (raw : String) (n : ℕ) : (excerptOf raw n).toList <+: raw.toList := by
  rw [excerptOf, String.toList_ofList]
  exact take_bytes_begins n raw.toList

def toolLimit (r : ModelRequest) (window : ℤ) : ℕ := perTool (window-reserve r) r.messages

namespace ContextManager
variable (c : ContextManager)
variable (limit : ℕ) (m : ModelMessage)

/-- The reader hint that a shortened result keeps. -/
def hint (m : ModelMessage) : List (String × Json) :=
  match c.loads m.rawText with
  | .ok payload => referenceOf payload
  | .error _ => []

abbrev Long (limit : ℕ) (m : ModelMessage) : Prop := m.role = .tool ∧ limit < c.estimator m.rawText

def Readable (limit : ℕ) (messages : List ModelMessage) : Prop :=
  ∀ m ∈ messages, c.Long limit m → c.loads m.rawText ≠ .error .recursion

def rewrittenText (limit : ℕ) (m : ModelMessage) : String :=
  compactText (excerptOf m.rawText (limit-64)) (c.hint m)

def shorten (limit : ℕ) (m : ModelMessage) : ModelMessage :=
  if c.Long limit m then m.withText (c.rewrittenText limit m) else m

def Shortened (limit : ℕ) (old new : ModelMessage) : Prop :=
  if c.Long limit old then ∃ excerpt, excerpt.toList <+: old.rawText.toList ∧
    new = old.withText (compactText excerpt (c.hint old))
  else new = old

theorem shorten_shortened : c.Shortened limit m (c.shorten limit m) := by
  rw [Shortened, shorten]
  split
  · exact ⟨_,excerpt_begins _ _,rfl⟩
  · rfl

variable {limit m} in
theorem truncate_readable (h : c.Long limit m → c.loads m.rawText ≠ .error .recursion) :
    c.truncate limit m = .ok (c.shorten limit m,decide (c.Long limit m)) := by
  by_cases hlong : c.Long limit m
  · rw [truncate, if_pos hlong, shorten, if_pos hlong, rewrittenText, hint, decide_eq_true hlong]
    cases hloads : c.loads m.rawText with
    | error e =>
      cases e with
      | value => rfl
      | recursion => exact absurd hloads (h hlong)
    | ok payload => rfl
  · rw [truncate, if_neg hlong, shorten, if_neg hlong, decide_eq_false hlong]

theorem truncate_all_readable {limit : ℕ} {messages : List ModelMessage}
    (h : c.Readable limit messages) : c.truncateAll limit messages =
      .ok (messages.map (c.shorten limit),messages.countP (fun m => decide (c.Long limit m))) := by
  induction messages with
  | nil => rfl
  | cons m rest ih =>
    rw [truncateAll, c.truncate_readable (h m List.mem_cons_self),
      ih (fun x hx => h x (List.mem_cons_of_mem m hx)), List.countP_cons]
    cases decide (c.Long limit m) <;> rfl

theorem truncate_all_unreadable {limit : ℕ} {messages : List ModelMessage}
    (h : ¬ c.Readable limit messages) : c.truncateAll limit messages = .error .recursion := by
  induction messages with
  | nil => exact absurd nofun h
  | cons m rest ih =>
    rw [truncateAll]
    by_cases hm : c.Long limit m ∧ c.loads m.rawText = .error .recursion
    · rw [truncate, if_pos hm.1, hm.2]
    · rw [c.truncate_readable (fun hlong hbad => hm ⟨hlong,hbad⟩), ih]
      intro hrest
      refine h (fun x hx hlong hbad => ?_)
      rcases List.mem_cons.mp hx with rfl | hx
      · exact hm ⟨hlong,hbad⟩
      · exact hrest x hx hlong hbad

/-- Reading rounds and pairing needs nothing that truncation changes. -/
theorem shorten_same : (c.shorten limit m).role = m.role ∧
    (c.shorten limit m).toolCalls = m.toolCalls ∧ (c.shorten limit m).toolCallId = m.toolCallId := by
  rw [shorten]
  split <;> exact ⟨rfl,rfl,rfl⟩

variable (messages : List ModelMessage)

theorem rounds_shorten : rounds (messages.map (c.shorten limit)) = rounds messages := by
  apply Blocks.blocks_map
  · intro m
    simp only [roundRule, (c.shorten_same limit m).1]
  · intro answered m
    simp only [roundRule, (c.shorten_same limit m).1]
  · intro answered m
    simp only [roundRule, (c.shorten_same limit m).1, (c.shorten_same limit m).2.1]

theorem validate_shorten (pending used : List String) :
    validateFrom pending used (messages.map (c.shorten limit)) = validateFrom pending used messages := by
  induction messages generalizing pending used with
  | nil => rfl
  | cons m rest ih =>
    obtain ⟨hrole,hcalls,hid⟩ := c.shorten_same limit m
    simp only [List.map_cons, validateFrom, hrole, hcalls, hid, ih]

theorem shorten_systems :
    (messages.map (c.shorten limit)).filter roundRule.skipped = messages.filter roundRule.skipped := by
  induction messages with
  | nil => rfl
  | cons m rest ih =>
    rw [List.map_cons, List.filter_cons, List.filter_cons, ih]
    rw [shorten]
    split
    · rename_i hlong
      rw [if_neg (by simp [roundRule, ModelMessage.withText, hlong.1]),
        if_neg (by simp [roundRule, hlong.1])]
    · rfl

/-! ## Leaving out rounds -/

theorem drop_rounds_spec (budget : ℤ) (current : List ℕ → ModelRequest) (olds : List (List ℕ))
    (removed : List ℕ) (count : ℕ) : ∃ k ≤ olds.length,
    c.dropRounds budget current removed count olds = (removed++(olds.take k).flatten,count+k) ∧
    (∀ j < k, budget < c.estimate (current (removed++(olds.take j).flatten))) ∧
    (k < olds.length → c.estimate (current (removed++(olds.take k).flatten)) ≤ budget) := by
  induction olds generalizing removed count with
  | nil => exact ⟨0,le_refl 0,by simp [dropRounds],by simp,by simp⟩
  | cons old rest ih =>
    by_cases hfit : c.estimate (current removed) ≤ budget
    · exact ⟨0,Nat.zero_le _,by simp [dropRounds, hfit],by simp,by simpa using hfit⟩
    · obtain ⟨k,hk,heq,hleast,hstop⟩ := ih (removed++old) (count+1)
      refine ⟨k+1,Nat.succ_le_succ hk,?_,fun j hj => ?_,fun hlt => ?_⟩
      · rw [dropRounds, if_neg hfit, heq, List.take_succ_cons, List.flatten_cons,
          List.append_assoc, Nat.add_assoc, Nat.add_comm 1 k]
      · cases j with
        | zero => simpa using hfit
        | succ j =>
          rw [List.take_succ_cons, List.flatten_cons, ← List.append_assoc]
          exact hleast j (Nat.lt_of_succ_lt_succ hj)
      · rw [List.take_succ_cons, List.flatten_cons, ← List.append_assoc]
        exact hstop (Nat.lt_of_succ_lt_succ hlt)

def remaining (limit : ℕ) (r : ModelRequest) (k : ℕ) : ModelRequest :=
  r.withMessages ((leaving k r.messages).map (c.shorten limit))

theorem remaining_paired (limit : ℕ) {r : ModelRequest} (h : validatePairs r.messages = .ok ())
    (k : ℕ) : validatePairs (c.remaining limit r k).messages = .ok () := by
  rw [remaining, ModelRequest.withMessages, validatePairs, validate_shorten]
  exact pairs_survive h k

structure Removes (budget : ℤ) (limit : ℕ) (r : ModelRequest) (k : ℕ) : Prop where
  le : k ≤ (rounds r.messages).length-1
  least : ∀ j < k, budget < c.estimate (c.remaining limit r j)
  stop : k < (rounds r.messages).length-1 → c.estimate (c.remaining limit r k) ≤ budget

theorem compact_request_spec (budget : ℤ) (limit truncated : ℕ) (r : ModelRequest)
    (hpaired : validatePairs r.messages = .ok ()) : ∃ k, c.Removes budget limit r k ∧
    c.compactRequest budget r (r.messages.map (c.shorten limit)) truncated =
      if budget < c.estimate (c.remaining limit r k) then .error currentInput
      else .ok ⟨c.remaining limit r k,c.estimate (c.remaining limit r k),k,truncated⟩ := by
  obtain ⟨k,hk,heq,hleast,hstop⟩ := c.drop_rounds_spec budget
    (fun removed => r.withMessages (Blocks.without removed (r.messages.map (c.shorten limit))))
    (rounds r.messages).dropLast [] 0
  have hcurrent : ∀ j ≤ (rounds r.messages).dropLast.length,
      r.withMessages (Blocks.without ([]++((rounds r.messages).dropLast.take j).flatten)
        (r.messages.map (c.shorten limit))) = c.remaining limit r j := by
    intro j hj
    rw [List.length_dropLast] at hj
    rw [List.nil_append, List.dropLast_eq_take, List.take_take, Nat.min_eq_left hj,
      Blocks.without_map]
    rfl
  have hlength : (rounds r.messages).dropLast.length = (rounds r.messages).length-1 :=
    List.length_dropLast
  have hvalid := c.remaining_paired limit hpaired k
  refine ⟨k,⟨hlength ▸ hk,fun j hj => ?_,fun hlt => ?_⟩,?_⟩
  · rw [← hcurrent j (by omega)]
    exact hleast j hj
  · rw [← hcurrent k hk]
    exact hstop (by omega)
  · rw [compactRequest, rounds_shorten, heq]
    simp only [hcurrent k hk, hvalid, Nat.zero_add]

/-- What `prepare` answers for paired messages: the request as it is, the
decoder's failure, or what is left of the shortened messages. -/
theorem prepare_cases (r : ModelRequest) (window : ℤ) (hpaired : validatePairs r.messages = .ok ())
    (hwindow : 1 ≤ window) (hbudget : 0 < window-reserve r) :
    (c.estimate r ≤ window-reserve r ∧ c.prepare r window =
      .ok { request := r, estimatedInputTokens := c.estimate r }) ∨
    (window-reserve r < c.estimate r ∧ ¬ c.Readable (toolLimit r window) r.messages ∧
      c.prepare r window = .error .recursion) ∨
    (window-reserve r < c.estimate r ∧ c.Readable (toolLimit r window) r.messages ∧ ∃ n k,
      c.Removes (window-reserve r) (toolLimit r window) r k ∧
      c.prepare r window =
        if window-reserve r < c.estimate (c.remaining (toolLimit r window) r k) then .error currentInput
        else .ok ⟨c.remaining (toolLimit r window) r k,
          c.estimate (c.remaining (toolLimit r window) r k),k,n⟩) := by
  rw [prepare, if_neg (by omega), hpaired]
  simp only [if_neg (not_le.mpr hbudget)]
  by_cases hfit : c.estimate r ≤ window-reserve r
  · exact Or.inl ⟨hfit,if_pos hfit⟩
  rw [if_neg hfit]
  by_cases hread : c.Readable (toolLimit r window) r.messages
  · have htrunc : c.truncateAll (perTool (window-reserve r) r.messages) r.messages = _ :=
      c.truncate_all_readable hread
    obtain ⟨k,hk,heq⟩ := c.compact_request_spec (window-reserve r) (toolLimit r window)
      (r.messages.countP (fun m => decide (c.Long (toolLimit r window) m))) r hpaired
    exact Or.inr (Or.inr ⟨not_le.mp hfit,hread,_,k,hk,by rw [htrunc]; exact heq⟩)
  · have htrunc : c.truncateAll (perTool (window-reserve r) r.messages) r.messages = _ :=
      c.truncate_all_unreadable hread
    exact Or.inr (Or.inl ⟨not_le.mp hfit,hread,by rw [htrunc]⟩)

end ContextManager

structure Compacted (c : ContextManager) (r : ModelRequest) (window : ℤ) (p : PreparedContext) :
    Prop where
  estimated : p.estimatedInputTokens = c.estimate p.request
  fits : c.estimate p.request ≤ window-reserve r
  untouched : c.estimate r ≤ window-reserve r →
    p.request = r ∧ p.removedRounds = 0 ∧ p.truncatedTools = 0
  rewritten : window-reserve r < c.estimate r → ∃ short : ModelMessage → ModelMessage,
    (∀ m, c.Shortened (toolLimit r window) m (short m)) ∧
    p.request = r.withMessages ((leaving p.removedRounds r.messages).map short) ∧
    ∀ j < p.removedRounds,
      window-reserve r < c.estimate (r.withMessages ((leaving j r.messages).map short))
  /-- A rewritten text is JSON: it prints a value without NaN and infinities. -/
  json : window-reserve r < c.estimate r → ∀ m ∈ leaving p.removedRounds r.messages,
    c.Long (toolLimit r window) m → ∀ excerpt, (compactValue excerpt (c.hint m)).nonFinite = false
  systems : p.request.messages.filter roundRule.skipped = r.messages.filter roundRule.skipped
  last : ∀ round, (rounds r.messages).getLast? = some round →
    ∀ i ∈ round, i ∉ ((rounds r.messages).take p.removedRounds).flatten
  paired : validatePairs p.request.messages = .ok ()

/-- Every result that is rewritten and kept points to no NaN and no infinity. -/
def FiniteHints (c : ContextManager) (r : ModelRequest) (window : ℤ) (k : ℕ) : Prop :=
  ∀ m ∈ leaving k r.messages, c.Long (toolLimit r window) m → ∀ payload fields,
    c.loads m.rawText = .ok payload →
    (payload.get? "result").bind (Json.get? "result_reference") = some (.obj fields) →
    asciiLength (.obj fields) ≤ 512 → (Json.obj fields).nonFinite = false

theorem hint_finite_iff (c : ContextManager) (m : ModelMessage) (excerpt : String) :
    (compactValue excerpt (c.hint m)).nonFinite = false ↔ ∀ payload fields,
      c.loads m.rawText = .ok payload →
      (payload.get? "result").bind (Json.get? "result_reference") = some (.obj fields) →
      asciiLength (.obj fields) ≤ 512 → (Json.obj fields).nonFinite = false := by
  rw [ContextManager.hint]
  cases c.loads m.rawText with
  | error e => exact iff_of_true rfl nofun
  | ok payload =>
    simp only [referenceOf]
    split
    · rename_i fields href
      split_ifs with hshort
      · have hvalue : (compactValue excerpt [("result_reference",.obj fields)]).nonFinite =
            (Json.obj fields).nonFinite := by
          simp [compactValue, Json.nonFinite, Json.nonFiniteFields]
        rw [hvalue]
        refine ⟨fun h payload' fields' heq href' _ => ?_,fun h => h payload fields rfl href hshort⟩
        cases heq
        cases href.symm.trans href'
        exact h
      · refine iff_of_true rfl (fun payload' fields' heq href' hlong => ?_)
        cases heq
        cases href.symm.trans href'
        exact absurd hlong hshort
    · rename_i hnone
      refine iff_of_true rfl (fun payload' fields heq href => ?_)
      cases heq
      exact absurd href (hnone fields)

theorem last_round_stays {k : ℕ} (hk : k ≤ (rounds messages).length-1) {round : List ℕ}
    (hlast : (rounds messages).getLast? = some round) {i : ℕ} (hi : i ∈ round) :
    i ∉ ((rounds messages).take k).flatten := by
  have hne : rounds messages ≠ [] := by
    intro hnil
    rw [hnil] at hlast
    cases hlast
  have hpos := List.length_pos_iff.mpr hne
  exact Blocks.last_not_dropped roundRule messages (by rw [rounds] at hk hpos; omega) hlast hi

theorem compacted_untouched {c : ContextManager} {r : ModelRequest} {window : ℤ}
    (hpaired : validatePairs r.messages = .ok ()) (hfit : c.estimate r ≤ window-reserve r) :
    Compacted c r window { request := r, estimatedInputTokens := c.estimate r } where
  estimated := rfl
  fits := hfit
  untouched _ := ⟨rfl,rfl,rfl⟩
  rewritten hover := absurd hfit (not_le.mpr hover)
  json hover := absurd hfit (not_le.mpr hover)
  systems := rfl
  last _ hlast _ hi := last_round_stays (Nat.zero_le _) hlast hi
  paired := hpaired

open ContextManager

theorem compacted_removed {c : ContextManager} {r : ModelRequest} {window : ℤ} {k n : ℕ}
    (hpaired : validatePairs r.messages = .ok ()) (hover : window-reserve r < c.estimate r)
    (hk : c.Removes (window-reserve r) (toolLimit r window) r k)
    (hfit : c.estimate (c.remaining (toolLimit r window) r k) ≤ window-reserve r) :
    Compacted c r window ⟨c.remaining (toolLimit r window) r k,
      c.estimate (c.remaining (toolLimit r window) r k),k,n⟩ ↔ FiniteHints c r window k := by
  refine ⟨fun h m hm hlong => (hint_finite_iff c m "").mp (h.json hover m hm hlong ""),
    fun h => ?_⟩
  exact {
    estimated := rfl
    fits := hfit
    untouched := fun h => absurd h (not_le.mpr hover)
    rewritten := fun _ => ⟨c.shorten _,c.shorten_shortened _,rfl,hk.least⟩
    json := fun _ m hm hlong excerpt => (hint_finite_iff c m excerpt).mpr (h m hm hlong)
    systems := by rw [remaining, ModelRequest.withMessages, c.shorten_systems, systems_stay]
    last := fun _ hlast _ hi => last_round_stays hk.le hlast hi
    paired := c.remaining_paired _ hpaired k }

/-- A prepared context fits, is the request itself when that fits, and otherwise
the request without the fewest oldest rounds, the long tool results shortened to
JSON texts exactly if no kept reference holds a NaN or an infinity. The second
pairing check never fails. -/
theorem compaction_is_exact (c : ContextManager) (r : ModelRequest) (window : ℤ)
    (hpaired : validatePairs r.messages = .ok ()) :
    (∀ text, c.prepare r window ≠ .error (.budget text)) ∧
    ∀ p, c.prepare r window = .ok p → (Compacted c r window p ↔
      c.estimate r ≤ window-reserve r ∨ FiniteHints c r window p.removedRounds) := by
  by_cases hwindow : window < 1
  · have heq : c.prepare r window = .error (.value "window_tokens must be a positive integer") := by
      rw [prepare, if_pos hwindow]
    rw [heq]
    exact ⟨nofun,nofun⟩
  by_cases hbudget : window-reserve r ≤ 0
  · have heq : c.prepare r window = .error outputReserve := by
      rw [prepare, if_neg hwindow, hpaired]
      exact if_pos hbudget
    rw [heq]
    exact ⟨nofun,nofun⟩
  rcases c.prepare_cases r window hpaired (by omega) (by omega) with
    ⟨hfit,heq⟩ | ⟨-,-,heq⟩ | ⟨hover,-,n,k,hk,heq⟩
  · rw [heq]
    refine ⟨nofun,fun p hp => ?_⟩
    cases hp
    exact iff_of_true (compacted_untouched hpaired hfit) (Or.inl hfit)
  · rw [heq]
    exact ⟨nofun,nofun⟩
  · rw [heq]
    split
    · exact ⟨nofun,nofun⟩
    · rename_i hsmall
      refine ⟨nofun,fun p hp => ?_⟩
      cases hp
      rw [compacted_removed hpaired hover hk (not_lt.mp hsmall), or_iff_right (not_le.mpr hover)]

def textReader : ContextManager := ⟨utf8TokenEstimator,8192,by decide,fun _ => .error .value⟩

def conversation (questions : ℕ) (text : String) : ModelRequest where
  messages :=
    [.plain .user "a" (by decide),.plain .assistant "b" (by decide)]++
    List.replicate questions (.plain .user "q" (by decide))++
    [{ role := .assistant, toolCalls := [⟨"c","t",[]⟩], shape := by decide },
      { role := .tool, content := [.text text], toolCallId := some "c",
        shape := ⟨fun _ => by decide,fun h => absurd rfl h,fun h => absurd rfl h,Or.inl (by simp)⟩ }]
  maxOutputTokens := 1

def longText : String := String.ofList (List.replicate 100 'x')

def shortText : String := "\x7b\"truncated\": true, \"excerpt\": \"\"\x7d"

theorem long_result_shortened :
    validatePairs (conversation 1 longText).messages = .ok () ∧
    textReader.prepare (conversation 1 longText) 180 =
      .ok ⟨(conversation 1 longText).withMessages ((conversation 1 shortText).messages.drop 2),161,1,1⟩ ∧
    Compacted textReader (conversation 1 longText) 180
      ⟨(conversation 1 longText).withMessages ((conversation 1 shortText).messages.drop 2),161,1,1⟩ := by
  have hpaired : validatePairs (conversation 1 longText).messages = .ok () := by decide +kernel
  have hprepared : textReader.prepare (conversation 1 longText) 180 =
      .ok ⟨(conversation 1 longText).withMessages
        ((conversation 1 shortText).messages.drop 2),161,1,1⟩ := by
    decide +kernel
  exact ⟨hpaired,hprepared,((compaction_is_exact textReader _ 180 hpaired).2 _ hprepared).mpr
    (Or.inr nofun)⟩

def nanText : String :=
  "\x7b\"result\": \x7b\"result_reference\": \x7b\"at\": NaN\x7d\x7d, \"text\": \"xxxxxxxxxxxxxxxx\"\x7d"

def nanReader : ContextManager :=
  { textReader with
    loads := fun text => if text = nanText then
        .ok (.obj [("result",.obj [("result_reference",.obj [("at",.float "nan")])]),
          ("text",.str "xxxxxxxxxxxxxxxx")])
      else .error .value }

/-- The excerpt of a result that points to NaN is written with it, and is no JSON. -/
theorem nan_reference_is_kept :
    validatePairs (conversation 1 nanText).messages = .ok () ∧
    ((nanReader.prepare (conversation 1 nanText) 200).toOption.bind
      (fun p => p.request.messages.getLast?)).map ModelMessage.rawText =
      some "\x7b\"truncated\": true, \"excerpt\": \"\", \"result_reference\": \x7b\"at\": NaN\x7d\x7d" := by
  decide +kernel

/-- Preparing a prepared request again returns it, and removes and truncates nothing. -/
theorem prepare_is_idempotent (c : ContextManager) (r : ModelRequest) (window : ℤ) :
    (c.prepare r window >>= fun p => c.prepare p.request window) =
      (c.prepare r window).map fun p =>
        { request := p.request, estimatedInputTokens := p.estimatedInputTokens } := by
  -- A request with the same reserve that fits is returned as it is.
  have hagain : ∀ q : ModelRequest, ¬window < 1 → validatePairs q.messages = .ok () →
      ¬window-reserve q ≤ 0 → c.estimate q ≤ window-reserve q →
      c.prepare q window = .ok { request := q, estimatedInputTokens := c.estimate q } := by
    intro q hwindow hpaired hbudget hfit
    rw [prepare, if_neg hwindow, hpaired]
    exact (if_neg hbudget).trans (if_pos hfit)
  by_cases hwindow : window < 1
  · rw [prepare, if_pos hwindow]
    rfl
  cases hpaired : validatePairs r.messages with
  | error e =>
    rw [prepare, if_neg hwindow, hpaired]
    rfl
  | ok =>
    by_cases hbudget : window-reserve r ≤ 0
    · rw [prepare, if_neg hwindow, hpaired]
      simp only [if_pos hbudget]
      rfl
    rcases c.prepare_cases r window hpaired (by omega) (by omega) with
      ⟨hfit,heq⟩ | ⟨-,-,heq⟩ | ⟨hover,-,n,k,hk,heq⟩
    · rw [heq]
      exact heq
    · rw [heq]
      rfl
    · rw [heq]
      split_ifs with hlarge
      · rfl
      · exact hagain _ hwindow (c.remaining_paired _ hpaired k) hbudget (not_lt.mp hlarge)

/-! ## When the current turn is prepared -/

/-- The bytes of the rewritten form of a long result against those of the result. -/
def ContextManager.growth (c : ContextManager) (limit : ℕ) (m : ModelMessage) : ℤ :=
  if c.Long limit m then c.estimator (c.rewrittenText limit m)-(m.content.map c.contentTokens).sum
  else 0

theorem shorten_tokens (c : ContextManager) (limit : ℕ) (m : ModelMessage) :
    c.messageTokens (c.shorten limit m) = c.messageTokens m+c.growth limit m := by
  rw [shorten, growth]
  split
  · change 16+c.estimator (m.name.getD "")+c.estimator (m.toolCallId.getD "")+
      ([.text (c.rewrittenText limit m)].map c.contentTokens).sum+
      (if m.toolCalls = [] then 0 else c.jsonCost (.arr (m.toolCalls.map ModelToolCall.json))) = _
    rw [messageTokens, List.map_singleton, List.sum_singleton, contentTokens]
    ring
  · rw [add_zero]

theorem remaining_estimate (c : ContextManager) (limit : ℕ) (r : ModelRequest) (k : ℕ) :
    c.estimate (c.remaining limit r k) = c.estimate (r.withMessages (leaving k r.messages))+
      ((leaving k r.messages).map (c.growth limit)).sum := by
  simp only [estimate, remaining, ModelRequest.withMessages, List.map_map, Function.comp_def,
    shorten_tokens, List.sum_map_add]
  ring

section Utf8
variable {c : ContextManager} (hutf8 : c.estimator = utf8TokenEstimator)
include hutf8

theorem estimator_nonneg (text : String) : 0 ≤ c.estimator text := by
  rw [hutf8]
  exact Int.natCast_nonneg _

theorem message_tokens_nonneg (m : ModelMessage) : 0 ≤ c.messageTokens m := by
  have hname := estimator_nonneg hutf8 (m.name.getD "")
  have hid := estimator_nonneg hutf8 (m.toolCallId.getD "")
  have hcalls := estimator_nonneg hutf8 (Encoder.compact.encode (.arr (m.toolCalls.map ModelToolCall.json)))
  have hcontent : 0 ≤ (m.content.map c.contentTokens).sum := by
    apply List.sum_nonneg
    intro n hn
    obtain ⟨part,-,rfl⟩ := List.mem_map.mp hn
    cases part with
    | text t => exact estimator_nonneg hutf8 t
    | image _ _ _ => exact Int.natCast_nonneg _
    | document _ _ d => exact Int.add_nonneg (Int.natCast_nonneg _) (Int.natCast_nonneg _)
  rw [messageTokens, jsonCost]
  split <;> omega

theorem estimate_le_of_sublist (r : ModelRequest) {fewer messages : List ModelMessage}
    (h : fewer.Sublist messages) :
    c.estimate (r.withMessages fewer) ≤ c.estimate (r.withMessages messages) := by
  have hsum : (fewer.map c.messageTokens).sum ≤ (messages.map c.messageTokens).sum := by
    apply (h.map c.messageTokens).sum_le_sum
    intro n hn
    obtain ⟨m,-,rfl⟩ := List.mem_map.mp hn
    exact message_tokens_nonneg hutf8 m
  simp only [estimate, ModelRequest.withMessages]
  omega

theorem estimate_pos (r : ModelRequest) : 0 < c.estimate r := by
  have htools := estimator_nonneg hutf8 (Encoder.compact.encode (.arr (r.tools.map ModelTool.json)))
  have hschema : 0 ≤ r.responseSchema.elim 0 (fun s => c.jsonCost (.obj s)) := by
    cases r.responseSchema with
    | none => exact le_refl 0
    | some s => exact estimator_nonneg hutf8 _
  have hsum : 0 ≤ (r.messages.map c.messageTokens).sum := by
    apply List.sum_nonneg
    intro n hn
    obtain ⟨m,-,rfl⟩ := List.mem_map.mp hn
    exact message_tokens_nonneg hutf8 m
  rw [estimate, jsonCost]
  omega

theorem remaining_le (limit : ℕ) (r : ModelRequest) {j k : ℕ} (h : j ≤ k) :
    c.estimate (c.remaining limit r k) ≤ c.estimate (c.remaining limit r j) := by
  apply estimate_le_of_sublist hutf8
  apply List.Sublist.map
  apply Blocks.without_sublist
  intro i hi
  obtain ⟨round,hround,hmem⟩ := List.mem_flatten.mp hi
  exact List.mem_flatten.mpr ⟨round,(List.take_subset_take_left _ h) hround,hmem⟩

end Utf8

def controlText : String := String.ofList (List.replicate 72 '\x01')

end SuiteHarness.Models
