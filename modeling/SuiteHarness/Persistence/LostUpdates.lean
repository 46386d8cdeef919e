import SuiteHarness.Persistence.State

/-!
# Product state has no lost updates

`Moved` lists what one call can do: nothing, a replay, or a write. The accepted
writes of a key are read off the history of a run; each of them expected the
revision its predecessor wrote, and the stored row is the last one. An
idempotency record stays through every call that reads a clock before its
expiry, so a repeated command finds it.
-/

set_option autoImplicit false

namespace SuiteHarness.Persistence

open SuiteHarness.Library

variable {env : StateEnv}

theorem items_carry (items : List Json) :
    itemsCarryCredential env items = items.any (carriesCredential env) := by
  induction items with
  | nil => rfl
  | cons x xs ih => rw [itemsCarryCredential, ih, List.any_cons]

theorem fields_carry (fields : List (String × Json)) :
    fieldsCarryCredential env fields = fields.any (fun e =>
      approvalCredentialNames.contains (env.normalized e.1) || carriesCredential env e.2) := by
  induction fields with
  | nil => rfl
  | cons e rest ih => rw [fieldsCarryCredential, ih, List.any_cons]

theorem key_within_clean {v : Json} (h : carriesCredential env v = false) {key : String}
    (hkey : v.KeyWithin key) : env.normalized key ∉ approvalCredentialNames := by
  induction hkey with
  | here fields value hmem =>
    rw [carriesCredential, fields_carry, List.any_eq_false] at h
    have hname := h (key,value) hmem
    rw [Bool.or_eq_true, not_or] at hname
    simpa using hname.1
  | field fields name value hmem hvalue ih =>
    rw [carriesCredential, fields_carry, List.any_eq_false] at h
    have hchild := h (name,value) hmem
    rw [Bool.or_eq_true, not_or] at hchild
    exact ih (Bool.eq_false_of_not_eq_true hchild.2)
  | item items value hmem hvalue ih =>
    rw [carriesCredential, items_carry, List.any_eq_false] at h
    exact ih (Bool.eq_false_of_not_eq_true (h value hmem))

theorem carries_canon (v : Json) : carriesCredential env v.canon = carriesCredential env v := by
  induction v using Json.induction_within with
  | harr items ih =>
    rw [Json.canon_arr, carriesCredential, carriesCredential, items_carry, items_carry,
      Bool.eq_iff_iff]
    simp only [List.any_eq_true, List.mem_map, exists_exists_and_eq_and]
    exact exists_congr fun x => and_congr_right fun hx => by rw [ih x hx]
  | hobj fields ih =>
    rw [Json.canon_obj, carriesCredential, carriesCredential, fields_carry, fields_carry,
      Bool.eq_iff_iff]
    simp only [List.any_eq_true, Json.mem_sort_keys, List.mem_map, exists_exists_and_eq_and]
    exact exists_congr fun e => and_congr_right fun he => by rw [ih e he]
  | hnull | hbool | hint | hfloat | hstr => rfl

theorem canonical_json_canon (v : Json) : canonicalJson v.canon = canonicalJson v := by
  rw [canonicalJson, canonicalJson, Json.non_finite_canon, Json.render_canon]

structure CompareAndSet.Repeats (c again : CompareAndSet) : Prop where
  stateKey : again.stateKey = c.stateKey
  value : again.value.canon = c.value.canon
  expectedRevision : again.expectedRevision = c.expectedRevision
  idempotencyKey : again.idempotencyKey = c.idempotencyKey

theorem refusal_none (c : CompareAndSet) : c.refusal env = none ↔
    0 ≤ c.expectedRevision ∧ isIdentifier c.idempotencyKey = true ∧
      carriesCredential env c.value = false ∧ ∃ text, canonicalJson c.value = some text ∧
        utf8Length text ≤ (env.stores c.store).maxValueBytes := by
  unfold CompareAndSet.refusal
  by_cases hrevision : c.expectedRevision < 0
  · simp [hrevision, not_le.mpr hrevision]
  · cases hkey : isIdentifier c.idempotencyKey <;> cases hvalue : carriesCredential env c.value <;>
      cases htext : canonicalJson c.value <;> simp [hrevision, not_lt.mp hrevision]

theorem refusal_repeats {c again : CompareAndSet} (h : c.Repeats again)
    (hbytes : (env.stores c.store).maxValueBytes ≤ (env.stores again.store).maxValueBytes)
    (hc : c.refusal env = none) : again.refusal env = none := by
  obtain ⟨hrevision,hkey,hvalue,text,htext,hsize⟩ := (refusal_none c).mp hc
  refine (refusal_none again).mpr ⟨?_,?_,?_,text,?_,hsize.trans hbytes⟩
  · rw [h.expectedRevision]
    exact hrevision
  · rw [h.idempotencyKey]
    exact hkey
  · rw [← carries_canon, h.value, carries_canon]
    exact hvalue
  · rw [← canonical_json_canon, h.value, canonical_json_canon]
    exact htext

theorem command_digest_repeats {c again : CompareAndSet} (hkey : again.scope = c.scope)
    (hik : again.idempotencyKey = c.idempotencyKey) :
    c.commandDigest = again.commandDigest ↔ c.Repeats again := by
  constructor
  · intro h
    rw [CompareAndSet.commandDigest, CompareAndSet.commandDigest, CommandDigest.mk.injEq] at h
    obtain ⟨hstate,hvalue,hrevision⟩ := h
    exact ⟨Prod.ext hkey hstate.symm,(congrArg Digest.value hvalue).symm,hrevision.symm,hik⟩
  · intro h
    rw [CompareAndSet.commandDigest, CompareAndSet.commandDigest, h.stateKey, h.expectedRevision,
      digest, digest, h.value]

def StateRecord.canon (record : StateRecord) : StateRecord :=
  { record with value := record.value.canon }

theorem build_ok (record built : StateRecord) :
    record.build = .ok built ↔ record = built ∧ record.createdAt ≤ record.updatedAt := by
  unfold StateRecord.build
  split
  · rename_i hlt
    simp [not_le.mpr hlt]
  · rename_i hle
    simp [not_lt.mp hle]

namespace ProductState

inductive Moved (env : StateEnv) (s : ProductState) (c : CompareAndSet) :
    ProductState → StateAnswer → Prop where
  | raised (error : StateError) : Moved env s c s (.error error)
  | replayed (row : StateIdempotencyRow) (hrefusal : c.refusal env = none)
      (hrow : (s.purge env c).idempotency.get? (c.scope,c.idempotencyKey) = some row)
      (hdigest : row.commandDigest = c.commandDigest) :
      Moved env s c (s.purge env c) (.ok ⟨row.idempotentRecord c.scope,true⟩)
  | wrote (hrefusal : c.refusal env = none)
      (habsent : (s.purge env c).idempotency.get? (c.scope,c.idempotencyKey) = none)
      (hrevision : (actualRevision (s.state.get? c.stateKey) : ℤ) = c.expectedRevision)
      (hroom : (s.purge env c).capacityRefusal env c = none)
      (htimes : (s.written c).createdAt ≤ c.now) :
      Moved env s c ((s.purge env c).write env c (s.written c)) (.ok ⟨s.written c,false⟩)

variable (key : ProductStateKey) (s : ProductState)

theorem step_moved (c : CompareAndSet) :
    Moved env s c (s.compareAndSet env c).1 (s.compareAndSet env c).2 := by
  unfold compareAndSet
  split
  · exact Moved.raised _
  · rename_i hrefusal
    split
    · exact Moved.raised _
    · rename_i next result htransaction
      unfold transaction at htransaction
      dsimp only at htransaction
      split at htransaction
      · rename_i row hrow
        split at htransaction
        · cases htransaction
        · rename_i hdigest
          cases hbuild : (row.idempotentRecord c.scope).build with
          | error error => cases (hbuild ▸ htransaction)
          | ok record =>
            rw [hbuild] at htransaction
            cases htransaction
            obtain ⟨rfl,-⟩ := (build_ok _ _).mp hbuild
            exact Moved.replayed row hrefusal hrow (not_not.mp hdigest)
      · rename_i habsent
        split at htransaction
        · cases htransaction
        · rename_i hrevision
          split at htransaction
          · cases htransaction
          · rename_i hroom
            cases hbuild : ((s.purge env c).written c).build with
            | error error => cases (hbuild ▸ htransaction)
            | ok record =>
              rw [hbuild] at htransaction
              cases htransaction
              obtain ⟨rfl,htimes⟩ := (build_ok _ _).mp hbuild
              exact Moved.wrote hrefusal habsent (not_not.mp hrevision) hroom htimes

abbrev StateHistory := List (CompareAndSet × StateAnswer)

def acceptedWrite (e : CompareAndSet × StateAnswer) : Option (CompareAndSet × StateRecord) :=
  match e.2 with
  | .ok ⟨record,false⟩ => if e.1.stateKey = key then some (e.1,record) else none
  | _ => none

def accepted (history : StateHistory) : List (CompareAndSet × StateRecord) :=
  history.filterMap (acceptedWrite key)

def Chain (writes : List (CompareAndSet × StateRecord)) : Prop :=
  ∀ (i : ℕ) (w : CompareAndSet × StateRecord), writes[i]? = some w →
    w.1.expectedRevision = i ∧ w.2.revision = i+1 ∧ w.2.value = w.1.value ∧
      w.2.updatedAt = w.1.now

variable {writes : List (CompareAndSet × StateRecord)}

theorem chain_append {w : CompareAndSet × StateRecord} (h : Chain writes)
    (hw : w.1.expectedRevision = writes.length ∧ w.2.revision = writes.length+1 ∧
      w.2.value = w.1.value ∧ w.2.updatedAt = w.1.now) : Chain (writes ++ [w]) := by
  intro i v hv
  rcases lt_trichotomy i writes.length with hlt | rfl | hgt
  · rw [List.getElem?_append_left hlt] at hv
    exact h i v hv
  · rw [List.getElem?_concat_length] at hv
    cases hv
    exact hw
  · rw [List.getElem?_eq_none (by simp; omega)] at hv
    cases hv

theorem chain_last (h : Chain writes) :
    actualRevision (writes.getLast?.map (fun w => stateRow w.2)) = writes.length := by
  cases hl : writes.getLast? with
  | none =>
    rw [List.getLast?_eq_none_iff.mp hl]
    rfl
  | some w =>
    have hne : writes ≠ [] := by
      rintro rfl
      cases hl
    rw [List.getLast?_eq_getElem?] at hl
    have hpos := List.length_pos_of_ne_nil hne
    have hrevision := (h _ w hl).2.1
    show w.2.revision = writes.length
    omega

def Follows (history : StateHistory) (s : ProductState) : Prop :=
  ∀ key, Chain (accepted key history) ∧
    s.state.get? key = (accepted key history).getLast?.map (fun w => stateRow w.2)

theorem accepted_append (history : StateHistory) (e : CompareAndSet × StateAnswer) :
    accepted key (history ++ [e]) = accepted key history ++ (acceptedWrite key e).toList := by
  rw [accepted, List.filterMap_append]
  cases h : acceptedWrite key e with
  | none => simp [accepted, h]
  | some w => simp [accepted, h]

variable {answer : StateAnswer} {c : CompareAndSet} {row : StateIdempotencyRow} {t : ProductState}

theorem moved_follows {s : ProductState} (history : StateHistory) (hm : Moved env s c t answer)
    (h : Follows history s) : Follows (history ++ [(c,answer)]) t := by
  intro key
  rw [accepted_append]
  cases hm with
  | raised error =>
    rw [show acceptedWrite key (c,.error error) = none from rfl, Option.toList_none,
      List.append_nil]
    exact h key
  | replayed row =>
    rw [show acceptedWrite key (c,.ok ⟨row.idempotentRecord c.scope,true⟩) = none from rfl,
      Option.toList_none, List.append_nil]
    exact h key
  | wrote hrefusal habsent hrevision =>
    by_cases hkey : c.stateKey = key
    · subst hkey
      obtain ⟨hchain,hrow⟩ := h c.stateKey
      have hactual := chain_last hchain
      rw [← hrow] at hactual
      rw [show acceptedWrite c.stateKey (c,.ok ⟨s.written c,false⟩) = some (c,s.written c) by
        simp [acceptedWrite], Option.toList_some]
      constructor
      · refine chain_append hchain ⟨?_,?_,rfl,rfl⟩
        · rw [← hrevision, hactual]
        · exact congrArg (·+1) hactual
      · rw [List.getLast?_concat]
        exact (Dict.get_set _ _ _ _).trans (if_pos rfl)
    · rw [show acceptedWrite key (c,.ok ⟨s.written c,false⟩) = none by
        simp [acceptedWrite, hkey], Option.toList_none, List.append_nil]
      refine ⟨(h key).1,?_⟩
      rw [← (h key).2]
      exact (Dict.get_set _ _ _ _).trans (if_neg (Ne.symm hkey))

variable (calls : List CompareAndSet)

theorem run_follows :
    Follows (Machine.trace (compareAndSet env) {} calls)
      (Machine.final (compareAndSet env) {} calls) := by
  refine Machine.history_invariant_along (compareAndSet env) (fun _ _ => true) Follows
    (fun history s c _ h => moved_follows history (step_moved s c) h)
    {} calls (Machine.along_true _ _ _) ?_
  intro key
  exact ⟨nofun,rfl⟩

def ReadsBefore (env : StateEnv) (scope : StateScope) (bound : ℤ)
    (e : CompareAndSet × StateAnswer) : Prop :=
  e.1.scope = scope → (∃ result, e.2 = .ok result) → env.epochUs e.1.now < bound

theorem purge_keeps {s : ProductState} {key : StateScope × String}
    (hrow : s.idempotency.get? key = some row)
    (hbefore : c.scope = key.1 → env.epochUs c.now < row.expiresAtUs) :
    (s.purge env c).idempotency.get? key = some row := by
  refine (Dict.get_delete_expired _ _ _ _ _ _).mpr ⟨hrow,?_⟩
  rintro ⟨hscope,hle⟩
  exact absurd (hbefore hscope.symm) (not_lt.mpr hle)

theorem moved_keeps (t : ProductState) (c : CompareAndSet) (answer : StateAnswer)
    (hm : Moved env s c t answer) (key : StateScope × String) (row : StateIdempotencyRow)
    (hrow : s.idempotency.get? key = some row)
    (hbefore : ReadsBefore env key.1 row.expiresAtUs (c,answer)) :
    t.idempotency.get? key = some row := by
  cases hm with
  | raised => exact hrow
  | replayed =>
    exact purge_keeps hrow (fun hscope => hbefore hscope ⟨_,rfl⟩)
  | wrote hrefusal habsent =>
    have hkept := purge_keeps hrow (fun hscope => hbefore hscope ⟨_,rfl⟩)
    have hkey : key ≠ (c.scope,c.idempotencyKey) := by
      rintro rfl
      cases habsent.symm.trans hkept
    exact (Dict.get_set _ _ _ _).trans ((if_neg hkey).trans hkept)

theorem run_keeps (key : StateScope × String) (row : StateIdempotencyRow)
    (hrow : s.idempotency.get? key = some row)
    (hbefore : ∀ e ∈ Machine.trace (compareAndSet env) s calls,
      ReadsBefore env key.1 row.expiresAtUs e) :
    (Machine.final (compareAndSet env) s calls).idempotency.get? key = some row := by
  induction calls generalizing s with
  | nil => exact hrow
  | cons c calls ih =>
    rw [Machine.trace, List.forall_mem_cons] at hbefore
    exact ih _ (moved_keeps s _ c _ (step_moved s c) key row hrow hbefore.1) hbefore.2

/-- A call that finds an idempotency record replays it or is refused. -/
theorem found_answer {s : ProductState}
    (hrow : s.idempotency.get? (c.scope,c.idempotencyKey) = some row)
    (hbefore : env.epochUs c.now < row.expiresAtUs)
    (htimes : row.resultCreatedAt ≤ row.resultUpdatedAt) :
    (s.compareAndSet env c).2 = match c.refusal env with
      | some error => .error error
      | none => if row.commandDigest = c.commandDigest then
          .ok ⟨row.idempotentRecord c.scope,true⟩
        else .error (.idempotencyConflict
          "idempotency_key was already used for a different state command") := by
  have hfound := purge_keeps hrow (fun _ => hbefore)
  have hbuild : (row.idempotentRecord c.scope).build = .ok (row.idempotentRecord c.scope) :=
    (build_ok _ _).mpr ⟨rfl,htimes⟩
  unfold compareAndSet
  cases hrefusal : c.refusal env with
  | some error => rfl
  | none =>
    unfold transaction
    dsimp only
    rw [hfound]
    dsimp only
    by_cases hdigest : row.commandDigest = c.commandDigest
    · rw [if_neg (not_not.mpr hdigest), if_pos hdigest, hbuild]
      rfl
    · rw [if_pos hdigest, if_neg hdigest]

/-- A later call with the idempotency key of an accepted write, made before the
record expires. -/
theorem repeated_answer {calls : List CompareAndSet} {again : CompareAndSet}
    {record : StateRecord} {before mid after : StateHistory}
    (h : Machine.trace (compareAndSet env) {} calls =
      before ++ (c,.ok ⟨record,false⟩)::(mid ++ (again,answer)::after))
    (hscope : again.scope = c.scope) (hkey : again.idempotencyKey = c.idempotencyKey)
    (hmid : ∀ e ∈ mid, ReadsBefore env c.scope (c.expiresAtUs env) e)
    (hagain : env.epochUs again.now < c.expiresAtUs env) :
    (¬c.Repeats again → ∃ error, answer = .error error) ∧
    (c.Repeats again →
      (env.stores c.store).maxValueBytes ≤ (env.stores again.store).maxValueBytes →
      ∃ replayed, answer = .ok ⟨replayed,true⟩ ∧ replayed.canon = record.canon) := by
  obtain ⟨js,ks,rfl,rfl,hanswer,hafter⟩ := Machine.trace_split _ _ _ _ _ _ h
  obtain ⟨ms,ns,rfl,rfl,hanswer',-⟩ := Machine.trace_split _ _ _ _ _ _ hafter.symm
  dsimp only at hanswer hanswer' hmid
  set s := Machine.final (compareAndSet env) {} js
  have hm : Moved env s c (s.compareAndSet env c).1 (s.compareAndSet env c).2 := step_moved s c
  rw [← hanswer] at hm
  generalize (s.compareAndSet env c).1 = t at hm hmid hanswer'
  cases hm with
  | wrote hrefusal habsent hrevision hroom htimes =>
    set row := idempotencyRow env c (s.written c) with hrowdef
    have hrow : ((s.purge env c).write env c (s.written c)).idempotency.get?
        (again.scope,again.idempotencyKey) = some row := by
      rw [hscope, hkey]
      exact (Dict.get_set _ _ _ _).trans (if_pos rfl)
    have hkept := run_keeps _ ms _ row hrow (by rwa [hscope])
    have hfound := found_answer hkept hagain htimes
    rw [← hanswer'] at hfound
    have hdigest : row.commandDigest = again.commandDigest ↔ c.Repeats again :=
      command_digest_repeats hscope hkey
    constructor
    · intro hdiffers
      rw [if_neg (hdigest.not.mpr hdiffers)] at hfound
      cases hr : again.refusal env with
      | some error => exact ⟨error,by rw [hfound, hr]⟩
      | none => exact ⟨_,by rw [hfound, hr]⟩
    · intro hsame hbytes
      rw [if_pos (hdigest.mpr hsame), refusal_repeats hsame hbytes hrefusal] at hfound
      refine ⟨_,hfound,?_⟩
      rw [hscope]
      exact congrArg (fun v => { s.written c with value := v }) (Json.canon_canon c.value)

structure Clean (env : StateEnv) (s : ProductState) : Prop where
  state : ∀ key row, s.state.get? key = some row → carriesCredential env row.valueJson = false
  idempotency : ∀ key row, s.idempotency.get? key = some row →
    carriesCredential env row.resultValueJson = false

theorem purge_origin {s : ProductState} {key : StateScope × String}
    (h : (s.purge env c).idempotency.get? key = some row) : s.idempotency.get? key = some row :=
  ((Dict.get_delete_expired _ _ _ _ _ _).mp h).1

theorem moved_clean {s : ProductState} (hm : Moved env s c t answer) (h : Clean env s) :
    Clean env t := by
  cases hm with
  | raised => exact h
  | replayed => exact ⟨h.state,fun key row hrow => h.idempotency key row (purge_origin hrow)⟩
  | wrote hrefusal =>
    have hvalue : carriesCredential env c.value.canon = false := by
      rw [carries_canon]
      exact ((refusal_none c).mp hrefusal).2.2.1
    constructor
    · intro key row hrow
      rw [write, Dict.get_set] at hrow
      split at hrow
      · cases hrow
        exact hvalue
      · exact h.state key row hrow
    · intro key row hrow
      rw [write, Dict.get_set] at hrow
      split at hrow
      · cases hrow
        exact hvalue
      · exact h.idempotency key row (purge_origin hrow)

theorem run_clean : Clean env (Machine.final (compareAndSet env) {} calls) :=
  Machine.final_invariant (compareAndSet env) (Clean env)
    (fun s c h => moved_clean (step_moved s c) h) {} calls ⟨nofun,nofun⟩

structure Bounded (scope : StateScope) (records idempotencyRecords : ℕ) (s : ProductState) :
    Prop where
  state : s.state.countIn scope ≤ records
  idempotency : s.idempotency.countIn scope ≤ idempotencyRecords

theorem purge_count (c : CompareAndSet) (scope : StateScope) :
    (s.purge env c).idempotency.countIn scope ≤ s.idempotency.countIn scope :=
  Dict.count_delete_expired _ _ _ _ _

theorem room (c : CompareAndSet) (h : s.capacityRefusal env c = none) :
    (s.state.get? c.stateKey = none →
      s.state.countIn c.scope < (env.stores c.store).maxRecords) ∧
      s.idempotency.countIn c.scope < (env.stores c.store).maxIdempotencyRecords := by
  unfold capacityRefusal at h
  dsimp only at h
  split at h
  · cases h
  · rename_i hstate
    split at h
    · cases h
    · rename_i hidempotency
      refine ⟨fun hnone => ?_,not_le.mp hidempotency⟩
      by_contra hfull
      exact hstate ⟨by rw [hnone]; rfl,not_lt.mp hfull⟩

theorem moved_bounded {scope : StateScope} {records idempotencyRecords : ℕ}
    (hrecords : ∀ i, (env.stores i).maxRecords ≤ records)
    (hidempotency : ∀ i, (env.stores i).maxIdempotencyRecords ≤ idempotencyRecords)
    {s : ProductState} (hm : Moved env s c t answer)
    (h : Bounded scope records idempotencyRecords s) :
    Bounded scope records idempotencyRecords t := by
  cases hm with
  | raised => exact h
  | replayed => exact ⟨h.state,(purge_count s c scope).trans h.idempotency⟩
  | wrote hrefusal habsent hrevision hroom =>
    obtain ⟨hstate,hkeys⟩ := room _ c hroom
    have hmax := hrecords c.store
    have hmax' := hidempotency c.store
    constructor
    · cases hrow : s.state.get? c.stateKey with
      | none =>
        have hlt := hstate hrow
        have hcount := Dict.count_set_absent scope s.state c.stateKey (stateRow (s.written c)) hrow
        refine le_of_eq_of_le hcount ?_
        split
        · rename_i hscope
          subst hscope
          exact (Nat.succ_le_of_lt hlt).trans hmax
        · exact h.state
      | some old =>
        exact le_of_eq_of_le (Dict.count_set_present scope s.state c.stateKey old
          (stateRow (s.written c)) hrow) h.state
    · have hcount := Dict.count_set_absent scope _ _ (idempotencyRow env c (s.written c)) habsent
      refine le_of_eq_of_le hcount ?_
      split
      · rename_i hscope
        subst hscope
        exact (Nat.succ_le_of_lt hkeys).trans hmax'
      · exact (purge_count s c scope).trans h.idempotency

theorem run_bounded (scope : StateScope) {records idempotencyRecords : ℕ}
    (hrecords : ∀ i, (env.stores i).maxRecords ≤ records)
    (hidempotency : ∀ i, (env.stores i).maxIdempotencyRecords ≤ idempotencyRecords)
    (calls : List CompareAndSet) :
    Bounded scope records idempotencyRecords (Machine.final (compareAndSet env) {} calls) :=
  Machine.final_invariant (compareAndSet env) (Bounded scope records idempotencyRecords)
    (fun s c h => moved_bounded hrecords hidempotency
      (step_moved s c) h) {} calls ⟨Nat.zero_le _,Nat.zero_le _⟩

theorem moved_of_answer {s : ProductState} (h : (s.compareAndSet env c).2 = answer) :
    Moved env s c (s.compareAndSet env c).1 answer := by
  rw [← h]
  exact step_moved s c

theorem raise_unchanged (c : CompareAndSet) (error : StateError)
    (h : (s.compareAndSet env c).2 = .error error) : (s.compareAndSet env c).1 = s := by
  have hm := moved_of_answer h
  generalize (s.compareAndSet env c).1 = t at hm
  cases hm
  rfl

theorem replay_unchanged {s : ProductState} {record : StateRecord}
    (h : (s.compareAndSet env c).2 = .ok ⟨record,true⟩) :
    (s.compareAndSet env c).1 = s.purge env c := by
  have hm := moved_of_answer h
  generalize (s.compareAndSet env c).1 = t at hm
  cases hm
  rfl

theorem write_advances (c : CompareAndSet) (record : StateRecord)
    (h : (s.compareAndSet env c).2 = .ok ⟨record,false⟩) :
    (actualRevision (s.state.get? c.stateKey) : ℤ) = c.expectedRevision ∧
      record.revision = actualRevision (s.state.get? c.stateKey)+1 ∧
      (s.compareAndSet env c).1.state = s.state.set c.stateKey (stateRow record) := by
  have hm := moved_of_answer h
  generalize (s.compareAndSet env c).1 = t at hm
  cases hm with
  | wrote hrefusal habsent hrevision => exact ⟨hrevision,rfl,rfl⟩

/-- In every run: a write is accepted at the current revision only and adds one
to it, so the accepted writes of a key form a chain that ends in the stored
row; a repeated command gets its first record back and changes no state row, a
different one under the same key raises; a call that raises changes nothing;
the tables keep their limits; no stored value holds a credential key. -/
theorem product_state_keeps_updates (env : StateEnv) (calls : List CompareAndSet) :
    let s := Machine.final (compareAndSet env) {} calls
    let history := Machine.trace (compareAndSet env) {} calls
    (∀ c record, (s.compareAndSet env c).2 = .ok ⟨record,false⟩ →
      (actualRevision (s.state.get? c.stateKey) : ℤ) = c.expectedRevision ∧
        record.revision = actualRevision (s.state.get? c.stateKey)+1 ∧
        (s.compareAndSet env c).1.state = s.state.set c.stateKey (stateRow record)) ∧
    (∀ key, Chain (accepted key history) ∧
      s.state.get? key = (accepted key history).getLast?.map (fun w => stateRow w.2)) ∧
    (∀ c again record answer before mid after,
      history = before ++ (c,.ok ⟨record,false⟩)::(mid ++ (again,answer)::after) →
      again.scope = c.scope → again.idempotencyKey = c.idempotencyKey →
      (∀ e ∈ mid, ReadsBefore env c.scope (c.expiresAtUs env) e) →
      env.epochUs again.now < c.expiresAtUs env →
      (¬c.Repeats again → ∃ error, answer = .error error) ∧
      (c.Repeats again →
        (env.stores c.store).maxValueBytes ≤ (env.stores again.store).maxValueBytes →
        ∃ replayed, answer = .ok ⟨replayed,true⟩ ∧ replayed.canon = record.canon)) ∧
    (∀ c record, (s.compareAndSet env c).2 = .ok ⟨record,true⟩ →
      (s.compareAndSet env c).1.state = s.state ∧
        (s.compareAndSet env c).1.idempotency = s.idempotency.deleteExpired c.scope
          StateIdempotencyRow.expiresAtUs (env.epochUs c.now)) ∧
    (∀ c error, (s.compareAndSet env c).2 = .error error → (s.compareAndSet env c).1 = s) ∧
    (∀ scope records idempotencyRecords, (∀ i, (env.stores i).maxRecords ≤ records) →
      (∀ i, (env.stores i).maxIdempotencyRecords ≤ idempotencyRecords) →
      s.state.countIn scope ≤ records ∧ s.idempotency.countIn scope ≤ idempotencyRecords) ∧
    (∀ stateKey row key, s.state.get? stateKey = some row → row.valueJson.KeyWithin key →
      env.normalized key ∉ approvalCredentialNames) ∧
    ∀ idempotencyKey row key, s.idempotency.get? idempotencyKey = some row →
      row.resultValueJson.KeyWithin key → env.normalized key ∉ approvalCredentialNames := by
  intro s history
  have hclean : Clean env s := run_clean calls
  refine ⟨write_advances s,run_follows calls,?_,?_,raise_unchanged s,?_,?_,?_⟩
  · intro c again record answer before mid after hsplit hscope hkey hmid hagain
    exact repeated_answer hsplit hscope hkey hmid hagain
  · intro c record hreplay
    rw [replay_unchanged hreplay]
    exact ⟨rfl,rfl⟩
  · intro scope records idempotencyRecords hrecords hidempotency
    have hbounded := run_bounded scope hrecords hidempotency calls
    exact ⟨hbounded.state,hbounded.idempotency⟩
  · intro stateKey row key hrow hkey
    exact key_within_clean (hclean.state stateKey row hrow) hkey
  · intro idempotencyKey row key hrow hkey
    exact key_within_clean (hclean.idempotency idempotencyKey row hrow) hkey

end ProductState
end SuiteHarness.Persistence
