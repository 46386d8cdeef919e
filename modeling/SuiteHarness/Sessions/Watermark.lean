import SuiteHarness.Sessions.Accounting

/-!
# The memory-invalidation watermark

A session record names the revision of its latest invalidation and, for each
business source, the newest version that an invalidation carried. Both are read
off the transcript: only a stored invalidation moves them, and only forward. An
invalidation of an old version stores nothing and is answered with the event at
the watermark, unless its idempotency key was used before.
-/

set_option autoImplicit false

namespace SuiteHarness.Sessions
open SuiteHarness.Library

def invalidations (events : List TranscriptEvent) : List TranscriptEvent :=
  events.filter (fun e => decide (e.type = .memoryInvalidated))

def sourceOf (e : TranscriptEvent) : Option (String × ℕ) :=
  match memoryInvalidationSource e.payload with
  | .ok source => source
  | .error _ => none

def accepted (ns : String) (events : List TranscriptEvent) : List ℕ :=
  (invalidations events).filterMap (fun e =>
    ((sourceOf e).filter (fun source => decide (source.1 = ns))).map Prod.snd)

structure Marked (record : SessionRecord) (events : List TranscriptEvent) : Prop where
  revision : record.memoryInvalidatedRevision =
    ((invalidations events).getLast?.map (fun e => e.revision)).getD 0
  unknown : ∀ ns, record.memorySourceVersions.get? ns = none → accepted ns events = []
  known : ∀ ns n, record.memorySourceVersions.get? ns = some n →
    IsGreatest {m | m ∈ accepted ns events} n

theorem marked_new (i : SessionIdentity) (now : ℤ) : Marked (newRecord i now) [] where
  revision := rfl
  unknown _ _ := rfl
  known _ _ h := by simp [newRecord] at h

variable {record : SessionRecord}

theorem marked_record (new : SessionRecord) {events : List TranscriptEvent}
    (h : Marked record events)
    (hr : new.memoryInvalidatedRevision = record.memoryInvalidatedRevision)
    (hs : new.memorySourceVersions = record.memorySourceVersions) : Marked new events := by
  refine ⟨?_,?_,?_⟩
  · rw [hr]
    exact h.revision
  · rw [hs]
    exact h.unknown
  · rw [hs]
    exact h.known

variable {pf : Platform} {limits : SessionStoreLimits} {r : Readings} {i : SessionIdentity} {ns : String}
  {a : AppendArgs} {source : Option (String × ℕ)} {d : Digest}

theorem source_positive {payload : Json} {n : ℕ}
    (h : memoryInvalidationSource payload = .ok (some (ns,n))) : 1 ≤ n := by
  unfold memoryInvalidationSource at h
  split at h
  · cases h
  split at h
  · cases h
  · split_ifs at h with hv
    simp only [Except.ok.injEq, Option.some.injEq, Prod.mk.injEq] at h
    simp only [Bool.and_eq_true, decide_eq_true_eq] at hv
    omega
  · cases h

section Effects
variable {rowErrors : List SessionError} {v w : View} {c : Call} {o : Outcome} {e : TranscriptEvent}

/-- The stamp of a new event is that of its payload, and only an invalidation has one. -/
theorem appended_source (h : Appended limits v r i a record source e) :
    e.type = a.eventType ∧ (a.eventType = .memoryInvalidated → sourceOf e = source) ∧
      (a.eventType ≠ .memoryInvalidated → source = none) := by
  have hp := h.prepared
  rw [h.event]
  refine ⟨rfl,?_,?_⟩
  · intro ht
    unfold prepareAppend at hp
    rw [if_pos ht] at hp
    cases hm : memoryInvalidationSource a.payload with
    | error error => simp [hm, bind, Except.bind] at hp
    | ok stamp =>
      simp only [hm, bind, Except.bind] at hp
      split at hp
      · cases hp
      split at hp
      · cases hp
      cases hp
      simp [sourceOf, newEvent, hm]
  · intro ht
    by_contra hs
    exact ht ((prepare_append_ok hp).2 hs).1

theorem marked_other (h : Marked record (v.events i)) (ha : Appended limits v r i a record source e)
    (ht : a.eventType ≠ .memoryInvalidated) :
    Marked (recordAfterEvent record e source) (v.events i++[e]) := by
  obtain ⟨htype,-,hnone⟩ := appended_source ha
  have hsame : invalidations (v.events i++[e]) = invalidations (v.events i) := by
    simp [invalidations, htype, ht]
  have hkept := marked_record (recordAfterEvent record e source) h
    (by simp [recordAfterEvent, htype, ht]) (by simp [recordAfterEvent, hnone ht])
  refine ⟨?_,?_,?_⟩
  · rw [hsame]
    exact hkept.revision
  · simpa only [accepted, hsame] using hkept.unknown
  · simpa only [accepted, hsame] using hkept.known

theorem accepted_append (ns : String) (events : List TranscriptEvent)
    (ht : e.type = .memoryInvalidated) : accepted ns (events++[e]) = accepted ns events ++
      (((sourceOf e).filter (fun source => decide (source.1 = ns))).map Prod.snd).toList := by
  have hlast : invalidations (events++[e]) = invalidations events++[e] := by
    simp [invalidations, ht]
  rw [accepted, hlast, List.filterMap_append]
  congr 1

theorem marked_invalidation (h : Marked record (v.events i))
    (ha : Appended limits v r i a record source e) (ht : a.eventType = .memoryInvalidated) :
    Marked (recordAfterEvent record e source) (v.events i++[e]) := by
  obtain ⟨htype,hsource,-⟩ := appended_source ha
  have hinvalidated : e.type = .memoryInvalidated := htype.trans ht
  have haccepted := fun ns => accepted_append ns (v.events i) hinvalidated
  rw [hsource ht] at haccepted
  refine ⟨?_,?_,?_⟩
  · simp [recordAfterEvent, invalidations, hinvalidated]
  · intro ns hns
    rw [haccepted ns]
    cases hs : source with
    | none =>
      rw [hs] at hns
      simpa using h.unknown ns hns
    | some stamp =>
      simp only [recordAfterEvent, hs, Dict.get_set] at hns
      split_ifs at hns with hk
      have hk' : stamp.1 ≠ ns := fun he => hk he.symm
      simpa [hk'] using h.unknown ns hns
  · intro ns n hn
    rw [haccepted ns]
    cases hs : source with
    | none =>
      rw [hs] at hn
      simpa using h.known ns n hn
    | some stamp =>
      simp only [recordAfterEvent, hs, Dict.get_set] at hn
      split_ifs at hn with hk
      · subst hk
        cases hn
        refine ⟨by simp,fun m hm => ?_⟩
        have hnewer := ha.newer stamp.1 stamp.2 hs
        simp only [Set.mem_ofPred_eq, List.mem_append] at hm
        rcases hm with hm | hm
        · cases hg : record.memorySourceVersions.get? stamp.1 with
          | none =>
            rw [h.unknown _ hg] at hm
            cases hm
          | some old =>
            rw [hg] at hnewer
            exact ((h.known _ old hg).2 hm).trans hnewer.le
        · simp only [Option.filter_some, decide_true, if_true, Option.map_some,
            Option.toList_some, List.mem_singleton] at hm
          exact hm.le
      · have hk' : stamp.1 ≠ ns := fun he => hk he.symm
        have hnone : ((some stamp).filter (fun source => decide (source.1 = ns))).map Prod.snd =
            none := by simp [hk']
        rw [hnone, Option.toList_none, List.append_nil]
        exact h.known ns n hn

/-- What one call does to the record of a session: it keeps the watermark and the
versions, or it stores an invalidation. -/
theorem effect_mark (h : Effect pf limits rowErrors v r c o w) (hr : v.record i = some record) :
    ∃ new, w.record i = some new ∧
      ((new.memoryInvalidatedRevision = record.memoryInvalidatedRevision ∧
          new.memorySourceVersions = record.memorySourceVersions) ∨
        ∃ a source e, c = .append i a ∧ a.eventType = .memoryInvalidated ∧ o = .ok (.event e) ∧
          Appended limits v r i a record source e ∧ w.events i = v.events i++[e] ∧
          new = recordAfterEvent record e source) := by
  have hset : ∀ (j : SessionIdentity) (old new : SessionRecord), v.record j = some old →
      new.memoryInvalidatedRevision = old.memoryInvalidatedRevision →
      new.memorySourceVersions = old.memorySourceVersions →
      ∃ now, Function.update v.record j (some new) i = some now ∧
        now.memoryInvalidatedRevision = record.memoryInvalidatedRevision ∧
        now.memorySourceVersions = record.memorySourceVersions := by
    intro j old new hj hrev hver
    by_cases hi : i = j
    · subst hi
      obtain rfl : record = old := Option.some.inj (hr.symm.trans hj)
      exact ⟨new,Function.update_self _ _ _,hrev,hver⟩
    · exact ⟨record,by rw [Function.update_of_ne hi, hr],rfl,rfl⟩
  cases h with
  | create j now hnone =>
    have hi : i ≠ j := by
      rintro rfl
      rw [hr] at hnone
      cases hnone
    exact ⟨record,(Function.update_of_ne hi _ _).trans hr,.inl ⟨rfl,rfl⟩⟩
  | append j a old source e point ha hp hd =>
    by_cases hi : i = j
    · subst hi
      obtain rfl : record = old := Option.some.inj (hr.symm.trans ha.session)
      refine ⟨_,Function.update_self _ _ _,?_⟩
      by_cases ht : a.eventType = .memoryInvalidated
      · exact .inr ⟨a,source,e,rfl,ht,rfl,ha,Function.update_self _ _ _,rfl⟩
      · obtain ⟨htype,-,hnone⟩ := appended_source ha
        exact .inl ⟨by simp [recordAfterEvent, htype, ht],by simp [recordAfterEvent, hnone ht]⟩
    · exact ⟨record,(Function.update_of_ne hi _ _).trans hr,.inl ⟨rfl,rfl⟩⟩
  | checkpoint j a old c hc =>
    obtain ⟨now,hnow,hsame⟩ := hset j old { old with revision := c.revision, updatedAt := r.wall }
      hc.session rfl rfl
    exact ⟨now,hnow,.inl hsame⟩
  | status j status old outcome hj =>
    obtain ⟨now,hnow,hsame⟩ := hset j old { old with
      status := status, revision := old.revision+1, updatedAt := r.wall } hj rfl rfl
    exact ⟨now,hnow,.inl hsame⟩
  | _ => exact ⟨record,hr,.inl ⟨rfl,rfl⟩⟩

theorem effect_marked (h : Effect pf limits rowErrors v r c o w)
    (hv : ∀ i record, v.record i = some record → Marked record (v.events i)) (i : SessionIdentity)
    (new : SessionRecord) (hn : w.record i = some new) : Marked new (w.events i) := by
  have hset : ∀ (j : SessionIdentity) (record : SessionRecord) (events : List TranscriptEvent),
      Marked record events → Function.update v.record j (some record) i = some new →
      Marked new (Function.update v.events j events i) := by
    intro j record events hm hrecord
    by_cases hi : i = j
    · subst hi
      rw [Function.update_self] at hrecord ⊢
      exact Option.some.inj hrecord ▸ hm
    · rw [Function.update_of_ne hi] at hrecord ⊢
      exact hv i new hrecord
  cases h with
  | create j now hnone => exact hset j _ _ (marked_new j now) hn
  | append j a record source e point ha =>
    refine hset j _ _ ?_ hn
    by_cases ht : a.eventType = .memoryInvalidated
    · exact marked_invalidation (hv j record ha.session) ha ht
    · exact marked_other (hv j record ha.session) ha ht
  | checkpoint j a record c hc =>
    exact hset j { record with revision := c.revision, updatedAt := r.wall } _
      (marked_record _ (hv j record hc.session) rfl rfl) hn
  | status j status record outcome hj =>
    exact hset j { record with status := status, revision := record.revision+1, updatedAt := r.wall }
      _ (marked_record _ (hv j record hj) rfl rfl) hn
  | _ => exact hv i new hn

end Effects

structure Watermarked {pf : Platform} {limits : SessionStoreLimits} (S : LawfulStore pf limits)
    (reads : S.State → SessionIdentity → Prop) (s : S.State) : Prop where
  marked : ∀ i record, (S.view s).record i = some record → Marked record ((S.view s).events i)
  forward : ∀ r c i record, (S.view s).record i = some record →
    ∃ new, (S.view (S.call r s c).1).record i = some new ∧
      record.memoryInvalidatedRevision ≤ new.memoryInvalidatedRevision ∧
      ∀ ns, new.memorySourceVersions.get? ns ≠ record.memorySourceVersions.get? ns →
        (record.memorySourceVersions.get? ns).getD 0 < (new.memorySourceVersions.get? ns).getD 0
  others : ∀ r c i record new, (S.view s).record i = some record →
    (S.view (S.call r s c).1).record i = some new →
    (∀ a, c = .append i a → a.eventType ≠ .memoryInvalidated) →
    new.memoryInvalidatedRevision = record.memoryInvalidatedRevision ∧
      new.memorySourceVersions = record.memorySourceVersions
  stale : ∀ r i a record ns n d, (S.view s).record i = some record → reads s i →
    prepareAppend limits a = .ok (some (ns,n),d) →
    n ≤ (record.memorySourceVersions.get? ns).getD 0 →
    (∀ x ∈ (S.view s).events i, ∀ k, a.idempotencyKey = some k → x.idempotencyKey ≠ some k) →
    ∃ e ∈ (S.view s).events i, S.call r s (.append i a) = (s,.ok (.event e)) ∧
      e.type = .memoryInvalidated ∧ e.revision = record.memoryInvalidatedRevision
  redelivered : ∀ r i a record source d x k, (S.view s).record i = some record → reads s i →
    prepareAppend limits a = .ok (source,d) → x ∈ (S.view s).events i →
    a.idempotencyKey = some k → x.idempotencyKey = some k →
    S.call r s (.append i a) = (s,if eventDigest x.type x.payload = d then .ok (.event x)
      else .error (.idempotencyConflict "event idempotency key was reused with different content"))

section Stores
variable {S : LawfulStore pf limits}

theorem run_marked (S : LawfulStore pf limits) (calls : List (Readings × Call)) :
    S.Sound (Machine.final S.step S.init calls) ∧
      ∀ i record, (S.view (Machine.final S.step S.init calls)).record i = some record →
        Marked record ((S.view (Machine.final S.step S.init calls)).events i) := by
  refine Machine.final_invariant S.step (fun s => S.Sound s ∧ ∀ i record,
    (S.view s).record i = some record → Marked record ((S.view s).events i)) ?_ _ calls
    ⟨S.sound_init,?_⟩
  · rintro s ⟨r,c⟩ ⟨hs,hm⟩
    exact ⟨S.sound_call r s c hs,effect_marked (S.call_effect r s c hs) hm⟩
  · intro i record h
    rw [S.viewInit] at h
    cases h

theorem lawful_forward {s : S.State} (hs : S.Sound s) (r : Readings) (c : Call)
    (i : SessionIdentity) (record : SessionRecord) (h : (S.view s).record i = some record) :
    ∃ new, (S.view (S.call r s c).1).record i = some new ∧
      record.memoryInvalidatedRevision ≤ new.memoryInvalidatedRevision ∧
      ∀ ns, new.memorySourceVersions.get? ns ≠ record.memorySourceVersions.get? ns →
        (record.memorySourceVersions.get? ns).getD 0 < (new.memorySourceVersions.get? ns).getD 0 := by
  obtain ⟨new,hn,⟨hrev,hver⟩ | ⟨a,source,e,-,ht,-,ha,-,rfl⟩⟩ :=
    effect_mark (S.call_effect r s c hs) h
  · refine ⟨new,hn,hrev.ge,fun ns hns => ?_⟩
    rw [hver] at hns
    exact absurd rfl hns
  · have hbound : record.memoryInvalidatedRevision ≤ record.revision := by
      have hc := hs.2.coherent i record h
      rcases hc.watermark with h0 | ⟨x,hx,-,hxr⟩
      · omega
      · have hle := (hc.eventBound x hx).2
        omega
    have hrev : e.revision = record.revision+1 := by
      rw [ha.event]
      rfl
    have htype := (appended_source ha).1.trans ht
    refine ⟨_,hn,?_,fun ns hns => ?_⟩
    · simp only [recordAfterEvent, htype, if_true]
      omega
    · cases hs : source with
      | none => simp [recordAfterEvent, hs] at hns
      | some stamp =>
        simp only [recordAfterEvent, hs, Dict.get_set] at hns ⊢
        split_ifs at hns ⊢ with hk
        · subst hk
          exact ha.newer stamp.1 stamp.2 hs
        · exact absurd rfl hns

theorem lawful_others {s : S.State} (hs : S.Sound s) (r : Readings) (c : Call)
    (i : SessionIdentity) (record new : SessionRecord) (h : (S.view s).record i = some record)
    (hn : (S.view (S.call r s c).1).record i = some new)
    (hc : ∀ a, c = .append i a → a.eventType ≠ .memoryInvalidated) :
    new.memoryInvalidatedRevision = record.memoryInvalidatedRevision ∧
      new.memorySourceVersions = record.memorySourceVersions := by
  obtain ⟨other,ho,hsame | ⟨a,source,e,rfl,ht,-⟩⟩ := effect_mark (S.call_effect r s c hs) h
  · obtain rfl : new = other := Option.some.inj (hn.symm.trans ho)
    exact hsame
  · exact absurd ht (hc a rfl)

/-- Where a stale version is given, the event at the watermark is the one that its revision finds. -/
theorem watermark_event {v : View} {n : ℕ} (hw : WellFormed pf v) (hr : v.record i = some record)
    (hp : prepareAppend limits a = .ok (some (ns,n),d))
    (h : n ≤ (record.memorySourceVersions.get? ns).getD 0) : ∃ e ∈ v.events i,
      e.type = .memoryInvalidated ∧ e.revision = record.memoryInvalidatedRevision ∧
      (v.events i).find? (fun e => decide (e.revision = record.memoryInvalidatedRevision)) = some e := by
  have hc := hw.coherent i record hr
  have hn := source_positive ((prepare_append_ok hp).2 (by simp)).2
  cases hg : record.memorySourceVersions.get? ns with
  | none =>
    rw [hg, Option.getD_none] at h
    omega
  | some m =>
    rcases hc.watermark with h0 | ⟨e,he,ht,hrev⟩
    · exact absurd h0 (hc.versioned ns m hg)
    · refine ⟨e,he,ht,hrev,?_⟩
      cases hf : (v.events i).find? (fun e => decide (e.revision = record.memoryInvalidatedRevision)) with
      | none => exact absurd hrev (by simpa using List.find?_eq_none.mp hf e he)
      | some x =>
      have hxr : x.revision = record.memoryInvalidatedRevision := by simpa using List.find?_some hf
      have hsymm : Std.Symm (fun e f : TranscriptEvent => e.revision ≠ f.revision) :=
        ⟨fun _ _ h => h.symm⟩
      have hne := List.Pairwise.forall (hc.eventOrder.imp (fun h => Nat.ne_of_lt h))
        (List.mem_of_find?_eq_some hf) he
      by_contra hxe
      exact hne (fun h => hxe (congrArg some h)) (hxr.trans hrev.symm)

theorem keyed_event {v : View} {k : String} {x : TranscriptEvent} (hw : WellFormed pf v) (hr : v.record i = some record)
    (hx : x ∈ v.events i) (hk : x.idempotencyKey = some k) :
    (v.events i).find? (fun e => decide (e.idempotencyKey = some k)) = some x := by
  have hc := hw.coherent i record hr
  cases hf : (v.events i).find? (fun e => decide (e.idempotencyKey = some k)) with
  | none => exact absurd hk (by simpa using List.find?_eq_none.mp hf x hx)
  | some y =>
    have hy : y.idempotencyKey = some k := by simpa using List.find?_some hf
    have hsymm : Std.Symm (fun e f : TranscriptEvent => ∀ k, e.idempotencyKey = some k →
        f.idempotencyKey ≠ some k) := ⟨fun e f h k hf he => h k he hf⟩
    have hne := List.Pairwise.forall hc.eventKeys (List.mem_of_find?_eq_some hf) hx
    by_contra hyx
    exact hne (fun he => hyx (congrArg some he)) k hy hk

end Stores

namespace InMemorySessionStore
variable {s : InMemorySessionStore}

theorem append_redelivered (hs : Indexed pf s) (hw : WellFormed pf s.view)
    (hr : s.view.record i = some record) (hp : prepareAppend limits a = .ok (source,d))
    {x : TranscriptEvent} {k : String} (hx : x ∈ s.view.events i)
    (ha : a.idempotencyKey = some k) (hk : x.idempotencyKey = some k) :
    s.append limits r i a = if eventDigest x.type x.payload = d then .ok (s,x)
      else .error (.idempotencyConflict
        "event idempotency key was reused with different content") := by
  have hkeyed := hs.keyed i k
  rw [show (s.eventsOf i).find? (fun e => decide (e.idempotencyKey = some k)) = some x from
    keyed_event hw hr hx hk] at hkeyed
  have hrequire : s.require i = .ok record := by
    simp [require, show s.sessions.get? i = some record from hr]
  simp [append, hp, hrequire, ha, hkeyed, bind, Except.bind]

theorem append_stale (hs : Indexed pf s) (hw : WellFormed pf s.view)
    (hr : s.view.record i = some record) {n : ℕ} (hp : prepareAppend limits a = .ok (some (ns,n),d))
    (hn : n ≤ (record.memorySourceVersions.get? ns).getD 0)
    (hfresh : ∀ x ∈ s.view.events i, ∀ k, a.idempotencyKey = some k → x.idempotencyKey ≠ some k) :
    ∃ e ∈ s.view.events i, s.append limits r i a = .ok (s,e) ∧
      e.type = .memoryInvalidated ∧ e.revision = record.memoryInvalidatedRevision := by
  obtain ⟨e,he,ht,hrev,hfind⟩ := watermark_event hw hr hp hn
  refine ⟨e,he,?_,ht,hrev⟩
  have hrequire : s.require i = .ok record := by
    simp [require, show s.sessions.get? i = some record from hr]
  have hnone : a.idempotencyKey.bind (fun k => s.eventIdempotency.get? (i,k)) = none := by
    rw [Option.bind_eq_none_iff]
    intro k hk
    rw [hs.keyed, Option.map_eq_none_iff, List.find?_eq_none]
    intro x hx
    simpa using hfresh x hx k hk
  change (s.eventsOf i).find? _ = _ at hfind
  simp [append, hp, hrequire, hnone, hn, hfind, bind, Except.bind]

end InMemorySessionStore

namespace SQLiteSessionStore
variable {db : SQLiteSessionStore} {row : SessionRecord}

theorem required_record (hr : db.view.record i = some record) (h : db.require i = .ok row) :
    row = record := by
  rcases require_cases db i with ⟨found,hq,hfound⟩ | ⟨e,hq,-⟩
  · rw [h] at hq
    cases hq
    exact Option.some.inj (hfound.symm.trans hr)
  · rw [h] at hq
    cases hq

/-- An event search over the rows of one session finds the row of the event. -/
theorem find_row {p : TranscriptEvent → Prop} [DecidablePred p] {e : TranscriptEvent}
    (h : (db.view.events i).find? (fun e => decide (p e)) = some e) : ∃ found,
      db.transcriptEvents.find? (fun row => decide (row.event.identity = i ∧ p row.event)) =
        some found ∧ found.event = e ∧ found ∈ db.transcriptEvents := by
  have hrows := find_event_rows db i p
  simp only [view, List.find?_map, Option.map_eq_some_iff, Function.comp_def] at h
  obtain ⟨found,hfound,he⟩ := h
  rw [hfound] at hrows
  exact ⟨found,hrows,he,List.mem_of_find?_eq_some hrows⟩

theorem append_redelivered (hs : Stored pf db) (hw : WellFormed pf db.view)
    (hr : db.view.record i = some record) (hq : db.require i = .ok row)
    (hp : prepareAppend limits a = .ok (source,d))
    {x : TranscriptEvent} {k : String} (hx : x ∈ db.view.events i)
    (ha : a.idempotencyKey = some k) (hk : x.idempotencyKey = some k) :
    db.append limits r i a = if eventDigest x.type x.payload = d then .ok (db,x)
      else .error (.idempotencyConflict
        "event idempotency key was reused with different content") := by
  obtain ⟨found,hfind,hevent,hmem⟩ := find_row (keyed_event hw hr hx hk)
  have hdigest := hs.digests found hmem
  rw [hevent] at hdigest
  simp only [append, bind, Except.bind, hp, hq, ha, Option.bind_some, hfind, hdigest, hevent]
  exact ite_not _ _ _

theorem append_stale (hw : WellFormed pf db.view) (hr : db.view.record i = some record)
    (hq : db.require i = .ok row) {n : ℕ} (hp : prepareAppend limits a = .ok (some (ns,n),d))
    (hn : n ≤ (record.memorySourceVersions.get? ns).getD 0)
    (hfresh : ∀ x ∈ db.view.events i, ∀ k, a.idempotencyKey = some k →
      x.idempotencyKey ≠ some k) :
    ∃ e ∈ db.view.events i, db.append limits r i a = .ok (db,e) ∧
      e.type = .memoryInvalidated ∧ e.revision = record.memoryInvalidatedRevision := by
  obtain rfl := required_record hr hq
  obtain ⟨e,he,ht,hrev,hfind⟩ := watermark_event hw hr hp hn
  refine ⟨e,he,?_,ht,hrev⟩
  have hnone : a.idempotencyKey.bind (fun k => db.transcriptEvents.find? (fun row =>
      decide (row.event.identity = i ∧ row.event.idempotencyKey = some k))) = none := by
    rw [Option.bind_eq_none_iff]
    intro k hk
    rw [find_event_rows db i (fun e => e.idempotencyKey = some k), List.find?_eq_none]
    intro found hfound
    simpa using hfresh found.event (event_row_mem hfound).1 k hk
  obtain ⟨found,hrow,hevent,-⟩ := find_row hfind
  simp only [append, bind, Except.bind, hp, hq, hnone, hrow, hevent]
  simp [hn]

end SQLiteSessionStore

/-- Both stores keep the watermark after every history. -/
theorem memory_invalidation_watermark (pf : Platform) (limits : SessionStoreLimits)
    (calls : List (Readings × Call)) :
    Watermarked (memoryStore pf limits) (fun _ _ => True)
      (Machine.final (memoryStore pf limits).step .init calls) ∧
    Watermarked (sqliteStore pf limits) (fun db i => ∃ row, SQLiteSessionStore.require db i = .ok row)
      (Machine.final (sqliteStore pf limits).step .init calls) := by
  constructor
  · obtain ⟨hs,hm⟩ := run_marked (memoryStore pf limits) calls
    refine ⟨hm,lawful_forward hs,lawful_others hs,?_,?_⟩
    · intro r i a record ns n d hr _ hp hn hfresh
      obtain ⟨e,he,happend,hevent⟩ := InMemorySessionStore.append_stale (r := r) hs.1 hs.2 hr hp hn
        hfresh
      exact ⟨e,he,congrArg (settle _ Reply.event) happend,hevent⟩
    · intro r i a record source d x k hr _ hp hx ha hk
      have happend := InMemorySessionStore.append_redelivered (r := r) hs.1 hs.2 hr hp hx ha hk
      refine (congrArg (settle _ Reply.event) happend).trans ?_
      split_ifs <;> rfl
  · obtain ⟨hs,hm⟩ := run_marked (sqliteStore pf limits) calls
    refine ⟨hm,lawful_forward hs,lawful_others hs,?_,?_⟩
    · rintro r i a record ns n d hr ⟨row,hq⟩ hp hn hfresh
      obtain ⟨e,he,happend,hevent⟩ := SQLiteSessionStore.append_stale (r := r) hs.2 hr hq hp hn
        hfresh
      exact ⟨e,he,congrArg (settle _ Reply.event) happend,hevent⟩
    · rintro r i a record source d x k hr ⟨row,hq⟩ hp hx ha hk
      have happend := SQLiteSessionStore.append_redelivered (r := r) hs.1 hs.2 hr hq hp hx ha hk
      refine (congrArg (settle _ Reply.event) happend).trans ?_
      split_ifs <;> rfl

def invalidation (eventId key : String) (version : ℤ) : Call :=
  .append bookIdentity
    { eventId := eventId
      eventType := .memoryInvalidated
      payload := .obj [("source_namespace",.str "crm"),("source_version",.int version)]
      idempotencyKey := some key }

def oldDeliveries : List (Readings × Call) :=
  [(⟨10,10⟩,.create bookIdentity),(⟨11,11⟩,invalidation "e1" "k1" 1),
    (⟨12,12⟩,invalidation "e2" "k2" 2),(⟨13,13⟩,invalidation "e3" "k1" 1),
    (⟨14,14⟩,invalidation "e4" "k2" 1)]

def oldAnswers (h : List Entry) : List (Except SessionError ℕ) :=
  (h.drop 3).map (fun x => match x.2 with
    | .ok (.event e) => .ok e.revision
    | .ok _ => .ok 0
    | .error error => .error error)

theorem old_delivery_answered_by_its_key :
    oldAnswers ((memoryStore bookPlatform {}).history oldDeliveries) =
      [.ok 1,.error (.idempotencyConflict
        "event idempotency key was reused with different content")] ∧
    oldAnswers ((sqliteStore bookPlatform {}).history oldDeliveries) =
      [.ok 1,.error (.idempotencyConflict
        "event idempotency key was reused with different content")] ∧
    ((Machine.final (memoryStore bookPlatform {}).step .init oldDeliveries).view.record
      bookIdentity).map (fun row => (row.memoryInvalidatedRevision,
        row.memorySourceVersions.get? "crm")) = some (2,some 2) := by
  decide +kernel

end SuiteHarness.Sessions
