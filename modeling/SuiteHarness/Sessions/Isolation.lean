import SuiteHarness.Sessions.Ownership

/-!
# Sessions do not disturb each other

A call concerns one session. Of every other session it may at most evict saved
points. The run of a point that is read back has not been finished since the
point was saved.
-/

set_option autoImplicit false

namespace SuiteHarness.Sessions
open SuiteHarness.Library

def Call.identity : Call → SessionIdentity
  | .create i | .get i | .claimRun i .. | .finalizeRun i .. | .requestStop i _ | .stopRequested i _
  | .activeRunIds i _ | .saveResumePoint i _ | .getResumePoint i _ | .append i _
  | .saveCheckpoint i _ | .setStatus i .. | .resume i | .recentTranscript i _
  | .transcriptPage i .. => i

/-- What calls about other sessions leave of a session. -/
structure Undisturbed (i : SessionIdentity) (v w : View) : Prop where
  record : w.record i = v.record i
  events : w.events i = v.events i
  checkpoints : w.checkpoints i = v.checkpoints i
  claim : ∀ run, w.claim (i,run) = v.claim (i,run)
  stopped : ∀ run, w.stopped (i,run) = v.stopped (i,run)
  point : ∀ run q, w.point (i,run) = some q → v.point (i,run) = some q

section Effects
variable {pf : Platform} {limits : SessionStoreLimits} {rowErrors : List SessionError}
variable {u v w : View} {r : Readings} {c : Call} {o : Outcome} {i : SessionIdentity}

theorem undisturbed_refl : Undisturbed i v v :=
  ⟨rfl,rfl,rfl,fun _ => rfl,fun _ => rfl,fun _ _ h => h⟩

theorem undisturbed_trans (h : Undisturbed i u v) (h' : Undisturbed i v w) : Undisturbed i u w where
  record := h'.record.trans h.record
  events := h'.events.trans h.events
  checkpoints := h'.checkpoints.trans h.checkpoints
  claim run := (h'.claim run).trans (h.claim run)
  stopped run := (h'.stopped run).trans (h.stopped run)
  point run q hq := h.point run q (h'.point run q hq)

theorem undisturbed_session {j : SessionIdentity} {record : SessionRecord}
    {events : List TranscriptEvent} {checkpoints : List SessionCheckpoint} (hj : i ≠ j) :
    Undisturbed i v (v.setSession j record events checkpoints) where
  record := Function.update_of_ne hj _ _
  events := Function.update_of_ne hj _ _
  checkpoints := Function.update_of_ne hj _ _
  claim _ := rfl
  stopped _ := rfl
  point _ _ h := h

theorem undisturbed_points {point : RunKey → Option RunResumePoint}
    (h : ∀ run q, point (i,run) = some q → v.point (i,run) = some q) :
    Undisturbed i v (v.setPoints point) :=
  ⟨rfl,rfl,rfl,fun _ => rfl,fun _ => rfl,h⟩

theorem effect_undisturbed (h : Effect pf limits rowErrors v r c o w) (hi : c.identity ≠ i) :
    Undisturbed i v w := by
  have hkey : ∀ run run' : String, (i,run) ≠ (c.identity,run') :=
    fun _ _ heq => hi (Prod.mk.inj heq).1.symm
  cases h with
  | raise | answer => exact undisturbed_refl
  | create | checkpoint | status => exact undisturbed_session (Ne.symm hi)
  | acquire | expire | finalize =>
    exact { undisturbed_refl with claim := fun run => Function.update_of_ne (hkey run _) _ _ }
  | stop =>
    exact { undisturbed_refl with stopped := fun run => Function.update_of_ne (hkey run _) _ _ }
  | refusePoint _ _ _ hp | readPoint _ _ _ _ hp => exact undisturbed_points fun run => hp _
  | savePoint _ q _ _ _ hp => exact undisturbed_points fun run p => hp _ p (hkey run _)
  | append _ _ _ _ _ _ _ hp =>
    exact undisturbed_trans (undisturbed_session (Ne.symm hi)) (undisturbed_points fun run => hp _)

end Effects

namespace LawfulStore
variable {pf : Platform} {limits : SessionStoreLimits} (S : LawfulStore pf limits)

def Apart (calls others : List (Readings × Call)) (i : SessionIdentity) : Prop :=
  Undisturbed i (S.view (Machine.final S.step S.init calls)) (S.view (Machine.final S.step S.init
    (calls++others.filter (fun c => decide (c.2.identity ≠ i)))))

theorem apart (calls others : List (Readings × Call)) (i : SessionIdentity) :
    S.Apart calls others i := by
  rw [Apart, Machine.final_append]
  exact (Machine.final_invariant_on S.step
    (fun s => S.Sound s ∧ Undisturbed i (S.view (Machine.final S.step S.init calls)) (S.view s))
    (fun c => c.2.identity ≠ i)
    (fun s c hc hs => ⟨S.sound_call c.1 s c.2 hs.1,
      undisturbed_trans hs.2 (effect_undisturbed (S.call_effect c.1 s c.2 hs.1) hc)⟩)
    _ _ (fun c hc => of_decide_eq_true (List.mem_filter.1 hc).2)
    ⟨S.run_sound S.init calls S.sound_init,undisturbed_refl⟩).2

/-- The point was saved by one of the calls, under a live claim of its run, and no event that was
stored since finishes the run. -/
structure Saved (i : SessionIdentity) (run : String) (q : RunResumePoint)
    (calls before : List (Readings × Call)) (r : Readings) : Prop where
  saved : before++[(r,.saveResumePoint i q)] <+: calls
  accepted : Saveable pf (S.view (Machine.final S.step S.init before)) r i q
  named : q.runId = run
  unfinished : ∀ e ∈ (S.view (Machine.final S.step S.init calls)).events i,
    finishedResumeRunId e.type e.payload = some run →
      e ∈ (S.view (Machine.final S.step S.init before)).events i

variable (calls : List (Readings × Call))

theorem point_saved (i : SessionIdentity) (run : String) (q : RunResumePoint)
    (h : (S.view (Machine.final S.step S.init calls)).point (i,run) = some q) :
    ∃ before r, S.Saved i run q calls before r := by
  induction calls using List.reverseRecOn with
  | nil =>
    rw [Machine.final, S.viewInit] at h
    cases h
  | append_singleton calls c ih =>
    obtain ⟨r,c⟩ := c
    have heffect := S.call_effect r _ c (S.run_sound S.init calls S.sound_init)
    have hlast : Machine.final S.step S.init (calls++[(r,c)]) =
        (S.call r (Machine.final S.step S.init calls) c).1 := by
      rw [Machine.final_append]
      rfl
    -- A call that keeps the point keeps its save, unless it stores an event that finishes the run.
    have hkept : (S.view (Machine.final S.step S.init calls)).point (i,run) = some q →
        (∀ e ∈ (S.view (S.call r (Machine.final S.step S.init calls) c).1).events i,
          finishedResumeRunId e.type e.payload = some run →
            e ∈ (S.view (Machine.final S.step S.init calls)).events i) →
        ∃ before r', S.Saved i run q (calls++[(r,c)]) before r' := by
      intro hpoint hevents
      obtain ⟨before,r',hsaved⟩ := ih hpoint
      refine ⟨before,r',hsaved.saved.trans (List.prefix_append _ _),hsaved.accepted,hsaved.named,?_⟩
      rw [hlast]
      exact fun e he hfinished => hsaved.unfinished e (hevents e he hfinished) hfinished
    rw [hlast] at h
    generalize hv : S.view (Machine.final S.step S.init calls) = v at heffect hkept
    generalize hw : S.view (S.call r (Machine.final S.step S.init calls) c).1 = w at heffect hkept h
    generalize (S.call r (Machine.final S.step S.init calls) c).2 = o at heffect
    cases heffect with
    | savePoint j p point haccepted hset hp =>
      by_cases hkey : (i,run) = (j,p.runId)
      · obtain ⟨rfl,rfl⟩ := Prod.mk.inj hkey
        obtain rfl := Option.some.inj (hset.symm.trans h)
        refine ⟨calls,r,List.prefix_rfl,hv ▸ haccepted,rfl,?_⟩
        rw [hlast, hw, hv]
        exact fun e he _ => he
      · exact hkept (hp _ q hkey h) fun e he _ => he
    | refusePoint j p point hp | readPoint j run' found point hp =>
      exact hkept (hp _ q h) fun e he _ => he
    | append j a record source e point happended hp hdropped =>
      refine hkept (hp _ q h) fun e' he hfinished => ?_
      by_cases hj : i = j
      · subst hj
        simp only [View.setPoints, View.setSession, Function.update_self, List.mem_append,
          List.mem_singleton] at he
        refine he.resolve_right fun heq => ?_
        rw [heq, happended.event] at hfinished
        exact Option.some_ne_none q (h.symm.trans (hdropped run hfinished))
      · simpa only [View.setPoints, View.setSession, Function.update_of_ne hj] using he
    | create j now hj hn =>
      refine hkept h fun e he _ => ?_
      by_cases hij : i = j
      · simp [View.setSession, hij] at he
      · simpa only [View.setSession, Function.update_of_ne hij] using he
    | checkpoint j a record c' hc | status j status record outcome hr ho =>
      refine hkept h fun e he _ => ?_
      by_cases hij : i = j
      · simpa [View.setSession, hij] using he
      · simpa only [View.setSession, Function.update_of_ne hij] using he
    | raise | answer | acquire | expire | finalize | stop => exact hkept h fun e he _ => he

def ReadsSaved : Prop :=
  ∀ i run r q, (S.call r (Machine.final S.step S.init calls) (.getResumePoint i run)).2 =
      .ok (.point (some q)) →
    resumePointFresh q r.clock = true ∧ ∃ before r', S.Saved i run q calls before r'

theorem reads_saved : S.ReadsSaved calls := by
  intro i run r q h
  have heffect := S.call_effect r _ (.getResumePoint i run) (S.run_sound S.init calls S.sound_init)
  rw [h] at heffect
  generalize S.view (S.call r (Machine.final S.step S.init calls) _).1 = w at heffect
  cases heffect with
  | answer _ _ hanswer => exact hanswer.elim
  | readPoint _ _ _ point hp hf =>
    obtain ⟨hpoint,hfresh⟩ := hf q rfl
    exact ⟨hfresh,S.point_saved calls i run q hpoint⟩

end LawfulStore

/-- In either store, in every reachable state, calls about other sessions change nothing of a
session but that points it saved may be evicted. -/
theorem sessions_isolated (pf : Platform) (limits : SessionStoreLimits)
    (calls others : List (Readings × Call)) (i : SessionIdentity) :
    (memoryStore pf limits).Apart calls others i ∧ (sqliteStore pf limits).Apart calls others i :=
  ⟨(memoryStore pf limits).apart calls others i,(sqliteStore pf limits).apart calls others i⟩

/-- In either store a saved point that is read back is fresh, was saved under a live claim of its
run, and no event stored since the save finishes the run. -/
theorem read_points_unfinished (pf : Platform) (limits : SessionStoreLimits)
    (calls : List (Readings × Call)) :
    (memoryStore pf limits).ReadsSaved calls ∧ (sqliteStore pf limits).ReadsSaved calls :=
  ⟨(memoryStore pf limits).reads_saved calls,(sqliteStore pf limits).reads_saved calls⟩

end SuiteHarness.Sessions
