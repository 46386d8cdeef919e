import SuiteHarness.Sessions.Ownership

/-!
# Transcripts only grow

No call removes or changes a stored event, and a new event has a revision above
all stored ones. An event of a transcript is therefore in every later one.
-/

set_option autoImplicit false

namespace SuiteHarness.Sessions
open SuiteHarness.Library

section Effects
variable {pf : Platform} {limits : SessionStoreLimits} {rowErrors : List SessionError}
variable {v w : View} {r : Readings} {o : Outcome}

theorem effect_events_grow {c : Call} (hw : WellFormed pf v)
    (h : Effect pf limits rowErrors v r c o w) (i : SessionIdentity) :
    ∃ new, w.events i = v.events i++new := by
  have hset : ∀ (j : SessionIdentity) (new : List TranscriptEvent),
      ∃ added, Function.update v.events j (v.events j++new) i = v.events i++added := by
    intro j new
    by_cases hj : i = j
    · subst hj
      exact ⟨new,Function.update_self _ _ _⟩
    · exact ⟨[],by rw [Function.update_of_ne hj, List.append_nil]⟩
  cases h with
  | create j now hj hn =>
    have hempty := (hw.absent j hj).1
    have hcreated := hset j []
    rwa [hempty, List.append_nil] at hcreated
  | append j a record source e point happended hp hd => exact hset j [e]
  | checkpoint j a record c h | status j status record outcome h ho =>
    have hkept := hset j []
    rwa [List.append_nil] at hkept
  | _ => exact ⟨[],(List.append_nil _).symm⟩

theorem events_ascending (hw : WellFormed pf w) (i : SessionIdentity) :
    Table.Ascending (fun e : TranscriptEvent => e.revision) (w.events i) := by
  cases hrecord : w.record i with
  | none =>
    rw [(hw.absent i hrecord).1]
    exact List.Pairwise.nil
  | some record => exact (hw.coherent i record hrecord).eventOrder

/-- An answered append that is no invalidation is an event of the transcript, new
or stored before, with the key and the fingerprint that were asked for. -/
theorem appended_event {i : SessionIdentity} {a : AppendArgs} {e : TranscriptEvent}
    (ha : a.eventType ≠ .memoryInvalidated)
    (h : Effect pf limits rowErrors v r (.append i a) (.ok (.event e)) w) :
    e ∈ w.events i ∧ e.idempotencyKey = a.idempotencyKey ∧
      eventDigest e.type e.payload = eventDigest a.eventType a.payload := by
  cases h with
  | answer c reply hanswer =>
    obtain ⟨hmem,⟨k,hk,hkey,hdigest⟩ | ⟨hinvalidated,-⟩⟩ := hanswer
    · exact ⟨hmem,hkey.trans hk.symm,hdigest⟩
    · exact absurd hinvalidated ha
  | append _ _ record source _ point happended hp hd =>
    refine ⟨?_,?_⟩
    · simp [View.setPoints, View.setSession]
    · rw [happended.event]
      exact ⟨rfl,rfl⟩

end Effects

end SuiteHarness.Sessions
