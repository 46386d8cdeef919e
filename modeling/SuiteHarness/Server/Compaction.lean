import SuiteHarness.Library.Results
import SuiteHarness.Server.RunHistory

/-!
# Compacting the run history

A new run is appended and the checkpoint is written within its two limits. The
finished runs that are removed for it are the oldest ones, and no fewer would have
been enough. What is written is read back as it is.
-/

set_option autoImplicit false

namespace SuiteHarness.Server
open SuiteHarness.Sessions SuiteHarness.Memory SuiteHarness.Library.Results

def HistoryRun.finished (entry : HistoryRun) : Bool := decide (entry.state ≠ .started)

def withoutOldest : ℕ → List HistoryRun → List HistoryRun
  | _, [] => []
  | k, entry::history =>
    if k = 0 ∨ entry.state = .started then entry::withoutOldest k history
    else withoutOldest (k-1) history

variable (k : ℕ) (history : List HistoryRun)

theorem without_zero : withoutOldest 0 history = history := by
  induction history with
  | nil => rfl
  | cons entry history ih => simp [withoutOldest, ih]

theorem without_sublist : (withoutOldest k history).Sublist history := by
  induction history generalizing k with
  | nil => exact .slnil
  | cons entry history ih =>
    rw [withoutOldest]
    split_ifs
    · exact (ih k).cons_cons entry
    · exact (ih (k-1)).cons entry

open HistoryRun (finished)

theorem without_unfinished :
    (withoutOldest k history).filter (fun e => !e.finished) = history.filter (fun e => !e.finished) := by
  induction history generalizing k with
  | nil => rfl
  | cons entry history ih =>
    by_cases hstarted : entry.state = .started
    · simp [withoutOldest, finished, hstarted] at ih ⊢
      exact ih k
    · by_cases hk : k = 0
      · rw [hk, without_zero]
      · simp [withoutOldest, finished, hstarted, hk] at ih ⊢
        exact ih (k-1)

theorem without_all :
    withoutOldest (history.countP finished) history =
      history.filter (fun e => !e.finished) := by
  induction history with
  | nil => rfl
  | cons entry history ih =>
    by_cases hstarted : entry.state = .started <;>
      simp [withoutOldest, finished, hstarted] at ih ⊢ <;> exact ih

theorem without_length (hk : k ≤ history.countP finished) :
    (withoutOldest k history).length+k = history.length := by
  induction history generalizing k with
  | nil =>
    rw [List.countP_nil] at hk
    rw [withoutOldest, Nat.le_zero.mp hk, List.length_nil]
  | cons entry history ih =>
    by_cases hstarted : entry.state = .started
    · rw [List.countP_cons_of_neg (by simp [finished, hstarted])] at hk
      have := ih k hk
      simp only [withoutOldest, hstarted, or_true, if_true, List.length_cons]
      omega
    · rw [List.countP_cons_of_pos (by simp [finished, hstarted])] at hk
      by_cases hzero : k = 0
      · rw [hzero, without_zero, Nat.add_zero]
      · have := ih (k-1) (by omega)
        simp only [withoutOldest, hstarted, hzero, or_self, if_false, List.length_cons]
        omega

/-- The code's removal takes the next oldest finished run, if one is left. -/
theorem drop_without : dropFinished (withoutOldest k history) =
    if k < history.countP finished then some (withoutOldest (k+1) history) else none := by
  induction history generalizing k with
  | nil => rfl
  | cons entry history ih =>
    by_cases hstarted : entry.state = .started
    · rw [List.countP_cons_of_neg (by simp [finished, hstarted])]
      simp only [withoutOldest, hstarted, or_true, if_true, dropFinished, ne_eq, not_true_eq_false,
        if_false, ih]
      split_ifs <;> rfl
    · rw [List.countP_cons_of_pos (by simp [finished, hstarted])]
      cases k with
      | zero =>
        simp [withoutOldest, dropFinished, hstarted]
      | succ j =>
        simp only [withoutOldest, hstarted, Nat.add_eq_zero_iff, one_ne_zero, and_false, or_self,
          if_false, Nat.add_sub_cancel, ih, Nat.add_lt_add_iff_right]

theorem without_append {entry : HistoryRun} (h : entry.state = .started) :
    withoutOldest k (history ++ [entry]) = withoutOldest k history ++ [entry] := by
  induction history generalizing k with
  | nil => simp [withoutOldest, h]
  | cons first history ih =>
    rw [List.cons_append, withoutOldest, withoutOldest]
    split_ifs
    · rw [ih, List.cons_append]
    · exact ih (k-1)

structure ValidRun (entry : HistoryRun) : Prop where
  runId : isIdentifier entry.runId = true
  messageDigest : isSha256Hex entry.messageDigest = true
  payload : entry.state ≠ .started → entry.payload.isObj = true
  finite : entry.payload.nonFinite = false

def stateBytes (memory : MemoryState) : ℕ :=
  utf8Length (workflowState history memory).render

def Fits (historyLimit historyBytes : ℕ) (memory : MemoryState) (history : List HistoryRun) : Prop :=
  history.length ≤ historyLimit ∧ stateBytes history memory ≤ historyBytes

section Compaction

variable {historyLimit historyBytes : ℕ} {memory : MemoryState} {history rest : List HistoryRun}
  {state : Json} {error : ChannelError}

theorem state_finite (memory : MemoryState) (h : ∀ e ∈ history, ValidRun e) :
    canonicalJson (workflowState history memory) = some (workflowState history memory).render := by
  have hruns : (Json.arr (history.map HistoryRun.dump)).nonFinite = false := by
    rw [Json.nonFinite, Json.non_finite_items, List.any_eq_false]
    intro item hitem
    obtain ⟨entry,hentry,rfl⟩ := List.mem_map.mp hitem
    simp [HistoryRun.dump, Json.nonFinite, Json.nonFiniteFields, (h entry hentry).finite]
  rw [canonicalJson, if_neg]
  simp [workflowState, memoryStateDump, Json.nonFinite, Json.nonFiniteFields] at hruns ⊢
  exact hruns

/-- The loop removes the next oldest finished run as long as the state is too large. -/
theorem history_state_from (historyBytes : ℕ) (memory : MemoryState)
    (h : ∀ e ∈ history, ValidRun e) (fuel k : ℕ)
    (hfuel : history.countP finished ≤ fuel+k)
    (hk : k ≤ history.countP finished) :
    (∀ rest state, historyStateFrom historyBytes memory fuel (withoutOldest k history) =
      .ok (rest,state) → state = workflowState rest memory ∧
        stateBytes rest memory ≤ historyBytes ∧ ∃ n ≤ history.countP finished, k ≤ n ∧
        rest = withoutOldest n history ∧ ∀ j, k ≤ j → j < n →
          historyBytes < stateBytes (withoutOldest j history) memory) ∧
    ∀ error, historyStateFrom historyBytes memory fuel (withoutOldest k history) = .error error →
      historyBytes < stateBytes (history.filter (fun e => !e.finished)) memory := by
  have hcanonical := state_finite memory fun e he => h e ((without_sublist k history).mem he)
  by_cases hfits : stateBytes (withoutOldest k history) memory ≤ historyBytes
  · have hdone : historyStateFrom historyBytes memory fuel (withoutOldest k history) =
        .ok (withoutOldest k history,workflowState (withoutOldest k history) memory) := by
      unfold historyStateFrom
      rw [hcanonical]
      exact if_pos hfits
    rw [hdone]
    refine ⟨fun rest state heq => ?_,nofun⟩
    cases heq
    exact ⟨rfl,hfits,k,hk,le_rfl,rfl,fun j _ _ => by omega⟩
  by_cases hmore : k < history.countP finished
  · obtain ⟨fuel,rfl⟩ : ∃ n, fuel = n+1 := ⟨fuel-1,by omega⟩
    have hnext : historyStateFrom historyBytes memory (fuel+1) (withoutOldest k history) =
        historyStateFrom historyBytes memory fuel (withoutOldest (k+1) history) := by
      conv_lhs => unfold historyStateFrom
      rw [hcanonical, drop_without, if_pos hmore]
      exact if_neg hfits
    obtain ⟨hok,herror⟩ := history_state_from historyBytes memory h fuel (k+1) (by omega) hmore
    rw [hnext]
    refine ⟨fun rest state heq => ?_,herror⟩
    obtain ⟨hstate,hbytes,n,hn,hkn,hrest,hbefore⟩ := hok rest state heq
    refine ⟨hstate,hbytes,n,hn,by omega,hrest,fun j hkj hj => ?_⟩
    rcases eq_or_lt_of_le hkj with rfl | hlt
    · omega
    · exact hbefore j hlt hj
  · have hfail : historyStateFrom historyBytes memory fuel (withoutOldest k history) =
        .error (.application "checkpoint unfinished run history exceeds its byte limit") := by
      unfold historyStateFrom
      rw [hcanonical, drop_without, if_neg hmore]
      cases fuel <;> exact if_neg hfits
    rw [hfail]
    refine ⟨nofun,fun _ _ => ?_⟩
    rw [← without_all, ← Nat.le_antisymm hk (not_lt.mp hmore)]
    omega

theorem read_dump {entry : HistoryRun} (h : ValidRun entry) {seen : List String}
    (hseen : entry.runId ∉ seen) : readEntry seen entry.dump = .ok entry := by
  have hstate : EntryState.ofValue entry.state.value = some entry.state := by
    cases entry.state <;> decide
  have hpayload : (decide (entry.state = .started) || entry.payload.isObj) = true := by
    by_cases hstarted : entry.state = .started
    · rw [hstarted]
      rfl
    · rw [h.payload hstarted, Bool.or_true]
  simp only [readEntry, HistoryRun.dump, Json.get?, getOrNull, List.find?, String.reduceEq,
    decide_true, decide_false, Option.map_some, Option.getD_some, hstate, h.runId,
    h.messageDigest, List.contains_eq_mem, hseen, hpayload, Bool.not_false, Bool.and_true, if_true]

theorem read_dumps (h : ∀ e ∈ history, ValidRun e) (hdistinct : (history.map HistoryRun.runId).Nodup)
    (seen : List String) (hseen : ∀ e ∈ history, e.runId ∉ seen) :
    readEntries seen (history.map HistoryRun.dump) = .ok history := by
  induction history generalizing seen with
  | nil => rfl
  | cons entry history ih =>
    obtain ⟨hfirst,hrest⟩ := List.nodup_cons.mp hdistinct
    have hnext := ih (fun e he => h e (List.mem_cons_of_mem entry he)) hrest (entry.runId::seen)
      fun e he hmem => (List.mem_cons.mp hmem).elim
        (fun heq => hfirst (heq ▸ List.mem_map_of_mem he))
        (hseen e (List.mem_cons_of_mem entry he))
    rw [List.map_cons, readEntries, read_dump (h entry List.mem_cons_self)
      (hseen entry List.mem_cons_self)]
    simp only [bind, Except.bind, hnext]

/-- A checkpoint state within its byte limit is read back as it was written. -/
theorem state_loads (h : ∀ e ∈ history, ValidRun e)
    (hdistinct : (history.map HistoryRun.runId).Nodup) (hsummary : memory.summary.toList.length ≤ 12000)
    (hbytes : stateBytes history memory ≤ historyBytes) :
    loadHistory historyBytes (workflowState history memory) = .ok history ∧
      loadMemoryState historyBytes (workflowState history memory) = .ok memory := by
  have howner : checkOwner historyBytes (workflowState history memory) = .ok () := by
    rw [checkOwner, state_finite memory h]
    exact (if_neg (not_lt.mpr hbytes)).trans (if_pos rfl)
  have hobject : workflowState history memory ≠ .null := nofun
  constructor
  · rw [loadHistory, if_neg hobject, howner]
    exact read_dumps h hdistinct [] fun _ _ => List.not_mem_nil
  · rw [loadMemoryState, if_neg hobject, howner]
    have hread : readMemoryState [("covered_revision",.int memory.coveredRevision),
        ("summary",.str memory.summary),("degraded",.bool memory.degraded)] = some memory := by
      simp [readMemoryState, Json.get?, hsummary]
    simp only [bind, Except.bind, workflowState, memoryStateDump, getOrNull, Json.get?, List.find?,
      String.reduceEq, decide_true, decide_false, Option.map_some, Option.getD_some, hread]

/-- Appending a run removes the oldest finished one if the history is full, and fails if there
is none. -/
theorem append_started {runId messageDigest : String} {all : List HistoryRun}
    (hlimit : history.length ≤ historyLimit)
    (hall : all = history ++ [⟨runId,messageDigest,.started,.null⟩]) :
    (∃ k ≤ all.countP finished, all.length ≤ historyLimit+k ∧
      (∀ j < k, historyLimit+j < all.length) ∧
      appendStarted historyLimit history runId messageDigest = .ok (withoutOldest k all)) ∨
    (historyLimit < (all.filter (fun e => !e.finished)).length ∧
      ∃ error, appendStarted historyLimit history runId messageDigest = .error error) := by
  have hcount : all.countP finished = history.countP finished := by
    rw [hall, List.countP_append]
    rfl
  have hlength : all.length = history.length+1 := by rw [hall, List.length_append]; rfl
  unfold appendStarted
  by_cases hfull : historyLimit ≤ history.length
  · have hdrop := drop_without 0 history
    rw [without_zero] at hdrop
    simp only [if_pos hfull, hdrop]
    by_cases hfinished : 0 < history.countP finished
    · refine .inl ⟨1,by omega,by omega,fun j hj => by omega,?_⟩
      rw [hall, without_append 1 history rfl, if_pos hfinished]
    · refine .inr ⟨?_,_,by rw [if_neg hfinished]⟩
      rw [← without_all, hcount, Nat.le_zero.mp (not_lt.mp hfinished), without_zero]
      omega
  · refine .inl ⟨0,Nat.zero_le _,by omega,nofun,?_⟩
    rw [without_zero, hall]
    exact if_neg hfull

end Compaction

/-- A new run is appended to a valid history within its entry limit and the state is
written. If that returns, the state is within both limits, the removed runs are
the oldest finished ones and no fewer would have been enough, no unfinished run was
removed, and the loaders give back the remaining runs and the memory. If it raises,
removing all finished runs would not have been enough. -/
theorem history_compaction (historyLimit historyBytes : ℕ) (history : List HistoryRun)
    (memory : MemoryState) (runId messageDigest : String) (hvalid : ∀ e ∈ history, ValidRun e)
    (hdistinct : (history.map HistoryRun.runId).Nodup) (hlimit : history.length ≤ historyLimit)
    (hsummary : memory.summary.toList.length ≤ 12000) (hrun : isIdentifier runId = true)
    (hnew : runId ∉ history.map HistoryRun.runId) (hdigest : isSha256Hex messageDigest = true) :
    let all := history ++ [⟨runId,messageDigest,.started,.null⟩]
    let written := appendStarted historyLimit history runId messageDigest >>= fun appended =>
      historyState historyBytes appended memory
    (∀ rest state, written = .ok (rest,state) →
      rest.length ≤ historyLimit ∧
      (∃ text, canonicalJson state = some text ∧ utf8Length text ≤ historyBytes) ∧
      rest.filter (fun e => !e.finished) = all.filter (fun e => !e.finished) ∧
      (∃ k, rest = withoutOldest k all ∧
        ∀ j < k, ¬Fits historyLimit historyBytes memory (withoutOldest j all)) ∧
      loadHistory historyBytes state = .ok rest ∧
      loadMemoryState historyBytes state = .ok memory) ∧
    ∀ error, written = .error error →
      ¬Fits historyLimit historyBytes memory (all.filter (fun e => !e.finished)) := by
  intro all written
  have hall : ∀ e ∈ all, ValidRun e := by
    intro e he
    rcases List.mem_append.mp he with hold | hlast
    · exact hvalid e hold
    · obtain rfl := List.mem_singleton.mp hlast
      exact ⟨hrun,hdigest,fun h => absurd rfl h,rfl⟩
  have hids : (all.map HistoryRun.runId).Nodup := by
    rw [List.map_append]
    exact List.nodup_append'.mpr ⟨hdistinct,by simp,by simpa using hnew⟩
  rcases append_started hlimit (rfl : all = _) with
    ⟨k,hk,hroom,hfull,happended⟩ | ⟨hmany,error,herror⟩
  · have hwritten : written = historyStateFrom historyBytes memory (withoutOldest k all).length
        (withoutOldest k all) := by
      change appendStarted historyLimit history runId messageDigest >>= _ = _
      rw [happended]
      rfl
    have hlength := without_length k all hk
    have hcount := List.countP_le_length (p := finished) (l := all)
    obtain ⟨hok,hraises⟩ := history_state_from historyBytes memory hall
      (withoutOldest k all).length k (by omega) hk
    rw [hwritten]
    refine ⟨fun rest state heq => ?_,fun error heq hfits => ?_⟩
    · obtain ⟨rfl,hbytes,n,hn,hkn,rfl,hbefore⟩ := hok rest state heq
      have hsublist := without_sublist n all
      have hrest : ∀ e ∈ withoutOldest n all, ValidRun e := fun e he => hall e (hsublist.mem he)
      have hshort := without_length n all hn
      refine ⟨by omega,⟨_,state_finite memory hrest,hbytes⟩,without_unfinished n all,
        ⟨n,rfl,fun j hj hfits => ?_⟩,state_loads hrest (hids.sublist (hsublist.map _)) hsummary hbytes⟩
      by_cases hjk : j < k
      · have hlong := without_length j all (by omega)
        have hover := hfull j hjk
        have hwithin := hfits.1
        omega
      · exact absurd hfits.2 (not_le.mpr (hbefore j (not_lt.mp hjk) hj))
    · exact absurd hfits.2 (not_le.mpr (hraises error heq))
  · have hwritten : written = .error error := by
      change appendStarted historyLimit history runId messageDigest >>= _ = _
      rw [herror]
      rfl
    rw [hwritten]
    exact ⟨nofun,fun _ _ hfits => absurd hfits.1 (not_le.mpr hmany)⟩

namespace Compacted

def hex : String := String.ofList (List.replicate 64 'a')

def completed : HistoryRun := ⟨"run-1",hex,.completed,.obj []⟩

def unfinished (runId : String) : HistoryRun := ⟨runId,hex,.started,.null⟩

end Compacted

section Compacted
open Compacted

/-- The finished run gives way to the third one, and the two unfinished runs are read back. -/
theorem full_history_compaction :
    (appendStarted 2 [completed,unfinished "run-2"] "run-3" hex >>= fun appended =>
      historyState 1000 appended {}) = .ok ([unfinished "run-2",unfinished "run-3"],
        workflowState [unfinished "run-2",unfinished "run-3"] {}) ∧
    loadHistory 1000 (workflowState [unfinished "run-2",unfinished "run-3"] {}) =
      .ok [unfinished "run-2",unfinished "run-3"] := by
  have hwritten : (appendStarted 2 [completed,unfinished "run-2"] "run-3" hex >>= fun appended =>
      historyState 1000 appended {}) = .ok ([unfinished "run-2",unfinished "run-3"],
        workflowState [unfinished "run-2",unfinished "run-3"] {}) := by decide +kernel
  refine ⟨hwritten,((history_compaction 2 1000 [completed,unfinished "run-2"] {} "run-3" hex ?_
    (by decide +kernel) (by decide) (by decide) (by decide) (by decide +kernel)
    (by decide +kernel)).1 _ _ hwritten).2.2.2.2.1⟩
  intro e he
  simp only [List.mem_cons, List.not_mem_nil, or_false] at he
  rcases he with rfl | rfl
  · exact ⟨by decide,by decide +kernel,fun _ => rfl,rfl⟩
  · exact ⟨by decide,by decide +kernel,fun h => absurd rfl h,rfl⟩

end Compacted

end SuiteHarness.Server
