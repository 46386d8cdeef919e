import SuiteHarness.Workspace.Edits

/-!
# Serializability of concurrent edits

The renames order the edits. An edit whose rename directly follows its check
among the renames was computed from the content it replaces, so the file always
holds what the renamed edits give one after another. An edit whose check was
overtaken by another rename writes back content computed from an older file.
-/

set_option autoImplicit false

namespace SuiteHarness.Workspace
open SuiteHarness.Library

theorem serially_append (calls : List EditCall) (first second : List ℕ) (content : Bytes) :
    serially calls (first++second) content =
      (serially calls first content).bind (serially calls second) := by
  induction first generalizing content with
  | nil => rfl
  | cons i first ih =>
    simp only [List.cons_append, serially]
    cases calls[i]? with
    | none => rfl
    | some c =>
      cases hc : c.apply content with
      | error e => simp [hc]
      | ok updated => simp [hc, ih]

variable {calls : List EditCall} {w : EditWorld}

theorem serially_one {i : ℕ} {c : EditCall} {content updated : Bytes} (hc : calls[i]? = some c)
    (h : c.apply content = .ok updated) : serially calls [i] content = some updated := by
  simp [serially, hc, h]

/-- Reading stops one byte past the limit, which decides the same. -/
theorem EditCall.apply_take (c : EditCall) (content : Bytes) :
    c.apply (content.take (c.limits.maxReadBytes+1)) = c.apply content := by
  by_cases h : c.limits.maxReadBytes < content.length
  · have hlong : c.limits.maxReadBytes < (content.take (c.limits.maxReadBytes+1)).length := by
      rw [List.length_take]
      omega
    rw [EditCall.apply, EditCall.apply, if_pos hlong, if_pos h]
  · rw [List.take_of_length_le (by omega)]

namespace EditStage

def hasRenamed : EditStage → Bool
  | .syncing | .done => true
  | _ => false

def settled : EditStage → Bool
  | .syncing | .done | .failed _ => true
  | _ => false

def Explained (w : EditWorld) (c : EditCall) : EditStage → Prop
  | .reading n chunks => ∃ k, k ≤ c.limits.maxReadBytes+1 ∧ chunks = (w.content n).take k
  | .toCheck n updated => n = w.leaf → c.apply (w.content w.leaf) = .ok updated
  | .toCreate seen updated => seen ≤ w.renames.length ∧
    (seen = w.renames.length → c.apply (w.content w.leaf) = .ok updated)
  | .writing n seen rest => seen ≤ w.renames.length ∧
    (seen = w.renames.length → c.apply (w.content w.leaf) = .ok (w.content n++rest))
  | .toRename n seen => seen ≤ w.renames.length ∧
    (seen = w.renames.length → c.apply (w.content w.leaf) = .ok (w.content n))
  | _ => True

variable {c : EditCall} {st : EditStage} {w : EditWorld}

theorem Explained.put (h : Explained w c st) (i : ℕ) (new : EditStage) :
    Explained (w.put i new) c st := by
  cases st <;> exact h

/-- Writing to a file that is neither the target nor held by the call. -/
theorem Explained.fill (h : Explained w c st) {n : ℕ} (bytes : Bytes) (hleaf : n ≠ w.leaf)
    (hreads : st.reads ≠ some n) (htemp : st.temporary ≠ some n) :
    Explained (w.fill n bytes) c st := by
  have hsame : ∀ m, m ≠ n → (w.fill n bytes).content m = w.content m := fun m hm => if_neg hm
  cases st with
  | reading m chunks =>
    have hm : m ≠ n := fun heq => hreads (by rw [heq, reads])
    simpa only [Explained, hsame m hm] using h
  | toCheck m updated | toCreate seen updated =>
    simpa only [Explained, EditWorld.fill, if_neg hleaf.symm] using h
  | writing m seen rest | toRename m seen =>
    have hm : m ≠ n := fun heq => htemp (by rw [heq, temporary])
    simpa only [Explained, EditWorld.fill, if_neg hleaf.symm, if_neg hm] using h
  | start | syncing | done | failed e => trivial

/-- Replacing the file outdates every check made before. -/
theorem Explained.rename (h : Explained w c st) {i n : ℕ} {new : EditStage}
    (hidentity : st.identity ≠ some n) :
    Explained { w.put i new with leaf := n, renames := w.renames++[i] } c st := by
  cases st with
  | reading m chunks => exact h
  | toCheck m updated => exact fun heq => absurd (by rw [heq, identity]) hidentity
  | toCreate seen updated | writing m seen rest | toRename m seen =>
    have hlen : (w.renames++[i]).length = w.renames.length+1 := by simp
    refine ⟨?_,fun heq => ?_⟩
    · exact le_trans h.1 (by simp)
    · have := h.1
      simp only at heq
      omega
  | start | syncing | done | failed e => trivial

end EditStage

structure Consistent (calls : List EditCall) (initial : Bytes) (w : EditWorld) : Prop where
  length : w.stages.length = calls.length
  replayed : serially calls w.renames initial = some (w.content w.leaf)
  nodup : w.renames.Nodup
  settled : ∀ i ∈ w.renames, ∃ st, w.stages[i]? = some st ∧ st.settled = true
  logged : ∀ (i : ℕ) (st : EditStage), w.stages[i]? = some st → st.hasRenamed = true → i ∈ w.renames
  explained : ∀ (i : ℕ) (c : EditCall) (st : EditStage), calls[i]? = some c →
    w.stages[i]? = some st → st.Explained w c
  apart : ∀ (i : ℕ) (st : EditStage) (n : ℕ), w.stages[i]? = some st → st.temporary = some n → n ≠ w.leaf ∧
    ∀ (j : ℕ) (other : EditStage), w.stages[j]? = some other →
      other.reads ≠ some n ∧ (j ≠ i → other.temporary ≠ some n)

theorem stage_of_put {i j : ℕ} {st found : EditStage} (h : (w.put i st).stages[j]? = some found) :
    (j = i ∧ found = st) ∨ (j ≠ i ∧ w.stages[j]? = some found) := by
  rw [EditWorld.put, List.getElem?_set] at h
  by_cases hj : i = j
  · rw [if_pos hj] at h
    split at h
    · exact .inl ⟨hj.symm,(Option.some.inj h).symm⟩
    · cases h
  · rw [if_neg hj] at h
    exact .inr ⟨fun heq => hj heq.symm,h⟩

theorem stages_put_self {i : ℕ} {old : EditStage} (h : w.stages[i]? = some old) (st : EditStage) :
    (w.put i st).stages[i]? = some st := by
  rw [EditWorld.put, List.getElem?_set_self (List.getElem?_eq_some_iff.mp h).1]

theorem stages_put_other {i j : ℕ} (h : j ≠ i) (st : EditStage) :
    (w.put i st).stages[j]? = w.stages[j]? := by
  rw [EditWorld.put, List.getElem?_set_ne (Ne.symm h)]

namespace Consistent
variable {calls : List EditCall} {initial : Bytes} {w : EditWorld}
variable {c : EditCall} {i n : ℕ} {old st : EditStage}

section
variable (h : Consistent calls initial w)
include h

theorem settled_put (hold : w.stages[i]? = some old)
    (hst : old.settled = true → st.settled = true) :
    ∀ j ∈ w.renames, ∃ found, (w.put i st).stages[j]? = some found ∧ found.settled = true := by
  intro j hj
  obtain ⟨found,hfound,hsettled⟩ := h.settled j hj
  by_cases hji : j = i
  · subst hji
    rw [hold] at hfound
    exact ⟨st,stages_put_self hold st,hst (Option.some.inj hfound ▸ hsettled)⟩
  · exact ⟨found,(stages_put_other hji st).trans hfound,hsettled⟩

variable (hc : calls[i]? = some c)
include hc

theorem put (hold : w.stages[i]? = some old) (hexplained : st.Explained w c)
    (htemp : ∀ n, st.temporary = some n → old.temporary = some n)
    (hreads : ∀ n, st.reads = some n → old.reads = some n ∨ n = w.leaf)
    (hsettled : old.settled = true → st.settled = true)
    (hlogged : st.hasRenamed = true → old.hasRenamed = true) :
    Consistent calls initial (w.put i st) where
  length := (List.length_set).trans h.length
  replayed := h.replayed
  nodup := h.nodup
  settled := h.settled_put hold hsettled
  logged := by
    intro j found hfound hrenamed
    rcases stage_of_put hfound with ⟨rfl,rfl⟩|⟨-,hj⟩
    · exact h.logged j old hold (hlogged hrenamed)
    · exact h.logged j found hj hrenamed
  explained := by
    intro j d found hd hfound
    rcases stage_of_put hfound with ⟨rfl,rfl⟩|⟨-,hj⟩
    · rw [hc] at hd
      exact Option.some.inj hd ▸ hexplained.put j found
    · exact (h.explained j d found hd hj).put i st
  apart := by
    -- the temporary file was already the call's own, and what it opens is the target
    have hown : ∀ (j : ℕ) (found : EditStage) (n : ℕ), (w.put i st).stages[j]? = some found →
        found.temporary = some n → ∃ before : EditStage, w.stages[j]? = some before ∧ before.temporary = some n := by
      intro j found n hfound hn
      rcases stage_of_put hfound with ⟨rfl,rfl⟩|⟨-,hj⟩
      · exact ⟨old,hold,htemp n hn⟩
      · exact ⟨found,hj,hn⟩
    intro j found n hfound hn
    obtain ⟨before,hbefore,hbn⟩ := hown j found n hfound hn
    obtain ⟨hleaf,hothers⟩ := h.apart j before n hbefore hbn
    refine ⟨hleaf,fun k other hother => ⟨fun hk => ?_,fun hkj hk => ?_⟩⟩
    · rcases stage_of_put hother with ⟨rfl,rfl⟩|⟨-,hk'⟩
      · rcases hreads n hk with hr|hr
        · exact (hothers k old hold).1 hr
        · exact hleaf hr
      · exact (hothers k other hk').1 hk
    · obtain ⟨earlier,hearlier,hen⟩ := hown k other n hother hk
      exact (hothers k earlier hearlier).2 hkj hen

theorem write {seen : ℕ} {bytes rest : Bytes}
    (hold : w.stages[i]? = some old) (hsettled : old.settled = false)
    (hleaf : n ≠ w.leaf) (hfree : ∀ j other, w.stages[j]? = some other →
      other.reads ≠ some n ∧ (j ≠ i → other.temporary ≠ some n)) (hseen : seen ≤ w.renames.length)
    (hresult : seen = w.renames.length → c.apply (w.content w.leaf) = .ok (bytes++rest)) :
    Consistent calls initial ((w.fill n bytes).put i (.writing n seen rest)) where
  length := (List.length_set).trans h.length
  replayed := by
    have hkept : (w.fill n bytes).content w.leaf = w.content w.leaf := if_neg hleaf.symm
    exact h.replayed.trans (congrArg some hkept.symm)
  nodup := h.nodup
  settled := h.settled_put hold (fun hs => absurd hs (by simp [hsettled]))
  logged := by
    intro j found hfound hrenamed
    rcases stage_of_put hfound with ⟨rfl,rfl⟩|⟨-,hj⟩
    · cases hrenamed
    · exact h.logged j found hj hrenamed
  explained := by
    intro j d found hd hfound
    rcases stage_of_put hfound with ⟨rfl,rfl⟩|⟨hji,hj⟩
    · rw [hc] at hd
      cases hd
      refine ⟨hseen,fun heq => ?_⟩
      simpa only [EditWorld.put, EditWorld.fill, if_neg hleaf.symm, if_true] using hresult heq
    · exact ((h.explained j d found hd hj).fill bytes hleaf (hfree j found hj).1
        ((hfree j found hj).2 hji)).put i _
  apart := by
    intro j found m hfound hm
    rcases stage_of_put hfound with ⟨rfl,rfl⟩|⟨hji,hj⟩
    · cases hm
      refine ⟨hleaf,fun k other hother => ?_⟩
      rcases stage_of_put hother with ⟨rfl,rfl⟩|⟨hkj,hk⟩
      · exact ⟨by simp [EditStage.reads],fun hne => absurd rfl hne⟩
      · exact hfree k other hk
    · obtain ⟨hmleaf,hothers⟩ := h.apart j found m hj hm
      refine ⟨hmleaf,fun k other hother => ?_⟩
      rcases stage_of_put hother with ⟨rfl,rfl⟩|⟨-,hk⟩
      · refine ⟨by simp [EditStage.reads],fun _ heq => ?_⟩
        have hnm : n = m := Option.some.inj heq
        exact (hfree j found hj).2 hji (hnm ▸ hm)
      · exact hothers k other hk

/-- A rename right after its own check, onto an inode no other call compares with. -/
theorem rename (hold : w.stages[i]? = some (.toRename n w.renames.length))
    (hidentity : ∀ st ∈ w.stages, st.identity ≠ some n) :
    Consistent calls initial { w.put i .syncing with leaf := n, renames := w.renames++[i] } where
  length := (List.length_set).trans h.length
  replayed := by
    have hresult := (h.explained i c _ hc hold).2 rfl
    rw [serially_append, h.replayed]
    exact serially_one hc hresult
  nodup := by
    refine h.nodup.append (List.nodup_singleton i) ?_
    rw [List.disjoint_singleton]
    intro hi
    obtain ⟨st,hst,hsettled⟩ := h.settled i hi
    rw [hold] at hst
    cases hst
    cases hsettled
  settled := by
    intro j hj
    rcases List.mem_append.mp hj with hj|hj
    · exact h.settled_put hold nofun j hj
    · exact ⟨.syncing,List.mem_singleton.mp hj ▸ stages_put_self hold _,rfl⟩
  logged := by
    intro j found hfound hrenamed
    rcases stage_of_put hfound with ⟨rfl,rfl⟩|⟨-,hj⟩
    · exact List.mem_append_right _ List.mem_cons_self
    · exact List.mem_append_left _ (h.logged j found hj hrenamed)
  explained := by
    intro j d found hd hfound
    rcases stage_of_put hfound with ⟨rfl,rfl⟩|⟨-,hj⟩
    · trivial
    · exact (h.explained j d found hd hj).rename (hidentity found (List.mem_of_getElem? hj))
  apart := by
    intro j found m hfound hm
    rcases stage_of_put hfound with ⟨rfl,rfl⟩|⟨hji,hj⟩
    · cases hm
    · obtain ⟨-,hothers⟩ := h.apart j found m hj hm
      have hmn : (EditStage.toRename n w.renames.length).temporary ≠ some m :=
        (hothers i _ hold).2 (Ne.symm hji)
      refine ⟨fun heq => hmn (congrArg some heq.symm),fun k other hother => ?_⟩
      rcases stage_of_put hother with ⟨rfl,rfl⟩|⟨-,hk⟩
      · exact ⟨by simp [EditStage.reads],fun _ => by simp [EditStage.temporary]⟩
      · exact hothers k other hk

end

/-- A read that got nothing has the whole file, or as much as it may read. -/
theorem take_of_no_chunk {k bytes : ℕ} (hk : k ≤ c.limits.maxReadBytes+1)
    (h : w.nextChunk c n ((w.content n).take k) bytes = []) :
    (w.content n).take k = (w.content n).take (c.limits.maxReadBytes+1) := by
  rw [EditWorld.nextChunk, List.take_eq_nil_iff, List.drop_eq_nil_iff, List.length_take] at h
  rcases h with h|h
  · have hlen : c.limits.maxReadBytes+1 ≤ k := by omega
    rw [le_antisymm hk hlen]
  · rw [List.take_of_length_le (by omega), List.take_of_length_le (by omega)]

theorem take_nextChunk {k bytes : ℕ} (hk : k ≤ c.limits.maxReadBytes+1) :
    ∃ l, l ≤ c.limits.maxReadBytes+1 ∧
      (w.content n).take k++w.nextChunk c n ((w.content n).take k) bytes = (w.content n).take l := by
  rw [EditWorld.nextChunk, List.length_take]
  rcases le_total k (w.content n).length with hle|hle
  · rw [Nat.min_eq_left hle, ← List.take_add]
    exact ⟨_,by omega,rfl⟩
  · rw [Nat.min_eq_right hle, List.drop_length, List.take_nil, List.append_nil]
    exact ⟨k,hk,rfl⟩

theorem free_of_not_inUse (h : ¬ w.inUse n = true) : n ≠ w.leaf ∧
    ∀ other ∈ w.stages, other.reads ≠ some n ∧ other.temporary ≠ some n := by
  simpa [EditWorld.inUse] using h

/-- One call advances; a rename only under its condition. -/
theorem advance (h : Consistent calls initial w) {call : Syscall} (hc : calls[i]? = some c)
    (hst : w.stages[i]? = some st)
    (hcareful : ∀ n seen, call = .rename → st = .toRename n seen → seen = w.renames.length ∧
      ∀ other ∈ w.stages, other.identity ≠ some n) :
    Consistent calls initial (w.advance i c call st) := by
  have hexplained := h.explained i c st hc hst
  unfold EditWorld.advance
  split
  · -- open
    refine h.put hc hst ⟨0,Nat.zero_le _,rfl⟩ nofun (fun n hn => ?_)
      nofun nofun
    exact .inr (Option.some.inj hn).symm
  · -- read
    rename_i bytes n chunks
    obtain ⟨k,hk,rfl⟩ := hexplained
    dsimp only
    split
    · rename_i hempty
      split
      · exact h.put hc hst trivial nofun nofun
          nofun nofun
      · rename_i updated happly
        refine h.put hc hst (fun hleaf => ?_) nofun nofun
          nofun nofun
        rw [take_of_no_chunk hk hempty, EditCall.apply_take, hleaf] at happly
        exact happly
    · exact h.put hc hst (take_nextChunk hk) nofun (fun n hn => .inl hn)
        nofun nofun
  · -- check
    split
    · rename_i heq
      exact h.put hc hst ⟨le_refl _,fun _ => hexplained heq.symm⟩ nofun
        nofun nofun nofun
    · exact h.put hc hst trivial nofun nofun
        nofun nofun
  · -- create
    split
    · exact h
    · rename_i n seen updated hfree
      obtain ⟨hleaf,hothers⟩ := free_of_not_inUse hfree
      refine h.write hc hst rfl hleaf (fun j other hother => ?_) hexplained.1 hexplained.2
      obtain ⟨hreads,htemp⟩ := hothers other (List.mem_of_getElem? hother)
      exact ⟨hreads,fun _ => htemp⟩
  · -- write
    rename_i bytes n seen rest
    split
    · rename_i hrest
      subst hrest
      refine h.put hc hst ⟨hexplained.1,fun heq => ?_⟩ (fun n hn => hn) nofun
        nofun nofun
      simpa using hexplained.2 heq
    · obtain ⟨hleaf,hothers⟩ := h.apart i _ n hst rfl
      refine h.write hc hst rfl hleaf hothers hexplained.1 (fun heq => ?_)
      rw [List.append_assoc, List.take_append_drop]
      exact hexplained.2 heq
  · -- rename
    rename_i n seen
    obtain ⟨rfl,hidentity⟩ := hcareful n seen rfl rfl
    exact h.rename hc hst hidentity
  · exact h.put hc hst trivial nofun nofun (fun _ => rfl)
      (fun _ => rfl)
  all_goals first
    | exact h
    | exact h.put hc hst trivial (fun n hn => nomatch hn) (fun n hn => nomatch hn) (fun _ => rfl)
        nofun

end Consistent

def EditWorld.careful (w : EditWorld) (m : ℕ × Syscall) : Bool :=
  match m.2, w.stages[m.1]? with
  | .rename, some (.toRename n seen) => decide (seen = w.renames.length) &&
      w.stages.all (fun other => decide (other.identity ≠ some n))
  | _, _ => true

open EditWorld (after start put step fill careful)

theorem consistent_step {initial : Bytes} {m : ℕ × Syscall} (hcareful : w.careful m = true)
    (h : Consistent calls initial w) : Consistent calls initial (step calls w m).1 := by
  unfold step
  split
  · rename_i c st hc hst
    refine h.advance hc hst (fun n seen hcall hrename => ?_)
    subst hrename
    simp only [careful, hcall, hst, Bool.and_eq_true, decide_eq_true_eq,
      List.all_eq_true] at hcareful
    exact hcareful
  · exact h

theorem consistent_start (calls : List EditCall) (leaf : ℕ) (content : ℕ → Bytes) :
    Consistent calls (content leaf) (start calls leaf content) := by
  have hstart : ∀ (i : ℕ) (st : EditStage),
      (start calls leaf content).stages[i]? = some st → st = .start := by
    intro i st hst
    simp only [start, List.getElem?_map, Option.map_eq_some_iff] at hst
    obtain ⟨-,-,rfl⟩ := hst
    rfl
  refine ⟨by simp [start],rfl,List.nodup_nil,fun i hi => absurd hi List.not_mem_nil,
    fun i st hst hrenamed => ?_,fun i c st _ hst => ?_,fun i st n hst hn => ?_⟩
  · cases hstart i st hst
    cases hrenamed
  · cases hstart i st hst
    trivial
  · cases hstart i st hst
    cases hn

/-- Once every call is done, the renames are an order of all of them. -/
theorem Consistent.perm {initial : Bytes} (h : Consistent calls initial w)
    (hdone : w.stages.all EditStage.isDone = true) : w.renames.Perm (List.range calls.length) := by
  rw [List.perm_ext_iff_of_nodup h.nodup List.nodup_range]
  intro i
  rw [List.mem_range, ← h.length]
  constructor
  · intro hi
    obtain ⟨st,hst,-⟩ := h.settled i hi
    exact (List.getElem?_eq_some_iff.mp hst).1
  · intro hi
    have hst : w.stages[i]? = some w.stages[i] := List.getElem?_eq_getElem hi
    have hd := List.all_eq_true.mp hdone _ (List.getElem_mem hi)
    refine h.logged i _ hst ?_
    cases heq : w.stages[i] <;> rw [heq] at hd <;> first | rfl | nomatch hd

/-- Concurrent edits whose renames each directly follow their own check, and that
all report success, leave the file as some serial order of them does. -/
theorem careful_edits_serialize (calls : List EditCall) (leaf : ℕ) (content : ℕ → Bytes)
    (moves : List (ℕ × Syscall))
    (hcareful : Machine.along (step calls) careful
      (start calls leaf content) moves = true)
    (hdone : (after calls leaf content moves).stages.all EditStage.isDone = true) :
    ∃ order : List ℕ, order.Perm (List.range calls.length) ∧
      serially calls order (content leaf) =
        some ((after calls leaf content moves).content
          (after calls leaf content moves).leaf) := by
  have h := Machine.final_invariant_along (step calls) careful
    (Consistent calls (content leaf)) (fun w m hm hw => consistent_step hm hw) _ moves hcareful
    (consistent_start calls leaf content)
  exact ⟨_,h.perm hdone,h.replayed⟩

def twoEdits : List EditCall := [.exact "x" "a" 1,.exact "y" "b" 1]

def consecutiveEdits : List (ℕ × Syscall) :=
  [(0,.openFile),(0,.read 2),(0,.read 2),(0,.check),(0,.create 1),(0,.write 1),(0,.write 1),
    (0,.write 1),(0,.rename),(0,.sync),(1,.openFile),(1,.read 2),(1,.read 2),(1,.check),
    (1,.create 0),(1,.write 2),(1,.write 2),(1,.rename),(1,.sync)]

/-- One edit after the other, the second of which reuses the first's old inode. -/
theorem consecutive_edits_serialize :
    ∃ order : List ℕ, order.Perm (List.range twoEdits.length) ∧
      serially twoEdits order [120,121] =
        some ((after twoEdits 0 (fun _ => [120,121]) consecutiveEdits).content
          (after twoEdits 0 (fun _ => [120,121]) consecutiveEdits).leaf) :=
  careful_edits_serialize twoEdits 0 (fun _ => [120,121]) consecutiveEdits
    (by decide +kernel) (by decide +kernel)

def overlappingEdits : List (ℕ × Syscall) :=
  [(0,.openFile),(1,.openFile),(0,.read 2),(1,.read 2),(0,.read 2),(1,.read 2),(0,.check),
    (1,.check),(0,.create 1),(1,.create 2),(0,.write 2),(0,.write 2),(1,.write 2),(1,.write 2),
    (0,.rename),(1,.rename),(0,.sync),(1,.sync)]

/-- The first of two overlapping edits is lost, though both report success. -/
theorem overlapping_edit_lost :
    (after twoEdits 0 (fun _ => [120,121]) overlappingEdits).stages.all
      EditStage.isDone = true ∧
    ¬ ∃ order : List ℕ, order.Perm (List.range twoEdits.length) ∧
      serially twoEdits order [120,121] =
        some ((after twoEdits 0 (fun _ => [120,121]) overlappingEdits).content
          (after twoEdits 0 (fun _ => [120,121]) overlappingEdits).leaf) := by
  refine ⟨by decide +kernel,?_⟩
  rintro ⟨order,hperm,hserial⟩
  obtain ⟨i,j,rfl⟩ := List.length_eq_two.mp hperm.length_eq
  have hi : i < 2 := List.mem_range.mp (hperm.subset (by simp))
  have hj : j < 2 := List.mem_range.mp (hperm.subset (by simp))
  have hij : i ≠ j := by simpa using hperm.nodup_iff.mpr List.nodup_range
  -- both orders of the two edits give the same content
  have hboth : serially twoEdits [i,j] [120,121] = some [97,98] := by
    interval_cases i <;> interval_cases j <;> first | exact absurd rfl hij | decide +kernel
  rw [hboth] at hserial
  revert hserial
  decide +kernel

end SuiteHarness.Workspace
