import SuiteHarness.Execution.Models
import SuiteHarness.Library.Table
import SuiteHarness.Library.Machine

/-!
# The agent task store

`SQLiteAgentTaskStore`: one row per delegated task and one fence per cancelled
parent run. Every write is one transaction, so it is one step. The random ids of
a task are drawn from a counter: they never repeat.
-/

set_option autoImplicit false

namespace SuiteHarness.Multiagent
open SuiteHarness.Library SuiteHarness.Library.Table SuiteHarness.Execution

inductive AgentTaskStatus where
  | queued | running | succeeded | failed | cancelled | timedOut
  deriving DecidableEq

namespace AgentTaskStatus

def terminal : AgentTaskStatus → Bool
  | .queued | .running => false
  | _ => true

def next : AgentTaskStatus → List AgentTaskStatus
  | .queued => [.running,.failed,.cancelled,.timedOut]
  | .running => [.succeeded,.failed,.cancelled,.timedOut]
  | _ => []

end AgentTaskStatus

structure TaskOwner where
  tenantId : Identifier
  productId : Identifier
  principalId : Identifier
  deriving DecidableEq

def ownerOf (scope : RequestScope) : TaskOwner :=
  ⟨scope.tenantId,scope.productId,scope.principalId⟩

structure AgentTaskRecord where
  taskId : ℕ
  owner : TaskOwner
  parentRunId : String
  callId : String
  roleId : String
  taskDigest : String
  childRunId : ℕ
  childAgentId : ℕ
  childSessionId : ℕ
  status : AgentTaskStatus
  createdAt : ℤ
  updatedAt : ℤ
  startedAt : Option ℤ := none
  finishedAt : Option ℤ := none
  result : Option String := none
  failure : Option String := none
  deriving DecidableEq

structure ParentFence where
  owner : TaskOwner
  parentRunId : String
  cancelledAt : ℤ
  deriving DecidableEq

structure AgentTaskStore where
  tasks : List AgentTaskRecord := []
  fences : List ParentFence := []
  nextId : ℕ := 0
  deriving DecidableEq

inductive AgentTaskError where
  | valueError (message : String)
  | idempotencyConflict (message : String)
  | cancelled (message : String)
  deriving DecidableEq

def isTaskDigest (s : String) : Bool :=
  match s.toList with
  | [] => false
  | c::cs => isAlnum c && decide (cs.length ≤ 255) &&
      cs.all (fun d => isAlnum d || ['.','_',':','-'].contains d)

def checkIdentifier (value label : String) : Except AgentTaskError Unit :=
  if isIdentifier value then .ok () else .error (.valueError ("invalid " ++ label))

def checkBounded (value : Option String) (label : String) (limit : ℕ) :
    Except AgentTaskError Unit :=
  if value.any (fun text => decide (limit < utf8Length text)) then
    .error (.valueError (label ++ " exceeds " ++ toString limit ++ " bytes"))
  else .ok ()

namespace AgentTaskRecord

def callKey (row : AgentTaskRecord) : TaskOwner × String × String :=
  (row.owner,row.parentRunId,row.callId)

def ofParent (owner : TaskOwner) (parentRunId : String) (row : AgentTaskRecord) : Bool :=
  decide (row.owner = owner ∧ row.parentRunId = parentRunId)

end AgentTaskRecord

namespace AgentTaskStore

variable (s : AgentTaskStore) (owner : TaskOwner) (parentRunId callId roleId taskDigest : String) (now : ℤ)
  (row : AgentTaskRecord)

def rowByCall (parentRunId callId : String) : Option AgentTaskRecord :=
  lookup AgentTaskRecord.callKey (owner,parentRunId,callId) s.tasks

def getByCall (parentRunId callId : String) :
    Except AgentTaskError (AgentTaskStore × Option AgentTaskRecord) := do
  checkIdentifier parentRunId "parent_run_id"
  checkIdentifier callId "call_id"
  .ok (s,s.rowByCall owner parentRunId callId)

def fenced (parentRunId : String) : Bool :=
  s.fences.any (fun fence => decide (fence.owner = owner ∧ fence.parentRunId = parentRunId))

def newRow : AgentTaskRecord :=
  { taskId := s.nextId
    owner := owner
    parentRunId := parentRunId
    callId := callId
    roleId := roleId
    taskDigest := taskDigest
    childRunId := s.nextId+1
    childAgentId := s.nextId+2
    childSessionId := s.nextId+3
    status := .queued
    createdAt := now
    updatedAt := now }

def insertRow : AgentTaskStore :=
  { s with tasks := s.tasks ++ [row], nextId := s.nextId+4 }

def create : Except AgentTaskError (AgentTaskStore × AgentTaskRecord) := do
  checkIdentifier parentRunId "parent_run_id"
  checkIdentifier callId "call_id"
  checkIdentifier roleId "role_id"
  if !isTaskDigest taskDigest then .error (.valueError "invalid task_digest")
  else match s.rowByCall owner parentRunId callId with
    | some prior =>
      if prior.roleId ≠ roleId ∨ prior.taskDigest ≠ taskDigest then
        .error (.idempotencyConflict
          "delegation call was reused with different role or task digest")
      else .ok (s,prior)
    | none =>
      if s.fenced owner parentRunId then .error (.cancelled "parent run was cancelled")
      else
        let row := s.newRow owner parentRunId callId roleId taskDigest now
        .ok (s.insertRow row,row)

def ownedRow (taskId : ℕ) (parentRunId : String) : Option AgentTaskRecord :=
  s.tasks.find? (fun row => decide (row.taskId = taskId) && row.ofParent owner parentRunId)

def getOwned (taskId : ℕ) (parentRunId : String) :
    Except AgentTaskError (AgentTaskStore × Option AgentTaskRecord) := do
  checkIdentifier parentRunId "parent_run_id"
  .ok (s,s.ownedRow owner taskId parentRunId)

def moved (target : AgentTaskStatus) (result failure : Option String) (now : ℤ)
    (row : AgentTaskRecord) : AgentTaskRecord :=
  { row with
    status := target
    updatedAt := now
    startedAt := if target = .running then some now else row.startedAt
    finishedAt := if target.terminal then some now else row.finishedAt
    result := result
    failure := failure }

def transition (taskId : ℕ) (expected target : AgentTaskStatus) (parentRunId : String)
    (result failure : Option String) (now : ℤ) :
    Except AgentTaskError (AgentTaskStore × Option AgentTaskRecord) := do
  checkIdentifier parentRunId "parent_run_id"
  if target ∉ expected.next then .ok (s,none)
  else
    checkBounded result "result" 8192
    checkBounded failure "failure" 2048
    if result.isSome = true ∧ target ≠ .succeeded then
      .error (.valueError "result requires SUCCEEDED status")
    else if failure.isSome = true ∧ target ≠ .failed ∧ target ≠ .timedOut then
      .error (.valueError "failure requires FAILED or TIMED_OUT status")
    else
      let selected := fun row : AgentTaskRecord => decide (row.taskId = taskId) &&
        row.ofParent owner parentRunId && decide (row.status = expected)
      if s.tasks.countP selected ≠ 1 then .ok (s,none)
      else
        let t := { s with tasks := updateWhere selected (moved target result failure now) s.tasks }
        .ok (t,t.ownedRow owner taskId parentRunId)

def cancelRow : AgentTaskRecord :=
  { row with status := .cancelled, updatedAt := now, finishedAt := some now }

def cancelChildren (parentRunId : String) (now : ℤ) :
    Except AgentTaskError (AgentTaskStore × ℕ) := do
  checkIdentifier parentRunId "parent_run_id"
  let selected := fun row : AgentTaskRecord => row.ofParent owner parentRunId && !row.status.terminal
  .ok ({ s with
    fences := if s.fenced owner parentRunId then s.fences
      else s.fences ++ [⟨owner,parentRunId,now⟩]
    tasks := updateWhere selected (cancelRow now) s.tasks },s.tasks.countP selected)

def interruptRow : AgentTaskRecord :=
  { row with
    status := .failed
    updatedAt := now
    finishedAt := some now
    failure := some "interrupted by service restart" }

def recoverInterrupted : AgentTaskStore × ℕ :=
  let selected := fun row : AgentTaskRecord => !row.status.terminal
  ({ s with tasks := updateWhere selected (interruptRow now) s.tasks },s.tasks.countP selected)

end AgentTaskStore

inductive AgentTaskOp where
  | create (scope : RequestScope) (parentRunId callId roleId taskDigest : String) (now : ℤ)
  | getByCall (scope : RequestScope) (parentRunId callId : String)
  | getOwned (scope : RequestScope) (taskId : ℕ) (parentRunId : String)
  | transition (scope : RequestScope) (taskId : ℕ) (expected target : AgentTaskStatus)
      (parentRunId : String) (result failure : Option String) (now : ℤ)
  | cancelChildren (scope : RequestScope) (parentRunId : String) (now : ℤ)
  | recoverInterrupted (now : ℤ)

inductive AgentTaskAnswer where
  | record (row : AgentTaskRecord)
  | maybeRecord (row : Option AgentTaskRecord)
  | count (n : ℕ)
  | raised (error : AgentTaskError)
  deriving DecidableEq

namespace AgentTaskStore

def answered {α : Type} (s : AgentTaskStore) (f : α → AgentTaskAnswer) :
    Except AgentTaskError (AgentTaskStore × α) → AgentTaskStore × AgentTaskAnswer
  | .ok (t,a) => (t,f a)
  | .error error => (s,.raised error)

def step (s : AgentTaskStore) : AgentTaskOp → AgentTaskStore × AgentTaskAnswer
  | .create scope parent call role digest now =>
    s.answered .record (s.create (ownerOf scope) parent call role digest now)
  | .getByCall scope parent call =>
    s.answered .maybeRecord (s.getByCall (ownerOf scope) parent call)
  | .getOwned scope id parent => s.answered .maybeRecord (s.getOwned (ownerOf scope) id parent)
  | .transition scope id expected target parent result failure now =>
    s.answered .maybeRecord
      (s.transition (ownerOf scope) id expected target parent result failure now)
  | .cancelChildren scope parent now =>
    s.answered .count (s.cancelChildren (ownerOf scope) parent now)
  | .recoverInterrupted now =>
    let (t,n) := s.recoverInterrupted now
    (t,.count n)

structure Advances (a b : AgentTaskRecord) : Prop where
  key : b.callKey = a.callKey
  id : b.taskId = a.taskId
  status : b.status = a.status ∨ b.status ∈ a.status.next
  settled : a.status.terminal = true → b = a
  result : (a.result.isSome = true → a.status = .succeeded) →
    b.result.isSome = true → b.status = .succeeded

theorem Advances.refl (a : AgentTaskRecord) : Advances a a :=
  ⟨rfl,rfl,.inl rfl,fun _ => rfl,fun h => h⟩

inductive Change (s : AgentTaskStore) : AgentTaskStore → Prop
  | none : Change s s
  | inserted (row : AgentTaskRecord) (absent : ∀ a ∈ s.tasks, a.callKey ≠ row.callKey)
      (unfenced : s.fenced row.owner row.parentRunId = false) (id : row.taskId = s.nextId)
      (status : row.status = .queued) (result : row.result = .none) : Change s (s.insertRow row)
  | updated (f : AgentTaskRecord → AgentTaskRecord) (fences : List ParentFence)
      (advances : ∀ a ∈ s.tasks, Advances a (f a)) (grows : s.fences <+: fences) :
      Change s { s with tasks := s.tasks.map f, fences := fences }

theorem next_open {a b : AgentTaskStatus} (h : b ∈ a.next) : a.terminal = false := by
  cases a <;> simp_all [AgentTaskStatus.next, AgentTaskStatus.terminal]

variable {a row : AgentTaskRecord} {expected target : AgentTaskStatus}
  {failure result : Option String} {now : ℤ} {owner : TaskOwner} {parent : String}
  {s t : AgentTaskStore}

theorem moved_advances (hnext : target ∈ a.status.next)
    (hresult : result.isSome = true → target = .succeeded) :
    Advances a (moved target result failure now a) where
  key := rfl
  id := rfl
  status := .inr hnext
  settled h := by
    rw [next_open hnext] at h
    cases h
  result _ := hresult

/-- An open row closed by a status that both open statuses may move to. -/
theorem closed_advances {b : AgentTaskRecord} (hopen : a.status.terminal = false)
    (hkey : b.callKey = a.callKey) (hid : b.taskId = a.taskId) (hresult : b.result = a.result)
    (hstatus : b.status = .cancelled ∨ b.status = .failed) : Advances a b where
  key := hkey
  id := hid
  status := by
    cases hs : a.status <;> rcases hstatus with hb | hb <;>
      simp_all [AgentTaskStatus.terminal, AgentTaskStatus.next]
  settled h := by
    rw [hopen] at h
    cases h
  result h hb := by
    rw [hresult] at hb
    have hsucceeded := h hb
    rw [hsucceeded] at hopen
    cases hopen

/-- A creation that returned: the row of the call was there with its role and
digest, or a new one is stored. -/
theorem create_ok {call role digest : String}
    (h : s.create owner parent call role digest now = .ok (t,row)) :
    (isIdentifier parent = true ∧ isIdentifier call = true) ∧
    ((t = s ∧ s.rowByCall owner parent call = some row) ∨
      (s.rowByCall owner parent call = none ∧ s.fenced owner parent = false ∧
        row = s.newRow owner parent call role digest now ∧ t = s.insertRow row)) := by
  have hchecked : ∀ value label, checkIdentifier value label = .ok () →
      isIdentifier value = true := by
    intro value label hcheck
    unfold checkIdentifier at hcheck
    split at hcheck
    · assumption
    · cases hcheck
  unfold create at h
  simp only [bind, Except.bind] at h
  split at h
  · cases h
  rename_i hparent
  split at h
  · cases h
  rename_i hcall
  split at h
  · cases h
  split at h
  · cases h
  refine ⟨⟨hchecked _ _ hparent,hchecked _ _ hcall⟩,?_⟩
  split at h
  · rename_i hfound
    split at h
    · cases h
    · cases h
      exact .inl ⟨rfl,hfound⟩
  · rename_i habsent
    split at h
    · cases h
    · rename_i hfence
      cases h
      exact .inr ⟨habsent,Bool.eq_false_of_not_eq_true hfence,rfl,rfl⟩

theorem create_change {call role digest : String}
    (h : s.create owner parent call role digest now = .ok (t,row)) : Change s t := by
  obtain ⟨-,⟨rfl,-⟩ | ⟨habsent,hfence,rfl,rfl⟩⟩ := create_ok h
  · exact .none
  · exact .inserted _ ((lookup_none AgentTaskRecord.callKey).mp habsent) hfence rfl rfl rfl

def selects (owner : TaskOwner) (id : ℕ) (parent : String) (expected : AgentTaskStatus)
    (row : AgentTaskRecord) : Bool :=
  decide (row.taskId = id) && row.ofParent owner parent && decide (row.status = expected)

/-- A compare-and-set that returned: it found no row and did nothing, or it moved
the row it found. -/
theorem transition_ok {id : ℕ} {row : Option AgentTaskRecord}
    (h : s.transition owner id expected target parent result failure now = .ok (t,row)) :
    (t = s ∧ row = none) ∨
    ((∃ a ∈ s.tasks, selects owner id parent expected a = true) ∧ row.isSome = true ∧
      target ∈ expected.next ∧ (result.isSome = true → target = .succeeded) ∧
      t = { s with
        tasks := updateWhere (selects owner id parent expected) (moved target result failure now)
          s.tasks }) := by
  unfold transition at h
  simp only [bind, Except.bind] at h
  split at h
  · cases h
  split at h
  · cases h
    exact .inl ⟨rfl,rfl⟩
  rename_i hnext
  split at h
  · cases h
  split at h
  · cases h
  split at h
  · cases h
  rename_i hresult
  split at h
  · cases h
  split at h
  · cases h
    exact .inl ⟨rfl,rfl⟩
  · rename_i hcount
    cases h
    have hfound : ∃ a ∈ s.tasks, selects owner id parent expected a = true := by
      apply List.countP_pos_iff.mp
      have hone := not_not.mp hcount
      unfold selects
      omega
    obtain ⟨a,ha,hselected⟩ := hfound
    refine .inr ⟨⟨a,ha,hselected⟩,?_,not_not.mp hnext,
      fun hsome => not_not.mp (fun hne => hresult ⟨hsome,hne⟩),rfl⟩
    refine List.find?_isSome.mpr ⟨_,List.mem_map_of_mem ha,?_⟩
    have hmatch : decide (a.taskId = id) && a.ofParent owner parent := by
      unfold selects at hselected
      simp_all
    split_ifs
    · exact hmatch
    · exact hmatch

theorem transition_change {id : ℕ} {row : Option AgentTaskRecord}
    (h : s.transition owner id expected target parent result failure now = .ok (t,row)) :
    Change s t := by
  obtain ⟨rfl,-⟩ | ⟨-,-,hnext,hresult,rfl⟩ := transition_ok h
  · exact .none
  · refine .updated _ s.fences (fun a _ => ?_) List.prefix_rfl
    split_ifs with hselected
    · simp only [selects, Bool.and_eq_true, decide_eq_true_eq] at hselected
      refine moved_advances ?_ hresult
      rw [hselected.2]
      exact hnext
    · exact Advances.refl a

theorem cancel_children_ok {n : ℕ} (h : s.cancelChildren owner parent now = .ok (t,n)) :
    t = { s with
      fences := if s.fenced owner parent then s.fences else s.fences ++ [⟨owner,parent,now⟩]
      tasks := updateWhere (fun row : AgentTaskRecord => row.ofParent owner parent &&
        !row.status.terminal) (cancelRow now) s.tasks } := by
  unfold cancelChildren at h
  simp only [bind, Except.bind] at h
  split at h
  · cases h
  · cases h
    rfl

theorem cancel_children_change {n : ℕ} (h : s.cancelChildren owner parent now = .ok (t,n)) :
    Change s t := by
  rw [cancel_children_ok h]
  refine .updated _ _ (fun a _ => ?_) ?_
  · split_ifs with hselected
    · simp only [Bool.and_eq_true, Bool.not_eq_true'] at hselected
      exact closed_advances hselected.2 rfl rfl rfl (.inl rfl)
    · exact Advances.refl a
  · split_ifs
    · exact List.prefix_rfl
    · exact List.prefix_append _ _

theorem recover_change (s : AgentTaskStore) (now : ℤ) : Change s (s.recoverInterrupted now).1 := by
  refine .updated _ s.fences (fun a _ => ?_) List.prefix_rfl
  split_ifs with hselected
  · exact closed_advances (by simpa using hselected) rfl rfl rfl (.inr rfl)
  · exact Advances.refl a

theorem step_change (s : AgentTaskStore) (op : AgentTaskOp) : Change s (s.step op).1 := by
  have hread : ∀ (x : Except AgentTaskError (AgentTaskStore × Option AgentTaskRecord)),
      (∀ t row, x = .ok (t,row) → Change s t) → Change s (s.answered .maybeRecord x).1 := by
    intro x hx
    cases x with
    | error error => exact .none
    | ok result => exact hx result.1 result.2 rfl
  cases op with
  | create scope parent call role digest now =>
    simp only [step]
    cases hc : s.create (ownerOf scope) parent call role digest now with
    | error error => exact .none
    | ok result => exact create_change hc
  | getByCall scope parent call =>
    refine hread _ (fun t row h => ?_)
    unfold getByCall at h
    simp only [bind, Except.bind] at h
    split at h
    · cases h
    split at h
    · cases h
    · cases h
      exact .none
  | getOwned scope id parent =>
    refine hread _ (fun t row h => ?_)
    unfold getOwned at h
    simp only [bind, Except.bind] at h
    split at h
    · cases h
    · cases h
      exact .none
  | transition scope id expected target parent result failure now =>
    exact hread _ (fun t row => transition_change)
  | cancelChildren scope parent now =>
    simp only [step]
    cases hc : s.cancelChildren (ownerOf scope) parent now with
    | error error => exact .none
    | ok result => exact cancel_children_change hc
  | recoverInterrupted now => exact recover_change s now

structure Sound (s : AgentTaskStore) : Prop where
  keys : Unique AgentTaskRecord.callKey s.tasks
  ids : Unique AgentTaskRecord.taskId s.tasks
  drawn : ∀ a ∈ s.tasks, a.taskId < s.nextId
  results : ∀ a ∈ s.tasks, a.result.isSome = true → a.status = .succeeded

theorem sound_initial : Sound {} := ⟨.nil,.nil,by simp,by simp⟩

theorem unique_map {κ : Type} (key : AgentTaskRecord → κ) {f : AgentTaskRecord → AgentTaskRecord}
    {rows : List AgentTaskRecord} (hf : ∀ a ∈ rows, key (f a) = key a) (hu : Unique key rows) :
    Unique key (rows.map f) := by
  refine List.pairwise_map.mpr (hu.imp_of_mem (fun ha hb hne => ?_))
  rw [hf _ ha, hf _ hb]
  exact hne

theorem sound_change (h : Change s t) (hs : Sound s) : Sound t := by
  cases h with
  | none => exact hs
  | inserted row absent _ id status result =>
    refine ⟨?_,?_,?_,?_⟩
    · exact unique_append _ s.tasks row hs.keys ((lookup_none _).mpr absent)
    · refine unique_append _ s.tasks row hs.ids ((lookup_none _).mpr (fun a ha => ?_))
      rw [id]
      exact (hs.drawn a ha).ne
    · intro a ha
      show a.taskId < s.nextId+4
      rcases List.mem_append.mp ha with hold | hnew
      · have hlt := hs.drawn a hold
        omega
      · rw [List.mem_singleton.mp hnew, id]
        omega
    · intro a ha
      rcases List.mem_append.mp ha with hold | hnew
      · exact hs.results a hold
      · rw [List.mem_singleton.mp hnew, result]
        nofun
  | updated f fences advances grows =>
    refine ⟨unique_map _ (fun a ha => (advances a ha).key) hs.keys,
      unique_map _ (fun a ha => (advances a ha).id) hs.ids,?_,?_⟩
    · intro b hb
      obtain ⟨a,ha,rfl⟩ := List.mem_map.mp hb
      rw [(advances a ha).id]
      exact hs.drawn a ha
    · intro b hb
      obtain ⟨a,ha,rfl⟩ := List.mem_map.mp hb
      exact (advances a ha).result (hs.results a ha)

theorem sound_run (s : AgentTaskStore) (ops : List AgentTaskOp) (hs : Sound s) :
    Sound (Machine.final step s ops) :=
  Machine.final_invariant step Sound (fun s op => sound_change (step_change s op)) s ops hs

/-- Each row has one successor, and only queued rows are new. -/
theorem change_rows (h : Change s t) :
    (∀ a ∈ s.tasks, ∃ b ∈ t.tasks, Advances a b) ∧
    ∀ b ∈ t.tasks, (∃ a ∈ s.tasks, a.taskId = b.taskId) ∨ b.status = .queued := by
  cases h with
  | none => exact ⟨fun a ha => ⟨a,ha,Advances.refl a⟩,fun b hb => .inl ⟨b,hb,rfl⟩⟩
  | inserted row _ _ _ status =>
    refine ⟨fun a ha => ⟨a,List.mem_append_left _ ha,Advances.refl a⟩,fun b hb => ?_⟩
    rcases List.mem_append.mp hb with hold | hnew
    · exact .inl ⟨b,hold,rfl⟩
    · rw [List.mem_singleton.mp hnew]
      exact .inr status
  | updated f fences advances =>
    refine ⟨fun a ha => ⟨f a,List.mem_map_of_mem ha,advances a ha⟩,fun b hb => ?_⟩
    obtain ⟨a,ha,rfl⟩ := List.mem_map.mp hb
    exact .inl ⟨a,ha,(advances a ha).id.symm⟩

theorem terminal_run (ha : a.status.terminal = true) (ops : List AgentTaskOp) (hs : a ∈ s.tasks) :
    a ∈ (Machine.final step s ops).tasks := by
  apply Machine.final_invariant step (fun s => a ∈ s.tasks) _ s ops hs
  intro s op hs
  obtain ⟨b,hb,hadvances⟩ := (change_rows (step_change s op)).1 a hs
  rw [hadvances.settled ha] at hb
  exact hb

structure Closed (owner : TaskOwner) (parent : String) (rows : List AgentTaskRecord)
    (s : AgentTaskStore) : Prop where
  fence : s.fenced owner parent = true
  rows : s.tasks.filter (AgentTaskRecord.ofParent owner parent) = rows
  terminal : ∀ a ∈ s.tasks, a.ofParent owner parent = true → a.status.terminal = true

theorem of_parent_key {b : AgentTaskRecord} (h : b.callKey = a.callKey) (owner : TaskOwner)
    (parent : String) : b.ofParent owner parent = a.ofParent owner parent := by
  simp only [AgentTaskRecord.callKey, Prod.mk.injEq] at h
  unfold AgentTaskRecord.ofParent
  rw [h.1, h.2.1]

theorem closed_change {rows : List AgentTaskRecord} (h : Change s t)
    (hs : Closed owner parent rows s) : Closed owner parent rows t := by
  cases h with
  | none => exact hs
  | inserted row _ hopen =>
    have hother : row.ofParent owner parent = false := by
      by_contra hof
      rw [Bool.not_eq_false, AgentTaskRecord.ofParent, decide_eq_true_eq] at hof
      rw [hof.1, hof.2, hs.fence] at hopen
      cases hopen
    refine ⟨hs.fence,?_,fun a ha hof => ?_⟩
    · simp only [insertRow, List.filter_append, List.filter_cons, hother]
      simpa using hs.rows
    · rcases List.mem_append.mp ha with hold | hnew
      · exact hs.terminal a hold hof
      · rw [List.mem_singleton.mp hnew, hother] at hof
        cases hof
  | updated f fences advances grows =>
    have hsame : ∀ a ∈ s.tasks, a.ofParent owner parent = true → f a = a := fun a ha hof =>
      (advances a ha).settled (hs.terminal a ha hof)
    refine ⟨?_,?_,?_⟩
    · obtain ⟨fence,hfence,hmatch⟩ := List.any_eq_true.mp hs.fence
      exact List.any_eq_true.mpr ⟨fence,grows.subset hfence,hmatch⟩
    · rw [← hs.rows, List.filter_map]
      have hfilter : s.tasks.filter (AgentTaskRecord.ofParent owner parent ∘ f) =
          s.tasks.filter (AgentTaskRecord.ofParent owner parent) :=
        List.filter_congr (fun a ha => of_parent_key (advances a ha).key owner parent)
      rw [hfilter]
      conv_rhs => rw [← List.map_id (s.tasks.filter _)]
      refine List.map_congr_left (fun a ha => ?_)
      obtain ⟨hmem,hof⟩ := List.mem_filter.mp ha
      exact hsame a hmem hof
    · intro b hb hof
      obtain ⟨a,ha,rfl⟩ := List.mem_map.mp hb
      rw [of_parent_key (advances a ha).key] at hof
      rw [hsame a ha hof]
      exact hs.terminal a ha hof

theorem cancel_children_closes {n : ℕ} (h : s.cancelChildren owner parent now = .ok (t,n)) :
    Closed owner parent (t.tasks.filter (AgentTaskRecord.ofParent owner parent)) t := by
  rw [cancel_children_ok h]
  refine ⟨?_,rfl,?_⟩
  · unfold fenced
    simp only
    split_ifs with hfence
    · exact hfence
    · simp
  · intro b hb hof
    obtain ⟨a,-,rfl⟩ := List.mem_map.mp hb
    split_ifs at hof ⊢ with hselected
    · rfl
    · simp only [Bool.and_eq_true, Bool.not_eq_true', not_and] at hselected
      simpa using hselected hof

end AgentTaskStore

open AgentTaskStore

/-- Over every history: a write moves a task along `_TRANSITIONS`, terminal rows
never change, a call has one row, results belong to successes, and a committed
parent cancellation closes that parent's rows for good. -/
theorem agent_task_state_machine (ops : List AgentTaskOp) :
    let s := Machine.final step {} ops
    (Unique AgentTaskRecord.callKey s.tasks ∧ Unique AgentTaskRecord.taskId s.tasks) ∧
    (∀ op, (∀ a ∈ s.tasks, ∃ b ∈ (s.step op).1.tasks, b.taskId = a.taskId ∧
        b.callKey = a.callKey ∧ (b.status = a.status ∨ b.status ∈ a.status.next)) ∧
      ∀ b ∈ (s.step op).1.tasks, (∃ a ∈ s.tasks, a.taskId = b.taskId) ∨ b.status = .queued) ∧
    (∀ more, ∀ a ∈ s.tasks, a.status.terminal = true → a ∈ (Machine.final step s more).tasks) ∧
    (∀ a ∈ s.tasks, a.result.isSome = true → a.status = .succeeded) ∧
    ∀ scope parent now n more, (s.step (.cancelChildren scope parent now)).2 = .count n →
      let cut := (s.step (.cancelChildren scope parent now)).1
      let t := Machine.final step cut more
      (∀ a ∈ t.tasks, a.ofParent (ownerOf scope) parent = true → a.status.terminal = true) ∧
      t.tasks.filter (AgentTaskRecord.ofParent (ownerOf scope) parent) =
        cut.tasks.filter (AgentTaskRecord.ofParent (ownerOf scope) parent) := by
  intro s
  have hs : Sound s := sound_run {} ops sound_initial
  refine ⟨⟨hs.keys,hs.ids⟩,fun op => ?_,fun more a ha hterminal => terminal_run hterminal more ha,
    hs.results,?_⟩
  · obtain ⟨hforward,hback⟩ := change_rows (step_change s op)
    refine ⟨fun a ha => ?_,hback⟩
    obtain ⟨b,hb,hadvances⟩ := hforward a ha
    exact ⟨b,hb,hadvances.id,hadvances.key,hadvances.status⟩
  · intro scope parent now n more hcount cut t
    have hclosed : Closed (ownerOf scope) parent
        (cut.tasks.filter (AgentTaskRecord.ofParent (ownerOf scope) parent)) cut := by
      simp only [cut, step] at hcount ⊢
      cases hc : s.cancelChildren (ownerOf scope) parent now with
      | error error => simp [hc, answered] at hcount
      | ok result => exact cancel_children_closes hc
    have hlast := Machine.final_invariant step (Closed (ownerOf scope) parent _)
      (fun s op => closed_change (step_change s op)) cut more hclosed
    exact ⟨hlast.terminal,hlast.rows⟩

end SuiteHarness.Multiagent
