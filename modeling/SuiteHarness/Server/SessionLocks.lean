import SuiteHarness.Library.Dict
import SuiteHarness.Library.Machine

/-!
# Per-session locks

`_SessionLocks` of the server application. Its guard is never held across a
suspension, so taking it never suspends, and a call of `acquire` runs from one
await of its entry's lock to the next. Every call is a task of its own here;
tasks that make several calls have fewer interleavings.
-/

set_option autoImplicit false

namespace SuiteHarness.Server
open SuiteHarness.Library

/-- A call waits with a future that is pending, has its result or is cancelled, or it is inside
the block. -/
inductive LockPoint where
  | pending | woken | cancelled | inside
  deriving DecidableEq

/-- An entry object with the calls that use it. The deque of the lock holds the futures of the
calls that wait, in this order. -/
structure LockEntry where
  locked : Bool := false
  users : ℕ := 0
  calls : List LockPoint := []
  deriving DecidableEq

inductive LockEvent where
  | cancel
  | resume (cancelled : Bool)
  | leave
  deriving DecidableEq

namespace LockEntry

def wakeUpFirst : List LockPoint → List LockPoint
  | [] => []
  | .inside::ps => .inside::wakeUpFirst ps
  | .pending::ps => .woken::ps
  | .woken::ps => .woken::ps
  | .cancelled::ps => .cancelled::ps

variable (o : LockEntry)

def acquire : LockEntry :=
  if o.locked = false ∧ ∀ p ∈ o.calls, p = .inside ∨ p = .cancelled then
    ⟨true,o.users+1,o.calls++[.inside]⟩
  else ⟨o.locked,o.users+1,o.calls++[.pending]⟩

def depart (k : ℕ) (locked : Bool) : LockEntry :=
  ⟨locked,o.users-1,if locked then o.calls.eraseIdx k else wakeUpFirst (o.calls.eraseIdx k)⟩

def move (k : ℕ) (event : LockEvent) : Option (LockEntry × Bool) :=
  match o.calls[k]?, event with
  | some .pending, .cancel => some ({ o with calls := o.calls.set k .cancelled },false)
  | some .cancelled, .resume _ => some (o.depart k o.locked,true)
  | some .woken, .resume true => some (o.depart k o.locked,true)
  | some .woken, .resume false => some (⟨true,o.users,o.calls.set k .inside⟩,false)
  | some .inside, .leave =>
    -- `release` raises for a lock that is not taken, and the user then stays counted.
    if o.locked then some (o.depart k false,true)
    else some ({ o with calls := o.calls.eraseIdx k },false)
  | _, _ => none

def Queued (p q : LockPoint) : Prop := p ≠ .inside → q ≠ .woken

structure Sound (o : LockEntry) : Prop where
  users : o.users = o.calls.length
  held : o.calls.count .inside = o.locked.toNat
  woken : .woken ∈ o.calls → o.locked = false
  first : o.calls.Pairwise Queued

theorem sound_empty : Sound {} := ⟨rfl,rfl,nofun,.nil⟩

variable {o} {k : ℕ} {ps : List LockPoint} {p : LockPoint}

theorem wake_length (ps : List LockPoint) : (wakeUpFirst ps).length = ps.length := by
  fun_induction wakeUpFirst ps <;> simp [*]

theorem wake_inside (ps : List LockPoint) :
    (wakeUpFirst ps).count .inside = ps.count .inside := by
  fun_induction wakeUpFirst ps <;> simp [*]

theorem wake_first (h : ps.Pairwise Queued) : (wakeUpFirst ps).Pairwise Queued := by
  fun_induction wakeUpFirst ps with
  | case1 => exact h
  | case2 ps ih =>
    rw [List.pairwise_cons] at h ⊢
    exact ⟨fun _ _ hne => absurd rfl hne,ih h.2⟩
  | case3 ps =>
    rw [List.pairwise_cons] at h ⊢
    exact ⟨fun q hq _ => h.1 q hq (by decide),h.2⟩
  | case4 ps => exact h
  | case5 ps => exact h

theorem calls_split (h : ps[k]? = some p) :
    ∃ pre post, ps = pre++p::post ∧ (∀ q, ps.set k q = pre++q::post) ∧
      ps.eraseIdx k = pre++post := by
  obtain ⟨hk,rfl⟩ := List.getElem?_eq_some_iff.mp h
  refine ⟨ps.take k,ps.drop (k+1),?_,fun v => ?_,List.eraseIdx_eq_take_drop_succ ps k⟩
  · rw [List.cons_getElem_drop_succ, List.take_append_drop]
  · exact List.set_eq_take_append_cons_drop.trans (if_pos hk)

theorem sound_acquire (h : Sound o) : Sound o.acquire := by
  have hfirst : ∀ p, p ≠ .woken → (o.calls++[p]).Pairwise Queued := by
    intro p hp
    rw [List.pairwise_append]
    refine ⟨h.first,List.pairwise_singleton _ _,fun q _ r hr _ => ?_⟩
    rw [List.mem_singleton.mp hr]
    exact hp
  rw [acquire]
  split_ifs with hfree
  · refine ⟨by simp [h.users],by simp [h.held, hfree.1],fun hwoken => ?_,hfirst _ (by decide)⟩
    have hold : LockPoint.woken ∈ o.calls := by simpa using hwoken
    rcases hfree.2 _ hold with hpoint | hpoint <;> cases hpoint
  · refine ⟨by simp [h.users],by simp [h.held],fun hwoken => h.woken ?_,hfirst _ (by decide)⟩
    simpa using hwoken

/-- A call that ends frees the lock that it held, and leaves any other lock as it is. -/
theorem sound_depart (h : Sound o) {locked : Bool} (hk : o.calls[k]? = some p)
    (hlocked : p = .inside ∧ locked = false ∨ p ≠ .inside ∧ locked = o.locked) :
    Sound (o.depart k locked) := by
  obtain ⟨pre,post,hcalls,-,herase⟩ := calls_split hk
  have hlength : o.users-1 = (o.calls.eraseIdx k).length := by
    rw [h.users, herase, hcalls]
    simp
  have hinside : (o.calls.eraseIdx k).count .inside = locked.toNat := by
    have hheld := h.held
    rw [hcalls, List.count_append, List.count_cons] at hheld
    rw [herase, List.count_append]
    rcases hlocked with ⟨rfl,rfl⟩ | ⟨hp,rfl⟩
    · have hle := o.locked.toNat_le
      simp at hheld ⊢
      omega
    · simpa [hp] using hheld
  have hfirst := h.first.sublist (List.eraseIdx_sublist _ k)
  rw [depart]
  cases locked with
  | true =>
    refine ⟨hlength,hinside,fun hwoken => ?_,hfirst⟩
    rcases hlocked with ⟨-,hl⟩ | ⟨-,hl⟩
    · exact hl
    · exact hl.trans (h.woken (List.mem_of_mem_eraseIdx hwoken))
  | false => exact ⟨hlength.trans (wake_length _).symm,(wake_inside _).trans hinside,fun _ => rfl,
      wake_first hfirst⟩

theorem first_replaced {pre post : List LockPoint} {q : LockPoint} (hp : p ≠ .inside)
    (hq : q ≠ .woken) (h : (pre++p::post).Pairwise Queued) : (pre++q::post).Pairwise Queued := by
  rw [List.pairwise_append, List.pairwise_cons] at h ⊢
  obtain ⟨hpre,⟨hhead,hpost⟩,hacross⟩ := h
  refine ⟨hpre,⟨fun r hr _ => hhead r hr hp,hpost⟩,fun a ha r hr hne => ?_⟩
  rcases List.mem_cons.mp hr with rfl | hr
  · exact hq
  · exact hacross a ha r (List.mem_cons_of_mem p hr) hne

theorem woken_once {pre post : List LockPoint} (h : (pre++.woken::post).Pairwise Queued)
    (hmem : .woken ∈ pre++post) : False := by
  rw [List.pairwise_append, List.pairwise_cons] at h
  rcases List.mem_append.mp hmem with hpre | hpost
  · exact h.2.2 _ hpre _ List.mem_cons_self (by decide) rfl
  · exact h.2.1.1 _ hpost (by decide) rfl

/-- Without a released user the call goes on. -/
theorem sound_move (h : Sound o) {event : LockEvent} {o' : LockEntry} {released : Bool}
    (hmove : o.move k event = some (o',released)) :
    Sound o' ∧ o.calls ≠ [] ∧ (released = false → o'.calls ≠ []) := by
  cases hk : o.calls[k]? with
  | none => simp [move, hk] at hmove
  | some p =>
    obtain ⟨pre,post,hcalls,hset,-⟩ := calls_split hk
    obtain ⟨husers,hheld,hwoken,hfirst⟩ := id h
    refine and_left_comm.mp ⟨by simp [hcalls],?_⟩
    rw [hcalls] at husers hheld hwoken hfirst
    cases p with
    | pending =>
      cases event with
      | cancel =>
        simp only [move, hk, hset] at hmove
        cases hmove
        refine ⟨⟨by simpa using husers,by simpa using hheld,fun hmem => hwoken ?_,
          first_replaced (by decide) (by decide) hfirst⟩,by simp⟩
        simpa using hmem
      | resume _ | leave => simp [move, hk] at hmove
    | cancelled =>
      cases event with
      | resume cancelled =>
        simp only [move, hk] at hmove
        cases hmove
        exact ⟨sound_depart h hk (.inr ⟨by decide,rfl⟩),nofun⟩
      | cancel | leave => simp [move, hk] at hmove
    | woken =>
      cases event with
      | resume cancelled =>
        cases cancelled with
        | true =>
          simp only [move, hk] at hmove
          cases hmove
          exact ⟨sound_depart h hk (.inr ⟨by decide,rfl⟩),nofun⟩
        | false =>
          simp only [move, hk, hset] at hmove
          cases hmove
          have hfree := hwoken (by simp)
          refine ⟨⟨by simpa using husers,?_,fun hmem => ?_,
            first_replaced (by decide) (by decide) hfirst⟩,by simp⟩
          · simp [hfree] at hheld
            simp [hheld]
          · exact (woken_once hfirst (by simpa using hmem)).elim
      | cancel | leave => simp [move, hk] at hmove
    | inside =>
      cases event with
      | leave =>
        have hlocked : o.locked = true := by
          cases hl : o.locked with
          | true => rfl
          | false => simp [hl] at hheld
        simp only [move, hk, hlocked, if_true] at hmove
        cases hmove
        exact ⟨sound_depart h hk (.inl ⟨rfl,rfl⟩),nofun⟩
      | cancel | resume _ => simp [move, hk] at hmove

theorem acquire_used (o : LockEntry) : o.acquire.calls ≠ [] := by
  rw [acquire]
  split_ifs <;> simp

end LockEntry

structure SessionLocks (ι : Type) where
  entries : Dict ι ℕ := .empty
  objects : ι × ℕ → LockEntry := fun _ => {}
  created : ℕ := 0

inductive LockAction (ι : Type) where
  | acquire (identity : ι)
  | move (identity : ι) (entry k : ℕ) (event : LockEvent)

namespace SessionLocks
variable {ι : Type} [DecidableEq ι]

def setObject (s : SessionLocks ι) (key : ι × ℕ) (o : LockEntry) : SessionLocks ι :=
  { s with objects := Function.update s.objects key o }

def step (s : SessionLocks ι) : LockAction ι → SessionLocks ι × Bool
  | .acquire identity => match s.entries.get? identity with
    | some entry => (s.setObject (identity,entry) (s.objects (identity,entry)).acquire,true)
    | none =>
      let s' := { s with
        entries := s.entries.set identity s.created
        created := s.created+1 }
      (s'.setObject (identity,s.created) (LockEntry.acquire {}),true)
  | .move identity entry k event => match (s.objects (identity,entry)).move k event with
    | some (o,released) =>
      if released ∧ o.users = 0 ∧ s.entries.get? identity = some entry then
        ({ s.setObject (identity,entry) o with entries := s.entries.erase identity },true)
      else (s.setObject (identity,entry) o,true)
    | none => (s,false)

structure Sound (s : SessionLocks ι) : Prop where
  objects : ∀ key, (s.objects key).Sound
  listed : ∀ i e, s.entries.get? i = some e ↔ (s.objects (i,e)).calls ≠ []

/-- One object is replaced, and the map lists it exactly if it is used. -/
theorem sound_set {s t : SessionLocks ι} (h : Sound s) {i : ι} {e : ℕ} {o : LockEntry}
    (ho : o.Sound) (hobjects : t.objects = Function.update s.objects (i,e) o)
    (hothers : ∀ j, j ≠ i → t.entries.get? j = s.entries.get? j)
    (hsame : ∀ f, s.entries.get? i = some f → f = e)
    (hentry : t.entries.get? i = if o.calls = [] then none else some e) : Sound t where
  objects key := by
    rw [hobjects, Function.update_apply]
    split_ifs
    · exact ho
    · exact h.objects key
  listed j f := by
    rw [hobjects, Function.update_apply]
    by_cases hj : j = i
    · subst hj
      by_cases hf : f = e
      · subst hf
        simp [hentry]
      · simp [hentry, hf, Ne.symm hf, ← h.listed j f, mt (hsame f) hf]
    · simp only [hothers j hj, h.listed j f, Prod.mk.injEq, hj, false_and, if_false]

theorem sound_step (s : SessionLocks ι) (action : LockAction ι) (h : Sound s) :
    Sound (step s action).1 := by
  cases action with
  | acquire i =>
    cases hget : s.entries.get? i with
    | some e =>
      simp only [step, hget]
      refine sound_set h (LockEntry.sound_acquire (h.objects (i,e))) rfl (fun _ _ => rfl) ?_ ?_
      · exact fun f hf => Option.some.inj (hf.symm.trans hget)
      · rw [if_neg (LockEntry.acquire_used _)]
        exact hget
    | none =>
      simp only [step, hget]
      refine sound_set h (LockEntry.sound_acquire LockEntry.sound_empty) rfl ?_ ?_ ?_
      · intro j hj
        simp [setObject, hj]
      · simp [hget]
      · rw [if_neg (LockEntry.acquire_used _)]
        simp [setObject]
  | move i e k event =>
    cases hmove : (s.objects (i,e)).move k event with
    | none => simpa only [step, hmove] using h
    | some r =>
      obtain ⟨o,released⟩ := r
      obtain ⟨ho,hused,hstays⟩ := LockEntry.sound_move (h.objects (i,e)) hmove
      have hget := (h.listed i e).mpr hused
      have hsame : ∀ f, s.entries.get? i = some f → f = e := fun f hf =>
        Option.some.inj (hf.symm.trans hget)
      simp only [step, hmove]
      split_ifs with hlast
      · refine sound_set h ho rfl (fun j hj => by simp [hj]) hsame ?_
        rw [if_pos (List.length_eq_zero_iff.mp (ho.users ▸ hlast.2.1))]
        simp
      · refine sound_set h ho rfl (fun _ _ => rfl) hsame (hget.trans (if_neg ?_).symm)
        intro hempty
        have husers : o.users = 0 := by rw [ho.users, hempty, List.length_nil]
        cases released with
        | true => exact hlast ⟨rfl,husers,hget⟩
        | false => exact hstays rfl hempty

/-- At most one call is inside the block of an identity, all calls of an identity use one lock,
and an identity without calls has no entry. -/
theorem session_locks_exclude_and_vanish (actions : List (LockAction ι)) (identity : ι) :
    let s := Machine.final step ({} : SessionLocks ι) actions
    (∀ e f, (s.objects (identity,e)).calls ≠ [] → (s.objects (identity,f)).calls ≠ [] → e = f) ∧
      (∀ e, (s.objects (identity,e)).calls.count .inside ≤ 1) ∧
      ((∀ e, (s.objects (identity,e)).calls = []) → s.entries.get? identity = none) := by
  have h : Sound (Machine.final step ({} : SessionLocks ι) actions) :=
    Machine.final_invariant step Sound sound_step {} actions
      ⟨fun _ => LockEntry.sound_empty,fun _ _ => by simp⟩
  intro s
  refine ⟨fun e f he hf => ?_,fun e => ?_,fun hnone => ?_⟩
  · have hget := (h.listed identity e).mpr he
    exact Option.some.inj (hget.symm.trans ((h.listed identity f).mpr hf))
  · rw [(h.objects (identity,e)).held]
    exact Bool.toNat_le _
  · cases hget : s.entries.get? identity with
    | none => rfl
    | some e => exact absurd (hnone e) ((h.listed identity e).mp hget)

end SessionLocks

/-! ## Progress -/

namespace LockEntry
variable {o : LockEntry} {k : ℕ} {ps : List LockPoint}

def Awake (o : LockEntry) : Prop := o.locked = false → o.calls.head? ≠ some .pending

theorem awake_empty : Awake {} := by simp [Awake]

theorem wake_awake (h : (wakeUpFirst ps).count .inside = 0) :
    (wakeUpFirst ps).head? ≠ some .pending := by
  cases ps with
  | nil => exact nofun
  | cons p ps => cases p <;> simp_all [wakeUpFirst]

theorem awake_depart {locked : Bool} (h : Sound (o.depart k locked)) : Awake (o.depart k locked) := by
  intro hfree
  obtain rfl : locked = false := hfree
  have hheld := h.held
  rw [depart] at hheld ⊢
  exact wake_awake hheld

theorem awake_acquire (h : Awake o) : Awake o.acquire := by
  rw [acquire]
  split_ifs with hfree
  · exact nofun
  · intro hlocked
    cases hcalls : o.calls with
    | nil => simp [hcalls, show o.locked = false from hlocked] at hfree
    | cons p ps => simpa [hcalls] using h hlocked

theorem awake_move (hs : Sound o) (h : Awake o) {event : LockEvent} {o' : LockEntry} {released : Bool}
    (hmove : o.move k event = some (o',released)) : Awake o' := by
  have hs' := (sound_move hs hmove).1
  unfold move at hmove
  split at hmove
  case h_1 hk =>
    cases hmove
    intro hlocked
    cases k with
    | zero => exact absurd (List.head?_eq_getElem? ▸ hk) (h hlocked)
    | succ k =>
      have hhead := h hlocked
      rw [List.head?_eq_getElem?] at hhead ⊢
      simpa using hhead
  case h_4 => cases hmove; exact nofun
  case h_5 =>
    split_ifs at hmove with hlocked
    · cases hmove
      exact awake_depart hs'
    · rename_i hk
      have hheld := hs.held
      rw [Bool.not_eq_true] at hlocked
      rw [hlocked] at hheld
      exact absurd (List.mem_of_getElem? hk) (List.count_eq_zero.mp hheld)
  all_goals cases hmove <;> exact awake_depart hs'

def remaining : LockPoint → ℕ
  | .pending => 3
  | .woken => 2
  | .cancelled | .inside => 1

def work (ps : List LockPoint) : ℕ := (ps.map remaining).sum

theorem work_le (ps : List LockPoint) : work ps ≤ 3*ps.length := by
  induction ps with
  | nil => rfl
  | cons p ps ih =>
    have hp : remaining p ≤ 3 := by cases p <;> decide
    simp only [work, List.map_cons, List.sum_cons, List.length_cons] at ih ⊢
    omega

theorem work_wake (ps : List LockPoint) : work (wakeUpFirst ps) ≤ work ps := by
  fun_induction wakeUpFirst ps <;> simp_all [work, remaining]

theorem work_depart {p : LockPoint} (locked : Bool) (hk : o.calls[k]? = some p) :
    work (o.depart k locked).calls < work o.calls := by
  obtain ⟨pre,post,hcalls,-,herase⟩ := calls_split hk
  have herased : work (o.calls.eraseIdx k) < work o.calls := by
    rw [herase, hcalls]
    cases p <;> simp [work, remaining]
  rw [depart]
  split_ifs
  · exact herased
  · exact (work_wake _).trans_lt herased

theorem work_move {event : LockEvent} {o' : LockEntry} {released : Bool}
    (hmove : o.move k event = some (o',released)) : work o'.calls < work o.calls := by
  have hset : ∀ p q, o.calls[k]? = some p → remaining q < remaining p →
      work (o.calls.set k q) < work o.calls := by
    intro p q hk hless
    obtain ⟨pre,post,hcalls,hset,-⟩ := calls_split hk
    rw [hset, hcalls]
    simpa [work] using hless
  unfold move at hmove
  split at hmove
  case h_1 hk => cases hmove; exact hset _ _ hk (by decide)
  case h_2 hk | h_3 hk => cases hmove; exact work_depart _ hk
  case h_4 hk => cases hmove; exact hset _ _ hk (by decide)
  case h_5 hk =>
    split_ifs at hmove <;> cases hmove
    · exact work_depart _ hk
    · exact work_depart true hk
  case h_6 => cases hmove

def moves (o : LockEntry) (ms : List (ℕ × LockEvent)) : Option LockEntry :=
  ms.foldlM (fun o m => (o.move m.1 m.2).map Prod.fst) o

theorem moves_awake (ms : List (ℕ × LockEvent)) {o o' : LockEntry} (hs : Sound o) (h : Awake o)
    (hms : o.moves ms = some o') :
    ms.length+work o'.calls ≤ work o.calls ∧ Sound o' ∧ Awake o' := by
  induction ms generalizing o with
  | nil =>
    cases hms
    exact ⟨(Nat.zero_add _).le,hs,h⟩
  | cons m ms ih =>
    rw [moves, List.foldlM_cons] at hms
    obtain ⟨next,hnext,hms⟩ := Option.bind_eq_some_iff.mp hms
    obtain ⟨⟨_,released⟩,hmove,rfl⟩ := Option.map_eq_some_iff.mp hnext
    obtain ⟨hlength,hend⟩ := ih (sound_move hs hmove).1 (awake_move hs h hmove) hms
    have hless := work_move hmove
    refine ⟨?_,hend⟩
    rw [List.length_cons]
    omega

theorem awake_goes_on (hs : Sound o) (h : Awake o) (hcalls : o.calls ≠ []) :
    ∃ k event, event ≠ .cancel ∧ event ≠ .resume true ∧ (o.move k event).isSome := by
  suffices hready : ∃ (k : ℕ) (p : LockPoint), o.calls[k]? = some p ∧ p ≠ .pending by
    obtain ⟨k,p,hk,hp⟩ := hready
    cases p with
    | pending => exact absurd rfl hp
    | woken | cancelled => exact ⟨k,.resume false,by decide,by decide,by simp [move, hk]⟩
    | inside =>
      exact ⟨k,.leave,by decide,by decide,by simp only [move, hk]; split_ifs <;> rfl⟩
  cases hlocked : o.locked with
  | true =>
    have hinside : .inside ∈ o.calls := List.count_pos_iff.mp (by rw [hs.held, hlocked]; decide)
    obtain ⟨k,hk⟩ := List.mem_iff_getElem?.mp hinside
    exact ⟨k,_,hk,nofun⟩
  | false =>
    obtain ⟨p,ps,hps⟩ := List.exists_cons_of_ne_nil hcalls
    refine ⟨0,p,by rw [hps]; rfl,fun hp => h hlocked ?_⟩
    rw [hps, hp]
    rfl

end LockEntry

namespace SessionLocks
variable {ι : Type} [DecidableEq ι]

theorem awake_step (s : SessionLocks ι) (action : LockAction ι)
    (h : Sound s ∧ ∀ key, (s.objects key).Awake) :
    Sound (step s action).1 ∧ ∀ key, ((step s action).1.objects key).Awake := by
  refine ⟨sound_step s action h.1,fun key => ?_⟩
  have hset : ∀ key' o, o.Awake → (Function.update s.objects key' o key).Awake := by
    intro key' o ho
    rw [Function.update_apply]
    split_ifs
    · exact ho
    · exact h.2 key
  cases action with
  | acquire i =>
    cases hget : s.entries.get? i with
    | some e =>
      simp only [step, hget]
      exact hset _ _ (LockEntry.awake_acquire (h.2 _))
    | none =>
      simp only [step, hget]
      exact hset _ _ (LockEntry.awake_acquire LockEntry.awake_empty)
  | move i e k event =>
    cases hmove : (s.objects (i,e)).move k event with
    | none => simpa only [step, hmove] using h.2 key
    | some r =>
      have hawake := LockEntry.awake_move (h.1.objects (i,e)) (h.2 (i,e)) hmove
      simp only [step, hmove]
      split_ifs <;> exact hset _ _ hawake

/-- Whatever the calls that use a lock do next, cancellations included, all of them are over after
at most three moves each unless new calls come, and as long as one is left, one of them can go on
without a cancellation being requested or delivered: a woken call enters, a holder leaves. -/
theorem session_locks_never_stall (actions : List (LockAction ι)) (identity : ι) (entry : ℕ)
    (ms : List (ℕ × LockEvent)) (o' : LockEntry)
    (hms : ((Machine.final step ({} : SessionLocks ι) actions).objects (identity,entry)).moves ms =
      some o') :
    ms.length ≤
      3*((Machine.final step ({} : SessionLocks ι) actions).objects (identity,entry)).calls.length ∧
    (o'.calls = [] ∨ ∃ k event, event ≠ .cancel ∧ event ≠ .resume true ∧
      (o'.move k event).isSome) := by
  obtain ⟨hsound,hawake⟩ : Sound (Machine.final step ({} : SessionLocks ι) actions) ∧ ∀ key,
      ((Machine.final step ({} : SessionLocks ι) actions).objects key).Awake :=
    Machine.final_invariant step (fun s => Sound s ∧ ∀ key, (s.objects key).Awake) awake_step {}
      actions ⟨⟨fun _ => LockEntry.sound_empty,fun _ _ => by simp⟩,fun _ => LockEntry.awake_empty⟩
  obtain ⟨hlength,hs,h⟩ := LockEntry.moves_awake ms (hsound.objects _) (hawake _) hms
  refine ⟨(Nat.le_add_right _ _).trans (hlength.trans (LockEntry.work_le _)),?_⟩
  by_cases hcalls : o'.calls = []
  · exact .inl hcalls
  · exact .inr (LockEntry.awake_goes_on hs h hcalls)

/-- The holder leaves, and the second call is woken and enters. -/
theorem second_call_enters :
    let o := (Machine.final step ({} : SessionLocks ℕ) [.acquire 0,.acquire 0]).objects (0,0)
    o.moves [(0,.leave),(0,.resume false)] = some ⟨true,1,[.inside]⟩ ∧ 2 ≤ 3*o.calls.length ∧
      ([LockPoint.inside] = [] ∨ ∃ k event, event ≠ LockEvent.cancel ∧ event ≠ .resume true ∧
        ((⟨true,1,[.inside]⟩ : LockEntry).move k event).isSome) :=
  ⟨by decide,session_locks_never_stall [.acquire 0,.acquire 0] 0 0
    [(0,.leave),(0,.resume false)] ⟨true,1,[.inside]⟩ (by decide)⟩

end SessionLocks

end SuiteHarness.Server
