import Mathlib

/-!
# Insertion-ordered dictionaries

A dictionary is a list of entries with distinct keys. Overwriting a key keeps
its position; a key that was removed and written again moves to the end. Both
facts are observable wherever a program iterates over a dictionary, so the
entry list is the value and lookup is derived from it.
-/

set_option autoImplicit false

namespace SuiteHarness.Library

structure Dict (α β : Type*) where
  entries : List (α × β)
  nodup : (entries.map Prod.fst).Nodup

namespace Dict
variable {α β : Type*}

@[ext] theorem ext {a b : Dict α β} (h : a.entries = b.entries) : a = b := by
  cases a
  cases b
  simp only at h
  subst h
  rfl

variable [DecidableEq α]

instance [DecidableEq β] : DecidableEq (Dict α β) := fun a b =>
  decidable_of_iff (a.entries = b.entries) ⟨ext,fun h => by rw [h]⟩

def find (k : α) : List (α × β) → Option β
  | [] => none
  | (l,v)::rest => if l = k then some v else find k rest

def put (k : α) (v : β) : List (α × β) → List (α × β)
  | [] => [(k,v)]
  | (l,w)::rest => if l = k then (k,v)::rest else (l,w)::put k v rest

variable (d : Dict α β) (k : α)

theorem find_eq_none (es : List (α × β)) : find k es = none ↔ k ∉ es.map Prod.fst := by
  induction es with
  | nil => simp [find]
  | cons e rest ih =>
    by_cases h : e.1 = k
    · simp [find, h]
    · simp [find, h, ih, eq_comm (a := k)]

variable (v : β)

theorem find_mem (es : List (α × β)) (h : find k es = some v) : (k,v) ∈ es := by
  induction es with
  | nil => simp [find] at h
  | cons e rest ih =>
    obtain ⟨l,w⟩ := e
    by_cases hl : l = k
    · simp_all [find]
    · simp only [find, if_neg hl] at h
      exact List.mem_cons_of_mem _ (ih h)

theorem find_of_mem {k : α} {v : β} {es : List (α × β)}
    (hn : (es.map Prod.fst).Nodup) (h : (k,v) ∈ es) : find k es = some v := by
  induction es with
  | nil => simp at h
  | cons e rest ih =>
    obtain ⟨l,w⟩ := e
    rw [List.map_cons, List.nodup_cons] at hn
    rcases List.mem_cons.mp h with he | hr
    · simp_all [find]
    · have hl : l ≠ k := by
        intro hk
        subst hk
        exact hn.1 (List.mem_map.mpr ⟨(l,v),hr,rfl⟩)
      rw [find, if_neg hl]
      exact ih hn.2 hr

theorem find_put (l : α) (v : β) (es : List (α × β)) :
    find l (put k v es) = if l = k then some v else find l es := by
  induction es with
  | nil =>
    by_cases h : l = k
    · simp [put, find, h]
    · simp [put, find, h, Ne.symm h]
  | cons e rest ih =>
    obtain ⟨m,w⟩ := e
    by_cases hm : m = k
    · subst hm
      by_cases hl : l = m
      · simp [put, find, hl]
      · simp [put, find, hl, Ne.symm hl]
    · by_cases hl : m = l
      · subst hl
        simp [put, find, hm]
      · simp [put, find, hm, hl, ih]

theorem keys_put (es : List (α × β)) :
    (put k v es).map Prod.fst =
      if k ∈ es.map Prod.fst then es.map Prod.fst else es.map Prod.fst ++ [k] := by
  induction es with
  | nil => simp [put]
  | cons e rest ih =>
    obtain ⟨m,w⟩ := e
    by_cases hm : m = k
    · simp [put, hm]
    · simp only [put, if_neg hm, List.map_cons, ih, List.mem_cons, Ne.symm hm, false_or]
      split_ifs <;> simp

theorem put_absent (es : List (α × β)) (h : k ∉ es.map Prod.fst) : put k v es = es ++ [(k,v)] := by
  induction es with
  | nil => rfl
  | cons e rest ih =>
    obtain ⟨m,w⟩ := e
    simp only [List.map_cons, List.mem_cons, not_or] at h
    simp [put, Ne.symm h.1, ih h.2]

theorem put_present (es : List (α × β)) (hn : (es.map Prod.fst).Nodup) (h : k ∈ es.map Prod.fst) :
    put k v es = es.map (fun e => if e.1 = k then (k,v) else e) := by
  induction es with
  | nil => simp at h
  | cons e rest ih =>
    obtain ⟨m,w⟩ := e
    rw [List.map_cons, List.nodup_cons] at hn
    by_cases hm : m = k
    · subst hm
      have hr : rest.map (fun e => if e.1 = m then (m,v) else e) = rest := by
        conv_rhs => rw [← List.map_id rest]
        apply List.map_congr_left
        intro e he
        have hne : e.1 ≠ m := by
          intro hk
          exact hn.1 (List.mem_map.mpr ⟨e,he,hk⟩)
        simp [hne]
      simp [put, hr]
    · have hk : k ∈ rest.map Prod.fst := by
        simpa [Ne.symm hm] using h
      simp [put, hm, ih hn.2 hk]

def empty : Dict α β := ⟨[],List.nodup_nil⟩

def get? : Option β := find k d.entries

def contains : Bool := (d.get? k).isSome

def set : Dict α β := ⟨put k v d.entries, by
  rw [keys_put]
  split_ifs with h
  · exact d.nodup
  · exact List.nodup_append'.mpr ⟨d.nodup,by simp,by simpa using h⟩⟩

def eraseWhere (p : α × β → Bool) : Dict α β :=
  ⟨d.entries.filter (fun e => !p e), d.nodup.sublist (List.filter_sublist.map Prod.fst)⟩

def erase : Dict α β := d.eraseWhere (fun e => decide (e.1 = k))

def size : ℕ := d.entries.length

@[simp] theorem get_empty : (empty : Dict α β).get? k = none := rfl

@[simp] theorem get_set (l : α) (v : β) :
    (d.set k v).get? l = if l = k then some v else d.get? l := find_put k l v d.entries

theorem get_mem : d.get? k = some v ↔ (k,v) ∈ d.entries :=
  ⟨find_mem k v d.entries,find_of_mem d.nodup⟩

theorem get_none : d.get? k = none ↔ k ∉ d.entries.map Prod.fst :=
  find_eq_none k d.entries

theorem get_erase_where (p : α × β → Bool) (k : α) :
    (d.eraseWhere p).get? k = (d.get? k).filter (fun v => !p (k,v)) := by
  apply Option.ext
  intro v
  rw [get_mem, Option.filter_eq_some_iff, get_mem]
  simp [eraseWhere]

@[simp] theorem get_erase (l : α) : (d.erase k).get? l = if l = k then none else d.get? l := by
  rw [erase, get_erase_where]
  by_cases h : l = k
  · subst h
    cases d.get? l <;> simp
  · cases d.get? l <;> simp [h]

theorem entries_set_absent (h : d.get? k = none) : (d.set k v).entries = d.entries ++ [(k,v)] :=
  put_absent k v d.entries ((get_none d k).mp h)

theorem entries_set_present (w : β) (h : d.get? k = some w) :
    (d.set k v).entries = d.entries.map (fun e => if e.1 = k then (k,v) else e) :=
  put_present k v d.entries d.nodup
    (List.mem_map_of_mem (f := Prod.fst) ((get_mem d k w).mp h))

/-- A loop over a snapshot of entries that rewrites some of them. -/
theorem get_foldl_set (p : α × β → Bool) (f : α × β → β) {es : List (α × β)}
    (hn : (es.map Prod.fst).Nodup) (d : Dict α β) (k : α) :
    (es.foldl (fun c e => if p e then c.set e.1 (f e) else c) d).get? k =
      ((find k es).filter (fun v => p (k,v))).elim (d.get? k) (fun v => some (f (k,v))) := by
  induction es generalizing d with
  | nil => rfl
  | cons e rest ih =>
    obtain ⟨m,w⟩ := e
    rw [List.map_cons, List.nodup_cons] at hn
    rw [List.foldl_cons, ih hn.2]
    by_cases hm : m = k
    · subst hm
      rw [(find_eq_none m rest).mpr hn.1, find, if_pos rfl]
      cases hp : p (m,w) <;> simp [Option.filter, hp]
    · rw [find, if_neg hm]
      have hd : (if p (m,w) then d.set m (f (m,w)) else d).get? k = d.get? k := by
        split_ifs
        · rw [get_set, if_neg (Ne.symm hm)]
        · rfl
      rw [hd]

theorem get_rewrite (p : α × β → Bool) (f : α × β → β) (d : Dict α β) (k : α) :
    (d.entries.foldl (fun c e => if p e then c.set e.1 (f e) else c) d).get? k =
      (d.get? k).map (fun v => if p (k,v) then f (k,v) else v) := by
  rw [get_foldl_set p f d.nodup]
  show ((d.get? k).filter _).elim _ _ = _
  cases hk : d.get? k with
  | none => rfl
  | some v => cases hp : p (k,v) <;> simp [Option.filter, hp]

theorem sum_put (f : β → ℕ) (k : α) (v : β) (es : List (α × β)) :
    ((put k v es).map (fun e => f e.2)).sum + ((find k es).map f).getD 0 =
      (es.map (fun e => f e.2)).sum + f v := by
  induction es with
  | nil => simp [put, find]
  | cons e rest ih =>
    obtain ⟨m,w⟩ := e
    by_cases hm : m = k
    · simp [put, find, hm]
      omega
    · simp only [put, find, if_neg hm, List.map_cons, List.sum_cons]
      omega

theorem sum_set (f : β → ℕ) (d : Dict α β) (k : α) (v : β) :
    ((d.set k v).entries.map (fun e => f e.2)).sum + ((d.get? k).map f).getD 0 =
      (d.entries.map (fun e => f e.2)).sum + f v := sum_put f k v d.entries

theorem size_set_absent (h : d.get? k = none) : (d.set k v).size = d.size+1 := by
  rw [size, entries_set_absent d k v h, List.length_append]
  rfl

theorem size_set_present (w : β) (h : d.get? k = some w) : (d.set k v).size = d.size := by
  rw [size, entries_set_present d k v w h, List.length_map]
  rfl

def sameItems [DecidableEq β] (a b : Dict α β) : Bool :=
  decide (a.size = b.size) && a.entries.all (fun e => decide (b.get? e.1 = some e.2))

variable {ε : Type*}

def claim (taken : α → β → β → ε) (d : Dict α β) (e : α × β) : Except ε (Dict α β) :=
  match d.get? e.1 with
  | some old => .error (taken e.1 old e.2)
  | none => .ok (d.set e.1 e.2)

/-- A loop of claims gets to its end exactly if it never meets a key twice; the
resulting dictionary says so itself. -/
theorem claim_all (taken : α → β → β → ε) (es : List (α × β)) (d d' : Dict α β) :
    es.foldlM (claim taken) d = .ok d' ↔ d'.entries = d.entries++es := by
  induction es generalizing d with
  | nil =>
    rw [List.append_nil]
    constructor
    · intro h
      cases h
      rfl
    · intro h
      rw [show d' = d from Dict.ext h]
      rfl
  | cons e es ih =>
    rw [List.foldlM_cons, claim]
    cases hget : d.get? e.1 with
    | some old =>
      constructor
      · intro h
        cases h
      · intro h
        have hnodup := d'.nodup
        rw [h, List.map_append, List.nodup_append] at hnodup
        have hmem := List.mem_map_of_mem (f := Prod.fst) ((get_mem d e.1 old).mp hget)
        exact absurd rfl (hnodup.2.2 e.1 hmem e.1 List.mem_cons_self)
    | none =>
      have hstep := ih (d.set e.1 e.2)
      rw [entries_set_absent d e.1 e.2 hget, List.append_assoc] at hstep
      exact hstep

section Keyed

variable (key : β → α) {l : List β} (h : (l.map key).Nodup)

def keyed : Dict α β := ⟨l.map (fun b => (key b,b)),by rw [List.map_map]; exact h⟩

theorem get_keyed (k : α) (b : β) : (keyed key h).get? k = some b ↔ b ∈ l ∧ key b = k := by
  rw [get_mem, keyed]
  constructor
  · intro hmem
    obtain ⟨c,hc,heq⟩ := List.mem_map.mp hmem
    cases heq
    exact ⟨hc,rfl⟩
  · rintro ⟨hb,rfl⟩
    exact List.mem_map_of_mem hb

theorem claim_keyed {ε : Type*} (taken : α → β → β → ε) :
    (l.map (fun b => (key b,b))).foldlM (claim taken) empty = .ok (keyed key h) :=
  (claim_all taken _ empty (keyed key h)).mpr rfl

theorem set_all (es : List (α × β)) (d : Dict α β) (hes : (es.map Prod.fst).Nodup)
    (hnew : ∀ e ∈ es, d.get? e.1 = none) :
    (es.foldl (fun c e => c.set e.1 e.2) d).entries = d.entries++es := by
  induction es generalizing d with
  | nil => simp
  | cons e es ih =>
    rw [List.map_cons, List.nodup_cons] at hes
    rw [List.foldl_cons, ih _ hes.2, entries_set_absent d e.1 e.2 (hnew e List.mem_cons_self),
      List.append_assoc]
    · rfl
    · intro f hf
      have hne : f.1 ≠ e.1 := fun heq => hes.1 (heq ▸ List.mem_map_of_mem (f := Prod.fst) hf)
      rw [get_set, if_neg hne]
      exact hnew f (List.mem_cons_of_mem e hf)

/-- A dictionary comprehension over values with distinct keys. -/
theorem set_keyed : l.foldl (fun c b => c.set (key b) b) empty = keyed key h := by
  have hall := set_all (l.map (fun b => (key b,b))) empty (by rw [List.map_map]; exact h)
    (fun _ _ => rfl)
  rw [List.foldl_map] at hall
  exact Dict.ext hall

theorem keyed_perm {l' : List β} (h' : (l'.map key).Nodup) (hperm : l'.Perm l) :
    (keyed key h').get? = (keyed key h).get? := by
  funext k
  apply Option.ext
  intro b
  rw [get_keyed, get_keyed, hperm.mem_iff]

end Keyed

end Dict
end SuiteHarness.Library
