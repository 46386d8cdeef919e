import SuiteHarness.Library.Dict

/-!
# Partitioned tables

A table whose keys carry a partition. Rows of one partition are counted, and
those that expired by a given time are deleted; both leave the other partitions
alone.
-/

set_option autoImplicit false

namespace SuiteHarness.Library.Dict

variable {κ ι β : Type*} [DecidableEq κ] [DecidableEq ι]
variable (part : κ) (expiry : β → ℤ)

def deleteExpired (now : ℤ) (rows : Dict (κ × ι) β) : Dict (κ × ι) β :=
  rows.eraseWhere (fun row => decide (row.1.1 = part) && decide (expiry row.2 ≤ now))

variable (now : ℤ) (rows : Dict (κ × ι) β)

def countIn : ℕ :=
  rows.entries.countP (fun row => decide (row.1.1 = part))

theorem get_delete_expired (k : κ × ι) (row : β) :
    (rows.deleteExpired part expiry now).get? k = some row ↔
      rows.get? k = some row ∧ ¬(k.1 = part ∧ expiry row ≤ now) := by
  rw [deleteExpired, get_erase_where, Option.filter_eq_some_iff]
  simp only [Bool.not_eq_true', Bool.and_eq_false_iff, decide_eq_false_iff_not, not_and_or]

theorem delete_expired_none (k : κ × ι) (h : rows.get? k = none) :
    (rows.deleteExpired part expiry now).get? k = none := by
  rw [deleteExpired, get_erase_where, h]
  rfl

omit [DecidableEq ι] in
theorem count_delete_expired (other : κ) (expiry : β → ℤ) (now : ℤ) (rows : Dict (κ × ι) β) :
    (rows.deleteExpired part expiry now).countIn other ≤ rows.countIn other :=
  List.filter_sublist.countP_le

theorem get_delete_expired_own (expiry : β → ℤ) (now : ℤ) (i : ι) :
    (rows.deleteExpired part expiry now).get? (part,i) =
      (rows.get? (part,i)).filter (fun row => decide (now < expiry row)) := by
  rw [deleteExpired, get_erase_where]
  congr 1
  funext row
  by_cases hlive : now < expiry row
  · simp [hlive]
  · simp [hlive, not_lt.mp hlive]

def keysIn : List ι :=
  (rows.entries.filter (fun row => decide (row.1.1 = part))).map (fun row => row.1.2)

omit [DecidableEq ι] in
theorem keys_in_length : (rows.keysIn part).length = rows.countIn part := by
  rw [keysIn, List.length_map, countIn, List.countP_eq_length_filter]

omit [DecidableEq ι] in
theorem keys_in_nodup : (rows.keysIn part).Nodup := by
  have hkeys : ((rows.entries.filter (fun row => decide (row.1.1 = part))).map Prod.fst).Nodup :=
    rows.nodup.sublist (List.filter_sublist.map _)
  rw [keysIn]
  apply List.Nodup.of_map (fun i => (part,i))
  rw [List.map_map]
  refine (List.map_congr_left ?_).symm ▸ hkeys
  intro row hrow
  obtain ⟨-,hpart⟩ := List.mem_filter.mp hrow
  rw [decide_eq_true_eq] at hpart
  show (part,row.1.2) = row.1
  rw [← hpart]

theorem mem_keys_in (i : ι) : i ∈ rows.keysIn part ↔ ∃ row, rows.get? (part,i) = some row := by
  constructor
  · intro hi
    obtain ⟨⟨⟨k,j⟩,row⟩,hrow,rfl⟩ := List.mem_map.mp hi
    obtain ⟨hmem,hpart⟩ := List.mem_filter.mp hrow
    obtain rfl := of_decide_eq_true hpart
    exact ⟨row,(get_mem _ _ _).mpr hmem⟩
  · rintro ⟨row,hrow⟩
    exact List.mem_map.mpr ⟨((part,i),row),
      List.mem_filter.mpr ⟨(get_mem _ _ _).mp hrow,decide_eq_true rfl⟩,rfl⟩

variable (k : κ × ι)

theorem count_set_absent (row : β) (h : rows.get? k = none) :
    (rows.set k row).countIn part = rows.countIn part+if k.1 = part then 1 else 0 := by
  rw [countIn, entries_set_absent rows k row h, List.countP_append]
  by_cases hk : k.1 = part
  · simp [countIn, hk]
  · simp [countIn, hk]

theorem count_put_present {k : κ × ι} {old : β} (row : β) {es : List ((κ × ι) × β)}
    (h : find k es = some old) :
    (put k row es).countP (fun r => decide (r.1.1 = part)) =
      es.countP (fun r => decide (r.1.1 = part)) := by
  induction es with
  | nil => simp [find] at h
  | cons e rest ih =>
    obtain ⟨l,w⟩ := e
    by_cases hl : l = k
    · simp [put, hl, List.countP_cons]
    · rw [find, if_neg hl] at h
      simp [put, hl, List.countP_cons, ih h]

theorem count_set_present (old row : β) (h : rows.get? k = some old) :
    (rows.set k row).countIn part = rows.countIn part :=
  count_put_present part row h

theorem count_filter_key {k : κ × ι} {old : β} {es : List ((κ × ι) × β)}
    (hn : (es.map Prod.fst).Nodup) (h : find k es = some old) :
    (es.filter (fun e => !decide (e.1 = k))).countP (fun r => decide (r.1.1 = part))+
        (if k.1 = part then 1 else 0) = es.countP (fun r => decide (r.1.1 = part)) := by
  induction es with
  | nil => simp [find] at h
  | cons e rest ih =>
    obtain ⟨l,w⟩ := e
    rw [List.map_cons, List.nodup_cons] at hn
    by_cases hl : l = k
    · subst hl
      have hrest : rest.filter (fun e => !decide (e.1 = l)) = rest := by
        apply List.filter_eq_self.mpr
        intro e he
        have hne : e.1 ≠ l := fun hk => hn.1 (List.mem_map.mpr ⟨e,he,hk⟩)
        simp [hne]
      simp [hrest, List.countP_cons]
    · rw [find, if_neg hl] at h
      have hnext := ih hn.2 h
      simp only [List.filter_cons, hl, decide_false, Bool.not_false, if_true, List.countP_cons,
        decide_eq_true_eq]
      omega

theorem count_erase (old : β) (h : rows.get? k = some old) :
    (rows.erase k).countIn part+(if k.1 = part then 1 else 0) = rows.countIn part :=
  count_filter_key part rows.nodup h

end SuiteHarness.Library.Dict
