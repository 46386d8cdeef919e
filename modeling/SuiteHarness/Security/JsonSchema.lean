import SuiteHarness.Json
import SuiteHarness.Library.Results

/-!
# Hardening of untrusted schemas

`harden_untrusted_json_schema` follows the schema-bearing keywords of a copied
schema, refuses what is too large or not supported and bounds every array
schema on the way. The stack is the recursion of `visit`: what was pushed last
is finished first. The rewriting of the visited nodes in place is `rewrite`.
-/

set_option autoImplicit false

namespace SuiteHarness.Security
open SuiteHarness.Library Json

def unsafeKeywords : List String :=
  ["$dynamicRef","$ref","contains","pattern","patternProperties","uniqueItems"]

def schemaMapChildren : List String :=
  ["$defs","definitions","dependencies","dependentSchemas","properties"]

def schemaSequenceChildren : List String := ["allOf","anyOf","oneOf","prefixItems"]

def schemaSingleChildren : List String :=
  ["additionalItems","additionalProperties","contentSchema","else","if","items","not",
    "propertyNames","then","unevaluatedItems","unevaluatedProperties"]

def maxSchemaNodes : ℕ := 512
def maxSchemaDepth : ℕ := 32
def maxSchemaBranches : ℕ := 16
def maxSchemaCollection : ℕ := 256
def maxArrayItems : ℤ := 4096

inductive UnsafeJsonSchemaError where
  | copy
  | complexity
  | keyword (keyword : String)
  | collection (keyword : String)
  | branch (keyword : String)
  | branches
  deriving DecidableEq

/-- What the interpreter decides: the values `deepcopy` can copy and the orders in which the three
frozensets are iterated. -/
structure Interpreter where
  copies : Json → Bool
  maps : List String
  sequences : List String
  singles : List String
  maps_perm : maps.Perm schemaMapChildren
  sequences_perm : sequences.Perm schemaSequenceChildren
  singles_perm : singles.Perm schemaSingleChildren

def isSchema : Json → Bool
  | .obj _ => true
  | .bool _ => true
  | _ => false

variable (value : String → ℚ) (s : Json) (keyword : String)

def oversized : Bool :=
  match s.get? keyword with
  | some (.arr collection) => maxSchemaCollection < collection.length
  | _ => false

def mapChildren : Except UnsafeJsonSchemaError (List Json) :=
  match s.get? keyword with
  | some (.obj children) =>
    if children.length > maxSchemaCollection then .error (.collection keyword)
    else .ok ((children.map Prod.snd).filter isSchema)
  | _ => .ok []

def sequenceChildren (s : Json) : List String → ℕ →
    Except UnsafeJsonSchemaError (List Json × ℕ)
  | [], branches => .ok ([],branches)
  | keyword::rest, branches =>
    match s.get? keyword with
    | some (.arr children) =>
      if children.length > maxSchemaBranches then .error (.branch keyword)
      else if branches+children.length > maxSchemaCollection then .error .branches
      else do
        let (pushed,total) ← sequenceChildren s rest (branches+children.length)
        return (children.filter isSchema++pushed,total)
    | _ => sequenceChildren s rest branches

def singleChild : List Json := (s.get? keyword).toList.filter isSchema

def push (it : Interpreter) (s : Json) (branches : ℕ) :
    Except UnsafeJsonSchemaError (List Json × ℕ) := do
  let maps ← it.maps.mapM (mapChildren s)
  let (sequences,branches) ← sequenceChildren s it.sequences branches
  return (maps.flatten++sequences++it.singles.flatMap (singleChild s),branches)

structure Tally where
  nodes : ℕ := 0
  branches : ℕ := 0

def visit (it : Interpreter) : ℕ → Tally → Json → Except UnsafeJsonSchemaError Tally
  | 0, _, .obj _ => .error .complexity
  | room+1, t, .obj fields =>
    if t.nodes+1 > maxSchemaNodes then .error .complexity
    else match unsafeKeywords.find? (fun k => (Json.obj fields).hasKey k) with
    | some k => .error (.keyword k)
    | none => match ["enum","required"].find? (oversized (.obj fields)) with
      | some k => .error (.collection k)
      | none => do
        let (children,branches) ← push it (.obj fields) t.branches
        children.reverse.foldlM (visit it room) ⟨t.nodes+1,branches⟩
  | _, t, _ => .ok t

def arrayKeywords : List String := ["items","prefixItems","unevaluatedItems"]

def holdsItems : Bool := arrayKeywords.any s.hasKey

def maximum : Option ℤ :=
  match s.get? "maxItems" with
  | none => some maxArrayItems
  | some .null => some maxArrayItems
  | some (.int declared) => if declared ≥ 0 then some (min declared maxArrayItems) else none
  | some _ => none

def bounded (fields : List (String × Json)) : List (String × Json) :=
  if holdsItems (.obj fields) then
    match maximum (.obj fields) with
    | some m => ("maxItems",.int m)::fields.filter (fun f => f.1 ≠ "maxItems")
    | none => fields
  else fields

def mapParts (f : Json → Json) (keyword : String) (x : Json) : Json :=
  if keyword ∈ schemaMapChildren then
    match x with
    | .obj children => .obj (children.map (fun c => (c.1,f c.2)))
    | x => x
  else if keyword ∈ schemaSequenceChildren then
    match x with
    | .arr children => .arr (children.map f)
    | x => x
  else if keyword ∈ schemaSingleChildren then f x
  else x

def rewrite : ℕ → Json → Json
  | room+1, .obj fields =>
    .obj (bounded (fields.map (fun f => (f.1,mapParts (rewrite room) f.1 f.2))))
  | _, s => s

def hardenUntrustedJsonSchema (it : Interpreter) (root : List (String × Json)) :
    Except UnsafeJsonSchemaError Json :=
  if !it.copies (.obj root) then .error .copy
  else do
    let _ ← visit it maxSchemaDepth {} (.obj root)
    return rewrite maxSchemaDepth (.obj root)

/-! The subschemas of a schema: what its schema-bearing keywords lead to. -/

def schemaKeywords : List String :=
  schemaMapChildren++schemaSequenceChildren++schemaSingleChildren

def parts (x : Json) : List Json :=
  if keyword ∈ schemaMapChildren then
    match x with
    | .obj children => (children.map Prod.snd).filter isSchema
    | _ => []
  else if keyword ∈ schemaSequenceChildren then
    match x with
    | .arr children => children.filter isSchema
    | _ => []
  else if keyword ∈ schemaSingleChildren then [x].filter isSchema
  else []

def childrenAt : List Json :=
  (s.get? keyword).toList.flatMap (parts keyword)

def children : List Json := schemaKeywords.flatMap (childrenAt s)

inductive Reach : Json → ℕ → Json → Prop where
  | self (s : Json) : Reach s 1 s
  | child {s c x : Json} {d : ℕ} (hc : c ∈ children s) (h : Reach c d x) : Reach s (d+1) x

def subschemas : ℕ → Json → List Json
  | 0, s => [s]
  | n+1, s => s::(children s).flatMap (subschemas n)

/-! What the checks of a visit say about the tree below a node. -/

section Visits

variable {it : Interpreter} {s x : Json} {k : String} {room : ℕ} {t t' : Tally} {cs : List Json}

theorem map_children_ok (hk : k ∈ schemaMapChildren)
    (h : mapChildren s k = .ok cs) : cs = childrenAt s k := by
  unfold mapChildren at h
  unfold childrenAt
  split at h
  next children hget =>
    obtain ⟨-,h⟩ := Results.guard_ok h
    cases h
    simp [hget, parts, hk]
  next hother =>
    cases h
    cases hget : s.get? k with
    | none => rfl
    | some x =>
      cases x with
      | obj children => exact absurd hget (hother children)
      | _ => simp [parts, hk]

theorem map_children_flatten {ks : List String} (hks : ∀ k ∈ ks, k ∈ schemaMapChildren)
    {maps : List (List Json)} (h : ks.mapM (mapChildren s) = .ok maps) :
    maps.flatten = ks.flatMap (childrenAt s) := by
  induction ks generalizing maps with
  | nil =>
    cases h
    rfl
  | cons k ks ih =>
    rw [List.mapM_cons] at h
    obtain ⟨cs,hcs,h⟩ := Results.bind_ok h
    obtain ⟨rest,hrest,h⟩ := Results.bind_ok h
    cases h
    rw [List.flatten_cons, List.flatMap_cons, map_children_ok (hks k List.mem_cons_self) hcs,
      ih (fun l hl => hks l (List.mem_cons_of_mem k hl)) hrest]

theorem map_keyword_disjoint (hk : k ∈ schemaSequenceChildren) : k ∉ schemaMapChildren := by
  revert k
  decide

theorem single_keyword_disjoint (hk : k ∈ schemaSingleChildren) :
    k ∉ schemaMapChildren ∧ k ∉ schemaSequenceChildren := by
  revert k
  decide

theorem sequence_children_ok {ks : List String} (hks : ∀ k ∈ ks, k ∈ schemaSequenceChildren)
    {branches total : ℕ} (h : sequenceChildren s ks branches = .ok (cs,total)) :
    cs = ks.flatMap (childrenAt s) := by
  induction ks generalizing branches total cs with
  | nil =>
    cases h
    rfl
  | cons k ks ih =>
    have hk := hks k List.mem_cons_self
    have hmap := map_keyword_disjoint hk
    have hrest : ∀ k ∈ ks, k ∈ schemaSequenceChildren := fun l hl =>
      hks l (List.mem_cons_of_mem k hl)
    unfold sequenceChildren at h
    split at h
    next children hget =>
      obtain ⟨-,h⟩ := Results.guard_ok h
      obtain ⟨-,h⟩ := Results.guard_ok h
      obtain ⟨⟨pushed,total'⟩,hpushed,h⟩ := Results.bind_ok h
      cases h
      rw [List.flatMap_cons, ← ih hrest hpushed]
      simp [childrenAt, hget, parts, hmap, hk]
    next hother =>
      rw [List.flatMap_cons, ← ih hrest h]
      have hnone : childrenAt s k = [] := by
        unfold childrenAt
        cases hget : s.get? k with
        | none => rfl
        | some x =>
          cases x with
          | arr children => exact absurd hget (hother children)
          | _ => simp [parts, hmap, hk]
      rw [hnone, List.nil_append]

theorem single_child_eq (hk : k ∈ schemaSingleChildren) : singleChild s k = childrenAt s k := by
  obtain ⟨hmap,hsequence⟩ := single_keyword_disjoint hk
  unfold singleChild childrenAt
  cases s.get? k with
  | none => rfl
  | some x => simp [parts, hmap, hsequence, hk]

/-- What is pushed are the children of the node, in some order. -/
theorem push_ok {branches total : ℕ} (h : push it s branches = .ok (cs,total)) :
    cs.Perm (children s) := by
  unfold push at h
  obtain ⟨maps,hmaps,h⟩ := Results.bind_ok h
  obtain ⟨⟨sequences,total'⟩,hsequences,h⟩ := Results.bind_ok h
  cases h
  have hm : maps.flatten = it.maps.flatMap (childrenAt s) :=
    map_children_flatten (fun k hk => it.maps_perm.mem_iff.1 hk) hmaps
  have hq : sequences = it.sequences.flatMap (childrenAt s) :=
    sequence_children_ok (fun k hk => it.sequences_perm.mem_iff.1 hk) hsequences
  have hs : it.singles.flatMap (singleChild s) = it.singles.flatMap (childrenAt s) :=
    List.flatMap_congr (fun k hk => single_child_eq (it.singles_perm.mem_iff.1 hk))
  rw [hm, hq, hs, children, schemaKeywords, List.flatMap_append, List.flatMap_append]
  exact ((it.maps_perm.flatMap_right _).append (it.sequences_perm.flatMap_right _)).append
    (it.singles_perm.flatMap_right _)

/-- A visited object: its own checks passed and its children were visited one after the other. -/
theorem visit_obj_ok {fields : List (String × Json)}
    (h : visit it room t (.obj fields) = .ok t') :
    ∃ (below : ℕ) (cs : List Json) (branches : ℕ), room = below+1 ∧ t.nodes+1 ≤ maxSchemaNodes ∧
      (∀ k ∈ unsafeKeywords, (obj fields).hasKey k = false) ∧
      cs.Perm (children (.obj fields)) ∧
      cs.foldlM (visit it below) ⟨t.nodes+1,branches⟩ = .ok t' := by
  cases room with
  | zero => cases h
  | succ below =>
    rw [visit] at h
    obtain ⟨hnodes,h⟩ := Results.guard_ok h
    split at h
    · cases h
    next hkeywords =>
      split at h
      · cases h
      · obtain ⟨⟨cs,branches⟩,hpush,h⟩ := Results.bind_ok h
        refine ⟨below,cs.reverse,branches,rfl,not_lt.1 hnodes,?_,?_,h⟩
        · intro k hk
          simpa using List.find?_eq_none.1 hkeywords k hk
        · exact (List.reverse_perm cs).trans (push_ok hpush)

theorem children_not_obj (hs : s.isObj = false) : children s = [] := by
  have hget : ∀ k, s.get? k = none := by
    intro k
    cases s with
    | obj fields => cases hs
    | _ => rfl
  simp [children, childrenAt, hget]

theorem foldlM_visit (h : cs.foldlM (visit it room) t = .ok t') :
    ∀ c ∈ cs, ∃ u u', visit it room u c = .ok u' := by
  induction cs generalizing t with
  | nil => nofun
  | cons c cs ih =>
    rw [List.foldlM_cons] at h
    obtain ⟨u,hu,h⟩ := Results.bind_ok h
    intro d hd
    rcases List.mem_cons.1 hd with rfl | hd
    · exact ⟨t,u,hu⟩
    · exact ih h d hd

/-- Every object below a visited node lies within the room and has no keyword that is refused. -/
theorem visit_reach {d : ℕ} (hreach : Reach s d x) (h : visit it room t s = .ok t')
    (hx : x.isObj = true) : d ≤ room ∧ ∀ k ∈ unsafeKeywords, x.hasKey k = false := by
  induction hreach generalizing room t t' with
  | self s =>
    cases s with
    | obj fields =>
      obtain ⟨below,-,-,rfl,-,hkeywords,-⟩ := visit_obj_ok h
      exact ⟨by omega,hkeywords⟩
    | _ => cases hx
  | @child s c x d hc hreach ih =>
    cases s with
    | obj fields =>
      obtain ⟨below,cs,branches,rfl,-,-,hperm,hfold⟩ := visit_obj_ok h
      obtain ⟨u,u',hu⟩ := foldlM_visit hfold c (hperm.mem_iff.2 hc)
      obtain ⟨hd,hkeywords⟩ := ih hu hx
      exact ⟨by omega,hkeywords⟩
    | _ => rw [children_not_obj rfl] at hc; cases hc

def objects (n : ℕ) (s : Json) : ℕ := ((subschemas n s).filter Json.isObj).length

theorem objects_succ (n : ℕ) (fields : List (String × Json)) :
    objects (n+1) (.obj fields) = 1+((children (.obj fields)).map (objects n)).sum := by
  unfold objects
  rw [subschemas, List.filter_cons_of_pos rfl, List.length_cons, List.filter_flatMap,
    List.length_flatMap, Nat.add_comm]

theorem objects_not_obj (n : ℕ) (hs : s.isObj = false) : objects n s = 0 := by
  cases n with
  | zero => simp [objects, subschemas, hs]
  | succ n => simp [objects, subschemas, children_not_obj hs, hs]

theorem foldlM_count {w : Json → ℕ} (hw : ∀ u c u', visit it room u c = .ok u' →
      u.nodes+w c ≤ u'.nodes ∧ (u.nodes ≤ maxSchemaNodes → u'.nodes ≤ maxSchemaNodes))
    (h : cs.foldlM (visit it room) t = .ok t') :
    t.nodes+(cs.map w).sum ≤ t'.nodes ∧
      (t.nodes ≤ maxSchemaNodes → t'.nodes ≤ maxSchemaNodes) := by
  induction cs generalizing t with
  | nil =>
    cases h
    exact ⟨le_refl _,id⟩
  | cons c cs ih =>
    rw [List.foldlM_cons] at h
    obtain ⟨u,hu,h⟩ := Results.bind_ok h
    obtain ⟨hc,hcmax⟩ := hw t c u hu
    obtain ⟨hrest,hmax⟩ := ih h
    rw [List.map_cons, List.sum_cons]
    exact ⟨by omega,fun ht => hmax (hcmax ht)⟩

theorem visit_count (n : ℕ) (h : visit it room t s = .ok t') :
    t.nodes+objects n s ≤ t'.nodes ∧
      (t.nodes ≤ maxSchemaNodes → t'.nodes ≤ maxSchemaNodes) := by
  induction room generalizing n t t' s with
  | zero =>
    cases hobj : s.isObj with
    | true =>
      cases s with
      | obj fields => cases h
      | _ => cases hobj
    | false =>
      rw [objects_not_obj n hobj]
      cases s with
      | obj fields => cases hobj
      | _ => cases h; exact ⟨le_refl _,id⟩
  | succ room ih =>
    cases s with
    | obj fields =>
      obtain ⟨below,cs,branches,hroom,hnodes,-,hperm,hfold⟩ := visit_obj_ok h
      cases hroom
      cases n with
      | zero =>
        have hcount := foldlM_count (fun u c u' hu => ih 0 hu) hfold
        have hone : objects 0 (.obj fields) = 1 := rfl
        simp only at hcount
        exact ⟨by omega,fun _ => hcount.2 hnodes⟩
      | succ n =>
        have hcount := foldlM_count (fun u c u' hu => ih n hu) hfold
        rw [(hperm.map (objects n)).sum_eq] at hcount
        rw [objects_succ]
        simp only at hcount
        exact ⟨by omega,fun _ => hcount.2 hnodes⟩
    | _ =>
      rw [objects_not_obj n rfl]
      cases h
      exact ⟨le_refl _,id⟩

end Visits

/-! Rewriting keeps the tree: the subschemas of the result are the rewritten
subschemas. -/

section Rewriting

variable {f : Json → Json} {k : String} {fields : List (String × Json)} {s : Json}

theorem get_map_parts (f : Json → Json) (fields : List (String × Json)) (k : String) :
    (obj (fields.map (fun e => (e.1,mapParts f e.1 e.2)))).get? k =
      ((obj fields).get? k).map (mapParts f k) := by
  simp only [get?]
  induction fields with
  | nil => rfl
  | cons e fields ih =>
    by_cases he : e.1 = k
    · simp [he]
    · simpa [he] using ih

theorem get_filter_ne {key : String} (hk : k ≠ key) :
    (obj (fields.filter (fun e => e.1 ≠ key))).get? k = (obj fields).get? k := by
  simp only [get?, List.find?_filter]
  congr 2
  funext e
  by_cases hek : e.1 = k
  · simp [hek, hk]
  · simp [hek]

theorem get_bounded (hk : k ≠ "maxItems") :
    (obj (bounded fields)).get? k = (obj fields).get? k := by
  unfold bounded
  split
  · split
    next m _ =>
      have hfront : (obj (("maxItems",.int m)::fields.filter (fun e => e.1 ≠ "maxItems"))).get? k =
          (obj (fields.filter (fun e => e.1 ≠ "maxItems"))).get? k := by
        rw [get?, List.find?_cons_of_neg (by simpa using Ne.symm hk)]
        rfl
      rw [hfront, get_filter_ne hk]
    · rfl
  · rfl

theorem parts_map (hf : ∀ x, isSchema (f x) = isSchema x) (x : Json) :
    parts k (mapParts f k x) = (parts k x).map f := by
  have hfilter : ∀ cs : List Json, (cs.map f).filter isSchema = (cs.filter isSchema).map f := by
    intro cs
    rw [List.filter_map]
    congr 1
    exact List.filter_congr (fun c _ => hf c)
  unfold parts mapParts
  split_ifs with hmap hsequence hsingle
  · cases x with
    | obj children =>
      simp only [List.map_map]
      rw [← hfilter, List.map_map]
      rfl
    | _ => rfl
  · cases x with
    | arr children => exact hfilter children
    | _ => rfl
  · exact hfilter [x]
  · rfl

theorem rewrite_schema (room : ℕ) (x : Json) : isSchema (rewrite room x) = isSchema x := by
  cases room with
  | zero => rfl
  | succ room => cases x <;> rfl

theorem rewrite_not_obj (room : ℕ) (hs : s.isObj = false) : rewrite room s = s := by
  cases room with
  | zero => rfl
  | succ room =>
    cases s with
    | obj fields => cases hs
    | _ => rfl

theorem keyword_ne_max (hk : k ∈ schemaKeywords) : k ≠ "maxItems" := by
  rintro rfl
  revert hk
  decide

theorem children_rewrite (room : ℕ) (fields : List (String × Json)) :
    children (rewrite (room+1) (.obj fields)) = (children (.obj fields)).map (rewrite room) := by
  unfold children
  rw [List.map_flatMap]
  refine List.flatMap_congr (fun k hk => ?_)
  rw [rewrite, childrenAt, get_bounded (keyword_ne_max hk), get_map_parts, childrenAt]
  cases (obj fields).get? k with
  | none => rfl
  | some x => simpa using parts_map (rewrite_schema room) x

def Fits (room : ℕ) (s : Json) : Prop := ∀ d x, Reach s d x → x.isObj = true → d ≤ room

variable {room : ℕ}

theorem Fits.child (h : Fits (room+1) s) {c : Json} (hc : c ∈ children s) :
    Fits room c := by
  intro d x hreach hx
  have hd := h (d+1) x (.child hc hreach) hx
  omega

theorem Fits.obj (h : Fits room (.obj fields)) : ∃ below, room = below+1 := by
  have hroom := h 1 (.obj fields) (.self _) rfl
  exact ⟨room-1,by omega⟩

theorem reach_rewrite {room d : ℕ} {x : Json} (hfits : Fits room s) :
    Reach (rewrite room s) d x ↔ ∃ y, Reach s d y ∧ x = rewrite (room+1-d) y := by
  constructor
  · intro h
    generalize hs : rewrite room s = r at h
    induction h generalizing room s with
    | self r => exact ⟨s,.self s,by rw [← hs]; simp⟩
    | @child r c x d hc hreach ih =>
      subst hs
      cases hobj : s.isObj with
      | false => rw [rewrite_not_obj room hobj, children_not_obj hobj] at hc; cases hc
      | true =>
        cases s with
        | obj fields =>
          obtain ⟨below,rfl⟩ := hfits.obj
          rw [children_rewrite] at hc
          obtain ⟨c0,hc0,rfl⟩ := List.mem_map.1 hc
          obtain ⟨y,hy,rfl⟩ := ih (hfits.child hc0) rfl
          exact ⟨y,.child hc0 hy,by rw [Nat.add_sub_add_right]⟩
        | _ => cases hobj
  · rintro ⟨y,hy,rfl⟩
    induction hy generalizing room with
    | self s => simpa using Reach.self (rewrite room s)
    | @child s c y d hc hreach ih =>
      cases s with
      | obj fields =>
        obtain ⟨below,rfl⟩ := hfits.obj
        rw [Nat.add_sub_add_right]
        refine .child ?_ (ih (hfits.child hc))
        rw [children_rewrite]
        exact List.mem_map_of_mem hc
      | _ => rw [children_not_obj rfl] at hc; cases hc

theorem is_obj_rewrite (room : ℕ) : (rewrite room s).isObj = s.isObj := by
  cases room with
  | zero => rfl
  | succ room => cases s <;> rfl

/-- The places of the rewritten tree, in the order of the places before. -/
theorem subschemas_rewrite (n : ℕ) (hfits : Fits room s) :
    (subschemas n (rewrite room s)).map isObj = (subschemas n s).map isObj := by
  induction n generalizing room s with
  | zero => simp [subschemas, is_obj_rewrite]
  | succ n ih =>
    cases hobj : s.isObj with
    | false => rw [rewrite_not_obj room hobj]
    | true =>
      cases s with
      | obj fields =>
        obtain ⟨below,rfl⟩ := hfits.obj
        simp only [subschemas, children_rewrite, List.map_cons, List.map_flatMap,
          List.flatMap_map, is_obj_rewrite]
        congr 1
        exact List.flatMap_congr (fun c hc => ih (hfits.child hc))
      | _ => cases hobj

theorem subschemas_rewrite_length (n : ℕ) (hfits : Fits room s) :
    (subschemas n (rewrite room s)).length = (subschemas n s).length := by
  simpa using congrArg List.length (subschemas_rewrite n hfits)

theorem objects_rewrite (n : ℕ) (hfits : Fits room s) :
    objects n (rewrite room s) = objects n s := by
  have hcount : ∀ l : List Json, (l.filter isObj).length = (l.map isObj).count true := by
    intro l
    rw [List.count, List.countP_map, ← List.countP_eq_length_filter]
    congr 1
    funext x
    cases h : x.isObj <;> simp [h]
  rw [objects, hcount, subschemas_rewrite n hfits, ← hcount, objects]

end Rewriting

/-! The bound on validation work. -/

def number : Json → Option ℚ
  | .int n => some n
  | .float r => some (value r)
  | _ => none

def firstKey : Json → Option String
  | .obj ((k,_)::_) => some k
  | _ => none

def ValidMaxItems (root : Json) : Prop :=
  ∀ d s x, Reach root d s → s.get? "maxItems" = some x → ∃ n : ℕ, number value x = some (n : ℚ)

structure BoundsWork (value : String → ℚ) (root : Json) : Prop where
  depth : ∀ d s, Reach root d s → d ≤ 32
  count : ∀ n, (subschemas n root).length ≤ 512
  keywords : ∀ d s, Reach root d s → ∀ k ∈ unsafeKeywords, s.hasKey k = false
  items : ∀ d s, Reach root d s → holdsItems s = true → firstKey s = some "maxItems" ∧
    ∃ x q, s.get? "maxItems" = some x ∧ number value x = some q ∧ q ≤ 4096

def FloatBoundsKept (root : Json) : Prop :=
  ∀ d s r, Reach root d s → holdsItems s = true → s.get? "maxItems" = some (.float r) →
    firstKey s = some "maxItems" ∧ value r ≤ 4096

section Bounds

variable {value : String → ℚ} {room : ℕ} {fields : List (String × Json)} {k : String}

theorem has_key_rewrite (hk : k ≠ "maxItems") :
    (rewrite (room+1) (.obj fields)).hasKey k = (obj fields).hasKey k := by
  rw [hasKey, rewrite, get_bounded hk, get_map_parts, hasKey, Option.isSome_map]

theorem holds_items_map (f : Json → Json) :
    holdsItems (.obj (fields.map (fun e => (e.1,mapParts f e.1 e.2)))) =
      holdsItems (.obj fields) := by
  simp only [holdsItems, arrayKeywords, hasKey, get_map_parts, List.any_cons, List.any_nil,
    Option.isSome_map]

theorem holds_items_rewrite :
    holdsItems (rewrite (room+1) (.obj fields)) = holdsItems (.obj fields) := by
  simp only [holdsItems, arrayKeywords, List.any_cons, List.any_nil]
  rw [has_key_rewrite (by decide), has_key_rewrite (by decide), has_key_rewrite (by decide)]

section
variable (f : Json → Json)

theorem map_parts_max (x : Json) : mapParts f "maxItems" x = x := by
  unfold mapParts
  rw [if_neg (by decide), if_neg (by decide), if_neg (by decide)]

theorem get_max_map :
    (obj (fields.map (fun e => (e.1,mapParts f e.1 e.2)))).get? "maxItems" =
      (obj fields).get? "maxItems" := by
  rw [get_map_parts]
  cases (obj fields).get? "maxItems" with
  | none => rfl
  | some x => exact congrArg some (map_parts_max f x)

theorem maximum_map :
    maximum (.obj (fields.map (fun e => (e.1,mapParts f e.1 e.2)))) = maximum (.obj fields) := by
  rw [maximum, get_max_map, maximum]

theorem first_key_map :
    firstKey (.obj (fields.map (fun e => (e.1,mapParts f e.1 e.2)))) = firstKey (.obj fields) := by
  cases fields <;> rfl

end

/-- An array schema after the rewriting: bounded in front, or as it was. -/
theorem rewrite_items (room : ℕ) (hitems : holdsItems (.obj fields) = true) :
    (∃ m rest, maximum (.obj fields) = some m ∧
      rewrite (room+1) (.obj fields) = .obj (("maxItems",.int m)::rest)) ∨
    (maximum (.obj fields) = none ∧
      (rewrite (room+1) (.obj fields)).get? "maxItems" = (obj fields).get? "maxItems" ∧
      firstKey (rewrite (room+1) (.obj fields)) = firstKey (.obj fields)) := by
  rw [rewrite, bounded, holds_items_map, if_pos hitems, maximum_map]
  cases hmax : maximum (.obj fields) with
  | some m => exact .inl ⟨m,_,rfl,rfl⟩
  | none => exact .inr ⟨rfl,get_max_map _,first_key_map _⟩

theorem maximum_le {m : ℤ} {s : Json} (h : maximum s = some m) : m ≤ 4096 := by
  unfold maximum at h
  split at h
  · cases h; decide
  · cases h; decide
  · split at h
    · cases h
      exact min_le_right _ _
    · cases h
  · cases h

/-- A valid bound that is not lowered is a float. -/
theorem maximum_none {s : Json} (h : maximum s = none)
    (hvalid : ∀ x, s.get? "maxItems" = some x → ∃ n : ℕ, number value x = some (n : ℚ)) :
    ∃ r, s.get? "maxItems" = some (.float r) := by
  unfold maximum at h
  split at h
  · cases h
  · cases h
  next n hget =>
    obtain ⟨m,hm⟩ := hvalid _ hget
    simp only [number, Option.some.injEq] at hm
    have hn : 0 ≤ n := by
      have hq : (0 : ℚ) ≤ (n : ℚ) := by rw [hm]; exact Nat.cast_nonneg m
      exact_mod_cast hq
    rw [if_pos hn] at h
    cases h
  next x hnull hint hget =>
    obtain ⟨m,hm⟩ := hvalid _ hget
    cases x with
    | float r => exact ⟨r,hget⟩
    | int n => exact absurd rfl (hint n)
    | _ => cases hm

theorem maximum_float {s : Json} {r : String} (h : s.get? "maxItems" = some (.float r)) :
    maximum s = none := by
  rw [maximum, h]

/-- The items of the claim for one node: they hold after the rewriting exactly if a bound written as
a float was small and in front already. -/
theorem rewritten_items_iff (hitems : holdsItems (.obj fields) = true)
    (hvalid : ∀ x, (obj fields).get? "maxItems" = some x →
      ∃ n : ℕ, number value x = some (n : ℚ)) :
    (firstKey (rewrite (room+1) (.obj fields)) = some "maxItems" ∧
      ∃ x q, (rewrite (room+1) (.obj fields)).get? "maxItems" = some x ∧
        number value x = some q ∧ q ≤ 4096) ↔
    ∀ r, (obj fields).get? "maxItems" = some (.float r) →
      firstKey (.obj fields) = some "maxItems" ∧ value r ≤ 4096 := by
  rcases rewrite_items room hitems with ⟨m,rest,hmax,hrewrite⟩ | ⟨hmax,hget,hfirst⟩
  · constructor
    · intro _ r hr
      rw [maximum_float hr] at hmax
      cases hmax
    · intro _
      have hm : (m : ℚ) ≤ 4096 := by exact_mod_cast maximum_le hmax
      rw [hrewrite]
      exact ⟨rfl,.int m,m,by simp [get?],rfl,hm⟩
  · obtain ⟨r,hr⟩ := maximum_none hmax hvalid
    rw [hfirst, hget, hr]
    constructor
    · rintro ⟨hkey,x,q,hx,hq,hle⟩ r' hr'
      cases hx
      cases hr'
      cases hq
      exact ⟨hkey,hle⟩
    · intro h
      obtain ⟨hkey,hle⟩ := h r rfl
      exact ⟨hkey,.float r,value r,rfl,rfl,hle⟩

theorem harden_ok {it : Interpreter} {root : List (String × Json)} {out : Json}
    (h : hardenUntrustedJsonSchema it root = .ok out) :
    ∃ t, visit it maxSchemaDepth {} (.obj root) = .ok t ∧
      out = rewrite maxSchemaDepth (.obj root) := by
  unfold hardenUntrustedJsonSchema at h
  obtain ⟨-,h⟩ := Results.guard_ok h
  obtain ⟨t,ht,h⟩ := Results.bind_ok h
  cases h
  exact ⟨t,ht,rfl⟩

theorem holds_items_obj {s : Json} (h : holdsItems s = true) : s.isObj = true := by
  cases s with
  | obj fields => rfl
  | _ => cases h

theorem parts_schema {x c : Json} (hc : c ∈ parts k x) : isSchema c = true := by
  unfold parts at hc
  split_ifs at hc with hmap hsequence hsingle
  · cases x with
    | obj children => exact (List.mem_filter.1 hc).2
    | _ => cases hc
  · cases x with
    | arr children => exact (List.mem_filter.1 hc).2
    | _ => cases hc
  · exact (List.mem_filter.1 hc).2
  · cases hc

theorem reach_schema {s x : Json} {d : ℕ} (h : Reach s d x) (hs : isSchema s = true) :
    isSchema x = true := by
  induction h with
  | self s => exact hs
  | child hc _ ih =>
    obtain ⟨k,-,hk⟩ := List.mem_flatMap.1 hc
    obtain ⟨y,-,hy⟩ := List.mem_flatMap.1 hk
    exact ih (parts_schema hy)

/-- An object of the tree is rewritten as one that has room. -/
theorem reach_obj {s x : Json} {room d : ℕ} (hfits : Fits room s) (h : Reach s d x)
    (hx : x.isObj = true) : d ≤ room ∧ ∃ fields, x = .obj fields ∧ room+1-d = (room-d)+1 := by
  have hd := hfits d x h hx
  cases x with
  | obj fields => exact ⟨hd,fields,rfl,by omega⟩
  | _ => cases hx

theorem unsafe_ne_max (hk : k ∈ unsafeKeywords) : k ≠ "maxItems" := by
  rintro rfl
  revert hk
  decide

end Bounds

/-- An accepted schema has at most 512 object schemas; it is hardened as documented exactly if its
boolean subschemas keep the limits on depth and number, which the walk does not apply to them, and
no bound is written as a large float or as a float behind other keywords. -/
theorem hardened_schema_bounded_iff (it : Interpreter) (value : String → ℚ)
    (root : List (String × Json)) (out : Json) (hvalid : ValidMaxItems value (.obj root))
    (h : hardenUntrustedJsonSchema it root = .ok out) :
    (∀ n, objects n out ≤ 512) ∧
    (BoundsWork value out ↔
      (∀ d b, Reach (.obj root) d (.bool b) → d ≤ 32) ∧
      (∀ n, (subschemas n (.obj root)).length ≤ 512) ∧
      FloatBoundsKept value (.obj root)) := by
  obtain ⟨t,ht,rfl⟩ := harden_ok h
  have hfits : Fits maxSchemaDepth (.obj root) := fun d x hreach hx => (visit_reach hreach ht hx).1
  constructor
  · intro n
    rw [objects_rewrite n hfits]
    obtain ⟨hcount,hmax⟩ := visit_count n ht
    exact le_trans (le_trans (Nat.le_add_left _ _) hcount) (hmax (Nat.zero_le _))
  constructor
  · intro hwork
    refine ⟨fun d b hreach => ?_,fun n => ?_,fun d s r hreach hs hr => ?_⟩
    · have hout : Reach (rewrite maxSchemaDepth (.obj root)) d (.bool b) :=
        (reach_rewrite hfits).2 ⟨.bool b,hreach,(rewrite_not_obj _ rfl).symm⟩
      exact hwork.depth d _ hout
    · rw [← subschemas_rewrite_length n hfits]
      exact hwork.count n
    · obtain ⟨-,fields,rfl,hroom⟩ := reach_obj hfits hreach (holds_items_obj hs)
      have hout := (reach_rewrite hfits).2 ⟨.obj fields,hreach,rfl⟩
      rw [hroom] at hout
      have hitems := hwork.items d _ hout (by rw [holds_items_rewrite]; exact hs)
      exact (rewritten_items_iff hs (fun x hx => hvalid d _ x hreach hx)).1 hitems r hr
  · rintro ⟨hbools,hcount,hfloats⟩
    refine ⟨fun d x hreach => ?_,fun n => ?_,fun d x hreach k hk => ?_,fun d x hreach hx => ?_⟩
    · obtain ⟨s,hs,rfl⟩ := (reach_rewrite hfits).1 hreach
      have hschema := reach_schema hs rfl
      cases s with
      | obj fields => exact hfits d _ hs rfl
      | bool b => exact hbools d b hs
      | _ => cases hschema
    · rw [subschemas_rewrite_length n hfits]
      exact hcount n
    · obtain ⟨s,hs,rfl⟩ := (reach_rewrite hfits).1 hreach
      cases hobj : s.isObj with
      | true =>
        obtain ⟨-,fields,rfl,hroom⟩ := reach_obj hfits hs hobj
        rw [hroom, has_key_rewrite (unsafe_ne_max hk)]
        exact (visit_reach hs ht rfl).2 k hk
      | false =>
        rw [rewrite_not_obj _ hobj]
        cases s with
        | obj fields => cases hobj
        | _ => rfl
    · obtain ⟨s,hs,rfl⟩ := (reach_rewrite hfits).1 hreach
      cases hobj : s.isObj with
      | true =>
        obtain ⟨-,fields,rfl,hroom⟩ := reach_obj hfits hs hobj
        rw [hroom] at hx ⊢
        rw [holds_items_rewrite] at hx
        exact (rewritten_items_iff hx (fun y hy => hvalid d _ y hs hy)).2
          (fun r hr => hfloats d _ r hs hx hr)
      | false =>
        rw [rewrite_not_obj _ hobj] at hx
        rw [holds_items_obj hx] at hobj
        cases hobj

def writtenOrder : Interpreter where
  copies _ := true
  maps := schemaMapChildren
  sequences := schemaSequenceChildren
  singles := schemaSingleChildren
  maps_perm := .refl _
  sequences_perm := .refl _
  singles_perm := .refl _

def anyArray : List (String × Json) := [("type",.str "array"),("items",.bool true)]

theorem reach_any_array {d : ℕ} {x : Json} (h : Reach (.obj anyArray) d x) :
    (d = 1 ∧ x = .obj anyArray) ∨ (d = 2 ∧ x = .bool true) := by
  have hchildren : children (.obj anyArray) = [.bool true] := by decide
  cases h with
  | self => exact .inl ⟨rfl,rfl⟩
  | child hc h =>
    rw [hchildren, List.mem_singleton] at hc
    subst hc
    cases h with
    | self => exact .inr ⟨rfl,rfl⟩
    | child hc _ => cases hc

theorem subschemas_any_array (n : ℕ) : (subschemas n (.obj anyArray)).length ≤ 2 := by
  have hchildren : children (.obj anyArray) = [.bool true] := by decide
  cases n with
  | zero => decide
  | succ n =>
    rw [subschemas, hchildren]
    cases n with
    | zero => decide
    | succ n =>
      have hleaf : children (.bool true) = [] := children_not_obj rfl
      simp [subschemas, hleaf]

theorem any_array_bounded :
    BoundsWork (fun _ => 0) (.obj [("maxItems",.int 4096),("type",.str "array"),
      ("items",.bool true)]) := by
  refine (hardened_schema_bounded_iff writtenOrder (fun _ => 0) anyArray _ ?_ (by decide)).2.2
    ⟨?_,?_,?_⟩
  · intro d s x hreach hx
    rcases reach_any_array hreach with ⟨-,rfl⟩ | ⟨-,rfl⟩ <;> cases hx
  · intro d b hreach
    rcases reach_any_array hreach with ⟨rfl,-⟩ | ⟨rfl,-⟩ <;> decide
  · intro n
    exact le_trans (subschemas_any_array n) (by decide)
  · intro d s r hreach _ hr
    rcases reach_any_array hreach with ⟨-,rfl⟩ | ⟨-,rfl⟩ <;> cases hr

def floatBound : List (String × Json) := [("maxItems",.float "1000000000.0"),("items",.bool true)]

/-- The accepted result still allows arrays of a thousand million items. -/
theorem float_bound_kept :
    hardenUntrustedJsonSchema writtenOrder floatBound = .ok (.obj floatBound) ∧
      ¬ BoundsWork (fun r => if r = "1000000000.0" then 1000000000 else 0) (.obj floatBound) := by
  refine ⟨by decide,fun h => ?_⟩
  obtain ⟨-,x,q,hx,hq,hle⟩ := h.items 1 (.obj floatBound) (.self _) (by decide)
  cases hx
  cases hq
  norm_num at hle

end SuiteHarness.Security
