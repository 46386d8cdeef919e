import SuiteHarness.Workspace.SecureFiles

/-!
# Feishu writes stay in the configured roots

`Plain` says what a path is that the channel policy accepts. Every parser reads
such a path, and its form with forward slashes, as the same segments; the file
tools alone also bound its length. A write then publishes one file under the
last segment, in the directory reached by the others without following a link.
-/

set_option autoImplicit false

namespace SuiteHarness.Workspace

open SuiteHarness.Library SuiteHarness.Execution

structure Plain (value : String) (parts : List String) : Prop where
  nonempty : value ≠ ""
  nul : hasNul value = false
  dot : portable value ≠ "."
  relative : startsWithSlash (portable value) = false
  drive : hasDrive (portable value) = false
  split : splitSlash (portable value) = parts
  dots : parts.any isDots = false
  pure : purePosixParts (portable value) = parts

variable {arguments : Json} {parts : List String} {rule : WorkspaceWriteRule} {value : String}

theorem policy_parts_plain {value : Option Json} (h : policyParts value false = some parts) :
    ∃ text, value = some (.str text) ∧ Plain text parts := by
  unfold policyParts at h
  split at h
  · rename_i text
    refine ⟨text,rfl,?_⟩
    split at h
    · cases h
    · rename_i hvalue
      dsimp only at h
      split at h
      · cases h
      · rename_i hdot
        split at h
        · cases h
        · rename_i hrelative
          split at h
          · cases h
          · rename_i hdots
            split at h
            · rename_i hpure
              cases h
              simp only [Bool.or_eq_true, decide_eq_true_eq, not_or, Bool.not_eq_true] at hvalue hrelative hdots
              exact ⟨hvalue.1,hvalue.2,hdot,hrelative.1,hrelative.2,hpure,hpure ▸ hdots,rfl⟩
            · cases h
  · cases h

@[simp] theorem portable_portable (value : String) : portable (portable value) = portable value := by
  unfold portable
  rw [String.toList_ofList, List.map_map]
  congr 1
  apply List.map_congr_left
  intro c _
  by_cases h : c = '\\'
  · simp [h]
  · simp [h]

theorem portable_eq_empty (value : String) : portable value = "" ↔ value = "" := by
  unfold portable
  constructor
  · intro h
    have hlist := congrArg String.toList h
    rw [String.toList_ofList] at hlist
    have hnil : value.toList = [] := by simpa using hlist
    exact String.toList_injective (by simpa using hnil)
  · rintro rfl
    rfl

theorem has_nul_portable (value : String) : hasNul (portable value) = hasNul value := by
  unfold hasNul portable
  rw [String.toList_ofList, Bool.eq_iff_iff]
  simp only [List.contains_iff_mem, List.mem_map]
  constructor
  · rintro ⟨c,hc,heq⟩
    by_cases h : c = '\\'
    · rw [if_pos h] at heq
      exact absurd heq (by decide)
    · rw [if_neg h] at heq
      exact heq ▸ hc
  · intro hc
    exact ⟨_,hc,by rw [if_neg (by decide)]⟩

section
variable (h : Plain value parts)
include h

theorem plain_portable :
    Plain (portable value) parts where
  nonempty := (portable_eq_empty value).not.mpr h.nonempty
  nul := (has_nul_portable value).trans h.nul
  dot := (portable_portable value).symm ▸ h.dot
  relative := (portable_portable value).symm ▸ h.relative
  drive := (portable_portable value).symm ▸ h.drive
  split := (portable_portable value).symm ▸ h.split
  dots := h.dots
  pure := (portable_portable value).symm ▸ h.pure

theorem plain_segments (allowRoot : Bool) :
    segments value allowRoot = .ok parts := by
  unfold segments
  simp [h.nonempty, h.nul, h.dot, h.relative, h.split, h.dots, h.pure]

theorem plain_candidate (root : AbsolutePath) :
    logicalCandidate root value = .ok (lexical root++parts) := by
  have hempty : portable value ≠ "" := (portable_eq_empty value).not.mpr h.nonempty
  unfold logicalCandidate
  simp [h.dot, hempty, h.relative, h.split, h.dots, h.pure]

/-- The file tools also refuse a long path. -/
theorem plain_relative :
    relativePath (some (.str value)) false =
      if 4096 < value.toList.length then
        .error (.valueError "path must be a bounded NUL-free string")
      else .ok (portable value) := by
  have hempty : portable value ≠ "" := (portable_eq_empty value).not.mpr h.nonempty
  unfold relativePath
  by_cases hlong : 4096 < value.toList.length
  · simp [hlong]
  · simp [hlong, h.nul, hempty, h.relative, h.drive, h.split, h.dots]

theorem plain_parts :
    parts ≠ [] ∧ ∀ part ∈ parts, part ≠ "" ∧ part ≠ "." ∧ part ≠ ".." := by
  constructor
  · rw [← h.split, splitSlash]
    simp [List.splitOn, List.splitOnP_ne_nil]
  · intro part hpart
    have hdots := List.any_eq_false.mp h.dots part hpart
    simpa [isDots] using hdots

end

theorem permits_spec {space : Json} {path : Option Json} (h : rule.permits space path = true) :
    (space = .null ∧ rule.space = .product ∨ space = .str rule.space.value) ∧
      ∃ configured value parts, policyParts (some (.str rule.path)) true = some configured ∧
        path = some (.str value) ∧ policyParts path false = some parts ∧ Plain value parts ∧
        configured <+: parts := by
  unfold WorkspaceWriteRule.permits at h
  split at h
  · cases h
  · rename_i hspace
    split at h
    · rename_i configured requested hconfigured hrequested
      obtain ⟨value,rfl,hplain⟩ := policy_parts_plain hrequested
      refine ⟨?_,configured,value,requested,hconfigured,rfl,hrequested,hplain,?_⟩
      · unfold selectedSpace at hspace
        by_cases hnull : space = .null
        · rw [if_pos hnull, not_not] at hspace
          left
          cases hs : rule.space with
          | product => exact ⟨hnull,rfl⟩
          | shared =>
            rw [hs] at hspace
            exact absurd hspace (by decide)
        · rw [if_neg hnull, not_not] at hspace
          exact Or.inr hspace
      · rw [Bool.or_eq_true, decide_eq_true_eq, decide_eq_true_eq] at h
        rcases h with rfl | htake
        · exact List.nil_prefix
        · exact List.prefix_iff_eq_take.mpr htake.symm
    · cases h

/-- Only a rule lets a writing tool run without approval. -/
theorem evaluate_allows {rules : List WorkspaceWriteRule} {identity : ToolIdentity}
    {spec : ToolSpec} (hwrite : spec.isRead = false)
    (h : evaluate rules "feishu" identity spec arguments = .allow) :
    feishuWritableTools.contains identity.name = true ∧
      ∃ rule ∈ rules, rule.permits (spaceArgument arguments) (arguments.get? "path") = true := by
  unfold evaluate at h
  rw [if_neg (by decide), if_neg (by decide)] at h
  split at h
  · cases h
  · rw [hwrite, if_neg (by decide)] at h
    split at h
    · cases h
    · rename_i hbuiltin
      split at h
      · rename_i hany
        exact ⟨(not_not.mp hbuiltin).2.2.1,List.any_eq_true.mp hany⟩
      · cases h

namespace FileSystem

def reach (fs : FileSystem) : ℕ → List String → Option ℕ
  | directory, [] => some directory
  | directory, part::parts => match fs.child directory part with
    | some i => match fs.inode i with
      | some (.directory _) => fs.reach i parts
      | _ => none
    | none => none

section
variable (fs : FileSystem)

theorem reach_append (directory : ℕ) (parts more : List String) :
    fs.reach directory (parts++more) = (fs.reach directory parts).bind (fs.reach · more) := by
  induction parts generalizing directory with
  | nil => rfl
  | cons part parts ih =>
    simp only [List.cons_append, reach]
    split
    · split
      · exact ih _
      · rfl
    · rfl

theorem open_directory_ok (action path : String) (parent i : ℕ) (name : String)
    (h : fs.openDirectory action path parent name = .ok i) :
    fs.child parent name = some i ∧ ∃ entries, fs.inode i = some (.directory entries) := by
  unfold openDirectory at h
  split at h
  · cases h
  · rename_i j hj
    split at h
    · rename_i entries hi
      cases h
      exact ⟨hj,entries,hi⟩
    · cases h
    · cases h

theorem walk_reach (action : String) (label : List String → String)
    (passed : List String) (directory i : ℕ) (parts : List String)
    (h : fs.walk action label passed directory parts = .ok i) : fs.reach directory parts = some i := by
  induction parts generalizing passed directory with
  | nil =>
    cases h
    rfl
  | cons part parts ih =>
    rw [walk] at h
    split at h
    · cases h
    · rename_i j hj
      obtain ⟨hchild,entries,hinode⟩ := fs.open_directory_ok _ _ _ _ _ hj
      simp only [reach, hchild, hinode]
      exact ih _ _ h

theorem reach_exists (directory i : ℕ) (parts : List String)
    (hd : directory < fs.next) (h : fs.reach directory parts = some i) : i < fs.next := by
  induction parts generalizing directory with
  | nil =>
    cases h
    exact hd
  | cons part parts ih =>
    rw [reach] at h
    split at h
    · rename_i j hj
      split at h
      · rename_i entries hinode
        refine ih j ?_ h
        by_contra hge
        rw [fs.fresh j (not_lt.mp hge)] at hinode
        cases hinode
      · cases h
    · cases h

theorem open_parent_reach (root : AbsolutePath) (relative : String)
    (parts : List String) (parent : ℕ) (leaf : String) (hplain : Plain relative parts)
    (h : fs.openParent root relative = .ok (parent,leaf)) :
    parts = parts.dropLast++[leaf] ∧ fs.reach 0 (root++parts.dropLast) = some parent := by
  unfold openParent at h
  rw [plain_segments hplain] at h
  dsimp only at h
  split at h
  · cases h
  · rename_i directory hroot
    split at h
    · cases h
    · rename_i i hwalk
      cases h
      have hne := (plain_parts hplain).1
      constructor
      · rw [List.getLastD_eq_getLast?, List.getLast?_eq_some_getLast hne]
        exact (List.dropLast_append_getLast hne).symm
      · unfold openRoot at hroot
        split at hroot
        · cases hroot
        · rw [reach_append, walk_reach fs _ _ _ _ _ _ hroot]
          exact walk_reach fs _ _ _ _ _ _ hwalk

end

def Wrote (fs : FileSystem) (root : AbsolutePath) (parts : List String) (content : Bytes)
    (next : FileSystem) : Prop :=
  ∃ parent leaf, parts = parts.dropLast++[leaf] ∧
    fs.reach 0 (root++parts.dropLast) = some parent ∧
    (∃ i, next.child parent leaf = some i ∧ fs.inode i = none ∧
      next.inode i = some (.file content)) ∧
    (∀ name, name ≠ leaf → next.child parent name = fs.child parent name) ∧
    ∀ i, i ≠ parent → fs.inode i ≠ none → next.inode i = fs.inode i

theorem publish_child {fs : FileSystem} {parent : ℕ} (entries : Dict String ℕ) (content : Bytes)
    (hparent : parent < fs.next) (name : String) :
    (fs.publish parent entries content).child parent name = entries.get? name := by
  have hinode : (fs.publish parent entries content).inode parent = some (.directory entries) := by
    show (if parent = fs.next then _ else if parent = parent ∧ parent < fs.next then _ else _) = _
    rw [if_neg (by omega), if_pos ⟨rfl,hparent⟩]
  unfold child FileSystem.entries
  rw [hinode]

theorem publish_wrote (fs : FileSystem) (root : AbsolutePath) (parts : List String)
    (parent : ℕ) (leaf : String) (entries : Dict String ℕ) (content : Bytes)
    (hparts : parts = parts.dropLast++[leaf])
    (hreach : fs.reach 0 (root++parts.dropLast) = some parent)
    (hleaf : entries.get? leaf = some fs.next)
    (hothers : ∀ name, name ≠ leaf → entries.get? name = fs.child parent name) :
    fs.Wrote root parts content (fs.publish parent entries content) := by
  have hparent := fs.reach_exists 0 parent _ fs.next_pos hreach
  refine ⟨parent,leaf,hparts,hreach,⟨fs.next,?_,fs.fresh _ le_rfl,if_pos rfl⟩,?_,?_⟩
  · rw [publish_child entries content hparent]
    exact hleaf
  · intro name hname
    rw [publish_child entries content hparent]
    exact hothers name hname
  · intro i hne hexists
    show (if i = fs.next then _ else if i = parent ∧ i < fs.next then _ else _) = _
    have hi : i ≠ fs.next := by
      rintro rfl
      exact hexists (fs.fresh _ le_rfl)
    rw [if_neg hi, if_neg (fun h => hne h.1)]

theorem temporary_absent (fs : FileSystem) (parent : ℕ) (names : List String) (temporary : String)
    (h : fs.createTemporary parent names = some temporary) : fs.child parent temporary = none := by
  have hfound := List.find?_some h
  simpa using hfound

variable (fs next : FileSystem) (names : List String) (root : AbsolutePath)

theorem atomic_write_wrote
    (parts : List String) (parent : ℕ) (leaf : String) (content : Bytes) (overwrite : Bool)
    (expectedIdentity : Option ℕ) (hparts : parts = parts.dropLast++[leaf])
    (hreach : fs.reach 0 (root++parts.dropLast) = some parent)
    (h : fs.atomicWriteAt names parent leaf content overwrite expectedIdentity = .ok next) :
    fs.Wrote root parts content next := by
  unfold atomicWriteAt at h
  split at h
  · cases h
  · split at h
    · cases h
    · rename_i temporary htemporary
      have habsent : (fs.entries parent).get? temporary = none :=
        fs.temporary_absent parent names temporary htemporary
      dsimp only at h
      split at h
      · cases h
        refine fs.publish_wrote root parts parent leaf _ content hparts hreach
          (by simp) fun name hname => ?_
        rw [Dict.get_set, if_neg hname, Dict.get_erase, Dict.get_set]
        by_cases ht : name = temporary
        · rw [if_pos ht, ht]
          exact habsent.symm
        · rw [if_neg ht, if_neg ht]
          rfl
      · split at h
        · cases h
        · rename_i hnew
          cases h
          have hleaf : leaf ≠ temporary := by
            rintro rfl
            exact hnew (by simp [Dict.contains])
          refine fs.publish_wrote root parts parent leaf _ content hparts hreach
            (by simp [hleaf]) fun name hname => ?_
          rw [Dict.get_erase, Dict.get_set, Dict.get_set]
          by_cases ht : name = temporary
          · rw [if_pos ht, ht]
            exact habsent.symm
          · rw [if_neg ht, if_neg hname, if_neg ht]
            rfl

theorem write_file_wrote
    (relative : String) (parts : List String) (content : Bytes) (overwrite : Bool)
    (hplain : Plain relative parts)
    (h : fs.writeFile names root relative content overwrite = .ok next) :
    fs.Wrote root parts content next := by
  unfold writeFile at h
  split at h
  · cases h
  · rename_i parent leaf hopen
    obtain ⟨hparts,hreach⟩ := fs.open_parent_reach root relative parts parent leaf hplain hopen
    exact fs.atomic_write_wrote next names root parts parent leaf content overwrite none hparts
      hreach h

theorem transform_file_wrote {β : Type} (relative : String) (parts : List String)
    (maxReadBytes maxWriteBytes : ℕ) (transform : Bytes → Except WorkspaceError (Bytes × β))
    (result : β) (hplain : Plain relative parts)
    (h : fs.transformFile names root relative maxReadBytes maxWriteBytes transform =
      .ok (next,result)) : ∃ content, fs.Wrote root parts content next := by
  unfold transformFile at h
  split at h
  · cases h
  · rename_i parent leaf hopen
    obtain ⟨hparts,hreach⟩ := fs.open_parent_reach root relative parts parent leaf hplain hopen
    split at h
    · cases h
    · split at h
      · cases h
      · split at h
        · cases h
        · rename_i updated answer _
          split at h
          · cases h
          · cases hw : fs.atomicWriteAt names parent leaf updated true (some _) with
            | error error => cases (hw ▸ h)
            | ok written =>
              rw [hw] at h
              cases h
              exact ⟨updated,fs.atomic_write_wrote next names root parts parent leaf updated true _
                hparts hreach hw⟩

end FileSystem

theorem tool_target_spec {space : WorkspaceSpace} {relative : String}
    (hspace : spaceArgument arguments = .null ∧ rule.space = .product ∨
      spaceArgument arguments = .str rule.space.value)
    (hvalue : arguments.get? "path" = some (.str value)) (hplain : Plain value parts)
    (h : toolTarget arguments = .ok (space,relative)) :
    space = rule.space ∧ Plain relative parts := by
  unfold toolTarget at h
  split at h
  · cases h
  · rename_i selected hselected
    rw [hvalue, plain_relative hplain] at h
    split at h
    · cases h
    · rename_i text htext
      cases h
      split at htext
      · cases htext
      · cases htext
        refine ⟨?_,plain_portable hplain⟩
        rcases hspace with ⟨hnull,-⟩ | hstr
        · rw [hnull] at hselected
          cases hselected
        · rw [hstr] at hselected
          cases hs : rule.space with
          | product | shared =>
            rw [hs] at hselected
            cases hselected
            rfl

/-- What a writing tool did on an argument that a rule permits. -/
theorem tools_write_target {binding : WorkspaceToolBinding} {limits : FileToolLimits}
    {names : List String} {fs next : FileSystem} {answer : Json}
    (hspace : spaceArgument arguments = .null ∧ rule.space = .product ∨
      spaceArgument arguments = .str rule.space.value)
    (hvalue : arguments.get? "path" = some (.str value)) (hplain : Plain value parts)
    (h : writeTool binding limits names fs arguments = .ok (next,answer) ∨
      editTool binding limits names fs arguments = .ok (next,answer)) :
    ∃ content, fs.Wrote (binding.root rule.space) parts content next := by
  rcases h with h | h
  · unfold writeTool at h
    split at h
    · cases h
    · rename_i space relative htarget
      obtain ⟨rfl,hrelative⟩ := tool_target_spec hspace
        hvalue hplain htarget
      split at h
      · rename_i text _
        dsimp only at h
        split at h
        · cases h
        · split at h
          · cases h
          · cases hw : fs.writeFile names (binding.root rule.space) relative (encode text)
                (decide (arguments.get? "overwrite" = some (.bool true))) with
            | error error => cases (hw ▸ h)
            | ok written =>
              rw [hw] at h
              cases h
              exact ⟨_,fs.write_file_wrote next names _ relative parts _ _ hrelative hw⟩
      · cases h
  · unfold editTool at h
    split at h
    · cases h
    · rename_i space relative htarget
      obtain ⟨rfl,hrelative⟩ := tool_target_spec hspace
        hvalue hplain htarget
      split at h
      · cases h
      · rename_i old new expected _
        split at h
        · cases h
        · cases hw : fs.transformFile names (binding.root rule.space) relative limits.maxReadBytes
              limits.maxWriteBytes (exactEdit old new expected) with
          | error error => cases (hw ▸ h)
          | ok out =>
            rw [hw] at h
            cases h
            exact fs.transform_file_wrote out.1 names _ relative parts _ _ _ out.2 hrelative hw

/-- Whenever the policy lets a writing tool run on Feishu, one rule's segments
begin the segments of the path; every parser reads the path, and the normalized
path the tool goes on with, as these segments, save that the tool refuses more
than 4096 characters; and a completed call wrote the file these segments lead to
from the root of the rule's space. -/
theorem feishu_writes_confined (rules : List WorkspaceWriteRule) (identity : ToolIdentity)
    (spec : ToolSpec) (arguments : Json) (hwrite : spec.isRead = false)
    (hallow : evaluate rules "feishu" identity spec arguments = .allow) :
    ∃ rule ∈ rules, ∃ configured value parts,
      policyParts (some (.str rule.path)) true = some configured ∧
      arguments.get? "path" = some (.str value) ∧ configured <+: parts ∧
      parts ≠ [] ∧ (∀ part ∈ parts, part ≠ "" ∧ part ≠ "." ∧ part ≠ "..") ∧
      policyParts (some (.str value)) false = some parts ∧
      relativePath (some (.str value)) false =
        (if 4096 < value.toList.length then
          .error (.valueError "path must be a bounded NUL-free string")
        else .ok (portable value)) ∧
      (∀ text ∈ [value,portable value], segments text false = .ok parts ∧
        splitSlash (portable text) = parts ∧
        ∀ root, logicalCandidate root text = .ok (lexical root++parts)) ∧
      ∀ (binding : WorkspaceToolBinding) (limits : FileToolLimits) (names : List String)
        (fs next : FileSystem) (answer : Json),
        writeTool binding limits names fs arguments = .ok (next,answer) ∨
          editTool binding limits names fs arguments = .ok (next,answer) →
        ∃ content, fs.Wrote (binding.root rule.space) parts content next := by
  obtain ⟨-,rule,hrule,hpermits⟩ := evaluate_allows hwrite hallow
  obtain ⟨hspace,configured,value,parts,hconfigured,hvalue,hparts,hplain,hbegins⟩ :=
    permits_spec hpermits
  obtain ⟨hne,hdots⟩ := plain_parts hplain
  have hread : ∀ text, Plain text parts → segments text false = .ok parts ∧
      splitSlash (portable text) = parts ∧
      ∀ root, logicalCandidate root text = .ok (lexical root++parts) := fun text htext =>
    ⟨plain_segments htext false,htext.split,plain_candidate htext⟩
  refine ⟨rule,hrule,configured,value,parts,hconfigured,hvalue,hbegins,hne,hdots,hvalue ▸ hparts,
    plain_relative hplain,?_,?_⟩
  · intro text htext
    rcases List.mem_cons.mp htext with rfl | hportable
    · exact hread _ hplain
    · rw [List.mem_singleton.mp hportable]
      exact hread _ (plain_portable hplain)
  · intro binding limits names fs next answer hcall
    exact tools_write_target hspace
      hvalue hplain hcall

def docsRule : WorkspaceWriteRule := ⟨.product,"docs",by decide +kernel⟩

def rootRule : WorkspaceWriteRule := ⟨.product,".",by decide +kernel⟩

def writeIdentity : ToolIdentity :=
  ⟨"suiteharness","suiteharness.fs.write","suiteharness.builtin.fs","1"⟩

def writeSpec : ToolSpec where
  name := "suiteharness.fs.write"
  effects := {.write}
  requiredCapabilities := {"workspace.write"}

/-- `/srv/docs`, empty. -/
def docsFiles : FileSystem where
  inode
    | 0 => some (.directory (Dict.empty.set "srv" 1))
    | 1 => some (.directory (Dict.empty.set "docs" 2))
    | 2 => some (.directory Dict.empty)
    | _ => none
  next := 3
  fresh i hi := by
    obtain ⟨j,rfl⟩ := Nat.exists_eq_add_of_le' hi
    rfl
  slash := ⟨_,rfl⟩

theorem feishu_docs_write_confined :
    let arguments := Json.obj [("path",.str "docs\\note.md"),("content",.str "text")]
    let binding : WorkspaceToolBinding := ⟨["srv"],["shared"],[["srv"]],[["srv"]],false⟩
    ∃ rule ∈ [docsRule], ∃ configured value parts,
      policyParts (some (.str rule.path)) true = some configured ∧
      arguments.get? "path" = some (.str value) ∧ configured <+: parts ∧ parts ≠ [] ∧
      ∃ next answer content, writeTool binding {} ["temporary"] docsFiles arguments =
        .ok (next,answer) ∧ docsFiles.Wrote (binding.root rule.space) parts content next := by
  intro arguments binding
  obtain ⟨rule,hrule,configured,value,parts,hconfigured,hvalue,hbegins,hne,-,-,-,-,hwrites⟩ :=
    feishu_writes_confined [docsRule] writeIdentity writeSpec arguments (by decide) (by decide +kernel)
  refine ⟨rule,hrule,configured,value,parts,hconfigured,hvalue,hbegins,hne,?_⟩
  have hok : (writeTool binding {} ["temporary"] docsFiles arguments).isOk = true := by decide +kernel
  cases hcall : writeTool binding {} ["temporary"] docsFiles arguments with
  | error error => cases hcall ▸ hok
  | ok out =>
    obtain ⟨content,hcontent⟩ := hwrites binding {} _ docsFiles out.1 out.2 (.inl hcall)
    exact ⟨out.1,out.2,content,rfl,hcontent⟩

theorem plain_policy (h : Plain value parts) :
    policyParts (some (.str value)) false = some parts := by
  unfold policyParts
  simp [h.nonempty, h.nul, h.dot, h.relative, h.drive, h.split, h.dots, h.pure]

theorem letters_plain {n : ℕ} (hvalue : value = String.ofList (List.replicate (n+2) 'a')) :
    Plain value [value] := by
  have hlist : value.toList = List.replicate (n+2) 'a' := by rw [hvalue, String.toList_ofList]
  have hcons : value.toList = 'a' :: 'a' :: List.replicate n 'a' := by
    rw [hlist, List.replicate_succ, List.replicate_succ]
  have hportable : portable value = value := by
    rw [portable, hlist, List.map_replicate, hvalue]
    rfl
  have hne : value ≠ "" ∧ value ≠ "." ∧ value ≠ ".." := by
    refine ⟨?_,?_,?_⟩ <;>
    · intro h
      have hhead := congrArg (fun s => s.toList.head?) h
      rw [hcons, List.head?_cons] at hhead
      exact absurd hhead (by decide)
  have hsplit : splitSlash (portable value) = [value] := by
    rw [hportable, splitSlash, List.splitOn, List.splitOnP_eq_singleton, List.map_singleton,
      String.ofList_toList]
    intro c hc
    rw [hlist] at hc
    rw [List.eq_of_mem_replicate hc]
    decide
  refine ⟨hne.1,?_,?_,?_,?_,hsplit,?_,?_⟩
  · rw [hasNul, hlist, Bool.eq_false_iff, ne_eq, List.contains_iff_mem]
    intro hmem
    exact absurd (List.eq_of_mem_replicate hmem) (by decide)
  · rw [hportable]
    exact hne.2.1
  · rw [hportable, startsWithSlash, hcons]
    rfl
  · rw [hportable, hasDrive, hcons]
    rfl
  · simp [isDots, hne]
  · rw [purePosixParts, hsplit, hportable, hcons]
    simp [hne]

/-- A path of more than 4096 characters that every parser but the tool's reads. -/
theorem long_path_refused_by_tool_only :
    let value := String.ofList (List.replicate 4097 'a')
    evaluate [rootRule] "feishu" writeIdentity writeSpec (.obj [("path",.str value)]) = .allow ∧
      relativePath (some (.str value)) false =
        .error (.valueError "path must be a bounded NUL-free string") ∧
      segments value false = .ok [value] ∧ logicalCandidate [] value = .ok [value] := by
  intro value
  have hplain : Plain value [value] := letters_plain rfl
  have hlength : 4096 < value.toList.length := by
    rw [String.toList_ofList, List.length_replicate]
    decide
  have hpath : (Json.obj [("path",.str value)]).get? "path" = some (.str value) := by
    simp [Json.get?]
  refine ⟨?_,?_,plain_segments hplain false,plain_candidate hplain []⟩
  · have hpermits : rootRule.permits (spaceArgument (.obj [("path",.str value)]))
        (some (.str value)) = true := by
      rw [WorkspaceWriteRule.permits, plain_policy hplain]
      simp [spaceArgument, Json.get?]
      decide +kernel
    unfold evaluate
    simp only [List.any_cons, hpath, hpermits]
    decide +kernel
  · rw [plain_relative hplain, if_pos hlength]

end SuiteHarness.Workspace
