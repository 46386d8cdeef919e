import SuiteHarness.Library.Framing
import SuiteHarness.Library.Results
import SuiteHarness.Library.Sorting

/-!
# Artifact digests

`deterministic_directory_digest` over what a walk of the artifact meets, in any
order. Files do not change while they are read, so a file's size is the length
of its content. A digest is the byte string that is hashed.
-/

set_option autoImplicit false

namespace SuiteHarness.Plugins
open SuiteHarness.Library

inductive ArtifactEntry where
  | unreadable (path : String)
  | directory (path : String) (symlink : Bool)
  /-- The content of a regular file; a link or a special file has none. -/
  | file (path : String) (content : Option (List UInt8))
  deriving DecidableEq

def ArtifactEntry.filePath : ArtifactEntry → Option String
  | .file path _ => some path
  | _ => none

structure Artifact where
  /-- The root is a directory and no link. -/
  realDirectory : Bool
  entries : List ArtifactEntry
  distinct : (entries.filterMap ArtifactEntry.filePath).Nodup

inductive DigestError where
  | invalidSource (message : String)
  | overflow
  deriving DecidableEq

structure DigestLimits where
  manifestName : String := "suiteharness-plugin.json"
  maxFiles : ℕ := 10000
  maxBytes : ℕ := 512*1024*1024

structure Sha256 where
  data : List UInt8
  deriving DecidableEq

def encodeUtf8 (text : String) : List UInt8 := text.toUTF8.data.toList

def toBytes (n : ℕ) : Except DigestError (List UInt8) :=
  if n < 256^8 then .ok (bigEndian 8 n) else .error .overflow

def collectFiles (manifestName : String) :
    List ArtifactEntry → Except DigestError (List (String × List UInt8))
  | [] => .ok []
  | .unreadable _::_ => .error (.invalidSource "plugin artifact could not be read completely")
  | .directory _ symlink::rest =>
    if symlink then .error (.invalidSource "plugin artifacts must not contain symbolic links")
    else collectFiles manifestName rest
  | .file path content::rest =>
    if path = manifestName then collectFiles manifestName rest
    else match content with
      | none => .error (.invalidSource "plugin artifacts may contain regular files only")
      | some bytes => (collectFiles manifestName rest).map (fun files => (path,bytes)::files)

def hashFiles (maxBytes : ℕ) : ℕ → List (String × List UInt8) → Except DigestError (List UInt8)
  | _, [] => .ok []
  | total, (path,content)::rest =>
    if maxBytes < total+content.length then
      .error (.invalidSource "plugin artifact exceeds the byte limit")
    else do
      let nameLength ← toBytes (encodeUtf8 path).length
      let size ← toBytes content.length
      let more ← hashFiles maxBytes (total+content.length) rest
      pure (nameLength ++ encodeUtf8 path ++ (size ++ content) ++ more)

def digestDomain : List UInt8 := encodeUtf8 "suiteharness-plugin-directory-v1" ++ [0]

def deterministicDirectoryDigest (limits : DigestLimits) (a : Artifact) :
    Except DigestError Sha256 :=
  if !a.realDirectory then
    .error (.invalidSource "plugin source must be a real directory, not a symlink")
  else do
    let files ← collectFiles limits.manifestName a.entries
    let files := sortBy Prod.fst files
    if limits.maxFiles < files.length then
      .error (.invalidSource "plugin artifact exceeds the file-count limit")
    else
      let bytes ← hashFiles limits.maxBytes 0 files
      pure ⟨digestDomain ++ bytes⟩

/-! What is hashed. -/

theorem encode_utf8_inj {a b : String} (h : encodeUtf8 a = encodeUtf8 b) : a = b := by
  apply String.toByteArray_inj.mp
  apply ByteArray.ext
  exact Array.toList_inj.mp h

def sizes (files : List (String × List UInt8)) : ℕ := (files.map (fun f => f.2.length)).sum

def Framed (f : String × List UInt8) : Prop :=
  (encodeUtf8 f.1).length < 256^8 ∧ f.2.length < 256^8

def encodeFile (f : String × List UInt8) : List UInt8 × List UInt8 := (encodeUtf8 f.1,f.2)

theorem to_bytes_ok (n : ℕ) (bytes : List UInt8) :
    toBytes n = .ok bytes ↔ n < 256^8 ∧ bytes = bigEndian 8 n := by
  rw [toBytes]
  by_cases hlt : n < 256^8
  · rw [if_pos hlt, Except.ok.injEq, eq_comm]
    exact (and_iff_right hlt).symm
  · rw [if_neg hlt]
    exact iff_of_false nofun (fun h => hlt h.1)

theorem hash_files_ok (maxBytes total : ℕ) (files : List (String × List UInt8))
    (bytes : List UInt8) (htotal : total ≤ maxBytes) :
    hashFiles maxBytes total files = .ok bytes ↔
      total+sizes files ≤ maxBytes ∧ (∀ f ∈ files, Framed f) ∧
        bytes = framedPairs 8 (files.map encodeFile) := by
  induction files generalizing total bytes with
  | nil =>
    rw [hashFiles, Except.ok.injEq, eq_comm]
    exact ⟨fun h => ⟨htotal,nofun,h⟩,fun h => h.2.2⟩
  | cons f rest ih =>
    obtain ⟨path,content⟩ := f
    have hsizes : sizes ((path,content)::rest) = content.length+sizes rest := by
      rw [sizes, List.map_cons, List.sum_cons, sizes]
    rw [hashFiles, hsizes]
    by_cases hover : maxBytes < total+content.length
    · rw [if_pos hover]
      exact iff_of_false nofun (fun h => by omega)
    · rw [if_neg hover]
      have hnext := ih (total+content.length)
      constructor
      · intro h
        obtain ⟨nameLength,hname,h⟩ := Results.bind_ok h
        obtain ⟨size,hsize,h⟩ := Results.bind_ok h
        obtain ⟨more,hmore,h⟩ := Results.bind_ok h
        obtain ⟨hnameFits,rfl⟩ := (to_bytes_ok _ _).mp hname
        obtain ⟨hsizeFits,rfl⟩ := (to_bytes_ok _ _).mp hsize
        obtain ⟨hrest,hframed,rfl⟩ := (hnext more (not_lt.mp hover)).mp hmore
        cases h
        refine ⟨by omega,?_,rfl⟩
        intro f hf
        rcases List.mem_cons.mp hf with rfl | hf
        · exact ⟨hnameFits,hsizeFits⟩
        · exact hframed f hf
      · rintro ⟨hbytes,hframed,rfl⟩
        have hfirst := hframed _ List.mem_cons_self
        rw [(to_bytes_ok _ _).mpr ⟨hfirst.1,rfl⟩, (to_bytes_ok _ _).mpr ⟨hfirst.2,rfl⟩,
          (hnext _ (not_lt.mp hover)).mpr ⟨by omega,
            fun f hf => hframed f (List.mem_cons_of_mem _ hf),rfl⟩]
        rfl

variable (manifestName : String)

def ArtifactEntry.Regular : ArtifactEntry → Prop
  | .unreadable _ => False
  | .directory _ symlink => symlink = false
  | .file path content => path = manifestName ∨ content.isSome = true

def hashedFile : ArtifactEntry → Option (String × List UInt8)
  | .file path (some content) => if path = manifestName then none else some (path,content)
  | _ => none

theorem collect_files_ok (entries : List ArtifactEntry) (files : List (String × List UInt8)) :
    collectFiles manifestName entries = .ok files ↔
      (∀ e ∈ entries, e.Regular manifestName) ∧ files = entries.filterMap (hashedFile manifestName) := by
  induction entries generalizing files with
  | nil =>
    rw [collectFiles, Except.ok.injEq, eq_comm]
    exact ⟨fun h => ⟨nofun,h⟩,fun h => h.2⟩
  | cons e rest ih =>
    rw [List.forall_mem_cons]
    cases e with
    | unreadable path =>
      rw [collectFiles]
      exact iff_of_false nofun (fun h => h.1.1)
    | directory path symlink =>
      cases symlink with
      | true =>
        rw [collectFiles, if_pos rfl]
        exact iff_of_false nofun (fun h => nomatch h.1.1)
      | false =>
        rw [collectFiles, if_neg Bool.false_ne_true, ih]
        exact ⟨fun h => ⟨⟨rfl,h.1⟩,h.2⟩,fun h => ⟨h.1.2,h.2⟩⟩
    | file path content =>
      unfold collectFiles
      by_cases hmanifest : path = manifestName
      · rw [if_pos hmanifest, ih]
        have hskip : hashedFile manifestName (.file path content) = none := by
          cases content with
          | none => rfl
          | some bytes => rw [hashedFile, if_pos hmanifest]
        rw [List.filterMap_cons_none hskip]
        exact ⟨fun h => ⟨⟨Or.inl hmanifest,h.1⟩,h.2⟩,fun h => ⟨h.1.2,h.2⟩⟩
      · rw [if_neg hmanifest]
        cases content with
        | none => exact iff_of_false nofun (fun h => h.1.1.elim hmanifest nofun)
        | some bytes =>
          have htake : hashedFile manifestName (.file path (some bytes)) = some (path,bytes) := by
            rw [hashedFile, if_neg hmanifest]
          rw [List.filterMap_cons_some htake]
          constructor
          · intro h
            obtain ⟨more,hmore,rfl⟩ := Results.map_ok h
            obtain ⟨hrest,rfl⟩ := (ih more).mp hmore
            exact ⟨⟨Or.inr rfl,hrest⟩,rfl⟩
          · rintro ⟨⟨-,hrest⟩,rfl⟩
            rw [(ih _).mpr ⟨hrest,rfl⟩]
            rfl

def Artifact.files (a : Artifact) : List (String × List UInt8) :=
  a.entries.filterMap (hashedFile manifestName)

structure Artifact.Accepted (limits : DigestLimits) (a : Artifact) : Prop where
  realDirectory : a.realDirectory = true
  regular : ∀ e ∈ a.entries, e.Regular limits.manifestName
  count : (a.files limits.manifestName).length ≤ limits.maxFiles
  bytes : sizes (a.files limits.manifestName) ≤ limits.maxBytes
  framed : ∀ f ∈ a.files limits.manifestName, Framed f

theorem digest_ok (limits : DigestLimits) (a : Artifact) (d : Sha256) :
    deterministicDirectoryDigest limits a = .ok d ↔ a.Accepted limits ∧
      d = ⟨digestDomain ++ framedPairs 8
        ((sortBy Prod.fst (a.files limits.manifestName)).map encodeFile)⟩ := by
  have hperm := sort_by_perm Prod.fst (a.files limits.manifestName)
  have hsizes : sizes (sortBy Prod.fst (a.files limits.manifestName)) =
      sizes (a.files limits.manifestName) := (hperm.map _).sum_eq
  rw [deterministicDirectoryDigest]
  constructor
  · intro h
    obtain ⟨hreal,h⟩ := Results.guard_ok h
    obtain ⟨files,hfiles,h⟩ := Results.bind_ok h
    obtain ⟨hregular,rfl⟩ := (collect_files_ok _ _ _).mp hfiles
    obtain ⟨hcount,h⟩ := Results.guard_ok h
    obtain ⟨bytes,hbytes,h⟩ := Results.bind_ok h
    obtain ⟨htotal,hframed,rfl⟩ := (hash_files_ok _ _ _ _ (Nat.zero_le _)).mp hbytes
    cases h
    refine ⟨⟨by simpa using hreal,hregular,?_,?_,?_⟩,rfl⟩
    · exact hperm.length_eq ▸ not_lt.mp hcount
    · rw [Nat.zero_add] at htotal
      exact hsizes ▸ htotal
    · exact fun f hf => hframed f (hperm.mem_iff.mpr hf)
  · rintro ⟨haccepted,rfl⟩
    have hcount : ¬limits.maxFiles < (sortBy Prod.fst (a.files limits.manifestName)).length :=
      not_lt.mpr (hperm.length_eq.symm ▸ haccepted.count)
    have hhash := (hash_files_ok limits.maxBytes 0 (sortBy Prod.fst (a.files limits.manifestName)) _
      (Nat.zero_le _)).mpr ⟨by rw [Nat.zero_add, hsizes]; exact haccepted.bytes,
        fun f hf => haccepted.framed f (hperm.mem_iff.mp hf),rfl⟩
    rw [if_neg (by rw [haccepted.realDirectory]; decide),
      (collect_files_ok _ _ _).mpr ⟨haccepted.regular,rfl⟩]
    show (if limits.maxFiles < (sortBy Prod.fst (a.files limits.manifestName)).length then _
      else hashFiles limits.maxBytes 0 (sortBy Prod.fst (a.files limits.manifestName)) >>= _) = _
    rw [if_neg hcount, hhash]
    rfl

theorem mem_files (a : Artifact) (path : String) (content : List UInt8) :
    (path,content) ∈ a.files manifestName ↔
      path ≠ manifestName ∧ .file path (some content) ∈ a.entries := by
  rw [Artifact.files, List.mem_filterMap]
  constructor
  · rintro ⟨e,he,hfile⟩
    cases e with
    | unreadable => cases hfile
    | directory => cases hfile
    | file path' content' =>
      cases content' with
      | none => cases hfile
      | some bytes =>
        rw [hashedFile] at hfile
        split at hfile
        · cases hfile
        · rename_i hne
          cases hfile
          exact ⟨hne,he⟩
  · rintro ⟨hne,he⟩
    exact ⟨_,he,by rw [hashedFile, if_neg hne]⟩

theorem files_nodup (a : Artifact) : ((a.files manifestName).map Prod.fst).Nodup := by
  have hsub : ∀ entries : List ArtifactEntry,
      ((entries.filterMap (hashedFile manifestName)).map Prod.fst).Sublist
        (entries.filterMap ArtifactEntry.filePath) := by
    intro entries
    induction entries with
    | nil => exact List.Sublist.refl _
    | cons e rest ih =>
      cases e with
      | unreadable => exact ih
      | directory => exact ih
      | file path content =>
        cases content with
        | none => exact ih.cons _
        | some bytes =>
          by_cases hmanifest : path = manifestName
          · rw [List.filterMap_cons_none (by rw [hashedFile, if_pos hmanifest])]
            exact ih.cons _
          · rw [List.filterMap_cons_some (b := (path,bytes)) (by rw [hashedFile, if_neg hmanifest])]
            exact ih.cons_cons _
  exact a.distinct.sublist (hsub a.entries)

def SameFiles (a b : Artifact) : Prop :=
  ∀ path content, path ≠ manifestName →
    (ArtifactEntry.file path (some content) ∈ a.entries ↔
      ArtifactEntry.file path (some content) ∈ b.entries)

theorem same_files_perm (a b : Artifact) :
    SameFiles manifestName a b ↔ (a.files manifestName).Perm (b.files manifestName) := by
  rw [List.perm_ext_iff_of_nodup (files_nodup manifestName a).of_map
    (files_nodup manifestName b).of_map]
  constructor
  · rintro h ⟨path,content⟩
    rw [mem_files, mem_files]
    exact and_congr_right fun hne => h path content hne
  · intro h path content hne
    have hmem := h (path,content)
    rw [mem_files, mem_files] at hmem
    simpa [hne] using hmem

/-- An artifact has a digest when it is a tree of regular files within the
limits, and two artifacts have the same one when they have the same files. -/
theorem artifact_digest_identifies (limits : DigestLimits) (a b : Artifact) :
    ((∃ d, deterministicDirectoryDigest limits a = .ok d) ↔ a.Accepted limits) ∧
    ((∃ d, deterministicDirectoryDigest limits a = .ok d ∧
        deterministicDirectoryDigest limits b = .ok d) ↔
      a.Accepted limits ∧ b.Accepted limits ∧ SameFiles limits.manifestName a b) := by
  refine ⟨⟨fun ⟨d,hd⟩ => ((digest_ok limits a d).mp hd).1,
    fun h => ⟨_,(digest_ok limits a _).mpr ⟨h,rfl⟩⟩⟩,?_⟩
  constructor
  · rintro ⟨d,hd,hd'⟩
    obtain ⟨ha,rfl⟩ := (digest_ok limits a d).mp hd
    obtain ⟨hb,hsame⟩ := (digest_ok limits b _).mp hd'
    have hperm := sort_by_perm Prod.fst (a.files limits.manifestName)
    have hperm' := sort_by_perm Prod.fst (b.files limits.manifestName)
    have hframed : ∀ {c : Artifact}, c.Accepted limits →
        ∀ r ∈ (sortBy Prod.fst (c.files limits.manifestName)).map encodeFile,
          r.1.length < 256^8 ∧ r.2.length < 256^8 := by
      intro c hc r hr
      obtain ⟨f,hf,rfl⟩ := List.mem_map.mp hr
      exact hc.framed f ((sort_by_perm _ _).mem_iff.mp hf)
    have hrecords := framed_pairs_inj (by decide) (hframed ha) (hframed hb)
      (List.append_cancel_left (Sha256.mk.inj hsame))
    have hinj : Function.Injective encodeFile := by
      intro f f' heq
      obtain ⟨hpath,hcontent⟩ := Prod.mk.inj heq
      exact Prod.ext (encode_utf8_inj hpath) hcontent
    have hsorted := List.map_injective_iff.mpr hinj hrecords
    exact ⟨ha,hb,(same_files_perm _ a b).mpr (hperm.symm.trans (hsorted ▸ hperm'))⟩
  · rintro ⟨ha,hb,hsame⟩
    have hsorted := sort_by_of_perm Prod.fst ((same_files_perm _ a b).mp hsame)
      (files_nodup limits.manifestName b)
    exact ⟨_,(digest_ok limits a _).mpr ⟨ha,rfl⟩,(digest_ok limits b _).mpr ⟨hb,by rw [hsorted]⟩⟩

end SuiteHarness.Plugins
