import SuiteHarness.Sandbox.Protocol

/-!
# What a broker policy accepts

`BrokerPolicy.decode` turns a decoded JSON value into a request. Host paths are
resolved in a directory layout; a mount is matched against the policy's roots in
their order, where only the container path and the real host path count.
-/

set_option autoImplicit false

namespace SuiteHarness.Sandbox
open SuiteHarness.Library SuiteHarness.Library.Results SuiteHarness.Workspace

def properName (name : String) : Prop := name ≠ "" ∧ name ≠ "." ∧ '/' ∉ name.toList

structure Layout where
  isSymlink : List String → Bool
  /-- `path.resolve(strict=True)`. -/
  resolve : List String → Option (List String)
  isDir : List String → Bool
  real : ∀ path target, resolve path = some target →
    ∃ names, target = "/"::names ∧ ∀ name ∈ names, properName name

def safeDirectory (layout : Layout) (path : List String) : Except SandboxError (List String) :=
  if !(isAbsolute path) || path.contains ".." then
    refuse "workspace path must be normalized and absolute"
  else if path.inits.tail.any layout.isSymlink then
    refuse "symlink workspace paths are forbidden"
  else match layout.resolve path with
    | none => refuse "workspace directory unavailable"
    | some resolved => if !(layout.isDir resolved) then
        refuse "workspace path must be a directory" else .ok resolved

structure BrokerPolicy where
  /-- Container paths with the host directories they stand for. -/
  roots : List (String × List String)
  limits : SandboxLimits
  allowedProfiles : List String
  nameSpace : String := "broker"

variable (floats : String → Option ℚ) (layout : Layout) (policy : BrokerPolicy)

def decodeArgv (value : Json) : Except SandboxError (List String) :=
  match value with
  | .arr items => if items.length < 1 ∨ 256 < items.length then refuse "invalid argv"
    else items.mapM string
  | _ => refuse "invalid argv"

def decodeEnvironment (value : Json) : Except SandboxError (List (String × String)) :=
  match value with
  | .obj entries =>
    if 128 < entries.length then refuse "invalid environment"
    else do
      let environment ← entries.mapM (fun e => do
        let key ← string (.str e.1) 128
        let text ← string e.2
        pure (key,text))
      if environment ≠ [] then refuse "broker does not accept host environment overlays"
      else .ok environment
  | _ => refuse "invalid environment"

def exceeded {α : Type} : Except SandboxError α :=
  refuse "sandbox resource ceiling exceeded or malformed"

def checkInt (value : Json) (maximum : ℤ) : Except SandboxError ℤ :=
  match value with
  | .int n => if (2 : ℤ)^1024-2^970 ≤ n.natAbs then .error .overflow
    else if maximum < n then exceeded else .ok n
  | _ => exceeded

def checkNumber (value : Json) (maximum : Option ℚ) : Except SandboxError Number :=
  match value with
  | .int n => if (2 : ℤ)^1024-2^970 ≤ n.natAbs then .error .overflow
    else if maximum.all (fun m => decide (m < (n : ℚ))) then exceeded else .ok (.int n)
  | .float r => match floats r with
    | none => exceeded
    | some q => if maximum.all (fun m => decide (m < q)) then exceeded else .ok (.float r)
  | _ => exceeded

def decodeLimits (persistent : Bool) (value : Json) : Except SandboxError SandboxLimits := do
  fields value ["cpu_count","memory_mb","pids","timeout_seconds","output_bytes","tmpfs_mb"]
  let cpuCount ← checkNumber floats (field value "cpu_count") (policy.limits.cpuCount.value floats)
  let memoryMb ← checkInt (field value "memory_mb") policy.limits.memoryMb
  let pids ← checkInt (field value "pids") policy.limits.pids
  -- The lifetime of a persistent process, not the deadline of one command.
  let timeoutSeconds ← checkNumber floats (field value "timeout_seconds")
    (if persistent then some 86400 else policy.limits.timeoutSeconds.value floats)
  let outputBytes ← checkInt (field value "output_bytes") policy.limits.outputBytes
  let tmpfsMb ← checkInt (field value "tmpfs_mb") policy.limits.tmpfsMb
  let limits ← SandboxLimits.construct floats
    ⟨cpuCount,memoryMb,pids,timeoutSeconds,outputBytes,tmpfsMb⟩
  if maxOutputBytes < limits.outputBytes then refuse "sandbox output exceeds protocol ceiling"
  else .ok limits

def decodeNetwork (value : Json) : Except SandboxError SandboxNetworkPolicy := do
  fields value ["mode","egress_profile"]
  match field value "mode", field value "egress_profile" with
  | .str "none", .null => .ok .none
  | .str "egress_profile", .str profile =>
    if profile ∈ policy.allowedProfiles then SandboxNetworkPolicy.egress profile
    else refuse "network policy denied"
  | _, _ => refuse "network policy denied"

def matchRoots (persistent : Bool) (host target : List String) (readOnly : Json) :
    List (String × List String) → Except SandboxError Bool
  | [] => .ok false
  | (containerRoot,hostRoot)::rest => do
    let root ← safeDirectory layout hostRoot
    if persistent = true ∧ containerRoot = "/workspace/product" ∧ target = workspace ∧
        host = root ∧ readOnly = .bool true then .ok true
    else if isRelativeTo target (purePosixParts containerRoot) = true ∧
        isRelativeTo host root = true ∧
        relativeText host root = relativeText target (purePosixParts containerRoot) then .ok true
    else matchRoots persistent host target readOnly rest

def decodeMount (persistent : Bool) (mount : Json) : Except SandboxError SandboxMount := do
  fields mount ["host_path","container_path","read_only"]
  let hostText ← string (field mount "host_path") 4096
  let host ← safeDirectory layout (purePosixParts hostText)
  let container ← string (field mount "container_path") 4096
  let target := purePosixParts container
  if target.contains ".." ∨ pathText target ≠ container then refuse "invalid container path"
  else
    let matched ← matchRoots layout persistent host target (field mount "read_only") policy.roots
    if matched then do
      let readOnly ← boolean (field mount "read_only")
      SandboxMount.construct layout.isDir ⟨host,pathText target,readOnly⟩
    else refuse "mount is outside this product workspace"

def decodeMounts (persistent : Bool) (value : Json) : Except SandboxError (List SandboxMount) :=
  match value with
  | .arr items => if items.length < 1 ∨ 64 < items.length then refuse "invalid mount count"
    else items.mapM (decodeMount layout policy persistent)
  | _ => refuse "invalid mount count"

def persistentShape (mounts : List SandboxMount) (stdin : Json) : Bool :=
  match mounts with
  | [m] => m.containerPath = "/workspace" && m.readOnly && decide (stdin = .null)
  | _ => false

def requestNames : List String :=
  ["request_id","argv","mounts","working_directory","environment","stdin","limits","network"]

def decodeStdin (value : Json) : Except SandboxError (Option (List UInt8)) :=
  match value with
  | .null => .ok none
  | value => (unbytes value maxStdinBytes).map some

def BrokerPolicy.decode (data : Json) (persistent : Bool := false) :
    Except SandboxError SandboxRequest := do
  fields data requestNames
  boundedJson data maxRequestBytes
  let argv ← decodeArgv (field data "argv")
  let environment ← decodeEnvironment (field data "environment")
  let limits ← decodeLimits floats policy persistent (field data "limits")
  let network ← decodeNetwork policy (field data "network")
  let mounts ← decodeMounts layout policy persistent (field data "mounts")
  if persistent = true ∧ persistentShape mounts (field data "stdin") = false then
    refuse "persistent MCP sessions require one read-only product mount and no initial stdin"
  else
    let requestId ← string (field data "request_id") 128
    let workingDirectory ← string (field data "working_directory") 4096
    let stdin ← decodeStdin (field data "stdin")
    SandboxRequest.construct
      ⟨requestId,argv,mounts,workingDirectory,environment,stdin,limits,network⟩

/-! Joined names can be told apart, so equal relative texts are equal paths. -/

theorem mem_split {c : Char} {text : List Char} {part : List Char} (h : part ∈ text.splitOn c) :
    c ∉ part := by
  induction text generalizing part with
  | nil =>
    rw [List.splitOn_nil, List.mem_singleton] at h
    rw [h]
    exact List.not_mem_nil
  | cons d text ih =>
    rw [List.splitOn_cons_eq_if_modifyHead] at h
    split at h
    · rcases List.mem_cons.mp h with rfl | hpart
      · exact List.not_mem_nil
      · exact ih hpart
    · rename_i hd
      cases hsplit : text.splitOn c with
      | nil => exact absurd hsplit (List.splitOn_ne_nil c text)
      | cons front back =>
        rw [hsplit, List.modifyHead_cons, List.mem_cons] at h
        rcases h with rfl | hpart
        · rw [List.mem_cons, not_or]
          exact ⟨fun heq => hd (by rw [heq, beq_self_eq_true]),ih (hsplit ▸ List.mem_cons_self)⟩
        · exact ih (hsplit ▸ List.mem_cons_of_mem _ hpart)

theorem pure_parts_proper (text : String) :
    ∃ root names, purePosixParts text = root++names ∧ (∀ name ∈ names, properName name) ∧
      (root = [] ∨ root = ["/"] ∨ root = ["//"]) := by
  refine ⟨_,(splitSlash text).filter (fun part => !(["","."].contains part)),rfl,?_,?_⟩
  · intro name hname
    rw [List.mem_filter] at hname
    obtain ⟨hmem,hdots⟩ := hname
    obtain ⟨chars,hchars,rfl⟩ := List.mem_map.mp hmem
    simp only [List.contains_cons, List.contains_nil, Bool.or_false, Bool.not_eq_true',
      Bool.or_eq_false_iff, beq_eq_false_iff_ne] at hdots
    exact ⟨hdots.1,hdots.2,by rw [String.toList_ofList]; exact mem_split hchars⟩
  · split <;> simp

theorem split_joined {names : List String} (h : ∀ name ∈ names, properName name)
    (hne : names ≠ []) : ("/".intercalate names).toList.splitOn '/' = names.map String.toList := by
  rw [String.toList_intercalate]
  apply List.splitOn_intercalate
  · intro part hpart
    obtain ⟨name,hname,rfl⟩ := List.mem_map.mp hpart
    exact (h name hname).2.2
  · simpa using hne

theorem joined_inj {names names' : List String} (h : ∀ name ∈ names, properName name)
    (h' : ∀ name ∈ names', properName name) (hne : names ≠ []) (hne' : names' ≠ [])
    (heq : "/".intercalate names = "/".intercalate names') : names = names' := by
  have hlists : names.map String.toList = names'.map String.toList := by
    rw [← split_joined h hne, ← split_joined h' hne', heq]
  exact (List.map_injective_iff.mpr (fun s t => String.toList_inj.mp)) hlists

theorem joined_ne_dot {names : List String} (h : ∀ name ∈ names, properName name)
    (hne : names ≠ []) : "/".intercalate names ≠ "." := by
  intro heq
  have hsplit := split_joined h hne
  rw [heq, show ".".toList.splitOn '/' = [".".toList] by decide] at hsplit
  cases names with
  | nil => exact hne rfl
  | cons a rest =>
    have hdot := (List.cons.inj hsplit).1
    exact (h a List.mem_cons_self).2.1 (String.toList_inj.mp hdot.symm)

theorem relative_text_inj {path base path' base' : List String}
    (h : ∀ name ∈ path.drop base.length, properName name)
    (h' : ∀ name ∈ path'.drop base'.length, properName name)
    (heq : relativeText path base = relativeText path' base') :
    path.drop base.length = path'.drop base'.length := by
  unfold relativeText at heq
  dsimp only at heq
  split at heq <;> split at heq
  · rename_i hnil hnil'
    rw [hnil, hnil']
  · rename_i hne'
    exact absurd heq.symm (joined_ne_dot h' hne')
  · rename_i hne _
    exact absurd heq (joined_ne_dot h hne)
  · rename_i hne hne'
    exact joined_inj h h' hne hne' heq

/-! What the decoding functions accept. -/

variable {layout policy} {persistent : Bool}

theorem safe_directory_ok {path root : List String} (h : safeDirectory layout path = .ok root) :
    layout.isDir root = true ∧ ∃ names, root = "/"::names ∧ ∀ name ∈ names, properName name := by
  obtain ⟨-,h⟩ := guard_ok h
  obtain ⟨-,h⟩ := guard_ok h
  cases hresolve : layout.resolve path with
  | none =>
    rw [hresolve] at h
    cases h
  | some resolved =>
    rw [hresolve] at h
    obtain ⟨hdir,h⟩ := guard_ok h
    cases h
    exact ⟨by simpa using hdir,layout.real path root hresolve⟩

variable (layout) in
def WithinRoot (policy : BrokerPolicy) (host target : List String) : Prop :=
  ∃ containerRoot hostRoot root relative, (containerRoot,hostRoot) ∈ policy.roots ∧
    safeDirectory layout hostRoot = .ok root ∧ host = root++relative ∧
    target = purePosixParts containerRoot++relative

variable (layout) in
def ProductRoot (policy : BrokerPolicy) (host target : List String) : Prop :=
  ∃ hostRoot, ("/workspace/product",hostRoot) ∈ policy.roots ∧
    safeDirectory layout hostRoot = .ok host ∧ target = workspace

theorem prefix_append_drop {path base : List String} (h : isRelativeTo path base = true) :
    path = base++path.drop base.length := by
  rw [isRelativeTo, Bool.and_eq_true, List.isPrefixOf_iff_prefix] at h
  obtain ⟨rest,rfl⟩ := h.1
  rw [List.drop_left]

theorem relative_proper {text : String} {base : List String}
    (h : isRelativeTo (purePosixParts text) base = true) :
    ∀ name ∈ (purePosixParts text).drop base.length, properName name := by
  obtain ⟨root,names,hparts,hproper,hroot⟩ := pure_parts_proper text
  rw [isRelativeTo, Bool.and_eq_true, List.isPrefixOf_iff_prefix] at h
  rw [hparts] at h ⊢
  -- A base that is not empty covers the root; an empty one is no parent of an absolute path.
  have hcovers : root.length ≤ base.length := by
    rcases hroot with rfl | rfl | rfl
    · exact Nat.zero_le _
    · cases base with
      | nil => simp [isAbsolute] at h
      | cons b base => simp
    · cases base with
      | nil => simp [isAbsolute] at h
      | cons b base => simp
  intro name hname
  rw [List.drop_append, List.drop_eq_nil_of_le hcovers, List.nil_append] at hname
  exact hproper name (List.mem_of_mem_drop hname)

theorem match_roots_ok {host : List String} {text : String} {readOnly : Json}
    {roots : List (String × List String)} (hroots : ∀ r ∈ roots, r ∈ policy.roots)
    (hhost : ∃ names, host = "/"::names ∧ ∀ name ∈ names, properName name)
    (h : matchRoots layout persistent host (purePosixParts text) readOnly roots = .ok true) :
    WithinRoot layout policy host (purePosixParts text) ∨
      (persistent = true ∧ ProductRoot layout policy host (purePosixParts text) ∧
        readOnly = .bool true) := by
  induction roots with
  | nil => cases h
  | cons r roots ih =>
    obtain ⟨containerRoot,hostRoot⟩ := r
    have hmem := hroots _ List.mem_cons_self
    rw [matchRoots] at h
    obtain ⟨root,hroot,h⟩ := bind_ok h
    split_ifs at h with hspecial hgeneral
    · obtain ⟨hpersistent,rfl,htarget,rfl,hread⟩ := hspecial
      exact .inr ⟨hpersistent,⟨hostRoot,hmem,hroot,htarget⟩,hread⟩
    · obtain ⟨htarget,hinside,htext⟩ := hgeneral
      refine .inl ⟨containerRoot,hostRoot,root,host.drop root.length,hmem,hroot,
        prefix_append_drop hinside,?_⟩
      have hdrop : host.drop root.length =
          (purePosixParts text).drop (purePosixParts containerRoot).length := by
        apply relative_text_inj _ (relative_proper htarget) htext
        obtain ⟨names,rfl,hnames⟩ := hhost
        obtain ⟨-,names',rfl,-⟩ := safe_directory_ok hroot
        intro name hname
        rw [List.length_cons, List.drop_succ_cons] at hname
        exact hnames name (List.mem_of_mem_drop hname)
      rw [hdrop]
      exact prefix_append_drop htarget
    · exact ih (fun r hr => hroots r (List.mem_cons_of_mem _ hr)) h

structure MountAllowed (layout : Layout) (policy : BrokerPolicy) (persistent : Bool)
    (m : SandboxMount) : Prop where
  directory : layout.isDir m.hostPath = true
  place : WithinRoot layout policy m.hostPath (purePosixParts m.containerPath) ∨
    (persistent = true ∧ m.readOnly = true ∧ m.containerPath = "/workspace" ∧
      ProductRoot layout policy m.hostPath (purePosixParts m.containerPath))

theorem decode_mount_ok {mount : Json} {m : SandboxMount}
    (h : decodeMount layout policy persistent mount = .ok m) :
    MountAllowed layout policy persistent m := by
  obtain ⟨_,-,h⟩ := bind_ok h
  obtain ⟨hostText,-,h⟩ := bind_ok h
  obtain ⟨host,hhost,h⟩ := bind_ok h
  obtain ⟨container,-,h⟩ := bind_ok h
  obtain ⟨hnormal,h⟩ := guard_ok h
  obtain ⟨matched,hmatched,h⟩ := bind_ok h
  cases matched with
  | false => cases h
  | true =>
    obtain ⟨readOnly,hread,h⟩ := bind_ok h
    obtain ⟨-,h⟩ := guard_ok h
    obtain ⟨-,h⟩ := guard_ok h
    obtain ⟨-,h⟩ := guard_ok h
    obtain ⟨_,-,rfl⟩ := map_ok h
    obtain ⟨hdir,hnames⟩ := safe_directory_ok hhost
    have htext : pathText (purePosixParts container) = container :=
      not_not.mp (not_or.mp hnormal).2
    have hplace := match_roots_ok (fun _ hr => hr) hnames hmatched
    rw [htext]
    refine ⟨hdir,?_⟩
    rcases hplace with hwithin | ⟨hpersistent,hproduct,hreadOnly⟩
    · exact .inl hwithin
    · rw [hreadOnly] at hread
      cases hread
      obtain ⟨hostRoot,hmem,hroot,htarget⟩ := hproduct
      have hworkspace : container = "/workspace" := by
        rw [← htext, htarget]
        decide
      exact .inr ⟨hpersistent,rfl,hworkspace,⟨hostRoot,hmem,hroot,htarget⟩⟩

variable {floats}

def AtMost (value maximum : Option ℚ) : Prop := ∃ q m, value = some q ∧ maximum = some m ∧ q ≤ m

variable {value : Json}

theorem check_number_ok {maximum : Option ℚ} {n : Number}
    (h : checkNumber floats value maximum = .ok n) : AtMost (n.value floats) maximum := by
  have hbound : ∀ q : ℚ, ¬ (maximum.all (fun m => decide (m < q)) = true) →
      ∃ m, maximum = some m ∧ q ≤ m := by
    intro q hq
    cases maximum with
    | none => exact absurd rfl hq
    | some m => exact ⟨m,rfl,not_lt.mp (by simpa using hq)⟩
  unfold checkNumber at h
  split at h
  · obtain ⟨-,h⟩ := guard_ok h
    obtain ⟨hmax,h⟩ := guard_ok h
    cases h
    obtain ⟨m,hm,hle⟩ := hbound _ hmax
    exact ⟨_,m,rfl,hm,hle⟩
  · split at h
    · cases h
    · rename_i r q hq
      obtain ⟨hmax,h⟩ := guard_ok h
      cases h
      obtain ⟨m,hm,hle⟩ := hbound q hmax
      exact ⟨q,m,hq,hm,hle⟩
  · cases h

theorem check_int_ok {maximum n : ℤ} (h : checkInt value maximum = .ok n) :
    n ≤ maximum ∧ value = .int n := by
  unfold checkInt at h
  split at h
  · obtain ⟨-,h⟩ := guard_ok h
    obtain ⟨hmax,h⟩ := guard_ok h
    cases h
    exact ⟨not_lt.mp hmax,rfl⟩
  · cases h

structure LimitsAllowed (floats : String → Option ℚ) (policy : BrokerPolicy) (persistent : Bool)
    (limits : SandboxLimits) : Prop where
  cpuCount : AtMost (limits.cpuCount.value floats) (policy.limits.cpuCount.value floats)
  memoryMb : limits.memoryMb ≤ policy.limits.memoryMb
  pids : limits.pids ≤ policy.limits.pids
  timeoutSeconds : AtMost (limits.timeoutSeconds.value floats)
    (if persistent then some 86400 else policy.limits.timeoutSeconds.value floats)
  outputBytes : limits.outputBytes ≤ policy.limits.outputBytes
  tmpfsMb : limits.tmpfsMb ≤ policy.limits.tmpfsMb
  protocolCeiling : limits.outputBytes ≤ maxOutputBytes

theorem limits_construct_ok {limits out : SandboxLimits}
    (h : SandboxLimits.construct floats limits = .ok out) : out = limits ∧ 1024 ≤ out.outputBytes := by
  obtain ⟨-,h⟩ := guard_ok h
  obtain ⟨-,h⟩ := guard_ok h
  obtain ⟨-,h⟩ := guard_ok h
  obtain ⟨-,h⟩ := guard_ok h
  obtain ⟨hbytes,h⟩ := guard_ok h
  obtain ⟨-,h⟩ := guard_ok h
  cases h
  exact ⟨rfl,(not_not.mp hbytes).1⟩

theorem decode_limits_ok {limits : SandboxLimits}
    (h : decodeLimits floats policy persistent value = .ok limits) :
    LimitsAllowed floats policy persistent limits ∧ 1024 ≤ limits.outputBytes ∧
      field value "output_bytes" = .int limits.outputBytes := by
  obtain ⟨_,-,h⟩ := bind_ok h
  obtain ⟨cpuCount,hcpu,h⟩ := bind_ok h
  obtain ⟨memoryMb,hmemory,h⟩ := bind_ok h
  obtain ⟨pids,hpids,h⟩ := bind_ok h
  obtain ⟨timeoutSeconds,htimeout,h⟩ := bind_ok h
  obtain ⟨outputBytes,houtput,h⟩ := bind_ok h
  obtain ⟨tmpfsMb,htmpfs,h⟩ := bind_ok h
  obtain ⟨out,hout,h⟩ := bind_ok h
  obtain ⟨hceiling,h⟩ := guard_ok h
  cases h
  obtain ⟨rfl,hbytes⟩ := limits_construct_ok hout
  exact ⟨⟨check_number_ok hcpu,(check_int_ok hmemory).1,(check_int_ok hpids).1,
    check_number_ok htimeout,(check_int_ok houtput).1,(check_int_ok htmpfs).1,
    not_lt.mp hceiling⟩,hbytes,(check_int_ok houtput).2⟩

theorem decode_environment_ok {environment : List (String × String)}
    (h : decodeEnvironment value = .ok environment) : environment = [] := by
  unfold decodeEnvironment at h
  split at h
  · obtain ⟨-,h⟩ := guard_ok h
    obtain ⟨parsed,-,h⟩ := bind_ok h
    obtain ⟨hempty,h⟩ := guard_ok h
    cases h
    exact not_not.mp hempty
  · cases h

theorem decode_network_ok {network : SandboxNetworkPolicy}
    (h : decodeNetwork policy value = .ok network) :
    network = .none ∨ ∃ profile ∈ policy.allowedProfiles, network = .egressProfile profile := by
  obtain ⟨_,-,h⟩ := bind_ok h
  split at h
  · cases h
    exact .inl rfl
  · rename_i profile _ _
    split_ifs at h with hallowed
    · obtain ⟨-,h⟩ := guard_ok h
      cases h
      exact .inr ⟨profile,hallowed,rfl⟩
    · cases h
  · cases h

theorem mounts_of_json {mounts : List SandboxMount}
    (h : decodeMounts layout policy persistent value = .ok mounts) :
    ∀ m ∈ mounts, MountAllowed layout policy persistent m := by
  unfold decodeMounts at h
  split at h
  · obtain ⟨-,h⟩ := guard_ok h
    intro m hm
    obtain ⟨mount,-,hmount⟩ := mapM_ok_of_mem h m hm
    exact decode_mount_ok hmount
  · cases h

structure RequestAllowed (floats : String → Option ℚ) (layout : Layout) (policy : BrokerPolicy)
    (persistent : Bool) (request : SandboxRequest) : Prop where
  mounts : ∀ m ∈ request.mounts, layout.isDir m.hostPath = true ∧
    (WithinRoot layout policy m.hostPath (purePosixParts m.containerPath) ∨
      (persistent = true ∧ request.mounts = [m] ∧ m.readOnly = true ∧
        m.containerPath = "/workspace" ∧
        ProductRoot layout policy m.hostPath (purePosixParts m.containerPath)))
  limits : LimitsAllowed floats policy persistent request.limits
  environment : request.environment = []
  network : request.network = .none ∨
    ∃ profile ∈ policy.allowedProfiles, request.network = .egressProfile profile

theorem request_construct_ok {request out : SandboxRequest}
    (h : SandboxRequest.construct request = .ok out) : out = request := by
  obtain ⟨-,h⟩ := guard_ok h
  obtain ⟨-,h⟩ := guard_ok h
  obtain ⟨-,h⟩ := guard_ok h
  obtain ⟨_,-,h⟩ := bind_ok h
  obtain ⟨-,h⟩ := guard_ok h
  obtain ⟨_,-,h⟩ := bind_ok h
  obtain ⟨-,h⟩ := guard_ok h
  obtain ⟨-,h⟩ := guard_ok h
  obtain ⟨-,h⟩ := guard_ok h
  exact (Except.ok.inj h).symm

theorem persistent_shape_single {mounts : List SandboxMount} {stdin : Json}
    (h : persistentShape mounts stdin = true) : ∀ m ∈ mounts, mounts = [m] := by
  unfold persistentShape at h
  split at h
  · intro m hm
    rw [List.mem_singleton.mp hm]
  · cases h

/-- The broker only runs what its policy allows. -/
theorem broker_runs_only_allowed (floats : String → Option ℚ) (layout : Layout)
    (policy : BrokerPolicy) (data : Json) (persistent : Bool) (request : SandboxRequest)
    (h : policy.decode floats layout data persistent = .ok request) :
    RequestAllowed floats layout policy persistent request := by
  obtain ⟨_,-,h⟩ := bind_ok h
  obtain ⟨_,-,h⟩ := bind_ok h
  obtain ⟨argv,-,h⟩ := bind_ok h
  obtain ⟨environment,henvironment,h⟩ := bind_ok h
  obtain ⟨limits,hlimits,h⟩ := bind_ok h
  obtain ⟨network,hnetwork,h⟩ := bind_ok h
  obtain ⟨mounts,hmounts,h⟩ := bind_ok h
  obtain ⟨hshape,h⟩ := guard_ok h
  obtain ⟨requestId,-,h⟩ := bind_ok h
  obtain ⟨workingDirectory,-,h⟩ := bind_ok h
  obtain ⟨stdin,-,h⟩ := bind_ok h
  rw [request_construct_ok h]
  refine ⟨?_,(decode_limits_ok hlimits).1,decode_environment_ok henvironment,
    decode_network_ok hnetwork⟩
  intro m hm
  have hallowed := mounts_of_json hmounts m hm
  refine ⟨hallowed.directory,?_⟩
  rcases hallowed.place with hwithin | ⟨hpersistent,hread,hpath,hproduct⟩
  · exact .inl hwithin
  · have hsingle : persistentShape mounts (field data "stdin") = true := by
      by_contra hfalse
      exact hshape ⟨hpersistent,Bool.eq_false_iff.mpr hfalse⟩
    exact .inr ⟨hpersistent,persistent_shape_single hsingle m hm,hread,hpath,hproduct⟩

def productLayout : Layout where
  isSymlink _ := false
  resolve path := if path = ["/","srv"] then some path else none
  isDir path := decide (path = ["/","srv"])
  real path target h := by
    split_ifs at h with hpath
    cases h
    refine ⟨["srv"],hpath,?_⟩
    intro name hname
    rw [List.mem_singleton.mp hname]
    exact ⟨by decide,by decide,by decide⟩

def productPolicy : BrokerPolicy :=
  ⟨[("/workspace/product",["/","srv"])],⟨.int 2,512,128,.int 60,4096,128⟩,["web"],"acme:crm"⟩

def listRequest : SandboxRequest :=
  ⟨"r1",["ls"],[⟨["/","srv"],"/workspace/product",false⟩],"/workspace/product",[],none,
    productPolicy.limits,.egressProfile "web"⟩

theorem list_request_decoded :
    productPolicy.decode (fun _ => none) productLayout (encodeRequest listRequest) =
      .ok listRequest := by
  decide +kernel

theorem list_request_allowed :
    productPolicy.decode (fun _ => none) productLayout (encodeRequest listRequest) =
        .ok listRequest ∧
      RequestAllowed (fun _ => none) productLayout productPolicy false listRequest :=
  ⟨list_request_decoded,broker_runs_only_allowed _ _ _ _ _ _ list_request_decoded⟩

end SuiteHarness.Sandbox
