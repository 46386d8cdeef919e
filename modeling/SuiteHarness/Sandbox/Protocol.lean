import SuiteHarness.Json
import SuiteHarness.Library.Base64
import SuiteHarness.Library.Results
import SuiteHarness.Workspace.Paths

/-!
# The sandbox protocol

The records of `sandbox/models.py` with the checks of their constructors and the
decoding helpers of `sandbox/remote.py`. Messages are JSON values with the
number of bytes that their text has. What number a printed float stands for is a
parameter; it is absent for the forms that are not finite.
-/

set_option autoImplicit false

namespace SuiteHarness.Sandbox
open SuiteHarness.Library SuiteHarness.Workspace

inductive SandboxError where
  | configuration (message : String)
  | unavailable (message : String)
  | valueError (message : String)
  /-- `math.isfinite` of an integer beyond every float. -/
  | overflow
  deriving DecidableEq

def maxRequestBytes : ℤ := 2*1024*1024
def maxStdinBytes : ℤ := 1024*1024
def maxOutputBytes : ℤ := 16*1024*1024

inductive Number where
  | int (n : ℤ)
  | float (repr : String)
  deriving DecidableEq

def Number.toJson : Number → Json
  | .int n => .int n
  | .float r => .float r

def Number.value (floats : String → Option ℚ) : Number → Option ℚ
  | .int n => some n
  | .float r => floats r

structure SandboxLimits where
  cpuCount : Number := .float "1.0"
  memoryMb : ℤ := 512
  pids : ℤ := 128
  timeoutSeconds : Number := .float "120.0"
  outputBytes : ℤ := 1048576
  tmpfsMb : ℤ := 128
  deriving DecidableEq

inductive SandboxNetworkPolicy where
  | none
  | egressProfile (profile : String)
  deriving DecidableEq

structure SandboxMount where
  hostPath : List String
  containerPath : String
  readOnly : Bool
  deriving DecidableEq

structure SandboxRequest where
  requestId : String
  argv : List String
  mounts : List SandboxMount
  workingDirectory : String
  environment : List (String × String)
  stdin : Option (List UInt8)
  limits : SandboxLimits
  network : SandboxNetworkPolicy
  deriving DecidableEq

structure SandboxResult where
  requestId : String
  exitCode : Option ℤ
  stdout : List UInt8
  stderr : List UInt8
  timedOut : Bool := false
  outputTruncated : Bool := false
  deriving DecidableEq

def refuse {α : Type} (message : String) : Except SandboxError α := .error (.configuration message)

def isRequestId (s : String) : Bool := isIdentifier s && s.toList.all (fun c => decide (c ≠ ':'))

/-! Paths are lists of parts, the root first. -/

def pathText : List String → String
  | [] => "."
  | "/"::rest => "/" ++ "/".intercalate rest
  | "//"::rest => "//" ++ "/".intercalate rest
  | parts => "/".intercalate parts

def isAbsolute (parts : List String) : Bool := parts.head? = some "/" || parts.head? = some "//"

def isRelativeTo (path base : List String) : Bool :=
  base.isPrefixOf path && (decide (base ≠ []) || !(isAbsolute path))

def relativeText (path base : List String) : String :=
  let rest := path.drop base.length
  if rest = [] then "." else "/".intercalate rest

def workspace : List String := ["/","workspace"]

def toContainerPath (value : String) : Except SandboxError (List String) :=
  let path := purePosixParts value
  if !(isAbsolute path) || path.contains ".." then
    refuse "container mount paths must be normalized absolute paths"
  else if !(workspace.isPrefixOf path) then
    refuse "container mounts are restricted to /workspace"
  else .ok path

variable (value : Json) (floats : String → Option ℚ)

def positiveUpTo (high : ℚ) (n : Number) : Bool :=
  (n.value floats).any (fun q => decide (0 < q ∧ q ≤ high))

def SandboxLimits.construct (limits : SandboxLimits) : Except SandboxError SandboxLimits :=
  if !(positiveUpTo floats 64 limits.cpuCount) then refuse "cpu_count must be in (0, 64]"
  else if ¬(64 ≤ limits.memoryMb ∧ limits.memoryMb ≤ 262144) then
    refuse "memory_mb must be in [64, 262144]"
  else if ¬(16 ≤ limits.pids ∧ limits.pids ≤ 32768) then refuse "pids must be in [16, 32768]"
  else if !(positiveUpTo floats 86400 limits.timeoutSeconds) then
    refuse "timeout_seconds must be in (0, 86400]"
  else if ¬(1024 ≤ limits.outputBytes ∧ limits.outputBytes ≤ 1073741824) then
    refuse "output_bytes must be in [1024, 1073741824]"
  else if ¬(16 ≤ limits.tmpfsMb ∧ limits.tmpfsMb ≤ 65536) then refuse "tmpfs_mb must be in [16, 65536]"
  else .ok limits

def SandboxNetworkPolicy.egress (profile : String) : Except SandboxError SandboxNetworkPolicy :=
  if profile = "" then refuse "network-enabled requests require an egress profile"
  else .ok (.egressProfile profile)

def SandboxMount.construct (isDir : List String → Bool) (mount : SandboxMount) :
    Except SandboxError SandboxMount :=
  if !(isAbsolute mount.hostPath) then refuse "sandbox mount host paths must be absolute"
  else if !(isDir mount.hostPath) then refuse "sandbox mount host paths must be existing directories"
  else if (pathText mount.hostPath).toList.any (fun c => c = ',' || c = Char.ofNat 0) then
    refuse "sandbox mount host paths contain an unsupported character"
  else (toContainerPath mount.containerPath).map (fun _ => mount)

def isEnvironmentKey (s : String) : Bool :=
  match s.toList with
  | [] => false
  | c::cs => (c.isAlpha || c = '_') && cs.all (fun d => isAlnum d || d = '_')

def SandboxRequest.construct (request : SandboxRequest) : Except SandboxError SandboxRequest :=
  if !(isRequestId request.requestId) then refuse "invalid sandbox request_id"
  else if request.argv = [] ∨ request.argv.any (fun s => s = "" || hasNul s) then
    refuse "sandbox argv must contain non-empty NUL-free values"
  else if request.mounts = [] then
    refuse "sandbox requests require at least one workspace mount"
  else do
    let targets ← request.mounts.mapM (fun m => toContainerPath m.containerPath)
    if ¬ targets.Nodup then refuse "sandbox mount targets must be unique"
    else
      let working ← toContainerPath request.workingDirectory
      if !(targets.any (fun t => t.isPrefixOf working)) then
        refuse "working_directory must be inside a mounted path"
      else if request.environment.any (fun e => !(isEnvironmentKey e.1)) then
        refuse "invalid environment variable name"
      else if request.environment.any (fun e => hasNul e.2) then
        refuse "environment values must not contain NUL"
      else .ok request

def SandboxResult.construct (result : SandboxResult) : Except SandboxError SandboxResult :=
  if !(isRequestId result.requestId) then refuse "invalid sandbox result request_id"
  else if result.timedOut ∧ result.exitCode.isSome then
    refuse "timed-out results must not report a normal exit code"
  else .ok result

/-! The helpers of `sandbox/remote.py`. -/

def keys : Json → Option (Finset String)
  | .obj entries => some (entries.map Prod.fst).toFinset
  | _ => none

def fields (value : Json) (names : List String) : Except SandboxError Unit :=
  if keys value = some names.toFinset then .ok () else refuse "invalid sandbox protocol fields"

def field (name : String) : Json := (value.get? name).getD .null

def string (value : Json) (maximum : ℤ := 32768) : Except SandboxError String :=
  match value with
  | .str s => if maximum < s.toList.length ∨ hasNul s then
      refuse "invalid sandbox protocol string" else .ok s
  | _ => refuse "invalid sandbox protocol string"

def boolean : Json → Except SandboxError Bool
  | .bool b => .ok b
  | _ => refuse "invalid sandbox protocol boolean"

def unbytes (maximum : ℤ) : Except SandboxError (List UInt8) := do
  let text ← string value ((maximum+2)/3*4)
  match Base64.decode text.toList with
  | none => refuse "invalid sandbox binary encoding"
  | some result => if maximum < result.length then
      refuse "sandbox binary value exceeds limit" else .ok result

def charBytes (c : Char) : ℕ := if c.toNat < 127 then 1 else if c.toNat < 65536 then 6 else 12

def textBytes (s : String) : ℕ := (s.toList.map charBytes).sum

def jsonBytes : ℕ := textBytes (Encoder.compact.encode value)

def boundedJson (maximum : ℤ) : Except SandboxError Unit :=
  if value.nonFinite then .error (.valueError "Out of range float values are not JSON compliant")
  else if maximum < jsonBytes value then refuse "sandbox message exceeds limit" else .ok ()

def base64Text (bytes : List UInt8) : String := String.ofList (Base64.encode bytes)

def SandboxLimits.toJson (limits : SandboxLimits) : Json :=
  .obj [("cpu_count",limits.cpuCount.toJson),("memory_mb",.int limits.memoryMb),
    ("pids",.int limits.pids),("timeout_seconds",limits.timeoutSeconds.toJson),
    ("output_bytes",.int limits.outputBytes),("tmpfs_mb",.int limits.tmpfsMb)]

def SandboxNetworkPolicy.toJson : SandboxNetworkPolicy → Json
  | .none => .obj [("mode",.str "none"),("egress_profile",.null)]
  | .egressProfile p => .obj [("mode",.str "egress_profile"),("egress_profile",.str p)]

def SandboxMount.toJson (m : SandboxMount) : Json :=
  .obj [("host_path",.str (pathText m.hostPath)),("container_path",.str m.containerPath),
    ("read_only",.bool m.readOnly)]

def encodeRequest (request : SandboxRequest) : Json :=
  .obj [("request_id",.str request.requestId),("argv",.arr (request.argv.map .str)),
    ("mounts",.arr (request.mounts.map SandboxMount.toJson)),
    ("working_directory",.str request.workingDirectory),
    ("environment",.obj (request.environment.map (fun e => (e.1,.str e.2)))),
    ("stdin",(request.stdin.map (fun b => Json.str (base64Text b))).getD .null),
    ("limits",request.limits.toJson),("network",request.network.toJson)]

def exitJson : Option ℤ → Json
  | none => .null
  | some n => .int n

def encodeResult (result : SandboxResult) : Json :=
  .obj [("request_id",.str result.requestId),("exit_code",exitJson result.exitCode),
    ("stdout",.str (base64Text result.stdout)),("stderr",.str (base64Text result.stderr)),
    ("timed_out",.bool result.timedOut),("output_truncated",.bool result.outputTruncated)]

def resultNames : List String :=
  ["request_id","exit_code","stdout","stderr","timed_out","output_truncated"]

def toExitCode : Json → Option (Option ℤ)
  | .null => some none
  | .int n => some (some n)
  | _ => none

def decodeResult (requestId : String) (outputBytes : ℤ) :
    Except SandboxError SandboxResult := do
  fields value resultNames
  match toExitCode (field value "exit_code") with
  | none => refuse "invalid sandbox result identity or status"
  | some exitCode =>
    if field value "request_id" ≠ .str requestId then
      refuse "invalid sandbox result identity or status"
    else
      let stdout ← unbytes (field value "stdout") outputBytes
      let stderr ← unbytes (field value "stderr") outputBytes
      if outputBytes < stdout.length+stderr.length then refuse "sandbox output exceeds limit"
      else
        let timedOut ← boolean (field value "timed_out")
        let outputTruncated ← boolean (field value "output_truncated")
        SandboxResult.construct ⟨requestId,exitCode,stdout,stderr,timedOut,outputTruncated⟩

end SuiteHarness.Sandbox
