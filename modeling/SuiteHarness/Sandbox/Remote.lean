import SuiteHarness.Sandbox.Policy

/-!
# The remote sandbox

`RemoteSandboxBackend.run` and the broker's `/run` handler, joined by a socket
that carries JSON messages. Both sides bound the messages by their own formulas,
and the broker checks a result by decoding what it is about to send.
-/

set_option autoImplicit false

namespace SuiteHarness.Sandbox
open SuiteHarness.Library SuiteHarness.Library.Results

structure Response where
  status : ℕ
  bytes : ℕ
  body : Option Json

def errorResponse (status : ℕ) (message : String) : Response :=
  let body := Json.obj [("error",.str message)]
  ⟨status,jsonBytes body,some body⟩

def SandboxError.response : SandboxError → Response
  | .configuration _ | .valueError _ => errorResponse 400 "invalid sandbox request"
  | .unavailable _ => errorResponse 503 "sandbox unavailable"
  | .overflow => errorResponse 503 "sandbox failed closed"

def SandboxResult.renamed (result : SandboxResult) (requestId : String) : SandboxResult :=
  {result with requestId := requestId}

variable (bytes : List UInt8) (result : SandboxResult) (floats : String → Option ℚ) (layout : Layout)
  (policy : BrokerPolicy) (internalId : String → String)
  (backend : SandboxRequest → Except SandboxError SandboxResult)

def brokerResult (body : Json) : Except SandboxError Json := do
  if maxRequestBytes < jsonBytes body then refuse "request exceeds limit"
  else
    let command ← policy.decode floats layout body
    let result ← backend {command with requestId := internalId command.requestId}
    let result ← (result.renamed command.requestId).construct
    let encoded := encodeResult result
    let _ ← decodeResult encoded command.requestId command.limits.outputBytes
    boundedJson encoded (maxOutputBytes*2)
    pure encoded

def brokerRun (body : Json) : Response :=
  match brokerResult floats layout policy internalId backend body with
  | .ok encoded => ⟨200,jsonBytes encoded,some encoded⟩
  | .error error => error.response

def receive (response : Response) (maximum : ℤ) : Except SandboxError Json :=
  if response.status ≠ 200 then
    .error (.unavailable "sandbox broker rejected the request or is unavailable")
  else if maximum < response.bytes then
    .error (.unavailable "sandbox broker response exceeds limit")
  else match response.body with
    | none => .error (.unavailable "sandbox broker unavailable or invalid response")
    | some value => .ok value

def remoteRun (request : SandboxRequest) (call : Json → Response) :
    Except SandboxError SandboxResult := do
  if maxOutputBytes < request.limits.outputBytes then
    refuse "sandbox output ceiling exceeds broker protocol"
  else
    boundedJson (encodeRequest request) maxRequestBytes
    let value ← receive (call (encodeRequest request)) ((request.limits.outputBytes+2)/3*4+4096)
    match decodeResult value request.requestId request.limits.outputBytes with
    | .error (.configuration _) =>
      .error (.unavailable "sandbox broker returned an invalid result")
    | out => out

/-! Byte counts of printed values. -/

theorem text_bytes_append (s t : String) : textBytes (s ++ t) = textBytes s+textBytes t := by
  rw [textBytes, String.toList_append, List.map_append, List.sum_append]
  rfl

theorem text_bytes_join (a : String) (parts : List String) :
    textBytes (",".intercalate (a::parts)) =
      textBytes a+(parts.map (fun p => textBytes p+1)).sum := by
  induction parts generalizing a with
  | nil =>
    rw [textBytes, String.toList_intercalate]
    simp [List.intercalate, textBytes]
  | cons b parts ih =>
    have hb := ih b
    rw [textBytes, String.toList_intercalate] at hb ⊢
    rw [List.map_cons, List.map_cons, List.intercalate_cons_cons, List.map_append, List.sum_append,
      List.map_append, List.sum_append, ← List.map_cons, hb]
    simp only [textBytes, List.map_cons, List.sum_cons]
    have hcomma : (List.map charBytes ",".toList).sum = 1 := by decide
    omega

def PlainChar (c : Char) : Prop := Json.escape c = c.toString ∧ charBytes c = 1

theorem text_bytes_quote (s : String) (h : ∀ c ∈ s.toList, PlainChar c) :
    textBytes (Json.quote s) = s.toList.length+2 := by
  have hmap : s.toList.map Json.escape = s.toList.map Char.toString :=
    List.map_congr_left (fun c hc => (h c hc).1)
  have hbytes : s.toList.map charBytes = s.toList.map (fun _ => 1) :=
    List.map_congr_left (fun c hc => (h c hc).2)
  have hjoin : (String.join (s.toList.map Char.toString)).toList = s.toList := by
    rw [String.toList_join, List.flatMap_map]
    simp
  have hquote : textBytes "\"" = 1 := by decide
  rw [Json.quote, text_bytes_append, text_bytes_append, hmap, hquote, textBytes, hjoin, hbytes]
  simp
  omega

theorem alnum_plain (c : Char) (h : isAlnum c = true) : PlainChar c := by
  obtain ⟨hlow,hhigh,hslash⟩ := alnum_range c h
  have hne : ∀ d : Char, d.toNat < 48 ∨ d.toNat = 92 → c ≠ d := by
    rintro d hd rfl
    omega
  refine ⟨?_,if_pos (by omega)⟩
  rw [Json.escape, if_neg (hne _ (by decide)), if_neg (hne _ (by decide)),
    if_neg (hne _ (by decide)), if_neg (hne _ (by decide)), if_neg (hne _ (by decide)),
    if_neg (hne _ (by decide)), if_neg (hne _ (by decide)), if_neg (by omega)]

theorem request_id_bytes (s : String) (h : isRequestId s = true) :
    textBytes (Json.quote s) ≤ 130 := by
  rw [isRequestId, Bool.and_eq_true] at h
  obtain ⟨hlength,hchars⟩ := identifier_chars h.1
  rw [text_bytes_quote]
  · omega
  · intro c hc
    rcases hchars c hc with halnum | hother
    · exact alnum_plain c halnum
    · simp only [List.mem_cons, List.not_mem_nil, or_false] at hother
      rcases hother with rfl | rfl | rfl | rfl <;> exact ⟨by decide,by decide⟩

theorem base64_plain (c : Char) (h : c ∈ '='::Base64.alphabet) : PlainChar c := by
  have hall : Base64.alphabet.all (fun c => isAlnum c || c = '+' || c = '/') = true := by rfl
  rcases List.mem_cons.mp h with rfl | hmem
  · exact ⟨by decide,by decide⟩
  · have hc := List.all_eq_true.mp hall c hmem
    simp only [Bool.or_eq_true, decide_eq_true_eq] at hc
    rcases hc with (halnum | rfl) | rfl
    · exact alnum_plain c halnum
    · exact ⟨by decide,by decide⟩
    · exact ⟨by decide,by decide⟩

theorem base64_length : (base64Text bytes).toList.length = (bytes.length+2)/3*4 := by
  rw [base64Text, String.toList_ofList, Base64.encode_length]

theorem base64_bytes : textBytes (Json.quote (base64Text bytes)) = (bytes.length+2)/3*4+2 := by
  rw [text_bytes_quote, base64_length]
  intro c hc
  rw [base64Text, String.toList_ofList] at hc
  exact base64_plain c (Base64.encode_mem bytes c hc)

theorem length_le_text_bytes (s : String) : s.toList.length ≤ textBytes s := by
  rw [textBytes]
  induction s.toList with
  | nil => exact Nat.zero_le _
  | cons c cs ih =>
    have hc : 1 ≤ charBytes c := by
      unfold charBytes
      split_ifs <;> omega
    simp only [List.map_cons, List.sum_cons, List.length_cons]
    omega

theorem nat_bytes (n k : ℕ) (hk : 0 < k) (h : n < 10^k) : textBytes n.repr ≤ k := by
  have hdigits : n.repr.toList.map charBytes = n.repr.toList.map (fun _ => 1) := by
    apply List.map_congr_left
    intro c hc
    rw [Nat.toList_repr] at hc
    have hdigit := Nat.isDigit_of_mem_toDigits (by decide) (by decide) hc
    exact (alnum_plain c (by rw [isAlnum, Char.isAlphanum, hdigit, Bool.or_true])).2
  have hlength := (Nat.length_toDigits_le_iff (b := 10) (n := n) (by decide) hk).mpr h
  rw [textBytes, hdigits, List.map_const', List.sum_replicate, Nat.toList_repr]
  simpa using hlength

theorem int_bytes (n : ℤ) (k : ℕ) (hk : 0 < k) (h : n.natAbs < 10^k) :
    textBytes (toString n) ≤ k+1 := by
  rw [Int.toString_eq_repr]
  cases n with
  | ofNat n =>
    have hn := nat_bytes n k hk h
    change textBytes n.repr ≤ k+1
    omega
  | negSucc n =>
    have hn := nat_bytes (n+1) k hk h
    change textBytes ("-" ++ (n+1).repr) ≤ k+1
    have hsign : textBytes "-" = 1 := by decide
    rw [text_bytes_append]
    omega

open Encoder

theorem result_bytes :
    jsonBytes (encodeResult result) = 81+textBytes (Json.quote result.requestId)+
      textBytes (compact.encode (exitJson result.exitCode))+
      ((result.stdout.length+2)/3*4+2)+((result.stderr.length+2)/3*4+2)+
      textBytes (compact.encode (.bool result.timedOut))+
      textBytes (compact.encode (.bool result.outputTruncated)) := by
  have hout := base64_bytes result.stdout
  have herr := base64_bytes result.stderr
  have hstr : ∀ s, compact.encode (.str s) = Json.quote s := fun s => by rw [encode]
  have hcomma : compact.comma = "," := rfl
  have hkeys : textBytes "\x7b" = 1 ∧ textBytes "\x7d" = 1 ∧
      textBytes (Json.quote "request_id") = 12 ∧ textBytes (Json.quote "exit_code") = 11 ∧
      textBytes (Json.quote "stdout") = 8 ∧ textBytes (Json.quote "stderr") = 8 ∧
      textBytes (Json.quote "timed_out") = 11 ∧ textBytes (Json.quote "output_truncated") = 18 ∧
      textBytes compact.colon = 1 := by
    decide
  obtain ⟨h1,h2,h3,h4,h5,h6,h7,h8,h9⟩ := hkeys
  rw [jsonBytes, encodeResult, encode_obj, hcomma]
  simp only [encodeFields, text_bytes_append, text_bytes_join, List.map_cons, List.map_nil,
    List.sum_cons, List.sum_nil, hstr, h1, h2, h3, h4, h5, h6, h7, h8, h9, hout, herr]
  omega

def SmallExit (exitCode : Option ℤ) : Prop := ∀ n ∈ exitCode, n.natAbs < 10^3866

theorem exit_bytes (exitCode : Option ℤ) (h : SmallExit exitCode) :
    textBytes (compact.encode (exitJson exitCode)) ≤ 3867 := by
  cases exitCode with
  | none => exact show textBytes "null" ≤ 3867 by decide
  | some n =>
    rw [exitJson, encode]
    exact int_bytes n 3866 (by decide) (h n rfl)

theorem bool_bytes (b : Bool) : textBytes (compact.encode (.bool b)) ≤ 5 := by
  cases b <;> decide

/-- However the output is split between the two streams, the encoded result is
within the client's allowance. -/
theorem result_bytes_le (limit : ℤ) (hid : isRequestId result.requestId = true)
    (hexit : SmallExit result.exitCode) (hsize : (result.stdout.length+result.stderr.length : ℤ) ≤ limit) :
    (jsonBytes (encodeResult result) : ℤ) ≤ (limit+2)/3*4+4096 := by
  have hbytes := result_bytes result
  have hname := request_id_bytes _ hid
  have hcode := exit_bytes _ hexit
  have htimed := bool_bytes result.timedOut
  have htruncated := bool_bytes result.outputTruncated
  omega

theorem result_finite : (encodeResult result).nonFinite = false := by
  unfold encodeResult
  cases result.exitCode <;> rfl

/-! Decoding what was encoded. -/

theorem unbytes_base64 (limit : ℤ) (h : (bytes.length : ℤ) ≤ limit) :
    unbytes (.str (base64Text bytes)) limit = .ok bytes := by
  have hnul : Workspace.hasNul (base64Text bytes) = false := by
    rw [Workspace.hasNul, base64Text, String.toList_ofList, List.contains_eq_any_beq,
      List.any_eq_false]
    intro c hc hzero
    rw [beq_iff_eq] at hzero
    have hmem := Base64.encode_mem bytes c hc
    rw [← hzero] at hmem
    exact absurd hmem (by decide)
  have hlength := base64_length bytes
  have hstring : string (.str (base64Text bytes)) ((limit+2)/3*4) = .ok (base64Text bytes) := by
    rw [string, if_neg]
    rw [hnul, hlength]
    simp only [Bool.false_eq_true, or_false]
    omega
  have hdecode : Base64.decode (base64Text bytes).toList = some bytes := by
    rw [base64Text, String.toList_ofList, Base64.decode_encode]
  simp only [unbytes, hstring, bind, Except.bind, hdecode]
  exact if_neg (not_lt.mpr h)

theorem fields_encoded : fields (encodeResult result) resultNames = .ok () :=
  if_pos rfl

/-- Decoding an encoded result checks the sum of the two streams and the record. -/
theorem decode_encoded (limit : ℤ) (hsize : (result.stdout.length+result.stderr.length : ℤ) ≤ limit) :
    decodeResult (encodeResult result) result.requestId limit = result.construct := by
  have hcode : toExitCode (field (encodeResult result) "exit_code") = some result.exitCode := by
    cases hexit : result.exitCode <;> simp [encodeResult, field, Json.get?, exitJson, toExitCode, hexit]
  have hout : unbytes (field (encodeResult result) "stdout") limit = .ok result.stdout :=
    unbytes_base64 _ _ (by omega)
  have herr : unbytes (field (encodeResult result) "stderr") limit = .ok result.stderr :=
    unbytes_base64 _ _ (by omega)
  have hid : field (encodeResult result) "request_id" = .str result.requestId := rfl
  unfold decodeResult
  rw [fields_encoded]
  simp only [bind, Except.bind, hcode, hid, ne_eq, not_true_eq_false, if_false, hout, herr,
    if_neg (not_lt.mpr hsize)]
  rfl

structure Conforming (value : Json) (requestId : String) (limit : ℤ) (result : SandboxResult) :
    Prop where
  names : keys value = some resultNames.toFinset
  sender : field value "request_id" = .str requestId
  identity : result.requestId = requestId
  exitCode : toExitCode (field value "exit_code") = some result.exitCode
  stdout : unbytes (field value "stdout") limit = .ok result.stdout
  stderr : unbytes (field value "stderr") limit = .ok result.stderr
  size : (result.stdout.length+result.stderr.length : ℤ) ≤ limit
  timedOut : field value "timed_out" = .bool result.timedOut
  outputTruncated : field value "output_truncated" = .bool result.outputTruncated

theorem boolean_ok {value : Json} {b : Bool} (h : boolean value = .ok b) : value = .bool b := by
  unfold boolean at h
  split at h
  · cases h
    rfl
  · cases h

theorem result_construct_ok {result out : SandboxResult} (h : result.construct = .ok out) :
    out = result ∧ isRequestId result.requestId = true := by
  obtain ⟨hid,h⟩ := guard_ok h
  obtain ⟨-,h⟩ := guard_ok h
  cases h
  exact ⟨rfl,by simpa using hid⟩

theorem decode_result_ok {value : Json} {requestId : String} {limit : ℤ} {result : SandboxResult}
    (h : decodeResult value requestId limit = .ok result) :
    Conforming value requestId limit result := by
  obtain ⟨_,hfields,h⟩ := bind_ok h
  have hnames : keys value = some resultNames.toFinset := by
    by_contra hne
    rw [fields, if_neg hne] at hfields
    cases hfields
  split at h
  · cases h
  · rename_i exitCode hexit
    obtain ⟨hsender,h⟩ := guard_ok h
    obtain ⟨stdout,hstdout,h⟩ := bind_ok h
    obtain ⟨stderr,hstderr,h⟩ := bind_ok h
    obtain ⟨hsize,h⟩ := guard_ok h
    obtain ⟨timedOut,htimed,h⟩ := bind_ok h
    obtain ⟨outputTruncated,htruncated,h⟩ := bind_ok h
    obtain ⟨rfl,-⟩ := result_construct_ok h
    exact ⟨hnames,not_not.mp hsender,rfl,hexit,hstdout,hstderr,not_lt.mp hsize,boolean_ok htimed,
      boolean_ok htruncated⟩

variable {floats layout policy}

/-- What an accepted request shares with the message it came in. -/
theorem decode_request_ok {request command : SandboxRequest}
    (h : policy.decode floats layout (encodeRequest request) = .ok command) :
    boundedJson (encodeRequest request) maxRequestBytes = .ok () ∧
      command.requestId = request.requestId ∧ isRequestId request.requestId = true ∧
      command.limits.outputBytes = request.limits.outputBytes ∧
      request.limits.outputBytes ≤ maxOutputBytes := by
  obtain ⟨_,-,h⟩ := bind_ok h
  obtain ⟨_,hbounded,h⟩ := bind_ok h
  obtain ⟨argv,-,h⟩ := bind_ok h
  obtain ⟨environment,-,h⟩ := bind_ok h
  obtain ⟨limits,hlimits,h⟩ := bind_ok h
  obtain ⟨network,-,h⟩ := bind_ok h
  obtain ⟨mounts,-,h⟩ := bind_ok h
  obtain ⟨-,h⟩ := guard_ok h
  obtain ⟨requestId,hid,h⟩ := bind_ok h
  obtain ⟨workingDirectory,-,h⟩ := bind_ok h
  obtain ⟨stdin,-,h⟩ := bind_ok h
  have hcommand := request_construct_ok h
  obtain ⟨hvalid,-⟩ := guard_ok h
  obtain ⟨hallowed,-,houtput⟩ := decode_limits_ok hlimits
  have hsame : limits.outputBytes = request.limits.outputBytes := (Json.int.inj houtput).symm
  have hname : request.requestId = requestId := Except.ok.inj (guard_ok hid).2
  rw [hcommand]
  refine ⟨hbounded,hname.symm,by rw [hname]; simpa using hvalid,hsame,?_⟩
  rw [← hsame]
  exact hallowed.protocolCeiling

variable {internalId backend}

theorem renamed_construct {result : SandboxResult} {requestId : String}
    (hvalid : result.construct = .ok result) (hid : isRequestId requestId = true) :
    (result.renamed requestId).construct =
      .ok (result.renamed requestId) := by
  obtain ⟨-,hstatus⟩ := guard_ok hvalid
  have hname : ¬ (!(isRequestId requestId)) = true := by rw [hid]; decide
  exact (if_neg hname).trans (if_neg (guard_ok hstatus).1)

section Accepted
variable {request command : SandboxRequest} {result : SandboxResult}
variable (hdecode : policy.decode floats layout (encodeRequest request) = .ok command)
include hdecode

theorem remote_run_eq (call : Json → Response) :
    remoteRun request call =
      (do let value ← receive (call (encodeRequest request))
            ((request.limits.outputBytes+2)/3*4+4096)
          match decodeResult value request.requestId request.limits.outputBytes with
          | .error (.configuration _) =>
            .error (.unavailable "sandbox broker returned an invalid result")
          | out => out) := by
  obtain ⟨hbounded,-,-,-,hceiling⟩ := decode_request_ok hdecode
  unfold remoteRun
  rw [if_neg (not_lt.mpr hceiling), hbounded]
  rfl

variable (hresult : backend {command with requestId := internalId command.requestId} = .ok result)
include hresult

/-- The broker's answer to an accepted request whose backend returned. -/
theorem broker_result_eq :
    brokerResult floats layout policy internalId backend (encodeRequest request) =
      (do let result ← (result.renamed request.requestId).construct
          let encoded := encodeResult result
          let _ ← decodeResult encoded request.requestId request.limits.outputBytes
          boundedJson encoded (maxOutputBytes*2)
          pure encoded) := by
  obtain ⟨hbounded,hid,-,houtput,-⟩ := decode_request_ok hdecode
  have hbytes : ¬ maxRequestBytes < jsonBytes (encodeRequest request) :=
    (guard_ok (guard_ok hbounded).2).1
  rw [hid] at hresult
  unfold brokerResult
  rw [if_neg hbytes, hdecode]
  simp only [bind, Except.bind, hresult, hid, houtput]

variable (hvalid : result.construct = .ok result)
variable (hsize : (result.stdout.length+result.stderr.length : ℤ) ≤ request.limits.outputBytes)
include hvalid hsize

omit hresult in
theorem renamed_decoded :
    decodeResult (encodeResult (result.renamed request.requestId)) request.requestId
      request.limits.outputBytes = .ok (result.renamed request.requestId) := by
  obtain ⟨-,-,hid,-,-⟩ := decode_request_ok hdecode
  rw [← renamed_construct hvalid hid]
  exact decode_encoded (result.renamed request.requestId) request.limits.outputBytes hsize

theorem broker_run_within
    (hbytes : (jsonBytes (encodeResult (result.renamed request.requestId)) : ℤ) ≤
      maxOutputBytes*2) :
    brokerRun floats layout policy internalId backend (encodeRequest request) =
      ⟨200,jsonBytes (encodeResult (result.renamed request.requestId)),
        some (encodeResult (result.renamed request.requestId))⟩ := by
  obtain ⟨-,-,hid,-,-⟩ := decode_request_ok hdecode
  have hsend : boundedJson (encodeResult (result.renamed request.requestId))
      (maxOutputBytes*2) = .ok () := by
    rw [boundedJson, if_neg (by rw [result_finite]; decide), if_neg (not_lt.mpr hbytes)]
  have hbroker : brokerResult floats layout policy internalId backend (encodeRequest request) =
      .ok (encodeResult (result.renamed request.requestId)) := by
    rw [broker_result_eq hdecode hresult, renamed_construct hvalid hid]
    simp only [bind, Except.bind, renamed_decoded hdecode hvalid hsize, hsend]
    rfl
  rw [brokerRun, hbroker]

theorem within_limit_returned (hexit : SmallExit result.exitCode) :
    remoteRun request (brokerRun floats layout policy internalId backend) =
      .ok (result.renamed request.requestId) := by
  obtain ⟨-,-,hid,-,hceiling⟩ := decode_request_ok hdecode
  have hbytes := result_bytes_le (result.renamed request.requestId)
    request.limits.outputBytes hid hexit hsize
  have hmax : maxOutputBytes = 16777216 := rfl
  have hcall := broker_run_within hdecode hresult hvalid hsize (by omega)
  rw [remote_run_eq hdecode, hcall, receive, if_neg (not_not.mpr rfl), if_neg (not_lt.mpr hbytes)]
  simp only [bind, Except.bind, renamed_decoded hdecode hvalid hsize]

theorem oversized_refused
    (hbytes : (jsonBytes (encodeResult (result.renamed request.requestId)) : ℤ) ≤ maxOutputBytes*2)
    (hover : (request.limits.outputBytes+2)/3*4+4096 <
      jsonBytes (encodeResult (result.renamed request.requestId))) :
    remoteRun request (brokerRun floats layout policy internalId backend) =
      .error (.unavailable "sandbox broker response exceeds limit") := by
  rw [remote_run_eq hdecode, broker_run_within hdecode hresult hvalid hsize hbytes, receive,
    if_neg (not_not.mpr rfl), if_pos hover]
  rfl

end Accepted

theorem broker_run_body {body value : Json}
    (h : (brokerRun floats layout policy internalId backend body).status = 200)
    (hbody : (brokerRun floats layout policy internalId backend body).body = some value) :
    brokerResult floats layout policy internalId backend body = .ok value := by
  unfold brokerRun at h hbody
  cases hresult : brokerResult floats layout policy internalId backend body with
  | ok encoded =>
    rw [hresult] at hbody
    cases hbody
    rfl
  | error error =>
    rw [hresult] at h
    cases error <;> cases h

theorem remote_run_ok {request : SandboxRequest} {call : Json → Response} {out : SandboxResult}
    (h : remoteRun request call = .ok out) :
    (call (encodeRequest request)).status = 200 ∧
      ∃ value, (call (encodeRequest request)).body = some value ∧
        Conforming value request.requestId request.limits.outputBytes out := by
  obtain ⟨-,h⟩ := guard_ok h
  obtain ⟨_,-,h⟩ := bind_ok h
  obtain ⟨value,hreceive,h⟩ := bind_ok h
  obtain ⟨hstatus,hreceive⟩ := guard_ok hreceive
  obtain ⟨-,hreceive⟩ := guard_ok hreceive
  refine ⟨not_not.mp hstatus,value,?_,?_⟩
  · cases hbody : (call (encodeRequest request)).body with
    | none =>
      rw [hbody] at hreceive
      cases hreceive
    | some body =>
      rw [hbody] at hreceive
      cases hreceive
      rfl
  · split at h
    · cases h
    · exact decode_result_ok h

/-- Within the output limit the caller gets the backend's result under its own
identifier, if the exit code is not astronomically long; beyond it, an error. A
result that is returned, whoever answered, was well formed and within the limit. -/
theorem remote_sandbox_transparent (floats : String → Option ℚ) (layout : Layout)
    (policy : BrokerPolicy) (internalId : String → String)
    (backend : SandboxRequest → Except SandboxError SandboxResult)
    (request command : SandboxRequest) (result : SandboxResult)
    (hdecode : policy.decode floats layout (encodeRequest request) = .ok command)
    (hresult : backend {command with requestId := internalId command.requestId} = .ok result)
    (hvalid : result.construct = .ok result) :
    ((result.stdout.length+result.stderr.length : ℤ) ≤ request.limits.outputBytes →
      SmallExit result.exitCode →
      remoteRun request (brokerRun floats layout policy internalId backend) =
        .ok (result.renamed request.requestId)) ∧
    (request.limits.outputBytes < (result.stdout.length+result.stderr.length : ℤ) →
      ∃ error, remoteRun request (brokerRun floats layout policy internalId backend) =
        .error error) ∧
    ∀ call out, remoteRun request call = .ok out →
      ∃ value, (call (encodeRequest request)).body = some value ∧
        Conforming value request.requestId request.limits.outputBytes out := by
  refine ⟨within_limit_returned hdecode hresult hvalid,?_,fun call out h => (remote_run_ok h).2⟩
  intro hover
  cases hrun : remoteRun request (brokerRun floats layout policy internalId backend) with
  | error error => exact ⟨error,rfl⟩
  | ok out =>
    -- The message would hold the backend's streams, which the client's bound excludes.
    obtain ⟨hstatus,value,hbody,hconforming⟩ := remote_run_ok hrun
    have hbroker := broker_run_body hstatus hbody
    rw [broker_result_eq hdecode hresult] at hbroker
    obtain ⟨renamed,hrenamed,hbroker⟩ := bind_ok hbroker
    obtain ⟨checked,hchecked,-⟩ := bind_ok hbroker
    obtain ⟨rfl,-⟩ := result_construct_ok hrenamed
    have hchecks := decode_result_ok hchecked
    have hstreams : ∀ limit bytes out, unbytes (.str (base64Text bytes)) limit = .ok out →
        out = bytes := by
      intro limit bytes out h
      obtain ⟨text,htext,h⟩ := bind_ok h
      cases (guard_ok htext).2
      rw [base64Text, String.toList_ofList, Base64.decode_encode] at h
      exact (Except.ok.inj (guard_ok h).2).symm
    have hout := hstreams _ _ _ hchecks.stdout
    have herr := hstreams _ _ _ hchecks.stderr
    have hsize := hchecks.size
    rw [hout, herr] at hsize
    exact absurd hover (not_lt.mpr hsize)

def fixedBackend (_ : SandboxRequest) : Except SandboxError SandboxResult :=
  .ok result

def listing : SandboxResult := ⟨"i",some 0,[97,10],[],false,false⟩

theorem listing_returned :
    remoteRun listRequest (brokerRun (fun _ => none) productLayout productPolicy (fun _ => "i")
        (fixedBackend listing)) = .ok (listing.renamed "r1") :=
  (remote_sandbox_transparent _ _ _ _ (fixedBackend listing) _ _ listing list_request_decoded rfl
    (by decide)).1 (by decide) (by
      intro n hn
      cases hn
      exact Nat.pow_pos (by decide))

def longExit : SandboxResult :=
  ⟨"i",some (10^4199),List.replicate 4094 0,[0,0],false,false⟩

theorem long_exit_bytes :
    9560 < jsonBytes (encodeResult (longExit.renamed "r1")) ∧
      jsonBytes (encodeResult (longExit.renamed "r1")) ≤ 20000 := by
  have hbytes := result_bytes (longExit.renamed "r1")
  have hname : textBytes (Json.quote (longExit.renamed "r1").requestId) = 4 := by decide
  have hfalse : textBytes (compact.encode (.bool false)) = 5 := by decide
  have hcode : compact.encode (exitJson (longExit.renamed "r1").exitCode) =
      toString ((10 : ℤ)^4199) := by
    rw [SandboxResult.renamed, longExit, exitJson, encode]
  have hupper := int_bytes ((10 : ℤ)^4199) 4200 (by decide) (by
    rw [Int.natAbs_pow]
    exact Nat.pow_lt_pow_right (by decide) (by decide))
  have hlower : 4200 ≤ textBytes (toString ((10 : ℤ)^4199)) := by
    have hcast : (10 : ℤ)^4199 = ((10^4199 : ℕ) : ℤ) := (Nat.cast_pow 10 4199).symm
    have hlength : ¬ (Nat.toDigits 10 (10^4199)).length ≤ 4199 := by
      rw [Nat.length_toDigits_le_iff (by decide) (by decide)]
      exact lt_irrefl _
    have htext := length_le_text_bytes (toString ((10 : ℤ)^4199))
    rw [hcast, Int.toString_eq_repr] at htext ⊢
    change (Nat.repr (10^4199)).toList.length ≤ _ at htext
    rw [Nat.toList_repr] at htext
    omega
  have hout : (longExit.renamed "r1").stdout.length = 4094 := List.length_replicate
  have herr : (longExit.renamed "r1").stderr.length = 2 := rfl
  have htimed : (longExit.renamed "r1").timedOut = false := rfl
  have htruncated : (longExit.renamed "r1").outputTruncated = false := rfl
  rw [hname, hcode, hout, herr, htimed, htruncated, hfalse] at hbytes
  omega

/-- The broker accepts and sends it; the client's allowance refuses the message. -/
theorem long_exit_refused :
    longExit.construct = .ok longExit ∧
      (longExit.stdout.length+longExit.stderr.length : ℤ) ≤ listRequest.limits.outputBytes ∧
      remoteRun listRequest (brokerRun (fun _ => none) productLayout productPolicy (fun _ => "i")
        (fixedBackend longExit)) =
          .error (.unavailable "sandbox broker response exceeds limit") := by
  have hvalid : longExit.construct = .ok longExit := rfl
  have hsize : (longExit.stdout.length+longExit.stderr.length : ℤ) ≤
      listRequest.limits.outputBytes := by
    rw [show longExit.stdout.length = 4094 from List.length_replicate]
    decide
  have hlimit : listRequest.limits.outputBytes = 4096 := rfl
  have hname : listRequest.requestId = "r1" := rfl
  have hmax : maxOutputBytes = 16777216 := rfl
  obtain ⟨hlower,hupper⟩ := long_exit_bytes
  refine ⟨hvalid,hsize,oversized_refused list_request_decoded rfl hvalid hsize ?_ ?_⟩
  · rw [hname]
    omega
  · rw [hname, hlimit]
    omega

end SuiteHarness.Sandbox
