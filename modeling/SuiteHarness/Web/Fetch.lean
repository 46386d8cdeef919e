import SuiteHarness.Identifier
import SuiteHarness.Library.Dict

/-!
# Web fetch

`PublicNetworkPolicy` and `WebFetchService.fetch`. The parsers of the standard
library are the fields of `WebPlatform`; name resolution, the transport, the
clock and the PDF extractor belong to `WebWorld` and may answer every call
differently. The model records each lookup and each request of a fetch.
-/

set_option autoImplicit false

namespace SuiteHarness.Web

open SuiteHarness.Library

abbrev Bytes := List UInt8

inductive WebError where
  | policyDenied (message : String)
  | accessError (message : String)
  | responseTooLarge (message : String)
  | unsupportedContent (message : String)
  | valueError (message : String)
  /-- An exception of the resolver, the transport or the extractor. -/
  | raised
  deriving DecidableEq

inductive IpAddress where
  | v4 (bits : BitVec 32)
  | v6 (bits : BitVec 128) (scopeId : Option String)
  deriving DecidableEq

def IpAddress.ipv4Mapped : IpAddress → Option IpAddress
  | .v6 bits _ => if bits >>> 32 = 0xFFFF#128 then some (.v4 (bits.truncate 32)) else none
  | .v4 _ => none

structure SplitResult where
  scheme : String
  netloc : String
  path : String
  query : String
  username : Option String
  password : Option String
  hostname : Option String
  /-- Nothing where reading the port raises `ValueError`. -/
  port : Option (Option ℕ)

structure Inflated where
  output : Bytes
  flushed : Bytes
  unconsumedTail : Bool

def Inflated.joined (inflated : Inflated) (limit : ℕ) : Bytes :=
  if inflated.output.length ≤ limit then inflated.output++inflated.flushed else inflated.output

structure WebPlatform where
  urlsplit : String → Option SplitResult
  urlunsplit : String → String → String → String → String
  urljoin : String → String → Option String
  /-- `encode("idna").decode("ascii").lower()`. -/
  idna : String → Option String
  lower : String → String
  ipAddress : String → Option IpAddress
  isGlobal : IpAddress → Bool
  parseInt : String → Option ℤ
  inflate : String → Bytes → ℕ → Option Inflated
  /-- `_decode` of a body by its content type. -/
  decode : Bytes → String → Option String
  /-- The cleaned title and text of an HTML page. -/
  htmlText : String → Option String × String
  cleanText : String → String
  /-- `json.dumps(json.loads(text), ensure_ascii=False, indent=2)`. -/
  prettyJson : String → Option String

structure FetchLimits where
  timeout : ℤ := 20000000
  maxRedirects : ℕ := 5
  maxCompressedBytes : ℕ := 4194304
  maxContentBytes : ℕ := 8388608
  maxTextCharacters : ℕ := 1000000
  timeoutRange : 0 < timeout ∧ timeout ≤ 120000000 := by decide
  redirectRange : maxRedirects ≤ 10 := by decide
  byteRanges : (1024 ≤ maxCompressedBytes ∧ maxCompressedBytes ≤ 67108864) ∧
    (maxCompressedBytes ≤ maxContentBytes ∧ maxContentBytes ≤ 134217728) := by decide
  textRange : 1024 ≤ maxTextCharacters ∧ maxTextCharacters ≤ 10000000 := by decide

structure HttpRequest where
  method : String
  url : String
  allowedTargetIps : Finset String
  headers : List (String × String)
  timeout : ℤ
  maxResponseBytes : ℕ

structure HttpResponse where
  status : ℕ
  headers : Dict String String
  body : Bytes
  connectedTargetIp : String
  range : 100 ≤ status ∧ status ≤ 599

structure ValidatedTarget where
  url : String
  hostname : String
  port : ℕ
  addresses : Finset String

structure FetchDocument where
  requestedUrl : String
  finalUrl : String
  status : ℕ
  contentType : String
  title : Option String
  text : String
  truncated : Bool

inductive TransportAnswer where
  | response (response : HttpResponse)
  | timedOut
  | raised

inductive FetchEvent where
  | resolved (hostname : String) (port : ℕ) (answer : Option (Finset String))
  | sent (request : HttpRequest) (answer : TransportAnswer)

structure WebWorld where
  started : ℤ
  clock : ℕ → ℤ
  resolve : ℕ → String → ℕ → Option (Finset String)
  send : ℕ → HttpRequest → TransportAnswer
  pdfExtractor : Option (Bytes → String → Option String)

abbrev Outcome (α : Type) := Except WebError α × List FetchEvent

section Policy

variable (pf : WebPlatform)

def publicAddress (value : String) : Bool :=
  match pf.ipAddress value with
  | none => false
  | some address => pf.isGlobal (address.ipv4Mapped.getD address)

def localHostname (hostname : String) : Bool :=
  ["localhost","localhost.localdomain"].contains hostname ||
    (".localhost".toList).isSuffixOf hostname.toList

def validateUrl (url : String) : Except WebError (SplitResult × String × ℕ) :=
  if 8192 < url.toList.length ∨ url.toList.any (fun c => ['\r','\n',Char.ofNat 0].contains c) then
    .error (.policyDenied "invalid outbound URL")
  else match pf.urlsplit url with
    | none => .error (.valueError "invalid URL")
    | some parsed =>
      let scheme := pf.lower parsed.scheme
      if !(["http","https"].contains scheme) then
        .error (.policyDenied "only http and https outbound URLs are allowed")
      else if parsed.username.isSome || parsed.password.isSome then
        .error (.policyDenied "URL user information is forbidden")
      else match parsed.hostname with
        | none => .error (.policyDenied "outbound URL requires a hostname")
        | some host =>
          if host = "" then .error (.policyDenied "outbound URL requires a hostname")
          else match pf.idna host with
            | none => .error (.policyDenied "invalid international hostname")
            | some hostname =>
              if localHostname hostname then .error (.policyDenied "local hostnames are forbidden")
              else match parsed.port with
                | none => .error (.policyDenied "invalid outbound URL port")
                | some port =>
                  let default := if scheme = "https" then 443 else 80
                  .ok (parsed,hostname,if port.getD 0 = 0 then default else port.getD 0)

def validate (world : WebWorld) (url : String) (events : List FetchEvent) :
    Outcome ValidatedTarget :=
  match validateUrl pf url with
  | .error error => (.error error,events)
  | .ok (parsed,hostname,port) =>
    let answer := world.resolve events.length hostname port
    let events := events++[.resolved hostname port answer]
    match answer with
    | none => (.error (.policyDenied "outbound hostname could not be resolved"),events)
    | some addresses =>
      if addresses = ∅ ∨ ∃ address ∈ addresses, publicAddress pf address = false then
        (.error (.policyDenied "outbound target resolves to a non-public address"),events)
      else
        (.ok ⟨pf.urlunsplit (pf.lower parsed.scheme) parsed.netloc
          (if parsed.path = "" then "/" else parsed.path) parsed.query,hostname,port,addresses⟩,
          events)

def verifyConnectedPeer (target : ValidatedTarget) (connectedIp : String) :
    Except WebError Unit :=
  match pf.ipAddress connectedIp with
  | none => .error (.policyDenied "transport returned an invalid target address")
  | some connected =>
    if ∃ address ∈ target.addresses, pf.ipAddress address = none then
      .error (.policyDenied "transport returned an invalid target address")
    else if ∃ address ∈ target.addresses, pf.ipAddress address = some connected then .ok ()
    else .error (.policyDenied "outbound target address changed after DNS validation")

end Policy

structure WebFetchService where
  platform : WebPlatform
  limits : FetchLimits
  userAgent : String

namespace WebFetchService

variable (service : WebFetchService) (world : WebWorld)

def redirects : List ℕ := [301,302,303,307,308]

def buildRequest (target : ValidatedTarget) (remaining : ℤ) : Except WebError HttpRequest :=
  if target.addresses = ∅ then
    .error (.valueError "HTTP requests require validated target addresses")
  else if ¬(0 < remaining ∧ remaining ≤ 120000000) then
    .error (.valueError "HTTP timeout must be in (0, 120] seconds")
  else if service.userAgent.toList.any (fun c => ['\r','\n'].contains c) then
    .error (.valueError "invalid HTTP header value")
  else .ok
    { method := "GET"
      url := target.url
      allowedTargetIps := target.addresses
      headers := [("Accept","text/html,text/plain,application/json,application/pdf"),
        ("Accept-Encoding","gzip, deflate"),("User-Agent",service.userAgent)]
      timeout := remaining
      maxResponseBytes := service.limits.maxCompressedBytes }

def checkResponse (target : ValidatedTarget) (response : HttpResponse) : Except WebError Unit :=
  match verifyConnectedPeer service.platform target response.connectedTargetIp with
  | .error error => .error error
  | .ok _ =>
    if service.limits.maxCompressedBytes < response.body.length then
      .error (.responseTooLarge "web response exceeded the compressed limit")
    else match response.headers.get? "content-length" with
      | none => .ok ()
      | some text => match service.platform.parseInt text with
        | none => .error (.accessError "invalid HTTP Content-Length")
        | some length => if (service.limits.maxCompressedBytes : ℤ) < length then
            .error (.responseTooLarge "declared web response is too large")
          else .ok ()

def hop (url : String) (events : List FetchEvent) : Outcome (ValidatedTarget × HttpResponse) :=
  let remaining := service.limits.timeout-(world.clock events.length-world.started)
  if remaining ≤ 0 then (.error (.accessError "web fetch timed out"),events)
  else match validate service.platform world url events with
    | (.error error,events) => (.error error,events)
    | (.ok target,events) => match service.buildRequest target remaining with
      | .error error => (.error error,events)
      | .ok request =>
        let answer := world.send events.length request
        let events := events++[.sent request answer]
        match answer with
        | .timedOut => (.error (.accessError "web fetch timed out"),events)
        | .raised => (.error .raised,events)
        | .response response => match service.checkResponse target response with
          | .error error => (.error error,events)
          | .ok _ => (.ok (target,response),events)

def fetchLoop : ℕ → String → List FetchEvent → Outcome (String × HttpResponse)
  | left, url, events => match service.hop world url events with
    | (.error error,events) => (.error error,events)
    | (.ok (target,response),events) =>
      if !(redirects.contains response.status) then (.ok (url,response),events)
      else match left with
        | 0 => (.error (.policyDenied "web fetch exceeded the redirect limit"),events)
        | left+1 => match response.headers.get? "location" with
          | none => (.error (.accessError "redirect response omitted Location"),events)
          | some location =>
            if location = "" then (.error (.accessError "redirect response omitted Location"),events)
            else match service.platform.urljoin target.url location with
              | none => (.error (.valueError "invalid redirect URL"),events)
              | some next => fetchLoop left next events

def boundedDecompress (data : Bytes) (encoding : String) (limit : ℕ) : Except WebError Bytes :=
  if encoding = "" ∨ encoding = "identity" then
    if limit < data.length then
      .error (.responseTooLarge "web content exceeded the decompressed limit")
    else .ok data
  else if encoding ≠ "gzip" ∧ encoding ≠ "deflate" then
    .error (.unsupportedContent "unsupported HTTP content encoding")
  else match service.platform.inflate encoding data (limit+1) with
    | none => .error (.accessError "invalid compressed HTTP response")
    | some inflated =>
      let output := inflated.joined limit
      if limit < output.length ∨ inflated.unconsumedTail = true then
        .error (.responseTooLarge "web content exceeded the decompressed limit")
      else .ok output

def mediaType (value : String) : String :=
  service.platform.lower (strip (String.ofList (value.toList.takeWhile (· ≠ ';'))))

def extractText (content : Bytes) (declaredType url : String) :
    Except WebError (Option String × String) :=
  let media := service.mediaType declaredType
  let undecodable := WebError.unsupportedContent
    "web text could not be decoded as UTF-8/GB18030/GBK"
  if ["text/html","application/xhtml+xml"].contains media then
    match service.platform.decode content declaredType with
    | none => .error undecodable
    | some page => .ok (service.platform.htmlText page)
  else if media = "application/json" ∨ ("+json".toList).isSuffixOf media.toList = true then
    match service.platform.decode content declaredType with
    | none => .error undecodable
    | some text => match service.platform.prettyJson text with
      | none => .error (.unsupportedContent "invalid JSON response")
      | some pretty => .ok (none,pretty)
  else if ("text/".toList).isPrefixOf media.toList then
    match service.platform.decode content declaredType with
    | none => .error undecodable
    | some text => .ok (none,service.platform.cleanText text)
  else if media = "application/pdf" then
    match world.pdfExtractor with
    | none => .error (.unsupportedContent "PDF extraction requires a configured extractor")
    | some extract => match extract content url with
      | none => .error .raised
      | some text => .ok (none,text)
  else .error (.unsupportedContent ("unsupported web content type: " ++ media))

def buildDocument (requestedUrl finalUrl : String) (response : HttpResponse) :
    Except WebError FetchDocument :=
  if ¬(200 ≤ response.status ∧ response.status ≤ 299) then
    .error (.accessError s!"web server returned HTTP {response.status}")
  else
    let encoding := strip (service.platform.lower
      ((response.headers.get? "content-encoding").getD ""))
    match service.boundedDecompress response.body encoding service.limits.maxContentBytes with
    | .error error => .error error
    | .ok content =>
      let declaredType := (response.headers.get? "content-type").getD "text/plain"
      match service.extractText world content declaredType finalUrl with
      | .error error => .error error
      | .ok (title,text) =>
        let truncated := decide (service.limits.maxTextCharacters < text.toList.length)
        .ok
          { requestedUrl
            finalUrl
            status := response.status
            contentType := service.mediaType declaredType
            title
            text := if truncated then
              String.ofList (text.toList.take service.limits.maxTextCharacters) else text
            truncated }

def fetch (url : String) : Outcome FetchDocument :=
  match service.fetchLoop world service.limits.maxRedirects url [] with
  | (.error error,events) => (.error error,events)
  | (.ok (finalUrl,response),events) => (service.buildDocument world url finalUrl response,events)

end WebFetchService
end SuiteHarness.Web
