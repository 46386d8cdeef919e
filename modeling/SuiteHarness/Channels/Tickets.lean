import SuiteHarness.CanonicalJson
import SuiteHarness.Identifier
import SuiteHarness.Library.Results

/-!
# Company session tickets

`HmacSessionTokenCodec` issues and verifies tickets. JSON text, base64url and
HMAC are taken as faithful: a segment is the base64url text of one JSON object
or of one digest, and a ticket is the list of the segments between its dots.
Clock readings are the non-negative numbers that `time.time` returns.
-/

set_option autoImplicit false

namespace SuiteHarness.Channels.Tickets
open SuiteHarness.Library.Results

inductive TicketError where
  | valueError (message : String)
  | sessionToken (message : String)
  /-- `hmac.compare_digest` of a string that is not ASCII. -/
  | typeError
  deriving DecidableEq

/-- The length of base64url text without padding. -/
def base64Chars (bytes : ℕ) : ℕ := (4*bytes+2)/3

structure Coding (S : Type) where
  chars : S → ℕ
  /-- `_base64url_encode(_canonical_json(value))`. -/
  encode : Json → S
  /-- `_decode_json_object(_base64url_decode(segment))`. -/
  decode : S → Except TicketError Json
  /-- The encoded `hmac.digest` of `header.payload` under a key. -/
  digest : List UInt8 → S → S → S
  /-- The segment decodes to 32 bytes. -/
  isDigest : S → Bool
  decode_encode : ∀ fields, (Json.obj fields).canon = .obj fields →
    decode (encode (.obj fields)) = .ok (.obj fields)
  digest_size : ∀ key header payload, isDigest (digest key header payload) = true
  encode_chars : ∀ fields, chars (encode (.obj fields)) =
    base64Chars (utf8Length (Json.obj fields).render)
  digest_chars : ∀ key header payload, chars (digest key header payload) = base64Chars 32

structure AuthenticatedPrincipal where
  tenantId : String
  principalId : String
  roles : Finset String
  ids : isIdentifier tenantId = true ∧ isIdentifier principalId = true
  rolesValid : ∀ role ∈ roles, isIdentifier role = true

def AuthenticatedPrincipal.validate (tenantId principalId : String) (roles : Finset String) :
    Option AuthenticatedPrincipal :=
  if h : (isIdentifier tenantId = true ∧ isIdentifier principalId = true) ∧
      ∀ role ∈ roles, isIdentifier role = true then
    some ⟨tenantId,principalId,roles,h.1,h.2⟩ else none

structure CompanySessionClaims where
  tenantId : String
  principalId : String
  roles : Finset String
  issuer : String
  audience : String
  iat : ℤ
  exp : ℤ

structure HmacSessionTokenCodec where
  key : List UInt8
  issuer : String
  audience : String
  tenantId : String
  maximumLifetime : ℤ
  futureClockSkew : ℤ
  maximumChars : ℤ

def boundedText (value field : String) : Except TicketError String :=
  if value = "" ∨ 512 < value.toList.length ∨ Char.ofNat 0 ∈ value.toList then
    .error (.valueError ("invalid session token " ++ field))
  else .ok value

def isAscii (value : String) : Bool := value.toList.all (fun c => decide (c.toNat < 128))

def compareDigest (a b : String) : Except TicketError Bool :=
  if isAscii a && isAscii b then .ok (decide (a = b)) else .error .typeError

def seconds (clock : ℚ≥0) : ℤ := (⌊clock⌋₊ : ℕ)

namespace HmacSessionTokenCodec

def construct (key : List UInt8) (issuer audience tenantId : String)
    (maxLifetimeSeconds : ℤ := 900) (futureClockSkewSeconds : ℤ := 0)
    (maxTokenChars : ℤ := 8192) : Except TicketError HmacSessionTokenCodec :=
  if key.length < 32 then .error (.valueError "session token key must contain at least 32 bytes")
  else if maxLifetimeSeconds ≤ 0 then
    .error (.valueError "max_lifetime_seconds must be a positive integer")
  else if futureClockSkewSeconds < 0 then
    .error (.valueError "future_clock_skew_seconds must be a non-negative integer")
  else if maxTokenChars ≤ 0 then .error (.valueError "max_token_chars must be a positive integer")
  else if !(isIdentifier tenantId) then .error (.valueError "invalid session token tenant_id")
  else do
    let issuer ← boundedText issuer "issuer"
    let audience ← boundedText audience "audience"
    pure ⟨key,issuer,audience,tenantId,maxLifetimeSeconds,futureClockSkewSeconds,maxTokenChars⟩

theorem construct_ok {key : List UInt8} {issuer audience tenantId : String}
    {maxLifetimeSeconds futureClockSkewSeconds maxTokenChars : ℤ} {codec : HmacSessionTokenCodec}
    (h : construct key issuer audience tenantId maxLifetimeSeconds futureClockSkewSeconds
      maxTokenChars = .ok codec) :
    codec = ⟨key,issuer,audience,tenantId,maxLifetimeSeconds,futureClockSkewSeconds,maxTokenChars⟩ ∧
      0 ≤ futureClockSkewSeconds := by
  obtain ⟨_,h⟩ := guard_ok h
  obtain ⟨_,h⟩ := guard_ok h
  obtain ⟨hskew,h⟩ := guard_ok h
  obtain ⟨_,h⟩ := guard_ok h
  obtain ⟨_,h⟩ := guard_ok h
  obtain ⟨i,hi,h⟩ := bind_ok h
  obtain ⟨a,ha,h⟩ := bind_ok h
  cases h
  cases (guard_ok hi).2
  cases (guard_ok ha).2
  exact ⟨rfl,not_lt.mp hskew⟩

def headerJson : Json := .obj [("alg",.str "HS256"),("typ",.str "SUITEHARNESS-SESSION"),("v",.int 1)]

def claimKeys : Finset String := {"aud","exp","iat","iss","principal_id","roles","tenant_id"}

def payloadJson (codec : HmacSessionTokenCodec) (principal : AuthenticatedPrincipal)
    (issuedAt lifetime : ℤ) : Json :=
  .obj [("aud",.str codec.audience),("exp",.int (issuedAt+lifetime)),("iat",.int issuedAt),
    ("iss",.str codec.issuer),("principal_id",.str principal.principalId),
    ("roles",.arr ((principal.roles.sort (· ≤ ·)).map .str)),("tenant_id",.str principal.tenantId)]

variable {S : Type} (coding : Coding S) (codec : HmacSessionTokenCodec)

def tokenChars (token : List S) : ℕ := (token.map coding.chars).sum+(token.length-1)

def issue (principal : AuthenticatedPrincipal) (clock : ℚ≥0) (lifetimeSeconds : ℤ := 300) :
    Except TicketError (List S) :=
  if principal.tenantId ≠ codec.tenantId then
    .error (.valueError "cannot issue a session ticket for another tenant")
  else if lifetimeSeconds ≤ 0 ∨ codec.maximumLifetime < lifetimeSeconds then
    .error (.valueError "session ticket lifetime is outside the configured limit")
  else
    let header := coding.encode headerJson
    let payload := coding.encode (codec.payloadJson principal (seconds clock) lifetimeSeconds)
    .ok [header,payload,coding.digest codec.key header payload]

def roleTexts : Json → Option (List String)
  | .arr items => items.mapM (fun item => match item with
    | .str role => some role
    | _ => none)
  | _ => none

def invalidClaims : TicketError := .sessionToken "invalid company session ticket claims"

def requireText (value expected message : String) : Except TicketError Unit := do
  if ← compareDigest value expected then pure () else .error (.sessionToken message)

def validateClaims (payload : Json) (clock : ℚ≥0) : Except TicketError CompanySessionClaims :=
  match payload.get? "iss", payload.get? "aud", payload.get? "tenant_id",
      payload.get? "principal_id" with
  | some (.str issuer), some (.str audience), some (.str tenantId), some (.str principalId) => do
    requireText issuer codec.issuer "company session ticket issuer mismatch"
    requireText audience codec.audience "company session ticket audience mismatch"
    requireText tenantId codec.tenantId "company session ticket tenant mismatch"
    match payload.get? "iat", payload.get? "exp" with
    | some (.int issuedAt), some (.int expiresAt) =>
      let now := seconds clock
      if now+codec.futureClockSkew < issuedAt then
        .error (.sessionToken "company session ticket was issued in the future")
      else if expiresAt ≤ now then .error (.sessionToken "company session ticket has expired")
      else if expiresAt ≤ issuedAt ∨ codec.maximumLifetime < expiresAt-issuedAt then
        .error (.sessionToken "company session ticket lifetime is invalid")
      else match (payload.get? "roles").bind roleTexts with
        | none => .error (.sessionToken "invalid company session ticket roles")
        | some roles =>
          if ¬ roles.Nodup then .error (.sessionToken "invalid company session ticket roles")
          else match AuthenticatedPrincipal.validate tenantId principalId roles.toFinset with
            | none => .error (.sessionToken "invalid company session ticket identity")
            | some principal => .ok ⟨principal.tenantId,principal.principalId,principal.roles,
                issuer,audience,issuedAt,expiresAt⟩
    | _, _ => .error (.sessionToken "invalid company session ticket timestamps")
  | _, _, _, _ => .error invalidClaims

def keys : Json → Finset String
  | .obj fields => (fields.map Prod.fst).toFinset
  | _ => ∅

def verify [DecidableEq S] (token : List S) (clock : ℚ≥0) : Except TicketError CompanySessionClaims :=
  if tokenChars coding token = 0 ∨ codec.maximumChars < tokenChars coding token then
    .error (.sessionToken "invalid company session ticket")
  else match token with
  | [header,payload,signature] =>
    if !(coding.isDigest signature) then
      .error (.sessionToken "invalid company session ticket signature")
    else if signature ≠ coding.digest codec.key header payload then
      .error (.sessionToken "invalid company session ticket signature")
    else do
      let header ← coding.decode header
      if header.canon ≠ headerJson.canon then
        .error (.sessionToken "unsupported company session ticket algorithm")
      else
        let payload ← coding.decode payload
        if keys payload ≠ claimKeys then .error invalidClaims
        else codec.validateClaims payload clock
  | _ => .error (.sessionToken "invalid company session ticket")

theorem role_texts_of_texts (roles : List String) :
    roleTexts (.arr (roles.map .str)) = some roles := by
  rw [roleTexts]
  induction roles with
  | nil => rfl
  | cons role roles ih =>
    rw [List.map_cons, List.mapM_cons]
    simp only [Option.pure_def, Option.bind_eq_bind, Option.bind_some] at ih ⊢
    rw [ih, Option.bind_some]

theorem require_same (value message : String) (h : isAscii value = true) :
    requireText value value message = .ok () := by
  simp [requireText, compareDigest, h, bind, Except.bind, pure, Except.pure]

/-- Texts that are not ASCII cannot be compared, whatever they are. -/
theorem require_wide (value message : String) (h : isAscii value = false) :
    requireText value value message = .error .typeError := by
  simp [requireText, compareDigest, h, bind, Except.bind]

theorem identifier_ascii (value : String) (h : isIdentifier value = true) :
    isAscii value = true := by
  rw [isAscii, List.all_eq_true]
  intro c hc
  rw [decide_eq_true_eq]
  rcases (identifier_chars h).2 c hc with halnum | hother
  · have hrange := alnum_range c halnum
    omega
  · simp only [List.mem_cons, List.not_mem_nil, or_false] at hother
    rcases hother with rfl | rfl | rfl | rfl <;> decide

variable {coding codec} {principal : AuthenticatedPrincipal} {clock later : ℚ≥0} {lifetime : ℤ}
  {token : List S}

theorem payload_canon (issuedAt : ℤ) :
    (codec.payloadJson principal issuedAt lifetime).canon =
      codec.payloadJson principal issuedAt lifetime := by
  have htexts : (Json.arr ((principal.roles.sort (· ≤ ·)).map .str)).canon =
      .arr ((principal.roles.sort (· ≤ ·)).map .str) := by
    rw [Json.canon_arr, List.map_map]
    rfl
  have hkeys : ["aud","exp","iat","iss","principal_id","roles","tenant_id"].Pairwise (· ≤ ·) := by
    decide
  rw [payloadJson, Json.canon_obj_sorted]
  · simp only [List.map_cons, List.map_nil, htexts]
    rfl
  · exact hkeys

theorem issue_ok (h : issue coding codec principal clock lifetime = .ok token) :
    (principal.tenantId = codec.tenantId ∧ 0 < lifetime ∧ lifetime ≤ codec.maximumLifetime) ∧
      token = [coding.encode headerJson,
        coding.encode (codec.payloadJson principal (seconds clock) lifetime),
        coding.digest codec.key (coding.encode headerJson)
          (coding.encode (codec.payloadJson principal (seconds clock) lifetime))] := by
  obtain ⟨htenant,h⟩ := guard_ok h
  obtain ⟨hlifetime,h⟩ := guard_ok h
  rw [not_or, not_le, not_lt] at hlifetime
  exact ⟨⟨not_not.mp htenant,hlifetime⟩,(Except.ok.inj h).symm⟩

/-- The header has 67 characters and the digest 43, with two dots between. -/
theorem token_chars (h : issue coding codec principal clock lifetime = .ok token) :
    tokenChars coding token = base64Chars (utf8Length
      (codec.payloadJson principal (seconds clock) lifetime).render)+112 := by
  have hheader : base64Chars (utf8Length headerJson.render) = 67 := by decide +kernel
  rw [(issue_ok h).2, tokenChars]
  simp only [List.map_cons, List.map_nil, List.sum_cons, List.sum_nil, coding.digest_chars]
  rw [headerJson, payloadJson, coding.encode_chars, coding.encode_chars, ← headerJson, ← payloadJson,
    hheader]
  simp only [List.length_cons, List.length_nil, base64Chars]
  omega

theorem validate_self :
    AuthenticatedPrincipal.validate principal.tenantId principal.principalId principal.roles =
      some principal := dif_pos ⟨principal.ids,principal.rolesValid⟩

theorem seconds_mono (h : clock ≤ later) : seconds clock ≤ seconds later :=
  Int.ofNat_le.mpr (Nat.floor_le_floor h)

section Unexpired
variable (hissue : issue coding codec principal clock lifetime = .ok token)
variable (hskew : 0 ≤ codec.futureClockSkew) (hfrom : clock ≤ later)
variable (huntil : seconds later < seconds clock+lifetime)
include hissue hskew hfrom huntil

/-- A ticket that has not expired at this reading passes every check on its
claims but the comparisons of issuer and audience. -/
theorem validate_claims_issued :
    codec.validateClaims (codec.payloadJson principal (seconds clock) lifetime) later =
      (do requireText codec.issuer codec.issuer "company session ticket issuer mismatch"
          requireText codec.audience codec.audience "company session ticket audience mismatch"
          pure ⟨principal.tenantId,principal.principalId,principal.roles,codec.issuer,
            codec.audience,seconds clock,seconds clock+lifetime⟩) := by
  obtain ⟨⟨htenant,hpos,hmax⟩,-⟩ := issue_ok hissue
  have hmono := seconds_mono hfrom
  have hsame : requireText principal.tenantId codec.tenantId
      "company session ticket tenant mismatch" = .ok () := by
    rw [← htenant]
    exact require_same _ _ (identifier_ascii _ principal.ids.1)
  have hroles : (Finset.sort principal.roles (· ≤ ·)).toFinset = principal.roles :=
    Finset.sort_toFinset _ _
  have hearly : ¬ seconds later+codec.futureClockSkew < seconds clock := by omega
  have hspan : ¬ (seconds clock+lifetime ≤ seconds clock ∨
      codec.maximumLifetime < seconds clock+lifetime-seconds clock) := by omega
  unfold validateClaims
  simp only [payloadJson, Json.get?, List.find?, decide_true, decide_false, Option.map_some,
    String.reduceEq, hsame, if_neg hearly, if_neg (not_le.mpr huntil), if_neg hspan,
    Option.bind_some, role_texts_of_texts, Finset.sort_nodup, not_true_eq_false, if_false,
    hroles, validate_self]
  rfl

theorem verify_issued [DecidableEq S]
    (hchars : (tokenChars coding token : ℤ) ≤ codec.maximumChars) :
    verify coding codec token later =
      (do requireText codec.issuer codec.issuer "company session ticket issuer mismatch"
          requireText codec.audience codec.audience "company session ticket audience mismatch"
          pure ⟨principal.tenantId,principal.principalId,principal.roles,codec.issuer,
            codec.audience,seconds clock,seconds clock+lifetime⟩) := by
  have htoken := (issue_ok hissue).2
  have hdots : tokenChars coding token ≠ 0 := by
    rw [htoken, tokenChars]
    simp
  have hheader : coding.decode (coding.encode headerJson) = .ok headerJson :=
    coding.decode_encode _ (by decide)
  have hpayload : coding.decode
      (coding.encode (codec.payloadJson principal (seconds clock) lifetime)) =
        .ok (codec.payloadJson principal (seconds clock) lifetime) :=
    coding.decode_encode _ (payload_canon _)
  have hkeys : keys (codec.payloadJson principal (seconds clock) lifetime) = claimKeys := rfl
  rw [← validate_claims_issued hissue hskew hfrom huntil]
  unfold verify
  rw [if_neg (not_or.mpr ⟨hdots,not_lt.mpr hchars⟩)]
  subst htoken
  simp only [coding.digest_size, Bool.not_true, Bool.false_eq_true, if_false, ne_eq,
    not_true_eq_false, hheader, hpayload, hkeys, bind, Except.bind]

end Unexpired

/-- A ticket is verified until it expires, for the principal it was issued to,
exactly when issuer and audience are ASCII and the text of its payload is not too
long for the characters that the codec reads. -/
theorem issued_ticket_verifies_iff [DecidableEq S] (coding : Coding S) (key : List UInt8)
    (issuer audience tenantId : String)
    (maxLifetimeSeconds futureClockSkewSeconds maxTokenChars : ℤ) (codec : HmacSessionTokenCodec)
    (hcodec : construct key issuer audience tenantId maxLifetimeSeconds futureClockSkewSeconds
      maxTokenChars = .ok codec)
    (principal : AuthenticatedPrincipal) (clock later : ℚ≥0) (lifetime : ℤ) (token : List S)
    (hissue : issue coding codec principal clock lifetime = .ok token) (hfrom : clock ≤ later)
    (huntil : (later : ℚ) < seconds clock+lifetime) :
    (∃ claims, verify coding codec token later = .ok claims ∧
      claims.tenantId = principal.tenantId ∧ claims.principalId = principal.principalId ∧
      claims.roles = principal.roles) ↔
      isAscii issuer = true ∧ isAscii audience = true ∧
        ((base64Chars (utf8Length (codec.payloadJson principal (seconds clock) lifetime).render)+112 :
          ℕ) : ℤ) ≤ maxTokenChars := by
  rw [← token_chars hissue]
  obtain ⟨hfields,hskew⟩ := construct_ok hcodec
  have hskew' : 0 ≤ codec.futureClockSkew := by rw [hfields]; exact hskew
  have hexpiry : seconds later < seconds clock+lifetime := by
    have hle : ((seconds later : ℤ) : ℚ) ≤ later := by
      rw [seconds, Int.cast_natCast]
      exact_mod_cast Nat.floor_le (zero_le : 0 ≤ later)
    exact_mod_cast hle.trans_lt huntil
  by_cases hchars : (tokenChars coding token : ℤ) ≤ maxTokenChars
  · rw [verify_issued hissue hskew' hfrom hexpiry (by rw [hfields]; exact hchars)]
    rw [hfields]
    cases hissuer : isAscii issuer with
    | false =>
      rw [require_wide _ _ hissuer]
      simp [bind, Except.bind]
    | true =>
      rw [require_same _ _ hissuer]
      cases haudience : isAscii audience with
      | false =>
        rw [require_wide _ _ haudience]
        simp [bind, Except.bind]
      | true =>
        rw [require_same _ _ haudience]
        simp [bind, Except.bind, pure, Except.pure, hchars]
  · have hrefused : verify coding codec token later =
        .error (.sessionToken "invalid company session ticket") := by
      unfold verify
      rw [if_pos (.inr (by rw [hfields]; exact not_le.mp hchars))]
    simp [hrefused, hchars]

def plainCoding : Coding Json where
  chars
    | .arr _ => base64Chars 32
    | v => base64Chars (utf8Length v.render)
  encode v := v
  decode v := .ok v
  digest _ header payload := .arr [header,payload]
  isDigest := Json.isArr
  decode_encode _ _ := rfl
  digest_size _ _ _ := rfl
  encode_chars _ := rfl
  digest_chars _ _ _ := rfl

def alice : AuthenticatedPrincipal :=
  ⟨"acme","alice",["admin","support"].toFinset,by decide,by decide⟩

def codecOf (issuer : String) (maxTokenChars : ℤ) : HmacSessionTokenCodec :=
  ⟨List.replicate 32 0,issuer,"api","acme",900,0,maxTokenChars⟩

def ticketOf (issuer : String) (maxTokenChars : ℤ) : List Json :=
  let payload := (codecOf issuer maxTokenChars).payloadJson alice (seconds 5) 300
  [headerJson,payload,.arr [headerJson,payload]]

theorem five_seconds : seconds 5 = 5 := by
  rw [seconds, Nat.floor_ofNat]
  rfl

theorem alice_payload (issuer : String) (maxTokenChars : ℤ) :
    (codecOf issuer maxTokenChars).payloadJson alice (seconds 5) 300 =
      .obj [("aud",.str "api"),("exp",.int 305),("iat",.int 5),("iss",.str issuer),
        ("principal_id",.str "alice"),("roles",.arr [.str "admin",.str "support"]),
        ("tenant_id",.str "acme")] := by
  have hroles : alice.roles.sort (· ≤ ·) = ["admin","support"] :=
    (List.toFinset_sort (· ≤ ·) (by decide)).mpr (by decide)
  rw [payloadJson, hroles, five_seconds]
  rfl

theorem short_ticket_verifies :
    construct (List.replicate 32 0) "sso" "api" "acme" = .ok (codecOf "sso" 8192) ∧
      issue plainCoding (codecOf "sso" 8192) alice 5 = .ok (ticketOf "sso" 8192) ∧
      ∃ claims, verify plainCoding (codecOf "sso" 8192) (ticketOf "sso" 8192) 9 = .ok claims ∧
        claims.tenantId = alice.tenantId ∧ claims.principalId = alice.principalId ∧
        claims.roles = alice.roles := by
  have hcodec : construct (List.replicate 32 0) "sso" "api" "acme" = .ok (codecOf "sso" 8192) := rfl
  have hissue : issue plainCoding (codecOf "sso" 8192) alice 5 = .ok (ticketOf "sso" 8192) := rfl
  have huntil : ((9 : ℚ≥0) : ℚ) < seconds 5+(300 : ℤ) := by
    rw [five_seconds]
    norm_num
  refine ⟨hcodec,hissue,?_⟩
  refine (issued_ticket_verifies_iff plainCoding _ _ _ _ _ _ _ _ hcodec alice 5 9 300 _ hissue
    (by norm_num) huntil).mpr ⟨by decide,by decide,?_⟩
  rw [alice_payload]
  decide +kernel

/-- An accepted issuer with an accent makes every verification raise `TypeError`;
a small `max_token_chars` refuses every ticket. -/
theorem issued_tickets_refused :
    (construct (List.replicate 32 0) "société" "api" "acme" = .ok (codecOf "société" 8192) ∧
      issue plainCoding (codecOf "société" 8192) alice 5 = .ok (ticketOf "société" 8192) ∧
      verify plainCoding (codecOf "société" 8192) (ticketOf "société" 8192) 5 =
        .error .typeError) ∧
    construct (List.replicate 32 0) "sso" "api" "acme" 900 0 64 = .ok (codecOf "sso" 64) ∧
      issue plainCoding (codecOf "sso" 64) alice 5 = .ok (ticketOf "sso" 64) ∧
      verify plainCoding (codecOf "sso" 64) (ticketOf "sso" 64) 5 =
        .error (.sessionToken "invalid company session ticket") := by
  have hissue : ∀ issuer limit, issue plainCoding (codecOf issuer limit) alice 5 =
      .ok (ticketOf issuer limit) := fun _ _ => rfl
  refine ⟨⟨rfl,hissue _ _,?_⟩,rfl,hissue _ _,?_⟩
  · rw [verify_issued (hissue _ _) (by decide) le_rfl (by omega)]
    · rfl
    · rw [token_chars (hissue _ _), alice_payload]
      decide +kernel
  · refine if_pos (.inr ?_)
    rw [token_chars (hissue _ _)]
    change (64 : ℤ) < _
    omega

end HmacSessionTokenCodec

end SuiteHarness.Channels.Tickets
