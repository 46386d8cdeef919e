import SuiteHarness.Library.CutText

/-!
# Server-sent events

`parse_sse` of the MCP transports over a finite body. What a digit is and what
`int` reads is given; the two differ, as for the superscript digits.
-/

set_option autoImplicit false

namespace SuiteHarness.Mcp
open SuiteHarness.Library

structure UnicodeDigits where
  isDigit : Char → Bool
  decimal : Char → Option ℕ
  superscript : isDigit '²' = true ∧ decimal '²' = none

structure ServerSentEvent where
  data : List Char
  event : Option (List Char) := none
  eventId : Option (List Char) := none
  retryMs : Option ℕ := none

inductive SseError where
  | protocol (text : String)
  | value (text : String)

structure SseLimits where
  maxMessageBytes : ℤ
  maxEvents : ℤ

def wireSize (text : List Char) : ℕ := (CutText.encodeText text).length

def validField (value : Option (List Char)) : Bool :=
  value.all (fun v => wireSize v ≤ 4096 && ['\x00','\r','\n'].all (fun c => !v.contains c))

def validateSseEvent (limits : SseLimits) (item : ServerSentEvent) : Except SseError Unit :=
  if limits.maxMessageBytes < wireSize item.data then
    .error (.protocol "SSE event data exceeds max_message_bytes")
  else if !validField item.event then .error (.protocol "invalid SSE event")
  else if !validField item.eventId then .error (.protocol "invalid SSE event id")
  else if item.retryMs.any (86400000 < ·) then .error (.protocol "invalid SSE retry value")
  else .ok ()

structure SseState where
  events : List ServerSentEvent := []
  data : List (List Char) := []
  event : Option (List Char) := none
  eventId : Option (List Char) := none
  retryMs : Option ℕ := none

def SseState.commit (limits : SseLimits) (s : SseState) : Except SseError SseState :=
  if s.data = [] then .ok { events := s.events }
  else if limits.maxEvents ≤ s.events.length then
    .error (.protocol "SSE response exceeds max_stream_events")
  else
    let item : ServerSentEvent := ⟨['\n'].intercalate s.data,s.event,s.eventId,s.retryMs⟩
    match validateSseEvent limits item with
    | .error e => .error e
    | .ok () => .ok { events := s.events++[item] }

def partitionLine (line : List Char) : List Char × List Char :=
  let raw := (line.dropWhile (· ≠ ':')).tail
  (line.takeWhile (· ≠ ':'),if raw.head? = some ' ' then raw.tail else raw)

def isDigits (unicode : UnicodeDigits) (value : List Char) : Bool :=
  value ≠ [] && value.all unicode.isDigit

def readInt (unicode : UnicodeDigits) (value : List Char) : Option ℕ :=
  (value.mapM unicode.decimal).map (Nat.ofDigits 10 ·.reverse)

def SseState.read (unicode : UnicodeDigits) (limits : SseLimits) (s : SseState)
    (line : List Char) : Except SseError SseState :=
  let (field,value) := partitionLine line
  if line = [] then s.commit limits
  else if line.head? = some ':' then .ok s
  else if field = "data".toList then .ok { s with data := s.data++[value] }
  else if field = "event".toList then .ok { s with event := some value }
  else if field = "id".toList ∧ '\x00' ∉ value then .ok { s with eventId := some value }
  else if field = "retry".toList ∧ isDigits unicode value then
    if 8 < value.length then .error (.protocol "invalid SSE retry value")
    else match readInt unicode value with
      | some n => .ok { s with retryMs := some n }
      | none => .error (.value "invalid literal for int()")
  else .ok s

def replaceCrLf : List Char → List Char
  | '\r':: '\n'::cs => '\n'::replaceCrLf cs
  | c::cs => c::replaceCrLf cs
  | [] => []

def textLines (text : List Char) : List (List Char) :=
  ((replaceCrLf text).map (fun c => if c = '\r' then '\n' else c)).splitOn '\n'

def decodeUtf8 (payload : List UInt8) : Option (List Char) :=
  let (text,rest) := CutText.decodeWhole (payload.length+1) payload
  if rest = [] then some text else none

def parseSse (unicode : UnicodeDigits) (limits : SseLimits) (payload : List UInt8) :
    Except SseError (List ServerSentEvent) :=
  if limits.maxMessageBytes < 1 ∨ limits.maxEvents < 1 then
    .error (.value "SSE bounds must be positive")
  else if limits.maxMessageBytes < payload.length then
    .error (.protocol "SSE payload exceeds max_message_bytes")
  else match decodeUtf8 payload with
    | none => .error (.protocol "SSE payload is not UTF-8")
    | some text =>
      ((textLines text).foldlM (SseState.read unicode limits) {} >>= SseState.commit limits).map
        SseState.events

/-! Every outcome is a list of valid events or a protocol error. -/

variable {unicode : UnicodeDigits} {limits : SseLimits} {s : SseState} {line : List Char}

def Proper (limits : SseLimits) : Except SseError SseState → Prop
  | .ok s => ∀ item ∈ s.events, validateSseEvent limits item = .ok ()
  | .error e => ∃ text, e = .protocol text

def DecimalRetry (unicode : UnicodeDigits) (line : List Char) : Prop :=
  (partitionLine line).1 = "retry".toList → isDigits unicode (partitionLine line).2 = true →
    (partitionLine line).2.length ≤ 8 → readInt unicode (partitionLine line).2 ≠ none

theorem proper_validate (item : ServerSentEvent) {e : SseError}
    (h : validateSseEvent limits item = .error e) : ∃ text, e = .protocol text := by
  rw [validateSseEvent] at h
  split_ifs at h <;> exact ⟨_,(Except.error.inj h).symm⟩

theorem proper_commit (h : Proper limits (.ok s)) : Proper limits (s.commit limits) := by
  rw [SseState.commit]
  split_ifs
  · exact h
  · exact ⟨_,rfl⟩
  · simp only
    cases hvalid : validateSseEvent limits ⟨['\n'].intercalate s.data,s.event,s.eventId,s.retryMs⟩ with
    | error e => exact proper_validate _ hvalid
    | ok _ =>
      intro item hitem
      rcases List.mem_append.mp hitem with hold | hnew
      · exact h item hold
      · rw [List.mem_singleton.mp hnew]
        exact hvalid

theorem proper_read (hline : DecimalRetry unicode line) (h : Proper limits (.ok s)) :
    Proper limits (s.read unicode limits line) := by
  simp only [SseState.read]
  split_ifs with hempty hcomment hdata hevent hid hretry hlong
  · exact proper_commit h
  · exact h
  · exact h
  · exact h
  · exact h
  · exact ⟨_,rfl⟩
  · cases hint : readInt unicode (partitionLine line).2 with
    | some n => exact h
    | none => exact absurd hint (hline hretry.1 hretry.2 (not_lt.mp hlong))
  · exact h

theorem read_escapes (hline : ¬DecimalRetry unicode line) :
    s.read unicode limits line = .error (.value "invalid literal for int()") := by
  simp only [DecimalRetry, not_forall, not_not] at hline
  obtain ⟨hfield,hdigits,hshort,hint⟩ := hline
  have hne : line ≠ [] := by
    rintro rfl
    revert hfield
    decide
  have hcomment : line.head? ≠ some ':' := by
    intro hhead
    obtain ⟨rest,rfl⟩ := List.head?_eq_some_iff.mp hhead
    revert hfield
    simp [partitionLine]
  simp only [SseState.read, hint]
  rw [if_neg hne, if_neg hcomment, hfield, if_neg (by decide), if_neg (by decide),
    if_neg (fun h => absurd h.1 (by decide)), if_pos ⟨rfl,hdigits⟩, if_neg (not_lt.mpr hshort)]

/-- The lines before this one are read without an error. -/
def Reached (unicode : UnicodeDigits) (limits : SseLimits) (s : SseState) (ls : List (List Char))
    (line : List Char) : Prop :=
  ∃ before after s', ls = before++line::after ∧
    before.foldlM (SseState.read unicode limits) s = .ok s'

theorem reached_escapes {ls : List (List Char)} (h : Reached unicode limits s ls line)
    (hline : ¬DecimalRetry unicode line) : ls.foldlM (SseState.read unicode limits) s =
      .error (.value "invalid literal for int()") := by
  obtain ⟨before,after,s',rfl,hbefore⟩ := h
  simp only [List.foldlM_append, hbefore, List.foldlM_cons, bind, Except.bind, read_escapes hline]

theorem proper_lines {ls : List (List Char)}
    (hls : ∀ line, Reached unicode limits s ls line → DecimalRetry unicode line)
    (h : Proper limits (.ok s)) :
    Proper limits (ls.foldlM (SseState.read unicode limits) s) := by
  induction ls generalizing s with
  | nil => exact h
  | cons first ls ih =>
    have hread := proper_read (hls first ⟨[],ls,s,rfl,rfl⟩) h
    rw [List.foldlM_cons]
    cases hfirst : s.read unicode limits first with
    | error e =>
      rw [hfirst] at hread
      exact hread
    | ok s' =>
      rw [hfirst] at hread
      refine ih ?_ hread
      rintro line ⟨before,after,t,rfl,hbefore⟩
      refine hls line ⟨first::before,after,t,rfl,?_⟩
      rw [List.foldlM_cons, hfirst]
      exact hbefore

/-- Hostile input causes protocol errors only, exactly unless a body within the
size limit has a short `retry` value with a digit that is no decimal digit, in a line
before which nothing is refused. -/
theorem sse_fails_by_protocol_errors (unicode : UnicodeDigits) (limits : SseLimits)
    (hbytes : 1 ≤ limits.maxMessageBytes) (hevents : 1 ≤ limits.maxEvents) (payload : List UInt8) :
    ((∃ events, parseSse unicode limits payload = .ok events ∧
      ∀ item ∈ events, validateSseEvent limits item = .ok ()) ∨
    ∃ text, parseSse unicode limits payload = .error (.protocol text)) ↔
    (payload.length ≤ limits.maxMessageBytes → ∀ text, decodeUtf8 payload = some text →
      ∀ line, Reached unicode limits {} (textLines text) line → DecimalRetry unicode line) := by
  rw [parseSse, if_neg (by omega)]
  split_ifs with hsize
  · exact ⟨fun _ hle => absurd hle (not_le.mpr hsize),fun _ => .inr ⟨_,rfl⟩⟩
  cases htext : decodeUtf8 payload with
  | none => exact ⟨nofun,fun _ => .inr ⟨_,rfl⟩⟩
  | some text =>
    constructor
    · rintro hproper - _ ⟨⟩ line hline
      by_contra hbad
      simp [reached_escapes hline hbad, bind, Except.bind, Except.map] at hproper
    · intro hretry
      have hlines := @proper_lines unicode limits {} _ (hretry (not_lt.mp hsize) text rfl) nofun
      simp only
      cases hread : (textLines text).foldlM (SseState.read unicode limits) {} with
      | error e =>
        rw [hread] at hlines
        obtain ⟨reason,rfl⟩ := hlines
        exact .inr ⟨reason,rfl⟩
      | ok s =>
        rw [hread] at hlines
        have hcommit := proper_commit hlines
        change (∃ events, (s.commit limits).map SseState.events = _ ∧ _) ∨ _
        cases hlast : s.commit limits with
        | error e =>
          rw [hlast] at hcommit
          obtain ⟨reason,rfl⟩ := hcommit
          exact .inr ⟨reason,by simp [bind, Except.bind, hlast, Except.map]⟩
        | ok s =>
          rw [hlast] at hcommit
          exact .inl ⟨s.events,rfl,hcommit⟩

theorem decode_utf8_encode (text : List Char) :
    decodeUtf8 (CutText.encodeText text) = some text := by
  have h := CutText.decode_whole_encode text [] CutText.unfinished_nil
    ((CutText.encodeText text).length+1) (Nat.lt_succ_of_le (CutText.length_le_encode text))
  rw [List.append_nil] at h
  simp [decodeUtf8, h]

def latinDigits : UnicodeDigits where
  isDigit c := c.isDigit || c = '²'
  decimal c := if c.isDigit then some (c.toNat-48) else none
  superscript := by decide

/-- A `retry` value that is too long is refused before a later one is read. -/
theorem long_retry_fails_by_protocol_error :
    let payload := CutText.encodeText "retry:123456789\nretry:²".toList
    (∃ events, parseSse latinDigits ⟨1024,16⟩ payload = .ok events ∧
      ∀ item ∈ events, validateSseEvent ⟨1024,16⟩ item = .ok ()) ∨
    ∃ text, parseSse latinDigits ⟨1024,16⟩ payload = .error (.protocol text) := by
  refine (sse_fails_by_protocol_errors latinDigits ⟨1024,16⟩ (by decide) (by decide) _).mpr ?_
  rintro - text htext line ⟨before,after,s,hlines,hbefore⟩
  obtain rfl := Option.some.inj ((decode_utf8_encode _).symm.trans htext)
  rw [show textLines "retry:123456789\nretry:²".toList =
    ["retry:123456789".toList,"retry:²".toList] by decide +kernel] at hlines
  rcases before with _ | ⟨first,before⟩
  · cases hlines
    intro _ _ hshort
    revert hshort
    decide +kernel
  · rw [List.cons_append, List.cons.injEq] at hlines
    rw [List.foldlM_cons, ← hlines.1] at hbefore
    have hread : SseState.read latinDigits ⟨1024,16⟩ {} "retry:123456789".toList =
        .error (.protocol "invalid SSE retry value") := by rfl
    rw [hread] at hbefore
    cases hbefore

/-- Superscript two is a digit that `int` does not read. -/
theorem superscript_escapes : ∃ payload : List UInt8, ∀ unicode : UnicodeDigits,
    parseSse unicode ⟨1024,16⟩ payload = .error (.value "invalid literal for int()") := by
  refine ⟨CutText.encodeText "retry:²".toList,fun unicode => ?_⟩
  have hlines : textLines "retry:²".toList = ["retry:²".toList] := by decide +kernel
  have hline : partitionLine "retry:²".toList = ("retry".toList,['²']) := by decide +kernel
  have hbad : ¬DecimalRetry unicode "retry:²".toList := by
    rw [DecimalRetry, hline]
    simp [isDigits, readInt, unicode.superscript]
  have hreached : Reached unicode ⟨1024,16⟩ {} ["retry:²".toList] _ := ⟨[],[],{},rfl,rfl⟩
  rw [parseSse, if_neg (by decide), if_neg (by decide +kernel), decode_utf8_encode]
  simp only [hlines, reached_escapes hreached hbad]
  rfl

end SuiteHarness.Mcp
