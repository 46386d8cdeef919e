import SuiteHarness.Library.CutText
import SuiteHarness.Identifier
import SuiteHarness.Json

/-!
# The event stream of a model provider

`iter_sse_json` decodes a byte stream chunk by chunk into the JSON objects of its
events. A text within both limits is decoded alike however its bytes are cut.
-/

set_option autoImplicit false

namespace SuiteHarness.Models.SseJson
open SuiteHarness.Library

abbrev JsonObject := List (String × Json)

inductive StreamError where
  | valueError (message : String)
  | provider (message : String)
  | other
  deriving DecidableEq

/-- `json.loads` returns, raises `JSONDecodeError`, or raises something else. -/
inductive Loaded where
  | value (value : Json)
  | malformed
  | raised

/-- The objects that were yielded, and the value or the error behind them. -/
abbrev Emitted (α : Type) := List JsonObject × Except StreamError α

structure SseLimits where
  maxBytes : ℤ
  maxBufferCharacters : ℤ

/-- The local variables, and the bytes that the incremental decoder keeps. -/
structure Reader where
  buffer : List Char := []
  eventLines : List (List Char) := []
  received : ℕ := 0
  kept : List UInt8 := []

variable {α β γ : Type}

namespace Emitted

def fail (e : StreamError) : Emitted α := ([],.error e)

def andThen (x : Emitted α) (f : α → Emitted β) : Emitted β :=
  match x.2 with
  | .error e => (x.1,.error e)
  | .ok a => (x.1++(f a).1,(f a).2)

theorem and_then_ok (out : List JsonObject) (a : α) (f : α → Emitted β) :
    andThen (out,.ok a) f = (out++(f a).1,(f a).2) := rfl

theorem and_then_assoc (x : Emitted α) (f : α → Emitted β) (g : β → Emitted γ) :
    andThen (andThen x f) g = andThen x fun a => andThen (f a) g := by
  obtain ⟨out,e | a⟩ := x
  · rfl
  · rw [and_then_ok, and_then_ok]
    obtain ⟨out',e | b⟩ := f a
    · rfl
    · rw [and_then_ok, and_then_ok, List.append_assoc]

theorem and_then_congr {x : Emitted α} {f g : α → Emitted β} (h : ∀ a, x.2 = .ok a → f a = g a) :
    andThen x f = andThen x g := by
  obtain ⟨out,e | a⟩ := x
  · rfl
  · rw [and_then_ok, and_then_ok, h a rfl]

end Emitted

open Emitted

section
variable (loads : String → Loaded)

def decodeEvent (lines : List (List Char)) : Emitted Unit :=
  let data := ['\n'].intercalate ((lines.filter (fun line => "data:".toList.isPrefixOf line)).map
    (fun line => (line.drop 5).dropWhile isSpace))
  if data = [] ∨ data = "[DONE]".toList then ([],.ok ())
  else match loads (String.ofList data) with
    | .malformed => fail (.provider "model provider returned an invalid SSE JSON event")
    | .raised => fail .other
    | .value (.obj fields) => ([fields],.ok ())
    | .value _ => fail (.provider "model provider SSE event must be a JSON object")

def rstripCr (line : List Char) : List Char := line.rdropWhile (· = '\r')

def readLine (eventLines : List (List Char)) (line : List Char) : Emitted (List (List Char)) :=
  if rstripCr line ≠ [] then
    ([],.ok (if (rstripCr line).head? = some ':' then eventLines else eventLines++[rstripCr line]))
  else andThen (decodeEvent loads eventLines) fun _ => ([],.ok [])

/-- The loop over the lines of the buffer, of which `line` has no line end. -/
def drain (eventLines : List (List Char)) (line : List Char) :
    List Char → Emitted (List (List Char) × List Char)
  | [] => ([],.ok (eventLines,line))
  | c::cs =>
    if c = '\n' then andThen (readLine loads eventLines line) fun lines => drain lines [] cs
    else drain eventLines (line++[c]) cs

variable (decoder : CutText.IncrementalDecoder) (limits : SseLimits)

def readText (r : Reader) (text : List Char) : Emitted Reader :=
  if limits.maxBufferCharacters < (r.buffer++text).length then
    fail (.provider "model provider SSE event exceeded the configured buffer limit")
  else andThen (drain loads r.eventLines r.buffer text) fun p =>
    ([],.ok { r with buffer := p.2, eventLines := p.1 })

def notUtf8 : StreamError := .provider "model provider stream is not UTF-8"

def readChunk (r : Reader) (chunk : List UInt8) : Emitted Reader :=
  if limits.maxBytes < (r.received+chunk.length : ℕ) then
    fail (.provider "model provider stream exceeded the configured byte limit")
  else match decoder.decode (r.kept++chunk) false with
    | none => fail notUtf8
    | some (text,kept) =>
      readText loads limits { r with received := r.received+chunk.length, kept := kept } text

def readChunks (r : Reader) : List (List UInt8) → Emitted Reader
  | [] => ([],.ok r)
  | chunk::chunks => andThen (readChunk loads decoder limits r chunk) fun r => readChunks r chunks

def finish (r : Reader) : Emitted Unit :=
  match decoder.decode r.kept true with
  | none => fail notUtf8
  | some (text,_) => andThen (readText loads limits r text) fun r =>
    decodeEvent loads (if r.buffer ≠ [] then r.eventLines++[rstripCr r.buffer] else r.eventLines)

def iterSseJson (chunks : List (List UInt8)) : Emitted Unit :=
  if limits.maxBytes < 1 ∨ limits.maxBufferCharacters < 1 then
    fail (.valueError "SSE limits must be positive")
  else andThen (readChunks loads decoder limits {} chunks) (finish loads decoder limits)

end

variable {loads : String → Loaded} {decoder : CutText.IncrementalDecoder} {limits : SseLimits}

theorem drain_append (eventLines : List (List Char)) (line front back : List Char) :
    drain loads eventLines line (front++back) =
      andThen (drain loads eventLines line front) fun p => drain loads p.1 p.2 back := by
  induction front generalizing eventLines line with
  | nil => rfl
  | cons c front ih =>
    rw [List.cons_append, drain, drain]
    split_ifs
    · rw [and_then_assoc]
      exact and_then_congr fun lines _ => ih lines []
    · exact ih eventLines _

theorem drain_length {eventLines lines : List (List Char)} {line rest text : List Char}
    (h : (drain loads eventLines line text).2 = .ok (lines,rest)) :
    rest.length ≤ line.length+text.length := by
  induction text generalizing eventLines line with
  | nil =>
    cases h
    exact Nat.le_add_right _ _
  | cons c text ih =>
    rw [drain] at h
    split_ifs at h
    · generalize readLine loads eventLines line = x at h
      obtain ⟨out,e | next⟩ := x
      · cases h
      · have hrest := ih h
        simp only [List.length_nil, List.length_cons] at hrest ⊢
        omega
    · have hrest := ih h
      simp only [List.length_append, List.length_cons, List.length_nil] at hrest ⊢
      omega

/-- An unfinished character is no text. -/
theorem unfinished_text (decoder : CutText.IncrementalDecoder) {cs : List Char}
    (h : CutText.Unfinished (CutText.encodeText cs)) : cs = [] := by
  have hcut := decoder.cut [] _ h
  have hwhole := decoder.cut cs [] CutText.unfinished_nil
  rw [List.append_nil] at hwhole
  exact (Prod.mk.inj (Option.some.inj (hwhole.symm.trans hcut))).1

/-- The bytes that are kept and those of the chunks encode the rest of the text. -/
theorem chunks_text (chunks : List (List UInt8)) (r : Reader) (cs : List Char)
    (hkept : CutText.Unfinished r.kept) (hflat : r.kept++chunks.flatten = CutText.encodeText cs)
    (hbytes : (r.received+chunks.flatten.length : ℕ) ≤ limits.maxBytes)
    (hchars : (r.buffer.length+cs.length : ℕ) ≤ limits.maxBufferCharacters) :
    readChunks loads decoder limits r chunks = andThen (drain loads r.eventLines r.buffer cs)
      fun p => ([],.ok ⟨p.2,p.1,r.received+chunks.flatten.length,[]⟩) := by
  induction chunks generalizing r cs with
  | nil =>
    rw [List.flatten_nil, List.append_nil] at hflat
    obtain rfl : cs = [] := unfinished_text decoder (hflat ▸ hkept)
    obtain ⟨buffer,eventLines,received,kept⟩ := r
    obtain rfl : kept = [] := hflat
    rfl
  | cons chunk chunks ih =>
    obtain ⟨front,back,tail,rfl,htail,htake⟩ :=
      CutText.take_encode (r.kept++chunk).length cs
    rw [← hflat, List.flatten_cons, ← List.append_assoc, List.take_left] at htake
    have hback : tail++chunks.flatten = CutText.encodeText back := by
      rw [List.flatten_cons, ← List.append_assoc, htake, CutText.encode_append,
        List.append_assoc] at hflat
      exact List.append_cancel_left hflat
    rw [List.flatten_cons, List.length_append] at hbytes ⊢
    rw [List.length_append] at hchars
    rw [readChunks, readChunk, if_neg (by omega), htake, decoder.cut front tail htail]
    simp only [readText, List.length_append]
    rw [if_neg (by omega), and_then_assoc, drain_append, and_then_assoc]
    refine and_then_congr fun p hp => ?_
    have hrest := drain_length hp
    rw [and_then_ok, List.nil_append]
    rw [ih ⟨p.2,p.1,r.received+chunk.length,tail⟩ back htail hback (by dsimp only; omega)
      (by dsimp only; omega)]
    simp only [Nat.add_assoc]

/-- A UTF-8 text within both limits is decoded alike, to the same objects and the same end, however
its bytes are cut into chunks. -/
theorem chunks_do_not_matter (loads : String → Loaded) (decoder : CutText.IncrementalDecoder)
    (limits : SseLimits) (text : List Char) (chunks chunks' : List (List UInt8))
    (h : chunks.flatten = CutText.encodeText text) (h' : chunks'.flatten = CutText.encodeText text)
    (hbytes : (CutText.encodeText text).length ≤ limits.maxBytes)
    (hchars : text.length ≤ limits.maxBufferCharacters) :
    iterSseJson loads decoder limits chunks = iterSseJson loads decoder limits chunks' := by
  have hread : ∀ cut : List (List UInt8), cut.flatten = CutText.encodeText text →
      readChunks loads decoder limits {} cut = andThen (drain loads [] [] text)
        fun p => ([],.ok ⟨p.2,p.1,(CutText.encodeText text).length,[]⟩) := by
    intro cut hcut
    rw [chunks_text cut {} text CutText.unfinished_nil hcut (by rw [hcut]; simpa using hbytes)
      (by simpa using hchars), hcut]
    simp
  rw [iterSseJson, iterSseJson, hread chunks h, hread chunks' h']

/-- One event in one piece and byte by byte. -/
theorem event_byte_by_byte :
    let bytes := CutText.encodeText "data:\x7b\x7d\n\n".toList
    iterSseJson (fun _ => .value (.obj [])) CutText.wholeDecoder ⟨64,64⟩ [bytes] =
      iterSseJson (fun _ => .value (.obj [])) CutText.wholeDecoder ⟨64,64⟩ (bytes.map ([·])) :=
  chunks_do_not_matter _ _ ⟨64,64⟩ "data:\x7b\x7d\n\n".toList _ _ (by simp) (by decide +kernel)
    (by decide +kernel) (by decide +kernel)

end SuiteHarness.Models.SseJson
