import SuiteHarness.Library.CutText
import SuiteHarness.Workspace.Paths

/-!
# Reading a file page by page

`fs.read` of an open regular file: one byte more than the limit is read from the
offset, the limit's bytes are decoded, and the characters beyond the result limit
are dropped again. A client follows `next_offset` until it is null.
-/

set_option autoImplicit false

namespace SuiteHarness.Workspace.Pages
open SuiteHarness.Library.CutText

structure ReadLimits where
  maxReadBytes : ℕ
  maxResultCharacters : ℕ
  positive : 0 < maxReadBytes ∧ 0 < maxResultCharacters

def readChunks : ℕ → ℕ → List UInt8 → List UInt8
  | 0, _, _ => []
  | fuel+1, remaining, file =>
    if remaining = 0 then []
    else
      let chunk := file.take (min remaining 65536)
      if chunk = [] then []
      else chunk++readChunks fuel (remaining-chunk.length) (file.drop chunk.length)

def readFile (file : List UInt8) (maxBytes offset : ℕ) : List UInt8 :=
  readChunks (maxBytes+2) (maxBytes+1) (file.drop offset)

theorem take_chunk (k remaining : ℕ) (file : List UInt8) (h : k ≤ remaining) :
    file.take k++(file.drop (file.take k).length).take (remaining-(file.take k).length) =
      file.take remaining := by
  rcases Nat.le_total k file.length with hle | hle
  · rw [List.length_take, Nat.min_eq_left hle, ← List.take_add, Nat.add_sub_of_le h]
  · rw [List.take_of_length_le hle, List.drop_length, List.take_nil, List.append_nil,
      List.take_of_length_le (hle.trans h)]

/-- Each chunk takes at least one byte, so the loop reads all that is wanted. -/
theorem read_chunks (fuel remaining : ℕ) (file : List UInt8) (h : remaining < fuel) :
    readChunks fuel remaining file = file.take remaining := by
  induction fuel generalizing remaining file with
  | zero => exact absurd h (Nat.not_lt_zero _)
  | succ fuel ih =>
    have hchunk := take_chunk (min remaining 65536) remaining file (Nat.min_le_left _ _)
    rw [readChunks]
    by_cases hzero : remaining = 0
    · rw [if_pos hzero, hzero, List.take_zero]
    · rw [if_neg hzero]
      by_cases hnil : file.take (min remaining 65536) = []
      · have hfile : file = [] := (List.take_eq_nil_iff.mp hnil).resolve_left (by omega)
        simp [hfile]
      · have hpos := List.length_pos_iff.mpr hnil
        simp only [if_neg hnil]
        rw [ih _ _ (by omega), hchunk]

theorem read_file (file : List UInt8) (maxBytes offset : ℕ) :
    readFile file maxBytes offset = (file.drop offset).take (maxBytes+1) :=
  read_chunks _ _ _ (Nat.lt_succ_self _)

inductive TextEncoding where
  | utf8 | gbk | gb18030
  deriving DecidableEq

/-- `encoding.lower().replace("_", "-")`, as far as an accepted name can come of it:
outside ASCII only the Kelvin sign has one of their letters as its lower case. -/
def normalized (encoding : String) : String :=
  String.ofList (encoding.toList.map (fun c =>
    if c = '_' then '-' else if c.toNat = 0x212A then 'k' else c.toLower))

def toEncoding (normalized : String) : Except WorkspaceError TextEncoding :=
  if ["utf-8","utf8"].contains normalized then .ok .utf8
  else if normalized = "gbk" then .ok .gbk
  else if normalized = "gb18030" then .ok .gb18030
  else .error (.valueError "encoding must be UTF-8, GBK, or GB18030")

structure Codecs where
  utf8 : IncrementalDecoder
  decodeOther : TextEncoding → List UInt8 → Bool → Option (List Char × List UInt8)
  encodeOther : TextEncoding → List Char → List UInt8

def Codecs.decode (codecs : Codecs) : TextEncoding → List UInt8 → Bool →
    Option (List Char × List UInt8)
  | .utf8 => codecs.utf8.decode
  | other => codecs.decodeOther other

def Codecs.encode (codecs : Codecs) : TextEncoding → List Char → List UInt8
  | .utf8 => encodeText
  | other => codecs.encodeOther other

structure TextPage where
  content : List Char
  bytes : ℕ
  offset : ℕ
  nextOffset : Option ℕ
  truncated : Bool
  deriving DecidableEq

variable (codecs : Codecs)

def textPage (content : List UInt8) (name : String) (encoding : TextEncoding)
    (limit maxChars offset : ℕ) : Except WorkspaceError TextPage :=
  let more := decide (limit < content.length)
  match codecs.decode encoding (content.take limit) (!more) with
  | none => .error (.valueError ("file or offset is not valid " ++ name ++ " text"))
  | some (decoded,pending) =>
    let long := decide (maxChars < decoded.length)
    let text := if long then decoded.take maxChars else decoded
    let consumed := if long then (codecs.encode encoding text).length
      else min content.length limit-pending.length
    if content ≠ [] ∧ consumed = 0 then
      .error (.valueError "max_bytes must fit at least one complete character (use 4 or more)")
    else
      let more := more || decide (consumed < content.length)
      .ok ⟨text,consumed,offset,if more then some (offset+consumed) else none,more⟩

structure ReadArguments where
  maxBytes : Option ℤ := none
  encoding : String := "utf-8"

def byteLimit (limits : ReadLimits) (arguments : ReadArguments) : ℕ :=
  min (max 1 (arguments.maxBytes.getD limits.maxReadBytes)).toNat limits.maxReadBytes

def read (limits : ReadLimits) (file : List UInt8) (arguments : ReadArguments) (offset : ℤ) :
    Except WorkspaceError TextPage :=
  if offset < 0 then .error (.valueError "offset must be a non-negative byte offset")
  else
    let limit := byteLimit limits arguments
    let content := readFile file limit offset.toNat
    match toEncoding (normalized arguments.encoding) with
    | .error error => .error error
    | .ok encoding => textPage codecs content (normalized arguments.encoding) encoding limit
        limits.maxResultCharacters offset.toNat

def follow (read : ℤ → Except WorkspaceError TextPage) : ℕ → ℤ → Option (List TextPage)
  | 0, _ => none
  | steps+1, offset => match read offset with
    | .error _ => none
    | .ok page => match page.nextOffset with
      | none => some [page]
      | some next => (follow read steps next).map (page::·)

def pageOf (offset : ℕ) (front back : List Char) : TextPage :=
  ⟨front,(encodeText front).length,offset,
    if back = [] then none else some (offset+(encodeText front).length),decide (back ≠ [])⟩

theorem text_page_of_front (content : List UInt8) (name : String) (limit maxChars offset : ℕ)
    (front back : List Char) (pending : List UInt8)
    (hcontent : content = (encodeText (front++back)).take (limit+1)) (hchars : 0 < maxChars)
    (hmore : decide (limit < content.length) = true ↔ back ≠ [])
    (hdecode : codecs.utf8.decode (content.take limit) (!decide (limit < content.length)) =
      some (front,pending))
    (hconsumed : min content.length limit-pending.length = (encodeText front).length)
    (hfront : content ≠ [] → front ≠ []) :
    ∃ front' back', front++back = front'++back' ∧
      textPage codecs content name .utf8 limit maxChars offset = .ok (pageOf offset front' back') ∧
      (content ≠ [] → front' ≠ []) := by
  have hbytes : back ≠ [] → (encodeText front).length < content.length := by
    intro hback
    have hlimit := of_decide_eq_true (hmore.mpr hback)
    have hle : (encodeText front).length ≤ limit := by omega
    omega
  have hall : back = [] → content.length = (encodeText front).length := by
    intro hback
    have hlimit : ¬ limit < content.length := fun h =>
      hmore.mp (decide_eq_true h) hback
    rw [hback, List.append_nil] at hcontent
    have hlength := congrArg List.length hcontent
    rw [List.length_take] at hlength
    omega
  unfold textPage
  simp only [Codecs.decode, hdecode, Codecs.encode, hconsumed]
  by_cases hlong : maxChars < front.length
  · -- The result limit cuts the decoded text once more.
    have hback : front.drop maxChars++back ≠ [] := by
      intro hnil
      have hdrop := (List.append_eq_nil_iff.mp hnil).1
      rw [List.drop_eq_nil_iff] at hdrop
      omega
    have htake : front.take maxChars ≠ [] := by
      intro hnil
      have hlength := congrArg List.length hnil
      rw [List.length_take, List.length_nil] at hlength
      omega
    have hpos := encode_pos _ htake
    have hless : (encodeText (front.take maxChars)).length < content.length := by
      have hsplit := congrArg (fun cs => (encodeText cs).length) (List.take_append_drop maxChars front)
      simp only [encode_append, List.length_append] at hsplit
      have hdrop : 0 < (encodeText (front.drop maxChars)).length := by
        apply encode_pos
        rw [ne_eq, List.drop_eq_nil_iff]
        omega
      by_cases hb : back = []
      · have := hall hb
        omega
      · have := hbytes hb
        omega
    refine ⟨front.take maxChars,front.drop maxChars++back,?_,?_,fun _ => htake⟩
    · rw [← List.append_assoc, List.take_append_drop]
    · rw [decide_eq_true hlong]
      simp only [if_true]
      rw [if_neg (by omega), decide_eq_true hless]
      simp [pageOf, hback]
  · refine ⟨front,back,rfl,?_,hfront⟩
    rw [decide_eq_false hlong]
    simp only [Bool.false_eq_true, if_false]
    have hzero : ¬ (content ≠ [] ∧ (encodeText front).length = 0) := by
      rintro ⟨hne,hzero⟩
      have := encode_pos _ (hfront hne)
      omega
    rw [if_neg hzero]
    by_cases hb : back = []
    · have hlast : ¬ limit < content.length := fun h => hmore.mp (decide_eq_true h) hb
      have hless : ¬ (encodeText front).length < content.length := by
        have := hall hb
        omega
      simp [pageOf, hb, hlast, hless]
    · simp [pageOf, hb, of_decide_eq_true (hmore.mpr hb)]

/-- One page is a non-empty first part of the remaining text. -/
theorem text_page_utf8 (cs : List Char) (name : String) (limit maxChars offset : ℕ) (hlimit : 4 ≤ limit)
    (hchars : 0 < maxChars) :
    ∃ front back, cs = front++back ∧
      textPage codecs ((encodeText cs).take (limit+1)) name .utf8 limit maxChars offset =
        .ok (pageOf offset front back) ∧ (cs ≠ [] → front ≠ []) := by
  have hne : cs ≠ [] → (encodeText cs).take (limit+1) ≠ [] := by
    intro h hnil
    have hlength := congrArg List.length hnil
    have hpos := encode_pos _ h
    rw [List.length_take, List.length_nil] at hlength
    omega
  have htwice : ((encodeText cs).take (limit+1)).take limit = (encodeText cs).take limit := by
    rw [List.take_take, Nat.min_eq_left (Nat.le_succ limit)]
  by_cases hmore : limit < (encodeText cs).length
  · obtain ⟨front,back,tail,hcs,htail,htake⟩ := take_encode limit cs
    have hlength := congrArg List.length htake
    rw [List.length_take, List.length_append] at hlength
    have hshort := htail.short
    have hcontent : ((encodeText cs).take (limit+1)).length = limit+1 := by
      rw [List.length_take]
      omega
    have hback : back ≠ [] := by
      rintro rfl
      rw [List.append_nil] at hcs
      rw [hcs] at hmore
      omega
    obtain ⟨front',back',hsplit,hpage,hfront⟩ := text_page_of_front codecs
      ((encodeText cs).take (limit+1)) name limit maxChars offset front back tail (by rw [hcs])
      hchars (by rw [hcontent]; simp [hback])
      (by rw [hcontent, htwice, htake]; simpa using codecs.utf8.cut front tail htail)
      (by rw [hcontent]; omega)
      (fun _ hnil => by rw [hnil, encode_nil, List.length_nil] at hlength; omega)
    exact ⟨front',back',hcs.trans hsplit,hpage,fun h => hfront (hne h)⟩
  · have hcontent : (encodeText cs).take (limit+1) = encodeText cs :=
      List.take_of_length_le (by omega)
    have hcontent' : (encodeText cs).take limit = encodeText cs := List.take_of_length_le (by omega)
    obtain ⟨front',back',hsplit,hpage,hfront⟩ := text_page_of_front codecs
      ((encodeText cs).take (limit+1)) name limit maxChars offset cs [] [] (by rw [List.append_nil]) hchars
      (by rw [hcontent]; simpa using hmore)
      (by rw [htwice, hcontent, hcontent', decide_eq_false hmore]; exact codecs.utf8.whole cs)
      (by rw [hcontent, List.length_nil]; omega)
      (fun hcont hnil => hcont (by rw [hnil, encode_nil, List.take_nil]))
    rw [List.append_nil] at hsplit
    exact ⟨front',back',hsplit,hpage,fun h => hfront (hne h)⟩

structure Reproduces (text : List Char) (pages : List TextPage) : Prop where
  whole : pages.flatMap TextPage.content = text
  boundaries : ∀ page ∈ pages, ∃ before, before <+: text ∧ page.offset = (encodeText before).length
  advances : text ≠ [] → ∀ page ∈ pages, 0 < page.bytes
  ends : ∀ page ∈ pages, page.nextOffset = none ↔ page.offset+page.bytes = (encodeText text).length

variable (limits : ReadLimits) (arguments : ReadArguments)

theorem read_utf8 (text before rest : List Char) (htext : text = before++rest)
    (hencoding : toEncoding (normalized arguments.encoding) = .ok .utf8)
    (hlimit : 4 ≤ byteLimit limits arguments) :
    ∃ front back, rest = front++back ∧
      read codecs limits (encodeText text) arguments (encodeText before).length =
        .ok (pageOf (encodeText before).length front back) ∧ (rest ≠ [] → front ≠ []) := by
  obtain ⟨front,back,hrest,hpage,hfront⟩ := text_page_utf8 codecs rest
    (normalized arguments.encoding) (byteLimit limits arguments) limits.maxResultCharacters
    (encodeText before).length hlimit limits.positive.2
  refine ⟨front,back,hrest,?_,hfront⟩
  rw [read, if_neg (by omega)]
  simp only [hencoding, Int.toNat_natCast, read_file]
  rw [htext, encode_append, List.drop_left, hpage]

/-- Following from a boundary reads the rest, by induction on the rest's pages. -/
theorem follow_utf8 (text before rest : List Char) (htext : text = before++rest)
    (hencoding : toEncoding (normalized arguments.encoding) = .ok .utf8)
    (hlimit : 4 ≤ byteLimit limits arguments) (hbefore : text ≠ [] → rest ≠ []) (steps : ℕ)
    (hsteps : rest.length < steps) :
    ∃ pages, follow (read codecs limits (encodeText text) arguments) steps
        (encodeText before).length = some pages ∧
      pages.flatMap TextPage.content = rest ∧
      (∀ page ∈ pages, ∃ seen, seen <+: text ∧ page.offset = (encodeText seen).length) ∧
      (text ≠ [] → ∀ page ∈ pages, 0 < page.bytes) ∧
      ∀ page ∈ pages, page.nextOffset = none ↔ page.offset+page.bytes = (encodeText text).length := by
  induction steps generalizing before rest with
  | zero => exact absurd hsteps (Nat.not_lt_zero _)
  | succ steps ih =>
    obtain ⟨front,back,hrest,hread,hfront⟩ := read_utf8 codecs limits arguments text before rest
      htext hencoding hlimit
    have hbegins : before <+: text := ⟨rest,htext.symm⟩
    have hbytes : text ≠ [] → 0 < (encodeText front).length := fun h =>
      encode_pos _ (hfront (hbefore h))
    have hlength : (encodeText text).length = (encodeText before).length+
        ((encodeText front).length+(encodeText back).length) := by
      rw [htext, hrest]
      simp only [encode_append, List.length_append]
    rw [follow, hread]
    by_cases hback : back = []
    · refine ⟨[pageOf (encodeText before).length front back],by simp [pageOf, hback],?_,?_,?_,?_⟩
      · simp [pageOf, hrest, hback]
      · rintro page hpage
        rw [List.mem_singleton.mp hpage]
        exact ⟨before,hbegins,rfl⟩
      · rintro h page hpage
        rw [List.mem_singleton.mp hpage]
        exact hbytes h
      · rintro page hpage
        rw [List.mem_singleton.mp hpage]
        rw [hback, encode_nil, List.length_nil] at hlength
        simp only [pageOf, hback, if_true, true_iff]
        omega
    · have hne : text ≠ [] := by
        rintro rfl
        have hnil := List.append_eq_nil_iff.mp htext.symm
        rw [hnil.2] at hrest
        exact hback (List.append_eq_nil_iff.mp hrest.symm).2
      have hshorter : back.length < steps := by
        have hpos : 0 < front.length := List.length_pos_iff.mpr (hfront (hbefore hne))
        have hsum := congrArg List.length hrest
        rw [List.length_append] at hsum
        omega
      obtain ⟨pages,hfollow,hwhole,hseen,hadvance,hends⟩ := ih (before++front) back
        (by rw [htext, hrest, List.append_assoc]) (fun _ => hback) hshorter
      rw [encode_append, List.length_append] at hfollow
      refine ⟨pageOf (encodeText before).length front back::pages,?_,?_,?_,?_,?_⟩
      · have hnext : (pageOf (encodeText before).length front back).nextOffset =
            some ((encodeText before).length+(encodeText front).length) := if_neg hback
        simp only [hnext]
        rw [hfollow]
        rfl
      · rw [List.flatMap_cons, hwhole, hrest]
        rfl
      · intro page hpage
        rcases List.mem_cons.mp hpage with rfl | hmem
        · exact ⟨before,hbegins,rfl⟩
        · exact hseen page hmem
      · intro h page hpage
        rcases List.mem_cons.mp hpage with rfl | hmem
        · exact hbytes h
        · exact hadvance h page hmem
      · intro page hpage
        rcases List.mem_cons.mp hpage with rfl | hmem
        · have hpos := encode_pos _ hback
          simp only [pageOf, hback, if_false, reduceCtorEq, false_iff]
          omega
        · exact hends page hmem

/-- Under a configured maximum of at least four bytes, a client that asks for at
least four reads the whole text, in at most one page for each character and one. -/
theorem paged_reading_reproduces (codecs : Codecs) (limits : ReadLimits) (text : List Char)
    (maxBytes : ℤ) (encoding : String) (hencoding : toEncoding (normalized encoding) = .ok .utf8)
    (hbytes : 4 ≤ maxBytes) (hmaximum : 4 ≤ limits.maxReadBytes) :
    ∃ pages, follow (read codecs limits (encodeText text) ⟨some maxBytes,encoding⟩)
        (text.length+1) 0 = some pages ∧ Reproduces text pages := by
  have hlimit : 4 ≤ byteLimit limits ⟨some maxBytes,encoding⟩ := by
    rw [byteLimit, Option.getD_some]
    omega
  have hstart : (((encodeText []).length : ℕ) : ℤ) = 0 := rfl
  obtain ⟨pages,hfollow,hwhole,hseen,hadvance,hends⟩ := follow_utf8 codecs limits
    ⟨some maxBytes,encoding⟩ text [] text (List.nil_append text).symm hencoding hlimit id
    (text.length+1) (Nat.lt_succ_self _)
  rw [hstart] at hfollow
  exact ⟨pages,hfollow,⟨hwhole,hseen,hadvance,hends⟩⟩

def plainCodecs : Codecs := ⟨wholeDecoder,fun _ _ _ => none,fun _ _ => []⟩

theorem accented_text_reproduced :
    ∃ pages, follow (read plainCodecs ⟨8,1,by decide⟩ (encodeText ['é','a']) ⟨some 4,"UTF_8"⟩) 3 0 =
      some pages ∧ Reproduces ['é','a'] pages :=
  paged_reading_reproduces plainCodecs ⟨8,1,by decide⟩ ['é','a'] 4 "UTF_8" (by decide)
    (by decide) (by decide)

/-- With a configured maximum of one byte the two bytes of `é` never fit, whatever
`max_bytes` asks for; the only page of an empty file does not advance. -/
theorem small_maximum_fails :
    read plainCodecs ⟨1,1,by decide⟩ (encodeText ['é']) ⟨some 4,"utf-8"⟩ 0 =
        .error (.valueError "max_bytes must fit at least one complete character (use 4 or more)") ∧
      follow (read plainCodecs ⟨8,1,by decide⟩ (encodeText []) ⟨some 4,"utf-8"⟩) 1 0 =
        some [⟨[],0,0,none,false⟩] := by
  decide +kernel

end SuiteHarness.Workspace.Pages
