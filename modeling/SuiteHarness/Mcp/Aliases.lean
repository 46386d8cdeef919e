import SuiteHarness.Identifier
import SuiteHarness.Json
import SuiteHarness.Library.Joined

/-!
# Aliases of bridged tools

`mcp_tool_alias` names a remote tool by its server, a slug of its name and the
first digits of a digest of its name and schema. Server ids may hold dots, slugs
and digests hold none, so the last dot ends the server id. `str.lower` is a
parameter, and so are the twelve digits.
-/

set_option autoImplicit false

namespace SuiteHarness.Mcp
open SuiteHarness.Library

def isServerId (s : String) : Bool := isName s && s.toList.all (fun c => c ≠ ':' && c ≠ '/')

def ServerId := {s : String // isServerId s = true}

structure McpTool where
  name : String
  inputSchema : List (String × Json)

def isHex (c : Char) : Bool := c.isDigit || ['a','b','c','d','e','f'].contains c

structure DigestPrefix where
  hex : Json → List Char
  twelve : ∀ contract, (hex contract).length = 12
  digits : ∀ contract, ∀ c ∈ hex contract, isHex c = true

def isSafe (c : Char) : Bool := c.isLower || c.isDigit

def isDash (c : Char) : Bool := c = '-'

def subUnsafe : Bool → List Char → List Char
  | _, [] => []
  | run, c::cs =>
    if isSafe c then c::subUnsafe false cs
    else if run then subUnsafe true cs
    else '-'::subUnsafe true cs

def orTool (slug : List Char) : List Char := if slug = [] then "tool".toList else slug

variable (lower : String → String) (server : ServerId)

def slug (name : String) : List Char :=
  let text := ((subUnsafe false (lower name).toList).dropWhile isDash).rdropWhile isDash
  orTool (((orTool text).take 40).rdropWhile isDash)

def contract (tool : McpTool) : Json :=
  (Json.obj [("name",.str tool.name),("inputSchema",.obj tool.inputSchema)]).canon

def serverAlias (last : List Char) : String :=
  String.ofList ("mcp.".toList++server.val.toList++ '.'::last)

def mcpToolAlias (digest : DigestPrefix) (server : ServerId) (tool : McpTool) : String :=
  serverAlias server (slug lower tool.name++ '-'::digest.hex (contract tool))

def resourcePromptOperations (resources prompts : Bool) : List String :=
  (if resources then ["resources/list","resources/templates/list","resources/read"] else [])++
    if prompts then ["prompts/list","prompts/get"] else []

def operationText (operation : String) : List Char :=
  operation.toList.map (fun c => if c = '/' then '-' else c)

def operationAlias (operation : String) : String :=
  serverAlias server (operationText operation)

/-! The parts of an alias. -/

theorem name_tail_join {separated : Bool} {front : List Char} (c : Char) (back : List Char)
    (hfront : nameTail separated front = true) (hc : c = '.' ∨ c = '-') :
    nameTail separated (front++c::back) = nameTail true back := by
  induction front generalizing separated with
  | nil =>
    cases separated with
    | true => cases hfront
    | false => rcases hc with rfl | rfl <;> rfl
  | cons d front ih =>
    rw [List.cons_append, nameTail]
    rw [nameTail] at hfront
    split_ifs at hfront ⊢ with hsafe
    · exact ih hfront
    · simp only [Bool.and_eq_true] at hfront
      rw [ih hfront.2, hfront.1.1, hfront.1.2]
      rfl

theorem name_tail_safe {front : List Char} (separated : Bool) (hne : front ≠ [])
    (h : ∀ c ∈ front, isSafe c = true) : nameTail separated front = true := by
  induction front generalizing separated with
  | nil => exact absurd rfl hne
  | cons c front ih =>
    have hc := h c List.mem_cons_self
    rw [isSafe] at hc
    rw [nameTail, if_pos hc]
    cases front with
    | nil => rfl
    | cons d front => exact ih false (List.cons_ne_nil d front) (fun e he => h e (List.mem_cons_of_mem c he))

theorem server_tail : nameTail true server.val.toList = true := by
  have h := (Bool.and_eq_true_iff.mp server.property).1
  rw [isName] at h
  cases hchars : server.val.toList with
  | nil => simp [hchars] at h
  | cons c cs =>
    simp only [hchars, Bool.and_eq_true] at h
    rw [nameTail, if_pos (by rw [h.1, Bool.true_or])]
    exact h.2

theorem sub_unsafe_strip (cs : List Char) (run : Bool) :
    (subUnsafe run cs).dropWhile isDash = subUnsafe true cs := by
  induction cs generalizing run with
  | nil => rfl
  | cons c cs ih =>
    by_cases hsafe : isSafe c = true
    · have hdash : isDash c = false := by
        rw [isDash, decide_eq_false_iff_not]
        rintro rfl
        cases hsafe
      simp [subUnsafe, hsafe, hdash]
    · cases run with
      | true => simp [subUnsafe, hsafe, ih true]
      | false => simp [subUnsafe, hsafe, ih true, isDash]

/-- What begins like a slug and does not end with a dash is a row of words. -/
theorem sub_unsafe_words {cs words : List Char} {run : Bool} (hne : words ≠ [])
    (hwords : words <+: subUnsafe run cs) (hlast : isDash (words.getLast hne) = false) :
    nameTail run words = true ∧ '.' ∉ words := by
  induction cs generalizing run words with
  | nil => exact absurd (List.prefix_nil.mp hwords) hne
  | cons c cs ih =>
    obtain ⟨d,words,rfl⟩ := List.exists_cons_of_ne_nil hne
    by_cases hsafe : isSafe c = true
    · simp only [subUnsafe, hsafe, if_true, List.cons_prefix_cons] at hwords
      obtain ⟨rfl,hwords⟩ := hwords
      have hdot : '.' ≠ d := by
        rintro rfl
        cases hsafe
      rw [isSafe] at hsafe
      rw [nameTail, if_pos hsafe, List.mem_cons, not_or]
      cases words with
      | nil => exact ⟨rfl,hdot,List.not_mem_nil⟩
      | cons e words =>
        obtain ⟨htail,hdots⟩ := ih (List.cons_ne_nil e words) hwords (by simpa using hlast)
        exact ⟨htail,hdot,hdots⟩
    · cases run with
      | true =>
        simp only [subUnsafe, hsafe, Bool.false_eq_true, if_false, if_true] at hwords
        exact ih hne hwords hlast
      | false =>
        simp only [subUnsafe, hsafe, Bool.false_eq_true, if_false, List.cons_prefix_cons] at hwords
        obtain ⟨rfl,hwords⟩ := hwords
        cases words with
        | nil => cases hlast
        | cons e words =>
          obtain ⟨htail,hdots⟩ := ih (List.cons_ne_nil e words) hwords (by simpa using hlast)
          refine ⟨?_,by simpa using hdots⟩
          rw [nameTail, htail]
          rfl

theorem slug_words (name : String) : nameTail true (slug lower name) = true ∧ '.' ∉ slug lower name := by
  have htool : nameTail true "tool".toList = true ∧ '.' ∉ "tool".toList := by decide
  simp only [slug, sub_unsafe_strip]
  generalize hcs : (lower name).toList = cs
  by_cases htext : (subUnsafe true cs).rdropWhile isDash = []
  · rw [htext]
    exact htool
  · simp only [orTool, if_neg htext]
    split_ifs with hcut
    · exact htool
    · refine @sub_unsafe_words cs _ true hcut ?_ (by simpa using List.rdropWhile_last_not isDash _ hcut)
      exact (List.rdropWhile_prefix _ _).trans ((List.take_prefix _ _).trans
        (List.rdropWhile_prefix _ _))

theorem hex_safe {c : Char} (h : isHex c = true) : isSafe c = true := by
  rw [isHex, Bool.or_eq_true] at h
  rcases h with hdigit | hletter
  · rw [isSafe, hdigit, Bool.or_true]
  · simp only [List.contains_iff_mem, List.mem_cons, List.not_mem_nil, or_false] at hletter
    rcases hletter with rfl | rfl | rfl | rfl | rfl | rfl <;> rfl

theorem alias_chars (last : List Char) :
    (serverAlias server last).toList = "mcp.".toList++server.val.toList++ '.'::last :=
  String.toList_ofList

theorem alias_inj {server server' : ServerId} {last last' : List Char} (hlast : '.' ∉ last)
    (hlast' : '.' ∉ last') (h : serverAlias server last = serverAlias server' last') :
    server = server' ∧ last = last' := by
  have hchars := congrArg String.toList h
  simp only [alias_chars, List.append_assoc, List.append_cancel_left_eq]
    at hchars
  obtain ⟨hserver,rfl⟩ := Joined.split_last hlast hlast' hchars
  exact ⟨Subtype.ext (String.toList_inj.mp hserver),rfl⟩

section Alias
variable (lower : String → String) (digest : DigestPrefix) (tool : McpTool)

theorem alias_last : '.' ∉ slug lower tool.name++ '-'::digest.hex (contract tool) := by
  rw [List.mem_append, List.mem_cons]
  rintro (hslug | hdash | hhex)
  · exact (slug_words lower tool.name).2 hslug
  · cases hdash
  · cases hex_safe (digest.digits _ _ hhex)

theorem alias_name (server : ServerId) : isName (mcpToolAlias lower digest server tool) = true := by
  have hhex : nameTail true (digest.hex (contract tool)) = true := by
    refine name_tail_safe true (fun hnil => ?_) (fun c hc => hex_safe (digest.digits _ c hc))
    have hlength := digest.twelve (contract tool)
    rw [hnil] at hlength
    cases hlength
  have hrest : nameTail true (server.val.toList++ '.'::(slug lower tool.name++
      '-'::digest.hex (contract tool))) = true := by
    rw [name_tail_join '.' _ (server_tail server) (.inl rfl),
      name_tail_join '-' _ (slug_words lower tool.name).1 (.inr rfl)]
    exact hhex
  rw [isName, mcpToolAlias, alias_chars]
  exact hrest

/-- The last twelve characters of an operation are no digest. -/
theorem operation_chars : ∀ resources prompts,
    ∀ operation ∈ resourcePromptOperations resources prompts, '.' ∉ operationText operation ∧
      ((operationText operation).drop ((operationText operation).length-12)).all isHex = false := by
  decide +kernel

theorem alias_end : (slug lower tool.name++ '-'::digest.hex (contract tool)).drop
    ((slug lower tool.name++ '-'::digest.hex (contract tool)).length-12) =
      digest.hex (contract tool) := by
  rw [List.append_cons]
  exact List.drop_left' (by simp [digest.twelve])

end Alias

/-- Aliases are tool names as `ToolSpec` has them, of any length; they tell servers, names and
schemas apart, as far as the digits do, and no operation of any server has one. -/
theorem aliases_valid_and_unique (lower : String → String) (digest : DigestPrefix)
    (tools : Set McpTool)
    (hdigest : ∀ a ∈ tools, ∀ b ∈ tools, digest.hex (contract a) = digest.hex (contract b) →
      a.name = b.name ∧ (Json.obj a.inputSchema).canon = (Json.obj b.inputSchema).canon) :
    ∀ a ∈ tools, ∀ server : ServerId,
      isName (mcpToolAlias lower digest server a) = true ∧
      (∀ b ∈ tools, ∀ server' : ServerId,
        mcpToolAlias lower digest server a = mcpToolAlias lower digest server' b →
        server = server' ∧ a.name = b.name ∧
          (Json.obj a.inputSchema).canon = (Json.obj b.inputSchema).canon) ∧
      ∀ (server' : ServerId) (resources prompts : Bool),
        ∀ operation ∈ resourcePromptOperations resources prompts,
          mcpToolAlias lower digest server a ≠ operationAlias server' operation := by
  intro a ha server
  refine ⟨alias_name lower digest a server,fun b hb server' h => ?_,
    fun server' resources prompts operation hoperation h => ?_⟩
  · obtain ⟨hserver,hlast⟩ := alias_inj (alias_last lower digest a) (alias_last lower digest b) h
    have hlength : (digest.hex (contract a)).length = (digest.hex (contract b)).length := by
      rw [digest.twelve, digest.twelve]
    rw [List.append_cons, List.append_cons _ _ (digest.hex (contract b))] at hlast
    exact ⟨hserver,hdigest a ha b hb (List.append_inj_right' hlast hlength)⟩
  · obtain ⟨hplain,hhex⟩ := operation_chars resources prompts operation hoperation
    obtain ⟨-,hlast⟩ := alias_inj (alias_last lower digest a) hplain h
    rw [← hlast, alias_end, ← Bool.not_eq_true, List.all_eq_true] at hhex
    exact hhex (digest.digits _)

def searchOrders : McpTool := ⟨"Search Orders",[]⟩

def searchOrdersAgain : McpTool := ⟨"search_orders",[]⟩

/-- The first digits of SHA-256 for these two tools. -/
def searchDigest : DigestPrefix where
  hex json := if json = contract searchOrders then "1d92624cffcf".toList
    else if json = contract searchOrdersAgain then "439edf6dab70".toList else "000000000000".toList
  twelve json := by split_ifs <;> decide
  digits json := by split_ifs <;> exact List.all_eq_true.mp (by decide)

/-- Two tools with one slug, on two servers: their names are told apart. -/
theorem search_aliases_valid_and_unique :
    let lower : String → String := String.map Char.toLower
    let here : ServerId := ⟨"crm.eu",by decide +kernel⟩
    let there : ServerId := ⟨"crm",by decide +kernel⟩
    mcpToolAlias lower searchDigest here searchOrders = "mcp.crm.eu.search-orders-1d92624cffcf" ∧
      isName (mcpToolAlias lower searchDigest here searchOrders) = true ∧
      (∀ server, mcpToolAlias lower searchDigest here searchOrders ≠
        mcpToolAlias lower searchDigest server searchOrdersAgain) ∧
      mcpToolAlias lower searchDigest here searchOrders ≠
        mcpToolAlias lower searchDigest there searchOrders ∧
      mcpToolAlias lower searchDigest here searchOrders ≠ operationAlias there "prompts/list" := by
  intro lower here there
  obtain ⟨hname,hunique,hoperations⟩ := aliases_valid_and_unique lower searchDigest
    {searchOrders,searchOrdersAgain} (by
      rintro a (rfl | rfl) b (rfl | rfl) h
      · exact ⟨rfl,rfl⟩
      · exact absurd h (by decide +kernel)
      · exact absurd h (by decide +kernel)
      · exact ⟨rfl,rfl⟩) searchOrders (.inl rfl) here
  refine ⟨by decide +kernel,hname,fun server h => ?_,fun h => ?_,
    hoperations there false true "prompts/list" (by decide)⟩
  · exact absurd (hunique _ (.inr rfl) server h).2.1 (by decide)
  · exact absurd (congrArg Subtype.val (hunique _ (.inl rfl) there h).1) (by decide)

end SuiteHarness.Mcp
