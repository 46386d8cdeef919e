import SuiteHarness.Identifier
import SuiteHarness.Library.Results
import SuiteHarness.Models.Context

/-!
# Sampling requests of MCP servers

The gateway sampler turns each message of a server into one model message. A
message with several tool results becomes one tool message, which has the last
id and the texts of all.
-/

set_option autoImplicit false

namespace SuiteHarness.Mcp
open SuiteHarness.Models SuiteHarness.Library.Results

inductive SamplingContent where
  | text (text : String)
  | toolUse (id name : String) (input : List (String × Json))
  | toolResult (toolUseId : String) (content : List (Option String))
  | other

inductive SamplingRole where
  | user | assistant
  deriving DecidableEq

structure SamplingMessage where
  role : SamplingRole
  content : List SamplingContent

inductive SamplingError where
  | protocol (text : String)
  | validation (errors : List String)

def isCallId (s : String) : Bool :=
  match s.toList with
  | [] => false
  | c::cs => isAlnum c && decide (cs.length ≤ 191) &&
      cs.all (fun d => isAlnum d || ['.','_',':','/','-'].contains d)

def isToolName (s : String) : Bool :=
  match s.toList with
  | [] => false
  | c::cs => c.isAlpha && decide (cs.length ≤ 127) &&
      cs.all (fun d => isAlnum d || ['_','.',':','-'].contains d)

def toolCallErrors (id name : String) : List String :=
  (if isCallId id then [] else ["invalid model tool call id"])++
    if isToolName name then [] else ["invalid model tool name"]

def roleShapeError (role : ModelRole) (toolCalls : List ModelToolCall) (toolCallId : Option String) :
    String :=
  if role = .tool ∧ toolCallId.getD "" = "" then "tool messages require tool_call_id"
  else if role ≠ .tool ∧ toolCallId ≠ none then "tool_call_id is only valid for tool messages"
  else if toolCalls ≠ [] ∧ role ≠ .assistant then "only assistant messages may contain tool calls"
  else "a message requires content or tool calls"

def makeMessage (role : ModelRole) (content : List ContentPart) (toolCalls : List ModelToolCall)
    (toolCallId : Option String) : Except SamplingError ModelMessage :=
  if shape : RoleShape role content toolCalls toolCallId then
    .ok { role, content, toolCalls, toolCallId, shape }
  else .error (.validation [roleShapeError role toolCalls toolCallId])

def blockTexts (blocks : List (Option String)) : List ContentPart :=
  blocks.filterMap (Option.map .text)

structure SamplingParts where
  textParts : List ContentPart := []
  toolCalls : List ModelToolCall := []
  toolCallId : Option String := none

def SamplingParts.add (p : SamplingParts) : SamplingContent → Except SamplingError SamplingParts
  | .text text => .ok { p with textParts := p.textParts++[.text text] }
  | .toolUse id name input =>
    if toolCallErrors id name = [] then
      .ok { p with toolCalls := p.toolCalls++[⟨id,name,input⟩] }
    else .error (.validation (toolCallErrors id name))
  | .toolResult toolUseId content =>
    .ok { p with toolCallId := some toolUseId, textParts := p.textParts++blockTexts content }
  | .other => .error
      (.protocol "this model route cannot safely translate non-text sampling content")

def toolContent (textParts : List ContentPart) : List ContentPart :=
  if textParts = [] then [.text ""] else textParts

def samplingMessage (m : SamplingMessage) : Except SamplingError ModelMessage := do
  let p ← m.content.foldlM SamplingParts.add {}
  if p.toolCallId ≠ none then makeMessage .tool (toolContent p.textParts) [] p.toolCallId
  else makeMessage (if m.role = .user then .user else .assistant) p.textParts p.toolCalls none

def sampledMessages (systemPrompt : Option String) (messages : List SamplingMessage) :
    Except SamplingError (List ModelMessage) := do
  let translated ← messages.mapM samplingMessage
  let prompt := systemPrompt.getD ""
  .ok (if prompt = "" then translated else .plain .system prompt (by decide)::translated)

/-! What a server means. -/

def uses (m : SamplingMessage) : List String :=
  m.content.filterMap fun
    | .toolUse id _ _ => some id
    | _ => none

def answers (m : SamplingMessage) : List (String × List ContentPart) :=
  m.content.filterMap fun
    | .toolResult id blocks => some (id,toolContent (blockTexts blocks))
    | _ => none

def Answered : List String → List SamplingMessage → Prop
  | pending, [] => pending = []
  | pending, m::ms => ((answers m).map Prod.fst).Perm pending ∧
      (pending ≠ [] → m.role = .user) ∧ Answered (uses m) ms

def carried (out : List ModelMessage) : List (String × List ContentPart) :=
  out.filterMap (fun x => x.toolCallId.map (fun id => (id,x.content)))

def texts (m : SamplingMessage) : List ContentPart :=
  m.content.flatMap fun
    | .text text => [.text text]
    | .toolResult _ blocks => blockTexts blocks
    | _ => []

def ValidUses (content : List SamplingContent) : Prop :=
  ∀ id name input, .toolUse id name input ∈ content → toolCallErrors id name = []

/-- The message becomes the model message that is meant: one with a result holds
this result only, though beside a result without text an empty text may stand. -/
structure Faithful (m : SamplingMessage) : Prop where
  valid : ValidUses m.content
  plain : answers m = [] → m.content ≠ [] ∧ (uses m ≠ [] → m.role = .assistant)
  result : answers m ≠ [] → uses m = [] ∧ ∃ id, answers m = [(id,toolContent (texts m))]

def calls (m : SamplingMessage) : List ModelToolCall :=
  m.content.filterMap fun
    | .toolUse id name input => some ⟨id,name,input⟩
    | _ => none

variable {m : SamplingMessage} {ms : List SamplingMessage} {x : ModelMessage}
  {out : List ModelMessage} {pending waiting used : List String}
  {results : List (String × List ContentPart)}

theorem calls_uses : (calls m).map (·.callId) = uses m := by
  rw [calls, uses, List.map_filterMap]
  congr 1
  funext part
  cases part <;> rfl

theorem parts_ok {content : List SamplingContent} (role : SamplingRole) (p : SamplingParts)
    (hkinds : .other ∉ content) (hvalid : ValidUses content) :
    content.foldlM SamplingParts.add p = .ok
      { textParts := p.textParts++texts ⟨role,content⟩
        toolCalls := p.toolCalls++calls ⟨role,content⟩
        toolCallId := ((answers ⟨role,content⟩).getLast?.map Prod.fst).or p.toolCallId } := by
  induction content generalizing p with
  | nil => simp [texts, calls, answers, pure, Except.pure]
  | cons part content ih =>
    simp only [ValidUses, List.mem_cons, not_or] at hkinds hvalid
    have ih := fun p => ih p hkinds.2 (fun id name input h => hvalid id name input (.inr h))
    rw [List.foldlM_cons]
    cases part with
    | text text =>
      simp only [SamplingParts.add, bind, Except.bind, ih]
      simp [texts, calls, answers]
    | toolUse id name input =>
      simp only [SamplingParts.add, hvalid id name input (.inl rfl), if_true, bind, Except.bind, ih]
      simp [texts, calls, answers]
    | toolResult id blocks =>
      have hlast : (((id,toolContent (blockTexts blocks))::answers ⟨role,content⟩).getLast?.map
          Prod.fst).or p.toolCallId = ((answers ⟨role,content⟩).getLast?.map Prod.fst).or (some id) := by
        rw [List.getLast?_cons]
        cases (answers ⟨role,content⟩).getLast? <;> rfl
      simp only [SamplingParts.add, bind, Except.bind, ih, ← hlast]
      simp only [texts, List.flatMap_cons, List.append_assoc]
      rfl
    | other => exact absurd rfl hkinds.1

theorem parts_valid {content : List SamplingContent} {p q : SamplingParts}
    (h : content.foldlM SamplingParts.add p = .ok q) : ValidUses content := by
  intro id name input hmem
  induction content generalizing p with
  | nil => cases hmem
  | cons part content ih =>
    rw [List.foldlM_cons] at h
    obtain ⟨p',hpart,h⟩ := bind_ok h
    rcases List.mem_cons.mp hmem with rfl | hrest
    · by_contra hbad
      rw [SamplingParts.add, if_neg hbad] at hpart
      cases hpart
    · exact ih h hrest

theorem make_ok {role : ModelRole} {content : List ContentPart} {toolCalls : List ModelToolCall}
    {toolCallId : Option String} : makeMessage role content toolCalls toolCallId = .ok x ↔
      ∃ shape : RoleShape role content toolCalls toolCallId,
        x = { role, content, toolCalls, toolCallId, shape } := by
  rw [makeMessage]
  split_ifs with h
  · exact ⟨fun hx => ⟨h,(Except.ok.inj hx).symm⟩,fun ⟨_,hx⟩ => hx ▸ rfl⟩
  · exact ⟨nofun,fun ⟨shape,_⟩ => absurd shape h⟩

theorem sampling_eq (hkinds : .other ∉ m.content) (hvalid : ValidUses m.content) :
    samplingMessage m = if answers m = [] then
        makeMessage (if m.role = .user then .user else .assistant) (texts m) (calls m) none
      else makeMessage .tool (toolContent (texts m)) [] ((answers m).getLast?.map Prod.fst) := by
  rw [samplingMessage, parts_ok m.role {} hkinds hvalid]
  cases hlast : (answers m).getLast? with
  | none => simp [List.getLast?_eq_none_iff.mp hlast, bind, Except.bind]
  | some last =>
    have hne : answers m ≠ [] := fun hnil => by simp [hnil] at hlast
    simp [hne, bind, Except.bind]

theorem sampling_valid (h : samplingMessage m = .ok x) : ValidUses m.content :=
  parts_valid (bind_ok h).choose_spec.1

theorem plain_shape (hkinds : .other ∉ m.content) (hnone : answers m = []) :
    RoleShape (if m.role = .user then .user else .assistant) (texts m) (calls m) none ↔
      m.content ≠ [] ∧ (uses m ≠ [] → m.role = .assistant) := by
  have hcalls : calls m = [] ↔ uses m = [] := by rw [← calls_uses, List.map_eq_nil_iff]
  have hparts : m.content = [] ↔ texts m = [] ∧ calls m = [] := by
    refine ⟨fun h => by simp [texts, calls, h],fun ⟨htexts,hcalls⟩ => ?_⟩
    refine List.eq_nil_iff_forall_not_mem.mpr fun part hpart => ?_
    cases part with
    | text text => cases List.flatMap_eq_nil_iff.mp htexts _ hpart
    | toolUse id name input => cases List.filterMap_eq_nil_iff.mp hcalls _ hpart
    | toolResult id blocks => cases List.filterMap_eq_nil_iff.mp hnone _ hpart
    | other => exact hkinds hpart
  rw [RoleShape, ne_eq (calls m), hcalls, ne_eq m.content, hparts, not_and_or, hcalls]
  cases m.role <;> simp [and_comm]

/-- The messages are translated, pass the pairing check and carry these results. -/
def Carries (waiting used : List String) (ms : List SamplingMessage)
    (results : List (String × List ContentPart)) : Prop :=
  ∃ out, ms.mapM samplingMessage = .ok out ∧ validateFrom waiting used out = .ok () ∧
    carried out = results

theorem carries_cons :
    Carries waiting used (m::ms) results ↔ ∃ x, samplingMessage m = .ok x ∧ ∃ out,
      ms.mapM samplingMessage = .ok out ∧ validateFrom waiting used (x::out) = .ok () ∧
        carried (x::out) = results := by
  rw [Carries, List.mapM_cons]
  constructor
  · rintro ⟨_,hout,hrest⟩
    obtain ⟨x,hx,hout⟩ := bind_ok hout
    obtain ⟨out,hms,hout⟩ := bind_ok hout
    cases hout
    exact ⟨x,hx,out,hms,hrest⟩
  · rintro ⟨x,hx,out,hms,hrest⟩
    exact ⟨x::out,by rw [hx, hms]; rfl,hrest⟩

theorem open_fresh {calls : List ModelToolCall} (hdistinct : (calls.map (·.callId)).Nodup)
    (hfresh : ∀ id ∈ calls.map (·.callId), id ∉ used) :
    openCalls pending used calls = .ok ((calls.map (·.callId)).reverse++pending,
      (calls.map (·.callId)).reverse++used) := by
  induction calls generalizing pending used with
  | nil => rfl
  | cons call calls ih =>
    rw [List.map_cons, List.nodup_cons] at hdistinct
    rw [List.map_cons, List.forall_mem_cons] at hfresh
    rw [openCalls, if_neg hfresh.1, ih hdistinct.2]
    · simp
    · intro id hid
      rw [List.mem_cons, not_or]
      exact ⟨fun h => hdistinct.1 (h ▸ hid),hfresh.2 id hid⟩

theorem validate_plain {used' : List String} (hrole : x.role = .user ∨ x.role = .assistant)
    (hopen : openCalls [] used x.toolCalls = .ok (waiting,used')) :
    validateFrom [] used (x::out) = validateFrom waiting used' out := by
  rw [validateFrom]
  rcases hrole with hrole | hrole <;> simp [hrole, hopen]

theorem validate_result {id : String} (hrole : x.role = .tool) (hid : x.toolCallId = some id) :
    validateFrom [id] used (x::out) = validateFrom [] used out := by
  simp [validateFrom, hrole, hid]

theorem carries_plain (hkinds : .other ∉ m.content) (hvalid : ValidUses m.content)
    (hnone : answers m = []) (hdistinct : (uses m).Nodup) (hfresh : ∀ id ∈ uses m, id ∉ used) :
    Carries [] used (m::ms) results ↔ (m.content ≠ [] ∧ (uses m ≠ [] → m.role = .assistant)) ∧
      Carries (uses m).reverse ((uses m).reverse++used) ms results := by
  rw [← calls_uses] at hdistinct hfresh
  have hopen := @open_fresh [] used _ hdistinct hfresh
  rw [calls_uses, List.append_nil] at hopen
  have hrole : (if m.role = .user then ModelRole.user else .assistant) = .user ∨
      (if m.role = .user then ModelRole.user else .assistant) = .assistant := by
    split_ifs <;> simp
  rw [carries_cons, sampling_eq hkinds hvalid, if_pos hnone, ← plain_shape hkinds hnone]
  simp only [make_ok]
  constructor
  · rintro ⟨_,⟨shape,rfl⟩,out,hms,hpairs,hcarried⟩
    exact ⟨shape,out,hms,(validate_plain hrole hopen).symm.trans hpairs,hcarried⟩
  · rintro ⟨shape,out,hms,hpairs,hcarried⟩
    exact ⟨_,⟨shape,rfl⟩,out,hms,(validate_plain hrole hopen).trans hpairs,hcarried⟩

theorem carries_result (hkinds : .other ∉ m.content) (hvalid : ValidUses m.content)
    (hsome : answers m ≠ []) (hwait : waiting.Perm ((answers m).map Prod.fst))
    (hdistinct : waiting.Nodup) (hnamed : ∀ id ∈ waiting, id ≠ "") :
    Carries waiting used (m::ms) (answers m++results) ↔
      (∃ id, answers m = [(id,toolContent (texts m))]) ∧ Carries [] used ms results := by
  have hone : ∀ id c, answers m = [(id,c)] → waiting = [id] := by
    intro id c hanswers
    rw [hanswers] at hwait
    exact List.perm_singleton.mp hwait
  rw [carries_cons, sampling_eq hkinds hvalid, if_neg hsome]
  simp only [make_ok]
  constructor
  · -- The message that is built has the last id and stands for the first result.
    rintro ⟨_,⟨shape,rfl⟩,out,hms,hpairs,hcarried⟩
    obtain ⟨first,rest,hanswers⟩ := List.exists_cons_of_ne_nil hsome
    have hdistinct := hwait.nodup_iff.mp hdistinct
    have hlast : (answers m).getLast?.map Prod.fst = some (rest.getLast?.getD first).1 := by
      rw [hanswers, List.getLast?_cons, Option.map_some]
    simp only [carried, List.filterMap_cons, hlast, Option.map_some] at hcarried
    rw [hanswers] at hdistinct
    rw [hanswers, List.cons_append, List.cons.injEq] at hcarried
    obtain ⟨hfirst,hcarried⟩ := hcarried
    obtain rfl : rest = [] := by
      by_contra hne
      rw [List.getLast?_eq_some_getLast hne, Option.getD_some] at hfirst
      refine (List.nodup_cons.mp hdistinct).1 ?_
      rw [← hfirst]
      exact List.mem_map.mpr ⟨_,List.getLast_mem hne,rfl⟩
    refine ⟨⟨first.1,by rw [hanswers, ← hfirst]⟩,out,hms,?_,hcarried⟩
    rw [hone _ _ hanswers] at hpairs
    rwa [validate_result rfl hlast] at hpairs
  · rintro ⟨⟨id,hanswers⟩,out,hms,hpairs,hcarried⟩
    have hlast : (answers m).getLast?.map Prod.fst = some id := by simp [hanswers]
    have hid : id ≠ "" := hnamed id (by simp [hone _ _ hanswers])
    have hshape : RoleShape .tool (toolContent (texts m)) [] (some id) := by
      refine ⟨fun _ => ⟨by simp,by simpa using hid⟩,fun hne => absurd rfl hne,by simp,.inl ?_⟩
      rw [toolContent]
      split_ifs with hempty
      · simp
      · exact hempty
    refine ⟨_,⟨hlast ▸ hshape,rfl⟩,out,hms,?_,?_⟩
    · rw [hone _ _ hanswers, validate_result rfl hlast, hpairs]
    · simp [carried, hanswers, ← hcarried]

theorem use_named (hvalid : ValidUses m.content) {id : String} (hid : id ∈ uses m) : id ≠ "" := by
  obtain ⟨part,hpart,hsome⟩ := List.mem_filterMap.mp hid
  cases part with
  | toolUse id' name input =>
    cases hsome
    rintro rfl
    have hvalid := hvalid _ _ _ hpart
    simp [toolCallErrors, isCallId] at hvalid
  | text | toolResult | other => cases hsome

/-- No result is accepted where no call waits. -/
theorem nothing_pending (hkinds : ∀ m ∈ ms, .other ∉ m.content) (h : Answered pending ms)
    (hcarries : Carries [] used ms results) : pending = [] := by
  cases ms with
  | nil => exact h
  | cons m ms =>
    obtain ⟨x,hx,out,-,hpairs,-⟩ := carries_cons.mp hcarries
    by_contra hne
    have hsome : answers m ≠ [] := fun hnil => hne (by simpa [hnil] using h.1)
    rw [sampling_eq (hkinds m List.mem_cons_self) (sampling_valid hx), if_neg hsome] at hx
    obtain ⟨shape,rfl⟩ := make_ok.mp hx
    rw [validateFrom] at hpairs
    cases hlast : (answers m).getLast? <;> simp [hlast] at hpairs

theorem carries_iff (hkinds : ∀ m ∈ ms, .other ∉ m.content) (h : Answered pending ms)
    (hwait : waiting.Perm pending) (hnamed : ∀ id ∈ waiting, id ≠ "") (hpending : waiting.Nodup)
    (hdistinct : (ms.flatMap uses).Nodup) (hfresh : ∀ id ∈ ms.flatMap uses, id ∉ used) :
    Carries waiting used ms (ms.flatMap answers) ↔ ∀ m ∈ ms, Faithful m := by
  induction ms generalizing pending waiting used with
  | nil =>
    rw [show pending = [] from h] at hwait
    rw [hwait.eq_nil]
    exact ⟨fun _ => by simp,fun _ => ⟨[],rfl,rfl,rfl⟩⟩
  | cons m ms ih =>
    rw [List.forall_mem_cons] at hkinds
    rw [List.flatMap_cons, List.nodup_append] at hdistinct
    rw [List.forall_mem_cons, List.flatMap_cons]
    by_cases hvalid : ValidUses m.content
    swap
    · refine ⟨fun hcarries => absurd ?_ hvalid,fun hall => absurd hall.1.valid hvalid⟩
      obtain ⟨x,hx,-⟩ := carries_cons.mp hcarries
      exact sampling_valid hx
    by_cases hnone : answers m = []
    · have hpending : pending = [] := by simpa [hnone] using h.1
      rw [hpending] at hwait
      rw [hwait.eq_nil, hnone, List.nil_append, carries_plain hkinds.1 hvalid hnone hdistinct.1
        (fun id hid => hfresh id (by simp [hid])), ih hkinds.2 h.2.2 (List.reverse_perm _)]
      · refine and_congr_left fun _ => ⟨fun hplain => ?_,fun hfaithful => hfaithful.plain hnone⟩
        exact ⟨hvalid,fun _ => hplain,fun hsome => absurd hnone hsome⟩
      · exact fun id hid => use_named hvalid (List.mem_reverse.mp hid)
      · exact List.nodup_reverse.mpr hdistinct.1
      · exact hdistinct.2.1
      · intro id hid hold
        rcases List.mem_append.mp hold with hm | hu
        · exact hdistinct.2.2 id (List.mem_reverse.mp hm) id hid rfl
        · exact hfresh id (by simp [hid]) hu
    · have hrest := fun huses : uses m = [] => @ih [] [] used hkinds.2 (huses ▸ h.2.2) .nil (by simp)
        .nil hdistinct.2.1 (fun id hid => hfresh id (by simp [hid]))
      rw [carries_result hkinds.1 hvalid hnone (hwait.trans h.1.symm) hpending hnamed]
      constructor
      · rintro ⟨hone,hcarries⟩
        have huses := nothing_pending hkinds.2 h.2.2 hcarries
        exact ⟨⟨hvalid,fun hnil => absurd hnil hnone,fun _ => ⟨huses,hone⟩⟩,
          (hrest huses).mp hcarries⟩
      · rintro ⟨hfaithful,hall⟩
        obtain ⟨huses,hone⟩ := hfaithful.result hnone
        exact ⟨hone,(hrest huses).mpr hall⟩

theorem answered_perm (h : Answered pending ms) :
    ((ms.flatMap answers).map Prod.fst).Perm (pending++ms.flatMap uses) := by
  induction ms generalizing pending with
  | nil =>
    rw [show pending = [] from h]
    exact .refl _
  | cons m ms ih =>
    rw [List.flatMap_cons, List.flatMap_cons, List.map_append]
    exact h.1.append (ih h.2.2)

/-- The results of a conversation in which each call is answered stay with their
calls exactly if every message is one that is translated faithfully. -/
theorem sampling_keeps_results (systemPrompt : Option String) (messages : List SamplingMessage)
    (hkinds : ∀ m ∈ messages, .other ∉ m.content) (hdistinct : (messages.flatMap uses).Nodup)
    (hanswered : Answered [] messages) :
    (∃ out, sampledMessages systemPrompt messages = .ok out ∧ validatePairs out = .ok () ∧
      carried out = messages.flatMap answers ∧
      ∀ id ∈ messages.flatMap uses, ((carried out).map Prod.fst).count id = 1) ↔
    ∀ m ∈ messages, Faithful m := by
  have hcount : ∀ id ∈ messages.flatMap uses,
      ((messages.flatMap answers).map Prod.fst).count id = 1 := by
    intro id hid
    rw [(answered_perm hanswered).count_eq]
    exact List.count_eq_one_of_mem hdistinct hid
  rw [← @carries_iff messages [] [] [] hkinds hanswered .nil (by simp) .nil hdistinct (by simp)]
  constructor
  · rintro ⟨_,hout,hpairs,hcarried,-⟩
    obtain ⟨translated,htranslated,hout⟩ := bind_ok hout
    cases hout
    refine ⟨translated,htranslated,?_,?_⟩
    · split_ifs at hpairs <;> exact hpairs
    · split_ifs at hcarried <;> exact hcarried
  · rintro ⟨out,hout,hpairs,hcarried⟩
    simp only [sampledMessages, hout, bind, Except.bind]
    split_ifs
    · exact ⟨out,rfl,hpairs,hcarried,hcarried ▸ hcount⟩
    · exact ⟨_,rfl,hpairs,hcarried,hcarried.symm ▸ hcount⟩

/-- The second result has no text, and an empty text beside it. -/
def answeredCalls : List SamplingMessage :=
  [⟨.assistant,[.text "look",.toolUse "a" "t" []]⟩,⟨.user,[.toolResult "a" [some "1"]]⟩,
    ⟨.assistant,[.toolUse "b" "t" []]⟩,⟨.user,[.toolResult "b" [none],.text ""]⟩]

theorem answered_calls_kept : ∃ out, sampledMessages none answeredCalls = .ok out ∧
    validatePairs out = .ok () ∧ carried out = [("a",[.text "1"]),("b",[.text ""])] := by
  have hkept := sampling_keeps_results none answeredCalls (by simp [answeredCalls])
    (by simp [answeredCalls, uses]) (by simp [answeredCalls, Answered, answers, uses])
  obtain ⟨out,hout,hpairs,hcarried,-⟩ := hkept.mpr (by
    intro m hm
    simp only [answeredCalls, List.mem_cons, List.not_mem_nil, or_false] at hm
    rcases hm with rfl | rfl | rfl | rfl
    · refine ⟨?_,by simp,by simp [answers]⟩
      simp only [ValidUses, List.mem_cons, List.not_mem_nil, or_false]
      rintro id name input (h | h) <;> cases h
      decide
    · exact ⟨by simp [ValidUses],by simp [answers],fun _ => ⟨rfl,_,rfl⟩⟩
    · refine ⟨?_,by simp,by simp [answers]⟩
      simp only [ValidUses, List.mem_singleton]
      rintro id name input h
      cases h
      decide
    · exact ⟨by simp [ValidUses],by simp [answers],fun _ => ⟨rfl,_,rfl⟩⟩)
  exact ⟨out,hout,hpairs,hcarried⟩

def twoCalls : List SamplingMessage :=
  [⟨.assistant,[.toolUse "a" "t" [],.toolUse "b" "t" []]⟩,
    ⟨.user,[.toolResult "a" [some "1"],.toolResult "b" [some "2"]]⟩]

theorem two_results_folded :
    (∀ m ∈ twoCalls, .other ∉ m.content) ∧ (twoCalls.flatMap uses).Nodup ∧ Answered [] twoCalls ∧
      ∃ out, sampledMessages none twoCalls = .ok out ∧ validatePairs out = .error missingResults ∧
        carried out = [("b",[.text "1",.text "2"])] := by
  refine ⟨by simp [twoCalls],by simp [twoCalls, uses],by simp [twoCalls, Answered, answers, uses],?_⟩
  exact ⟨_,rfl,rfl,rfl⟩

end SuiteHarness.Mcp
