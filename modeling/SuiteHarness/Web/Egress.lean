import SuiteHarness.Web.Fetch

/-!
# Web fetch contacts validated targets only

`Guarded` is about the events of a fetch: the event before a request is a lookup
that belongs to the URL of the request and gave its allowed addresses, all of
them public. One round of the loop keeps it, so the loop does, whatever the
resolver and the transport answer.
-/

set_option autoImplicit false

namespace SuiteHarness.Web

open SuiteHarness.Library

structure Licensed (pf : WebPlatform) (lookup : FetchEvent) (request : HttpRequest) : Prop where
  licence : ∃ url parsed hostname port addresses,
    validateUrl pf url = .ok (parsed,hostname,port) ∧
    lookup = .resolved hostname port (some addresses) ∧
    request.url = pf.urlunsplit (pf.lower parsed.scheme) parsed.netloc
      (if parsed.path = "" then "/" else parsed.path) parsed.query ∧
    request.allowedTargetIps = addresses ∧ addresses ≠ ∅ ∧
    ∀ address ∈ addresses, publicAddress pf address = true

variable (pf : WebPlatform) (events : List FetchEvent)

def Guarded : Prop :=
  ∀ (i : ℕ) (request : HttpRequest) (answer : TransportAnswer),
    events[i]? = some (.sent request answer) →
    ∃ j lookup, i = j+1 ∧ events[j]? = some lookup ∧ Licensed pf lookup request

def Attested (request : HttpRequest) (response : HttpResponse) : Prop :=
  ∃ address ∈ request.allowedTargetIps, ∃ ip, pf.ipAddress address = some ip ∧
    pf.ipAddress response.connectedTargetIp = some ip

def AllAttested : Prop :=
  ∀ request answer, FetchEvent.sent request answer ∈ events →
    ∃ response, answer = .response response ∧ Attested pf request response

def isSent : FetchEvent → Bool
  | .sent _ _ => true
  | .resolved _ _ _ => false

def sentCount : ℕ := events.countP isSent

variable {events : List FetchEvent}

theorem guarded_lookup {pf : WebPlatform} (hostname : String) (port : ℕ)
    (answer : Option (Finset String)) (h : Guarded pf events) :
    Guarded pf (events++[.resolved hostname port answer]) := by
  intro i request sent hi
  rcases Nat.lt_or_ge i events.length with hlt | hge
  · rw [List.getElem?_append_left hlt] at hi
    obtain ⟨j,lookup,rfl,hj,hlicensed⟩ := h i request sent hi
    exact ⟨j,lookup,rfl,by rw [List.getElem?_append_left (by omega), hj],hlicensed⟩
  · rw [List.getElem?_append_right hge] at hi
    cases hd : i-events.length with
    | zero | succ d =>
      rw [hd] at hi
      cases hi

theorem guarded_request {pf : WebPlatform} {lookup : FetchEvent}
    {request : HttpRequest} (answer : TransportAnswer) (hlicensed : Licensed pf lookup request)
    (h : Guarded pf (events++[lookup])) : Guarded pf (events++[lookup]++[.sent request answer]) := by
  intro i other sent hi
  rcases Nat.lt_or_ge i (events++[lookup]).length with hlt | hge
  · rw [List.getElem?_append_left hlt] at hi
    obtain ⟨j,before,rfl,hj,hother⟩ := h i other sent hi
    exact ⟨j,before,rfl,by rw [List.getElem?_append_left (by omega), hj],hother⟩
  · rw [List.getElem?_append_right hge] at hi
    cases hd : i-(events++[lookup]).length with
    | zero =>
      rw [hd] at hi
      cases hi
      rw [List.length_append, List.length_singleton] at hge hd
      refine ⟨events.length,lookup,by omega,?_,hlicensed⟩
      rw [List.getElem?_append_left (by simp), List.getElem?_concat_length]
    | succ d =>
      rw [hd] at hi
      cases hi

theorem all_attested_append {pf : WebPlatform} {lookup : FetchEvent}
    {request : HttpRequest} {response : HttpResponse} (hlookup : isSent lookup = false)
    (hattested : Attested pf request response) (h : AllAttested pf events) :
    AllAttested pf (events++[lookup]++[.sent request (.response response)]) := by
  intro other answer hmem
  rw [List.mem_append, List.mem_append, List.mem_singleton, List.mem_singleton] at hmem
  rcases hmem with (hold | rfl) | hnew
  · exact h other answer hold
  · cases hlookup
  · cases hnew
    exact ⟨response,rfl,hattested⟩

/-- What `validate` did: nothing on the network, or one lookup that it accepted
or not. -/
theorem validate_events (world : WebWorld) (url : String) (events : List FetchEvent) :
    (∃ error, validate pf world url events = (.error error,events)) ∨
    (∃ error hostname port answer,
      validate pf world url events = (.error error,events++[.resolved hostname port answer])) ∨
    ∃ target parsed, validateUrl pf url = .ok (parsed,target.hostname,target.port) ∧
      target.url = pf.urlunsplit (pf.lower parsed.scheme) parsed.netloc
        (if parsed.path = "" then "/" else parsed.path) parsed.query ∧
      target.addresses ≠ ∅ ∧ (∀ address ∈ target.addresses, publicAddress pf address = true) ∧
      validate pf world url events =
        (.ok target,events++[.resolved target.hostname target.port (some target.addresses)]) := by
  cases hurl : validateUrl pf url with
  | error error =>
    left
    refine ⟨error,?_⟩
    simp only [validate, hurl]
  | ok found =>
    obtain ⟨parsed,hostname,port⟩ := found
    right
    cases hanswer : world.resolve events.length hostname port with
    | none =>
      left
      refine ⟨.policyDenied "outbound hostname could not be resolved",hostname,port,none,?_⟩
      simp only [validate, hurl, hanswer]
    | some addresses =>
      by_cases hbad : addresses = ∅ ∨ ∃ address ∈ addresses, publicAddress pf address = false
      · left
        refine ⟨.policyDenied "outbound target resolves to a non-public address",hostname,port,
          some addresses,?_⟩
        simp only [validate, hurl, hanswer, if_pos hbad]
      · right
        refine ⟨⟨_,hostname,port,addresses⟩,parsed,rfl,rfl,fun he => hbad (Or.inl he),
          fun address hmem => ?_,?_⟩
        · by_contra hpublic
          exact hbad (Or.inr ⟨address,hmem,Bool.eq_false_of_not_eq_true hpublic⟩)
        · simp only [validate, hurl, hanswer, if_neg hbad]

theorem verify_attested {pf : WebPlatform} {target : ValidatedTarget} {connectedIp : String}
    (h : verifyConnectedPeer pf target connectedIp = .ok ()) :
    ∃ address ∈ target.addresses, ∃ ip, pf.ipAddress address = some ip ∧
      pf.ipAddress connectedIp = some ip := by
  unfold verifyConnectedPeer at h
  split at h
  · cases h
  · rename_i connected hconnected
    split at h
    · cases h
    · split at h
      · rename_i hmem
        obtain ⟨address,haddress,heq⟩ := hmem
        exact ⟨address,haddress,connected,heq,hconnected⟩
      · cases h

namespace WebFetchService

variable (service : WebFetchService) (world : WebWorld)

theorem check_response_ok (target : ValidatedTarget) (response : HttpResponse)
    (h : service.checkResponse target response = .ok ()) :
    verifyConnectedPeer service.platform target response.connectedTargetIp = .ok () ∧
      response.body.length ≤ service.limits.maxCompressedBytes := by
  unfold checkResponse at h
  split at h
  · cases h
  · rename_i hverify
    split at h
    · cases h
    · rename_i hlength
      exact ⟨hverify,not_lt.mp hlength⟩

theorem build_request_ok (target : ValidatedTarget) (remaining : ℤ) (request : HttpRequest)
    (h : service.buildRequest target remaining = .ok request) :
    request.url = target.url ∧ request.allowedTargetIps = target.addresses := by
  unfold buildRequest at h
  split at h
  · cases h
  · split at h
    · cases h
    · split at h
      · cases h
      · cases h
        exact ⟨rfl,rfl⟩

structure Round (events : List FetchEvent) (out : Outcome (ValidatedTarget × HttpResponse)) :
    Prop where
  guarded : Guarded service.platform events → Guarded service.platform out.2
  count : sentCount out.2 ≤ sentCount events+1
  returned : ∀ target response, out.1 = .ok (target,response) →
    (AllAttested service.platform events → AllAttested service.platform out.2) ∧
      response.body.length ≤ service.limits.maxCompressedBytes ∧
      ∃ request, out.2.getLast? = some (.sent request (.response response))

variable (events : List FetchEvent)

theorem round_failed (error : WebError) :
    service.Round events (.error error,events) where
  guarded := id
  count := Nat.le_succ _
  returned _ _ h := nomatch h

theorem round_lookup (error : WebError) (hostname : String) (port : ℕ)
    (answer : Option (Finset String)) :
    service.Round events (.error error,events++[.resolved hostname port answer]) where
  guarded h := guarded_lookup hostname port answer h
  count := by
    simp only [sentCount, List.countP_append, List.countP_singleton]
    simp [isSent]
  returned _ _ h := nomatch h

theorem round_request (target : ValidatedTarget) (request : HttpRequest)
    (answer : TransportAnswer) (result : Except WebError (ValidatedTarget × HttpResponse))
    (hlicensed : Licensed service.platform
      (.resolved target.hostname target.port (some target.addresses)) request)
    (hallowed : request.allowedTargetIps = target.addresses)
    (hresult : ∀ target' response, result = .ok (target',response) →
      target' = target ∧ answer = .response response ∧
        service.checkResponse target response = .ok ()) :
    service.Round events (result,events++
      [.resolved target.hostname target.port (some target.addresses)]++[.sent request answer]) where
  guarded h := guarded_request answer hlicensed
    (guarded_lookup _ _ _ h)
  count := by
    simp only [sentCount, List.countP_append, List.countP_singleton]
    simp [isSent]
  returned target' response h := by
    obtain ⟨rfl,rfl,hcheck⟩ := hresult target' response h
    obtain ⟨hverify,hbody⟩ := service.check_response_ok target' response hcheck
    refine ⟨fun hall => ?_,hbody,request,by rw [List.getLast?_concat]⟩
    refine all_attested_append rfl ?_ hall
    have hattested := verify_attested hverify
    rw [← hallowed] at hattested
    exact hattested

theorem hop_round (url : String) (events : List FetchEvent) :
    service.Round events (service.hop world url events) := by
  unfold hop
  dsimp only
  split
  · exact service.round_failed events _
  · rcases validate_events service.platform world url events with
      ⟨error,hv⟩ | ⟨error,hostname,port,answer,hv⟩ | ⟨target,parsed,hurl,htarget,hne,hpublic,hv⟩
    · rw [hv]
      exact service.round_failed events error
    · rw [hv]
      exact service.round_lookup events error hostname port answer
    · rw [hv]
      dsimp only
      split
      · exact service.round_lookup events _ _ _ _
      · rename_i request hrequest
        obtain ⟨hrequrl,hallowed⟩ := service.build_request_ok target _ request hrequest
        have hlicensed : Licensed service.platform
            (.resolved target.hostname target.port (some target.addresses)) request :=
          ⟨url,parsed,target.hostname,target.port,target.addresses,hurl,rfl,hrequrl.trans htarget,
            hallowed,hne,hpublic⟩
        split
        · exact service.round_request events target request _ _ hlicensed hallowed nofun
        · exact service.round_request events target request _ _ hlicensed hallowed nofun
        · rename_i response hanswer
          split
          · exact service.round_request events target request _ _ hlicensed hallowed nofun
          · rename_i hcheck
            refine service.round_request events target request _ _ hlicensed hallowed ?_
            rintro target' response' heq
            cases heq
            exact ⟨rfl,hanswer,hcheck⟩

theorem fetch_loop_guarded (left : ℕ) (url : String) (events : List FetchEvent)
    (h : Guarded service.platform events) :
    Guarded service.platform (service.fetchLoop world left url events).2 ∧
      sentCount (service.fetchLoop world left url events).2 ≤ sentCount events+left+1 ∧
      ∀ finalUrl response, (service.fetchLoop world left url events).1 = .ok (finalUrl,response) →
        (AllAttested service.platform events →
          AllAttested service.platform (service.fetchLoop world left url events).2) ∧
        response.body.length ≤ service.limits.maxCompressedBytes ∧
        ∃ request, (service.fetchLoop world left url events).2.getLast? =
          some (.sent request (.response response)) := by
  induction left generalizing url events with
  | zero =>
    have hround := service.hop_round world url events
    rw [fetchLoop]
    split
    · rename_i error next hhop
      rw [hhop] at hround
      exact ⟨hround.guarded h,by simpa using hround.count,nofun⟩
    · rename_i target response next hhop
      rw [hhop] at hround
      split
      · refine ⟨hround.guarded h,by simpa using hround.count,fun finalUrl response' heq => ?_⟩
        cases heq
        exact hround.returned target response rfl
      · exact ⟨hround.guarded h,by simpa using hround.count,nofun⟩
  | succ left ih =>
    have hround := service.hop_round world url events
    have hcount := hround.count
    rw [fetchLoop]
    split
    · rename_i error next hhop
      rw [hhop] at hround hcount
      exact ⟨hround.guarded h,by dsimp only at hcount ⊢; omega,nofun⟩
    · rename_i target response next hhop
      rw [hhop] at hround hcount
      dsimp only at hcount
      split
      · refine ⟨hround.guarded h,by dsimp only; omega,fun finalUrl response' heq => ?_⟩
        cases heq
        exact hround.returned target response rfl
      · dsimp only
        split
        · exact ⟨hround.guarded h,by dsimp only; omega,nofun⟩
        · split
          · exact ⟨hround.guarded h,by dsimp only; omega,nofun⟩
          · split
            · exact ⟨hround.guarded h,by dsimp only; omega,nofun⟩
            · rename_i nextUrl hjoin
              obtain ⟨hguarded,hle,hreturned⟩ := ih nextUrl next (hround.guarded h)
              refine ⟨hguarded,by omega,fun finalUrl final heq => ?_⟩
              obtain ⟨hattested,hbody,hlast⟩ := hreturned finalUrl final heq
              exact ⟨fun hall => hattested ((hround.returned target response rfl).1 hall),hbody,hlast⟩

theorem bounded_decompress_length (data content : Bytes) (encoding : String) (limit : ℕ)
    (h : service.boundedDecompress data encoding limit = .ok content) : content.length ≤ limit := by
  unfold boundedDecompress at h
  split at h
  · split at h
    · cases h
    · rename_i hlength
      cases h
      exact not_lt.mp hlength
  · split at h
    · cases h
    · split at h
      · cases h
      · dsimp only at h
        split at h
        · cases h
        · rename_i hlength
          cases h
          exact not_lt.mp fun hlt => hlength (Or.inl hlt)

/-- The text of a document comes from a bounded body and is bounded itself. -/
theorem build_document_bounded (requestedUrl finalUrl : String) (response : HttpResponse)
    (document : FetchDocument)
    (h : service.buildDocument world requestedUrl finalUrl response = .ok document) :
    document.finalUrl = finalUrl ∧
      document.text.toList.length ≤ service.limits.maxTextCharacters ∧
      ∃ encoding content declaredType title text,
        service.boundedDecompress response.body encoding service.limits.maxContentBytes =
          .ok content ∧ content.length ≤ service.limits.maxContentBytes ∧
        service.extractText world content declaredType finalUrl = .ok (title,text) ∧
        document.text.toList = text.toList.take service.limits.maxTextCharacters := by
  unfold buildDocument at h
  split at h
  · cases h
  · dsimp only at h
    split at h
    · cases h
    · rename_i content hcontent
      split at h
      · cases h
      · rename_i title text htext
        have hlength := service.bounded_decompress_length _ content _ _ hcontent
        cases h
        by_cases hlong : service.limits.maxTextCharacters < text.toList.length
        · refine ⟨rfl,?_,_,content,_,title,text,hcontent,hlength,htext,?_⟩
          · simp [hlong]
          · simp [hlong]
        · refine ⟨rfl,?_,_,content,_,title,text,hcontent,hlength,htext,?_⟩
          · simpa [hlong] using not_lt.mp hlong
          · simp [hlong, List.take_of_length_le (not_lt.mp hlong)]

/-- Whatever the resolver and the transport answer, every request follows a
lookup of its own URL and names the public addresses that the lookup gave; there
are at most one more requests than redirects allowed; and a document is returned
only if every peer was attested, with a text within the limits. -/
theorem fetch_contacts_validated_targets (url : String) :
    Guarded service.platform (service.fetch world url).2 ∧
      sentCount (service.fetch world url).2 ≤ service.limits.maxRedirects+1 ∧
      ∀ document, (service.fetch world url).1 = .ok document →
        AllAttested service.platform (service.fetch world url).2 ∧
        document.text.toList.length ≤ service.limits.maxTextCharacters ∧
        ∃ request response encoding content declaredType title text,
          (service.fetch world url).2.getLast? = some (.sent request (.response response)) ∧
          response.body.length ≤ service.limits.maxCompressedBytes ∧
          service.boundedDecompress response.body encoding service.limits.maxContentBytes =
            .ok content ∧ content.length ≤ service.limits.maxContentBytes ∧
          service.extractText world content declaredType document.finalUrl = .ok (title,text) ∧
          document.text.toList = text.toList.take service.limits.maxTextCharacters := by
  obtain ⟨hguarded,hcount,hreturned⟩ := service.fetch_loop_guarded world
    service.limits.maxRedirects url [] nofun
  have hzero : sentCount [] = 0 := rfl
  unfold fetch
  split
  · rename_i error events hloop
    rw [hloop] at hguarded hcount
    exact ⟨hguarded,by dsimp only at hcount ⊢; omega,nofun⟩
  · rename_i finalUrl response events hloop
    rw [hloop] at hguarded hcount hreturned
    refine ⟨hguarded,by dsimp only at hcount ⊢; omega,fun document hdocument => ?_⟩
    obtain ⟨hattested,hbody,request,hlast⟩ := hreturned finalUrl response rfl
    obtain ⟨hfinal,htext,encoding,content,declaredType,title,text,hcontent,hlength,hextract,
      htake⟩ := service.build_document_bounded world url finalUrl response document hdocument
    exact ⟨hattested nofun,htext,request,response,encoding,content,declaredType,title,text,hlast,
      hbody,hcontent,hlength,hfinal ▸ hextract,htake⟩

end WebFetchService
end SuiteHarness.Web
