import SippinSoda.Engine.Replays
import SippinSoda.Modification

/-!
# The request that a replay repeats

A replay goes through a template, text and the proxy itself, which strips hop-by-hop headers a
second time. What it adds nominates the name `close`, and a header of that name is lost.

* **Dispatch.bytes** — what `replay_through_proxy` writes;
* **Repeated** — a forwarded request is another one without its credentials;
* **replay_repeats_the_request** — exactly when a replay does that.
-/

namespace SippinSoda

/-! ## What is written -/

/-- `Display` of a URI. -/
def Uri.text (uri : Uri) : Str :=
  (uri.scheme.map (· ++ "://".toList)).getD [] ++ (uri.authority.map Authority.text).getD [] ++
    uri.path ++ (uri.query.map ('?' :: ·)).getD []

/-- `HeaderValue::as_bytes`. -/
def HeaderValue.bytes (value : HeaderValue) : List UInt8 := value.map fun c => UInt8.ofNat c.toNat

/-- What `replay_through_proxy` writes to the proxy. -/
def Dispatch.bytes (d : Dispatch) : List UInt8 :=
  utf8 (d.template.method ++ " ".toList ++ d.template.uri.text ++ " HTTP/1.1\r\nHost: ".toList ++
    (d.template.uri.authority.map Authority.text).getD [] ++ "\r\n".toList ++
    internalReplayHeader ++ ": ".toList ++ d.token ++ "\r\nConnection: close\r\n".toList) ++
  d.template.headers.flatMap (fun (name, value) =>
    utf8 name ++ utf8 ": ".toList ++ HeaderValue.bytes value ++ utf8 "\r\n".toList) ++
  utf8 "\r\n".toList

/-! ## Templates -/

/-- The names that may carry secrets, none of which is in a template. -/
def secretHeaders : List Str :=
  ["authorization", "proxy-authorization", "cookie", "x-api-key"].map String.toList

/-- The headers a template keeps. -/
def templateHeaders (headers : HeaderMap) : HeaderMap :=
  unreplayedHeaders.foldl HeaderMap.remove (stripHopHeaders headers)

theorem replayTemplate_cases {request : Request} {template : ReplayTemplate}
    (h : replayTemplate request = some template) :
    request.uri.scheme = some "http".toList ∧ (∃ authority, request.uri.authority = some authority) ∧
      template = ⟨request.method, request.uri, templateHeaders request.headers⟩ := by
  unfold replayTemplate at h
  split at h
  · cases h
  next hcond =>
    cases h
    simp only [Bool.or_eq_true, not_or, Bool.not_eq_true, bne_eq_false_iff_eq] at hcond
    exact ⟨hcond.1.2, Option.isSome_iff_exists.mp (by simpa using hcond.2), rfl⟩

/-- What is left of a name in a template. -/
theorem getAll_templateHeaders (headers : HeaderMap) (name : Str) :
    HeaderMap.getAll (templateHeaders headers) name =
      if HopByHop headers name ∨ name ∈ unreplayedHeaders then []
      else HeaderMap.getAll headers name := by
  have hlower : unreplayedHeaders.map Str.toAsciiLowercase = unreplayedHeaders := rfl
  unfold templateHeaders
  rw [HeaderMap.getAll_foldl_remove, getAll_stripHopHeaders, hlower]
  by_cases hunreplayed : name ∈ unreplayedHeaders
  · rw [if_pos hunreplayed, if_pos (.inr hunreplayed)]
  · rw [if_neg hunreplayed]
    by_cases hhop : HopByHop headers name
    · rw [if_pos hhop, if_pos (.inl hhop)]
    · rw [if_neg hhop, if_neg (not_or.mpr ⟨hhop, hunreplayed⟩)]

/-- It keeps no name of a secret. -/
theorem templateHeaders_public (headers : HeaderMap) :
    ∀ field ∈ templateHeaders headers, field.1 ∉ secretHeaders := by
  have hremoved : ∀ name ∈ secretHeaders, name ∈ hopHeaders ∨ name ∈ unreplayedHeaders := by decide
  intro field hfield hsecret
  have hnone : HeaderMap.getAll (templateHeaders headers) field.1 = [] := by
    rw [getAll_templateHeaders]
    exact if_pos ((hremoved _ hsecret).imp_left .inl)
  have hvalue : field.2 ∈ HeaderMap.getAll (templateHeaders headers) field.1 :=
    HeaderMap.mem_iff_mem_getAll.mp hfield
  rw [hnone] at hvalue
  cases hvalue

/-! ## Requests that differ in secrets -/

/-- The same names in the same order, with the same values but of those that may carry secrets. -/
def HeaderMap.Alike (headers headers' : HeaderMap) : Prop :=
  List.Forall₂ (fun f g => f.1 = g.1 ∧ (f.1 ∉ secretHeaders → f.2 = g.2)) headers headers'

/-- Two requests that differ in nothing but the values of headers that may carry secrets. -/
structure Request.Alike (request request' : Request) : Prop where
  method : request'.method = request.method
  uri : request'.uri = request.uri
  bodyEnded : request'.bodyEnded = request.bodyEnded
  headers : request.headers.Alike request'.headers

theorem HeaderMap.Alike.foldl_remove {headers headers' : HeaderMap} (h : headers.Alike headers')
    (names : List Str) :
    HeaderMap.Alike (names.foldl HeaderMap.remove headers)
      (names.foldl HeaderMap.remove headers') :=
  HeaderMap.forall₂_foldl_remove (fun _ _ hfg => hfg.1) names h

theorem HeaderMap.Alike.nominated {headers headers' : HeaderMap} (h : headers.Alike headers') :
    nominated headers = SippinSoda.nominated headers' := by
  have hpublic : "connection".toList ∉ secretHeaders := by decide
  unfold SippinSoda.nominated
  rw [HeaderMap.getAll_of_forall₂ (fun _ _ hfg => ⟨hfg.1, fun heq => hfg.2 (heq ▸ hpublic)⟩) h]

/-- Without names of secrets they are the same. -/
theorem HeaderMap.Alike.eq {headers headers' : HeaderMap} (h : headers.Alike headers')
    (hpublic : ∀ field ∈ headers, field.1 ∉ secretHeaders) : headers = headers' := by
  induction h with
  | nil => rfl
  | @cons f g l l' hfg _ ih =>
      have hvalue : f.2 = g.2 := hfg.2 (hpublic f List.mem_cons_self)
      rw [Prod.ext hfg.1 hvalue, ih fun field hfield => hpublic field (List.mem_cons_of_mem _ hfield)]

theorem HeaderMap.Alike.templateHeaders {headers headers' : HeaderMap} (h : headers.Alike headers') :
    templateHeaders headers = SippinSoda.templateHeaders headers' := by
  have halike : HeaderMap.Alike (SippinSoda.templateHeaders headers)
      (SippinSoda.templateHeaders headers') := by
    unfold SippinSoda.templateHeaders stripHopHeaders
    rw [h.nominated]
    exact ((h.foldl_remove _).foldl_remove _).foldl_remove _
  exact halike.eq (templateHeaders_public headers)

theorem Request.Alike.unmarked {request request' : Request} (h : request.Alike request') :
    request.unmarked.Alike request'.unmarked :=
  ⟨h.method, h.uri, h.bodyEnded, h.headers.foldl_remove [internalReplayHeader]⟩

/-- **Templates do not depend on secrets.** -/
theorem Request.Alike.replayTemplate {request request' : Request} (h : request.Alike request') :
    SippinSoda.replayTemplate request' = SippinSoda.replayTemplate request := by
  have hheaders := h.headers.templateHeaders
  unfold SippinSoda.templateHeaders at hheaders
  unfold SippinSoda.replayTemplate
  rw [h.method, h.uri, h.bodyEnded, hheaders]

/-! ## What is forwarded -/

/-- What the proxy sends upstream for a request it receives. -/
def Request.forwarded (request : Request) (authority : Authority) : Request :=
  upstreamRequest false authority request.unmarked

/-- What a replay leaves out of the request that was forwarded. -/
def withheldHeaders : List Str :=
  ["authorization", "cookie", "x-api-key", "content-length"].map String.toList

/-- The request forwarded for `received` is the one forwarded for `original` without what a
replay withholds; the internal header goes neither upstream nor into the capture. -/
structure Request.Repeated (original received : Request) (authority : Authority) : Prop where
  method : (received.forwarded authority).method = (original.forwarded authority).method
  target : (received.forwarded authority).uri = (original.forwarded authority).uri
  host : HeaderMap.getAll (received.forwarded authority).headers "host".toList =
    HeaderMap.getAll (original.forwarded authority).headers "host".toList
  headers : ∀ name, HeaderMap.getAll (received.forwarded authority).headers name =
    if name ∈ withheldHeaders then []
    else HeaderMap.getAll (original.forwarded authority).headers name
  unmarked : HeaderMap.getAll (received.forwarded authority).headers internalReplayHeader = []
  uncaptured : ∀ field ∈ safeHeaders received.unmarked.headers, field.1 ≠ internalReplayHeader

theorem getAll_forwarded (request : Request) (authority : Authority) (name : Str) :
    HeaderMap.getAll (request.forwarded authority).headers name =
      if name = "host".toList then [authority.text]
      else if HopByHop request.unmarked.headers name then []
      else HeaderMap.getAll request.unmarked.headers name := by
  unfold Request.forwarded upstreamRequest
  dsimp only
  rw [getAll_insert, getAll_stripHopHeaders]

theorem getAll_unmarked {request : Request} {name : Str} (h : name ≠ internalReplayHeader) :
    HeaderMap.getAll request.unmarked.headers name = HeaderMap.getAll request.headers name := by
  have hlower : Str.toAsciiLowercase internalReplayHeader = internalReplayHeader := by decide
  unfold Request.unmarked
  dsimp only
  rw [HeaderMap.getAll_remove, hlower, if_neg h]

theorem getAll_unmarked_internal (request : Request) :
    HeaderMap.getAll request.unmarked.headers internalReplayHeader = [] := by
  unfold Request.unmarked
  dsimp only
  rw [HeaderMap.getAll_remove]
  rfl

theorem nominated_unmarked (request : Request) :
    nominated request.unmarked.headers = nominated request.headers := by
  unfold nominated
  rw [getAll_unmarked (by decide)]

/-! ## The request of a replay -/

section

variable {d : Dispatch} {request : Request}
  (htemplate : replayTemplate request = some d.template)

include htemplate

theorem getAll_dispatch {name : Str} (hhost : name ≠ "host".toList)
    (hinternal : name ≠ internalReplayHeader) (hconnection : name ≠ "connection".toList) :
    HeaderMap.getAll d.request.unmarked.headers name =
      if HopByHop request.headers name ∨ name ∈ unreplayedHeaders then []
      else HeaderMap.getAll request.headers name := by
  have hheaders := congrArg ReplayTemplate.headers (replayTemplate_cases htemplate).2.2
  dsimp only at hheaders
  rw [getAll_unmarked hinternal, ← getAll_templateHeaders, ← hheaders]
  unfold Dispatch.request
  dsimp only
  rw [HeaderMap.getAll_append, HeaderMap.getAll_eq_nil, List.nil_append]
  intro field hfield heq
  simp only [List.mem_cons, List.not_mem_nil, or_false] at hfield
  rcases hfield with rfl | rfl | rfl
  · exact hhost heq.symm
  · exact hinternal heq.symm
  · exact hconnection heq.symm

/-- The one name its `Connection` nominates. -/
theorem nominated_dispatch : nominated d.request.unmarked.headers = ["close".toList] := by
  have hheaders := congrArg ReplayTemplate.headers (replayTemplate_cases htemplate).2.2
  dsimp only at hheaders
  have hconnection : HeaderMap.getAll d.request.headers "connection".toList = ["close".toList] := by
    have hnone : HeaderMap.getAll d.template.headers "connection".toList = [] := by
      have hmem : "connection".toList ∈ hopHeaders := by decide
      have hhop : HopByHop request.headers "connection".toList := Or.inl hmem
      rw [hheaders, getAll_templateHeaders]
      exact if_pos (Or.inl hhop)
    unfold Dispatch.request
    dsimp only
    rw [HeaderMap.getAll_append, hnone]
    rfl
  rw [nominated_unmarked]
  unfold nominated
  rw [hconnection]
  decide

theorem hopByHop_dispatch (name : Str) :
    HopByHop d.request.unmarked.headers name ↔ name ∈ hopHeaders ∨ name = "close".toList := by
  unfold HopByHop
  rw [nominated_dispatch htemplate]
  show name ∈ hopHeaders ∨ name ∈ ["close".toList] ↔ _
  rw [List.mem_singleton]

end

/-- The internal header is not in a capture. -/
theorem safeHeaders_unmarked (request : Request) :
    ∀ field ∈ safeHeaders request.unmarked.headers, field.1 ≠ internalReplayHeader := by
  intro shown hshown heq
  unfold safeHeaders at hshown
  obtain ⟨field, hfield, rfl⟩ := List.mem_map.mp hshown
  have hname : field.1 = internalReplayHeader := by
    have hclipped : field.1.take 128 = internalReplayHeader := heq
    have hlength := congrArg List.length hclipped
    rw [List.length_take] at hlength
    have hshort : internalReplayHeader.length = 24 := by decide
    rw [List.take_of_length_le (by omega)] at hclipped
    exact hclipped
  have hlower : Str.toAsciiLowercase internalReplayHeader = internalReplayHeader := by decide
  exact (HeaderMap.mem_remove.mp (List.mem_of_mem_take hfield)).2 (hname.trans hlower.symm)

theorem containsKey_eq_false {headers : HeaderMap} {name : Str}
    (h : HeaderMap.getAll headers name = []) : headers.containsKey name = false := by
  refine HeaderMap.containsKey_eq_false.mpr fun field hfield heq => ?_
  have hvalue : field.2 ∈ HeaderMap.getAll headers field.1 := HeaderMap.mem_iff_mem_getAll.mp hfield
  rw [heq, h] at hvalue
  cases hvalue

/-- The target of a replay is that of the request. -/
theorem forwardTarget_dispatch {d : Dispatch} {request : Request}
    (htemplate : replayTemplate request = some d.template) {target : Authority × Nat}
    (h : forwardTarget request = .ok target) : forwardTarget d.request.unmarked = .ok target := by
  have huri : d.request.unmarked.uri = request.uri :=
    congrArg ReplayTemplate.uri (replayTemplate_cases htemplate).2.2
  have hupgrade : d.request.unmarked.headers.containsKey "upgrade".toList = false := by
    have hmem : "upgrade".toList ∈ hopHeaders := by decide
    apply containsKey_eq_false
    rw [getAll_dispatch htemplate (by decide) (by decide) (by decide)]
    exact if_pos (Or.inl (Or.inl hmem))
  unfold forwardTarget at h ⊢
  rw [hupgrade, huri]
  cases hkey : request.headers.containsKey "upgrade".toList with
  | true =>
      rw [hkey] at h
      cases h
  | false =>
      rw [hkey] at h
      exact h

/-- The headers a replay makes the proxy forward, but for `close`. -/
theorem getAll_repeated {d : Dispatch} {original : Request} {authority : Authority}
    (htemplate : replayTemplate original.unmarked = some d.template) {name : Str}
    (hclose : name = "close".toList → HeaderMap.getAll (original.forwarded authority).headers name = []) :
    HeaderMap.getAll (d.request.forwarded authority).headers name =
      if name ∈ withheldHeaders then []
      else HeaderMap.getAll (original.forwarded authority).headers name := by
  have hunreplayed : ∀ name ∈ unreplayedHeaders, name = "host".toList ∨
      name = internalReplayHeader ∨ name ∈ withheldHeaders := by decide
  have hwithheld : ∀ name ∈ withheldHeaders, name ∈ unreplayedHeaders := by decide
  have hhop := hopByHop_dispatch htemplate name
  by_cases hhost : name = "host".toList
  · have hkept : name ∉ withheldHeaders := by
      rw [hhost]
      decide
    rw [getAll_forwarded, getAll_forwarded, if_pos hhost, if_neg hkept, if_pos hhost]
  by_cases hempty : HeaderMap.getAll (original.forwarded authority).headers name = []
  -- what was not forwarded is not forwarded now
  · rw [hempty, ite_self, getAll_forwarded, if_neg hhost]
    rw [getAll_forwarded, if_neg hhost] at hempty
    by_cases hstripped : HopByHop d.request.unmarked.headers name
    · exact if_pos hstripped
    · rw [if_neg hstripped]
      by_cases hinternal : name = internalReplayHeader
      · rw [hinternal]
        exact getAll_unmarked_internal _
      · have hconnection : name ≠ "connection".toList := fun heq =>
          hstripped (hhop.mpr (.inl (heq ▸ by decide)))
        rw [getAll_dispatch htemplate hhost hinternal hconnection]
        by_cases hnot : HopByHop original.unmarked.headers name ∨ name ∈ unreplayedHeaders
        · exact if_pos hnot
        · rw [if_neg hnot]
          rw [if_neg fun h => hnot (.inl h)] at hempty
          exact hempty
  -- what was forwarded is no hop-by-hop header, nor is it the internal one
  · have hclose' : name ≠ "close".toList := fun heq => hempty (hclose heq)
    rw [getAll_forwarded, if_neg hhost] at hempty
    have hkept : ¬ HopByHop original.unmarked.headers name := fun h => hempty (if_pos h)
    rw [if_neg hkept] at hempty
    have hinternal : name ≠ internalReplayHeader := by
      intro heq
      rw [heq] at hempty
      exact hempty (getAll_unmarked_internal _)
    have hstripped : ¬ HopByHop d.request.unmarked.headers name := by
      rw [hhop]
      exact not_or.mpr ⟨fun h => hkept (.inl h), hclose'⟩
    have hconnection : name ≠ "connection".toList := fun heq =>
      hkept (.inl (heq ▸ by decide))
    rw [getAll_forwarded, if_neg hhost, if_neg hstripped, getAll_forwarded, if_neg hhost,
      if_neg hkept, getAll_dispatch htemplate hhost hinternal hconnection]
    by_cases hmem : name ∈ withheldHeaders
    · rw [if_pos hmem, if_pos (Or.inr (hwithheld name hmem))]
    · have hnot : ¬ (HopByHop original.unmarked.headers name ∨ name ∈ unreplayedHeaders) := by
        refine not_or.mpr ⟨hkept, fun h => ?_⟩
        rcases hunreplayed name h with heq | heq | h
        · exact hhost heq
        · exact hinternal heq
        · exact hmem h
      rw [if_neg hmem, if_neg hnot]

/-! ## The result -/

/-- No header named `close` was forwarded: there is none, or a `Connection` value nominates it. -/
theorem close_forwarded_iff (original : Request) (authority : Authority) :
    HeaderMap.getAll (original.forwarded authority).headers "close".toList = [] ↔
      HeaderMap.getAll original.headers "close".toList = [] ∨
        HopByHop original.headers "close".toList := by
  have hnames : "close".toList ≠ "host".toList ∧ "close".toList ≠ internalReplayHeader := by decide
  have hhop : HopByHop original.unmarked.headers "close".toList ↔
      HopByHop original.headers "close".toList := by
    unfold HopByHop
    rw [nominated_unmarked]
  rw [getAll_forwarded, if_neg hnames.1, getAll_unmarked hnames.2]
  by_cases h : HopByHop original.headers "close".toList
  · rw [if_pos (hhop.mpr h)]
    exact ⟨fun _ => .inr h, fun _ => rfl⟩
  · rw [if_neg (mt hhop.mp h)]
    exact ⟨.inl, fun hor => hor.resolve_right h⟩

/-- **A replay repeats the request exactly when** this had no header named `close`, or only one
that its `Connection` nominates. It goes to the same target in any case, and what it writes does
not depend on the secrets of the request. The parser is taken to read what was written. -/
theorem replay_repeats_the_request {original : Request} {authority : Authority} {port : Nat}
    (hforward : forwardTarget original.unmarked = .ok (authority, port)) {d : Dispatch}
    (htemplate : replayTemplate original.unmarked = some d.template)
    {parse : List UInt8 → Option Request} (hparse : parse d.bytes = some d.request) :
    ∃ received, parse d.bytes = some received ∧
      forwardTarget received.unmarked = .ok (authority, port) ∧
      (original.Repeated received authority ↔
        HeaderMap.getAll original.headers "close".toList = [] ∨
          HopByHop original.headers "close".toList) ∧
      ∀ (original' : Request) (d' : Dispatch), original.Alike original' →
        replayTemplate original'.unmarked = some d'.template → d'.token = d.token →
        d'.bytes = d.bytes := by
  refine ⟨d.request, hparse, forwardTarget_dispatch htemplate hforward, ?_, ?_⟩
  · have htemplate' := (replayTemplate_cases htemplate).2.2
    have hnames : "close".toList ≠ "host".toList ∧ "close".toList ∉ withheldHeaders := by decide
    rw [← close_forwarded_iff original authority]
    constructor
    · intro hrepeated
      have hclose := hrepeated.headers "close".toList
      have hstripped : HopByHop d.request.unmarked.headers "close".toList :=
        (hopByHop_dispatch htemplate _).mpr (.inr rfl)
      rw [if_neg hnames.2, getAll_forwarded d.request, if_neg hnames.1, if_pos hstripped] at hclose
      exact hclose.symm
    · intro hclose
      refine ⟨congrArg ReplayTemplate.method htemplate', ?_, ?_, fun name => ?_, ?_, ?_⟩
      · have huri : d.request.unmarked.uri = original.unmarked.uri :=
          congrArg ReplayTemplate.uri htemplate'
        unfold Request.forwarded upstreamRequest
        rw [huri]
      · rw [getAll_forwarded, getAll_forwarded, if_pos rfl, if_pos rfl]
      · exact getAll_repeated htemplate fun heq => heq ▸ hclose
      · have hinternal : internalReplayHeader ≠ "host".toList := by decide
        rw [getAll_forwarded, if_neg hinternal, getAll_unmarked_internal, ite_self]
      · exact safeHeaders_unmarked d.request
  · intro original' d' halike htemplate' htoken
    have hsame : d'.template = d.template :=
      Option.some.inj (htemplate'.symm.trans (halike.unmarked.replayTemplate.trans htemplate))
    unfold Dispatch.bytes
    rw [hsame, htoken]

/-- A request with credentials and an ordinary header. -/
def credentialedRequest : Request :=
  { plainGet localhost with
    headers := [("host".toList, "localhost".toList), ("accept".toList, "*/*".toList),
      ("cookie".toList, "a=1".toList)] }

/-- What a call sends to replay it. -/
def credentialedDispatch : Dispatch where
  authorization := ⟨1, none⟩
  template := ⟨"GET".toList, (plainGet localhost).uri, [("accept".toList, "*/*".toList)]⟩
  token := sampleReplayToken
  encoded := sampleDispatch.encoded

theorem credentialed_request_is_repeated :
    ∃ received, credentialedRequest.Repeated received localhost ∧
      received.headers.getAll "accept".toList = ["*/*".toList] := by
  have hforward : forwardTarget credentialedRequest.unmarked = .ok (localhost, 80) := by decide +kernel
  have htemplate : replayTemplate credentialedRequest.unmarked = some credentialedDispatch.template := by
    decide +kernel
  let parse := fun bytes =>
    if bytes = credentialedDispatch.bytes then some credentialedDispatch.request else none
  have hparse : parse credentialedDispatch.bytes = some credentialedDispatch.request := if_pos rfl
  obtain ⟨received, hreceived, -, hiff, -⟩ :=
    replay_repeats_the_request hforward htemplate hparse
  cases hparse.symm.trans hreceived
  exact ⟨_, hiff.mpr (.inl (by decide +kernel)), by decide +kernel⟩

/-- A request with a header of that name. -/
def closeRequest : Request :=
  { plainGet localhost with headers := [("close".toList, "1".toList)] }

def closeDispatch : Dispatch where
  authorization := ⟨1, none⟩
  template := ⟨"GET".toList, (plainGet localhost).uri, [("close".toList, "1".toList)]⟩
  token := sampleReplayToken
  encoded := sampleDispatch.encoded

/-- The header is forwarded for the request, but not for its replay. -/
theorem close_header_is_lost :
    (HeaderMap.getAll (closeRequest.forwarded localhost).headers "close".toList = ["1".toList] ∧
      HeaderMap.getAll (closeDispatch.request.forwarded localhost).headers "close".toList = []) ∧
    ¬ ∀ (original : Request) (authority : Authority) (port : Nat) (d : Dispatch),
      forwardTarget original.unmarked = .ok (authority, port) →
      replayTemplate original.unmarked = some d.template → original.Repeated d.request authority := by
  have hlost : HeaderMap.getAll (closeRequest.forwarded localhost).headers "close".toList =
        ["1".toList] ∧
      HeaderMap.getAll (closeDispatch.request.forwarded localhost).headers "close".toList = [] := by
    decide +kernel
  refine ⟨hlost, fun hall => ?_⟩
  have hrepeated := hall closeRequest localhost 80 closeDispatch (by decide +kernel) (by decide +kernel)
  have hclose := hrepeated.headers "close".toList
  rw [hlost.1, hlost.2] at hclose
  exact absurd hclose (by decide)

end SippinSoda
