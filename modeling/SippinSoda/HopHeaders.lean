import SippinSoda.Modification
import SippinSoda.HostRules

/-!
# Hop-by-hop headers

A sender nominates headers of this hop in its `Connection` fields. `strip_hop_headers` reads those
of its values that are visible ASCII and skips the others, and what only these nominate is
forwarded.

* **Nominates** — what a sender nominates, whatever the bytes of its values;
* **Stripped** — what stripping is to leave of a header map;
* **nominations_are_stripped** — exactly when it does.
-/

namespace SippinSoda

/-! ## Nominations -/

/-- A header map as the `http` crate builds it: its names are in lower case. -/
def HeaderMap.Valid (headers : HeaderMap) : Prop :=
  ∀ field ∈ headers, Str.toAsciiLowercase field.1 = field.1

instance (headers : HeaderMap) : Decidable headers.Valid :=
  inferInstanceAs (Decidable (∀ field ∈ headers, _))

/-- Optional white space (`OWS`). -/
def isOws (c : Char) : Bool := c == ' ' || c == '\t'

/-- The tokens of a `Connection` value, each without the white space around it. -/
def connectionTokens (value : HeaderValue) : List Str :=
  (value.splitOn ',').map fun token => Str.trimEndMatches isOws (Str.trimStartMatches isOws token)

/-- Does a `Connection` value nominate the header of that name? Case does not matter. -/
def NominatedBy (value : HeaderValue) (name : Str) : Prop :=
  ∃ token ∈ connectionTokens value, Str.toAsciiLowercase token = Str.toAsciiLowercase name

instance (value : HeaderValue) (name : Str) : Decidable (NominatedBy value name) :=
  inferInstanceAs (Decidable (∃ token ∈ connectionTokens value, _))

/-- Does the sender of these headers? -/
def Nominates (headers : HeaderMap) (name : Str) : Prop :=
  ∃ value ∈ headers.getAll "connection".toList, NominatedBy value name

instance (headers : HeaderMap) (name : Str) : Decidable (Nominates headers name) :=
  inferInstanceAs (Decidable (∃ value ∈ headers.getAll "connection".toList, _))

/-- Is a name, in any case, one of the nine of `strip_hop_headers`? -/
def FixedHop (name : Str) : Prop := Str.toAsciiLowercase name ∈ hopHeaders

instance (name : Str) : Decidable (FixedHop name) := inferInstanceAs (Decidable (_ ∈ _))

/-- Of visible ASCII, only spaces and tabs are white space. -/
theorem isWhitespace_of_isVisibleAscii {c : Char} (h : isVisibleAscii c = true) :
    Str.isWhitespace c = isOws c := by
  have hcode : ∀ k : Char, c = k ↔ c.toNat = k.toNat := fun k =>
    ⟨congrArg Char.toNat, fun hk => Char.ext (UInt32.toNat_inj.mp hk)⟩
  have htab : '\t'.toNat = 9 := rfl
  have hblank : ' '.toNat = 32 := rfl
  rw [Bool.eq_iff_iff]
  simp only [isVisibleAscii, Bool.or_eq_true, Bool.and_eq_true, decide_eq_true_eq, beq_iff_eq,
    hcode, htab] at h
  simp only [Str.isWhitespace, isOws, Bool.or_eq_true, Bool.and_eq_true, decide_eq_true_eq,
    beq_iff_eq, hcode, htab, hblank]
  omega

theorem dropWhile_congr {p q : Char → Bool} {s : Str} (h : ∀ c ∈ s, p c = q c) :
    s.dropWhile p = s.dropWhile q := by
  induction s with
  | nil => rfl
  | cons c s ih =>
      rw [List.dropWhile_cons, List.dropWhile_cons, h c List.mem_cons_self,
        ih fun d hd => h d (List.mem_cons_of_mem _ hd)]

theorem trim_of_isVisibleAscii {s : Str} (h : ∀ c ∈ s, isVisibleAscii c = true) :
    Str.trim s = Str.trimEndMatches isOws (Str.trimStartMatches isOws s) := by
  have hstart : Str.trimStartMatches Str.isWhitespace s = Str.trimStartMatches isOws s :=
    dropWhile_congr fun c hc => isWhitespace_of_isVisibleAscii (h c hc)
  have hend : ∀ c ∈ (Str.trimStartMatches isOws s).reverse, Str.isWhitespace c = isOws c := by
    intro c hc
    have hmem : c ∈ s := (List.dropWhile_sublist isOws).mem (List.mem_reverse.mp hc)
    exact isWhitespace_of_isVisibleAscii (h c hmem)
  unfold Str.trim
  rw [hstart]
  exact congrArg List.reverse (dropWhile_congr hend)

/-- `strip_hop_headers` reads the tokens of a value that is visible ASCII. -/
theorem map_trim_of_toStr {value : HeaderValue} {text : Str} (h : value.toStr = some text) :
    (text.splitOn ',').map Str.trim = connectionTokens value := by
  unfold HeaderValue.toStr at h
  split at h
  next hvisible =>
    cases h
    refine List.map_congr_left fun token htoken => trim_of_isVisibleAscii fun c hc => ?_
    exact List.all_eq_true.mp hvisible c (mem_of_mem_splitOn htoken hc)
  next => cases h

/-- What it removes are the nominations of these values. -/
theorem mem_nominated {headers : HeaderMap} {name : Str} :
    name ∈ (nominated headers).map Str.toAsciiLowercase ↔
      ∃ value ∈ headers.getAll "connection".toList, value.toStr.isSome = true ∧
        ∃ token ∈ connectionTokens value, Str.toAsciiLowercase token = name := by
  unfold nominated
  rw [List.mem_map]
  constructor
  · rintro ⟨token, htoken, rfl⟩
    obtain ⟨text, htext, htoken⟩ := List.mem_flatMap.mp htoken
    obtain ⟨value, hvalue, hstr⟩ := List.mem_filterMap.mp htext
    rw [map_trim_of_toStr hstr] at htoken
    exact ⟨value, hvalue, Option.isSome_iff_exists.mpr ⟨text, hstr⟩, token, htoken, rfl⟩
  · rintro ⟨value, hvalue, hsome, token, htoken, rfl⟩
    obtain ⟨text, hstr⟩ := Option.isSome_iff_exists.mp hsome
    rw [← map_trim_of_toStr hstr] at htoken
    exact ⟨token, List.mem_flatMap.mpr ⟨text, List.mem_filterMap.mpr ⟨value, hvalue, hstr⟩, htoken⟩,
      rfl⟩

/-! ## What stripping is to leave -/

/-- Nothing of this hop is left, and everything else is. -/
structure Stripped (headers stripped : HeaderMap) : Prop where
  gone : ∀ field ∈ stripped, ¬ FixedHop field.1 ∧ ¬ Nominates headers field.1
  kept : ∀ name, ¬ FixedHop name → ¬ Nominates headers name →
    HeaderMap.getAll stripped name = HeaderMap.getAll headers name

/-- The headers of a response that the proxy writes itself. -/
def ownResponseHeaders : List Str :=
  ["content-length", "content-type", "connection"].map String.toList

/-- **These headers are stripped of their hop**, when they are forwarded with a request or come
back with a response too: of what is nominated only the proxy's own values are sent. -/
structure HeaderMap.LoseHop (headers : HeaderMap) : Prop where
  stripped : Stripped headers (stripHopHeaders headers)
  twice : stripHopHeaders (stripHopHeaders headers) = stripHopHeaders headers
  request : ∀ (http2 : Bool) (authority : Authority) (request : Request), request.headers = headers →
    ∀ name, FixedHop name ∨ Nominates headers name →
      HeaderMap.getAll (upstreamRequest http2 authority request).headers name =
        if name = "host".toList then [authority.text] else []
  response : ∀ (http2 : Bool) (upstream : Upstream) (rule : Option ResponseRule)
    (decision : Option BreakpointDecision), upstream.headers = headers →
    ∀ name, FixedHop name ∨ Nominates headers name →
      HeaderMap.getAll (shaped http2 upstream rule decision).headers name = [] ∨
        (chosenBody rule decision).isSome ∧ name ∈ ownResponseHeaders

/-- What a `Connection` value nominates that is not visible ASCII is not there, or is removed for
another reason. -/
def HeaderMap.NominationsRead (headers : HeaderMap) : Prop :=
  ∀ value ∈ headers.getAll "connection".toList, value.toStr = none →
    ∀ field ∈ headers, NominatedBy value field.1 → FixedHop field.1 ∨
      ∃ value' ∈ headers.getAll "connection".toList,
        value'.toStr.isSome = true ∧ NominatedBy value' field.1

/-! ## What it leaves -/

/-- What is removed is nominated by a value that is read, or fixed. -/
theorem hopByHop_iff {headers : HeaderMap} {name : Str}
    (hlower : Str.toAsciiLowercase name = name) :
    HopByHop headers name ↔ FixedHop name ∨
      ∃ value ∈ headers.getAll "connection".toList,
        value.toStr.isSome = true ∧ NominatedBy value name := by
  unfold HopByHop FixedHop NominatedBy
  rw [mem_nominated, hlower]

theorem lower_of_hopByHop {headers : HeaderMap} {name : Str} (h : HopByHop headers name) :
    Str.toAsciiLowercase name = name := by
  rcases h with h | h
  · have hfixed : ∀ name ∈ hopHeaders, Str.toAsciiLowercase name = name := by decide
    exact hfixed name h
  · obtain ⟨token, -, rfl⟩ := List.mem_map.mp h
    exact toAsciiLowercase_idem token

/-- **Nothing is removed without a reason.** -/
theorem getAll_strip_of_not {headers : HeaderMap} {name : Str} (hfixed : ¬ FixedHop name)
    (hnominated : ¬ Nominates headers name) :
    HeaderMap.getAll (stripHopHeaders headers) name = HeaderMap.getAll headers name := by
  rw [getAll_stripHopHeaders, if_neg]
  intro hhop
  rcases (hopByHop_iff (lower_of_hopByHop hhop)).mp hhop with h | ⟨value, hvalue, -, h⟩
  · exact hfixed h
  · exact hnominated ⟨value, hvalue, h⟩

/-- A field is left exactly if its name is not removed. -/
theorem mem_stripHopHeaders {headers : HeaderMap} {field : Str × HeaderValue} :
    field ∈ stripHopHeaders headers ↔ field ∈ headers ∧ ¬ HopByHop headers field.1 := by
  have hfields : field ∈ headers ↔ field.2 ∈ headers.getAll field.1 :=
    HeaderMap.mem_iff_mem_getAll
  rw [HeaderMap.mem_iff_mem_getAll, getAll_stripHopHeaders, hfields]
  by_cases hhop : HopByHop headers field.1
  · rw [if_pos hhop]
    exact iff_of_false List.not_mem_nil fun h => h.2 hhop
  · rw [if_neg hhop]
    exact (and_iff_left hhop).symm

theorem foldl_remove_eq_self {names : List Str} {headers : HeaderMap}
    (h : ∀ field ∈ headers, field.1 ∉ names.map Str.toAsciiLowercase) :
    names.foldl HeaderMap.remove headers = headers := by
  induction names with
  | nil => rfl
  | cons name names ih =>
      have hremove : HeaderMap.remove headers name = headers :=
        HeaderMap.remove_of_not_contains fun field hfield heq =>
          h field hfield (List.mem_cons.mpr (.inl heq))
      rw [List.foldl_cons, hremove]
      exact ih fun field hfield hmem => h field hfield (List.mem_cons_of_mem _ hmem)

theorem stripHopHeaders_eq_self {headers : HeaderMap} (hnominated : nominated headers = [])
    (h : ∀ field ∈ headers, field.1 ∉ hopHeaders) : stripHopHeaders headers = headers := by
  have hlower : hopHeaders.map Str.toAsciiLowercase = hopHeaders := rfl
  unfold stripHopHeaders
  rw [hnominated]
  refine foldl_remove_eq_self fun field hfield => ?_
  rw [hlower]
  exact h field hfield

/-- No `Connection` field survives, so there is nothing to strip a second time. -/
theorem stripHopHeaders_idem (headers : HeaderMap) :
    stripHopHeaders (stripHopHeaders headers) = stripHopHeaders headers := by
  have hfixed : "connection".toList ∈ hopHeaders := by decide
  have hconnection : HeaderMap.getAll (stripHopHeaders headers) "connection".toList = [] := by
    rw [getAll_stripHopHeaders]
    exact if_pos (.inl hfixed)
  apply stripHopHeaders_eq_self
  · unfold nominated
    rw [hconnection]
    exact List.flatMap_nil
  · intro field hfield hmem
    exact (mem_stripHopHeaders.mp hfield).2 (.inl hmem)

/-- A name that stripping leaves no value of has none in a request but the proxy's own. -/
theorem getAll_upstreamRequest_of_strip (http2 : Bool) (authority : Authority) (request : Request)
    {name : Str} (h : HeaderMap.getAll (stripHopHeaders request.headers) name = []) :
    HeaderMap.getAll (upstreamRequest http2 authority request).headers name =
      if name = "host".toList then [authority.text] else [] := by
  unfold upstreamRequest
  dsimp only
  rw [getAll_insert, h]

/-- A name that stripping leaves no value of has none in a response but the proxy's own. -/
theorem getAll_shaped_of_strip (http2 : Bool) (upstream : Upstream) (rule : Option ResponseRule)
    (decision : Option BreakpointDecision) {name : Str}
    (h : HeaderMap.getAll (stripHopHeaders upstream.headers) name = []) :
    HeaderMap.getAll (shaped http2 upstream rule decision).headers name = [] ∨
      (chosenBody rule decision).isSome ∧ name ∈ ownResponseHeaders := by
  cases hchosen : chosenBody rule decision with
  | none =>
      rw [(shaped_of_none http2 upstream hchosen).2]
      exact .inl h
  | some chosen =>
      obtain ⟨body, contentType⟩ := chosen
      by_cases hown : name ∈ ownResponseHeaders
      · exact .inr ⟨rfl, hown⟩
      · have hnot : name ≠ "content-length".toList ∧ name ≠ "content-type".toList ∧
            name ≠ "connection".toList := by
          have hnames : "content-length".toList ∈ ownResponseHeaders ∧
              "content-type".toList ∈ ownResponseHeaders ∧
              "connection".toList ∈ ownResponseHeaders := by decide
          exact ⟨fun heq => hown (heq ▸ hnames.1), fun heq => hown (heq ▸ hnames.2.1),
            fun heq => hown (heq ▸ hnames.2.2)⟩
        obtain ⟨hlength, htype, hconnection⟩ := hnot
        rw [(shaped_of_chosen http2 upstream hchosen).2, getAll_replacedHeaders, if_neg hlength,
          if_neg htype, if_neg hconnection]
        by_cases hremoved : name ∈ bodyHeaders ∨ HopByHop upstream.headers name
        · rw [if_pos hremoved]
          exact .inl rfl
        · rw [getAll_stripHopHeaders, if_neg fun hhop => hremoved (.inr hhop)] at h
          rw [if_neg hremoved, h]
          exact .inl rfl

/-- **Hop-by-hop headers are stripped exactly where the nominations can be read.** -/
theorem nominations_are_stripped (headers : HeaderMap) (hvalid : headers.Valid) :
    headers.LoseHop ↔ headers.NominationsRead := by
  constructor
  · intro h value hvalue _ field hfield hnominated
    have hnot : field ∉ stripHopHeaders headers := fun hmem =>
      (h.stripped.gone field hmem).2 ⟨value, hvalue, hnominated⟩
    rw [mem_stripHopHeaders, not_and, not_not] at hnot
    exact (hopByHop_iff (hvalid field hfield)).mp (hnot hfield)
  · intro h
    have hgone : ∀ field ∈ stripHopHeaders headers,
        ¬ FixedHop field.1 ∧ ¬ Nominates headers field.1 := by
      intro field hmem
      obtain ⟨hfield, hhop⟩ := mem_stripHopHeaders.mp hmem
      rw [hopByHop_iff (hvalid field hfield), not_or] at hhop
      refine ⟨hhop.1, ?_⟩
      rintro ⟨value, hvalue, hnominated⟩
      cases hstr : value.toStr with
      | none => exact (h value hvalue hstr field hfield hnominated).elim hhop.1 hhop.2
      | some text =>
          exact hhop.2 ⟨value, hvalue, by rw [hstr]; rfl, hnominated⟩
    have hnone : ∀ name, FixedHop name ∨ Nominates headers name →
        HeaderMap.getAll (stripHopHeaders headers) name = [] := by
      intro name hname
      refine HeaderMap.getAll_eq_nil fun field hmem heq => ?_
      rw [← heq] at hname
      exact hname.elim (hgone field hmem).1 (hgone field hmem).2
    refine ⟨⟨hgone, fun name => getAll_strip_of_not⟩, stripHopHeaders_idem headers, ?_, ?_⟩
    · intro http2 authority request hheaders name hname
      rw [← hheaders] at hnone hname
      exact getAll_upstreamRequest_of_strip http2 authority request (hnone name hname)
    · intro http2 upstream rule decision hheaders name hname
      rw [← hheaders] at hnone hname
      exact getAll_shaped_of_strip http2 upstream rule decision (hnone name hname)

/-- Two `Connection` fields, one of them read: it nominates `x-remove` and the other field. -/
def nominatingHeaders : HeaderMap :=
  [("connection".toList, "X-Remove ,, connection".toList), ("connection".toList, "close, é".toList),
    ("x-remove".toList, "hop".toList), ("accept".toList, "a".toList), ("accept".toList, "b".toList)]

theorem nominating_headers_are_stripped : nominatingHeaders.LoseHop :=
  (nominations_are_stripped nominatingHeaders (by decide)).mpr (by
    unfold HeaderMap.NominationsRead
    decide)

/-- A `Connection` value that is not ASCII nominates a header. -/
def unreadHeaders : HeaderMap :=
  [("connection".toList, "x-secret, é".toList), ("x-secret".toList, "hop".toList)]

/-- The header is forwarded upstream. -/
theorem unread_nomination_is_forwarded :
    unreadHeaders.Valid ∧ Nominates unreadHeaders "x-secret".toList ∧
      HeaderMap.getAll (stripHopHeaders unreadHeaders) "x-secret".toList = ["hop".toList] ∧
      ¬ unreadHeaders.LoseHop := by
  have hnominated : Nominates unreadHeaders "x-secret".toList := by decide
  have hleft : HeaderMap.getAll (stripHopHeaders unreadHeaders) "x-secret".toList =
      ["hop".toList] := by decide
  refine ⟨by decide, hnominated, hleft, fun h => ?_⟩
  have hmem : ("x-secret".toList, "hop".toList) ∈ stripHopHeaders unreadHeaders := by decide
  exact (h.stripped.gone _ hmem).2 hnominated

end SippinSoda
