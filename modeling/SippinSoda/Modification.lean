import SippinSoda.Forward

/-!
# The response a client gets

Rules and decisions change the status and the body of a response, each in its own right; the
headers follow the body.

* **chosenStatus**, **chosenBody** — who has the last word;
* **stripped** — what `strip_hop_headers` leaves of each name;
* **shaped** — so the response, name by name.
-/

namespace SippinSoda

/-! ## Whose status and whose body -/

/-- The decision's status, else the rule's, else the upstream's. -/
def chosenStatus (upstream : Upstream) (rule : Option ResponseRule)
    (decision : Option BreakpointDecision) : Nat :=
  match decision.bind (·.status) with
  | some status => status
  | none =>
    match rule with
    | some rule => rule.status
    | none => upstream.status

/-- The decision's body with its media type, else the rule's, else none: the upstream's stays. -/
def chosenBody (rule : Option ResponseRule) (decision : Option BreakpointDecision) :
    Option (List UInt8 × Option HeaderValue) :=
  match decision with
  | some ⟨_, some body, contentType⟩ => some (body, contentType)
  | _ => rule.bind fun rule => rule.body.map fun body => (body, rule.contentType)

theorem Draft.applyRule_status (upstream : Upstream) (rule : Option ResponseRule) :
    ((Draft.ofUpstream upstream).applyRule rule).status = chosenStatus upstream rule none := by
  cases rule <;> rfl

theorem Draft.decide_status (draft : Draft) (decision : Option BreakpointDecision) :
    (draft.decide decision).status = (decision.bind (·.status)).getD draft.status := by
  cases decision <;> rfl

theorem Draft.response_status (http2 : Bool) (draft : Draft) :
    (draft.response http2).status = draft.status := by
  unfold Draft.response
  split <;> rfl

theorem shaped_status (http2 : Bool) (upstream : Upstream) (rule : Option ResponseRule)
    (decision : Option BreakpointDecision) :
    (shaped http2 upstream rule decision).status = chosenStatus upstream rule decision := by
  rw [shaped, Draft.response_status, Draft.decide_status, Draft.applyRule_status]
  unfold chosenStatus
  cases decision.bind (·.status) <;> rfl

theorem shaped_replacement (upstream : Upstream) (rule : Option ResponseRule)
    (decision : Option BreakpointDecision) :
    (((Draft.ofUpstream upstream).applyRule rule).decide decision).replacement =
      chosenBody rule decision := by
  have hrule : ((Draft.ofUpstream upstream).applyRule rule).replacement = chosenBody rule none := by
    cases rule <;> rfl
  cases decision with
  | none => exact hrule
  | some decision =>
      obtain ⟨status, body, contentType⟩ := decision
      cases body with
      | none => exact hrule
      | some body => rfl

theorem shaped_headers (upstream : Upstream) (rule : Option ResponseRule)
    (decision : Option BreakpointDecision) :
    (((Draft.ofUpstream upstream).applyRule rule).decide decision).headers = upstream.headers := by
  cases decision <;> cases rule <;> rfl

/-- A response with a replacement body. -/
theorem shaped_of_chosen (http2 : Bool) (upstream : Upstream) {rule : Option ResponseRule}
    {decision : Option BreakpointDecision} {body : List UInt8} {contentType : Option HeaderValue}
    (h : chosenBody rule decision = some (body, contentType)) :
    (shaped http2 upstream rule decision).body = .full body ∧
      (shaped http2 upstream rule decision).headers =
        replacedHeaders http2 upstream.headers body contentType := by
  unfold shaped Draft.response
  rw [shaped_replacement, h, shaped_headers]
  exact ⟨rfl, rfl⟩

/-- A response with the upstream's own body. -/
theorem shaped_of_none (http2 : Bool) (upstream : Upstream) {rule : Option ResponseRule}
    {decision : Option BreakpointDecision} (h : chosenBody rule decision = none) :
    (shaped http2 upstream rule decision).body = .upstream ∧
      (shaped http2 upstream rule decision).headers = stripHopHeaders upstream.headers := by
  unfold shaped Draft.response
  rw [shaped_replacement, h]
  dsimp only
  rw [shaped_headers]
  exact ⟨rfl, rfl⟩

/-! ## What the checks let through -/

/-- What the checks of a decision let through. -/
theorem BreakpointDecision.compile_ok {status : Option Nat} {body contentType : Option Str}
    {decision : BreakpointDecision}
    (h : BreakpointDecision.compile status body contentType = .ok decision) :
    ∃ replacement, compileReplacementBody body contentType = .ok replacement ∧
      decision.status = status.bind replacementStatus ∧
      decision.body = replacement.map Prod.fst ∧ decision.contentType = replacement.map Prod.snd := by
  unfold BreakpointDecision.compile at h
  cases status with
  | none =>
      obtain ⟨_, hnone, h⟩ := Except.bind_eq_ok.mp h
      cases hnone
      obtain ⟨replacement, hreplacement, h⟩ := Except.bind_eq_ok.mp h
      cases h
      exact ⟨replacement, hreplacement, rfl, rfl, rfl⟩
  | some value =>
      cases hvalue : replacementStatus value with
      | none =>
          simp only [hvalue] at h
          cases h
      | some value' =>
          simp only [hvalue] at h
          obtain ⟨_, hsome, h⟩ := Except.bind_eq_ok.mp h
          cases hsome
          obtain ⟨replacement, hreplacement, h⟩ := Except.bind_eq_ok.mp h
          cases h
          exact ⟨replacement, hreplacement, hvalue.symm, rfl, rfl⟩

/-! ## Headers, name by name -/

namespace HeaderMap

theorem getAll_foldl_remove (names : List Str) (headers : HeaderMap) (other : Str) :
    getAll (names.foldl remove headers) other =
      if other ∈ names.map Str.toAsciiLowercase then [] else getAll headers other := by
  induction names generalizing headers with
  | nil => rfl
  | cons name names ih =>
      rw [List.foldl_cons, ih, getAll_remove, List.map_cons]
      by_cases hmem : other ∈ names.map Str.toAsciiLowercase
      · rw [if_pos hmem, if_pos (List.mem_cons_of_mem _ hmem)]
      · rw [if_neg hmem]
        by_cases heq : other = Str.toAsciiLowercase name
        · rw [if_pos heq, if_pos (List.mem_cons.mpr (.inl heq))]
        · rw [if_neg heq, if_neg fun h => (List.mem_cons.mp h).elim heq hmem]

end HeaderMap

/-- A hop-by-hop header, or one that a `Connection` value nominates. -/
def HopByHop (headers : HeaderMap) (name : Str) : Prop :=
  name ∈ hopHeaders ∨ name ∈ (nominated headers).map Str.toAsciiLowercase

instance (headers : HeaderMap) (name : Str) : Decidable (HopByHop headers name) :=
  inferInstanceAs (Decidable (_ ∨ _))

/-- **What `strip_hop_headers` leaves**: the values of every other name, in order. -/
theorem getAll_stripHopHeaders (headers : HeaderMap) (name : Str) :
    HeaderMap.getAll (stripHopHeaders headers) name =
      if HopByHop headers name then [] else HeaderMap.getAll headers name := by
  have hlower : hopHeaders.map Str.toAsciiLowercase = hopHeaders := rfl
  unfold stripHopHeaders
  rw [HeaderMap.getAll_foldl_remove, HeaderMap.getAll_foldl_remove, hlower]
  by_cases hhop : name ∈ hopHeaders
  · rw [if_pos hhop, if_pos (.inl hhop)]
  · rw [if_neg hhop]
    by_cases hnominated : name ∈ (nominated headers).map Str.toAsciiLowercase
    · rw [if_pos hnominated, if_pos (.inr hnominated)]
    · have hnot : ¬ HopByHop headers name := not_or.mpr ⟨hhop, hnominated⟩
      rw [if_neg hnominated, if_neg hnot]

theorem getAll_insert (headers : HeaderMap) (name : Str) (value : HeaderValue) (other : Str) :
    HeaderMap.getAll (HeaderMap.insert headers name value) other =
      if other = name then [value] else HeaderMap.getAll headers other := by
  by_cases h : other = name
  · rw [if_pos h, h]
    exact HeaderMap.getAll_insert_self ..
  · rw [if_neg h]
    exact HeaderMap.getAll_insert_of_ne (Ne.symm h) ..

/-- **The headers with a replacement body**, name by name. -/
theorem getAll_replacedHeaders (http2 : Bool) (headers : HeaderMap) (body : List UInt8)
    (contentType : Option HeaderValue) (name : Str) :
    HeaderMap.getAll (replacedHeaders http2 headers body contentType) name =
      if name = "content-length".toList then [Nat.toDigits 10 body.length]
      else if name = "content-type".toList then [contentType.getD defaultContentType]
      else if name = "connection".toList then (if http2 then [] else ["close".toList])
      else if name ∈ bodyHeaders ∨ HopByHop headers name then []
      else HeaderMap.getAll headers name := by
  have hrest : HeaderMap.getAll (bodyHeaders.foldl HeaderMap.remove (stripHopHeaders headers)) name =
      if name ∈ bodyHeaders ∨ HopByHop headers name then [] else HeaderMap.getAll headers name := by
    have hlower : bodyHeaders.map Str.toAsciiLowercase = bodyHeaders := rfl
    rw [HeaderMap.getAll_foldl_remove, getAll_stripHopHeaders, hlower]
    by_cases hbody : name ∈ bodyHeaders
    · rw [if_pos hbody, if_pos (.inl hbody)]
    · rw [if_neg hbody]
      by_cases hhop : HopByHop headers name
      · rw [if_pos hhop, if_pos (.inr hhop)]
      · rw [if_neg hhop, if_neg (not_or.mpr ⟨hbody, hhop⟩)]
  have hnames : "connection".toList ≠ "content-type".toList ∧
      "connection".toList ≠ "content-length".toList ∧
      "content-length".toList ≠ "content-type".toList ∧
      "connection".toList ∈ hopHeaders := by decide
  obtain ⟨htype, hlength, hboth, hconnection⟩ := hnames
  have htyped : HeaderMap.getAll (HeaderMap.insert (HeaderMap.insert
      (bodyHeaders.foldl HeaderMap.remove (stripHopHeaders headers)) "content-length".toList
      (Nat.toDigits 10 body.length)) "content-type".toList (contentType.getD defaultContentType))
        name =
      if name = "content-length".toList then [Nat.toDigits 10 body.length]
      else if name = "content-type".toList then [contentType.getD defaultContentType]
      else if name ∈ bodyHeaders ∨ HopByHop headers name then []
      else HeaderMap.getAll headers name := by
    rw [getAll_insert, getAll_insert, hrest]
    by_cases hname : name = "content-type".toList
    · rw [if_pos hname, if_neg (hname ▸ hboth.symm), if_pos hname]
    · rw [if_neg hname, if_neg hname]
  unfold replacedHeaders
  cases http2 with
  | true =>
      rw [if_pos rfl, htyped, if_pos rfl]
      by_cases hname : name = "connection".toList
      · have hhop : name ∈ bodyHeaders ∨ HopByHop headers name :=
          .inr (.inl (hname ▸ hconnection))
        rw [if_pos hname, if_pos hhop]
      · rw [if_neg hname]
  | false =>
      rw [if_neg Bool.false_ne_true, getAll_insert, htyped, if_neg Bool.false_ne_true]
      by_cases hname : name = "connection".toList
      · rw [if_pos hname, if_neg (hname ▸ hlength), if_neg (hname ▸ htype), if_pos hname]
      · rw [if_neg hname, if_neg hname]

end SippinSoda
