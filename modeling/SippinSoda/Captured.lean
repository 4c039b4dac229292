import SippinSoda.HopHeaders

/-!
# What a capture shows of a message

A capture shows a target without its query and user information, and the values of eight headers.
What it shows of two messages that agree on the rest is the same.

* **ShowsSame** — messages that differ in hidden data alone;
* **safeTarget**, **safeHeaders** — shown alike, and within bounds;
* **told** — so are responses, after every modification.
-/

namespace SippinSoda

/-! ## Messages that differ in hidden data -/

/-- The same names in the same order, with the same values where a capture shows them. -/
def HeaderMap.ShowsSame (headers headers' : HeaderMap) : Prop :=
  List.Forall₂ (fun f g => f.1 = g.1 ∧ (f.1 ∈ shownHeaders → f.2 = g.2)) headers headers'

/-- Requests that agree on their method, the path, whether there is a query, what follows the last
`@` of the authority, the names of their headers, and the values a capture shows. -/
structure Request.ShowsSame (r r' : Request) : Prop where
  method : r.method = r'.method
  path : r.uri.path = r'.uri.path
  query : r.uri.query.isSome = r'.uri.query.isSome
  authority : r.uri.authority.map Authority.hostPort = r'.uri.authority.map Authority.hostPort
  headers : HeaderMap.ShowsSame r.headers r'.headers

structure Upstream.ShowsSame (upstream upstream' : Upstream) : Prop where
  status : upstream.status = upstream'.status
  headers : HeaderMap.ShowsSame upstream.headers upstream'.headers

section Headers

variable {headers headers' : HeaderMap}

/-- The values of a shown header are the same. -/
theorem HeaderMap.ShowsSame.getAll (h : HeaderMap.ShowsSame headers headers') {name : Str}
    (hname : name ∈ shownHeaders) :
    HeaderMap.getAll headers name = HeaderMap.getAll headers' name :=
  HeaderMap.getAll_of_forall₂ (fun _ _ hfg => ⟨hfg.1, fun heq => hfg.2 (heq ▸ hname)⟩) h

theorem HeaderMap.ShowsSame.foldl_remove (h : HeaderMap.ShowsSame headers headers') (names : List Str) :
    HeaderMap.ShowsSame (names.foldl HeaderMap.remove headers)
      (names.foldl HeaderMap.remove headers') :=
  HeaderMap.forall₂_foldl_remove (fun _ _ hfg => hfg.1) names h

theorem HeaderMap.ShowsSame.remove (h : HeaderMap.ShowsSame headers headers') (name : Str) :
    HeaderMap.ShowsSame (headers.remove name) (headers'.remove name) :=
  HeaderMap.forall₂_remove (fun _ _ hfg => hfg.1) name h

theorem HeaderMap.ShowsSame.insert (h : HeaderMap.ShowsSame headers headers') (name : Str)
    (value : HeaderValue) :
    HeaderMap.ShowsSame (headers.insert name value) (headers'.insert name value) :=
  HeaderMap.forall₂_insert (fun _ _ hfg => hfg.1) ⟨rfl, fun _ => rfl⟩ h

/-- What is nominated is shown. -/
theorem HeaderMap.ShowsSame.stripHopHeaders (h : HeaderMap.ShowsSame headers headers') :
    HeaderMap.ShowsSame (stripHopHeaders headers) (stripHopHeaders headers') := by
  have hshown : "connection".toList ∈ shownHeaders := by decide
  have hnominated : nominated headers = nominated headers' := by
    unfold nominated
    rw [h.getAll hshown]
  unfold SippinSoda.stripHopHeaders
  rw [hnominated]
  exact (h.foldl_remove _).foldl_remove _

theorem HeaderMap.ShowsSame.replacedHeaders (h : HeaderMap.ShowsSame headers headers') (http2 : Bool)
    (body : List UInt8) (contentType : Option HeaderValue) :
    HeaderMap.ShowsSame (replacedHeaders http2 headers body contentType)
      (replacedHeaders http2 headers' body contentType) := by
  have hinserted := ((h.stripHopHeaders.foldl_remove bodyHeaders).insert "content-length".toList
    (Nat.toDigits 10 body.length)).insert "content-type".toList (contentType.getD defaultContentType)
  unfold SippinSoda.replacedHeaders
  cases http2 with
  | true =>
      rw [if_pos rfl, if_pos rfl]
      exact hinserted
  | false =>
      rw [if_neg Bool.false_ne_true, if_neg Bool.false_ne_true]
      exact hinserted.insert _ _

/-- **A capture shows the same headers of them.** -/
theorem HeaderMap.ShowsSame.safeHeaders (h : HeaderMap.ShowsSame headers headers') :
    safeHeaders headers = safeHeaders headers' := by
  have htake : HeaderMap.ShowsSame (headers.take 48) (headers'.take 48) := List.forall₂_take 48 h
  show (headers.take 48).map _ = (headers'.take 48).map _
  generalize headers.take 48 = l at htake ⊢
  generalize headers'.take 48 = l' at htake ⊢
  induction htake with
  | nil => rfl
  | @cons f g l l' hfg _ ih =>
      obtain ⟨name, value⟩ := f
      obtain ⟨name', value'⟩ := g
      obtain ⟨rfl, hvalue⟩ : name = name' ∧ (name ∈ shownHeaders → value = value') := hfg
      rw [List.map_cons, List.map_cons, ih]
      by_cases hname : name ∈ shownHeaders
      · rw [hvalue hname]
      · have hno : ¬ shownHeaders.contains name = true := fun hc =>
          hname (List.contains_iff_mem.mp hc)
        dsimp only
        rw [if_neg hno, if_neg hno]

end Headers

/-! ## Requests -/

theorem Request.ShowsSame.safeTarget {r r' : Request} (h : r.ShowsSame r') :
    safeTarget r = safeTarget r' := by
  have hauthority := h.authority
  unfold SippinSoda.safeTarget hiddenQuery Request.isConnect
  cases ha : r.uri.authority with
  | none =>
      rw [ha] at hauthority
      have ha' : r'.uri.authority = none := Option.map_eq_none_iff.mp hauthority.symm
      rw [ha', h.method, h.path, h.query]
  | some authority =>
      rw [ha] at hauthority
      obtain ⟨authority', ha', heq⟩ := Option.map_eq_some_iff.mp hauthority.symm
      rw [ha', h.method, h.path, h.query]
      dsimp only
      rw [heq]

/-- The target of an intercepted request depends on the tunnel's authority besides. -/
theorem Request.ShowsSame.interceptedTargetText {r r' : Request} (h : r.ShowsSame r')
    (authority : Authority) :
    interceptedTargetText authority r = interceptedTargetText authority r' := by
  unfold SippinSoda.interceptedTargetText hiddenQuery
  rw [h.path, h.query]

/-- An authority without user information is what follows its last `@`. -/
theorem Authority.hostPort_of_not_contains {authority : Authority}
    (h : authority.text.contains '@' = false) : authority.hostPort = authority.text := by
  have hmem : '@' ∉ authority.text := fun hmem => by
    rw [List.contains_iff_mem.mpr hmem] at h
    cases h
  unfold Authority.hostPort
  rw [List.splitOn_eq_singleton hmem]
  rfl

end SippinSoda
