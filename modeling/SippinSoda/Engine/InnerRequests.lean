import SippinSoda.Engine.Consistent
import SippinSoda.HopHeaders

/-!
# Requests inside a tunnel

An inspected tunnel serves the requests its client makes over its one upstream connection. What a
request says of its destination is checked against the authority of the CONNECT, or replaced by it.

* **PinnedTo** — a request that can go nowhere else;
* **Confined** — what becomes of an inner request: nothing is sent and it is refused, or one
  request is sent, pinned to the authority;
* **Inside** — where the task of one stands, and what it has met;
* **inner_requests_are_confined** — every inner request is confined, but for what an unread
  `Connection` value nominates.
-/

namespace SippinSoda

/-! ## Confinement -/

/-- `sent` is made of an inner request `request` and leads to `authority`. -/
structure Request.PinnedTo (http2 : Bool) (authority : Authority) (request sent : Request) :
    Prop where
  method : sent.method = request.method
  destination : if http2 then
      sent.uri.scheme = some "https".toList ∧ sent.uri.authority = some authority
    else sent.uri.scheme = none ∧ sent.uri.authority = none
  path : sent.uri.path = request.uri.path ∧ sent.uri.query = request.uri.query
  pathAndQuery : sent.uri.pathAndQuery = some (request.uri.pathAndQuery.getD ['/'])
  host : HeaderMap.getAll sent.headers "host".toList = [authority.text]
  fixed : ∀ name, FixedHop name → HeaderMap.getAll sent.headers name = []
  /-- A target that names a scheme or an authority names this one. -/
  absolute : request.uri.scheme.isSome = true ∨ request.uri.authority.isSome = true →
    http2 = true ∧ request.uri.scheme = some "https".toList ∧
      ∃ other, request.uri.authority = some other ∧
        Str.toAsciiLowercase other.text = Str.toAsciiLowercase authority.text

/-- No header that the sender of `request` nominates is left, but the `Host` the proxy sets. -/
def Request.LosesNominated (request sent : Request) : Prop :=
  ∀ name, name ≠ "host".toList → Nominates request.headers name →
    HeaderMap.getAll sent.headers name = []

/-- The client has got an answer of that status. -/
def Task.Answers (t : Task) (status : Nat) : Prop :=
  ∃ x response todo, response.status = status ∧
    (t.pc = .serving x (.refused response) todo ∨ t.pc = .serving x (.returned response) todo)

/-- **An inner request stays in its tunnel**, the one of task `k` to `authority`; `sends` of the
steps of its task `t` were the hand-over of a request to the tunnel's upstream connection. -/
structure Task.Confined (k : Nat) (http2 : Bool) (authority : Authority) (request : Request)
    (sends : Nat) (t : Task) : Prop where
  tunnel : t.origin = .tunnel k http2
  sent : (t.seen.sent = none ∧ sends = 0 ∧ ∀ status, t.Answers status → 400 ≤ status) ∨
    ∃ sent, t.seen.sent = some sent ∧ sends = 1 ∧ request.PinnedTo http2 authority sent ∧
      request.LosesNominated sent
  host : ∀ lookup, t.seen.lookup = some lookup → lookup.host = ruleHost authority
  rule : ∀ rule, t.seen.rule = some rule →
    rule.matches (ruleHost authority) request.uri.path request.method = true

/-- Does the next step hand the request to the upstream connection? -/
def Op.rewrites : Op → Bool
  | .rewriting _ => true
  | _ => false

def Task.rewrites (t : Task) : Bool :=
  match t.pc with
  | .serving _ op [] => op.rewrites
  | _ => false

/-- Is an event the step in which task `i` hands a request to its upstream connection? -/
def Engine.sends (i : Nat) (s : Engine) (e : Event) : Bool :=
  e = .task i .go && (s.tasks[i]?).any Task.rewrites

/-! ## What is sent -/

/-- What the checks of `forward_intercepted_https` let through. -/
theorem interceptedTarget_ok {http2 : Bool} {authority : Authority} {request : Request}
    (h : interceptedTarget http2 authority request = .ok ())
    (habsolute : request.uri.scheme.isSome = true ∨ request.uri.authority.isSome = true) :
    http2 = true ∧ request.uri.scheme = some "https".toList ∧
      ∃ other, request.uri.authority = some other ∧
        Str.toAsciiLowercase other.text = Str.toAsciiLowercase authority.text := by
  simp only [interceptedTarget, bind, Except.bind] at h
  split at h
  · cases h
  · split at h
    · cases h
    next hvalid =>
      rw [Bool.and_eq_true, Bool.or_eq_true, not_and, Bool.not_eq_true', Bool.not_eq_false] at hvalid
      have hall := hvalid habsolute
      rw [Bool.and_eq_true, Bool.and_eq_true, beq_iff_eq, Option.any_eq_true] at hall
      obtain ⟨⟨hhttp2, hscheme⟩, other, hother, heq⟩ := hall
      exact ⟨hhttp2, hscheme, other, hother, beq_iff_eq.mp heq⟩

/-- A target that is let through has a path. -/
theorem pathAndQuery_of_ok {http2 : Bool} {authority : Authority} {request : Request}
    (h : interceptedTarget http2 authority request = .ok ()) :
    request.uri.pathAndQuery.isSome = true := by
  unfold Uri.pathAndQuery
  by_cases hauthority : request.uri.authority.isSome = true
  · obtain ⟨-, hscheme, -⟩ := interceptedTarget_ok h (.inr hauthority)
    rw [hscheme]
    rfl
  · have hnone : request.uri.authority.isNone = true := Option.not_isSome_iff_eq_none.mp hauthority ▸ rfl
    rw [hnone, Bool.or_true]
    rfl

theorem getAll_upstreamRequest (http2 : Bool) (authority : Authority) (request : Request)
    (name : Str) :
    HeaderMap.getAll (upstreamRequest http2 authority request).headers name =
      if name = "host".toList then [authority.text]
      else HeaderMap.getAll (stripHopHeaders request.headers) name := by
  unfold upstreamRequest
  dsimp only
  rw [getAll_insert]

/-- **The request made of one that is let through is pinned.** -/
theorem upstreamRequest_pinnedTo {http2 : Bool} {authority : Authority} {request : Request}
    (hvalid : request.headers.Valid) (h : interceptedTarget http2 authority request = .ok ()) :
    request.PinnedTo http2 authority (upstreamRequest http2 authority request) := by
  have hpath := pathAndQuery_of_ok h
  have huri : (upstreamRequest http2 authority request).uri = {
      scheme := if http2 then some "https".toList else none
      authority := if http2 then some authority else none
      path := request.uri.path
      query := request.uri.query } := by
    unfold upstreamRequest
    dsimp only
    rw [if_pos hpath, if_pos hpath]
  exact {
    method := rfl
    destination := by
      rw [huri]
      cases http2 with
      | true => exact ⟨rfl, rfl⟩
      | false => exact ⟨rfl, rfl⟩
    path := by
      rw [huri]
      exact ⟨rfl, rfl⟩
    pathAndQuery := by
      have hsame : request.uri.pathAndQuery =
          some (request.uri.path ++ (request.uri.query.map ('?' :: ·)).getD []) := by
        unfold Uri.pathAndQuery at hpath ⊢
        split at hpath
        next hcond => exact if_pos hcond
        next => cases hpath
      rw [hsame, huri]
      cases http2 <;> rfl
    host := by
      rw [getAll_upstreamRequest]
      exact if_pos rfl
    fixed := by
      intro name hfixed
      have hhost : ¬ FixedHop "host".toList := by decide
      have hname : name ≠ "host".toList := by
        rintro rfl
        exact hhost hfixed
      rw [getAll_upstreamRequest, if_neg hname]
      refine HeaderMap.getAll_eq_nil fun field hfield heq => ?_
      obtain ⟨hmem, hhop⟩ := mem_stripHopHeaders.mp hfield
      refine hhop (.inl ?_)
      rw [← hvalid field hmem, heq]
      exact hfixed
    absolute := interceptedTarget_ok h }

/-- **Nothing nominated is left of it exactly if the nominations can be read.** `Host` need not be
among them. -/
theorem losesNominated_iff {http2 : Bool} {authority : Authority} {request : Request}
    (hvalid : request.headers.Valid) :
    request.LosesNominated (upstreamRequest http2 authority request) ↔
      (request.headers.remove "host".toList).NominationsRead := by
  have hhost : Str.toAsciiLowercase "host".toList = "host".toList := by decide
  have hconnection : HeaderMap.getAll (request.headers.remove "host".toList) "connection".toList =
      HeaderMap.getAll request.headers "connection".toList := by
    rw [HeaderMap.getAll_remove, hhost, if_neg (by decide)]
  have hmem {field : Str × HeaderValue} : field ∈ request.headers.remove "host".toList ↔
      field ∈ request.headers ∧ field.1 ≠ "host".toList := by
    rw [HeaderMap.mem_remove, hhost]
  unfold HeaderMap.NominationsRead
  rw [hconnection]
  constructor
  · intro h value hvalue _ field hfield hnominated
    obtain ⟨hfield, hname⟩ := hmem.mp hfield
    have hnone := h field.1 hname ⟨value, hvalue, hnominated⟩
    rw [getAll_upstreamRequest, if_neg hname, getAll_stripHopHeaders] at hnone
    by_cases hhop : HopByHop request.headers field.1
    · exact (hopByHop_iff (hvalid field hfield)).mp hhop
    · rw [if_neg hhop] at hnone
      have hvalues := HeaderMap.mem_iff_mem_getAll.mp hfield
      rw [hnone] at hvalues
      cases hvalues
  · rintro h name hname ⟨value, hvalue, hnominated⟩
    rw [getAll_upstreamRequest, if_neg hname]
    refine HeaderMap.getAll_eq_nil fun field hleft heq => ?_
    obtain ⟨hfield, hhop⟩ := mem_stripHopHeaders.mp hleft
    rw [hopByHop_iff (hvalid field hfield), not_or] at hhop
    rw [← heq] at hnominated hname
    cases hstr : value.toStr with
    | none =>
        exact (h value hvalue hstr field (hmem.mpr ⟨hfield, hname⟩) hnominated).elim hhop.1 hhop.2
    | some text => exact hhop.2 ⟨value, hvalue, by rw [hstr]; rfl, hnominated⟩

/-! ## Where an inner request stands -/

/-- A point from the hand-over of the request on. -/
def Op.handedTo (authority : Authority) : Op → Prop
  | .sending a | .answered a _ => a = authority
  | .breaking _ _ | .paused _ _ _ | .shaping _ _ | .keeping _ | .storing _ | .taping _ _
  | .recording _ _ | .checking _ _ | .closing _ _ _ | .emptying _ | .returned _ => True
  | _ => False

/-- The points of an inner request, with what has been sent at them. -/
inductive Inside (http2 : Bool) (authority : Authority) (request : Request) (seen : Seen) :
    Op → Prop
  | asked : seen.sent = none → Inside http2 authority request seen (.intercepting authority)
  | allowed {op : Op} : op = .acquiring authority ∨ op = .rewriting authority → seen.sent = none →
      interceptedTarget http2 authority request = .ok () → Inside http2 authority request seen op
  | handed {op : Op} : op.handedTo authority → seen.sent.isSome = true →
      Inside http2 authority request seen op
  | refused {response : Response} : 400 ≤ response.status →
      Inside http2 authority request seen (.refused response)

/-- What the task of an inner request has met. -/
structure Met (http2 : Bool) (authority : Authority) (request : Request) (seen : Seen) : Prop where
  sent : ∀ sent, seen.sent = some sent → sent = upstreamRequest http2 authority request ∧
    interceptedTarget http2 authority request = .ok ()
  host : ∀ lookup, seen.lookup = some lookup → lookup.host = ruleHost authority
  rule : ∀ rule, seen.rule = some rule →
    rule.matches (ruleHost authority) request.uri.path request.method = true

section Points

variable {http2 : Bool} {authority : Authority} {request : Request} {seen seen' : Seen} {op : Op}

theorem Met.congr (h : Met http2 authority request seen) (hsent : seen'.sent = seen.sent)
    (hlookup : seen'.lookup = seen.lookup) (hrule : seen'.rule = seen.rule) :
    Met http2 authority request seen' where
  sent := hsent ▸ h.sent
  host := hlookup ▸ h.host
  rule := hrule ▸ h.rule

theorem Op.handedTo_of_response {response : Response} (h : op.response? = some response) :
    op.handedTo authority := by
  cases op <;> trivial

/-- A point of the transfer is no earlier one. -/
theorem Inside.handed_of_response {response : Response} (h : Inside http2 authority request seen op)
    (hop : op.response? = some response) : seen.sent.isSome = true := by
  cases h with
  | asked hsent => cases hop
  | allowed hor =>
      rcases hor with rfl | rfl
      · cases hop
      · cases hop
  | handed _ hsent => exact hsent
  | refused => cases hop

theorem Inside.rewrites (h : Inside http2 authority request seen op) (hop : op.rewrites = true) :
    seen.sent = none ∧ op = .rewriting authority ∧
      interceptedTarget http2 authority request = .ok () := by
  cases h with
  | asked hsent => cases hop
  | allowed hor hsent htarget =>
      rcases hor with rfl | rfl
      · cases hop
      · exact ⟨hsent, rfl, htarget⟩
  | handed hhanded =>
      cases op <;> first | exact hhanded.elim | exact absurd hop Bool.false_ne_true
  | refused => cases hop

/-- An inner request is on no tunnel of its own. -/
theorem Inside.tunnelStep {proxy : SocketAddr} {tls : Option ProxyTlsInterception} {x : Handling}
    {a : Answer} (h : Inside http2 authority request seen op) :
    tunnelStep proxy tls x seen' op a = none := by
  cases h with
  | asked => rfl
  | allowed hor => rcases hor with rfl | rfl <;> rfl
  | handed hop => cases op <;> first | rfl | cases hop
  | refused => rfl

theorem interceptedTarget_error {error : ForwardError}
    (h : interceptedTarget http2 authority request = .error error) : 400 ≤ error.1 := by
  simp only [interceptedTarget, bind, Except.bind] at h
  split at h
  · cases h
    show 400 ≤ 501
    omega
  · split at h
    · cases h
      exact le_refl 400
    · cases h

/-- What a step of an inner request leaves: a point of it, what it has met, and one more request
sent if that was the step. -/
structure Inside.Stepped (http2 : Bool) (authority : Authority) (request : Request) (seen : Seen)
    (op : Op) (m : Move) : Prop where
  inside : Inside http2 authority request m.seen m.op
  met : Met http2 authority request m.seen
  sent : op.rewrites.toNat + seen.sent.isSome.toNat = m.seen.sent.isSome.toNat

/-- A step that sends nothing and looks no rule up. -/
theorem Met.stepped {m : Move} (h : Met http2 authority request seen)
    (hinside : Inside http2 authority request m.seen m.op) (hop : op.rewrites = false)
    (hsent : m.seen.sent = seen.sent) (hlookup : m.seen.lookup = seen.lookup)
    (hrule : m.seen.rule = seen.rule) : Inside.Stepped http2 authority request seen op m where
  inside := hinside
  met := h.congr hsent hlookup hrule
  sent := by
    rw [hop, hsent]
    exact Nat.zero_add _

theorem stepped_send {proxy : SocketAddr} {s : State} {x : Handling} {a : Answer} {m : Move}
    (hinside : Inside http2 authority x.request seen op) (hmet : Met http2 authority x.request seen)
    (h : sendStep proxy http2 s x seen op a = some m) :
    Inside.Stepped http2 authority x.request seen op m := by
  unfold sendStep at h
  split at h
  -- forwarding
  · cases hinside with
    | allowed hor => rcases hor with hor | hor <;> cases hor
    | handed hhanded => cases hhanded
  -- connecting
  · cases hinside with
    | allowed hor => rcases hor with hor | hor <;> cases hor
    | handed hhanded => cases hhanded
  -- intercepting
  · rename_i a
    have hopened : seen.sent = none ∧ a = authority := by
      cases hinside with
      | asked hsent => exact ⟨hsent, rfl⟩
      | allowed hor => rcases hor with hor | hor <;> cases hor
      | handed hhanded => cases hhanded
    obtain ⟨hsent, rfl⟩ := hopened
    split at h
    next htarget =>
      cases h
      exact hmet.stepped (.refused (interceptedTarget_error htarget)) rfl rfl rfl rfl
    next htarget =>
      cases h
      exact hmet.stepped (.allowed (.inl rfl) hsent htarget) rfl rfl rfl rfl
  -- acquiring
  · cases h
    cases hinside with
    | allowed hor hsent htarget =>
        rcases hor with hor | hor
        · cases hor
          exact hmet.stepped (.allowed (.inr rfl) hsent htarget) rfl rfl rfl rfl
        · cases hor
    | handed hhanded => cases hhanded
  -- rewriting
  · obtain ⟨hsent, hop, htarget⟩ := hinside.rewrites rfl
    cases hop
    cases h
    exact {
      inside := .handed rfl rfl
      met := {
        sent := fun sent heq => ⟨(Option.some.inj heq).symm, htarget⟩
        host := hmet.host
        rule := hmet.rule }
      sent := by
        rw [hsent]
        rfl }
  -- sending
  · rename_i a response
    have hhanded : a = authority ∧ seen.sent.isSome = true := by
      cases hinside with
      | allowed hor => rcases hor with hor | hor <;> cases hor
      | handed hhanded hsent => exact ⟨hhanded, hsent⟩
    obtain ⟨rfl, hsent⟩ := hhanded
    split at h
    · cases h
      have hstatus : 400 ≤ 502 := by omega
      exact hmet.stepped (.refused hstatus) rfl rfl rfl rfl
    · cases h
      exact hmet.stepped (.handed rfl hsent) rfl rfl rfl rfl
  · cases h

theorem findRule_matches {s : State} {x : Handling} {authority : Authority} {rule : ResponseRule}
    (h : s.findRule x authority = some rule) :
    rule.matches (ruleHost authority) x.request.uri.path x.request.method = true := by
  unfold State.findRule at h
  split at h
  · have hfound := List.find?_some h
    exact hfound
  · cases h

theorem Answered.stepped {s : State} {x : Handling} {a : Answer} {m : Move}
    (h : Answered http2 s x seen op a m) (hinside : Inside http2 authority x.request seen op)
    (hmet : Met http2 authority x.request seen) :
    Inside.Stepped http2 authority x.request seen op m := by
  have hpoint (hno : op.rewrites = false) (hasked : ∀ a, op ≠ .intercepting a)
      (hwaits : ∀ a, op ≠ .acquiring a) (hends : ∀ response, op ≠ .refused response) :
      op.handedTo authority ∧ seen.sent.isSome = true := by
    cases hinside with
    | asked => exact absurd rfl (hasked _)
    | allowed hor =>
        rcases hor with rfl | rfl
        · exact absurd rfl (hwaits _)
        · cases hno
    | handed hhanded hsent => exact ⟨hhanded, hsent⟩
    | refused => exact absurd rfl (hends _)
  cases h with
  | looked a upstream =>
      obtain ⟨rfl, hsent⟩ := hpoint rfl nofun nofun nofun
      exact {
        inside := .handed trivial hsent
        met := {
          sent := hmet.sent
          host := fun lookup heq => by
            cases heq
            rfl
          rule := fun rule heq => findRule_matches heq }
        sent := Nat.zero_add _ }
  | opened => exact hmet.stepped (.handed trivial (hpoint rfl nofun nofun nofun).2) rfl rfl rfl rfl
  | unopened => exact hmet.stepped (.handed trivial (hpoint rfl nofun nofun nofun).2) rfl rfl rfl rfl
  | woken => exact hmet.stepped (.handed trivial (hpoint rfl nofun nofun nofun).2) rfl rfl rfl rfl
  | shaped _ _ op' _ hop' =>
      have hhanded : op'.handedTo authority := by
        rcases hop' with rfl | rfl
        · trivial
        · trivial
      exact hmet.stepped (.handed hhanded (hpoint rfl nofun nofun nofun).2) rfl rfl rfl rfl
  | stored => exact hmet.stepped (.handed trivial (hpoint rfl nofun nofun nofun).2) rfl rfl rfl rfl
  | recorded => exact hmet.stepped (.handed trivial (hpoint rfl nofun nofun nofun).2) rfl rfl rfl rfl
  | checked => exact hmet.stepped (.handed trivial (hpoint rfl nofun nofun nofun).2) rfl rfl rfl rfl
  | onward _ op' _ response todo hop hop' =>
      have hno : op.rewrites = false := by
        cases op <;> first | rfl | cases hop
      exact hmet.stepped (.handed (Op.handedTo_of_response hop') (hinside.handed_of_response hop)) hno
        rfl rfl rfl

/-- **A step of an inner request.** -/
theorem Inside.step {proxy : SocketAddr} {tls : Option ProxyTlsInterception} {s : State}
    {x : Handling} {a : Answer} {m : Move} (hinside : Inside http2 authority x.request seen op)
    (hmet : Met http2 authority x.request seen)
    (h : op.step proxy tls http2 s x seen a = some m) :
    Inside.Stepped http2 authority x.request seen op m := by
  unfold Op.step at h
  rw [hinside.tunnelStep] at h
  dsimp only at h
  split at h
  next hsend =>
    cases h
    exact stepped_send hinside hmet hsend
  next => exact (answered_of_step h).stepped hinside hmet

end Points

/-! ## The task of an inner request -/

/-- The task of `request`, made in the tunnel of task `k` to `authority`. -/
structure Task.Pinned (k : Nat) (http2 : Bool) (authority : Authority) (request : Request)
    (t : Task) : Prop where
  origin : t.origin = .tunnel k http2
  met : Met http2 authority request t.seen
  point : t.pc = .gone ∨ ∃ x op todo, t.pc = .serving x op todo ∧ x.request = request ∧
    Inside http2 authority request t.seen op

section Tasks

variable {k : Nat} {http2 : Bool} {authority : Authority} {request : Request}

theorem Task.pinned_inner (t : Task) {x : Handling} (hx : x.request = request) :
    (t.inner k authority http2 x).Pinned k http2 authority request where
  origin := rfl
  met := ⟨nofun, nofun, nofun⟩
  point := .inr ⟨x, _, [], rfl, hx, .asked rfl⟩

theorem Inside.ne_serving {seen : Seen} {op : Op} (h : Inside http2 authority request seen op)
    {a : Authority} {route : TlsInterceptRoute} {http2' first : Bool} :
    op ≠ .serving a route http2' first := by
  rintro rfl
  cases h with
  | allowed hor => rcases hor with hor | hor <;> cases hor
  | handed hhanded => exact hhanded.elim

theorem Task.rewrites_of_gone {t : Task} (h : t.pc = .gone) : t.rewrites = false := by
  unfold Task.rewrites
  rw [h]

theorem Task.rewrites_of_nil {t : Task} {x : Handling} {op : Op} (h : t.pc = .serving x op []) :
    t.rewrites = op.rewrites := by
  unfold Task.rewrites
  rw [h]

theorem Task.rewrites_of_cons {t : Task} {x : Handling} {op : Op} {errand : Errand}
    {todo : List Errand} (h : t.pc = .serving x op (errand :: todo)) : t.rewrites = false := by
  unfold Task.rewrites
  rw [h]

/-- No step but `go` is taken where the request is handed over. -/
theorem Inside.go_of_rewrites {proxy : SocketAddr} {tls : Option ProxyTlsInterception} {s : State}
    {x : Handling} {seen : Seen} {op : Op} {a : Answer} {m : Move}
    (h : Inside http2 authority x.request seen op) (hop : op.rewrites = true)
    (hstep : op.step proxy tls http2 s x seen a = some m) : a = .go := by
  obtain ⟨-, rfl, -⟩ := h.rewrites hop
  unfold Op.step at hstep
  rw [h.tunnelStep] at hstep
  cases a with
  | go => rfl
  | _ => cases hstep

/-- **A step of its task.** -/
theorem Task.Moved.pinned {s : State} {now i : Nat} {t t' : Task} {a : Answer} {sec : Section}
    (h : t.Moved s now i a sec t') (hp : t.Pinned k http2 authority request) :
    t'.Pinned k http2 authority request ∧
      (decide (a = .go) && t.rewrites).toNat + t.seen.sent.isSome.toNat =
        t'.seen.sent.isSome.toNat := by
  rcases hp.point with hpc | ⟨x, op, todo, hpc, rfl, hinside⟩
  · -- a task that is gone can only be dropped again
    have hno := Task.rewrites_of_gone hpc
    rw [hno, Bool.and_false]
    cases h with
    | drop => exact ⟨⟨hp.origin, hp.met, .inl rfl⟩, Nat.zero_add _⟩
    | errand hpc' => cases hpc.symm.trans hpc'
    | deadline hpc' => cases hpc.symm.trans hpc'
    | asked hpc' => cases hpc.symm.trans hpc'
    | answered hpc' => cases hpc.symm.trans hpc'
    | arrive hpc' => cases hpc.symm.trans hpc'
    | admits _ hpc' => cases hpc.symm.trans hpc'
    | unauthorized hpc' => cases hpc.symm.trans hpc'
    | classify hpc' => cases hpc.symm.trans hpc'
    | forbid hpc' => cases hpc.symm.trans hpc'
    | begin hpc' => cases hpc.symm.trans hpc'
  have moved {m : Move} (hstepped : Inside.Stepped http2 authority x.request t.seen op m) :
      (t.after x m).Pinned k http2 authority x.request :=
    ⟨hp.origin, hstepped.met, .inr ⟨x, m.op, m.todo, rfl, rfl, hstepped.inside⟩⟩
  have hhttp2 : t.origin.http2 = http2 := by
    rw [hp.origin]
    rfl
  have hgoes := h.goes hpc
  cases hgoes with
  | errand =>
      rw [Task.rewrites_of_cons hpc, Bool.and_false]
      exact ⟨⟨hp.origin, hp.met, .inr ⟨x, op, _, rfl, rfl, hinside⟩⟩, Nat.zero_add _⟩
  | drop => exact ⟨⟨hp.origin, hp.met, .inl rfl⟩, Nat.zero_add _⟩
  | deadline hawaits =>
      have hstatus : 400 ≤ t.origin.timeout.1 := by
        rw [hp.origin]
        show 400 ≤ 504
        omega
      have hno : op.rewrites = false := by
        cases op <;> first | rfl | cases hawaits
      exact ⟨moved (hp.met.stepped (.refused hstatus) hno rfl rfl rfl), Nat.zero_add _⟩
  | asked hstep =>
      rw [hhttp2] at hstep
      have hstepped := hinside.step hp.met hstep
      refine ⟨moved hstepped, ?_⟩
      rw [Task.rewrites_of_nil hpc]
      have hsent := hstepped.sent
      by_cases hop : op.rewrites = true
      · rw [hinside.go_of_rewrites hop hstep]
        exact hsent
      · rw [Bool.not_eq_true] at hop
        rw [hop] at hsent ⊢
        rw [Bool.and_false]
        exact hsent
  | answered hanswered =>
      rw [hhttp2] at hanswered
      have hstepped := hanswered.stepped hinside hp.met
      refine ⟨moved hstepped, ?_⟩
      have hno : op.rewrites = false := by
        cases hop : op.rewrites with
        | false => rfl
        | true =>
            obtain ⟨-, rfl, -⟩ := hinside.rewrites hop
            cases hanswered with
            | onward _ _ _ _ _ hresponse => cases hresponse
      have hsent := hstepped.sent
      rw [Task.rewrites_of_nil hpc, hno, Bool.and_false]
      rwa [hno] at hsent

theorem Task.Pinned.receive {t t' : Task} {decision : BreakpointDecision}
    (hp : t.Pinned k http2 authority request) (h : t.receive decision = some t') :
    t'.Pinned k http2 authority request ∧ t'.seen = t.seen := by
  unfold Task.receive at h
  split at h
  next x upstream draft hpc =>
    cases h
    refine ⟨⟨hp.origin, hp.met, .inr ⟨x, _, [], rfl, ?_, ?_⟩⟩, rfl⟩
    · rcases hp.point with hgone | ⟨y, op, todo, hpc', hy, -⟩
      · cases hpc.symm.trans hgone
      · cases hpc.symm.trans hpc'
        exact hy
    · rcases hp.point with hgone | ⟨y, op, todo, hpc', -, hinside⟩
      · cases hpc.symm.trans hgone
      · cases hpc.symm.trans hpc'
        cases hinside with
        | allowed hor => rcases hor with hor | hor <;> cases hor
        | handed _ hsent => exact .handed trivial hsent
  next => cases h

/-- Only its own steps move the task. -/
theorem Engine.Became.pinned {s : Engine} {e : Event} {sec : Section} {i : Nat} {t t' : Task}
    (h : s.Became e sec i t t') (hp : t.Pinned k http2 authority request)
    (he : ∀ a, e ≠ .task i a) : t'.Pinned k http2 authority request ∧ t'.seen = t.seen := by
  cases h with
  | stays => exact ⟨hp, rfl⟩
  | moves => exact absurd rfl (he _)
  | polls => exact ⟨⟨hp.origin, hp.met, hp.point⟩, rfl⟩
  | hands hpc =>
      rcases hp.point with hgone | ⟨y, op, todo, hpc', -, hinside⟩
      · cases hpc.symm.trans hgone
      · cases hpc.symm.trans hpc'
        exact absurd rfl hinside.ne_serving
  | receives _ hreceive => exact hp.receive hreceive

/-- **A step of the engine keeps the task pinned**, and is its hand-over if a request is sent. -/
theorem Engine.pinned_step {crypto : Crypto} {s s' : Engine} {e : Event} {i : Nat} {t : Task}
    (ht : s.tasks[i]? = some t) (hp : t.Pinned k http2 authority request)
    (h : (engine crypto).step s e = some s') :
    ∃ t', s'.tasks[i]? = some t' ∧ t'.Pinned k http2 authority request ∧
      (Engine.sends i s e).toNat + t.seen.sent.isSome.toNat = t'.seen.sent.isSome.toNat := by
  obtain ⟨sec, p, hmoved, -, hparties⟩ := Engine.step_cases h
  have htasks : s'.tasks = p.tasks := by
    rw [hparties]
    exact Parties.log_tasks p s.shared sec
  rw [htasks]
  by_cases hown : ∃ a, e = .task i a
  · obtain ⟨a, rfl⟩ := hown
    cases hmoved with
    | lifecycle hlife => cases hlife
    | task hk _ hstep =>
        cases ht.symm.trans hk
        obtain ⟨hp', hsent⟩ := hstep.pinned hp
        refine ⟨_, List.getElem?_set_self (List.getElem?_eq_some_iff.mp hk).1, hp', ?_⟩
        rw [← hsent]
        unfold Engine.sends
        rw [ht]
        by_cases hgo : a = .go
        · rw [decide_eq_true hgo, decide_eq_true (congrArg (Event.task i) hgo)]
          rfl
        · have hne : ¬ Event.task i a = .task i .go := fun heq => hgo (Event.task.inj heq).2
          rw [decide_eq_false hgo, decide_eq_false hne, Bool.false_and, Bool.false_and]
  · have hother : ∀ a, e ≠ .task i a := fun a heq => hown ⟨a, heq⟩
    obtain ⟨t', ht', hbecame⟩ := hmoved.became ht
    obtain ⟨hp', hseen⟩ := hbecame.pinned hp hother
    refine ⟨t', ht', hp', ?_⟩
    unfold Engine.sends
    rw [decide_eq_false (hother .go), Bool.false_and, hseen]
    exact Nat.zero_add _

/-- The same along a run: what is sent is sent in one step. -/
theorem Engine.pinned_run {crypto : Crypto} {s s' : Engine} {es : List Event} {i : Nat} {t : Task}
    (ht : s.tasks[i]? = some t) (hp : t.Pinned k http2 authority request)
    (hsent : t.seen.sent = none) (hrun : (engine crypto).runFrom s es = some s') :
    ∃ t', s'.tasks[i]? = some t' ∧ t'.Pinned k http2 authority request ∧
      (engine crypto).count (Engine.sends i) s es = t'.seen.sent.isSome.toNat := by
  let keeps (s : Engine) : Prop := ∃ t, s.tasks[i]? = some t ∧ t.Pinned k http2 authority request
  let flag (s : Engine) : Bool := (s.tasks[i]?).any fun t => t.seen.sent.isSome
  have hflag {s : Engine} {t : Task} (ht : s.tasks[i]? = some t) : flag s = t.seen.sent.isSome := by
    show (s.tasks[i]?).any _ = _
    rw [ht]
    rfl
  have hstep : ∀ {s e s'}, keeps s → (engine crypto).step s e = some s' →
      keeps s' ∧ (Engine.sends i s e).toNat + (flag s).toNat = (flag s').toNat := by
    rintro s e s' ⟨t, ht, hp⟩ h
    obtain ⟨t', ht', hp', hcount⟩ := Engine.pinned_step ht hp h
    rw [hflag ht, hflag ht']
    exact ⟨⟨t', ht', hp'⟩, hcount⟩
  obtain ⟨t', ht', hp'⟩ := Machine.runFrom_invariant (fun hs h => (hstep hs h).1) ⟨t, ht, hp⟩ hrun
  refine ⟨t', ht', hp', ?_⟩
  have hcount := Machine.count_flag hstep ⟨t, ht, hp⟩ hrun
  rw [hflag ht, hflag ht', hsent] at hcount
  exact hcount

end Tasks

/-! ## The authority of a tunnel -/

/-- The authority of a CONNECT, once it has been checked, for its tunnel and an inner request that
has just come. -/
def Op.tunnel? : Op → Option Authority
  | .preparing authority _ | .dialing authority _ _ | .upgrading authority _ | .securing authority _
  | .serving authority _ _ _ | .copying authority | .intercepting authority => some authority
  | _ => none

theorem Op.tunnel?_of_response {op : Op} {response : Response} (h : op.response? = some response) :
    op.tunnel? = none := by
  cases op <;> first | rfl | cases h

theorem establishTarget_authority {request : Request} {authority : Authority} {port : Nat}
    (h : establishTarget request = .ok (authority, port)) :
    request.uri.authority = some authority := by
  obtain ⟨method, ⟨scheme, target, path, query⟩, headers, bodyEnded⟩ := request
  cases target with
  | none => cases h
  | some a =>
      show some a = some authority
      simp only [establishTarget, bind, Except.bind, pure, Except.pure] at h
      split at h
      · cases h
      · cases hport : a.port with
        | none => simp [hport] at h
        | some port' =>
            simp only [hport] at h
            split at h
            · cases h
            · split at h
              · cases h
              · exact congrArg some (Prod.mk.inj (Except.ok.inj h)).1

/-- The tunnels of a task are to the authority of its CONNECT, which `establish` has checked. -/
def Task.Connects (t : Task) : Prop :=
  ∀ x op todo, t.pc = .serving x op todo → ∀ authority, op.tunnel? = some authority →
    ∃ request port, establishTarget request = .ok (authority, port) ∧
      ((∀ a, op ≠ .intercepting a) → request = x.request)

theorem tunnel?_step {proxy : SocketAddr} {tls : Option ProxyTlsInterception} {http2 : Bool}
    {s : State} {x : Handling} {seen : Seen} {op : Op} {a : Answer} {m : Move}
    (h : op.step proxy tls http2 s x seen a = some m) {authority : Authority}
    (hop : m.op.tunnel? = some authority) :
    (op.tunnel? = some authority ∧ ∀ a, op ≠ .intercepting a) ∨
      ∃ port, establishTarget x.request = .ok (authority, port) := by
  unfold Op.step at h
  split at h
  next htunnel =>
    cases h
    unfold tunnelStep at htunnel
    split at htunnel
    -- establishing
    · split at htunnel
      · cases htunnel
        cases hop
      next htarget =>
        split at htunnel <;> cases htunnel <;> cases hop
        · exact .inr ⟨_, htarget⟩
        · exact .inr ⟨_, htarget⟩
    -- preparing
    · split at htunnel <;> cases htunnel
      · cases hop
      · exact .inl ⟨hop, nofun⟩
      · exact .inl ⟨hop, nofun⟩
    -- dialing
    · simp only at htunnel
      split at htunnel <;> cases htunnel
      · cases hop
      · exact .inl ⟨hop, nofun⟩
    -- upgrading
    · split at htunnel
      · cases htunnel
        cases hop
      · split at htunnel <;> cases htunnel
        · exact .inl ⟨hop, nofun⟩
        · exact .inl ⟨hop, nofun⟩
    -- securing
    · split at htunnel <;> cases htunnel
      · exact .inl ⟨hop, nofun⟩
      · cases hop
    -- serving
    · cases htunnel
      cases hop
    -- copying
    · split at htunnel <;> cases htunnel
      exact .inl ⟨hop, nofun⟩
    · cases htunnel
      cases hop
    · cases htunnel
  next =>
    split at h
    next hsend =>
      cases h
      unfold sendStep at hsend
      split at hsend
      · split at hsend <;> cases hsend <;> cases hop
      · simp only at hsend
        split at hsend
        · cases hsend
          cases hop
        · split at hsend <;> cases hsend <;> cases hop
      · split at hsend <;> cases hsend <;> cases hop
      · cases hsend
        cases hop
      · cases hsend
        cases hop
      · split at hsend <;> cases hsend <;> cases hop
      · cases hsend
    next =>
      cases answered_of_step h with
      | shaped _ _ _ _ hor => rcases hor with rfl | rfl <;> cases hop
      | onward _ _ _ _ _ _ hop' =>
          rw [Op.tunnel?_of_response hop'] at hop
          cases hop
      | _ => cases hop

theorem Task.Moved.connects {s : State} {now i : Nat} {t t' : Task} {a : Answer} {sec : Section}
    (h : t.Moved s now i a sec t') (ht : t.Connects) : t'.Connects := by
  intro x' op' todo' hpc' authority hop
  cases h with
  | errand hpc =>
      cases hpc'
      exact ht _ _ _ hpc authority hop
  | drop => cases hpc'
  | deadline => cases hpc'; cases hop
  | asked hpc hstep =>
      cases hpc'
      rcases tunnel?_step hstep hop with ⟨hold, hnot⟩ | ⟨port, htarget⟩
      · obtain ⟨request, port, htarget, hsame⟩ := ht _ _ _ hpc authority hold
        exact ⟨request, port, htarget, fun _ => hsame hnot⟩
      · exact ⟨x'.request, port, htarget, fun _ => rfl⟩
  | answered hpc hanswered =>
      cases hpc'
      cases hanswered with
      | shaped _ _ _ _ hor => rcases hor with rfl | rfl <;> cases hop
      | onward _ _ _ _ _ _ hresponse =>
          rw [Op.tunnel?_of_response hresponse] at hop
          cases hop
      | _ => cases hop
  | arrive => cases hpc'
  | admits => cases hpc'
  | unauthorized => cases hpc'
  | classify => cases hpc'
  | forbid => cases hpc'
  | begin hpc =>
      cases hpc'
      split at hop <;> cases hop

/-- **Every tunnel is to the authority of its CONNECT.** -/
theorem Engine.connects {crypto : Crypto} {s : Engine} (h : (engine crypto).Reachable s) :
    ∀ t ∈ s.tasks, t.Connects := by
  have hstart : ∀ t ∈ Engine.default.tasks, t.Connects := fun t ht => absurd ht List.not_mem_nil
  refine Machine.Reach.invariant (I := fun s => ∀ t ∈ s.tasks, t.Connects) hstart ?_ h
  intro s s' e ih _ hstep t' ht'
  obtain ⟨sec, p, hmoved, -, hparties⟩ := Engine.step_cases hstep
  have htasks : s'.tasks = p.tasks := by
    rw [hparties]
    exact Parties.log_tasks p s.shared sec
  rw [htasks] at ht'
  obtain ⟨i, hi⟩ := List.getElem?_of_mem ht'
  rcases hmoved.came hi with ⟨t, ht, hbecame⟩ | ⟨-, harrives⟩
  · have hold := ih t (List.mem_of_getElem? ht)
    cases hbecame with
    | stays => exact hold
    | moves _ hmoved => exact hmoved.connects hold
    | polls => exact hold
    | hands hpc =>
        intro x op todo hpc' authority hop
        cases hpc'
        obtain ⟨request, port, htarget, hsame⟩ := hold _ _ _ hpc authority hop
        exact ⟨request, port, htarget, fun _ => hsame nofun⟩
    | receives _ hreceive =>
        intro x op todo hpc' authority hop
        unfold Task.receive at hreceive
        split at hreceive <;> cases hreceive
        cases hpc'
        cases hop
  · have hinner {t : Task} {k : Nat} {x y : Handling} {a : Authority} {route : TlsInterceptRoute}
        {http2 first : Bool} (hk : s.tasks[k]? = some t)
        (hpc : t.pc = .serving x (.serving a route http2 first) []) :
        (t.inner k a http2 y).Connects := by
      intro x' op todo hpc' authority hop
      cases hpc'
      obtain ⟨request, port, htarget, -⟩ := ih t (List.mem_of_getElem? hk) _ _ _ hpc authority hop
      exact ⟨request, port, htarget, fun hnot => absurd rfl (hnot _)⟩
    cases harrives with
    | connection => exact fun x op todo hpc' => nomatch hpc'
    | innerFirst hk hpc => exact hinner hk hpc
    | innerNext hk hpc => exact hinner hk hpc

/-! ## The result -/

/-- The answer of a pinned task that has sent nothing is an error. -/
theorem Task.Pinned.answers {k : Nat} {http2 : Bool} {authority : Authority} {request : Request}
    {t : Task} (h : t.Pinned k http2 authority request) (hsent : t.seen.sent = none) {status : Nat}
    (hanswers : t.Answers status) : 400 ≤ status := by
  obtain ⟨x, response, todo, rfl, hpc⟩ := hanswers
  rcases h.point with hgone | ⟨y, op, todo', hpc', -, hinside⟩
  · rcases hpc with hpc | hpc <;> cases hgone.symm.trans hpc
  · rcases hpc with hpc | hpc
    · cases hpc.symm.trans hpc'
      cases hinside with
      | allowed hor => rcases hor with hor | hor <;> cases hor
      | handed hhanded => exact hhanded.elim
      | refused hstatus => exact hstatus
    · cases hpc.symm.trans hpc'
      have hsome := hinside.handed_of_response rfl
      rw [hsent] at hsome
      cases hsome

/-- **Inner requests are confined**: one whose nominations can be read in every state that follows,
and any other exactly as long as nothing is sent for it. The authority is that of the CONNECT. -/
theorem inner_requests_are_confined {crypto : Crypto} {s s₁ s₂ : Engine}
    (h : (engine crypto).Reachable s) {k : Nat} {t : Task} (ht : s.tasks[k]? = some t)
    {x : Handling} {authority : Authority} {route : TlsInterceptRoute} {http2 first : Bool}
    (hpc : t.pc = .serving x (.serving authority route http2 first) []) {request : Request}
    (hvalid : request.headers.Valid) (hstep : (engine crypto).step s (.inner k request) = some s₁)
    {es : List Event} (hrun : (engine crypto).runFrom s₁ es = some s₂) :
    x.request.uri.authority = some authority ∧ ∃ u, s₂.tasks[s.tasks.length]? = some u ∧
      ((request.headers.remove "host".toList).NominationsRead →
        u.Confined k http2 authority request
          ((engine crypto).count (Engine.sends s.tasks.length) s₁ es)) ∧
      (¬ (request.headers.remove "host".toList).NominationsRead →
        (u.Confined k http2 authority request
          ((engine crypto).count (Engine.sends s.tasks.length) s₁ es) ↔ u.seen.sent = none)) := by
  obtain ⟨connect, port, htarget, hconnect⟩ :=
    Engine.connects h t (List.mem_of_getElem? ht) _ _ _ hpc authority rfl
  rw [hconnect nofun] at htarget
  refine ⟨establishTarget_authority htarget, ?_⟩
  have hnew : ∃ u, s₁.tasks[s.tasks.length]? = some u ∧ u.Pinned k http2 authority request ∧
      u.seen.sent = none := by
    obtain ⟨sec, p, hmoved, -, hparties⟩ := Engine.step_cases hstep
    have htasks : s₁.tasks = p.tasks := by
      rw [hparties]
      exact Parties.log_tasks p s.shared sec
    rw [htasks]
    cases hmoved with
    | lifecycle hlife => cases hlife
    | innerFirst hk hpc' =>
        cases ht.symm.trans hk
        cases hpc.symm.trans hpc'
        refine ⟨t.inner k authority http2 { x with request, replay := none }, ?_,
          t.pinned_inner rfl, rfl⟩
        rw [List.getElem?_append_right (by simp)]
        simp
    | innerNext hk hpc' =>
        cases ht.symm.trans hk
        cases hpc.symm.trans hpc'
        refine ⟨t.inner k authority http2 { x with
          id := s.shared.nextId, started := s.clock, request, replay := none }, ?_,
          t.pinned_inner rfl, rfl⟩
        rw [List.getElem?_append_right (by simp)]
        simp
  obtain ⟨u₁, hu₁, hpinned₁, hsent₁⟩ := hnew
  obtain ⟨u, hu, hpinned, hcount⟩ := Engine.pinned_run hu₁ hpinned₁ hsent₁ hrun
  refine ⟨u, hu, ?_⟩
  rw [hcount]
  cases hsent : u.seen.sent with
  | none =>
      have hconfined : u.Confined k http2 authority request (none (α := Request)).isSome.toNat := {
        tunnel := hpinned.origin
        sent := .inl ⟨hsent, rfl, fun status => hpinned.answers hsent⟩
        host := hpinned.met.host
        rule := hpinned.met.rule }
      exact ⟨fun _ => hconfined, fun _ => iff_of_true hconfined rfl⟩
  | some sent =>
      obtain ⟨heq, htarget⟩ := hpinned.met.sent sent hsent
      have hloses : request.LosesNominated sent ↔
          (request.headers.remove "host".toList).NominationsRead := by
        rw [heq]
        exact losesNominated_iff hvalid
      constructor
      · intro hread
        exact {
          tunnel := hpinned.origin
          sent := .inr ⟨sent, hsent, rfl, heq ▸ upstreamRequest_pinnedTo hvalid htarget,
            hloses.mpr hread⟩
          host := hpinned.met.host
          rule := hpinned.met.rule }
      · intro hunread
        refine iff_of_false (fun hconfined => ?_) nofun
        rcases hconfined.sent with ⟨hnone, -⟩ | ⟨sent', hsent', -, -, hlost⟩
        · cases hsent.symm.trans hnone
        · cases hsent.symm.trans hsent'
          exact hunread (hloses.mp hlost)

/-- A decoder and a digest under which every `Basic` credential is that of one client. -/
def Crypto.oneClient : Crypto where
  base64Decode _ := some (utf8 "p:t".toList)
  sha256 bytes := bytes

/-- A configuration that inspects the tunnels of that client. -/
def inspecting : ProxyConfig :=
  { ProxyConfig.default with
    clientAuth := some ⟨"p".toList, utf8 "t".toList⟩
    tlsInterception := some ⟨"p".toList⟩ }

def localhostTls : Authority := ⟨"localhost:443".toList, by decide⟩

def connectRequest : Request where
  method := "CONNECT".toList
  uri := ⟨none, some localhostTls, [], none⟩
  headers := [("proxy-authorization".toList, "Basic cDp0".toList)]
  bodyEnded := true

/-- The client's tunnel is there, inspected, with HTTP/1 on both sides. -/
def tunnelServed : List Event :=
  starting inspecting ++ [.accept] ++ answers 0 [.request connectRequest, .go, .go, .go, .go,
    .issued (some true), .dialed (some [⟨.v4 [127, 0, 0, 1], 443⟩]) true true, .go, .go, .go,
    .upgraded true, .secured (.established false)]

/-- An inner request is forwarded. -/
def innerForwarded : List Event := answers 1 [.go, .go, .acquired, .go]

/-- A request of a client that nominates its `Host` and one more header. -/
def nominatingRequest : Request where
  method := "GET".toList
  uri := ⟨none, none, "/a".toList, some "b=c".toList⟩
  headers := [("host".toList, "elsewhere".toList), ("connection".toList, "Host, X-Hop".toList),
    ("x-hop".toList, "1".toList), ("proxy-authorization".toList, "Basic cDp0".toList)]
  bodyEnded := true

theorem nominating_request_is_confined :
    ∃ s s₁ s₂ u, (engine .oneClient).run tunnelServed = some s ∧
      (engine .oneClient).step s (.inner 0 nominatingRequest) = some s₁ ∧
      (engine .oneClient).runFrom s₁ innerForwarded = some s₂ ∧ s₂.tasks[1]? = some u ∧
      u.seen.sent.isSome = true ∧
      u.Confined 0 false localhostTls nominatingRequest
        ((engine .oneClient).count (Engine.sends 1) s₁ innerForwarded) := by
  have hrun : ∃ s s₁ s₂ t x u, (engine .oneClient).run tunnelServed = some s ∧
      s.tasks[0]? = some t ∧ s.tasks.length = 1 ∧
      t.pc = .serving x (.serving localhostTls ⟨"localhost".toList⟩ false true) [] ∧
      (engine .oneClient).step s (.inner 0 nominatingRequest) = some s₁ ∧
      (engine .oneClient).runFrom s₁ innerForwarded = some s₂ ∧ s₂.tasks[1]? = some u ∧
      u.seen.sent.isSome = true :=
    ⟨_, _, _, _, _, _, rfl, rfl, rfl, rfl, rfl, rfl, rfl, rfl⟩
  obtain ⟨s, s₁, s₂, t, x, u, hrun, ht, hlength, hpc, hstep, hrest, hu, hsent⟩ := hrun
  have hvalid : nominatingRequest.headers.Valid := by decide
  have hread : (nominatingRequest.headers.remove "host".toList).NominationsRead := by
    unfold HeaderMap.NominationsRead
    decide
  obtain ⟨-, u', hu', hconfined, -⟩ := inner_requests_are_confined
    (Machine.reachable_of_run _ hrun) ht hpc hvalid hstep hrest
  rw [hlength] at hu' hconfined
  cases hu.symm.trans hu'
  exact ⟨s, s₁, s₂, u, hrun, hstep, hrest, hu, hsent, hconfined hread⟩

/-- A request that nominates a header in a value that is not ASCII. -/
def unreadRequest : Request where
  method := "GET".toList
  uri := ⟨none, none, ['/'], none⟩
  headers := unreadHeaders
  bodyEnded := true

/-- The header goes upstream through the tunnel. -/
theorem unread_inner_nomination_is_sent :
    ∃ s s₁ s₂ u sent, (engine .oneClient).run tunnelServed = some s ∧
      (engine .oneClient).step s (.inner 0 unreadRequest) = some s₁ ∧
      (engine .oneClient).runFrom s₁ innerForwarded = some s₂ ∧ s₂.tasks[1]? = some u ∧
      u.seen.sent = some sent ∧ Nominates unreadRequest.headers "x-secret".toList ∧
      HeaderMap.getAll sent.headers "x-secret".toList = ["hop".toList] ∧
      ¬ u.Confined 0 false localhostTls unreadRequest
        ((engine .oneClient).count (Engine.sends 1) s₁ innerForwarded) := by
  have hrun : ∃ s s₁ s₂ u sent, (engine .oneClient).run tunnelServed = some s ∧
      (engine .oneClient).step s (.inner 0 unreadRequest) = some s₁ ∧
      (engine .oneClient).runFrom s₁ innerForwarded = some s₂ ∧ s₂.tasks[1]? = some u ∧
      u.seen.sent = some sent ∧
      HeaderMap.getAll sent.headers "x-secret".toList = ["hop".toList] :=
    ⟨_, _, _, _, _, rfl, rfl, rfl, rfl, rfl, rfl⟩
  obtain ⟨s, s₁, s₂, u, sent, hrun, hstep, hrest, hu, hsent, hleft⟩ := hrun
  have hnominated : Nominates unreadRequest.headers "x-secret".toList := by decide
  refine ⟨s, s₁, s₂, u, sent, hrun, hstep, hrest, hu, hsent, hnominated, hleft, fun h => ?_⟩
  rcases h.sent with ⟨hnone, -⟩ | ⟨sent', hsent', -, -, hlost⟩
  · cases hsent.symm.trans hnone
  · cases hsent.symm.trans hsent'
    have hnothing := hlost "x-secret".toList (by decide) hnominated
    rw [hleft] at hnothing
    cases hnothing

end SippinSoda
