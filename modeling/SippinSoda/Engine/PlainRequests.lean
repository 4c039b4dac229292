import SippinSoda.Engine.Announcements
import SippinSoda.Engine.InnerRequests
import SippinSoda.Engine.ReplayRequest

/-!
# Requests over plain HTTP

A client sends the proxy requests with absolute targets. `handle` takes the internal header from
one, `forward` checks its target and connects to it, and `forward_with_sender` rewrites it and
hands it to the connection.

* **ForwardedTo** — the request a server gets for one of a client;
* **Outbound** — where the task of one stands, and what has been dialed and sent;
* **plain_requests_are_forwarded** — every request of a client is forwarded once to the host it
  names, as it is, or is answered with an error.
-/

namespace SippinSoda

/-- `sent` is what the server at `authority` is to get for `request`: the request without what
concerns its way to the proxy. -/
structure Request.ForwardedTo (authority : Authority) (request sent : Request) : Prop where
  scheme : request.uri.scheme = some "http".toList
  named : request.uri.authority = some authority
  credentials : authority.text.contains '@' = false
  upgrade : request.headers.containsKey "upgrade".toList = false
  method : sent.method = request.method
  uri : sent.uri =
    { scheme := none, authority := none, path := request.uri.path, query := request.uri.query }
  bodyEnded : sent.bodyEnded = request.bodyEnded
  headers : ∀ name, HeaderMap.getAll sent.headers name =
    if name = "host".toList then [authority.text]
    else if name = internalReplayHeader ∨ HopByHop request.headers name then []
    else HeaderMap.getAll request.headers name

/-- The client has got an answer of that status, from `handle` or from the exchange. -/
def Task.Replies (t : Task) (status : Nat) : Prop :=
  t.Answers status ∨ ∃ response, response.status = status ∧ t.pc = .answered response

/-! ## What is sent -/

/-- What the checks of `forward` let through. -/
theorem forwardTarget_ok {request : Request} {authority : Authority} {port : Nat}
    (h : forwardTarget request = .ok (authority, port)) :
    request.headers.containsKey "upgrade".toList = false ∧
      request.uri.scheme = some "http".toList ∧ request.uri.authority = some authority ∧
      authority.text.contains '@' = false := by
  simp only [forwardTarget, bind, Except.bind] at h
  split at h
  · cases h
  next hupgrade =>
    split at h
    · cases h
    next named hnamed =>
      split at h
      · cases h
      next hscheme =>
        split at h
        · cases h
        next hcredentials =>
          cases h
          refine ⟨Bool.eq_false_iff.mpr hupgrade, ?_, hnamed, Bool.eq_false_iff.mpr hcredentials⟩
          simpa using hscheme

theorem forwardTarget_error {request : Request} {error : ForwardError}
    (h : forwardTarget request = .error error) : 400 ≤ error.1 := by
  simp only [forwardTarget, bind, Except.bind] at h
  split at h
  · cases h
    show 400 ≤ 501
    omega
  · split at h
    · cases h
      exact le_refl 400
    · split at h
      · cases h
        exact le_refl 400
      · split at h
        · cases h
          exact le_refl 400
        · cases h

theorem connectUpstream_error {proxy : SocketAddr} {lookup : Option (List SocketAddr)}
    {accepted : Bool} {error : ForwardError}
    (h : connectUpstream proxy lookup accepted = .error error) : 400 ≤ error.1 := by
  unfold connectUpstream at h
  split at h
  · cases h
    show 400 ≤ 502
    omega
  · simp only at h
    split at h
    · cases h
      show 400 ≤ 502
      omega
    · split at h
      · cases h
        show 400 ≤ 508
        omega
      · split at h
        · cases h
          show 400 ≤ 502
          omega
        · cases h

theorem containsKey_unmarked {request : Request} {name : Str} (h : name ≠ internalReplayHeader) :
    request.unmarked.headers.containsKey name = request.headers.containsKey name := by
  have hlower : Str.toAsciiLowercase internalReplayHeader = internalReplayHeader := by decide
  rw [Bool.eq_iff_iff, HeaderMap.containsKey_iff, HeaderMap.containsKey_iff]
  unfold Request.unmarked
  simp only [HeaderMap.mem_remove, hlower]
  exact exists_congr fun field => and_congr_left fun hname => and_iff_left (hname ▸ h)

/-- **A request that is let through is forwarded as it is.** -/
theorem Request.forwardedTo {request : Request} {authority : Authority} {port : Nat}
    (h : forwardTarget request.unmarked = .ok (authority, port)) :
    request.ForwardedTo authority (request.forwarded authority) := by
  obtain ⟨hupgrade, hscheme, hnamed, hcredentials⟩ := forwardTarget_ok h
  have hscheme : request.uri.scheme = some "http".toList := hscheme
  have hpath : request.uri.pathAndQuery.isSome = true := by
    unfold Uri.pathAndQuery
    rw [hscheme]
    rfl
  exact {
    scheme := hscheme
    named := hnamed
    credentials := hcredentials
    upgrade := by
      rw [containsKey_unmarked (by decide)] at hupgrade
      exact hupgrade
    method := rfl
    uri := by
      unfold Request.forwarded upstreamRequest
      dsimp only
      rw [show request.unmarked.uri = request.uri from rfl, if_pos hpath, if_pos hpath]
      rfl
    bodyEnded := rfl
    headers := by
      intro name
      have hhop : HopByHop request.unmarked.headers name ↔ HopByHop request.headers name := by
        unfold HopByHop
        rw [nominated_unmarked]
      rw [getAll_forwarded]
      by_cases hinternal : name = internalReplayHeader
      · rw [hinternal, getAll_unmarked_internal, if_pos (Or.inl rfl), ite_self]
      · simp only [hhop, hinternal, false_or, getAll_unmarked hinternal] }

/-! ## Where a plain request stands -/

/-- The points of a request that is no CONNECT, with what has been dialed and sent at them. -/
inductive Outbound (request : Request) (seen : Seen) : Op → Prop
  | asked : seen.sent = none → Outbound request seen .forwarding
  | checked {authority port} : seen.sent = none →
      forwardTarget request = .ok (authority, port) →
      Outbound request seen (.connecting authority port)
  | connected {authority port} : seen.sent = none →
      forwardTarget request = .ok (authority, port) →
      seen.dialed = some (trimBrackets authority.host) →
      Outbound request seen (.rewriting authority)
  | handed {authority op} : op.handedTo authority → seen.sent.isSome = true →
      Outbound request seen op
  | refused {response : Response} : 400 ≤ response.status →
      Outbound request seen (.refused response)

/-- What has been sent was let through, and the host dialed is the one it names. -/
def Seen.SentFor (request : Request) (seen : Seen) : Prop :=
  ∀ sent, seen.sent = some sent → ∃ authority port,
    forwardTarget request = .ok (authority, port) ∧
      seen.dialed = some (trimBrackets authority.host) ∧
      sent = upstreamRequest false authority request

/-- What a step of a plain request leaves: a point of it, what has been sent for it, and one more
request sent if that was the step. -/
structure Outbound.Stepped (request : Request) (seen : Seen) (op : Op) (m : Move) : Prop where
  outbound : Outbound request m.seen m.op
  sentFor : m.seen.SentFor request
  sent : op.rewrites.toNat + seen.sent.isSome.toNat = m.seen.sent.isSome.toNat

section Points

variable {request : Request} {seen : Seen} {op : Op}

theorem Seen.SentFor.none (h : seen.sent = none) : seen.SentFor request := by
  intro sent hsent
  cases h.symm.trans hsent

/-- A step that dials nothing and sends nothing. -/
theorem Seen.SentFor.stepped {m : Move} (h : seen.SentFor request)
    (houtbound : Outbound request m.seen m.op) (hop : op.rewrites = false)
    (hsent : m.seen.sent = seen.sent) (hdialed : m.seen.dialed = seen.dialed) :
    Outbound.Stepped request seen op m where
  outbound := houtbound
  sentFor := by
    unfold Seen.SentFor
    rw [hsent, hdialed]
    exact h
  sent := by
    rw [hop, hsent]
    exact Nat.zero_add _

theorem Outbound.tunnelStep {proxy : SocketAddr} {tls : Option ProxyTlsInterception} {x : Handling}
    {seen' : Seen} {a : Answer} (h : Outbound request seen op) :
    tunnelStep proxy tls x seen' op a = none := by
  cases h with
  | asked => rfl
  | checked => rfl
  | connected => rfl
  | handed hop => cases op <;> first | rfl | cases hop
  | refused => rfl

/-- After the request has been handed over. -/
theorem Outbound.sent_of_handed {authority : Authority} (h : Outbound request seen op)
    (hop : op.handedTo authority) : seen.sent.isSome = true := by
  cases h with
  | handed _ hsent => exact hsent
  | _ => exact hop.elim

theorem rewrites_of_handedTo {authority : Authority} (h : op.handedTo authority) :
    op.rewrites = false := by
  cases op <;> first | rfl | exact h.elim

theorem outbound_send {proxy : SocketAddr} {s : State} {x : Handling} {a : Answer} {m : Move}
    (houtbound : Outbound x.request seen op) (hsent : seen.SentFor x.request)
    (h : sendStep proxy false s x seen op a = some m) :
    Outbound.Stepped x.request seen op m := by
  unfold sendStep at h
  split at h
  -- forwarding
  · cases houtbound with
    | asked hnone =>
        split at h
        next herror =>
          cases h
          exact hsent.stepped (.refused (forwardTarget_error herror)) rfl rfl rfl
        next htarget =>
          cases h
          exact hsent.stepped (.checked hnone htarget) rfl rfl rfl
    | handed hhanded => exact hhanded.elim
  -- connecting
  · cases houtbound with
    | checked hnone htarget =>
        have hdials {authority : Authority} {port : Nat} {m : Move}
            (hout : Outbound x.request m.seen m.op) (hm : m.seen.sent = seen.sent) :
            Outbound.Stepped x.request seen (.connecting authority port) m :=
          ⟨hout, .none (hm.trans hnone), by
            rw [hm]
            exact Nat.zero_add _⟩
        simp only at h
        split at h
        next herror =>
          cases h
          exact hdials (.refused (connectUpstream_error herror)) rfl
        next =>
          split at h <;> cases h
          · exact hdials (.connected hnone htarget rfl) rfl
          · have hstatus : 400 ≤ 502 := by omega
            exact hdials (.refused hstatus) rfl
    | handed hhanded => exact hhanded.elim
  -- intercepting and acquiring
  · cases houtbound with
    | handed hhanded => exact hhanded.elim
  · cases houtbound with
    | handed hhanded => exact hhanded.elim
  -- rewriting
  · cases houtbound with
    | connected hnone htarget hdialed =>
        cases h
        exact {
          outbound := .handed rfl rfl
          sentFor := fun sent heq => ⟨_, _, htarget, hdialed, (Option.some.inj heq).symm⟩
          sent := by
            rw [hnone]
            rfl }
    | handed hhanded => exact hhanded.elim
  -- sending
  · have hsome := houtbound.sent_of_handed rfl
    split at h <;> cases h
    · have hstatus : 400 ≤ 502 := by omega
      exact hsent.stepped (.refused hstatus) rfl rfl rfl
    · exact hsent.stepped (.handed rfl hsome) rfl rfl rfl
  · cases h

/-- From the answer of the upstream on nothing more is dialed or sent. -/
theorem Answered.handed {http2 : Bool} {s : State} {x : Handling} {a : Answer} {m : Move}
    (h : Answered http2 s x seen op a m) :
    (∃ authority, op.handedTo authority ∧ m.op.handedTo authority) ∧
      m.seen.sent = seen.sent ∧ m.seen.dialed = seen.dialed := by
  cases h with
  | looked authority upstream => exact ⟨⟨authority, rfl, trivial⟩, rfl, rfl⟩
  | shaped _ _ op' _ hop' =>
      refine ⟨⟨localhost, trivial, ?_⟩, rfl, rfl⟩
      rcases hop' with rfl | rfl
      · trivial
      · trivial
  | onward _ _ _ response _ hop hop' =>
      exact ⟨⟨localhost, Op.handedTo_of_response hop, Op.handedTo_of_response hop'⟩, rfl, rfl⟩
  | _ => exact ⟨⟨localhost, trivial, trivial⟩, rfl, rfl⟩

theorem Answered.outbound {http2 : Bool} {s : State} {x : Handling} {a : Answer} {m : Move}
    (h : Answered http2 s x seen op a m) (houtbound : Outbound x.request seen op)
    (hsent : seen.SentFor x.request) : Outbound.Stepped x.request seen op m := by
  obtain ⟨⟨authority, hop, hop'⟩, hsame, hdialed⟩ := h.handed
  have hsome := houtbound.sent_of_handed hop
  refine hsent.stepped (.handed hop' ?_) (rewrites_of_handedTo hop) hsame hdialed
  rw [hsame]
  exact hsome

/-- **A step of a plain request.** -/
theorem Outbound.step {proxy : SocketAddr} {tls : Option ProxyTlsInterception} {s : State}
    {x : Handling} {a : Answer} {m : Move} (houtbound : Outbound x.request seen op)
    (hsent : seen.SentFor x.request) (h : op.step proxy tls false s x seen a = some m) :
    Outbound.Stepped x.request seen op m := by
  unfold Op.step at h
  rw [houtbound.tunnelStep] at h
  dsimp only at h
  split at h
  next hsend =>
    cases h
    exact outbound_send houtbound hsent hsend
  next => exact (answered_of_step h).outbound houtbound hsent

/-- No step but `go` is taken where the request is handed over. -/
theorem Outbound.go_of_rewrites {proxy : SocketAddr} {tls : Option ProxyTlsInterception}
    {s : State} {x : Handling} {a : Answer} {m : Move} (h : Outbound request seen op)
    (hop : op.rewrites = true) (hstep : op.step proxy tls false s x seen a = some m) : a = .go := by
  unfold Op.step at hstep
  rw [h.tunnelStep] at hstep
  cases op with
  | rewriting authority =>
      cases a with
      | go => rfl
      | _ => cases hstep
  | _ => cases hop

end Points

/-! ## The task of a plain request -/

/-- Where the task of a client's request is, from its arrival on. -/
inductive Carried (request : Request) (seen : Seen) : Pc → Prop
  | arrived : seen.sent = none → Carried request seen (.arrived request)
  | admitted {clientProfileId replay} : seen.sent = none →
      Carried request seen (.admitted request.unmarked clientProfileId replay)
  | classified {clientProfileId replay destination classifier} : seen.sent = none →
      Carried request seen
        (.classified request.unmarked clientProfileId replay destination classifier)
  | answered {response} : seen.sent = none → 400 ≤ response.status →
      Carried request seen (.answered response)
  | serving {x op todo} : x.request = request.unmarked → Outbound request.unmarked seen op →
      Carried request seen (.serving x op todo)
  | gone : Carried request seen .gone

structure Task.Carries (request : Request) (t : Task) : Prop where
  origin : t.origin = .client
  sentFor : t.seen.SentFor request.unmarked
  point : Carried request t.seen t.pc

section Tasks

variable {request : Request} {s : State} {now i : Nat} {t t' : Task} {a : Answer} {sec : Section}

/-- `handle` takes the internal header from the request, and admits it or answers 407. -/
theorem Task.carries_arrive (crypto : Crypto) (s : State) (ht : t.Carries request)
    (hnone : t.seen.sent = none) : (t.arrive crypto s request).Carries request where
  origin := ht.origin
  sentFor := .none hnone
  point := by
    unfold Task.arrive Listening.admit
    dsimp only
    split
    · exact .admitted hnone
    · split
      · exact .admitted hnone
      · have hstatus : 400 ≤ 407 := by omega
        exact .answered hnone hstatus
    · exact .admitted hnone

theorem Task.Carries.onward {x : Handling} {op : Op} (ht : t.Carries request)
    (hx : x.request = request.unmarked) {m : Move}
    (h : Outbound.Stepped request.unmarked t.seen op m) : (t.after x m).Carries request where
  origin := ht.origin
  sentFor := h.sentFor
  point := .serving hx h.outbound

/-- What a step leaves of a task that carries the request. -/
def Task.Sends (request : Request) (t t' : Task) (a : Answer) : Prop :=
  t'.Carries request ∧ (decide (a = .go) && t.rewrites).toNat + t.seen.sent.isSome.toNat =
    t'.seen.sent.isSome.toNat

/-- A step outside an exchange. -/
theorem Task.Carries.quiet (h : t'.Carries request) (hno : t.rewrites = false)
    (hsent : t'.seen.sent = t.seen.sent) : t.Sends request t' a := by
  refine ⟨h, ?_⟩
  rw [hno, hsent, Bool.and_false]
  exact Nat.zero_add _

/-- A step of its exchange. -/
theorem Task.Goes.carries {k : Nat} {x : Handling} {op : Op} {todo : List Errand}
    (h : t.Goes s k x op todo a sec t') (ht : t.Carries request)
    (hpc : t.pc = .serving x op todo) : t.Sends request t' a := by
  have hpoint := ht.point
  rw [hpc] at hpoint
  cases hpoint with
  | serving hx houtbound =>
      cases h with
      | errand =>
          exact Task.Carries.quiet ⟨ht.origin, ht.sentFor, .serving hx houtbound⟩
            (Task.rewrites_of_cons hpc) rfl
      | drop hop =>
          have hno : op.rewrites = false := by
            cases op <;> first | rfl | cases hop
          exact Task.Carries.quiet ⟨ht.origin, ht.sentFor, .gone⟩
            ((Task.rewrites_of_nil hpc).trans hno) rfl
      | deadline hop =>
          have hstatus : 400 ≤ t.origin.timeout.1 := by
            rw [ht.origin]
            show 400 ≤ 504
            omega
          have hno : op.rewrites = false := by
            cases op <;> first | rfl | cases hop
          exact Task.Carries.quiet
            (ht.onward hx (ht.sentFor.stepped (.refused hstatus) hno rfl rfl))
            ((Task.rewrites_of_nil hpc).trans hno) rfl
      | asked hstep =>
          rw [ht.origin] at hstep
          rw [← hx] at houtbound
          have hsentFor := ht.sentFor
          rw [← hx] at hsentFor
          have hstepped := houtbound.step hsentFor hstep
          refine ⟨ht.onward hx (hx ▸ hstepped), ?_⟩
          rw [Task.rewrites_of_nil hpc]
          have hsent := hstepped.sent
          by_cases hop : op.rewrites = true
          · rw [houtbound.go_of_rewrites hop hstep]
            exact hsent
          · rw [Bool.not_eq_true] at hop
            rw [hop] at hsent ⊢
            rw [Bool.and_false]
            exact hsent
      | answered hanswered =>
          rw [← hx] at houtbound
          have hsentFor := ht.sentFor
          rw [← hx] at hsentFor
          have hstepped := hanswered.outbound houtbound hsentFor
          obtain ⟨⟨authority, hop, -⟩, hsame, -⟩ := hanswered.handed
          exact Task.Carries.quiet (ht.onward hx (hx ▸ hstepped))
            ((Task.rewrites_of_nil hpc).trans (rewrites_of_handedTo hop)) hsame

/-- A task whose request has arrived takes it up and does nothing else. -/
theorem Task.step_of_arrived {crypto : Crypto} (hpc : t.pc = .arrived request)
    (h : t.step crypto s now i a = some (sec, t')) :
    a = .go ∧ t' = t.arrive crypto s request := by
  cases a with
  | go =>
      rw [Task.step_arrived hpc] at h
      exact ⟨rfl, (Prod.mk.inj (Option.some.inj h)).2.symm⟩
  | _ =>
      rw [Task.step, hpc] at h
      cases h

/-- **A step of its task**, by where it is. -/
theorem Task.step_carries {crypto : Crypto} (hplain : request.isConnect = false)
    (ht : t.Carries request) (h : t.step crypto s now i a = some (sec, t')) :
    t.Sends request t' a := by
  have hpoint := ht.point
  generalize hpc : t.pc = pc at hpoint
  have hquiet (hidle : ∀ x op todo, pc ≠ .serving x op todo) (hcarries : t'.Carries request)
      (hsent : t'.seen.sent = t.seen.sent) : t.Sends request t' a := by
    refine hcarries.quiet ?_ hsent
    unfold Task.rewrites
    rw [hpc]
    cases pc with
    | serving x op todo => exact absurd rfl (hidle _ _ _)
    | _ => rfl
  have hwas := h
  rw [Task.step, hpc] at h
  cases hpoint with
  | arrived hnone =>
      obtain ⟨rfl, rfl⟩ := Task.step_of_arrived hpc hwas
      exact hquiet (fun _ _ _ => Pc.noConfusion) (Task.carries_arrive crypto s ht hnone) rfl
  | admitted hnone =>
      cases a with
      | go =>
          cases h
          exact hquiet (fun _ _ _ => Pc.noConfusion) ⟨ht.origin, .none hnone, .classified hnone⟩ rfl
      | _ => cases h
  | classified hnone =>
      cases a with
      | go =>
          dsimp only [Task.handleStep] at h
          split at h
          · cases h
            have hstatus : 400 ≤ 403 := by omega
            exact hquiet (fun _ _ _ => Pc.noConfusion)
              ⟨ht.origin, .none hnone, .answered hnone hstatus⟩ rfl
          · cases h
            have hasked : Outbound request.unmarked t.seen
                (if request.unmarked.isConnect then .establishing else .forwarding) := by
              rw [show request.unmarked.isConnect = false from hplain]
              exact .asked hnone
            exact hquiet (fun _ _ _ => Pc.noConfusion)
              ⟨ht.origin, .none hnone, .serving rfl hasked⟩ rfl
      | _ => cases h
  | answered hnone hstatus =>
      cases a with
      | drop =>
          cases h
          exact hquiet (fun _ _ _ => Pc.noConfusion) ⟨ht.origin, ht.sentFor, .gone⟩ rfl
      | _ => cases h
  | serving hx houtbound => exact ((Task.step_cases hwas).goes hpc).carries ht hpc
  | gone => cases h

/-- Only its own steps and a decision that arrives move the task. -/
theorem Engine.Became.carries {s : Engine} {e : Event} (h : s.Became e sec i t t')
    (ht : t.Carries request) (he : ∀ a, e ≠ .task i a) :
    t'.Carries request ∧ t'.seen = t.seen := by
  cases h with
  | stays => exact ⟨ht, rfl⟩
  | moves => exact absurd rfl (he _)
  | polls => exact ⟨⟨ht.origin, ht.sentFor, ht.point⟩, rfl⟩
  | hands hpc =>
      have hpoint := ht.point
      rw [hpc] at hpoint
      cases hpoint with
      | serving _ houtbound =>
          cases houtbound with
          | handed hop => exact hop.elim
  | receives _ hreceive =>
      unfold Task.receive at hreceive
      split at hreceive
      next x upstream draft hpc =>
        cases hreceive
        have hpoint := ht.point
        rw [hpc] at hpoint
        cases hpoint with
        | serving hx houtbound =>
            have hpaused {sent} : (Op.paused upstream draft sent).handedTo localhost := trivial
            have hsome := houtbound.sent_of_handed hpaused
            exact ⟨⟨ht.origin, ht.sentFor, .serving hx (.handed hpaused hsome)⟩, rfl⟩
      next => cases hreceive

/-- **A step of the engine** keeps it, and is its hand-over if a request is sent. -/
theorem Engine.carries_step {crypto : Crypto} {s s' : Engine} {e : Event}
    (hplain : request.isConnect = false) (hi : s.tasks[i]? = some t) (ht : t.Carries request)
    (h : (engine crypto).step s e = some s') :
    ∃ t', s'.tasks[i]? = some t' ∧ t'.Carries request ∧
      (Engine.sends i s e).toNat + t.seen.sent.isSome.toNat = t'.seen.sent.isSome.toNat := by
  obtain ⟨⟨sec, p⟩, hmove, rfl⟩ := Option.map_eq_some_iff.mp h
  show ∃ t', (p.log s.shared sec).tasks[i]? = some t' ∧ _
  rw [Parties.log_tasks]
  by_cases hown : ∃ a, e = .task i a
  · obtain ⟨a, rfl⟩ := hown
    obtain ⟨u, t', hk, hstep, rfl⟩ := Engine.move_task hmove
    cases hi.symm.trans hk
    obtain ⟨hcarries, hsent⟩ := Task.step_carries hplain ht hstep
    refine ⟨t', List.getElem?_set_self (List.getElem?_eq_some_iff.mp hk).1, hcarries, ?_⟩
    rw [← hsent]
    unfold Engine.sends
    rw [hi]
    by_cases hgo : a = .go
    · rw [decide_eq_true hgo, decide_eq_true (congrArg (Event.task i) hgo)]
      rfl
    · have hne : ¬ Event.task i a = .task i .go := fun heq => hgo (Event.task.inj heq).2
      rw [decide_eq_false hgo, decide_eq_false hne, Bool.false_and, Bool.false_and]
  · have hother : ∀ a, e ≠ .task i a := fun a heq => hown ⟨a, heq⟩
    obtain ⟨t', ht', hbecame⟩ := (Engine.moved_of_move hmove).became hi
    obtain ⟨hcarries, hseen⟩ := hbecame.carries ht hother
    refine ⟨t', ht', hcarries, ?_⟩
    unfold Engine.sends
    rw [decide_eq_false (hother .go), Bool.false_and, hseen]
    exact Nat.zero_add _

/-- The same along a run: what is sent is sent in one step. -/
theorem Engine.carries_run {crypto : Crypto} {s s' : Engine} {es : List Event}
    (hplain : request.isConnect = false) (hi : s.tasks[i]? = some t) (ht : t.Carries request)
    (hsent : t.seen.sent = none) (hrun : (engine crypto).runFrom s es = some s') :
    ∃ t', s'.tasks[i]? = some t' ∧ t'.Carries request ∧
      (engine crypto).count (Engine.sends i) s es = t'.seen.sent.isSome.toNat := by
  let keeps (s : Engine) : Prop := ∃ t, s.tasks[i]? = some t ∧ t.Carries request
  let flag (s : Engine) : Bool := (s.tasks[i]?).any fun t => t.seen.sent.isSome
  have hflag {s : Engine} {t : Task} (ht : s.tasks[i]? = some t) : flag s = t.seen.sent.isSome := by
    show (s.tasks[i]?).any _ = _
    rw [ht]
    rfl
  have hstep : ∀ {s e s'}, keeps s → (engine crypto).step s e = some s' →
      keeps s' ∧ (Engine.sends i s e).toNat + (flag s).toNat = (flag s').toNat := by
    rintro s e s' ⟨t, hi, ht⟩ h
    obtain ⟨t', hi', ht', hcount⟩ := Engine.carries_step hplain hi ht h
    rw [hflag hi, hflag hi']
    exact ⟨⟨t', hi', ht'⟩, hcount⟩
  obtain ⟨t', hi', ht'⟩ := Machine.runFrom_invariant (fun hs h => (hstep hs h).1) ⟨t, hi, ht⟩ hrun
  refine ⟨t', hi', ht', ?_⟩
  have hcount := Machine.count_flag hstep ⟨t, hi, ht⟩ hrun
  rw [hflag hi, hflag hi', hsent] at hcount
  exact hcount

/-- Where nothing has been sent for the request, it is answered with an error. -/
theorem Task.Carries.replies (ht : t.Carries request) (hsent : t.seen.sent = none) {status : Nat}
    (h : t.Replies status) : 400 ≤ status := by
  have hpoint := ht.point
  have houtbound {x : Handling} {op : Op} {todo : List Errand} (hpc : t.pc = .serving x op todo) :
      Outbound request.unmarked t.seen op := by
    rw [hpc] at hpoint
    cases hpoint with
    | serving _ houtbound => exact houtbound
  have hunsent {authority : Authority} {x : Handling} {op : Op} {todo : List Errand}
      (hpc : t.pc = .serving x op todo) (hop : op.handedTo authority) : False := by
    have hsome := (houtbound hpc).sent_of_handed hop
    rw [hsent] at hsome
    cases hsome
  rcases h with ⟨x, response, todo, rfl, hpc | hpc⟩ | ⟨response, rfl, hpc⟩
  · cases houtbound hpc with
    | handed hop => exact hop.elim
    | refused hstatus => exact hstatus
  · have hreturned : (Op.returned response).handedTo localhost := trivial
    exact (hunsent hpc hreturned).elim
  · rw [hpc] at hpoint
    cases hpoint with
    | answered _ hstatus => exact hstatus

end Tasks

/-! ## The result -/

/-- **Plain requests are forwarded as they are.** From its arrival on, a client's request that is
no CONNECT has been answered with an error or not at all and nothing has been sent, or one request
has been sent: to the host it names, and without what concerns its way to the proxy. -/
theorem plain_requests_are_forwarded {crypto : Crypto} {s s' : Engine}
    (h : (engine crypto).Reachable s) {i : Nat} {t : Task} (hi : s.tasks[i]? = some t)
    {request : Request} (hpc : t.pc = .arrived request) (hplain : request.isConnect = false)
    {es : List Event} (hrun : (engine crypto).runFrom s es = some s') :
    ∃ u, s'.tasks[i]? = some u ∧
      ((u.seen.sent = none ∧ (engine crypto).count (Engine.sends i) s es = 0 ∧
          ∀ status, u.Replies status → 400 ≤ status) ∨
        ∃ authority sent, u.seen.sent = some sent ∧
          (engine crypto).count (Engine.sends i) s es = 1 ∧
          u.seen.dialed = some (trimBrackets authority.host) ∧
          request.ForwardedTo authority sent) := by
  have hmem := List.mem_of_getElem? hi
  have hnone : t.seen.sent = none := by
    have htold := Engine.told h t hmem
    rw [Task.Told, hpc] at htold
    cases htold with
    | arrived hnothing =>
        rw [hnothing]
        rfl
  have hcarries : t.Carries request := {
    origin := Engine.received h t hmem (by rw [Task.begun, hpc])
    sentFor := .none hnone
    point := by
      rw [hpc]
      exact .arrived hnone }
  obtain ⟨u, hu, hcarried, hcount⟩ := Engine.carries_run hplain hi hcarries hnone hrun
  refine ⟨u, hu, ?_⟩
  rw [hcount]
  cases hsent : u.seen.sent with
  | none => exact .inl ⟨rfl, rfl, fun status => hcarried.replies hsent⟩
  | some sent =>
      obtain ⟨authority, port, htarget, hdialed, rfl⟩ := hcarried.sentFor sent hsent
      exact .inr ⟨authority, _, rfl, rfl, hdialed, Request.forwardedTo htarget⟩

/-- A request with headers for the proxy, one of them nominated, and the mark of an old replay. -/
def proxiedRequest : Request where
  method := "GET".toList
  uri := ⟨some "http".toList, some localhost, "/a".toList, some "b=c".toList⟩
  headers := [("host".toList, "elsewhere".toList), ("connection".toList, "X-Hop".toList),
    ("x-hop".toList, "1".toList), ("proxy-authorization".toList, "Basic cDp0".toList),
    (internalReplayHeader, "old".toList), ("accept".toList, "text/html".toList)]
  bodyEnded := true

/-- It arrives on a connection. -/
def proxiedArrived : List Event :=
  starting .default ++ [.accept, .task 0 (.request proxiedRequest)]

/-- It is taken up and forwarded. -/
def proxiedForwarded : List Event := answers 0
  [.go, .go, .go, .go, .dialed (some [⟨.v4 [127, 0, 0, 1], 80⟩]) true true, .go]

theorem proxied_request_is_forwarded :
    ∃ s s' u sent, (engine .unused).run proxiedArrived = some s ∧
      (engine .unused).runFrom s proxiedForwarded = some s' ∧ s'.tasks[0]? = some u ∧
      u.seen.sent = some sent ∧
      (engine .unused).count (Engine.sends 0) s proxiedForwarded = 1 ∧
      proxiedRequest.ForwardedTo localhost sent ∧
      HeaderMap.getAll sent.headers "accept".toList = ["text/html".toList] ∧
      HeaderMap.getAll sent.headers "proxy-authorization".toList = [] := by
  have hrun : ∃ s s' t u sent, (engine .unused).run proxiedArrived = some s ∧
      (engine .unused).runFrom s proxiedForwarded = some s' ∧ s.tasks[0]? = some t ∧
      t.pc = .arrived proxiedRequest ∧ s'.tasks[0]? = some u ∧ u.seen.sent = some sent :=
    ⟨_, _, _, _, _, rfl, rfl, rfl, rfl, rfl, rfl⟩
  obtain ⟨s, s', t, u, sent, hrun, hrest, ht, hpc, hu, hsent⟩ := hrun
  have hplain : proxiedRequest.isConnect = false := by decide
  obtain ⟨u', hu', hforwarded⟩ := plain_requests_are_forwarded
    (Machine.reachable_of_run _ hrun) ht hpc hplain hrest
  cases hu.symm.trans hu'
  rcases hforwarded with ⟨hnone, -⟩ | ⟨authority, sent', hsent', hcount, -, hforwarded⟩
  · cases hsent.symm.trans hnone
  · cases hsent.symm.trans hsent'
    obtain rfl : localhost = authority := Option.some.inj hforwarded.named
    refine ⟨s, s', u, sent, hrun, hrest, hu, hsent, hcount, hforwarded, ?_, ?_⟩
    · rw [hforwarded.headers]
      decide
    · rw [hforwarded.headers]
      decide

end SippinSoda
