import SippinSoda.Engine.Machine
import SippinSoda.Engine.Sections
import SippinSoda.Lib.Owner

/-!
# What a step of the engine can do

One inversion for each kind of step: a move of an operation, a step of a task, an event of
the machine. Invariants are proved by cases on these.

* **Asked**, **Answered** — the moves before and after the upstream has answered;
* **Task.Moved** — the steps of a task;
* **Engine.Moved** — the events.
-/

namespace SippinSoda

/-! ## Moves of an operation -/

/-- The response an operation is about to return. -/
def Op.response? : Op → Option Response
  | .keeping response | .storing response | .taping _ response | .recording _ response
  | .checking _ response | .closing _ response _ | .emptying response
  | .returned response => some response
  | _ => none

/-- Has the upstream not answered, or is the operation one on a tunnel? -/
def Op.early : Op → Bool
  | .establishing | .preparing _ _ | .dialing _ _ _ | .upgrading _ _ | .securing _ _
  | .serving _ _ _ _ | .copying _ | .ended | .forwarding | .connecting _ _ | .intercepting _
  | .acquiring _ | .rewriting _ | .sending _ => true
  | _ => false

/-- May the exchange still be forwarded, by this operation or by the first request in its
tunnel? -/
def Op.hands : Op → Bool
  | .serving _ _ _ first => first
  | .ended => false
  | _ => true

/-- A change that tells nothing of how the response came about. -/
def Change.plain : Change → Bool
  | .ruled _ _ _ | .resumed _ | .replaced _ _ _ | .responded _ _ => false
  | _ => true

/-- A change of a field that the forwarder of the exchange writes alone. -/
def Change.own : Change → Bool
  | .finish _ _ | .requestBytes _ | .responseBytes _ | .requestBody _ | .requestUnavailable _
  | .requestBodyError _ | .responseBodyError _ => false
  | _ => true

/-- A change that ends neither a pause nor an exchange. -/
def Change.mild : Change → Bool
  | .resumed _ | .finish _ _ => false
  | _ => true

/-- An errand that tells nothing of the response and removes no body. -/
def Errand.plain : Errand → Bool
  | .change c => c.plain
  | .announce => true
  | .removeBody => false

def Errand.own : Errand → Bool
  | .change c => c.own
  | _ => false

/-- The acts that leave breakpoints, bodies and phases alone. -/
def Act.mild : Act → Bool
  | .nothing => true
  | .change c => c.mild
  | _ => false

/-- The acts before the upstream has answered. -/
def Act.quiet : Act → Bool
  | .nothing => true
  | .change c => c.plain && c.mild
  | _ => false

theorem Act.mild_of_quiet {act : Act} (h : act.quiet = true) : act.mild = true := by
  cases act with
  | change c => exact (Bool.and_eq_true _ _ ▸ h).2
  | nothing => rfl
  | _ => cases h

/-- The section of a mild act changes a capture at most. -/
theorem Act.section_of_mild {act : Act} (h : act.mild = true) (k id : Nat) :
    act.section k id = .nothing ∨ ∃ c, c.mild = true ∧ act.section k id = .update id c := by
  cases act with
  | nothing => exact .inl rfl
  | change c => exact .inr ⟨c, h, rfl⟩
  | pause status => cases h
  | resume => cases h
  | insert => cases h

theorem plain_finish (x : Exchange) (error : Option String) :
    ∀ errand ∈ x.finish error, errand.plain = true := by
  simp [Exchange.finish, Errand.plain, Change.plain]

theorem own_finish (x : Exchange) (error : Option String) :
    ∀ errand ∈ x.finish error, errand.own = false := by
  simp [Exchange.finish, Errand.own, Change.own]

/-- A move before the upstream has answered. -/
structure Asked (seen : Seen) (op : Op) (m : Move) : Prop where
  early : op.early = true
  next : m.op.early = true ∨ (∃ response, m.op = .refused response) ∨
    ∃ authority upstream, m.op = .answered authority upstream ∧ m.seen.upstream = some upstream
  hands : m.op.hands = true → op.hands = true
  act : m.act.quiet = true
  todo : ∀ errand ∈ m.todo, errand.plain = true
  decision : m.seen.decision = seen.decision
  replayed : m.seen.replayed = seen.replayed
  destination : m.seen.destination = seen.destination

/-- A refusal is a move that may come at any await of the operation. -/
theorem Handling.plain_refuse (x : Handling) (seen : Seen) (error : ForwardError) :
    ∀ errand ∈ (x.refuse seen error).todo, errand.plain = true := by
  simp [Handling.refuse, Exchange.finish, Errand.plain, Change.plain]

/-- A refusal, whatever has been noted in the history but the parts that matter later. -/
theorem asked_refuse {x : Handling} {seen seen' : Seen} {op : Op} {error : ForwardError}
    (hop : op.early = true) (hhands : op.hands = true) (hdecision : seen'.decision = seen.decision)
    (hreplayed : seen'.replayed = seen.replayed)
    (hdestination : seen'.destination = seen.destination) :
    Asked seen op (x.refuse seen' error) where
  early := hop
  next := .inr (.inl ⟨_, rfl⟩)
  hands _ := hhands
  act := rfl
  todo := x.plain_refuse seen' error
  decision := hdecision
  replayed := hreplayed
  destination := hdestination

/-- A move to another point before the upstream's answer. -/
theorem asked_early {seen seen' : Seen} {op op' : Op} {act : Act} {todo : List Errand}
    {body : Option BodyParty} (hop : op.early = true) (hop' : op'.early = true)
    (hhands : op'.hands = true → op.hands = true) (hact : act.quiet = true)
    (htodo : ∀ errand ∈ todo, errand.plain = true) (hdecision : seen'.decision = seen.decision)
    (hreplayed : seen'.replayed = seen.replayed)
    (hdestination : seen'.destination = seen.destination) :
    Asked seen op { op := op', act, todo, seen := seen', body } where
  early := hop
  next := .inl hop'
  hands := hhands
  act := hact
  todo := htodo
  decision := hdecision
  replayed := hreplayed
  destination := hdestination

/-- The errands of a move to another point, where there are few of them. -/
theorem plain_nil : ∀ errand ∈ ([] : List Errand), errand.plain = true := by simp

theorem own_nil : ∀ errand ∈ ([] : List Errand), errand.own = false := by simp

theorem asked_tunnel {proxy : SocketAddr} {tls : Option ProxyTlsInterception} {x : Handling}
    {seen : Seen} {op : Op} {a : Answer} {m : Move}
    (h : tunnelStep proxy tls x seen op a = some m) : Asked seen op m := by
  have hfinish := plain_finish x.toExchange
  unfold tunnelStep at h
  split at h
  -- establishing
  · split at h
    · cases h
      exact asked_refuse rfl rfl rfl rfl rfl
    · split at h <;> cases h
      · exact asked_early rfl rfl id rfl plain_nil rfl rfl rfl
      · exact asked_early rfl rfl id rfl plain_nil rfl rfl rfl
  -- preparing
  · split at h <;> cases h
    · exact asked_refuse rfl rfl rfl rfl rfl
    · exact asked_early rfl rfl id rfl plain_nil rfl rfl rfl
    · exact asked_early rfl rfl id rfl plain_nil rfl rfl rfl
  -- dialing
  · simp only at h
    split at h <;> cases h
    · exact asked_refuse rfl rfl rfl rfl rfl
    · refine asked_early rfl rfl id rfl ?_ rfl rfl rfl
      split <;> simp [Errand.plain, Change.plain]
  -- upgrading
  · split at h
    · cases h
      exact asked_early rfl rfl (fun h => nomatch h) rfl (hfinish _) rfl rfl rfl
    · split at h <;> cases h
      · exact asked_early rfl rfl id rfl plain_nil rfl rfl rfl
      · exact asked_early rfl rfl id rfl plain_nil rfl rfl rfl
  -- securing
  · split at h <;> cases h
    · exact asked_early rfl rfl id rfl plain_nil rfl rfl rfl
    · exact asked_early rfl rfl (fun h => nomatch h) rfl (hfinish _) rfl rfl rfl
  -- serving
  · cases h
    exact asked_early rfl rfl (fun h => nomatch h) rfl (hfinish _) rfl rfl rfl
  -- copying
  · split at h <;> cases h
    refine asked_early rfl rfl id rfl ?_ rfl rfl rfl
    split <;> simp [Errand.plain, Change.plain]
  · cases h
    exact asked_early rfl rfl (fun h => nomatch h) rfl (hfinish _) rfl rfl rfl
  · cases h

theorem asked_send {proxy : SocketAddr} {http2 : Bool} {s : State} {x : Handling}
    {seen : Seen} {op : Op} {a : Answer} {m : Move}
    (h : sendStep proxy http2 s x seen op a = some m) : Asked seen op m := by
  unfold sendStep at h
  split at h
  -- forwarding
  · split at h <;> cases h
    · exact asked_refuse rfl rfl rfl rfl rfl
    · exact asked_early rfl rfl id rfl plain_nil rfl rfl rfl
  -- connecting
  · simp only at h
    split at h
    · cases h
      exact asked_refuse rfl rfl rfl rfl rfl
    · split at h <;> cases h
      · exact asked_early rfl rfl id rfl plain_nil rfl rfl rfl
      · exact asked_refuse rfl rfl rfl rfl rfl
  -- intercepting
  · split at h <;> cases h
    · exact asked_refuse rfl rfl rfl rfl rfl
    · exact asked_early rfl rfl id rfl (by simp [Errand.plain]) rfl rfl rfl
  -- acquiring
  · cases h
    exact asked_early rfl rfl id rfl plain_nil rfl rfl rfl
  -- rewriting
  · cases h
    refine asked_early rfl rfl id rfl ?_ rfl rfl rfl
    split
    · simp [Errand.plain, Change.plain]
    · split
      · simp [Errand.plain, Change.plain]
      · split <;> simp [Errand.plain, Change.plain]
  -- sending
  · split at h <;> cases h
    · exact asked_refuse rfl rfl rfl rfl rfl
    · exact {
        early := rfl, next := .inr (.inr ⟨_, _, rfl, rfl⟩), hands := id, act := rfl
        todo := plain_nil, decision := rfl, replayed := rfl, destination := rfl }
  · cases h

/-- What the capture is told of the response made from a draft. -/
def Draft.told (http2 : Bool) (draft : Draft) : Change :=
  match draft.replacement with
  | some (body, _) =>
      .replaced draft.status (safeHeaders (draft.response http2).headers) body.length
  | none => .responded draft.status (safeHeaders draft.headers)

/-- A move after the upstream has answered. -/
inductive Answered (http2 : Bool) (s : State) (x : Handling) (seen : Seen) :
    Op → Answer → Move → Prop
  | looked (authority : Authority) (upstream : Upstream) :
      Answered http2 s x seen (.answered authority upstream) .go {
        op := .breaking upstream ((Draft.ofUpstream upstream).applyRule (s.findRule x authority))
        todo := match s.findRule x authority with
          | none => []
          | some rule => [.change (.ruled upstream.status rule.id rule.name)]
        seen := { seen with
          lookup := some ⟨(s.capture? x.id).isSome, s.responseRules, ruleHost authority⟩
          rule := s.findRule x authority } }
  | opened (upstream : Upstream) (draft : Draft) :
      s.breakOnResponses = true → s.canModify x.id = true →
      Answered http2 s x seen (.breaking upstream draft) .go
        { op := .paused upstream draft none, act := .pause draft.status, seen }
  | unopened (upstream : Upstream) (draft : Draft) :
      Answered http2 s x seen (.breaking upstream draft) .go { op := .shaping upstream draft, seen }
  | woken (upstream : Upstream) (draft : Draft) (received : Option BreakpointDecision) :
      Answered http2 s x seen (.paused upstream draft received) .wake {
        op := .shaping upstream (draft.decide received)
        act := .resume
        todo := [.change (.resumed received), .announce]
        seen := { seen with decision := received } }
  | shaped (upstream : Upstream) (draft : Draft) (op : Op) (c : Change) :
      op = .keeping (draft.response http2) ∨ op = .taping upstream (draft.response http2) →
      c.mild = true → c = draft.told http2 →
      Answered http2 s x seen (.shaping upstream draft) .go { op, act := .change c, seen }
  | stored (response : Response) :
      Answered http2 s x seen (.storing response) (.stored none)
        { op := .returned response, act := .insert, todo := x.finish none, seen }
  | recorded (upstream : Upstream) (response : Response) :
      Answered http2 s x seen (.recording upstream response) (.recorded none)
        { op := .checking upstream response, act := .insert, seen }
  | checked (upstream : Upstream) (response : Response) :
      Answered http2 s x seen (.checking upstream response) .go
        { op := .closing upstream response true, seen
          todo := if s.Retained x.id then [] else [.removeBody] }
  /-- Towards the return of the response, or transferring its body. -/
  | onward (op op' : Op) (a : Answer) (response : Response) (todo : List Errand) :
      op.response? = some response → op'.response? = some response →
      (∀ upstream, op ≠ .checking upstream response) →
      (∀ upstream, op' ≠ .checking upstream response) →
      (∀ errand ∈ todo, errand.plain = true) → (∀ errand ∈ todo, errand.own = false) →
      Answered http2 s x seen op a { op := op', todo, seen }

theorem answered_of_step {http2 : Bool} {s : State} {x : Handling} {seen : Seen} {op : Op}
    {a : Answer} {m : Move} (h : answerStep http2 s x seen op a = some m) :
    Answered http2 s x seen op a m := by
  have hfinish := plain_finish x.toExchange
  have hown := own_finish x.toExchange
  unfold answerStep at h
  split at h
  -- answered
  · cases h
    exact .looked ..
  -- breaking
  · split at h
    next hcond =>
      cases h
      rw [Bool.and_eq_true] at hcond
      exact .opened _ _ hcond.1 hcond.2
    next =>
      cases h
      exact .unopened ..
  -- paused
  · cases h
    exact .woken ..
  -- shaping
  · simp only at h
    split at h
    next hreplacement =>
      cases h
      exact .shaped _ _ _ _ (.inl rfl) rfl (by rw [Draft.told, hreplacement])
    next hreplacement =>
      cases h
      exact .shaped _ _ _ _ (.inr rfl) rfl (by rw [Draft.told, hreplacement])
  -- keeping
  · split at h <;> cases h
    · exact .onward _ _ _ _ _ rfl rfl (by simp) (by simp) plain_nil own_nil
    · exact .onward _ _ _ _ _ rfl rfl (by simp) (by simp) (hfinish _) (hown _)
  -- storing
  · split at h <;> cases h
    · exact .stored ..
    · exact .onward _ _ _ _ _ rfl rfl (by simp) (by simp)
        (by simpa [Errand.plain, Change.plain] using hfinish _)
        (by simpa [Errand.own, Change.own] using hown _)
  -- taping
  · split at h <;> cases h
    · exact .onward _ _ _ _ _ rfl rfl (by simp) (by simp) plain_nil own_nil
    · exact .onward _ _ _ _ _ rfl rfl (by simp) (by simp) plain_nil own_nil
  -- recording
  · split at h <;> cases h
    · exact .recorded ..
    · exact .onward _ _ _ _ _ rfl rfl (by simp) (by simp) (by simp [Errand.plain, Change.plain])
        (by simp [Errand.own, Change.own])
  -- checking
  · cases h
    exact .checked ..
  -- closing
  · split at h
    · cases h
      exact .onward _ _ _ _ _ rfl rfl (by simp) (by simp) plain_nil own_nil
    · split at h <;> cases h
      · exact .onward _ _ _ _ _ rfl rfl (by simp) (by simp) plain_nil own_nil
      · exact .onward _ _ _ _ _ rfl rfl (by simp) (by simp) (hfinish _) (hown _)
  -- emptying
  · cases h
    exact .onward _ _ _ _ _ rfl rfl (by simp) (by simp) (hfinish _) (hown _)
  -- returned
  · split at h
    · cases h
    · split at h <;> cases h
      · refine .onward _ _ _ _ _ rfl rfl (by simp) (by simp) ?_ ?_
        · split
          · simpa [Errand.plain, Change.plain] using hfinish _
          · simp [Errand.plain, Change.plain]
        · split
          · simpa [Errand.own, Change.own] using hown _
          · simp [Errand.own, Change.own]
      · exact .onward _ _ _ _ _ rfl rfl (by simp) (by simp) (hfinish _) (hown _)
      · exact .onward _ _ _ _ _ rfl rfl (by simp) (by simp) (hfinish _) (hown _)
  · cases h

/-- After the upstream's answer the exchange is the operation's own. -/
theorem Answered.hands {http2 : Bool} {s : State} {x : Handling} {seen : Seen} {op : Op}
    {a : Answer} {m : Move} (h : Answered http2 s x seen op a m) : op.hands = true := by
  cases h with
  | onward _ _ _ response _ hop =>
      cases op <;> first | rfl | cases hop
  | _ => rfl

theorem Op.hands_of_awaits {op : Op} (h : op.awaits = true) : op.hands = true := by
  cases op <;> first | rfl | cases h

/-- A move of an operation. -/
theorem Op.step_cases {proxy : SocketAddr} {tls : Option ProxyTlsInterception} {http2 : Bool}
    {s : State} {x : Handling} {seen : Seen} {op : Op} {a : Answer} {m : Move}
    (h : op.step proxy tls http2 s x seen a = some m) :
    Asked seen op m ∨ Answered http2 s x seen op a m := by
  unfold Op.step at h
  split at h
  next htunnel =>
    cases h
    exact .inl (asked_tunnel htunnel)
  next =>
    split at h
    next hsend =>
      cases h
      exact .inl (asked_send hsend)
    next => exact .inr (answered_of_step h)

/-! ## Steps of a task -/

/-- The response to a replay whose destination is not Development. -/
def replayForbidden : Response :=
  localResponse 403 "Replay is allowed only for Development destinations."

/-- The exchange a task begins, in state `s`. -/
def State.handling (s : State) (now : Nat) (request : Request) (clientProfileId : Option Str)
    (replay : Option ReplayAuthorization) (destination : DestinationClass)
    (classifier : DestinationClassifier) : Handling :=
  { id := s.nextId, started := now, request, destination, classifier
    host := request.uri.host, clientProfileId, replay }

/-- The steps of task `k`. -/
inductive Task.Moved (s : State) (now k : Nat) (t : Task) : Answer → Section → Task → Prop
  | errand {x op errand todo} : t.pc = .serving x op (errand :: todo) →
      Moved s now k t .go (errand.section x.id) { t with pc := .serving x op todo }
  /-- The task is dropped, at an await or when it is done. -/
  | drop : (∀ x op todo, t.pc = .serving x op todo → op.suspended = true ∧ todo = []) →
      Moved s now k t .drop .nothing { t with pc := .gone }
  | deadline {x op} : t.pc = .serving x op [] → op.awaits = true →
      Moved s now k t .deadline .nothing (t.after x (x.refuse t.seen t.origin.timeout))
  | asked {x op a m} : t.pc = .serving x op [] →
      op.step t.listening.address t.listening.tlsInterception t.origin.http2 s x t.seen a =
        some m → Asked t.seen op m →
      Moved s now k t a (m.act.section k x.id) (t.after x m)
  | answered {x op a m} : t.pc = .serving x op [] → Answered t.origin.http2 s x t.seen op a m →
      Moved s now k t a (m.act.section k x.id) (t.after x m)
  | arrive {request} : t.pc = .connected →
      Moved s now k t (.request request) .nothing { t with pc := .arrived request }
  | admits {request sec clientProfileId request'} (replay : Option ReplayAuthorization) : t.pc = .arrived request →
      (sec = .nothing ∨ ∃ token, sec = .removeToken token) →
      Moved s now k t .go sec { t with
        pc := .admitted request' clientProfileId replay
        seen := { t.seen with replayed := replay.isSome } }
  | unauthorized {request sec} : t.pc = .arrived request →
      (sec = .nothing ∨ ∃ token, sec = .removeToken token) →
      Moved s now k t .go sec { t with
        pc := .answered proxyAuthenticationRequired
        seen := { t.seen with replayed := false } }
  | classify {request clientProfileId replay} :
      t.pc = .admitted request clientProfileId replay →
      Moved s now k t .go .nothing { t with
        pc := .classified request clientProfileId replay
          (s.destinationClassifier.classify request.uri.host) s.destinationClassifier
        seen := { t.seen with
          destination := some (s.destinationClassifier.classify request.uri.host) } }
  | forbid {request clientProfileId replay destination classifier} :
      t.pc = .classified request clientProfileId replay destination classifier →
      replay.isSome = true → authorized destination .replay = false →
      Moved s now k t .go .nothing { t with pc := .answered replayForbidden }
  | begin {request clientProfileId replay destination classifier} :
      t.pc = .classified request clientProfileId replay destination classifier →
      (replay.isSome = true → authorized destination .replay = true) →
      Moved s now k t .go
        (.begin request destination clientProfileId (replay.map (·.originId)))
        { t with
          pc := .serving (s.handling now request clientProfileId replay destination classifier)
            (if request.isConnect then .establishing else .forwarding) [] }

theorem Task.step_cases {crypto : Crypto} {s : State} {now k : Nat} {t t' : Task} {a : Answer}
    {sec : Section} (h : t.step crypto s now k a = some (sec, t')) :
    t.Moved s now k a sec t' := by
  unfold Task.step at h
  split at h
  next x op errand todo hpc =>
    split at h <;> cases h
    next ha =>
      subst ha
      exact .errand hpc
  next x op hpc =>
    split at h
    next ha =>
      subst ha
      split at h <;> cases h
      next hop =>
        refine .drop fun y op' todo hpc' => ?_
        cases hpc.symm.trans hpc'
        exact ⟨hop, rfl⟩
    next =>
      split at h
      next ha =>
        subst ha
        split at h <;> cases h
        exact .deadline hpc ‹_›
      next =>
        obtain ⟨m, hm, heq⟩ := Option.map_eq_some_iff.mp h
        cases heq
        rcases Op.step_cases hm with hasked | hanswered
        · exact .asked hpc hm hasked
        · exact .answered hpc hanswered
  next hnil hcons =>
    unfold Task.handleStep at h
    split at h
    next hpc =>
      cases h
      exact .arrive hpc
    next request hpc =>
      simp only at h
      have hsec : ∀ sec : Section, sec = ((((request.headers.get internalReplayHeader).bind
          HeaderValue.toStr).map Section.removeToken).getD .nothing) →
          sec = .nothing ∨ ∃ token, sec = .removeToken token := by
        rintro sec rfl
        cases (request.headers.get internalReplayHeader).bind HeaderValue.toStr with
        | none => exact .inl rfl
        | some token => exact .inr ⟨token, rfl⟩
      split at h
      next replay hreplay =>
        cases h
        rw [hreplay]
        exact .admits _ hpc (hsec _ rfl)
      next hreplay _ =>
        rw [hreplay] at h
        split at h <;> cases h
        · exact .admits none hpc (hsec _ rfl)
        · exact .unauthorized hpc (hsec _ rfl)
      next hreplay _ =>
        cases h
        rw [hreplay]
        exact .admits none hpc (hsec _ rfl)
    next hpc =>
      cases h
      exact .classify hpc
    next request clientProfileId replay destination classifier hpc =>
      split at h
      next hcond =>
        cases h
        rw [Bool.and_eq_true, Bool.not_eq_true'] at hcond
        exact .forbid hpc hcond.1 hcond.2
      next hcond =>
        cases h
        refine .begin hpc fun hreplay => ?_
        simpa [hreplay] using hcond
    next hpc =>
      cases h
      exact .drop fun x op todo hpc' => nomatch hpc.symm.trans hpc'
    next hpc =>
      cases h
      exact .drop fun x op todo hpc' => nomatch hpc.symm.trans hpc'
    next => cases h

/-- The steps of a task that serves exchange `x`. -/
inductive Task.Goes (s : State) (k : Nat) (t : Task) (x : Handling) (op : Op) :
    List Errand → Answer → Section → Task → Prop
  | errand {errand todo} :
      Goes s k t x op (errand :: todo) .go (errand.section x.id) { t with pc := .serving x op todo }
  | drop : op.suspended = true → Goes s k t x op [] .drop .nothing { t with pc := .gone }
  | deadline : op.awaits = true →
      Goes s k t x op [] .deadline .nothing (t.after x (x.refuse t.seen t.origin.timeout))
  | asked {a m} :
      op.step t.listening.address t.listening.tlsInterception t.origin.http2 s x t.seen a =
        some m → Asked t.seen op m →
      Goes s k t x op [] a (m.act.section k x.id) (t.after x m)
  | answered {a m} : Answered t.origin.http2 s x t.seen op a m →
      Goes s k t x op [] a (m.act.section k x.id) (t.after x m)

theorem Task.Moved.goes {s : State} {now k : Nat} {t t' : Task} {a : Answer} {sec : Section}
    (h : t.Moved s now k a sec t') {x : Handling} {op : Op} {todo : List Errand}
    (hpc : t.pc = .serving x op todo) : Goes s k t x op todo a sec t' := by
  cases h with
  | errand hpc' =>
      cases hpc.symm.trans hpc'
      exact .errand
  | drop hpc' =>
      obtain ⟨hop, rfl⟩ := hpc' _ _ _ hpc
      exact .drop hop
  | deadline hpc' hop =>
      cases hpc.symm.trans hpc'
      exact .deadline hop
  | asked hpc' hstep hasked =>
      cases hpc.symm.trans hpc'
      exact .asked hstep hasked
  | answered hpc' hanswered =>
      cases hpc.symm.trans hpc'
      exact .answered hanswered
  | arrive hpc' => cases hpc.symm.trans hpc'
  | admits _ hpc' => cases hpc.symm.trans hpc'
  | unauthorized hpc' => cases hpc.symm.trans hpc'
  | classify hpc' => cases hpc.symm.trans hpc'
  | forbid hpc' => cases hpc.symm.trans hpc'
  | begin hpc' => cases hpc.symm.trans hpc'

/-- A task that has gone does not move, but may be dropped again. -/
theorem Task.Moved.gone {s : State} {now k : Nat} {t t' : Task} {a : Answer} {sec : Section}
    (h : t.Moved s now k a sec t') (hpc : t.pc = .gone) : t'.pc = .gone := by
  cases h with
  | drop => rfl
  | errand hpc' => cases hpc.symm.trans hpc'
  | deadline hpc' => cases hpc.symm.trans hpc'
  | asked hpc' => cases hpc.symm.trans hpc'
  | answered hpc' => cases hpc.symm.trans hpc'
  | arrive hpc' => cases hpc.symm.trans hpc'
  | admits _ hpc' => cases hpc.symm.trans hpc'
  | unauthorized hpc' => cases hpc.symm.trans hpc'
  | classify hpc' => cases hpc.symm.trans hpc'
  | forbid hpc' => cases hpc.symm.trans hpc'
  | begin hpc' => cases hpc.symm.trans hpc'

/-! ## Events -/

/-- What `start`, `stop` and the listener leave to the other parties, and their sections. -/
structure Parties.Outlives (s p : Parties) (sec : Section) : Prop where
  tasks : p.tasks = s.tasks ∨ ∃ listening, s.listener = .accepting listening ∧ sec = .nothing ∧
    p.tasks = s.tasks ++ [⟨listening, .client, .connected, .nothing, none⟩]
  stores : p.stores = s.stores
  resolvers : p.resolvers = s.resolvers
  replays : p.replays = s.replays
  exchanges : p.exchanges = s.exchanges
  clock : p.clock = s.clock
  sec : sec = .nothing ∨ (∃ settings address, sec = .start settings address) ∨
    sec = .stopped ∨ sec = .reject

theorem Engine.outlives_lifecycle {s : Engine} {e : Event} {sec : Section} {p : Parties}
    (h : s.lifecycle e = some (sec, p)) : s.toParties.Outlives p sec := by
  have quiet {p : Parties} (htasks : p.tasks = s.tasks) (hstores : p.stores = s.stores)
      (hresolvers : p.resolvers = s.resolvers) (hreplays : p.replays = s.replays)
      (hexchanges : p.exchanges = s.exchanges) (hclock : p.clock = s.clock) :
      s.toParties.Outlives p .nothing :=
    ⟨.inl htasks, hstores, hresolvers, hreplays, hexchanges, hclock, .inl rfl⟩
  unfold Engine.lifecycle at h
  split at h
  -- start
  · split at h
    · cases h
    · split at h
      · cases h
        exact quiet rfl rfl rfl rfl rfl rfl
      · split at h <;> cases h <;> exact quiet rfl rfl rfl rfl rfl rfl
  -- bind
  · split at h
    · split at h <;> cases h <;> exact quiet rfl rfl rfl rfl rfl rfl
    · cases h
  -- starting
  · split at h <;> cases h
    · exact ⟨.inl rfl, rfl, rfl, rfl, rfl, rfl, .inr (.inl ⟨_, _, rfl⟩)⟩
    · exact quiet rfl rfl rfl rfl rfl rfl
  -- stop
  · split at h
    · cases h
    · split at h <;> cases h <;> exact quiet rfl rfl rfl rfl rfl rfl
  -- shutdown
  · split at h <;> cases h
    exact quiet rfl rfl rfl rfl rfl rfl
  -- joined
  · split at h <;> cases h
    exact quiet rfl rfl rfl rfl rfl rfl
  -- accept
  · split at h
    · split at h <;> cases h
      · exact ⟨.inl rfl, rfl, rfl, rfl, rfl, rfl, .inr (.inr (.inr rfl))⟩
      · exact ⟨.inr ⟨_, ‹_›, rfl, rfl⟩, rfl, rfl, rfl, rfl, rfl, .inl rfl⟩
    · cases h
  -- acceptError
  · split at h <;> cases h
    exact quiet rfl rfl rfl rfl rfl rfl
  -- drained
  · split at h <;> cases h
    exact ⟨.inl rfl, rfl, rfl, rfl, rfl, rfl, .inr (.inr (.inl rfl))⟩
  · cases h

/-- The events of the machine, with the parties after them. -/
inductive Engine.Moved (s : Engine) : Event → Section → Parties → Prop
  | lifecycle {e sec p} : s.lifecycle e = some (sec, p) → Moved s e sec p
  | task {k a t sec t'} : s.tasks[k]? = some t → s.allows k t a = true →
      t.Moved s.shared s.clock k a sec t' →
      Moved s (.task k a) sec { s.toParties with tasks := s.tasks.set k t' }
  | body {k a t party move} : s.tasks[k]? = some t → t.body = some party →
      party.step a = some move → t.unsent = false →
      Moved s (.body k a) move.sec { s.toParties with
        tasks := s.tasks.set k { t with body := move.party }
        stores := s.stores ++ move.store.toList }
  /-- The first request in a tunnel takes over the exchange of the CONNECT. -/
  | innerFirst {k request t x authority route http2} : s.tasks[k]? = some t →
      t.pc = .serving x (.serving authority route http2 true) [] →
      Moved s (.inner k request) .nothing { s.toParties with
        tasks := s.tasks.set k { t with pc := .serving x (.serving authority route http2 false) [] } ++
          [t.inner k authority http2 { x with request, replay := none }] }
  | innerNext {k request t x authority route http2} : s.tasks[k]? = some t →
      t.pc = .serving x (.serving authority route http2 false) [] →
      Moved s (.inner k request) (.begin request x.destination x.clientProfileId none)
        { s.toParties with
          tasks := s.tasks.set k t ++
            [t.inner k authority http2 { x with
              id := s.shared.nextId, started := s.clock, request, replay := none }] }
  | store {k error store sec store'} : s.stores[k]? = some store →
      store.step s.shared error = some (sec, store') →
      Moved s (.store k error) sec { s.toParties with stores := s.stores.set k store' }
  | dropExchange {k x} : s.exchanges[k]? = some x → s.holds x.id = false →
      Moved s (.dropExchange k) .nothing { s.toParties with
        exchanges := s.exchanges.set k { x with
          dropped := true
          todo := x.toExchange.finish (some "Transfer interrupted, cancelled or timed out.") } }
  | exchange {k x errand todo} : s.exchanges[k]? = some x → x.todo = errand :: todo →
      Moved s (.exchange k) (errand.section x.id) { s.toParties with
        exchanges := s.exchanges.set k { x with todo := todo } }
  | unresolved {id status body contentType message} :
      Moved s (.resolve id status body contentType) .nothing
        { s.toParties with resolvers := s.resolvers ++ [.returned id (.error message)] }
  /-- A decision is accepted: the sender leaves the map. -/
  | resolve {id task status body contentType decision} : (id, task) ∈ s.shared.breakpoints →
      BreakpointDecision.compile status body contentType = .ok decision →
      Moved s (.resolve id status body contentType) (.removeBreakpoint id)
        { s.toParties with resolvers := s.resolvers ++ [.sending id task decision] }
  /-- A decision arrives at a paused task. -/
  | receive {k id task t t' decision} : s.resolvers[k]? = some (.sending id task decision) →
      s.tasks[task]? = some t → t.receive decision = some t' →
      Moved s (.send k) .nothing { s.toParties with
        tasks := s.tasks.set task t'
        resolvers := s.resolvers.set k (.returned id (.ok decision)) }
  /-- A decision is sent to a task that does not look at its receiver again. -/
  | late {k id task t t' decision} : s.resolvers[k]? = some (.sending id task decision) →
      s.tasks[task]? = some t → t.receive decision = some t' →
      Moved s (.sendLate k) .nothing { s.toParties with
        resolvers := s.resolvers.set k (.returned id (.ok decision)) }
  | closed {k id task decision} : s.resolvers[k]? = some (.sending id task decision) →
      Moved s (.send k) .nothing { s.toParties with
        resolvers := s.resolvers.set k (.returned id (.error "Response breakpoint closed.")) }
  | refusesReplay {id token message} : s.shared.authorizeReplay id = .error message →
      Moved s (.replay id token) .nothing
        { s.toParties with replays := s.replays ++ [.returned (.error message)] }
  | authorizesReplay {id token authorization template} :
      s.shared.authorizeReplay id = .ok (authorization, template) →
      Moved s (.replay id token) .nothing
        { s.toParties with replays := s.replays ++ [.authorized authorization template token] }
  | issuesToken {k result authorization template token} :
      s.replays[k]? = some (.authorized authorization template token) →
      Moved s (.replaying k result) (.issueToken token authorization)
        { s.toParties with replays := s.replays.set k (.waiting authorization template token) }
  | returnsToken {k result authorization template token} :
      s.replays[k]? = some (.waiting authorization template token) →
      Moved s (.replaying k result) (.removeToken token)
        { s.toParties with replays := s.replays.set k (.returned result) }
  | clear : Moved s .clear .clear s.toParties
  | tick {time} : Moved s (.tick time) .nothing { s.toParties with clock := s.clock + time }

theorem Engine.moved_innerStep {s : Engine} {k : Nat} {request : Request} {sec : Section}
    {p : Parties} (h : s.innerStep k request = some (sec, p)) :
    s.Moved (.inner k request) sec p := by
  obtain ⟨t, ht, h⟩ := Option.bind_eq_some_iff.mp h
  split at h
  next x authority route http2 first hpc =>
    split at h
    · cases h
    · cases first with
      | true =>
          cases h
          exact .innerFirst ht hpc
      | false =>
          cases h
          have hself : { t with pc := .serving x (.serving authority route http2 false) [] } = t := by
            rw [← hpc]
          rw [hself]
          exact .innerNext ht hpc
  next => cases h

theorem Engine.moved_taskStep {crypto : Crypto} {s : Engine} {e : Event} {sec : Section}
    {p : Parties} (h : s.taskStep crypto e = some (sec, p)) : s.Moved e sec p := by
  unfold Engine.taskStep at h
  split at h
  next k a =>
    obtain ⟨t, ht, h⟩ := Option.bind_eq_some_iff.mp h
    split at h
    · cases h
    next hallows =>
      obtain ⟨⟨sec', t'⟩, hstep, h⟩ := Option.bind_eq_some_iff.mp h
      cases h
      exact .task ht (by simpa using hallows) (Task.step_cases hstep)
  next k a =>
    obtain ⟨t, ht, h⟩ := Option.bind_eq_some_iff.mp h
    split at h
    · cases h
    next hsent =>
      obtain ⟨party, hparty, h⟩ := Option.bind_eq_some_iff.mp h
      obtain ⟨move, hmove, h⟩ := Option.bind_eq_some_iff.mp h
      cases h
      exact .body ht hparty hmove (by simpa using hsent)
  next k request => exact moved_innerStep h
  next k error =>
    obtain ⟨store, hstore, h⟩ := Option.bind_eq_some_iff.mp h
    obtain ⟨⟨sec', store'⟩, hstep, h⟩ := Option.bind_eq_some_iff.mp h
    cases h
    exact .store hstore hstep
  next k =>
    obtain ⟨x, hx, h⟩ := Option.bind_eq_some_iff.mp h
    split at h
    · cases h
    next hheld =>
      cases h
      exact .dropExchange hx (by simp_all)
  next k =>
    obtain ⟨x, hx, h⟩ := Option.bind_eq_some_iff.mp h
    split at h
    · cases h
    next htodo =>
      cases h
      exact .exchange hx htodo
  next => cases h

theorem Engine.moved_callStep {s : Engine} {e : Event} {sec : Section} {p : Parties}
    (h : s.callStep e = some (sec, p)) : s.Moved e sec p := by
  unfold Engine.callStep at h
  split at h
  next id status body contentType =>
    simp only at h
    split at h
    · cases h
      exact .unresolved
    · split at h
      · cases h
        exact .unresolved
      next id' task hfind =>
        cases h
        have hid : id' = id := by simpa using List.find?_some hfind
        exact .resolve (hid ▸ List.mem_of_find?_eq_some hfind) ‹_›
  next =>
    obtain ⟨resolver, hresolver, h⟩ := Option.bind_eq_some_iff.mp h
    split at h
    next =>
      obtain ⟨t, ht, h⟩ := Option.bind_eq_some_iff.mp h
      split at h <;> cases h
      · exact .receive hresolver ht ‹_›
      · exact .closed hresolver
    next => cases h
  next =>
    obtain ⟨resolver, hresolver, h⟩ := Option.bind_eq_some_iff.mp h
    split at h
    next =>
      obtain ⟨t, ht, h⟩ := Option.bind_eq_some_iff.mp h
      obtain ⟨t', hreceive, h⟩ := Option.bind_eq_some_iff.mp h
      cases h
      exact .late hresolver ht hreceive
    next => cases h
  next =>
    split at h <;> cases h
    · exact .refusesReplay ‹_›
    · exact .authorizesReplay ‹_›
  next =>
    obtain ⟨call, hcall, h⟩ := Option.bind_eq_some_iff.mp h
    split at h <;> cases h
    · exact .issuesToken hcall
    · exact .returnsToken hcall
  next =>
    cases h
    exact .clear
  next =>
    cases h
    exact .tick
  next => cases h

theorem Engine.moved_of_move {crypto : Crypto} {s : Engine} {e : Event} {sec : Section}
    {p : Parties} (h : s.move crypto e = some (sec, p)) : s.Moved e sec p := by
  unfold Engine.move at h
  split at h
  next hstep =>
    cases h
    exact .lifecycle hstep
  next =>
    split at h
    next hstep =>
      cases h
      exact moved_taskStep hstep
    next => exact moved_callStep h

/-- A step of the engine: an event's section applied to the shared state, its parties with
the exchange logged that it begins. -/
theorem Engine.step_cases {crypto : Crypto} {s s' : Engine} {e : Event}
    (h : s.step crypto e = some s') :
    ∃ sec p, s.Moved e sec p ∧ s'.shared = s.shared.apply s.clock sec ∧
      s'.toParties = p.log s.shared sec := by
  obtain ⟨⟨sec, p⟩, hmove, rfl⟩ := Option.map_eq_some_iff.mp h
  exact ⟨sec, p, moved_of_move hmove, rfl, rfl⟩

/-- The section an event makes. -/
def Engine.section (crypto : Crypto) (s : Engine) (e : Event) : Section :=
  ((s.move crypto e).map Prod.fst).getD .nothing

theorem Engine.section_of_move {crypto : Crypto} {s : Engine} {e : Event} {sec : Section}
    {p : Parties} (h : s.move crypto e = some (sec, p)) : s.section crypto e = sec := by
  rw [Engine.section, h]
  rfl

/-- The same with the section by name. -/
theorem Engine.step_section {crypto : Crypto} {s s' : Engine} {e : Event}
    (h : s.step crypto e = some s') :
    ∃ p, s.Moved e (s.section crypto e) p ∧
      s'.shared = s.shared.apply s.clock (s.section crypto e) ∧
      s'.toParties = p.log s.shared (s.section crypto e) := by
  obtain ⟨⟨sec, p⟩, hmove, rfl⟩ := Option.map_eq_some_iff.mp h
  rw [section_of_move hmove]
  exact ⟨p, moved_of_move hmove, rfl, rfl⟩

/-! ## What becomes of a task -/

/-- What an event makes of task `i`. -/
inductive Engine.Became (s : Engine) : Event → Section → Nat → Task → Task → Prop
  | stays {e sec i t} : Became s e sec i t t
  | moves {i a sec t t'} : s.allows i t a = true → t.Moved s.shared s.clock i a sec t' →
      Became s (.task i a) sec i t t'
  | polls {i a t party move} : t.body = some party → party.step a = some move →
      t.unsent = false →
      Became s (.body i a) move.sec i t { t with body := move.party }
  | hands {i request t x authority route http2} :
      t.pc = .serving x (.serving authority route http2 true) [] →
      Became s (.inner i request) .nothing i t
        { t with pc := .serving x (.serving authority route http2 false) [] }
  | receives {k id i t t' decision} : s.resolvers[k]? = some (.sending id i decision) →
      t.receive decision = some t' → Became s (.send k) .nothing i t t'

/-- The tasks an event adds. -/
inductive Engine.Arrives (s : Engine) : Event → Section → Task → Prop
  | connection {e listening} : s.listener = .accepting listening →
      Arrives s e .nothing ⟨listening, .client, .connected, .nothing, none⟩
  | innerFirst {k request t x authority route http2} : s.tasks[k]? = some t →
      t.pc = .serving x (.serving authority route http2 true) [] →
      Arrives s (.inner k request) .nothing
        (t.inner k authority http2 { x with request, replay := none })
  | innerNext {k request t x authority route http2} : s.tasks[k]? = some t →
      t.pc = .serving x (.serving authority route http2 false) [] →
      Arrives s (.inner k request) (.begin request x.destination x.clientProfileId none)
        (t.inner k authority http2 { x with
          id := s.shared.nextId, started := s.clock, request, replay := none })

/-- A task after an event: it was there, or has arrived with it. -/
theorem Engine.Moved.came {s : Engine} {e : Event} {sec : Section} {p : Parties}
    (h : s.Moved e sec p) {i : Nat} {t' : Task} (ht' : p.tasks[i]? = some t') :
    (∃ t, s.tasks[i]? = some t ∧ s.Became e sec i t t') ∨
      (i = s.tasks.length ∧ s.Arrives e sec t') := by
  have set {k : Nat} {t u : Task} (hk : s.tasks[k]? = some t) (hbecame : s.Became e sec k t u)
      (hi : (s.tasks.set k u)[i]? = some t') : ∃ t, s.tasks[i]? = some t ∧ s.Became e sec i t t' := by
    rcases SingleOwner.getElem?_set_cases hi with ⟨rfl, rfl⟩ | ⟨-, hi⟩
    · exact ⟨t, hk, hbecame⟩
    · exact ⟨t', hi, .stays⟩
  cases h with
  | lifecycle hlife =>
      rcases (outlives_lifecycle hlife).tasks with heq | ⟨listening, hlistener, rfl, heq⟩
      · exact .inl ⟨t', heq ▸ ht', .stays⟩
      · rw [heq] at ht'
        rcases SingleOwner.getElem?_append_cases ht' with ⟨rfl, rfl⟩ | ht'
        · exact .inr ⟨rfl, .connection hlistener⟩
        · exact .inl ⟨t', ht', .stays⟩
  | task hk hallows hmoved => exact .inl (set hk (.moves hallows hmoved) ht')
  | body hk hbody hstep hsent => exact .inl (set hk (.polls hbody hstep hsent) ht')
  | innerFirst hk hpc =>
      rcases SingleOwner.getElem?_append_cases ht' with ⟨rfl, rfl⟩ | ht'
      · exact .inr ⟨List.length_set .., .innerFirst hk hpc⟩
      · exact .inl (set hk (.hands hpc) ht')
  | innerNext hk hpc =>
      rcases SingleOwner.getElem?_append_cases ht' with ⟨rfl, rfl⟩ | ht'
      · exact .inr ⟨List.length_set .., .innerNext hk hpc⟩
      · exact .inl (set hk .stays ht')
  | receive hj hk hreceive => exact .inl (set hk (.receives hj hreceive) ht')
  | _ => exact .inl ⟨t', ht', .stays⟩

/-- A task before an event, and what becomes of it. -/
theorem Engine.Moved.became {s : Engine} {e : Event} {sec : Section} {p : Parties}
    (h : s.Moved e sec p) {i : Nat} {t : Task} (ht : s.tasks[i]? = some t) :
    ∃ t', p.tasks[i]? = some t' ∧ s.Became e sec i t t' := by
  have hlength : s.tasks.length ≤ p.tasks.length := by
    cases h with
    | lifecycle hlife =>
        rcases (outlives_lifecycle hlife).tasks with heq | ⟨listening, -, -, heq⟩ <;> simp [heq]
    | _ => simp
  have hlt : i < s.tasks.length := (List.getElem?_eq_some_iff.mp ht).1
  refine ⟨_, List.getElem?_eq_getElem (Nat.lt_of_lt_of_le hlt hlength), ?_⟩
  rcases h.came (List.getElem?_eq_getElem (Nat.lt_of_lt_of_le hlt hlength)) with
    ⟨u, hu, hbecame⟩ | ⟨heq, -⟩
  · exact Option.some.inj (hu.symm.trans ht) ▸ hbecame
  · omega

/-- A task stays with the connection or the tunnel it came from. -/
theorem Engine.Became.origin {s : Engine} {e : Event} {sec : Section} {i : Nat} {t t' : Task}
    (h : s.Became e sec i t t') : t'.origin = t.origin := by
  cases h with
  | moves hallows hmoved => cases hmoved <;> rfl
  | receives hresolver hreceive =>
      rw [Task.receive] at hreceive
      split at hreceive <;> cases hreceive
      rfl
  | _ => rfl

/-- A task keeps what it was handed. -/
theorem Engine.Became.listening {s : Engine} {e : Event} {sec : Section} {i : Nat} {t t' : Task}
    (h : s.Became e sec i t t') : t'.listening = t.listening := by
  cases h with
  | moves hallows hmoved => cases hmoved <;> rfl
  | receives hresolver hreceive =>
      rw [Task.receive] at hreceive
      split at hreceive <;> cases hreceive
      rfl
  | _ => rfl

/-- A task that is over stays over. -/
theorem Engine.Became.gone {s : Engine} {e : Event} {sec : Section} {i : Nat} {t t' : Task}
    (h : s.Became e sec i t t') (hpc : t.pc = .gone) : t'.pc = .gone := by
  cases h with
  | stays => exact hpc
  | moves hallows hmoved => exact hmoved.gone hpc
  | polls hbody hstep => exact hpc
  | hands hserving => cases hpc.symm.trans hserving
  | receives hresolver hreceive =>
      rw [Task.receive, hpc] at hreceive
      cases hreceive

theorem Task.over_iff {t : Task} : t.over = true ↔ t.pc = .gone := by
  unfold Task.over
  constructor
  · intro h
    split at h
    · assumption
    · cases h
  · intro h
    rw [h]

/-! ## Who inserts and who pauses -/

/-- The sections that insert no body and open no breakpoint. -/
def Section.tame : Section → Bool
  | .insertRequest _ | .insertResponse _ | .openBreakpoint _ _ _ => false
  | _ => true

theorem Errand.section_tame (id : Nat) (errand : Errand) : (errand.section id).tame = true := by
  cases errand <;> rfl

/-- Bodies are inserted and breakpoints opened by tasks and store tasks alone. -/
theorem Engine.Moved.tame {s : Engine} {e : Event} {sec : Section} {p : Parties}
    (h : s.Moved e sec p) :
    sec.tame = true ∨
      (∃ k a t t', e = .task k a ∧ s.tasks[k]? = some t ∧ p.tasks[k]? = some t' ∧
        t.Moved s.shared s.clock k a sec t') ∨
      ∃ k error t t', e = .store k error ∧ s.stores[k]? = some t ∧ t' ∈ p.stores ∧
        t.step s.shared error = some (sec, t') := by
  cases h with
  | lifecycle hlife =>
      refine .inl ?_
      rcases (outlives_lifecycle hlife).sec with rfl | ⟨settings, address, rfl⟩ | rfl | rfl <;> rfl
  | task hk hallows hmoved =>
      have hlt := (List.getElem?_eq_some_iff.mp hk).1
      exact .inr (.inl ⟨_, _, _, _, rfl, hk, by simp [hlt], hmoved⟩)
  | body hk hbody hstep =>
      refine .inl ?_
      unfold BodyParty.step at hstep
      split at hstep <;> cases hstep
      · exact Errand.section_tame ..
      all_goals rfl
  | store hk hstep =>
      have hlt := (List.getElem?_eq_some_iff.mp hk).1
      exact .inr (.inr ⟨_, _, _, _, rfl, hk, List.mem_set hlt _, hstep⟩)
  | exchange hx htodo => exact .inl (Errand.section_tame ..)
  | _ => exact .inl rfl

theorem StoreTask.step_insertRequest {s : State} {t t' : StoreTask} {error : Option String}
    {sec : Section} (h : t.step s error = some (sec, t')) :
    sec.tame = true ∨ sec = .insertRequest t.exchange.id := by
  unfold StoreTask.step at h
  simp only at h
  split at h <;> cases h
  · split
    · exact .inr rfl
    · exact .inl rfl
  all_goals exact .inl rfl

/-- A task inserts no request body. -/
theorem Task.Moved.tame {s : State} {now k : Nat} {t t' : Task} {a : Answer} {sec : Section}
    (h : t.Moved s now k a sec t') :
    sec.tame = true ∨
      ∃ x op, t.pc = .serving x op [] ∧
        ((∃ upstream draft status, op = .breaking upstream draft ∧ a = .go ∧
            s.breakOnResponses = true ∧ s.canModify x.id = true ∧
            sec = .openBreakpoint x.id k status ∧
            t'.pc = .serving x (.paused upstream draft none) []) ∨
          (∃ upstream response, op = .recording upstream response ∧
            sec = .insertResponse x.id ∧ t'.pc = .serving x (.checking upstream response) []) ∨
          ∃ response, op = .storing response ∧ a = .stored none ∧ sec = .insertResponse x.id) := by
  cases h with
  | errand hpc => exact .inl (Errand.section_tame ..)
  | asked hpc hstep hasked =>
      rcases Act.section_of_mild (Act.mild_of_quiet hasked.act) k _ with heq | ⟨c, -, heq⟩ <;> exact .inl (heq ▸ rfl)
  | answered hpc hanswered =>
      cases hanswered with
      | opened upstream draft hbreak hmodify =>
          exact .inr ⟨_, _, hpc, .inl ⟨_, _, _, rfl, rfl, hbreak, hmodify, rfl, rfl⟩⟩
      | recorded => exact .inr ⟨_, _, hpc, .inr (.inl ⟨_, _, rfl, rfl, rfl⟩)⟩
      | stored => exact .inr ⟨_, _, hpc, .inr (.inr ⟨_, rfl, rfl, rfl⟩)⟩
      | _ => exact .inl rfl
  | admits _ hpc hsec =>
      rcases hsec with rfl | ⟨token, rfl⟩ <;> exact .inl rfl
  | unauthorized hpc hsec =>
      rcases hsec with rfl | ⟨token, rfl⟩ <;> exact .inl rfl
  | _ => exact .inl rfl

end SippinSoda
