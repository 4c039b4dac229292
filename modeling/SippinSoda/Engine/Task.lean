import SippinSoda.Engine.State
import SippinSoda.RequestBody

/-!
# One request and its task

A connection's task runs `handle` and, after a CONNECT, `Tunnel::run`; a request inside a
tunnel has a task of its own. A task moves in steps: what it computes, up to the end of the
next critical section it enters. Straight-line code that only writes (an `update`, the
increment of `revision` in `finish`) is queued as errands, and a task with errands left is
not at an await.

* **Op** — where the operation on an exchange stands, the awaits among its points;
* **Op.step** — one step of it, given what its environment answers;
* **Task.step** — the same for the task, which may be dropped at an await;
* **BodyParty** — the request body while it is sent, polled by the upstream connection;
* **StoreTask** — the detached task that stores a redacted request body.
-/

namespace SippinSoda

/-! ## Exchanges -/

/-- `Exchange`: the id and the time it began. -/
structure Exchange where
  id : Nat
  started : Nat
  deriving DecidableEq, Repr

/-- A write queued by the code of one exchange. -/
inductive Errand where
  | change (change : Change)
  /-- `revision += 1`. -/
  | announce
  /-- `remove(exchange.id)` in the store the code works on. -/
  | removeBody
  deriving DecidableEq, Repr

/-- The section of an errand of a forwarding task. -/
def Errand.section (id : Nat) : Errand → Section
  | .change c => .update id c
  | .announce => .announce
  | .removeBody => .removeResponse id

/-- `Exchange::finish`: two sections. -/
def Exchange.finish (x : Exchange) (error : Option String) : List Errand :=
  [.change (.finish x.started error), .announce]

/-- The locals of `handle` once the exchange has begun, or of the inner service. The
classifier that was in force and the host it classified are kept with the class. -/
structure Handling extends Exchange where
  request : Request
  destination : DestinationClass
  classifier : DestinationClassifier
  host : Str
  clientProfileId : Option Str
  replay : Option ReplayAuthorization
  deriving DecidableEq

/-- How the TLS handshakes of an inspected tunnel end. -/
inductive Secured where
  | unsupportedProtocol
  | failed
  /-- The HTTP handshake with the upstream failed. -/
  | upstreamFailed (http2 : Bool)
  | established (http2 : Bool)
  deriving DecidableEq, Repr

/-- How serving a tunnel ends. -/
inductive Served where
  | closed
  | failed
  | expired
  deriving DecidableEq, Repr

/-- Where the operation on an exchange stands. -/
inductive Op where
  -- `tunnel::establish`
  | establishing
  | preparing (authority : Authority) (port : Nat)
  | dialing (authority : Authority) (port : Nat) (route : Option TlsInterceptRoute)
  -- `Tunnel::run`
  | upgrading (authority : Authority) (route : Option TlsInterceptRoute)
  | securing (authority : Authority) (route : TlsInterceptRoute)
  /-- `first` is `first_request`. -/
  | serving (authority : Authority) (route : TlsInterceptRoute) (http2 first : Bool)
  | copying (authority : Authority)
  | ended
  -- `forward`, and `forward_intercepted_https` in the tunnel of another task
  | forwarding
  | connecting (authority : Authority) (port : Nat)
  | intercepting (authority : Authority)
  | acquiring (authority : Authority)
  -- `forward_with_sender`
  | rewriting (authority : Authority)
  | sending (authority : Authority)
  | answered (authority : Authority) (upstream : Upstream)
  | breaking (upstream : Upstream) (draft : Draft)
  | paused (upstream : Upstream) (draft : Draft) (received : Option BreakpointDecision)
  | shaping (upstream : Upstream) (draft : Draft)
  | keeping (response : Response)
  | storing (response : Response)
  | taping (upstream : Upstream) (response : Response)
  | recording (upstream : Upstream) (response : Response)
  | checking (upstream : Upstream) (response : Response)
  | closing (upstream : Upstream) (response : Response) (tap : Bool)
  | emptying (response : Response)
  /-- The operation returned the response. -/
  | returned (response : Response)
  /-- It failed or timed out, and the client gets this instead. -/
  | refused (response : Response)
  deriving DecidableEq

/-- Is the operation at an await that the request's deadline covers? -/
def Op.awaits : Op → Bool
  | .preparing _ _ | .dialing _ _ _ | .connecting _ _ | .acquiring _ | .sending _
  | .paused _ _ _ | .storing _ | .recording _ _ | .emptying _ => true
  | _ => false

/-- Is the task at an await? -/
def Op.suspended : Op → Bool
  | .upgrading _ _ | .securing _ _ | .serving _ _ _ _ | .copying _ | .ended
  | .returned _ | .refused _ => true
  | op => op.awaits

/-- Does the operation hold the tunnel's upstream sender, if it runs in a tunnel? -/
def Op.holdsSender : Op → Bool
  | .rewriting _ | .sending _ | .answered _ _ | .breaking _ _ | .paused _ _ _
  | .shaping _ _ | .keeping _ | .storing _ | .taping _ _ | .recording _ _ | .checking _ _
  | .closing _ _ _ | .emptying _ => true
  | _ => false

/-! ## History -/

/-- What the rule lookup of an exchange met. -/
structure Lookup where
  retained : Bool
  rules : List ResponseRule
  host : Str
  deriving DecidableEq

/-- What a task has met; no step reads it. -/
structure Seen where
  /-- Was the replay token found? -/
  replayed : Bool
  destination : Option DestinationClass
  /-- The host that was resolved and connected to. -/
  dialed : Option Str
  issuerCalled : Bool
  sent : Option Request
  upstream : Option Upstream
  lookup : Option Lookup
  rule : Option ResponseRule
  /-- The decision that ended the pause. -/
  decision : Option BreakpointDecision
  deriving DecidableEq

/-- A task that has met nothing. -/
def Seen.nothing : Seen where
  replayed := false
  destination := none
  dialed := none
  issuerCalled := false
  sent := none
  upstream := none
  lookup := none
  rule := none
  decision := none

/-! ## The request body -/

/-- The body of the request sent upstream, with what is left of its last poll. -/
structure BodyParty where
  exchange : Exchange
  body : RequestBody
  todo : List Errand
  stores : List (List UInt8)

/-- The errands of an effect of `poll_frame`. -/
def BodyEffect.errands (x : Exchange) : BodyEffect → List Errand
  | .requestBytes count => [.change (.requestBytes count)]
  | .finish message => x.finish (some message)
  | .requestBodyError message => [.change (.requestBodyError message)]
  | .store _ => []

/-- What may happen to a request body: it goes on, is polled, or is dropped. -/
inductive BodyAnswer where
  | go
  | poll (poll : Poll)
  | drop
  deriving DecidableEq

/-- Where the detached task of `finish_capture` stands. -/
inductive StorePoint where
  | storing
  /-- The operation has returned, with that error if it failed. -/
  | reporting (error : Option String)
  | announcing
  | checking
  | removing
  | ended
  deriving DecidableEq, Repr

structure StoreTask where
  exchange : Exchange
  point : StorePoint
  deriving DecidableEq, Repr

/-- A step of a request body: the section, what remains of it, and the store task it
spawns. -/
structure BodyMove where
  sec : Section
  party : Option BodyParty
  store : Option StoreTask

def BodyParty.step (p : BodyParty) (a : BodyAnswer) : Option BodyMove :=
  match p.todo, p.stores, a with
  | errand :: todo, _, .go =>
      some ⟨errand.section p.exchange.id, some { p with todo := todo }, none⟩
  | [], _ :: stores, .go =>
      some ⟨.nothing, some { p with stores := stores }, some ⟨p.exchange, .storing⟩⟩
  | [], [], .poll poll =>
      let (body, effects) := p.body.pollFrame poll
      some ⟨.nothing, some { p with
        body := body
        todo := effects.flatMap (BodyEffect.errands p.exchange)
        stores := storeOps effects }, none⟩
  | [], [], .drop => some ⟨.nothing, none, none⟩
  | _, _, _ => none

/-- A step of the store task. `error` is what `store_redacted_json` returned when the task
awaits it: none if it stored the body, which the step then inserts. -/
def StoreTask.step (s : State) (t : StoreTask) (error : Option String) :
    Option (Section × StoreTask) :=
  let id := t.exchange.id
  match t.point with
  | .storing =>
      some (if error.isNone then .insertRequest id else .nothing,
        { t with point := .reporting error })
  | .reporting none =>
      some (.update id (.requestBody .complete), { t with point := .announcing })
  | .reporting (some message) =>
      some (.update id (.requestUnavailable message), { t with point := .announcing })
  | .announcing => some (.announce, { t with point := .checking })
  | .checking =>
      some (.nothing, { t with point := if s.Retained id then .ended else .removing })
  | .removing => some (.removeRequest id, { t with point := .ended })
  | .ended => none

/-! ## The steps of an operation -/

/-- What the environment answers to a task. -/
inductive Answer where
  | go
  | request (request : Request)
  /-- The leaf issuer: none if it failed, else whether it issued a leaf. -/
  | issued (result : Option Bool)
  /-- The lookup, the connection and, for `forward`, the HTTP handshake. -/
  | dialed (lookup : Option (List SocketAddr)) (accepted handshake : Bool)
  | upgraded (ok : Bool)
  | secured (result : Secured)
  | served (result : Served)
  | copied (response : Bool) (count : Nat)
  | acquired
  | upstream (upstream : Option Upstream)
  | wake
  | stored (error : Option String)
  | recorded (error : Option String)
  | emptied
  | frame (count : Nat) (last : Bool)
  | bodyEnded
  | bodyFailed
  | deadline
  | drop
  deriving DecidableEq

/-- The critical section of a step on an exchange. -/
inductive Act where
  | nothing
  | change (change : Change)
  /-- The breakpoint opens, for a response of that status. -/
  | pause (status : Nat)
  | resume
  /-- A store inserts the response body. -/
  | insert
  deriving DecidableEq, Repr

/-- The section of an act of task `k` on exchange `id`. -/
def Act.section (k id : Nat) : Act → Section
  | .nothing => .nothing
  | .change c => .update id c
  | .pause status => .openBreakpoint id k status
  | .resume => .removeBreakpoint id
  | .insert => .insertResponse id

/-- A step of an operation. -/
structure Move where
  op : Op
  act : Act := .nothing
  todo : List Errand := []
  seen : Seen
  body : Option BodyParty := none

/-- The arms of `handle` for a failed or expired operation. -/
def Handling.refuse (x : Handling) (seen : Seen) (error : ForwardError) : Move where
  op := .refused (localResponse error.1 error.2)
  todo := .change (.status error.1) :: x.finish (some error.2)
  seen := seen

/-- The messages `Tunnel::run` finishes with when the handshakes do not succeed. -/
def Secured.message : Secured → String
  | .unsupportedProtocol => "TLS peers did not negotiate the required HTTP/1.1 protocol."
  | .upstreamFailed true => "Upstream HTTPS HTTP/2 handshake failed."
  | .upstreamFailed false => "Upstream HTTPS HTTP/1 handshake failed."
  | _ => "Verified TLS handshakes failed."

/-- How an inspected tunnel finishes its exchange. -/
def Served.inspected : Served → Option String
  | .closed => some "The HTTPS connection ended before a complete HTTP exchange."
  | .failed => some "Inner HTTPS HTTP/1 transfer failed."
  | .expired => some "Tunnel lifetime limit reached."

/-- How an opaque tunnel finishes its exchange. -/
def Served.opaqueTunnel : Served → Option String
  | .closed => none
  | .failed => some "Tunnel transport failed."
  | .expired => some "Tunnel lifetime limit reached."

/-- `tunnel::establish` and `Tunnel::run`. -/
def tunnelStep (proxy : SocketAddr) (tls : Option ProxyTlsInterception) (x : Handling)
    (seen : Seen) : Op → Answer → Option Move
  | .establishing, .go =>
      match establishTarget x.request with
      | .error error => some (x.refuse seen error)
      | .ok (authority, port) =>
          if prepares tls x.destination x.clientProfileId then
            some { op := .preparing authority port, seen := { seen with issuerCalled := true } }
          else some { op := .dialing authority port none, seen }
  | .preparing authority port, .issued result =>
      match result with
      | none => some (x.refuse seen (502, "TLS interception preparation failed."))
      | some false => some { op := .dialing authority port none, seen }
      | some true =>
          some { op := .dialing authority port (some ⟨trimBrackets authority.host⟩), seen }
  | .dialing authority _ route, .dialed lookup accepted _ =>
      let seen := { seen with dialed := some (trimBrackets authority.host) }
      match connectUpstream proxy lookup accepted with
      | .error error => some (x.refuse seen error)
      | .ok () =>
          some {
            op := .upgrading authority route
            -- the tunnel goes to the connection's own task with the last of these
            todo := .change (.status 200) ::
              (if route.isSome then [.change .tls, .announce] else [.announce])
            seen }
  | .upgrading authority route, .upgraded ok =>
      if !ok then
        some { op := .ended, seen
               todo := x.finish (some "CONNECT upgrade failed or timed out.") }
      else match route with
        | none => some { op := .copying authority, seen }
        | some route => some { op := .securing authority route, seen }
  | .securing authority route, .secured result =>
      match result with
      | .established http2 => some { op := .serving authority route http2 true, seen }
      | _ => some { op := .ended, seen, todo := x.finish (some result.message) }
  | .serving _ _ _ _, .served result =>
      some { op := .ended, seen, todo := x.finish result.inspected }
  | .copying authority, .copied response count =>
      if count = 0 then none
      else some {
        op := .copying authority, seen
        todo := [.change (if response then .responseBytes count else .requestBytes count),
          .announce] }
  | .copying _, .served result =>
      some { op := .ended, seen, todo := x.finish result.opaqueTunnel }
  | _, _ => none

/-- Up to the upstream's response: `forward`, `forward_intercepted_https` and the first part
of `forward_with_sender`. -/
def sendStep (proxy : SocketAddr) (http2 : Bool) (s : State) (x : Handling) (seen : Seen) :
    Op → Answer → Option Move
  | .forwarding, .go =>
      match forwardTarget x.request with
      | .error error => some (x.refuse seen error)
      | .ok (authority, port) => some { op := .connecting authority port, seen }
  | .connecting authority _, .dialed lookup accepted handshake =>
      let seen := { seen with dialed := some (trimBrackets authority.host) }
      match connectUpstream proxy lookup accepted with
      | .error error => some (x.refuse seen error)
      | .ok () =>
          if handshake then some { op := .rewriting authority, seen }
          else some (x.refuse seen (502, "Upstream HTTP handshake failed."))
  | .intercepting authority, .go =>
      match interceptedTarget http2 authority x.request with
      | .error error => some (x.refuse seen error)
      | .ok () =>
          some {
            op := .acquiring authority, seen
            act := .change (.intercepted x.request.method
              (interceptedTargetText authority x.request) (safeHeaders x.request.headers))
            todo := [.announce] }
  | .acquiring authority, .acquired => some { op := .rewriting authority, seen }
  | .rewriting authority, .go =>
      let request := upstreamRequest http2 authority x.request
      let hasBody := !x.request.bodyEnded
      let contentType := requestContentType request
      some {
        op := .sending authority
        seen := { seen with sent := some request }
        todo :=
          if s.captureBodies && hasBody && !requestIsJson contentType then
            [.change (.requestUnavailable
              "Request body was forwarded but not recorded: safe inspection currently supports JSON content types only.")]
          else if s.captureBodies && hasBody then [.change (.requestBody .recording)]
          else if s.captureBodies then [.change (.requestBody .empty)]
          else []
        body := some {
          exchange := x.toExchange
          body := RequestBody.new s.captureBodies hasBody contentType s.requestRedactionPaths
          todo := [], stores := [] } }
  | .sending authority, .upstream response =>
      match response with
      | none => some (x.refuse seen (502, "Upstream HTTP request failed."))
      | some upstream =>
          some { op := .answered authority upstream
                 seen := { seen with upstream := some upstream } }
  | _, _ => none

/-- The rule that the lookup of `forward_with_sender` finds. -/
def State.findRule (s : State) (x : Handling) (authority : Authority) : Option ResponseRule :=
  if s.canModify x.id then
    s.responseRules.find? fun rule =>
      rule.matches (ruleHost authority) x.request.uri.path x.request.method
  else none

/-- The rest of `forward_with_sender`, and the transfer of the response. -/
def answerStep (http2 : Bool) (s : State) (x : Handling) (seen : Seen) :
    Op → Answer → Option Move
  | .answered authority upstream, .go =>
      let rule := s.findRule x authority
      some {
        op := .breaking upstream ((Draft.ofUpstream upstream).applyRule rule)
        todo := match rule with
          | none => []
          | some rule => [.change (.ruled upstream.status rule.id rule.name)]
        seen := { seen with
          lookup := some ⟨(s.capture? x.id).isSome, s.responseRules, ruleHost authority⟩
          rule := rule } }
  | .breaking upstream draft, .go =>
      if s.breakOnResponses && s.canModify x.id then
        some { op := .paused upstream draft none, act := .pause draft.status, seen }
      else some { op := .shaping upstream draft, seen }
  -- woken by a decision, by the loss of its sender or after 15 seconds
  | .paused upstream draft received, .wake =>
      some {
        op := .shaping upstream (draft.decide received)
        act := .resume
        todo := [.change (.resumed received), .announce]
        seen := { seen with decision := received } }
  | .shaping upstream draft, .go =>
      let response := draft.response http2
      match draft.replacement with
      | some (body, _) =>
          some {
            op := .keeping response, seen
            act := .change (.replaced draft.status (safeHeaders response.headers) body.length) }
      | none =>
          some {
            op := .taping upstream response, seen
            act := .change (.responded draft.status (safeHeaders draft.headers)) }
  | .keeping response, .go =>
      if s.captureBodies then some { op := .storing response, seen }
      else some { op := .returned response, todo := x.finish none, seen }
  | .storing response, .stored error =>
      match error with
      | none =>
          some { op := .returned response, act := .insert, todo := x.finish none, seen }
      | some message =>
          some { op := .returned response, seen
                 todo := .change (.responseBodyError message) :: x.finish none }
  | .taping upstream response, .go =>
      if s.captureBodies then some { op := .recording upstream response, seen }
      else some { op := .closing upstream response false, seen }
  | .recording upstream response, .recorded error =>
      match error with
      | none => some { op := .checking upstream response, act := .insert, seen }
      | some message =>
          some { op := .closing upstream response false, seen
                 todo := [.change (.responseBodyError message)] }
  | .checking upstream response, .go =>
      some { op := .closing upstream response true, seen
             todo := if s.Retained x.id then [] else [.removeBody] }
  | .closing upstream response tap, .go =>
      if !upstream.bodyEnded then some { op := .returned response, seen }
      else if tap then some { op := .emptying response, seen }
      else some { op := .returned response, todo := x.finish none, seen }
  | .emptying response, .emptied =>
      some { op := .returned response, todo := x.finish none, seen }
  | .returned response, answer =>
      if response.body ≠ .upstream then none
      else match answer with
        | .frame count last =>
            some { op := .returned response, seen
                   todo := .change (.responseBytes count) :: (if last then x.finish none else []) }
        | .bodyEnded => some { op := .returned response, todo := x.finish none, seen }
        | .bodyFailed =>
            some { op := .returned response, seen
                   todo := x.finish (some "Body transfer failed.") }
        | _ => none
  | _, _ => none

/-- One step of an operation. -/
def Op.step (proxy : SocketAddr) (tls : Option ProxyTlsInterception) (http2 : Bool) (s : State)
    (x : Handling) (seen : Seen) (op : Op) (a : Answer) : Option Move :=
  match tunnelStep proxy tls x seen op a with
  | some move => some move
  | none =>
    match sendStep proxy http2 s x seen op a with
    | some move => some move
    | none => answerStep http2 s x seen op a

/-! ## The steps of a task -/

/-- What the tasks of a listener get from it. -/
structure Listening where
  address : SocketAddr
  connectionLimit : Nat
  clientAuth : Option ProxyClientAuth
  tlsInterception : Option ProxyTlsInterception
  deriving DecidableEq, Repr

/-- Where a task's request comes from: a connection, or the tunnel of another task. -/
inductive Origin where
  | client
  | tunnel (task : Nat) (http2 : Bool)
  deriving DecidableEq, Repr

/-- Is the request sent upstream on HTTP/2? -/
def Origin.http2 : Origin → Bool
  | .client => false
  | .tunnel _ http2 => http2

/-- What a request gets that misses its deadline. -/
def Origin.timeout : Origin → ForwardError
  | .client => (504, "Upstream request timed out.")
  | .tunnel _ _ => (504, "Upstream HTTPS request timed out.")

inductive Pc where
  | connected
  | arrived (request : Request)
  | admitted (request : Request) (clientProfileId : Option Str)
      (replay : Option ReplayAuthorization)
  | classified (request : Request) (clientProfileId : Option Str)
      (replay : Option ReplayAuthorization) (destination : DestinationClass)
      (classifier : DestinationClassifier)
  /-- `handle` answered before an exchange began. -/
  | answered (response : Response)
  | serving (x : Handling) (op : Op) (todo : List Errand)
  | gone
  deriving DecidableEq

structure Task where
  listening : Listening
  origin : Origin
  pc : Pc
  seen : Seen
  body : Option BodyParty

/-- `handle` up to `begin_exchange`. -/
def Task.handleStep (crypto : Crypto) (s : State) (now : Nat) (t : Task) :
    Pc → Answer → Option (Section × Task)
  | .connected, .request request => some (.nothing, { t with pc := .arrived request })
  | .arrived request, .go =>
      let token := (request.headers.get internalReplayHeader).bind HeaderValue.toStr
      let replay := token.bind fun token =>
        (s.replayTokens.find? (·.1 = token)).map Prod.snd
      let request := { request with headers := request.headers.remove internalReplayHeader }
      let sec := (token.map Section.removeToken).getD .nothing
      let t := { t with seen := { t.seen with replayed := replay.isSome } }
      match replay, t.listening.clientAuth with
      | some replay, _ =>
          some (sec, { t with pc := .admitted request replay.clientProfileId (some replay) })
      | none, some auth =>
          if auth.accepts crypto request.headers then
            some (sec, { t with pc := .admitted request (some auth.profileId) none })
          else some (sec, { t with pc := .answered proxyAuthenticationRequired })
      | none, none => some (sec, { t with pc := .admitted request none none })
  | .admitted request clientProfileId replay, .go =>
      let destination := s.destinationClassifier.classify request.uri.host
      some (.nothing, { t with
        pc := .classified request clientProfileId replay destination s.destinationClassifier
        seen := { t.seen with destination := some destination } })
  | .classified request clientProfileId replay destination classifier, .go =>
      if replay.isSome && !authorized destination .replay then
        some (.nothing, { t with pc := .answered (localResponse 403
          "Replay is allowed only for Development destinations.") })
      else
        let x : Handling :=
          { id := s.nextId, started := now, request, destination, classifier
            host := request.uri.host, clientProfileId, replay }
        some (.begin request destination clientProfileId (replay.map (·.originId)),
          { t with pc := .serving x (if request.isConnect then .establishing else .forwarding) [] })
  | .connected, .drop => some (.nothing, { t with pc := .gone })
  | .answered _, .drop => some (.nothing, { t with pc := .gone })
  | _, _ => none

/-- A task whose operation made a move. -/
def Task.after (t : Task) (x : Handling) (m : Move) : Task :=
  { t with
    pc := .serving x m.op m.todo
    seen := m.seen
    body := match m.body with
      | some body => some body
      | none => t.body }

/-- One step of task `k`. -/
def Task.step (crypto : Crypto) (s : State) (now k : Nat) (t : Task) (a : Answer) :
    Option (Section × Task) :=
  match t.pc with
  | .serving x op (errand :: todo) =>
      if a = .go then some (errand.section x.id, { t with pc := .serving x op todo }) else none
  | .serving x op [] =>
      if a = .drop then
        if op.suspended then some (.nothing, { t with pc := .gone }) else none
      else if a = .deadline then
        if op.awaits then some (.nothing, t.after x (x.refuse t.seen t.origin.timeout)) else none
      else
        (op.step t.listening.address t.listening.tlsInterception t.origin.http2 s x t.seen a).map
          fun m => (m.act.section k x.id, t.after x m)
  | pc => t.handleStep crypto s now pc a

end SippinSoda
