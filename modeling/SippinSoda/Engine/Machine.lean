import SippinSoda.Engine.Task
import SippinSoda.Lib.Machine

/-!
# The engine (`ProxyEngine` in `proxy.rs`)

The engine is one labelled machine: the state under the lock and the parties that share it.
An event names the party that moves; every step makes at most one critical section, so the
runs of the machine are the interleavings of the parties' sections.

* **lifecycle** — `start` and `stop`, which the lock of `running` serializes, and the
  listener task;
* **tasks** — the connections and the requests in their tunnels;
* **others** — request bodies, store tasks, `resolve_response_breakpoint` and `replay` calls,
  `clear`, and the drop of the last reference to an exchange.
-/

namespace SippinSoda

/-! ## Configurations -/

structure ProxyConfig where
  port : Nat
  captureLimit : Nat
  connectionLimit : Nat
  /-- In nanoseconds, as the other duration. -/
  requestTimeout : Nat
  tunnelTimeout : Nat
  captureBodies : Bool
  bodyDiskBudget : Nat
  requestRedactionPaths : List Str
  developmentHosts : List Str
  productionHosts : List Str
  clientAuth : Option ProxyClientAuth
  tlsInterception : Option ProxyTlsInterception
  breakOnResponses : Bool
  responseRules : List ResponseRuleConfig
  deriving DecidableEq, Repr

/-- A duration of whole seconds. -/
def seconds (n : Nat) : Nat := n * 1000000000

/-- `ProxyConfig::default`. -/
def ProxyConfig.default : ProxyConfig where
  port := 8080
  captureLimit := 200
  connectionLimit := 64
  requestTimeout := seconds 30
  tunnelTimeout := seconds 300
  captureBodies := false
  bodyDiskBudget := 10 * 1024 * 1024 * 1024
  requestRedactionPaths := []
  developmentHosts := []
  productionHosts := []
  clientAuth := none
  tlsInterception := none
  breakOnResponses := false
  responseRules := []

/-- The resource limits `start` refuses. -/
def ProxyConfig.invalidLimits (config : ProxyConfig) : Bool :=
  config.captureLimit = 0 || 1000 < config.captureLimit || config.connectionLimit = 0 ||
    256 < config.connectionLimit || config.requestTimeout = 0 ||
    seconds 300 < config.requestTimeout || config.tunnelTimeout = 0 ||
    seconds 3600 < config.tunnelTimeout || config.bodyDiskBudget = 0

/-- The checks of `start`, with what they compile. -/
def ProxyConfig.compile (config : ProxyConfig) : Except String Settings := do
  if config.invalidLimits then throw "Invalid proxy resource limits."
  match config.tlsInterception with
  | none => pure ()
  | some tls =>
      if config.clientAuth.map (·.profileId) ≠ some tls.profileId then
        throw "HTTPS inspection requires authentication for the same client profile."
  let requestRedactionPaths ← compileRedactionPaths config.requestRedactionPaths
  let destinationClassifier ←
    DestinationClassifier.compile config.developmentHosts config.productionHosts
  let responseRules ← ResponseRule.compileAll config.responseRules
  return {
    limit := config.captureLimit
    captureBodies := config.captureBodies
    bodyBudget := config.bodyDiskBudget
    requestRedactionPaths, destinationClassifier
    breakOnResponses := config.breakOnResponses
    responseRules
    clientProfileId := config.clientAuth.map (·.profileId)
    httpsInspection := config.tlsInterception.isSome }

/-- What the listener task takes from a configuration. -/
def ProxyConfig.listening (config : ProxyConfig) (address : SocketAddr) : Listening where
  address := address
  connectionLimit := config.connectionLimit
  clientAuth := config.clientAuth
  tlsInterception := config.tlsInterception

/-! ## Parties -/

/-- The listener task. -/
inductive Listener where
  | none
  | accepting (listening : Listening)
  /-- Out of its loop: connections aborted, not all of them gone. -/
  | draining
  | ended
  deriving DecidableEq, Repr

/-- The `start` or `stop` call that holds the lock of `running`. -/
inductive Call where
  | none
  /-- `start`, whose configuration compiled. -/
  | binding (config : ProxyConfig) (settings : Settings)
  | bound (config : ProxyConfig) (settings : Settings) (address : SocketAddr)
  | spawning (listening : Listening)
  /-- `stop`, which has taken the handle and waits for the task. -/
  | stopping
  deriving DecidableEq

/-- A `resolve_response_breakpoint` call for `id`. -/
inductive Resolver where
  /-- It has taken the sender of that task's receiver. -/
  | sending (id task : Nat) (decision : BreakpointDecision)
  /-- It has returned, with the decision it has sent if that is `Ok`. -/
  | returned (id : Nat) (result : Except String BreakpointDecision)
  deriving DecidableEq

/-- A `replay` call. -/
inductive Replay where
  | authorized (authorization : ReplayAuthorization) (template : ReplayTemplate) (token : Str)
  | waiting (authorization : ReplayAuthorization) (template : ReplayTemplate) (token : Str)
  | returned (result : Except String Unit)
  deriving DecidableEq

/-- An exchange that has begun, and the drop of its last reference. -/
structure Begun extends Exchange where
  destination : DestinationClass
  dropped : Bool
  todo : List Errand
  deriving DecidableEq, Repr

structure Parties where
  /-- Does `running` hold a handle? -/
  running : Bool
  listener : Listener
  call : Call
  /-- What the last `start` that returned returned. -/
  answer : Option (Except String Unit)
  tasks : List Task
  stores : List StoreTask
  resolvers : List Resolver
  replays : List Replay
  exchanges : List Begun
  clock : Nat

structure Engine extends Parties where
  shared : State

/-- `ProxyEngine::default`. -/
def Engine.default : Engine where
  running := false
  listener := .none
  call := .none
  answer := none
  tasks := []
  stores := []
  resolvers := []
  replays := []
  exchanges := []
  clock := 0
  shared := .default

/-! ## What the parties hold -/

/-- Does the future of a task hold its exchange: is it still running, or does it transfer
the upstream's body? -/
def Op.holdsExchange : Op → Bool
  | .ended | .refused _ => false
  | .returned response => response.body = .upstream
  | _ => true

/-- Does a task, or the body it sends, hold the exchange? -/
def Task.holds (t : Task) (id : Nat) : Bool :=
  (match t.pc with
    | .serving x op todo => x.id = id && (op.holdsExchange || !todo.isEmpty)
    | _ => false) || t.body.any fun body => body.exchange.id = id

/-- Does any party hold the exchange? -/
def Parties.holds (p : Parties) (id : Nat) : Bool :=
  p.tasks.any (·.holds id) ||
    p.stores.any fun store => store.exchange.id = id && store.point ≠ .ended

/-- Is the task over? -/
def Task.over (t : Task) : Bool :=
  match t.pc with
  | .gone => true
  | _ => false

/-- The tasks of the requests in the tunnel of task `k`. -/
def Task.inTunnel (k : Nat) (t : Task) : Bool :=
  match t.origin with
  | .client => false
  | .tunnel task _ => task = k

/-- Is the request still to be handed to the upstream connection? -/
def Task.unsent (t : Task) : Bool :=
  match t.pc with
  | .serving _ (.sending _) (_ :: _) => true
  | _ => false

/-- Does the task hold the sender of the tunnel of task `k`? -/
def Task.holdsSender (k : Nat) (t : Task) : Bool :=
  t.inTunnel k &&
    match t.pc with
    | .serving _ op _ => op.holdsSender
    | _ => false

/-- May the environment give task `k` that answer? The sender of a tunnel has one holder,
and the requests in an HTTP/1 tunnel go before the tunnel does. -/
def Parties.allows (p : Parties) (k : Nat) (t : Task) : Answer → Bool
  | .acquired =>
      match t.origin with
      | .client => false
      | .tunnel task _ => !p.tasks.any (·.holdsSender task)
  | .drop | .served _ =>
      match t.pc with
      | .serving _ (.serving _ _ false _) _ => p.tasks.all fun u => !u.inTunnel k || u.over
      | _ => true
  | _ => true

/-- The connections a listener counts. -/
def Parties.connections (p : Parties) : Nat :=
  (p.tasks.filter fun t => t.origin = .client && !t.over).length

/-! ## Events -/

inductive Event where
  -- the lifecycle
  | start (config : ProxyConfig)
  | bind (result : Except String SocketAddr)
  | starting
  | stop
  | shutdown
  | joined
  | accept
  | acceptError
  | drained
  -- the tasks
  | task (k : Nat) (answer : Answer)
  | body (k : Nat) (answer : BodyAnswer)
  | inner (k : Nat) (request : Request)
  | store (k : Nat) (error : Option String)
  | dropExchange (k : Nat)
  | exchange (k : Nat)
  -- the other calls
  | resolve (id : Nat) (status : Option Nat) (body contentType : Option Str)
  | send (k : Nat)
  /-- The same between the last poll of the receiver, at the expiry, and its drop. -/
  | sendLate (k : Nat)
  | replay (id : Nat) (token : Str)
  | replaying (k : Nat) (result : Except String Unit)
  | clear
  | tick (time : Nat)
  deriving DecidableEq

/-- What an event does: a section, and the parties after it. -/
abbrev Step := Option (Section × Parties)

/-! ## The lifecycle -/

/-- `start` and `stop`, and the listener task. -/
def Engine.lifecycle (s : Engine) : Event → Step
  | .start config =>
      if s.call ≠ .none then none
      else if s.running then
        some (.nothing, { s.toParties with answer := some (.error "The proxy is already running.") })
      else match config.compile with
        | .error message => some (.nothing, { s.toParties with answer := some (.error message) })
        | .ok settings => some (.nothing, { s.toParties with call := .binding config settings })
  | .bind result =>
      match s.call with
      | .binding config settings =>
          match result with
          | .error message =>
              some (.nothing, { s.toParties with call := .none, answer := some (.error message) })
          | .ok address =>
              some (.nothing, { s.toParties with call := .bound config settings address })
      | _ => none
  | .starting =>
      match s.call with
      | .bound config settings address =>
          some (.start settings address,
            { s.toParties with call := .spawning (config.listening address) })
      | .spawning listening =>
          some (.nothing, { s.toParties with
            running := true, listener := .accepting listening, call := .none
            answer := some (.ok ()) })
      | _ => none
  | .stop =>
      if s.call ≠ .none then none
      else if s.running then
        some (.nothing, { s.toParties with running := false, call := .stopping })
      else some (.nothing, s.toParties)
  -- the listener sees the signal of a `stop` that waits
  | .shutdown =>
      match s.call, s.listener with
      | .stopping, .accepting _ => some (.nothing, { s.toParties with listener := .draining })
      | _, _ => none
  | .joined =>
      if s.call = .stopping ∧ s.listener = .ended then
        some (.nothing, { s.toParties with call := .none })
      else none
  | .accept =>
      match s.listener with
      | .accepting listening =>
          if listening.connectionLimit ≤ s.connections then some (.reject, s.toParties)
          else some (.nothing, { s.toParties with
            tasks := s.tasks ++ [⟨listening, .client, .connected, .nothing, none⟩] })
      | _ => none
  -- `let Ok(..) = accepted else { break; }`
  | .acceptError =>
      match s.listener with
      | .accepting _ => some (.nothing, { s.toParties with listener := .draining })
      | _ => none
  | .drained =>
      if s.listener = .draining ∧ s.connections = 0 then
        some (.stopped, { s.toParties with listener := .ended })
      else none
  | _ => none

/-! ## Tasks and what they leave behind -/

/-- The task of a request in the tunnel of task `k`, on an exchange of its own or on the
tunnel's. -/
def Task.inner (t : Task) (k : Nat) (authority : Authority) (http2 : Bool) (x : Handling) :
    Task where
  listening := t.listening
  origin := .tunnel k http2
  pc := .serving x (.intercepting authority) []
  seen := { Seen.nothing with destination := some x.destination, dialed := t.seen.dialed }
  body := none

/-- The inner service of `Tunnel::run`, called for a request in the tunnel of task `k`. -/
def Engine.innerStep (s : Engine) (k : Nat) (request : Request) : Step := do
  let t ← s.tasks[k]?
  match t.pc with
  | .serving x (.serving authority route http2 first) [] =>
      if !http2 && s.tasks.any fun u => u.inTunnel k && !u.over then none
      else
        let tasks := s.tasks.set k
          { t with pc := .serving x (.serving authority route http2 false) [] }
        if first then
          some (.nothing, { s.toParties with
            tasks := tasks ++ [t.inner k authority http2 { x with request, replay := none }] })
        else
          some (.begin request x.destination x.clientProfileId none, { s.toParties with
            tasks := tasks ++ [t.inner k authority http2 { x with
              id := s.shared.nextId, started := s.clock, request, replay := none }] })
  | _ => none

/-- Tasks, request bodies, store tasks and dropped exchanges. -/
def Engine.taskStep (crypto : Crypto) (s : Engine) : Event → Step
  | .task k answer => do
      let t ← s.tasks[k]?
      if !s.allows k t answer then none
      let (sec, t) ← t.step crypto s.shared s.clock k answer
      return (sec, { s.toParties with tasks := s.tasks.set k t })
  | .body k answer => do
      let t ← s.tasks[k]?
      if t.unsent then none
      let move ← (← t.body).step answer
      return (move.sec, { s.toParties with
        tasks := s.tasks.set k { t with body := move.party }
        stores := s.stores ++ move.store.toList })
  | .inner k request => s.innerStep k request
  | .store k error => do
      let (sec, store) ← (← s.stores[k]?).step s.shared error
      return (sec, { s.toParties with stores := s.stores.set k store })
  | .dropExchange k => do
      let x ← s.exchanges[k]?
      if x.dropped || s.holds x.id then none
      else some (.nothing, { s.toParties with
        exchanges := s.exchanges.set k { x with
          dropped := true
          todo := x.toExchange.finish (some "Transfer interrupted, cancelled or timed out.") } })
  | .exchange k => do
      let x ← s.exchanges[k]?
      match x.todo with
      | [] => none
      | errand :: todo =>
          some (errand.section x.id, { s.toParties with
            exchanges := s.exchanges.set k { x with todo := todo } })
  | _ => none

/-! ## The other calls -/

/-- The first section of `replay`. -/
def State.authorizeReplay (s : State) (id : Nat) :
    Except String (ReplayAuthorization × ReplayTemplate) := do
  if s.status.phase ≠ .running then throw "Start the proxy before replaying a request."
  let capture ← match s.capture? id with
    | some capture => .ok capture
    | none => .error "Capture cleared or evicted."
  if !authorized capture.destinationClass .replay then
    throw "Replay is allowed only for Development destinations."
  if capture.phase ≠ .complete then throw "Only a completed request can be replayed."
  let template ← match s.replayTemplates.find? (·.1 = id) with
    | some (_, template) => .ok template
    | none => .error "This capture cannot be replayed; only bodyless HTTP GET and HEAD requests are currently supported."
  if !authorized (s.destinationClassifier.classify template.uri.host) .replay then
    throw "The current destination rules no longer allow replay for this target."
  return (⟨id, capture.clientProfileId⟩, template)

/-- A sent decision arrives, if the task still holds the receiver. -/
def Task.receive (t : Task) (decision : BreakpointDecision) : Option Task :=
  match t.pc with
  | .serving x (.paused upstream draft none) [] =>
      some { t with pc := .serving x (.paused upstream draft (some decision)) [] }
  | _ => none

/-- `resolve_response_breakpoint`, `replay` and `clear`; and time. -/
def Engine.callStep (s : Engine) : Event → Step
  | .resolve id status body contentType =>
      let returned (result : Except String BreakpointDecision) : Parties :=
        { s.toParties with resolvers := s.resolvers ++ [.returned id result] }
      match BreakpointDecision.compile status body contentType with
      | .error message => some (.nothing, returned (.error message))
      | .ok decision =>
        match s.shared.breakpoints.find? (·.1 = id) with
        | none => some (.nothing, returned (.error "Response breakpoint is no longer waiting."))
        | some (_, task) =>
            some (.removeBreakpoint id, { s.toParties with
              resolvers := s.resolvers ++ [.sending id task decision] })
  | .send k => do
      match ← s.resolvers[k]? with
      | .sending id task decision =>
          match (← s.tasks[task]?).receive decision with
          | some t =>
              some (.nothing, { s.toParties with
                tasks := s.tasks.set task t
                resolvers := s.resolvers.set k (.returned id (.ok decision)) })
          | none =>
              some (.nothing, { s.toParties with
                resolvers := s.resolvers.set k
                  (.returned id (.error "Response breakpoint closed.")) })
      | .returned _ _ => none
  -- the receiver is there, but is not looked at again
  | .sendLate k => do
      match ← s.resolvers[k]? with
      | .sending id task decision =>
          let _ ← (← s.tasks[task]?).receive decision
          return (.nothing, { s.toParties with
            resolvers := s.resolvers.set k (.returned id (.ok decision)) })
      | .returned _ _ => none
  | .replay id token =>
      match s.shared.authorizeReplay id with
      | .error message =>
          some (.nothing, { s.toParties with
            replays := s.replays ++ [.returned (.error message)] })
      | .ok (authorization, template) =>
          some (.nothing, { s.toParties with
            replays := s.replays ++ [.authorized authorization template token] })
  | .replaying k result => do
      match ← s.replays[k]? with
      | .authorized authorization template token =>
          some (.issueToken token authorization, { s.toParties with
            replays := s.replays.set k (.waiting authorization template token) })
      | .waiting _ _ token =>
          some (.removeToken token, { s.toParties with
            replays := s.replays.set k (.returned result) })
      | .returned _ => none
  | .clear => some (.clear, s.toParties)
  | .tick time => some (.nothing, { s.toParties with clock := s.clock + time })
  | _ => none

/-! ## The machine -/

/-- What an event does. -/
def Engine.move (crypto : Crypto) (s : Engine) (e : Event) : Step :=
  match s.lifecycle e with
  | some step => some step
  | none =>
    match s.taskStep crypto e with
    | some step => some step
    | none => s.callStep e

/-- The exchange a section begins is logged. -/
def Parties.log (p : Parties) (s : State) : Section → Parties
  | .begin _ destination _ _ =>
      { p with exchanges := p.exchanges ++ [⟨⟨s.nextId, p.clock⟩, destination, false, []⟩] }
  | _ => p

def Engine.step (crypto : Crypto) (s : Engine) (e : Event) : Option Engine :=
  (s.move crypto e).map fun (sec, parties) =>
    { parties.log s.shared sec with shared := s.shared.apply s.clock sec }

/-- The engine from its creation. -/
def engine (crypto : Crypto) : Machine Engine Event where
  start := .default
  step := Engine.step crypto

/-! ## Runs

The beginnings of runs, for any configuration: what follows evaluates.
-/

/-- A call to `start` that succeeds, on the loopback address. -/
def starting (config : ProxyConfig) : List Event :=
  [.start config, .bind (.ok ⟨.v4 [127, 0, 0, 1], config.port⟩), .starting, .starting]

/-- What task `k` meets, one answer after another. -/
def answers (k : Nat) (l : List Answer) : List Event := l.map (.task k)

/-- A request without a body for `http://host/`. -/
def plainGet (host : Authority) : Request where
  method := "GET".toList
  uri := ⟨some "http".toList, some host, ['/'], none⟩
  headers := []
  bodyEnded := true

def localhost : Authority := ⟨"localhost".toList, by decide⟩

/-- The answers that take a task up to sending its request. -/
def untilSent (request : Request) : List Answer :=
  [.request request, .go, .go, .go, .go, .dialed (some [⟨.v4 [127, 0, 0, 1], 80⟩]) true true, .go]

/-- For configurations without client authentication, which decode and hash nothing. -/
def Crypto.unused : Crypto where
  base64Decode _ := none
  sha256 bytes := bytes

example : (((engine .unused).run (starting .default ++ [.accept] ++
    answers 0 (untilSent (plainGet localhost)))).map fun s =>
      s.shared.traffic.map fun c => (c.id, c.destinationClass, c.phase)) =
    some [(1, .development, .pending)] := by decide

end SippinSoda
