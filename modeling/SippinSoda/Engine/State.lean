import SippinSoda.Forward
import SippinSoda.Redact

/-!
# The state under the engine's lock (`State` in `proxy.rs`)

`State` is what `Arc<Mutex<State>>` holds, with the two body stores it points to reduced to
the ids that have an entry. The code changes it in critical sections; each kind of them is
a constructor of `Section`, and `State.apply` is what it does.

* **captures** — `Change` lists the closures passed to `Exchange::update`;
* **forget** — what goes with a capture that is evicted;
* **apply** — every write the engine makes to the shared state.
-/

namespace SippinSoda

/-! ## Captures -/

/-- `Capture::kind`. -/
inductive Kind where
  | http
  | tunnel
  | tls
  | https
  deriving DecidableEq, Repr

/-- `Capture::phase`. -/
inductive Phase where
  | pending
  | complete
  | error
  deriving DecidableEq, Repr

/-- `Capture::request_body_state`. -/
inductive RequestBodyState where
  | disabled
  | recording
  | empty
  | complete
  | unavailable
  deriving DecidableEq, Repr

/-- `Capture::breakpoint_state`. -/
inductive BreakpointState where
  | none
  | waiting
  | modified
  | continued
  | timedOut
  deriving DecidableEq, Repr

/-- How a pause ends in the capture: with a decision, or without one. -/
def BreakpointState.after : Option BreakpointDecision → BreakpointState
  | .none => .timedOut
  | some decision => if decision.modifies then .modified else .continued

structure Capture where
  id : Nat
  kind : Kind
  method : Str
  target : Str
  destinationClass : DestinationClass
  clientProfileId : Option Str
  startedAt : Nat
  status : Option Nat
  phase : Phase
  durationMs : Nat
  requestBytes : Nat
  responseBytes : Nat
  requestHeaders : List (Str × Str)
  responseHeaders : List (Str × Str)
  error : Option String
  requestBodyState : RequestBodyState
  requestBodyError : Option String
  responseBodyError : Option String
  breakpointState : BreakpointState
  originalStatus : Option Nat
  replayOf : Option Nat
  responseRuleId : Option Str
  responseRuleName : Option Str
  deriving DecidableEq, Repr

/-- The closures the code passes to `Exchange::update`. -/
inductive Change where
  /-- `Exchange::finish`, of an exchange started at that time. -/
  | finish (started : Nat) (error : Option String)
  | status (status : Nat)
  /-- `establish`, when a route is there. -/
  | tls
  /-- `forward_intercepted_https`. -/
  | intercepted (method target : Str) (headers : List (Str × Str))
  | requestBytes (count : Nat)
  | responseBytes (count : Nat)
  | requestBody (state : RequestBodyState)
  /-- The request body is "unavailable", with that error. -/
  | requestUnavailable (message : String)
  | requestBodyError (message : String)
  | responseBodyError (message : String)
  | ruled (originalStatus : Nat) (ruleId ruleName : Str)
  /-- The pause has ended, with what the receiver got. -/
  | resumed (received : Option BreakpointDecision)
  /-- A response with a replacement body of `count` bytes. -/
  | replaced (status : Nat) (headers : List (Str × Str)) (count : Nat)
  | responded (status : Nat) (headers : List (Str × Str))
  deriving DecidableEq, Repr

/-- What a closure does to the capture, `now` being the time. -/
def Capture.apply (now : Nat) (c : Capture) : Change → Capture
  | .finish started error =>
      if c.phase ≠ .pending then c
      else { c with
        phase := if error.isSome then .error else .complete
        durationMs := now - started
        error := error }
  | .status status => { c with status := some status }
  | .tls => { c with kind := .tls }
  | .intercepted method target headers =>
      { c with
        kind := .https, method := method, target := target, status := none
        requestHeaders := headers, responseHeaders := [] }
  | .requestBytes count => { c with requestBytes := c.requestBytes + count }
  | .responseBytes count => { c with responseBytes := c.responseBytes + count }
  | .requestBody state => { c with requestBodyState := state }
  | .requestUnavailable message =>
      { c with requestBodyState := .unavailable, requestBodyError := some message }
  | .requestBodyError message => { c with requestBodyError := some message }
  | .responseBodyError message => { c with responseBodyError := some message }
  | .ruled originalStatus ruleId ruleName =>
      { c with
        originalStatus := some originalStatus
        responseRuleId := some ruleId, responseRuleName := some ruleName }
  | .resumed received => { c with breakpointState := .after received }
  | .replaced status headers count =>
      { c with status := some status, responseHeaders := headers, responseBytes := count }
  | .responded status headers => { c with status := some status, responseHeaders := headers }

/-- What the breakpoint section does to the capture of a response of that status. -/
def Capture.pause (status : Nat) (c : Capture) : Capture :=
  { c with
    breakpointState := .waiting
    originalStatus := some (c.originalStatus.getD status) }

/-- The capture `begin_exchange` adds. -/
def Capture.new (now id : Nat) (request : Request) (destination : DestinationClass)
    (clientProfileId : Option Str) (replayOf : Option Nat) : Capture where
  id := id
  kind := if request.isConnect then .tunnel else .http
  method := request.method
  target := safeTarget request
  destinationClass := destination
  clientProfileId := clientProfileId
  startedAt := now
  status := none
  phase := .pending
  durationMs := 0
  requestBytes := 0
  responseBytes := 0
  requestHeaders := safeHeaders request.headers
  responseHeaders := []
  error := none
  requestBodyState := .disabled
  requestBodyError := none
  responseBodyError := none
  breakpointState := .none
  originalStatus := none
  replayOf := replayOf
  responseRuleId := none
  responseRuleName := none

/-- The first capture of this id with `f` applied: `iter_mut().find(..)`. -/
def updateFirst (id : Nat) (f : Capture → Capture) : List Capture → List Capture
  | [] => []
  | c :: cs => if c.id = id then f c :: cs else c :: updateFirst id f cs

/-! ## The state -/

/-- `EngineStatus`. -/
structure EngineStatus where
  phase : EnginePhase
  listenAddress : SocketAddr
  captures : Nat
  httpsInspection : Bool
  productionProtection : Bool
  evictedCaptures : Nat
  rejectedConnections : Nat
  clientProfileId : Option Str
  deriving DecidableEq, Repr

/-- `EngineStatus::default`. -/
def EngineStatus.default : EngineStatus where
  phase := .stopped
  listenAddress := ⟨.v4 [127, 0, 0, 1], 8080⟩
  captures := 0
  httpsInspection := false
  productionProtection := true
  evictedCaptures := 0
  rejectedConnections := 0
  clientProfileId := none

/-- `ReplayAuthorization`. -/
structure ReplayAuthorization where
  originId : Nat
  clientProfileId : Option Str
  deriving DecidableEq, Repr

/-- What `start` takes over from a configuration that compiles. -/
structure Settings where
  limit : Nat
  captureBodies : Bool
  bodyBudget : Nat
  requestRedactionPaths : List (List Str)
  destinationClassifier : DestinationClassifier
  breakOnResponses : Bool
  responseRules : List ResponseRule
  clientProfileId : Option Str
  httpsInspection : Bool
  deriving DecidableEq

structure State where
  revision : Nat
  nextId : Nat
  status : EngineStatus
  /-- Oldest first. -/
  traffic : List Capture
  limit : Nat
  requestBodies : List Nat
  responseBodies : List Nat
  captureBodies : Bool
  bodyBudget : Nat
  requestRedactionPaths : List (List Str)
  destinationClassifier : DestinationClassifier
  breakOnResponses : Bool
  responseRules : List ResponseRule
  /-- For each id the task that holds the receiver of its sender. -/
  breakpoints : List (Nat × Nat)
  replayTemplates : List (Nat × ReplayTemplate)
  replayTokens : List (Str × ReplayAuthorization)
  deriving DecidableEq

/-- `ProxyEngine::default`. -/
def State.default : State where
  revision := 0
  nextId := 1
  status := .default
  traffic := []
  limit := 200
  requestBodies := []
  responseBodies := []
  captureBodies := false
  bodyBudget := 0
  requestRedactionPaths := []
  destinationClassifier := .default
  breakOnResponses := false
  responseRules := []
  breakpoints := []
  replayTemplates := []
  replayTokens := []

/-- The capture of an id, if it is still there. -/
def State.capture? (s : State) (id : Nat) : Option Capture := s.traffic.find? (·.id = id)

/-- Is the capture of this id still there? -/
def State.Retained (s : State) (id : Nat) : Prop := ∃ c ∈ s.traffic, c.id = id

instance (s : State) (id : Nat) : Decidable (s.Retained id) :=
  inferInstanceAs (Decidable (∃ c ∈ s.traffic, c.id = id))

/-- Is the capture there, and of a class that allows `Action::Modify`? -/
def State.canModify (s : State) (id : Nat) : Bool :=
  (s.capture? id).any fun c => authorized c.destinationClass .modify

/-- A map without a key. -/
def without {α β : Type} [DecidableEq α] (map : List (α × β)) (key : α) : List (α × β) :=
  map.filter (·.1 ≠ key)

/-! ## Critical sections -/

/-- What is removed with a capture. -/
def State.forget (s : State) (id : Nat) : State :=
  { s with
    breakpoints := without s.breakpoints id
    replayTemplates := without s.replayTemplates id
    requestBodies := s.requestBodies.filter (· ≠ id)
    responseBodies := s.responseBodies.filter (· ≠ id) }

/-- `traffic.pop_front()` with what goes with it, and the count. -/
def State.evict (s : State) : State :=
  let s := match s.traffic with
    | [] => s
    | c :: cs => { s.forget c.id with traffic := cs }
  { s with status.evictedCaptures := s.status.evictedCaptures + 1 }

/-- That many evictions. -/
def State.evictMany (s : State) : Nat → State
  | 0 => s
  | n + 1 => s.evict.evictMany n

/-- The eviction of `begin_exchange`, when the ring is full. -/
def State.makeRoom (s : State) : State := if s.traffic.length = s.limit then s.evict else s

/-- `begin_exchange`, under the lock. -/
def State.begin (s : State) (now : Nat) (request : Request) (destination : DestinationClass)
    (clientProfileId : Option Str) (replayOf : Option Nat) : State :=
  let id := s.nextId
  let s := s.makeRoom
  let traffic :=
    s.traffic ++ [Capture.new now id request destination clientProfileId replayOf]
  { s with
    nextId := id + 1
    traffic := traffic
    replayTemplates := match replayTemplate request with
      | some template => (id, template) :: without s.replayTemplates id
      | none => s.replayTemplates
    status.captures := traffic.length
    revision := s.revision + 1 }

/-- `Exchange::update`. -/
def State.update (s : State) (id : Nat) (f : Capture → Capture) : State :=
  { s with traffic := updateFirst id f s.traffic }

/-- The breakpoint section of `forward_with_sender`, when it is enabled: the sender goes in
the map, the receiver to `task`. -/
def State.openBreakpoint (s : State) (id task status : Nat) : State :=
  let s := s.update id (Capture.pause status)
  { s with
    breakpoints := (id, task) :: without s.breakpoints id
    revision := s.revision + 1 }

/-- `ProxyEngine::clear`. -/
def State.clear (s : State) : State :=
  { s with
    breakpoints := []
    replayTemplates := []
    replayTokens := []
    traffic := []
    requestBodies := []
    responseBodies := []
    status.captures := 0
    status.evictedCaptures := 0
    revision := s.revision + 1 }

/-- The assignments `start` begins its state update with. -/
def State.configured (s : State) (settings : Settings) : State :=
  { s with
    limit := settings.limit
    captureBodies := settings.captureBodies
    bodyBudget := settings.bodyBudget
    requestRedactionPaths := settings.requestRedactionPaths
    destinationClassifier := settings.destinationClassifier
    breakOnResponses := settings.breakOnResponses
    responseRules := settings.responseRules }

/-- The state update of `ProxyEngine::start`; the loop evicts down to the new limit. -/
def State.started (s : State) (settings : Settings) (address : SocketAddr) : State :=
  let s := (s.configured settings).evictMany (s.traffic.length - settings.limit)
  { s with
    status.captures := s.traffic.length
    status.phase := .running
    status.listenAddress := address
    status.clientProfileId := settings.clientProfileId
    status.httpsInspection := settings.httpsInspection
    revision := s.revision + 1 }

/-- The last section of the listener task. -/
def State.stopped (s : State) : State :=
  { s with
    status.phase := .stopped
    status.clientProfileId := none
    status.httpsInspection := false
    revision := s.revision + 1 }

/-- A critical section that writes. -/
inductive Section where
  /-- A section that only reads, or none. -/
  | nothing
  | begin (request : Request) (destination : DestinationClass) (clientProfileId : Option Str)
      (replayOf : Option Nat)
  | update (id : Nat) (change : Change)
  /-- `revision += 1`. -/
  | announce
  | issueToken (token : Str) (authorization : ReplayAuthorization)
  | removeToken (token : Str)
  | openBreakpoint (id task status : Nat)
  | removeBreakpoint (id : Nat)
  | insertRequest (id : Nat)
  | removeRequest (id : Nat)
  | insertResponse (id : Nat)
  | removeResponse (id : Nat)
  | clear
  | start (settings : Settings) (address : SocketAddr)
  | stopped
  /-- A connection above the limit. -/
  | reject
  deriving DecidableEq

/-- What a section leaves. -/
def State.apply (s : State) (now : Nat) : Section → State
  | .nothing => s
  | .begin request destination clientProfileId replayOf =>
      s.begin now request destination clientProfileId replayOf
  | .update id change => s.update id (Capture.apply now · change)
  | .announce => { s with revision := s.revision + 1 }
  | .issueToken token authorization =>
      { s with replayTokens := (token, authorization) :: without s.replayTokens token }
  | .removeToken token => { s with replayTokens := without s.replayTokens token }
  | .openBreakpoint id task status => s.openBreakpoint id task status
  | .removeBreakpoint id => { s with breakpoints := without s.breakpoints id }
  | .insertRequest id => { s with requestBodies := id :: s.requestBodies.filter (· ≠ id) }
  | .removeRequest id => { s with requestBodies := s.requestBodies.filter (· ≠ id) }
  | .insertResponse id => { s with responseBodies := id :: s.responseBodies.filter (· ≠ id) }
  | .removeResponse id => { s with responseBodies := s.responseBodies.filter (· ≠ id) }
  | .clear => s.clear
  | .start settings address => s.started settings address
  | .stopped => s.stopped
  | .reject =>
      { s with
        status.rejectedConnections := s.status.rejectedConnections + 1
        revision := s.revision + 1 }

end SippinSoda
