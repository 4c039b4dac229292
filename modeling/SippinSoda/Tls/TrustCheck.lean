import SippinSoda.Tls.Ca
import SippinSoda.Forward
import SippinSoda.Lib.Machine

/-!
# Trust checks (`tls_trust_check.rs`) and preparations (`ProxyTlsInterception` in `proxy.rs`)

One machine for everything that reads or writes the trust gate: the `start` and `cancel` calls
of `TlsTrustCheckManager`, the check tasks they spawn, the CA manager, and the preparations of
CONNECT requests. A step is one critical section of one party, with what it computes up to it;
status, gate and credential store each have a lock of their own.

* **calls** — `start` and `cancel` between their awaits; the lock of `running` is held while an
  aborted task is awaited;
* **checks** — a task that is aborted ends at its next await, or not at all when it has none;
* **preparations** — CA status, readiness and leaf, read one after the other.
-/

namespace SippinSoda

/-! ## Status -/

/-- `TlsTrustCheckState`. -/
inductive TlsTrustCheckState where
  | idle
  | waiting
  | verified
  | failed
  | expired
  deriving DecidableEq, Repr

/-- `TlsTrustCheckStatus`; the URL is that of `localhost` and a port. -/
structure TlsTrustCheckStatus where
  state : TlsTrustCheckState
  client : Option TlsClientIdentity
  urlPort : Option Nat
  expiresAt : Option Nat
  verifiedAt : Option Nat
  error : Option String
  deriving DecidableEq

/-- `TlsTrustCheckStatus::idle`. -/
def TlsTrustCheckStatus.idle : TlsTrustCheckStatus := ⟨.idle, none, none, none, none, none⟩

/-- `waiting` of `start`; the duration is in nanoseconds. -/
def TlsTrustCheckStatus.waitingFor (client : TlsClientIdentity) (port now validFor : Nat) :
    TlsTrustCheckStatus where
  state := .waiting
  client := some client
  urlPort := some port
  expiresAt := some (min (now + validFor / 1000000) (2 ^ 64 - 1))
  verifiedAt := none
  error := none

/-- What a task reports that has verified its client. -/
def TlsTrustCheckStatus.verified (client : TlsClientIdentity) (leaf : IssuedLeaf) (now : Nat) :
    TlsTrustCheckStatus where
  state := .verified
  client := some client
  urlPort := none
  expiresAt := some leaf.expiresAt
  verifiedAt := some now
  error := none

/-- `CheckFailure`. -/
inductive CheckFailure where
  | expired
  | rejected
  deriving DecidableEq, Repr

/-- What a task reports that has not. -/
def CheckFailure.status (client : TlsClientIdentity) : CheckFailure → TlsTrustCheckStatus
  | .expired =>
      ⟨.expired, some client, none, none, none,
        some "The local trust check expired before it completed."⟩
  | .rejected =>
      ⟨.failed, some client, none, none, none,
        some "The client rejected the local CA certificate. Configure trust for that client, then retry."⟩

/-! ## Checks -/

/-- What a check meets at its endpoint. -/
inductive Visit where
  | nobody
  | acceptFailed
  /-- A client connects, the handshake ends, and the confirmation is written or not. -/
  | client (handshake : Except TlsTrustError Unit) (written : Bool)
  deriving DecidableEq

/-- `run_check`. -/
def runCheck (leaf : IssuedLeaf) (client : TlsClientIdentity) :
    Visit → Except CheckFailure TlsInspectionGate
  | .nobody => .error .expired
  | .acceptFailed => .error .rejected
  | .client handshake written =>
      let gate := TlsInspectionGate.default.setOptIn true
      let (gate, result) := gate.verifyClientTrust leaf client
        (match handshake with
          | .ok () => .accepted
          | .error error => .failed error)
      match result with
      | some (.ok ()) => if written then .ok gate else .error .rejected
      | some (.error .handshakeTimeout) => .error .expired
      | _ => .error .rejected

/-- Where a check task stands. -/
inductive CheckPoint where
  | running
  /-- `run_check` has returned; no await follows. -/
  | decided (outcome : Except CheckFailure TlsInspectionGate)
  /-- The gate is written. -/
  | reporting (gate : TlsInspectionGate)
  /-- The task is over, with what it wrote. -/
  | ended (gate : Option TlsInspectionGate) (status : TlsTrustCheckStatus)
  | cutOff
  deriving DecidableEq

/-- A check task, with the call that spawned it and what that call announced. -/
structure Check where
  call : Nat
  leaf : IssuedLeaf
  client : TlsClientIdentity
  waiting : TlsTrustCheckStatus
  aborted : Bool
  point : CheckPoint
  deriving DecidableEq

/-- Can the task still write? -/
def CheckPoint.live : CheckPoint → Bool
  | .running | .decided _ | .reporting _ => true
  | .ended _ _ | .cutOff => false

/-! ## Calls -/

inductive TrustCallKind where
  | start (leaf : IssuedLeaf) (client : TlsClientIdentity) (validFor : Nat)
  | cancel
  deriving DecidableEq

/-- Where a call stands. -/
inductive TrustCallPoint where
  /-- Waiting for the lock of `running`. -/
  | invoked
  /-- It has taken the handle of that task, aborted it and awaits it, with the lock. -/
  | joining (check : Nat)
  /-- `cancel_running` has returned, after taking that handle. -/
  | cleared (check : Option Nat)
  -- `start`
  | bound (port : Nat)
  | announced (waiting : TlsTrustCheckStatus)
  | emptied (waiting : TlsTrustCheckStatus)
  | spawned (check : Nat) (waiting : TlsTrustCheckStatus)
  -- `cancel`
  | closing
  | returned (result : Except String TlsTrustCheckStatus)
  deriving DecidableEq

structure TrustCall where
  kind : TrustCallKind
  point : TrustCallPoint
  deriving DecidableEq

/-- `(5..=120).contains(&valid_for)`, in seconds. -/
def validCheckDuration (validFor : Nat) : Bool :=
  5 * 1000000000 ≤ validFor && validFor ≤ 120 * 1000000000

/-! ## Preparations -/

/-- Where `prepare` stands. -/
inductive PreparationPoint where
  | invoked
  | issuing
  /-- The status of the CA has been read. -/
  | looked (status : CaStatus)
  /-- Readiness has been read. -/
  | ready (status : CaStatus)
  | returned (result : Except String (Option IssuedLeaf))
  deriving DecidableEq

/-- A call of `prepare`. -/
structure Preparation where
  tls : ProxyTlsInterception
  host : Str
  destination : DestinationClass
  clientProfileId : Option Str
  point : PreparationPoint
  deriving DecidableEq

/-! ## The machine -/

structure Trust where
  credential : Option Credential
  status : TlsTrustCheckStatus
  gate : Option TlsInspectionGate
  /-- The handle in `running`. -/
  running : Option Nat
  /-- The call that holds the lock of `running`. -/
  lock : Option Nat
  calls : List TrustCall
  checks : List Check
  preparations : List Preparation
  clock : Nat
  /-- The check started last, if no call has cancelled since; no step reads it. -/
  latest : Option Nat
  deriving DecidableEq

/-- `TlsTrustCheckManager::default`, with a credential store. -/
def Trust.default (credential : Option Credential) : Trust where
  credential := credential
  status := .idle
  gate := none
  running := none
  lock := none
  calls := []
  checks := []
  preparations := []
  clock := 0
  latest := none

/-- What happens to a call besides going on. -/
inductive TrustCallAnswer where
  | go
  | bound (port : Nat)
  | notBound
  | noAddress
  deriving DecidableEq

inductive CheckAnswer where
  | go
  | visit (visit : Visit)
  | cutOff
  deriving DecidableEq

/-- What the environment answers to a preparation. -/
inductive PreparationAnswer where
  | go (fault : Option StoreFault) (leafFault : Option LeafFault)
  | workerFailed
  deriving DecidableEq

inductive TrustEvent where
  | start (leaf : IssuedLeaf) (client : TlsClientIdentity) (validFor : Nat)
  | cancel
  | call (k : Nat) (answer : TrustCallAnswer)
  | check (k : Nat) (answer : CheckAnswer)
  | generate (consent : Bool) (fault : Option StoreFault) (made : Except String Str)
  | remove (confirmed : Bool) (refused : Option String)
  /-- Another program writes the entry of the credential store. -/
  | rewrite (credential : Option Credential)
  | prepare (tls : ProxyTlsInterception) (host : Str) (destination : DestinationClass)
      (clientProfileId : Option Str)
  | preparation (k : Nat) (answer : PreparationAnswer)
  | time (now : Nat)
  deriving DecidableEq

/-- The state after a step of call `k`, which is `call`. -/
def Trust.moveTo (s : Trust) (k : Nat) (call : TrustCall) (point : TrustCallPoint) : Trust :=
  { s with calls := s.calls.set k { call with point := point } }

/-- `abort()`. -/
def Trust.abort (s : Trust) (i : Nat) : Trust :=
  { s with checks := s.checks.modify i fun check => { check with aborted := true } }

/-- The handle is taken, under the lock: `cancel_running` up to its await. -/
def Trust.takeHandle (s : Trust) (k : Nat) (call : TrustCall) : Trust :=
  match s.running with
  | none => s.moveTo k call (.cleared none)
  | some i =>
      ({ s with running := none, lock := some k }.abort i).moveTo k call (.joining i)

/-- `cancel_running`, for either kind of call. -/
def Trust.cancelRunning (s : Trust) (k : Nat) (call : TrustCall) : Option Trust :=
  match call.point with
  | .invoked =>
      if s.lock = none then
        let s := s.takeHandle k call
        some (if call.kind = .cancel then { s with latest := none } else s)
      else none
  | .joining i =>
      if (s.checks[i]?).any fun check => !check.point.live then
        some ({ s with lock := none }.moveTo k call (.cleared (some i)))
      else none
  | _ => none

/-- The rest of `start`. -/
def Trust.startStep (s : Trust) (k : Nat) (call : TrustCall) (leaf : IssuedLeaf)
    (client : TlsClientIdentity) (validFor : Nat) : TrustCallAnswer → Option Trust
  | .bound port =>
      match call.point with
      | .cleared _ => some (s.moveTo k call (.bound port))
      | _ => none
  | .notBound =>
      match call.point with
      | .cleared _ =>
          some (s.moveTo k call
            (.returned (.error "Cannot open the local TLS trust-check endpoint.")))
      | _ => none
  | .noAddress =>
      match call.point with
      | .cleared _ =>
          some (s.moveTo k call
            (.returned (.error "Cannot read the local TLS trust-check address.")))
      | _ => none
  | .go =>
      match call.point with
      | .bound port =>
          let waiting := TlsTrustCheckStatus.waitingFor client port s.clock validFor
          some ({ s with status := waiting }.moveTo k call (.announced waiting))
      | .announced waiting => some ({ s with gate := none }.moveTo k call (.emptied waiting))
      | .emptied waiting =>
          let i := s.checks.length
          let check : Check := ⟨k, leaf, client, waiting, false, .running⟩
          some ({ s with checks := s.checks ++ [check], latest := some i }.moveTo k call
            (.spawned i waiting))
      | .spawned i waiting =>
          if s.lock = none then
            some ({ s with running := some i }.moveTo k call (.returned (.ok waiting)))
          else none
      | _ => none

/-- The rest of `cancel`. -/
def Trust.cancelStep (s : Trust) (k : Nat) (call : TrustCall) : Option Trust :=
  match call.point with
  | .cleared _ => some ({ s with gate := none }.moveTo k call .closing)
  | .closing => some ({ s with status := .idle }.moveTo k call (.returned (.ok .idle)))
  | _ => none

def Trust.callStep (s : Trust) (k : Nat) (call : TrustCall) (answer : TrustCallAnswer) :
    Option Trust :=
  match call.point with
  | .invoked | .joining _ => if answer = .go then s.cancelRunning k call else none
  | _ =>
    match call.kind with
    | .start leaf client validFor => s.startStep k call leaf client validFor answer
    | .cancel => if answer = .go then s.cancelStep k call else none

def Trust.setCheck (s : Trust) (i : Nat) (check : Check) (point : CheckPoint) : Trust :=
  { s with checks := s.checks.set i { check with point := point } }

/-- A step of check task `i`. -/
def Trust.checkStep (s : Trust) (i : Nat) (check : Check) (answer : CheckAnswer) : Option Trust :=
  match check.point, answer with
  | .running, .visit visit =>
      some (s.setCheck i check (.decided (runCheck check.leaf check.client visit)))
  | .running, .cutOff => if check.aborted then some (s.setCheck i check .cutOff) else none
  | .decided (.ok gate), .go =>
      some ({ s with gate := some gate }.setCheck i check (.reporting gate))
  | .decided (.error failure), .go =>
      let status := failure.status check.client
      some ({ s with status := status }.setCheck i check (.ended none status))
  | .reporting gate, .go =>
      let status := TlsTrustCheckStatus.verified check.client check.leaf s.clock
      some ({ s with status := status }.setCheck i check (.ended (some gate) status))
  | _, _ => none

/-- `TlsTrustCheckManager::readiness`, reduced to `can_inspect_development`. -/
def Trust.canInspect (s : Trust) (ca : CaStatus) (clientId : Str) : Bool :=
  s.gate.any fun gate => (gate.readinessAt ca clientId s.clock).canInspectDevelopment

/-- A step of `prepare` and of the leaf issuer of `ProxyTlsInterception::platform`. -/
def Trust.preparationStep (s : Trust) (p : Preparation) :
    PreparationAnswer → Option PreparationPoint
  | .workerFailed =>
      match p.point with
      | .invoked | .returned _ => none
      | _ => some (.returned (.error "TLS certificate worker failed."))
  | .go fault leafFault =>
      match p.point with
      | .invoked =>
          if prepares (some p.tls) p.destination p.clientProfileId then some .issuing
          else some (.returned (.ok none))
      | .issuing =>
          if p.destination ≠ .development then some (.returned (.ok none))
          else match CaManager.status s.credential fault with
            | .error message => some (.returned (.error message))
            | .ok status => some (.looked status)
      | .looked status =>
          if s.canInspect status p.tls.profileId then some (.ready status)
          else some (.returned (.ok none))
      | .ready status =>
          match CaManager.issueLeaf s.credential s.clock fault leafFault p.host p.destination with
          | .error message => some (.returned (.error message))
          | .ok leaf =>
              if some leaf.issuerFingerprintSha256 ≠ status.fingerprintSha256 then
                some (.returned (.error "The local CA changed while preparing TLS interception."))
              else some (.returned (.ok (some leaf)))
      | .returned _ => none

def Trust.step (s : Trust) : TrustEvent → Option Trust
  | .start leaf client validFor =>
      let point := if validCheckDuration validFor then TrustCallPoint.invoked
        else .returned (.error "TLS trust checks must last between 5 and 120 seconds.")
      some { s with calls := s.calls ++ [⟨.start leaf client validFor, point⟩] }
  | .cancel => some { s with calls := s.calls ++ [⟨.cancel, .invoked⟩] }
  | .call k answer => do s.callStep k (← s.calls[k]?) answer
  | .check i answer => do s.checkStep i (← s.checks[i]?) answer
  | .generate consent fault made =>
      some { s with
        credential := (CaManager.generate s.credential s.clock consent fault made).2 }
  | .remove confirmed refused =>
      some { s with credential := (CaManager.remove s.credential confirmed refused).2 }
  | .rewrite credential => some { s with credential := credential }
  | .prepare tls host destination clientProfileId =>
      some { s with
        preparations := s.preparations ++ [⟨tls, host, destination, clientProfileId, .invoked⟩] }
  | .preparation k answer => do
      let p ← s.preparations[k]?
      let point ← s.preparationStep p answer
      return { s with preparations := s.preparations.set k { p with point := point } }
  | .time now => some { s with clock := now }

/-- The manager from its creation. -/
def trust (credential : Option Credential) : Machine Trust TrustEvent where
  start := .default credential
  step := Trust.step

end SippinSoda
