import SippinSoda.Lib.Relay
import SippinSoda.Tls.Gate
import SippinSoda.Engine.Task

/-!
# The TLS bridge (`tls_intercept.rs`)

`establish_verified_tls_with_config` verifies the upstream before it answers the client, and
`bridge_verified_tls` copies between the two streams, one `copy_with_flush` in each direction, until
both have ended, one has failed or the lifetime is over. The TLS library is the environment: it
verifies or refuses a peer, and negotiates a protocol that both sides know.

* **establishStep** — the handshakes;
* **step** — the handshakes, then the two copies side by side;
* **Joined** — what holds at each stage;
* **bridge_is_transparent**, **bridge_returns** — what crosses a bridge, and that it comes to an
  end.
-/

namespace SippinSoda.Bridge

/-! ## Handshakes -/

inductive TlsInterceptError where
  | invalidUpstreamName
  | invalidLeafMaterial
  | handshakeTimeout
  | downstreamHandshake
  | upstreamVerification
  | unsupportedApplicationProtocol
  | transport
  | lifetimeExceeded
  deriving DecidableEq, Repr

def http1Alpn : Str := "http/1.1".toList

def http2Alpn : Str := "h2".toList

/-- `INSPECTION_ALPN`. -/
def inspectionAlpn : List Str := [http2Alpn, http1Alpn]

/-- What the TLS library says of a name and of a certificate with its key. -/
structure TlsLibrary where
  validName : Str → Bool
  usableLeaf : IssuedLeaf → Bool

/-- The arguments of `establish_verified_tls_with_config`. -/
structure Call where
  upstreamName : Str
  leaf : IssuedLeaf
  /-- `ClientConfig::alpn_protocols`. -/
  offered : List Str
  allowedAlpn : Option (List Str)

/-- Where the handshakes are. -/
inductive Stage where
  | starting
  | connecting
  /-- The upstream is verified; this is its protocol. -/
  | accepting (protocol : Option Str)
  /-- `VerifiedTls`, with the protocol of the client's session. -/
  | established (protocol downstream : Option Str)
  | refused (error : TlsInterceptError)
  deriving DecidableEq, Repr

inductive Hello where
  | begin
  /-- The upstream's chain is verified for the name, and a protocol negotiated. -/
  | verified (protocol : Option Str)
  | unverified
  /-- The client has completed its handshake. -/
  | accepted (protocol : Option Str)
  | unaccepted
  | expired
  deriving DecidableEq, Repr

/-- Is this one of the protocols the caller insists on? -/
def Call.allows (call : Call) (protocol : Option Str) : Bool :=
  match call.allowedAlpn with
  | none => true
  | some allowed => (protocol.map fun protocol => allowed.contains protocol).getD false

/-- A step of `establish_verified_tls_with_config`. -/
def establishStep (tls : TlsLibrary) (call : Call) : Stage → Hello → Option Stage
  | .starting, .begin =>
      if !tls.validName call.upstreamName then some (.refused .invalidUpstreamName)
      else if !tls.usableLeaf call.leaf then some (.refused .invalidLeafMaterial)
      else some .connecting
  | .connecting, .verified protocol =>
      -- the upstream chooses one of the protocols it is offered, or none
      if protocol.all fun protocol => call.offered.contains protocol then
        if !call.allows protocol then some (.refused .unsupportedApplicationProtocol)
        else some (.accepting protocol)
      else none
  | .connecting, .unverified => some (.refused .upstreamVerification)
  | .accepting protocol, .accepted downstream =>
      -- the client agrees to the one protocol it is offered, or speaks of none
      if downstream = none ∨ downstream = protocol then
        if call.allowedAlpn.isSome && downstream != protocol then
          some (.refused .unsupportedApplicationProtocol)
        else some (.established protocol downstream)
      else none
  | .accepting _, .unaccepted => some (.refused .downstreamHandshake)
  | .connecting, .expired => some (.refused .handshakeTimeout)
  | .accepting _, .expired => some (.refused .handshakeTimeout)
  | _, _ => none

/-- What `Tunnel::run` makes of the handshakes, before it begins HTTP with the upstream. -/
def Stage.secured : Stage → Option Secured
  | .established protocol _ => some (.established (protocol == some http2Alpn))
  | .refused .unsupportedApplicationProtocol => some .unsupportedProtocol
  | .refused _ => some .failed
  | _ => none

/-! ## The bridge -/

/-- The buffer of `copy_with_flush`. -/
def bufferSize : Nat := 16 * 1024

structure TlsBridgeResult where
  clientToUpstreamBytes : Nat
  upstreamToClientBytes : Nat
  deriving DecidableEq, Repr

structure State where
  stage : Stage
  /-- The name for which the upstream has been verified. -/
  verified : Option Str
  /-- The host of the certificate the client has been shown. -/
  shown : Option Str
  /-- From the client to the upstream. -/
  up : Relay.State UInt8
  down : Relay.State UInt8
  /-- What `bridge_verified_tls_with_config` has returned. -/
  returned : Option (Except TlsInterceptError TlsBridgeResult)
  deriving DecidableEq

def start : State := ⟨.starting, none, none, Relay.start, Relay.start, none⟩

inductive Event where
  | hello (hello : Hello)
  | up (e : Relay.Event UInt8)
  | down (e : Relay.Event UInt8)
  /-- The lifetime is over. -/
  | lifetime
  deriving DecidableEq, Repr

/-- `tokio::try_join!`: the first failure, or both results. -/
def State.join (s : State) : State :=
  if s.up.pc = .failed ∨ s.down.pc = .failed then { s with returned := some (.error .transport) }
  else if s.up.pc = .done ∧ s.down.pc = .done then
    { s with returned := some (.ok ⟨s.up.moved, s.down.moved⟩) }
  else s

def Stage.isEstablished : Stage → Bool
  | .established _ _ => true
  | _ => false

/-- The two copies are at work. -/
def State.copies (s : State) : Bool := s.returned.isNone && s.stage.isEstablished

/-- The handshakes come to a stage: the client is shown the certificate from then on. -/
def State.enter (s : State) (call : Call) (stage : Stage) : State :=
  match stage with
  | .accepting _ => { s with
      stage := stage
      verified := some call.upstreamName
      shown := some call.leaf.host }
  | .refused error => { s with stage := stage, returned := some (.error error) }
  | _ => { s with stage := stage }

/-- One step of the bridge with its peers. -/
def step (tls : TlsLibrary) (call : Call) (s : State) : Event → Option State
  | .hello hello =>
      if s.returned.isSome then none
      else (establishStep tls call s.stage hello).map (s.enter call)
  | .up e =>
      if e.ofLoop then
        if s.copies then (Relay.step bufferSize s.up e).map fun up => { s with up := up }.join
        else none
      else (Relay.step bufferSize s.up e).map fun up => { s with up := up }
  | .down e =>
      if e.ofLoop then
        if s.copies then
          (Relay.step bufferSize s.down e).map fun down => { s with down := down }.join
        else none
      else (Relay.step bufferSize s.down e).map fun down => { s with down := down }
  | .lifetime =>
      if s.copies then some { s with returned := some (.error .lifetimeExceeded) } else none

def bridge (tls : TlsLibrary) (call : Call) : Machine State Event where
  start := start
  step := step tls call

/-! ## What holds at each stage -/

/-- A copy that has not begun. -/
def Idle (r : Relay.State UInt8) : Prop := r.pc = .reading ∧ r.taken = 0 ∧ r.written = []

/-- What the handshakes have come to. -/
def Greeted (call : Call) (s : State) : Stage → Prop
  | .starting | .connecting => s.verified = none ∧ s.shown = none ∧ s.returned = none
  | .accepting protocol => s.verified = some call.upstreamName ∧ s.shown = some call.leaf.host ∧
      call.allows protocol = true ∧ s.returned = none
  | .established protocol downstream => s.verified = some call.upstreamName ∧
      s.shown = some call.leaf.host ∧ call.allows protocol = true ∧
      (downstream = none ∨ downstream = protocol) ∧
      (call.allowedAlpn.isSome = true → downstream = protocol)
  | .refused error => s.returned = some (.error error) ∧
      (s.shown.isSome = true → s.verified = some call.upstreamName)

/-- What the copies have come to. -/
def Returned (s : State) : Option (Except TlsInterceptError TlsBridgeResult) → Prop
  | none => s.stage.isEstablished = true → s.up.pc ≠ .failed ∧ s.down.pc ≠ .failed ∧
      ¬ (s.up.pc = .done ∧ s.down.pc = .done)
  | some (.ok result) => s.stage.isEstablished = true ∧ s.up.pc = .done ∧ s.down.pc = .done ∧
      result = ⟨s.up.moved, s.down.moved⟩
  | some (.error error) => s.stage.isEstablished = true →
      error = .transport ∨ error = .lifetimeExceeded

/-- **What holds of a bridge**, at whatever stage it is. -/
structure Joined (call : Call) (s : State) : Prop where
  up : Relay.Faithful s.up
  down : Relay.Faithful s.down
  idle : s.stage.isEstablished = false → Idle s.up ∧ Idle s.down
  greeted : Greeted call s s.stage
  returned : Returned s s.returned

theorem joined_start (call : Call) : Joined call start where
  up := Relay.faithful_start
  down := Relay.faithful_start
  idle _ := ⟨⟨rfl, rfl, rfl⟩, rfl, rfl, rfl⟩
  greeted := ⟨rfl, rfl, rfl⟩
  returned h := absurd h Bool.false_ne_true

section Step

variable {tls : TlsLibrary} {call : Call} {s s' : State}

theorem copies_iff : s.copies = true ↔ s.returned = none ∧ s.stage.isEstablished = true := by
  unfold State.copies
  rw [Bool.and_eq_true, Option.isNone_iff_eq_none]

/-- The handshakes are refused. -/
theorem Joined.refuse (h : Joined call s) (hopen : s.stage.isEstablished = false)
    (hshown : s.shown.isSome = true → s.verified = some call.upstreamName)
    (error : TlsInterceptError) : Joined call (s.enter call (.refused error)) where
  up := h.up
  down := h.down
  idle _ := h.idle hopen
  greeted := ⟨rfl, hshown⟩
  returned hestablished := by cases hestablished

/-- A step of the handshakes. -/
theorem Joined.greet (h : Joined call s) (hreturned : s.returned = none) {hello : Hello}
    {stage : Stage} (hstep : establishStep tls call s.stage hello = some stage) :
    Joined call (s.enter call stage) := by
  have hgreeted := h.greeted
  cases hstage : s.stage with
  | starting =>
      have hopen : s.stage.isEstablished = false := by rw [hstage]; rfl
      rw [hstage] at hstep hgreeted
      have hshown : s.shown.isSome = true → s.verified = some call.upstreamName := by
        rw [show s.shown = none from hgreeted.2.1]
        intro hnone
        cases hnone
      cases hello with
      | begin =>
          simp only [establishStep] at hstep
          split at hstep
          · cases hstep
            exact h.refuse hopen hshown _
          · split at hstep
            · cases hstep
              exact h.refuse hopen hshown _
            · cases hstep
              refine ⟨h.up, h.down, fun _ => h.idle hopen, hgreeted, ?_⟩
              show Returned _ s.returned
              rw [hreturned]
              intro hestablished
              cases hestablished
      | _ => cases hstep
  | connecting =>
      have hopen : s.stage.isEstablished = false := by rw [hstage]; rfl
      rw [hstage] at hstep hgreeted
      have hshown : s.shown.isSome = true → s.verified = some call.upstreamName := by
        rw [show s.shown = none from hgreeted.2.1]
        intro hnone
        cases hnone
      cases hello with
      | verified protocol =>
          simp only [establishStep] at hstep
          split at hstep
          · split at hstep
            · cases hstep
              exact h.refuse hopen hshown _
            next hallows =>
              cases hstep
              refine ⟨h.up, h.down, fun _ => h.idle hopen,
                ⟨rfl, rfl, by simpa using hallows, hreturned⟩, ?_⟩
              show Returned _ s.returned
              rw [hreturned]
              intro hestablished
              cases hestablished
          · cases hstep
      | unverified =>
          cases hstep
          exact h.refuse hopen hshown _
      | expired =>
          cases hstep
          exact h.refuse hopen hshown _
      | _ => cases hstep
  | accepting protocol =>
      have hopen : s.stage.isEstablished = false := by rw [hstage]; rfl
      rw [hstage] at hstep hgreeted
      obtain ⟨hverified, hshown, hallows, -⟩ := hgreeted
      cases hello with
      | accepted downstream =>
          simp only [establishStep] at hstep
          split at hstep
          next hagrees =>
            split at hstep
            · cases hstep
              exact h.refuse hopen (fun _ => hverified) _
            next hstrict =>
              cases hstep
              have hidle := h.idle hopen
              refine ⟨h.up, h.down, (fun hopen => by cases hopen),
                ⟨hverified, hshown, hallows, hagrees, fun hsome => ?_⟩, ?_⟩
              · rw [hsome] at hstrict
                simpa using hstrict
              · show Returned _ s.returned
                rw [hreturned]
                intro _
                show s.up.pc ≠ _ ∧ s.down.pc ≠ _ ∧ ¬ (s.up.pc = _ ∧ _)
                rw [hidle.1.1, hidle.2.1]
                simp
          · cases hstep
      | unaccepted =>
          cases hstep
          exact h.refuse hopen (fun _ => hverified) _
      | expired =>
          cases hstep
          exact h.refuse hopen (fun _ => hverified) _
      | _ => cases hstep
  | established protocol downstream =>
      rw [hstage] at hstep
      cases hello <;> cases hstep
  | refused error =>
      rw [hstage] at hstep
      cases hello <;> cases hstep

/-- An operation of one of the copies. -/
theorem Joined.join (h : Joined call s) (hcopies : s.copies = true) {up down : Relay.State UInt8}
    (hup : Relay.Faithful up) (hdown : Relay.Faithful down) :
    Joined call ({ s with up := up, down := down } : State).join := by
  obtain ⟨hreturned, hestablished⟩ := copies_iff.mp hcopies
  have hgreeted : ∀ returned, Greeted call
      { s with up := up, down := down, returned := returned } s.stage := by
    intro returned
    have hgreeted := h.greeted
    cases hstage : s.stage with
    | established protocol downstream =>
        rw [hstage] at hgreeted
        exact hgreeted
    | _ =>
        rw [hstage] at hestablished
        cases hestablished
  have hopen : ∀ P : Prop, s.stage.isEstablished = false → P := by
    intro P hopen
    rw [hestablished] at hopen
    cases hopen
  unfold State.join
  simp only
  split
  next => exact ⟨hup, hdown, fun hfalse => hopen _ hfalse, hgreeted _, fun _ => .inl rfl⟩
  next hfailed =>
    split
    next hdone =>
      exact ⟨hup, hdown, fun hfalse => hopen _ hfalse, hgreeted _,
        hestablished, hdone.1, hdone.2, rfl⟩
    next hdone =>
      refine ⟨hup, hdown, fun hfalse => hopen _ hfalse, ?_, ?_⟩
      · exact hgreeted s.returned
      · show Returned _ s.returned
        rw [hreturned]
        exact fun _ => ⟨fun h => hfailed (.inl h), fun h => hfailed (.inr h), hdone⟩

/-- What a peer sends, it may send at any stage. -/
theorem Joined.source (h : Joined call s) {up down : Relay.State UInt8}
    (hup : Relay.Faithful up) (hdown : Relay.Faithful down) (hsame : Relay.Same s.up up)
    (hsame' : Relay.Same s.down down) :
    Joined call ({ s with up := up, down := down } : State) := by
  refine ⟨hup, hdown, fun hopen => ?_, ?_, ?_⟩
  · obtain ⟨⟨hpc, htaken, hwritten⟩, hpc', htaken', hwritten'⟩ := h.idle hopen
    exact ⟨⟨hsame.pc.trans hpc, hsame.taken.trans htaken, hsame.written.trans hwritten⟩,
      hsame'.pc.trans hpc', hsame'.taken.trans htaken', hsame'.written.trans hwritten'⟩
  · have hgreeted := h.greeted
    show Greeted call _ s.stage
    cases hstage : s.stage <;> rw [hstage] at hgreeted <;> exact hgreeted
  · have hreturned := h.returned
    show Returned _ s.returned
    cases hvalue : s.returned with
    | none =>
        rw [hvalue] at hreturned
        intro hestablished
        show up.pc ≠ _ ∧ down.pc ≠ _ ∧ ¬ (up.pc = _ ∧ down.pc = _)
        rw [hsame.pc, hsame'.pc]
        exact hreturned hestablished
    | some result =>
        rw [hvalue] at hreturned
        cases result with
        | error error => exact hreturned
        | ok result =>
            show s.stage.isEstablished = true ∧ up.pc = _ ∧ down.pc = _ ∧
              result = ⟨up.moved, down.moved⟩
            rw [hsame.pc, hsame'.pc, hsame.moved, hsame'.moved]
            exact hreturned

theorem Joined.step {e : Event} (h : Joined call s) (hstep : Bridge.step tls call s e = some s') :
    Joined call s' := by
  cases e with
  | hello hello =>
      simp only [Bridge.step] at hstep
      split at hstep
      · cases hstep
      next hreturned =>
        obtain ⟨stage, hstage, rfl⟩ := Option.map_eq_some_iff.mp hstep
        exact h.greet (by simpa using hreturned) hstage
  | up e =>
      simp only [Bridge.step] at hstep
      split at hstep
      · split at hstep
        next hcopies =>
          obtain ⟨up, hup, rfl⟩ := Option.map_eq_some_iff.mp hstep
          exact h.join hcopies (h.up.step hup) h.down
        · cases hstep
      next hsource =>
        obtain ⟨up, hup, rfl⟩ := Option.map_eq_some_iff.mp hstep
        exact h.source (h.up.step hup) h.down
          (Relay.same_of_step hup (by simpa using hsource)) (.refl _)
  | down e =>
      simp only [Bridge.step] at hstep
      split at hstep
      · split at hstep
        next hcopies =>
          obtain ⟨down, hdown, rfl⟩ := Option.map_eq_some_iff.mp hstep
          exact h.join hcopies h.up (h.down.step hdown)
        · cases hstep
      next hsource =>
        obtain ⟨down, hdown, rfl⟩ := Option.map_eq_some_iff.mp hstep
        exact h.source h.up (h.down.step hdown) (.refl _)
          (Relay.same_of_step hdown (by simpa using hsource))
  | lifetime =>
      simp only [Bridge.step] at hstep
      split at hstep
      next hcopies =>
        cases hstep
        obtain ⟨-, hestablished⟩ := copies_iff.mp hcopies
        have hgreeted := h.greeted
        refine ⟨h.up, h.down, h.idle, ?_, fun _ => .inr rfl⟩
        show Greeted call _ s.stage
        cases hstage : s.stage with
        | established protocol downstream =>
            rw [hstage] at hgreeted
            exact hgreeted
        | _ =>
            rw [hstage] at hestablished
            cases hestablished
      · cases hstep

end Step

theorem joined_of_reachable {tls : TlsLibrary} {call : Call} {s : State}
    (h : (bridge tls call).Reachable s) : Joined call s :=
  h.invariant (joined_start call) fun hs _ hstep => hs.step hstep

/-! ## What crosses a bridge -/

/-- **What a bridge shows of one direction**, from the source's side and from the sink's. -/
structure Transparent (r : Relay.State UInt8) : Prop where
  /-- What has been written is a first part of what has been sent. -/
  written : r.written <+: r.sent
  /-- A copy that waits for its source has passed on all it has read. -/
  flushed : r.pc = .reading → r.written = r.sent.take r.taken ∧ r.flushed = r.taken

theorem transparent_of_faithful {r : Relay.State UInt8} (h : Relay.Faithful r) :
    Transparent r where
  written := (List.prefix_append ..).trans (h.written.trans (List.take_prefix ..))
  flushed hpc := by
    have hall := h.all (by simp [hpc])
    have hflushed := h.flushed (.inl hpc)
    rw [hpc] at hall
    have hall : r.written = r.sent.take r.taken := by
      rw [← hall]
      exact (List.append_nil _).symm
    refine ⟨hall, ?_⟩
    rw [hflushed, hall, List.length_take]
    exact Nat.min_eq_left h.taken

/-- A copy that is done has passed on all that has been sent, and counted it. -/
theorem done_of_faithful {r : Relay.State UInt8} (h : Relay.Faithful r) (hdone : r.pc = .done) :
    r.ended = true ∧ r.closed = true ∧ r.written = r.sent ∧ r.flushed = r.sent.length ∧
      r.moved = r.sent.length := by
  obtain ⟨hended, htaken⟩ := h.ended (.inr hdone)
  have hall := h.all (by simp [hdone])
  have hmoved := h.moved (by simp [hdone])
  have hflushed := h.flushed (.inr (.inr hdone))
  rw [hdone] at hall hmoved
  have hall : r.written = r.sent := by
    have hall : r.written ++ [] = r.sent.take r.taken := hall
    rw [List.append_nil, htaken, List.take_length] at hall
    exact hall
  have hmoved : r.moved + 0 = r.taken := hmoved
  exact ⟨hended, h.closed.mpr hdone, hall, hflushed.trans (congrArg List.length hall), by omega⟩

/-- A bridge that returns the numbers of bytes has copied all of them. -/
theorem Joined.returned_ok {call : Call} {s : State} (h : Joined call s) {result : TlsBridgeResult}
    (hresult : s.returned = some (.ok result)) :
    s.up.written = s.up.sent ∧ s.up.closed = true ∧
      result.clientToUpstreamBytes = s.up.sent.length ∧
    s.down.written = s.down.sent ∧ s.down.closed = true ∧
      result.upstreamToClientBytes = s.down.sent.length := by
  have hreturned := h.returned
  rw [hresult] at hreturned
  obtain ⟨-, hup, hdown, rfl⟩ := hreturned
  obtain ⟨-, hclosed, hwritten, -, hmoved⟩ := done_of_faithful h.up hup
  obtain ⟨-, hclosed', hwritten', -, hmoved'⟩ := done_of_faithful h.down hdown
  exact ⟨hwritten, hclosed, hmoved, hwritten', hclosed', hmoved'⟩

/-- **What can be said of a bridge in any state.** -/
structure Crosses (call : Call) (s : State) : Prop where
  up : Transparent s.up
  down : Transparent s.down
  /-- The client is shown a certificate when the upstream has been verified, -/
  shown : s.shown.isSome = true → s.verified = some call.upstreamName
  /-- and what one peer sends comes to the other when both handshakes are complete. -/
  secured : s.up.written ≠ [] ∨ s.down.written ≠ [] → ∃ protocol downstream,
    s.stage = .established protocol downstream ∧ s.verified = some call.upstreamName ∧
      s.shown = some call.leaf.host
  /-- The two sessions speak one protocol, if both know of any: one that is asked for. -/
  protocol : ∀ protocol downstream, s.stage = .established protocol downstream →
    call.allows protocol = true ∧ (downstream = none ∨ downstream = protocol) ∧
      (call.allowedAlpn.isSome = true → downstream = protocol)
  /-- An inspected tunnel is told of HTTP/2 or HTTP/1.1, which both sessions speak. -/
  inspected : call.allowedAlpn = some inspectionAlpn → ∀ http2,
    s.stage.secured = some (.established http2) →
      let protocol := if http2 then http2Alpn else http1Alpn
      s.stage = .established (some protocol) (some protocol)
  /-- A bridge that returns the numbers of bytes has copied all of them. -/
  returned : ∀ result, s.returned = some (.ok result) →
    s.up.written = s.up.sent ∧ s.up.closed = true ∧
      result.clientToUpstreamBytes = s.up.sent.length ∧
    s.down.written = s.down.sent ∧ s.down.closed = true ∧
      result.upstreamToClientBytes = s.down.sent.length

/-- Of the two protocols of an inspected tunnel, HTTP/1.1 is the one that is not HTTP/2. -/
theorem inspected_protocol {call : Call} {protocol : Option Str} {http2 : Bool}
    (hallowed : call.allowedAlpn = some inspectionAlpn) (hallows : call.allows protocol = true)
    (hprotocol : (protocol == some http2Alpn) = http2) :
    Stage.established protocol protocol =
      .established (some (if http2 then http2Alpn else http1Alpn))
        (some (if http2 then http2Alpn else http1Alpn)) := by
  unfold Call.allows at hallows
  rw [hallowed] at hallows
  cases protocol with
  | none => cases hallows
  | some protocol =>
      have hmem : protocol = http2Alpn ∨ protocol = http1Alpn := by
        simpa [inspectionAlpn] using hallows
      rcases hmem with rfl | rfl
      · obtain rfl : http2 = true := hprotocol.symm.trans (beq_self_eq_true _)
        rfl
      · obtain rfl : http2 = false := hprotocol.symm.trans (by decide)
        rfl

/-- **The bridge is transparent**: each way it passes on what it is sent, in order and nothing
else, between peers that have been verified, in every run. -/
theorem bridge_is_transparent {tls : TlsLibrary} {call : Call} {s : State}
    (h : (bridge tls call).Reachable s) : Crosses call s := by
  have hjoined := joined_of_reachable h
  have hgreeted := hjoined.greeted
  refine ⟨transparent_of_faithful hjoined.up, transparent_of_faithful hjoined.down,
    fun hshown => ?_, fun hwritten => ?_, fun protocol downstream hstage => ?_,
    fun hallowed http2 hsecured => ?_, fun result hresult => hjoined.returned_ok hresult⟩
  · cases hstage : s.stage with
    | starting | connecting =>
        rw [hstage] at hgreeted
        rw [show s.shown = none from hgreeted.2.1] at hshown
        cases hshown
    | accepting protocol =>
        rw [hstage] at hgreeted
        exact hgreeted.1
    | established protocol downstream =>
        rw [hstage] at hgreeted
        exact hgreeted.1
    | refused error =>
        rw [hstage] at hgreeted
        exact hgreeted.2 hshown
  · cases hstage : s.stage with
    | established protocol downstream =>
        rw [hstage] at hgreeted
        exact ⟨protocol, downstream, rfl, hgreeted.1, hgreeted.2.1⟩
    | _ =>
        obtain ⟨⟨-, -, hup⟩, -, -, hdown⟩ := hjoined.idle (by rw [hstage]; rfl)
        rcases hwritten with hwritten | hwritten
        · exact absurd hup hwritten
        · exact absurd hdown hwritten
  · rw [hstage] at hgreeted
    exact hgreeted.2.2
  · cases hstage : s.stage with
    | established protocol downstream =>
        rw [hstage] at hgreeted hsecured
        obtain ⟨-, -, hallows, -, hstrict⟩ := hgreeted
        obtain rfl := hstrict (by rw [hallowed]; rfl)
        have hprotocol : (downstream == some http2Alpn) = http2 := by
          simpa [Stage.secured] using hsecured
        exact inspected_protocol hallowed hallows hprotocol
    | refused error =>
        rw [hstage] at hsecured
        cases error <;> cases hsecured
    | _ =>
        rw [hstage] at hsecured
        cases hsecured

/-- A library that takes every name and every leaf. -/
def anyTls : TlsLibrary := ⟨fun _ => true, fun _ => true⟩

def devCall : Call where
  upstreamName := "api.dev.test".toList
  leaf := ⟨"AA".toList, "api.dev.test".toList, 1000⟩
  offered := inspectionAlpn
  allowedAlpn := none

/-- Both handshakes succeed, the client sends three bytes, and the upstream's side of the bridge
takes them in two pieces. -/
def threeBytesCross : List Event :=
  [.hello .begin, .hello (.verified (some http1Alpn)), .hello (.accepted none),
    .up (.send [1, 2, 3]), .up (.read 3), .up (.write 2), .up (.write 1), .up .flush, .up .end,
    .down .end]

theorem three_bytes_cross : ∃ s, s.up.written = [1, 2, 3] ∧ s.copies = true ∧
    Crosses devCall s := by
  obtain ⟨s, hs⟩ := Option.isSome_iff_exists.mp (by decide +kernel :
    ((bridge anyTls devCall).run threeBytesCross).isSome = true)
  have hwritten : ((bridge anyTls devCall).run threeBytesCross).map
      (fun s => (s.up.written, s.copies)) = some ([1, 2, 3], true) := by
    decide +kernel
  rw [hs] at hwritten
  obtain ⟨hwritten, hcopies⟩ := Prod.mk.inj (Option.some.inj hwritten)
  exact ⟨s, hwritten, hcopies, bridge_is_transparent (Machine.reachable_of_run _ hs)⟩

/-! ## A bridge comes to an end -/

/-- Is it an operation of one of the copies? -/
def Event.copies : Event → Bool
  | .up e | .down e => e.ofLoop
  | _ => false

/-- How many operations the two copies have left. -/
def State.rank (s : State) : Nat := Relay.rank s.up + Relay.rank s.down

/-- What the two peers have sent. -/
def State.sent (s : State) : Nat := s.up.sent.length + s.down.sent.length

section Ending

variable {tls : TlsLibrary} {call : Call} {s s' : State}

@[simp] theorem join_up : s.join.up = s.up := by
  unfold State.join
  split
  · rfl
  · split <;> rfl

@[simp] theorem join_down : s.join.down = s.down := by
  unfold State.join
  split
  · rfl
  · split <;> rfl

@[simp] theorem enter_up (stage : Stage) : (s.enter call stage).up = s.up := by
  cases stage <;> rfl

@[simp] theorem enter_down (stage : Stage) : (s.enter call stage).down = s.down := by
  cases stage <;> rfl

/-- What a step makes of the ranks. -/
theorem rank_step {e : Event} (hstep : step tls call s e = some s') : s.sent ≤ s'.sent ∧
    e.copies.toNat + s'.rank ≤ s.rank + 3 * (s'.sent - s.sent) := by
  have hup {e : Relay.Event UInt8} {up : Relay.State UInt8} {s' : State}
      (hstep : Relay.step bufferSize s.up e = some up) (hsup : s'.up = up)
      (hsdown : s'.down = s.down) : s.sent ≤ s'.sent ∧
      e.ofLoop.toNat + s'.rank ≤ s.rank + 3 * (s'.sent - s.sent) := by
    have hrank := Relay.rank_step hstep
    unfold State.sent State.rank
    rw [hsup, hsdown]
    omega
  have hdown {e : Relay.Event UInt8} {down : Relay.State UInt8} {s' : State}
      (hstep : Relay.step bufferSize s.down e = some down) (hsup : s'.up = s.up)
      (hsdown : s'.down = down) : s.sent ≤ s'.sent ∧
      e.ofLoop.toNat + s'.rank ≤ s.rank + 3 * (s'.sent - s.sent) := by
    have hrank := Relay.rank_step hstep
    unfold State.sent State.rank
    rw [hsup, hsdown]
    omega
  cases e with
  | hello hello =>
      simp only [step] at hstep
      split at hstep
      · cases hstep
      · obtain ⟨stage, -, rfl⟩ := Option.map_eq_some_iff.mp hstep
        unfold State.sent State.rank
        rw [enter_up, enter_down]
        exact ⟨Nat.le_refl _, by show 0 + _ ≤ _; omega⟩
  | up e =>
      simp only [step] at hstep
      split at hstep
      · split at hstep
        · obtain ⟨up, hcopy, rfl⟩ := Option.map_eq_some_iff.mp hstep
          exact hup hcopy join_up join_down
        · cases hstep
      · obtain ⟨up, hcopy, rfl⟩ := Option.map_eq_some_iff.mp hstep
        exact hup hcopy rfl rfl
  | down e =>
      simp only [step] at hstep
      split at hstep
      · split at hstep
        · obtain ⟨down, hcopy, rfl⟩ := Option.map_eq_some_iff.mp hstep
          exact hdown hcopy join_up join_down
        · cases hstep
      · obtain ⟨down, hcopy, rfl⟩ := Option.map_eq_some_iff.mp hstep
        exact hdown hcopy rfl rfl
  | lifetime =>
      simp only [step] at hstep
      split at hstep
      · cases hstep
        exact ⟨Nat.le_refl _, by show 0 + s.rank ≤ s.rank + _; omega⟩
      · cases hstep

/-- The copies of a run make no more operations than the bytes they are sent allow. -/
theorem count_copies_le {es : List Event} {t : State}
    (hrun : (bridge tls call).runFrom s es = some t) : s.sent ≤ t.sent ∧
      (bridge tls call).count (fun _ e => e.copies) s es + t.rank ≤
        s.rank + 3 * (t.sent - s.sent) := by
  induction es generalizing s with
  | nil =>
      obtain rfl : s = t := Option.some.inj hrun
      exact ⟨Nat.le_refl _, by show 0 + _ ≤ _; omega⟩
  | cons e es ih =>
      obtain ⟨s', hstep, hrest⟩ := Option.bind_eq_some_iff.mp hrun
      obtain ⟨hle, hrank⟩ := rank_step hstep
      obtain ⟨hle', hcount⟩ := ih hrest
      refine ⟨Nat.le_trans hle hle', ?_⟩
      show e.copies.toNat + (((bridge tls call).step s e).map _).getD 0 + _ ≤ _
      rw [hstep]
      show e.copies.toNat + (bridge tls call).count _ s' es + _ ≤ _
      omega

/-- An operation of a copy leaves what its source has sent as it is. -/
theorem source_of_loop {r r' : Relay.State UInt8} {e : Relay.Event UInt8}
    (h : Relay.step bufferSize r e = some r') (hloop : e.ofLoop = true) :
    r'.sent = r.sent ∧ r'.ended = r.ended := by
  cases Relay.step_steps h with
  | send => cases hloop
  | ended => cases hloop
  | _ => exact ⟨rfl, rfl⟩

/-- A bridge whose peers have ended can make an operation that brings it nearer to its result. -/
theorem copies_on (h : Joined call s) (hcopies : s.copies = true) (hup : s.up.ended = true)
    (hdown : s.down.ended = true) : ∃ e s', e.copies = true ∧ step tls call s e = some s' ∧
      s'.up.ended = true ∧ s'.down.ended = true ∧ s'.up.sent = s.up.sent ∧
      s'.down.sent = s.down.sent ∧
      (s'.copies = true ∨ ∃ result, s'.returned = some (.ok result)) := by
  obtain ⟨hreturned, hestablished⟩ := copies_iff.mp hcopies
  have hopen := h.returned
  rw [hreturned] at hopen
  obtain ⟨hupFailed, hdownFailed, hdone⟩ := hopen hestablished
  -- after an operation that does not fail, the bridge has its result or goes on
  have hgo {up down : Relay.State UInt8} (hup : up.pc ≠ .failed) (hdown : down.pc ≠ .failed) :
      let s' := ({ s with up := up, down := down } : State).join
      s'.copies = true ∨ ∃ result, s'.returned = some (.ok result) := by
    unfold State.join
    simp only [hup, hdown, or_self, if_false]
    split
    · exact .inr ⟨_, rfl⟩
    · exact .inl (copies_iff.mpr ⟨hreturned, hestablished⟩)
  by_cases hactive : s.up.pc.active = true
  · obtain ⟨e, up, hloop, hstep, hfailed⟩ :=
      Relay.moves h.up (by decide : 0 < bufferSize) hactive fun _ => .inr hup
    obtain ⟨hsent, hended⟩ := source_of_loop hstep hloop
    refine ⟨.up e, ({ s with up := up } : State).join, hloop, ?_, ?_, ?_, ?_, ?_,
      hgo hfailed hdownFailed⟩
    · simp only [step, hloop, hcopies, hstep, if_true, Option.map_some]
    · rw [join_up]
      exact hended.trans hup
    · rw [join_down]
      exact hdown
    · rw [join_up]
      exact hsent
    · rw [join_down]
  · have hupDone : s.up.pc = .done := by
      cases hpc : s.up.pc with
      | done => rfl
      | failed => exact absurd hpc hupFailed
      | _ => exact absurd (by rw [hpc]; rfl) hactive
    have hdownActive : s.down.pc.active = true := by
      cases hpc : s.down.pc with
      | done => exact absurd ⟨hupDone, hpc⟩ hdone
      | failed => exact absurd hpc hdownFailed
      | _ => rfl
    obtain ⟨e, down, hloop, hstep, hfailed⟩ :=
      Relay.moves h.down (by decide : 0 < bufferSize) hdownActive fun _ => .inr hdown
    obtain ⟨hsent, hended⟩ := source_of_loop hstep hloop
    refine ⟨.down e, ({ s with down := down } : State).join, hloop, ?_, ?_, ?_, ?_, ?_,
      hgo hupFailed hfailed⟩
    · simp only [step, hloop, hcopies, hstep, if_true, Option.map_some]
    · rw [join_up]
      exact hup
    · rw [join_down]
      exact hended.trans hdown
    · rw [join_up]
    · rw [join_down]
      exact hsent

/-- **A bridge whose peers have ended returns the numbers of bytes**: whatever its copies have done
so far, they can come to the end, and no run of them is longer than what they are sent allows. -/
theorem bridge_returns (h : (bridge tls call).Reachable s) :
    (∀ es t, (bridge tls call).runFrom s es = some t →
      (bridge tls call).count (fun _ e => e.copies) s es ≤ s.rank + 3 * (t.sent - s.sent)) ∧
    (s.copies = true → s.up.ended = true → s.down.ended = true →
      ∃ es t, es.all Event.copies = true ∧ es.length ≤ s.rank ∧
        (bridge tls call).runFrom s es = some t ∧
        t.returned = some (.ok ⟨s.up.sent.length, s.down.sent.length⟩) ∧
        t.up.written = s.up.sent ∧ t.down.written = s.down.sent) := by
  refine ⟨fun es t hrun => ?_, ?_⟩
  · have hcount := (count_copies_le hrun).2
    omega
  -- by induction on the operations that are left
  obtain ⟨n, hn⟩ : ∃ n, s.rank = n := ⟨_, rfl⟩
  induction n using Nat.strong_induction_on generalizing s with
  | _ n ih =>
      intro hcopies hup hdown
      obtain ⟨e, s', hcopy, hstep, hup', hdown', hsent, hsent', hgo⟩ :=
        @copies_on tls call s (joined_of_reachable h) hcopies hup hdown
      have hs' : (bridge tls call).Reachable s' := .step h trivial hstep
      have hrank := (rank_step hstep).2
      have hsame : s'.sent = s.sent := by
        unfold State.sent
        rw [hsent, hsent']
      rw [hcopy, hsame] at hrank
      have hrank : 1 + s'.rank ≤ s.rank + 3 * (s.sent - s.sent) := hrank
      have hfirst {es : List Event} {t : State} (hrest : (bridge tls call).runFrom s' es = some t) :
          (bridge tls call).runFrom s (e :: es) = some t :=
        Option.bind_eq_some_iff.mpr ⟨s', hstep, hrest⟩
      rcases hgo with hgo | ⟨result, hresult⟩
      · obtain ⟨es, t, hall, hlength, hrun, hreturned, hwritten, hwritten'⟩ :=
          ih s'.rank (by omega) hs' rfl hgo hup' hdown'
        rw [hsent, hsent'] at hreturned
        rw [hsent] at hwritten
        rw [hsent'] at hwritten'
        refine ⟨e :: es, t, ?_, ?_, hfirst hrun, hreturned, hwritten, hwritten'⟩
        · rw [List.all_cons, hcopy, hall]
          rfl
        · rw [List.length_cons]
          omega
      · obtain ⟨hwritten, -, hcount, hwritten', -, hcount'⟩ :=
          (joined_of_reachable hs').returned_ok hresult
        rw [hsent] at hwritten hcount
        rw [hsent'] at hwritten' hcount'
        refine ⟨[e], s', ?_, ?_, hfirst rfl, ?_, hwritten, hwritten'⟩
        · rw [List.all_cons, hcopy]
          rfl
        · rw [List.length_singleton]
          omega
        · rw [hresult, ← hcount, ← hcount']

end Ending

theorem three_bytes_return : ∃ s es t, s.copies = true ∧
    (bridge anyTls devCall).runFrom s es = some t ∧ t.returned = some (.ok ⟨3, 0⟩) := by
  obtain ⟨s, hs⟩ := Option.isSome_iff_exists.mp (by decide +kernel :
    ((bridge anyTls devCall).run threeBytesCross).isSome = true)
  have hstate : ((bridge anyTls devCall).run threeBytesCross).map
      (fun s => (s.copies, s.up.ended, s.down.ended, s.up.sent.length, s.down.sent.length)) =
        some (true, true, true, 3, 0) := by
    decide +kernel
  rw [hs] at hstate
  simp only [Option.map_some, Option.some.injEq, Prod.mk.injEq] at hstate
  obtain ⟨hcopies, hup, hdown, hsent, hsent'⟩ := hstate
  obtain ⟨es, t, -, -, hrun, hreturned, -⟩ :=
    (bridge_returns (Machine.reachable_of_run _ hs)).2 hcopies hup hdown
  rw [hsent, hsent'] at hreturned
  exact ⟨s, es, t, hcopies, hrun, hreturned⟩

end SippinSoda.Bridge
