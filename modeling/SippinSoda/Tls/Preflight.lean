import SippinSoda.Tls.Preparation

/-!
# The preflight (`tls_trust_check.rs`)

What the user is told about HTTPS inspection, next to what decides it: the preflight looks at the
engine's status, at a status of the CA and at the gate; a CONNECT asks `ProxyTlsInterception` for
a leaf, which looks at the CA and the gate on its own.

* **report** — `readiness` and `preflight`;
* **order** — the report names the first unmet condition of a list;
* **at once** — a preparation whose steps all fall on one instant, as one function;
* **agreement** — when the report is Ready, and when a leaf comes of a preparation;
* **gates** — every gate the manager holds is opted in.
-/

namespace SippinSoda

/-! ## The report -/

/-- `TlsInspectionPreflightState`. -/
inductive TlsInspectionPreflightState where
  | proxyStopped
  | clientAuthenticationRequired
  | disabled
  | missingCa
  | expiredCa
  | clientTrustUnverified
  | clientMismatch
  | ready
  deriving DecidableEq, Repr

/-- `TlsInspectionPreflight`. -/
structure TlsInspectionPreflight where
  state : TlsInspectionPreflightState
  canEnableDevelopment : Bool
  httpsInspectionActive : Bool
  clientProfileId : Option Str
  verifiedClient : Option TlsClientIdentity
  proofExpiresAt : Option Nat
  deriving DecidableEq

/-- `TlsInspectionPreflight::blocked`. -/
def TlsInspectionPreflight.blocked (state : TlsInspectionPreflightState) (clientId : Option Str) :
    TlsInspectionPreflight where
  state := state
  canEnableDevelopment := false
  httpsInspectionActive := false
  clientProfileId := clientId
  verifiedClient := none
  proofExpiresAt := none

/-- The state of the preflight for a state of readiness. -/
def TlsReadinessState.preflight : TlsReadinessState → TlsInspectionPreflightState
  | .disabled => .disabled
  | .missingCa => .missingCa
  | .expiredCa => .expiredCa
  | .clientTrustUnverified => .clientTrustUnverified
  | .clientMismatch => .clientMismatch
  | .ready => .ready

/-- `TlsTrustCheckManager::readiness`. -/
def Trust.readiness (s : Trust) (ca : CaStatus) (clientId : Str) :
    Option TlsInspectionReadiness :=
  s.gate.map fun gate => gate.readinessAt ca clientId s.clock

/-- The rest of `preflight`, for a running proxy with that client profile. -/
def Trust.preflightFor (s : Trust) (ca : CaStatus) (clientId : Str) (httpsInspection : Bool) :
    TlsInspectionPreflight :=
  if ca.state ≠ .ready ∨ ca.fingerprintSha256 = none ∨ ca.expiresAt = none then
    .blocked .missingCa (some clientId)
  else if ca.expiresAt.any (· ≤ s.clock) then .blocked .expiredCa (some clientId)
  else match s.readiness ca clientId with
    | none => .blocked .clientTrustUnverified (some clientId)
    | some readiness =>
      { state := readiness.state.preflight
        canEnableDevelopment := readiness.state.preflight = .ready
        httpsInspectionActive := httpsInspection && readiness.state.preflight = .ready
        clientProfileId := some clientId
        verifiedClient := readiness.verifiedClient
        proofExpiresAt := readiness.proofExpiresAt }

/-- `TlsTrustCheckManager::preflight`. -/
def Trust.preflight (s : Trust) (ca : CaStatus) (proxy : EngineStatus) : TlsInspectionPreflight :=
  if proxy.phase ≠ .running then .blocked .proxyStopped none
  else match proxy.clientProfileId with
    | none => .blocked .clientAuthenticationRequired none
    | some clientId => s.preflightFor ca clientId proxy.httpsInspection

theorem TlsReadinessState.preflight_eq_ready {state : TlsReadinessState} :
    state.preflight = .ready ↔ state = .ready := by
  cases state <;> simp [TlsReadinessState.preflight]

/-! ## The order of the conditions -/

/-- Does the gate hold a live proof of that CA? -/
def Trust.verified (s : Trust) (ca : CaStatus) : Bool :=
  (s.gate.bind (·.trustProof)).any fun proof =>
    some proof.issuerFingerprintSha256 = ca.fingerprintSha256 && s.clock < proof.expiresAt

/-- Is the proof of the gate that of the client with that profile? -/
def Trust.verifiedFor (s : Trust) (clientId : Option Str) : Bool :=
  (s.gate.bind (·.trustProof)).any fun proof => some proof.client.id = clientId

/-- What inspection takes, in the order in which it is missed, with what is reported then. -/
def Trust.conditions (s : Trust) (ca : CaStatus) (proxy : EngineStatus) :
    List (Bool × TlsInspectionPreflightState) :=
  [(proxy.phase = .running, .proxyStopped),
    (proxy.clientProfileId.isSome, .clientAuthenticationRequired),
    (ca.state = .ready && ca.fingerprintSha256.isSome && ca.expiresAt.isSome, .missingCa),
    (ca.expiresAt.any (s.clock < ·), .expiredCa),
    (s.verified ca, .clientTrustUnverified),
    (s.verifiedFor proxy.clientProfileId, .clientMismatch)]

/-- The report that belongs to the first unmet condition of a list. -/
def firstUnmet (conditions : List (Bool × TlsInspectionPreflightState)) :
    TlsInspectionPreflightState :=
  ((conditions.find? fun condition => !condition.1).map Prod.snd).getD .ready

theorem firstUnmet_met {met : Bool} (h : met = true) (state : TlsInspectionPreflightState)
    (rest : List (Bool × TlsInspectionPreflightState)) :
    firstUnmet ((met, state) :: rest) = firstUnmet rest := by
  subst h
  rfl

theorem firstUnmet_unmet {met : Bool} (h : met = false) (state : TlsInspectionPreflightState)
    (rest : List (Bool × TlsInspectionPreflightState)) :
    firstUnmet ((met, state) :: rest) = state := by
  subst h
  rfl

/-- The gate asks for a live proof of the CA, and then whose it is. -/
theorem TlsInspectionGate.preflight_eq {gate : TlsInspectionGate} {s : Trust} {ca : CaStatus}
    {clientId : Str} (hgate : s.gate = some gate) (hopted : gate.optedIn = true)
    (hca : ¬ (ca.state ≠ .ready ∨ ca.fingerprintSha256 = none ∨ ca.expiresAt = none))
    (hlive : ¬ ca.expiresAt.any (· ≤ s.clock) = true) :
    (gate.readinessState ca clientId s.clock).preflight =
      firstUnmet [(s.verified ca, .clientTrustUnverified),
        (s.verifiedFor (some clientId), .clientMismatch)] := by
  have hdisabled : ¬ (!gate.optedIn) = true := by simp [hopted]
  unfold readinessState Trust.verified Trust.verifiedFor
  rw [if_neg hdisabled, if_neg hca, if_neg hlive, hgate]
  show _ = firstUnmet [(gate.trustProof.any _, _), (gate.trustProof.any _, _)]
  cases gate.trustProof with
  | none => rfl
  | some proof =>
      show (if _ then TlsReadinessState.clientTrustUnverified else
        if _ then .clientMismatch else .ready).preflight = _
      by_cases hproof : some proof.issuerFingerprintSha256 ≠ ca.fingerprintSha256 ∨
          proof.expiresAt ≤ s.clock
      · rw [if_pos hproof, firstUnmet_unmet]
        · rfl
        · rcases hproof with hissuer | hexpired
          · simp [hissuer]
          · simp [hexpired]
      · rw [if_neg hproof]
        rw [not_or, Decidable.not_not, Nat.not_le] at hproof
        rw [firstUnmet_met (by simp [hproof.1, hproof.2])]
        by_cases hclient : proof.client.id = clientId
        · rw [if_neg (not_not_intro hclient), firstUnmet_met (by simp [hclient])]
          rfl
        · rw [if_pos hclient, firstUnmet_unmet (by simp [hclient])]
          rfl

/-- **The report is the first unmet condition**, when the gate is one that a check has opened. -/
theorem Trust.preflight_state {s : Trust}
    (hopted : ∀ gate, s.gate = some gate → gate.optedIn = true) (ca : CaStatus)
    (proxy : EngineStatus) :
    (s.preflight ca proxy).state = firstUnmet (s.conditions ca proxy) := by
  unfold Trust.preflight Trust.conditions
  by_cases hphase : proxy.phase = .running
  · rw [if_neg (not_not_intro hphase), firstUnmet_met (by simp [hphase])]
    cases hclient : proxy.clientProfileId with
    | none =>
        rw [firstUnmet_unmet (show (none : Option Str).isSome = false from rfl)]
        rfl
    | some clientId =>
        rw [firstUnmet_met (show (some clientId).isSome = true from rfl)]
        show (s.preflightFor ca clientId proxy.httpsInspection).state = _
        unfold Trust.preflightFor
        by_cases hca : ca.state ≠ .ready ∨ ca.fingerprintSha256 = none ∨ ca.expiresAt = none
        · rw [if_pos hca, firstUnmet_unmet]
          · rfl
          · rcases hca with hstate | hfingerprint | hexpires
            · simp [hstate]
            · simp [hfingerprint]
            · simp [hexpires]
        · have hpresent : (ca.state = .ready && ca.fingerprintSha256.isSome &&
              ca.expiresAt.isSome) = true := by
            rw [not_or, not_or, Decidable.not_not] at hca
            simp [hca.1, Option.isSome_iff_ne_none, hca.2.1, hca.2.2]
          rw [if_neg hca, firstUnmet_met hpresent]
          obtain ⟨expires, hexpires⟩ : ∃ expires, ca.expiresAt = some expires :=
            Option.isSome_iff_exists.mp (Bool.and_eq_true_iff.mp hpresent).2
          by_cases hlive : ca.expiresAt.any (· ≤ s.clock) = true
          · rw [if_pos hlive, firstUnmet_unmet (by simpa [hexpires] using hlive)]
            rfl
          · rw [if_neg hlive, firstUnmet_met (by simpa [hexpires] using hlive)]
            cases hgate : s.gate with
            | none =>
                have hread : s.readiness ca clientId = none := by rw [Trust.readiness, hgate]; rfl
                rw [hread, firstUnmet_unmet (by rw [Trust.verified, hgate]; rfl)]
                rfl
            | some gate =>
                have hread : s.readiness ca clientId =
                    some (gate.readinessAt ca clientId s.clock) := by
                  rw [Trust.readiness, hgate]
                  rfl
                rw [hread]
                exact gate.preflight_eq hgate (hopted gate hgate) hca hlive
  · rw [if_pos hphase, firstUnmet_unmet (by simp [hphase])]
    rfl

/-! ## A preparation at one instant -/

/-- The last check of the leaf issuer: is the leaf of the CA whose status it has read? -/
def CaStatus.admitLeaf (status : CaStatus) :
    Except String IssuedLeaf → Except String (Option IssuedLeaf)
  | .error message => .error message
  | .ok leaf =>
      if some leaf.issuerFingerprintSha256 ≠ status.fingerprintSha256 then
        .error "The local CA changed while preparing TLS interception."
      else .ok (some leaf)

/-- `prepare` with its leaf issuer, when all its steps fall on one instant; `status` and `issued`
are what the CA manager returns then. -/
def Trust.prepareNow (s : Trust) (tls : ProxyTlsInterception) (status : Except String CaStatus)
    (issued : Except String IssuedLeaf) (destination : DestinationClass)
    (clientProfileId : Option Str) : Except String (Option IssuedLeaf) :=
  if prepares (some tls) destination clientProfileId then
    match status with
    | .error message => .error message
    | .ok status => if s.canInspect status tls.profileId then status.admitLeaf issued else .ok none
  else .ok none

/-- The state with one more preparation, at that point. -/
def Trust.preparing (s : Trust) (p : Preparation) (point : PreparationPoint) : Trust :=
  { s with preparations := s.preparations ++ [{ p with point := point }] }

/-- Steps of the last preparation alone, all with that answer, take it from a point to its end. -/
def Trust.ComesTo (s : Trust) (p : Preparation) (answer : PreparationAnswer)
    (point : PreparationPoint) (result : Except String (Option IssuedLeaf)) : Prop :=
  ∃ n, (trust s.credential).runFrom (s.preparing p point)
      (List.replicate n (.preparation s.preparations.length answer)) =
    some (s.preparing p (.returned result))

theorem Trust.ComesTo.returned {s : Trust} {p : Preparation} {answer : PreparationAnswer}
    (result : Except String (Option IssuedLeaf)) :
    s.ComesTo p answer (.returned result) result :=
  ⟨0, rfl⟩

theorem Trust.ComesTo.step {s : Trust} {p : Preparation} {answer : PreparationAnswer}
    {point point' : PreparationPoint} {result : Except String (Option IssuedLeaf)}
    (hstep : s.preparationStep { p with point := point } answer = some point')
    (h : s.ComesTo p answer point' result) : s.ComesTo p answer point result := by
  obtain ⟨n, hrest⟩ := h
  refine ⟨n + 1, ?_⟩
  have hlast : (s.preparing p point).preparations[s.preparations.length]? =
      some { p with point := point } := by
    show (s.preparations ++ [_])[s.preparations.length]? = _
    rw [List.getElem?_append_right (Nat.le_refl _), Nat.sub_self]
    rfl
  have hmove : (trust s.credential).step (s.preparing p point)
      (.preparation s.preparations.length answer) = some (s.preparing p point') := by
    show ((s.preparing p point).preparations[s.preparations.length]?.bind _) = _
    rw [hlast]
    show ((s.preparationStep { p with point := point } answer).bind _) = _
    rw [hstep]
    refine congrArg some ?_
    show Trust.mk _ _ _ _ _ _ _ ((s.preparations ++ [_]).set _ _) _ _ = _
    rw [List.set_append_right _ _ (Nat.le_refl _), Nat.sub_self]
    rfl
  rw [List.replicate_succ, Machine.runFrom, hmove]
  exact hrest

/-- The leaf is issued, and admitted or not. -/
theorem Trust.step_ready (s : Trust) (p : Preparation) (fault : Option StoreFault)
    (leafFault : Option LeafFault) (status : CaStatus) :
    s.preparationStep { p with point := .ready status } (.go fault leafFault) =
      some (.returned (status.admitLeaf
        (CaManager.issueLeaf s.credential s.clock fault leafFault p.host p.destination))) := by
  unfold preparationStep
  show (match CaManager.issueLeaf s.credential s.clock fault leafFault p.host p.destination with
    | .error message => _
    | .ok leaf => _) = _
  cases CaManager.issueLeaf s.credential s.clock fault leafFault p.host p.destination with
  | error message => rfl
  | ok leaf =>
      show (if _ then _ else _) = some (PreparationPoint.returned (if _ then _ else _))
      split <;> rfl

/-- **A preparation at one instant** is `prepareNow`: the steps of `prepare` and of the leaf issuer,
made one after the other, come to what it computes. -/
theorem Trust.comesTo_prepareNow (s : Trust) (p : Preparation) (fault : Option StoreFault)
    (leafFault : Option LeafFault) :
    s.ComesTo p (.go fault leafFault) .invoked (s.prepareNow p.tls
      (CaManager.status s.credential fault)
      (CaManager.issueLeaf s.credential s.clock fault leafFault p.host p.destination)
      p.destination p.clientProfileId) := by
  unfold prepareNow
  by_cases hprepares : prepares (some p.tls) p.destination p.clientProfileId = true
  · rw [if_pos hprepares]
    have hinvoked : s.preparationStep { p with point := .invoked } (.go fault leafFault) =
        some .issuing := if_pos hprepares
    have hdevelopment : p.destination = .development := by
      simpa using (Bool.and_eq_true_iff.mp hprepares).1
    have hissuing : s.preparationStep { p with point := .issuing } (.go fault leafFault) =
        match CaManager.status s.credential fault with
        | .error message => some (.returned (.error message))
        | .ok status => some (.looked status) := if_neg (not_not_intro hdevelopment)
    refine .step hinvoked ?_
    cases hstatus : CaManager.status s.credential fault with
    | error message =>
        rw [hstatus] at hissuing
        exact .step hissuing (.returned _)
    | ok status =>
        rw [hstatus] at hissuing
        refine .step hissuing ?_
        show s.ComesTo p _ _ (if _ then _ else _)
        by_cases hinspect : s.canInspect status p.tls.profileId = true
        · rw [if_pos hinspect]
          have hlooked : s.preparationStep { p with point := .looked status }
              (.go fault leafFault) = some (.ready status) := if_pos hinspect
          refine .step hlooked ?_
          exact .step (s.step_ready p fault leafFault status) (.returned _)
        · rw [if_neg hinspect]
          have hlooked : s.preparationStep { p with point := .looked status }
              (.go fault leafFault) = some (.returned (.ok none)) := if_neg hinspect
          exact .step hlooked (.returned _)
  · rw [if_neg hprepares]
    have hinvoked : s.preparationStep { p with point := .invoked } (.go fault leafFault) =
        some (.returned (.ok none)) := if_neg hprepares
    exact .step hinvoked (.returned _)

/-! ## The report and the preparation -/

/-- Some leaf comes of a preparation only for the client of the interception, at an instant when
the gate has that client's proof. -/
theorem Trust.prepareNow_leaf {s : Trust} {tls : ProxyTlsInterception} {ca : CaStatus}
    {issued : Except String IssuedLeaf} {destination : DestinationClass}
    {clientProfileId : Option Str} {leaf : IssuedLeaf} :
    s.prepareNow tls (.ok ca) issued destination clientProfileId = .ok (some leaf) ↔
      destination = .development ∧ clientProfileId = some tls.profileId ∧
        s.canInspect ca tls.profileId = true ∧ issued = .ok leaf ∧
        some leaf.issuerFingerprintSha256 = ca.fingerprintSha256 := by
  have hasked : prepares (some tls) destination clientProfileId = true ↔
      destination = .development ∧ clientProfileId = some tls.profileId := by simp [prepares]
  have hadmit : ca.admitLeaf issued = .ok (some leaf) ↔ issued = .ok leaf ∧
      some leaf.issuerFingerprintSha256 = ca.fingerprintSha256 := by
    cases issued with
    | error message => simp [CaStatus.admitLeaf]
    | ok other =>
        show (if _ then _ else _) = _ ↔ _
        by_cases hissuer : some other.issuerFingerprintSha256 = ca.fingerprintSha256
        · rw [if_neg (not_not_intro hissuer)]
          constructor
          · intro h
            cases h
            exact ⟨rfl, hissuer⟩
          · rintro ⟨h, -⟩
            cases h
            rfl
        · rw [if_pos hissuer]
          constructor
          · intro h
            cases h
          · rintro ⟨h, hsame⟩
            cases h
            exact absurd hsame hissuer
  unfold prepareNow
  by_cases hprepares : prepares (some tls) destination clientProfileId = true
  · rw [if_pos hprepares]
    obtain ⟨hdestination, hclient⟩ := hasked.mp hprepares
    show (if _ then _ else _) = _ ↔ _
    by_cases hinspect : s.canInspect ca tls.profileId = true
    · rw [if_pos hinspect, hadmit]
      exact ⟨fun h => ⟨hdestination, hclient, hinspect, h⟩, fun h => h.2.2.2⟩
    · rw [if_neg hinspect]
      constructor
      · intro h
        cases h
      · rintro ⟨-, -, h, -⟩
        exact absurd h hinspect
  · rw [if_neg hprepares]
    constructor
    · intro h
      cases h
    · rintro ⟨hdestination, hclient, -⟩
      exact absurd (hasked.mpr ⟨hdestination, hclient⟩) hprepares

/-- What the preflight makes of the CA and the gate is what the gate makes of them. -/
theorem Trust.preflightFor_ready_iff {s : Trust} {ca : CaStatus} {clientId : Str}
    {httpsInspection : Bool} :
    (s.preflightFor ca clientId httpsInspection).state = .ready ↔
      s.canInspect ca clientId = true := by
  unfold preflightFor
  have hdead : ¬ ca.Live s.clock → ¬ s.canInspect ca clientId = true := fun hnot h =>
    hnot (Trust.canInspect_iff.mp h).1
  by_cases hca : ca.state ≠ .ready ∨ ca.fingerprintSha256 = none ∨ ca.expiresAt = none
  · rw [if_pos hca]
    have hnot : ¬ ca.Live s.clock := by
      rintro ⟨hstate, hfingerprint, expires, hexpires, -⟩
      rcases hca with h | h | h
      · exact h hstate
      · rw [h] at hfingerprint
        cases hfingerprint
      · cases h.symm.trans hexpires
    exact iff_of_false (fun h => nomatch h) (hdead hnot)
  · rw [if_neg hca]
    by_cases hexpired : ca.expiresAt.any (· ≤ s.clock) = true
    · rw [if_pos hexpired]
      have hnot : ¬ ca.Live s.clock := by
        rintro ⟨-, -, expires, hexpires, hlive⟩
        rw [hexpires] at hexpired
        exact absurd hlive (Nat.not_lt.mpr (of_decide_eq_true hexpired))
      exact iff_of_false (fun h => nomatch h) (hdead hnot)
    · rw [if_neg hexpired]
      unfold readiness canInspect
      cases s.gate with
      | none => exact iff_of_false (fun h => nomatch h) (fun h => nomatch h)
      | some gate =>
          show (gate.readinessState ca clientId s.clock).preflight = .ready ↔
            decide (gate.readinessState ca clientId s.clock = .ready) = true
          rw [TlsReadinessState.preflight_eq_ready, decide_eq_true_iff]

/-- Ready is reported when the proxy runs with a client that the gate lets inspect. -/
theorem Trust.preflight_ready_iff {s : Trust} {ca : CaStatus} {proxy : EngineStatus} :
    (s.preflight ca proxy).state = .ready ↔
      proxy.phase = .running ∧ ∃ clientId, proxy.clientProfileId = some clientId ∧
        s.canInspect ca clientId = true := by
  unfold preflight
  by_cases hphase : proxy.phase = .running
  · rw [if_neg (not_not_intro hphase)]
    cases hclient : proxy.clientProfileId with
    | none =>
        constructor
        · intro h
          cases h
        · rintro ⟨-, clientId, h, -⟩
          cases h
    | some clientId =>
        refine Iff.trans ?_ ⟨fun h => ⟨hphase, clientId, rfl, h⟩, ?_⟩
        · exact Trust.preflightFor_ready_iff
        · rintro ⟨-, other, h, hinspect⟩
          cases h
          exact hinspect
  · rw [if_pos hphase]
    constructor
    · intro h
      cases h
    · rintro ⟨h, -⟩
      exact absurd h hphase

/-- Inspection is reported active when it is configured and Ready is reported. -/
theorem Trust.preflight_active {s : Trust} {ca : CaStatus} {proxy : EngineStatus} :
    (s.preflight ca proxy).httpsInspectionActive = true ↔
      proxy.httpsInspection = true ∧ (s.preflight ca proxy).state = .ready := by
  have hfor {clientId : Str} {httpsInspection : Bool} :
      (s.preflightFor ca clientId httpsInspection).httpsInspectionActive = true ↔
        httpsInspection = true ∧
          (s.preflightFor ca clientId httpsInspection).state = .ready := by
    unfold preflightFor
    split
    · simp [TlsInspectionPreflight.blocked]
    · split
      · simp [TlsInspectionPreflight.blocked]
      · split
        · simp [TlsInspectionPreflight.blocked]
        · simp
  unfold preflight
  split
  · simp [TlsInspectionPreflight.blocked]
  · split
    · simp [TlsInspectionPreflight.blocked]
    · exact hfor

/-! ## The gate of a check -/

/-- A check that has been decided well has opted in. -/
theorem runCheck_optedIn {leaf : IssuedLeaf} {client : TlsClientIdentity} {visit : Visit}
    {gate : TlsInspectionGate} (h : runCheck leaf client visit = .ok gate) :
    gate.optedIn = true := by
  cases visit with
  | nobody => cases h
  | acceptFailed => cases h
  | client handshake written =>
      cases handshake with
      | error error => cases error <;> cases h
      | ok =>
          cases written with
          | false => cases h
          | true =>
              cases h
              rfl

/-- No gate but an opted-in one is in the manager, or on its way there. -/
structure Trust.OptedIn (s : Trust) : Prop where
  gate : ∀ gate, s.gate = some gate → gate.optedIn = true
  decided : ∀ check ∈ s.checks, ∀ gate, check.point = .decided (.ok gate) →
    gate.optedIn = true

theorem Trust.OptedIn.call {s s' : Trust} {k : Nat} {call : TrustCall} {answer : TrustCallAnswer}
    (h : s.OptedIn) (hmove : TrustCallMove s k call answer s') : s'.OptedIn := by
  have hnone : ∀ gate : TlsInspectionGate, none = some gate → gate.optedIn = true :=
    fun gate h => nomatch h
  cases hmove with
  | take hpoint hlock hrunning =>
      refine ⟨h.gate, fun check hcheck gate hdecided => ?_⟩
      obtain ⟨j, hj⟩ := List.mem_iff_getElem?.mp hcheck
      obtain ⟨before, aborted, hbefore, rfl, -⟩ := getElem?_abort hj
      exact h.decided before (List.mem_of_getElem? hbefore) gate hdecided
  | spawn hstarts hpoint =>
      refine ⟨h.gate, fun check hcheck gate hdecided => ?_⟩
      rcases List.mem_append.mp hcheck with hcheck | hcheck
      · exact h.decided check hcheck gate hdecided
      · rw [List.mem_singleton.mp hcheck] at hdecided
        cases hdecided
  | empty => exact ⟨hnone, h.decided⟩
  | close => exact ⟨hnone, h.decided⟩
  | _ => exact ⟨h.gate, h.decided⟩

theorem Trust.OptedIn.check {s s' : Trust} {i : Nat} {check : Check} (h : s.OptedIn)
    (hi : s.checks[i]? = some check) (hmove : CheckMove s i check s') : s'.OptedIn := by
  have hset {point : CheckPoint}
      (hpoint : ∀ gate, point = .decided (.ok gate) → gate.optedIn = true) :
      ∀ other ∈ s.checks.set i { check with point := point }, ∀ gate,
        other.point = .decided (.ok gate) → gate.optedIn = true := by
    intro other hother gate hdecided
    rcases List.mem_or_eq_of_mem_set hother with hother | rfl
    · exact h.decided other hother gate hdecided
    · exact hpoint gate hdecided
  cases hmove with
  | decide hpoint =>
      refine ⟨h.gate, hset fun gate hdecided => ?_⟩
      cases hrun : runCheck check.leaf check.client _ with
      | error failure =>
          rw [hrun] at hdecided
          cases hdecided
      | ok opened =>
          rw [hrun] at hdecided
          cases hdecided
          exact runCheck_optedIn hrun
  | cutOff hpoint haborted => exact ⟨h.gate, hset fun gate hdecided => nomatch hdecided⟩
  | openGate hpoint =>
      refine ⟨fun gate hgate => ?_, hset fun gate hdecided => nomatch hdecided⟩
      cases hgate
      exact h.decided check (List.mem_of_getElem? hi) _ hpoint
  | fail hpoint => exact ⟨h.gate, hset fun gate hdecided => nomatch hdecided⟩
  | report hpoint => exact ⟨h.gate, hset fun gate hdecided => nomatch hdecided⟩

/-- **Every gate of the manager is opted in.** -/
theorem Trust.optedIn {credential : Option Credential} {s : Trust}
    (h : (trust credential).Reachable s) : s.OptedIn := by
  refine h.invariant ⟨(fun _ h => nomatch h), (fun _ h => nomatch h)⟩ ?_
  intro s s' e hs _ hstep
  cases Trust.step_move hstep with
  | invoke hcall => exact ⟨hs.gate, hs.decided⟩
  | call hk hmove => exact hs.call hmove
  | check hi hmove => exact hs.check hi hmove
  | aside => exact ⟨hs.gate, hs.decided⟩

end SippinSoda
