import SippinSoda.Policy
import SippinSoda.Basic
import SippinSoda.Lib.Machine

/-!
# The TLS inspection gate (`tls_intercept.rs`)

The gate holds the proof that a client accepted a leaf of the local CA. It is a state of two
fields under two operations; readiness is read from it, a CA status and the time.

* **identities** — client profiles, valid by construction;
* **gate** — `set_opt_in`, `verify_client_trust` with every way it can end, `readiness_at`;
* **history** — Ready is exactly that the last verification since the last opt-in change
  succeeded, for this client, with a live leaf of this CA.
-/

namespace SippinSoda

/-! ## Identities -/

/-- The characters of profile IDs and of proxy client tokens. -/
def isIdChar (c : Char) : Bool := Str.isAsciiAlphanumeric c || c == '-' || c == '_'

/-- `char::is_control`. -/
def isControl (c : Char) : Bool := c.toNat < 32 || (127 ≤ c.toNat && c.toNat < 160)

/-- What `validate_id` asks of a trimmed ID. -/
def validId (id : Str) : Bool := !id.isEmpty && id.len ≤ 64 && id.all isIdChar

/-- What `TlsClientIdentity::new` asks of a trimmed name. -/
def validName (name : Str) : Bool := !name.isEmpty && name.length ≤ 80 && !name.any isControl

structure TlsClientIdentity where
  id : Str
  name : Str
  valid : validId id = true ∧ validName name = true
  deriving DecidableEq

/-- `TlsClientIdentity::validate_id`. -/
def TlsClientIdentity.validateId (id : Str) : Except String Str :=
  if validId (Str.trim id) then .ok (Str.trim id)
  else .error "Client profile IDs must use 1-64 letters, numbers, '-' or '_'."

/-- What `validate_id` returns is trimmed and valid. -/
theorem TlsClientIdentity.validateId_ok {id id' : Str} (h : validateId id = .ok id') :
    id' = Str.trim id ∧ validId id' = true := by
  unfold validateId at h
  split at h
  · cases h
    exact ⟨rfl, ‹_›⟩
  · cases h

/-! ## The gate -/

/-- `CaStatus::state`. -/
inductive CaState where
  | absent
  | ready
  deriving DecidableEq, Repr

/-- `CaStatus`, as far as readiness reads it. -/
structure CaStatus where
  state : CaState
  fingerprintSha256 : Option Str
  expiresAt : Option Nat
  deriving DecidableEq, Repr

/-- `IssuedLeaf`; the key material is the one of the issuer with that fingerprint. -/
structure IssuedLeaf where
  issuerFingerprintSha256 : Str
  host : Str
  expiresAt : Nat
  deriving DecidableEq, Repr

/-- `TlsClientTrustProof`. -/
structure TlsClientTrustProof where
  issuerFingerprintSha256 : Str
  verifiedHost : Str
  client : TlsClientIdentity
  expiresAt : Nat
  deriving DecidableEq

/-- The proof `client_trust_handshake` prepares. -/
def IssuedLeaf.proof (leaf : IssuedLeaf) (identity : TlsClientIdentity) : TlsClientTrustProof where
  issuerFingerprintSha256 := leaf.issuerFingerprintSha256
  verifiedHost := leaf.host
  client := identity
  expiresAt := leaf.expiresAt

/-- `TlsTrustError`. -/
inductive TlsTrustError where
  | inspectionDisabled
  | invalidLeafMaterial
  | handshakeTimeout
  | clientRejectedCertificate
  deriving DecidableEq, Repr

/-- How a handshake ends: with an error, accepted by the client, or with its future dropped. -/
inductive Handshake where
  | accepted
  | failed (error : TlsTrustError)
  | dropped
  deriving DecidableEq, Repr

/-- `TlsReadinessState`. -/
inductive TlsReadinessState where
  | disabled
  | missingCa
  | expiredCa
  | clientTrustUnverified
  | clientMismatch
  | ready
  deriving DecidableEq, Repr

/-- `TlsInspectionReadiness`. -/
structure TlsInspectionReadiness where
  state : TlsReadinessState
  canInspectDevelopment : Bool
  verifiedHost : Option Str
  verifiedClient : Option TlsClientIdentity
  proofExpiresAt : Option Nat
  deriving DecidableEq

structure TlsInspectionGate where
  optedIn : Bool
  trustProof : Option TlsClientTrustProof
  deriving DecidableEq

namespace TlsInspectionGate

def default : TlsInspectionGate := ⟨false, none⟩

/-- `set_opt_in`. -/
def setOptIn (gate : TlsInspectionGate) (enabled : Bool) : TlsInspectionGate where
  optedIn := enabled
  trustProof := if gate.optedIn = enabled then gate.trustProof else none

/-- `verify_client_trust`: the gate after it, and what it returned if it was not dropped. -/
def verifyClientTrust (gate : TlsInspectionGate) (leaf : IssuedLeaf) (identity : TlsClientIdentity)
    (handshake : Handshake) : TlsInspectionGate × Option (Except TlsTrustError Unit) :=
  if !gate.optedIn then (gate, some (.error .inspectionDisabled))
  else
    let gate := { gate with trustProof := none }
    match handshake with
    | .accepted => ({ gate with trustProof := some (leaf.proof identity) }, some (.ok ()))
    | .failed error => (gate, some (.error error))
    | .dropped => (gate, none)

/-- The state of `readiness_at`. -/
def readinessState (gate : TlsInspectionGate) (ca : CaStatus) (clientId : Str) (now : Nat) :
    TlsReadinessState :=
  if !gate.optedIn then .disabled
  else if ca.state ≠ .ready ∨ ca.fingerprintSha256 = none ∨ ca.expiresAt = none then .missingCa
  else if ca.expiresAt.any (· ≤ now) then .expiredCa
  else match gate.trustProof with
    | none => .clientTrustUnverified
    | some proof =>
        if some proof.issuerFingerprintSha256 ≠ ca.fingerprintSha256 ∨ proof.expiresAt ≤ now then
          .clientTrustUnverified
        else if proof.client.id ≠ clientId then .clientMismatch
        else .ready

/-- `readiness_at`. -/
def readinessAt (gate : TlsInspectionGate) (ca : CaStatus) (clientId : Str) (now : Nat) :
    TlsInspectionReadiness :=
  let state := gate.readinessState ca clientId now
  let proof := if state = .ready then gate.trustProof else none
  { state
    canInspectDevelopment := state = .ready
    verifiedHost := proof.map (·.verifiedHost)
    verifiedClient := proof.map (·.client)
    proofExpiresAt := proof.map (·.expiresAt) }

end TlsInspectionGate

/-! ## Readiness is a live, matching proof -/

/-- Is the CA there, and has it not expired? -/
def CaStatus.Live (ca : CaStatus) (now : Nat) : Prop :=
  ca.state = .ready ∧ ca.fingerprintSha256.isSome = true ∧
    ∃ expires, ca.expiresAt = some expires ∧ now < expires

/-- Ready, spelled out over the fields of the gate. -/
theorem TlsInspectionGate.ready_iff {gate : TlsInspectionGate} {ca : CaStatus} {clientId : Str}
    {now : Nat} : gate.readinessState ca clientId now = .ready ↔
      gate.optedIn = true ∧ ca.Live now ∧ ∃ proof, gate.trustProof = some proof ∧
        some proof.issuerFingerprintSha256 = ca.fingerprintSha256 ∧ now < proof.expiresAt ∧
        proof.client.id = clientId := by
  unfold readinessState CaStatus.Live
  constructor
  · intro h
    split at h
    · cases h
    next hopted =>
      split at h
      · cases h
      next hca =>
        split at h
        · cases h
        next hexpired =>
          split at h
          · cases h
          next proof hproof =>
            split at h
            · cases h
            next hlive =>
              split at h
              · cases h
              next hclient =>
                rw [not_or, not_or] at hca
                rw [not_or, Decidable.not_not, Nat.not_le] at hlive
                obtain ⟨expires, hexpires⟩ := Option.ne_none_iff_exists'.mp hca.2.2
                refine ⟨by simpa using hopted, ⟨Decidable.not_not.mp hca.1,
                  Option.isSome_iff_ne_none.mpr hca.2.1, expires, hexpires, ?_⟩,
                  proof, hproof, hlive.1, hlive.2, Decidable.not_not.mp hclient⟩
                simpa [hexpires] using hexpired
  · rintro ⟨hopted, ⟨hstate, hfingerprint, expires, hexpires, hlive⟩, proof, hproof, hissuer,
      hproofLive, hclient⟩
    have hsome : ca.fingerprintSha256 ≠ none := Option.isSome_iff_ne_none.mp hfingerprint
    rw [if_neg (by simp [hopted]), if_neg (by simp [hstate, hsome, hexpires]),
      if_neg (by simpa [hexpires] using hlive), hproof]
    show (if _ then _ else _) = _
    rw [if_neg (by simpa [hissuer] using hproofLive), if_neg (by simpa using hclient)]

/-! ## Histories -/

/-- The operations on a gate; a verification with how its handshake ends. -/
inductive GateOp where
  | setOptIn (enabled : Bool)
  | verify (leaf : IssuedLeaf) (identity : TlsClientIdentity) (handshake : Handshake)
  deriving DecidableEq

def TlsInspectionGate.apply (gate : TlsInspectionGate) : GateOp → TlsInspectionGate
  | .setOptIn enabled => gate.setOptIn enabled
  | .verify leaf identity handshake => (gate.verifyClientTrust leaf identity handshake).1

/-- The gate after a list of operations. -/
def TlsInspectionGate.after (ops : List GateOp) : TlsInspectionGate :=
  ops.foldl TlsInspectionGate.apply .default

/-- The opt-in flag after a list of operations: the last value set. -/
def optIn (ops : List GateOp) : Bool :=
  ops.foldl (fun flag op => match op with | .setOptIn enabled => enabled | _ => flag) false

/-- The most recent verification begun since the last change of the flag is this one. -/
def LastAttempt (ops : List GateOp) (leaf : IssuedLeaf) (identity : TlsClientIdentity)
    (handshake : Handshake) : Prop :=
  ∃ before after, ops = before ++ .verify leaf identity handshake :: after ∧
    ∀ op ∈ after, op = .setOptIn (optIn before)

theorem TlsInspectionGate.after_concat (ops : List GateOp) (op : GateOp) :
    after (ops ++ [op]) = (after ops).apply op := by
  rw [after, List.foldl_append]
  rfl

theorem optIn_concat_setOptIn (ops : List GateOp) (enabled : Bool) :
    optIn (ops ++ [.setOptIn enabled]) = enabled := by
  rw [optIn, List.foldl_append]
  rfl

theorem optIn_concat_verify (ops : List GateOp) (leaf : IssuedLeaf) (identity : TlsClientIdentity)
    (handshake : Handshake) : optIn (ops ++ [.verify leaf identity handshake]) = optIn ops := by
  rw [optIn, List.foldl_append]
  rfl

/-- The flag is the one set last. -/
theorem TlsInspectionGate.after_optedIn (ops : List GateOp) : (after ops).optedIn = optIn ops := by
  induction ops using List.reverseRecOn with
  | nil => rfl
  | append_singleton ops op ih =>
      rw [after_concat]
      cases op with
      | setOptIn enabled => rw [optIn_concat_setOptIn]; rfl
      | verify leaf identity handshake =>
          rw [optIn_concat_verify, ← ih]
          show ((after ops).verifyClientTrust leaf identity handshake).1.optedIn = _
          unfold verifyClientTrust
          split
          · rfl
          · cases handshake <;> rfl

/-- Setting a flag to what it is changes nothing. -/
theorem optIn_append_of_same {before after : List GateOp}
    (h : ∀ op ∈ after, op = .setOptIn (optIn before)) : optIn (before ++ after) = optIn before := by
  induction after using List.reverseRecOn with
  | nil => rw [List.append_nil]
  | append_singleton after op ih =>
      rw [h op (by simp), ← List.append_assoc, optIn_concat_setOptIn]

/-- The flag has not changed since the last attempt. -/
theorem LastAttempt.optIn_eq {before after : List GateOp} {leaf : IssuedLeaf}
    {identity : TlsClientIdentity} {handshake : Handshake}
    (h : ∀ op ∈ after, op = .setOptIn (optIn before)) :
    optIn (before ++ .verify leaf identity handshake :: after) = optIn before := by
  rw [List.append_cons, optIn_append_of_same, optIn_concat_verify]
  rwa [optIn_concat_verify]

/-- Setting the flag keeps the last attempt, if it does not change it. -/
theorem lastAttempt_setOptIn {ops : List GateOp} {enabled : Bool} {leaf : IssuedLeaf}
    {identity : TlsClientIdentity} {handshake : Handshake} :
    LastAttempt (ops ++ [.setOptIn enabled]) leaf identity handshake ↔
      enabled = optIn ops ∧ LastAttempt ops leaf identity handshake := by
  constructor
  · rintro ⟨before, after, hops, hafter⟩
    rcases Machine.concat_eq_append_cons hops with ⟨-, -, hlast⟩ | ⟨after, rfl, rfl⟩
    · cases hlast
    · have hsame : ∀ op ∈ after, op = .setOptIn (optIn before) := fun op hop =>
        hafter op (List.mem_append_left _ hop)
      have hlast := hafter (.setOptIn enabled) (by simp)
      rw [LastAttempt.optIn_eq hsame]
      cases hlast
      exact ⟨rfl, before, after, rfl, hsame⟩
  · rintro ⟨rfl, before, after, rfl, hafter⟩
    refine ⟨before, after ++ [.setOptIn (optIn before)], ?_, fun op hop => ?_⟩
    · rw [LastAttempt.optIn_eq hafter]
      simp
    rcases List.mem_append.mp hop with hop | hop
    · exact hafter op hop
    · exact List.mem_singleton.mp hop

/-- A verification is the last attempt when it begins. -/
theorem lastAttempt_verify {ops : List GateOp} {leaf leaf' : IssuedLeaf}
    {identity identity' : TlsClientIdentity} {handshake handshake' : Handshake} :
    LastAttempt (ops ++ [.verify leaf identity handshake]) leaf' identity' handshake' ↔
      leaf' = leaf ∧ identity' = identity ∧ handshake' = handshake := by
  constructor
  · rintro ⟨before, after, hops, hafter⟩
    rcases Machine.concat_eq_append_cons hops with ⟨-, -, hlast⟩ | ⟨after, rfl, -⟩
    · cases hlast
      exact ⟨rfl, rfl, rfl⟩
    · have hlast := hafter (.verify leaf identity handshake) (by simp)
      cases hlast
  · rintro ⟨rfl, rfl, rfl⟩
    exact ⟨ops, [], rfl, fun op hop => nomatch hop⟩

/-- **The gate's invariant**: it holds the proof of the last attempt, if that was accepted. -/
theorem TlsInspectionGate.trustProof_iff (ops : List GateOp) (proof : TlsClientTrustProof) :
    (after ops).trustProof = some proof ↔ optIn ops = true ∧
      ∃ leaf identity, LastAttempt ops leaf identity .accepted ∧ proof = leaf.proof identity := by
  induction ops using List.reverseRecOn with
  | nil =>
      constructor
      · intro h
        cases h
      · rintro ⟨h, -⟩
        cases h
  | append_singleton ops op ih =>
      rw [after_concat]
      cases op with
      | setOptIn enabled =>
          show (if (after ops).optedIn = enabled then (after ops).trustProof else none) = some proof ↔ _
          rw [after_optedIn, optIn_concat_setOptIn]
          simp only [lastAttempt_setOptIn]
          by_cases hsame : optIn ops = enabled
          · subst hsame
            rw [if_pos rfl, ih]
            simp only [true_and]
          · rw [if_neg hsame]
            constructor
            · intro h
              cases h
            · rintro ⟨-, leaf, identity, ⟨heq, -⟩, -⟩
              exact absurd heq.symm hsame
      | verify leaf identity handshake =>
          show ((after ops).verifyClientTrust leaf identity handshake).1.trustProof = some proof ↔ _
          rw [optIn_concat_verify]
          simp only [lastAttempt_verify]
          by_cases hopted : optIn ops = true
          · have hnot : (!(after ops).optedIn) = false := by rw [after_optedIn, hopted]; rfl
            rw [verifyClientTrust, hnot]
            cases handshake with
            | accepted =>
                refine ⟨fun h => ⟨hopted, leaf, identity, ⟨rfl, rfl, rfl⟩, (Option.some.inj h).symm⟩, ?_⟩
                rintro ⟨-, leaf, identity, ⟨rfl, rfl, -⟩, rfl⟩
                rfl
            | failed error =>
                constructor
                · intro h
                  cases h
                · rintro ⟨-, _, _, ⟨-, -, h⟩, -⟩
                  cases h
            | dropped =>
                constructor
                · intro h
                  cases h
                · rintro ⟨-, _, _, ⟨-, -, h⟩, -⟩
                  cases h
          · have hnot : (!(after ops).optedIn) = true := by
              rw [after_optedIn, Bool.eq_false_iff.mpr hopted]; rfl
            rw [verifyClientTrust, hnot]
            show (after ops).trustProof = some proof ↔ _
            rw [ih]
            exact ⟨fun h => absurd h.1 hopted, fun h => absurd h.1 hopted⟩

/-! ## The result -/

/-- Is the gate ready after these operations, for that client at that time? -/
def TlsInspectionGate.ReadyAfter (ops : List GateOp) (ca : CaStatus) (clientId : Str) (now : Nat) :
    Prop :=
  ((after ops).readinessAt ca clientId now).state = .ready

instance (ops : List GateOp) (ca : CaStatus) (clientId : Str) (now : Nat) :
    Decidable (TlsInspectionGate.ReadyAfter ops ca clientId now) :=
  inferInstanceAs (Decidable (_ = _))

/-- Ready, spelled out over the history of the gate. -/
theorem TlsInspectionGate.readyAfter_iff (ops : List GateOp) (ca : CaStatus) (clientId : Str)
    (now : Nat) : ReadyAfter ops ca clientId now ↔
      optIn ops = true ∧ ca.Live now ∧ ∃ leaf identity, LastAttempt ops leaf identity .accepted ∧
        identity.id = clientId ∧ some leaf.issuerFingerprintSha256 = ca.fingerprintSha256 ∧
        now < leaf.expiresAt := by
  show (after ops).readinessState ca clientId now = .ready ↔ _
  rw [ready_iff, after_optedIn]
  simp only [trustProof_iff]
  constructor
  · rintro ⟨hopted, hca, _, ⟨-, leaf, identity, hlast, rfl⟩, hissuer, hlive, hclient⟩
    exact ⟨hopted, hca, leaf, identity, hlast, hclient, hissuer, hlive⟩
  · rintro ⟨hopted, hca, leaf, identity, hlast, hclient, hissuer, hlive⟩
    exact ⟨hopted, hca, _, ⟨hopted, leaf, identity, hlast, rfl⟩, hissuer, hlive, hclient⟩

/-- An attempt that later operations have not made was there before them. -/
theorem LastAttempt.of_append {ops more : List GateOp} {leaf : IssuedLeaf}
    {identity : TlsClientIdentity} {handshake : Handshake}
    (h : LastAttempt (ops ++ more) leaf identity handshake)
    (hmore : .verify leaf identity handshake ∉ more) :
    LastAttempt ops leaf identity handshake ∧ optIn (ops ++ more) = optIn ops := by
  induction more using List.reverseRecOn with
  | nil =>
      rw [List.append_nil] at h ⊢
      exact ⟨h, rfl⟩
  | append_singleton more op ih =>
      rw [← List.append_assoc] at h ⊢
      cases op with
      | setOptIn enabled =>
          obtain ⟨heq, h⟩ := lastAttempt_setOptIn.mp h
          have hold := ih h fun hmem => hmore (List.mem_append_left _ hmem)
          exact ⟨hold.1, by rw [optIn_concat_setOptIn, heq]; exact hold.2⟩
      | verify leaf' identity' handshake' =>
          obtain ⟨rfl, rfl, rfl⟩ := lastAttempt_verify.mp h
          exact absurd (by simp) hmore

/-- **Readiness is exactly a live, matching handshake**: the gate is Ready if and only if it is
opted in, the CA is there and live, and the last verification since the last change of the flag
was accepted, for this client, with a leaf of this CA that is live. What has ended readiness is
undone by no operation but another accepted verification. -/
theorem readiness_is_last_handshake (ops : List GateOp) (ca : CaStatus) (clientId : Str)
    (now : Nat) :
    (TlsInspectionGate.ReadyAfter ops ca clientId now ↔
      optIn ops = true ∧ ca.Live now ∧ ∃ leaf identity, LastAttempt ops leaf identity .accepted ∧
        identity.id = clientId ∧ some leaf.issuerFingerprintSha256 = ca.fingerprintSha256 ∧
        now < leaf.expiresAt) ∧
    ∀ more later, now ≤ later → ¬ TlsInspectionGate.ReadyAfter ops ca clientId now →
      TlsInspectionGate.ReadyAfter (ops ++ more) ca clientId later →
      ∃ leaf identity, .verify leaf identity .accepted ∈ more ∧ identity.id = clientId := by
  refine ⟨TlsInspectionGate.readyAfter_iff ops ca clientId now, ?_⟩
  intro more later hlater hended hready
  obtain ⟨hopted, ⟨hstate, hfingerprint, expires, hexpires, hcaLive⟩, leaf, identity, hlast,
    hclient, hissuer, hlive⟩ := (TlsInspectionGate.readyAfter_iff ..).mp hready
  by_cases hmore : GateOp.verify leaf identity .accepted ∈ more
  · exact ⟨leaf, identity, hmore, hclient⟩
  · obtain ⟨hold, hflag⟩ := hlast.of_append hmore
    refine absurd ((TlsInspectionGate.readyAfter_iff ..).mpr ?_) hended
    exact ⟨hflag ▸ hopted, ⟨hstate, hfingerprint, expires, hexpires, by omega⟩, leaf, identity,
      hold, hclient, hissuer, by omega⟩

/-- An opt-out ends readiness, and opting in again does not restore it. -/
example (leaf : IssuedLeaf) (identity : TlsClientIdentity) (ca : CaStatus) (now : Nat) :
    ¬ TlsInspectionGate.ReadyAfter
      [.setOptIn true, .verify leaf identity .accepted, .setOptIn false, .setOptIn true] ca
      identity.id now := by
  intro h
  have hready : TlsInspectionGate.readinessState ⟨true, none⟩ ca identity.id now = .ready := h
  obtain ⟨-, -, proof, hproof, -⟩ := TlsInspectionGate.ready_iff.mp hready
  cases hproof

end SippinSoda
