import SippinSoda.Tls.Gate
import SippinSoda.Host

/-!
# The local CA (`ca.rs`)

The CA is one entry of the credential store. `CaManager` reads and writes it under its
lifecycle lock, so each of its calls is one step.

* **load**, **generate**, **remove** — what the calls make of the entry;
* **issueLeaf** — a leaf for one host, never beyond the CA's expiry.

Keys and certificates are those of the CA with that fingerprint; what the certificate library
and the credential store may refuse are arguments.
-/

namespace SippinSoda

/-! ## The entry -/

/-- `StoredCa`; times in milliseconds. -/
structure StoredCa where
  fingerprintSha256 : Str
  expiresAt : Nat
  deriving DecidableEq, Repr

/-- What the credential store has under the account: a CA, or bytes that are none. -/
inductive Credential where
  | ca (ca : StoredCa)
  | invalid
  deriving DecidableEq, Repr

/-- How the credential store can fail. -/
inductive StoreFault where
  | unavailable
  | unreadable
  deriving DecidableEq, Repr

def StoreFault.message : StoreFault → String
  | .unavailable => "The operating-system credential store is unavailable."
  | .unreadable => "Cannot read the local CA from the credential store."

/-- `CaStatus::absent`. -/
def CaStatus.absent : CaStatus := ⟨.absent, none, none⟩

/-- `status_from`. -/
def StoredCa.status (ca : StoredCa) : CaStatus :=
  ⟨.ready, some ca.fingerprintSha256, some ca.expiresAt⟩

/-! ## Issuing -/

/-- What the certificate library may refuse while a leaf is made. -/
inductive LeafFault where
  | caKey
  | caCertificate
  | parameters
  | hostKey
  | signature
  deriving DecidableEq, Repr

def LeafFault.message : LeafFault → String
  | .caKey => "The stored local CA private key is invalid."
  | .caCertificate => "The stored local CA certificate is invalid."
  | .parameters => "Cannot initialize host certificate parameters."
  | .hostKey => "Cannot generate the host private key."
  | .signature => "Cannot sign the host certificate with the local CA."

/-- Does the fault come to light when the CA is read, before its expiry is looked at? -/
def LeafFault.ofCa : LeafFault → Bool
  | .caKey | .caCertificate => true
  | _ => false

/-- The last second `OffsetDateTime` can represent. -/
def lastTimestamp : Nat := 253402300799

/-- `normalize_leaf_host`. -/
def normalizeLeafHost (host : Str) : Except String Str :=
  let host := Str.toAsciiLowercase (Str.trimEndMatches (· == '.') (trimBrackets (Str.trim host)))
  if host.isEmpty || 253 < Str.len host || !Str.isAscii host ||
      ((parseIpAddr host).isNone && !validHostname host) then
    .error "Host certificates require a valid DNS name or IP address without a port."
  else .ok host

/-- `issue_leaf_from_ca`. -/
def StoredCa.issueLeaf (ca : StoredCa) (now : Nat) (fault : Option LeafFault) (host : Str)
    (destination : DestinationClass) : Except String IssuedLeaf :=
  if !authorized destination .inspectTls then
    .error "TLS certificates can be issued only for Development destinations."
  else match normalizeLeafHost host with
    | .error message => .error message
    | .ok host =>
      match fault.filter LeafFault.ofCa with
      | some fault => .error fault.message
      | none =>
        if lastTimestamp < ca.expiresAt / 1000 then .error "The stored local CA expiry is invalid."
        else
          let expires := min (now + 24 * 3600 * 1000) (ca.expiresAt / 1000 * 1000)
          if expires ≤ now then .error "The local CA has expired; remove and regenerate it."
          else match fault with
            | some fault => .error fault.message
            | none =>
                .ok {
                  issuerFingerprintSha256 := ca.fingerprintSha256
                  host := host
                  expiresAt := expires / 1000 * 1000 }

/-- A leaf names the CA that issued it. -/
theorem StoredCa.issueLeaf_issuer {ca : StoredCa} {now : Nat} {fault : Option LeafFault}
    {host : Str} {destination : DestinationClass} {leaf : IssuedLeaf}
    (h : ca.issueLeaf now fault host destination = .ok leaf) :
    destination = .development ∧ leaf.issuerFingerprintSha256 = ca.fingerprintSha256 := by
  unfold StoredCa.issueLeaf at h
  split at h
  · cases h
  next hallowed =>
    have hactive : Action.inspectTls ≠ .observe := by decide
    have hdevelopment : destination = .development :=
      (authorized_iff hactive).mp (by simpa using hallowed)
    split at h
    · cases h
    · split at h
      · cases h
      · split at h
        · cases h
        · simp only at h
          split at h
          · cases h
          · split at h
            · cases h
            · cases h
              exact ⟨hdevelopment, rfl⟩

/-! ## The manager -/

namespace CaManager

/-- `CaManager::load`. -/
def load (credential : Option Credential) : Option StoreFault → Except String (Option StoredCa)
  | some fault => .error fault.message
  | none =>
    match credential with
    | none => .ok none
    | some (.ca ca) => .ok (some ca)
    | some .invalid => .error "The stored local CA is invalid; remove and regenerate it."

/-- `CaManager::status`. -/
def status (credential : Option Credential) (fault : Option StoreFault) : Except String CaStatus :=
  (load credential fault).map fun ca => (ca.map StoredCa.status).getD .absent

/-- `generate_ca`, with the fingerprint of the certificate it makes. -/
def generateCa (now : Nat) (fingerprint : Str) : StoredCa where
  fingerprintSha256 := fingerprint
  expiresAt := (now / 1000 + 5 * 365 * 24 * 3600) * 1000

/-- `CaManager::generate`: what it returns, and the entry after it. `made` is the fingerprint of
the new CA, or why none could be made or saved. -/
def generate (credential : Option Credential) (now : Nat) (consent : Bool)
    (fault : Option StoreFault) (made : Except String Str) :
    Except String CaStatus × Option Credential :=
  if !consent then
    (.error "Explicit consent is required before generating a local CA.", credential)
  else match load credential fault with
    | .error message => (.error message, credential)
    | .ok (some _) =>
        (.error "A local CA already exists. Remove it before generating a replacement.", credential)
    | .ok none =>
      match made with
      | .error message => (.error message, credential)
      | .ok fingerprint =>
          let ca := generateCa now fingerprint
          (.ok ca.status, some (.ca ca))

/-- `CaManager::remove`; `refused` is why the credential store would not delete the entry. -/
def remove (credential : Option Credential) (confirmed : Bool) (refused : Option String) :
    Except String CaStatus × Option Credential :=
  if !confirmed then
    (.error "Explicit confirmation is required before removing local CA material.", credential)
  else match refused with
    | some message => (.error message, credential)
    | none => (.ok .absent, none)

/-- `CaManager::issue_leaf`. -/
def issueLeaf (credential : Option Credential) (now : Nat) (fault : Option StoreFault)
    (leafFault : Option LeafFault) (host : Str) (destination : DestinationClass) :
    Except String IssuedLeaf :=
  if !authorized destination .inspectTls then
    .error "TLS certificates can be issued only for Development destinations."
  else match load credential fault with
    | .error message => .error message
    | .ok none => .error "Generate the local CA before issuing a host certificate."
    | .ok (some ca) => ca.issueLeaf now leafFault host destination

end CaManager

end SippinSoda
