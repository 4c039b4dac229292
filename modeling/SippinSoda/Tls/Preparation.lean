import SippinSoda.Tls.TrustSteps
import SippinSoda.Engine.Task

/-!
# TLS is terminated with a proven chain

A preparation reads the CA's status, then the gate, then issues a leaf; CA and gate may change
in between. What it returns is a leaf of the CA whose status it read, which the gate had proved
at the moment the gate was read.
-/

namespace SippinSoda

/-- The step is the one in which preparation `k` reads that status of the CA. -/
def Trust.Looks (k : Nat) (status : CaStatus) (s : Trust) (e : TrustEvent) : Prop :=
  ∃ fault leafFault, e = .preparation k (.go fault leafFault) ∧
    (s.preparations[k]?).map Preparation.point = some .issuing ∧
    CaManager.status s.credential fault = .ok status

/-- The step is the one in which preparation `k` reads the gate, with that status: the gate holds
a live proof that this client accepted a leaf of this CA, which is live too. -/
def Trust.Proves (k : Nat) (clientId : Str) (status : CaStatus) (s : Trust) (e : TrustEvent) :
    Prop :=
  (∃ fault leafFault, e = .preparation k (.go fault leafFault)) ∧
    (s.preparations[k]?).map Preparation.point = some (.looked status) ∧ status.Live s.clock ∧
    ∃ gate proof, s.gate = some gate ∧ gate.trustProof = some proof ∧ proof.client.id = clientId ∧
      s.clock < proof.expiresAt ∧ some proof.issuerFingerprintSha256 = status.fingerprintSha256

/-- The run holds the step in which preparation `k` found a proof, and before it the one in which
it read the CA's status. -/
def ProvenIn (credential : Option Credential) (k : Nat) (clientId : Str) (status : CaStatus) :
    List TrustEvent → Prop :=
  (trust credential).Once fun before s e =>
    (trust credential).Once (fun _ s e => s.Looks k status e) before ∧ s.Proves k clientId status e

/-- What a preparation has behind it, by where it stands. -/
inductive Prepared (credential : Option Credential) (es : List TrustEvent) (k : Nat)
    (p : Preparation) : PreparationPoint → Prop
  | invoked : Prepared credential es k p .invoked
  | issuing : prepares (some p.tls) p.destination p.clientProfileId = true →
      Prepared credential es k p .issuing
  | looked {status} : prepares (some p.tls) p.destination p.clientProfileId = true →
      (trust credential).Once (fun _ s e => s.Looks k status e) es →
      Prepared credential es k p (.looked status)
  | ready {status} : prepares (some p.tls) p.destination p.clientProfileId = true →
      ProvenIn credential k p.tls.profileId status es → Prepared credential es k p (.ready status)
  | refused {result} : (∀ leaf, result ≠ .ok (some leaf)) →
      Prepared credential es k p (.returned result)
  | returned {status leaf} : prepares (some p.tls) p.destination p.clientProfileId = true →
      ProvenIn credential k p.tls.profileId status es →
      some leaf.issuerFingerprintSha256 = status.fingerprintSha256 →
      Prepared credential es k p (.returned (.ok (some leaf)))

theorem Prepared.append {credential : Option Credential} {es : List TrustEvent} {k : Nat}
    {p : Preparation} {point : PreparationPoint} (h : Prepared credential es k p point)
    (fs : List TrustEvent) : Prepared credential (es ++ fs) k p point := by
  cases h with
  | invoked => exact .invoked
  | issuing hprepares => exact .issuing hprepares
  | looked hprepares hlooked => exact .looked hprepares (hlooked.append fs)
  | ready hprepares hproven => exact .ready hprepares (hproven.append fs)
  | refused hnone => exact .refused hnone
  | returned hprepares hproven hissuer => exact .returned hprepares (hproven.append fs) hissuer

/-- Readiness is read as a live, matching proof. -/
theorem Trust.canInspect_iff {s : Trust} {ca : CaStatus} {clientId : Str} :
    s.canInspect ca clientId = true ↔ ca.Live s.clock ∧
      ∃ gate proof, s.gate = some gate ∧ gate.optedIn = true ∧ gate.trustProof = some proof ∧
        some proof.issuerFingerprintSha256 = ca.fingerprintSha256 ∧ s.clock < proof.expiresAt ∧
        proof.client.id = clientId := by
  have hready {gate : TlsInspectionGate} :
      (gate.readinessAt ca clientId s.clock).canInspectDevelopment = true ↔
        gate.readinessState ca clientId s.clock = .ready := by
    simp [TlsInspectionGate.readinessAt]
  unfold Trust.canInspect
  constructor
  · intro h
    cases hgate : s.gate with
    | none =>
        rw [hgate] at h
        cases h
    | some gate =>
        rw [hgate] at h
        obtain ⟨hopted, hlive, proof, hproof, hissuer, hexpires, hclient⟩ :=
          TlsInspectionGate.ready_iff.mp (hready.mp h)
        exact ⟨hlive, gate, proof, rfl, hopted, hproof, hissuer, hexpires, hclient⟩
  · rintro ⟨hlive, gate, proof, hgate, hopted, hproof, hissuer, hexpires, hclient⟩
    rw [hgate]
    exact hready.mpr (TlsInspectionGate.ready_iff.mpr
      ⟨hopted, hlive, proof, hproof, hissuer, hexpires, hclient⟩)

/-- One step of a preparation. -/
theorem Prepared.step {credential : Option Credential} {es : List TrustEvent} {s : Trust} {k : Nat}
    {p : Preparation} {answer : PreparationAnswer} {point : PreparationPoint}
    (hrun : (trust credential).run es = some s) (hp : s.preparations[k]? = some p)
    (h : Prepared credential es k p p.point) (hstep : s.preparationStep p answer = some point) :
    Prepared credential (es ++ [.preparation k answer]) k p point := by
  have hpoint : (s.preparations[k]?).map Preparation.point = some p.point := by rw [hp]; rfl
  cases answer with
  | workerFailed =>
      unfold Trust.preparationStep at hstep
      simp only at hstep
      split at hstep <;> cases hstep
      exact .refused fun leaf => by simp
  | go fault leafFault =>
      unfold Trust.preparationStep at hstep
      simp only at hstep
      split at hstep
      -- invoked
      next heq =>
        split at hstep <;> cases hstep
        next hprepares => exact .issuing hprepares
        next => exact .refused fun leaf => by simp
      -- issuing
      next heq =>
        rw [heq] at h hpoint
        cases h with
        | issuing hprepares =>
            split at hstep
            · cases hstep
              exact .refused fun leaf => by simp
            · split at hstep <;> cases hstep
              · exact .refused fun leaf => by simp
              next hstatus =>
                exact .looked hprepares (.now hrun ⟨fault, leafFault, rfl, hpoint, hstatus⟩)
      -- looked
      next status heq =>
        rw [heq] at h hpoint
        cases h with
        | looked hprepares hlooked =>
            split at hstep <;> cases hstep
            next hinspect =>
              obtain ⟨hlive, gate, proof, hgate, -, hproof, hissuer, hexpires, hclient⟩ :=
                Trust.canInspect_iff.mp hinspect
              exact .ready hprepares (.now hrun ⟨hlooked, ⟨fault, leafFault, rfl⟩, hpoint, hlive,
                gate, proof, hgate, hproof, hclient, hexpires, hissuer⟩)
            next => exact .refused fun leaf => by simp
      -- ready
      next status heq =>
        rw [heq] at h
        cases h with
        | ready hprepares hproven =>
            split at hstep
            · cases hstep
              exact .refused fun leaf => by simp
            next leaf hleaf =>
              split at hstep <;> cases hstep
              · exact .refused fun leaf => by simp
              next hsame =>
                exact .returned hprepares (hproven.append _) (Decidable.not_not.mp hsame)
      -- returned
      next => cases hstep

/-! ## Runs -/

/-- Only the events of preparations move them. -/
theorem Trust.preparations_step {s s' : Trust} {e : TrustEvent} (h : s.step e = some s') {k : Nat}
    {p' : Preparation} (hp' : s'.preparations[k]? = some p') :
    s.preparations[k]? = some p' ∨ p'.point = .invoked ∨
      ∃ p answer point, e = .preparation k answer ∧ s.preparations[k]? = some p ∧
        s.preparationStep p answer = some point ∧ p' = { p with point := point } := by
  cases e with
  | prepare tls host destination clientProfileId =>
      cases h
      rcases SingleOwner.getElem?_append_cases hp' with ⟨-, rfl⟩ | hp'
      · exact .inr (.inl rfl)
      · exact .inl hp'
  | preparation j answer =>
      obtain ⟨p, hp, h⟩ := Option.bind_eq_some_iff.mp h
      obtain ⟨point, hpoint, h⟩ := Option.bind_eq_some_iff.mp h
      cases h
      rcases SingleOwner.getElem?_set_cases hp' with ⟨rfl, rfl⟩ | ⟨-, hp'⟩
      · exact .inr (.inr ⟨p, answer, point, rfl, hp, hpoint, rfl⟩)
      · exact .inl hp'
  | call j answer =>
      obtain ⟨call, -, h⟩ := Option.bind_eq_some_iff.mp h
      exact .inl ((Trust.callStep_move h).preparations ▸ hp')
  | check j answer =>
      obtain ⟨check, -, h⟩ := Option.bind_eq_some_iff.mp h
      exact .inl ((Trust.checkStep_move h).preparations ▸ hp')
  | _ =>
      cases h
      exact .inl hp'

/-- Every preparation has behind it what its point says. -/
theorem prepared_of_run {credential : Option Credential} :
    ∀ {es : List TrustEvent} {s : Trust}, (trust credential).run es = some s →
      ∀ k p, s.preparations[k]? = some p → Prepared credential es k p p.point := by
  refine Machine.run_induction (P := fun (es : List TrustEvent) (s : Trust) =>
    ∀ k p, s.preparations[k]? = some p → Prepared credential es k p p.point) ?_ ?_
  · intro k p hp
    cases hp
  · intro es s e s' hrun ih hstep k p' hp'
    rcases Trust.preparations_step hstep hp' with
      hp | hinvoked | ⟨p, answer, point, rfl, hp, hpoint, rfl⟩
    · exact (ih k p' hp).append _
    · exact hinvoked ▸ .invoked
    · have h := (ih k p hp).step hrun hp hpoint
      cases h with
      | invoked => exact .invoked
      | issuing hprepares => exact .issuing hprepares
      | looked hprepares hlooked => exact .looked hprepares hlooked
      | ready hprepares hproven => exact .ready hprepares hproven
      | refused hnone => exact .refused hnone
      | returned hprepares hproven hissuer => exact .returned hprepares hproven hissuer

/-! ## Tunnels -/

/-- What the leaf issuer's answer is to `establish`. -/
def issuedAnswer : Except String (Option IssuedLeaf) → Answer
  | .error _ => .issued none
  | .ok leaf => .issued (some leaf.isSome)

/-- The tunnel is forwarded as it is, or there is none. -/
def Op.untouched : Op → Bool
  | .dialing _ _ route | .upgrading _ route => route.isNone
  | .copying _ | .ended | .refused _ => true
  | _ => false

/-- A tunnel that is not to be terminated never is. -/
theorem Op.untouched_step {proxy : SocketAddr} {tls : Option ProxyTlsInterception} {x : Handling}
    {seen : Seen} {op : Op} {answer : Answer} {move : Move} (hop : op.untouched = true)
    (h : tunnelStep proxy tls x seen op answer = some move) : move.op.untouched = true := by
  unfold tunnelStep at h
  split at h
  -- establishing, preparing
  · cases hop
  · cases hop
  -- dialing
  next route _ _ _ =>
    simp only at h
    split at h <;> cases h
    · rfl
    · exact hop
  -- upgrading
  next route _ =>
    split at h
    · cases h
      rfl
    · split at h
      · cases h
        rfl
      · cases hop
  -- securing, serving
  · cases hop
  · cases hop
  -- copying
  · split at h <;> cases h
    rfl
  · cases h
    rfl
  · cases h

/-- Without a leaf the tunnel is forwarded as it is, or refused. -/
theorem untouched_without_leaf {proxy : SocketAddr} {tls : Option ProxyTlsInterception}
    {x : Handling} {seen : Seen} {authority : Authority} {port : Nat} {move : Move}
    {result : Except String (Option IssuedLeaf)} (hnone : ∀ leaf, result ≠ .ok (some leaf))
    (h : tunnelStep proxy tls x seen (.preparing authority port) (issuedAnswer result) =
      some move) :
    move.op.untouched = true := by
  cases result with
  | error message =>
      cases h
      rfl
  | ok leaf =>
      cases leaf with
      | none =>
          cases h
          rfl
      | some leaf => exact absurd rfl (hnone leaf)

/-- A tunnel for which no leaf is asked is forwarded as it is, or refused. -/
theorem untouched_or_prepares {proxy : SocketAddr} {tls : Option ProxyTlsInterception}
    {x : Handling} {seen : Seen} {answer : Answer} {move : Move}
    (hnot : prepares tls x.destination x.clientProfileId = false)
    (h : tunnelStep proxy tls x seen .establishing answer = some move) :
    move.op.untouched = true := by
  cases answer with
  | go =>
      simp only [tunnelStep, hnot] at h
      split at h <;> cases h <;> rfl
  | _ => cases h

/-- **TLS is terminated only with a currently proven chain.** In every run, a preparation that has
returned a leaf was for a Development destination and the profile that is intercepted, and there
is a status of the CA such that the preparation read it, found later, at one instant, that the gate
held a live proof of that profile and of that live CA, and returned a leaf issued by that CA. A
preparation that has returned anything else leads to a refusal, or to a tunnel that no step
terminates. -/
theorem tls_is_terminated_with_a_proven_chain {credential : Option Credential}
    {es : List TrustEvent} {s : Trust} (hrun : (trust credential).run es = some s) {k : Nat}
    {p : Preparation} {result : Except String (Option IssuedLeaf)}
    (hp : s.preparations[k]? = some p) (hpoint : p.point = .returned result) :
    (∀ leaf, result = .ok (some leaf) →
      p.destination = .development ∧ p.clientProfileId = some p.tls.profileId ∧
        ∃ status, ProvenIn credential k p.tls.profileId status es ∧
          some leaf.issuerFingerprintSha256 = status.fingerprintSha256) ∧
    ((∀ leaf, result ≠ .ok (some leaf)) →
      ∀ proxy tls x seen authority port move,
        tunnelStep proxy tls x seen (.preparing authority port) (issuedAnswer result) =
          some move → move.op.untouched = true) ∧
    ∀ proxy tls x seen op answer move, tunnelStep proxy tls x seen op answer = some move →
      op.untouched = true ∨
        op = .establishing ∧ prepares tls x.destination x.clientProfileId = false →
      move.op.untouched = true := by
  refine ⟨?_, ?_, ?_⟩
  · rintro leaf rfl
    have h := prepared_of_run hrun k p hp
    rw [hpoint] at h
    cases h with
    | refused hnone => exact absurd rfl (hnone leaf)
    | returned hprepares hproven hissuer =>
        have ⟨hdestination, hclient⟩ : p.destination = .development ∧
            p.clientProfileId = some p.tls.profileId := by
          simpa [prepares] using hprepares
        exact ⟨hdestination, hclient, _, hproven, hissuer⟩
  · intro hnone proxy tls x seen authority port move h
    exact untouched_without_leaf hnone h
  · rintro proxy tls x seen op answer move h (hop | ⟨rfl, hnot⟩)
    · exact Op.untouched_step hop h
    · exact untouched_or_prepares hnot h

/-- A CA in the credential store. -/
def storedCa : StoredCa := ⟨"a1".toList, 1000000000⟩

/-- A check verifies the client, and a CONNECT of its profile is prepared. -/
def terminatedRun : List TrustEvent :=
  [.start ⟨storedCa.fingerprintSha256, "localhost".toList, 900000000⟩
      ⟨"browser-1".toList, "Browser".toList, by decide⟩ 60000000000,
    .call 0 .go, .call 0 (.bound 4433), .call 0 .go, .call 0 .go, .call 0 .go, .call 0 .go,
    .check 0 (.visit (.client (.ok ()) true)), .check 0 .go, .check 0 .go,
    .prepare ⟨"browser-1".toList⟩ "localhost".toList .development (some "browser-1".toList),
    .preparation 0 (.go none none), .preparation 0 (.go none none), .preparation 0 (.go none none),
    .preparation 0 (.go none none)]

/-- The client that was verified is intercepted. -/
theorem verified_client_is_intercepted :
    ∃ status, ProvenIn (some (.ca storedCa)) 0 "browser-1".toList status terminatedRun ∧
      some storedCa.fingerprintSha256 = status.fingerprintSha256 := by
  have hrun : (((trust (some (.ca storedCa))).run terminatedRun).bind fun s => s.preparations[0]?) =
      some ⟨⟨"browser-1".toList⟩, "localhost".toList, .development, some "browser-1".toList,
        .returned (.ok (some ⟨storedCa.fingerprintSha256, "localhost".toList, 86400000⟩))⟩ := by
    decide +kernel
  obtain ⟨s, hrun, hp⟩ := Option.bind_eq_some_iff.mp hrun
  obtain ⟨-, -, hproven⟩ := (tls_is_terminated_with_a_proven_chain hrun hp rfl).1 _ rfl
  exact hproven

end SippinSoda
