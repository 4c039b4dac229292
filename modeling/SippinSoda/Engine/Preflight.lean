import SippinSoda.Engine.Lifecycle
import SippinSoda.Tls.Preflight

/-!
# The preflight tells the truth about the route

`start` publishes its configuration in the engine's status, and hands it to the listener and to
every connection the listener takes. The preflight reads the status; the route of a CONNECT reads
what its connection was handed. Both are the last configuration published, until the listener has
reported its end.

* **RunsWith** — that configuration, as a property of the run;
* **Advertised** — the status shows it, and everything that can take a CONNECT uses it;
* **truth** — what the report says is what a CONNECT meets at the same instant.
-/

namespace SippinSoda

/-! ## The configuration in use -/

/-- The step is the section of `start` that publishes that configuration. -/
def Engine.Publishes (s : Engine) (e : Event) (config : ProxyConfig) : Prop :=
  e = .starting ∧ ∃ settings address, s.call = .bound config settings address

/-- The last configuration that was published is this one, and no listener has reported its end
since. -/
def RunsWith (crypto : Crypto) (config : ProxyConfig) (es : List Event) : Prop :=
  (engine crypto).Since (fun s e => s.Publishes e config)
    (fun s e => e ≠ .drained ∧ ∀ other, ¬ s.Publishes e other) es

/-- What is handed to connections: by a `start` that is about to spawn its listener, by a listener
that accepts, or already to a connection that is not over. -/
def Parties.Uses (p : Parties) (listening : Listening) : Prop :=
  p.call = .spawning listening ∨ p.listener = .accepting listening ∨
    ∃ t ∈ p.tasks, t.origin = .client ∧ t.over = false ∧ t.listening = listening

/-- What an event of the lifecycle can do to the configuration in use: publish one, report the end
of a listener without connections, or leave it alone. -/
inductive Engine.Turn (s : Engine) : Event → Section → Parties → Prop
  | publish {config settings address} : s.call = .bound config settings address →
      Turn s .starting (.start settings address)
        { s.toParties with call := .spawning (config.listening address) }
  | report : s.listener = .draining → s.connections = 0 →
      Turn s .drained .stopped { s.toParties with listener := .ended }
  | keep {e sec p} : sec.sets = none → e ≠ .drained → (∀ config, ¬ s.Publishes e config) →
      (∀ listening, p.Uses listening → s.toParties.Uses listening) → Turn s e sec p

/-- Nobody uses what was not used before. -/
theorem Parties.Uses.of_same {p p' : Parties} {listening : Listening} (h : p'.Uses listening)
    (hcall : p'.call = p.call ∨ ∀ listening, p'.call ≠ .spawning listening)
    (hlistener : p'.listener = p.listener ∨ ∀ listening, p'.listener ≠ .accepting listening)
    (htasks : p'.tasks = p.tasks) : p.Uses listening := by
  rcases h with h | h | ⟨t, ht, h⟩
  · rcases hcall with hcall | hcall
    · exact .inl (hcall ▸ h)
    · exact absurd h (hcall listening)
  · rcases hlistener with hlistener | hlistener
    · exact .inr (.inl (hlistener ▸ h))
    · exact absurd h (hlistener listening)
  · exact .inr (.inr ⟨t, htasks ▸ ht, h⟩)

theorem Engine.lifecycle_turn {s : Engine} {e : Event} {sec : Section} {p : Parties}
    (hlife : s.lifecycle e = some (sec, p)) : s.Turn e sec p := by
  have hnot {e' : Event} (he : e' ≠ .starting) (config : ProxyConfig) :
      ¬ s.Publishes e' config := fun h => he h.1
  unfold Engine.lifecycle at hlife
  split at hlife
  -- start
  · split at hlife
    · cases hlife
    · split at hlife
      · cases hlife
        exact .keep rfl (by simp) (hnot (by simp)) fun _ h => h
      · split at hlife <;> cases hlife
        · exact .keep rfl (by simp) (hnot (by simp)) fun _ h => h
        · exact .keep rfl (by simp) (hnot (by simp)) fun _ h =>
            h.of_same (.inr fun _ => by simp) (.inl rfl) rfl
  -- bind
  · split at hlife
    · split at hlife <;> cases hlife
      · exact .keep rfl (by simp) (hnot (by simp)) fun _ h =>
          h.of_same (.inr fun _ => by simp) (.inl rfl) rfl
      · exact .keep rfl (by simp) (hnot (by simp)) fun _ h =>
          h.of_same (.inr fun _ => by simp) (.inl rfl) rfl
    · cases hlife
  -- starting
  · split at hlife <;> cases hlife
    next hbound => exact .publish hbound
    next hspawning =>
      have hquiet : ∀ config, ¬ s.Publishes .starting config := by
        rintro config ⟨-, settings, address, hbound⟩
        cases hspawning.symm.trans hbound
      refine .keep rfl (by simp) hquiet ?_
      rintro listening (h | h | h)
      · cases h
      · cases h
        exact .inl hspawning
      · exact .inr (.inr h)
  -- stop
  · split at hlife
    · cases hlife
    · split at hlife <;> cases hlife
      · exact .keep rfl (by simp) (hnot (by simp)) fun _ h =>
          h.of_same (.inr fun _ => by simp) (.inl rfl) rfl
      · exact .keep rfl (by simp) (hnot (by simp)) fun _ h => h
  -- shutdown
  · split at hlife <;> cases hlife
    exact .keep rfl (by simp) (hnot (by simp)) fun _ h =>
      h.of_same (.inl rfl) (.inr fun _ => by simp) rfl
  -- joined
  · split at hlife <;> cases hlife
    exact .keep rfl (by simp) (hnot (by simp)) fun _ h =>
      h.of_same (.inr fun _ => by simp) (.inl rfl) rfl
  -- accept: the connection is handed what the listener has
  · split at hlife
    next haccepting =>
      split at hlife <;> cases hlife
      · exact .keep rfl (by simp) (hnot (by simp)) fun _ h => h
      · refine .keep rfl (by simp) (hnot (by simp)) ?_
        rintro listening (h | h | ⟨t, ht, horigin, hlive, hsame⟩)
        · exact .inl h
        · exact .inr (.inl h)
        · rcases List.mem_append.mp ht with ht | ht
          · exact .inr (.inr ⟨t, ht, horigin, hlive, hsame⟩)
          · obtain rfl := List.mem_singleton.mp ht
            exact .inr (.inl (hsame ▸ haccepting))
    next => cases hlife
  -- acceptError
  · split at hlife <;> cases hlife
    exact .keep rfl (by simp) (hnot (by simp)) fun _ h =>
      h.of_same (.inl rfl) (.inr fun _ => by simp) rfl
  -- drained
  · split at hlife <;> cases hlife
    next hdrained => exact .report hdrained.1 hdrained.2
  · cases hlife

/-- Every event publishes, reports or leaves alone. -/
theorem Engine.Moved.turn {s : Engine} {e : Event} {sec : Section} {p : Parties}
    (h : s.Moved e sec p) : s.Turn e sec p := by
  have hevent : s.lifecycle e = some (sec, p) ∨ e ≠ .drained ∧ e ≠ .starting := by
    cases h with
    | lifecycle hlife => exact .inl hlife
    | _ => exact .inr ⟨by simp, by simp⟩
  rcases hevent with hlife | ⟨hdrained, hstarting⟩
  · exact Engine.lifecycle_turn hlife
  rcases h.lifecycle_cases with hlife | ⟨hsets, -, hlistener, hcall⟩
  · exact Engine.lifecycle_turn hlife
  refine .keep hsets hdrained (fun config hpublishes => hstarting hpublishes.1) ?_
  rintro listening (h' | h' | ⟨t', ht', horigin, hlive, rfl⟩)
  · exact .inl (hcall ▸ h')
  · exact .inr (.inl (hlistener ▸ h'))
  -- the connection was there before, or a listener has taken it
  · obtain ⟨i, hi⟩ := List.mem_iff_getElem?.mp ht'
    rcases h.came hi with ⟨t, ht, hbecame⟩ | ⟨-, harrives⟩
    · refine .inr (.inr ⟨t, List.mem_of_getElem? ht, hbecame.origin ▸ horigin, ?_,
        hbecame.listening.symm⟩)
      refine Bool.eq_false_iff.mpr fun hover => ?_
      rw [Task.over_iff.mpr (hbecame.gone (Task.over_iff.mp hover))] at hlive
      cases hlive
    · cases harrives with
      | connection haccepting => exact .inr (.inl haccepting)
      | innerFirst hk hpc => cases horigin
      | innerNext hk hpc => cases horigin

/-! ## What the status shows -/

/-- The status shows that the proxy runs with that configuration. -/
structure EngineStatus.Shows (status : EngineStatus) (config : ProxyConfig) : Prop where
  phase : status.phase = .running
  clientProfileId : status.clientProfileId = config.clientAuth.map (·.profileId)
  httpsInspection : status.httpsInspection = config.tlsInterception.isSome

/-- The status shows the configuration the proxy runs with, which is the one in use. -/
structure Engine.Advertised (crypto : Crypto) (es : List Event) (s : Engine) : Prop where
  running : s.shared.status.phase = .running → ∃ config, RunsWith crypto config es
  shown : ∀ config, RunsWith crypto config es →
    s.shared.status.Shows config ∧ ∃ settings, config.compile = .ok settings
  used : ∀ listening, s.toParties.Uses listening →
    ∃ config address, RunsWith crypto config es ∧ listening = config.listening address

theorem State.evict_client (s : State) :
    s.evict.status.clientProfileId = s.status.clientProfileId ∧
      s.evict.status.httpsInspection = s.status.httpsInspection := by
  rw [State.evict]
  split <;> exact ⟨rfl, rfl⟩

/-- Only `start` and the end of a listener change whose traffic is inspected. -/
theorem State.apply_client (s : State) (now : Nat) {sec : Section} (h : sec.sets = none) :
    (s.apply now sec).status.clientProfileId = s.status.clientProfileId ∧
      (s.apply now sec).status.httpsInspection = s.status.httpsInspection := by
  cases sec with
  | begin request destination clientProfileId replayOf =>
      show s.makeRoom.status.clientProfileId = _ ∧ s.makeRoom.status.httpsInspection = _
      rw [State.makeRoom]
      split
      · exact s.evict_client
      · exact ⟨rfl, rfl⟩
  | start settings address => cases h
  | stopped => cases h
  | _ => exact ⟨rfl, rfl⟩

theorem EngineStatus.Shows.apply {s : State} {now : Nat} {sec : Section} {config : ProxyConfig}
    (h : s.status.Shows config) (hsets : sec.sets = none) :
    (s.apply now sec).status.Shows config := by
  obtain ⟨hclient, hinspection⟩ := s.apply_client now hsets
  refine ⟨?_, hclient.trans h.clientProfileId, hinspection.trans h.httpsInspection⟩
  rw [State.apply_phase, hsets]
  exact h.phase

/-- What a configuration compiles to names its client; if it inspects, then for that client. -/
theorem ProxyConfig.compile_client {config : ProxyConfig} {settings : Settings}
    (h : config.compile = .ok settings) :
    settings.clientProfileId = config.clientAuth.map (·.profileId) ∧
      settings.httpsInspection = config.tlsInterception.isSome ∧
      ∀ tls, config.tlsInterception = some tls →
        config.clientAuth.map (·.profileId) = some tls.profileId := by
  have refused {message : String} {rest : PUnit → Except String Settings} :
      (throw message >>= rest : Except String Settings) ≠ .ok settings := nofun
  simp only [ProxyConfig.compile] at h
  split at h
  · exact absurd h refused
  split at h
  on_goal 2 => split at h
  on_goal 2 => exact absurd h refused
  all_goals
    obtain ⟨paths, -, hpaths⟩ := Except.bind_eq_ok.mp h
    obtain ⟨classifier, -, hclassifier⟩ := Except.bind_eq_ok.mp hpaths
    obtain ⟨rules, -, hrules⟩ := Except.bind_eq_ok.mp hclassifier
    cases hrules
    refine ⟨rfl, rfl, fun tls htls => ?_⟩
  next hnone => cases hnone.symm.trans htls
  next hsome hsame =>
    cases hsome.symm.trans htls
    exact Decidable.not_not.mp hsame

/-- One step keeps the status true. -/
theorem Engine.Advertised.step {crypto : Crypto} {es : List Event} {s s' : Engine} {e : Event}
    (hrun : (engine crypto).run es = some s) (h : s.Advertised crypto es)
    (hstep : (engine crypto).step s e = some s') : s'.Advertised crypto (es ++ [e]) := by
  obtain ⟨sec, p, hmoved, hshared, hparties⟩ := Engine.step_cases hstep
  have huses {listening : Listening} (h : s'.toParties.Uses listening) : p.Uses listening := by
    rw [hparties] at h
    cases sec <;> exact h
  have hreached := Machine.reachable_of_run es hrun
  cases hmoved.turn with
  | @publish config settings address hbound =>
      have hunoccupied := Engine.unoccupied hreached
      have hcompile : config.compile = .ok settings := by
        have hcall := (Engine.configured hreached).call
        rw [hbound] at hcall
        exact hcall
      have hnow : RunsWith crypto config (es ++ [.starting]) :=
        .now hrun ⟨rfl, settings, address, hbound⟩ hstep
      have honly {other : ProxyConfig} (hother : RunsWith crypto other (es ++ [.starting])) :
          other = config := by
        rcases hother.concat_cases hrun with ⟨-, settings', address', hbound'⟩ | ⟨-, -, hquiet⟩
        · cases hbound.symm.trans hbound'
          rfl
        · exact absurd ⟨rfl, settings, address, hbound⟩ (hquiet config)
      obtain ⟨hclient, hinspection, -⟩ := config.compile_client hcompile
      refine ⟨fun _ => ⟨config, hnow⟩, fun other hother => ?_, fun listening hlistening => ?_⟩
      · cases honly hother
        refine ⟨?_, settings, hcompile⟩
        rw [hshared]
        exact ⟨rfl, hclient, hinspection⟩
      · -- the listener is over, and so are all connections
        have hquiet := hunoccupied.calls (by simp [hbound])
        have hsilent := hunoccupied.silent hquiet (by simp [hbound])
        rcases huses hlistening with hcall | hlistener | ⟨t, ht, horigin, hlive, -⟩
        · cases hcall
          exact ⟨config, address, hnow, rfl⟩
        · rw [show s.listener = .accepting listening from hlistener] at hsilent
          cases hsilent
        · cases hlive.symm.trans (hunoccupied.vacant hsilent t ht horigin)
  | report hdraining hconnections =>
      have hnone {config : ProxyConfig} : ¬ RunsWith crypto config (es ++ [.drained]) := by
        intro hconfig
        rcases hconfig.concat_cases hrun with ⟨hstarting, -⟩ | ⟨-, hne, -⟩
        · cases hstarting
        · exact hne rfl
      refine ⟨fun hphase => ?_, fun config hconfig => absurd hconfig hnone,
        fun listening hlistening => ?_⟩
      · rw [hshared] at hphase
        cases hphase
      · rcases huses hlistening with hcall | hlistener | ⟨t, ht, horigin, hlive, -⟩
        -- a `start` goes on only when the listener is over
        · have hunoccupied := Engine.unoccupied hreached
          have hcall : s.call = .spawning listening := hcall
          have hquiet := hunoccupied.calls (by simp [hcall])
          have hsilent := hunoccupied.silent hquiet (by simp [hcall])
          rw [hdraining] at hsilent
          cases hsilent
        · cases hlistener
        · cases hlive.symm.trans (Parties.over_of_connections hconnections t ht horigin)
  | keep hsets hdrained hquiet hkept =>
      have hstays {config : ProxyConfig} (hconfig : RunsWith crypto config es) :
          RunsWith crypto config (es ++ [e]) := hconfig.concat hrun ⟨hdrained, hquiet⟩
      refine ⟨fun hphase => ?_, fun config hconfig => ?_, fun listening hlistening => ?_⟩
      · rw [hshared, State.apply_phase, hsets] at hphase
        obtain ⟨config, hconfig⟩ := h.running hphase
        exact ⟨config, hstays hconfig⟩
      · rcases hconfig.concat_cases hrun with hpublishes | ⟨hconfig, -⟩
        · exact absurd hpublishes (hquiet config)
        · obtain ⟨hshows, hcompile⟩ := h.shown config hconfig
          exact ⟨hshared ▸ hshows.apply hsets, hcompile⟩
      · obtain ⟨config, address, hconfig, heq⟩ := h.used listening (hkept _ (huses hlistening))
        exact ⟨config, address, hstays hconfig, heq⟩

/-- **In every run the status shows the configuration in use.** -/
theorem advertised_of_run {crypto : Crypto} {es : List Event} {s : Engine}
    (hrun : (engine crypto).run es = some s) : s.Advertised crypto es := by
  refine Machine.run_induction (P := fun es s => Engine.Advertised crypto es s) ?_ ?_ hrun
  · refine ⟨(fun hphase => nomatch hphase), ?_, ?_⟩
    · rintro config ⟨before, e, after, -, -, hes, -⟩
      simp at hes
    · rintro listening (h | h | ⟨t, ht, -⟩)
      · cases h
      · cases h
      · cases ht
  · intro es s e s' hrun h hstep
    exact h.step hrun hstep

/-! ## The truth -/

/-- A CONNECT on a connection that was handed this configuration, evaluated at that instant with
that status of the CA, is forwarded as it is or refused. -/
structure Trust.KeepsOpaque (s : Trust) (ca : CaStatus) (listening : Listening) : Prop where
  established : ∀ x seen move,
    tunnelStep listening.address listening.tlsInterception x seen .establishing .go = some move →
      move.op.untouched = true ∨
        ∃ authority port, move.op = .preparing authority port ∧
          listening.tlsInterception.isSome = true
  prepared : ∀ tls, listening.tlsInterception = some tls → ∀ x seen authority port issued move,
    tunnelStep listening.address (some tls) x seen (.preparing authority port)
      (issuedAnswer (s.prepareNow tls (.ok ca) issued x.destination x.clientProfileId)) =
        some move →
      move.op.untouched = true

/-- A CONNECT is established, or refused, or prepared by the interception there is. -/
theorem established_cases {proxy : SocketAddr} {tls : Option ProxyTlsInterception} {x : Handling}
    {seen : Seen} {move : Move} (h : tunnelStep proxy tls x seen .establishing .go = some move) :
    move.op.untouched = true ∨
      ∃ authority port, move.op = .preparing authority port ∧ tls.isSome = true := by
  by_cases hprepares : prepares tls x.destination x.clientProfileId = true
  · have hsome : tls.isSome = true := by
      cases tls with
      | none => cases hprepares
      | some tls => rfl
    unfold tunnelStep at h
    simp only [hprepares] at h
    split at h
    · cases h
      exact .inl rfl
    next authority port _ =>
      cases h
      exact .inr ⟨authority, port, rfl, hsome⟩
  · exact .inl (untouched_or_prepares (Bool.eq_false_iff.mpr hprepares) h)

/-- Without Ready no CONNECT is prepared on what is in use. -/
theorem Engine.Advertised.keepsOpaque {crypto : Crypto} {es : List Event} {e : Engine} {s : Trust}
    {ca : CaStatus} (h : e.Advertised crypto es)
    (hblocked : (s.preflight ca e.shared.status).state ≠ .ready) {listening : Listening}
    (huses : e.toParties.Uses listening) : s.KeepsOpaque ca listening := by
  obtain ⟨config, address, hconfig, rfl⟩ := h.used listening huses
  obtain ⟨hshows, settings, hcompile⟩ := h.shown config hconfig
  refine ⟨fun x seen move hmove => established_cases hmove, ?_⟩
  intro tls htls x seen authority port issued move hmove
  refine untouched_without_leaf (fun leaf hleaf => hblocked ?_) hmove
  obtain ⟨-, -, hinspect, -⟩ := Trust.prepareNow_leaf.mp hleaf
  have hclient := (config.compile_client hcompile).2.2 tls htls
  exact Trust.preflight_ready_iff.mpr
    ⟨hshows.phase, tls.profileId, hshows.clientProfileId.trans hclient, hinspect⟩

/-- Inspection is reported active exactly when the running profile gets the leaf that is signed. -/
theorem Engine.Advertised.active_iff {crypto : Crypto} {es : List Event} {e : Engine} {s : Trust}
    {ca : CaStatus} (h : e.Advertised crypto es) {leaf : IssuedLeaf}
    (hsigned : ∀ fingerprint, ca.fingerprintSha256 = some fingerprint →
      leaf.issuerFingerprintSha256 = fingerprint) :
    (s.preflight ca e.shared.status).httpsInspectionActive = true ↔
      ∃ config tls, RunsWith crypto config es ∧ config.tlsInterception = some tls ∧
        s.prepareNow tls (.ok ca) (.ok leaf) .development
          (config.clientAuth.map (·.profileId)) = .ok (some leaf) := by
  rw [Trust.preflight_active, Trust.preflight_ready_iff]
  constructor
  · rintro ⟨hinspection, hphase, clientId, hclient, hinspect⟩
    obtain ⟨config, hconfig⟩ := h.running hphase
    obtain ⟨hshows, settings, hcompile⟩ := h.shown config hconfig
    obtain ⟨tls, htls⟩ := Option.isSome_iff_exists.mp
      (hshows.httpsInspection.symm.trans hinspection)
    have hagrees := (config.compile_client hcompile).2.2 tls htls
    obtain rfl : clientId = tls.profileId := Option.some.inj
      (hclient.symm.trans (hshows.clientProfileId.trans hagrees))
    obtain ⟨fingerprint, hfingerprint⟩ := Option.isSome_iff_exists.mp
      (Trust.canInspect_iff.mp hinspect).1.2.1
    refine ⟨config, tls, hconfig, htls, Trust.prepareNow_leaf.mpr
      ⟨rfl, hagrees, hinspect, rfl, ?_⟩⟩
    rw [hfingerprint, hsigned fingerprint hfingerprint]
  · rintro ⟨config, tls, hconfig, htls, hleaf⟩
    obtain ⟨hshows, settings, hcompile⟩ := h.shown config hconfig
    obtain ⟨-, hclient, hinspect, -⟩ := Trust.prepareNow_leaf.mp hleaf
    exact ⟨by rw [hshows.httpsInspection, htls]; rfl, hshows.phase, tls.profileId,
      hshows.clientProfileId.trans hclient, hinspect⟩

/-- **The preflight tells the truth about the route.** In every state of the engine and of the
trust-check manager, at any time and for any status of the CA: inspection is reported active exactly
when a Development CONNECT of the client whose profile the proxy runs with would get, at that
instant, the leaf that the CA signs; when the report is not Ready, every CONNECT on a connection
that the proxy has taken or takes is forwarded as it is or refused; and what is reported is the
first condition that is not met. -/
theorem preflight_tells_the_truth {crypto : Crypto} {es : List Event} {e : Engine}
    (hrun : (engine crypto).run es = some e) {credential : Option Credential} {s : Trust}
    (hs : (trust credential).Reachable s) (ca : CaStatus) :
    (∀ leaf : IssuedLeaf, (∀ fingerprint, ca.fingerprintSha256 = some fingerprint →
        leaf.issuerFingerprintSha256 = fingerprint) →
      ((s.preflight ca e.shared.status).httpsInspectionActive = true ↔
        ∃ config tls, RunsWith crypto config es ∧ config.tlsInterception = some tls ∧
          s.prepareNow tls (.ok ca) (.ok leaf) .development
            (config.clientAuth.map (·.profileId)) = .ok (some leaf))) ∧
    ((s.preflight ca e.shared.status).state ≠ .ready → ∀ listening,
      e.toParties.Uses listening → s.KeepsOpaque ca listening) ∧
    (s.preflight ca e.shared.status).state = firstUnmet (s.conditions ca e.shared.status) := by
  have hadvertised := advertised_of_run hrun
  exact ⟨fun leaf hsigned => hadvertised.active_iff hsigned,
    fun hblocked listening huses => hadvertised.keepsOpaque hblocked huses,
    Trust.preflight_state (Trust.optedIn hs).gate ca e.shared.status⟩

/-- A configuration that inspects the traffic of the client `terminatedRun` verifies. -/
def inspectedBrowser : ProxyConfig :=
  { ProxyConfig.default with
    clientAuth := some ⟨"browser-1".toList, []⟩
    tlsInterception := some ⟨"browser-1".toList⟩ }

/-- The client is verified, the proxy runs for it, and a CONNECT gets its leaf. -/
theorem verified_client_is_reported :
    ∃ e s, (engine .unused).run (starting inspectedBrowser) = some e ∧
      (trust (some (.ca storedCa))).run terminatedRun = some s ∧
      (s.preflight storedCa.status e.shared.status).httpsInspectionActive = true ∧
      ∃ config tls, RunsWith .unused config (starting inspectedBrowser) ∧
        config.tlsInterception = some tls ∧
        s.prepareNow tls (.ok storedCa.status)
          (.ok ⟨storedCa.fingerprintSha256, "localhost".toList, 86400000⟩) .development
          (config.clientAuth.map (·.profileId)) =
            .ok (some ⟨storedCa.fingerprintSha256, "localhost".toList, 86400000⟩) := by
  have hactive : (((engine .unused).run (starting inspectedBrowser)).bind fun e =>
      ((trust (some (.ca storedCa))).run terminatedRun).map fun s =>
        (s.preflight storedCa.status e.shared.status).httpsInspectionActive) = some true := by
    decide +kernel
  obtain ⟨e, he, hactive⟩ := Option.bind_eq_some_iff.mp hactive
  obtain ⟨s, hs, hactive⟩ := Option.map_eq_some_iff.mp hactive
  refine ⟨e, s, he, hs, hactive, ?_⟩
  refine ((preflight_tells_the_truth he (Machine.reachable_of_run _ hs) storedCa.status).1 _
    fun fingerprint hfingerprint => ?_).mp hactive
  cases hfingerprint
  rfl

end SippinSoda
