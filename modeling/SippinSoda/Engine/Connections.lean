import SippinSoda.Engine.Preflight
import SippinSoda.Lib.Ledger

/-!
# Connections and the configuration they are served under

The listener task owns its connections: it counts them against the limit, and when its loop ends it
aborts them and waits for them. So no connection outlives the run that accepted it, and what the
next `start` changes under the lock it changes when no connection is left.

* **connected** — the connections a listener counts;
* **Governed** — the configuration the proxy runs with is in force, and its limit is kept;
* **connections_serve_one_configuration** — what this says of every state with a connection.
-/

namespace SippinSoda

/-! ## Counting connections -/

/-- Is this the task of a connection that is still there? -/
def Task.connected (t : Task) : Bool := decide (t.origin = .client) && !t.over

theorem Task.connected_iff {t : Task} :
    t.connected = true ↔ t.origin = .client ∧ t.over = false := by
  unfold Task.connected
  rw [Bool.and_eq_true, decide_eq_true_iff, Bool.not_eq_true']

theorem Parties.connections_eq (p : Parties) :
    p.connections = Ledger.total (fun t => t.connected.toNat) p.tasks := by
  show (p.tasks.filter Task.connected).length = _
  induction p.tasks with
  | nil => rfl
  | cons t tasks ih =>
      rw [Ledger.total_cons, ← ih, List.filter_cons]
      cases t.connected with
      | false => simp
      | true =>
          rw [if_pos rfl, List.length_cons, Bool.toNat_true]
          exact Nat.add_comm ..

theorem Engine.Became.connected {s : Engine} {e : Event} {sec : Section} {i : Nat} {t t' : Task}
    (h : s.Became e sec i t t') (hlive : t'.connected = true) : t.connected = true := by
  rw [Task.connected_iff] at hlive ⊢
  refine ⟨h.origin ▸ hlive.1, Bool.eq_false_iff.mpr fun hover => ?_⟩
  rw [Task.over_iff.mpr (h.gone (Task.over_iff.mp hover))] at hlive
  cases hlive.2

/-- A task that moves on is no connection that was none. -/
theorem connections_set {tasks : List Task} {k : Nat} {t t' : Task} (hk : tasks[k]? = some t)
    (hlive : t'.connected = true → t.connected = true) :
    Ledger.total (fun t => t.connected.toNat) (tasks.set k t') ≤
      Ledger.total (fun t => t.connected.toNat) tasks := by
  have htotal := Ledger.total_set (f := fun t : Task => t.connected.toNat) hk t'
  have hle : t'.connected.toNat ≤ t.connected.toNat := by
    cases hcases : t'.connected with
    | false => exact Nat.zero_le _
    | true =>
        rw [hlive hcases]
  omega

/-- A task that is no connection does not count. -/
theorem connections_concat {tasks : List Task} {t : Task} (horigin : t.origin ≠ .client) :
    Ledger.total (fun t => t.connected.toNat) (tasks ++ [t]) =
      Ledger.total (fun t => t.connected.toNat) tasks := by
  have hnone : t.connected = false :=
    Bool.eq_false_iff.mpr fun hlive => horigin (Task.connected_iff.mp hlive).1
  rw [Ledger.total_append, Ledger.total_cons, Ledger.total_nil, hnone]
  rfl

/-- The listener takes a connection below its limit only. -/
theorem Engine.lifecycle_tasks {s : Engine} {e : Event} {sec : Section} {p : Parties}
    (h : s.lifecycle e = some (sec, p)) : p.tasks = s.tasks ∨
      ∃ listening, s.listener = .accepting listening ∧
        s.connections < listening.connectionLimit ∧
        p.tasks = s.tasks ++ [⟨listening, .client, .connected, .nothing, none⟩] := by
  cases e with
  | accept =>
      simp only [Engine.lifecycle] at h
      split at h
      next listening hlistener =>
        split at h
        next =>
          cases h
          exact .inl rfl
        next hbelow =>
          cases h
          exact .inr ⟨listening, hlistener, Nat.not_le.mp hbelow, rfl⟩
      next => cases h
  | _ =>
      simp only [Engine.lifecycle] at h
      (repeat' split at h) <;> cases h <;> exact .inl rfl

/-- Only a listener below its limit adds a connection. -/
theorem Engine.Moved.connections {s : Engine} {e : Event} {sec : Section} {p : Parties}
    (h : s.Moved e sec p) : p.connections ≤ s.connections ∨
      ∃ listening, s.listener = .accepting listening ∧
        p.connections ≤ listening.connectionLimit := by
  have hset {k : Nat} {t t' : Task} (hk : s.tasks[k]? = some t)
      (hbecame : s.Became e sec k t t') := connections_set hk hbecame.connected
  rw [Parties.connections_eq, Parties.connections_eq]
  cases h with
  | lifecycle hlife =>
      rcases Engine.lifecycle_tasks hlife with heq | ⟨listening, hlistener, hbelow, heq⟩
      · rw [heq]
        exact .inl (Nat.le_refl _)
      · refine .inr ⟨listening, hlistener, ?_⟩
        rw [Parties.connections_eq] at hbelow
        rw [heq, Ledger.total_append]
        exact hbelow
  | task hk hallows hmoved => exact .inl (hset hk (.moves hallows hmoved))
  | body hk hbody hstep hsent => exact .inl (hset hk (.polls hbody hstep hsent))
  | innerFirst hk hpc =>
      refine .inl ?_
      rw [connections_concat Origin.noConfusion]
      exact hset hk (.hands hpc)
  | innerNext hk hpc =>
      refine .inl ?_
      rw [connections_concat Origin.noConfusion]
      exact hset hk .stays
  | receive hj hk hreceive => exact .inl (hset hk (.receives hj hreceive))
  | _ => exact .inl (Nat.le_refl _)

/-! ## The configuration in force -/

/-- The proxy runs with one configuration at a time. -/
theorem runsWith_unique {crypto : Crypto} {es : List Event} {s : Engine}
    (hrun : (engine crypto).run es = some s) : ∀ a b, RunsWith crypto a es →
      RunsWith crypto b es → a = b := by
  refine Machine.run_induction (m := engine crypto) (s := s)
    (P := fun es _ => ∀ a b, RunsWith crypto a es → RunsWith crypto b es → a = b) ?_ ?_ hrun
  · rintro a b ⟨before, e, after, u, u', hes, -⟩ -
    simp at hes
  · intro es s e s' hrun ih _ a b ha hb
    rcases ha.concat_cases hrun with ha | ⟨ha, -, hquiet⟩
    · rcases hb.concat_cases hrun with hb | ⟨-, -, hquiet⟩
      · obtain ⟨-, settings, address, hbound⟩ := ha
        obtain ⟨-, settings', address', hbound'⟩ := hb
        cases hbound.symm.trans hbound'
        rfl
      · exact absurd ha (hquiet a)
    · rcases hb.concat_cases hrun with hb | ⟨hb, -⟩
      · exact absurd hb (hquiet b)
      · exact ih a b ha hb

theorem ProxyConfig.compile_connectionLimit {config : ProxyConfig} {settings : Settings}
    (h : config.compile = .ok settings) :
    0 < config.connectionLimit ∧ config.connectionLimit ≤ 256 := by
  have refused {message : String} {rest : PUnit → Except String Settings} :
      (throw message >>= rest : Except String Settings) ≠ .ok settings := by
    intro hok
    cases hok
  simp only [ProxyConfig.compile] at h
  split at h
  · exact absurd h refused
  next hlimits =>
    simp only [ProxyConfig.invalidLimits, Bool.or_eq_true, decide_eq_true_eq, not_or] at hlimits
    omega

/-- The configuration the proxy runs with is in force, and the listener's limit is kept. -/
structure Engine.Governed (crypto : Crypto) (es : List Event) (s : Engine) : Prop where
  inForce : ∀ config, RunsWith crypto config es →
    ∃ settings, config.compile = .ok settings ∧ s.shared.inForce = settings.inForce
  bounded : ∀ config, RunsWith crypto config es → s.connections ≤ config.connectionLimit

theorem Engine.Governed.step {crypto : Crypto} {es : List Event} {s s' : Engine} {e : Event}
    (hrun : (engine crypto).run es = some s) (h : s.Governed crypto es)
    (hstep : (engine crypto).step s e = some s') : s'.Governed crypto (es ++ [e]) := by
  obtain ⟨sec, p, hmoved, hshared, hparties⟩ := Engine.step_cases hstep
  have hreached := Machine.reachable_of_run es hrun
  have hconnections : s'.connections = p.connections := by
    rw [hparties]
    cases sec <;> rfl
  cases hmoved.turn with
  | @publish config settings address hbound =>
      have hunoccupied := Engine.unoccupied hreached
      have hquiet := hunoccupied.calls (by simp [hbound])
      have hsilent := hunoccupied.silent hquiet (by simp [hbound])
      have honly {other : ProxyConfig} (hother : RunsWith crypto other (es ++ [.starting])) :
          other = config := by
        refine runsWith_unique (Machine.run_concat hrun hstep) _ _ hother ?_
        exact .now hrun ⟨rfl, settings, address, hbound⟩ hstep
      refine ⟨fun other hother => ?_, fun other hother => ?_⟩
      · have hcompile := (Engine.configured hreached).call
        rw [hbound] at hcompile
        refine ⟨settings, honly hother ▸ hcompile, ?_⟩
        rw [hshared, State.apply_inForce]
        rfl
      · -- a `start` publishes when no connection is left
        have hnone : s.connections = 0 := by
          refine List.length_eq_zero_iff.mpr (List.filter_eq_nil_iff.mpr fun t ht hlive => ?_)
          obtain ⟨horigin, hover⟩ := Task.connected_iff.mp hlive
          cases hover.symm.trans (hunoccupied.vacant hsilent t ht horigin)
        rw [hconnections]
        exact Nat.le_trans (Nat.le_of_eq hnone) (Nat.zero_le _)
  | report hdraining hzero =>
      have hnone {config : ProxyConfig} : ¬ RunsWith crypto config (es ++ [.drained]) := by
        intro hconfig
        rcases hconfig.concat_cases hrun with ⟨hstarting, -⟩ | ⟨-, hne, -⟩
        · cases hstarting
        · exact hne rfl
      exact ⟨fun config hconfig => absurd hconfig hnone, fun config hconfig => absurd hconfig hnone⟩
  | keep hsets hdrained hquiet hkept =>
      have hbefore {config : ProxyConfig} (hconfig : RunsWith crypto config (es ++ [e])) :
          RunsWith crypto config es := by
        rcases hconfig.concat_cases hrun with hpublishes | ⟨hconfig, -⟩
        · exact absurd hpublishes (hquiet config)
        · exact hconfig
      refine ⟨fun config hconfig => ?_, fun config hconfig => ?_⟩
      · obtain ⟨settings, hcompile, hforce⟩ := h.inForce config (hbefore hconfig)
        refine ⟨settings, hcompile, ?_⟩
        have hsettings : sec.settings? = none := by
          cases sec <;> first | rfl | cases hsets
        rw [hshared, State.apply_inForce, hsettings]
        exact hforce
      · rw [hconnections]
        rcases hmoved.connections with hle | ⟨listening, hlistener, hle⟩
        · exact Nat.le_trans hle (h.bounded config (hbefore hconfig))
        · obtain ⟨other, address, hother, rfl⟩ :=
            (advertised_of_run hrun).used listening (.inr (.inl hlistener))
          rw [runsWith_unique hrun config other (hbefore hconfig) hother]
          exact hle

theorem governed_of_run {crypto : Crypto} {es : List Event} {s : Engine}
    (hrun : (engine crypto).run es = some s) : s.Governed crypto es := by
  refine Machine.run_induction (P := fun es s => Engine.Governed crypto es s) ?_ ?_ hrun
  · have hnone {config : ProxyConfig} : ¬ RunsWith crypto config [] := by
      rintro ⟨before, e, after, u, u', hes, -⟩
      simp at hes
    exact ⟨fun config hconfig => absurd hconfig hnone, fun config hconfig => absurd hconfig hnone⟩
  · exact fun hrun h hstep => h.step hrun hstep

/-! ## The result -/

/-- **Connections serve one configuration.** In every state of a run in which a connection is
there, a handle of its listener is held or a `stop` waits for it; one configuration has accepted
every connection, is shown in the status, and its settings are in force; and there are no more
connections than it allows. -/
theorem connections_serve_one_configuration {crypto : Crypto} {es : List Event} {s : Engine}
    (hrun : (engine crypto).run es = some s) (hlive : 0 < s.connections) :
    (s.running = true ∨ s.call = .stopping) ∧
    ∃ config settings, RunsWith crypto config es ∧ config.compile = .ok settings ∧
      s.shared.status.Shows config ∧ s.shared.inForce = settings.inForce ∧
      (∀ t ∈ s.tasks, t.connected = true → ∃ address, t.listening = config.listening address) ∧
      s.connections ≤ config.connectionLimit ∧ config.connectionLimit ≤ 256 := by
  have hunoccupied := Engine.unoccupied (Machine.reachable_of_run es hrun)
  have hgoverned := governed_of_run hrun
  have hadvertised := advertised_of_run hrun
  obtain ⟨t, hmem⟩ := List.exists_mem_of_length_pos hlive
  obtain ⟨ht, hconnected⟩ := List.mem_filter.mp hmem
  obtain ⟨horigin, hover⟩ := Task.connected_iff.mp hconnected
  obtain ⟨config, -, hconfig, -⟩ :=
    hadvertised.used t.listening (.inr (.inr ⟨t, ht, horigin, hover, rfl⟩))
  refine ⟨?_, ?_⟩
  · by_contra hnone
    rw [not_or, Bool.not_eq_true] at hnone
    have hsilent := hunoccupied.silent hnone.1 hnone.2
    cases hover.symm.trans (hunoccupied.vacant hsilent t ht horigin)
  · obtain ⟨settings, hcompile, hforce⟩ := hgoverned.inForce config hconfig
    refine ⟨config, settings, hconfig, hcompile, (hadvertised.shown config hconfig).1, hforce,
      fun u hu hlive => ?_, hgoverned.bounded config hconfig,
      (ProxyConfig.compile_connectionLimit hcompile).2⟩
    obtain ⟨horigin', hover'⟩ := Task.connected_iff.mp hlive
    obtain ⟨other, address, hother, heq⟩ :=
      hadvertised.used u.listening (.inr (.inr ⟨u, hu, horigin', hover', rfl⟩))
    rw [runsWith_unique hrun config other hconfig hother]
    exact ⟨address, heq⟩

/-- Two connections where two are allowed, and a third. -/
def crowded : List Event :=
  starting { ProxyConfig.default with connectionLimit := 2 } ++ [.accept, .accept, .accept]

/-- The third is rejected. -/
theorem crowded_connections_are_governed :
    ∃ s, (engine .unused).run crowded = some s ∧ s.connections = 2 ∧
      s.shared.status.rejectedConnections = 1 ∧
      ∃ config settings, RunsWith .unused config crowded ∧ config.compile = .ok settings ∧
        s.shared.inForce = settings.inForce ∧ s.connections ≤ config.connectionLimit := by
  have hcrowded : ((engine .unused).run crowded).map (fun s =>
      (s.connections, s.shared.status.rejectedConnections)) = some (2, 1) := by
    decide +kernel
  obtain ⟨s, hrun, heq⟩ := Option.map_eq_some_iff.mp hcrowded
  obtain ⟨hconnections, hrejected⟩ := Prod.mk.inj heq
  have hlive : 0 < s.connections := by omega
  obtain ⟨-, config, settings, hconfig, hcompile, -, hforce, -, hbounded, -⟩ :=
    connections_serve_one_configuration hrun hlive
  exact ⟨s, hrun, hconnections, hrejected, config, settings, hconfig, hcompile, hforce, hbounded⟩

end SippinSoda
