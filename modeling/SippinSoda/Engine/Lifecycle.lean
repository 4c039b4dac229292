import SippinSoda.Engine.Steps

/-!
# Start, stop and the listener

Two records say whether the proxy runs: `status.phase`, which `start` and the listener task
write, and the handle in `running`, which `start` and `stop` write.

* **Agree** — how the two agree with the listener, call by call, as long as no listener
  ends by itself while its handle is held;
* **Unwedged** — what this means when no call is in progress: `phase` tells which of Start
  and Stop will do something.

A listener that ends on an accept error reports Stopped and leaves its handle, so that the
next `start` is refused.
-/

namespace SippinSoda

/-! ## The phase -/

/-- The phase a section sets. -/
def Section.sets : Section → Option EnginePhase
  | .start _ _ => some .running
  | .stopped => some .stopped
  | _ => none

theorem State.evict_phase (s : State) : s.evict.status.phase = s.status.phase := by
  rw [State.evict]
  split <;> rfl

theorem State.makeRoom_phase (s : State) : s.makeRoom.status.phase = s.status.phase := by
  rw [State.makeRoom]
  split
  · exact s.evict_phase
  · rfl

theorem State.apply_phase (s : State) (now : Nat) (sec : Section) :
    (s.apply now sec).status.phase = sec.sets.getD s.status.phase := by
  cases sec with
  | begin request destination clientProfileId replayOf => exact s.makeRoom_phase
  | _ => rfl

theorem Errand.section_sets (id : Nat) (errand : Errand) : (errand.section id).sets = none := by
  cases errand <;> rfl

theorem Act.section_sets (k id : Nat) (act : Act) : (act.section k id).sets = none := by
  cases act <;> rfl

theorem Task.Moved.sets {s : State} {now k : Nat} {t t' : Task} {a : Answer} {sec : Section}
    (h : t.Moved s now k a sec t') : sec.sets = none := by
  cases h with
  | errand hpc => exact Errand.section_sets ..
  | asked hpc hstep hasked => exact Act.section_sets ..
  | answered hpc hanswered => exact Act.section_sets ..
  | admits _ hpc hsec =>
      rcases hsec with rfl | ⟨token, rfl⟩ <;> rfl
  | unauthorized hpc hsec =>
      rcases hsec with rfl | ⟨token, rfl⟩ <;> rfl
  | _ => rfl

theorem BodyParty.step_sets {party : BodyParty} {a : BodyAnswer} {move : BodyMove}
    (h : party.step a = some move) : move.sec.sets = none := by
  unfold BodyParty.step at h
  split at h <;> cases h
  · exact Errand.section_sets ..
  all_goals rfl

theorem StoreTask.step_sets {s : State} {store store' : StoreTask} {error : Option String}
    {sec : Section} (h : store.step s error = some (sec, store')) : sec.sets = none := by
  unfold StoreTask.step at h
  simp only at h
  split at h <;> cases h
  · split <;> rfl
  all_goals rfl

/-- Only the lifecycle sets the phase, moves the listener and changes who holds its handle. -/
theorem Engine.Moved.lifecycle_cases {s : Engine} {e : Event} {sec : Section} {p : Parties}
    (h : s.Moved e sec p) :
    s.lifecycle e = some (sec, p) ∨
      sec.sets = none ∧ p.running = s.running ∧ p.listener = s.listener ∧ p.call = s.call := by
  cases h with
  | lifecycle h => exact .inl h
  | task ht hallows hmoved => exact .inr ⟨hmoved.sets, rfl, rfl, rfl⟩
  | body ht hbody hstep _ => exact .inr ⟨BodyParty.step_sets hstep, rfl, rfl, rfl⟩
  | store hstore hstep => exact .inr ⟨StoreTask.step_sets hstep, rfl, rfl, rfl⟩
  | exchange hx htodo => exact .inr ⟨Errand.section_sets .., rfl, rfl, rfl⟩
  | _ => exact .inr ⟨rfl, rfl, rfl, rfl⟩

/-! ## The two records -/

/-- Is the listener over, or was there none? -/
def Listener.silent : Listener → Bool
  | .none | .ended => true
  | _ => false

/-- How the phase, the handle, the listener and the call in progress agree. -/
inductive Agree : EnginePhase → Bool → Listener → Call → Prop
  | stopped {listener} : listener.silent = true → Agree .stopped false listener .none
  | binding {listener config settings} : listener.silent = true →
      Agree .stopped false listener (.binding config settings)
  | bound {listener config settings address} : listener.silent = true →
      Agree .stopped false listener (.bound config settings address)
  | spawning {listener listening} : listener.silent = true →
      Agree .running false listener (.spawning listening)
  | accepting {listening} : Agree .running true (.accepting listening) .none
  | stopping {listening} : Agree .running false (.accepting listening) .stopping
  | draining : Agree .running false .draining .stopping
  | ended : Agree .stopped false .ended .stopping

/-- No listener task ends by itself while its handle is in `running`. -/
def keepsListening (s : Engine) (e : Event) : Prop := e = .acceptError → s.running = false

instance (s : Engine) (e : Event) : Decidable (keepsListening s e) :=
  inferInstanceAs (Decidable (_ → _))

def Engine.Agrees (s : Engine) : Prop :=
  Agree s.shared.status.phase s.running s.listener s.call

/-- The events of the lifecycle keep the agreement. -/
theorem Engine.Agrees.lifecycle {s : Engine} {e : Event} {sec : Section} {p : Parties}
    (h : s.Agrees) (hguard : keepsListening s e) (hlife : s.lifecycle e = some (sec, p)) :
    Agree (sec.sets.getD s.shared.status.phase) p.running p.listener p.call := by
  obtain ⟨⟨running, listener, call, answer, tasks, stores, resolvers, replays, exchanges, clock⟩,
    shared⟩ := s
  unfold Engine.Agrees at h
  simp only at h hguard ⊢
  generalize shared.status.phase = phase at h ⊢
  unfold Engine.lifecycle at hlife
  split at hlife
  -- start
  next config =>
    simp only at hlife
    split at hlife
    · cases hlife
    next hcall =>
      split at hlife
      next hrunning =>
        cases hlife
        exact h
      next hrunning =>
        split at hlife <;> cases hlife
        · exact h
        · cases h <;> simp_all [Section.sets]
          exact .binding ‹_›
  -- bind
  next result =>
    simp only at hlife
    split at hlife
    · split at hlife <;> cases hlife <;> cases h
      · exact .stopped ‹_›
      · exact .bound ‹_›
    · cases hlife
  -- starting
  next =>
    simp only at hlife
    split at hlife <;> cases hlife
    · cases h
      exact .spawning ‹_›
    · cases h
      exact .accepting
  -- stop
  next =>
    simp only at hlife
    split at hlife
    · cases hlife
    next hcall =>
      have hcall : call = .none := by simpa using hcall
      subst hcall
      split at hlife <;> cases hlife
      next hrunning =>
        subst hrunning
        cases h
        exact .stopping
      next => exact h
  -- shutdown
  next =>
    simp only at hlife
    split at hlife <;> cases hlife
    cases h
    exact .draining
  -- joined
  next =>
    simp only at hlife
    split at hlife <;> cases hlife
    next hboth =>
      obtain ⟨rfl, rfl⟩ := hboth
      cases h
      exact .stopped rfl
  -- accept
  next =>
    simp only at hlife
    split at hlife
    · split at hlife <;> cases hlife <;> exact h
    · cases hlife
  -- acceptError: the guard leaves only a listener that `stop` has been told to wait for
  next =>
    have hheld : running = false := hguard rfl
    subst hheld
    simp only at hlife
    split at hlife <;> cases hlife
    cases h with
    | stopping => exact .draining
    | stopped hsilent => cases hsilent
    | binding hsilent => cases hsilent
    | bound hsilent => cases hsilent
    | spawning hsilent => cases hsilent
  -- drained
  next =>
    simp only at hlife
    split at hlife <;> cases hlife
    next hboth =>
      obtain ⟨hlistener, -⟩ := hboth
      subst hlistener
      cases h with
      | draining => exact .ended
      | stopped hsilent => cases hsilent
      | binding hsilent => cases hsilent
      | bound hsilent => cases hsilent
      | spawning hsilent => cases hsilent
  next => cases hlife

theorem Engine.Agrees.step {crypto : Crypto} {s s' : Engine} {e : Event} (h : s.Agrees)
    (hguard : keepsListening s e) (hstep : s.step crypto e = some s') : s'.Agrees := by
  obtain ⟨sec, p, hmoved, hshared, hparties⟩ := step_cases hstep
  have hlog : s'.running = p.running ∧ s'.listener = p.listener ∧ s'.call = p.call := by
    rw [hparties]
    cases sec <;> exact ⟨rfl, rfl, rfl⟩
  rw [Engine.Agrees, hshared, State.apply_phase, hlog.1, hlog.2.1, hlog.2.2]
  rcases hmoved.lifecycle_cases with hlife | ⟨hsets, hrunning, hlistener, hcall⟩
  · exact h.lifecycle hguard hlife
  · rw [hsets, hrunning, hlistener, hcall]
    exact h

theorem Engine.agrees {crypto : Crypto} {s : Engine}
    (h : (engine crypto).Reach keepsListening s) : s.Agrees :=
  h.invariant (.stopped rfl) fun hs hguard hstep => hs.step hguard hstep

/-! ## The settings in force -/

/-- What a run uses of its settings besides the status. -/
def Settings.inForce (settings : Settings) : Settings :=
  { settings with clientProfileId := none, httpsInspection := false }

/-- The settings of the last `start`. -/
def State.inForce (s : State) : Settings where
  limit := s.limit
  captureBodies := s.captureBodies
  bodyBudget := s.bodyBudget
  requestRedactionPaths := s.requestRedactionPaths
  destinationClassifier := s.destinationClassifier
  breakOnResponses := s.breakOnResponses
  responseRules := s.responseRules
  clientProfileId := none
  httpsInspection := false

/-- The settings a section puts in force. -/
def Section.settings? : Section → Option Settings
  | .start settings _ => some settings.inForce
  | _ => none

theorem State.evict_inForce (s : State) : s.evict.inForce = s.inForce := by
  rw [State.evict]
  split <;> rfl

theorem State.evictMany_inForce (n : Nat) : ∀ s : State, (s.evictMany n).inForce = s.inForce := by
  induction n with
  | zero => exact fun s => rfl
  | succ n ih => exact fun s => by rw [State.evictMany, ih, evict_inForce]

theorem State.makeRoom_inForce (s : State) : s.makeRoom.inForce = s.inForce := by
  rw [State.makeRoom]
  split
  · exact s.evict_inForce
  · rfl

theorem State.apply_inForce (s : State) (now : Nat) (sec : Section) :
    (s.apply now sec).inForce = sec.settings?.getD s.inForce := by
  cases sec with
  | begin request destination clientProfileId replayOf => exact s.makeRoom_inForce
  | start settings address => exact (s.configured settings).evictMany_inForce _
  | _ => rfl

/-- The settings of the `start` in progress are those of its configuration. -/
def Call.Compiled : Call → Prop
  | .binding config settings | .bound config settings _ => config.compile = .ok settings
  | _ => True

/-- The settings in force are those of a configuration that compiles, or none was started. -/
structure Engine.Configured (s : Engine) : Prop where
  call : s.call.Compiled
  shared : s.shared.inForce = State.default.inForce ∨
    ∃ (config : ProxyConfig) (settings : Settings),
      config.compile = .ok settings ∧ s.shared.inForce = settings.inForce

/-- What the lifecycle puts in force has been compiled. -/
theorem Engine.Configured.lifecycle {s : Engine} {e : Event} {sec : Section} {p : Parties}
    (h : s.Configured) (hlife : s.lifecycle e = some (sec, p)) :
    p.call.Compiled ∧ ∀ settings, sec.settings? = some settings →
      ∃ (config : ProxyConfig) (compiled : Settings),
        config.compile = .ok compiled ∧ settings = compiled.inForce := by
  obtain ⟨hcall, -⟩ := h
  unfold Engine.lifecycle at hlife
  split at hlife
  -- start
  · split at hlife
    · cases hlife
    · split at hlife
      · cases hlife
        exact ⟨hcall, nofun⟩
      · split at hlife <;> cases hlife
        · exact ⟨hcall, nofun⟩
        · exact ⟨‹_›, nofun⟩
  -- bind
  · split at hlife
    next config settings hbinding =>
      rw [hbinding] at hcall
      split at hlife <;> cases hlife
      · exact ⟨trivial, nofun⟩
      · exact ⟨hcall, nofun⟩
    next => cases hlife
  -- starting
  · split at hlife <;> cases hlife
    next config settings address hbound =>
      rw [hbound] at hcall
      exact ⟨trivial, fun _ hsome => ⟨config, settings, hcall, (Option.some.inj hsome).symm⟩⟩
    · exact ⟨trivial, nofun⟩
  -- stop
  · split at hlife
    · cases hlife
    · split at hlife <;> cases hlife
      · exact ⟨trivial, nofun⟩
      · exact ⟨hcall, nofun⟩
  -- shutdown
  · split at hlife <;> cases hlife
    exact ⟨hcall, nofun⟩
  -- joined
  · split at hlife <;> cases hlife
    exact ⟨trivial, nofun⟩
  -- accept
  · split at hlife
    · split at hlife <;> cases hlife
      · exact ⟨hcall, nofun⟩
      · exact ⟨hcall, nofun⟩
    · cases hlife
  -- acceptError
  · split at hlife <;> cases hlife
    exact ⟨hcall, nofun⟩
  -- drained
  · split at hlife <;> cases hlife
    exact ⟨hcall, nofun⟩
  · cases hlife

theorem Engine.Configured.step {crypto : Crypto} {s s' : Engine} {e : Event} (h : s.Configured)
    (hstep : s.step crypto e = some s') : s'.Configured := by
  obtain ⟨sec, p, hmoved, hshared, hparties⟩ := step_cases hstep
  have hlog : s'.call = p.call := by
    rw [hparties]
    cases sec <;> rfl
  rcases hmoved.lifecycle_cases with hlife | ⟨hsets, -, -, hcall⟩
  · obtain ⟨hcall, hsettings⟩ := h.lifecycle hlife
    refine ⟨hlog ▸ hcall, ?_⟩
    rw [hshared, State.apply_inForce]
    cases hsec : sec.settings? with
    | none => exact h.shared
    | some settings =>
        obtain ⟨config, compiled, hcompile, rfl⟩ := hsettings settings hsec
        exact .inr ⟨config, compiled, hcompile, rfl⟩
  · refine ⟨by rw [hlog, hcall]; exact h.call, ?_⟩
    rw [hshared, State.apply_inForce]
    have hnone : sec.settings? = none := by cases sec <;> first | rfl | cases hsets
    rw [hnone]
    exact h.shared

theorem Engine.configured {crypto : Crypto} {s : Engine} (h : (engine crypto).Reachable s) :
    s.Configured :=
  h.invariant ⟨trivial, .inl rfl⟩ fun hs _ hstep => hs.step hstep

theorem ProxyConfig.compile_rules (config : ProxyConfig) {settings : Settings}
    (h : config.compile = .ok settings) :
    ResponseRule.compileAll config.responseRules = .ok settings.responseRules := by
  have refused {message : String} {rest : PUnit → Except String Settings} :
      (throw message >>= rest : Except String Settings) ≠ .ok settings := nofun
  simp only [ProxyConfig.compile] at h
  split at h
  · exact absurd h refused
  split at h
  on_goal 2 => split at h
  on_goal 2 => exact absurd h refused
  all_goals
    obtain ⟨paths, -, h⟩ := Except.bind_eq_ok.mp h
    obtain ⟨classifier, -, h⟩ := Except.bind_eq_ok.mp h
    obtain ⟨rules, hrules, h⟩ := Except.bind_eq_ok.mp h
    cases h
    exact hrules

/-- The response rules in force have been compiled. -/
theorem Engine.Configured.rules {s : Engine} (h : s.Configured) :
    ∃ configs, ResponseRule.compileAll configs = .ok s.shared.responseRules := by
  rcases h.shared with hdefault | ⟨config, settings, hcompile, hforce⟩
  · have hrules : s.shared.responseRules = [] := congrArg Settings.responseRules hdefault
    exact ⟨[], hrules ▸ rfl⟩
  · have hrules : s.shared.responseRules = settings.responseRules :=
      congrArg Settings.responseRules hforce
    exact ⟨config.responseRules, hrules ▸ config.compile_rules hcompile⟩

/-! ## Between two runs -/

/-- A `start` goes on, and the listener is over, only when no connection is left. -/
structure Parties.Unoccupied (s : Parties) : Prop where
  calls : s.call ≠ .none → s.running = false
  silent : s.running = false → s.call ≠ .stopping → s.listener.silent = true
  vacant : s.listener.silent = true → ∀ t ∈ s.tasks, t.origin = .client → t.over = true

theorem Parties.over_of_connections {p : Parties} (h : p.connections = 0) :
    ∀ t ∈ p.tasks, t.origin = .client → t.over = true := by
  intro t ht horigin
  have hnone := List.filter_eq_nil_iff.mp (List.length_eq_zero_iff.mp h) t ht
  simpa [horigin] using hnone

/-- The lifecycle keeps connections and starts apart. -/
theorem Parties.Unoccupied.lifecycle {s : Engine} {e : Event} {sec : Section} {p : Parties}
    (h : s.toParties.Unoccupied) (hlife : s.lifecycle e = some (sec, p)) : p.Unoccupied := by
  obtain ⟨hcalls, hsilent, hvacant⟩ := h
  unfold Engine.lifecycle at hlife
  split at hlife
  -- start
  · split at hlife
    · cases hlife
    next hcall =>
      have hcall : s.call = .none := by simpa using hcall
      split at hlife
      · cases hlife
        exact ⟨hcalls, hsilent, hvacant⟩
      next hrunning =>
        have hrunning : s.running = false := by simpa using hrunning
        split at hlife <;> cases hlife
        · exact ⟨hcalls, hsilent, hvacant⟩
        · exact ⟨fun _ => hrunning, fun _ _ => hsilent hrunning (by simp [hcall]), hvacant⟩
  -- bind
  · split at hlife
    next hbinding =>
      have hquiet := hcalls (by simp [hbinding])
      split at hlife <;> cases hlife
      · exact ⟨fun hne => absurd rfl hne, fun _ _ => hsilent hquiet (by simp [hbinding]), hvacant⟩
      · exact ⟨fun _ => hquiet, fun _ _ => hsilent hquiet (by simp [hbinding]), hvacant⟩
    next => cases hlife
  -- starting
  · split at hlife
    next hbound =>
      have hquiet := hcalls (by simp [hbound])
      cases hlife
      exact ⟨fun _ => hquiet, fun _ _ => hsilent hquiet (by simp [hbound]), hvacant⟩
    next =>
      cases hlife
      refine ⟨fun hne => absurd rfl hne, ?_, ?_⟩
      · intro hrunning; cases hrunning
      · intro hsilent; cases hsilent
    next => cases hlife
  -- stop
  · split at hlife
    · cases hlife
    · split at hlife <;> cases hlife
      · exact ⟨fun _ => rfl, fun _ hne => absurd rfl hne, hvacant⟩
      · exact ⟨hcalls, hsilent, hvacant⟩
  -- shutdown
  · split at hlife
    next hstopping _ =>
      cases hlife
      exact ⟨hcalls, fun _ hne => absurd hstopping hne, fun hsilent => nomatch hsilent⟩
    next => cases hlife
  -- joined
  · split at hlife
    next hended =>
      cases hlife
      exact ⟨fun hne => absurd rfl hne, fun _ _ => by rw [hended.2]; rfl, hvacant⟩
    next => cases hlife
  -- accept: only while the listener accepts
  · split at hlife
    next haccepting =>
      split at hlife <;> cases hlife
      · exact ⟨hcalls, hsilent, hvacant⟩
      · refine ⟨hcalls, hsilent, fun hsilent => ?_⟩
        rw [show s.listener = _ from haccepting] at hsilent
        cases hsilent
    next => cases hlife
  -- acceptError
  · split at hlife
    next haccepting =>
      cases hlife
      refine ⟨hcalls, fun hrunning hne => ?_, fun hsilent => nomatch hsilent⟩
      have hsilent := hsilent hrunning hne
      rw [haccepting] at hsilent
      cases hsilent
    next => cases hlife
  -- drained
  · split at hlife
    next hdrained =>
      cases hlife
      exact ⟨hcalls, fun _ _ => rfl, fun _ => Parties.over_of_connections hdrained.2⟩
    next => cases hlife
  · cases hlife

/-- Settings are put in force by a `start` that has bound its port. -/
theorem Engine.bound_of_lifecycle {s : Engine} {e : Event} {sec : Section} {p : Parties}
    (hlife : s.lifecycle e = some (sec, p)) {settings : Settings}
    (hsec : sec.settings? = some settings) :
    ∃ config settings address, s.call = .bound config settings address := by
  unfold Engine.lifecycle at hlife
  split at hlife
  case h_3 =>
    split at hlife <;> cases hlife
    · exact ⟨_, _, _, ‹_›⟩
    · cases hsec
  all_goals (repeat' split at hlife) <;> cases hlife <;> cases hsec

theorem Parties.Unoccupied.step {crypto : Crypto} {s s' : Engine} {e : Event}
    (h : s.toParties.Unoccupied) (hstep : s.step crypto e = some s') : s'.toParties.Unoccupied := by
  obtain ⟨sec, p, hmoved, -, hparties⟩ := Engine.step_cases hstep
  suffices hp : p.Unoccupied by
    rw [hparties]
    cases sec <;> exact ⟨hp.calls, hp.silent, hp.vacant⟩
  rcases hmoved.lifecycle_cases with hlife | ⟨-, hrunning, hlistener, hcall⟩
  · exact h.lifecycle hlife
  · refine ⟨?_, ?_, ?_⟩
    · rw [hcall, hrunning]
      exact h.calls
    · rw [hcall, hrunning, hlistener]
      exact h.silent
    · rw [hlistener]
      intro hsilent t' ht' horigin
      obtain ⟨i, hi⟩ := List.mem_iff_getElem?.mp ht'
      rcases hmoved.came hi with ⟨t, ht, hbecame⟩ | ⟨-, harrives⟩
      · have hover := h.vacant hsilent t (List.mem_of_getElem? ht) (hbecame.origin ▸ horigin)
        exact Task.over_iff.mpr (hbecame.gone (Task.over_iff.mp hover))
      · cases harrives with
        | connection haccepting =>
            rw [haccepting] at hsilent
            cases hsilent
        | innerFirst hk hpc => cases horigin
        | innerNext hk hpc => cases horigin

theorem Engine.unoccupied {crypto : Crypto} {s : Engine} (h : (engine crypto).Reachable s) :
    s.toParties.Unoccupied :=
  h.invariant (I := fun s => s.toParties.Unoccupied)
    ⟨fun hne => absurd rfl hne, fun _ _ => rfl, fun _ _ ht => absurd ht List.not_mem_nil⟩
    fun hs _ hstep => hs.step hstep

/-- While a connection is there no step changes the settings in force. -/
theorem Parties.Unoccupied.inForce {crypto : Crypto} {s s' : Engine} {e : Event}
    (h : s.toParties.Unoccupied) (hstep : s.step crypto e = some s') {t : Task} (ht : t ∈ s.tasks)
    (horigin : t.origin = .client)
    (hlive : t.over = false) : s'.shared.inForce = s.shared.inForce := by
  obtain ⟨sec, p, hmoved, hshared, -⟩ := Engine.step_cases hstep
  rw [hshared, State.apply_inForce]
  have hnone : sec.settings? = none := by
    rcases hmoved.lifecycle_cases with hlife | ⟨hsets, -, -, -⟩
    · cases hsettings : sec.settings? with
      | none => rfl
      | some settings =>
          obtain ⟨config, settings, address, hbound⟩ := Engine.bound_of_lifecycle hlife hsettings
          have hquiet := h.calls (by simp [hbound])
          have hover := h.vacant (h.silent hquiet (by simp [hbound])) t ht horigin
          cases hover.symm.trans hlive
    · cases sec <;> first | rfl | cases hsets
  rw [hnone]
  rfl

/-! ## What a user can do -/

/-- No call is in progress, and the listener task has not ended or is over. -/
def Engine.Settled (s : Engine) : Prop := s.call = .none ∧ s.listener ≠ .draining

instance (s : Engine) : Decidable s.Settled :=
  inferInstanceAs (Decidable (_ ∧ _))

/-- The phase is Running exactly when the handle is that of a listener that accepts, and
from Stopped a valid configuration starts the proxy when the port can be bound. -/
def Engine.Unwedged (crypto : Crypto) (s : Engine) : Prop :=
  (s.shared.status.phase = .running ↔
    s.running = true ∧ ∃ listening, s.listener = .accepting listening) ∧
  (s.shared.status.phase = .stopped →
    ∀ config settings address, config.compile = .ok settings →
      ∃ s', (engine crypto).runFrom s
          [.start config, .bind (.ok address), .starting, .starting] = some s' ∧
        s'.answer = some (.ok ()) ∧ s'.shared.status.phase = .running)

theorem Engine.step_lifecycle {crypto : Crypto} {s : Engine} {e : Event} {sec : Section}
    {p : Parties} (h : s.lifecycle e = some (sec, p)) :
    (engine crypto).step s e =
      some { p.log s.shared sec with shared := s.shared.apply s.clock sec } := by
  show s.step crypto e = _
  rw [Engine.step, Engine.move, h]
  rfl

/-- With no handle held, `start` runs to its end. -/
theorem Engine.start_succeeds {crypto : Crypto} {s : Engine} (hcall : s.call = .none)
    (hrunning : s.running = false) {config : ProxyConfig} {settings : Settings}
    (hcompile : config.compile = .ok settings) (address : SocketAddr) :
    ∃ s', (engine crypto).runFrom s
        [.start config, .bind (.ok address), .starting, .starting] = some s' ∧
      s'.answer = some (.ok ()) ∧ s'.shared.status.phase = .running := by
  have hstart : s.lifecycle (.start config) =
      some (.nothing, { s.toParties with call := .binding config settings }) := by
    simp [Engine.lifecycle, hcall, hrunning, hcompile]
  rw [Machine.runFrom, step_lifecycle hstart]
  exact ⟨_, rfl, rfl, rfl⟩

/-- **The lifecycle does not wedge** as long as no listener ends by itself: in every settled
state the phase tells which of Start and Stop applies. -/
theorem lifecycle_never_wedges {crypto : Crypto} {s : Engine}
    (h : (engine crypto).Reach keepsListening s) (hsettled : s.Settled) :
    s.Unwedged crypto := by
  obtain ⟨hcall, hdrained⟩ := hsettled
  have hagrees := Engine.agrees h
  rw [Engine.Agrees, hcall] at hagrees
  generalize hphase : s.shared.status.phase = phase at hagrees
  generalize hrunning : s.running = running at hagrees
  generalize hlistener : s.listener = listener at hagrees
  cases hagrees with
  | stopped hsilent =>
      refine ⟨?_, fun _ config settings address hcompile =>
        Engine.start_succeeds hcall hrunning hcompile address⟩
      simp [hphase, hrunning]
  | accepting =>
      refine ⟨?_, fun hstopped => absurd (hphase.symm.trans hstopped) (by simp)⟩
      simp [hphase, hrunning, hlistener]

/-- A start, a stop and a start again. -/
def restarted : List Event :=
  starting .default ++ [.stop, .shutdown, .drained, .joined] ++ starting .default

theorem lifecycle_after_restart :
    ∃ s, (engine .unused).run restarted = some s ∧ s.Unwedged .unused :=
  ⟨_, rfl, lifecycle_never_wedges
    (Machine.reach_of_run restarted (by decide) rfl) (by decide)⟩

/-- A listener whose `accept` fails. -/
def acceptFailed : List Event := starting .default ++ [.acceptError, .drained]

/-- After an accept error the engine is settled and Stopped, and `start` is refused. -/
theorem accept_error_wedges :
    (∃ s s', (engine .unused).run acceptFailed = some s ∧ s.Settled ∧
      s.shared.status.phase = .stopped ∧ (engine .unused).step s (.start .default) = some s' ∧
      s'.answer = some (.error "The proxy is already running.")) ∧
    ¬ ∀ s, (engine .unused).Reachable s → s.Settled → s.Unwedged .unused := by
  constructor
  · exact ⟨_, _, rfl, by decide, rfl, rfl, rfl⟩
  · intro hall
    have hwedged := (hall _ (Machine.reachable_of_run acceptFailed rfl) (by decide)).2 rfl
    obtain ⟨s', hrun, -⟩ := hwedged .default _ ⟨.v4 [127, 0, 0, 1], 8080⟩ rfl
    cases hrun

end SippinSoda
