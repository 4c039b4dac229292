import SippinSoda.Engine.Consistent
import SippinSoda.Engine.Lifecycle
import SippinSoda.Lib.LogRing

/-!
# The capture ring

`traffic` with its two counters is a ring of exchange ids: `begin_exchange` pushes, `start`
resizes, `clear` empties it, and nothing else touches it. What an exchange still writes to its
capture, it writes to that capture alone, and not to what it finished with.
-/

namespace SippinSoda

/-! ## The state as a ring -/

/-- The captures and their counters are those of the ring. -/
structure State.Implements (s : State) (r : LogRing Nat) : Prop where
  ids : s.traffic.map Capture.id = r.items
  captures : s.status.captures = r.items.length
  evicted : s.status.evictedCaptures = r.dropped
  limit : s.limit = r.capacity

theorem State.evict_evicted (s : State) :
    s.evict.status.evictedCaptures = s.status.evictedCaptures + 1 := by
  rw [State.evict]
  split <;> rfl

theorem State.evictMany_evicted (n : Nat) :
    ∀ s : State, (s.evictMany n).status.evictedCaptures = s.status.evictedCaptures + n := by
  induction n with
  | zero => exact fun s => rfl
  | succ n ih =>
      intro s
      rw [State.evictMany, ih, evict_evicted]
      omega

/-- What the ring is made of, besides the captures. -/
theorem State.Implements.length {s : State} {r : LogRing Nat} (h : s.Implements r) :
    s.traffic.length = r.items.length := by
  rw [← h.ids, List.length_map]

/-- A ring's state is seen in four places. -/
theorem State.Implements.congr {s t : State} {r : LogRing Nat} (h : s.Implements r)
    (hids : t.traffic.map Capture.id = s.traffic.map Capture.id)
    (hcaptures : t.status.captures = s.status.captures)
    (hevicted : t.status.evictedCaptures = s.status.evictedCaptures) (hlimit : t.limit = s.limit) :
    t.Implements r :=
  ⟨hids.trans h.ids, hcaptures.trans h.captures, hevicted.trans h.evicted, hlimit.trans h.limit⟩

/-- `begin_exchange` pushes. -/
theorem State.Implements.begin {s : State} {r : LogRing Nat} (h : s.Implements r) {now : Nat}
    {request : Request} {destination : DestinationClass} {clientProfileId : Option Str}
    {replayOf : Option Nat} :
    (s.begin now request destination clientProfileId replayOf).Implements (r.push s.nextId) := by
  have hfull : s.traffic.length = s.limit ↔ r.items.length = r.capacity := by
    rw [h.length, h.limit]
  have hids : (s.begin now request destination clientProfileId replayOf).traffic.map Capture.id =
      (r.push s.nextId).items := by
    rw [begin_traffic, List.map_append, List.map_singleton, LogRing.items_push, State.makeRoom]
    by_cases hroom : s.traffic.length = s.limit
    · rw [if_pos hroom, if_pos (hfull.mp hroom), evict_traffic, ← h.ids, List.map_tail]
      rfl
    · rw [if_neg hroom, if_neg (mt hfull.mpr hroom), h.ids]
      rfl
  refine ⟨hids, ?_, ?_, ?_⟩
  · rw [← hids, List.length_map]
    rfl
  · show s.makeRoom.status.evictedCaptures =
      if r.items.length = r.capacity then r.dropped + 1 else r.dropped
    rw [State.makeRoom]
    by_cases hroom : s.traffic.length = s.limit
    · rw [if_pos hroom, if_pos (hfull.mp hroom), evict_evicted, h.evicted]
    · rw [if_neg hroom, if_neg (mt hfull.mpr hroom), h.evicted]
  · exact (congrArg Settings.limit s.makeRoom_inForce).trans h.limit

/-- `start` resizes. -/
theorem State.Implements.started {s : State} {r : LogRing Nat} (h : s.Implements r)
    {settings : Settings} {address : SocketAddr} (positive : 0 < settings.limit) :
    (s.started settings address).Implements (r.resize settings.limit positive) := by
  have htraffic : (s.started settings address).traffic =
      s.traffic.drop (s.traffic.length - settings.limit) :=
    (s.configured settings).evictMany_traffic _
  have hids : (s.started settings address).traffic.map Capture.id =
      (r.resize settings.limit positive).items := by
    rw [htraffic, LogRing.items_resize, List.map_drop, h.ids, h.length]
  refine ⟨hids, ?_, ?_, ?_⟩
  · rw [← hids, List.length_map]
    rfl
  · refine ((s.configured settings).evictMany_evicted _).trans ?_
    rw [h.length]
    exact congrArg (· + _) h.evicted
  · exact congrArg Settings.limit ((s.configured settings).evictMany_inForce _)

/-- `clear` empties. -/
theorem State.Implements.clear {s : State} {r : LogRing Nat} (h : s.Implements r) :
    s.clear.Implements r.clear :=
  ⟨rfl, rfl, rfl, h.limit⟩

/-- The sections that begin no exchange, clear nothing and start nothing. -/
def Section.aside : Section → Bool
  | .begin _ _ _ _ | .start _ _ | .clear => false
  | _ => true

/-- Nothing else touches the ring. -/
theorem State.Implements.aside {s : State} {r : LogRing Nat} (h : s.Implements r) {now : Nat}
    {sec : Section} (haside : sec.aside = true) : (s.apply now sec).Implements r := by
  cases sec with
  | begin => cases haside
  | start => cases haside
  | clear => cases haside
  | update id change => exact h.congr (update_ids fun c => c.apply_id now change) rfl rfl rfl
  | openBreakpoint id task status => exact h.congr (update_ids fun c => c.pause_id status) rfl rfl rfl
  | _ => exact h.congr rfl rfl rfl rfl

/-! ## Since the last clear -/

/-- The ids of the exchanges that have begun, in order. -/
def Parties.begun (p : Parties) : List Nat := p.registry.map Prod.fst

/-- The run is one up to its last `clear`, or its start, which ends in `t`, and a rest. -/
def SinceClear (crypto : Crypto) (es : List Event) (t : Engine) : Prop :=
  ∃ before after, es = before ++ after ∧ (engine crypto).run before = some t ∧
    (before = [] ∨ before.getLast? = some .clear) ∧ .clear ∉ after

theorem SinceClear.concat {crypto : Crypto} {es : List Event} {t : Engine} {e : Event}
    (h : SinceClear crypto es t) (he : e ≠ .clear) : SinceClear crypto (es ++ [e]) t := by
  obtain ⟨before, after, rfl, hbefore, hlast, hafter⟩ := h
  refine ⟨before, after ++ [e], List.append_assoc .., hbefore, hlast, ?_⟩
  rw [List.mem_append, List.mem_singleton]
  rintro (hmem | heq)
  · exact hafter hmem
  · exact he heq.symm

theorem SinceClear.now {crypto : Crypto} {es : List Event} {s : Engine}
    (hrun : (engine crypto).run (es ++ [.clear]) = some s) :
    SinceClear crypto (es ++ [.clear]) s :=
  ⟨es ++ [.clear], [], (List.append_nil _).symm, hrun, .inr List.getLast?_concat, by simp⟩

/-- A configuration that compiles has a limit. -/
theorem ProxyConfig.compile_limit {config : ProxyConfig} {settings : Settings}
    (h : config.compile = .ok settings) : 0 < settings.limit ∧ settings.limit ≤ 1000 := by
  have refused {message : String} {rest : PUnit → Except String Settings} :
      (throw message >>= rest : Except String Settings) ≠ .ok settings := nofun
  simp only [ProxyConfig.compile] at h
  split at h
  · exact absurd h refused
  next hlimits =>
    have hbounds : config.captureLimit ≠ 0 ∧ config.captureLimit ≤ 1000 := by
      simp only [ProxyConfig.invalidLimits, Bool.or_eq_true, decide_eq_true_eq, not_or] at hlimits
      omega
    have hlimit : settings.limit = config.captureLimit := by
      split at h
      on_goal 2 => split at h
      on_goal 2 => exact absurd h refused
      all_goals
        obtain ⟨paths, -, h⟩ := Except.bind_eq_ok.mp h
        obtain ⟨classifier, -, h⟩ := Except.bind_eq_ok.mp h
        obtain ⟨rules, -, h⟩ := Except.bind_eq_ok.mp h
        cases h
        rfl
    omega

/-- A section that starts has the limit of a configuration that compiles. -/
theorem Engine.Configured.limit {s : Engine} {e : Event} {settings : Settings}
    {address : SocketAddr} {p : Parties} (h : s.Configured)
    (hlife : s.lifecycle e = some (.start settings address, p)) :
    0 < settings.limit ∧ settings.limit ≤ 1000 := by
  obtain ⟨config, compiled, hcompile, hsettings⟩ := (h.lifecycle hlife).2 _ rfl
  have hlimit : settings.inForce.limit = compiled.inForce.limit := congrArg Settings.limit hsettings
  rw [show settings.limit = compiled.limit from hlimit]
  exact ProxyConfig.compile_limit hcompile

/-- The capture has ended as `c` has. -/
structure Capture.EndsAs (c' c : Capture) : Prop where
  phase : c'.phase = c.phase
  error : c'.error = c.error
  durationMs : c'.durationMs = c.durationMs

/-- A capture has an error exactly when its phase says so. -/
def Capture.Judged (c : Capture) : Prop := c.error.isSome = true ↔ c.phase = .error

/-- No closure changes how a capture has ended. -/
theorem Capture.apply_endsAs {c : Capture} (h : c.phase ≠ .pending) (now : Nat) (change : Change) :
    (c.apply now change).EndsAs c := by
  cases change with
  | finish started error =>
      rw [Capture.apply, if_pos h]
      exact ⟨rfl, rfl, rfl⟩
  | _ => exact ⟨rfl, rfl, rfl⟩

theorem Capture.Judged.apply {c : Capture} (h : c.Judged) (now : Nat) (change : Change) :
    (c.apply now change).Judged := by
  cases change with
  | finish started error =>
      rw [Capture.apply]
      split
      · exact h
      · cases error with
        | none => exact iff_of_false Bool.false_ne_true (by simp)
        | some message => exact iff_of_true rfl rfl
  | _ => exact h

/-- The capture of that id, if there is one, has ended as `c` has, and there will be no other. -/
def State.Ended (s : State) (c : Capture) : Prop :=
  c.id < s.nextId ∧ ∀ c' ∈ s.traffic, c'.id = c.id → c'.EndsAs c

theorem State.Ended.apply {s : State} {c : Capture} (hordered : s.Ordered) (h : s.Ended c)
    (hphase : c.phase ≠ .pending) (now : Nat) (sec : Section) : (s.apply now sec).Ended c := by
  have hstill {d : Capture} (hd : d ∈ s.traffic) (hid : d.id = c.id) : d.phase ≠ .pending := by
    rw [(h.2 d hd hid).phase]
    exact hphase
  refine ⟨?_, fun c' hc' hid => ?_⟩
  · rw [apply_nextId]
    exact Nat.lt_add_right _ h.1
  · rcases hordered.mem_apply hc' with ⟨hc, -⟩ | ⟨d, hd, change, -, rfl⟩ |
      ⟨d, hd, task, status, -, rfl⟩ | ⟨request, destination, clientProfileId, replayOf, -, rfl⟩
    · exact h.2 c' hc hid
    · have hid : d.id = c.id := (Capture.apply_id now d change).symm.trans hid
      obtain ⟨hphase, herror, hduration⟩ := h.2 d hd hid
      obtain ⟨hphase', herror', hduration'⟩ := Capture.apply_endsAs (hstill hd hid) now change
      exact ⟨hphase'.trans hphase, herror'.trans herror, hduration'.trans hduration⟩
    · have hends := h.2 d hd hid
      exact ⟨hends.phase, hends.error, hends.durationMs⟩
    · have hlt := h.1
      have hnext : s.nextId = c.id := hid
      omega

/-- A capture in `traffic` is the only one of its id. -/
theorem State.Ordered.ended {s : State} (h : s.Ordered) {c : Capture} (hc : c ∈ s.traffic) :
    s.Ended c := by
  refine ⟨h.below c hc, fun c' hc' hid => ?_⟩
  have hnodup : (s.traffic.map Capture.id).Nodup := h.increasing.imp fun hlt => Nat.ne_of_lt hlt
  obtain rfl := List.inj_on_of_nodup_map hnodup hc' hc hid
  exact ⟨rfl, rfl, rfl⟩

/-! ## The result -/

end SippinSoda
