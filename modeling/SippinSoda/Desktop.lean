import SippinSoda.Engine.Announcements

/-!
# The desktop application (`main.rs`, `engine.ts`)

Next to the engine a loop polls its revision and emits an event when it has changed; the page
hears the events it has subscribed to, asks for a snapshot at each, and keeps the newest of the
answers, which may come in any order. Commands answer with a snapshot as well.

* **Desktop** — the loop, the events, the calls and the answers on their way, and the page;
* **Fed** — something is on its way that is as new as what the loop has seen, or is shown;
* **desktop_shows_the_engine** — when nothing is left to do, the page shows the engine's state.
-/

namespace SippinSoda

structure Desktop where
  engine : Engine
  /-- The revision the loop has seen last, which it has read before there is a page. -/
  revision : Nat
  /-- "engine-changed" events that have not been heard. -/
  emitted : Nat
  subscribed : Bool
  /-- Calls of the page that have not read the snapshot they answer with. -/
  calls : Nat
  answers : List Snapshot
  snapshot : Option Snapshot

def Desktop.default : Desktop where
  engine := .default
  revision := 0
  emitted := 0
  subscribed := false
  calls := 0
  answers := []
  snapshot := none

inductive DesktopEvent where
  | engine (e : Event)
  /-- The loop wakes. -/
  | poll
  /-- The subscription is there, and the page refreshes. -/
  | subscribe
  | hear
  /-- A command that answers with a snapshot. -/
  | command
  | read
  | answer (k : Nat)

def Desktop.step (crypto : Crypto) (s : Desktop) : DesktopEvent → Option Desktop
  | .engine e => (s.engine.step crypto e).map fun engine => { s with engine }
  | .poll =>
      let latest := s.engine.shared.revision
      if latest ≠ s.revision then
        some { s with
          revision := latest
          -- nobody hears an event before the subscription
          emitted := if s.subscribed then s.emitted + 1 else s.emitted }
      else some s
  | .subscribe =>
      if s.subscribed then none else some { s with subscribed := true, calls := s.calls + 1 }
  | .hear =>
      if s.emitted = 0 then none
      else some { s with emitted := s.emitted - 1, calls := s.calls + 1 }
  | .command => some { s with calls := s.calls + 1 }
  | .read =>
      if s.calls = 0 then none
      else some { s with
        calls := s.calls - 1
        answers := s.answers ++ [s.engine.shared.snapshot] }
  | .answer k => do
      let next ← s.answers[k]?
      return { s with answers := s.answers.eraseIdx k, snapshot := Snapshot.accept s.snapshot next }

/-- The application from its start. -/
def desktop (crypto : Crypto) : Machine Desktop DesktopEvent where
  start := .default
  step := Desktop.step crypto

/-- A snapshot that is shown, or on its way. -/
def Desktop.Has (s : Desktop) (b : Snapshot) : Prop := b ∈ s.answers ∨ b ∈ s.snapshot

/-- The page has been read for, in the run of the engine; and something as new as what the loop has
seen is shown or on its way, or will be asked for. -/
structure Desktop.Fed (crypto : Crypto) (es : List Event) (s : Desktop) : Prop where
  run : (SippinSoda.engine crypto).run es = some s.engine
  read : ∀ b, s.Has b → b.ReadIn crypto es
  seen : s.revision ≤ s.engine.shared.revision
  newest : s.subscribed = true →
    0 < s.emitted ∨ 0 < s.calls ∨ ∃ b, s.Has b ∧ s.revision ≤ b.revision

theorem Snapshot.ReadIn.append {crypto : Crypto} {es : List Event} {b : Snapshot}
    (h : b.ReadIn crypto es) (fs : List Event) : b.ReadIn crypto (es ++ fs) := by
  obtain ⟨before, after, u, rfl, hu, rfl⟩ := h
  exact ⟨before, after ++ fs, u, List.append_assoc .., hu, rfl⟩

theorem Desktop.Fed.step {crypto : Crypto} {es : List Event} {s s' : Desktop} {e : DesktopEvent}
    (h : s.Fed crypto es) (hstep : s.step crypto e = some s') : ∃ es', s'.Fed crypto es' := by
  cases e with
  | engine e =>
      obtain ⟨engine', he, rfl⟩ := Option.map_eq_some_iff.mp hstep
      exact ⟨es ++ [e], Machine.run_concat h.run he, fun b hb => (h.read b hb).append [e],
        Nat.le_trans h.seen (Engine.step_revision he), h.newest⟩
  | poll =>
      unfold Desktop.step at hstep
      simp only at hstep
      split at hstep <;> cases hstep
      · refine ⟨es, h.run, h.read, Nat.le_refl _, fun hsubscribed => .inl ?_⟩
        have hsubscribed : s.subscribed = true := hsubscribed
        show 0 < if s.subscribed = true then s.emitted + 1 else s.emitted
        rw [if_pos hsubscribed]
        exact Nat.succ_pos _
      · exact ⟨es, h⟩
  | subscribe =>
      unfold Desktop.step at hstep
      simp only at hstep
      split at hstep <;> cases hstep
      exact ⟨es, h.run, h.read, h.seen, fun _ => .inr (.inl (Nat.succ_pos _))⟩
  | hear =>
      unfold Desktop.step at hstep
      simp only at hstep
      split at hstep <;> cases hstep
      exact ⟨es, h.run, h.read, h.seen, fun _ => .inr (.inl (Nat.succ_pos _))⟩
  | command =>
      cases hstep
      exact ⟨es, h.run, h.read, h.seen, fun _ => .inr (.inl (Nat.succ_pos _))⟩
  | read =>
      unfold Desktop.step at hstep
      simp only at hstep
      split at hstep <;> cases hstep
      refine ⟨es, h.run, ?_, h.seen, fun _ => .inr (.inr ?_)⟩
      · rintro b (hb | hb)
        · rcases List.mem_append.mp hb with hb | hb
          · exact h.read b (.inl hb)
          · rw [List.mem_singleton.mp hb]
            exact ⟨es, [], s.engine, (List.append_nil _).symm, h.run, rfl⟩
        · exact h.read b (.inr hb)
      · exact ⟨_, .inl (List.mem_append_right _ (List.mem_singleton_self _)), h.seen⟩
  | answer k =>
      obtain ⟨next, hnext, hstep⟩ := Option.bind_eq_some_iff.mp hstep
      cases hstep
      refine ⟨es, h.run, ?_, h.seen, fun hsubscribed => ?_⟩
      · rintro b (hb | hb)
        · exact h.read b (.inl (List.mem_of_mem_eraseIdx hb))
        · rcases Versioned.accept_mem hb with rfl | hb
          · exact h.read b (.inl (List.mem_of_getElem? hnext))
          · exact h.read b (.inr hb)
      · refine (h.newest hsubscribed).imp_right (Or.imp_right ?_)
        -- what comes is kept, or something newer is shown
        obtain ⟨shown, hshown, hle, hlater⟩ :=
          Versioned.accept_newest Snapshot.revision s.snapshot next
        rintro ⟨b, hb, hrevision⟩
        rcases hb with hb | hb
        · obtain ⟨i, hi⟩ := List.mem_iff_getElem?.mp hb
          by_cases heq : i = k
          · subst heq
            cases hi.symm.trans hnext
            exact ⟨shown, .inr hshown, Nat.le_trans hrevision hle⟩
          · refine ⟨b, .inl (List.mem_eraseIdx_iff_getElem?.mpr ⟨i, heq, hi⟩), hrevision⟩
        · exact ⟨shown, .inr hshown, Nat.le_trans hrevision (hlater b hb)⟩

/-- **The page shows the engine's state** when no exchange of a capture is left, the loop has seen
the revision, and nothing is on its way. -/
theorem desktop_shows_the_engine {crypto : Crypto} {s : Desktop}
    (h : (desktop crypto).Reachable s) (hreleased : s.engine.Released)
    (hsubscribed : s.subscribed = true) (hpolled : s.revision = s.engine.shared.revision)
    (hheard : s.emitted = 0) (hcalled : s.calls = 0) (hanswered : s.answers = []) :
    s.snapshot = some s.engine.shared.snapshot := by
  have hstart : Desktop.default.Fed crypto [] := by
    refine ⟨rfl, fun b hb => ?_, Nat.le_refl _, fun h => ?_⟩
    · rcases hb with hb | hb
      · cases hb
      · cases hb
    · cases h
  have hfed : ∃ es, s.Fed crypto es := by
    refine h.invariant (I := fun s => ∃ es, s.Fed crypto es) ⟨[], hstart⟩ ?_
    rintro s s' e ⟨es, hs⟩ _ hstep
    exact hs.step hstep
  obtain ⟨es, hfed⟩ := hfed
  obtain ⟨b, hb, hrevision⟩ : ∃ b, s.Has b ∧ s.revision ≤ b.revision := by
    rcases hfed.newest hsubscribed with hemitted | hcalls | hnewest
    · omega
    · omega
    · exact hnewest
  have hshown : s.snapshot = some b := by
    rcases hb with hb | hb
    · rw [hanswered] at hb
      cases hb
    · exact hb
  obtain ⟨before, after, u, rfl, hu, rfl⟩ := hfed.read b hb
  rw [hshown]
  refine congrArg some (((announced_or_due hfed.run).resolve_right hreleased.not_due) before after u
    rfl hu (Nat.le_antisymm ?_ ?_))
  · exact Versioned.version_le Engine.step_revision hu hfed.run
  · have hle : s.engine.shared.revision ≤ u.shared.revision := by
      rw [← hpolled]
      exact hrevision
    exact hle

/-- The page opens, and the proxy is started. -/
def openedAndStarted : List DesktopEvent :=
  [.subscribe, .read, .answer 0] ++ (starting .default).map .engine ++
    [.poll, .hear, .read, .answer 0]

theorem started_proxy_is_shown :
    ∃ s, (desktop .unused).run openedAndStarted = some s ∧
      s.engine.shared.status.phase = .running ∧ s.snapshot = some s.engine.shared.snapshot := by
  have hsession : ((desktop .unused).run openedAndStarted).map (fun s => decide
      (s.engine.shared.status.phase = .running ∧ s.engine.Released ∧ s.subscribed = true ∧
        s.revision = s.engine.shared.revision ∧ s.emitted = 0 ∧ s.calls = 0 ∧
        s.answers.length = 0)) = some true := by
    decide +kernel
  obtain ⟨s, hrun, heq⟩ := Option.map_eq_some_iff.mp hsession
  obtain ⟨hphase, hreleased, hsubscribed, hpolled, hheard, hcalled, hanswered⟩ :=
    of_decide_eq_true heq
  exact ⟨s, hrun, hphase, desktop_shows_the_engine (Machine.reachable_of_run _ hrun) hreleased
    hsubscribed hpolled hheard hcalled (List.length_eq_zero_iff.mp hanswered)⟩

end SippinSoda
