import Mathlib.Data.List.Basic
import Mathlib.Data.List.Induction

/-!
# Labelled machines

A machine has a start state and a partial step function on labelled events: `none` means
the event cannot happen in that state. Concurrency is interleaving, so a system of several
parties is one machine whose events name the party that moves.

* **run** — the state after a list of events;
* **reach** — the states of the runs whose every step meets a guard;
* **invariant** — what holds at the start and is kept by every guarded step holds in every
  state reached;
* **once**, **always**, **since** — what the steps of a run have been, for invariants of a
  run's history;
* **count**, **gain** — how many steps of a run meet a predicate, and what they add to a quantity;
* **project** — what is seen of a machine is a run of another.
-/

/-- A start state and a partial, labelled step. -/
structure Machine (σ ε : Type) where
  start : σ
  step : σ → ε → Option σ

namespace Machine

variable {σ ε : Type} {m : Machine σ ε} {guard : σ → ε → Prop}

/-- The state after a list of events, if each of them can happen in its turn. -/
def runFrom (m : Machine σ ε) : σ → List ε → Option σ
  | s, [] => some s
  | s, e :: es => (m.step s e).bind fun s' => m.runFrom s' es

/-- The state after a list of events from the start. -/
def run (m : Machine σ ε) (es : List ε) : Option σ := m.runFrom m.start es

/-- Every step of the run of `es` from `s` meets the guard. -/
def Meets (m : Machine σ ε) (guard : σ → ε → Prop) : σ → List ε → Prop
  | _, [] => True
  | s, e :: es => guard s e ∧ ∀ s' ∈ m.step s e, m.Meets guard s' es

/-- The states reached by runs whose steps all meet the guard. -/
inductive Reach (m : Machine σ ε) (guard : σ → ε → Prop) : σ → Prop
  | start : Reach m guard m.start
  | step {s s' : σ} {e : ε} :
      Reach m guard s → guard s e → m.step s e = some s' → Reach m guard s'

/-- The states of all runs. -/
abbrev Reachable (m : Machine σ ε) : σ → Prop := m.Reach fun _ _ => True

/-! ## The invariant rule -/

/-- What a step keeps under the guard, every guarded run keeps. -/
theorem Reach.invariant {I : σ → Prop} (start : I m.start)
    (step : ∀ {s s' e}, I s → guard s e → m.step s e = some s' → I s') {s : σ}
    (h : m.Reach guard s) : I s := by
  induction h with
  | start => exact start
  | step _ hg hs ih => exact step ih hg hs

/-- A later invariant may use that the state it holds in is reached, and so what is already
known of such states. -/
theorem Reach.invariant_along {I : σ → Prop} (start : I m.start)
    (step : ∀ {s s' e}, m.Reach guard s → I s → guard s e → m.step s e = some s' → I s') {s : σ}
    (h : m.Reach guard s) : I s := by
  induction h with
  | start => exact start
  | step hr hg hs ih => exact step hr ih hg hs

/-- A stricter guard reaches no more. -/
theorem Reach.mono {guard' : σ → ε → Prop} (hle : ∀ s e, guard s e → guard' s e) {s : σ}
    (h : m.Reach guard s) : m.Reach guard' s := by
  induction h with
  | start => exact .start
  | step _ hg hs ih => exact .step ih (hle _ _ hg) hs

/-- Forgetting the guard. -/
theorem Reach.reachable {s : σ} (h : m.Reach guard s) : m.Reachable s :=
  h.mono fun _ _ _ => trivial

/-! ## Runs reach -/

/-- A guarded run from a reached state ends in one. -/
theorem Reach.runFrom {s : σ} (h : m.Reach guard s) :
    ∀ {es : List ε} {t : σ}, m.Meets guard s es → m.runFrom s es = some t →
      m.Reach guard t := by
  intro es
  induction es generalizing s with
  | nil =>
      intro t _ hrun
      exact Option.some.inj hrun ▸ h
  | cons e es ih =>
      intro t hmeets hrun
      obtain ⟨s', hs, hrest⟩ := Option.bind_eq_some_iff.mp hrun
      exact ih (.step h hmeets.1 hs) (hmeets.2 s' hs) hrest

/-- The state after a guarded run is reached. -/
theorem reach_of_run (es : List ε) {t : σ} (hmeets : m.Meets guard m.start es)
    (hrun : m.run es = some t) : m.Reach guard t :=
  Reach.start.runFrom hmeets hrun

theorem meets_true : ∀ (es : List ε) (s : σ), m.Meets (fun _ _ => True) s es := by
  intro es
  induction es with
  | nil => exact fun _ => trivial
  | cons e es ih => exact fun s => ⟨trivial, fun s' _ => ih s'⟩

/-- The state after a run is reachable. -/
theorem reachable_of_run (es : List ε) {t : σ} (hrun : m.run es = some t) :
    m.Reachable t :=
  reach_of_run es (meets_true es m.start) hrun

/-- The same for a run given as a computation. -/
theorem reachable_get (es : List ε) (h : (m.run es).isSome) :
    m.Reachable ((m.run es).get h) :=
  reachable_of_run es (Option.some_get h).symm

theorem reach_get (es : List ε) (hmeets : m.Meets guard m.start es) (h : (m.run es).isSome) :
    m.Reach guard ((m.run es).get h) :=
  reach_of_run es hmeets (Option.some_get h).symm

instance Meets.decidable [∀ s e, Decidable (guard s e)] :
    ∀ (es : List ε) (s : σ), Decidable (m.Meets guard s es)
  | [], _ => .isTrue trivial
  | e :: es, s =>
    match hs : m.step s e with
    | none => decidable_of_iff (guard s e) (by simp [Meets, hs])
    | some s' =>
      have := Meets.decidable es s'
      decidable_of_iff (guard s e ∧ m.Meets guard s' es) (by simp [Meets, hs])

/-! ## What a run has done -/

theorem runFrom_append (es fs : List ε) :
    ∀ s : σ, m.runFrom s (es ++ fs) = (m.runFrom s es).bind fun t => m.runFrom t fs := by
  induction es with
  | nil => exact fun s => rfl
  | cons e es ih =>
      intro s
      show (m.step s e).bind (fun s' => m.runFrom s' (es ++ fs)) = _
      rw [runFrom, Option.bind_assoc]
      exact congrArg _ (funext ih)

/-- A run and one step more. -/
theorem run_concat {es : List ε} {e : ε} {s s' : σ} (hrun : m.run es = some s)
    (hstep : m.step s e = some s') : m.run (es ++ [e]) = some s' := by
  rw [run, runFrom_append, show m.runFrom m.start es = some s from hrun]
  show (m.step s e).bind _ = some s'
  rw [hstep]
  rfl

/-- A property of a run and the state it ends in, from one step to the next. -/
theorem run_induction {P : List ε → σ → Prop} (start : P [] m.start)
    (step : ∀ {es s e s'}, m.run es = some s → P es s → m.step s e = some s' →
      P (es ++ [e]) s') : ∀ {es : List ε} {s : σ}, m.run es = some s → P es s := by
  -- over the steps still to be made, the steps made being a run to the state they start in
  have hfrom : ∀ (fs es : List ε) (s t : σ), m.run es = some s → P es s →
      m.runFrom s fs = some t → P (es ++ fs) t := by
    intro fs
    induction fs with
    | nil =>
        intro es s t _ h hrun
        rw [List.append_nil]
        exact Option.some.inj hrun ▸ h
    | cons e fs ih =>
        intro es s t hrun h hrest
        obtain ⟨s', hs, hrest⟩ := Option.bind_eq_some_iff.mp hrest
        rw [List.append_cons]
        exact ih (es ++ [e]) s' t (run_concat hrun hs) (step hrun h hs) hrest
  intro es s hrun
  exact hfrom es [] m.start s rfl start hrun

theorem Meets.append {s t : σ} {es fs : List ε} (h : m.Meets guard s es)
    (hrun : m.runFrom s es = some t) (ht : m.Meets guard t fs) : m.Meets guard s (es ++ fs) := by
  induction es generalizing s with
  | nil => exact Option.some.inj hrun ▸ ht
  | cons e es ih =>
      refine ⟨h.1, fun s' hs => ?_⟩
      obtain ⟨s'', hs'', hrest⟩ := Option.bind_eq_some_iff.mp hrun
      obtain rfl : s'' = s' := Option.some.inj (hs''.symm.trans hs)
      exact ih (h.2 _ hs) hrest

/-- The run has made a step that meets `p`, which may look at the steps before it. -/
def Once (m : Machine σ ε) (p : List ε → σ → ε → Prop) (es : List ε) : Prop :=
  ∃ before e after s, es = before ++ e :: after ∧ m.run before = some s ∧ p before s e

/-- Every step of the run meets `p`, which may look at the steps before it. -/
def Always (m : Machine σ ε) (p : List ε → σ → ε → Prop) (es : List ε) : Prop :=
  ∀ before e after s, es = before ++ e :: after → m.run before = some s → p before s e

/-- The run has made a step that meets `p`, and all its steps since have met `q`. -/
def Since (m : Machine σ ε) (p q : σ → ε → Prop) (es : List ε) : Prop :=
  ∃ before e after s s', es = before ++ e :: after ∧ m.run before = some s ∧ p s e ∧
    m.step s e = some s' ∧ m.Meets q s' after

/-- An element of a list with one more is the last, or is in the list before it. -/
theorem concat_eq_append_cons {l before after : List ε} {a b : ε}
    (h : l ++ [a] = before ++ b :: after) :
    (after = [] ∧ before = l ∧ a = b) ∨
      ∃ after', after = after' ++ [a] ∧ l = before ++ b :: after' := by
  induction after using List.reverseRecOn with
  | nil =>
      obtain ⟨rfl, heq⟩ := List.append_inj' h rfl
      cases heq
      exact .inl ⟨rfl, rfl, rfl⟩
  | append_singleton after c =>
      rw [← List.cons_append, ← List.append_assoc] at h
      obtain ⟨rfl, heq⟩ := List.append_inj' h rfl
      cases heq
      exact .inr ⟨after, rfl, rfl⟩

section Histories

variable {p q : List ε → σ → ε → Prop} {es : List ε} {e : ε} {s : σ}

theorem Once.now (hrun : m.run es = some s) (hp : p es s e) : m.Once p (es ++ [e]) :=
  ⟨es, e, [], s, rfl, hrun, hp⟩

theorem Once.append (h : m.Once p es) (fs : List ε) : m.Once p (es ++ fs) := by
  obtain ⟨before, e, after, s, rfl, hrun, hp⟩ := h
  exact ⟨before, e, after ++ fs, s, by simp, hrun, hp⟩

/-- What one step more has met is met by it, or was before. -/
theorem Once.concat_cases (hrun : m.run es = some s) (h : m.Once p (es ++ [e])) :
    p es s e ∨ m.Once p es := by
  obtain ⟨before, e', after, u, hes, hbefore, hp⟩ := h
  rcases concat_eq_append_cons hes with ⟨-, rfl, rfl⟩ | ⟨after', -, hes⟩
  · cases hrun.symm.trans hbefore
    exact .inl hp
  · exact .inr ⟨before, e', after', u, hes, hbefore, hp⟩

theorem Always.last (h : m.Always p (es ++ [e])) (hrun : m.run es = some s) : p es s e :=
  h es e [] s rfl hrun

theorem Always.of_append {fs : List ε} (h : m.Always p (es ++ fs)) : m.Always p es :=
  fun before e after s hes hrun => h before e (after ++ fs) s (by simp [hes]) hrun

/-- A step that is made meets what all steps meet. -/
theorem Once.and_always (h : m.Once p es) (hq : m.Always q es) :
    m.Once (fun before s e => p before s e ∧ q before s e) es := by
  obtain ⟨before, e, after, s, hes, hrun, hp⟩ := h
  exact ⟨before, e, after, s, hes, hrun, hp, hq before e after s hes hrun⟩

/-- A guard is met by every step, whatever came before. -/
theorem Meets.always (h : m.Meets guard m.start es) : m.Always (fun _ => guard) es := by
  have hfrom : ∀ (before : List ε) (e : ε) (after : List ε) (s t : σ), m.runFrom s before = some t →
      m.Meets guard s (before ++ e :: after) → guard t e := by
    intro before
    induction before with
    | nil =>
        intro e after s t hrun h
        exact Option.some.inj hrun ▸ h.1
    | cons a before ih =>
        intro e after s t hrun h
        obtain ⟨s', hs, hrest⟩ := Option.bind_eq_some_iff.mp hrun
        exact ih e after s' t hrest (h.2 s' hs)
  rintro before e after s rfl hrun
  exact hfrom before e after m.start s hrun h

end Histories

variable {p q : σ → ε → Prop} {es : List ε} {e : ε} {s s' : σ}

theorem Since.now (hrun : m.run es = some s) (hp : p s e) (hstep : m.step s e = some s') :
    m.Since p q (es ++ [e]) :=
  ⟨es, e, [], s, s', rfl, hrun, hp, hstep, trivial⟩

theorem Since.concat (h : m.Since p q es) (hrun : m.run es = some s) (hq : q s e) :
    m.Since p q (es ++ [e]) := by
  obtain ⟨before, i, after, u, u', rfl, hbefore, hp, hstep, hmeets⟩ := h
  refine ⟨before, i, after ++ [e], u, u', by simp, hbefore, hp, hstep, ?_⟩
  have hafter : m.runFrom u' after = some s := by
    rw [run, runFrom_append, show m.runFrom m.start before = some u from hbefore] at hrun
    obtain ⟨v, hv, hrest⟩ := Option.bind_eq_some_iff.mp
      (show (m.step u i).bind (fun v => m.runFrom v after) = some s from hrun)
    obtain rfl : u' = v := Option.some.inj (hstep.symm.trans hv)
    exact hrest
  exact hmeets.append hafter ⟨hq, fun _ _ => trivial⟩

/-- The guard along a run in two parts. -/
theorem Meets.of_append {s t : σ} {es fs : List ε} (h : m.Meets guard s (es ++ fs))
    (hrun : m.runFrom s es = some t) : m.Meets guard s es ∧ m.Meets guard t fs := by
  induction es generalizing s with
  | nil => exact ⟨trivial, Option.some.inj hrun ▸ h⟩
  | cons e es ih =>
      obtain ⟨s', hs, hrest⟩ := Option.bind_eq_some_iff.mp hrun
      refine ⟨⟨h.1, fun s'' hs'' => ?_⟩, (ih (h.2 s' hs) hrest).2⟩
      obtain rfl : s' = s'' := Option.some.inj (hs.symm.trans hs'')
      exact (ih (h.2 s' hs) hrest).1

/-- After one step more, the step looked for was the last, or it was before and the last one has
met the guard. -/
theorem Since.concat_cases (h : m.Since p q (es ++ [e])) (hrun : m.run es = some s) :
    p s e ∨ m.Since p q es ∧ q s e := by
  obtain ⟨before, i, after, u, u', hes, hbefore, hp, hstep, hmeets⟩ := h
  rcases concat_eq_append_cons hes with ⟨-, rfl, rfl⟩ | ⟨after', rfl, rfl⟩
  · cases hrun.symm.trans hbefore
    exact .inl hp
  · rw [run, runFrom_append, show m.runFrom m.start before = some u from hbefore] at hrun
    obtain ⟨v, hv, hrest⟩ := Option.bind_eq_some_iff.mp
      (show (m.step u i).bind (fun v => m.runFrom v after') = some s from hrun)
    obtain rfl : u' = v := Option.some.inj (hstep.symm.trans hv)
    obtain ⟨hbefore', hlast⟩ := hmeets.of_append hrest
    exact .inr ⟨⟨before, i, after', u, u', rfl, hbefore, hp, hstep, hbefore'⟩, hlast.1⟩

/-- What meets a guard meets a weaker one. -/
theorem Meets.mono {guard' : σ → ε → Prop} (hle : ∀ s e, guard s e → guard' s e) :
    ∀ {es : List ε} {s : σ}, m.Meets guard s es → m.Meets guard' s es := by
  intro es
  induction es with
  | nil => exact fun _ => trivial
  | cons e es ih =>
      intro s h
      exact ⟨hle s e h.1, fun s' hs => ih (h.2 s' hs)⟩

theorem Since.mono {q' : σ → ε → Prop} (h : m.Since p q es) (hle : ∀ s e, q s e → q' s e) :
    m.Since p q' es := by
  obtain ⟨before, e, after, s, s', hes, hrun, hp, hstep, hmeets⟩ := h
  exact ⟨before, e, after, s, s', hes, hrun, hp, hstep, hmeets.mono hle⟩

/-! ## Projections -/

/-- What a machine shows of its states runs like another machine, if each of its steps is one of
that machine or does not show. -/
theorem Reach.project {τ δ : Type} {n : Machine τ δ} (f : σ → τ) (start : f m.start = n.start)
    (step : ∀ {s e s'}, m.step s e = some s' →
      f s' = f s ∨ ∃ d, n.step (f s) d = some (f s')) {s : σ}
    (h : m.Reach guard s) : n.Reachable (f s) := by
  induction h with
  | start => exact start ▸ .start
  | step _ _ hs ih =>
      rcases step hs with hsame | ⟨d, hd⟩
      · exact hsame ▸ ih
      · exact .step ih trivial hd

/-! ## Counting steps -/

/-- The number of steps of the run of `es` from `s` that meet `p`. -/
def count (m : Machine σ ε) (p : σ → ε → Bool) : σ → List ε → Nat
  | _, [] => 0
  | s, e :: es => (p s e).toNat + ((m.step s e).map fun s' => m.count p s' es).getD 0

/-- What an invariant keeps along a run from one of its states. -/
theorem runFrom_invariant {I : σ → Prop} (step : ∀ {s e s'}, I s → m.step s e = some s' → I s')
    {es : List ε} {s t : σ} (hs : I s) (hrun : m.runFrom s es = some t) : I t := by
  induction es generalizing s with
  | nil => exact Option.some.inj hrun ▸ hs
  | cons e es ih =>
      obtain ⟨s', hstep, hrest⟩ := Option.bind_eq_some_iff.mp hrun
      exact ih (step hs hstep) hrest

/-- The same for an invariant that goes by what the steps so far come to. -/
theorem runFrom_fold {τ : Type} {I : τ → σ → Prop} {next : τ → ε → τ}
    (step : ∀ {a s e s'}, I a s → m.step s e = some s' → I (next a e) s') {es : List ε} :
    ∀ {a : τ} {s t : σ}, I a s → m.runFrom s es = some t → I (es.foldl next a) t := by
  induction es with
  | nil =>
      intro a s t hs hrun
      exact Option.some.inj hrun ▸ hs
  | cons e es ih =>
      intro a s t hs hrun
      obtain ⟨s', hstep, hrest⟩ := Option.bind_eq_some_iff.mp hrun
      exact ih (step hs hstep) hrest

/-- The steps that raise a flag, which no other step touches, are counted by it: there is one at
most. -/
theorem count_flag {I : σ → Prop} {p : σ → ε → Bool} {flag : σ → Bool}
    (step : ∀ {s e s'}, I s → m.step s e = some s' → I s' ∧
      (p s e).toNat + (flag s).toNat = (flag s').toNat)
    {es : List ε} {s t : σ} (hs : I s) (hrun : m.runFrom s es = some t) :
    m.count p s es + (flag s).toNat = (flag t).toNat := by
  induction es generalizing s with
  | nil =>
      obtain rfl : s = t := Option.some.inj hrun
      exact Nat.zero_add _
  | cons e es ih =>
      obtain ⟨s', hstep, hrest⟩ := Option.bind_eq_some_iff.mp hrun
      obtain ⟨hs', hflag⟩ := step hs hstep
      have hcount := ih hs' hrest
      show (p s e).toNat + ((m.step s e).map _).getD 0 + _ = _
      rw [hstep]
      show (p s e).toNat + m.count p s' es + _ = _
      omega

/-! ## What some steps add up to -/

/-- By how much the steps of the run of `es` from `s` that meet `p` raise `f`. -/
def gain (m : Machine σ ε) (p : σ → ε → Bool) (f : σ → Int) : σ → List ε → Int
  | _, [] => 0
  | s, e :: es => ((m.step s e).map fun s' =>
      (if p s e then f s' - f s else 0) + m.gain p f s' es).getD 0

/-- Where a quantity changes by what the steps in question add to `f`, it tells what they have
added; unless the run comes to a state that spoils this for good. -/
theorem gain_eq {I spoiled : σ → Prop} {p : σ → ε → Bool} {f g : σ → Int}
    (spoils : ∀ {s e s'}, I s → m.step s e = some s' → spoiled s → spoiled s')
    (step : ∀ {s e s'}, I s → m.step s e = some s' → I s' ∧
      (spoiled s' ∨ (if p s e then f s' - f s else 0) = g s' - g s))
    {es : List ε} {s t : σ} (hs : I s) (hrun : m.runFrom s es = some t) (ht : ¬ spoiled t) :
    m.gain p f s es = g t - g s := by
  have hspoils : ∀ {es : List ε} {s : σ}, I s → m.runFrom s es = some t → ¬ spoiled s := by
    intro es s hs hrun hspoiled
    refine ht (runFrom_invariant (I := fun s => I s ∧ spoiled s) ?_ ⟨hs, hspoiled⟩ hrun).2
    exact fun h hstep => ⟨(step h.1 hstep).1, spoils h.1 hstep h.2⟩
  induction es generalizing s with
  | nil =>
      obtain rfl : s = t := Option.some.inj hrun
      exact (Int.sub_self _).symm
  | cons e es ih =>
      obtain ⟨s', hstep, hrest⟩ := Option.bind_eq_some_iff.mp hrun
      obtain ⟨hs', hgain⟩ := step hs hstep
      have hfirst := hgain.resolve_left (hspoils hs' hrest)
      have hlater := ih hs' hrest
      show ((m.step s e).map _).getD 0 = _
      rw [hstep]
      show (if p s e then f s' - f s else 0) + m.gain p f s' es = _
      omega

end Machine
