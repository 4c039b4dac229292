import SippinSoda.Lib.Machine

/-!
# Versioned views

A machine shows a view of its state, and the view carries a version. Readers take copies of the
view at their leisure, get them in any order, and keep the newest. They end up with the last view
if the view never changes without its version.

* **Current** — every state of a run with the version of its last state has shown the same view;
* **current_or** — a run is current, or there is a reason why a change is still to be announced;
* **accept** — keeping the newest, which forgets the order in which copies arrive.
-/

namespace Versioned

variable {σ ε β : Type} {m : Machine σ ε} {view : σ → β} {version : β → Nat}

/-! ## Runs without unannounced changes -/

/-- What the run has shown under its last version is what it shows now. -/
def Current (m : Machine σ ε) (view : σ → β) (version : β → Nat) (es : List ε) (s : σ) : Prop :=
  ∀ before after u, es = before ++ after → m.run before = some u →
    version (view u) = version (view s) → view u = view s

/-- Versions that do not fall along a step do not fall along a run. -/
theorem version_le
    (mono : ∀ {s e s'}, m.step s e = some s' → version (view s) ≤ version (view s'))
    {before after : List ε} {u s : σ} (hu : m.run before = some u)
    (hs : m.run (before ++ after) = some s) : version (view u) ≤ version (view s) := by
  have hrest : m.runFrom u after = some s := by
    rw [Machine.run, Machine.runFrom_append,
      show m.runFrom m.start before = some u from hu] at hs
    exact hs
  exact Machine.runFrom_invariant (I := fun t => version (view u) ≤ version (view t))
    (fun h hstep => Nat.le_trans h (mono hstep)) (Nat.le_refl _) hrest

/-- A prefix of a run and one step more is a prefix of the run, or all of it. -/
theorem concat_cases {es before after : List ε} {e : ε} (h : es ++ [e] = before ++ after) :
    before = es ++ [e] ∨ ∃ after', es = before ++ after' := by
  induction after using List.reverseRecOn with
  | nil =>
      rw [List.append_nil] at h
      exact .inl h.symm
  | append_singleton after a =>
      rw [← List.append_assoc] at h
      exact .inr ⟨after, (List.append_inj' h rfl).1⟩

/-- **What keeps a run current.** Let no version fall, and let every step that does not raise it
leave the view alone or leave a reason to raise it later; and let only such steps remove a reason.
Then a run without such a reason at its end is current. -/
theorem current_or (m : Machine σ ε) (view : σ → β) (version : β → Nat) {Due : σ → Prop}
    (mono : ∀ {s e s'}, m.step s e = some s' → version (view s) ≤ version (view s'))
    (step : ∀ {es s e s'}, m.run es = some s → m.step s e = some s' →
      version (view s) < version (view s') ∨ Due s' ∨ ¬ Due s ∧ view s' = view s)
    {es : List ε} {s : σ} (hrun : m.run es = some s) : Current m view version es s ∨ Due s := by
  refine Machine.run_induction (P := fun es s => Current m view version es s ∨ Due s) ?_ ?_ hrun
  · refine .inl fun before after u hes hu _ => ?_
    obtain ⟨rfl, rfl⟩ := List.append_eq_nil_iff.mp hes.symm
    cases hu
    rfl
  · intro es s e s' hrun ih hstep
    have hrun' := Machine.run_concat hrun hstep
    rcases step hrun hstep with hraised | hdue | ⟨hnot, hsame⟩
    · -- only the state itself has the new version
      refine .inl fun before after u hes hu heq => ?_
      rcases concat_cases hes with rfl | ⟨after', rfl⟩
      · cases hu.symm.trans hrun'
        rfl
      · have hle := version_le mono hu hrun
        omega
    · exact .inr hdue
    · rcases ih with hcurrent | hdue
      · refine .inl fun before after u hes hu heq => ?_
        rcases concat_cases hes with rfl | ⟨after', rfl⟩
        · cases hu.symm.trans hrun'
          rfl
        · rw [hsame] at heq ⊢
          exact hcurrent before after' u rfl hu heq
      · exact absurd hdue hnot

/-! ## Readers -/

/-- Keep the newest. -/
def accept (version : β → Nat) (shown : Option β) (next : β) : Option β :=
  if shown.all (version · ≤ version next) then some next else shown

/-- What is accepted is the copy that came or the one that was there. -/
theorem accept_mem {shown : Option β} {next b : β} (h : b ∈ accept version shown next) :
    b = next ∨ b ∈ shown := by
  unfold accept at h
  split at h
  · exact .inl (Option.some.inj h).symm
  · exact .inr h

/-- What is shown after a copy came is as new as the copy and as what was shown. -/
theorem accept_newest (version : β → Nat) (shown : Option β) (next : β) :
    ∃ b ∈ accept version shown next, version next ≤ version b ∧
      ∀ c ∈ shown, version c ≤ version b := by
  unfold accept
  split
  next hall =>
    refine ⟨next, rfl, Nat.le_refl _, fun c hc => ?_⟩
    rw [Option.mem_def.mp hc] at hall
    exact of_decide_eq_true hall
  next hall =>
    cases shown with
    | none => exact absurd rfl hall
    | some b =>
        have hlt : ¬ version b ≤ version next := fun hle => hall (decide_eq_true hle)
        refine ⟨b, rfl, by omega, fun c hc => ?_⟩
        cases hc
        exact Nat.le_refl _

/-- **In any order.** Copies of the views of a current run, one of them of its last version, leave
the last view. -/
theorem Current.foldl_accept {es : List ε} {s : σ} (h : Current m view version es s)
    (hrun : m.run es = some s)
    (mono : ∀ {s e s'}, m.step s e = some s' → version (view s) ≤ version (view s'))
    {copies : List β}
    (htaken : ∀ b ∈ copies, ∃ before after u, es = before ++ after ∧ m.run before = some u ∧
      b = view u)
    (hlast : ∃ b ∈ copies, version b = version (view s)) :
    copies.foldl (accept version) none = some (view s) := by
  -- what is shown is a copy, and as new as all that have come
  have hfold : ∀ (l : List β), (∀ b ∈ l, b ∈ copies) → ∀ shown : Option β,
      (∀ b ∈ shown, b ∈ copies) →
      (∀ b ∈ l.foldl (accept version) shown, b ∈ copies) ∧
        ∀ c, c ∈ l ∨ c ∈ shown → ∃ b ∈ l.foldl (accept version) shown,
          version c ≤ version b := by
    intro l
    induction l with
    | nil =>
        intro _ shown hshown
        refine ⟨hshown, fun c hc => ?_⟩
        rcases hc with hc | hc
        · cases hc
        · exact ⟨c, hc, Nat.le_refl _⟩
    | cons next l ih =>
        intro hl shown hshown
        have hnext : ∀ b ∈ accept version shown next, b ∈ copies := by
          intro b hb
          rcases accept_mem hb with rfl | hb
          · exact hl b List.mem_cons_self
          · exact hshown b hb
        obtain ⟨hall, hnewest⟩ := ih (fun b hb => hl b (List.mem_cons_of_mem _ hb)) _ hnext
        obtain ⟨b, hb, hle, hlater⟩ := accept_newest version shown next
        obtain ⟨d, hd, hbd⟩ := hnewest b (.inr hb)
        refine ⟨hall, fun c hc => ?_⟩
        rcases hc with hc | hc
        · rcases List.mem_cons.mp hc with rfl | hc
          · exact ⟨d, hd, Nat.le_trans hle hbd⟩
          · exact hnewest c (.inl hc)
        · exact ⟨d, hd, Nat.le_trans (hlater c hc) hbd⟩
  obtain ⟨hall, hnewest⟩ := hfold copies (fun b hb => hb) none fun b hb => nomatch hb
  obtain ⟨c, hc, hversion⟩ := hlast
  obtain ⟨b, hb, hle⟩ := hnewest c (.inl hc)
  obtain ⟨before, after, u, rfl, hu, rfl⟩ := htaken b (hall b hb)
  have hsame : view u = view s := h before after u rfl hu
    (Nat.le_antisymm (version_le mono hu hrun) (hversion ▸ hle))
  rw [Option.mem_def.mp hb, hsame]

end Versioned
