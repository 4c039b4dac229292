import SippinSoda.Pages

/-!
# JSON layout jobs

One job at a time lays out a complete body: it reserves what it writes, and publishes the file with
its status, or gives back what it has reserved. `Entry::cancel` takes the files and gives back what
the entry has reserved, the job's part with the rest.

* **Laying** — what a job that has succeeded holds is the complete layout;
* **Shows** — the status is "ready" with the file, and only then;
* **job_gives_back** — what a job adds to the two counters, step by step, comes to nothing;
* **layout_jobs_are_atomic** — what holds in every reachable state, and of every step.
-/

namespace SippinSoda.Bodies

open Budget Ledger

/-! ## The layout -/

/-- A job whose `format_json` has succeeded holds the complete layout. -/
def Laying (serde : IgnoredAny) (b : Buffers) (f : Files) : LayoutPc → Prop
  | .dropping r true => LaidOut serde f.recorded b.output ∧ r = b.output.length
  | .checking r => LaidOut serde f.recorded b.output ∧ r = b.output.length
  | .reporting (some r) => LaidOut serde f.recorded b.output ∧ r = b.output.length
  | _ => True

/-- What an entry shows of its layout. -/
structure Shows (serde : IgnoredAny) (f : Files) (e : Entry) : Prop where
  view : ∀ bytes, f.view = some bytes → e.json = .ready ∧ e.result = .complete ∧
    bytes.length = e.layout ∧ LaidOut serde f.recorded bytes
  live : e.alive = true → e.cancelled = false →
    f.file = true ∧ (e.json = .ready → f.view.isSome = true)

/-- **The layouts are complete, and shown as the statuses say.** -/
structure Laid (serde : IgnoredAny) (s : State) : Prop where
  entry : ∀ (i : Nat) (e : Entry), s.budget.entries[i]? = some e → Shows serde (s.files i) e
  job : ∀ (k i : Nat) (pc : LayoutPc), s.budget.threads[k]? = some (.layout i pc) →
    Laying serde (s.buffers k) (s.files i) pc

theorem laid_start (serde : IgnoredAny) : Laid serde start where
  entry i e h := by simp [start, Budget.start] at h
  job k i pc h := by simp [start, Budget.start] at h

/-- An entry that only its threads have not touched. -/
theorem Shows.still {serde : IgnoredAny} {e e' : Entry} {f f' : Files} (h : Shows serde f e)
    (hstill : Still e e') (hgrows : Grows e f e' f') (hview : f'.view = f.view)
    (hfile : f'.file = f.file) : Shows serde f' e' := by
  refine ⟨fun bytes hbytes => ?_, fun halive hcancelled => ?_⟩
  · obtain ⟨hready, hcomplete, hlength, hlaid⟩ := h.view bytes (hview ▸ hbytes)
    obtain ⟨hcomplete', -, hrecorded⟩ := hgrows.complete hcomplete
    rw [hrecorded, hstill.layout]
    exact ⟨hstill.ready.mpr hready, hcomplete', hlength, hlaid⟩
  · obtain ⟨hold, hready⟩ := h.live (hstill.alive halive) (hstill.cancelled ▸ hcancelled)
    rw [hfile, hview]
    exact ⟨hold, fun hready' => hready (hstill.ready.mp hready')⟩

/-- A step of a job keeps what it holds. -/
theorem Laying.step {serde : IgnoredAny} {k used i : Nat} {b : Buffers} {f : Files} {e : Entry}
    {pc : LayoutPc} {a : Input} {l : Local LayoutPc}
    (h : layoutStep k used e pc a.answer = some l)
    (hallows : allows b (.layout i pc) a = true) (hs : Laying serde b f pc) :
    Laying serde (b.after (.layout i pc) a) f l.pc := by
  cases pc with
  | writing r failed =>
      cases a with
      | bytes chunk =>
          simp only [Input.answer, layoutStep] at h
          split at h
          · cases h
          · split at h <;> cases h <;> trivial
      | ok =>
          cases failed with
          | false => cases hallows
          | true => cases h; trivial
      | failure => cases h; trivial
      | _ => cases h
  | reserving r n failed =>
      cases a <;> simp only [Input.answer, layoutStep, reduceCtorEq] at h
      split at h <;> cases h <;> trivial
  | adding r n failed =>
      cases a <;> simp only [Input.answer, layoutStep, reduceCtorEq, Option.some.injEq] at h <;>
        subst h <;> trivial
  | dropping r keep =>
      cases a <;> simp only [Input.answer, layoutStep, reduceCtorEq] at h
      split at h
      · cases h
      · cases keep with
        | true => cases h; exact hs
        | false =>
            simp only [Bool.false_eq_true, if_false] at h
            split at h <;> cases h <;> trivial
  | unreserving r =>
      cases a <;> simp only [Input.answer, layoutStep, reduceCtorEq, Option.some.injEq] at h
      have hpc : l.pc = .unbudgeting r := by rw [← h]
      rw [hpc]
      trivial
  | unbudgeting r =>
      cases a <;> simp only [Input.answer, layoutStep, reduceCtorEq, Option.some.injEq] at h
      have hpc : l.pc = .reporting none := by rw [← h]
      rw [hpc]
      trivial
  | checking r =>
      cases a <;> simp only [Input.answer, layoutStep, reduceCtorEq, Option.some.injEq] at h
      subst h
      show Laying serde b f (if _ then _ else _)
      split
      · trivial
      · exact hs
  | givingBack r =>
      cases a <;> simp only [Input.answer, layoutStep, reduceCtorEq] at h
      split at h
      · cases h
      · split at h <;> cases h <;> trivial
  | reporting outcome =>
      rcases layoutStep_entry h with ⟨-, -, hpc⟩ | ⟨outcome', -, hpc, -⟩
      · cases outcome <;> cases a <;> cases h <;> exact absurd rfl hpc
      · rw [hpc]
        trivial
  | ended => cases a <;> simp [layoutStep] at h

/-- A job at work has a complete body. -/
theorem layout_complete {s : Budget.State} (hstaffed : Staffed s.entries s.threads) {k i : Nat}
    {pc : LayoutPc} (hk : s.threads[k]? = some (.layout i pc)) (hpc : pc ≠ .ended) {e : Entry}
    (he : s.entries[i]? = some e) : e.json = .building ∧ e.result = .complete := by
  obtain ⟨d, hd, hposted⟩ := hstaffed.posted _ (List.mem_of_getElem? hk) i (.inr (if_neg hpc))
  obtain rfl : e = d := Option.some.inj (he.symm.trans hd)
  exact hposted.layouter i (if_neg hpc)

/-- A job whose bytes and whose body stay holds what it held. -/
theorem Laying.keeps {serde : IgnoredAny} {s s' : State} {k i : Nat} {pc : LayoutPc}
    (hstaffed : Staffed s.budget.entries s.budget.threads) (hgrown : s.Grown s' i)
    (hk : s.budget.threads[k]? = some (.layout i pc))
    (houtput : (s'.buffers k).output = (s.buffers k).output)
    (hs : Laying serde (s.buffers k) (s.files i) pc) :
    Laying serde (s'.buffers k) (s'.files i) pc := by
  by_cases hpc : pc = .ended
  · subst hpc
    trivial
  · obtain ⟨e, he, -⟩ := hstaffed.posted _ (List.mem_of_getElem? hk) i (.inr (if_neg hpc))
    obtain ⟨e', -, hgrows⟩ := hgrown e he
    have hrecorded := (hgrows.complete (layout_complete hstaffed hk hpc he).2).2.2
    unfold Laying at hs ⊢
    rwa [houtput, hrecorded]

/-- **A step of a thread on its entry keeps what the entry shows.** -/
theorem Shows.act {serde : IgnoredAny} {s : Budget.State} {k i : Nat} {b : Buffers} {f : Files}
    {t : Thread} {e : Entry} {a : Input} {l : Local Thread}
    (hstaffed : Staffed s.entries s.threads) (hgood : Good s)
    (hk : s.threads[k]? = some t) (hi : t.entry? = some i) (he : s.entries[i]? = some e)
    (hl : t.stepOn k s.used e a.answer = some l) (hs : Shows serde f e)
    (hjob : ∀ pc, t = .layout i pc → Laying serde b f pc) :
    Shows serde (f.after b t a) l.entry := by
  have hok := stepOn_ok hl (hgood.localPre hk hi he)
  have hnot (hcancelled : l.entry.cancelled = false) : e.cancelled = false := by
    by_contra hwas
    have hwas : e.cancelled = true := by simpa using hwas
    cases hcancelled.symm.trans (hok.stays hwas).1
  cases t with
  | store op pc => cases hi
  | worker j pc =>
      obtain ⟨l', hl', rfl⟩ := Option.map_eq_some_iff.mp hl
      have hpc : pc ≠ .ended := (workerStep_spec hl').2.1
      obtain rfl : j = i := by simpa [hpc] using hi
      have hunfinished := unfinished_of_step hstaffed hk hpc he
      have hentry := workerStep_entry hl'
      refine ⟨fun bytes hbytes => absurd (hs.view bytes hbytes).2.1 hunfinished,
        fun halive hcancelled => ?_⟩
      obtain ⟨hfile, hready⟩ := hs.live (hok.alive ▸ halive) (hnot hcancelled)
      refine ⟨hfile, fun hready' => hready ?_⟩
      have hjson : l'.entry.json = e.json := by rw [hentry]
      exact hjson.symm.trans hready'
  | layout j pc =>
      obtain ⟨l', hl', rfl⟩ := Option.map_eq_some_iff.mp hl
      have hpc : pc ≠ .ended := (layoutStep_spec hl').2.1
      obtain rfl : j = i := by simpa [hpc] using hi
      obtain ⟨hbuilding, hcomplete⟩ := layout_complete hstaffed hk hpc he
      -- while a job is at work the view is empty
      have hnone : f.view = none := by
        cases hview : f.view with
        | none => rfl
        | some bytes => cases hbuilding.symm.trans (hs.view bytes hview).1
      rcases layoutStep_entry hl' with ⟨hentry, -, hpc'⟩ | ⟨outcome, rfl, -, hentry⟩
      · have hafter : f.after b (.layout j pc) a = f := by
          cases pc with
          | reporting outcome => cases outcome <;> cases a <;> cases hl' <;> exact absurd rfl hpc'
          | _ => rfl
        rw [hafter]
        refine ⟨fun bytes hbytes => ?_, fun halive hcancelled => ?_⟩
        · cases hnone.symm.trans hbytes
        · obtain ⟨hfile, -⟩ := hs.live (hok.alive ▸ halive) (hnot hcancelled)
          have hjson : l'.entry.json = e.json := by rw [hentry]
          refine ⟨hfile, fun hready => ?_⟩
          cases hbuilding.symm.trans (hjson.symm.trans hready)
      · cases outcome with
        | some r =>
            cases a with
            | go =>
                obtain ⟨hlaid, hlength⟩ := hjob _ rfl
                show Shows serde { f with view := some b.output } l'.entry
                refine ⟨fun bytes hbytes => ?_, fun halive hcancelled => ?_⟩
                · obtain rfl : b.output = bytes := Option.some.inj hbytes
                  rw [hentry]
                  exact ⟨rfl, hcomplete, hlength.symm, hlaid⟩
                · obtain ⟨hfile, -⟩ := hs.live (hok.alive ▸ halive) (hnot hcancelled)
                  exact ⟨hfile, fun _ => rfl⟩
            | _ => cases hl'
        | none =>
            show Shows serde f l'.entry
            refine ⟨fun bytes hbytes => ?_, fun halive hcancelled => ?_⟩
            · cases hnone.symm.trans hbytes
            · obtain ⟨hfile, -⟩ := hs.live (hok.alive ▸ halive) (hnot hcancelled)
              refine ⟨hfile, fun hready => ?_⟩
              have hjson : l'.entry.json = .error := by rw [hentry]; rfl
              cases hjson.symm.trans hready
  | cancel j pc =>
      cases a with
      | go =>
          obtain ⟨l', hl', rfl⟩ := Option.map_eq_some_iff.mp hl
          have hentry := cancelStep_entry hl'
          show Shows serde f l'.entry
          refine ⟨fun bytes hbytes => ?_, fun halive hcancelled => ?_⟩
          · rw [hentry]
            exact hs.view bytes hbytes
          · have hjson : l'.entry.json = e.json := by rw [hentry]
            obtain ⟨hfile, hready⟩ := hs.live (hok.alive ▸ halive) (hnot hcancelled)
            exact ⟨hfile, fun hready' => hready (hjson.symm.trans hready')⟩
      | _ => cases hl

/-! ## Every step keeps what is shown -/

/-- What keeps the layouts: an entry stays with its files, or shows anew what it has, and so for
the jobs. -/
theorem Laid.next {serde : IgnoredAny} {s s' : State} (hs : Laid serde s)
    (hstaffed : Staffed s.budget.entries s.budget.threads) (hgrown : ∀ i, s.Grown s' i)
    (hentries : ∀ (i : Nat) (e' : Entry), s'.budget.entries[i]? = some e' →
      (∃ e, s.budget.entries[i]? = some e ∧ Still e e' ∧
        (s'.files i).view = (s.files i).view ∧ (s'.files i).file = (s.files i).file) ∨
      Shows serde (s'.files i) e')
    (hjobs : ∀ (k i : Nat) (pc : LayoutPc), s'.budget.threads[k]? = some (.layout i pc) →
      (s.budget.threads[k]? = some (.layout i pc) ∧
        (s'.buffers k).output = (s.buffers k).output) ∨
      Laying serde (s'.buffers k) (s'.files i) pc) : Laid serde s' := by
  refine ⟨fun i e' he' => ?_, fun k i pc hk => ?_⟩
  · rcases hentries i e' he' with ⟨e, he, hstill, hview, hfile⟩ | hshows
    · obtain ⟨d, hd, hgrows⟩ := hgrown i e he
      obtain rfl : e' = d := Option.some.inj (he'.symm.trans hd)
      exact (hs.entry i e he).still hstill hgrows hview hfile
    · exact hshows
  · rcases hjobs k i pc hk with ⟨hold, houtput⟩ | hlaying
    · exact Laying.keeps hstaffed (hgrown i) hold houtput (hs.job k i pc hold)
    · exact hlaying

/-- The budget moves, but no thread on its entry. A new entry shows no layout. -/
theorem Laid.moves {serde : IgnoredAny} {s s' : State} {d : Budget.Event} (hs : Laid serde s)
    (hstaffed : Staffed s.budget.entries s.budget.threads) (hgrown : ∀ i, s.Grown s' i)
    (h : Moves s.budget d s'.budget) (hd : ∀ k a, d ≠ .step k a)
    (hfiles : ∀ (i : Nat) (e : Entry), s.budget.entries[i]? = some e → s'.files i = s.files i)
    (hnew : (∃ k, d = .insert k) ∨ (∃ side id limit, d = .record side id limit) →
      (s'.files s.budget.entries.length).view = none ∧
        (s'.files s.budget.entries.length).file = true)
    (hbuffers : ∀ (k : Nat) (t : Thread), s.budget.threads[k]? = some t →
      s'.buffers k = s.buffers k) : Laid serde s' := by
  have hfresh {e : Entry} (hjson : e.json ≠ .ready)
      (hd : (∃ k, d = .insert k) ∨ ∃ side id limit, d = .record side id limit) :
      Shows serde (s'.files s.budget.entries.length) e := by
    obtain ⟨hview, hfile⟩ := hnew hd
    refine ⟨fun bytes hbytes => ?_, fun _ _ => ⟨hfile, fun hready => absurd hready hjson⟩⟩
    cases hview.symm.trans hbytes
  refine hs.next hstaffed hgrown (fun i e' he' => ?_) fun k i pc hk => ?_
  · cases h.entry he' with
    | still he hstill => exact .inl ⟨_, he, hstill, by rw [hfiles i _ he], by rw [hfiles i _ he]⟩
    | insert hi _ =>
        subst hi
        exact .inr (hfresh (fun h => by cases h) (.inl ⟨_, rfl⟩))
    | record hi =>
        subst hi
        exact .inr (hfresh (fun h => by cases h) (.inr ⟨_, _, _, rfl⟩))
    | act => exact absurd rfl (hd _ _)
  · generalize ht : Thread.layout i pc = t at hk
    cases h.thread hk with
    | follows hold hfollows =>
        cases hfollows with
        | refl => exact .inl ⟨hold, by rw [hbuffers k _ hold]⟩
        | store => cases ht
    | call => cases ht
    | record => cases ht
    | cancel => cases ht
    | layout hk => cases ht; exact .inr trivial
    | act => exact absurd rfl (hd _ _)

/-- An entry that is gone shows nothing. -/
theorem Shows.dropped (serde : IgnoredAny) (f : Files) {e : Entry} (halive : e.alive = false) :
    Shows serde { f with file := false, view := none } e := by
  refine ⟨fun bytes hbytes => ?_, fun hlive => ?_⟩
  · cases hbytes
  · cases halive.symm.trans hlive

theorem Moves.drop_eq {s s' : Budget.State} {i : Nat} (h : Moves s (.drop i) s') :
    s'.threads = s.threads ∧ ∀ e', s'.entries[i]? = some e' → e'.alive = false := by
  cases h with
  | store hevent => rcases hevent with ⟨ok, h⟩ | h <;> cases h
  | touch _ htouched => cases htouched
  | drop =>
      refine ⟨rfl, fun e' he' => ?_⟩
      rcases set_cases he' with ⟨-, rfl⟩ | ⟨hne, -⟩
      · rfl
      · exact absurd rfl hne

/-- **A step of a thread keeps the layouts.** -/
theorem Laid.act {serde : IgnoredAny} {s : State} (hs : Laid serde s) (hgood : Good s.budget)
    (hstaffed : Staffed s.budget.entries s.budget.threads) {k i : Nat} {a : Input} {t : Thread}
    {b : Budget.State} (ht : s.budget.threads[k]? = some t) (hi : t.entry? = some i)
    (hallows : allows (s.buffers k) t a = true)
    (hb : Budget.step s.budget (.step k a.answer) = some b)
    (hgrown : ∀ j, s.Grown (s.put b k i ((s.buffers k).after t a)
      ((s.files i).after (s.buffers k) t a)) j) :
    Laid serde (s.put b k i ((s.buffers k).after t a)
      ((s.files i).after (s.buffers k) t a)) := by
  obtain ⟨e, l, he, hl, rfl⟩ := Budget.act_of_step ht hi hb
  refine hs.next hstaffed hgrown (fun j e' he' => ?_) fun k' j pc hk' => ?_
  · rcases set_cases he' with ⟨rfl, rfl⟩ | ⟨hne, hold⟩
    · right
      rw [State.put_files_self]
      refine Shows.act hstaffed hgood ht hi he hl (hs.entry j e he) fun pc hpc => ?_
      subst hpc
      exact hs.job k j pc ht
    · left
      refine ⟨e', hold, .refl e', ?_, ?_⟩ <;> rw [State.put_files_of_ne hne]
  · rcases SingleOwner.getElem?_set_cases hk' with ⟨rfl, hpc⟩ | ⟨hne, hold⟩
    · right
      cases t with
      | store op pc => cases hi
      | worker j' pc' =>
          obtain ⟨l', hl', rfl⟩ := Option.map_eq_some_iff.mp hl
          cases hpc
      | layout j' pc' =>
          obtain ⟨l', hl', rfl⟩ := Option.map_eq_some_iff.mp hl
          cases hpc
          have hpc' : pc' ≠ .ended := (layoutStep_spec hl').2.1
          obtain rfl : j = i := by simpa [hpc'] using hi
          have hstep := Laying.step hl' hallows (hs.job k' j pc' ht)
          rw [State.put_buffers_self, State.put_files_self]
          unfold Laying at hstep ⊢
          rwa [Files.after_recorded]
      | cancel j' pc' =>
          cases a with
          | go =>
              obtain ⟨l', hl', rfl⟩ := Option.map_eq_some_iff.mp hl
              cases hpc
          | _ => cases hl
    · exact .inl ⟨hold, by rw [State.put_buffers_of_ne hne]⟩

section Kinds

variable {serde : IgnoredAny} {s s' : State} (hs : Laid serde s)
  (hstaffed : Staffed s.budget.entries s.budget.threads) (hgrown : ∀ i, s.Grown s' i)

include hs hstaffed hgrown

/-- The budget stays. -/
theorem Laid.stays (hbudget : s'.budget = s.budget)
    (hentries : ∀ (i : Nat) (e : Entry), s.budget.entries[i]? = some e →
      ((s'.files i).view = (s.files i).view ∧ (s'.files i).file = (s.files i).file) ∨
      Shows serde (s'.files i) e)
    (hbuffers : ∀ k, (s'.buffers k).output = (s.buffers k).output) : Laid serde s' := by
  refine hs.next hstaffed hgrown (fun i e he => ?_) fun k i pc hk => ?_
  · rw [hbudget] at he
    exact (hentries i e he).imp_left fun hfiles => ⟨e, he, .refl e, hfiles⟩
  · rw [hbudget] at hk
    exact .inl ⟨hk, hbuffers k⟩

/-- A thread moves bytes of one entry. -/
theorem Laid.puts {k i : Nat} {b : Buffers} {f : Files} (hput : s' = s.put s.budget k i b f)
    (hb : b.output = (s.buffers k).output)
    (hf : ∀ e, s.budget.entries[i]? = some e →
      (f.view = (s.files i).view ∧ f.file = (s.files i).file) ∨ Shows serde f e) :
    Laid serde s' := by
  subst hput
  refine hs.stays hstaffed hgrown rfl (fun j e he => ?_) fun k' => ?_
  · by_cases hji : j = i
    · subst hji
      rw [State.put_files_self]
      exact hf e he
    · rw [State.put_files_of_ne hji]
      exact .inl ⟨rfl, rfl⟩
  · by_cases hkk : k' = k
    · subst hkk
      rw [State.put_buffers_self, hb]
    · rw [State.put_buffers_of_ne hkk]

/-- The budget moves and nothing else does, by no step of a thread and with no new entry. -/
theorem Laid.moved {d : Budget.Event} {b : Budget.State} (hb : Budget.step s.budget d = some b)
    (hbudget : s'.budget = b) (hd : ∀ k a, d ≠ .step k a) (hinsert : ∀ k, d ≠ .insert k)
    (hrecord : ∀ side id limit, d ≠ .record side id limit) (hfiles : s'.files = s.files)
    (hbuffers : ∀ (k : Nat) (t : Thread), s.budget.threads[k]? = some t →
      s'.buffers k = s.buffers k) : Laid serde s' := by
  subst hbudget
  refine hs.moves hstaffed hgrown (step_moves hb) hd (fun _ _ _ => by rw [hfiles]) (fun hnew => ?_)
    hbuffers
  rcases hnew with ⟨k, heq⟩ | ⟨side, id, limit, heq⟩
  · exact absurd heq (hinsert k)
  · exact absurd heq (hrecord side id limit)

/-- An entry is added, with its raw file and no layout. -/
theorem Laid.enters {d : Budget.Event} {b : Budget.State} {recorded : List UInt8}
    (hb : Budget.step s.budget d = some b) (henter : s' = s.enter b recorded)
    (hd : ∀ k a, d ≠ .step k a) : Laid serde s' := by
  subst henter
  refine hs.moves hstaffed hgrown (step_moves hb) hd (fun i e he => State.enter_files he)
    (fun _ => ?_) fun k t ht => State.moved_buffers b ht
  rw [State.enter_files_new]
  exact ⟨rfl, rfl⟩

/-- A job has laid the recorded bytes out. -/
theorem Laid.formats {k i r : Nat} {env : LayoutEnv} {b : Budget.State}
    (hk : s.budget.threads[k]? = some (.layout i (.writing r false)))
    (hdelivers : env.Delivers (s.files i).recorded)
    (hformat : formatJson serde env = .ok ((s.buffers k).output, r))
    (hb : Budget.step s.budget (.step k .ok) = some b) (hs' : s' = { s with budget := b }) :
    Laid serde s' := by
  subst hs'
  obtain ⟨e, l, he, hl, rfl⟩ := Budget.act_of_step hk rfl hb
  cases hl
  refine hs.next hstaffed hgrown (fun j e' he' => .inl ?_) fun k' j pc hk' => ?_
  · rcases set_cases he' with ⟨rfl, rfl⟩ | ⟨-, hold⟩
    · exact ⟨e', he, .refl e', rfl, rfl⟩
    · exact ⟨e', hold, .refl e', rfl, rfl⟩
  · rcases SingleOwner.getElem?_set_cases hk' with ⟨rfl, hpc⟩ | ⟨-, hold⟩
    · cases hpc
      exact .inr (laidOut_of_formatJson hdelivers hformat)
    · exact .inl ⟨hold, rfl⟩

/-- The last reference to an entry goes, and its files go with it. -/
theorem Laid.drops {i : Nat} {b : Budget.State} (hb : Budget.step s.budget (.drop i) = some b)
    (hs' : s' = { s.moved b with
      files := Function.update s.files i { s.files i with file := false, view := none } }) :
    Laid serde s' := by
  subst hs'
  have hmoves := step_moves hb
  obtain ⟨hthreads, hdead⟩ := Moves.drop_eq hmoves
  refine hs.next hstaffed hgrown (fun j e' he' => ?_) fun k j pc hk => ?_
  · by_cases hji : j = i
    · subst hji
      right
      have hfiles : Function.update s.files j { s.files j with file := false, view := none } j =
          { s.files j with file := false, view := none } := Function.update_self ..
      have hshows := Shows.dropped serde (s.files j) (hdead e' he')
      rw [← hfiles] at hshows
      exact hshows
    · left
      have hfiles : Function.update s.files i { s.files i with file := false, view := none } j =
          s.files j := Function.update_of_ne hji ..
      cases hmoves.entry he' with
      | still he hstill =>
          exact ⟨_, he, hstill, congrArg Files.view hfiles, congrArg Files.file hfiles⟩
  · left
    have hold : s.budget.threads[k]? = some (.layout j pc) := hthreads ▸ hk
    exact ⟨hold, congrArg Buffers.output (State.moved_buffers b hold)⟩

/-- A call of `json_view`. -/
theorem Laid.viewed {i : Nat} {e : Entry} {result : Except String JsonState}
    (hviewed : Viewed s i e result s') : Laid serde s' := by
  cases hviewed with
  | refused => exact hs
  | asked => exact hs
  | cancelled hb =>
      exact hs.moved hstaffed hgrown hb rfl (fun _ _ => Budget.Event.noConfusion)
        (fun _ => Budget.Event.noConfusion) (fun _ _ _ => Budget.Event.noConfusion) rfl
        fun _ _ ht => State.moved_buffers _ ht
  | @started b _ _ _ _ hb =>
      exact hs.moved hstaffed hgrown hb rfl (fun _ _ => Budget.Event.noConfusion)
        (fun _ => Budget.Event.noConfusion) (fun _ _ _ => Budget.Event.noConfusion) rfl
        fun _ _ ht => State.moved_buffers b ht

end Kinds

/-- **Every step keeps the layouts complete, and shown as the statuses say.** -/
theorem Laid.step {serde : IgnoredAny} {s s' : State} {e : Event} (hs : Laid serde s)
    (hgood : Good s.budget) (hstaffed : Staffed s.budget.entries s.budget.threads)
    (hwritten : Written s) (h : Steps serde s e s') : Laid serde s' := by
  have hgrown := h.grown hstaffed hwritten
  -- files are taken from cancelled entries only
  have hcancelled {k i : Nat} (hk : s.budget.threads[k]? = some (.cancel i .swapping)) {e : Entry}
      (he : s.budget.entries[i]? = some e) : e.cancelled = true := by
    obtain ⟨d, hd, hacts⟩ := hgood.acts k _ i hk rfl
    obtain rfl : e = d := Option.some.inj (he.symm.trans hd)
    exact hacts.swapping i rfl
  cases h with
  | plain hsilent hb =>
      refine hs.moved hstaffed hgrown hb rfl ?_ ?_ ?_ rfl fun k t ht => State.moved_buffers _ ht
      · rintro k a rfl
        cases hsilent
      · rintro k rfl
        cases hsilent
      · rintro side id limit rfl
        cases hsilent
  | call _ hb =>
      refine hs.moved hstaffed hgrown hb rfl (fun _ _ => Budget.Event.noConfusion)
        (fun _ => Budget.Event.noConfusion) (fun _ _ _ => Budget.Event.noConfusion) rfl
        fun k t ht => ?_
      exact (Function.update_of_ne (ne_length ht) ..).trans (State.moved_buffers _ ht)
  | insert hb => exact hs.enters hstaffed hgrown hb rfl fun _ _ => Budget.Event.noConfusion
  | record hb => exact hs.enters hstaffed hgrown hb rfl fun _ _ => Budget.Event.noConfusion
  | step ht hi hallows hb => exact hs.act hgood hstaffed ht hi hallows hb hgrown
  | append => exact hs.puts hstaffed hgrown rfl rfl fun _ _ => .inl ⟨rfl, rfl⟩
  | format hk hdelivers hformat hb => exact hs.formats hstaffed hgrown hk hdelivers hformat hb rfl
  | takeFile hk =>
      refine hs.puts hstaffed hgrown rfl rfl fun e he =>
        .inr ⟨(hs.entry _ e he).view, fun _ hlive => ?_⟩
      cases hlive.symm.trans (hcancelled hk he)
  | takeView hk =>
      refine hs.puts hstaffed hgrown rfl rfl fun e he =>
        .inr ⟨fun bytes hbytes => ?_, fun _ hlive => ?_⟩
      · cases hbytes
      · cases hlive.symm.trans (hcancelled hk he)
  | view _ _ hviewed => exact hs.viewed hstaffed hgrown hviewed
  | permits => exact hs.stays hstaffed hgrown rfl (fun _ _ _ => .inl ⟨rfl, rfl⟩) fun _ => rfl
  | refuse => exact hs
  | query => exact hs.stays hstaffed hgrown rfl (fun _ _ _ => .inl ⟨rfl, rfl⟩) fun _ => rfl
  | read => exact hs.stays hstaffed hgrown rfl (fun _ _ _ => .inl ⟨rfl, rfl⟩) fun _ => rfl
  | drop _ hb => exact hs.drops hstaffed hgrown hb rfl

theorem laid_of_reachable {serde : IgnoredAny} {s : State} (h : (bodies serde).Reachable s) :
    Laid serde s :=
  h.invariant_along (I := Laid serde) (laid_start serde) fun hr hs _ hstep =>
    have hbudget := budget_of_reachable hr
    hs.step (good_of_reachable hbudget) (staffed_of_reachable hbudget) (written_of_reachable hr)
      (step_steps hstep)

/-! ## What a job gives back -/

/-- What entry `i` has reserved. -/
def State.reservedOf (i : Nat) (s : State) : Int :=
  ((s.budget.entries[i]?.map Entry.reserved).getD 0 : Nat)

/-- The shared counter. -/
def State.used (s : State) : Int := (s.budget.used : Nat)

/-- What thread `k` has reserved beyond the bytes its entry keeps. -/
def State.partOf (k : Nat) (s : State) : Int :=
  ((s.budget.threads[k]?.map Thread.part).getD 0 : Nat)

/-- And what it has taken from the counter without reserving it, or the other way round. -/
def State.creditOf (k : Nat) (s : State) : Int :=
  ((s.budget.threads[k]?.map Thread.credit).getD 0 : Nat)

section Counters

variable {s : State} {i k : Nat} {e : Entry} {t : Thread}

theorem State.reservedOf_eq (h : s.budget.entries[i]? = some e) :
    s.reservedOf i = (e.reserved : Nat) := by
  unfold State.reservedOf
  rw [h]
  rfl

theorem State.partOf_eq (h : s.budget.threads[k]? = some t) : s.partOf k = (t.part : Nat) := by
  unfold State.partOf
  rw [h]
  rfl

theorem State.creditOf_eq (h : s.budget.threads[k]? = some t) :
    s.creditOf k = (t.credit : Nat) := by
  unfold State.creditOf
  rw [h]
  rfl

end Counters

/-- A step of a job moves what it reserves between the entry and its own part, and what it takes
from the counter too, while the entry is neither cancelled nor ready. -/
theorem layoutStep_moved {k used i rest unpublished : Nat} {e : Entry} {pc : LayoutPc}
    {a : Budget.Answer} {l : Local LayoutPc} (h : layoutStep k used e pc a = some l)
    (pre : LocalPre k used e (.layout i pc) rest unpublished) (hbuilding : e.json = .building)
    (hcancelled : l.entry.cancelled = false) (hready : l.entry.json ≠ .ready) :
    l.entry.reserved + (Thread.layout i pc).part =
        e.reserved + (Thread.layout i l.pc).part ∧
      l.used + e.reserved + (Thread.layout i pc).credit =
        used + l.entry.reserved + (Thread.layout i l.pc).credit := by
  have hl : (Thread.layout i pc).stepOn k used e a =
      some ⟨l.used, l.entry, .layout i l.pc, l.ops⟩ := by
    show (layoutStep k used e pc a).map _ = _
    rw [h]
    rfl
  have hok := stepOn_ok hl pre
  have hlive : e.cancelled = false := by
    by_contra hwas
    cases hcancelled.symm.trans (hok.stays (by simpa using hwas)).1
  have hwritten : l.entry.written = e.written := (stepOn_recording hl rfl).1
  refine ⟨?_, hok.balance⟩
  rcases (layoutStep_exchange h pre hbuilding).reserved with heq | ⟨hgone, -⟩ | ⟨hgone, -⟩
  · have hkept : l.entry.kept = e.written := by
      rw [Entry.kept, if_neg hready, hwritten, Nat.add_zero]
    have hkept' : e.kept = e.written := by
      rw [Entry.kept, hbuilding]
      rfl
    have heq : l.entry.kept + (Thread.layout i l.pc).part + e.reserved =
      e.kept + (Thread.layout i pc).part + l.entry.reserved := heq
    omega
  · cases hcancelled.symm.trans hgone
  · cases hlive.symm.trans hgone

/-- The steps of thread `k`. -/
def moves (k : Nat) (_ : State) (e : Event) : Bool := e.mover? == some k

/-- The layout of the entry is there, or what it has reserved is taken by `Entry::cancel`. -/
def Settled (i : Nat) (s : State) : Prop :=
  ∃ e, s.budget.entries[i]? = some e ∧ (e.cancelled = true ∨ e.json = .ready)

theorem Settled.step {serde : IgnoredAny} {s s' : State} {e : Event} {i : Nat}
    (hgood : Good s.budget) (hstaffed : Staffed s.budget.entries s.budget.threads)
    (h : Steps serde s e s') (hs : Settled i s) : Settled i s' := by
  obtain ⟨d, hd, hsettled⟩ := hs
  rcases h.budget with hsame | ⟨event, hb, -⟩
  · exact ⟨d, hsame ▸ hd, hsettled⟩
  · have hmoves := step_moves hb
    have hlt := Nat.lt_of_lt_of_le (List.getElem?_eq_some_iff.mp hd).1 (Moves.length_le hmoves)
    obtain ⟨d', hd'⟩ : ∃ d', s'.budget.entries[i]? = some d' :=
      ⟨_, List.getElem?_eq_getElem hlt⟩
    refine ⟨d', hd', ?_⟩
    cases hmoves.entry hd' with
    | still hold hstill =>
        cases hd.symm.trans hold
        rw [hstill.cancelled]
        exact hsettled.imp_right hstill.ready.mpr
    | insert hi => exact absurd hi (ne_length hd)
    | record hi => exact absurd hi (ne_length hd)
    | act hk hi hold hl =>
        cases hd.symm.trans hold
        rcases hsettled with hcancelled | hready
        · exact .inl ((stepOn_ok hl (hgood.localPre hk hi hd)).stays hcancelled).1
        · right
          have hduty := stepOn_duty hl
          generalize Local.pc _ = t' at hduty
          generalize Local.entry _ = d' at hduty ⊢
          cases hduty with
          | worker hjson => exact hjson.trans hready
          | layout hresult hpc hjson =>
              -- a job at work has its entry building
              rename_i j pc pc'
              obtain rfl : j = i := by simpa [hpc] using hi
              have hbuilding := (layout_complete hstaffed hk hpc hd).1
              cases hbuilding.symm.trans hready
          | cancel hjson => exact hjson.trans hready

/-- **A step of a job adds to the counters what it then holds.** -/
theorem layout_step_gain {serde : IgnoredAny} {s s' : State} {e : Event} {k i : Nat}
    {pc : LayoutPc} (hgood : Good s.budget)
    (hstaffed : Staffed s.budget.entries s.budget.threads)
    (hk : s.budget.threads[k]? = some (.layout i pc)) (h : Steps serde s e s') :
    (∃ pc', s'.budget.threads[k]? = some (.layout i pc')) ∧
      (Settled i s' ∨
        (if moves k s e then s'.reservedOf i - s.reservedOf i else 0) =
          s'.partOf k - s.partOf k ∧
        (if moves k s e then s'.used - s.used else 0) =
          (s'.partOf k + s'.creditOf k) - (s.partOf k + s.creditOf k)) := by
  -- without a step of the job, what it holds stays
  have hstays (hthread : s'.budget.threads[k]? = s.budget.threads[k]?) :
      s'.partOf k = s.partOf k ∧ s'.creditOf k = s.creditOf k := by
    unfold State.partOf State.creditOf
    rw [hthread]
    exact ⟨rfl, rfl⟩
  rcases h.budget with hsame | ⟨event, hb, hmover⟩
  · obtain ⟨hpart, hcredit⟩ := hstays (by rw [hsame])
    have hreserved : s'.reservedOf i = s.reservedOf i := by
      unfold State.reservedOf
      rw [hsame]
    have hused : s'.used = s.used := by
      unfold State.used
      rw [hsame]
    refine ⟨⟨pc, hsame ▸ hk⟩, .inr ⟨?_, ?_⟩⟩
    · rw [hpart, hreserved, Int.sub_self, Int.sub_self, ite_self]
    · rw [hpart, hcredit, hused, Int.sub_self, Int.sub_self, ite_self]
  · by_cases hmoves : ∃ a, event = .step k a
    · obtain ⟨a, rfl⟩ := hmoves
      have hmoves : moves k s e = true := by
        show (e.mover? == some k) = true
        rw [← hmover]
        exact beq_self_eq_true _
      rw [if_pos hmoves, if_pos hmoves]
      have hpc : pc ≠ .ended := by
        rintro rfl
        simp [Budget.step, hk, Thread.entry?] at hb
      obtain ⟨d, l, hd, hl, hbudget⟩ := Budget.act_of_step hk (if_neg hpc) hb
      have hpre := hgood.localPre hk (if_neg hpc) hd
      obtain ⟨l', hl', rfl⟩ := Option.map_eq_some_iff.mp hl
      obtain ⟨hbuilding, -⟩ := layout_complete hstaffed hk hpc hd
      have hentry : s'.budget.entries[i]? = some l'.entry := by
        rw [hbudget]
        exact List.getElem?_set_self (List.getElem?_eq_some_iff.mp hd).1
      have hthread : s'.budget.threads[k]? = some (.layout i l'.pc) := by
        rw [hbudget]
        exact List.getElem?_set_self (List.getElem?_eq_some_iff.mp hk).1
      refine ⟨⟨l'.pc, hthread⟩, ?_⟩
      by_cases hsettled : Settled i s'
      · exact .inl hsettled
      · right
        have hcancelled : l'.entry.cancelled = false := by
          by_contra hcancelled
          exact hsettled ⟨l'.entry, hentry, .inl (by simpa using hcancelled)⟩
        have hready : l'.entry.json ≠ .ready := fun hready =>
          hsettled ⟨l'.entry, hentry, .inr hready⟩
        obtain ⟨hmoved, hbalance⟩ := layoutStep_moved hl' hpre hbuilding hcancelled hready
        have hused : s'.used = (l'.used : Nat) := by
          unfold State.used
          rw [hbudget]
        unfold State.used at hused ⊢
        rw [State.reservedOf_eq hentry, State.reservedOf_eq hd, State.partOf_eq hthread,
          State.partOf_eq hk, State.creditOf_eq hthread, State.creditOf_eq hk, hused]
        constructor <;> omega
    · have hthread : s'.budget.threads[k]? = some (.layout i pc) :=
        (step_moves hb).layout hk fun a ha => hmoves ⟨a, ha⟩
      obtain ⟨hpart, hcredit⟩ := hstays (hthread.trans hk.symm)
      have hmoves : moves k s e = false := by
        show (e.mover? == some k) = false
        rw [← hmover]
        by_contra hmover'
        cases event with
        | step j a =>
            have hjk : j = k := by simpa [mover?] using hmover'
            exact hmoves ⟨a, hjk ▸ rfl⟩
        | _ => exact hmover' rfl
      rw [hmoves, hpart, hcredit]
      refine ⟨⟨pc, hthread⟩, .inr ⟨?_, ?_⟩⟩ <;> rw [Int.sub_self] <;> rfl

/-- **A job that ends without a layout has taken back what it added** to the reservation and to
the shared counter, unless `Entry::cancel` takes it. -/
theorem job_gives_back {serde : IgnoredAny} {s t : State} {es : List Event} {k i : Nat}
    (h : (bodies serde).Reachable s) (hrun : (bodies serde).runFrom s es = some t)
    (hstart : s.budget.threads[k]? = some (.layout i (.writing 0 false)))
    (hend : t.budget.threads[k]? = some (.layout i .ended)) (hsettled : ¬ Settled i t) :
    (bodies serde).gain (moves k) (State.reservedOf i) s es = 0 ∧
      (bodies serde).gain (moves k) State.used s es = 0 := by
  -- a job is under way, or has ended
  let I (u : State) := (bodies serde).Reachable u ∧
    ∃ pc, u.budget.threads[k]? = some (.layout i pc)
  have hspoils {u u' : State} {e : Event} (hu : I u) (hstep : step serde u e = some u')
      (hsettled : Settled i u) : Settled i u' := by
    have hbudget := budget_of_reachable hu.1
    exact hsettled.step (good_of_reachable hbudget) (staffed_of_reachable hbudget)
      (step_steps hstep)
  have hgain {u u' : State} {e : Event} (hu : I u) (hstep : step serde u e = some u') :
      I u' ∧ (Settled i u' ∨
        (if moves k u e then u'.reservedOf i - u.reservedOf i else 0) =
          u'.partOf k - u.partOf k ∧
        (if moves k u e then u'.used - u.used else 0) =
          (u'.partOf k + u'.creditOf k) - (u.partOf k + u.creditOf k)) := by
    obtain ⟨hreachable, pc, hk⟩ := hu
    have hbudget := budget_of_reachable hreachable
    obtain ⟨hthread, hgain⟩ := layout_step_gain (good_of_reachable hbudget)
      (staffed_of_reachable hbudget) hk (step_steps hstep)
    exact ⟨⟨.step hreachable trivial hstep, hthread⟩, hgain⟩
  have hs : I s := ⟨h, _, hstart⟩
  have hreserved := (bodies serde).gain_eq (I := I) (p := moves k) (f := State.reservedOf i)
    (g := State.partOf k) hspoils
    (fun hu hstep => ⟨(hgain hu hstep).1, (hgain hu hstep).2.imp_right And.left⟩) hs hrun hsettled
  have hused := (bodies serde).gain_eq (I := I) (p := moves k) (f := State.used)
    (g := fun u => u.partOf k + u.creditOf k) hspoils
    (fun hu hstep => ⟨(hgain hu hstep).1, (hgain hu hstep).2.imp_right And.right⟩) hs hrun hsettled
  rw [hreserved, hused, State.partOf_eq hstart, State.partOf_eq hend, State.creditOf_eq hstart,
    State.creditOf_eq hend]
  exact ⟨rfl, rfl⟩

/-- While no job is at work, a complete body has reserved its bytes and its layout. -/
theorem reserved_of_idle {s : Budget.State} (hstaffed : Staffed s.entries s.threads)
    (hfunded : Funded s.entries s.threads) {i : Nat} {e : Entry} (he : s.entries[i]? = some e)
    (halive : e.alive = true) (hcomplete : e.result = .complete) (hlive : e.cancelled = false)
    (hidle : e.json ≠ .building) :
    e.reserved = e.total + if e.json = .ready then e.layout else 0 := by
  have hzero : total (Thread.partOn i) s.threads = 0 := by
    refine total_eq_zero fun t ht => ?_
    unfold Thread.partOn
    split
    next hi =>
      cases t with
      | store op pc => cases hi
      | worker j pc =>
          have hpc : pc ≠ .ended := fun hpc => by simp [hpc] at hi
          obtain rfl : j = i := by simpa [hpc] using hi
          obtain ⟨d, hd, hposted⟩ := hstaffed.posted _ ht j (.inl rfl)
          obtain rfl : e = d := Option.some.inj (he.symm.trans hd)
          cases hi.symm.trans (hposted.recorder j rfl hcomplete)
      | layout j pc =>
          have hpc : pc ≠ .ended := fun hpc => by simp [hpc] at hi
          obtain rfl : j = i := by simpa [hpc] using hi
          obtain ⟨k, hk⟩ := List.mem_iff_getElem?.mp ht
          exact absurd (layout_complete hstaffed hk hpc he).1 hidle
      | cancel j pc => rfl
    next => rfl
  rcases hfunded.reserved i e he halive (.inl hcomplete) with hbacked | ⟨hcancelled, -⟩
  · rw [hzero, Entry.kept, complete_total hstaffed hfunded he hcomplete] at hbacked
    exact hbacked.symm
  · cases hlive.symm.trans hcancelled

/-! ## What no job touches -/

/-- The steps of a recording: those of its worker, and the end of its `Tap`. -/
def State.records (s : State) : Event → Bool
  | .step k _ | .append k _ =>
      match s.budget.threads[k]? with
      | some (.worker ..) => true
      | _ => false
  | .plain (.tapDrop _) => true
  | _ => false

/-- The events that take files. -/
def takes : Event → Bool
  | .take _ | .drop _ => true
  | _ => false

/-- Only the steps of a recording change its total and its result. -/
theorem Moves.recording {s s' : Budget.State} {d : Budget.Event} (h : Moves s d s')
    (htap : ∀ i, d ≠ .tapDrop i)
    (hworker : ∀ k a t, d = .step k a → s.threads[k]? = some t → t.recorder? = none) {i : Nat}
    {e : Entry} (he : s.entries[i]? = some e) :
    ∃ e', s'.entries[i]? = some e' ∧ e'.total = e.total ∧ e'.result = e.result := by
  have hlt := Nat.lt_of_lt_of_le (List.getElem?_eq_some_iff.mp he).1 (Moves.length_le h)
  obtain ⟨e', he'⟩ : ∃ e', s'.entries[i]? = some e' := ⟨_, List.getElem?_eq_getElem hlt⟩
  refine ⟨e', he', ?_⟩
  have hsame (hold : s.entries[i]? = some e') : e'.total = e.total ∧ e'.result = e.result := by
    cases he.symm.trans hold
    exact ⟨rfl, rfl⟩
  have hinsert {d : Entry} (hget : (insertEntry s.entries d).1[i]? = some e') :
      e'.total = e.total ∧ e'.result = e.result := by
    rcases insertEntry_get hget with ⟨hi, -⟩ | hold | ⟨old, hold, rfl, -⟩
    · exact absurd hi (ne_length he)
    · exact hsame hold
    · cases he.symm.trans hold
      exact ⟨rfl, rfl⟩
  cases h with
  | call => exact hsame he'
  | store => exact hsame he'
  | insert => exact hinsert he'
  | record => exact hinsert he'
  | act hk hi hold hl =>
      rcases set_cases he' with ⟨rfl, rfl⟩ | ⟨-, hold'⟩
      · cases he.symm.trans hold
        exact (stepOn_recording hl (hworker _ _ _ rfl hk)).2
      · exact hsame hold'
  | touch hold htouched =>
      rcases set_cases he' with ⟨rfl, rfl⟩ | ⟨-, hold'⟩
      · cases he.symm.trans hold
        cases htouched with
        | tapDrop => exact absurd rfl (htap _)
        | _ => exact ⟨rfl, rfl⟩
      · exact hsame hold'
  | drop hold =>
      rcases set_cases he' with ⟨rfl, rfl⟩ | ⟨-, hold'⟩
      · cases he.symm.trans hold
        exact ⟨rfl, rfl⟩
      · exact hsame hold'

theorem Files.after_file (f : Files) (b : Buffers) (t : Thread) (a : Input) :
    (f.after b t a).file = f.file := by
  unfold Files.after
  split <;> rfl

/-- **The files stay**, but for what a worker writes and what `Entry::cancel` and `Entry::drop`
take. -/
theorem Steps.files {serde : IgnoredAny} {s s' : State} {e : Event} (h : Steps serde s e s')
    {i : Nat} {d : Entry} (hd : s.budget.entries[i]? = some d) :
    (takes e = false → (s'.files i).file = (s.files i).file) ∧
      (s.records e = false → (s'.files i).recorded = (s.files i).recorded) := by
  -- a step on the files of one entry
  have hput {budget : Budget.State} {k j : Nat} {b : Buffers} {f : Files}
      (hfile : takes e = false → f.file = (s.files j).file)
      (hrecorded : s.records e = false → f.recorded = (s.files j).recorded) :
      (takes e = false → ((s.put budget k j b f).files i).file = (s.files i).file) ∧
        (s.records e = false →
          ((s.put budget k j b f).files i).recorded = (s.files i).recorded) := by
    by_cases hij : i = j
    · subst hij
      rw [State.put_files_self]
      exact ⟨hfile, hrecorded⟩
    · rw [State.put_files_of_ne hij]
      exact ⟨fun _ => rfl, fun _ => rfl⟩
  cases h with
  | plain => exact ⟨fun _ => rfl, fun _ => rfl⟩
  | call => exact ⟨fun _ => rfl, fun _ => rfl⟩
  | insert =>
      rw [State.enter_files hd]
      exact ⟨fun _ => rfl, fun _ => rfl⟩
  | record =>
      rw [State.enter_files hd]
      exact ⟨fun _ => rfl, fun _ => rfl⟩
  | step => exact hput (fun _ => Files.after_file ..) fun _ => Files.after_recorded ..
  | append hk =>
      refine hput (fun _ => rfl) fun hrecords => ?_
      simp [State.records, hk] at hrecords
  | format => exact ⟨fun _ => rfl, fun _ => rfl⟩
  | takeFile =>
      refine hput (fun htakes => ?_) fun _ => rfl
      cases htakes
  | takeView =>
      refine hput (fun htakes => ?_) fun _ => rfl
      cases htakes
  | view _ _ hviewed => cases hviewed <;> exact ⟨fun _ => rfl, fun _ => rfl⟩
  | permits => exact ⟨fun _ => rfl, fun _ => rfl⟩
  | refuse => exact ⟨fun _ => rfl, fun _ => rfl⟩
  | query => exact ⟨fun _ => rfl, fun _ => rfl⟩
  | read => exact ⟨fun _ => rfl, fun _ => rfl⟩
  | drop hleaves hb =>
      rename_i j b
      refine ⟨fun htakes => ?_, fun _ => ?_⟩
      · cases htakes
      by_cases hij : i = j
      · subst hij
        have hfiles : Function.update s.files i { s.files i with file := false, view := none } i =
            { s.files i with file := false, view := none } := Function.update_self ..
        have hrecorded := congrArg Files.recorded hfiles
        exact hrecorded
      · exact congrArg Files.recorded (Function.update_of_ne hij ..)

/-- A step that is not one of its recording keeps the total and the result. -/
theorem Steps.recording {serde : IgnoredAny} {s s' : State} {e : Event} (h : Steps serde s e s')
    (hrecords : s.records e = false) {i : Nat} {d : Entry} (hd : s.budget.entries[i]? = some d) :
    ∃ d', s'.budget.entries[i]? = some d' ∧ d'.total = d.total ∧ d'.result = d.result := by
  have hsame (hbudget : s'.budget = s.budget) :
      ∃ d', s'.budget.entries[i]? = some d' ∧ d'.total = d.total ∧ d'.result = d.result :=
    ⟨d, hbudget ▸ hd, rfl, rfl⟩
  -- a step of the budget that is none of a recording
  have hmoves {event : Budget.Event} {b : Budget.State} (hb : Budget.step s.budget event = some b)
      (htap : ∀ i, event ≠ .tapDrop i) (hstep : ∀ k a, event ≠ .step k a) :
      ∃ d', b.entries[i]? = some d' ∧ d'.total = d.total ∧ d'.result = d.result :=
    Moves.recording (step_moves hb) htap (fun k a t heq => absurd heq (hstep k a)) hd
  cases h with
  | plain hsilent hb =>
      refine hmoves hb (fun j heq => ?_) fun k a heq => ?_
      · subst heq
        cases hrecords
      · subst heq
        cases hsilent
  | call _ hb => exact hmoves hb nofun nofun
  | insert hb => exact hmoves hb nofun nofun
  | record hb => exact hmoves hb nofun nofun
  | step ht _ _ hb =>
      refine Moves.recording (step_moves hb) nofun (fun k' a' t' heq ht' => ?_) hd
      cases heq
      obtain rfl := Option.some.inj (ht'.symm.trans ht)
      cases t' with
      | worker j pc => simp [State.records, ht] at hrecords
      | _ => rfl
  | append => exact hsame rfl
  | format hk _ _ hb =>
      refine Moves.recording (step_moves hb) nofun (fun k' a' t' heq ht' => ?_) hd
      cases heq
      cases hk.symm.trans ht'
      rfl
  | takeFile => exact hsame rfl
  | takeView => exact hsame rfl
  | view _ _ hviewed =>
      cases hviewed with
      | refused => exact hsame rfl
      | asked => exact hsame rfl
      | cancelled hb => exact hmoves hb nofun nofun
      | started _ _ _ _ hb => exact hmoves hb nofun nofun
  | permits => exact hsame rfl
  | refuse => exact hsame rfl
  | query => exact hsame rfl
  | read => exact hsame rfl
  | drop _ hb => exact hmoves hb nofun nofun

/-- **What no step but those of its recording changes of a body**, and nothing once it is
complete. -/
theorem Steps.frame {serde : IgnoredAny} {s s' : State} {e : Event} (h : Steps serde s e s')
    (hstaffed : Staffed s.budget.entries s.budget.threads) (hwritten : Written s) {i : Nat}
    {d : Entry} (hd : s.budget.entries[i]? = some d)
    (hother : d.result = .complete ∨ s.records e = false) :
    ∃ d', s'.budget.entries[i]? = some d' ∧ d'.total = d.total ∧ d'.result = d.result ∧
      (s'.files i).recorded = (s.files i).recorded ∧
      (takes e = false → (s'.files i).file = (s.files i).file) := by
  obtain ⟨hfile, hrecorded⟩ := h.files hd
  rcases hother with hcomplete | hrecords
  · obtain ⟨d', hd', hgrows⟩ := h.grown hstaffed hwritten i d hd
    obtain ⟨hresult, htotal, hbytes⟩ := hgrows.complete hcomplete
    exact ⟨d', hd', htotal, hresult.trans hcomplete.symm, hbytes, hfile⟩
  · obtain ⟨d', hd', htotal, hresult⟩ := h.recording hrecords hd
    exact ⟨d', hd', htotal, hresult, hrecorded hrecords, hfile⟩

/-! ## Starting a job -/

theorem jsonView_start {s : State} {i : Nat} {e : Entry} (he : s.budget.entries[i]? = some e)
    (halive : e.alive = true) (hcomplete : e.result = .complete)
    (hidle : e.json = .idle ∨ e.json = .error) (havailable : 0 < s.available) :
    ∃ s', s.jsonView i true false = some (.ok .building, s') ∧
      s'.budget.threads[s.budget.threads.length]? = some (.layout i (.writing 0 false)) := by
  have hjson : e.json ≠ .building ∧ e.json ≠ .ready := by
    rcases hidle with hidle | hidle <;> rw [hidle] <;> exact ⟨nofun, nofun⟩
  let building := { e with json := .building, token := false }
  let b := Budget.State.spawn { s.budget with entries := s.budget.entries.set i building }
    (.layout i (.writing 0 false))
  have hb : Budget.step s.budget (.startLayout i) = some b := by
    simp only [Budget.step, he]
    exact if_pos (by simpa [halive, hcomplete] using hjson)
  have hidle : ¬ (e.json = .building ∨ e.json = .ready) := not_or.mpr hjson
  refine ⟨{ s.moved b with
    available := s.available - 1, jobs := s.jobs ++ [s.budget.threads.length] }, ?_, ?_⟩
  · unfold State.jsonView
    rw [he]
    show (if (!e.alive) = true then _ else if e.result ≠ .complete then _
      else if e.json = .building ∨ e.json = .ready then _ else _) = _
    rw [halive, if_neg (by decide), if_neg (not_not.mpr hcomplete), if_neg hidle,
      if_neg (Nat.pos_iff_ne_zero.mp havailable), hb]
    rfl
  · exact List.getElem?_concat_length

/-- Without a free permit a start changes nothing. -/
theorem jsonView_busy {s s' : State} {i : Nat} {result : Except String JsonState}
    (havailable : s.available = 0) (h : s.jsonView i true false = some (result, s')) : s' = s := by
  unfold State.jsonView at h
  split at h
  next => cases h
  next e he =>
    split at h
    next => cases h
    next =>
      split at h
      next => cases h; rfl
      next =>
        rw [if_neg Bool.false_ne_true, if_neg (by decide)] at h
        split at h
        next => cases h; rfl
        next =>
          cases h
          rfl

/-! ## Atomicity -/

/-- **What holds of the layouts and of their jobs**, in a state and of every step from it. -/
structure Atomic (serde : IgnoredAny) (s : State) : Prop where
  /-- One job at a time is at work on a body. -/
  one : ∀ (k k' i : Nat) (pc pc' : LayoutPc), s.budget.threads[k]? = some (.layout i pc) →
    s.budget.threads[k']? = some (.layout i pc') → pc ≠ .ended → pc' ≠ .ended → k = k'
  building : ∀ (i : Nat) (e : Entry), s.budget.entries[i]? = some e →
    (e.json = .building ↔ ∃ (k : Nat) (pc : LayoutPc),
      s.budget.threads[k]? = some (.layout i pc) ∧ pc ≠ .ended)
  ready : ∀ (i : Nat) (e : Entry), s.budget.entries[i]? = some e → e.alive = true →
    e.cancelled = false → (e.json = .ready ↔ (s.files i).view.isSome = true)
  layout : ∀ (i : Nat) (e : Entry) (bytes : List UInt8), s.budget.entries[i]? = some e →
    (s.files i).view = some bytes → bytes.length = e.layout ∧
      LaidOut serde (s.files i).recorded bytes
  /-- A complete body is in its file, and reserves what it and its layout take. -/
  file : ∀ (i : Nat) (e : Entry), s.budget.entries[i]? = some e → e.alive = true →
    e.cancelled = false → e.result = .complete →
    (s.files i).file = true ∧ (s.files i).recorded.length = e.total ∧
      (e.json ≠ .building → e.reserved = e.total + if e.json = .ready then e.layout else 0)
  /-- `Entry::cancel` leaves nothing reserved, what a job has added with the rest. -/
  emptied : ∀ (i : Nat) (e : Entry), s.budget.entries[i]? = some e → e.cancelled = true →
    e.lock = none → e.reserved = 0
  /-- What is counted is reserved by an entry, on its way to or from one, or lost. -/
  used : s.budget.used = total Entry.reserved s.budget.entries +
    total Thread.credit s.budget.threads + s.budget.lost
  /-- A job that ends without a layout gives back what it has added. -/
  returned : ∀ (k i : Nat) (es : List Event) (t : State) (e : Entry),
    s.budget.threads[k]? = some (.layout i (.writing 0 false)) →
    (bodies serde).runFrom s es = some t → t.budget.threads[k]? = some (.layout i .ended) →
    t.budget.entries[i]? = some e → e.cancelled = false → e.json ≠ .ready →
    (bodies serde).gain (moves k) (State.reservedOf i) s es = 0 ∧
      (bodies serde).gain (moves k) State.used s es = 0
  /-- A later start begins a new job. -/
  again : ∀ (i : Nat) (e : Entry), s.budget.entries[i]? = some e → e.alive = true →
    e.result = .complete → e.json = .idle ∨ e.json = .error → 0 < s.available →
    ∃ s', s.jsonView i true false = some (.ok .building, s') ∧
      s'.budget.threads[s.budget.threads.length]? = some (.layout i (.writing 0 false))
  refused : ∀ (i : Nat) (result : Except String JsonState) (s' : State), s.available = 0 →
    s.jsonView i true false = some (result, s') → s' = s
  /-- Only the recording changes the total, the result and the bytes, and it does not once the
  body is complete; the file is there until `Entry::cancel` or `Entry::drop` takes it. -/
  kept : ∀ (event : Event) (s' : State) (i : Nat) (e : Entry), step serde s event = some s' →
    s.budget.entries[i]? = some e → e.result = .complete ∨ s.records event = false →
    ∃ e', s'.budget.entries[i]? = some e' ∧ e'.total = e.total ∧ e'.result = e.result ∧
      (s'.files i).recorded = (s.files i).recorded ∧
      (takes event = false → (s'.files i).file = (s.files i).file)

/-- **The layout jobs are atomic**, in every reachable state. -/
theorem layout_jobs_are_atomic {serde : IgnoredAny} {s : State}
    (h : (bodies serde).Reachable s) : Atomic serde s := by
  have hbudget := budget_of_reachable h
  have hgood := good_of_reachable hbudget
  have hstaffed := staffed_of_reachable hbudget
  have hwritten := written_of_reachable h
  have hlaid := laid_of_reachable h
  refine ⟨fun k k' i pc pc' hk hk' hpc hpc' => ?_, fun i e he => ⟨fun hbuilding => ?_, ?_⟩,
    fun i e he halive hlive => ⟨?_, fun hview => ?_⟩, fun i e bytes he hview => ?_,
    fun i e he halive hlive hcomplete => ?_, fun i e he hcancelled hlock => ?_, hgood.balance,
    fun k i es t e hstart hrun hend he hlive hready => ?_,
    fun i e he halive hcomplete hidle havailable => ?_,
    fun i result s' havailable hview => ?_, fun event s' i e hstep he hother => ?_⟩
  · exact hstaffed.layouters hk hk' (if_neg hpc) (if_neg hpc')
  · obtain ⟨t, ht, hlayouter⟩ := hstaffed.building i e he hbuilding
    obtain ⟨k, hk⟩ := List.mem_iff_getElem?.mp ht
    obtain ⟨pc, rfl, hpc⟩ := Thread.layouter?_eq_some.mp hlayouter
    exact ⟨k, pc, hk, hpc⟩
  · rintro ⟨k, pc, hk, hpc⟩
    exact (layout_complete hstaffed hk hpc he).1
  · exact ((hlaid.entry i e he).live halive hlive).2
  · obtain ⟨bytes, hbytes⟩ := Option.isSome_iff_exists.mp hview
    exact ((hlaid.entry i e he).view bytes hbytes).1
  · obtain ⟨-, -, hlength, hlaidOut⟩ := (hlaid.entry i e he).view bytes hview
    exact ⟨hlength, hlaidOut⟩
  · have hfunded := funded_of_reachable hbudget
    have htotal := complete_total hstaffed hfunded he hcomplete
    refine ⟨((hlaid.entry i e he).live halive hlive).1, ?_, fun hidle => ?_⟩
    · exact ((hwritten.entry i e he).complete hcomplete).trans htotal
    · exact reserved_of_idle hstaffed hfunded he halive hcomplete hlive hidle
  · exact (emptied_of_reachable hbudget).reserved_eq_zero hgood he hcancelled hlock
  · refine job_gives_back h hrun hstart hend ?_
    rintro ⟨d, hd, hsettled⟩
    cases he.symm.trans hd
    rcases hsettled with hcancelled | hready'
    · cases hlive.symm.trans hcancelled
    · exact hready hready'
  · exact jsonView_start he halive hcomplete hidle havailable
  · exact jsonView_busy havailable hview
  · exact (step_steps hstep).frame hstaffed hwritten he hother

/-- What a job meets that lays out an empty array. -/
def emptyArrayEnv : LayoutEnv where
  first := .ok [.bytes [0x5B, 0x5D]]
  second := .ok [.bytes [0x5B, 0x5D]]
  tempfile := .ok ()
  limit := 100
  used _ := 2
  cancelled _ := false
  ioError _ := none

/-- A store operation stores an empty array. -/
def emptyArrayStored : List Event :=
  [.call ⟨.response, 1, 2, 100, true⟩ [0x5B, 0x5D], .plain (.closure 0 true),
    .plain (.closure 0 true), .insert 0]

/-- A job lays it out, its one write being that of the flush. -/
def emptyArrayLaidOut : List Event :=
  [.jsonView 0 true false, .step 1 (.bytes [0x5B, 0x0A, 0x20, 0x20, 0x0A, 0x5D]), .step 1 .go,
    .step 1 .ok, .format 1 emptyArrayEnv, .step 1 .go, .step 1 .go, .step 1 .go]

theorem empty_array_layout_is_atomic :
    ∃ s, (s.files 0).view = some [0x5B, 0x0A, 0x20, 0x20, 0x0A, 0x5D] ∧ s.budget.used = 8 ∧
      Atomic emptyArray s := by
  obtain ⟨s, hs⟩ := Option.isSome_iff_exists.mp (by decide +kernel :
    ((bodies emptyArray).run (emptyArrayStored ++ emptyArrayLaidOut)).isSome = true)
  have hview : ((bodies emptyArray).run (emptyArrayStored ++ emptyArrayLaidOut)).map
      (fun s => (s.files 0).view) = some (some [0x5B, 0x0A, 0x20, 0x20, 0x0A, 0x5D]) := by
    decide +kernel
  have hused : ((bodies emptyArray).run (emptyArrayStored ++ emptyArrayLaidOut)).map
      (fun s => s.budget.used) = some 8 := by
    decide +kernel
  rw [hs] at hview hused
  exact ⟨s, Option.some.inj hview, Option.some.inj hused,
    layout_jobs_are_atomic (Machine.reachable_of_run _ hs)⟩

/-- **Clearing a body takes its file.** -/
theorem clear_takes_the_file :
    ∃ s s' e, (bodies emptyArray).Reachable s ∧ step emptyArray s (.take 1) = some s' ∧
      s.budget.entries[0]? = some e ∧ e.result = .complete ∧
      (s.files 0).file = true ∧ (s'.files 0).file = false := by
  let clear : List Event := emptyArrayStored ++ [.plain (.remove 0), .step 1 .go]
  obtain ⟨s, hs⟩ := Option.isSome_iff_exists.mp (by decide +kernel :
    ((bodies emptyArray).run clear).isSome = true)
  obtain ⟨s', hs'⟩ := Option.isSome_iff_exists.mp (by decide +kernel :
    ((bodies emptyArray).run (clear ++ [.take 1])).isSome = true)
  have hbefore : ((bodies emptyArray).run clear).map (fun s =>
      ((s.budget.entries[0]?).map Entry.result, (s.files 0).file)) =
        some (some .complete, true) := by
    decide +kernel
  have hafter : ((bodies emptyArray).run (clear ++ [.take 1])).map
      (fun s => (s.files 0).file) = some false := by
    decide +kernel
  rw [hs] at hbefore
  rw [hs'] at hafter
  have hstep : step emptyArray s (.take 1) = some s' := by
    rw [Machine.run, Machine.runFrom_append] at hs'
    rw [Machine.run] at hs
    rw [hs] at hs'
    obtain ⟨s'', hs'', hlast⟩ := Option.bind_eq_some_iff.mp
      (show (step emptyArray s (.take 1)).bind _ = some s' from hs')
    exact hs''.trans hlast
  obtain ⟨hresult, hfile⟩ := Prod.mk.inj (Option.some.inj hbefore)
  obtain ⟨e, he, hcomplete⟩ := Option.map_eq_some_iff.mp hresult
  exact ⟨s, s', e, Machine.reachable_of_run _ hs, hstep, he, hcomplete, hfile,
    Option.some.inj hafter⟩

end SippinSoda.Bodies
