import SippinSoda.Bodies

/-!
# Reading a body that is being written

A worker puts bytes in the file, then publishes the total, and last the result; a reader loads the
result, then the total, and then reads the file. So a reader finds in the file what the total has
promised, and a total loaded after "complete" is the last one.

* **Grows** — a recording is appended to, its total does not fall, and "complete" is the end of it;
* **Sound** — what a reader has learnt stays true while the body grows;
* **pages_are_consistent** — what calls return is a part of the final body.
-/

namespace SippinSoda.Bodies

open Budget Ledger

/-! ## How a body grows -/

/-- A complete recording has published all it has written. -/
theorem complete_total {s : Budget.State} (hstaffed : Staffed s.entries s.threads)
    (hfunded : Funded s.entries s.threads) {i : Nat} {e : Entry} (he : s.entries[i]? = some e)
    (hcomplete : e.result = .complete) : e.written = e.total := by
  rw [hfunded.written i e he (.inl hcomplete)]
  have hzero : total (Thread.unpublishedOn i) s.threads = 0 := by
    refine total_eq_zero fun t ht => ?_
    unfold Thread.unpublishedOn
    split
    next hi =>
      cases t with
      | worker j pc =>
          have hpc : pc ≠ .ended := fun hpc => by simp [hpc] at hi
          obtain rfl : j = i := by simpa [hpc] using hi
          obtain ⟨d, hd, hposted⟩ := hstaffed.posted _ ht j (.inl rfl)
          obtain rfl : e = d := Option.some.inj (he.symm.trans hd)
          cases hi.symm.trans (hposted.recorder j rfl hcomplete)
      | _ => rfl
    next => rfl
  omega

/-- A body as it was, and as it is later. -/
structure Grows (e : Entry) (f : Files) (e' : Entry) (f' : Files) : Prop where
  total : e.total ≤ e'.total
  recorded : f.recorded <+: f'.recorded
  complete : e.result = .complete →
    e'.result = .complete ∧ e'.total = e.total ∧ f'.recorded = f.recorded

theorem Grows.refl (e : Entry) (f : Files) : Grows e f e f :=
  ⟨Nat.le_refl _, List.prefix_refl _, fun h => ⟨h, rfl, rfl⟩⟩

theorem Grows.trans {e e' e'' : Entry} {f f' f'' : Files} (h : Grows e f e' f')
    (h' : Grows e' f' e'' f'') : Grows e f e'' f'' := by
  refine ⟨Nat.le_trans h.total h'.total, h.recorded.trans h'.recorded, fun hcomplete => ?_⟩
  obtain ⟨hcomplete', htotal, hrecorded⟩ := h.complete hcomplete
  obtain ⟨hcomplete'', htotal', hrecorded'⟩ := h'.complete hcomplete'
  exact ⟨hcomplete'', htotal'.trans htotal, hrecorded'.trans hrecorded⟩

theorem Grows.of_still {e e' : Entry} {f f' : Files} (h : Still e e')
    (hrecorded : f'.recorded = f.recorded) : Grows e f e' f' :=
  ⟨Nat.le_of_eq h.total.symm, hrecorded ▸ List.prefix_refl _,
    fun hcomplete => ⟨h.complete.mpr hcomplete, h.total, hrecorded⟩⟩

/-- A worker does not take back what it has published. -/
theorem workerStep_total {k used : Nat} {e : Entry} {pc : WorkerPc} {a : Budget.Answer}
    {l : Local WorkerPc} (h : workerStep k used e pc a = some l) : e.total ≤ l.entry.total := by
  cases pc with
  | publishing n =>
      cases a <;> simp only [workerStep, reduceCtorEq, Option.some.injEq] at h
      subst h
      exact Nat.le_add_right ..
  | writing n =>
      cases a with
      | failure m =>
          simp only [workerStep] at h
          split at h <;> cases h
          exact Nat.le_refl _
      | ok => cases h; exact Nat.le_refl _
      | aborted => cases h; exact Nat.le_refl _
      | _ => cases h
  | head =>
      cases a <;> simp only [workerStep, reduceCtorEq, Option.some.injEq] at h <;> subst h <;>
        exact Nat.le_refl _
  | reading =>
      cases a <;> simp only [workerStep, reduceCtorEq, Option.some.injEq] at h <;> subst h <;>
        exact Nat.le_refl _
  | reserving n =>
      cases a <;> simp only [workerStep, reduceCtorEq] at h
      split at h
      · cases h
      · split at h <;> cases h <;> exact Nat.le_refl _
  | locked n =>
      cases a <;> simp only [workerStep, reduceCtorEq] at h
      split at h <;> cases h <;> exact Nat.le_refl _
  | adding n =>
      cases a <;> simp only [workerStep, reduceCtorEq, Option.some.injEq] at h
      have htotal : l.entry.total = e.total := by rw [← h]
      exact Nat.le_of_eq htotal.symm
  | finishing state =>
      cases a <;> simp only [workerStep, reduceCtorEq] at h
      split at h <;> cases h
      exact Nat.le_refl _
  | ended => cases a <;> simp [workerStep] at h

/-- **A step of a thread on its entry lets the body grow.** -/
theorem Grows.act {s : Budget.State} (hstaffed : Staffed s.entries s.threads) {k i : Nat}
    {t : Thread} {e : Entry} {f f' : Files} {a : Budget.Answer} {l : Local Thread}
    (hk : s.threads[k]? = some t) (he : s.entries[i]? = some e) (hi : t.entry? = some i)
    (hl : t.stepOn k s.used e a = some l) (hrecorded : f'.recorded = f.recorded) :
    Grows e f l.entry f' := by
  cases hrecorder : t.recorder? with
  | none =>
      obtain ⟨-, htotal, hresult⟩ := stepOn_recording hl hrecorder
      exact ⟨Nat.le_of_eq htotal.symm, hrecorded ▸ List.prefix_refl _,
        fun hcomplete => ⟨hresult.trans hcomplete, htotal, hrecorded⟩⟩
  | some j =>
      obtain ⟨pc, rfl⟩ := Thread.recorder?_eq_some.mp hrecorder
      obtain ⟨l', hl', rfl⟩ := Option.map_eq_some_iff.mp hl
      have hpc : pc ≠ .ended := (workerStep_spec hl').2.1
      obtain rfl : j = i := by simpa [hpc] using hi
      exact ⟨workerStep_total hl', hrecorded ▸ List.prefix_refl _,
        fun hcomplete => absurd hcomplete (unfinished_of_step hstaffed hk hpc he)⟩

theorem Moves.length_le {s s' : Budget.State} {d : Budget.Event} (h : Moves s d s') :
    s.entries.length ≤ s'.entries.length := by
  have hinsert (e : Entry) : s.entries.length ≤ (insertEntry s.entries e).1.length := by
    unfold insertEntry
    split <;> simp
  cases h with
  | insert => exact hinsert _
  | record => exact hinsert _
  | act => exact Nat.le_of_eq List.length_set.symm
  | touch => exact Nat.le_of_eq List.length_set.symm
  | drop => exact Nat.le_of_eq List.length_set.symm
  | _ => exact Nat.le_refl _

/-- The body of entry `i` in one state has grown to that of another. -/
def State.Grown (s s' : State) (i : Nat) : Prop :=
  ∀ e, s.budget.entries[i]? = some e →
    ∃ e', s'.budget.entries[i]? = some e' ∧ Grows e (s.files i) e' (s'.files i)

/-- When the budget moves, and the recorded bytes stay. -/
theorem State.Grown.of_moves {s s' : State} {d : Budget.Event} {i : Nat}
    (hstaffed : Staffed s.budget.entries s.budget.threads) (h : Moves s.budget d s'.budget)
    (hrecorded : ∀ e, s.budget.entries[i]? = some e →
      (s'.files i).recorded = (s.files i).recorded) : s.Grown s' i := by
  intro e he
  have hlt := (List.getElem?_eq_some_iff.mp he).1
  have hlt' := Nat.lt_of_lt_of_le hlt (Moves.length_le h)
  obtain ⟨e', he'⟩ : ∃ e', s'.budget.entries[i]? = some e' := ⟨_, List.getElem?_eq_getElem hlt'⟩
  refine ⟨e', he', ?_⟩
  cases h.entry he' with
  | still hold hstill =>
      cases he.symm.trans hold
      exact .of_still hstill (hrecorded e he)
  | insert hi => exact absurd hi (ne_length he)
  | record hi => exact absurd hi (ne_length he)
  | act hk hi hold hl =>
      cases he.symm.trans hold
      exact .act hstaffed hk he hi hl (hrecorded e he)

/-- **Every step lets every body grow.** -/
theorem Steps.grown {serde : IgnoredAny} {s s' : State} {e : Event}
    (hstaffed : Staffed s.budget.entries s.budget.threads) (hs : Written s)
    (h : Steps serde s e s') (i : Nat) : s.Grown s' i := by
  have hsame {s' : State} (hbudget : s'.budget = s.budget)
      (hrecorded : (s'.files i).recorded = (s.files i).recorded) : s.Grown s' i := by
    intro e he
    refine ⟨e, hbudget ▸ he, ?_⟩
    exact .of_still (.refl e) hrecorded
  have hput {k j : Nat} {budget : Budget.State} {b : Buffers} {f : Files}
      (hf : f.recorded = (s.files j).recorded) :
      ((s.put budget k j b f).files i).recorded = (s.files i).recorded := by
    by_cases hij : i = j
    · subst hij
      rw [State.put_files_self, hf]
    · rw [State.put_files_of_ne hij]
  cases h with
  | plain _ hb => exact .of_moves hstaffed (step_moves hb) fun _ _ => rfl
  | call _ hb => exact .of_moves hstaffed (step_moves hb) fun _ _ => rfl
  | insert hb =>
      exact .of_moves hstaffed (step_moves hb) fun e he => by rw [State.enter_files he]
  | record hb =>
      exact .of_moves hstaffed (step_moves hb) fun e he => by rw [State.enter_files he]
  | step _ _ _ hb =>
      exact .of_moves hstaffed (step_moves hb) fun _ _ => hput (Files.after_recorded ..)
  | append hk hpc hn =>
      rename_i k n j pc
      intro e he
      refine ⟨e, he, ?_⟩
      by_cases hij : i = j
      · subst hij
        rw [State.put_files_self]
        refine ⟨Nat.le_refl _, List.prefix_append .., fun hcomplete => ⟨hcomplete, rfl, ?_⟩⟩
        show _ ++ _ = _
        rw [(hs.thread k _ hk e he).complete hcomplete, List.take_nil, List.append_nil]
      · rw [State.put_files_of_ne hij]
        exact .refl ..
  | format _ _ _ hb => exact .of_moves hstaffed (step_moves hb) fun _ _ => rfl
  | takeFile => exact hsame rfl (hput rfl)
  | takeView => exact hsame rfl (hput rfl)
  | view _ _ hviewed =>
      cases hviewed with
      | refused => exact hsame rfl rfl
      | asked => exact hsame rfl rfl
      | cancelled hb => exact .of_moves hstaffed (step_moves hb) fun _ _ => rfl
      | started _ _ _ _ hb => exact .of_moves hstaffed (step_moves hb) fun _ _ => rfl
  | permits => exact hsame rfl rfl
  | refuse => exact hsame rfl rfl
  | query => exact hsame rfl rfl
  | read => exact hsame rfl rfl
  | drop hleaves hb =>
      rename_i j b
      refine .of_moves hstaffed (step_moves hb) fun _ _ => ?_
      by_cases hij : i = j
      · subst hij
        have hfiles : Function.update s.files i
            { s.files i with file := false, view := none } i =
              { s.files i with file := false, view := none } := Function.update_self ..
        have hrecorded := congrArg Files.recorded hfiles
        exact hrecorded
      · exact congrArg Files.recorded (Function.update_of_ne hij ..)

theorem State.Grown.trans {s s' s'' : State} {i : Nat} (h : s.Grown s' i) (h' : s'.Grown s'' i) :
    s.Grown s'' i := by
  intro e he
  obtain ⟨e', he', hgrows⟩ := h e he
  obtain ⟨e'', he'', hgrows'⟩ := h' e' he'
  exact ⟨e'', he'', hgrows.trans hgrows'⟩

/-- **A run lets every body grow.** -/
theorem grown_of_run {serde : IgnoredAny} {s t : State} {es : List Event}
    (h : (bodies serde).Reachable s) (hrun : (bodies serde).runFrom s es = some t) (i : Nat) :
    s.Grown t i := by
  have hinvariant : (bodies serde).Reachable t ∧ s.Grown t i := by
    refine Machine.runFrom_invariant (I := fun u => (bodies serde).Reachable u ∧ s.Grown u i) ?_
      ⟨h, fun e he => ⟨e, he, .refl ..⟩⟩ hrun
    rintro u e u' ⟨hu, hgrown⟩ hstep
    have hbudget := budget_of_reachable hu
    exact ⟨.step hu trivial hstep, hgrown.trans
      ((step_steps hstep).grown (staffed_of_reachable hbudget) (written_of_reachable hu) i)⟩
  exact hinvariant.2

/-! ## What a reader has learnt -/

/-- The bytes a page asks for, of a file. -/
def Files.slice (f : Files) (offset length total : Nat) : List UInt8 :=
  (f.recorded.drop offset).take (min length (total - offset))

/-- A total, loaded after a result. -/
structure Measured (e : Entry) (state : RecordState) (total : Nat) : Prop where
  le : total ≤ e.total
  complete : state = .complete → e.result = .complete ∧ total = e.total

/-- **What a reader has learnt of its body.** -/
def Sound (e : Entry) (f : Files) (query : Query) : ReaderPc → Prop
  | .start => True
  | .loaded state => (state = .complete → e.result = .complete) ∧
      (query = .export → state = .complete)
  | .sized state total => Measured e state total ∧
      ∀ offset length, query = .page offset length → offset ≤ total
  | .reading state total bytes => Measured e state total ∧
      ∀ offset length, query = .page offset length →
        offset ≤ total ∧ bytes <+: f.slice offset length total
  | .copying bytes => e.result = .complete ∧ bytes <+: f.recorded
  | .returned (.page p) => Measured e p.state p.total ∧
      ∀ offset length, query = .page offset length →
        offset ≤ p.total ∧ p.bytes = f.slice offset length p.total
  | .returned (.info total state) => Measured e state total
  | .returned (.exported bytes) => e.result = .complete ∧ bytes = f.recorded
  | .returned (.refused _) => True

/-- The file has all that a total promises. -/
structure Promised (e : Entry) (f : Files) : Prop where
  le : e.total ≤ f.recorded.length
  complete : e.result = .complete → f.recorded.length = e.total

theorem Files.slice_of_prefix {f f' : Files} {offset length total : Nat}
    (h : f.recorded <+: f'.recorded) (hoffset : offset ≤ total)
    (htotal : total ≤ f.recorded.length) :
    f'.slice offset length total = f.slice offset length total := by
  obtain ⟨more, hmore⟩ := h
  unfold Files.slice
  rw [← hmore, List.drop_append_of_le_length (by omega), List.take_append_of_le_length]
  rw [List.length_drop]
  omega

theorem Files.slice_length {f : Files} {offset length total : Nat}
    (htotal : total ≤ f.recorded.length) :
    (f.slice offset length total).length = min length (total - offset) := by
  unfold Files.slice
  rw [List.length_take, List.length_drop]
  omega

/-- What a reader has learnt stays true. -/
theorem Sound.grows {e e' : Entry} {f f' : Files} {query : Query} {pc : ReaderPc}
    (h : Sound e f query pc) (hfile : Promised e f) (hgrows : Grows e f e' f') :
    Sound e' f' query pc := by
  have hmeasured {state : RecordState} {total : Nat} (h : Measured e state total) :
      Measured e' state total := by
    refine ⟨Nat.le_trans h.le hgrows.total, fun hstate => ?_⟩
    obtain ⟨hcomplete, htotal⟩ := h.complete hstate
    obtain ⟨hcomplete', htotal', -⟩ := hgrows.complete hcomplete
    exact ⟨hcomplete', htotal.trans htotal'.symm⟩
  cases pc with
  | start => trivial
  | loaded state => exact ⟨fun hstate => (hgrows.complete (h.1 hstate)).1, h.2⟩
  | sized state total => exact ⟨hmeasured h.1, h.2⟩
  | reading state total bytes =>
      refine ⟨hmeasured h.1, fun offset length hquery => ?_⟩
      obtain ⟨hoffset, hbytes⟩ := h.2 offset length hquery
      rw [Files.slice_of_prefix hgrows.recorded hoffset (Nat.le_trans h.1.le hfile.le)]
      exact ⟨hoffset, hbytes⟩
  | copying bytes =>
      obtain ⟨hcomplete, -, hrecorded⟩ := hgrows.complete h.1
      exact ⟨hcomplete, hrecorded ▸ h.2⟩
  | returned outcome =>
      cases outcome with
      | page p =>
          refine ⟨hmeasured h.1, fun offset length hquery => ?_⟩
          obtain ⟨hoffset, hbytes⟩ := h.2 offset length hquery
          rw [Files.slice_of_prefix hgrows.recorded hoffset (Nat.le_trans h.1.le hfile.le)]
          exact ⟨hoffset, hbytes⟩
      | info total state => exact hmeasured h
      | exported bytes =>
          obtain ⟨hcomplete, -, hrecorded⟩ := hgrows.complete h.1
          exact ⟨hcomplete, h.2.trans hrecorded.symm⟩
      | refused message => trivial

/-- What a read of the file returns is what comes next in it. -/
theorem Files.read_eq_some {f : Files} {position limit n : Nat} {more : List UInt8}
    (h : f.read position limit n = some more) :
    more = (f.recorded.drop position).take n ∧ n ≤ limit ∧ more.length = n ∧
      (n = 0 → f.recorded.length ≤ position) := by
  unfold Files.read at h
  split at h
  next hread =>
    cases h
    refine ⟨rfl, hread.1, ?_, hread.2.2⟩
    rw [List.length_take, List.length_drop]
    omega
  next => cases h

theorem prefix_extend {l bytes : List UInt8} (h : bytes <+: l) (n : Nat) :
    bytes ++ (l.drop bytes.length).take n <+: l := by
  obtain ⟨rest, rfl⟩ := h
  rw [List.drop_left]
  exact (List.prefix_append_right_inj bytes).mpr (List.take_prefix ..)

/-- **A step of a reader keeps what it has learnt true.** -/
theorem Sound.step {e : Entry} {f : Files} {query : Query} {pc pc' : ReaderPc} {a : ReadAnswer}
    (h : Sound e f query pc) (hfile : Promised e f)
    (hstep : readerStep e f query pc a = some pc') : Sound e f query pc' := by
  unfold readerStep at hstep
  split at hstep
  -- an export starts
  next =>
    split at hstep
    next => cases hstep
    next =>
      split at hstep
      next => cases hstep; trivial
      next hcomplete =>
        cases hstep
        exact ⟨id, fun _ => Decidable.not_not.mp hcomplete⟩
  -- the others start
  next hquery =>
    split at hstep
    next => cases hstep
    next =>
      cases hstep
      exact ⟨id, fun hexport => absurd hexport hquery⟩
  -- the total of an info
  next => cases hstep; exact ⟨Nat.le_refl _, fun hstate => ⟨h.1 hstate, rfl⟩⟩
  -- the total of a page
  next =>
    split at hstep
    next => cases hstep; trivial
    next hoffset =>
      cases hstep
      refine ⟨⟨Nat.le_refl _, fun hstate => ⟨h.1 hstate, rfl⟩⟩, fun offset length hquery => ?_⟩
      cases hquery
      exact Nat.le_of_not_lt hoffset
  next =>
    split at hstep
    next =>
      cases hstep
      exact ⟨h.1, fun offset length hquery =>
        ⟨h.2 offset length hquery, List.nil_prefix⟩⟩
    next => cases hstep; trivial
  next => cases hstep; trivial
  -- a read of the file
  next offset length state total bytes n =>
    simp only at hstep
    split at hstep
    next => cases hstep
    next hwanted =>
      split at hstep
      next => cases hstep
      next => cases hstep; trivial
      next more _ hread =>
        cases hstep
        obtain ⟨hmore, hn, hlength, -⟩ := Files.read_eq_some hread
        refine ⟨h.1, fun offset length hquery => ?_⟩
        cases hquery
        obtain ⟨hoffset, hbytes⟩ := h.2 offset length rfl
        refine ⟨hoffset, ?_⟩
        have hnext : more = ((f.slice offset length total).drop bytes.length).take n := by
          unfold Files.slice
          rw [List.drop_take, List.drop_drop, List.take_take, Nat.min_eq_left hn]
          exact hmore
        rw [hnext]
        exact prefix_extend hbytes n
  next offset length state total bytes =>
    split at hstep
    next hlength =>
      cases hstep
      refine ⟨h.1, fun offset length hquery => ?_⟩
      cases hquery
      obtain ⟨hoffset, hbytes⟩ := h.2 offset length rfl
      refine ⟨hoffset, hbytes.eq_of_length ?_⟩
      rw [Files.slice_length (Nat.le_trans h.1.le hfile.le), hlength]
    next => cases hstep
  next => cases hstep; trivial
  next =>
    split at hstep
    next => cases hstep; exact ⟨h.1 (h.2 rfl), List.nil_prefix⟩
    next => cases hstep; trivial
  next => cases hstep; trivial
  next =>
    split at hstep
    next => cases hstep
    next hread =>
      cases hstep
      obtain ⟨-, -, hlength, hend⟩ := Files.read_eq_some hread
      refine ⟨h.1, h.2.eq_of_length_le ?_⟩
      exact hend hlength.symm
    next hread =>
      cases hstep
      obtain ⟨rfl, -, -, -⟩ := Files.read_eq_some hread
      exact ⟨h.1, prefix_extend h.2 _⟩
  next => cases hstep; trivial
  next => cases hstep

/-- The file has what is published, in every reachable state. -/
theorem promised_of_reachable {serde : IgnoredAny} {s : State} (h : (bodies serde).Reachable s)
    {i : Nat} {e : Entry} (he : s.budget.entries[i]? = some e) : Promised e (s.files i) := by
  have hbudget := budget_of_reachable h
  have hmatches := (written_of_reachable h).entry i e he
  have hpublished := (good_of_reachable hbudget).published i e he
  refine ⟨?_, fun hcomplete => ?_⟩
  · have hle := hmatches.le
    omega
  · exact (hmatches.complete hcomplete).trans (complete_total (staffed_of_reachable hbudget)
      (funded_of_reachable hbudget) he hcomplete)

/-- Every reader has learnt what is true of its body. -/
def Informed (s : State) : Prop :=
  ∀ (j : Nat) (r : Reader), s.readers[j]? = some r →
    ∃ e, s.budget.entries[r.entry]? = some e ∧ Sound e (s.files r.entry) r.query r.pc

theorem find_lt {entries : List Entry} {side : Side} {id i : Nat}
    (h : find entries side id = some i) : i < entries.length :=
  (List.findIdx?_eq_some_iff_getElem.mp h).1

/-- A call that reads a body starts on an entry that is there. -/
theorem query_eq_ok {s : State} {side : Side} {id : Nat} {query : Query} {r : Reader}
    (h : s.query side id query = .ok r) :
    ∃ i, find s.budget.entries side id = some i ∧ r = ⟨i, query, .start⟩ ∧
      ∀ offset length, query = .page offset length → 1 ≤ length ∧ length ≤ pageSize := by
  unfold State.query at h
  cases query with
  | page offset length =>
      simp only at h
      split at h
      next => cases h
      next hlength =>
        split at h
        next => cases h
        next i hi =>
          cases h
          refine ⟨i, hi, rfl, fun offset length hquery => ?_⟩
          cases hquery
          omega
  | info =>
      simp only at h
      split at h
      next => cases h
      next i hi =>
        cases h
        exact ⟨i, hi, rfl, fun offset length hquery => by cases hquery⟩
  | «export» =>
      simp only at h
      split at h
      next => cases h
      next i hi =>
        cases h
        exact ⟨i, hi, rfl, fun offset length hquery => by cases hquery⟩

/-- The readers after a step: those before, one of them a step further, or one more. -/
theorem Steps.readers {serde : IgnoredAny} {s s' : State} {e : Event} (h : Steps serde s e s') :
    s'.readers = s.readers ∨
    (∃ i query, i < s.budget.entries.length ∧ s'.readers = s.readers ++ [⟨i, query, .start⟩]) ∨
    ∃ j r e a pc, s.readers[j]? = some r ∧ s.budget.entries[r.entry]? = some e ∧
      readerStep e (s.files r.entry) r.query r.pc a = some pc ∧
      s'.readers = s.readers.set j { r with pc := pc } := by
  cases h with
  | query hr =>
      obtain ⟨i, hi, rfl, -⟩ := query_eq_ok hr
      exact .inr (.inl ⟨i, _, find_lt hi, rfl⟩)
  | read hr he hpc => exact .inr (.inr ⟨_, _, _, _, _, hr, he, hpc, rfl⟩)
  | view _ _ hviewed => cases hviewed <;> exact .inl rfl
  | _ => exact .inl rfl

theorem informed_of_reachable {serde : IgnoredAny} {s : State} (h : (bodies serde).Reachable s) :
    Informed s := by
  refine h.invariant_along (I := Informed) (fun j r hr => by simp [bodies, start] at hr) ?_
  intro s s' e hs ih _ hstep
  have hsteps := step_steps hstep
  have hgrown := hsteps.grown (staffed_of_reachable (budget_of_reachable hs))
    (written_of_reachable hs)
  -- what was learnt before the step
  have hkept {i : Nat} {e : Entry} {query : Query} {pc : ReaderPc}
      (he : s.budget.entries[i]? = some e) (hsound : Sound e (s.files i) query pc) :
      ∃ e', s'.budget.entries[i]? = some e' ∧ Sound e' (s'.files i) query pc := by
    obtain ⟨e', he', hgrows⟩ := hgrown i e he
    exact ⟨e', he', hsound.grows (promised_of_reachable hs he) hgrows⟩
  intro j r hr
  rcases hsteps.readers with hsame | ⟨i, query, hi, hmore⟩ | ⟨j', r', e, a, pc, hr', he, hpc, hset⟩
  · rw [hsame] at hr
    obtain ⟨e, he, hsound⟩ := ih j r hr
    exact hkept he hsound
  · rw [hmore] at hr
    rcases SingleOwner.getElem?_append_cases hr with ⟨-, rfl⟩ | hold
    · exact hkept (List.getElem?_eq_getElem hi) trivial
    · obtain ⟨e, he, hsound⟩ := ih j r hold
      exact hkept he hsound
  · rw [hset] at hr
    rcases SingleOwner.getElem?_set_cases hr with ⟨-, rfl⟩ | ⟨-, hold⟩
    · obtain ⟨d, hd, hsound⟩ := ih j' r' hr'
      obtain rfl : e = d := Option.some.inj (he.symm.trans hd)
      exact hkept he (hsound.step (promised_of_reachable hs he) hpc)
    · obtain ⟨e, he, hsound⟩ := ih j r hold
      exact hkept he hsound

/-! ## What calls return -/

/-- The total a reader has loaded. -/
def ReaderPc.observed? : ReaderPc → Option Nat
  | .sized _ total => some total
  | .reading _ total _ => some total
  | .returned (.page p) => some p.total
  | .returned (.info total _) => some total
  | _ => none

theorem Sound.observed_le {e : Entry} {f : Files} {query : Query} {pc : ReaderPc}
    (h : Sound e f query pc) {total : Nat} (htotal : pc.observed? = some total) :
    total ≤ e.total := by
  cases pc with
  | sized => cases htotal; exact h.1.le
  | reading => cases htotal; exact h.1.le
  | returned outcome =>
      cases outcome with
      | page => cases htotal; exact h.1.le
      | info => cases htotal; exact h.le
      | _ => cases htotal
  | _ => cases htotal

/-- A step of a reader loads the total of the moment, or has it loaded before. -/
theorem observed_of_step {e : Entry} {f : Files} {query : Query} {pc pc' : ReaderPc}
    {a : ReadAnswer} (h : readerStep e f query pc a = some pc') {total : Nat}
    (htotal : pc'.observed? = some total) : pc.observed? = some total ∨ total = e.total := by
  unfold readerStep at h
  split at h
  next =>
    split at h
    next => cases h
    next => split at h <;> cases h <;> cases htotal
  next => split at h <;> cases h; cases htotal
  next => cases h; cases htotal; exact .inr rfl
  next =>
    split at h
    next => cases h; cases htotal
    next => cases h; cases htotal; exact .inr rfl
  next =>
    split at h
    next => cases h; exact .inl htotal
    next => cases h; cases htotal
  next => cases h; cases htotal
  next =>
    simp only at h
    split at h
    next => cases h
    next =>
      split at h
      next => cases h
      next => cases h; cases htotal
      next => cases h; exact .inl htotal
  next =>
    split at h
    next => cases h; exact .inl htotal
    next => cases h
  next => cases h; cases htotal
  next => split at h <;> cases h <;> cases htotal
  next => cases h; cases htotal
  next => split at h <;> cases h <;> cases htotal
  next => cases h; cases htotal
  next => cases h

/-- Pages read one after the other, from an offset on. -/
inductive Successive (s : State) (i : Nat) : Nat → List BodyPage → Prop
  | nil (offset : Nat) : Successive s i offset []
  | cons {offset length j : Nat} {p : BodyPage} {ps : List BodyPage} :
      s.readers[j]? = some ⟨i, .page offset length, .returned (.page p)⟩ →
      Successive s i (offset + p.bytes.length) ps → Successive s i offset (p :: ps)

/-- Readers keep their body and their query. -/
theorem Steps.reader {serde : IgnoredAny} {s s' : State} {e : Event} (h : Steps serde s e s')
    {j : Nat} {r' : Reader} (hr' : s'.readers[j]? = some r') :
    r'.pc = .start ∨ ∃ r, s.readers[j]? = some r ∧ r'.entry = r.entry ∧ r'.query = r.query ∧
      (r'.pc = r.pc ∨ ∃ e a, s.budget.entries[r.entry]? = some e ∧
        readerStep e (s.files r.entry) r.query r.pc a = some r'.pc) := by
  rcases h.readers with hsame | ⟨i, query, -, hmore⟩ | ⟨j', r, e, a, pc, hr, he, hpc, hset⟩
  · rw [hsame] at hr'
    exact .inr ⟨r', hr', rfl, rfl, .inl rfl⟩
  · rw [hmore] at hr'
    rcases SingleOwner.getElem?_append_cases hr' with ⟨-, rfl⟩ | hold
    · exact .inl rfl
    · exact .inr ⟨r', hold, rfl, rfl, .inl rfl⟩
  · rw [hset] at hr'
    rcases SingleOwner.getElem?_set_cases hr' with ⟨rfl, rfl⟩ | ⟨-, hold⟩
    · exact .inr ⟨r, hr, rfl, rfl, .inr ⟨e, a, he, hpc⟩⟩
    · exact .inr ⟨r', hold, rfl, rfl, .inl rfl⟩

/-- **A total loaded later is not smaller.** -/
theorem totals_do_not_fall {serde : IgnoredAny} {s t : State} {es : List Event}
    (h : (bodies serde).Reachable s) (hrun : (bodies serde).runFrom s es = some t) {i : Nat}
    {e : Entry} (he : s.budget.entries[i]? = some e) {j : Nat}
    (hlater : ∀ r, s.readers[j]? = some r → r.pc.observed? = none) {r : Reader}
    (hr : t.readers[j]? = some r) (hi : r.entry = i) {total : Nat}
    (htotal : r.pc.observed? = some total) : e.total ≤ total := by
  have hinvariant : ((bodies serde).Reachable t ∧ s.Grown t i) ∧
      ∀ r, t.readers[j]? = some r → r.entry = i → ∀ total, r.pc.observed? = some total →
        e.total ≤ total := by
    refine Machine.runFrom_invariant (I := fun u => ((bodies serde).Reachable u ∧ s.Grown u i) ∧
      ∀ r, u.readers[j]? = some r → r.entry = i → ∀ total, r.pc.observed? = some total →
        e.total ≤ total) ?_ ⟨⟨h, fun e he => ⟨e, he, .refl ..⟩⟩, fun r hr _ total htotal => ?_⟩ hrun
    · rintro u d u' ⟨⟨hu, hgrown⟩, hobserved⟩ hstep
      have hsteps := step_steps hstep
      refine ⟨⟨.step hu trivial hstep, hgrown.trans (hsteps.grown
        (staffed_of_reachable (budget_of_reachable hu)) (written_of_reachable hu) i)⟩, ?_⟩
      intro r' hr' hi total htotal
      rcases hsteps.reader hr' with hstart | ⟨r, hr, hentry, -, hpc⟩
      · rw [hstart] at htotal
        cases htotal
      · rcases hpc with hpc | ⟨e', a, he', hpc⟩
        · exact hobserved r hr (hentry.symm.trans hi) total (hpc ▸ htotal)
        · rcases observed_of_step hpc htotal with hold | rfl
          · exact hobserved r hr (hentry.symm.trans hi) total hold
          · obtain ⟨d, hd, hgrows⟩ := hgrown e he
            rw [← hentry, hi] at he'
            cases he'.symm.trans hd
            exact hgrows.total
    · rw [hlater r hr] at htotal
      cases htotal
  exact hinvariant.2 r hr hi total htotal

/-- Successive pages are a part of the body. -/
theorem Successive.flatten {s : State} {i : Nat} (hinformed : Informed s) {e : Entry}
    (he : s.budget.entries[i]? = some e) (hfile : Promised e (s.files i)) {offset : Nat}
    {ps : List BodyPage} (h : Successive s i offset ps) :
    (ps.map BodyPage.bytes).flatten =
      ((s.files i).recorded.drop offset).take ((ps.map BodyPage.bytes).flatten.length) := by
  induction h with
  | nil offset => rfl
  | cons hr hrest ih =>
      rename_i offset length j p ps
      obtain ⟨d, hd, hmeasured, hpage⟩ := hinformed j _ hr
      cases he.symm.trans hd
      obtain ⟨hoffset, hbytes⟩ := hpage offset length rfl
      have hlength : p.bytes.length = min length (p.total - offset) := by
        rw [hbytes]
        exact Files.slice_length (Nat.le_trans hmeasured.le hfile.le)
      have hfirst : p.bytes = ((s.files i).recorded.drop offset).take p.bytes.length := by
        rw [hlength]
        exact hbytes
      rw [List.map_cons, List.flatten_cons, List.length_append, List.take_add, List.drop_drop,
        ← hfirst, ← ih]

theorem Successive.mem {s : State} {i offset : Nat} {ps : List BodyPage}
    (h : Successive s i offset ps) {p : BodyPage} (hp : p ∈ ps) :
    ∃ (j offset length : Nat),
      s.readers[j]? = some ⟨i, .page offset length, .returned (.page p)⟩ := by
  induction h with
  | nil offset => cases hp
  | cons hr hrest ih =>
      rcases List.mem_cons.mp hp with rfl | hp
      · exact ⟨_, _, _, hr⟩
      · exact ih hp

/-- **What the calls of `s` have returned, seen from a later state `t`.** -/
structure Consistent (serde : IgnoredAny) (s t : State) : Prop where
  /-- A page has its part of the body, as it is from then on. -/
  page : ∀ (j i offset length : Nat) (p : BodyPage),
    s.readers[j]? = some ⟨i, .page offset length, .returned (.page p)⟩ →
    offset ≤ p.total ∧ p.total ≤ (t.files i).recorded.length ∧
      p.bytes = ((t.files i).recorded.drop offset).take (min length (p.total - offset)) ∧
      (p.state = .complete → p.total = (t.files i).recorded.length)
  info : ∀ (j i total : Nat) (state : RecordState),
    s.readers[j]? = some ⟨i, .info, .returned (.info total state)⟩ →
    total ≤ (t.files i).recorded.length ∧
      (state = .complete → total = (t.files i).recorded.length)
  /-- What `read_exact` still wants is in the file. -/
  exact : ∀ (j i offset length total : Nat) (state : RecordState) (bytes : List UInt8),
    s.readers[j]? = some ⟨i, .page offset length, .reading state total bytes⟩ →
    offset + min length (total - offset) ≤ (s.files i).recorded.length
  /-- A total loaded later is not smaller. -/
  totals : ∀ (j j' : Nat) (r r' : Reader) (total total' : Nat), s.readers[j]? = some r →
    r.pc.observed? = some total → (∀ q, s.readers[j']? = some q → q.pc.observed? = none) →
    t.readers[j']? = some r' → r'.entry = r.entry → r'.pc.observed? = some total' →
    total ≤ total'
  /-- Successive pages up to a complete total are the body. -/
  successive : ∀ (i : Nat) (ps : List BodyPage) (p : BodyPage), Successive s i 0 ps → p ∈ ps →
    p.state = .complete → (ps.map BodyPage.bytes).flatten.length = p.total →
    (ps.map BodyPage.bytes).flatten = (t.files i).recorded
  exported : ∀ (j i : Nat) (bytes : List UInt8),
    s.readers[j]? = some ⟨i, .export, .returned (.exported bytes)⟩ → bytes = (t.files i).recorded
  refused : ∀ (j i offset length : Nat) (state : RecordState) (e : Entry) (a : ReadAnswer)
    (s' : State), s.readers[j]? = some ⟨i, .page offset length, .loaded state⟩ →
    s.budget.entries[i]? = some e → e.total < offset → step serde s (.read j a) = some s' →
    s'.readers[j]? = some ⟨i, .page offset length,
      .returned (.refused "Offset exceeds the recorded body.")⟩

/-- **Paged reads of a body being written are consistent**, in every run and whatever follows. -/
theorem pages_are_consistent {serde : IgnoredAny} {s t : State} {es : List Event}
    (h : (bodies serde).Reachable s) (hrun : (bodies serde).runFrom s es = some t) :
    Consistent serde s t := by
  have hinformed := informed_of_reachable h
  have ht : (bodies serde).Reachable t := h.runFrom (Machine.meets_true es s) hrun
  -- what a reader has learnt, in the later state
  have hlater {j : Nat} {r : Reader} (hr : s.readers[j]? = some r) :
      ∃ e, t.budget.entries[r.entry]? = some e ∧ Promised e (t.files r.entry) ∧
        Sound e (t.files r.entry) r.query r.pc := by
    obtain ⟨e, he, hsound⟩ := hinformed j r hr
    obtain ⟨e', he', hgrows⟩ := grown_of_run h hrun r.entry e he
    exact ⟨e', he', promised_of_reachable ht he',
      hsound.grows (promised_of_reachable h he) hgrows⟩
  have hmeasured {e : Entry} {f : Files} {state : RecordState} {total : Nat}
      (hfile : Promised e f) (h : Measured e state total) :
      total ≤ f.recorded.length ∧ (state = .complete → total = f.recorded.length) := by
    refine ⟨Nat.le_trans h.le hfile.le, fun hstate => ?_⟩
    obtain ⟨hcomplete, htotal⟩ := h.complete hstate
    exact htotal.trans (hfile.complete hcomplete).symm
  have hpage {j i offset length : Nat} {p : BodyPage}
      (hr : s.readers[j]? = some ⟨i, .page offset length, .returned (.page p)⟩) :
      offset ≤ p.total ∧ p.total ≤ (t.files i).recorded.length ∧
        p.bytes = ((t.files i).recorded.drop offset).take (min length (p.total - offset)) ∧
        (p.state = .complete → p.total = (t.files i).recorded.length) := by
    obtain ⟨e, -, hfile, hm, hbytes⟩ := hlater hr
    obtain ⟨hoffset, hbytes⟩ := hbytes offset length rfl
    obtain ⟨hle, hcomplete⟩ := hmeasured hfile hm
    exact ⟨hoffset, hle, hbytes, hcomplete⟩
  refine ⟨fun j i offset length p hr => hpage hr, fun j i total state hr => ?_,
    fun j i offset length total state bytes hr => ?_,
    fun j j' r r' total total' hr htotal hlater' hr' hentry htotal' => ?_,
    fun i ps p hps hp hstate hlength => ?_, fun j i bytes hr => ?_,
    fun j i offset length state e a s' hr he hlt hstep => ?_⟩
  · obtain ⟨e, -, hfile, hm⟩ := hlater hr
    exact hmeasured hfile hm
  · obtain ⟨e, he, hm, hbytes⟩ := hinformed j _ hr
    have hoffset := (hbytes offset length rfl).1
    have hle : total ≤ (s.files i).recorded.length :=
      Nat.le_trans hm.le (promised_of_reachable h he).le
    omega
  · obtain ⟨e, he, hsound⟩ := hinformed j r hr
    exact Nat.le_trans (hsound.observed_le htotal)
      (totals_do_not_fall h hrun he hlater' hr' hentry htotal')
  · obtain ⟨j, offset, length, hr⟩ := hps.mem hp
    obtain ⟨-, -, -, hcomplete⟩ := hpage hr
    obtain ⟨e, he, hsound⟩ := hinformed j _ hr
    obtain ⟨e', he', hgrows⟩ := grown_of_run h hrun i e he
    have hcompleted := (hsound.1.complete hstate).1
    have hflatten := hps.flatten hinformed he (promised_of_reachable h he)
    rw [List.drop_zero, hlength, hcomplete hstate, ← (hgrows.complete hcompleted).2.2,
      List.take_length] at hflatten
    exact hflatten
  · obtain ⟨e, -, -, -, hbytes⟩ := hlater hr
    exact hbytes
  · cases step_steps hstep with
    | read hr' he' hpc =>
        cases hr.symm.trans hr'
        cases he.symm.trans he'
        cases a with
        | go =>
            cases (if_pos hlt).symm.trans hpc
            exact List.getElem?_set_self (List.getElem?_eq_some_iff.mp hr).1
        | _ => cases hpc
    | permits hanalyses => cases hanalyses

/-- The worker of entry 0 reads, reserves and writes a chunk. -/
def chunkWritten (chunk : List UInt8) : List Event :=
  [.step 0 .go, .step 0 (.bytes chunk), .step 0 .go, .step 0 .go, .step 0 .go,
    .append 0 chunk.length, .step 0 .ok, .step 0 .go]

/-- A page is asked for when three bytes are there, and read while a fourth is written. -/
def pageDuringRecording : List Event :=
  [.record .response 1 100] ++ chunkWritten [1, 2, 3] ++
    [.query .response 1 (.page 1 2), .read 0 .go, .read 0 .go, .read 0 .go] ++
    chunkWritten [4] ++ [.read 0 (.bytes 2), .read 0 .go]

/-- The body ends. -/
def recordingEnds : List Event := [.step 0 .go, .step 0 (.bytes []), .step 0 .go]

theorem page_during_recording_is_consistent :
    ∃ s t, s.readers[0]? = some ⟨0, .page 1 2, .returned (.page ⟨3, [2, 3], .recording⟩)⟩ ∧
      (t.files 0).recorded = [1, 2, 3, 4] ∧ Consistent emptyArray s t := by
  obtain ⟨s, hs⟩ := Option.isSome_iff_exists.mp (by decide +kernel :
    ((bodies emptyArray).run pageDuringRecording).isSome = true)
  obtain ⟨t, ht⟩ := Option.isSome_iff_exists.mp (by decide +kernel :
    ((bodies emptyArray).run (pageDuringRecording ++ recordingEnds)).isSome = true)
  have hreader : ((bodies emptyArray).run pageDuringRecording).map (fun s => s.readers[0]?) =
      some (some ⟨0, .page 1 2, .returned (.page ⟨3, [2, 3], .recording⟩)⟩) := by
    decide +kernel
  have hrecorded : ((bodies emptyArray).run (pageDuringRecording ++ recordingEnds)).map
      (fun s => (s.files 0).recorded) = some [1, 2, 3, 4] := by
    decide +kernel
  rw [hs] at hreader
  rw [ht] at hrecorded
  have hrun : (bodies emptyArray).runFrom s recordingEnds = some t := by
    rw [Machine.run, Machine.runFrom_append] at ht
    rw [Machine.run] at hs
    rw [hs] at ht
    exact ht
  exact ⟨s, t, Option.some.inj hreader, Option.some.inj hrecorded,
    pages_are_consistent (Machine.reachable_of_run _ hs) hrun⟩

end SippinSoda.Bodies
