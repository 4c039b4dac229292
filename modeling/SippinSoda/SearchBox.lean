import SippinSoda.Inspection

/-!
# The search box of a body (`search`, `cancelSearch` in `src/ResponseBody.tsx`)

A click freezes the recorded range and asks the store for one step of the search after the other.
Every search has a number: when it has been cancelled, or its component is gone, it finds
`searchRun` changed as its answer comes, and shows nothing. The box is one of the callers of the
two stores, whose other callers and threads go on meanwhile.

* **Run** — a call of `search`, between its answers;
* **step** — the box over the stores;
* **Numbered** — which of the runs may still show something;
* **Informed** — what a run has found out of the body, and what the box shows of it;
* **search_box_tells_the_truth** — what is shown, in every run.
-/

namespace SippinSoda.SearchBox

open Budget (Side find)
open Bodies (BodyPage)

/-! ## State -/

/-- `searchMessage`. -/
inductive Message where
  | none
  | searching
  | searched (scannedTo total : Nat)
  | match_ (found : Nat) (state : Budget.RecordState)
  /-- "No match", or "No further match" unless the search began at the start. -/
  | noMatch (start total : Nat) (state : Budget.RecordState)
  | cancelled
  | failed (message : String)
  deriving DecidableEq, Repr

/-- Where a call of `search` is. -/
inductive Point where
  /-- `body_page` is on its way to the store, -/
  | asking
  /-- or is reader `i` there. -/
  | paging (i : Nat)
  /-- The search from `cursor` is on its way to the store, -/
  | searching (raw : BodyPage) (cursor : Nat)
  /-- or is call `k` there. -/
  | scanning (raw : BodyPage) (cursor k : Nat)
  | over
  deriving DecidableEq, Repr

/-- A call of `search`, with what its closure has kept. -/
structure Run where
  run : Nat
  needle : List UInt8
  start : Nat
  point : Point
  deriving DecidableEq, Repr

/-- What is shown of the body. -/
structure View where
  offset : Nat
  json : Bool
  hex : Bool
  deriving DecidableEq, Repr

structure State where
  stores : Inspection.State
  /-- The text in the input, in UTF-8. -/
  needle : List UInt8
  found : Option Nat
  searchMessage : Message
  searching : Bool
  searchRun : Nat
  mounted : Bool
  view : View
  runs : List Run

/-- The component as it is mounted. -/
def start : State where
  stores := Inspection.start
  needle := []
  found := none
  searchMessage := .none
  searching := false
  searchRun := 0
  mounted := true
  view := ⟨0, false, false⟩
  runs := []

/-- `run === searchRun.current && mounted.current`. -/
def State.Current (s : State) (r : Run) : Prop := r.run = s.searchRun ∧ s.mounted = true

instance (s : State) (r : Run) : Decidable (s.Current r) := inferInstanceAs (Decidable (_ ∧ _))

/-! ## A search -/

/-- `search`, up to its first answer. -/
def State.search (s : State) (start : Nat) : State :=
  { s with
    searchRun := s.searchRun + 1
    searching := true
    searchMessage := .searching
    runs := s.runs ++ [⟨s.searchRun + 1, s.needle, start, .asking⟩] }

/-- Run `j` waits for its next answer, or is over. -/
def State.moveTo (s : State) (j : Nat) (r : Run) (point : Point) : State :=
  { s with runs := s.runs.set j { r with point := point } }

/-- `catch` and `finally`. -/
def State.fail (s : State) (j : Nat) (r : Run) (message : String) : State :=
  if s.Current r then
    { s.moveTo j r .over with searchMessage := .failed message, searching := false }
  else s.moveTo j r .over

/-- `search` goes on with the page it has asked for. -/
def State.paged (s : State) (j : Nat) (r : Run) (raw : BodyPage) : State :=
  s.moveTo j r (if s.Current r then .searching raw r.start else .over)

/-- `search` goes on with a step of the store. -/
def State.stepped (s : State) (j : Nat) (r : Run) (raw : BodyPage) (result : SearchStep) : State :=
  if s.Current r then
    match result.found with
    | some found => { s.moveTo j r .over with
        found := some found
        view := ⟨found, false, false⟩
        searchMessage := .match_ found raw.state
        searching := false }
    | none =>
        if result.done then { s.moveTo j r .over with
          searchMessage := .noMatch r.start raw.total raw.state
          searching := false }
        else { s.moveTo j r (.searching raw result.nextOffset) with
          searchMessage := .searched result.scannedTo raw.total }
  else s.moveTo j r .over

/-! ## The machine -/

inductive Event where
  /-- A step of the stores, and of their other callers. -/
  | stores (e : Inspection.Event)
  | change (needle : List UInt8)
  | find
  | findNext
  | cancel
  /-- The controls of the page. -/
  | show_ (view : View)
  | unmount
  /-- What run `j` has asked for reaches the store, -/
  | invoke (j : Nat)
  /-- or comes to nothing. -/
  | reject (j : Nat) (message : String)
  /-- Run `j` goes on with what the store has returned. -/
  | resume (j : Nat)

section Step

variable (serde : IgnoredAny) (side : Side) (id : Nat)

/-- What a run asks for becomes a call of the store. -/
def State.invoke (s : State) (j : Nat) (r : Run) : Option State :=
  match r.point with
  | .asking =>
      match s.stores.bodies.query side id (.page 0 1) with
      | .error _ => none
      | .ok _ => (Inspection.step serde s.stores (.bodies (.query side id (.page 0 1)))).map
          fun stores =>
            { s.moveTo j r (.paging s.stores.bodies.readers.length) with stores := stores }
  | .searching raw cursor =>
      match s.stores.ask side id (.search r.needle cursor raw.total) with
      | .error _ => none
      | .ok _ => (Inspection.step serde s.stores
            (.call side id (.search r.needle cursor raw.total))).map fun stores =>
          { s.moveTo j r (.scanning raw cursor s.stores.calls.length) with stores := stores }
  | _ => none

/-- A run goes on. -/
def State.resume (s : State) (j : Nat) (r : Run) : Option State :=
  match r.point with
  | .paging i =>
      match s.stores.bodies.readers[i]? with
      | some ⟨_, _, .returned (.page raw)⟩ => some (s.paged j r raw)
      | some ⟨_, _, .returned (.refused message)⟩ => some (s.fail j r message)
      | _ => none
  | .scanning raw _ k =>
      match s.stores.calls[k]? with
      | some ⟨_, _, .returned (.ok (.step result)), _⟩ => some (s.stepped j r raw result)
      | some ⟨_, _, .returned (.error message), _⟩ => some (s.fail j r message)
      | _ => none
  | _ => none

/-- One step of the system. -/
def step (s : State) : Event → Option State
  | .stores e => (Inspection.step serde s.stores e).map fun stores => { s with stores := stores }
  | .change needle =>
      if s.mounted ∧ !s.searching then
        some { s with needle := needle, found := none, searchMessage := .none }
      else none
  | .find =>
      if s.mounted ∧ !s.searching ∧ s.needle ≠ [] ∧ s.needle.length ≤ 4096 then some (s.search 0)
      else none
  | .findNext =>
      match s.found with
      | some found => if s.mounted ∧ !s.searching then some (s.search (found + 1)) else none
      | none => none
  | .cancel =>
      if s.mounted ∧ s.searching then
        some { s with
          searchRun := s.searchRun + 1
          searching := false
          searchMessage := .cancelled }
      else none
  | .show_ view => if s.mounted then some { s with view := view } else none
  | .unmount =>
      if s.mounted then some { s with mounted := false, searchRun := s.searchRun + 1 } else none
  | .invoke j => s.runs[j]?.bind (s.invoke serde side id j)
  | .reject j message =>
      match s.runs[j]? with
      | some r => if r.point = .over then none else some (s.fail j r message)
      | none => none
  | .resume j => s.runs[j]?.bind (s.resume j)

/-- The search box of a body. -/
def searchBox : Machine State Event where
  start := start
  step := step serde side id

end Step

variable {serde : IgnoredAny} {side : Side} {id : Nat}

/-- **All that a step can do.** -/
inductive Steps (serde : IgnoredAny) (side : Side) (id : Nat) (s : State) : Event → State → Prop
  | stores {e t} : Inspection.step serde s.stores e = some t →
      Steps serde side id s (.stores e) { s with stores := t }
  | change {needle} : s.searching = false → Steps serde side id s (.change needle)
      { s with needle := needle, found := none, searchMessage := .none }
  | search {e start} : e = .find ∨ e = .findNext → s.mounted = true → s.searching = false →
      (start = 0 ∨ ∃ found, s.found = some found ∧ start = found + 1) →
      Steps serde side id s e (s.search start)
  | cancel : s.searching = true → Steps serde side id s .cancel
      { s with searchRun := s.searchRun + 1, searching := false, searchMessage := .cancelled }
  | show_ {view} : Steps serde side id s (.show_ view) { s with view := view }
  | unmount : Steps serde side id s .unmount
      { s with mounted := false, searchRun := s.searchRun + 1 }
  | page {j r q t} : s.runs[j]? = some r → r.point = .asking →
      s.stores.bodies.query side id (.page 0 1) = .ok q →
      Inspection.step serde s.stores (.bodies (.query side id (.page 0 1))) = some t →
      Steps serde side id s (.invoke j)
        { s.moveTo j r (.paging s.stores.bodies.readers.length) with stores := t }
  | call {j r raw cursor c t} : s.runs[j]? = some r → r.point = .searching raw cursor →
      s.stores.ask side id (.search r.needle cursor raw.total) = .ok c →
      Inspection.step serde s.stores (.call side id (.search r.needle cursor raw.total)) = some t →
      Steps serde side id s (.invoke j)
        { s.moveTo j r (.scanning raw cursor s.stores.calls.length) with stores := t }
  | fail {e j r message} : (e = .resume j ∨ e = .reject j message) → s.runs[j]? = some r →
      r.point ≠ .over →
      Steps serde side id s e (s.fail j r message)
  | paged {j r i entry query raw} : s.runs[j]? = some r → r.point = .paging i →
      s.stores.bodies.readers[i]? = some ⟨entry, query, .returned (.page raw)⟩ →
      Steps serde side id s (.resume j) (s.paged j r raw)
  | stepped {j r raw cursor k entry query result permit} : s.runs[j]? = some r →
      r.point = .scanning raw cursor k →
      s.stores.calls[k]? = some ⟨entry, query, .returned (.ok (.step result)), permit⟩ →
      Steps serde side id s (.resume j) (s.stepped j r raw result)

theorem step_steps {s s' : State} {e : Event} (h : step serde side id s e = some s') :
    Steps serde side id s e s' := by
  cases e with
  | stores e =>
      obtain ⟨t, ht, rfl⟩ := Option.map_eq_some_iff.mp h
      exact .stores ht
  | change needle =>
      simp only [step] at h
      split at h
      next hguard =>
        cases h
        exact .change (by simpa using hguard.2)
      next => cases h
  | find =>
      simp only [step] at h
      split at h
      next hguard =>
        cases h
        exact .search (.inl rfl) hguard.1 (by simpa using hguard.2.1) (.inl rfl)
      next => cases h
  | findNext =>
      simp only [step] at h
      split at h
      next found hfound =>
        split at h
        next hguard =>
          cases h
          exact .search (.inr rfl) hguard.1 (by simpa using hguard.2)
            (.inr ⟨found, hfound, rfl⟩)
        next => cases h
      next => cases h
  | cancel =>
      simp only [step] at h
      split at h
      next hguard =>
        cases h
        exact .cancel hguard.2
      next => cases h
  | show_ view =>
      simp only [step] at h
      split at h
      next => cases h; exact .show_
      next => cases h
  | unmount =>
      simp only [step] at h
      split at h
      next => cases h; exact .unmount
      next => cases h
  | invoke j =>
      obtain ⟨r, hr, h⟩ := Option.bind_eq_some_iff.mp h
      unfold State.invoke at h
      split at h
      next hpoint =>
        split at h
        next => cases h
        next q hq =>
          obtain ⟨t, ht, rfl⟩ := Option.map_eq_some_iff.mp h
          exact .page hr hpoint hq ht
      next raw cursor hpoint =>
        split at h
        next => cases h
        next c hc =>
          obtain ⟨t, ht, rfl⟩ := Option.map_eq_some_iff.mp h
          exact .call hr hpoint hc ht
      next => cases h
  | reject j message =>
      simp only [step] at h
      split at h
      next r hr =>
        split at h
        next => cases h
        next hpoint =>
          cases h
          exact .fail (.inr rfl) hr hpoint
      next => cases h
  | resume j =>
      obtain ⟨r, hr, h⟩ := Option.bind_eq_some_iff.mp h
      unfold State.resume at h
      split at h
      next i hpoint =>
        split at h
        next hreader => cases h; exact .paged hr hpoint hreader
        next => cases h; exact .fail (.inl rfl) hr (by simp [hpoint])
        next => cases h
      next raw cursor k hpoint =>
        split at h
        next hcall => cases h; exact .stepped hr hpoint hcall
        next => cases h; exact .fail (.inl rfl) hr (by simp [hpoint])
        next => cases h
      next => cases h

/-! ## Which runs may still show something -/

/-- A run whose answer will be shown. -/
def State.Live (s : State) (r : Run) : Prop := s.Current r ∧ r.point ≠ .over

def State.numbers (s : State) : List Nat := s.runs.map Run.run

/-- **A search is at work exactly while the box says so**, and there is one at most. -/
structure Numbered (s : State) : Prop where
  increasing : s.numbers.Pairwise (· < ·)
  le : ∀ n ∈ s.numbers, n ≤ s.searchRun
  live : ∀ r ∈ s.runs, s.Live r → s.searching = true ∧ r.needle = s.needle ∧
    (r.start = 0 ∨ ∃ found, s.found = some found ∧ r.start = found + 1)
  busy : s.mounted = true → s.searching = true → ∃ r ∈ s.runs, s.Live r

section Numbered

variable {s s' : State} {j : Nat} {r : Run}

/-- Two current runs are one. -/
theorem Numbered.single (h : Numbered s) {j' : Nat} {r' : Run} (hr : s.runs[j]? = some r)
    (hr' : s.runs[j']? = some r') (hcurrent : s.Current r) (hcurrent' : s.Current r') :
    j = j' := by
  have hget {i : Nat} {q : Run} (hq : s.runs[i]? = some q) : s.numbers[i]? = some q.run := by
    unfold State.numbers
    rw [List.getElem?_map, hq, Option.map_some]
  obtain ⟨hj, hn⟩ := List.getElem?_eq_some_iff.mp (hget hr)
  obtain ⟨hj', hn'⟩ := List.getElem?_eq_some_iff.mp (hget hr')
  have hsame : r.run = r'.run := hcurrent.1.trans hcurrent'.1.symm
  rcases Nat.lt_trichotomy j j' with hlt | heq | hlt
  · have := List.pairwise_iff_getElem.mp h.increasing j j' hj hj' hlt
    omega
  · exact heq
  · have := List.pairwise_iff_getElem.mp h.increasing j' j hj' hj hlt
    omega

/-- A run keeps its number. -/
theorem numbers_of_set {point : Point} (hr : s.runs[j]? = some r)
    (hruns : s'.runs = s.runs.set j { r with point := point }) : s'.numbers = s.numbers := by
  unfold State.numbers
  rw [hruns, List.map_set]
  have hself : (s.runs.map Run.run)[j]? = some r.run := by
    rw [List.getElem?_map, hr]
    rfl
  obtain ⟨hmapped, heq⟩ := List.getElem?_eq_some_iff.mp hself
  show (s.runs.map Run.run).set j r.run = _
  rw [← heq, List.set_getElem_self]

theorem mem_of_set {point : Point} {q : Run}
    (hruns : s'.runs = s.runs.set j { r with point := point }) (hq : q ∈ s'.runs) :
    q = { r with point := point } ∨ ∃ i, i ≠ j ∧ s.runs[i]? = some q := by
  obtain ⟨i, hi⟩ := List.getElem?_of_mem hq
  rw [hruns] at hi
  rcases SingleOwner.getElem?_set_cases hi with ⟨-, rfl⟩ | ⟨hij, hold⟩
  · exact .inl rfl
  · exact .inr ⟨i, hij, hold⟩

/-- A run goes on to wait. -/
theorem Numbered.wait (h : Numbered s) {point : Point} (hr : s.runs[j]? = some r)
    (hpoint : r.point ≠ .over) (hpoint' : point ≠ .over)
    (hruns : s'.runs = s.runs.set j { r with point := point })
    (hsearchRun : s'.searchRun = s.searchRun) (hmounted : s'.mounted = s.mounted)
    (hsearching : s'.searching = s.searching) (hneedle : s'.needle = s.needle)
    (hfound : s'.found = s.found) : Numbered s' := by
  have hmem := List.mem_of_getElem? hr
  have hcurrent (q : Run) : s'.Current q ↔ s.Current q := by
    unfold State.Current
    rw [hsearchRun, hmounted]
  refine ⟨?_, ?_, fun q hq hlive => ?_, fun hm hs => ?_⟩
  · rw [numbers_of_set hr hruns]
    exact h.increasing
  · rw [numbers_of_set hr hruns, hsearchRun]
    exact h.le
  · rw [hsearching, hneedle, hfound]
    rcases mem_of_set hruns hq with rfl | ⟨i, -, hold⟩
    · exact h.live r hmem ⟨(hcurrent r).mp hlive.1, hpoint⟩
    · exact h.live q (List.mem_of_getElem? hold) ⟨(hcurrent q).mp hlive.1, hlive.2⟩
  · obtain ⟨q, hq, hlive⟩ := h.busy (hmounted ▸ hm) (hsearching ▸ hs)
    have hnew : { r with point := point } ∈ s'.runs := by
      rw [hruns]
      exact List.mem_set (List.getElem?_eq_some_iff.mp hr).1 _
    obtain ⟨i, hi⟩ := List.getElem?_of_mem hq
    by_cases hij : i = j
    · subst hij
      cases hr.symm.trans hi
      exact ⟨_, hnew, (hcurrent _).mpr hlive.1, hpoint'⟩
    · refine ⟨q, ?_, (hcurrent q).mpr hlive.1, hlive.2⟩
      rw [hruns]
      exact List.mem_of_getElem? ((List.getElem?_set_ne fun h => hij h.symm).trans hi)

/-- A run that is not current is over, and nobody notices. -/
theorem Numbered.quit (h : Numbered s) (hr : s.runs[j]? = some r) (hstale : ¬ s.Current r) :
    Numbered (s.moveTo j r .over) := by
  refine ⟨?_, ?_, fun q hq hlive => ?_, fun hm hs => ?_⟩
  · rw [numbers_of_set hr rfl]
    exact h.increasing
  · rw [numbers_of_set hr rfl]
    exact h.le
  · rcases mem_of_set rfl hq with rfl | ⟨i, -, hold⟩
    · exact absurd rfl hlive.2
    · exact h.live q (List.mem_of_getElem? hold) hlive
  · obtain ⟨q, hq, hlive⟩ := h.busy hm hs
    obtain ⟨i, hi⟩ := List.getElem?_of_mem hq
    have hij : j ≠ i := by
      intro hij
      subst hij
      cases hr.symm.trans hi
      exact hstale hlive.1
    exact ⟨q, List.mem_of_getElem? ((List.getElem?_set_ne hij).trans hi), hlive⟩

/-- The current run ends, and no other is current. -/
theorem Numbered.finish (h : Numbered s) (hr : s.runs[j]? = some r) (hcurrent : s.Current r)
    (hruns : s'.runs = s.runs.set j { r with point := .over })
    (hsearchRun : s'.searchRun = s.searchRun) (hmounted : s'.mounted = s.mounted)
    (hsearching : s'.searching = false) : Numbered s' := by
  refine ⟨?_, ?_, fun q hq hlive => ?_, fun _ hs => ?_⟩
  · rw [numbers_of_set hr hruns]
    exact h.increasing
  · rw [numbers_of_set hr hruns, hsearchRun]
    exact h.le
  · rcases mem_of_set hruns hq with rfl | ⟨i, hij, hold⟩
    · exact absurd rfl hlive.2
    · have hcurrent' : s.Current q := ⟨hsearchRun ▸ hlive.1.1, hmounted ▸ hlive.1.2⟩
      exact absurd (h.single hold hr hcurrent' hcurrent) hij
  · rw [hsearching] at hs
    cases hs

theorem Numbered.fail (h : Numbered s) (hr : s.runs[j]? = some r) (message : String) :
    Numbered (s.fail j r message) := by
  unfold State.fail
  split
  next hcurrent => exact h.finish hr hcurrent rfl rfl rfl rfl
  next hstale => exact h.quit hr hstale

theorem Numbered.paged (h : Numbered s) (hr : s.runs[j]? = some r) (hpoint : r.point ≠ .over)
    (raw : BodyPage) : Numbered (s.paged j r raw) := by
  unfold State.paged
  split
  next => exact h.wait hr hpoint (by simp) rfl rfl rfl rfl rfl rfl
  next hstale => exact h.quit hr hstale

theorem Numbered.stepped (h : Numbered s) (hr : s.runs[j]? = some r) (hpoint : r.point ≠ .over)
    (raw : BodyPage) (result : SearchStep) : Numbered (s.stepped j r raw result) := by
  unfold State.stepped
  split
  next hcurrent =>
    split
    next => exact h.finish hr hcurrent rfl rfl rfl rfl
    next =>
      split
      next => exact h.finish hr hcurrent rfl rfl rfl rfl
      next => exact h.wait hr hpoint (by simp) rfl rfl rfl rfl rfl rfl
  next hstale => exact h.quit hr hstale

/-- A new search takes over. -/
theorem Numbered.search (h : Numbered s) {start : Nat} (hmounted : s.mounted = true)
    (hstart : start = 0 ∨ ∃ found, s.found = some found ∧ start = found + 1) :
    Numbered (s.search start) := by
  have hnumbers : (s.search start).numbers = s.numbers ++ [s.searchRun + 1] := by
    show (s.runs ++ [_]).map Run.run = _
    rw [List.map_append]
    rfl
  refine ⟨?_, ?_, fun q hq hlive => ?_, fun _ _ => ?_⟩
  · rw [hnumbers, List.pairwise_append]
    refine ⟨h.increasing, List.pairwise_singleton .., fun n hn m hm => ?_⟩
    have hle := h.le n hn
    obtain rfl := List.mem_singleton.mp hm
    omega
  · intro n hn
    rw [hnumbers, List.mem_append, List.mem_singleton] at hn
    show n ≤ s.searchRun + 1
    rcases hn with hn | rfl
    · have hle := h.le n hn
      omega
    · exact Nat.le_refl _
  · rcases List.mem_append.mp hq with hold | hnew
    · -- a run of before has a smaller number
      have hle := h.le q.run (List.mem_map_of_mem hold)
      have hrun : q.run = s.searchRun + 1 := hlive.1.1
      omega
    · obtain rfl := List.mem_singleton.mp hnew
      exact ⟨rfl, rfl, hstart⟩
  · exact ⟨_, List.mem_append_right _ (List.mem_singleton.mpr rfl), ⟨rfl, hmounted⟩, by simp⟩

/-- A run whose number is not given any more shows nothing. -/
theorem Numbered.abandon (h : Numbered s) (hnumbers : s'.runs = s.runs)
    (hsearchRun : s'.searchRun = s.searchRun + 1)
    (hquiet : s'.mounted = false ∨ s'.searching = false) : Numbered s' := by
  have hsame : s'.numbers = s.numbers := congrArg (List.map Run.run) hnumbers
  refine ⟨hsame ▸ h.increasing, fun n hn => ?_, fun q hq hlive => ?_, fun hm hs => ?_⟩
  · have hle := h.le n (hsame ▸ hn)
    omega
  · have hle := h.le q.run (List.mem_map_of_mem (hnumbers ▸ hq))
    have hrun := hlive.1.1
    omega
  · rcases hquiet with hquiet | hquiet
    · rw [hm] at hquiet
      cases hquiet
    · rw [hs] at hquiet
      cases hquiet

theorem Numbered.step (h : Numbered s) {e : Event} (hstep : Steps serde side id s e s') :
    Numbered s' := by
  cases hstep with
  | stores => exact ⟨h.increasing, h.le, h.live, h.busy⟩
  | change hidle =>
      refine ⟨h.increasing, h.le, fun q hq hlive => ?_, fun _ hs => ?_⟩
      · have hsearching := (h.live q hq hlive).1
        rw [hidle] at hsearching
        cases hsearching
      · have hs : s.searching = true := hs
        rw [hidle] at hs
        cases hs
  | search _ hmounted _ hstart => exact h.search hmounted hstart
  | cancel => exact h.abandon rfl rfl (.inr rfl)
  | show_ => exact ⟨h.increasing, h.le, h.live, h.busy⟩
  | unmount => exact h.abandon rfl rfl (.inl rfl)
  | page hr hpoint =>
      exact h.wait hr (by simp [hpoint]) (by simp) rfl rfl rfl rfl rfl rfl
  | call hr hpoint =>
      exact h.wait hr (by simp [hpoint]) (by simp) rfl rfl rfl rfl rfl rfl
  | fail _ hr => exact h.fail hr _
  | paged hr hpoint => exact h.paged hr (by simp [hpoint]) _
  | stepped hr hpoint => exact h.stepped hr (by simp [hpoint]) _ _

end Numbered

theorem numbered_of_reachable {s : State} (h : (searchBox serde side id).Reachable s) :
    Numbered s := by
  refine h.invariant ⟨.nil, fun n hn => ?_, fun r hr => ?_, fun _ hs => ?_⟩
    fun hs _ hstep => hs.step (step_steps hstep)
  · cases hn
  · cases hr
  · cases hs

/-! ## The stores meanwhile -/

/-- The stores as they are, and as they are later: no call is forgotten or changed. -/
structure Onwards (s s' : Inspection.State) : Prop where
  grown : ∀ i, s.bodies.Grown s'.bodies i
  reader : ∀ (i : Nat) (q : Bodies.Reader), s.bodies.readers[i]? = some q →
    ∃ q', s'.bodies.readers[i]? = some q' ∧ q'.entry = q.entry
  call : ∀ (k : Nat) (c : Inspection.Call), s.calls[k]? = some c →
    ∃ c', s'.calls[k]? = some c' ∧ c'.entry = c.entry ∧ c'.query = c.query

theorem onwards_of_step {s s' : Inspection.State} {e : Inspection.Event}
    (h : (Inspection.inspection serde).Reachable s) (hstep : Inspection.step serde s e = some s') :
    Onwards s s' := by
  have hbodies := Inspection.bodies_of_reachable h
  have hsteps := Inspection.step_steps hstep
  refine ⟨fun i => ?_, fun i q hq => ?_, fun k c hc => ?_⟩
  · rcases hsteps.bodies_step with hsame | ⟨d, hd⟩
    · rw [hsame]
      exact fun e he => ⟨e, he, .refl ..⟩
    · exact (Bodies.step_steps hd).grown
        (Budget.staffed_of_reachable (Bodies.budget_of_reachable hbodies))
        (Bodies.written_of_reachable hbodies) i
  · rcases hsteps.bodies_step with hsame | ⟨d, hd⟩
    · rw [hsame]
      exact ⟨q, hq, rfl⟩
    · rcases (Bodies.step_steps hd).readers with hsame | ⟨_, _, -, hmore⟩ |
        ⟨i', q', _, _, pc, hq', -, -, hset⟩
      · rw [hsame]
        exact ⟨q, hq, rfl⟩
      · rw [hmore]
        exact ⟨q, List.getElem?_append_left (List.getElem?_eq_some_iff.mp hq).1 ▸ hq, rfl⟩
      · rw [hset]
        by_cases hi : i' = i
        · subst hi
          cases hq.symm.trans hq'
          exact ⟨_, List.getElem?_set_self (List.getElem?_eq_some_iff.mp hq).1, rfl⟩
        · exact ⟨q, (List.getElem?_set_ne hi).trans hq, rfl⟩
  · have hlt := (List.getElem?_eq_some_iff.mp hc).1
    cases hsteps with
    | bodies => exact ⟨c, hc, rfl, rfl⟩
    | refuse => exact ⟨c, hc, rfl, rfl⟩
    | search => exact ⟨c, (List.getElem?_append_left hlt).trans hc, rfl, rfl⟩
    | page => exact ⟨c, (List.getElem?_append_left hlt).trans hc, rfl, rfl⟩
    | @turn k' _ c' _ pc hc' =>
        by_cases hk : k' = k
        · subst hk
          cases hc.symm.trans hc'
          exact ⟨_, List.getElem?_set_self hlt, rfl, rfl⟩
        · exact ⟨c, (List.getElem?_set_ne hk).trans hc, rfl, rfl⟩
    | @gone k' _ _ _ _ hc' =>
        by_cases hk : k' = k
        · subst hk
          cases hc.symm.trans hc'
          exact ⟨_, List.getElem?_set_self hlt, rfl, rfl⟩
        · exact ⟨c, (List.getElem?_set_ne hk).trans hc, rfl, rfl⟩

theorem stores_of_reach {guard : State → Event → Prop} {s : State}
    (h : (searchBox serde side id).Reach guard s) :
    (Inspection.inspection serde).Reachable s.stores := by
  refine h.project State.stores rfl fun hstep => ?_
  cases step_steps hstep with
  | stores ht => exact .inr ⟨_, ht⟩
  | page _ _ _ ht => exact .inr ⟨.bodies (.query side id (.page 0 1)), ht⟩
  | @call _ r raw cursor _ _ _ _ _ ht =>
      exact .inr ⟨.call side id (.search r.needle cursor raw.total), ht⟩
  | fail =>
      unfold State.fail
      split <;> exact .inl rfl
  | stepped =>
      unfold State.stepped
      split
      · split
        · exact .inl rfl
        · split <;> exact .inl rfl
      · exact .inl rfl
  | _ => exact .inl rfl

/-! ## What has been found out of the body -/

/-- The recorded bytes of a body. -/
def recorded (s : Inspection.State) (body : Nat) : List UInt8 := (s.bodies.files body).recorded

/-- The body has had this total. -/
def Published (s : Inspection.State) (body total : Nat) : Prop :=
  ∃ e, s.bodies.budget.entries[body]? = some e ∧ total ≤ e.total

/-- A range that is recorded keeps its matches as the body grows. -/
theorem matchIn_extended {body body' needle : List UInt8} {start end_ g : Nat}
    (h : body <+: body') (hend : end_ ≤ body.length) :
    MatchIn body' needle start end_ g ↔ MatchIn body needle start end_ g := by
  obtain ⟨more, rfl⟩ := h
  unfold MatchIn Kmp.Occurs
  refine and_congr_right fun _ => and_congr_right fun hg => ?_
  have hneedle : needle.length ≤ (body.drop g).length := by
    rw [List.length_drop]
    omega
  rw [List.drop_append_of_le_length (by omega)]
  exact ⟨fun hocc => List.prefix_of_prefix_length_le hocc (List.prefix_append ..) hneedle,
    fun hocc => hocc.trans (List.prefix_append ..)⟩

section Published

variable {s s' : Inspection.State} {body total : Nat}

theorem Published.le (h : Published s body total)
    (hs : (Inspection.inspection serde).Reachable s) :
    total ≤ (recorded s body).length := by
  obtain ⟨e, he, hle⟩ := h
  exact Nat.le_trans hle (Bodies.promised_of_reachable (Inspection.bodies_of_reachable hs) he).le

theorem Published.onwards (h : Published s body total) (hon : Onwards s s') :
    Published s' body total := by
  obtain ⟨e, he, hle⟩ := h
  obtain ⟨e', he', hgrows⟩ := hon.grown body e he
  exact ⟨e', he', Nat.le_trans hle hgrows.total⟩

theorem Published.matchIn (h : Published s body total) (hon : Onwards s s')
    (hs : (Inspection.inspection serde).Reachable s) {needle : List UInt8} {start g : Nat} :
    MatchIn (recorded s' body) needle start total g ↔
      MatchIn (recorded s body) needle start total g := by
  obtain ⟨e, he, -⟩ := id h
  obtain ⟨_, -, hgrows⟩ := hon.grown body e he
  exact matchIn_extended hgrows.recorded (h.le hs)

end Published

/-- The range of a search is recorded, and its matches all begin at the cursor or later. -/
structure Narrowed (s : Inspection.State) (body : Nat) (needle : List UInt8) (start : Nat)
    (raw : BodyPage) (cursor : Nat) : Prop where
  published : Published s body raw.total
  same : ∀ g, MatchIn (recorded s body) needle start raw.total g ↔
    MatchIn (recorded s body) needle cursor raw.total g

/-- What a run has found out. -/
def Knows (s : Inspection.State) (body : Nat) (r : Run) : Point → Prop
  | .asking => True
  | .paging i => ∃ q, s.bodies.readers[i]? = some q ∧ q.entry = body
  | .searching raw cursor => Narrowed s body r.needle r.start raw cursor
  | .scanning raw cursor k => Narrowed s body r.needle r.start raw cursor ∧
      ∃ c, s.calls[k]? = some c ∧ c.entry = body ∧ c.query = .search r.needle cursor raw.total
  | .over => True

/-- The id names one body, in every state that is gone through. -/
def OneBody (side : Side) (id body : Nat) (s : State) (_ : Event) : Prop :=
  ∀ i, find s.stores.bodies.budget.entries side id = some i → i = body

instance (side : Side) (id body : Nat) (s : State) (e : Event) :
    Decidable (OneBody side id body s e) :=
  decidable_of_iff (∀ i ∈ find s.stores.bodies.budget.entries side id, i = body) Iff.rfl

/-- **What the box shows is true of the body**, and what its runs go by. -/
structure Informed (body : Nat) (s : State) : Prop where
  knows : ∀ r ∈ s.runs, Knows s.stores body r r.point
  found : ∀ f, s.found = some f → ∃ total, Published s.stores body total ∧
    MatchIn (recorded s.stores body) s.needle 0 total f
  shown : ∀ f state, s.searchMessage = .match_ f state → s.found = some f
  noMatch : ∀ start total state, s.searchMessage = .noMatch start total state →
    Published s.stores body total ∧
    (start = 0 ∨ ∃ f, s.found = some f ∧ start = f + 1) ∧
    ∀ g, ¬ MatchIn (recorded s.stores body) s.needle start total g

section Informed

variable {body : Nat} {s s' : State}

/-- What a run knows stays true. -/
theorem Knows.onwards {s s' : Inspection.State} {r : Run} {point : Point}
    (h : Knows s body r point) (hs : (Inspection.inspection serde).Reachable s)
    (hon : Onwards s s') : Knows s' body r point := by
  have hnarrowed {raw : BodyPage} {cursor : Nat}
      (h : Narrowed s body r.needle r.start raw cursor) :
      Narrowed s' body r.needle r.start raw cursor := by
    refine ⟨h.published.onwards hon, fun g => ?_⟩
    rw [h.published.matchIn hon hs]
    exact (h.same g).trans (h.published.matchIn hon hs).symm
  cases point with
  | asking => trivial
  | paging i =>
      obtain ⟨q, hq, hentry⟩ := h
      obtain ⟨q', hq', hsame⟩ := hon.reader i q hq
      exact ⟨q', hq', hsame.trans hentry⟩
  | searching raw cursor => exact hnarrowed h
  | scanning raw cursor k =>
      obtain ⟨hn, c, hc, hentry, hquery⟩ := h
      obtain ⟨c', hc', hsame, hsame'⟩ := hon.call k c hc
      exact ⟨hnarrowed hn, c', hc', hsame.trans hentry, hsame'.trans hquery⟩
  | «over» => trivial

/-- The stores go on, and what is shown stays. -/
theorem Informed.onwards (h : Informed body s)
    (hs : (Inspection.inspection serde).Reachable s.stores) (hon : Onwards s.stores s'.stores)
    (hruns : ∀ r ∈ s'.runs, Knows s'.stores body r r.point) (hneedle : s'.needle = s.needle)
    (hfound : s'.found = s.found) (hmessage : s'.searchMessage = s.searchMessage) :
    Informed body s' := by
  refine ⟨hruns, fun f hf => ?_, fun f state hm => ?_, fun start total state hm => ?_⟩
  · obtain ⟨total, hpublished, hmatch⟩ := h.found f (hfound ▸ hf)
    rw [hneedle]
    exact ⟨total, hpublished.onwards hon, (hpublished.matchIn hon hs).mpr hmatch⟩
  · rw [hfound]
    exact h.shown f state (hmessage ▸ hm)
  · obtain ⟨hpublished, hstart, hnone⟩ := h.noMatch start total state (hmessage ▸ hm)
    rw [hneedle, hfound]
    exact ⟨hpublished.onwards hon, hstart, fun g hmatch =>
      hnone g ((hpublished.matchIn hon hs).mp hmatch)⟩

/-- A run comes to another point, and what is shown stays. -/
theorem Informed.moveTo (h : Informed body s) {j : Nat} {r : Run} {point : Point}
    (hknows : Knows s.stores body r point) : Informed body (s.moveTo j r point) := by
  refine ⟨fun q hq => ?_, h.found, h.shown, h.noMatch⟩
  rcases mem_of_set rfl hq with rfl | ⟨i, -, hold⟩
  · cases point <;> exact hknows
  · exact h.knows q (List.mem_of_getElem? hold)

/-- What comes to be shown otherwise is neither a match nor that there is none. -/
theorem Informed.says (h : Informed body s) (hruns : s'.runs = s.runs)
    (hstores : s'.stores = s.stores) (hneedle : s'.needle = s.needle) (hfound : s'.found = s.found)
    (hmatch : ∀ f state, s'.searchMessage ≠ .match_ f state)
    (hnoMatch : ∀ start total state, s'.searchMessage ≠ .noMatch start total state) :
    Informed body s' := by
  obtain ⟨stores, needle, found, message, _, _, _, _, runs⟩ := s
  obtain ⟨stores', needle', found', message', _, _, _, _, runs'⟩ := s'
  cases hruns
  cases hstores
  cases hneedle
  cases hfound
  exact ⟨h.knows, h.found, fun f state hm => absurd hm (hmatch f state),
    fun start total state hm => absurd hm (hnoMatch start total state)⟩

/-- The page that a run has asked for. -/
theorem published_of_page (hs : (Inspection.inspection serde).Reachable s.stores) {i : Nat}
    {query : Bodies.Query} {raw : BodyPage}
    (hq : s.stores.bodies.readers[i]? = some ⟨body, query, .returned (.page raw)⟩) :
    Published s.stores body raw.total := by
  obtain ⟨e, he, hmeasured, -⟩ :=
    Bodies.informed_of_reachable (Inspection.bodies_of_reachable hs) i _ hq
  exact ⟨e, he, hmeasured.le⟩

/-- The step that a run has asked for. -/
theorem stepOk_of_call (hs : (Inspection.inspection serde).Reachable s.stores) {k cursor end_ : Nat}
    {needle : List UInt8} {result : SearchStep} {permit : Bool}
    (hc : s.stores.calls[k]? =
      some ⟨body, .search needle cursor end_, .returned (.ok (.step result)), permit⟩) :
    StepOk (recorded s.stores body) needle cursor end_ result := by
  obtain ⟨e, he, hne, hmax, hrange, hscan⟩ := Inspection.informed_of_reachable hs k _ hc
  have hfile := Bodies.promised_of_reachable (Inspection.bodies_of_reachable hs) he
  obtain ⟨result', hscan', hok⟩ := scan_spec hne hmax hrange.le
    (Nat.le_trans hrange.total hfile.le)
  cases hscan.symm.trans hscan'
  exact hok

theorem Informed.fail (h : Informed body s) (j : Nat) (r : Run) (message : String) :
    Informed body (s.fail j r message) := by
  have hover : Informed body (s.moveTo j r .over) := h.moveTo trivial
  unfold State.fail
  split
  · exact hover.says rfl rfl rfl rfl (by simp) (by simp)
  · exact hover

theorem Informed.paged (h : Informed body s)
    (hs : (Inspection.inspection serde).Reachable s.stores) {j i : Nat} {r : Run}
    (hr : s.runs[j]? = some r) (hpoint : r.point = .paging i) {entry : Nat} {query : Bodies.Query}
    {raw : BodyPage} (hq : s.stores.bodies.readers[i]? =
      some ⟨entry, query, .returned (.page raw)⟩) : Informed body (s.paged j r raw) := by
  have hknows := h.knows r (List.mem_of_getElem? hr)
  rw [hpoint] at hknows
  obtain ⟨q, hq', rfl⟩ := hknows
  cases hq.symm.trans hq'
  unfold State.paged
  split
  · exact h.moveTo ⟨published_of_page hs hq, fun _ => Iff.rfl⟩
  · exact h.moveTo trivial

theorem Informed.stepped (h : Informed body s) (hnumbered : Numbered s)
    (hs : (Inspection.inspection serde).Reachable s.stores) {j cursor k : Nat} {r : Run}
    {raw : BodyPage} (hr : s.runs[j]? = some r) (hpoint : r.point = .scanning raw cursor k)
    {entry : Nat} {query : Inspection.Query} {result : SearchStep} {permit : Bool}
    (hc : s.stores.calls[k]? =
      some ⟨entry, query, .returned (.ok (.step result)), permit⟩) :
    Informed body (s.stepped j r raw result) := by
  have hmem := List.mem_of_getElem? hr
  have hknows := h.knows r hmem
  rw [hpoint] at hknows
  obtain ⟨hnarrowed, c, hc', hentry, hquery⟩ := hknows
  cases hc.symm.trans hc'
  obtain rfl : body = entry := hentry.symm
  obtain rfl : query = .search r.needle cursor raw.total := hquery
  have hok := stepOk_of_call hs hc
  have hover : Informed body (s.moveTo j r .over) := h.moveTo trivial
  unfold State.stepped
  split
  next hcurrent =>
    obtain ⟨-, hneedle, hstart⟩ := hnumbered.live r hmem ⟨hcurrent, by simp [hpoint]⟩
    split
    next f hfound =>
      -- the match is one of the range the run was started for
      have hmatch := (hnarrowed.same f).mpr (hok.found f hfound).1
      refine ⟨hover.knows, fun g hg => ?_, fun g state hm => ?_, fun _ _ _ hm => (by cases hm)⟩
      · cases hg
        refine ⟨raw.total, hnarrowed.published, ?_⟩
        show MatchIn (recorded s.stores body) s.needle 0 raw.total f
        rw [← hneedle]
        exact ⟨Nat.zero_le _, hmatch.2⟩
      · cases hm
        rfl
    next hnone =>
      split
      next hdone =>
        refine ⟨hover.knows, h.found, fun _ _ hm => (by cases hm), fun start total state hm => ?_⟩
        cases hm
        refine ⟨hnarrowed.published, hstart, fun g hmatch => ?_⟩
        have hmatch : MatchIn (recorded s.stores body) s.needle r.start raw.total g := hmatch
        rw [← hneedle] at hmatch
        exact hok.missed hnone hdone g ((hnarrowed.same g).mp hmatch)
      next hmore =>
        have hnext : Informed body (s.moveTo j r (.searching raw result.nextOffset)) :=
          h.moveTo ⟨hnarrowed.published, fun g => (hnarrowed.same g).trans
            (hok.resumes hnone (by simpa using hmore) g)⟩
        exact hnext.says rfl rfl rfl rfl (by simp) (by simp)
  next => exact hover

/-- What is asked of the store becomes a call. -/
theorem query_step {q : Bodies.Reader} {t : Inspection.State}
    (hq : s.stores.bodies.query side id (.page 0 1) = .ok q)
    (ht : Inspection.step serde s.stores (.bodies (.query side id (.page 0 1))) = some t) :
    find s.stores.bodies.budget.entries side id = some q.entry ∧
      t.bodies.readers[s.stores.bodies.readers.length]? = some q := by
  obtain ⟨i, hi, rfl, -⟩ := Bodies.query_eq_ok hq
  refine ⟨hi, ?_⟩
  have ht : (Bodies.step serde s.stores.bodies (.query side id (.page 0 1))).map
      (fun b => { s.stores with bodies := b }) = some t := ht
  simp only [Bodies.step, hq, Option.map_some] at ht
  obtain rfl := Option.some.inj ht
  exact List.getElem?_concat_length ..

theorem ask_step {needle : List UInt8} {cursor end_ : Nat} {c : Inspection.Call}
    {t : Inspection.State} (hc : s.stores.ask side id (.search needle cursor end_) = .ok c)
    (ht : Inspection.step serde s.stores (.call side id (.search needle cursor end_)) = some t) :
    find s.stores.bodies.budget.entries side id = some c.entry ∧
      c.query = .search needle cursor end_ ∧ t.calls[s.stores.calls.length]? = some c := by
  have hcalls : t.calls = s.stores.calls ++ [c] := by
    simp only [Inspection.step, hc] at ht
    split at ht
    next =>
      obtain ⟨b, -, rfl⟩ := Option.map_eq_some_iff.mp ht
      rfl
    next =>
      cases ht
      rfl
  rw [hcalls]
  unfold Inspection.State.ask at hc
  simp only at hc
  split at hc
  next => cases hc
  next =>
    split at hc
    next => cases hc
    next i hi =>
      split at hc
      next => cases hc
      next =>
        cases hc
        exact ⟨hi, rfl, List.getElem?_concat_length ..⟩

theorem Informed.step (h : Informed body s) (hnumbered : Numbered s)
    (hs : (Inspection.inspection serde).Reachable s.stores) {e : Event}
    (hbody : OneBody side id body s e) (hstep : Steps serde side id s e s') :
    Informed body s' := by
  cases hstep with
  | stores ht =>
      have hon := onwards_of_step hs ht
      exact h.onwards hs hon (fun r hr => (h.knows r hr).onwards hs hon) rfl rfl rfl
  | change =>
      exact ⟨h.knows, fun _ hf => (by cases hf), fun _ _ hm => (by cases hm),
        fun _ _ _ hm => (by cases hm)⟩
  | search =>
      refine ⟨fun r hr => ?_, h.found, fun _ _ hm => (by cases hm), fun _ _ _ hm => (by cases hm)⟩
      rcases List.mem_append.mp hr with hold | hnew
      · exact h.knows r hold
      · obtain rfl := List.mem_singleton.mp hnew
        trivial
  | cancel => exact h.says rfl rfl rfl rfl (by simp) (by simp)
  | show_ => exact ⟨h.knows, h.found, h.shown, h.noMatch⟩
  | unmount => exact ⟨h.knows, h.found, h.shown, h.noMatch⟩
  | page hr _ hq ht =>
      have hon := onwards_of_step hs ht
      obtain ⟨hfind, hreader⟩ := query_step hq ht
      refine h.onwards hs hon (fun q hq' => ?_) rfl rfl rfl
      rcases mem_of_set rfl hq' with rfl | ⟨i, -, hold⟩
      · exact ⟨_, hreader, hbody _ hfind⟩
      · exact (h.knows q (List.mem_of_getElem? hold)).onwards hs hon
  | call hr hpoint hc ht =>
      have hon := onwards_of_step hs ht
      obtain ⟨hfind, hquery, hcall⟩ := ask_step hc ht
      refine h.onwards hs hon (fun q hq' => ?_) rfl rfl rfl
      rcases mem_of_set rfl hq' with rfl | ⟨i, -, hold⟩
      · have hknows := h.knows _ (List.mem_of_getElem? hr)
        rw [hpoint] at hknows
        exact ⟨hknows.onwards hs hon, _, hcall, hbody _ hfind, hquery⟩
      · exact (h.knows q (List.mem_of_getElem? hold)).onwards hs hon
  | fail => exact h.fail _ _ _
  | paged hr hpoint hq => exact h.paged hs hr hpoint hq
  | stepped hr hpoint hc => exact h.stepped hnumbered hs hr hpoint hc

theorem informed_of_reach {body : Nat} {s : State}
    (h : (searchBox serde side id).Reach (OneBody side id body) s) : Informed body s := by
  refine h.invariant_along ⟨fun r hr => ?_, fun _ hf => ?_, fun _ _ hm => ?_, fun _ _ _ hm => ?_⟩
    fun hs ih hbody hstep => ih.step (numbered_of_reachable hs.reachable) (stores_of_reach hs)
      hbody (step_steps hstep)
  · cases hr
  · cases hf
  · cases hm
  · cases hm

end Informed

/-! ## What is shown -/

/-- **What the box of a body shows**, and what can come of it. -/
structure Truthful (serde : IgnoredAny) (side : Side) (id body : Nat) (s : State) : Prop where
  /-- It says that it is searching exactly while some search will still show something, -/
  busy : s.mounted = true → (s.searching = true ↔ ∃ r ∈ s.runs, s.Live r)
  /-- and there is one such search. -/
  single : ∀ (j j' : Nat) (r r' : Run), s.runs[j]? = some r → s.runs[j']? = some r' →
    s.Live r → s.Live r' → j = j'
  /-- Where a match is marked, the text in the input stands in the recorded bytes. -/
  found : ∀ f, s.found = some f →
    MatchIn (recorded s.stores body) s.needle 0 (recorded s.stores body).length f
  shown : ∀ f state, s.searchMessage = .match_ f state → s.found = some f
  /-- "No further match" tells of the range behind the marked match. -/
  noMatch : ∀ start total state, s.searchMessage = .noMatch start total state →
    total ≤ (recorded s.stores body).length ∧
    (start = 0 ∨ ∃ f, s.found = some f ∧ start = f + 1) ∧
    ∀ g, ¬ MatchIn (recorded s.stores body) s.needle start total g
  /-- A search that ends with a match has skipped none, from the start or from the marked one. -/
  next : ∀ j s' f state, step serde side id s (.resume j) = some s' → s.searching = true →
    s'.searching = false → s'.searchMessage = .match_ f state → s'.view = ⟨f, false, false⟩ ∧
      ((∀ g, g < f → ¬ Kmp.Occurs s.needle (recorded s.stores body) g) ∨
        ∃ f₀, s.found = some f₀ ∧ f₀ < f ∧
          ∀ g, f₀ < g → g < f → ¬ Kmp.Occurs s.needle (recorded s.stores body) g)
  /-- A search that has been cancelled or replaced shows nothing more. -/
  stale : ∀ (j : Nat) (r : Run) (s' : State), s.runs[j]? = some r → ¬ s.Current r →
    step serde side id s (.resume j) = some s' → s' = s.moveTo j r .over
  /-- The store is asked for ranges that begin further on each time. -/
  onwards : ∀ (j : Nat) (r r' : Run) (raw : BodyPage) (cursor k : Nat) (s' : State),
    s.runs[j]? = some r → r.point = .scanning raw cursor k →
    step serde side id s (.resume j) = some s' → s'.runs[j]? = some r' →
    r'.point = .over ∨ ∃ cursor', r'.point = .searching raw cursor' ∧ cursor < cursor' ∧
      cursor' ≤ raw.total

/-- A run that goes on without being current ends. -/
theorem stale_resume {s s' : State} {j : Nat} {r : Run} (hr : s.runs[j]? = some r)
    (hstale : ¬ s.Current r) (h : step serde side id s (.resume j) = some s') :
    s' = s.moveTo j r .over := by
  cases step_steps h with
  | search he =>
      rcases he with he | he
      · cases he
      · cases he
  | fail he hr' =>
      rcases he with he | he
      · cases he
        cases hr.symm.trans hr'
        exact if_neg hstale
      · cases he
  | paged hr' =>
      cases hr.symm.trans hr'
      unfold State.paged
      rw [if_neg hstale]
  | stepped hr' =>
      cases hr.symm.trans hr'
      exact if_neg hstale

/-- A search that ends with a match has been answered with it. -/
theorem resume_match {s s' : State} {j f : Nat} {state : Budget.RecordState}
    (h : step serde side id s (.resume j) = some s') (hsearching : s.searching = true)
    (hidle : s'.searching = false) (hm : s'.searchMessage = .match_ f state) :
    ∃ r raw cursor k entry query result permit, s.runs[j]? = some r ∧
      r.point = .scanning raw cursor k ∧ s.stores.calls[k]? =
        some ⟨entry, query, .returned (.ok (.step result)), permit⟩ ∧
      s.Current r ∧ result.found = some f ∧ s'.view = ⟨f, false, false⟩ := by
  have hgone (hsame : s'.searching = s.searching) : False := by
    rw [hsame, hsearching] at hidle
    cases hidle
  cases step_steps h with
  | search he =>
      rcases he with he | he
      · cases he
      · cases he
  | @fail _ _ r message he =>
      unfold State.fail at hm hgone
      by_cases hcurrent : s.Current r
      · rw [if_pos hcurrent] at hm
        cases hm
      · rw [if_neg hcurrent] at hgone
        exact (hgone rfl).elim
  | paged => exact (hgone rfl).elim
  | @stepped _ r raw cursor k entry query result permit hr hpoint hc =>
      unfold State.stepped at hm hgone ⊢
      by_cases hcurrent : s.Current r
      · rw [if_pos hcurrent] at hm hgone ⊢
        cases hfound : result.found with
        | some found =>
            rw [hfound] at hm
            cases hm
            exact ⟨r, raw, cursor, k, entry, query, result, permit, hr, hpoint, hc, hcurrent,
              hfound, rfl⟩
        | none =>
            rw [hfound] at hm
            by_cases hdone : result.done = true
            · simp only [hdone, if_pos] at hm
              cases hm
            · simp only [hdone] at hm
              cases hm
      · rw [if_neg hcurrent] at hgone
        exact (hgone rfl).elim

/-- A search that goes on asks for the rest of its range. -/
theorem resume_point {s s' : State} {j cursor k : Nat} {r r' : Run} {raw : BodyPage}
    (hr : s.runs[j]? = some r) (hpoint : r.point = .scanning raw cursor k)
    (h : step serde side id s (.resume j) = some s') (hr' : s'.runs[j]? = some r') :
    r'.point = .over ∨ ∃ entry query result permit, s.stores.calls[k]? =
        some ⟨entry, query, .returned (.ok (.step result)), permit⟩ ∧ result.found = none ∧
      result.done = false ∧ r'.point = .searching raw result.nextOffset := by
  have hlt := (List.getElem?_eq_some_iff.mp hr).1
  have hat {point : Point} (hruns : s'.runs = s.runs.set j { r with point := point }) :
      r'.point = point := by
    rw [hruns, List.getElem?_set_self hlt] at hr'
    cases hr'
    rfl
  cases step_steps h with
  | search he =>
      rcases he with he | he
      · cases he
      · cases he
  | fail he hr₁ =>
      rcases he with he | he
      · cases he
        cases hr.symm.trans hr₁
        refine .inl (hat ?_)
        unfold State.fail
        split <;> rfl
      · cases he
  | paged hr₁ hpoint₁ =>
      cases hr.symm.trans hr₁
      rw [hpoint] at hpoint₁
      cases hpoint₁
  | @stepped _ _ _ _ _ entry query result permit hr₁ hpoint₁ hc =>
      cases hr.symm.trans hr₁
      cases hpoint.symm.trans hpoint₁
      by_cases hcurrent : s.Current r
      · cases hfound : result.found with
        | some found =>
            refine .inl (hat ?_)
            unfold State.stepped
            rw [if_pos hcurrent, hfound]
            rfl
        | none =>
            cases hdone : result.done with
            | true =>
                refine .inl (hat ?_)
                unfold State.stepped
                rw [if_pos hcurrent, hfound, hdone]
                rfl
            | false =>
                refine .inr ⟨entry, query, result, permit, hc, hfound, hdone, hat ?_⟩
                unfold State.stepped
                rw [if_pos hcurrent, hfound, hdone]
                rfl
      · refine .inl (hat ?_)
        unfold State.stepped
        rw [if_neg hcurrent]
        rfl

/-- **A search box marks matches of the text that is in it, skips none and says truly that there is
none**, however its searches, what cancels them and the recording interleave. -/
theorem search_box_tells_the_truth {body : Nat} {s : State}
    (h : (searchBox serde side id).Reach (OneBody side id body) s) :
    Truthful serde side id body s := by
  have hnumbered := numbered_of_reachable h.reachable
  have hinformed := informed_of_reach h
  have hs := stores_of_reach h
  -- what a run that has been answered knows of its answer
  have hanswer {j cursor k entry : Nat} {r : Run} {raw : BodyPage} {query : Inspection.Query}
      {result : SearchStep} {permit : Bool} (hr : s.runs[j]? = some r)
      (hpoint : r.point = .scanning raw cursor k) (hc : s.stores.calls[k]? =
        some ⟨entry, query, .returned (.ok (.step result)), permit⟩) :
      Narrowed s.stores body r.needle r.start raw cursor ∧
        StepOk (recorded s.stores body) r.needle cursor raw.total result := by
    have hknows := hinformed.knows r (List.mem_of_getElem? hr)
    rw [hpoint] at hknows
    obtain ⟨hnarrowed, c, hc', hentry, hquery⟩ := hknows
    cases hc.symm.trans hc'
    obtain rfl : body = entry := hentry.symm
    obtain rfl : query = .search r.needle cursor raw.total := hquery
    exact ⟨hnarrowed, stepOk_of_call hs hc⟩
  refine ⟨fun hm => ⟨hnumbered.busy hm, fun hlive => ?_⟩, fun j j' r r' hr hr' hlive hlive' => ?_,
    fun f hf => ?_, hinformed.shown, fun start total state hm => ?_,
    fun j s' f state hstep hsearching hidle hm => ?_,
    fun j r s' hr hstale hstep => stale_resume hr hstale hstep,
    fun j r r' raw cursor k s' hr hpoint hstep hr' => ?_⟩
  · obtain ⟨r, hr, hlive⟩ := hlive
    exact (hnumbered.live r hr hlive).1
  · exact hnumbered.single hr hr' hlive.1 hlive'.1
  · obtain ⟨total, hpublished, hmatch⟩ := hinformed.found f hf
    exact hmatch.mono (hpublished.le hs)
  · obtain ⟨hpublished, hstart, hnone⟩ := hinformed.noMatch start total state hm
    exact ⟨hpublished.le hs, hstart, hnone⟩
  · obtain ⟨r, raw, cursor, k, entry, query, result, permit, hr, hpoint, hc, hcurrent, hfound,
      hview⟩ := resume_match hstep hsearching hidle hm
    obtain ⟨hnarrowed, hok⟩ := hanswer hr hpoint hc
    obtain ⟨-, hneedle, hstart⟩ :=
      hnumbered.live r (List.mem_of_getElem? hr) ⟨hcurrent, by simp [hpoint]⟩
    have hleast := hok.found f hfound
    have hmatch : MatchIn _ r.needle r.start raw.total f := (hnarrowed.same f).mpr hleast.1
    -- an earlier one behind the start of the search is in its range
    have hnone {g : Nat} (hg : r.start ≤ g) (hlt : g < f) :
        ¬ Kmp.Occurs s.needle (recorded s.stores body) g := by
      intro hocc
      have hin : MatchIn (recorded s.stores body) r.needle r.start raw.total g := by
        have hend := hmatch.2.1
        exact ⟨hg, by omega, hneedle ▸ hocc⟩
      have hle := hleast.2 ((hnarrowed.same g).mp hin)
      omega
    refine ⟨hview, ?_⟩
    rcases hstart with hstart | ⟨f₀, hf₀, hstart⟩
    · exact .inl fun g hlt => hnone (by omega) hlt
    · have hle := hmatch.1
      exact .inr ⟨f₀, hf₀, by omega, fun g hg hlt => hnone (by omega) hlt⟩
  · rcases resume_point hr hpoint hstep hr' with hover | ⟨entry, query, result, permit, hc, hnone,
      hmore, hnext⟩
    · exact .inl hover
    · obtain ⟨hlt, hle⟩ := (hanswer hr hpoint hc).2.advances hnone hmore
      exact .inr ⟨_, hnext, hlt, hle⟩

/-- Steps of the stores alone. -/
def meanwhile (es : List Bodies.Event) : List Event := es.map fun e => .stores (.bodies e)

/-- Reader `i` reads a page of one byte. -/
def pageRead (i : Nat) : List Bodies.Event :=
  [.read i .go, .read i .go, .read i .go, .read i (.bytes 1), .read i .go]

/-- Search `j` is made by one step of the store. -/
def searched (j : Nat) : List Event :=
  [.resume j, .invoke j, .stores (.turn j .go), .stores (.turn j .go), .stores (.turn j .go),
    .resume j]

/-- Three bytes are recorded, the box finds the last of them, a fourth byte is recorded, and the
box finds that as well. -/
def boxFinds : List Event :=
  List.flatten [meanwhile [.record .response 1 100], meanwhile (Bodies.chunkWritten [1, 2, 3]),
    [.change [3], .find, .invoke 0], meanwhile (pageRead 0), searched 0,
    meanwhile (Bodies.chunkWritten [3]),
    [.findNext, .invoke 1], meanwhile (pageRead 1), searched 1]

theorem box_finds_both :
    ∃ s, s.found = some 3 ∧ s.searchMessage = .match_ 3 .recording ∧
      Truthful Bodies.emptyArray .response 1 0 s := by
  obtain ⟨s, hs⟩ := Option.isSome_iff_exists.mp (by decide +kernel :
    ((searchBox Bodies.emptyArray .response 1).run boxFinds).isSome = true)
  have hmeets : (searchBox Bodies.emptyArray .response 1).Meets (OneBody .response 1 0)
      start boxFinds := by
    decide +kernel
  have hshown : ((searchBox Bodies.emptyArray .response 1).run boxFinds).map
      (fun s => (s.found, s.searchMessage)) = some (some 3, .match_ 3 .recording) := by
    decide +kernel
  rw [hs] at hshown
  obtain ⟨hfound, hmessage⟩ := Prod.mk.inj (Option.some.inj hshown)
  exact ⟨s, hfound, hmessage,
    search_box_tells_the_truth (Machine.reach_of_run _ hmeets hs)⟩

end SippinSoda.SearchBox
