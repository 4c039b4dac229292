import SippinSoda.BudgetLeak
import SippinSoda.Lib.Owner

/-!
# Who works on a body

A body is recorded by one worker and laid out by one job at a time. While neither has failed,
what its entry has reserved is exactly what it keeps and what the two still have to account for.

* `Staffed` — the invariant of the threads: one recorder for each entry, and a layout job where
  `JsonStatus` says "building", and only there;
* `Funded` — the invariant of the accounts.
-/

namespace SippinSoda.Budget

open Ledger

/-! ## What a step does, event by event -/

/-- What an event that touches one entry makes of it, and the thread it starts. -/
inductive Touched (i : Nat) (e : Entry) : Event → Entry → Option Thread → Prop
  | recancel : e.cancelled = true → e.alive = true →
      Touched i e (.recancel i) e (some (.cancel i .waiting))
  | tapDrop : e.lock = none → Touched i e (.tapDrop i) (e.finish (.partially .interrupted)) none
  | startLayout : e.alive = true → e.result = .complete → e.json ≠ .building → e.json ≠ .ready →
      Touched i e (.startLayout i) { e with json := .building, token := false }
        (some (.layout i (.writing 0 false)))
  | cancelLayout : Touched i e (.cancelLayout i) { e with token := true } none
  | remove : e.inStore = true →
      Touched i e (.remove i) { e with inStore := false } (some (.cancel i .waiting))

/-- The states a step leads to, with what the event is. -/
inductive Moves (s : State) : Event → State → Prop
  | call (op : StoreOp) : Moves s (.call op) (s.spawn (.store { op with awaited := true } .queued))
  | store {event k op op' pc pc' used lost ops} :
      (∃ ok, event = .closure k ok) ∨ event = .dropFuture k →
      s.threads[k]? = some (.store op pc) → op'.length = op.length →
      (pc' ≠ .ended → pc ≠ .ended) → Moves s event { s with
        used := used, threads := s.threads.set k (.store op' pc'), lost := lost, ops := ops }
  | insert {k op} : s.threads[k]? = some (.store op .stored) → Moves s (.insert k) { s with
      entries := (insertEntry s.entries op.newEntry).1
      threads := s.threads.set k (.store op .ended) ++
        ((insertEntry s.entries op.newEntry).2.map fun i => .cancel i .waiting).toList }
  | record (side id limit) : Moves s (.record side id limit) { s with
      entries := (insertEntry s.entries (recordEntry side id limit)).1
      threads := s.threads ++ [.worker s.entries.length .head] }
  | act {k answer t i e l} : s.threads[k]? = some t → t.entry? = some i →
      s.entries[i]? = some e → t.stepOn k s.used e answer = some l →
      Moves s (.step k answer) { s with
        used := l.used
        entries := s.entries.set i l.entry
        threads := s.threads.set k l.pc
        ops := l.ops ++ s.ops }
  | touch {event i e e' t?} : s.entries[i]? = some e → Touched i e event e' t? →
      Moves s event { s with
        entries := s.entries.set i e', threads := s.threads ++ Option.toList t? }
  | drop {i e} : s.entries[i]? = some e → e.inStore = false → e.alive = true →
      (∀ t ∈ s.threads, t.entry? ≠ some i) → Moves s (.drop i) { s with
        used := wrappingSub s.used e.reserved
        entries := s.entries.set i { e with alive := false, reserved := 0 }
        ops := .sub s.used e.reserved :: s.ops }

theorem set_self {α : Type} {l : List α} {i : Nat} {a : α} (h : l[i]? = some a) :
    l.set i a = l := by
  obtain ⟨hlt, hget⟩ := List.getElem?_eq_some_iff.mp h
  rw [← hget, List.set_getElem_self]

theorem StoreMove.unfinished {s : State} {op : StoreOp} {pc pc' : StorePc} {used lost : Nat}
    {ops : List Op} (h : StoreMove s op pc pc' used lost ops) : pc ≠ .ended := by
  cases h with
  | quiet h => rcases h with ⟨rfl, -⟩ | ⟨rfl, -⟩ | ⟨rfl, -⟩ <;> exact fun h => by cases h
  | _ => exact fun h => by cases h

theorem step_moves {s s' : State} {event : Event} (h : step s event = some s') :
    Moves s event s' := by
  cases event with
  | call op => cases h; exact .call op
  | record side id limit => cases h; exact .record side id limit
  | closure k ok =>
      simp only [step] at h
      split at h
      · obtain ⟨pc', used, lost, ops, hmove, rfl, -⟩ := closureStep_spec h
        exact .store (.inl ⟨ok, rfl⟩) ‹_› rfl fun _ => hmove.unfinished
      · cases h
  | dropFuture k =>
      simp only [step] at h
      split at h
      · rename_i op pc hk
        cases h
        cases pc with
        | stored => exact .store (.inr rfl) hk rfl fun _ h => by cases h
        | _ => exact .store (.inr rfl) hk rfl id
      · cases h
  | insert k =>
      simp only [step] at h
      split at h
      · rename_i op hk
        have hcase := Moves.insert hk
        split at h <;> rename_i hprevious <;> cases h <;> rw [hprevious] at hcase
        · simpa using hcase
        · exact hcase
      · cases h
  | step k answer =>
      simp only [step] at h
      split at h <;> try cases h
      split at h <;> try cases h
      split at h <;> try cases h
      obtain ⟨l, hl, rfl⟩ := Option.map_eq_some_iff.mp h
      exact .act ‹_› ‹_› ‹_› hl
  | recancel i =>
      simp only [step] at h
      split at h
      · rename_i e he
        split at h
        · rename_i hcond
          cases h
          obtain ⟨hc, ha⟩ := (Bool.and_eq_true _ _).mp hcond
          have hcase := Moves.touch he (.recancel hc ha)
          rw [set_self he] at hcase
          exact hcase
        · cases h
      · cases h
  | tapDrop i =>
      simp only [step] at h
      split at h
      · rename_i e he
        split at h
        · cases h
        · rename_i hlock
          cases h
          have hcase := Moves.touch he (.tapDrop (Decidable.not_not.mp hlock))
          simpa using hcase
      · cases h
  | startLayout i =>
      simp only [step] at h
      split at h
      · rename_i e he
        split at h
        · rename_i hcond
          cases h
          simp only [Bool.and_eq_true, beq_iff_eq, bne_iff_ne] at hcond
          obtain ⟨⟨⟨ha, hresult⟩, hbuilding⟩, hready⟩ := hcond
          exact .touch he (.startLayout ha hresult hbuilding hready)
        · cases h
      · cases h
  | cancelLayout i =>
      simp only [step] at h
      split at h
      · rename_i e he
        cases h
        have hcase := Moves.touch he .cancelLayout
        simpa using hcase
      · cases h
  | remove i =>
      simp only [step] at h
      split at h
      · rename_i e he
        split at h
        · cases h
          exact .touch he (.remove ‹_›)
        · cases h
      · cases h
  | drop i =>
      simp only [step] at h
      split at h
      · rename_i e he
        split at h
        · rename_i hcond
          cases h
          simp only [Bool.and_eq_true, List.all_eq_true, bne_iff_ne, Bool.not_eq_true'] at hcond
          exact .drop he hcond.1.1 hcond.1.2 hcond.2
        · cases h
      · cases h

/-- The step of a thread on its entry, made explicit. -/
theorem act_of_step {s s' : State} {k i : Nat} {t : Thread} {a : Answer}
    (hk : s.threads[k]? = some t) (hi : t.entry? = some i) (h : step s (.step k a) = some s') :
    ∃ e l, s.entries[i]? = some e ∧ t.stepOn k s.used e a = some l ∧ s' = { s with
      used := l.used
      entries := s.entries.set i l.entry
      threads := s.threads.set k l.pc
      ops := l.ops ++ s.ops } := by
  cases step_moves h with
  | store hevent => rcases hevent with ⟨ok, h⟩ | h <;> cases h
  | act hk' hi' he hl =>
      cases hk.symm.trans hk'
      cases hi.symm.trans hi'
      exact ⟨_, _, he, hl, rfl⟩
  | touch he htouched => cases htouched

/-! ## Recorders and layout jobs -/

/-- The entry a worker records, also after its end. -/
def Thread.recorder? : Thread → Option Nat
  | .worker i _ => some i
  | _ => none

/-- The entry a layout job works on until it has published its outcome. -/
def Thread.layouter? : Thread → Option Nat
  | .layout i pc => if pc = .ended then none else some i
  | _ => none

theorem Thread.layouter?_eq_some {t : Thread} {i : Nat} :
    t.layouter? = some i ↔ ∃ pc, t = .layout i pc ∧ pc ≠ .ended := by
  constructor
  · intro h
    rcases t with ⟨op, pc⟩ | ⟨j, pc⟩ | ⟨j, pc⟩ | ⟨j, pc⟩
    · cases h
    · cases h
    · by_cases hpc : pc = .ended
      · simp [Thread.layouter?, hpc] at h
      · simp only [Thread.layouter?, if_neg hpc, Option.some.injEq] at h
        exact ⟨pc, by rw [h], hpc⟩
    · cases h
  · rintro ⟨pc, rfl, hpc⟩
    exact if_neg hpc

theorem Thread.recorder?_eq_some {t : Thread} {i : Nat} :
    t.recorder? = some i ↔ ∃ pc, t = .worker i pc := by
  constructor
  · intro h
    rcases t with ⟨op, pc⟩ | ⟨j, pc⟩ | ⟨j, pc⟩ | ⟨j, pc⟩ <;> cases h
    exact ⟨pc, rfl⟩
  · rintro ⟨pc, rfl⟩
    rfl

/-- What a layout job publishes. -/
def Entry.reported (e : Entry) : Option Nat → Entry
  | some total => { e with json := .ready, layout := total }
  | none => { e with json := .error }

/-- A layout job changes nothing but the lock and the reservation of its entry until it publishes
its outcome. -/
theorem layoutStep_entry {k used : Nat} {e : Entry} {pc : LayoutPc} {a : Answer}
    {l : Local LayoutPc} (h : layoutStep k used e pc a = some l) :
    (l.entry = { e with lock := l.entry.lock, reserved := l.entry.reserved } ∧
        pc ≠ .ended ∧ l.pc ≠ .ended) ∨
      ∃ outcome, pc = .reporting outcome ∧ l.pc = .ended ∧ l.entry = e.reported outcome := by
  cases pc with
  | writing r failed =>
      cases a with
      | bytes n =>
          simp only [layoutStep] at h
          split at h
          · cases h
          · split at h <;> cases h <;> exact .inl ⟨rfl, by simp, by simp⟩
      | ok => cases h; exact .inl ⟨rfl, by simp, by simp⟩
      | failure => cases h; exact .inl ⟨rfl, by simp, by simp⟩
      | _ => cases h
  | reserving r n failed =>
      cases a <;> simp only [layoutStep, reduceCtorEq] at h
      split at h <;> cases h <;> exact .inl ⟨rfl, by simp, by simp⟩
  | adding r n failed =>
      cases a <;> simp only [layoutStep, reduceCtorEq, Option.some.injEq] at h <;> subst h <;>
        exact .inl ⟨rfl, by simp, by simp⟩
  | dropping r keep =>
      cases a <;> simp only [layoutStep, reduceCtorEq] at h
      split at h
      · cases h
      · split at h
        · cases h; exact .inl ⟨rfl, by simp, by simp⟩
        · split at h <;> cases h <;> exact .inl ⟨rfl, by simp, by simp⟩
  | unreserving r =>
      cases a <;> simp only [layoutStep, reduceCtorEq, Option.some.injEq] at h
      -- the amount stays a variable, or the kernel would compute in the range of an `AtomicU64`
      obtain ⟨next, hentry⟩ : ∃ next, l.entry = { e with reserved := next } := ⟨_, by rw [← h]⟩
      have hpc : l.pc = .unbudgeting r := by rw [← h]
      rw [hentry, hpc]
      exact .inl ⟨rfl, by simp, by simp⟩
  | unbudgeting r =>
      cases a <;> simp only [layoutStep, reduceCtorEq, Option.some.injEq] at h
      obtain ⟨hentry, hpc⟩ : l.entry = { e with lock := none } ∧ l.pc = .reporting none := by
        rw [← h]
        exact ⟨rfl, rfl⟩
      rw [hentry, hpc]
      exact .inl ⟨rfl, by simp, by simp⟩
  | checking r =>
      cases a <;> simp only [layoutStep, reduceCtorEq] at h
      cases h
      refine .inl ⟨rfl, by simp, ?_⟩
      show (if _ then _ else _) ≠ _
      split <;> simp
  | givingBack r =>
      cases a <;> simp only [layoutStep, reduceCtorEq] at h
      split at h
      · cases h
      · split at h <;> cases h <;> exact .inl ⟨rfl, by simp, by simp⟩
  | reporting outcome =>
      cases outcome <;> cases a <;> cases h <;> exact .inr ⟨_, rfl, rfl, rfl⟩
  | ended => cases a <;> simp [layoutStep] at h

theorem layoutStep_spec {k used : Nat} {e : Entry} {pc : LayoutPc} {a : Answer}
    {l : Local LayoutPc} (h : layoutStep k used e pc a = some l) :
    l.entry.result = e.result ∧ pc ≠ .ended ∧
      (l.entry.json = e.json ∧ l.pc ≠ .ended ∨
        ∃ outcome, pc = .reporting outcome ∧ l.pc = .ended ∧ l.entry.json ≠ .building) := by
  rcases layoutStep_entry h with ⟨hentry, hpc, hpc'⟩ | ⟨outcome, rfl, hpc', hentry⟩
  · rw [hentry]
    exact ⟨rfl, hpc, .inl ⟨rfl, hpc'⟩⟩
  · rw [hentry]
    cases outcome <;> exact ⟨rfl, by simp, .inr ⟨_, rfl, hpc', by simp [Entry.reported]⟩⟩

theorem workerStep_spec {k used : Nat} {e : Entry} {pc : WorkerPc} {a : Answer}
    {l : Local WorkerPc} (h : workerStep k used e pc a = some l) :
    l.entry.json = e.json ∧ pc ≠ .ended ∧ (l.entry.result = e.result ∨ l.pc = .ended) ∧
      (l.entry.result = .complete → e.result = .complete ∨
        pc = .finishing .complete ∧ l.pc = .ended) := by
  cases pc with
  | head =>
      cases a <;> simp only [workerStep, reduceCtorEq] at h <;> cases h <;>
        exact ⟨rfl, by simp, .inl rfl, .inl⟩
  | reading => cases a <;> cases h <;> exact ⟨rfl, by simp, .inl rfl, .inl⟩
  | reserving n =>
      cases a <;> simp only [workerStep, reduceCtorEq] at h
      split at h
      · cases h
      · split at h <;> cases h <;> exact ⟨rfl, by simp, .inl rfl, .inl⟩
  | locked n =>
      cases a <;> simp only [workerStep, reduceCtorEq] at h
      split at h
      · cases h
        refine ⟨rfl, by simp, .inr rfl, fun hcomplete => ?_⟩
        cases hcomplete
      · cases h; exact ⟨rfl, by simp, .inl rfl, .inl⟩
  | adding n =>
      cases a <;> simp only [workerStep, reduceCtorEq, Option.some.injEq] at h
      subst h
      exact ⟨rfl, by simp, .inl rfl, .inl⟩
  | writing n =>
      cases a with
      | failure m =>
          simp only [workerStep] at h
          split at h
          · cases h; exact ⟨rfl, by simp, .inl rfl, .inl⟩
          · cases h
      | ok => cases h; exact ⟨rfl, by simp, .inl rfl, .inl⟩
      | aborted => cases h; exact ⟨rfl, by simp, .inl rfl, .inl⟩
      | _ => cases h
  | publishing n => cases a <;> cases h; exact ⟨rfl, by simp, .inl rfl, .inl⟩
  | finishing state =>
      cases a <;> simp only [workerStep, reduceCtorEq] at h
      split at h
      · cases h
      · cases h
        refine ⟨rfl, by simp, .inr rfl, fun hcomplete => ?_⟩
        have hfinish : e.result.finish state = .complete := hcomplete
        rw [RecordState.finish] at hfinish
        split at hfinish
        · exact .inr ⟨by rw [hfinish], rfl⟩
        · exact .inl hfinish
  | ended => cases a <;> simp [workerStep] at h

/-- A worker leaves the layout and the marks of its entry alone. -/
theorem workerStep_entry {k used : Nat} {e : Entry} {pc : WorkerPc} {a : Answer}
    {l : Local WorkerPc} (h : workerStep k used e pc a = some l) :
    l.entry = { e with
      reserved := l.entry.reserved
      written := l.entry.written
      total := l.entry.total
      result := l.entry.result
      lock := l.entry.lock } := by
  cases pc with
  | head =>
      cases a <;> simp only [workerStep, reduceCtorEq, Option.some.injEq] at h <;> subst h <;> rfl
  | reading =>
      cases a <;> simp only [workerStep, reduceCtorEq, Option.some.injEq] at h <;> subst h <;> rfl
  | reserving n =>
      cases a <;> simp only [workerStep, reduceCtorEq] at h
      split at h
      · cases h
      · split at h <;> cases h <;> rfl
  | locked n =>
      cases a <;> simp only [workerStep, reduceCtorEq] at h
      split at h <;> cases h <;> rfl
  | adding n =>
      cases a <;> simp only [workerStep, reduceCtorEq, Option.some.injEq] at h
      subst h
      rfl
  | writing n =>
      cases a with
      | failure m =>
          simp only [workerStep] at h
          split at h <;> cases h
          rfl
      | ok => cases h; rfl
      | aborted => cases h; rfl
      | _ => cases h
  | publishing n =>
      cases a <;> simp only [workerStep, reduceCtorEq, Option.some.injEq] at h
      subst h
      rfl
  | finishing state =>
      cases a <;> simp only [workerStep, reduceCtorEq] at h
      split at h <;> cases h
      rfl
  | ended => cases a <;> simp [workerStep] at h

/-- `Entry::cancel` changes the lock, the reservation and the mark. -/
theorem cancelStep_entry {k used : Nat} {e : Entry} {pc : CancelPc} {l : Local CancelPc}
    (h : cancelStep k used e pc = some l) :
    l.entry = { e with
      lock := l.entry.lock, reserved := l.entry.reserved, cancelled := l.entry.cancelled } := by
  cases pc with
  | waiting =>
      simp only [cancelStep] at h
      split at h <;> cases h
      rfl
  | swapping => cases h; rfl
  | subtracting v =>
      simp only [cancelStep, Option.some.injEq] at h
      have hentry : l.entry = { e with lock := none } := by rw [← h]
      rw [hentry]
  | ended => cases h

theorem cancelStep_spec {k used : Nat} {e : Entry} {pc : CancelPc} {l : Local CancelPc}
    (h : cancelStep k used e pc = some l) :
    l.entry.json = e.json ∧ l.entry.result = e.result := by
  rw [cancelStep_entry h]
  exact ⟨rfl, rfl⟩

/-- What a thread's step makes of the entry's result and of its JSON status. -/
inductive Duty (e : Entry) : Thread → Thread → Entry → Prop
  | worker {i pc pc' e'} : e'.json = e.json → pc ≠ .ended →
      (e'.result = e.result ∨ pc' = .ended) →
      (e'.result = .complete → e.result = .complete ∨ pc = .finishing .complete ∧ pc' = .ended) →
      Duty e (.worker i pc) (.worker i pc') e'
  | layout {i pc pc' e'} : e'.result = e.result → pc ≠ .ended →
      (e'.json = e.json ∧ pc' ≠ .ended ∨
        ∃ outcome, pc = .reporting outcome ∧ pc' = .ended ∧ e'.json ≠ .building) →
      Duty e (.layout i pc) (.layout i pc') e'
  | cancel {i pc pc' e'} : e'.json = e.json → e'.result = e.result →
      Duty e (.cancel i pc) (.cancel i pc') e'

theorem stepOn_duty {k used : Nat} {e : Entry} {t : Thread} {a : Answer} {l : Local Thread}
    (h : t.stepOn k used e a = some l) : Duty e t l.pc l.entry := by
  cases t with
  | store op pc => simp [Thread.stepOn] at h
  | worker i pc =>
      simp only [Thread.stepOn, Option.map_eq_some_iff] at h
      obtain ⟨l', hl', rfl⟩ := h
      obtain ⟨hjson, hpc, hresult, hcomplete⟩ := workerStep_spec hl'
      exact .worker hjson hpc hresult hcomplete
  | layout i pc =>
      simp only [Thread.stepOn, Option.map_eq_some_iff] at h
      obtain ⟨l', hl', rfl⟩ := h
      obtain ⟨hresult, hpc, hjson⟩ := layoutStep_spec hl'
      exact .layout hresult hpc hjson
  | cancel i pc =>
      cases a <;> simp only [Thread.stepOn, Option.map_eq_some_iff, reduceCtorEq] at h
      obtain ⟨l', hl', rfl⟩ := h
      obtain ⟨hjson, hresult⟩ := cancelStep_spec hl'
      exact .cancel hjson hresult

theorem RecordState.finish_complete {result : RecordState} :
    result.finish (.partially .interrupted) = .complete ↔ result = .complete := by
  cases result <;> simp [RecordState.finish]

/-- What a recorder or a layout job at work says about its entry. -/
structure Posted (t : Thread) (e : Entry) : Prop where
  layouter : ∀ i, t.layouter? = some i → e.json = .building ∧ e.result = .complete
  recorder : ∀ i, t.recorder? = some i → e.result = .complete → t.entry? = none

/-- **Who works on which entry.** -/
structure Staffed (entries : List Entry) (threads : List Thread) : Prop where
  recorders : SingleOwner Thread.recorder? threads
  layouters : SingleOwner Thread.layouter? threads
  posted : ∀ t ∈ threads, ∀ i, t.recorder? = some i ∨ t.layouter? = some i →
    ∃ e, entries[i]? = some e ∧ Posted t e
  building : ∀ (i : Nat) (e : Entry), entries[i]? = some e → e.json = .building →
    ∃ t ∈ threads, t.layouter? = some i

theorem staffed_nil : Staffed [] [] where
  recorders := .nil
  layouters := .nil
  posted t h := absurd h List.not_mem_nil
  building i e h := by simp at h

section Staffed

variable {entries : List Entry} {threads : List Thread} (h : Staffed entries threads)

include h

/-- A thread without a post moves. -/
theorem Staffed.setIdle {k : Nat} {t t' : Thread} (hk : threads[k]? = some t)
    (hlayouter : t.layouter? = none) (hrecorder' : t'.recorder? = none)
    (hlayouter' : t'.layouter? = none) : Staffed entries (threads.set k t') where
  recorders := h.recorders.set hk fun v hv => by simp [hrecorder'] at hv
  layouters := h.layouters.set hk fun v hv => by simp [hlayouter'] at hv
  posted u hu i hi := by
    rcases List.mem_or_eq_of_mem_set hu with hold | rfl
    · exact h.posted u hold i hi
    · rw [hrecorder', hlayouter'] at hi
      rcases hi with hi | hi <;> cases hi
  building i e he hjson := by
    obtain ⟨u, hu, hi⟩ := h.building i e he hjson
    refine ⟨u, mem_set_of_ne hu hk ?_ _, hi⟩
    rintro rfl
    rw [hlayouter] at hi
    cases hi

/-- A thread starts that neither records nor lays out. -/
theorem Staffed.spawn {t : Thread} (hrecorder : t.recorder? = none)
    (hlayouter : t.layouter? = none) : Staffed entries (threads ++ [t]) where
  recorders := h.recorders.append_one fun v hv => by simp [hrecorder] at hv
  layouters := h.layouters.append_one fun v hv => by simp [hlayouter] at hv
  posted u hu i hi := by
    rcases List.mem_append.mp hu with hold | hnew
    · exact h.posted u hold i hi
    · obtain rfl := List.mem_singleton.mp hnew
      rw [hrecorder, hlayouter] at hi
      rcases hi with hi | hi <;> cases hi
  building i e he hjson := by
    obtain ⟨u, hu, hi⟩ := h.building i e he hjson
    exact ⟨u, List.mem_append_left _ hu, hi⟩

/-- An entry changes, but neither its status nor whether it is complete. -/
theorem Staffed.setEntry {i : Nat} {e e' : Entry} (he : entries[i]? = some e)
    (hjson : e'.json = e.json) (hresult : e'.result = .complete ↔ e.result = .complete) :
    Staffed (entries.set i e') threads where
  recorders := h.recorders
  layouters := h.layouters
  posted t ht j hj := by
    obtain ⟨d, hd, hposted⟩ := h.posted t ht j hj
    by_cases hij : i = j
    · subst hij
      obtain rfl : e = d := Option.some.inj (he.symm.trans hd)
      refine ⟨e', List.getElem?_set_self (List.getElem?_eq_some_iff.mp he).1, ?_, ?_⟩
      · intro j hj
        rw [hjson, hresult]
        exact hposted.layouter j hj
      · intro j hj hcomplete
        exact hposted.recorder j hj (hresult.mp hcomplete)
    · exact ⟨d, by rw [List.getElem?_set_ne hij]; exact hd, hposted⟩
  building j d hd hbuilding := by
    rcases set_cases hd with ⟨rfl, rfl⟩ | ⟨_, hold⟩
    · exact h.building j e he (hjson ▸ hbuilding)
    · exact h.building j d hold hbuilding

/-- A new entry is not being laid out. -/
theorem Staffed.addEntry {e : Entry} (hjson : e.json ≠ .building) :
    Staffed (entries ++ [e]) threads where
  recorders := h.recorders
  layouters := h.layouters
  posted t ht i hi := by
    obtain ⟨d, hd, hposted⟩ := h.posted t ht i hi
    have hlt := (List.getElem?_eq_some_iff.mp hd).1
    exact ⟨d, by rw [List.getElem?_append_left hlt]; exact hd, hposted⟩
  building i d hd hbuilding := by
    rcases SingleOwner.getElem?_append_cases hd with ⟨rfl, rfl⟩ | hold
    · exact absurd hbuilding hjson
    · exact h.building i d hold hbuilding

theorem Staffed.insertEntry {e : Entry} (hjson : e.json ≠ .building) :
    Staffed (Budget.insertEntry entries e).1 threads := by
  unfold Budget.insertEntry
  cases find entries e.side e.id with
  | none => exact h.addEntry hjson
  | some i =>
      show Staffed (entries.modify i _ ++ [e]) threads
      rw [List.modify_eq_set_getElem?]
      cases hold : entries[i]? with
      | none => exact h.addEntry hjson
      | some old =>
          have hset : Staffed (entries.set i { old with inStore := false }) threads :=
            h.setEntry hold rfl Iff.rfl
          exact hset.addEntry hjson

/-- No thread has a post on an entry that is not there yet. -/
theorem Staffed.vacant {t : Thread} (ht : t ∈ threads) {n : Nat} (hn : entries.length ≤ n) :
    t.recorder? ≠ some n ∧ t.layouter? ≠ some n := by
  constructor <;>
  · intro hi
    obtain ⟨d, hd, -⟩ := h.posted t ht n (by simp [hi])
    rw [List.getElem?_eq_none hn] at hd
    cases hd

/-- Nor does a layout job work where there is none "building". -/
theorem Staffed.idle {t : Thread} (ht : t ∈ threads) {i : Nat} {e : Entry}
    (he : entries[i]? = some e) (hjson : e.json ≠ .building) : t.layouter? ≠ some i := by
  intro hi
  obtain ⟨d, hd, hposted⟩ := h.posted t ht i (.inr hi)
  obtain rfl : e = d := Option.some.inj (he.symm.trans hd)
  exact hjson (hposted.layouter i hi).1

/-- A layout job starts. -/
theorem Staffed.startLayout {i : Nat} {e : Entry} (he : entries[i]? = some e)
    (hresult : e.result = .complete) (hjson : e.json ≠ .building) :
    Staffed (entries.set i { e with json := .building, token := false })
      (threads ++ [.layout i (.writing 0 false)]) where
  recorders := h.recorders.append_one fun v hv => nomatch hv
  layouters := h.layouters.append_one fun v hv t ht => by
    obtain rfl : i = v := Option.some.inj hv
    exact h.idle ht he hjson
  posted t ht j hj := by
    have hlt := (List.getElem?_eq_some_iff.mp he).1
    rcases List.mem_append.mp ht with hold | hnew
    · obtain ⟨d, hd, hposted⟩ := h.posted t hold j hj
      by_cases hij : i = j
      · subst hij
        obtain rfl : e = d := Option.some.inj (he.symm.trans hd)
        exact ⟨_, List.getElem?_set_self hlt, fun j hj => ⟨rfl, hresult⟩, hposted.recorder⟩
      · exact ⟨d, by rw [List.getElem?_set_ne hij]; exact hd, hposted⟩
    · obtain rfl := List.mem_singleton.mp hnew
      obtain rfl : i = j := by
        rcases hj with hj | hj
        · cases hj
        · exact Option.some.inj hj
      exact ⟨_, List.getElem?_set_self hlt, fun j hj => ⟨rfl, hresult⟩, fun j hj => nomatch hj⟩
  building j d hd hbuilding := by
    rcases set_cases hd with ⟨rfl, rfl⟩ | ⟨_, hold⟩
    · exact ⟨_, List.mem_append_right _ (List.mem_singleton.mpr rfl), rfl⟩
    · obtain ⟨t, ht, hj⟩ := h.building j d hold hbuilding
      exact ⟨t, List.mem_append_left _ ht, hj⟩

/-- `record` starts the worker of the entry it makes. -/
theorem Staffed.record {e : Entry} (hjson : e.json ≠ .building) (hresult : e.result ≠ .complete) :
    Staffed (Budget.insertEntry entries e).1 (threads ++ [.worker entries.length .head]) := by
  have hinsert := h.insertEntry hjson
  refine ⟨h.recorders.append_one fun v hv t ht => ?_,
    h.layouters.append_one fun v hv => (nomatch hv), fun t ht i hi => ?_, fun i d hd hbuilding => ?_⟩
  · obtain rfl : entries.length = v := Option.some.inj hv
    exact (h.vacant ht (Nat.le_refl _)).1
  · rcases List.mem_append.mp ht with hold | hnew
    · exact hinsert.posted t hold i hi
    · obtain rfl := List.mem_singleton.mp hnew
      obtain rfl : entries.length = i := by
        rcases hi with hi | hi
        · exact Option.some.inj hi
        · cases hi
      exact ⟨e, insertEntry_spec.1, fun i hi => (nomatch hi),
        fun i hi hcomplete => absurd hcomplete hresult⟩
  · obtain ⟨t, ht, hi⟩ := hinsert.building i d hd hbuilding
    exact ⟨t, List.mem_append_left _ ht, hi⟩

/-- A recorder moves: nobody else has a post on its entry. -/
theorem Staffed.worker {k i : Nat} {pc pc' : WorkerPc} {e e' : Entry}
    (hk : threads[k]? = some (.worker i pc)) (he : entries[i]? = some e)
    (hjson : e'.json = e.json) (hpc : pc ≠ .ended)
    (hcomplete : e'.result = .complete → e.result = .complete ∨
      pc = .finishing .complete ∧ pc' = .ended) :
    Staffed (entries.set i e') (threads.set k (.worker i pc')) := by
  have hlt := (List.getElem?_eq_some_iff.mp he).1
  have hunfinished : e.result ≠ .complete := by
    intro hresult
    obtain ⟨d, hd, hposted⟩ := h.posted _ (List.mem_of_getElem? hk) i (.inl rfl)
    obtain rfl : e = d := Option.some.inj (he.symm.trans hd)
    have hended := hposted.recorder i rfl hresult
    simp [Thread.entry?, hpc] at hended
  refine ⟨h.recorders.set hk fun v hv => .inl hv, h.layouters.set hk fun v hv => (nomatch hv),
    fun t ht j hj => ?_, fun j d hd hbuilding => ?_⟩
  · obtain ⟨k', hk'⟩ := List.mem_iff_getElem?.mp ht
    rcases SingleOwner.getElem?_set_cases hk' with ⟨rfl, rfl⟩ | ⟨hne, hold⟩
    · obtain rfl : i = j := by
        rcases hj with hj | hj
        · exact Option.some.inj hj
        · cases hj
      refine ⟨e', List.getElem?_set_self hlt, fun j hj => (nomatch hj), fun j hj hresult => ?_⟩
      obtain ⟨-, rfl⟩ := (hcomplete hresult).resolve_left hunfinished
      rfl
    · obtain ⟨d, hd, hposted⟩ := h.posted t (List.mem_of_getElem? hold) j hj
      have hij : i ≠ j := by
        rintro rfl
        obtain rfl : e = d := Option.some.inj (he.symm.trans hd)
        rcases hj with hj | hj
        · exact hne (h.recorders hold hk hj rfl)
        · exact hunfinished (hposted.layouter i hj).2
      exact ⟨d, by rw [List.getElem?_set_ne hij]; exact hd, hposted⟩
  · have hkept : ∃ t ∈ threads, t.layouter? = some j := by
      rcases set_cases hd with ⟨rfl, rfl⟩ | ⟨_, hold⟩
      · exact h.building j e he (hjson ▸ hbuilding)
      · exact h.building j d hold hbuilding
    obtain ⟨t, ht, hj⟩ := hkept
    refine ⟨t, mem_set_of_ne ht hk ?_ _, hj⟩
    rintro rfl
    cases hj

/-- A layout job moves, and stays at work. -/
theorem Staffed.layout {k i : Nat} {pc pc' : LayoutPc} {e e' : Entry}
    (hk : threads[k]? = some (.layout i pc)) (he : entries[i]? = some e)
    (hjson : e'.json = e.json) (hresult : e'.result = e.result) (hpc : pc ≠ .ended)
    (hpc' : pc' ≠ .ended) : Staffed (entries.set i e') (threads.set k (.layout i pc')) := by
  have hset := h.setEntry he hjson (by rw [hresult])
  have hpost : (Thread.layout i pc).layouter? = some i := if_neg hpc
  have hpost' : (Thread.layout i pc').layouter? = some i := if_neg hpc'
  refine ⟨h.recorders.set hk fun v hv => (nomatch hv),
    h.layouters.set hk fun v hv => .inl (hpost.trans (hpost'.symm.trans hv)),
    fun t ht j hj => ?_, fun j d hd hbuilding => ?_⟩
  · rcases List.mem_or_eq_of_mem_set ht with hold | rfl
    · exact hset.posted t hold j hj
    · obtain rfl : i = j := by
        rcases hj with hj | hj
        · cases hj
        · exact Option.some.inj (hpost'.symm.trans hj)
      obtain ⟨d, hd, hposted⟩ := hset.posted _ (List.mem_of_getElem? hk) i (.inr hpost)
      exact ⟨d, hd, fun j _ => hposted.layouter i hpost, fun j hj => nomatch hj⟩
  · obtain ⟨t, ht, hj⟩ := hset.building j d hd hbuilding
    by_cases hsame : t = .layout i pc
    · subst hsame
      refine ⟨_, List.mem_of_getElem? (List.getElem?_set_self ?_),
        hpost'.trans (hpost.symm.trans hj)⟩
      exact (List.getElem?_eq_some_iff.mp hk).1
    · exact ⟨t, mem_set_of_ne ht hk hsame _, hj⟩

/-- A layout job publishes its outcome. -/
theorem Staffed.report {k i : Nat} {pc : LayoutPc} {e e' : Entry}
    (hk : threads[k]? = some (.layout i pc)) (he : entries[i]? = some e)
    (hjson : e'.json ≠ .building) (hresult : e'.result = e.result) (hpc : pc ≠ .ended) :
    Staffed (entries.set i e') (threads.set k (.layout i .ended)) := by
  have hlt := (List.getElem?_eq_some_iff.mp he).1
  have hpost : (Thread.layout i pc).layouter? = some i := if_neg hpc
  refine ⟨h.recorders.set hk fun v hv => (nomatch hv), h.layouters.set hk fun v hv => (nomatch hv),
    fun t ht j hj => ?_, fun j d hd hbuilding => ?_⟩
  · obtain ⟨k', hk'⟩ := List.mem_iff_getElem?.mp ht
    rcases SingleOwner.getElem?_set_cases hk' with ⟨rfl, rfl⟩ | ⟨hne, hold⟩
    · rcases hj with hj | hj <;> cases hj
    · obtain ⟨d, hd, hposted⟩ := h.posted t (List.mem_of_getElem? hold) j hj
      by_cases hij : i = j
      · subst hij
        obtain rfl : e = d := Option.some.inj (he.symm.trans hd)
        have hother : t.layouter? ≠ some i := fun hi => hne (h.layouters hold hk hi hpost)
        obtain ⟨pc', rfl⟩ := Thread.recorder?_eq_some.mp (hj.resolve_right hother)
        refine ⟨e', List.getElem?_set_self hlt, fun j hj => (nomatch hj), fun j hj hcomplete => ?_⟩
        exact hposted.recorder j hj (hresult ▸ hcomplete)
      · exact ⟨d, by rw [List.getElem?_set_ne hij]; exact hd, hposted⟩
  · rcases set_cases hd with ⟨rfl, rfl⟩ | ⟨hne, hold⟩
    · exact absurd hbuilding hjson
    · obtain ⟨t, ht, hj⟩ := h.building j d hold hbuilding
      refine ⟨t, mem_set_of_ne ht hk ?_ _, hj⟩
      rintro rfl
      exact hne (Option.some.inj (hj.symm.trans hpost))

end Staffed

/-- **Every step keeps the posts.** -/
theorem Staffed.step {s s' : State} {event : Event} (hs : Staffed s.entries s.threads)
    (h : Moves s event s') : Staffed s'.entries s'.threads := by
  cases h with
  | call op => exact hs.spawn rfl rfl
  | store _ hk _ _ => exact hs.setIdle hk rfl rfl rfl
  | insert hk =>
      rename_i k op
      have hjson : op.newEntry.json ≠ .building := by simp [StoreOp.newEntry]
      have hset : Staffed _ (s.threads.set k (.store op .ended)) :=
        (hs.insertEntry hjson).setIdle hk rfl rfl rfl
      cases (Budget.insertEntry s.entries op.newEntry).2 with
      | none => simpa using hset
      | some i => exact hset.spawn rfl rfl
  | record side id limit => exact hs.record (by simp [recordEntry]) (by simp [recordEntry])
  | act hk hi he hl =>
      rename_i k answer t i e l
      have hduty := stepOn_duty hl
      show Staffed (s.entries.set i l.entry) (s.threads.set k l.pc)
      generalize l.pc = t' at hduty ⊢
      generalize l.entry = e' at hduty ⊢
      cases hduty with
      | worker hjson hpc _ hcomplete =>
          obtain rfl : _ = i := by simpa [hpc] using hi
          exact hs.worker hk he hjson hpc hcomplete
      | layout hresult hpc hjson =>
          obtain rfl : _ = i := by simpa [hpc] using hi
          rcases hjson with ⟨hjson, hpc'⟩ | ⟨outcome, -, rfl, hjson⟩
          · exact hs.layout hk he hjson hresult hpc hpc'
          · exact hs.report hk he hjson hresult hpc
      | cancel hjson hresult =>
          exact (hs.setEntry he hjson (by rw [hresult])).setIdle hk rfl rfl rfl
  | touch he htouched =>
      cases htouched with
      | recancel =>
          rw [set_self he]
          exact hs.spawn rfl rfl
      | tapDrop =>
          have hset : Staffed (s.entries.set _ (Entry.finish _ (.partially .interrupted))) s.threads :=
            hs.setEntry he rfl RecordState.finish_complete
          simpa using hset
      | startLayout _ hresult hbuilding _ => exact hs.startLayout he hresult hbuilding
      | cancelLayout =>
          rename_i i e
          have hset : Staffed (s.entries.set i { e with token := true }) s.threads :=
            hs.setEntry he rfl Iff.rfl
          simpa using hset
      | remove =>
          rename_i i e _
          have hset : Staffed (s.entries.set i { e with inStore := false }) s.threads :=
            hs.setEntry he rfl Iff.rfl
          exact hset.spawn rfl rfl
  | drop he _ _ => exact hs.setEntry he rfl Iff.rfl

theorem staffed_of_reachable {s : State} (h : machine.Reachable s) :
    Staffed s.entries s.threads :=
  h.invariant (I := fun s => Staffed s.entries s.threads) staffed_nil
    fun hs _ hstep => hs.step (step_moves hstep)

/-! ## What is reserved for a body -/

/-- The steps of a recorder that has not failed. -/
def WorkerPc.sound : WorkerPc → Bool
  | .finishing state => state == .complete
  | .ended => false
  | _ => true

/-- The recording of entry `i` is complete, or nothing has failed in it so far. -/
def Intact (threads : List Thread) (i : Nat) (e : Entry) : Prop :=
  e.result = .complete ∨ ∃ pc, .worker i pc ∈ threads ∧ pc.sound = true

/-- The entry has reserved what it keeps and what the threads on it account for, or has been
emptied. -/
def Entry.Backed (e : Entry) (part : Nat) : Prop :=
  e.kept + part = e.reserved ∨ e.cancelled = true ∧ e.reserved = 0

/-- **What an intact recording has reserved, and what it has published.** -/
structure Funded (entries : List Entry) (threads : List Thread) : Prop where
  reserved : ∀ (i : Nat) (e : Entry), entries[i]? = some e → e.alive = true →
    Intact threads i e → e.Backed (total (Thread.partOn i) threads)
  written : ∀ (i : Nat) (e : Entry), entries[i]? = some e → Intact threads i e →
    e.written = e.total + total (Thread.unpublishedOn i) threads

theorem funded_nil : Funded [] [] where
  reserved i e h := by simp at h
  written i e h := by simp at h

/-- What a step of a thread moves between the parts of its entry. -/
structure Exchange (e : Entry) (t : Thread) (l : Local Thread) : Prop where
  /-- What is reserved moves with its purpose. The exceptions: the entry is emptied, or was. -/
  reserved : l.entry.kept + l.pc.part + e.reserved = e.kept + t.part + l.entry.reserved ∨
    l.entry.cancelled = true ∧ l.entry.reserved = 0 ∨ e.cancelled = true ∧ e.lock = none
  written : l.entry.written + e.total + t.unpublished =
    e.written + l.entry.total + l.pc.unpublished

theorem workerStep_exchange {k used i rest unpublished : Nat} {e : Entry} {pc : WorkerPc}
    {a : Answer} {l : Local WorkerPc} (h : workerStep k used e pc a = some l)
    (pre : LocalPre k used e (.worker i pc) rest unpublished)
    (hunfinished : e.result ≠ .complete)
    (hintact : l.pc.sound = true ∨ l.entry.result = .complete) :
    pc.sound = true ∧ Exchange e (.worker i pc) ⟨l.used, l.entry, .worker i l.pc, l.ops⟩ := by
  cases pc with
  | head =>
      cases a <;> simp only [workerStep, reduceCtorEq, Option.some.injEq] at h <;> subst h
      · exact ⟨rfl, .inl (by split <;> rfl), by split <;> rfl⟩
      · rcases hintact with hintact | hintact
        · cases hintact
        · exact absurd hintact hunfinished
  | reading =>
      cases a <;> simp only [workerStep, reduceCtorEq, Option.some.injEq] at h <;> subst h
      · exact ⟨rfl, .inl (by split <;> rfl), by split <;> rfl⟩
      · rcases hintact with hintact | hintact
        · cases hintact
        · exact absurd hintact hunfinished
      · rcases hintact with hintact | hintact
        · cases hintact
        · exact absurd hintact hunfinished
  | reserving n =>
      cases a <;> simp only [workerStep, reduceCtorEq] at h
      split at h
      · cases h
      · split at h <;> cases h <;> exact ⟨rfl, .inl rfl, rfl⟩
  | locked n =>
      cases a <;> simp only [workerStep, reduceCtorEq] at h
      split at h
      · cases h
        rcases hintact with hintact | hintact <;> cases hintact
      · cases h
        exact ⟨rfl, .inl rfl, rfl⟩
  | adding n =>
      cases a <;> simp only [workerStep, reduceCtorEq] at h
      have hfunded := pre.funded
      have hbounded := pre.bounded
      simp only [Thread.credit] at hfunded
      rw [wrappingAdd_of_lt (by omega)] at h
      cases h
      refine ⟨rfl, .inl ?_, rfl⟩
      simp only [Entry.kept, Thread.part]
      omega
  | writing n =>
      cases a with
      | ok =>
          cases h
          refine ⟨rfl, .inl ?_, ?_⟩
          · simp only [Entry.kept, Thread.part]
            omega
          · simp only [Thread.unpublished]
            omega
      | failure m =>
          simp only [workerStep] at h
          split at h
          · cases h
            rcases hintact with hintact | hintact
            · cases hintact
            · exact absurd hintact hunfinished
          · cases h
      | aborted =>
          cases h
          rcases hintact with hintact | hintact
          · cases hintact
          · exact absurd hintact hunfinished
      | _ => cases h
  | publishing n =>
      cases a <;> simp only [workerStep, reduceCtorEq, Option.some.injEq] at h
      subst h
      refine ⟨rfl, .inl rfl, ?_⟩
      simp only [Thread.unpublished]
      omega
  | finishing state =>
      cases a <;> simp only [workerStep, reduceCtorEq] at h
      split at h
      · cases h
      · cases h
        have hcomplete : e.result.finish state = .complete := by
          rcases hintact with hintact | hintact
          · cases hintact
          · exact hintact
        rw [RecordState.finish] at hcomplete
        split at hcomplete
        · exact ⟨by rw [hcomplete]; rfl, .inl rfl, rfl⟩
        · exact absurd hcomplete hunfinished
  | ended => cases a <;> simp [workerStep] at h

theorem layoutStep_exchange {k used i rest unpublished : Nat} {e : Entry} {pc : LayoutPc}
    {a : Answer} {l : Local LayoutPc} (h : layoutStep k used e pc a = some l)
    (pre : LocalPre k used e (.layout i pc) rest unpublished) (hjson : e.json = .building) :
    Exchange e (.layout i pc) ⟨l.used, l.entry, .layout i l.pc, l.ops⟩ := by
  cases pc with
  | writing r failed =>
      cases a with
      | bytes n =>
          simp only [layoutStep] at h
          split at h
          · cases h
          · split at h <;> cases h <;> exact ⟨.inl rfl, rfl⟩
      | ok => cases h; exact ⟨.inl rfl, rfl⟩
      | failure => cases h; exact ⟨.inl rfl, rfl⟩
      | _ => cases h
  | reserving r n failed =>
      cases a <;> simp only [layoutStep, reduceCtorEq] at h
      split at h <;> cases h <;> exact ⟨.inl rfl, rfl⟩
  | adding r n failed =>
      have hfunded := pre.funded
      have hbounded := pre.bounded
      simp only [Thread.credit] at hfunded
      have hadd := wrappingAdd_of_lt (a := e.reserved) (b := n) (by omega)
      cases a <;> simp only [layoutStep, hadd, reduceCtorEq] at h <;> cases h <;>
        refine ⟨.inl ?_, rfl⟩ <;> simp only [Entry.kept, Thread.part] <;> omega
  | dropping r keep =>
      cases a <;> simp only [layoutStep, reduceCtorEq] at h
      split at h
      · cases h
      · rename_i hlock
        split at h
        · cases h; exact ⟨.inl rfl, rfl⟩
        · split at h
          · cases h; exact ⟨.inr (.inr ⟨‹_›, Decidable.not_not.mp hlock⟩), rfl⟩
          · cases h; exact ⟨.inl rfl, rfl⟩
  | unreserving r =>
      cases a <;> simp only [layoutStep, reduceCtorEq] at h
      have hsum := pre.covered (pre.live rfl)
      have hfunded := pre.funded
      have hbounded := pre.bounded
      simp only [Thread.part] at hsum
      rw [wrappingSub_of_le (by omega) (by omega)] at h
      cases h
      refine ⟨.inl ?_, rfl⟩
      simp only [Entry.kept, Thread.part] at hsum ⊢
      omega
  | unbudgeting r =>
      cases a <;> simp only [layoutStep, reduceCtorEq, Option.some.injEq] at h
      subst h
      exact ⟨.inl rfl, rfl⟩
  | checking r =>
      cases a <;> simp only [layoutStep, reduceCtorEq, Option.some.injEq] at h
      subst h
      exact ⟨.inl (by split <;> rfl), by split <;> rfl⟩
  | givingBack r =>
      cases a <;> simp only [layoutStep, reduceCtorEq] at h
      split at h
      · cases h
      · rename_i hlock
        split at h
        · cases h; exact ⟨.inr (.inr ⟨‹_›, Decidable.not_not.mp hlock⟩), rfl⟩
        · cases h; exact ⟨.inl rfl, rfl⟩
  | reporting outcome =>
      cases outcome <;> cases a <;> simp only [layoutStep, reduceCtorEq, Option.some.injEq] at h <;>
        subst h <;> refine ⟨.inl ?_, rfl⟩ <;> simp [hjson]
  | ended => cases a <;> simp [layoutStep] at h

theorem cancelStep_exchange {k used i : Nat} {e : Entry} {pc : CancelPc} {l : Local CancelPc}
    (h : cancelStep k used e pc = some l) (hswapping : pc = .swapping → e.cancelled = true) :
    Exchange e (.cancel i pc) ⟨l.used, l.entry, .cancel i l.pc, l.ops⟩ := by
  cases pc with
  | waiting =>
      simp only [cancelStep] at h
      split at h
      · cases h
      · cases h; exact ⟨.inl rfl, rfl⟩
  | swapping => cases h; exact ⟨.inr (.inl ⟨hswapping rfl, rfl⟩), rfl⟩
  | subtracting v =>
      simp only [cancelStep, Option.some.injEq] at h
      subst h
      exact ⟨.inl rfl, rfl⟩
  | ended => cases h

/-- A thread that works on no entry has no part of one. -/
theorem Thread.partOn_of_ne {t : Thread} {i : Nat} (h : t.entry? ≠ some i) :
    t.partOn i = 0 ∧ t.unpublishedOn i = 0 :=
  ⟨if_neg h, if_neg h⟩

theorem Thread.fresh_partOn {t : Thread} (h : t.fresh = true) (i : Nat) :
    t.partOn i = 0 ∧ t.unpublishedOn i = 0 := by
  obtain ⟨-, hpart, hunpublished, -, -⟩ := Thread.fresh_spec h
  have hle := Thread.partOn_le i t
  have hle' := Thread.unpublishedOn_le i t
  omega

section Funded

variable {entries : List Entry} {threads : List Thread} (h : Funded entries threads)

include h

/-- Threads that have no part of an entry come and go. -/
theorem Funded.setThreads {threads' : List Thread}
    (hpart : ∀ i, total (Thread.partOn i) threads' = total (Thread.partOn i) threads)
    (hunpublished : ∀ i,
      total (Thread.unpublishedOn i) threads' = total (Thread.unpublishedOn i) threads)
    (hworker : ∀ i pc, .worker i pc ∈ threads' → .worker i pc ∈ threads) :
    Funded entries threads' := by
  have hback : ∀ i e, Intact threads' i e → Intact threads i e := fun i e hintact =>
    hintact.imp_right fun ⟨pc, hpc, hsound⟩ => ⟨pc, hworker i pc hpc, hsound⟩
  refine ⟨fun i e he halive hintact => ?_, fun i e he hintact => ?_⟩
  · rw [hpart]
    exact h.reserved i e he halive (hback i e hintact)
  · rw [hunpublished]
    exact h.written i e he (hback i e hintact)

theorem Funded.setStore {k : Nat} {op op' : StoreOp} {pc pc' : StorePc}
    (hk : threads[k]? = some (.store op pc)) :
    Funded entries (threads.set k (.store op' pc')) := by
  refine h.setThreads (fun i => ?_) (fun i => ?_) fun i q hq => ?_
  · exact Nat.add_right_cancel (total_set (f := Thread.partOn i) hk (.store op' pc'))
  · exact Nat.add_right_cancel (total_set (f := Thread.unpublishedOn i) hk (.store op' pc'))
  · rcases List.mem_or_eq_of_mem_set hq with hold | heq
    · exact hold
    · cases heq

theorem Funded.spawn {t : Thread} (hfresh : ∀ i, t.partOn i = 0 ∧ t.unpublishedOn i = 0)
    (hrecorder : t.recorder? = none) : Funded entries (threads ++ [t]) := by
  refine h.setThreads (fun i => ?_) (fun i => ?_) fun i q hq => ?_
  · rw [total_append, total_cons, (hfresh i).1, total_nil, Nat.add_zero]
  · rw [total_append, total_cons, (hfresh i).2, total_nil, Nat.add_zero]
  · rcases List.mem_append.mp hq with hold | hnew
    · exact hold
    · rw [← List.mem_singleton.mp hnew] at hrecorder
      cases hrecorder

/-- An entry changes, but not its accounts. -/
theorem Funded.setEntry {i : Nat} {e e' : Entry} (he : entries[i]? = some e)
    (hreserved : e'.reserved = e.reserved) (hkept : e'.kept = e.kept)
    (hcancelled : e'.cancelled = e.cancelled) (hwritten : e'.written = e.written)
    (htotal : e'.total = e.total) (halive : e'.alive = true → e.alive = true)
    (hresult : e'.result = .complete → e.result = .complete) :
    Funded (entries.set i e') threads := by
  refine ⟨fun j d hd hdalive hintact => ?_, fun j d hd hintact => ?_⟩
  · rcases set_cases hd with ⟨rfl, rfl⟩ | ⟨_, hold⟩
    · have hbacked := h.reserved j e he (halive hdalive) (hintact.imp_left hresult)
      rw [Entry.Backed, hreserved, hkept, hcancelled]
      exact hbacked
    · exact h.reserved j d hold hdalive hintact
  · rcases set_cases hd with ⟨rfl, rfl⟩ | ⟨_, hold⟩
    · rw [hwritten, htotal]
      exact h.written j e he (hintact.imp_left hresult)
    · exact h.written j d hold hintact

/-- An entry that is new has all it keeps reserved. -/
theorem Funded.addEntry {e : Entry} (hfree : ∀ t ∈ threads, t.entry? ≠ some entries.length)
    (hkept : e.kept = e.reserved) (hwritten : e.written = e.total) {threads' : List Thread}
    (hthreads : threads' = threads ∨ threads' = threads ++ [.worker entries.length .head]) :
    Funded (entries ++ [e]) threads' := by
  have htotal : ∀ f : Thread → Nat, f (.worker entries.length .head) = 0 →
      total f threads' = total f threads := by
    intro f hf
    rcases hthreads with rfl | rfl
    · rfl
    · rw [total_append, total_cons, hf, total_nil, Nat.add_zero]
  have hpart : ∀ i, (Thread.worker entries.length .head).partOn i = 0 ∧
      (Thread.worker entries.length .head).unpublishedOn i = 0 := Thread.fresh_partOn rfl
  have hback : ∀ {i d}, entries[i]? = some d → Intact threads' i d → Intact threads i d := by
    intro i d hd hintact
    refine hintact.imp_right fun ⟨pc, hpc, hsound⟩ => ⟨pc, ?_, hsound⟩
    rcases hthreads with rfl | rfl
    · exact hpc
    · rcases List.mem_append.mp hpc with hold | hnew
      · exact hold
      · cases List.mem_singleton.mp hnew
        rw [List.getElem?_eq_none (Nat.le_refl _)] at hd
        cases hd
  refine ⟨fun i d hd halive hintact => ?_, fun i d hd hintact => ?_⟩
  · rw [htotal _ (hpart i).1]
    rcases SingleOwner.getElem?_append_cases hd with ⟨rfl, rfl⟩ | hold
    · rw [total_eq_zero fun t ht => (Thread.partOn_of_ne (hfree t ht)).1]
      exact .inl hkept
    · exact h.reserved i d hold halive (hback hold hintact)
  · rw [htotal _ (hpart i).2]
    rcases SingleOwner.getElem?_append_cases hd with ⟨rfl, rfl⟩ | hold
    · rw [total_eq_zero fun t ht => (Thread.partOn_of_ne (hfree t ht)).2]
      exact hwritten
    · exact h.written i d hold (hback hold hintact)

theorem Funded.insertEntry {e : Entry} (hfree : ∀ t ∈ threads, t.entry? ≠ some entries.length)
    (hkept : e.kept = e.reserved) (hwritten : e.written = e.total) {threads' : List Thread}
    (hthreads : threads' = threads ∨ threads' = threads ++ [.worker entries.length .head]) :
    Funded (Budget.insertEntry entries e).1 threads' := by
  unfold Budget.insertEntry
  cases find entries e.side e.id with
  | none => exact h.addEntry hfree hkept hwritten hthreads
  | some i =>
      show Funded (entries.modify i _ ++ [e]) threads'
      rw [List.modify_eq_set_getElem?]
      cases hold : entries[i]? with
      | none => exact h.addEntry hfree hkept hwritten hthreads
      | some old =>
          have hset : Funded (entries.set i { old with inStore := false }) threads :=
            h.setEntry hold rfl rfl rfl rfl rfl id id
          have hlength : (entries.set i { old with inStore := false }).length = entries.length :=
            List.length_set
          exact hset.addEntry (by rwa [hlength]) hkept hwritten (by rwa [hlength])

end Funded

/-- If the recording of the entry is intact after a step on it, it was before, and the step
exchanges parts. -/
theorem Intact.of_act {entries : List Entry} {threads : List Thread}
    (hstaffed : Staffed entries threads) {k used i rest unpublished : Nat} {t : Thread}
    {e : Entry} {a : Answer} {l : Local Thread} (hk : threads[k]? = some t)
    (hi : t.entry? = some i) (he : entries[i]? = some e) (hl : t.stepOn k used e a = some l)
    (pre : LocalPre k used e t rest unpublished) (h : Intact (threads.set k l.pc) i l.entry) :
    Intact threads i e ∧ Exchange e t l := by
  have hmem : t ∈ threads := List.mem_of_getElem? hk
  -- a step of another party than the recorder leaves the recorder where it is
  have hback : l.pc.recorder? = none → l.entry.result = e.result → Intact threads i e := by
    intro hrecorder hresult
    refine h.imp (fun hcomplete => hresult ▸ hcomplete) fun ⟨pc, hpc, hsound⟩ => ⟨pc, ?_, hsound⟩
    rcases List.mem_or_eq_of_mem_set hpc with hold | heq
    · exact hold
    · rw [← heq] at hrecorder
      cases hrecorder
  cases t with
  | store op pc => cases hi
  | worker j pc =>
      obtain ⟨l', hl', rfl⟩ := Option.map_eq_some_iff.mp hl
      have hpc : pc ≠ .ended := (workerStep_spec hl').2.1
      obtain rfl : j = i := by simpa [hpc] using hi
      have hunfinished : e.result ≠ .complete := by
        intro hresult
        obtain ⟨d, hd, hposted⟩ := hstaffed.posted _ hmem j (.inl rfl)
        obtain rfl : e = d := Option.some.inj (he.symm.trans hd)
        cases hi.symm.trans (hposted.recorder j rfl hresult)
      have hintact : l'.pc.sound = true ∨ l'.entry.result = .complete := by
        rcases h with hcomplete | ⟨pc', hpc', hsound⟩
        · exact .inr hcomplete
        · obtain ⟨k', hk'⟩ := List.mem_iff_getElem?.mp hpc'
          rcases SingleOwner.getElem?_set_cases hk' with ⟨-, heq⟩ | ⟨hne, hold⟩
          · cases heq
            exact .inl hsound
          · exact absurd (hstaffed.recorders hold hk rfl rfl) hne
      obtain ⟨hsound, hexchange⟩ := workerStep_exchange hl' pre hunfinished hintact
      exact ⟨.inr ⟨pc, hmem, hsound⟩, hexchange⟩
  | layout j pc =>
      obtain ⟨l', hl', rfl⟩ := Option.map_eq_some_iff.mp hl
      obtain ⟨hresult, hpc, -⟩ := layoutStep_spec hl'
      obtain rfl : j = i := by simpa [hpc] using hi
      obtain ⟨d, hd, hposted⟩ := hstaffed.posted _ hmem j (.inr (if_neg hpc))
      obtain rfl : e = d := Option.some.inj (he.symm.trans hd)
      exact ⟨hback rfl hresult,
        layoutStep_exchange hl' pre (hposted.layouter j (if_neg hpc)).1⟩
  | cancel j pc =>
      cases a with
      | go =>
          obtain ⟨l', hl', rfl⟩ := Option.map_eq_some_iff.mp hl
          refine ⟨hback rfl (cancelStep_spec hl').2, cancelStep_exchange hl' ?_⟩
          rintro rfl
          exact pre.swapping j rfl
      | _ => cases hl

/-- Nor does a step on one entry touch the recording of another. -/
theorem Intact.of_act_of_ne {threads : List Thread} {k used i j : Nat} {t : Thread} {e d : Entry}
    {a : Answer} {l : Local Thread} (hi : t.entry? = some i)
    (hl : t.stepOn k used e a = some l) (hne : j ≠ i)
    (h : Intact (threads.set k l.pc) j d) : Intact threads j d := by
  refine h.imp_right fun ⟨pc, hpc, hsound⟩ => ⟨pc, ?_, hsound⟩
  rcases List.mem_or_eq_of_mem_set hpc with hold | heq
  · exact hold
  · have hduty := stepOn_duty hl
    rw [← heq] at hduty
    cases hduty with
    | worker hjson hpc' =>
        simp only [Thread.entry?, if_neg hpc', Option.some.injEq] at hi
        exact absurd hi hne

/-- A cancelled entry that nobody has locked has nothing reserved. -/
theorem Emptied.reserved_eq_zero {s : State} (hemptied : Emptied s) (hgood : Good s) {i : Nat}
    {e : Entry} (he : s.entries[i]? = some e) (hcancelled : e.cancelled = true)
    (hlock : e.lock = none) : e.reserved = 0 := by
  rcases hemptied i e he hcancelled with hzero | hswapping
  · exact hzero
  · obtain ⟨k, hk⟩ := List.mem_iff_getElem?.mp hswapping
    obtain ⟨d, hd, hacts⟩ := hgood.acts k _ i hk rfl
    obtain rfl : e = d := Option.some.inj (he.symm.trans hd)
    cases hlock.symm.trans (hacts.holds i rfl)

/-- **A step of a thread on its entry keeps the accounts of the bodies.** -/
theorem Funded.act {s : State} (hs : Funded s.entries s.threads) (hgood : Good s)
    (hemptied : Emptied s) (hstaffed : Staffed s.entries s.threads) {k i : Nat} {t : Thread}
    {e : Entry} {a : Answer} {l : Local Thread} (hk : s.threads[k]? = some t)
    (hi : t.entry? = some i) (he : s.entries[i]? = some e)
    (hl : t.stepOn k s.used e a = some l) :
    Funded (s.entries.set i l.entry) (s.threads.set k l.pc) := by
  have hpre := hgood.localPre hk hi he
  have hok := stepOn_ok hl hpre
  have hpart (j : Nat) := total_set (f := Thread.partOn j) hk l.pc
  have hunpublished (j : Nat) := total_set (f := Thread.unpublishedOn j) hk l.pc
  have hti : t.partOn i = t.part ∧ t.unpublishedOn i = t.unpublished := ⟨if_pos hi, if_pos hi⟩
  have hli : l.pc.partOn i = l.pc.part ∧ l.pc.unpublishedOn i = l.pc.unpublished := by
    rcases hok.entry with hsame | hended
    · exact ⟨if_pos (hsame.trans hi), if_pos (hsame.trans hi)⟩
    · obtain ⟨hpart, hunpublished⟩ := Thread.ended hended
      have hle := Thread.partOn_le i l.pc
      have hle' := Thread.unpublishedOn_le i l.pc
      omega
  have hother {j : Nat} (hne : j ≠ i) : (t.partOn j = 0 ∧ t.unpublishedOn j = 0) ∧
      l.pc.partOn j = 0 ∧ l.pc.unpublishedOn j = 0 := by
    refine ⟨Thread.partOn_of_ne fun h => hne (Option.some.inj (h.symm.trans hi)),
      Thread.partOn_of_ne fun h => ?_⟩
    rcases hok.entry with hsame | hended
    · exact hne (Option.some.inj (h.symm.trans (hsame.trans hi)))
    · cases h.symm.trans hended
  refine ⟨fun j d hd halive hintact => ?_, fun j d hd hintact => ?_⟩
  · have hmoved := hpart j
    rcases set_cases hd with ⟨rfl, rfl⟩ | ⟨hne, hold⟩
    · obtain ⟨hwas, hexchange⟩ := Intact.of_act hstaffed hk hi he hl hpre hintact
      have hbacked := hs.reserved j e he (hok.alive ▸ halive) hwas
      rcases hexchange.reserved with hmoves | hemptied' | ⟨hcancelled, hlock⟩
      · rcases hbacked with hsum | ⟨hcancelled, hzero⟩
        · refine .inl ?_
          omega
        · refine .inr ⟨(hok.stays hcancelled).1, ?_⟩
          have := (hok.stays hcancelled).2
          omega
      · exact .inr hemptied'
      · refine .inr ⟨(hok.stays hcancelled).1, ?_⟩
        have := (hok.stays hcancelled).2
        have := hemptied.reserved_eq_zero hgood he hcancelled hlock
        omega
    · have hbacked := hs.reserved j d hold halive (hintact.of_act_of_ne hi hl hne)
      obtain ⟨⟨ht, -⟩, hl, -⟩ := hother hne
      refine hbacked.imp_left fun hsum => ?_
      omega
  · have hmoved := hunpublished j
    rcases set_cases hd with ⟨rfl, rfl⟩ | ⟨hne, hold⟩
    · obtain ⟨hwas, hexchange⟩ := Intact.of_act hstaffed hk hi he hl hpre hintact
      have hsum := hs.written j e he hwas
      have hmoves := hexchange.written
      omega
    · have hsum := hs.written j d hold (hintact.of_act_of_ne hi hl hne)
      obtain ⟨⟨-, ht⟩, -, hl⟩ := hother hne
      omega

/-- **Every step keeps the accounts of the bodies.** -/
theorem Funded.step {s s' : State} {event : Event} (hs : Funded s.entries s.threads)
    (hgood : Good s) (hemptied : Emptied s) (hstaffed : Staffed s.entries s.threads)
    (h : Moves s event s') : Funded s'.entries s'.threads := by
  have hfree : ∀ t ∈ s.threads, t.entry? ≠ some s.entries.length := by
    intro t ht hentry
    obtain ⟨k, hk⟩ := List.mem_iff_getElem?.mp ht
    obtain ⟨e, he, -⟩ := hgood.acts k t _ hk hentry
    rw [List.getElem?_eq_none (Nat.le_refl _)] at he
    cases he
  cases h with
  | call op => exact hs.spawn (fun i => ⟨rfl, rfl⟩) rfl
  | store _ hk _ _ => exact hs.setStore hk
  | insert hk =>
      rename_i k op
      have hset : Funded (Budget.insertEntry s.entries op.newEntry).1
          (s.threads.set k (.store op .ended)) :=
        (hs.insertEntry hfree (by simp [StoreOp.newEntry]) rfl (.inl rfl)).setStore hk
      cases (Budget.insertEntry s.entries op.newEntry).2 with
      | none => simpa using hset
      | some i => exact hset.spawn (fun j => Thread.fresh_partOn rfl j) rfl
  | record side id limit => exact hs.insertEntry hfree (by simp [recordEntry]) rfl (.inr rfl)
  | act hk hi he hl => exact hs.act hgood hemptied hstaffed hk hi he hl
  | touch he htouched =>
      cases htouched with
      | recancel =>
          rw [set_self he]
          exact hs.spawn (fun j => Thread.fresh_partOn rfl j) rfl
      | tapDrop =>
          have hset : Funded (s.entries.set _ (Entry.finish _ (.partially .interrupted))) s.threads :=
            hs.setEntry he rfl rfl rfl rfl rfl id RecordState.finish_complete.mp
          simpa using hset
      | startLayout halive hresult hbuilding hready =>
          rename_i i e
          have hset : Funded (s.entries.set i { e with json := .building, token := false })
              s.threads :=
            hs.setEntry he rfl (by simp [hready]) rfl rfl rfl id id
          exact hset.spawn (fun j => Thread.fresh_partOn rfl j) rfl
      | cancelLayout =>
          rename_i i e
          have hset : Funded (s.entries.set i { e with token := true }) s.threads :=
            hs.setEntry he rfl rfl rfl rfl rfl id id
          simpa using hset
      | remove =>
          rename_i i e _
          have hset : Funded (s.entries.set i { e with inStore := false }) s.threads :=
            hs.setEntry he rfl rfl rfl rfl rfl id id
          exact hset.spawn (fun j => Thread.fresh_partOn rfl j) rfl
  | drop he hstore halive hidle =>
      rename_i i e
      refine ⟨fun j d hd hdalive hintact => ?_, fun j d hd hintact => ?_⟩
      · rcases set_cases hd with ⟨rfl, rfl⟩ | ⟨_, hold⟩
        · cases hdalive
        · exact hs.reserved j d hold hdalive hintact
      · rcases set_cases hd with ⟨rfl, rfl⟩ | ⟨_, hold⟩
        · exact hs.written j e he hintact
        · exact hs.written j d hold hintact

theorem funded_of_reachable {s : State} (h : machine.Reachable s) : Funded s.entries s.threads :=
  h.invariant_along (I := fun s => Funded s.entries s.threads) funded_nil
    fun hr hs _ hstep => hs.step (good_of_reachable hr) (emptied_of_reachable hr)
      (staffed_of_reachable hr) (step_moves hstep)

/-! ## What a step leaves alone -/

/-- What only the threads of an entry change of it. -/
structure Still (e e' : Entry) : Prop where
  written : e'.written = e.written
  total : e'.total = e.total
  layout : e'.layout = e.layout
  cancelled : e'.cancelled = e.cancelled
  complete : e'.result = .complete ↔ e.result = .complete
  ready : e'.json = .ready ↔ e.json = .ready
  alive : e'.alive = true → e.alive = true

theorem Still.refl (e : Entry) : Still e e := ⟨rfl, rfl, rfl, rfl, Iff.rfl, Iff.rfl, id⟩

/-- Where an entry comes from. -/
inductive Grown (s : State) (i : Nat) : Event → Entry → Prop
  | still {event e e'} : s.entries[i]? = some e → Still e e' → Grown s i event e'
  | insert {k op} : i = s.entries.length → s.threads[k]? = some (.store op .stored) →
      Grown s i (.insert k) op.newEntry
  | record {side id limit} : i = s.entries.length →
      Grown s i (.record side id limit) (recordEntry side id limit)
  | act {k answer t e l} : s.threads[k]? = some t → t.entry? = some i → s.entries[i]? = some e →
      t.stepOn k s.used e answer = some l → Grown s i (.step k answer) l.entry

theorem insertEntry_still {entries : List Entry} {e d : Entry} {i : Nat}
    (h : (Budget.insertEntry entries e).1[i]? = some d) :
    i = entries.length ∧ d = e ∨ ∃ old, entries[i]? = some old ∧ Still old d := by
  rcases insertEntry_get h with hnew | hold | ⟨old, hold, rfl, -⟩
  · exact .inl hnew
  · exact .inr ⟨d, hold, .refl d⟩
  · exact .inr ⟨old, hold, ⟨rfl, rfl, rfl, rfl, Iff.rfl, Iff.rfl, id⟩⟩

theorem Moves.entry {s s' : State} {event : Event} (h : Moves s event s') {i : Nat} {e' : Entry}
    (he' : s'.entries[i]? = some e') : Grown s i event e' := by
  cases h with
  | call op => exact .still he' (.refl e')
  | store => exact .still he' (.refl e')
  | insert hk =>
      rcases insertEntry_still he' with ⟨rfl, rfl⟩ | ⟨old, hold, hstill⟩
      · exact .insert rfl hk
      · exact .still hold hstill
  | record side id limit =>
      rcases insertEntry_still he' with ⟨rfl, rfl⟩ | ⟨old, hold, hstill⟩
      · exact .record rfl
      · exact .still hold hstill
  | act hk hi he hl =>
      rcases set_cases he' with ⟨rfl, rfl⟩ | ⟨-, hold⟩
      · exact .act hk hi he hl
      · exact .still hold (.refl e')
  | touch he htouched =>
      rcases set_cases he' with ⟨rfl, rfl⟩ | ⟨-, hold⟩
      · refine .still he ?_
        cases htouched with
        | recancel => exact .refl _
        | tapDrop => exact ⟨rfl, rfl, rfl, rfl, RecordState.finish_complete, Iff.rfl, id⟩
        | startLayout halive hresult hbuilding hready =>
            refine ⟨rfl, rfl, rfl, rfl, Iff.rfl, ?_, id⟩
            exact iff_of_false (fun h => by cases h) hready
        | cancelLayout => exact ⟨rfl, rfl, rfl, rfl, Iff.rfl, Iff.rfl, id⟩
        | remove => exact ⟨rfl, rfl, rfl, rfl, Iff.rfl, Iff.rfl, id⟩
      · exact .still hold (.refl e')
  | drop he hstore halive =>
      rcases set_cases he' with ⟨rfl, rfl⟩ | ⟨-, hold⟩
      · exact .still he ⟨rfl, rfl, rfl, rfl, Iff.rfl, Iff.rfl, fun _ => halive⟩
      · exact .still hold (.refl e')

/-- What a thread that has not moved on its entry has become. -/
inductive Follows : Thread → Thread → Prop
  | refl (t) : Follows t t
  | store {op op' pc pc'} : op'.length = op.length → (pc' ≠ .ended → pc ≠ .ended) →
      Follows (.store op pc) (.store op' pc')

theorem Follows.recorder {t t' : Thread} (h : Follows t t') : t'.recorder? = t.recorder? := by
  cases h <;> rfl

/-- Where a thread comes from. -/
inductive Come (s : State) (k : Nat) : Event → Thread → Prop
  | follows {event t t'} : s.threads[k]? = some t → Follows t t' → Come s k event t'
  | call {op} : k = s.threads.length →
      Come s k (.call op) (.store { op with awaited := true } .queued)
  | record {side id limit} : k = s.threads.length →
      Come s k (.record side id limit) (.worker s.entries.length .head)
  | cancel {event i} : k = s.threads.length → Come s k event (.cancel i .waiting)
  | layout {i} : k = s.threads.length → Come s k (.startLayout i) (.layout i (.writing 0 false))
  | act {answer t i e l} : s.threads[k]? = some t → t.entry? = some i → s.entries[i]? = some e →
      t.stepOn k s.used e answer = some l → Come s k (.step k answer) l.pc

theorem Come.of_set {s : State} {event : Event} {k k' : Nat} {op op' : StoreOp} {pc pc' : StorePc}
    {t' : Thread} (hk : s.threads[k]? = some (.store op pc)) (hlength : op'.length = op.length)
    (hpc : pc' ≠ .ended → pc ≠ .ended) (h : (s.threads.set k (.store op' pc'))[k']? = some t') :
    Come s k' event t' := by
  rcases SingleOwner.getElem?_set_cases h with ⟨rfl, rfl⟩ | ⟨-, hold⟩
  · exact .follows hk (.store hlength hpc)
  · exact .follows hold (.refl _)

theorem Moves.thread {s s' : State} {event : Event} (h : Moves s event s') {k : Nat}
    {t' : Thread} (ht' : s'.threads[k]? = some t') : Come s k event t' := by
  cases h with
  | call op =>
      rcases SingleOwner.getElem?_append_cases ht' with ⟨rfl, rfl⟩ | hold
      · exact .call rfl
      · exact .follows hold (.refl _)
  | store _ hk hlength hpc => exact .of_set hk hlength hpc ht'
  | insert hk =>
      rename_i k' op
      have hset {u : Thread} (hu : (s.threads.set k' (.store op .ended))[k]? = some u) :
          Come s k (.insert k') u := .of_set hk rfl (fun h => absurd rfl h) hu
      cases hprevious : (insertEntry s.entries op.newEntry).2 with
      | none =>
          rw [hprevious] at ht'
          exact hset (by simpa using ht')
      | some i =>
          rw [hprevious] at ht'
          rcases SingleOwner.getElem?_append_cases ht' with ⟨rfl, rfl⟩ | hold
          · exact .cancel List.length_set
          · exact hset hold
  | record side id limit =>
      rcases SingleOwner.getElem?_append_cases ht' with ⟨rfl, rfl⟩ | hold
      · exact .record rfl
      · exact .follows hold (.refl _)
  | act hk hi he hl =>
      rcases SingleOwner.getElem?_set_cases ht' with ⟨rfl, rfl⟩ | ⟨-, hold⟩
      · exact .act hk hi he hl
      · exact .follows hold (.refl _)
  | touch he htouched =>
      have hold {u : Thread} (hu : s.threads[k]? = some u) {event : Event} : Come s k event u :=
        .follows hu (.refl _)
      cases htouched with
      | recancel =>
          rcases SingleOwner.getElem?_append_cases ht' with ⟨rfl, rfl⟩ | hu
          · exact .cancel rfl
          · exact hold hu
      | tapDrop => exact hold (by simpa using ht')
      | startLayout =>
          rcases SingleOwner.getElem?_append_cases ht' with ⟨rfl, rfl⟩ | hu
          · exact .layout rfl
          · exact hold hu
      | cancelLayout => exact hold (by simpa using ht')
      | remove =>
          rcases SingleOwner.getElem?_append_cases ht' with ⟨rfl, rfl⟩ | hu
          · exact .cancel rfl
          · exact hold hu
  | drop => exact .follows ht' (.refl _)

/-- A layout job does not move by other steps than its own. -/
theorem Moves.layout {s s' : State} {event : Event} (h : Moves s event s') {k i : Nat}
    {pc : LayoutPc} (hk : s.threads[k]? = some (.layout i pc)) (hne : ∀ a, event ≠ .step k a) :
    s'.threads[k]? = some (.layout i pc) := by
  have hlt := (List.getElem?_eq_some_iff.mp hk).1
  have hset {k' : Nat} {op : StoreOp} {pc' : StorePc} {t' : Thread}
      (hk' : s.threads[k']? = some (.store op pc')) :
      (s.threads.set k' t')[k]? = some (.layout i pc) := by
    refine (List.getElem?_set_ne ?_).trans hk
    rintro rfl
    cases hk.symm.trans hk'
  cases h with
  | call => exact (List.getElem?_append_left hlt).trans hk
  | store _ hk' => exact hset hk'
  | insert hk' => exact (List.getElem?_append_left (by rwa [List.length_set])).trans (hset hk')
  | record => exact (List.getElem?_append_left hlt).trans hk
  | act hk' hi he hl =>
      refine (List.getElem?_set_ne ?_).trans hk
      rintro rfl
      exact hne _ rfl
  | touch => exact (List.getElem?_append_left hlt).trans hk
  | drop => exact hk

end SippinSoda.Budget
