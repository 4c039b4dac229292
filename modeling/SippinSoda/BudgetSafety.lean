import SippinSoda.Budget
import SippinSoda.Lib.Ledger

/-!
# Disk-budget safety

`used` is a ledger: at every moment it is the reservations of the entries, the amounts
threads have moved on one of the two atomics but not yet on the other (`credit`), and the
bytes lost with a dropped store operation. An entry's own reservation covers the bytes in
its file, its layout and what its worker and its layout job still have to account for
(`part`).

* `LocalOk` — all that a step of a thread on its entry can do;
* `Good` — the invariant, and `Good.step` that every step keeps it;
* `budget_is_never_overrun` — what it says about every reachable state.
-/

namespace SippinSoda.Budget

open Ledger

/-- What a thread has taken from `used` without holding it in `reserved`, or the other way
round. -/
def Thread.credit : Thread → Nat
  | .store op .reserved => op.length
  | .store op .releasing => op.length
  | .store op .stored => op.length
  | .worker _ (.adding n) => n
  | .layout _ (.adding _ n _) => n
  | .layout _ (.unbudgeting r) => r
  | .cancel _ (.subtracting v) => v
  | _ => 0

/-- What a thread has reserved for its entry beyond the bytes the entry keeps. -/
def Thread.part : Thread → Nat
  | .worker _ (.writing n) => n
  | .layout _ (.writing r _) => r
  | .layout _ (.reserving r _ _) => r
  | .layout _ (.adding r _ _) => r
  | .layout _ (.dropping r _) => r
  | .layout _ (.unreserving r) => r
  | .layout _ (.checking r) => r
  | .layout _ (.givingBack r) => r
  | .layout _ (.reporting (some r)) => r
  | _ => 0

/-- What a worker has written without publishing it. -/
def Thread.unpublished : Thread → Nat
  | .worker _ (.publishing n) => n
  | _ => 0

/-- The entry whose `result` lock a thread holds. -/
def Thread.holds : Thread → Option Nat
  | .worker i (.locked _) => some i
  | .worker i (.adding _) => some i
  | .layout i (.reserving ..) => some i
  | .layout i (.adding ..) => some i
  | .layout i (.unreserving _) => some i
  | .layout i (.unbudgeting _) => some i
  | .cancel i .swapping => some i
  | .cancel i (.subtracting _) => some i
  | _ => none

/-- Has the thread seen, under the lock it holds, that its entry is not cancelled? -/
def Thread.live : Thread → Bool
  | .worker _ (.locked _) => true
  | .worker _ (.adding _) => true
  | .layout _ (.reserving ..) => true
  | .layout _ (.adding ..) => true
  | .layout _ (.unreserving _) => true
  | _ => false

/-- The part of a thread on entry `i`. -/
def Thread.partOn (i : Nat) (t : Thread) : Nat := if t.entry? = some i then t.part else 0

/-- What a thread has not published on entry `i`. -/
def Thread.unpublishedOn (i : Nat) (t : Thread) : Nat :=
  if t.entry? = some i then t.unpublished else 0

/-- A subtraction takes at most what is there; a reservation stays in its limit. -/
def Op.Ok : Op → Prop
  | .sub current amount => amount ≤ current
  | .reserve next limit => next ≤ limit

attribute [simp] Thread.credit Thread.part Thread.unpublished Thread.holds Thread.live
  Thread.entry? Op.Ok Entry.kept

/-! ## The wrapping operations, in range -/

theorem wrappingSub_of_le {a b : Nat} (hb : b ≤ a) (ha : a < u64) : wrappingSub a b = a - b := by
  rw [wrappingSub, Nat.mod_eq_sub_mod (by omega), Nat.mod_eq_of_lt] <;> omega

theorem wrappingAdd_of_lt {a b : Nat} (h : a + b < u64) : wrappingAdd a b = a + b :=
  Nat.mod_eq_of_lt h

theorem checkedReserve_some {used n limit next : Nat}
    (h : checkedReserve used n limit = some next) :
    next = used + n ∧ next < u64 ∧ next ≤ limit := by
  rw [checkedReserve] at h
  split at h
  · cases h
    omega
  · cases h

/-! ## Steps on one entry -/

/-- What a thread relies on when it moves: `rest` is what the other threads have reserved
on its entry, `unpublished` what they have not published. -/
structure LocalPre (k used : Nat) (e : Entry) (t : Thread) (rest unpublished : Nat) :
    Prop where
  bounded : used < u64
  funded : e.reserved + t.credit ≤ used
  holds : ∀ i, t.holds = some i → e.lock = some k
  live : t.live = true → e.cancelled = false
  covered : e.cancelled = false → e.kept + t.part + rest ≤ e.reserved
  published : e.total + t.unpublished + unpublished ≤ e.written
  swapping : ∀ i, t = .cancel i .swapping → e.cancelled = true

/-- All that a step of thread `k` on its entry does. -/
structure LocalOk (k used : Nat) (e : Entry) (t : Thread) (rest unpublished : Nat)
    (l : Local Thread) : Prop where
  bounded : l.used < u64
  /-- What leaves one account enters another. -/
  balance : l.used + e.reserved + t.credit = used + l.entry.reserved + l.pc.credit
  entry : l.pc.entry? = t.entry? ∨ l.pc.entry? = none
  holds : ∀ i, l.pc.holds = some i → t.entry? = some i ∧ l.entry.lock = some k
  live : l.pc.live = true → l.entry.cancelled = false
  covered : l.entry.cancelled = false → l.entry.kept + l.pc.part + rest ≤ l.entry.reserved
  published : l.entry.total + l.pc.unpublished + unpublished ≤ l.entry.written
  swapping : ∀ i, l.pc = .cancel i .swapping → l.entry.cancelled = true
  /-- The lock of another thread protects the entry. -/
  frame : ∀ k', e.lock = some k' → k' ≠ k →
    l.entry.lock = some k' ∧ l.entry.cancelled = e.cancelled
  ops : ∀ op ∈ l.ops, op.Ok
  /-- `used` grows by a logged reservation only. -/
  grows : used < l.used → l.ops = [.reserve l.used e.limit]
  limit : l.entry.limit = e.limit
  inStore : l.entry.inStore = e.inStore
  alive : l.entry.alive = e.alive
  stays : e.cancelled = true →
    l.entry.cancelled = true ∧ (l.entry.reserved = e.reserved ∨ l.entry.reserved = 0)
  /-- An entry is cancelled by a thread that then empties it. -/
  cancels : e.cancelled = false → l.entry.cancelled = true → ∃ i, l.pc = .cancel i .swapping
  empties : ∀ i, t = .cancel i .swapping → l.entry.reserved = 0
  enters : ∀ i, t = .cancel i .waiting → l.entry.cancelled = true

/-- A step that moves nothing on the two atomics: it may write, take the free lock or leave
the one it has. -/
structure Quiet (k : Nat) (e e' : Entry) (t t' : Thread) : Prop where
  reserved : e'.reserved = e.reserved := by rfl
  cancelled : e'.cancelled = e.cancelled := by rfl
  limit : e'.limit = e.limit := by rfl
  inStore : e'.inStore = e.inStore := by rfl
  alive : e'.alive = e.alive := by rfl
  credit : t'.credit = t.credit := by rfl
  entry : t'.entry? = t.entry? ∨ t'.entry? = none := by simp
  holds : ∀ i, t'.holds = some i → t.entry? = some i ∧ e'.lock = some k := by simp
  live : t'.live = true → e.cancelled = false := by simp
  part : e.cancelled = false → e'.kept + t'.part ≤ e.kept + t.part := by simp
  unpublished : e'.total + t'.unpublished + e.written ≤ e.total + t.unpublished + e'.written :=
    by simp
  lock : e'.lock = e.lock ∨ e.lock = none ∨ e.lock = some k := by simp
  cancel : ∀ i pc, t ≠ .cancel i pc ∧ t' ≠ .cancel i pc := by simp

theorem Quiet.localOk {k used rest unpublished : Nat} {e e' : Entry} {t t' : Thread}
    (h : Quiet k e e' t t') (pre : LocalPre k used e t rest unpublished) :
    LocalOk k used e t rest unpublished ⟨used, e', t', []⟩ where
  bounded := pre.bounded
  balance := by rw [h.reserved, h.credit]
  entry := h.entry
  holds := h.holds
  live hlive := by rw [h.cancelled]; exact h.live hlive
  covered hc := by
    have hc' : e.cancelled = false := by rw [← h.cancelled]; exact hc
    have hold := pre.covered hc'
    have hpart := h.part hc'
    show e'.kept + t'.part + rest ≤ e'.reserved
    rw [h.reserved]
    omega
  published := by
    have hold := pre.published
    have hnew := h.unpublished
    show e'.total + t'.unpublished + unpublished ≤ e'.written
    omega
  swapping i ht := absurd ht (h.cancel i _).2
  frame k' hk' hne := by
    rcases h.lock with hl | hl | hl
    · exact ⟨hl.trans hk', h.cancelled⟩
    · cases hl.symm.trans hk'
    · exact absurd (Option.some.inj (hl.symm.trans hk')) (Ne.symm hne)
  ops _ hop := by cases hop
  grows hlt := absurd hlt (Nat.lt_irrefl _)
  limit := h.limit
  inStore := h.inStore
  alive := h.alive
  stays hc := ⟨h.cancelled.trans hc, .inl h.reserved⟩
  cancels hc hc' := by cases hc'.symm.trans (h.cancelled.trans hc)
  empties i ht := absurd ht (h.cancel i _).1
  enters i ht := absurd ht (h.cancel i _).1

theorem workerStep_ok {k used i rest unpublished : Nat} {e : Entry} {pc : WorkerPc}
    {a : Answer} {l : Local WorkerPc} (h : workerStep k used e pc a = some l)
    (pre : LocalPre k used e (.worker i pc) rest unpublished) :
    LocalOk k used e (.worker i pc) rest unpublished
      ⟨l.used, l.entry, .worker i l.pc, l.ops⟩ := by
  cases pc with
  | head =>
      cases a <;> simp only [workerStep, reduceCtorEq] at h <;> cases h
      · by_cases hc : e.cancelled = true
        · rw [if_pos hc]; exact Quiet.localOk {} pre
        · rw [if_neg hc]; exact Quiet.localOk {} pre
      · exact Quiet.localOk {} pre
  | reading =>
      cases a with
      | bytes n =>
          cases h
          by_cases hn : n = 0
          · simp only [if_pos hn]; exact Quiet.localOk {} pre
          · simp only [if_neg hn]; exact Quiet.localOk {} pre
      | failure => cases h; exact Quiet.localOk {} pre
      | aborted => cases h; exact Quiet.localOk {} pre
      | _ => cases h
  | reserving n =>
      cases a <;> simp only [workerStep, reduceCtorEq] at h
      split at h
      · cases h
      · rename_i hlock
        have hfree : e.lock = none := Decidable.not_not.mp hlock
        split at h
        · cases h; exact Quiet.localOk {} pre
        · rename_i hc
          have hc' : e.cancelled = false := Bool.eq_false_iff.mpr hc
          cases h
          exact Quiet.localOk
            { live := fun _ => hc', lock := .inr (.inl hfree) } pre
  | locked n =>
      cases a <;> simp only [workerStep, reduceCtorEq] at h
      have hheld : e.lock = some k := pre.holds i rfl
      split at h
      · cases h; exact Quiet.localOk { lock := .inr (.inr hheld) } pre
      · rename_i next hnext
        obtain ⟨rfl, hlt, hle⟩ := checkedReserve_some hnext
        cases h
        obtain ⟨hbounded, hfunded, hholds, hlive, hcovered, hpublished, hswap⟩ := pre
        constructor <;> simp_all
        omega
  | adding n =>
      cases a <;> simp only [workerStep, reduceCtorEq] at h
      obtain ⟨hbounded, hfunded, hholds, hlive, hcovered, hpublished, hswap⟩ := pre
      simp only [Thread.credit] at hfunded
      rw [wrappingAdd_of_lt (by omega)] at h
      cases h
      constructor <;> simp_all <;> omega
  | writing n =>
      cases a with
      | ok =>
          cases h
          refine Quiet.localOk { part := fun _ => ?_, unpublished := ?_ } pre
          · simp only [Entry.kept, Thread.part]; omega
          · simp only [Thread.unpublished]; omega
      | failure m =>
          simp only [workerStep] at h
          split at h
          · cases h
            refine Quiet.localOk { part := fun _ => ?_, unpublished := ?_ } pre
            · simp only [Entry.kept, Thread.part]; omega
            · simp only [Thread.unpublished]; omega
          · cases h
      | aborted => cases h; exact Quiet.localOk {} pre
      | _ => cases h
  | publishing n =>
      cases a <;> simp only [workerStep, reduceCtorEq] at h
      cases h
      refine Quiet.localOk { unpublished := ?_ } pre
      simp only [Thread.unpublished]
      omega
  | finishing state =>
      cases a <;> simp only [workerStep, reduceCtorEq] at h
      split at h
      · cases h
      · cases h
        exact Quiet.localOk { part := fun _ => Nat.le_refl _, unpublished := Nat.le_refl _,
                              lock := .inl rfl } pre
  | ended => cases a <;> simp [workerStep] at h

theorem layoutStep_ok {k used i rest unpublished : Nat} {e : Entry} {pc : LayoutPc}
    {a : Answer} {l : Local LayoutPc} (h : layoutStep k used e pc a = some l)
    (pre : LocalPre k used e (.layout i pc) rest unpublished) :
    LocalOk k used e (.layout i pc) rest unpublished
      ⟨l.used, l.entry, .layout i l.pc, l.ops⟩ := by
  cases pc with
  | writing r failed =>
      cases a with
      | bytes n =>
          simp only [layoutStep] at h
          split at h
          · cases h
          · rename_i hlock
            have hfree : e.lock = none := Decidable.not_not.mp hlock
            split at h
            · cases h; exact Quiet.localOk {} pre
            · rename_i hc
              have hc' : e.cancelled = false := by
                rw [Bool.or_eq_true, not_or] at hc
                exact Bool.eq_false_iff.mpr hc.1
              cases h
              exact Quiet.localOk
                { live := fun _ => hc', lock := .inr (.inl hfree) } pre
      | failure => cases h; exact Quiet.localOk {} pre
      | ok => cases h; exact Quiet.localOk {} pre
      | _ => cases h
  | reserving r n failed =>
      cases a <;> simp only [layoutStep, reduceCtorEq] at h
      have hheld : e.lock = some k := pre.holds i rfl
      split at h
      · cases h; exact Quiet.localOk { lock := .inr (.inr hheld) } pre
      · rename_i next hnext
        obtain ⟨rfl, hlt, hle⟩ := checkedReserve_some hnext
        cases h
        obtain ⟨hbounded, hfunded, hholds, hlive, hcovered, hpublished, hswap⟩ := pre
        constructor <;> simp_all
        omega
  | adding r n failed =>
      obtain ⟨hbounded, hfunded, hholds, hlive, hcovered, hpublished, hswap⟩ := pre
      simp only [Thread.credit] at hfunded
      have hadd := wrappingAdd_of_lt (a := e.reserved) (b := n) (by omega)
      cases a with
      | ok =>
          simp only [layoutStep, hadd] at h
          cases h
          constructor <;> simp_all <;> omega
      | failure =>
          simp only [layoutStep, hadd] at h
          cases h
          constructor <;> simp_all <;> omega
      | _ => cases h
  | dropping r keep =>
      cases a <;> simp only [layoutStep, reduceCtorEq] at h
      split at h
      · cases h
      · rename_i hlock
        have hfree : e.lock = none := Decidable.not_not.mp hlock
        split at h
        · cases h; exact Quiet.localOk {} pre
        · split at h
          · cases h; exact Quiet.localOk {} pre
          · rename_i hc
            have hc' : e.cancelled = false := Bool.eq_false_iff.mpr hc
            cases h
            exact Quiet.localOk { live := fun _ => hc', lock := .inr (.inl hfree) } pre
  | unreserving r =>
      cases a <;> simp only [layoutStep, reduceCtorEq] at h
      obtain ⟨hbounded, hfunded, hholds, hlive, hcovered, hpublished, hswap⟩ := pre
      have hcancelled : e.cancelled = false := hlive rfl
      have hsum := hcovered hcancelled
      simp only [Thread.part] at hsum
      simp only [Thread.credit] at hfunded
      rw [wrappingSub_of_le (by omega) (by omega)] at h
      cases h
      constructor <;> simp_all <;> omega
  | unbudgeting r =>
      cases a <;> simp only [layoutStep, reduceCtorEq] at h
      obtain ⟨hbounded, hfunded, hholds, hlive, hcovered, hpublished, hswap⟩ := pre
      simp only [Thread.credit] at hfunded
      rw [wrappingSub_of_le (by omega) hbounded] at h
      cases h
      constructor <;> simp_all <;> omega
  | checking r =>
      cases a <;> simp only [layoutStep, reduceCtorEq] at h
      cases h
      by_cases hgone : (e.token || e.cancelled) = true
      · simp only [if_pos hgone]; exact Quiet.localOk {} pre
      · simp only [if_neg hgone]; exact Quiet.localOk {} pre
  | givingBack r =>
      cases a <;> simp only [layoutStep, reduceCtorEq] at h
      split at h
      · cases h
      · rename_i hlock
        have hfree : e.lock = none := Decidable.not_not.mp hlock
        split at h
        · cases h; exact Quiet.localOk {} pre
        · rename_i hc
          have hc' : e.cancelled = false := Bool.eq_false_iff.mpr hc
          cases h
          exact Quiet.localOk { live := fun _ => hc', lock := .inr (.inl hfree) } pre
  | reporting outcome =>
      cases outcome with
      | none =>
          cases a <;> simp only [layoutStep, reduceCtorEq] at h
          cases h
          exact Quiet.localOk { part := fun _ => by simp } pre
      | some total =>
          cases a <;> simp only [layoutStep, reduceCtorEq] at h
          cases h
          refine Quiet.localOk { part := fun _ => ?_ } pre
          simp only [Entry.kept, Thread.part, if_true]
          omega
  | ended => cases a <;> simp [layoutStep] at h

theorem cancelStep_ok {k used i rest unpublished : Nat} {e : Entry} {pc : CancelPc}
    {l : Local CancelPc} (h : cancelStep k used e pc = some l)
    (pre : LocalPre k used e (.cancel i pc) rest unpublished) :
    LocalOk k used e (.cancel i pc) rest unpublished
      ⟨l.used, l.entry, .cancel i l.pc, l.ops⟩ := by
  obtain ⟨hbounded, hfunded, hholds, hlive, hcovered, hpublished, hswap⟩ := pre
  cases pc with
  | waiting =>
      simp only [cancelStep] at h
      split at h
      · cases h
      · cases h; constructor <;> simp_all
  | swapping =>
      cases h
      constructor <;> simp_all
  | subtracting v =>
      simp only [Thread.credit] at hfunded
      simp only [cancelStep] at h
      rw [wrappingSub_of_le (by omega) hbounded] at h
      cases h
      constructor <;> simp_all <;> omega
  | ended => cases h

/-- **The step lemma of a thread on its entry.** -/
theorem stepOn_ok {k used rest unpublished : Nat} {e : Entry} {t : Thread} {a : Answer}
    {l : Local Thread} (h : t.stepOn k used e a = some l)
    (pre : LocalPre k used e t rest unpublished) : LocalOk k used e t rest unpublished l := by
  cases t with
  | store op pc => simp [Thread.stepOn] at h
  | worker i pc =>
      simp only [Thread.stepOn, Option.map_eq_some_iff] at h
      obtain ⟨l', hl', rfl⟩ := h
      exact workerStep_ok hl' pre
  | layout i pc =>
      simp only [Thread.stepOn, Option.map_eq_some_iff] at h
      obtain ⟨l', hl', rfl⟩ := h
      exact layoutStep_ok hl' pre
  | cancel i pc =>
      cases a <;> simp only [Thread.stepOn, Option.map_eq_some_iff, reduceCtorEq] at h
      obtain ⟨l', hl', rfl⟩ := h
      exact cancelStep_ok hl' pre

/-! ## The invariant -/

/-- What a thread knows about its entry. -/
structure Acts (k : Nat) (e : Entry) (t : Thread) : Prop where
  alive : e.alive = true
  holds : ∀ i, t.holds = some i → e.lock = some k
  live : t.live = true → e.cancelled = false
  swapping : ∀ i, t = .cancel i .swapping → e.cancelled = true

/-- **The invariant of the shared budget.** -/
structure Good (s : State) : Prop where
  bounded : s.used < u64
  balance : s.used = total Entry.reserved s.entries + total Thread.credit s.threads + s.lost
  acts : ∀ (k : Nat) (t : Thread) (i : Nat), s.threads[k]? = some t → t.entry? = some i →
    ∃ e, s.entries[i]? = some e ∧ Acts k e t
  covered : ∀ (i : Nat) (e : Entry), s.entries[i]? = some e → e.alive = true →
    e.cancelled = false → e.kept + total (Thread.partOn i) s.threads ≤ e.reserved
  published : ∀ (i : Nat) (e : Entry), s.entries[i]? = some e →
    e.total + total (Thread.unpublishedOn i) s.threads ≤ e.written
  stored : ∀ (i : Nat) (e : Entry), s.entries[i]? = some e → e.inStore = true → e.alive = true
  ops : ∀ op ∈ s.ops, op.Ok

theorem Thread.holds_of_live {t : Thread} (h : t.live = true) : t.holds = t.entry? := by
  rcases t with ⟨op, pc⟩ | ⟨j, pc⟩ | ⟨j, pc⟩ | ⟨j, pc⟩ <;> cases pc <;> simp_all

/-- A thread that has ended accounts for nothing. -/
theorem Thread.ended {t : Thread} (h : t.entry? = none) : t.part = 0 ∧ t.unpublished = 0 := by
  rcases t with ⟨op, pc⟩ | ⟨j, pc⟩ | ⟨j, pc⟩ | ⟨j, pc⟩ <;> cases pc <;> simp_all

theorem Thread.partOn_le (i : Nat) (t : Thread) : t.partOn i ≤ t.part := by
  rw [Thread.partOn]
  split <;> omega

theorem Thread.unpublishedOn_le (i : Nat) (t : Thread) : t.unpublishedOn i ≤ t.unpublished := by
  rw [Thread.unpublishedOn]
  split <;> omega

/-- An entry's reservation is part of `used`. -/
theorem Good.reserved_le {s : State} (hs : Good s) {i : Nat} {e : Entry}
    (h : s.entries[i]? = some e) : e.reserved ≤ s.used := by
  have hbal := hs.balance
  have := le_total (f := Entry.reserved) h
  omega

/-- What a thread holds is part of `used`. -/
theorem Good.credit_le {s : State} (hs : Good s) {k : Nat} {t : Thread}
    (h : s.threads[k]? = some t) : t.credit ≤ s.used := by
  have hbal := hs.balance
  have := le_total (f := Thread.credit) h
  omega

theorem good_start : Good start where
  bounded := by decide
  balance := rfl
  acts _ _ _ h := by simp [start] at h
  covered _ _ h := by simp [start] at h
  published _ _ h := by simp [start] at h
  stored _ _ h := by simp [start] at h
  ops _ h := by simp [start] at h

/-! ## Steps that keep the accounts of the threads -/

theorem Good.setEntry {s : State} (hs : Good s) {i : Nat} {e e' : Entry}
    (hi : s.entries[i]? = some e) (hsame : e.Same e') :
    Good { s with entries := s.entries.set i e' } := by
  have hlt : i < s.entries.length := (List.getElem?_eq_some_iff.mp hi).1
  -- an entry of the new list is unchanged, or is `e'`
  have hget : ∀ (j : Nat) (d : Entry), (s.entries.set i e')[j]? = some d →
      ∃ c : Entry, s.entries[j]? = some c ∧ c.Same d := by
    intro j d hd
    rcases set_cases hd with ⟨rfl, rfl⟩ | ⟨_, hold⟩
    · exact ⟨e, hi, hsame⟩
    · exact ⟨d, hold, rfl, rfl, rfl, rfl, rfl, rfl, Nat.le_refl _, rfl, id⟩
  refine ⟨hs.bounded, ?_, ?_, ?_, ?_, ?_, hs.ops⟩
  · have hbal := hs.balance
    have hset := total_set (f := Entry.reserved) hi e'
    have hres := hsame.reserved
    simp only
    omega
  · intro k t j hk hj
    obtain ⟨c, hc, hacts⟩ := hs.acts k t j hk hj
    by_cases hij : i = j
    · subst hij
      obtain rfl : e = c := Option.some.inj (hi.symm.trans hc)
      refine ⟨e', List.getElem?_set_self hlt, ?_, ?_, ?_, ?_⟩
      · rw [hsame.alive, hacts.alive]
      · rw [hsame.lock]; exact hacts.holds
      · rw [hsame.cancelled]; exact hacts.live
      · rw [hsame.cancelled]; exact hacts.swapping
    · exact ⟨c, by rw [List.getElem?_set_ne hij]; exact hc, hacts⟩
  · intro j d hd halive hcancelled
    obtain ⟨c, hc, hcd⟩ := hget j d hd
    have := hs.covered j c hc (hcd.alive ▸ halive) (hcd.cancelled ▸ hcancelled)
    have hk := hcd.kept
    have hr := hcd.reserved
    simp only
    omega
  · intro j d hd
    obtain ⟨c, hc, hcd⟩ := hget j d hd
    have := hs.published j c hc
    rw [hcd.total, hcd.written]
    exact this
  · intro j d hd hin
    obtain ⟨c, hc, hcd⟩ := hget j d hd
    rw [hcd.alive]
    exact hs.stored j c hc (hcd.inStore hin)

theorem Thread.fresh_spec {t : Thread} (h : t.fresh = true) :
    t.credit = 0 ∧ t.part = 0 ∧ t.unpublished = 0 ∧ t.holds = none ∧
      ∀ i, t ≠ .cancel i .swapping := by
  rcases t with ⟨op, pc⟩ | ⟨j, pc⟩ | ⟨j, pc⟩ | ⟨j, pc⟩
  · cases h
  · cases pc <;> simp_all [Thread.fresh]
  · rcases pc with ⟨_ | _, _ | _⟩ | _ <;> simp_all [Thread.fresh]
  · cases pc <;> simp_all [Thread.fresh]

/-- A new thread has nothing yet. -/
theorem Good.spawn {s : State} (hs : Good s) {t : Thread}
    (hfresh : t.fresh = true ∨ ∃ op, t = .store op .queued)
    (hentry : ∀ i, t.entry? = some i → ∃ e, s.entries[i]? = some e ∧ e.alive = true) :
    Good { s with threads := s.threads ++ [t] } := by
  obtain ⟨hcredit, hpart, hunpublished, hholds, hswap⟩ : t.credit = 0 ∧ t.part = 0 ∧
      t.unpublished = 0 ∧ t.holds = none ∧ ∀ i, t ≠ .cancel i .swapping := by
    rcases hfresh with hfresh | ⟨op, rfl⟩
    · exact Thread.fresh_spec hfresh
    · simp
  have hpartOn : ∀ i, t.partOn i = 0 := fun i => by
    have := Thread.partOn_le i t
    omega
  have hunpublishedOn : ∀ i, t.unpublishedOn i = 0 := fun i => by
    have := Thread.unpublishedOn_le i t
    omega
  refine ⟨hs.bounded, ?_, ?_, ?_, ?_, hs.stored, hs.ops⟩
  · have hbal := hs.balance
    simp only [total_append, total_cons, total_nil, hcredit]
    omega
  · intro k u i hk hu
    rcases Nat.lt_or_ge k s.threads.length with hlt | hge
    · rw [List.getElem?_append_left hlt] at hk
      exact hs.acts k u i hk hu
    · rw [List.getElem?_append_right hge, List.getElem?_singleton] at hk
      split at hk
      · obtain rfl := Option.some.inj hk
        obtain ⟨e, he, halive⟩ := hentry i hu
        refine ⟨e, he, halive, ?_, ?_, ?_⟩
        · exact fun i h => by rw [hholds] at h; cases h
        · intro hlive
          rw [← Thread.holds_of_live hlive, hholds] at hu
          cases hu
        · exact fun i h => absurd h (hswap i)
      · cases hk
  · intro i e he halive hcancelled
    have hcov := hs.covered i e he halive hcancelled
    simp only [total_append, total_cons, total_nil, hpartOn]
    omega
  · intro i e he
    have hpub := hs.published i e he
    simp only [total_append, total_cons, total_nil, hunpublishedOn]
    omega

/-- A step of a store operation: it has no entry, so only the balance is at stake. -/
theorem Good.setStore {s : State} (hs : Good s) {k : Nat} {op op' : StoreOp}
    {pc pc' : StorePc} (hk : s.threads[k]? = some (.store op pc)) {used lost : Nat}
    {ops : List Op} (hbounded : used < u64)
    (hbalance : used + (Thread.store op pc).credit + s.lost
      = s.used + (Thread.store op' pc').credit + lost)
    (hops : ∀ o ∈ ops, o.Ok) :
    Good { s with used := used, threads := s.threads.set k (.store op' pc'), lost := lost,
                  ops := ops } := by
  refine ⟨hbounded, ?_, ?_, ?_, ?_, hs.stored, hops⟩
  · have hset := total_set (f := Thread.credit) hk (.store op' pc')
    have hbal := hs.balance
    simp only
    omega
  · intro j t i hj ht
    by_cases hkj : k = j
    · subst hkj
      have hlt : k < s.threads.length := (List.getElem?_eq_some_iff.mp hk).1
      simp only [List.getElem?_set_self hlt, Option.some.injEq] at hj
      subst hj
      cases ht
    · simp only [List.getElem?_set_ne hkj] at hj
      exact hs.acts j t i hj ht
  · intro i e he halive hcancelled
    have hset := total_set (f := Thread.partOn i) hk (.store op' pc')
    have hcov := hs.covered i e he halive hcancelled
    simp only [Thread.partOn, Thread.entry?, reduceCtorEq, if_false] at hset
    simp only
    omega
  · intro i e he
    have hset := total_set (f := Thread.unpublishedOn i) hk (.store op' pc')
    have hpub := hs.published i e he
    simp only [Thread.unpublishedOn, Thread.entry?, reduceCtorEq, if_false] at hset
    simp only
    omega

/-- A new entry, funded from `lost`: the reservation it comes with was nobody's. -/
theorem Good.addEntry {s : State} (hs : Good s) {e : Entry} (hfunds : e.reserved ≤ s.lost)
    (halive : e.alive = true) (hkept : e.kept ≤ e.reserved) (htotal : e.total ≤ e.written) :
    Good { s with entries := s.entries ++ [e], lost := s.lost - e.reserved } := by
  -- no thread works on the new index yet
  have hnone : ∀ t ∈ s.threads, t.entry? ≠ some s.entries.length := by
    intro t ht hte
    obtain ⟨k, hk⟩ := List.getElem?_of_mem ht
    obtain ⟨c, hc, _⟩ := hs.acts k t _ hk hte
    rw [List.getElem?_eq_none (Nat.le_refl _)] at hc
    cases hc
  have hcases : ∀ i d, (s.entries ++ [e])[i]? = some d →
      s.entries[i]? = some d ∨ i = s.entries.length ∧ d = e := by
    intro i d hd
    rcases Nat.lt_or_ge i s.entries.length with hlt | hge
    · exact .inl (by rwa [List.getElem?_append_left hlt] at hd)
    · rw [List.getElem?_append_right hge, List.getElem?_singleton] at hd
      split at hd
      · exact .inr ⟨by omega, (Option.some.inj hd).symm⟩
      · cases hd
  refine ⟨hs.bounded, ?_, ?_, ?_, ?_, ?_, hs.ops⟩
  · have := hs.balance
    simp only [total_append, total_cons, total_nil]
    omega
  · intro k t i hk ht
    obtain ⟨c, hc, hacts⟩ := hs.acts k t i hk ht
    have hlt := (List.getElem?_eq_some_iff.mp hc).1
    exact ⟨c, by rw [List.getElem?_append_left hlt]; exact hc, hacts⟩
  · intro i d hd hdalive hcancelled
    rcases hcases i d hd with hold | ⟨rfl, rfl⟩
    · exact hs.covered i d hold hdalive hcancelled
    · rw [total_eq_zero fun t ht => by rw [Thread.partOn, if_neg (hnone t ht)]]
      exact hkept
  · intro i d hd
    rcases hcases i d hd with hold | ⟨rfl, rfl⟩
    · exact hs.published i d hold
    · rw [total_eq_zero fun t ht => by rw [Thread.unpublishedOn, if_neg (hnone t ht)]]
      exact htotal
  · intro i d hd hin
    rcases hcases i d hd with hold | ⟨rfl, rfl⟩
    · exact hs.stored i d hold hin
    · exact halive

/-- Replacing an entry in its store, and adding the new one. -/
theorem Good.insertEntry {s : State} (hs : Good s) {e : Entry} (hfunds : e.reserved ≤ s.lost)
    (halive : e.alive = true) (hkept : e.kept ≤ e.reserved) (htotal : e.total ≤ e.written) :
    Good { s with entries := (insertEntry s.entries e).1, lost := s.lost - e.reserved } := by
  rw [Budget.insertEntry]
  cases hfind : find s.entries e.side e.id with
  | none => exact hs.addEntry hfunds halive hkept htotal
  | some i =>
      simp only [List.modify_eq_set_getElem?]
      cases hold : s.entries[i]? with
      | none => exact hs.addEntry hfunds halive hkept htotal
      | some old =>
          have hsame : old.Same { old with inStore := false } :=
            ⟨rfl, rfl, rfl, rfl, rfl, rfl, Nat.le_refl _, rfl, fun h => nomatch h⟩
          exact (hs.setEntry hold hsame).addEntry hfunds halive hkept htotal

/-- The new entry is the last one, and the one it replaces is alive if it is there. -/
theorem insertEntry_spec {entries : List Entry} {e : Entry} :
    (insertEntry entries e).1[entries.length]? = some e ∧
      ∀ i, (insertEntry entries e).2 = some i → ∃ old, entries[i]? = some old ∧
        old.inStore = true ∧ (insertEntry entries e).1[i]? = some { old with inStore := false } := by
  rw [insertEntry]
  cases hfind : find entries e.side e.id with
  | none => simp
  | some j =>
      obtain ⟨hlt, hp, _⟩ := List.findIdx?_eq_some_iff_getElem.mp hfind
      simp only [Bool.and_eq_true] at hp
      have hold := List.getElem?_eq_getElem hlt
      refine ⟨by simp, ?_⟩
      rintro i ⟨⟩
      refine ⟨entries[j], hold, hp.1.1, ?_⟩
      rw [List.getElem?_append_left (by simpa using hlt), List.getElem?_modify, hold]
      simp

/-! ## The step of a thread on its entry -/

/-- What the accounts of the other threads come to. -/
theorem total_others {f : Thread → Nat} {l : List Thread} {k : Nat} {t : Thread}
    (h : l[k]? = some t) : total f l = f t + (total f l - f t) := by
  have := le_total (f := f) h
  omega

theorem Good.localPre {s : State} (hs : Good s) {k i : Nat} {t : Thread} {e : Entry}
    (hk : s.threads[k]? = some t) (hi : t.entry? = some i) (he : s.entries[i]? = some e) :
    LocalPre k s.used e t (total (Thread.partOn i) s.threads - t.part)
      (total (Thread.unpublishedOn i) s.threads - t.unpublished) := by
  obtain ⟨e', he', hacts⟩ := hs.acts k t i hk hi
  obtain rfl : e = e' := Option.some.inj (he.symm.trans he')
  have hpart : t.partOn i = t.part := if_pos hi
  have hunpublished : t.unpublishedOn i = t.unpublished := if_pos hi
  refine ⟨hs.bounded, ?_, hacts.holds, hacts.live, ?_, ?_, hacts.swapping⟩
  · have hbal := hs.balance
    have he := le_total (f := Entry.reserved) he
    have ht := le_total (f := Thread.credit) hk
    omega
  · intro hcancelled
    have hcov := hs.covered i e he hacts.alive hcancelled
    have ht := total_others (f := Thread.partOn i) hk
    omega
  · have hpub := hs.published i e he
    have ht := total_others (f := Thread.unpublishedOn i) hk
    omega

/-- **A thread's step on its entry keeps the invariant.** -/
theorem Good.act {s : State} (hs : Good s) {k i : Nat} {t : Thread} {e : Entry} {a : Answer}
    {l : Local Thread} (hk : s.threads[k]? = some t) (hi : t.entry? = some i)
    (he : s.entries[i]? = some e) (hl : t.stepOn k s.used e a = some l) :
    Good { s with used := l.used, entries := s.entries.set i l.entry,
                  threads := s.threads.set k l.pc, ops := l.ops ++ s.ops } := by
  have hok := stepOn_ok hl (hs.localPre hk hi he)
  have hklt : k < s.threads.length := (List.getElem?_eq_some_iff.mp hk).1
  have hilt : i < s.entries.length := (List.getElem?_eq_some_iff.mp he).1
  obtain ⟨e', he', hacts⟩ := hs.acts k t i hk hi
  obtain rfl : e = e' := Option.some.inj (he.symm.trans he')
  have hentry : ∀ j, l.pc.entry? = some j → j = i := by
    intro j hj
    rcases hok.entry with h | h
    · rw [h, hi] at hj
      exact (Option.some.inj hj).symm
    · rw [h] at hj
      cases hj
  -- what the two ledgers of an entry `j` come to after the step
  have hpart : ∀ j, total (Thread.partOn j) (s.threads.set k l.pc)
      ≤ total (Thread.partOn j) s.threads - t.partOn j + l.pc.partOn j := by
    intro j
    have := total_set (f := Thread.partOn j) hk l.pc
    omega
  have hunpublished : ∀ j, total (Thread.unpublishedOn j) (s.threads.set k l.pc)
      ≤ total (Thread.unpublishedOn j) s.threads - t.unpublishedOn j
        + l.pc.unpublishedOn j := by
    intro j
    have := total_set (f := Thread.unpublishedOn j) hk l.pc
    omega
  refine ⟨hok.bounded, ?_, ?_, ?_, ?_, ?_, ?_⟩
  · have hbal := hs.balance
    have hent := total_set (f := Entry.reserved) he l.entry
    have hthr := total_set (f := Thread.credit) hk l.pc
    have hloc := hok.balance
    simp only
    omega
  · intro k' u j hk' hu
    by_cases hkk : k = k'
    · subst hkk
      rw [List.getElem?_set_self hklt] at hk'
      obtain rfl := Option.some.inj hk'
      obtain rfl := hentry j hu
      exact ⟨l.entry, List.getElem?_set_self hilt, hok.alive.trans hacts.alive,
        fun x hx => (hok.holds x hx).2, hok.live, hok.swapping⟩
    · rw [List.getElem?_set_ne hkk] at hk'
      obtain ⟨c, hc, hother⟩ := hs.acts k' u j hk' hu
      by_cases hij : i = j
      · subst hij
        obtain rfl : e = c := Option.some.inj (he.symm.trans hc)
        refine ⟨l.entry, List.getElem?_set_self hilt, hok.alive.trans hother.alive,
          ?_, ?_, ?_⟩
        · exact fun x hx => (hok.frame k' (hother.holds x hx) (Ne.symm hkk)).1
        · intro hlive
          have hlock := hother.holds i (by rw [Thread.holds_of_live hlive, hu])
          rw [(hok.frame k' hlock (Ne.symm hkk)).2]
          exact hother.live hlive
        · exact fun x hx => (hok.stays (hother.swapping x hx)).1
      · exact ⟨c, by rw [List.getElem?_set_ne hij]; exact hc, hother⟩
  · intro j d hd halive hcancelled
    rcases set_cases hd with ⟨rfl, rfl⟩ | ⟨hji, hold⟩
    · have hcov := hok.covered hcancelled
      have hp := hpart j
      have ht : t.partOn j = t.part := if_pos hi
      have hl := Thread.partOn_le j l.pc
      simp only
      omega
    · have hcov := hs.covered j d hold halive hcancelled
      have hp := hpart j
      have hl : l.pc.partOn j = 0 := if_neg fun h => hji (hentry j h)
      simp only
      omega
  · intro j d hd
    rcases set_cases hd with ⟨rfl, rfl⟩ | ⟨hji, hold⟩
    · have hpub := hok.published
      have hp := hunpublished j
      have ht : t.unpublishedOn j = t.unpublished := if_pos hi
      have hl := Thread.unpublishedOn_le j l.pc
      simp only
      omega
    · have hpub := hs.published j d hold
      have hp := hunpublished j
      have hl : l.pc.unpublishedOn j = 0 := if_neg fun h => hji (hentry j h)
      simp only
      omega
  · intro j d hd hin
    rcases set_cases hd with ⟨rfl, rfl⟩ | ⟨_, hold⟩
    · exact hok.alive.trans hacts.alive
    · exact hs.stored j d hold hin
  · intro op hop
    rcases List.mem_append.mp hop with h | h
    · exact hok.ops op h
    · exact hs.ops op h

/-! ## Every step keeps the invariant -/

theorem Good.storeMove {s : State} (hs : Good s) {k : Nat} {op : StoreOp} {pc pc' : StorePc}
    {used lost : Nat} {ops : List Op} (hk : s.threads[k]? = some (.store op pc))
    (h : StoreMove s op pc pc' used lost ops) :
    Good { s with used := used, threads := s.threads.set k (.store op pc'), lost := lost,
                  ops := ops } := by
  cases h with
  | quiet hcase =>
      refine hs.setStore hk hs.bounded ?_ hs.ops
      rcases hcase with ⟨rfl, rfl⟩ | ⟨rfl, rfl⟩ | ⟨rfl, rfl, _⟩ <;> rfl
  | reserve hnext =>
      obtain ⟨rfl, hlt, hle⟩ := checkedReserve_some hnext
      refine hs.setStore hk hlt ?_ (List.forall_mem_cons.mpr ⟨hle, hs.ops⟩)
      simp only [Thread.credit]
      omega
  | lose =>
      refine hs.setStore hk hs.bounded ?_ hs.ops
      simp only [Thread.credit]
      omega
  | release =>
      have hle : op.length ≤ s.used := hs.credit_le hk
      have hbounded := hs.bounded
      rw [wrappingSub_of_le hle hs.bounded]
      refine hs.setStore hk (by omega) ?_ (List.forall_mem_cons.mpr ⟨hle, hs.ops⟩)
      simp only [Thread.credit]
      omega

theorem Good.dropFuture {s : State} (hs : Good s) {k : Nat} {op : StoreOp} {pc : StorePc}
    (hk : s.threads[k]? = some (.store op pc)) : Good (dropStep s k op pc) := by
  cases pc with
  | stored =>
      refine hs.setStore hk hs.bounded ?_ hs.ops
      simp only [Thread.credit]
      omega
  | _ => exact hs.setStore hk hs.bounded rfl hs.ops

/-- The new entry takes over what the thread held; the one it replaces is to be cancelled. -/
theorem Good.insert {s : State} (hs : Good s) {k : Nat} {op : StoreOp}
    (hk : s.threads[k]? = some (.store op .stored)) :
    Good { s with
      entries := (Budget.insertEntry s.entries op.newEntry).1
      threads := s.threads.set k (.store op .ended) ++
        ((Budget.insertEntry s.entries op.newEntry).2.map fun i => .cancel i .waiting).toList } := by
  have hset : Good { s with
      threads := s.threads.set k (.store op .ended), lost := s.lost + op.length } :=
    hs.setStore hk hs.bounded (by simp only [Thread.credit]; omega) hs.ops
  have hins := hset.insertEntry (e := op.newEntry) (Nat.le_add_left ..) rfl
    (by simp [StoreOp.newEntry]) (Nat.le_refl _)
  have hreserved : op.newEntry.reserved = op.length := rfl
  simp only [hreserved, Nat.add_sub_cancel] at hins
  cases hprevious : (Budget.insertEntry s.entries op.newEntry).2 with
  | none => simpa using hins
  | some i =>
      obtain ⟨old, hold, hin, hnew⟩ := insertEntry_spec.2 i hprevious
      refine hins.spawn (.inl rfl) ?_
      rintro j ⟨⟩
      exact ⟨_, hnew, hs.stored i old hold hin⟩

theorem Good.record {s : State} (hs : Good s) (side : Side) (id limit : Nat) :
    Good { s with
      entries := (Budget.insertEntry s.entries (recordEntry side id limit)).1
      threads := s.threads ++ [.worker s.entries.length .head] } := by
  have hins := hs.insertEntry (e := recordEntry side id limit) (Nat.zero_le _) rfl
    (by simp [recordEntry]) (Nat.le_refl _)
  refine Good.spawn hins (.inl rfl) ?_
  rintro j ⟨⟩
  exact ⟨_, insertEntry_spec.1, rfl⟩

theorem Good.touch {s : State} (hs : Good s) {i : Nat} {e e' : Entry} {t? : Option Thread}
    (he : s.entries[i]? = some e) (hsame : e.Same e')
    (ht : ∀ t ∈ t?, t.fresh = true ∧ t.entry? = some i ∧ (e.alive = true ∨ e.inStore = true)) :
    Good { s with entries := s.entries.set i e', threads := s.threads ++ t?.toList } := by
  have hset := hs.setEntry he hsame
  cases t? with
  | none => simpa using hset
  | some t =>
      obtain ⟨hfresh, hi, halive⟩ := ht t rfl
      refine hset.spawn (.inl hfresh) ?_
      intro j hj
      obtain rfl : i = j := Option.some.inj (hi.symm.trans hj)
      refine ⟨e', List.getElem?_set_self (List.getElem?_eq_some_iff.mp he).1, ?_⟩
      rw [hsame.alive]
      exact halive.elim id (hs.stored i e he)

theorem Good.dropEntry {s : State} (hs : Good s) {i : Nat} {e : Entry}
    (he : s.entries[i]? = some e) (hout : e.inStore = false)
    (hidle : ∀ t ∈ s.threads, t.entry? ≠ some i) :
    Good { s with
      used := wrappingSub s.used e.reserved
      entries := s.entries.set i { e with alive := false, reserved := 0 }
      ops := .sub s.used e.reserved :: s.ops } := by
  have hle := hs.reserved_le he
  have hilt : i < s.entries.length := (List.getElem?_eq_some_iff.mp he).1
  have hbounded := hs.bounded
  rw [wrappingSub_of_le hle hs.bounded]
  refine ⟨by simp only; omega, ?_, ?_, ?_, ?_, ?_, ?_⟩
  · have hbal := hs.balance
    have hset := total_set (f := Entry.reserved) he { e with alive := false, reserved := 0 }
    simp only at hset ⊢
    omega
  · intro k t j hk hj
    have hij : i ≠ j := by
      rintro rfl
      exact hidle t (List.mem_of_getElem? hk) hj
    obtain ⟨c, hc, hacts⟩ := hs.acts k t j hk hj
    exact ⟨c, by rw [List.getElem?_set_ne hij]; exact hc, hacts⟩
  · intro j d hd halive
    rcases set_cases hd with ⟨rfl, rfl⟩ | ⟨_, hold⟩
    · cases halive
    · exact hs.covered j d hold halive
  · intro j d hd
    rcases set_cases hd with ⟨rfl, rfl⟩ | ⟨_, hold⟩
    · exact hs.published j e he
    · exact hs.published j d hold
  · intro j d hd hin
    rcases set_cases hd with ⟨rfl, rfl⟩ | ⟨_, hold⟩
    · simp only [hout, Bool.false_eq_true] at hin
    · exact hs.stored j d hold hin
  · exact List.forall_mem_cons.mpr ⟨hle, hs.ops⟩

/-- **The invariant is kept by every step.** -/
theorem Good.step {s s' : State} {event : Event} (hs : Good s)
    (h : StepCases s event s') : Good s' := by
  cases h with
  | call op => exact hs.spawn (.inr ⟨_, rfl⟩) (fun _ h => nomatch h)
  | closure hk hmove _ => exact hs.storeMove hk hmove
  | dropFuture hk => exact hs.dropFuture hk
  | insert hk => exact hs.insert hk
  | record side id limit => exact hs.record side id limit
  | act hk hi he hl => exact hs.act hk hi he hl
  | touch _ he hsame ht _ => exact hs.touch he hsame ht
  | drop he hout hidle => exact hs.dropEntry he hout hidle

theorem good_of_reachable {s : State} (h : machine.Reachable s) : Good s :=
  h.invariant good_start fun hs _ hstep => hs.step (step_cases hstep)

/-! ## Reservations -/

/-- A step that makes `used` grow logs that reservation, made under the limit of the
operation or of the entry it is for. -/
theorem step_grows {s s' : State} {event : Event} (hs : Good s) (h : StepCases s event s')
    (hgrow : s.used < s'.used) :
    ∃ limit, s'.ops = .reserve s'.used limit :: s.ops ∧
      ((∃ op pc, .store op pc ∈ s.threads ∧ op.limit = limit) ∨
        ∃ e ∈ s.entries, e.limit = limit) := by
  cases h with
  | closure hk hmove _ =>
      cases hmove with
      | quiet => exact absurd hgrow (Nat.lt_irrefl _)
      | reserve hnext => exact ⟨_, rfl, .inl ⟨_, _, List.mem_of_getElem? hk, rfl⟩⟩
      | lose => exact absurd hgrow (Nat.lt_irrefl _)
      | release =>
          have hle := hs.credit_le hk
          simp only [Thread.credit] at hle
          simp only [wrappingSub_of_le hle hs.bounded] at hgrow
          omega
  | dropFuture hk =>
      rename_i pc
      cases pc <;> exact absurd hgrow (Nat.lt_irrefl _)
  | act hk hi he hl =>
      have hok := stepOn_ok hl (hs.localPre hk hi he)
      refine ⟨_, ?_, .inr ⟨_, List.mem_of_getElem? he, rfl⟩⟩
      rw [hok.grows hgrow]
      rfl
  | drop he _ _ =>
      simp only [wrappingSub_of_le (hs.reserved_le he) hs.bounded] at hgrow
      omega
  | _ => exact absurd hgrow (Nat.lt_irrefl _)

/-- The operations an event starts run under `limit`. -/
def UnderLimit (limit : Nat) : Event → Prop
  | .call op => op.limit = limit
  | .record _ _ l => l = limit
  | _ => True

/-- Every limit in force is `limit`, and it is kept. -/
structure Capped (limit : Nat) (s : State) : Prop where
  used : s.used ≤ limit
  entries : ∀ e ∈ s.entries, e.limit = limit
  ops : ∀ op pc, .store op pc ∈ s.threads → op.limit = limit

theorem Capped.set {limit : Nat} {s : State} (hs : Capped limit s) {i : Nat} {e e' : Entry}
    (hi : s.entries[i]? = some e) (hlimit : e'.limit = e.limit) :
    ∀ d ∈ s.entries.set i e', d.limit = limit := by
  intro d hd
  rcases List.mem_or_eq_of_mem_set hd with hold | rfl
  · exact hs.entries d hold
  · rw [hlimit]
    exact hs.entries e (List.mem_of_getElem? hi)

theorem Capped.setStore {limit : Nat} {s : State} (hs : Capped limit s) {k : Nat}
    {op : StoreOp} {pc : StorePc} (hk : s.threads[k]? = some (.store op pc)) {op' : StoreOp}
    (hlimit : op'.limit = op.limit) {pc' : StorePc} :
    ∀ o q, .store o q ∈ s.threads.set k (.store op' pc') → o.limit = limit := by
  intro o q ho
  rcases List.mem_or_eq_of_mem_set ho with hold | heq
  · exact hs.ops o q hold
  · cases heq
    rw [hlimit]
    exact hs.ops op pc (List.mem_of_getElem? hk)

theorem Capped.insert {limit : Nat} {s : State} (hs : Capped limit s) {e : Entry}
    (he : e.limit = limit) : ∀ d ∈ (insertEntry s.entries e).1, d.limit = limit := by
  intro d hd
  rw [insertEntry] at hd
  cases hfind : find s.entries e.side e.id with
  | none =>
      simp only [hfind, List.mem_append, List.mem_singleton] at hd
      rcases hd with hold | rfl
      · exact hs.entries d hold
      · exact he
  | some i =>
      simp only [hfind, List.mem_append, List.mem_singleton, List.modify_eq_set_getElem?] at hd
      rcases hd with hold | rfl
      · cases hi : s.entries[i]? with
        | none =>
            rw [hi] at hold
            exact hs.entries d hold
        | some old =>
            rw [hi] at hold
            have hlimit : ({ old with inStore := false } : Entry).limit = old.limit := rfl
            exact hs.set hi hlimit d hold
      · exact he

/-- A thread on an entry does not become a store operation. -/
theorem stepOn_not_store {k used : Nat} {e : Entry} {t : Thread} {a : Answer}
    {l : Local Thread} (h : t.stepOn k used e a = some l) (op : StoreOp) (pc : StorePc) :
    l.pc ≠ .store op pc := by
  rcases t with ⟨_, _⟩ | ⟨j, q⟩ | ⟨j, q⟩ | ⟨j, q⟩
  · simp [Thread.stepOn] at h
  · obtain ⟨_, _, rfl⟩ := Option.map_eq_some_iff.mp h
    exact fun h => nomatch h
  · obtain ⟨_, _, rfl⟩ := Option.map_eq_some_iff.mp h
    exact fun h => nomatch h
  · cases a <;> simp only [Thread.stepOn, Option.map_eq_some_iff, reduceCtorEq] at h
    obtain ⟨_, _, rfl⟩ := h
    exact fun h => nomatch h

theorem Capped.step {limit : Nat} {s s' : State} {event : Event} (hgood : Good s)
    (hs : Capped limit s) (hlimit : UnderLimit limit event) (h : StepCases s event s') :
    Capped limit s' := by
  -- what the new state reserved, it reserved under `limit`
  have hused : s'.used ≤ limit := by
    rcases Nat.lt_or_ge s.used s'.used with hgrow | hle
    · obtain ⟨l, hops, hsource⟩ := step_grows hgood h hgrow
      have hok := (hgood.step h).ops (.reserve s'.used l) (by rw [hops]; simp)
      rcases hsource with ⟨op, pc, hmem, rfl⟩ | ⟨e, hmem, rfl⟩
      · exact hs.ops op pc hmem ▸ hok
      · exact hs.entries e hmem ▸ hok
    · exact Nat.le_trans hle hs.used
  -- a store operation among appended threads
  have hspawn : ∀ (ts ts' : List Thread), (∀ op pc, .store op pc ∈ ts → op.limit = limit) →
      (∀ op pc, .store op pc ∈ ts' → op.limit = limit) →
      ∀ op pc, .store op pc ∈ ts ++ ts' → op.limit = limit := by
    intro ts ts' h h' op pc hmem
    exact (List.mem_append.mp hmem).elim (h op pc) (h' op pc)
  cases h with
  | call op =>
      refine ⟨hused, hs.entries, hspawn _ _ hs.ops ?_⟩
      intro o q ho
      cases List.mem_singleton.mp ho
      exact hlimit
  | closure hk _ _ => exact ⟨hused, hs.entries, hs.setStore hk rfl⟩
  | dropFuture hk =>
      rename_i k op pc
      refine ⟨?_, ?_, ?_⟩ <;> cases pc <;> first
        | exact hused
        | exact hs.entries
        | exact hs.setStore hk rfl
        | exact hs.setStore hk (rfl : ({ op with awaited := false } : StoreOp).limit = op.limit)
  | insert hk =>
      rename_i op
      refine ⟨hused, hs.insert (hs.ops op _ (List.mem_of_getElem? hk)),
        hspawn _ _ (hs.setStore hk rfl) ?_⟩
      intro o q ho
      simp at ho
  | record side id l =>
      refine ⟨hused, hs.insert hlimit, hspawn _ _ hs.ops ?_⟩
      intro o q ho
      simp at ho
  | act hk hi he hl =>
      have hok := stepOn_ok hl (hgood.localPre hk hi he)
      refine ⟨hused, hs.set he hok.limit, fun op pc hmem => ?_⟩
      rcases List.mem_or_eq_of_mem_set hmem with hold | heq
      · exact hs.ops op pc hold
      · exact absurd heq.symm (stepOn_not_store hl op pc)
  | touch _ he hsame ht _ =>
      refine ⟨hused, hs.set he hsame.limit, hspawn _ _ hs.ops ?_⟩
      intro o q ho
      have := ht _ (Option.mem_toList.mp ho)
      exact nomatch this.1
  | drop he _ _ => exact ⟨hused, hs.set he rfl, hs.ops⟩

/-- What an entry that is still referenced has reserved. -/
def liveReserved (e : Entry) : Nat := if e.alive then e.reserved else 0

/-- **The budget is never overrun.** In every reachable state: every reservation made stays in its
limit, and every increase of `used` is one, so `used` stays in a limit that is never changed;
the reservations of the live entries are covered by `used`; no subtraction from `used` or
from a reservation takes more than is there; and an entry that is not cancelled has
reserved at least the bytes in its file and in its ready layout. -/
theorem budget_is_never_overrun {s : State} (h : machine.Reachable s) :
    (∀ next limit, .reserve next limit ∈ s.ops → next ≤ limit) ∧
    (∀ event s', machine.step s event = some s' → s.used < s'.used →
      ∃ limit, s'.ops = .reserve s'.used limit :: s.ops ∧ s'.used ≤ limit) ∧
    (∀ limit, machine.Reach (fun _ event => UnderLimit limit event) s → s.used ≤ limit) ∧
    total liveReserved s.entries ≤ s.used ∧ s.used < u64 ∧
    (∀ current amount, .sub current amount ∈ s.ops → amount ≤ current) ∧
    (∀ e ∈ s.entries, e.alive = true → e.cancelled = false →
      e.total ≤ e.written ∧
        e.written + (if e.json = .ready then e.layout else 0) ≤ e.reserved) := by
  have hgood := good_of_reachable h
  refine ⟨fun _ _ hmem => hgood.ops _ hmem, ?_, ?_, ?_, hgood.bounded,
    fun _ _ hmem => hgood.ops _ hmem, ?_⟩
  · intro event s' hstep hgrow
    have hcases := step_cases hstep
    obtain ⟨limit, hops, _⟩ := step_grows hgood hcases hgrow
    refine ⟨limit, hops, ?_⟩
    exact (hgood.step hcases).ops (.reserve s'.used limit) (by rw [hops]; simp)
  · intro limit hreach
    suffices hboth : Good s ∧ Capped limit s from hboth.2.used
    refine hreach.invariant (I := fun s => Good s ∧ Capped limit s) ⟨good_start, ?_⟩ ?_
    · exact ⟨Nat.zero_le _, by simp [machine, start], by simp [machine, start]⟩
    · intro s s' event hs hlimit hstep
      have hcases := step_cases hstep
      exact ⟨hs.1.step hcases, hs.2.step hs.1 hlimit hcases⟩
  · have hbal := hgood.balance
    have hlive : total liveReserved s.entries ≤ total Entry.reserved s.entries := by
      refine total_le_total fun e _ => ?_
      rw [liveReserved]
      split <;> omega
    omega
  · intro e he halive hcancelled
    obtain ⟨i, hi⟩ := List.getElem?_of_mem he
    have hcov := hgood.covered i e hi halive hcancelled
    have hpub := hgood.published i e hi
    simp only [Entry.kept] at hcov
    omega

/-- A response is cancelled while its worker writes, and a store operation reserves. -/
def cancelDuringWrite : List Event :=
  [.record .response 1 100, .step 0 .go, .step 0 (.bytes 5), .step 0 .go, .step 0 .go,
    .step 0 .go, .call ⟨.request, 2, 7, 100, true⟩, .closure 1 true, .remove 0, .step 0 .ok,
    .step 2 .go, .step 2 .go, .step 2 .go]

/-- There the budget holds exactly what the store operation reserved. -/
theorem budget_after_cancelDuringWrite :
    let s := (machine.run cancelDuringWrite).get (by decide)
    s.used = 7 ∧ total liveReserved s.entries ≤ s.used ∧
      ∀ current amount, .sub current amount ∈ s.ops → amount ≤ current :=
  have h := budget_is_never_overrun (Machine.reachable_get cancelDuringWrite (by decide))
  ⟨by decide, h.2.2.2.1, h.2.2.2.2.2.1⟩

end SippinSoda.Budget
