import SippinSoda.BudgetSafety

/-!
# Leaks of the disk budget

When nothing works on the two stores any more, every reserved byte should belong to an
entry that is still in one of them. A store operation breaks this when its future is
dropped at its await: the blocking closure runs on, reserves and writes, and its result is
dropped with the reservation in it, since the entry that would release it is made by the
caller.

* `Settled` — the invariant: what is outside the stores is given back or about to be;
* `received` — the steps at which no such result is lost;
* `budget_is_returned_when_received` — in these runs nothing leaks;
* `dropped_store_leaks` — one dropped future leaks for good.
-/

namespace SippinSoda.Budget

open Ledger

/-- The step does not lose the result of a blocking closure that stored a body: no closure
ends well after its future was dropped, and no future is dropped after its closure ended
well. -/
def received (s : State) : Event → Bool
  | .closure k true =>
      match s.threads[k]? with
      | some (.store op .reserved) => op.awaited || op.length == 0
      | _ => true
  | .dropFuture k =>
      match s.threads[k]? with
      | some (.store op .stored) => op.length == 0
      | _ => true
  | _ => true

/-- A response is recorded at most once, so `record` finds no entry to replace. -/
def recordsOnce (s : State) : Event → Bool
  | .record side id _ => find s.entries side id == none
  | _ => true

/-- The thread has nothing left to do. -/
def Thread.idle : Thread → Bool
  | .store _ pc => pc == .ended
  | t => t.entry? == none

/-- Nothing works on the stores. -/
def State.quiet (s : State) : Bool := s.threads.all Thread.idle

/-- What an entry present in its store has reserved. -/
def presentReserved (e : Entry) : Nat := if e.inStore then e.reserved else 0

/-! ## The invariant -/

/-- An entry outside the stores is cancelled, or is about to be; a cancelled one holds
nothing, or is about to be emptied. -/
structure Settled (s : State) : Prop where
  cancelled : ∀ (i : Nat) (e : Entry), s.entries[i]? = some e → e.cancelled = true →
    e.reserved = 0 ∨ .cancel i .swapping ∈ s.threads
  removed : ∀ (i : Nat) (e : Entry), s.entries[i]? = some e → e.alive = true →
    e.inStore = false → e.cancelled = true ∨ .cancel i .waiting ∈ s.threads
  dead : ∀ (i : Nat) (e : Entry), s.entries[i]? = some e → e.alive = false → e.reserved = 0

theorem mem_set_of_ne {l : List Thread} {k : Nat} {a b : Thread} (ha : a ∈ l)
    (hk : l[k]? = some b) (hne : a ≠ b) (c : Thread) : a ∈ l.set k c := by
  obtain ⟨j, hj⟩ := List.getElem?_of_mem ha
  have hjk : k ≠ j := by
    rintro rfl
    exact hne (Option.some.inj (hj.symm.trans hk))
  exact List.mem_of_getElem? (i := j) (by rw [List.getElem?_set_ne hjk]; exact hj)

/-- Where an entry of the new map comes from. -/
theorem insertEntry_get {entries : List Entry} {e d : Entry} {i : Nat}
    (h : (insertEntry entries e).1[i]? = some d) :
    i = entries.length ∧ d = e ∨ entries[i]? = some d ∨
      ∃ old, entries[i]? = some old ∧ d = { old with inStore := false } ∧
        (insertEntry entries e).2 = some i := by
  have happend : ∀ l : List Entry, l.length = entries.length → (l ++ [e])[i]? = some d →
      i = entries.length ∧ d = e ∨ l[i]? = some d := by
    intro l hlen hd
    rcases Nat.lt_or_ge i l.length with hlt | hge
    · rw [List.getElem?_append_left hlt] at hd
      exact .inr hd
    · rw [List.getElem?_append_right hge, List.getElem?_singleton] at hd
      split at hd
      · exact .inl ⟨by omega, (Option.some.inj hd).symm⟩
      · cases hd
  rw [insertEntry] at h ⊢
  cases hfind : find entries e.side e.id with
  | none =>
      rw [hfind] at h
      rcases happend entries rfl h with hnew | hold
      · exact .inl hnew
      · exact .inr (.inl hold)
  | some j =>
      rw [hfind] at h
      rcases happend _ (by simp) h with hnew | hold
      · exact .inl hnew
      · rw [List.getElem?_modify] at hold
        cases hold' : entries[i]? with
        | none => simp [hold'] at hold
        | some old =>
            by_cases hji : j = i
            · subst hji
              refine .inr (.inr ⟨old, rfl, ?_, rfl⟩)
              simpa [hold'] using hold.symm
            · refine .inr (.inl ?_)
              simpa [hold', hji] using hold

/-- A cancelled entry holds nothing, or is about to be emptied. -/
def Emptied (s : State) : Prop :=
  ∀ (i : Nat) (e : Entry), s.entries[i]? = some e → e.cancelled = true →
    e.reserved = 0 ∨ .cancel i .swapping ∈ s.threads

theorem Emptied.step {s s' : State} {event : Event} (hgood : Good s) (hs : Emptied s)
    (h : StepCases s event s') : Emptied s' := by
  cases h with
  | call op => exact fun i e he hc => (hs i e he hc).imp_right (List.mem_append_left _)
  | closure hk _ _ =>
      have hkeep : ∀ op' pc' i, Thread.cancel i .swapping ∈ s.threads →
          Thread.cancel i .swapping ∈ s.threads.set _ (.store op' pc') :=
        fun op' pc' i hmem => mem_set_of_ne hmem hk (fun h => nomatch h) _
      exact fun i e he hc => (hs i e he hc).imp_right (hkeep _ _ i)
  | dropFuture hk =>
      rename_i k op pc
      have hkeep : ∀ op' pc' i, Thread.cancel i .swapping ∈ s.threads →
          Thread.cancel i .swapping ∈ s.threads.set k (.store op' pc') :=
        fun op' pc' i hmem => mem_set_of_ne hmem hk (fun h => nomatch h) _
      cases pc <;> exact fun i e he hc => (hs i e he hc).imp_right (hkeep _ _ i)
  | insert hk =>
      rename_i k op
      have hkeep : ∀ i, Thread.cancel i .swapping ∈ s.threads →
          ∀ ts, Thread.cancel i .swapping ∈ s.threads.set k (.store op .ended) ++ ts :=
        fun i hmem ts => List.mem_append_left _ (mem_set_of_ne hmem hk (fun h => nomatch h) _)
      intro i d hd hc
      rcases insertEntry_get hd with ⟨rfl, rfl⟩ | hold | ⟨old, hold, rfl, _⟩
      · cases hc
      · exact (hs i d hold hc).imp_right (hkeep i · _)
      · exact (hs i old hold hc).imp_right (hkeep i · _)
  | record side id limit =>
      intro i d hd hc
      rcases insertEntry_get hd with ⟨rfl, rfl⟩ | hold | ⟨old, hold, rfl, _⟩
      · cases hc
      · exact (hs i d hold hc).imp_right (List.mem_append_left _)
      · exact (hs i old hold hc).imp_right (List.mem_append_left _)
  | act hk hi he hl =>
      rename_i k answer t i e l
      have hok := stepOn_ok hl (hgood.localPre hk hi he)
      have hklt : k < s.threads.length := (List.getElem?_eq_some_iff.mp hk).1
      -- a cancelling thread stays where it is, unless it is the one that moves
      have hkeep : ∀ j, Thread.cancel j .swapping ∈ s.threads → t = .cancel j .swapping ∨
          Thread.cancel j .swapping ∈ s.threads.set k l.pc := by
        intro j hmem
        by_cases heq : t = .cancel j .swapping
        · exact .inl heq
        · exact .inr (mem_set_of_ne hmem hk (Ne.symm heq) _)
      intro j d hd hc
      rcases set_cases hd with ⟨rfl, rfl⟩ | ⟨hji, hold⟩
      · cases hwas : e.cancelled with
        | true =>
            rcases hs j e he hwas with hzero | hmem
            · refine .inl ?_
              have := (hok.stays hwas).2
              omega
            · rcases hkeep j hmem with heq | hstill
              · exact .inl (hok.empties j heq)
              · exact .inr hstill
        | false =>
            obtain ⟨x, hx⟩ := hok.cancels hwas hc
            refine .inr ?_
            have hxj : x = j := by
              have hentry := hok.entry
              simp only [hx, hi] at hentry
              simpa [Thread.entry?] using hentry
            subst hxj
            exact List.mem_of_getElem? (i := k) (by rw [List.getElem?_set_self hklt, hx])
      · rcases hs j d hold hc with hzero | hmem
        · exact .inl hzero
        · rcases hkeep j hmem with rfl | hstill
          · simp only [Thread.entry?, reduceCtorEq, if_false, Option.some.injEq] at hi
            exact absurd hi hji
          · exact .inr hstill
  | touch _ he hsame _ _ =>
      intro j d hd hc
      rcases set_cases hd with ⟨rfl, rfl⟩ | ⟨_, hold⟩
      · rw [hsame.reserved]
        exact (hs j _ he (hsame.cancelled ▸ hc)).imp_right (List.mem_append_left _)
      · exact (hs j d hold hc).imp_right (List.mem_append_left _)
  | drop he _ _ =>
      rename_i i e
      intro j d hd hc
      rcases set_cases hd with ⟨rfl, rfl⟩ | ⟨_, hold⟩
      · exact .inl rfl
      · exact hs j d hold hc

theorem emptied_of_reachable {s : State} (h : machine.Reachable s) : Emptied s := by
  suffices hboth : Good s ∧ Emptied s from hboth.2
  refine h.invariant (I := fun s => Good s ∧ Emptied s)
    ⟨good_start, fun i e h => by simp [machine, start] at h⟩ ?_
  intro s s' event hs _ hstep
  exact ⟨hs.1.step (step_cases hstep), hs.2.step hs.1 (step_cases hstep)⟩

theorem Settled.removed_step {s s' : State} {event : Event} (hgood : Good s) (hs : Settled s)
    (honce : recordsOnce s event = true) (h : StepCases s event s') :
    ∀ (i : Nat) (e : Entry), s'.entries[i]? = some e → e.alive = true → e.inStore = false →
      e.cancelled = true ∨ .cancel i .waiting ∈ s'.threads := by
  cases h with
  | call op =>
      exact fun i e he ha hin => (hs.removed i e he ha hin).imp_right (List.mem_append_left _)
  | closure hk _ _ =>
      have hkeep : ∀ op' pc' i, Thread.cancel i .waiting ∈ s.threads →
          Thread.cancel i .waiting ∈ s.threads.set _ (.store op' pc') :=
        fun op' pc' i hmem => mem_set_of_ne hmem hk (fun h => nomatch h) _
      exact fun i e he ha hin => (hs.removed i e he ha hin).imp_right (hkeep _ _ i)
  | dropFuture hk =>
      rename_i k op pc
      have hkeep : ∀ op' pc' i, Thread.cancel i .waiting ∈ s.threads →
          Thread.cancel i .waiting ∈ s.threads.set k (.store op' pc') :=
        fun op' pc' i hmem => mem_set_of_ne hmem hk (fun h => nomatch h) _
      cases pc <;> exact fun i e he ha hin => (hs.removed i e he ha hin).imp_right (hkeep _ _ i)
  | insert hk =>
      rename_i k op
      have hkeep : ∀ i, Thread.cancel i .waiting ∈ s.threads →
          ∀ ts, Thread.cancel i .waiting ∈ s.threads.set k (.store op .ended) ++ ts :=
        fun i hmem ts => List.mem_append_left _ (mem_set_of_ne hmem hk (fun h => nomatch h) _)
      intro i d hd ha hin
      rcases insertEntry_get hd with ⟨rfl, rfl⟩ | hold | ⟨old, hold, rfl, hprevious⟩
      · cases hin
      · exact (hs.removed i d hold ha hin).imp_right (hkeep i · _)
      · exact .inr (List.mem_append_right _ (by simp [hprevious]))
  | record side id limit =>
      have hfind : find s.entries (recordEntry side id limit).side
          (recordEntry side id limit).id = none := by
        simpa [recordsOnce, recordEntry] using honce
      have hnone : (insertEntry s.entries (recordEntry side id limit)).2 = none := by
        simp [insertEntry, hfind]
      intro i d hd ha hin
      rcases insertEntry_get hd with ⟨rfl, rfl⟩ | hold | ⟨_, _, _, hprevious⟩
      · cases hin
      · exact (hs.removed i d hold ha hin).imp_right (List.mem_append_left _)
      · rw [hnone] at hprevious
        cases hprevious
  | act hk hi he hl =>
      rename_i k answer t i e l
      have hok := stepOn_ok hl (hgood.localPre hk hi he)
      have hkeep : ∀ j, Thread.cancel j .waiting ∈ s.threads → t = .cancel j .waiting ∨
          Thread.cancel j .waiting ∈ s.threads.set k l.pc := by
        intro j hmem
        by_cases heq : t = .cancel j .waiting
        · exact .inl heq
        · exact .inr (mem_set_of_ne hmem hk (Ne.symm heq) _)
      intro j d hd ha hin
      rcases set_cases hd with ⟨rfl, rfl⟩ | ⟨hji, hold⟩
      · rcases hs.removed j e he (hok.alive ▸ ha) (hok.inStore ▸ hin) with hwas | hmem
        · exact .inl (hok.stays hwas).1
        · rcases hkeep j hmem with heq | hstill
          · exact .inl (hok.enters j heq)
          · exact .inr hstill
      · rcases hs.removed j d hold ha hin with hwas | hmem
        · exact .inl hwas
        · rcases hkeep j hmem with rfl | hstill
          · simp only [Thread.entry?, reduceCtorEq, if_false, Option.some.injEq] at hi
            exact absurd hi hji
          · exact .inr hstill
  | touch _ he hsame ht hstore =>
      rename_i i e e' t?
      intro j d hd ha hin
      rcases set_cases hd with ⟨rfl, rfl⟩ | ⟨_, hold⟩
      · rw [hsame.cancelled]
        cases hwas : e.inStore with
        | false =>
            exact (hs.removed j e he (hsame.alive ▸ ha) hwas).imp_right (List.mem_append_left _)
        | true =>
            rcases hstore hwas with hstays | rfl
            · rw [hstays] at hin
              cases hin
            · exact .inr (List.mem_append_right _ (by simp))
      · exact (hs.removed j d hold ha hin).imp_right (List.mem_append_left _)
  | drop he hout hidle =>
      intro j d hd ha hin
      rcases set_cases hd with ⟨rfl, rfl⟩ | ⟨_, hold⟩
      · cases ha
      · exact hs.removed j d hold ha hin

theorem Settled.dead_step {s s' : State} {event : Event} (hgood : Good s) (hs : Settled s)
    (h : StepCases s event s') :
    ∀ (i : Nat) (e : Entry), s'.entries[i]? = some e → e.alive = false → e.reserved = 0 := by
  have hinsert : ∀ {e d : Entry} {i : Nat}, e.alive = true →
      (insertEntry s.entries e).1[i]? = some d → d.alive = false → d.reserved = 0 := by
    intro e d i halive hd ha
    rcases insertEntry_get hd with ⟨rfl, rfl⟩ | hold | ⟨old, hold, rfl, _⟩
    · rw [halive] at ha
      cases ha
    · exact hs.dead i d hold ha
    · exact hs.dead i old hold ha
  cases h with
  | call op => exact hs.dead
  | closure _ _ _ => exact hs.dead
  | dropFuture hk =>
      rename_i k op pc
      cases pc <;> exact hs.dead
  | insert hk => exact fun i d hd ha => hinsert rfl hd ha
  | record side id limit => exact fun i d hd ha => hinsert rfl hd ha
  | act hk hi he hl =>
      rename_i k answer t i e l
      have hok := stepOn_ok hl (hgood.localPre hk hi he)
      intro j d hd ha
      rcases set_cases hd with ⟨rfl, rfl⟩ | ⟨_, hold⟩
      · -- a thread works on a live entry only
        obtain ⟨c, hc, hacts⟩ := hgood.acts k t j hk hi
        obtain rfl : e = c := Option.some.inj (he.symm.trans hc)
        rw [hok.alive, hacts.alive] at ha
        cases ha
      · exact hs.dead j d hold ha
  | touch _ he hsame _ _ =>
      intro j d hd ha
      rcases set_cases hd with ⟨rfl, rfl⟩ | ⟨_, hold⟩
      · rw [hsame.reserved]
        exact hs.dead j _ he (hsame.alive ▸ ha)
      · exact hs.dead j d hold ha
  | drop he _ _ =>
      intro j d hd ha
      rcases set_cases hd with ⟨rfl, rfl⟩ | ⟨_, hold⟩
      · rfl
      · exact hs.dead j d hold ha

theorem Settled.step {s s' : State} {event : Event} (hgood : Good s) (hs : Settled s)
    (honce : recordsOnce s event = true) (h : StepCases s event s') : Settled s' := by
  refine ⟨Emptied.step hgood hs.cancelled h, ?_, ?_⟩
  · exact hs.removed_step hgood honce h
  · exact hs.dead_step hgood h

theorem settled_start : Settled start where
  cancelled _ _ h := by simp [start] at h
  removed _ _ h := by simp [start] at h
  dead _ _ h := by simp [start] at h

theorem settled_of_reach {s : State}
    (h : machine.Reach (fun s event => recordsOnce s event = true) s) : Settled s := by
  suffices hboth : Good s ∧ Settled s from hboth.2
  refine h.invariant (I := fun s => Good s ∧ Settled s) ⟨good_start, settled_start⟩ ?_
  intro s s' event hs honce hstep
  exact ⟨hs.1.step (step_cases hstep), hs.2.step hs.1 honce (step_cases hstep)⟩

/-- Only a store operation whose result nobody receives adds to `lost`. -/
theorem lost_of_received {s s' : State} {event : Event} (hreceived : received s event = true)
    (h : StepCases s event s') : s'.lost = s.lost := by
  cases h with
  | closure hk hmove hok =>
      rename_i k ok op pc pc' used lost ops
      cases hmove with
      | lose hdropped =>
          by_cases hlength : op.length = 0
          · simp [hlength]
          · obtain rfl := hok (by omega)
            simp [received, hk, hdropped, hlength] at hreceived
      | _ => rfl
  | dropFuture hk =>
      rename_i k op pc
      cases pc with
      | stored =>
          have hlength : op.length = 0 := by simpa [received, hk] using hreceived
          simp [dropStep, hlength]
      | _ => rfl
  | _ => rfl

/-! ## Quiet states -/

theorem Thread.credit_of_idle {t : Thread} (h : t.idle = true) : t.credit = 0 := by
  rcases t with ⟨op, pc⟩ | ⟨j, pc⟩ | ⟨j, pc⟩ | ⟨j, pc⟩ <;> cases pc <;> simp_all [Thread.idle]

/-- **Where the bytes are when nothing works on the stores**: with the entries present in
them, or lost. -/
theorem quiet_balance {s : State}
    (h : machine.Reach (fun s event => recordsOnce s event = true) s)
    (hquiet : s.quiet = true) :
    s.used = total presentReserved s.entries + s.lost := by
  have hgood := good_of_reachable h.reachable
  have hsettled := settled_of_reach h
  have hidle : ∀ t ∈ s.threads, t.idle = true := List.all_eq_true.mp hquiet
  have hcancel : ∀ i pc, pc ≠ .ended → Thread.cancel i pc ∉ s.threads := by
    intro i pc hpc hmem
    have := hidle _ hmem
    simp [Thread.idle, Thread.entry?, hpc] at this
  -- an entry outside the stores has nothing reserved
  have hpresent : total Entry.reserved s.entries = total presentReserved s.entries := by
    refine total_congr fun e he => ?_
    obtain ⟨i, hi⟩ := List.getElem?_of_mem he
    rw [presentReserved]
    split
    · rfl
    · rename_i hin
      cases halive : e.alive with
      | false => exact hsettled.dead i e hi halive
      | true =>
          have hcancelled := (hsettled.removed i e hi halive (by simpa using hin)).resolve_right
            (hcancel i _ (by simp))
          exact (hsettled.cancelled i e hi hcancelled).resolve_right (hcancel i _ (by simp))
  have hcredit : total Thread.credit s.threads = 0 :=
    total_eq_zero fun t ht => Thread.credit_of_idle (hidle t ht)
  have hbal := hgood.balance
  omega

/-- **The budget is returned in every run that receives the results of its store
operations.** When nothing works on the stores, `used` is what the entries present in them
have reserved, and it is 0 when they are empty, as after a clear. -/
theorem budget_is_returned_when_received {s : State}
    (h : machine.Reach (fun s event => received s event = true ∧ recordsOnce s event = true) s)
    (hquiet : s.quiet = true) :
    s.used = total presentReserved s.entries ∧
      ((∀ e ∈ s.entries, e.inStore = false) → s.used = 0) := by
  have hlost : s.lost = 0 :=
    h.invariant (I := fun s => s.lost = 0) rfl fun hs hguard hstep =>
      (lost_of_received hguard.1 (step_cases hstep)).trans hs
  have hbalance := quiet_balance (h.mono fun _ _ hguard => hguard.2) hquiet
  rw [hlost] at hbalance
  refine ⟨hbalance, fun hempty => ?_⟩
  rw [hbalance, Nat.add_zero]
  refine total_eq_zero fun e he => ?_
  rw [presentReserved, hempty e he]
  rfl

/-- A store operation that inserts its entry, a response that records 5 bytes, a removal. -/
def storeRecordRemove : List Event :=
  [.call ⟨.request, 1, 7, 100, true⟩, .closure 0 true, .closure 0 true, .insert 0,
    .record .response 1 100, .step 1 .go, .step 1 (.bytes 5), .step 1 .go, .step 1 .go,
    .step 1 .go, .step 1 .ok, .step 1 .go, .step 1 .go, .step 1 (.bytes 0), .step 1 .go,
    .remove 0, .step 2 .go, .step 2 .go, .step 2 .go]

theorem budget_after_storeRecordRemove :
    let s := (machine.run storeRecordRemove).get (by decide)
    s.used = 5 ∧ s.used = total presentReserved s.entries :=
  ⟨by decide, (budget_is_returned_when_received
    (Machine.reach_get storeRecordRemove (by decide) (by decide)) (by decide)).1⟩

/-- A store operation whose future is dropped while its closure writes. -/
def droppedStore : List Event :=
  [.call ⟨.response, 1, 5, 100, true⟩, .closure 0 true, .dropFuture 0, .closure 0 true]

/-- **A dropped future leaks.** After `droppedStore` the stores are empty and nothing works
on them, and 5 bytes of the budget are gone. -/
theorem dropped_store_leaks :
    ¬ ∀ s, machine.Reachable s → s.quiet = true → s.used = total presentReserved s.entries := by
  intro h
  have hleak := h _ (Machine.reachable_get droppedStore (by decide)) (by decide)
  exact absurd hleak (by decide)

end SippinSoda.Budget
