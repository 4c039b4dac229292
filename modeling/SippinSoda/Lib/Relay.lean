import Mathlib.Data.List.Basic

/-!
# Relays

A relay copies a stream through one buffer. It reads some symbols, writes them in as many pieces as
the sink makes of them, flushes, and reads again; at the end of the source it closes the sink.
Source and sink are the environment: the source sends and ends when it likes, a write takes a part
of what it is given, and every operation may fail.

* **step** — one operation of the loop, or of the source;
* **Faithful** — what has been written and what is in the buffer are what has been read, in order;
* **rank** — how many operations are left, at most;
* **moves** — a loop that waits for nothing can go on, and one that goes on ends.
-/

namespace Relay

variable {α : Type}

/-- Where the loop is. The buffer has `count` symbols at most of which `rest` are still to be
written. -/
inductive Pc (α : Type) where
  | reading
  | writing (count : Nat) (rest : List α)
  | flushing (count : Nat)
  | closing
  | done
  | failed
  deriving DecidableEq, Repr

structure State (α : Type) where
  /-- All that the source has sent. -/
  sent : List α
  ended : Bool
  /-- How many of these symbols have been read. -/
  taken : Nat
  written : List α
  /-- How many of these symbols have been flushed. -/
  flushed : Nat
  closed : Bool
  /-- What the loop has counted. -/
  moved : Nat
  pc : Pc α
  deriving DecidableEq, Repr

def start : State α := ⟨[], false, 0, [], 0, false, 0, .reading⟩

inductive Event (α : Type) where
  /-- The source sends. -/
  | send (more : List α)
  | end
  /-- A read returns `n` symbols, none at the end only. -/
  | read (n : Nat)
  /-- A write takes `n` symbols; a sink that takes none is broken. -/
  | write (n : Nat)
  | flush
  | close
  | fail
  deriving DecidableEq, Repr

/-- The loop is at work. -/
def Pc.active : Pc α → Bool
  | .done | .failed => false
  | _ => true

/-- Is the event one of the loop? -/
def Event.ofLoop : Event α → Bool
  | .send _ | .end => false
  | _ => true

/-- One step, with a buffer of this capacity. -/
def step (capacity : Nat) (s : State α) : Event α → Option (State α)
  | .send more => if s.ended then none else some { s with sent := s.sent ++ more }
  | .end => some { s with ended := true }
  | .read n =>
      match s.pc with
      | .reading =>
          if n = 0 then
            if s.ended = true ∧ s.taken = s.sent.length then some { s with pc := .closing }
            else none
          else if n ≤ capacity ∧ s.taken + n ≤ s.sent.length then some { s with
            taken := s.taken + n
            pc := .writing n ((s.sent.drop s.taken).take n) }
          else none
      | _ => none
  | .write n =>
      match s.pc with
      | .writing count rest =>
          if n = 0 then some { s with pc := .failed }
          else if n ≤ rest.length then some { s with
            written := s.written ++ rest.take n
            pc := if n = rest.length then .flushing count else .writing count (rest.drop n) }
          else none
      | _ => none
  | .flush =>
      match s.pc with
      | .flushing count => some { s with
          flushed := s.written.length
          moved := s.moved + count
          pc := .reading }
      | _ => none
  | .close =>
      match s.pc with
      | .closing => some { s with closed := true, pc := .done }
      | _ => none
  | .fail => if s.pc.active then some { s with pc := .failed } else none

section Steps

variable {capacity : Nat} {s s' : State α} {e : Event α}

/-- **All that a step can do.** -/
inductive Steps (capacity : Nat) (s : State α) : Event α → State α → Prop
  | send {more} : s.ended = false → Steps capacity s (.send more) { s with sent := s.sent ++ more }
  | ended : Steps capacity s .end { s with ended := true }
  | last : s.pc = .reading → s.ended = true → s.taken = s.sent.length →
      Steps capacity s (.read 0) { s with pc := .closing }
  | read {n} : s.pc = .reading → 0 < n → n ≤ capacity → s.taken + n ≤ s.sent.length →
      Steps capacity s (.read n) { s with
        taken := s.taken + n
        pc := .writing n ((s.sent.drop s.taken).take n) }
  | broken {count rest} : s.pc = .writing count rest →
      Steps capacity s (.write 0) { s with pc := .failed }
  | wrote {count rest} : s.pc = .writing count rest → 0 < rest.length →
      Steps capacity s (.write rest.length) { s with
        written := s.written ++ rest
        pc := .flushing count }
  | write {n count rest} : s.pc = .writing count rest → 0 < n → n < rest.length →
      Steps capacity s (.write n) { s with
        written := s.written ++ rest.take n
        pc := .writing count (rest.drop n) }
  | flush {count} : s.pc = .flushing count →
      Steps capacity s .flush { s with
        flushed := s.written.length
        moved := s.moved + count
        pc := .reading }
  | close : s.pc = .closing → Steps capacity s .close { s with closed := true, pc := .done }
  | fail : s.pc.active = true → Steps capacity s .fail { s with pc := .failed }

theorem step_steps (h : step capacity s e = some s') : Steps capacity s e s' := by
  cases e with
  | send more =>
      simp only [step] at h
      split at h
      · cases h
      next hended =>
        cases h
        exact .send (by simpa using hended)
  | «end» =>
      cases h
      exact .ended
  | read n =>
      simp only [step] at h
      split at h
      next hpc =>
        split at h
        next hzero =>
          subst hzero
          split at h
          next hend =>
            cases h
            exact .last hpc hend.1 hend.2
          · cases h
        next hpos =>
          split at h
          next hle =>
            cases h
            exact .read hpc (Nat.pos_of_ne_zero hpos) hle.1 hle.2
          · cases h
      · cases h
  | write n =>
      simp only [step] at h
      split at h
      next count rest hpc =>
        split at h
        next hzero =>
          subst hzero
          cases h
          exact .broken hpc
        next hpos =>
          split at h
          next hle =>
            cases h
            by_cases hall : n = rest.length
            · subst hall
              rw [if_pos rfl, List.take_length]
              exact .wrote hpc (Nat.pos_of_ne_zero hpos)
            · rw [if_neg hall]
              exact .write hpc (Nat.pos_of_ne_zero hpos) (by omega)
          · cases h
      · cases h
  | flush =>
      simp only [step] at h
      split at h
      next hpc =>
        cases h
        exact .flush hpc
      · cases h
  | close =>
      simp only [step] at h
      split at h
      next hpc =>
        cases h
        exact .close hpc
      · cases h
  | fail =>
      simp only [step] at h
      split at h
      next hactive =>
        cases h
        exact .fail hactive
      · cases h

end Steps

/-- What the loop has done so far. -/
structure Same (s s' : State α) : Prop where
  taken : s'.taken = s.taken
  written : s'.written = s.written
  moved : s'.moved = s.moved
  pc : s'.pc = s.pc

theorem Same.refl (s : State α) : Same s s := ⟨rfl, rfl, rfl, rfl⟩

/-- What the source does leaves it as it is. -/
theorem same_of_step {capacity : Nat} {s s' : State α} {e : Event α}
    (h : step capacity s e = some s') (hsource : e.ofLoop = false) : Same s s' := by
  cases step_steps h with
  | send => exact ⟨rfl, rfl, rfl, rfl⟩
  | ended => exact ⟨rfl, rfl, rfl, rfl⟩
  | _ => cases hsource

/-! ## What is copied -/

/-- What is in the buffer and has not been written. -/
def Pc.rest : Pc α → List α
  | .writing _ rest => rest
  | _ => []

/-- What has been read and not been counted. -/
def Pc.count : Pc α → Nat
  | .writing count _ | .flushing count => count
  | _ => 0

/-- **What a loop that has not failed has done.** -/
structure Faithful (s : State α) : Prop where
  taken : s.taken ≤ s.sent.length
  /-- What is written is what has been read, in order, without what is still in the buffer; of a
  loop that has failed it may be less. -/
  written : s.written ++ s.pc.rest <+: s.sent.take s.taken
  all : s.pc ≠ .failed → s.written ++ s.pc.rest = s.sent.take s.taken
  moved : s.pc ≠ .failed → s.moved + s.pc.count = s.taken
  /-- A loop that waits for its source has flushed what it has written. -/
  flushed : s.pc = .reading ∨ s.pc = .closing ∨ s.pc = .done → s.flushed = s.written.length
  ended : s.pc = .closing ∨ s.pc = .done → s.ended = true ∧ s.taken = s.sent.length
  closed : s.closed = true ↔ s.pc = .done
  loaded : ∀ count rest, s.pc = .writing count rest → rest ≠ []

theorem faithful_start : Faithful (start : State α) where
  taken := Nat.le_refl _
  written := List.prefix_refl _
  all _ := rfl
  moved _ := rfl
  flushed _ := rfl
  ended h := by rcases h with h | h <;> cases h
  closed := ⟨fun h => absurd h Bool.false_ne_true, fun h => by cases h⟩
  loaded _ _ h := by cases h

/-- Reading on: the symbols read are followed by those that come next. -/
theorem take_add_eq {l : List α} {taken n : Nat} :
    l.take (taken + n) = l.take taken ++ (l.drop taken).take n := List.take_add

section Kept

variable {s : State α} (hs : Faithful s)
include hs

theorem Faithful.sends {more : List α} (hended : s.ended = false) :
    Faithful { s with sent := s.sent ++ more } := by
  have htake : (s.sent ++ more).take s.taken = s.sent.take s.taken :=
    List.take_append_of_le_length hs.taken
  refine ⟨?_, ?_, fun hpc => ?_, hs.moved, hs.flushed, fun hpc => ?_, hs.closed, hs.loaded⟩
  · show s.taken ≤ (s.sent ++ more).length
    have htaken := hs.taken
    rw [List.length_append]
    omega
  · show s.written ++ s.pc.rest <+: (s.sent ++ more).take s.taken
    rw [htake]
    exact hs.written
  · show s.written ++ s.pc.rest = (s.sent ++ more).take s.taken
    rw [htake]
    exact hs.all hpc
  · rw [(hs.ended hpc).1] at hended
    cases hended

/-- The end of the source is read. -/
theorem Faithful.ends (hpc : s.pc = .reading) (hended : s.ended = true)
    (htaken : s.taken = s.sent.length) : Faithful { s with pc := .closing } := by
  have hall := hs.all (by simp [hpc])
  rw [hpc] at hall
  refine ⟨hs.taken, ?_, fun _ => hall, fun _ => ?_, fun _ => hs.flushed (.inl hpc),
    fun _ => ⟨hended, htaken⟩, ?_, fun _ _ h => by simp at h⟩
  · show s.written ++ [] <+: _
    exact ⟨[], by rw [List.append_nil]; exact hall⟩
  · have hmoved := hs.moved (by simp [hpc])
    rw [hpc] at hmoved
    exact hmoved
  · rw [hs.closed, hpc]
    simp

theorem Faithful.reads {n : Nat} (hpc : s.pc = .reading) (hpos : 0 < n)
    (htaken : s.taken + n ≤ s.sent.length) :
    Faithful { s with
      taken := s.taken + n
      pc := .writing n ((s.sent.drop s.taken).take n) } := by
  have hall := hs.all (by simp [hpc])
  rw [hpc, show (Pc.reading : Pc α).rest = [] from rfl, List.append_nil] at hall
  have hread : s.written ++ (s.sent.drop s.taken).take n = s.sent.take (s.taken + n) := by
    rw [take_add_eq, hall]
  refine ⟨htaken, ⟨[], by rw [List.append_nil]; exact hread⟩, fun _ => hread, fun _ => ?_,
    fun h => ?_, fun h => ?_, ?_, fun _ _ h => ?_⟩
  · have hmoved := hs.moved (by simp [hpc])
    rw [hpc] at hmoved
    show s.moved + n = s.taken + n
    have hmoved : s.moved + 0 = s.taken := hmoved
    omega
  · simp at h
  · simp at h
  · rw [hs.closed, hpc]
    simp
  · obtain ⟨-, rfl⟩ := Pc.writing.inj h
    refine List.ne_nil_of_length_pos ?_
    rw [List.length_take, List.length_drop]
    omega

/-- A loop that fails leaves what it has written. -/
theorem Faithful.fails (hactive : s.pc.active = true) : Faithful { s with pc := .failed } := by
  refine ⟨hs.taken, ?_, fun h => absurd rfl h, fun h => absurd rfl h, fun h => ?_, fun h => ?_, ?_,
    fun _ _ h => by simp at h⟩
  · show s.written ++ [] <+: _
    rw [List.append_nil]
    exact (List.prefix_append ..).trans hs.written
  · simp at h
  · simp at h
  · rw [hs.closed]
    constructor
    · intro hdone
      rw [hdone] at hactive
      cases hactive
    · intro h
      cases h

theorem Faithful.writesAll {count : Nat} {rest : List α} (hpc : s.pc = .writing count rest) :
    Faithful { s with
      written := s.written ++ rest
      pc := .flushing count } := by
  have hall := hs.all (by simp [hpc])
  have hmoved := hs.moved (by simp [hpc])
  rw [hpc] at hall hmoved
  have hall : s.written ++ rest = s.sent.take s.taken := hall
  refine ⟨hs.taken, ?_, fun _ => ?_, fun _ => hmoved, fun h => ?_, fun h => ?_, ?_,
    fun _ _ h => by simp at h⟩
  · show (s.written ++ rest) ++ [] <+: _
    rw [List.append_nil]
    exact hall ▸ List.prefix_refl _
  · show (s.written ++ rest) ++ [] = _
    rw [List.append_nil]
    exact hall
  · simp at h
  · simp at h
  · rw [hs.closed, hpc]
    simp

theorem Faithful.writesSome {n count : Nat} {rest : List α} (hpc : s.pc = .writing count rest)
    (hlt : n < rest.length) :
    Faithful { s with
      written := s.written ++ rest.take n
      pc := .writing count (rest.drop n) } := by
  have hall := hs.all (by simp [hpc])
  have hmoved := hs.moved (by simp [hpc])
  rw [hpc] at hall hmoved
  have hall : s.written ++ rest = s.sent.take s.taken := hall
  have hsplit : (s.written ++ rest.take n) ++ rest.drop n = s.sent.take s.taken := by
    rw [List.append_assoc, List.take_append_drop]
    exact hall
  refine ⟨hs.taken, ⟨[], by rw [List.append_nil]; exact hsplit⟩, fun _ => hsplit,
    fun _ => hmoved, fun h => ?_, fun h => ?_, ?_, fun _ _ h => ?_⟩
  · simp at h
  · simp at h
  · rw [hs.closed, hpc]
    simp
  · obtain ⟨-, rfl⟩ := Pc.writing.inj h
    refine List.ne_nil_of_length_pos ?_
    rw [List.length_drop]
    omega

theorem Faithful.flushes {count : Nat} (hpc : s.pc = .flushing count) :
    Faithful { s with
      flushed := s.written.length
      moved := s.moved + count
      pc := .reading } := by
  have hall := hs.all (by simp [hpc])
  have hmoved := hs.moved (by simp [hpc])
  have hwritten := hs.written
  rw [hpc] at hall hmoved hwritten
  refine ⟨hs.taken, hwritten, fun _ => hall, fun _ => hmoved, fun _ => rfl, fun h => ?_, ?_,
    fun _ _ h => by simp at h⟩
  · simp at h
  · rw [hs.closed, hpc]
    simp

theorem Faithful.closes (hpc : s.pc = .closing) :
    Faithful { s with closed := true, pc := .done } := by
  have hall := hs.all (by simp [hpc])
  have hmoved := hs.moved (by simp [hpc])
  have hwritten := hs.written
  rw [hpc] at hall hmoved hwritten
  exact ⟨hs.taken, hwritten, fun _ => hall, fun _ => hmoved,
    fun _ => hs.flushed (.inr (.inl hpc)), fun _ => hs.ended (.inl hpc),
    ⟨fun _ => rfl, fun _ => rfl⟩, fun _ _ h => by simp at h⟩

/-- **A step keeps a loop faithful.** -/
theorem Faithful.step {capacity : Nat} {s' : State α} {e : Event α}
    (h : Relay.step capacity s e = some s') : Faithful s' := by
  cases step_steps h with
  | send hended => exact hs.sends hended
  | ended =>
      exact ⟨hs.taken, hs.written, hs.all, hs.moved, hs.flushed, fun hpc => ⟨rfl, (hs.ended hpc).2⟩,
        hs.closed, hs.loaded⟩
  | last hpc hended htaken => exact hs.ends hpc hended htaken
  | read hpc hpos _ htaken => exact hs.reads hpc hpos htaken
  | broken hpc => exact hs.fails (by rw [hpc]; rfl)
  | wrote hpc => exact hs.writesAll hpc
  | write hpc _ hlt => exact hs.writesSome hpc hlt
  | flush hpc => exact hs.flushes hpc
  | close hpc => exact hs.closes hpc
  | fail hactive => exact hs.fails hactive

end Kept

/-! ## How long it takes -/

/-- How many operations are left with that many symbols unread. -/
def Pc.rank (unread : Nat) : Pc α → Nat
  | .reading => 3 * unread + 2
  | .writing _ rest => 3 * unread + 3 + rest.length
  | .flushing _ => 3 * unread + 3
  | .closing => 1
  | .done | .failed => 0

/-- How many operations are left, at most, if the source sends no more. -/
def rank (s : State α) : Nat := s.pc.rank (s.sent.length - s.taken)

/-- Every operation of the loop lowers the rank. -/
theorem rank_lt {capacity : Nat} {s s' : State α} {e : Event α}
    (h : step capacity s e = some s') (hloop : e.ofLoop = true) : rank s' < rank s := by
  unfold rank
  cases step_steps h with
  | send => cases hloop
  | ended => cases hloop
  | last hpc =>
      rw [hpc]
      simp only [Pc.rank]
      omega
  | @read n hpc hpos hle hread =>
      rw [hpc]
      simp only [Pc.rank, List.length_take, List.length_drop]
      omega
  | broken hpc =>
      rw [hpc]
      simp only [Pc.rank]
      omega
  | @wrote count rest hpc hpos =>
      rw [hpc]
      simp only [Pc.rank]
      omega
  | @write n count rest hpc hpos hlt =>
      rw [hpc]
      simp only [Pc.rank, List.length_drop]
      omega
  | flush hpc =>
      rw [hpc]
      simp only [Pc.rank]
      omega
  | close hpc =>
      rw [hpc]
      exact Nat.zero_lt_one
  | fail hactive =>
      cases hpc : s.pc with
      | done =>
          rw [hpc] at hactive
          cases hactive
      | failed =>
          rw [hpc] at hactive
          cases hactive
      | _ =>
          simp only [Pc.rank]
          omega

/-- What a step takes from the rank, or adds to it with what the source sends. -/
theorem rank_step {capacity : Nat} {s s' : State α} {e : Event α}
    (h : step capacity s e = some s') : s.sent.length ≤ s'.sent.length ∧
      e.ofLoop.toNat + rank s' ≤ rank s + 3 * (s'.sent.length - s.sent.length) := by
  cases hloop : e.ofLoop with
  | true =>
      have hlt := rank_lt h hloop
      have hsent : s'.sent = s.sent := by
        cases step_steps h with
        | send => cases hloop
        | _ => rfl
      rw [hsent]
      exact ⟨Nat.le_refl _, by show 1 + _ ≤ _; omega⟩
  | false =>
      cases step_steps h with
      | @send more =>
          show s.sent.length ≤ (s.sent ++ more).length ∧ 0 + s.pc.rank
            ((s.sent ++ more).length - s.taken) ≤ s.pc.rank (s.sent.length - s.taken) + _
          rw [List.length_append]
          refine ⟨Nat.le_add_right _ _, ?_⟩
          cases s.pc <;> simp only [Pc.rank] <;> omega
      | ended => exact ⟨Nat.le_refl _, by show 0 + rank s ≤ rank s + _; omega⟩
      | _ => cases hloop

/-- A loop that does not wait for its source can go on. -/
theorem moves {capacity : Nat} {s : State α} (hs : Faithful s) (hcapacity : 0 < capacity)
    (hactive : s.pc.active = true)
    (hsource : s.pc = .reading → s.taken < s.sent.length ∨ s.ended = true) :
    ∃ e s', e.ofLoop = true ∧ step capacity s e = some s' ∧ s'.pc ≠ .failed := by
  cases hpc : s.pc with
  | reading =>
      by_cases hmore : s.taken < s.sent.length
      · refine ⟨.read 1, { s with
          taken := s.taken + 1
          pc := .writing 1 ((s.sent.drop s.taken).take 1) }, rfl, ?_, by simp⟩
        simp only [step, hpc]
        rw [if_neg (by omega), if_pos ⟨hcapacity, hmore⟩]
      · have hended := (hsource hpc).resolve_left hmore
        have htaken := hs.taken
        refine ⟨.read 0, { s with pc := .closing }, rfl, ?_, by simp⟩
        simp only [step, hpc]
        rw [if_pos trivial, if_pos ⟨hended, by omega⟩]
  | writing count rest =>
      have hpos := List.length_pos_iff.mpr (hs.loaded count rest hpc)
      refine ⟨.write rest.length, { s with
        written := s.written ++ rest.take rest.length
        pc := .flushing count }, rfl, ?_, by simp⟩
      simp only [step, hpc]
      rw [if_neg (by omega), if_pos (Nat.le_refl _), if_pos trivial]
  | flushing count =>
      refine ⟨.flush, { s with
        flushed := s.written.length
        moved := s.moved + count
        pc := .reading }, rfl, ?_, by simp⟩
      simp only [step, hpc]
  | closing =>
      refine ⟨.close, { s with closed := true, pc := .done }, rfl, ?_, by simp⟩
      simp only [step, hpc]
  | done =>
      rw [hpc] at hactive
      cases hactive
  | failed =>
      rw [hpc] at hactive
      cases hactive

end Relay
