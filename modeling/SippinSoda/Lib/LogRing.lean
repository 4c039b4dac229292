import Mathlib.Data.List.Basic

/-!
# Rings

A ring keeps the last entries of a log and counts the entries it has dropped. The log itself is
part of the ring, so that what is retained is a function of what was pushed.

* **items** — the retained entries, never more than the capacity;
* **push**, **resize**, **clear** — what may happen to a ring.
-/

/-- A log, how many of its first entries have been dropped, and how many may be retained. -/
structure LogRing (α : Type) where
  log : List α
  dropped : Nat
  capacity : Nat
  positive : 0 < capacity
  dropped_le : dropped ≤ log.length
  fits : log.length ≤ dropped + capacity

namespace LogRing

variable {α : Type} (r : LogRing α)

/-- The retained entries, oldest first. -/
def items : List α := r.log.drop r.dropped

/-- A ring of that capacity in which nothing has been pushed. -/
def empty (capacity : Nat) (positive : 0 < capacity) : LogRing α where
  log := []
  dropped := 0
  capacity := capacity
  positive := positive
  dropped_le := Nat.le_refl _
  fits := Nat.zero_le _

/-- One entry more; the oldest gives way when the ring is full. -/
def push (a : α) : LogRing α where
  log := r.log ++ [a]
  dropped := if r.items.length = r.capacity then r.dropped + 1 else r.dropped
  capacity := r.capacity
  positive := r.positive
  dropped_le := by
    have := r.dropped_le
    rw [List.length_append, List.length_singleton]
    split <;> omega
  fits := by
    have := r.fits
    have := r.dropped_le
    rw [List.length_append, List.length_singleton]
    unfold items
    rw [List.length_drop]
    split <;> omega

/-- Another capacity; the oldest entries give way that no longer fit. -/
def resize (capacity : Nat) (positive : 0 < capacity) : LogRing α where
  log := r.log
  dropped := r.dropped + (r.items.length - capacity)
  capacity := capacity
  positive := positive
  dropped_le := by
    have := r.dropped_le
    unfold items
    rw [List.length_drop]
    omega
  fits := by
    unfold items
    rw [List.length_drop]
    omega

/-- Nothing has been pushed any more. -/
def clear : LogRing α := empty r.capacity r.positive

/-- Retained and dropped entries are all there were. -/
theorem length_items : r.items.length + r.dropped = r.log.length := by
  have := r.dropped_le
  unfold items
  rw [List.length_drop]
  omega

theorem items_push (a : α) :
    (r.push a).items = (if r.items.length = r.capacity then r.items.tail else r.items) ++ [a] := by
  have hdropped := r.dropped_le
  show (r.log ++ [a]).drop (if r.items.length = r.capacity then r.dropped + 1 else r.dropped) = _
  by_cases hfull : r.items.length = r.capacity
  · rw [if_pos hfull, if_pos hfull]
    have hlt : r.dropped + 1 ≤ r.log.length := by
      have := r.length_items
      have := r.positive
      omega
    rw [List.drop_append_of_le_length hlt]
    unfold items
    rw [List.tail_drop]
  · rw [if_neg hfull, if_neg hfull, List.drop_append_of_le_length hdropped]
    rfl

theorem items_resize (capacity : Nat) (positive : 0 < capacity) :
    (r.resize capacity positive).items = r.items.drop (r.items.length - capacity) := by
  show r.log.drop (r.dropped + (r.items.length - capacity)) = (r.log.drop r.dropped).drop _
  rw [List.drop_drop]

end LogRing
