import Mathlib.Algebra.Ring.Nat
import Mathlib.Data.List.Basic

/-!
# Ledgers

A ledger is a list of accounts with an amount read off each of them by some function. The
total is the sum of the amounts. Updating one account changes the total by what that
account changes, and no account holds more than the total.
-/

namespace Ledger

variable {α : Type} (f : α → Nat)

/-- The total of a ledger. -/
def total (l : List α) : Nat := (l.map f).sum

@[simp] theorem total_nil : total f [] = 0 := rfl

@[simp] theorem total_cons (a : α) (l : List α) : total f (a :: l) = f a + total f l := by
  simp [total]

@[simp] theorem total_append (l l' : List α) :
    total f (l ++ l') = total f l + total f l' := by
  simp [total]

variable {f}

/-- Updating account `k` moves the total by the change of that account. -/
theorem total_set {l : List α} {k : Nat} {a : α} (h : l[k]? = some a) (b : α) :
    total f (l.set k b) + f a = total f l + f b := by
  induction l generalizing k with
  | nil => simp at h
  | cons c l ih =>
      cases k with
      | zero =>
          obtain rfl : c = a := by simpa using h
          simp only [List.set_cons_zero, total_cons]
          omega
      | succ k =>
          have := ih (k := k) (by simpa using h)
          simp only [List.set_cons_succ, total_cons]
          omega

/-- An account of the updated ledger is the updated one, or is as it was. -/
theorem set_cases {l : List α} {i j : Nat} {a b : α} (h : (l.set i a)[j]? = some b) :
    j = i ∧ b = a ∨ j ≠ i ∧ l[j]? = some b := by
  by_cases hij : i = j
  · subst hij
    rw [List.getElem?_set] at h
    split at h
    · split at h
      · exact .inl ⟨rfl, (Option.some.inj h).symm⟩
      · cases h
    · exact absurd rfl ‹_›
  · rw [List.getElem?_set_ne hij] at h
    exact .inr ⟨Ne.symm hij, h⟩

/-- No account holds more than the total. -/
theorem le_total {l : List α} {k : Nat} {a : α} (h : l[k]? = some a) : f a ≤ total f l := by
  induction l generalizing k with
  | nil => simp at h
  | cons c l ih =>
      rw [total_cons]
      cases k with
      | zero =>
          obtain rfl : c = a := by simpa using h
          omega
      | succ k =>
          have := ih (k := k) (by simpa using h)
          omega

/-- Two ledgers over the same accounts compare account by account. -/
theorem total_le_total {g : α → Nat} {l : List α} (h : ∀ a ∈ l, f a ≤ g a) :
    total f l ≤ total g l := by
  induction l with
  | nil => simp
  | cons a l ih =>
      have ha := h a (by simp)
      have hl := ih fun b hb => h b (by simp [hb])
      simp only [total_cons]
      omega

/-- Ledgers that agree on every account have one total. -/
theorem total_congr {g : α → Nat} {l : List α} (h : ∀ a ∈ l, f a = g a) :
    total f l = total g l := by
  rw [total, total, List.map_congr_left h]

/-- A ledger of empty accounts. -/
theorem total_eq_zero {l : List α} (h : ∀ a ∈ l, f a = 0) : total f l = 0 := by
  induction l with
  | nil => rfl
  | cons a l ih =>
      rw [total_cons, h a (by simp), ih fun b hb => h b (by simp [hb])]

theorem total_add (g : α → Nat) (l : List α) :
    total (fun a => f a + g a) l = total f l + total g l := by
  induction l with
  | nil => rfl
  | cons a l ih =>
      simp only [total_cons, ih]
      omega

/-! ## Booking by key -/

section Keys

variable {κ : Type} [DecidableEq κ]

/-- An amount that one of the keys gets. -/
theorem total_single {keys : List κ} (hnodup : keys.Nodup) {k : κ} (hk : k ∈ keys) (n : Nat) :
    total (fun k' => if k = k' then n else 0) keys = n := by
  induction keys with
  | nil => cases hk
  | cons k' keys ih =>
      obtain ⟨hnew, hnodup⟩ := List.nodup_cons.mp hnodup
      rw [total_cons]
      rcases List.mem_cons.mp hk with rfl | hlater
      · have hrest : total (fun k' => if k = k' then n else 0) keys = 0 := by
          refine total_eq_zero fun k' hk' => if_neg ?_
          rintro rfl
          exact hnew hk'
        rw [if_pos rfl, hrest, Nat.add_zero]
      · have hne : k ≠ k' := by
          rintro rfl
          exact hnew hlater
        rw [if_neg hne, ih hnodup hlater, Nat.zero_add]

/-- A ledger can be booked by the keys of its accounts, if all that are not empty have one of
them. -/
theorem total_by_key {key : α → κ} {keys : List κ} (hnodup : keys.Nodup) {l : List α}
    (hkeys : ∀ a ∈ l, f a ≠ 0 → key a ∈ keys) :
    total (fun k => total (fun a => if key a = k then f a else 0) l) keys = total f l := by
  induction l with
  | nil => exact total_eq_zero fun k _ => rfl
  | cons a l ih =>
      simp only [total_cons]
      have hfirst : total (fun k => if key a = k then f a else 0) keys = f a := by
        by_cases hempty : f a = 0
        · rw [hempty]
          exact total_eq_zero fun k _ => ite_self 0
        · exact total_single hnodup (hkeys a (by simp) hempty) (f a)
      rw [total_add, hfirst, ih fun b hb => hkeys b (by simp [hb])]

end Keys

end Ledger
