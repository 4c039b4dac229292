import Mathlib.Data.List.Basic

/-!
# Single owners

In a list of parties some own a key, `f` telling which. No key has two owners, whatever the
parties do that keep, give up or hand over the key they own, or take one that nobody has.
-/

/-- No key has two owners in the list. -/
def SingleOwner {α β : Type} (f : α → Option β) (l : List α) : Prop :=
  ∀ ⦃i j : Nat⦄ ⦃a b : α⦄ ⦃v : β⦄, l[i]? = some a → l[j]? = some b →
    f a = some v → f b = some v → i = j

namespace SingleOwner

variable {α β : Type} {f : α → Option β} {l : List α}

theorem nil : SingleOwner f ([] : List α) := fun i _ _ _ _ h => by simp at h

/-- A party of a list with one member replaced: the new one, or another. -/
theorem getElem?_set_cases {k i : Nat} {a b : α} (h : (l.set k a)[i]? = some b) :
    (i = k ∧ b = a) ∨ (i ≠ k ∧ l[i]? = some b) := by
  rw [List.getElem?_set] at h
  split at h
  next heq =>
    split at h
    · exact .inl ⟨heq.symm, (Option.some.inj h).symm⟩
    · cases h
  next hne => exact .inr ⟨Ne.symm hne, h⟩

/-- A party of a list with one more: the new one, or another. -/
theorem getElem?_append_cases {i : Nat} {a b : α} (h : (l ++ [a])[i]? = some b) :
    (i = l.length ∧ b = a) ∨ l[i]? = some b := by
  rw [List.getElem?_append] at h
  split at h
  · exact .inr h
  next hlt =>
    rw [List.getElem?_singleton] at h
    split at h
    next hzero => exact .inl ⟨by omega, (Option.some.inj h).symm⟩
    · cases h

/-- One party changes: it keeps its key, gives it up, or takes one without an owner. -/
theorem set (h : SingleOwner f l) {k : Nat} {a a' : α} (hk : l[k]? = some a)
    (hkey : ∀ v, f a' = some v → f a = some v ∨ ∀ b ∈ l, f b ≠ some v) :
    SingleOwner f (l.set k a') := by
  have other {i : Nat} {b : α} {v : β} (hi : l[i]? = some b) (hb : f b = some v)
      (ha : f a' = some v) : i = k := by
    rcases hkey v ha with hkeep | hfree
    · exact h hi hk hb hkeep
    · exact absurd hb (hfree b (List.mem_of_getElem? hi))
  intro i j b c v hi hj hb hc
  rcases getElem?_set_cases hi with ⟨rfl, rfl⟩ | ⟨-, hi'⟩ <;>
    rcases getElem?_set_cases hj with ⟨rfl, rfl⟩ | ⟨-, hj'⟩
  · rfl
  · exact (other hj' hc hb).symm
  · exact other hi' hb hc
  · exact h hi' hj' hb hc

/-- A party is added, with a key that has no owner. -/
theorem append_one (h : SingleOwner f l) {a : α}
    (hfree : ∀ v, f a = some v → ∀ b ∈ l, f b ≠ some v) : SingleOwner f (l ++ [a]) := by
  intro i j b c v hi hj hb hc
  rcases getElem?_append_cases hi with ⟨rfl, rfl⟩ | hi' <;>
    rcases getElem?_append_cases hj with ⟨rfl, rfl⟩ | hj'
  · rfl
  · exact absurd hc (hfree v hb c (List.mem_of_getElem? hj'))
  · exact absurd hb (hfree v hc b (List.mem_of_getElem? hi'))
  · exact h hi' hj' hb hc

/-- One party hands its key over to a new one. -/
theorem hand_over (h : SingleOwner f l) {k : Nat} {a a' new : α} (hk : l[k]? = some a)
    (hgone : f a' = none) (hnew : f new = f a) : SingleOwner f (l.set k a' ++ [new]) := by
  have hset : SingleOwner f (l.set k a') :=
    h.set hk fun v hv => absurd (hgone.symm.trans hv) (by simp)
  refine hset.append_one fun v hv b hb hbv => ?_
  obtain ⟨i, hi⟩ := List.mem_iff_getElem?.mp hb
  rcases getElem?_set_cases hi with ⟨rfl, rfl⟩ | ⟨hne, hi⟩
  · exact absurd (hgone.symm.trans hbv) (by simp)
  · exact hne (h hi hk hbv (hnew ▸ hv))

end SingleOwner
