import Mathlib.Order.Basic
import Mathlib.Order.Nat

/-!
Contract: sequences in which equal keys stand next to each other.

Owns: the groups of such a sequence, with the first and the last index of
each.

Does not own: what the keys are.
-/

namespace Grouping

variable {β : Type} {key : Nat → β} {lower upper i j l : Nat}

/-- From `lower` to below `upper`, equal keys stand next to each other. -/
def Grouped (key : Nat → β) (lower upper : Nat) : Prop :=
  ∀ i j l, lower ≤ i → i ≤ j → j ≤ l → l < upper → key i = key l → key j = key i

/-- The first index of a group. -/
structure First (key : Nat → β) (lower upper i : Nat) : Prop where
  lower_le : lower ≤ i
  lt_upper : i < upper
  fresh : ∀ j, lower ≤ j → j < i → key j ≠ key i

/-- The group of `i` ends with it. -/
def Last (key : Nat → β) (upper i : Nat) : Prop := i + 1 = upper ∨ key (i + 1) ≠ key i

theorem First.le (first : First key lower upper i) (above : lower ≤ j) (same : key j = key i) :
    i ≤ j := by
  by_contra before
  exact first.fresh j above (by omega) same

/-- Every group has a first index. -/
theorem exists_first (key : Nat → β) (above : lower ≤ j) (below : j < upper) :
    ∃ i, First key lower upper i ∧ key i = key j := by
  induction j using Nat.strongRecOn with
  | ind j inductionHypothesis =>
      by_cases earlier : ∃ i, lower ≤ i ∧ i < j ∧ key i = key j
      · obtain ⟨i, aboveI, before, same⟩ := earlier
        obtain ⟨first, isFirst, group⟩ := inductionHypothesis i before aboveI (by omega)
        exact ⟨first, isFirst, group.trans same⟩
      · refine ⟨j, ⟨above, below, fun i aboveI before same => ?_⟩, rfl⟩
        exact earlier ⟨i, aboveI, before, same⟩

/-- Every group has a last index. -/
theorem exists_last (key : Nat → β) (below : j < upper) :
    ∃ l, j ≤ l ∧ l < upper ∧ key l = key j ∧ Last key upper l := by
  obtain ⟨room, size⟩ : ∃ room, j + room + 1 = upper := ⟨upper - j - 1, by omega⟩
  induction room generalizing j with
  | zero => exact ⟨j, le_rfl, below, rfl, .inl (by omega)⟩
  | succ room inductionHypothesis =>
      by_cases same : key (j + 1) = key j
      · obtain ⟨l, after, inside, group, last⟩ := @inductionHypothesis (j + 1) (by omega) (by omega)
        exact ⟨l, by omega, inside, group.trans same, last⟩
      · exact ⟨j, le_rfl, below, rfl, .inr same⟩

/-- Nothing of a group comes after its last index. -/
theorem Last.le (last : Last key upper l) (grouped : Grouped key lower upper) (above : lower ≤ l)
    (below : j < upper) (same : key j = key l) : j ≤ l := by
  by_contra after
  rcases last with atEnd | changes
  · omega
  · exact changes (grouped l (l + 1) j above (by omega) (by omega) below same.symm)

/-- Between two indices of a group there is no last one. -/
theorem Grouped.not_last (grouped : Grouped key lower upper) (above : lower ≤ i) (before : i < l)
    (below : l < upper) (same : key i = key l) : ¬ Last key upper i := by
  intro last
  have beyond := last.le grouped above below same.symm
  omega

/-- What is behind an index that is not the last of its group is in the group. -/
theorem Grouped.next (grouped : Grouped key lower upper) (above : lower ≤ i) (before : i < l)
    (below : l < upper) (same : key i = key l) : key (i + 1) = key l :=
  (grouped i (i + 1) l above (Nat.le_succ i) before below same).trans same

end Grouping
