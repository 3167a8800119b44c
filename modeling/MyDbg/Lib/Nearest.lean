import Mathlib.Data.List.Induction
import Mathlib.Order.Lattice

/-!
Contract: the nearest item of a list, where some items have no distance.

Owns: the search that keeps the best item so far and prefers a later item to an
earlier one as near; and that it finds an item no other beats, if there is any.

Does not own: where distances come from.
-/

namespace Nearest

variable {α δ : Type} [LinearOrder δ] (distance : α → Option δ)

/-- Keep the better of the best so far and the next item. -/
def closer (best : Option α) (item : α) : Option α :=
  match distance item with
  | none => best
  | some near =>
      match best.bind distance with
      | none => some item
      | some least => if near ≤ least then some item else best

def nearest (items : List α) : Option α := items.foldl (closer distance) none

/-- `item` stands in `items`; those of `others` in front of it are no nearer, and
those behind it are farther away. -/
def Unbeaten (others : α → Prop) (items : List α) (item : α) : Prop :=
  ∃ before after near, items = before ++ item :: after ∧ distance item = some near ∧
    (∀ other ∈ before, others other → ∀ far, distance other = some far → near ≤ far) ∧
    (∀ other ∈ after, others other → ∀ far, distance other = some far → near < far)

variable {distance} {items before after before' after' : List α} {item other : α}
  {others : α → Prop}

theorem nearest_append : nearest distance (items ++ [item]) =
    closer distance (nearest distance items) item := by
  rw [nearest, List.foldl_append]
  rfl

theorem unbeaten_append {near : δ} (found : distance item = some near)
    (least : ∀ other ∈ items, ∀ far, distance other = some far → near ≤ far) :
    Unbeaten distance (fun _ => True) (items ++ [item]) item :=
  ⟨items, [], near, rfl, found, fun other member _ => least other member,
    fun _ member => absurd member List.not_mem_nil⟩

/-- Every distance is at least that of an item no other beats. -/
theorem Unbeaten.least (unbeaten : Unbeaten distance (fun _ => True) items item)
    {near far : δ} (here : distance item = some near) (member : other ∈ items)
    (there : distance other = some far) : near ≤ far := by
  obtain ⟨before, after, same, rfl, found, early, late⟩ := unbeaten
  obtain rfl : same = near := Option.some.inj (found.symm.trans here)
  rw [List.mem_append, List.mem_cons] at member
  rcases member with first | rfl | last
  · exact early other first trivial far there
  · exact le_of_eq (Option.some.inj (here.symm.trans there))
  · exact le_of_lt (late other last trivial far there)

/-- An item that is farther away, or has no distance, changes nothing. -/
theorem Unbeaten.extend {near : δ} (unbeaten : Unbeaten distance others items item)
    (here : distance item = some near)
    (farther : ∀ far, distance other = some far → near < far) :
    Unbeaten distance others (items ++ [other]) item := by
  obtain ⟨before, after, same, rfl, found, early, late⟩ := unbeaten
  obtain rfl : same = near := Option.some.inj (found.symm.trans here)
  refine ⟨before, after ++ [other], same, by simp, found, early, ?_⟩
  intro another member counts far there
  rw [List.mem_append, List.mem_singleton] at member
  rcases member with later | rfl
  · exact late another later counts far there
  · exact farther far there

variable (distance) in
/-- An item is found, unbeaten by all others, unless none has a distance. -/
theorem nearest_spec (items : List α) :
    (nearest distance items = none ∧ ∀ item ∈ items, distance item = none) ∨
      ∃ item near, nearest distance items = some item ∧ distance item = some near ∧
        Unbeaten distance (fun _ => True) items item := by
  induction items using List.reverseRecOn with
  | nil => exact Or.inl ⟨rfl, fun _ member => absurd member List.not_mem_nil⟩
  | append_singleton items item inductionHypothesis =>
      rw [nearest_append]
      unfold closer
      rcases inductionHypothesis with ⟨missing, lost⟩ | ⟨best, near, found, here, unbeaten⟩
      · cases there : distance item with
        | none =>
            refine Or.inl ⟨missing, ?_⟩
            intro other member
            rw [List.mem_append, List.mem_singleton] at member
            rcases member with early | rfl
            · exact lost other early
            · exact there
        | some far =>
            rw [missing]
            refine Or.inr ⟨item, far, rfl, there, unbeaten_append there ?_⟩
            intro other member near here
            rw [lost other member] at here
            cases here
      · cases there : distance item with
        | none =>
            refine Or.inr ⟨best, near, found, here, unbeaten.extend here ?_⟩
            intro far elsewhere
            rw [there] at elsewhere
            cases elsewhere
        | some far =>
            rw [found]
            simp only [Option.bind_some, here]
            by_cases nearer : far ≤ near
            · rw [if_pos nearer]
              refine Or.inr ⟨item, far, rfl, there, unbeaten_append there ?_⟩
              intro other member away elsewhere
              exact nearer.trans (unbeaten.least here member elsewhere)
            · rw [if_neg nearer]
              refine Or.inr ⟨best, near, rfl, here, unbeaten.extend here ?_⟩
              intro away elsewhere
              obtain rfl := Option.some.inj (there.symm.trans elsewhere)
              exact lt_of_not_ge nearer

/-- Two items of one list are in one order or the other, unless they are one. -/
theorem splits_order (same : before ++ item :: after = before' ++ other :: after') :
    item = other ∨ (other ∈ before ∧ item ∈ after') ∨ (other ∈ after ∧ item ∈ before') := by
  rcases List.append_eq_append_iff.mp same with ⟨between, left, right⟩ | ⟨between, left, right⟩
  · cases between with
    | nil => exact Or.inl (List.cons.inj right).1
    | cons first between =>
        obtain ⟨rfl, rfl⟩ := List.cons.inj right
        exact Or.inr (Or.inr ⟨by simp, by simp [left]⟩)
  · cases between with
    | nil => exact Or.inl (List.cons.inj right).1.symm
    | cons first between =>
        obtain ⟨rfl, rfl⟩ := List.cons.inj right
        exact Or.inr (Or.inl ⟨by simp [left], by simp⟩)

/-- At most one item is beaten by no other. -/
theorem Unbeaten.unique (first : Unbeaten distance (fun _ => True) items item)
    (second : Unbeaten distance (fun _ => True) items other) : item = other := by
  obtain ⟨before, after, near, split, here, early, late⟩ := first
  obtain ⟨before', after', far, split', there, early', late'⟩ := second
  rcases splits_order (split.symm.trans split') with
    same | ⟨precedes, follows⟩ | ⟨follows, precedes⟩
  · exact same
  · exact absurd (early other precedes trivial far there)
      (not_le_of_gt (late' item follows trivial near here))
  · exact absurd (early' item precedes trivial near here)
      (not_le_of_gt (late other follows trivial far there))

/-- The item found is the one no other beats. -/
theorem nearest_eq_some :
    nearest distance items = some item ↔ Unbeaten distance (fun _ => True) items item := by
  rcases nearest_spec distance items with ⟨missing, lost⟩ | ⟨best, near, found, close, unbeaten⟩
  · constructor
    · intro found
      rw [missing] at found
      cases found
    · rintro ⟨before, after, near, split, here, _⟩
      have nowhere := lost item (by simp [split])
      rw [here] at nowhere
      cases nowhere
  · constructor
    · intro here
      rw [found] at here
      exact Option.some.inj here ▸ unbeaten
    · intro other
      rw [found, unbeaten.unique other]

/-- The item found is one of `good` exactly if one of `good` is beaten by no other
item than those of `good`. -/
theorem nearest_mem_iff (good : α → Prop) :
    (∃ item, nearest distance items = some item ∧ good item) ↔
      ∃ item, good item ∧ Unbeaten distance (fun other => ¬ good other) items item := by
  rcases nearest_spec distance items with ⟨missing, lost⟩ | ⟨best, least, found, _, unbeaten⟩
  · constructor
    · rintro ⟨item, found, _⟩
      rw [missing] at found
      cases found
    · rintro ⟨item, _, before, after, near, split, close, _⟩
      have nowhere := lost item (by simp [split])
      rw [close] at nowhere
      cases nowhere
  · obtain ⟨before, after, least, split, closest, first, last⟩ := unbeaten
    constructor
    · rintro ⟨item, here, isGood⟩
      obtain rfl := Option.some.inj (found.symm.trans here)
      exact ⟨best, isGood, before, after, least, split, closest,
        fun other member _ => first other member trivial,
        fun other member _ => last other member trivial⟩
    · rintro ⟨item, isGood, before', after', near, split', close, early, late⟩
      refine ⟨best, found, ?_⟩
      by_contra bad
      rcases splits_order (split'.symm.trans split) with
        rfl | ⟨precedes, follows⟩ | ⟨follows, precedes⟩
      · exact bad isGood
      · exact absurd (early best precedes bad least closest)
          (not_le_of_gt (last item follows trivial near close))
      · exact absurd (first item precedes trivial near close)
          (not_le_of_gt (late best follows bad least closest))

theorem nearest_eq_none :
    nearest distance items = none ↔ ∀ item ∈ items, distance item = none := by
  rcases nearest_spec distance items with ⟨missing, lost⟩ | ⟨best, near, found, close, unbeaten⟩
  · exact ⟨fun _ => lost, fun _ => missing⟩
  · constructor
    · intro missing
      rw [missing] at found
      cases found
    · intro lost
      obtain ⟨before, after, _, split, _⟩ := unbeaten
      have nowhere := lost best (by simp [split])
      rw [close] at nowhere
      cases nowhere

end Nearest
