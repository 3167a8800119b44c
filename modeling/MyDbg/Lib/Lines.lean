import Mathlib.Data.List.Basic

/-!
Contract: a text as lines, each with the separator that ends it.

Owns: the lines of a text, of which only the last can be without its end; and
that they are found one after the other, by what stands in front of the first
separator and behind it.

Does not own: what a separator is, and how a text is read.
-/

namespace Lines

variable {α : Type}

/-- An item joins the line behind it, or is one of its own. -/
def extend (item : α) : List (List α) → List (List α)
  | [] => [[item]]
  | line :: rest => (item :: line) :: rest

variable [DecidableEq α]

/-- No line is empty; the last one may be without its separator. -/
def lines (separator : α) : List α → List (List α)
  | [] => []
  | item :: rest =>
      if item = separator then [item] :: lines separator rest
      else extend item (lines separator rest)

variable {separator : α} {line text : List α}

theorem lines_ended (inside : separator ∉ line) (text : List α) :
    lines separator (line ++ separator :: text) =
      (line ++ [separator]) :: lines separator text := by
  induction line with
  | nil => rw [List.nil_append, lines, if_pos rfl, List.nil_append]
  | cons item rest inductionHypothesis =>
      have other : item ≠ separator := by
        rintro rfl
        exact inside List.mem_cons_self
      rw [List.cons_append, lines, if_neg other,
        inductionHypothesis fun member => inside (List.mem_cons_of_mem item member)]
      rfl

/-- What stands behind the last separator is a line, if there is anything. -/
theorem lines_last (nonempty : line ≠ []) (inside : separator ∉ line) :
    lines separator line = [line] := by
  induction line with
  | nil => exact absurd rfl nonempty
  | cons item rest inductionHypothesis =>
      have other : item ≠ separator := by
        rintro rfl
        exact inside List.mem_cons_self
      rw [lines, if_neg other]
      by_cases last : rest = []
      · rw [last]
        rfl
      · rw [inductionHypothesis last fun member => inside (List.mem_cons_of_mem item member)]
        rfl

/-- A text is empty, or one line, or a line with its end in front of a text. -/
theorem text_cases (separator : α) (text : List α) :
    text = [] ∨ (text ≠ [] ∧ separator ∉ text) ∨
      ∃ line rest, text = line ++ separator :: rest ∧ separator ∉ line := by
  by_cases member : separator ∈ text
  · obtain ⟨line, rest, split, first⟩ := List.eq_append_cons_of_mem member
    exact .inr (.inr ⟨line, rest, split, first⟩)
  · by_cases empty : text = []
    · exact .inl empty
    · exact .inr (.inl ⟨empty, member⟩)

end Lines
