import Mathlib.Data.Nat.Digits.Defs
import Mathlib.Tactic.IntervalCases
import Mathlib.Tactic.Ring

/-!
Contract: numbers in text, as `printf` writes and `scanf` reads them.

Owns: the value of a digit and of a numeral in a base up to 16; the numeral of a
number, padded with zeros to a minimum width; and `strcmp`, which orders
numerals of one length by their values.

Does not own: signs, prefixes and the width of what holds the number.
-/

namespace Numerals

/-- The value of a digit, letters following on the ten decimal digits; 36 or more for
a character that is no digit in any base. -/
def digitValue (c : Char) : Nat :=
  if c.isDigit then c.toNat - 48
  else if c.isLower then c.toNat - 87
  else if c.isUpper then c.toNat - 55
  else 36

def IsDigit (base : Nat) (c : Char) : Prop := digitValue c < base

instance (base : Nat) (c : Char) : Decidable (IsDigit base c) :=
  inferInstanceAs (Decidable (digitValue c < base))

/-- The number some digits denote, most significant first. -/
def value (base : Nat) (digits : List Char) : Nat :=
  digits.foldl (fun total c => base * total + digitValue c) 0

/-- The digits of a number, with zeros in front up to `width` of them. -/
def numeral (base width n : Nat) : List Char := (Nat.toDigits base n).leftpad width '0'

section Numeral

variable {base width n count : Nat}

theorem digitValue_digitChar (small : n < 16) : digitValue n.digitChar = n := by
  interval_cases n <;> decide

theorem isDigit_toDigits (atLeast : 1 < base) (atMost : base ≤ 16) {c : Char}
    (member : c ∈ Nat.toDigits base n) : IsDigit base c := by
  induction n using Nat.strong_induction_on generalizing c with
  | h n inductionHypothesis =>
      have digit {d : Nat} (below : d < base) : IsDigit base d.digitChar := by
        unfold IsDigit
        rw [digitValue_digitChar (by omega)]
        exact below
      by_cases small : n < base
      · rw [Nat.toDigits_of_lt_base small, List.mem_singleton] at member
        exact member ▸ digit small
      · rw [Nat.toDigits_of_base_le atLeast (by omega), List.mem_append] at member
        rcases member with front | last
        · exact inductionHypothesis (n / base) (Nat.div_lt_self (by omega) atLeast) front
        · rw [List.mem_singleton] at last
          exact last ▸ digit (Nat.mod_lt _ (by omega))

theorem isDigit_numeral (atLeast : 1 < base) (atMost : base ≤ 16) {c : Char}
    (member : c ∈ numeral base width n) : IsDigit base c := by
  rw [numeral, List.leftpad, List.mem_append] at member
  rcases member with pad | digit
  · obtain rfl := List.eq_of_mem_replicate pad
    exact (by omega : (0 : Nat) < base)
  · exact isDigit_toDigits atLeast atMost digit

theorem value_append (front : List Char) (c : Char) :
    value base (front ++ [c]) = base * value base front + digitValue c := by
  rw [value, List.foldl_append]
  rfl

theorem value_toDigits (atLeast : 1 < base) (atMost : base ≤ 16) :
    value base (Nat.toDigits base n) = n := by
  induction n using Nat.strong_induction_on with
  | h n inductionHypothesis =>
      by_cases small : n < base
      · rw [Nat.toDigits_of_lt_base small]
        exact (Nat.zero_add _).trans (digitValue_digitChar (by omega))
      · have remainder : n % base < base := Nat.mod_lt _ (by omega)
        rw [Nat.toDigits_of_base_le atLeast (by omega), value_append,
          inductionHypothesis (n / base) (Nat.div_lt_self (by omega) atLeast),
          digitValue_digitChar (by omega)]
        exact Nat.div_add_mod n base

theorem value_zeros (count : Nat) (digits : List Char) :
    value base (List.replicate count '0' ++ digits) = value base digits := by
  induction count with
  | zero => rfl
  | succ count inductionHypothesis =>
      rw [List.replicate_succ, List.cons_append]
      exact inductionHypothesis

/-- A numeral denotes the number it was written for. -/
theorem value_numeral (atLeast : 1 < base) (atMost : base ≤ 16) :
    value base (numeral base width n) = n :=
  (value_zeros _ _).trans (value_toDigits atLeast atMost)

theorem length_numeral :
    (numeral base width n).length = max width (Nat.toDigits base n).length :=
  List.length_leftpad

theorem numeral_ne_nil : numeral base width n ≠ [] := by
  intro empty
  have positive : 0 < (Nat.toDigits base n).length := Nat.length_toDigits_pos
  have length := congrArg List.length empty
  rw [length_numeral, List.length_nil] at length
  omega

/-- The numbers whose numeral has a given number of digits at most. -/
theorem length_numeral_le_iff (atLeast : 1 < base) (positive : 0 < count)
    (fits : width ≤ count) : (numeral base width n).length ≤ count ↔ n < base ^ count := by
  rw [length_numeral, Nat.max_le, Nat.length_toDigits_le_iff atLeast positive]
  exact and_iff_right fits

end Numeral

/-! ## Order -/

/-- `strcmp`. -/
def strcmp : List Char → List Char → Int
  | [], [] => 0
  | [], d :: _ => -d.toNat
  | c :: _, [] => c.toNat
  | c :: left, d :: right => if c = d then strcmp left right else c.toNat - d.toNat

section Order

variable {base : Nat} {c d : Char} {digits left right : List Char}

theorem foldl_value (total : Nat) (digits : List Char) :
    digits.foldl (fun total c => base * total + digitValue c) total =
      base ^ digits.length * total + value base digits := by
  induction digits generalizing total with
  | nil => simp [value]
  | cons c digits inductionHypothesis =>
      have first : value base (c :: digits) =
          base ^ digits.length * (base * 0 + digitValue c) + value base digits :=
        inductionHypothesis _
      rw [List.foldl_cons, inductionHypothesis, first, List.length_cons]
      ring

/-- The first digit counts most. -/
theorem value_cons (c : Char) (digits : List Char) :
    value base (c :: digits) = base ^ digits.length * digitValue c + value base digits := by
  calc value base (c :: digits)
      = base ^ digits.length * (base * 0 + digitValue c) + value base digits := foldl_value _ digits
    _ = base ^ digits.length * digitValue c + value base digits := by
        rw [Nat.mul_zero, Nat.zero_add]

theorem value_lt (all : ∀ c ∈ digits, IsDigit base c) :
    value base digits < base ^ digits.length := by
  induction digits with
  | nil => exact Nat.one_pos
  | cons c digits inductionHypothesis =>
      have digit : digitValue c + 1 ≤ base := all c (.head _)
      have rest := inductionHypothesis fun c member => all c (.tail _ member)
      rw [value_cons, List.length_cons, Nat.pow_succ]
      calc base ^ digits.length * digitValue c + value base digits
          < base ^ digits.length * digitValue c + base ^ digits.length := by omega
        _ = base ^ digits.length * (digitValue c + 1) := by ring
        _ ≤ base ^ digits.length * base := Nat.mul_le_mul_left _ digit

theorem isDigit_ten : IsDigit 10 c ↔ c.isDigit = true := by
  have lower : c.isLower = true → 97 ≤ c.toNat := by
    intro letter
    have first := (Bool.and_eq_true_iff.mp letter).1
    exact UInt32.le_iff_toNat_le.mp (of_decide_eq_true first)
  have upper : c.isUpper = true → 65 ≤ c.toNat := by
    intro letter
    exact UInt32.le_iff_toNat_le.mp (of_decide_eq_true letter).1
  unfold IsDigit digitValue
  by_cases decimal : c.isDigit = true
  · have range : c.toNat ≤ 57 := (Char.isDigit_iff_toNat.mp decimal).2
    rw [if_pos decimal]
    exact iff_of_true (by omega) decimal
  · rw [if_neg decimal]
    refine iff_of_false (fun small => ?_) decimal
    split at small
    · next letter =>
        have range := lower letter
        omega
    · split at small
      · next letter =>
          have range := upper letter
          omega
      · omega

/-- Among decimal digits the character code and the value grow together. -/
theorem toNat_of_isDigit (digit : IsDigit 10 c) : c.toNat = 48 + digitValue c := by
  have decimal := isDigit_ten.mp digit
  have range : 48 ≤ c.toNat := (Char.isDigit_iff_toNat.mp decimal).1
  rw [digitValue, if_pos decimal]
  omega

/-- Numerals of one length are in the order of their texts. -/
theorem strcmp_le_zero_iff (same : left.length = right.length)
    (first : ∀ c ∈ left, IsDigit 10 c) (second : ∀ c ∈ right, IsDigit 10 c) :
    strcmp left right ≤ 0 ↔ value 10 left ≤ value 10 right := by
  induction left generalizing right with
  | nil =>
      obtain rfl := List.eq_nil_of_length_eq_zero same.symm
      simp [strcmp]
  | cons c left inductionHypothesis =>
      cases right with
      | nil => simp at same
      | cons d right =>
          have length : left.length = right.length := Nat.succ.inj same
          have leftBelow := value_lt fun c member => first c (.tail _ member)
          have rightBelow := value_lt fun c member => second c (.tail _ member)
          have code := toNat_of_isDigit (first c (.head _))
          have code' := toNat_of_isDigit (second d (.head _))
          rw [strcmp, value_cons, value_cons, length]
          rw [length] at leftBelow
          by_cases equal : c = d
          · subst equal
            rw [if_pos rfl, Nat.add_le_add_iff_left]
            exact inductionHypothesis length (fun c member => first c (.tail _ member))
              fun c member => second c (.tail _ member)
          · -- the first digit that differs decides
            have apart : digitValue c ≠ digitValue d := fun values =>
              equal (Char.toNat_inj.mp (by omega))
            rw [if_neg equal, code, code']
            rcases Nat.lt_or_gt_of_ne apart with less | greater
            · have step := Nat.mul_le_mul_left (10 ^ right.length) (Nat.succ_le_of_lt less)
              rw [Nat.mul_succ] at step
              omega
            · have step := Nat.mul_le_mul_left (10 ^ right.length) (Nat.succ_le_of_lt greater)
              rw [Nat.mul_succ] at step
              omega

end Order

end Numerals
