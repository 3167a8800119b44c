import Mathlib.Data.List.TakeWhile
import MyDbg.Lib.Numerals

/-!
Contract: `sscanf` of the C library, in the C locale, for the conversions of
characters, unsigned numbers of 64 bits, pointers and words.

Owns: what each directive of a format consumes, assigns and fails on; the
result of a call; what a directive does on input that begins as it asks; and
which texts one conversion reads to their end, as `%n` tells.

Does not own: where the assigned values are stored; other conversions.
-/

namespace Scanf

open Numerals

/-- `isspace`. -/
def IsSpace (c : Char) : Prop :=
  c = ' ' ∨ c = '\t' ∨ c = '\n' ∨ c = '\x0b' ∨ c = '\x0c' ∨ c = '\r'

instance (c : Char) : Decidable (IsSpace c) :=
  inferInstanceAs
    (Decidable (c = ' ' ∨ c = '\t' ∨ c = '\n' ∨ c = '\x0b' ∨ c = '\x0c' ∨ c = '\r'))

/-- A directive of a format; `width` is a maximum field width. -/
inductive Directive where
  | space
  | literal (c : Char)
  | char
  | number (base : Nat) (width : Option Nat)
  | string

inductive Item where
  | char (c : Char)
  | number (n : BitVec 64)
  | string (s : List Char)
deriving DecidableEq

/-- How a scan ends: with the format, with the input, or on a character that does
not match. -/
inductive Ending where
  | done
  | inputFailure
  | matchingFailure
deriving DecidableEq

structure Scanned where
  items : List Item
  ending : Ending
deriving DecidableEq

/-- What `sscanf` returns: the number of assigned items, or `EOF`. -/
def Scanned.ret (scanned : Scanned) : Int :=
  if scanned.items = [] ∧ scanned.ending = .inputFailure then -1 else scanned.items.length

def Scanned.push (item : Item) (scanned : Scanned) : Scanned :=
  { scanned with items := item :: scanned.items }

def Scanned.prepend (items : List Item) (scanned : Scanned) : Scanned :=
  { scanned with items := items ++ scanned.items }

/-! ## Numbers -/

def skipSpace (input : List Char) : List Char := input.dropWhile (fun c => IsSpace c)

/-- The sign in front of a number. -/
def signLength : List Char → Nat
  | '+' :: _ => 1
  | '-' :: _ => 1
  | _ => 0

/-- The `0x` in front of a hexadecimal number. -/
def prefixLength (base : Nat) : List Char → Nat
  | '0' :: 'x' :: _ => if base = 16 then 2 else 0
  | '0' :: 'X' :: _ => if base = 16 then 2 else 0
  | _ => 0

/-- `strtoull`: what is too large becomes the largest number. -/
def clamp (negative : Bool) (n : Nat) : BitVec 64 :=
  if 2 ^ 64 ≤ n then BitVec.allOnes 64
  else if negative then -BitVec.ofNat 64 n
  else BitVec.ofNat 64 n

/-- The number that `field` begins with, and how many characters it takes. -/
def scanNumber (base : Nat) (field : List Char) : Option (BitVec 64 × Nat) :=
  let sign := signLength field
  let zeroX := prefixLength base (field.drop sign)
  let digits := (field.drop (sign + zeroX)).takeWhile (fun c => IsDigit base c)
  if zeroX = 0 ∧ digits = [] then none
  else some (clamp (field.head? = some '-') (value base digits), sign + zeroX + digits.length)

/-- The part of the input a conversion may read. -/
def fieldOf (width : Option Nat) (input : List Char) : List Char :=
  match width with
  | some width => input.take width
  | none => input

/-! ## Formats -/

def sscanf : List Directive → List Char → Scanned
  | [], _ => ⟨[], .done⟩
  | .space :: format, input => sscanf format (skipSpace input)
  | .literal c :: format, input =>
      match input with
      | [] => ⟨[], .inputFailure⟩
      | d :: input => if d = c then sscanf format input else ⟨[], .matchingFailure⟩
  | .char :: format, input =>
      match input with
      | [] => ⟨[], .inputFailure⟩
      | c :: input => (sscanf format input).push (.char c)
  | .number base width :: format, input =>
      match skipSpace input with
      | [] => ⟨[], .inputFailure⟩
      | c :: rest =>
          match scanNumber base (fieldOf width (c :: rest)) with
          | none => ⟨[], .matchingFailure⟩
          | some (n, used) => (sscanf format ((c :: rest).drop used)).push (.number n)
  | .string :: format, input =>
      match skipSpace input with
      | [] => ⟨[], .inputFailure⟩
      | c :: rest =>
          (sscanf format ((c :: rest).dropWhile (fun c => ¬ IsSpace c))).push
            (.string ((c :: rest).takeWhile (fun c => ¬ IsSpace c)))

/-! ## Input that begins as a directive asks -/

section Digits

variable {base : Nat} {digits rest : List Char} {format : List Directive} {width : Option Nat}

/-- What follows does not continue a numeral. -/
def EndsNumeral (base : Nat) (rest : List Char) : Prop :=
  ∀ c ∈ rest.head?, ¬ IsDigit base c ∧ c ≠ 'x' ∧ c ≠ 'X'

theorem not_isSpace_of_isDigit {c : Char} (digit : IsDigit base c) (atMost : base ≤ 16) :
    ¬ IsSpace c := by
  have small : digitValue c < 16 := Nat.lt_of_lt_of_le digit atMost
  rintro (rfl | rfl | rfl | rfl | rfl | rfl) <;> exact absurd small (by decide)

theorem ne_of_isDigit {c other : Char} (digit : IsDigit base c) (atMost : base ≤ 16)
    (notDigit : 16 ≤ digitValue other) : c ≠ other := by
  rintro rfl
  have small : digitValue c < 16 := Nat.lt_of_lt_of_le digit atMost
  omega

theorem stops_cons {c : Char} (atMost : base ≤ 16)
    (other : 16 ≤ digitValue c ∧ c ≠ 'x' ∧ c ≠ 'X') : EndsNumeral base (c :: rest) := by
  rintro _ ⟨⟩
  exact ⟨fun digit => ne_of_isDigit digit atMost other.1 rfl, other.2⟩

theorem skipSpace_of_head {c : Char} (visible : ¬ IsSpace c) :
    skipSpace (c :: rest) = c :: rest :=
  List.dropWhile_cons_of_neg (by simpa using visible)

theorem takeWhile_append {selected : Char → Prop} [DecidablePred selected]
    (all : ∀ c ∈ digits, selected c) (stops : ∀ c ∈ rest.head?, ¬ selected c) :
    (digits ++ rest).takeWhile (fun c => selected c) = digits := by
  rw [List.takeWhile_append_of_pos (by simpa using all)]
  cases rest with
  | nil => exact List.append_nil _
  | cons c rest =>
      rw [List.takeWhile_cons_of_neg (by simpa using stops c rfl), List.append_nil]

theorem signLength_digits {c : Char} (digit : IsDigit base c) (atMost : base ≤ 16) :
    signLength (c :: rest) = 0 := by
  unfold signLength
  split
  · next sign =>
      exact absurd (List.cons.inj sign).1 (ne_of_isDigit digit atMost (by decide))
  · next sign =>
      exact absurd (List.cons.inj sign).1 (ne_of_isDigit digit atMost (by decide))
  · rfl

theorem prefixLength_digits (all : ∀ c ∈ digits, IsDigit base c) (atMost : base ≤ 16)
    (nonempty : digits ≠ []) (stops : EndsNumeral base rest) :
    prefixLength base (digits ++ rest) = 0 := by
  have second {c d : Char} {more : List Char} (input : digits ++ rest = c :: d :: more) :
      d ≠ 'x' ∧ d ≠ 'X' := by
    match digits, nonempty with
    | [_], _ =>
        obtain ⟨_, rfl⟩ := List.cons.inj input
        exact (stops d rfl).2
    | _ :: e :: _, _ =>
        obtain ⟨_, tail⟩ := List.cons.inj input
        obtain ⟨rfl, _⟩ := List.cons.inj tail
        have digit : IsDigit base e := all e (.tail _ (.head _))
        exact ⟨ne_of_isDigit digit atMost (by decide), ne_of_isDigit digit atMost (by decide)⟩
  unfold prefixLength
  split
  · next more => exact absurd rfl (second (by assumption)).1
  · next more => exact absurd rfl (second (by assumption)).2
  · rfl

/-- A numeral is read to its end. -/
theorem scanNumber_digits (all : ∀ c ∈ digits, IsDigit base c) (atMost : base ≤ 16)
    (nonempty : digits ≠ []) (stops : EndsNumeral base rest) :
    scanNumber base (digits ++ rest) = some (clamp false (value base digits), digits.length) := by
  have sign : signLength (digits ++ rest) = 0 ∧ (digits ++ rest).head? ≠ some '-' := by
    match digits, nonempty with
    | c :: _, _ =>
        have digit : IsDigit base c := all c (.head _)
        exact ⟨signLength_digits digit atMost,
          fun minus => ne_of_isDigit digit atMost (by decide) (Option.some.inj minus)⟩
  have zeroX := prefixLength_digits all atMost nonempty stops
  unfold scanNumber
  simp only [sign.1, List.drop_zero, zeroX, Nat.add_zero, Nat.zero_add,
    takeWhile_append all fun c first => (stops c first).1, nonempty, and_false, if_false, sign.2,
    decide_false]

/-- A letter does not begin a decimal number. -/
theorem scanNumber_none {c : Char} (positive : 0 < base) (notDigit : ¬ IsDigit base c)
    (letter : IsDigit 16 c) : scanNumber base (c :: rest) = none := by
  have sign : signLength (c :: rest) = 0 := signLength_digits letter (Nat.le_refl _)
  have zeroX : prefixLength base (c :: rest) = 0 := by
    unfold prefixLength
    split
    · next zero =>
        obtain ⟨rfl, _⟩ := List.cons.inj zero
        exact absurd positive notDigit
    · next zero =>
        obtain ⟨rfl, _⟩ := List.cons.inj zero
        exact absurd positive notDigit
    · rfl
  have none : (c :: rest).takeWhile (fun c => IsDigit base c) = [] :=
    List.takeWhile_cons_of_neg (by simpa using notDigit)
  unfold scanNumber
  simp only [sign, List.drop_zero, zeroX, Nat.add_zero, none, and_self, if_true]

theorem clamp_small {n : Nat} (small : n < 2 ^ 64) : clamp false n = BitVec.ofNat 64 n := by
  rw [clamp, if_neg (by omega), if_neg Bool.false_ne_true]

theorem clamp_numeral (atLeast : 1 < base) (atMost : base ≤ 16) (least : Nat)
    (n : BitVec 64) : clamp false (value base (numeral base least n.toNat)) = n := by
  rw [value_numeral atLeast atMost]
  unfold clamp
  rw [if_neg (Nat.not_le.mpr n.isLt), if_neg nofun, BitVec.ofNat_toNat, BitVec.setWidth_eq]

/-! ## Directives -/

theorem sscanf_space {c : Char} (visible : ¬ IsSpace c) :
    sscanf (.space :: format) (c :: rest) = sscanf format (c :: rest) :=
  congrArg (sscanf format) (skipSpace_of_head visible)

theorem sscanf_blank : sscanf (.space :: format) (' ' :: rest) =
    sscanf (.space :: format) rest := rfl

theorem sscanf_space_digits (all : ∀ c ∈ digits, IsDigit base c) (atMost : base ≤ 16)
    (nonempty : digits ≠ []) :
    sscanf (.space :: format) (digits ++ rest) = sscanf format (digits ++ rest) := by
  cases digits with
  | nil => exact absurd rfl nonempty
  | cons c digits => exact sscanf_space (not_isSpace_of_isDigit (all c (.head _)) atMost)

theorem sscanf_literal {c : Char} : sscanf (.literal c :: format) (c :: rest) =
    sscanf format rest :=
  if_pos rfl

theorem sscanf_mismatch {c d : Char} (differs : d ≠ c) :
    sscanf (.literal c :: format) (d :: rest) = ⟨[], .matchingFailure⟩ :=
  if_neg differs

theorem sscanf_char {c : Char} : sscanf (.char :: format) (c :: rest) =
    (sscanf format rest).push (.char c) := rfl

/-- The digits at the start of the field are read. -/
theorem sscanf_field {more : List Char} (all : ∀ c ∈ digits, IsDigit base c)
    (atMost : base ≤ 16) (nonempty : digits ≠ [])
    (field : fieldOf width (digits ++ rest) = digits ++ more) (stops : EndsNumeral base more) :
    sscanf (.number base width :: format) (digits ++ rest) =
      (sscanf format rest).push (.number (clamp false (value base digits))) := by
  cases digits with
  | nil => exact absurd rfl nonempty
  | cons c digits =>
      have visible : ¬ IsSpace c := not_isSpace_of_isDigit (all c (.head _)) atMost
      have skipped : skipSpace (c :: (digits ++ rest)) = c :: (digits ++ rest) :=
        skipSpace_of_head visible
      have read := scanNumber_digits all atMost nofun stops
      have remaining : (c :: (digits ++ rest)).drop (c :: digits).length = rest :=
        List.drop_left' rfl
      rw [List.cons_append] at field ⊢
      simp only [sscanf, skipped, field, read, remaining]

theorem sscanf_number (all : ∀ c ∈ digits, IsDigit base c) (atMost : base ≤ 16)
    (nonempty : digits ≠ []) (stops : EndsNumeral base rest) :
    sscanf (.number base none :: format) (digits ++ rest) =
      (sscanf format rest).push (.number (clamp false (value base digits))) :=
  sscanf_field all atMost nonempty rfl stops

/-- A numeral is cut where the field ends. -/
theorem sscanf_cut {most : Nat} (all : ∀ c ∈ digits, IsDigit base c) (atMost : base ≤ 16)
    (nonempty : digits ≠ []) (positive : 0 < most) (stops : EndsNumeral base rest) :
    sscanf (.number base (some most) :: format) (digits ++ rest) =
      (sscanf format (digits.drop most ++ rest)).push
        (.number (clamp false (value base (digits.take most)))) := by
  have cut : digits.take most ++ (digits.drop most ++ rest) = digits ++ rest := by
    rw [← List.append_assoc, List.take_append_drop]
  have some : digits.take most ≠ [] := by
    simp only [ne_eq, List.take_eq_nil_iff, nonempty, or_false]
    omega
  have within : ∀ c ∈ digits.take most, IsDigit base c :=
    fun c member => all c (List.mem_of_mem_take member)
  have field : fieldOf (.some most) (digits ++ rest) =
      digits.take most ++ rest.take (most - digits.length) := List.take_append
  have ends : EndsNumeral base (rest.take (most - digits.length)) := by
    intro c first
    rw [List.head?_take] at first
    split at first
    · cases first
    · exact stops c first
  rw [← cut] at field ⊢
  exact sscanf_field within atMost some field ends

/-- A field that begins with a letter holds no decimal number. -/
theorem sscanf_letter {c : Char} (positive : 0 < base) (notDigit : ¬ IsDigit base c)
    (letter : IsDigit 16 c) :
    sscanf (.number base none :: format) (c :: rest) = ⟨[], .matchingFailure⟩ := by
  have skipped : skipSpace (c :: rest) = c :: rest :=
    skipSpace_of_head (not_isSpace_of_isDigit letter (Nat.le_refl _))
  simp only [sscanf, skipped, fieldOf, scanNumber_none positive notDigit letter]

end Digits

/-! ## Words -/

/-- The first word of the input, empty where there is none. -/
def firstWord (input : List Char) : List Char :=
  (skipSpace input).takeWhile (fun c => ¬ IsSpace c)

theorem skipSpace_head {input rest : List Char} {c : Char}
    (skipped : skipSpace input = c :: rest) : ¬ IsSpace c := by
  have stopped := List.head?_dropWhile_not (fun c => decide (IsSpace c)) input
  unfold skipSpace at skipped
  rw [skipped] at stopped
  exact of_decide_eq_false stopped

/-- What a last `%s` assigns. -/
theorem sscanf_string (input : List Char) :
    sscanf [.space, .string] input =
      if firstWord input = [] then ⟨[], .inputFailure⟩
      else ⟨[.string (firstWord input)], .done⟩ := by
  unfold firstWord
  cases skipped : skipSpace input with
  | nil =>
      have again : skipSpace [] = [] := rfl
      simp only [sscanf, skipped, again, List.takeWhile_nil, if_true]
  | cons c rest =>
      have visible : ¬ IsSpace c := skipSpace_head skipped
      have again : skipSpace (c :: rest) = c :: rest := skipSpace_of_head visible
      have some : (c :: rest).takeWhile (fun c => ¬ IsSpace c) ≠ [] := by
        rw [List.takeWhile_cons_of_pos (by simpa using visible)]
        nofun
      simp only [sscanf, skipped, again, some, if_false, Scanned.push]

/-- Spaces in front do not count. -/
theorem firstWord_spaces {spaces : List Char} (blank : ∀ c ∈ spaces, IsSpace c)
    (rest : List Char) : firstWord (spaces ++ rest) = firstWord rest := by
  unfold firstWord skipSpace
  rw [List.dropWhile_append_of_pos (by simpa using blank)]

theorem firstWord_append {word rest : List Char} (visible : ∀ c ∈ word, ¬ IsSpace c)
    (ends : ∀ c ∈ rest.head?, IsSpace c) (nonempty : word ≠ []) :
    firstWord (word ++ rest) = word := by
  cases word with
  | nil => exact absurd rfl nonempty
  | cons c word =>
      unfold firstWord
      rw [List.cons_append, skipSpace_of_head (visible c (.head _)), ← List.cons_append]
      exact takeWhile_append visible fun c first => not_not.mpr (ends c first)

theorem firstWord_visible {input : List Char} {c : Char} (member : c ∈ firstWord input) :
    ¬ IsSpace c := by
  have selected := List.mem_takeWhile_imp member
  exact of_decide_eq_true selected

/-- A text is read whole if it holds no space. -/
theorem firstWord_eq_iff {word rest : List Char} (blank : ∀ c ∈ rest, IsSpace c) :
    firstWord (word ++ rest) = word ↔ ∀ c ∈ word, ¬ IsSpace c := by
  constructor
  · intro whole c member
    rw [← whole] at member
    exact firstWord_visible member
  · intro visible
    by_cases empty : word = []
    · rw [empty, List.nil_append, ← List.append_nil rest]
      exact firstWord_spaces blank []
    · exact firstWord_append visible (fun c first => blank c (List.mem_of_mem_head? first)) empty

/-! ## One conversion and `%n` -/

/-- A null pointer as it is printed; `%p` reads it in capitals too. -/
def IsNil (text : List Char) : Prop := text.map Char.toLower = ['(', 'n', 'i', 'l', ')']

instance (text : List Char) : Decidable (IsNil text) :=
  inferInstanceAs (Decidable (text.map Char.toLower = ['(', 'n', 'i', 'l', ')']))

/-- What `%p` reads. -/
def scanPointer (field : List Char) : Option (BitVec 64 × Nat) :=
  match scanNumber 16 field with
  | some read => some read
  | none => if IsNil (field.take 5) then some (0, 5) else none

/-- One conversion and `%n`, where both are assigned: the value, and how many
characters are read by then. -/
def sscanfCounted (scan : List Char → Option (BitVec 64 × Nat)) (width : Option Nat)
    (input : List Char) : Option (BitVec 64 × Nat) :=
  match skipSpace input with
  | [] => none
  | c :: rest =>
      (scan (fieldOf width (c :: rest))).map fun (n, used) =>
        (n, (input.length - (c :: rest).length) + used)

/-- A text that is a number to its end. -/
structure NumberText (base : Nat) where
  spaces : List Char
  sign : List Char
  zeroX : List Char
  digits : List Char
  blank : ∀ c ∈ spaces, IsSpace c
  signed : sign = [] ∨ sign = ['+'] ∨ sign = ['-']
  prefixed : zeroX = [] ∨ base = 16 ∧ (zeroX = ['0', 'x'] ∨ zeroX = ['0', 'X'])
  digit : ∀ c ∈ digits, IsDigit base c
  nonempty : zeroX ++ digits ≠ []

namespace NumberText

variable {base : Nat}

/-- The text behind the blanks. -/
def field (number : NumberText base) : List Char :=
  number.sign ++ (number.zeroX ++ number.digits)

def text (number : NumberText base) : List Char := number.spaces ++ number.field

/-- What `strtoull` makes of it. -/
def result (number : NumberText base) : BitVec 64 :=
  clamp (number.sign = ['-']) (value base number.digits)

end NumberText

section Counted

variable {base : Nat} {input field : List Char} {n : BitVec 64}

theorem skipSpace_spaces {spaces rest : List Char} (blank : ∀ c ∈ spaces, IsSpace c)
    (visible : ∀ c ∈ rest.head?, ¬ IsSpace c) : skipSpace (spaces ++ rest) = rest := by
  unfold skipSpace
  rw [List.dropWhile_append_of_pos (by simpa using blank)]
  cases rest with
  | nil => rfl
  | cons c rest => exact skipSpace_of_head (visible c rfl)

/-- The `0x` in front and the digits behind it are told apart. -/
theorem prefixLength_prefixed {zeroX digits : List Char} (atMost : base ≤ 16)
    (prefixed : zeroX = [] ∨ base = 16 ∧ (zeroX = ['0', 'x'] ∨ zeroX = ['0', 'X']))
    (all : ∀ c ∈ digits, IsDigit base c) (nonempty : zeroX ++ digits ≠ []) :
    prefixLength base (zeroX ++ digits) = zeroX.length := by
  rcases prefixed with rfl | ⟨rfl, rfl | rfl⟩
  · have ends : EndsNumeral base [] := fun _ first => by cases first
    have alone := prefixLength_digits all atMost nonempty ends
    rw [List.append_nil] at alone
    exact alone
  · rfl
  · rfl

/-- The first character behind the sign is a digit. -/
theorem head_prefixed {zeroX digits : List Char}
    (prefixed : zeroX = [] ∨ base = 16 ∧ (zeroX = ['0', 'x'] ∨ zeroX = ['0', 'X']))
    (all : ∀ c ∈ digits, IsDigit base c) (nonempty : zeroX ++ digits ≠ []) :
    ∃ c rest, zeroX ++ digits = c :: rest ∧ IsDigit base c := by
  rcases prefixed with rfl | ⟨rfl, rfl | rfl⟩
  · cases digits with
    | nil => exact absurd rfl nonempty
    | cons c digits => exact ⟨c, digits, rfl, all c (.head _)⟩
  · exact ⟨'0', 'x' :: digits, rfl, by decide⟩
  · exact ⟨'0', 'X' :: digits, rfl, by decide⟩

namespace NumberText

variable (number : NumberText base)

/-- A number text without its blanks starts with a digit, behind a sign if there is one. -/
theorem field_cases : ∃ c rest, IsDigit base c ∧
    ((number.sign = [] ∧ number.field = c :: rest) ∨
      (number.sign = ['+'] ∧ number.field = '+' :: c :: rest) ∨
      (number.sign = ['-'] ∧ number.field = '-' :: c :: rest)) := by
  obtain ⟨c, rest, first, digit⟩ := head_prefixed number.prefixed number.digit number.nonempty
  refine ⟨c, rest, digit, ?_⟩
  unfold field
  rw [first]
  rcases number.signed with none | plus | minus
  · exact .inl ⟨none, by rw [none]; rfl⟩
  · exact .inr (.inl ⟨plus, by rw [plus]; rfl⟩)
  · exact .inr (.inr ⟨minus, by rw [minus]; rfl⟩)

theorem head (atMost : base ≤ 16) : ∃ c rest, number.field = c :: rest ∧ ¬ IsSpace c := by
  obtain ⟨c, rest, digit, ⟨_, plain⟩ | ⟨_, plus⟩ | ⟨_, minus⟩⟩ := number.field_cases
  · exact ⟨c, rest, plain, not_isSpace_of_isDigit digit atMost⟩
  · exact ⟨'+', c :: rest, plus, by decide⟩
  · exact ⟨'-', c :: rest, minus, by decide⟩

theorem skipSpace_text (atMost : base ≤ 16) : skipSpace number.text = number.field := by
  obtain ⟨c, rest, first, visible⟩ := number.head atMost
  refine skipSpace_spaces number.blank fun d same => ?_
  rw [first] at same
  obtain rfl : c = d := Option.some.inj same
  exact visible

theorem signLength_field (atMost : base ≤ 16) : signLength number.field = number.sign.length := by
  obtain ⟨c, rest, digit, ⟨none, plain⟩ | ⟨plus, field⟩ | ⟨minus, field⟩⟩ := number.field_cases
  · rw [none, plain]
    exact signLength_digits digit atMost
  · rw [plus, field]
    rfl
  · rw [minus, field]
    rfl

theorem head_eq_minus (atMost : base ≤ 16) :
    number.field.head? = some '-' ↔ number.sign = ['-'] := by
  obtain ⟨c, rest, digit, ⟨none, plain⟩ | ⟨plus, field⟩ | ⟨minus, field⟩⟩ := number.field_cases
  · have other : c ≠ '-' := ne_of_isDigit digit atMost (by decide)
    simp [none, plain, other]
  · simp [plus, field]
  · simp [minus, field]

/-- The number is read to its end. -/
theorem scanNumber_field (atMost : base ≤ 16) :
    scanNumber base number.field = some (number.result, number.field.length) := by
  have all : (number.digits).takeWhile (fun c => IsDigit base c) = number.digits := by
    rw [List.takeWhile_eq_self_iff]
    simpa using number.digit
  have behind : number.field.drop number.sign.length = number.zeroX ++ number.digits :=
    List.drop_left
  have digits : number.field.drop (number.sign.length + number.zeroX.length) = number.digits := by
    rw [← List.drop_drop, behind]
    exact List.drop_left
  have zeroX := prefixLength_prefixed atMost number.prefixed number.digit number.nonempty
  have some : ¬ (number.zeroX.length = 0 ∧ number.digits = []) := by
    rintro ⟨none, empty⟩
    exact number.nonempty (by rw [List.eq_nil_of_length_eq_zero none, empty]; rfl)
  have length : number.sign.length + number.zeroX.length + number.digits.length =
      number.field.length := by simp [field, Nat.add_assoc]
  unfold scanNumber
  simp only [number.signLength_field atMost, behind, zeroX, digits, all, if_neg some,
    number.head_eq_minus atMost, length, result]

theorem result_unsigned (unsigned : number.sign = [])
    (small : value base number.digits < 2 ^ 64) :
    number.result.toNat = value base number.digits := by
  have positive : decide (number.sign = ['-']) = false := by rw [unsigned]; rfl
  rw [result, positive, clamp_small small, BitVec.toNat_ofNat, Nat.mod_eq_of_lt small]

theorem text_unsigned (spaces : number.spaces = []) (unsigned : number.sign = []) :
    number.text = number.zeroX ++ number.digits := by
  rw [text, field, spaces, unsigned, List.nil_append, List.nil_append]

end NumberText

theorem take_signLength (field : List Char) :
    field.take (signLength field) = [] ∨ field.take (signLength field) = ['+'] ∨
      field.take (signLength field) = ['-'] := by
  unfold signLength
  split
  · exact .inr (.inl rfl)
  · exact .inr (.inr rfl)
  · exact .inl rfl

theorem take_prefixLength (field : List Char) :
    field.take (prefixLength base field) = [] ∨ base = 16 ∧
      (field.take (prefixLength base field) = ['0', 'x'] ∨
        field.take (prefixLength base field) = ['0', 'X']) := by
  unfold prefixLength
  split
  · by_cases hex : base = 16
    · rw [if_pos hex]
      exact .inr ⟨hex, .inl rfl⟩
    · rw [if_neg hex]
      exact .inl rfl
  · by_cases hex : base = 16
    · rw [if_pos hex]
      exact .inr ⟨hex, .inr rfl⟩
    · rw [if_neg hex]
      exact .inl rfl
  · exact .inl rfl

theorem length_take_signLength (field : List Char) :
    (field.take (signLength field)).length = signLength field := by
  unfold signLength
  split <;> rfl

theorem length_take_prefixLength (field : List Char) :
    (field.take (prefixLength base field)).length = prefixLength base field := by
  unfold prefixLength
  split
  · split <;> rfl
  · split <;> rfl
  · rfl

/-- What is read to its end is a number. -/
theorem scanNumber_whole {used : Nat} (read : scanNumber base field = some (n, used))
    (whole : used = field.length) :
    ∃ number : NumberText base, number.spaces = [] ∧ number.field = field := by
  unfold scanNumber at read
  simp only [← List.drop_drop] at read
  -- the parts in the order they are read
  have signed := take_signLength field
  have signSplit := List.take_append_drop (signLength field) field
  have signLength' := length_take_signLength field
  generalize signLength field = sign at read signed signSplit signLength'
  have prefixed : _ ∨ base = 16 ∧ _ := take_prefixLength (field.drop sign)
  have prefixSplit := List.take_append_drop (prefixLength base (field.drop sign)) (field.drop sign)
  have prefixLength' : _ = prefixLength base _ := length_take_prefixLength (field.drop sign)
  generalize prefixLength base (field.drop sign) = zeroX
    at read prefixed prefixSplit prefixLength'
  by_cases none : zeroX = 0 ∧
      ((field.drop sign).drop zeroX).takeWhile (fun c => IsDigit base c) = []
  · rw [if_pos none] at read
    cases read
  rw [if_neg none] at read
  obtain ⟨_, count⟩ := Prod.mk.inj (Option.some.inj read)
  have lengths := congrArg List.length signSplit
  have lengths' := congrArg List.length prefixSplit
  rw [List.length_append] at lengths lengths'
  have all : ((field.drop sign).drop zeroX).takeWhile (fun c => IsDigit base c) =
      (field.drop sign).drop zeroX :=
    (List.takeWhile_prefix _).eq_of_length (by omega)
  have parts : field.take sign ++
      ((field.drop sign).take zeroX ++ (field.drop sign).drop zeroX) = field := by
    rw [prefixSplit, signSplit]
  refine ⟨⟨[], field.take sign, (field.drop sign).take zeroX, (field.drop sign).drop zeroX,
    fun _ member => (by cases member), signed, prefixed, ?_, ?_⟩, rfl,
    parts⟩
  · simpa using List.takeWhile_eq_self_iff.mp all
  · intro empty
    rw [prefixSplit] at empty
    rw [empty, List.drop_nil, List.takeWhile_nil] at none
    rw [empty, List.take_nil, List.length_nil] at prefixLength'
    exact none ⟨prefixLength'.symm, rfl⟩

theorem fieldOf_whole {width : Option Nat} (fits : ∀ most ∈ width, field.length ≤ most) :
    fieldOf width field = field := by
  cases width with
  | none => rfl
  | some most => exact List.take_of_length_le (fits most rfl)

theorem length_skipSpace_le (input : List Char) : (skipSpace input).length ≤ input.length :=
  List.length_dropWhile_le _ _

/-- A conversion that is not cut short reads the whole text exactly if it reads all
that is behind the blanks. -/
theorem sscanfCounted_whole {scan : List Char → Option (BitVec 64 × Nat)} {width : Option Nat}
    (fits : ∀ most ∈ width, input.length ≤ most) :
    sscanfCounted scan width input = some (n, input.length) ↔
      skipSpace input ≠ [] ∧ scan (skipSpace input) = some (n, (skipSpace input).length) := by
  have shorter := length_skipSpace_le input
  have whole : fieldOf width (skipSpace input) = skipSpace input :=
    fieldOf_whole fun most given => shorter.trans (fits most given)
  unfold sscanfCounted
  cases behind : skipSpace input with
  | nil => simp
  | cons c rest =>
      rw [behind] at whole shorter
      simp only [whole, ne_eq, reduceCtorEq, not_false_eq_true, true_and]
      cases read : scan (c :: rest) with
      | none => simp
      | some pair =>
          obtain ⟨value, used⟩ := pair
          simp only [Option.map_some, Option.some.injEq, Prod.mk.injEq, and_congr_right_iff]
          omega

theorem takeWhile_skipSpace (input : List Char) :
    (∀ c ∈ input.takeWhile (fun c => IsSpace c), IsSpace c) ∧
      input.takeWhile (fun c => IsSpace c) ++ skipSpace input = input := by
  refine ⟨fun c member => ?_, List.takeWhile_append_dropWhile⟩
  have selected := List.mem_takeWhile_imp member
  exact of_decide_eq_true selected

/-- The texts a number conversion reads to their end. -/
theorem sscanfCounted_number_iff {width : Option Nat} (atMost : base ≤ 16)
    (fits : ∀ most ∈ width, input.length ≤ most) :
    sscanfCounted (scanNumber base) width input = some (n, input.length) ↔
      ∃ number : NumberText base, number.text = input ∧ number.result = n := by
  rw [sscanfCounted_whole fits]
  constructor
  · rintro ⟨_, read⟩
    obtain ⟨blank, split⟩ := takeWhile_skipSpace input
    obtain ⟨number, none, same⟩ := scanNumber_whole read rfl
    have again := number.scanNumber_field atMost
    rw [same, read] at again
    rw [← same] at split
    exact ⟨{ number with spaces := input.takeWhile (fun c => IsSpace c), blank := blank }, split,
      (Prod.mk.inj (Option.some.inj again)).1.symm⟩
  · rintro ⟨number, rfl, rfl⟩
    obtain ⟨c, rest, first, _⟩ := number.head atMost
    rw [number.skipSpace_text atMost]
    exact ⟨by rw [first]; exact List.cons_ne_nil c rest, number.scanNumber_field atMost⟩

theorem toLower_eq_paren {c : Char} (same : c.toLower = '(') : c = '(' := by
  unfold Char.toLower at same
  split at same
  · next upper =>
      have range : 65 ≤ c.toNat ∧ c.toNat ≤ 90 := upper
      have code := congrArg Char.toNat same
      simp only [Char.toNat, UInt32.toNat_add] at code
      have expected : '('.val.toNat = 40 := rfl
      rw [expected] at code
      simp at code
      omega
  · exact same

theorem scanNumber_nil (nil : IsNil field) : scanNumber 16 field = none := by
  cases field with
  | nil => cases nil
  | cons c rest =>
      obtain rfl := toLower_eq_paren (List.cons.inj nil).1
      rfl

theorem scanPointer_whole :
    scanPointer field = some (n, field.length) ↔
      scanNumber 16 field = some (n, field.length) ∨ IsNil field ∧ n = 0 := by
  unfold scanPointer
  constructor
  · intro read
    cases number : scanNumber 16 field with
    | some pair =>
        rw [number] at read
        exact .inl read
    | none =>
        rw [number] at read
        simp only [Option.ite_none_right_eq_some, Option.some.injEq, Prod.mk.injEq] at read
        obtain ⟨nil, zero, length⟩ := read
        rw [List.take_of_length_le (by omega)] at nil
        exact .inr ⟨nil, zero.symm⟩
  · rintro (read | ⟨nil, rfl⟩)
    · rw [read]
    · have length : field.length = 5 := by
        have same := congrArg List.length nil
        rwa [List.length_map] at same
      rw [scanNumber_nil nil, length]
      simp only [List.take_of_length_le (Nat.le_of_eq length), nil, if_true]

/-- The texts `%p` reads to their end. -/
theorem sscanfCounted_pointer_iff {width : Option Nat}
    (fits : ∀ most ∈ width, input.length ≤ most) :
    sscanfCounted scanPointer width input = some (n, input.length) ↔
      (∃ number : NumberText 16, number.text = input ∧ number.result = n) ∨
        IsNil (skipSpace input) ∧ n = 0 := by
  rw [← sscanfCounted_number_iff (Nat.le_refl _) fits, sscanfCounted_whole fits,
    sscanfCounted_whole fits, scanPointer_whole, and_or_left]
  refine or_congr_right (and_iff_right_of_imp fun nil empty => ?_)
  rw [empty] at nil
  exact absurd nil.1 (by decide)

/-- A text is a number in one way. -/
theorem NumberText.text_inj {number other : NumberText base} (atMost : base ≤ 16)
    (same : number.text = other.text) :
    number.spaces = other.spaces ∧ number.sign = other.sign ∧ number.zeroX = other.zeroX ∧
      number.digits = other.digits := by
  have fields : number.field = other.field := by
    rw [← number.skipSpace_text atMost, same, other.skipSpace_text atMost]
  have signs : number.sign.length = other.sign.length := by
    rw [← number.signLength_field atMost, fields, other.signLength_field atMost]
  have apart := List.append_inj fields signs
  have prefixes : number.zeroX.length = other.zeroX.length := by
    rw [← prefixLength_prefixed atMost number.prefixed number.digit number.nonempty, apart.2,
      prefixLength_prefixed atMost other.prefixed other.digit other.nonempty]
  have behind := List.append_inj apart.2 prefixes
  unfold NumberText.text at same
  rw [fields] at same
  exact ⟨List.append_cancel_right same, apart.1, behind.1, behind.2⟩

end Counted

end Scanf
