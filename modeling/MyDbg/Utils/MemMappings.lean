import MyDbg.Exceptions.Basic
import MyDbg.Lib.LittleEndian
import MyDbg.Lib.Program
import MyDbg.Lib.Scanf

/-!
Contract: `add_mem_mapping` of `mem_mappings.c`, on the lines of `/proc/<pid>/maps`.

Owns: the scan of one line into a new mapping; the lines the kernel prints; and
which of them are stored as they were printed.

Does not own: the reading of the file, and running out of memory, where the
program exits.
-/

namespace MyDbg.Utils

open LittleEndian Numerals ProgramLogic Scanf

def myPathMax : Nat := 4096

/-- `struct my_mem_mapping`, `end` being `stop`; `none` is a field nothing was
written to. -/
structure MyMemMapping where
  start : Option Word
  stop : Option Word
  offset : Option Word
  objfile : List Char
deriving DecidableEq

/-- A mapping as it is allocated: `objfile` is filled with zeros. -/
def MyMemMapping.fresh : MyMemMapping := ⟨none, none, none, []⟩

/-- `"%zx-%zx %c%c%c%c %8zx %2llx:%2llx %llu %s"`. -/
def mapsFormat : List Directive :=
  [.number 16 none, .literal '-', .number 16 none, .space, .char, .char, .char, .char,
    .space, .number 16 (some 8), .space, .number 16 (some 2), .literal ':', .number 16 (some 2),
    .space, .number 10 none, .space, .string]

/-- The arguments that follow the format; `c` and `u` are not read again. -/
inductive Argument where
  | start
  | stop
  | c
  | offset
  | u
  | objfile

def mapsArguments : List Argument :=
  [.start, .stop, .c, .c, .c, .c, .offset, .u, .u, .u, .objfile]

def MyMemMapping.assign (mapping : MyMemMapping) : Argument × Item → MyMemMapping
  | (.start, .number n) => { mapping with start := some n }
  | (.stop, .number n) => { mapping with stop := some n }
  | (.offset, .number n) => { mapping with offset := some n }
  | (.objfile, .string s) => { mapping with objfile := s }
  | _ => mapping

/-- A word with its terminator does not fit in `objfile`. -/
def overflows (items : List Item) : Bool :=
  items.any fun
    | .string s => myPathMax ≤ s.length
    | _ => false

/-- The array `*mappings`; `none` is the `NULL` at its end. -/
abbrev Mappings := List (Option MyMemMapping)

def addMemMapping (line : Option (List Char)) : Program MyException Mappings Unit :=
  match line with
  | none => Program.modify (· ++ [none])
  | some line => do
      let scanned := sscanf mapsFormat line
      let mapping := (mapsArguments.zip scanned.items).foldl MyMemMapping.assign .fresh
      Program.modify (· ++ [some mapping])
      if overflows scanned.items then
        Program.fault
      else if scanned.ret ≠ 10 ∧ scanned.ret ≠ 11 then
        Program.throw .scanfException
      else
        return ()

/-! ## The lines of the kernel -/

/-- What a line of `/proc/<pid>/maps` tells. `width` is the number of digits addresses
are padded to, and `padding` that of the spaces in front of the pathname, less one. -/
structure MapsLine where
  start : Word
  stop : Word
  readable : Bool
  writable : Bool
  executable : Bool
  shared : Bool
  offset : Word
  major : BitVec 32
  minor : BitVec 32
  inode : Word
  pathname : List Char
  width : Nat
  padding : Nat
  newline : Bool
  short : pathname.length < myPathMax
  noNul : '\x00' ∉ pathname

namespace MapsLine

/-- The text behind the inode. -/
def nameText (line : MapsLine) : List Char :=
  ' ' :: (List.replicate line.padding ' ' ++
    (line.pathname ++ if line.newline then ['\n'] else []))

/-- The text from the device number on. -/
def deviceText (line : MapsLine) : List Char :=
  numeral 16 2 line.major.toNat ++ ':' :: (numeral 16 2 line.minor.toNat ++
    ' ' :: (numeral 10 1 line.inode.toNat ++ line.nameText))

/-- `"%08lx-%08lx %c%c%c%c %08lx %02x:%02x %lu %s"`. -/
def text (line : MapsLine) : List Char :=
  numeral 16 line.width line.start.toNat ++ '-' :: (numeral 16 line.width line.stop.toNat ++
    ' ' :: (if line.readable then 'r' else '-') :: (if line.writable then 'w' else '-') ::
    (if line.executable then 'x' else '-') :: (if line.shared then 's' else 'p') ::
    ' ' :: (numeral 16 8 line.offset.toNat ++ ' ' :: line.deviceText))

/-- `add_mem_mapping` stores what the line tells. -/
def Stored (line : MapsLine) (mappings : Mappings) : Prop :=
  ∃ mapping, addMemMapping (some line.text) mappings = .ok () (mappings ++ [some mapping]) ∧
    mapping.start = some line.start ∧ mapping.stop = some line.stop ∧
    mapping.offset = some line.offset ∧ mapping.objfile = line.pathname

/-- The digits of the minor number behind the two that are scanned. -/
def minorRest (line : MapsLine) : List Char := (numeral 16 2 line.minor.toNat).drop 2

/-- What of them is no decimal number. -/
def minorLetters (line : MapsLine) : List Char :=
  line.minorRest.dropWhile (fun c => IsDigit 10 c)

/-- The condition on a line. A minor number from 256 on shifts the fields behind it: its
other digits are taken for the inode, and what follows for the pathname. -/
def Fits (line : MapsLine) : Prop :=
  line.offset.toNat < 2 ^ 32 ∧ line.major.toNat < 256 ∧
    if line.minor.toNat < 256 then
      ∀ c ∈ line.pathname, ¬ IsSpace c
    else
      line.minorLetters ≠ line.minorRest ∧
        line.pathname =
          if line.minorLetters = [] then numeral 10 1 line.inode.toNat else line.minorLetters

/-! ## The scan of a line -/

section Scan

variable {line : MapsLine} {mappings : Mappings}

/-- The part of the format for `deviceText`. -/
def deviceFormat : List Directive :=
  [.space, .number 16 (some 2), .literal ':', .number 16 (some 2), .space, .number 10 none,
    .space, .string]

/-- What is assigned in front of the device number. -/
def front (line : MapsLine) : List Item :=
  [.number line.start, .number line.stop,
    .char (if line.readable then 'r' else '-'), .char (if line.writable then 'w' else '-'),
    .char (if line.executable then 'x' else '-'), .char (if line.shared then 's' else 'p'),
    .number (clamp false (value 16 ((numeral 16 8 line.offset.toNat).take 8)))]

theorem hexadecimal {least n : Nat} {c : Char} (member : c ∈ numeral 16 least n) :
    IsDigit 16 c :=
  isDigit_numeral (by decide) (by decide) member

theorem length_hexadecimal_le_iff {least n count : Nat} (positive : 0 < count)
    (fits : least ≤ count) : (numeral 16 least n).length ≤ count ↔ n < 16 ^ count :=
  length_numeral_le_iff (by decide) positive fits

theorem sscanf_text (line : MapsLine) :
    sscanf mapsFormat line.text = .prepend line.front
      (sscanf deviceFormat
        ((numeral 16 8 line.offset.toNat).drop 8 ++ ' ' :: line.deviceText)) := by
  have visible (flag : Bool) (c : Char) (shown : ¬ IsSpace c) :
      ¬ IsSpace (if flag then c else '-') := by
    cases flag with
    | true => exact shown
    | false => exact (by decide : ¬ IsSpace '-')
  unfold mapsFormat text
  rw [sscanf_number (fun _ => hexadecimal) (by decide) numeral_ne_nil
      (stops_cons (by decide) (by decide)), sscanf_literal,
    sscanf_number (fun _ => hexadecimal) (by decide) numeral_ne_nil
      (stops_cons (by decide) (by decide)), sscanf_blank,
    sscanf_space (visible line.readable 'r' (by decide)), sscanf_char, sscanf_char, sscanf_char,
    sscanf_char, sscanf_blank, sscanf_space_digits (fun _ => hexadecimal) (by decide)
      numeral_ne_nil,
    sscanf_cut (fun _ => hexadecimal) (by decide) numeral_ne_nil (by decide)
      (stops_cons (by decide) (by decide)),
    clamp_numeral (by decide) (by decide), clamp_numeral (by decide) (by decide)]
  rfl

/-- Of two numbers around a colon, the first is cut after two digits. -/
theorem sscanf_colon {digits rest : List Char} {format : List Directive}
    (all : ∀ c ∈ digits, IsDigit 16 c) (nonempty : digits ≠ []) (stops : EndsNumeral 16 rest) :
    sscanf (.space :: .number 16 (some 2) :: .literal ':' :: format) (digits ++ rest) =
      .push (.number (clamp false (value 16 (digits.take 2))))
        (if digits.length ≤ 2 then sscanf (.literal ':' :: format) rest
          else ⟨[], .matchingFailure⟩) := by
  rw [sscanf_space_digits all (Nat.le_refl _) nonempty,
    sscanf_cut all (Nat.le_refl _) nonempty (by decide) stops]
  split
  · next short => rw [List.drop_eq_nil_of_le short, List.nil_append]
  · next long =>
      cases behind : digits.drop 2 with
      | nil => exact absurd (List.drop_eq_nil_iff.mp behind) long
      | cons d more =>
          have member : d ∈ digits.drop 2 := by
            rw [behind]
            exact .head _
          have digit : IsDigit 16 d := all d (List.mem_of_mem_drop member)
          rw [List.cons_append, sscanf_mismatch (ne_of_isDigit digit (by decide) (by decide))]

/-- More than eight digits of an offset, or more than two of a major number, leave no
colon where one is asked for. -/
theorem sscanf_device_failure
    (large : 2 ^ 32 ≤ line.offset.toNat ∨ 256 ≤ line.major.toNat) :
    ∃ items ending, sscanf mapsFormat line.text = ⟨items, ending⟩ ∧ items.length < 10 := by
  rw [sscanf_text]
  unfold deviceFormat
  by_cases offset : line.offset.toNat < 16 ^ 8
  · have none : (numeral 16 8 line.offset.toNat).drop 8 = [] :=
      List.drop_eq_nil_of_le ((length_hexadecimal_le_iff (by decide) (by decide)).mpr offset)
    have long : ¬ (numeral 16 2 line.major.toNat).length ≤ 2 := by
      rw [length_hexadecimal_le_iff (by decide) (by decide)]
      omega
    unfold deviceText
    rw [none, List.nil_append, sscanf_blank, sscanf_colon (fun _ => hexadecimal) numeral_ne_nil
      (stops_cons (by decide) (by decide)), if_neg long]
    exact ⟨_, _, rfl, (by decide : 8 < 10)⟩
  · have some : (numeral 16 8 line.offset.toNat).drop 8 ≠ [] := by
      intro none
      exact offset ((length_hexadecimal_le_iff (by decide) (by decide)).mp
        (List.drop_eq_nil_iff.mp none))
    rw [sscanf_colon (fun _ member => hexadecimal (List.mem_of_mem_drop member)) some
      (stops_cons (by decide) (by decide)), sscanf_mismatch (by decide), ite_self]
    exact ⟨_, _, rfl, (by decide : 8 < 10)⟩

/-- The last directives, on the text of a name. -/
def named (name : List Char) : Scanned :=
  if name = [] then ⟨[], .inputFailure⟩ else ⟨[.string name], .done⟩

theorem sscanf_device (line : MapsLine) (offset : line.offset.toNat < 2 ^ 32)
    (major : line.major.toNat < 256) :
    sscanf mapsFormat line.text = .prepend
      (line.front ++ [.number (clamp false (value 16 (numeral 16 2 line.major.toNat))),
        .number (clamp false (value 16 ((numeral 16 2 line.minor.toNat).take 2)))])
      (sscanf [.space, .number 10 none, .space, .string]
        (line.minorRest ++ ' ' :: (numeral 10 1 line.inode.toNat ++ line.nameText))) := by
  have none : (numeral 16 8 line.offset.toNat).drop 8 = [] :=
    List.drop_eq_nil_of_le ((length_hexadecimal_le_iff (by decide) (by decide)).mpr offset)
  have short : (numeral 16 2 line.major.toNat).length ≤ 2 :=
    (length_hexadecimal_le_iff (by decide) (by decide)).mpr major
  rw [sscanf_text]
  unfold deviceFormat deviceText
  rw [none, List.nil_append, sscanf_blank, sscanf_colon (fun _ => hexadecimal) numeral_ne_nil
    (stops_cons (by decide) (by decide)), if_pos short, sscanf_literal,
    List.take_of_length_le short,
    sscanf_cut (fun _ => hexadecimal) (by decide) numeral_ne_nil (by decide)
      (stops_cons (by decide) (by decide))]
  rfl

/-- A minor number below 256 is scanned as it was printed. -/
theorem sscanf_name (line : MapsLine) (minor : line.minor.toNat < 256) :
    ∃ inode, sscanf [.space, .number 10 none, .space, .string]
      (line.minorRest ++ ' ' :: (numeral 10 1 line.inode.toNat ++ line.nameText)) =
        .push (.number inode) (named (firstWord line.nameText)) := by
  have none : line.minorRest = [] :=
    List.drop_eq_nil_of_le ((length_hexadecimal_le_iff (by decide) (by decide)).mpr minor)
  have decimal {c : Char} (member : c ∈ numeral 10 1 line.inode.toNat) : IsDigit 10 c :=
    isDigit_numeral (by decide) (by decide) member
  have ends : EndsNumeral 10 line.nameText := stops_cons (by decide) (by decide)
  rw [none, List.nil_append, sscanf_blank, sscanf_space_digits (fun _ => decimal) (by decide)
    numeral_ne_nil, sscanf_number (fun _ => decimal) (by decide) numeral_ne_nil ends,
    sscanf_string]
  exact ⟨_, rfl⟩

theorem hexadecimal_minorRest {c : Char} (member : c ∈ line.minorRest) : IsDigit 16 c :=
  hexadecimal (List.mem_of_mem_drop member)

theorem hexadecimal_minorLetters {c : Char} (member : c ∈ line.minorLetters) : IsDigit 16 c :=
  hexadecimal_minorRest (List.dropWhile_subset _ member)

/-- They begin with a letter. -/
theorem minorLetters_head {c : Char} {rest : List Char}
    (letters : line.minorLetters = c :: rest) : IsDigit 16 c ∧ ¬ IsDigit 10 c := by
  have member : c ∈ line.minorLetters := by
    rw [letters]
    exact .head _
  have stopped := List.head?_dropWhile_not (fun c => decide (IsDigit 10 c)) line.minorRest
  unfold minorLetters at letters
  rw [letters] at stopped
  exact ⟨hexadecimal_minorLetters member, of_decide_eq_false stopped⟩

/-- What stands between the digits scanned as the inode and the next space is the name. -/
theorem firstWord_letters (line : MapsLine) :
    firstWord (line.minorLetters ++
        ' ' :: (numeral 10 1 line.inode.toNat ++ line.nameText)) =
      if line.minorLetters = [] then numeral 10 1 line.inode.toNat else line.minorLetters := by
  have blank (rest : List Char) : ∀ c ∈ (' ' :: rest).head?, IsSpace c := by
    rintro _ ⟨⟩
    decide
  split
  · next none =>
      rw [none]
      exact firstWord_append (fun c member => not_isSpace_of_isDigit
        (isDigit_numeral (by decide) (by decide) member) (by decide)) (blank _) numeral_ne_nil
  · next some =>
      exact firstWord_append (fun c member => not_isSpace_of_isDigit
        (hexadecimal_minorLetters member) (by decide)) (blank _) some

/-- Of a longer one, the digits behind the second are scanned as the inode. -/
theorem sscanf_shifted (line : MapsLine) (decimal : line.minorLetters ≠ line.minorRest) :
    ∃ inode, sscanf [.space, .number 10 none, .space, .string]
      (line.minorRest ++ ' ' :: (numeral 10 1 line.inode.toNat ++ line.nameText)) =
        .push (.number inode) (named
          (if line.minorLetters = [] then numeral 10 1 line.inode.toNat
            else line.minorLetters)) := by
  obtain ⟨digits, parts, all⟩ : ∃ digits, line.minorRest = digits ++ line.minorLetters ∧
      ∀ c ∈ digits, IsDigit 10 c := by
    refine ⟨_, List.takeWhile_append_dropWhile.symm, fun c member => ?_⟩
    have selected := List.mem_takeWhile_imp member
    exact of_decide_eq_true selected
  have some : digits ≠ [] := by
    rintro rfl
    exact decimal parts.symm
  have ends : EndsNumeral 10 (line.minorLetters ++
      ' ' :: (numeral 10 1 line.inode.toNat ++ line.nameText)) := by
    cases letters : line.minorLetters with
    | nil => exact stops_cons (by decide) (by decide)
    | cons c rest =>
        obtain ⟨letter, notDecimal⟩ := minorLetters_head letters
        rintro _ ⟨⟩
        exact ⟨notDecimal, ne_of_isDigit letter (by decide) (by decide),
          ne_of_isDigit letter (by decide) (by decide)⟩
  rw [parts, List.append_assoc, sscanf_space_digits all (by decide) some,
    sscanf_number all (by decide) some ends, sscanf_string, firstWord_letters]
  exact ⟨_, rfl⟩

/-- They are not where the first of them is a letter. -/
theorem sscanf_letters (line : MapsLine) (minor : 256 ≤ line.minor.toNat)
    (letters : line.minorLetters = line.minorRest) :
    sscanf [.space, .number 10 none, .space, .string]
      (line.minorRest ++ ' ' :: (numeral 10 1 line.inode.toNat ++ line.nameText)) =
        ⟨[], .matchingFailure⟩ := by
  cases rest : line.minorRest with
  | nil =>
      have short := (length_hexadecimal_le_iff (by decide) (by decide)).mp
        (List.drop_eq_nil_iff.mp rest)
      exact absurd short (Nat.not_lt.mpr minor)
  | cons c more =>
      obtain ⟨letter, notDecimal⟩ := minorLetters_head (letters.trans rest)
      rw [List.cons_append, sscanf_space (not_isSpace_of_isDigit letter (by decide)),
        sscanf_letter (by decide) notDecimal letter]

/-! ## What is stored -/

theorem addMemMapping_apply (text : List Char) (mappings : Mappings) :
    addMemMapping (some text) mappings =
      let scanned := sscanf mapsFormat text
      let after := mappings ++
        [some ((mapsArguments.zip scanned.items).foldl MyMemMapping.assign .fresh)]
      if overflows scanned.items then .fault after
      else if scanned.ret ≠ 10 ∧ scanned.ret ≠ 11 then .throw .scanfException after
      else .ok () after := by
  change (if _ then Program.fault else if _ then Program.throw _ else pure ()) _ = _
  dsimp only
  split
  · rfl
  · split
    · rfl
    · rfl

/-- A line with fewer than ten items is refused. -/
theorem not_stored_of_short {items : List Item} {ending : Ending}
    (scans : sscanf mapsFormat line.text = ⟨items, ending⟩) (short : items.length < 10) :
    ¬ line.Stored mappings := by
  rintro ⟨mapping, ends, _⟩
  have failed : (Scanned.mk items ending).ret ≠ 10 ∧ (Scanned.mk items ending).ret ≠ 11 := by
    unfold Scanned.ret
    split
    · decide
    · dsimp only
      omega
  rw [addMemMapping_apply, scans] at ends
  dsimp only at ends
  rw [if_pos failed] at ends
  split at ends
  · cases ends
  · cases ends

/-- A line that is scanned as far as the name is stored with that name. -/
theorem stored_iff_of_scanned {scanned : Scanned} {name : List Char}
    (scans : sscanf mapsFormat line.text = scanned)
    (much : overflows scanned.items = decide (myPathMax ≤ name.length))
    (complete : ¬ (scanned.ret ≠ 10 ∧ scanned.ret ≠ 11))
    (fields : (mapsArguments.zip scanned.items).foldl MyMemMapping.assign .fresh =
      ⟨line.start, line.stop, line.offset, name⟩) :
    line.Stored mappings ↔ line.pathname = name := by
  unfold Stored
  rw [addMemMapping_apply, scans]
  dsimp only
  rw [much, fields]
  constructor
  · rintro ⟨mapping, ends, _, _, _, path⟩
    rw [if_neg complete] at ends
    split at ends
    · cases ends
    · have stored := List.append_cancel_left (Outcome.ok.inj ends).2
      obtain rfl := Option.some.inj (List.cons.inj stored).1
      exact path.symm
  · rintro rfl
    have fits : ¬ decide (myPathMax ≤ line.pathname.length) = true := by simpa using line.short
    rw [if_neg fits, if_neg complete]
    exact ⟨_, rfl, rfl, rfl, rfl, rfl⟩

theorem stored_iff_of_named {first second third : Word} {name : List Char}
    (offset : line.offset.toNat < 2 ^ 32)
    (scans : sscanf mapsFormat line.text =
      .prepend (line.front ++ [.number first, .number second, .number third]) (named name)) :
    line.Stored mappings ↔ line.pathname = name := by
  have whole : (numeral 16 8 line.offset.toNat).take 8 = numeral 16 8 line.offset.toNat :=
    List.take_of_length_le ((length_hexadecimal_le_iff (by decide) (by decide)).mpr offset)
  unfold front named at scans
  rw [whole, clamp_numeral (by decide) (by decide)] at scans
  by_cases none : name = []
  · rw [if_pos none] at scans
    rw [none]
    exact stored_iff_of_scanned scans rfl
      (by decide : ¬ ((10 : Int) ≠ 10 ∧ (10 : Int) ≠ 11)) rfl
  · rw [if_neg none] at scans
    exact stored_iff_of_scanned scans (Bool.or_false _)
      (by decide : ¬ ((11 : Int) ≠ 10 ∧ (11 : Int) ≠ 11)) rfl

theorem firstWord_nameText (line : MapsLine) :
    firstWord line.nameText = line.pathname ↔ ∀ c ∈ line.pathname, ¬ IsSpace c := by
  have front : ∀ c ∈ ' ' :: List.replicate line.padding ' ', IsSpace c := by
    intro c member
    rw [← List.replicate_succ] at member
    exact .inl (List.eq_of_mem_replicate member)
  have behind : ∀ c ∈ (if line.newline then ['\n'] else []), IsSpace c := by
    intro c member
    split at member
    · exact .inr (.inr (.inl (List.mem_singleton.mp member)))
    · cases member
  have skipped : firstWord line.nameText =
      firstWord (line.pathname ++ if line.newline then ['\n'] else []) :=
    firstWord_spaces front _
  rw [skipped]
  exact firstWord_eq_iff behind

/-- Exactly the lines that meet the condition are stored as they were printed. -/
theorem addMemMapping_iff (line : MapsLine) (mappings : Mappings) :
    line.Stored mappings ↔ line.Fits := by
  by_cases large : 2 ^ 32 ≤ line.offset.toNat ∨ 256 ≤ line.major.toNat
  · obtain ⟨items, ending, scans, short⟩ := sscanf_device_failure large
    refine iff_of_false (not_stored_of_short scans short) ?_
    rintro ⟨offset, major, _⟩
    omega
  · obtain ⟨offset, major⟩ := not_or.mp large
    rw [Nat.not_le] at offset major
    have scans := sscanf_device line offset major
    unfold Fits
    rw [and_iff_right offset, and_iff_right major]
    by_cases minor : line.minor.toNat < 256
    · obtain ⟨inode, name⟩ := sscanf_name line minor
      rw [name] at scans
      rw [if_pos minor, stored_iff_of_named offset scans, eq_comm]
      exact firstWord_nameText line
    · rw [if_neg minor]
      by_cases letters : line.minorLetters = line.minorRest
      · rw [sscanf_letters line (Nat.not_lt.mp minor) letters] at scans
        exact iff_of_false (not_stored_of_short scans (by decide : 9 < 10))
          fun fits => fits.1 letters
      · obtain ⟨inode, name⟩ := sscanf_shifted line letters
        rw [and_iff_right letters]
        rw [name] at scans
        exact stored_iff_of_named offset scans

end Scan

/-- `7f0000000000-7f0000001000 r--p 00000000 08:01 5 /a b` -/
def spaced : MapsLine where
  start := 0x7f0000000000
  stop := 0x7f0000001000
  readable := true
  writable := false
  executable := false
  shared := false
  offset := 0
  major := 8
  minor := 1
  inode := 5
  pathname := ['/', 'a', ' ', 'b']
  width := 8
  padding := 0
  newline := true
  short := by decide
  noNul := by decide

/-- A pathname ends at its first space. -/
theorem addMemMapping_spaced : ¬ ∀ (line : MapsLine) (mappings : Mappings),
    line.Stored mappings := by
  intro all
  obtain ⟨mapping, ends, _, _, _, path⟩ := all spaced []
  have stored : addMemMapping (some spaced.text) [] =
      .ok () [some ⟨spaced.start, spaced.stop, spaced.offset, ['/', 'a']⟩] := rfl
  rw [stored] at ends
  obtain rfl := Option.some.inj (List.cons.inj (Outcome.ok.inj ends).2).1
  exact absurd path (by decide)

end MapsLine

end MyDbg.Utils
