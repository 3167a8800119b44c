import MyDbg.Debugger.Tracee
import MyDbg.Lib.Scanf

/-!
Contract: `format_utils.c`, the arguments of the commands.

Owns: `get_register_from_name`, `read_address` and `read_size`; the numerals
they are documented to read; which of the texts they accept are not such a
numeral of the value returned; and that on decimal digits the limit of
`read_size` is the numeric one.

Does not own: the commands, and the paths under `/proc`.
-/

namespace MyDbg

open LittleEndian ProgramLogic Numerals Scanf

variable {κ : Type}

/-! ## Registers -/

/-- `CASES_REG` of `registers_list.h`. -/
def registerNames : List (List Char × MyReg) :=
  [(['r', 'i', 'p'], .rip), (['r', 's', 'p'], .rsp), (['r', 'b', 'p'], .rbp),
    (['e', 'f', 'l', 'a', 'g', 's'], .eflags),
    (['o', 'r', 'i', 'g', '_', 'r', 'a', 'x'], .origRax),
    (['r', 'a', 'x'], .rax), (['r', 'b', 'x'], .rbx), (['r', 'c', 'x'], .rcx),
    (['r', 'd', 'x'], .rdx), (['r', 'd', 'i'], .rdi), (['r', 's', 'i'], .rsi),
    (['r', '8'], .r8), (['r', '9'], .r9), (['r', '1', '0'], .r10), (['r', '1', '1'], .r11),
    (['r', '1', '2'], .r12), (['r', '1', '3'], .r13), (['r', '1', '4'], .r14),
    (['r', '1', '5'], .r15), (['c', 's'], .cs), (['d', 's'], .ds), (['e', 's'], .es),
    (['f', 's'], .fs), (['g', 's'], .gs), (['s', 's'], .ss),
    (['f', 's', '_', 'b', 'a', 's', 'e'], .fsBase), (['g', 's', '_', 'b', 'a', 's', 'e'], .gsBase)]

/-- The first register whose name is `reg`. -/
def registerNamed (reg : List Char) : Option MyReg :=
  (registerNames.find? fun entry => strcmp reg entry.1 = 0).map Prod.snd

section Commands

variable (host : Host κ)

def getRegisterFromName (reg : List Char) : Dbg κ Word :=
  match registerNamed reg with
  | some reg => getRegister host reg
  | none => do
      printf (.unknownRegister reg)
      Program.throw .exception

/-! ## Numbers -/

/-- The value of a conversion that read `slen` characters. -/
def wholeResult (scanned : Option (Word × Nat)) (slen : Nat) : Option Word :=
  (scanned.filter fun (_, len) => len = slen).map Prod.fst

/-- The guards of `read_address`. -/
def acceptedAddress (str : List Char) : Option Word :=
  if str.length ≤ 18 then wholeResult (sscanfCounted scanPointer (some 18) str) str.length
  else none

/-- The warning is left to a caller that handles the exception; `exDepth` is what
`ex_depth()` returns. -/
def refuse (exDepth : Nat) (message : Message) : Dbg κ Word := do
  Program.when (exDepth ≤ 1) (printf message)
  Program.throw .exception

def readAddress (exDepth : Nat) (str : List Char) : Dbg κ Word :=
  if startsWith str ['%'] then getRegisterFromName host (str.drop 1)
  else
    match acceptedAddress str with
    | some addr => return addr
    | none => refuse exDepth .invalidAddress

/-- `18446744073709551615`. -/
def sizeLimit : List Char :=
  ['1', '8', '4', '4', '6', '7', '4', '4', '0', '7', '3', '7', '0', '9', '5', '5', '1', '6', '1',
    '5']

/-- The guards of `read_size`. -/
def acceptedSize (str : List Char) : Option Word :=
  if str.length ≤ 20 ∧ (str.length < 20 ∨ strcmp str sizeLimit ≤ 0) then
    wholeResult (sscanfCounted (scanNumber 10) none str) str.length
  else none

def readSize (exDepth : Nat) (str : List Char) : Dbg κ Word :=
  if startsWith str ['0', 'x'] || startsWith str ['%'] then readAddress host exDepth str
  else
    match acceptedSize str with
    | some size => return size
    | none => refuse exDepth .invalidNumber

end Commands

/-! ## What is accepted -/

section Accepted

variable {host : Host κ} {exDepth : Nat} {state : State κ} {str digits : List Char} {n : Word}

theorem wholeResult_eq_some {scanned : Option (Word × Nat)} {slen : Nat} :
    wholeResult scanned slen = some n ↔ scanned = some (n, slen) := by
  unfold wholeResult
  cases scanned with
  | none => simp
  | some pair =>
      obtain ⟨value, len⟩ := pair
      by_cases whole : len = slen
      · simp [Option.filter, whole]
      · simp [Option.filter, whole]

theorem acceptedAddress_iff :
    acceptedAddress str = some n ↔
      str.length ≤ 18 ∧ ((∃ number : NumberText 16, number.text = str ∧ number.result = n) ∨
        IsNil (skipSpace str) ∧ n = 0) := by
  unfold acceptedAddress
  by_cases short : str.length ≤ 18
  · have fits : ∀ most ∈ some 18, str.length ≤ most := by simpa using short
    rw [if_pos short, wholeResult_eq_some, sscanfCounted_pointer_iff fits]
    simp [short]
  · simp [short]

theorem acceptedSize_iff :
    acceptedSize str = some n ↔
      (str.length ≤ 20 ∧ (str.length < 20 ∨ strcmp str sizeLimit ≤ 0)) ∧
        ∃ number : NumberText 10, number.text = str ∧ number.result = n := by
  unfold acceptedSize
  by_cases within : str.length ≤ 20 ∧ (str.length < 20 ∨ strcmp str sizeLimit ≤ 0)
  · have fits : ∀ most ∈ (none : Option Nat), str.length ≤ most := by simp
    rw [if_pos within, wholeResult_eq_some, sscanfCounted_number_iff (by decide) fits]
    simp [within]
  · rw [if_neg within]
    simp [within]

theorem startsWith_cons (c : Char) : startsWith str [c] = true ↔ str.head? = some c := by
  cases str <;> simp [startsWith]

/-- The state behind a refusal differs by what was printed. -/
def Refused (outcome : Outcome MyException (State κ) Word) (state : State κ) : Prop :=
  ∃ after, after.globals = state.globals ∧ after.kernel = state.kernel ∧
    outcome = .throw .exception after

theorem refuse_refused (message : Message) :
    Refused (refuse exDepth message state) state := by
  unfold refuse
  by_cases shallow : exDepth ≤ 1
  · simp only [shallow, decide_true]
    exact ⟨state.record (.output message), rfl, rfl, rfl⟩
  · simp only [shallow, decide_false]
    exact ⟨state, rfl, rfl, rfl⟩

section Plain

variable (plain : str.head? ≠ some '%')

include plain

theorem readAddress_accepted (accepted : acceptedAddress str = some n) :
    readAddress host exDepth str state = .ok n state := by
  rw [readAddress, if_neg (by rwa [startsWith_cons]), accepted]
  rfl

theorem readAddress_refused (refused : acceptedAddress str = none) :
    Refused (readAddress host exDepth str state) state := by
  rw [readAddress, if_neg (by rwa [startsWith_cons]), refused]
  exact refuse_refused _

theorem readSize_accepted (decimal : startsWith str ['0', 'x'] = false)
    (accepted : acceptedSize str = some n) : readSize host exDepth str state = .ok n state := by
  have named : startsWith str ['%'] = false := by rwa [← Bool.not_eq_true, startsWith_cons]
  rw [readSize, decimal, named, Bool.or_self, if_neg Bool.false_ne_true, accepted]
  rfl

theorem readSize_refused (decimal : startsWith str ['0', 'x'] = false)
    (refused : acceptedSize str = none) :
    Refused (readSize host exDepth str state) state := by
  have named : startsWith str ['%'] = false := by rwa [← Bool.not_eq_true, startsWith_cons]
  rw [readSize, decimal, named, Bool.or_self, if_neg Bool.false_ne_true, refused]
  exact refuse_refused _

theorem readAddress_ok :
    (∃ after, readAddress host exDepth str state = .ok n after) ↔
      acceptedAddress str = some n := by
  cases accepted : acceptedAddress str with
  | some addr =>
      rw [readAddress_accepted plain accepted]
      simp
  | none =>
      obtain ⟨after, _, _, raises⟩ : Refused (readAddress host exDepth str state) state :=
        readAddress_refused plain accepted
      simp [raises]

theorem readSize_ok (decimal : startsWith str ['0', 'x'] = false) :
    (∃ after, readSize host exDepth str state = .ok n after) ↔ acceptedSize str = some n := by
  cases accepted : acceptedSize str with
  | some size =>
      rw [readSize_accepted plain decimal accepted]
      simp
  | none =>
      obtain ⟨after, _, _, raises⟩ : Refused (readSize host exDepth str state) state :=
        readSize_refused plain decimal accepted
      simp [raises]

end Plain

theorem readSize_hexadecimal (prefixed : startsWith str ['0', 'x'] = true) :
    readSize host exDepth str = readAddress host exDepth str := by
  rw [readSize, prefixed]
  rfl

end Accepted

/-! ## Decimal digits -/

section Decimal

variable {host : Host κ} {exDepth : Nat} {state : State κ} {digits : List Char}

theorem value_sizeLimit : value 10 sizeLimit = 18446744073709551615 := rfl

theorem sizeLimit_digits : ∀ c ∈ sizeLimit, IsDigit 10 c := by
  have all : sizeLimit.all (fun c => IsDigit 10 c) = true := by decide
  intro c member
  exact of_decide_eq_true (List.all_eq_true.mp all c member)

/-- The guard in front of the conversion bounds the number. -/
theorem guard_iff (decimal : ∀ c ∈ digits, IsDigit 10 c) :
    digits.length ≤ 20 ∧ (digits.length < 20 ∨ strcmp digits sizeLimit ≤ 0) ↔
      digits.length ≤ 20 ∧ value 10 digits ≤ 18446744073709551615 := by
  refine and_congr_right fun atMost => ?_
  by_cases short : digits.length < 20
  · have below := value_lt decimal
    have power : 10 ^ digits.length ≤ 10 ^ 19 := Nat.pow_le_pow_right (by decide) (by omega)
    exact iff_of_true (.inl short) (by omega)
  · have length : digits.length = sizeLimit.length :=
      Nat.le_antisymm atMost (Nat.le_of_not_lt short)
    rw [strcmp_le_zero_iff length decimal sizeLimit_digits, value_sizeLimit]
    exact or_iff_right short

/-- Decimal digits as a number without blanks and sign. -/
def digitsText (nonempty : digits ≠ []) (decimal : ∀ c ∈ digits, IsDigit 10 c) :
    NumberText 10 where
  spaces := []
  sign := []
  zeroX := []
  digits := digits
  blank _ member := by cases member
  signed := .inl rfl
  prefixed := .inl rfl
  digit := decimal
  nonempty := nonempty

theorem acceptedSize_digits (nonempty : digits ≠ []) (decimal : ∀ c ∈ digits, IsDigit 10 c) :
    acceptedSize digits =
      if digits.length ≤ 20 ∧ value 10 digits ≤ 18446744073709551615 then
        some (BitVec.ofNat 64 (value 10 digits))
      else none := by
  by_cases fits : digits.length ≤ 20 ∧ value 10 digits ≤ 18446744073709551615
  · have small : value 10 digits < 2 ^ 64 := by omega
    rw [if_pos fits, acceptedSize_iff, guard_iff decimal, ← clamp_small small]
    exact ⟨fits, digitsText nonempty decimal, rfl, rfl⟩
  · rw [if_neg fits, ← guard_iff decimal] at *
    rw [acceptedSize, if_neg fits]

theorem head_ne_of_digits {c : Char} (decimal : ∀ c ∈ digits, IsDigit 10 c)
    (other : ¬ IsDigit 10 c) : digits.head? ≠ some c := by
  intro first
  exact other (decimal c (List.mem_of_head? first))

theorem startsWith_digits {base : Nat} (atMost : base ≤ 16)
    (all : ∀ c ∈ digits, IsDigit base c) : startsWith digits ['0', 'x'] = false := by
  cases digits with
  | nil => rfl
  | cons c rest =>
      cases rest with
      | nil => rfl
      | cons d rest =>
          have digit : d ≠ 'x' := ne_of_isDigit (all d (.tail _ (.head _))) atMost (by decide)
          simp [startsWith, digit]

/-- On decimal digits `read_size` returns the number exactly if it fits. -/
theorem readSize_digits (host : Host κ) (exDepth : Nat) (state : State κ) (digits : List Char)
    (nonempty : digits ≠ []) (decimal : ∀ c ∈ digits, IsDigit 10 c) :
    ((∃ n : Word, readSize host exDepth digits state = .ok n state ∧
        n.toNat = value 10 digits) ↔
      digits.length ≤ 20 ∧ value 10 digits ≤ 18446744073709551615) ∧
    (¬ (digits.length ≤ 20 ∧ value 10 digits ≤ 18446744073709551615) →
      ∃ after, readSize host exDepth digits state = .throw .exception after) ∧
    (digits.length = 20 →
      (strcmp digits sizeLimit ≤ 0 ↔ value 10 digits ≤ 18446744073709551615)) := by
  have plain : digits.head? ≠ some '%' := head_ne_of_digits decimal (by decide)
  have prefixed := startsWith_digits (by decide) decimal
  have accepted := acceptedSize_digits nonempty decimal
  by_cases fits : digits.length ≤ 20 ∧ value 10 digits ≤ 18446744073709551615
  · rw [if_pos fits] at accepted
    have denotes : (BitVec.ofNat 64 (value 10 digits)).toNat = value 10 digits := by
      rw [BitVec.toNat_ofNat, Nat.mod_eq_of_lt (by omega)]
    refine ⟨iff_of_true ⟨_, readSize_accepted plain prefixed accepted, denotes⟩ fits,
      absurd fits, fun length => ?_⟩
    rw [strcmp_le_zero_iff length decimal sizeLimit_digits, value_sizeLimit]
  · rw [if_neg fits] at accepted
    obtain ⟨after, _, _, raises⟩ : Refused (readSize host exDepth digits state) state :=
      readSize_refused plain prefixed accepted
    refine ⟨iff_of_false ?_ fits, fun _ => ⟨after, raises⟩, fun length => ?_⟩
    · rintro ⟨n, returns, _⟩
      rw [raises] at returns
      cases returns
    · rw [strcmp_le_zero_iff length decimal sizeLimit_digits, value_sizeLimit]

/-- The largest number is read. -/
theorem readSize_digits_limit :
    ∃ n : Word, readSize scripted 1 sizeLimit (Scripted.start []) = .ok n (Scripted.start []) ∧
      n.toNat = value 10 sizeLimit :=
  (readSize_digits scripted 1 (Scripted.start []) sizeLimit (List.cons_ne_nil _ _)
    sizeLimit_digits).1.mpr (by decide)

end Decimal

/-! ## Numerals -/

/-- `digits` are the digits of `n`. -/
def Denotes (base : Nat) (digits : List Char) (n : Nat) : Prop :=
  digits ≠ [] ∧ (∀ c ∈ digits, IsDigit base c) ∧ value base digits = n

/-- The addresses `read_address` is for. -/
inductive AddressNumeral : List Char → Nat → Prop where
  | plain {digits : List Char} {n : Nat} (denotes : Denotes 16 digits n) :
      AddressNumeral digits n
  | prefixed {digits : List Char} {n : Nat} (denotes : Denotes 16 digits n) :
      AddressNumeral ('0' :: 'x' :: digits) n
  | nil : AddressNumeral ['(', 'n', 'i', 'l', ')'] 0

/-- The numbers `read_size` is for. -/
inductive SizeNumeral : List Char → Nat → Prop where
  | decimal {digits : List Char} {n : Nat} (denotes : Denotes 10 digits n) :
      SizeNumeral digits n
  | hexadecimal {digits : List Char} {n : Nat} (denotes : Denotes 16 digits n) :
      SizeNumeral ('0' :: 'x' :: digits) n

/-- An address returned is the one written. -/
def AddressMeant (host : Host κ) (exDepth : Nat) (str : List Char) (state : State κ) : Prop :=
  ∀ addr after, readAddress host exDepth str state = .ok addr after →
    AddressNumeral str addr.toNat

/-- A size returned is the one written. -/
def SizeMeant (host : Host κ) (exDepth : Nat) (str : List Char) (state : State κ) : Prop :=
  ∀ size after, readSize host exDepth str state = .ok size after → SizeNumeral str size.toNat

/-- At most 18 characters that are a hexadecimal number with blanks, a sign or `0X` in
front of it, without digits or with too many; or a null pointer with blanks or capitals. -/
def AddressSlip (str : List Char) : Prop :=
  str.length ≤ 18 ∧
    ((∃ number : NumberText 16, number.text = str ∧
        (number.spaces ≠ [] ∨ number.sign ≠ [] ∨ number.zeroX = ['0', 'X'] ∨ number.digits = [] ∨
          2 ^ 64 ≤ value 16 number.digits)) ∨
      IsNil (skipSpace str) ∧ str ≠ ['(', 'n', 'i', 'l', ')'])

/-- Behind `0x` as for an address; else at most 20 characters that are a decimal
number with blanks or a sign in front of it. -/
def SizeSlip (str : List Char) : Prop :=
  if startsWith str ['0', 'x'] then AddressSlip str
  else str.length ≤ 20 ∧
    ∃ number : NumberText 10, number.text = str ∧ (number.spaces ≠ [] ∨ number.sign ≠ [])

section Numerals

variable {host : Host κ} {exDepth : Nat} {state : State κ} {str digits : List Char} {n : Nat}

/-- Digits behind an optional `0x`, as a number. -/
def hexText (zeroX digits : List Char) (prefixed : zeroX = [] ∨ zeroX = ['0', 'x'])
    (nonempty : digits ≠ []) (all : ∀ c ∈ digits, IsDigit 16 c) : NumberText 16 where
  spaces := []
  sign := []
  zeroX := zeroX
  digits := digits
  blank _ member := by cases member
  signed := .inl rfl
  prefixed := prefixed.imp_right fun zeroX => ⟨rfl, .inl zeroX⟩
  digit := all
  nonempty empty := nonempty (List.append_eq_nil_iff.mp empty).2

theorem addressMeant_iff_accepted (plain : str.head? ≠ some '%') :
    AddressMeant host exDepth str state ↔
      ∀ addr, acceptedAddress str = some addr → AddressNumeral str addr.toNat := by
  unfold AddressMeant
  constructor
  · intro meant addr accepted
    obtain ⟨after, returns⟩ := (readAddress_ok plain).mpr accepted
    exact meant addr after returns
  · intro meant addr after returns
    exact meant addr ((readAddress_ok plain).mp ⟨after, returns⟩)

/-- What a numeral looks like as a number text. -/
theorem AddressNumeral.text (numeral : AddressNumeral str n) :
    (∃ number : NumberText 16, number.text = str ∧ number.spaces = [] ∧ number.sign = [] ∧
      number.zeroX ≠ ['0', 'X'] ∧ number.digits ≠ [] ∧ value 16 number.digits = n) ∨
    str = ['(', 'n', 'i', 'l', ')'] := by
  cases numeral with
  | plain denotes =>
      obtain ⟨nonempty, all, rfl⟩ := denotes
      have other : ([] : List Char) ≠ ['0', 'X'] := by decide
      exact .inl ⟨hexText [] str (.inl rfl) nonempty all, rfl, rfl, rfl, other, nonempty, rfl⟩
  | @prefixed digits _ denotes =>
      obtain ⟨nonempty, all, rfl⟩ := denotes
      have other : ['0', 'x'] ≠ ['0', 'X'] := by decide
      exact .inl ⟨hexText ['0', 'x'] digits (.inr rfl) nonempty all, rfl, rfl, rfl, other,
        nonempty, rfl⟩
  | nil => exact .inr rfl

theorem number_not_nil (number : NumberText 16) : ¬ IsNil (skipSpace number.text) := by
  intro nil
  have read := number.scanNumber_field (Nat.le_refl _)
  rw [number.skipSpace_text (Nat.le_refl _)] at nil
  rw [scanNumber_nil nil] at read
  cases read

theorem addressMeant_iff (plain : str.head? ≠ some '%') :
    AddressMeant host exDepth str state ↔ ¬ AddressSlip str := by
  rw [addressMeant_iff_accepted plain]
  constructor
  · rintro meant ⟨short, ⟨number, rfl, odd⟩ | ⟨nil, other⟩⟩
    · have accepted := meant number.result
        (acceptedAddress_iff.mpr ⟨short, .inl ⟨number, rfl, rfl⟩⟩)
      rcases accepted.text with ⟨written, same, spaces, sign, zeroX, digits, denotes⟩ | nil
      · obtain ⟨spaces', sign', zeroX', digits'⟩ := NumberText.text_inj (Nat.le_refl _) same
        rw [spaces'] at spaces
        rw [sign'] at sign
        rw [zeroX'] at zeroX
        rw [digits'] at digits denotes
        have below : value 16 number.digits < 2 ^ 64 := by
          rw [denotes]
          exact number.result.isLt
        rcases odd with odd | odd | odd | odd | odd
        · exact odd spaces
        · exact odd sign
        · exact zeroX odd
        · exact digits odd
        · omega
      · refine number_not_nil number ?_
        rw [nil]
        decide
    · have accepted := meant 0 (acceptedAddress_iff.mpr ⟨short, .inr ⟨nil, rfl⟩⟩)
      rcases accepted.text with ⟨number, rfl, _⟩ | same
      · exact number_not_nil number nil
      · exact other same
  · intro regular addr accepted
    obtain ⟨short, ⟨number, rfl, rfl⟩ | ⟨nil, rfl⟩⟩ := acceptedAddress_iff.mp accepted
    · have even : ¬ (number.spaces ≠ [] ∨ number.sign ≠ [] ∨ number.zeroX = ['0', 'X'] ∨
          number.digits = [] ∨ 2 ^ 64 ≤ value 16 number.digits) :=
        fun odd => regular ⟨short, .inl ⟨number, rfl, odd⟩⟩
      simp only [not_or, ne_eq, not_not, Nat.not_le] at even
      obtain ⟨spaces, sign, zeroX, digits, small⟩ := even
      rw [number.result_unsigned sign small, number.text_unsigned spaces sign]
      have denotes : Denotes 16 number.digits (value 16 number.digits) :=
        ⟨digits, number.digit, rfl⟩
      rcases number.prefixed with bare | ⟨_, lower | upper⟩
      · rw [bare]
        exact .plain denotes
      · rw [lower]
        exact .prefixed denotes
      · exact absurd upper zeroX
    · by_cases same : str = ['(', 'n', 'i', 'l', ')']
      · subst same
        exact .nil
      · exact absurd ⟨short, .inr ⟨nil, same⟩⟩ regular

/-- Behind `0x` only the addresses with it are left. -/
theorem sizeNumeral_hexadecimal (prefixed : startsWith str ['0', 'x'] = true) :
    SizeNumeral str n ↔ AddressNumeral str n := by
  have never {base : Nat} (atMost : base ≤ 16) (denotes : Denotes base str n) : False := by
    rw [startsWith_digits atMost denotes.2.1] at prefixed
    cases prefixed
  constructor
  · intro numeral
    cases numeral with
    | decimal denotes => exact (never (by decide) denotes).elim
    | hexadecimal denotes => exact .prefixed denotes
  · intro numeral
    cases numeral with
    | plain denotes => exact (never (by decide) denotes).elim
    | prefixed denotes => exact .hexadecimal denotes
    | nil => exact absurd prefixed (by decide)

theorem SizeNumeral.denotes (numeral : SizeNumeral str n)
    (decimal : startsWith str ['0', 'x'] = false) : Denotes 10 str n := by
  cases numeral with
  | decimal denotes => exact denotes
  | hexadecimal denotes => simp [startsWith] at decimal

/-- What stands in front of a number sorts before its limit. -/
theorem strcmp_dressed (number : NumberText 10) (odd : number.spaces ≠ [] ∨ number.sign ≠ []) :
    strcmp number.text sizeLimit ≤ 0 := by
  have lead (c : Char) (rest : List Char) (below : c.toNat < 49) :
      strcmp (c :: rest) sizeLimit ≤ 0 := by
    have other : c ≠ '1' := by
      rintro rfl
      exact absurd below (by decide)
    have code : ('1'.toNat : Int) = 49 := rfl
    rw [sizeLimit, strcmp, if_neg other, code]
    omega
  unfold NumberText.text NumberText.field
  cases spaces : number.spaces with
  | cons c rest =>
      refine lead c _ ?_
      rcases number.blank c (by rw [spaces]; exact .head _) with
        rfl | rfl | rfl | rfl | rfl | rfl <;> decide
  | nil =>
      rcases number.signed with none | plus | minus
      · rcases odd with odd | odd
        · exact absurd spaces odd
        · exact absurd none odd
      · rw [plus]
        exact lead '+' _ (by decide)
      · rw [minus]
        exact lead '-' _ (by decide)

theorem sizeMeant_iff (plain : str.head? ≠ some '%') :
    SizeMeant host exDepth str state ↔ ¬ SizeSlip str := by
  by_cases prefixed : startsWith str ['0', 'x'] = true
  · rw [SizeSlip, if_pos prefixed]
    have meant : AddressMeant host exDepth str state ↔ ¬ AddressSlip str := addressMeant_iff plain
    rw [← meant]
    unfold SizeMeant AddressMeant
    simp only [readSize_hexadecimal prefixed, sizeNumeral_hexadecimal prefixed]
  rw [SizeSlip, if_neg prefixed]
  rw [Bool.not_eq_true] at prefixed
  have accepts {size : Word} : (∃ after, readSize host exDepth str state = .ok size after) ↔
      acceptedSize str = some size := readSize_ok plain prefixed
  constructor
  · rintro meant ⟨short, number, rfl, odd⟩
    obtain ⟨after, returns⟩ := accepts.mpr
      (acceptedSize_iff.mpr ⟨⟨short, .inr (strcmp_dressed number odd)⟩, number, rfl, rfl⟩)
    have denotes := (meant _ _ returns).denotes prefixed
    have same : (digitsText denotes.1 denotes.2.1).text = number.text := rfl
    obtain ⟨spaces, sign, _⟩ := NumberText.text_inj (by decide) same
    rcases odd with odd | odd
    · exact odd spaces.symm
    · exact odd sign.symm
  · intro regular size after returns
    obtain ⟨guard, number, rfl, rfl⟩ := acceptedSize_iff.mp (accepts.mp ⟨after, returns⟩)
    have even : ¬ (number.spaces ≠ [] ∨ number.sign ≠ []) :=
      fun odd => regular ⟨guard.1, number, rfl, odd⟩
    simp only [not_or, ne_eq, not_not] at even
    obtain ⟨spaces, sign⟩ := even
    have zeroX : number.zeroX = [] := by
      rcases number.prefixed with none | ⟨decimal, _⟩
      · exact none
      · cases decimal
    have text : number.text = number.digits := by
      rw [number.text_unsigned spaces sign, zeroX, List.nil_append]
    have nonempty := number.nonempty
    rw [zeroX, List.nil_append] at nonempty
    rw [text, guard_iff number.digit] at guard
    rw [number.result_unsigned sign (by omega), text]
    exact .decimal ⟨nonempty, number.digit, rfl⟩

/-- On a text that names no register both functions return the number it is written
as, exactly where they are not misled. -/
theorem numbers_meant_iff (host : Host κ) (exDepth : Nat) (state : State κ) (str : List Char)
    (plain : str.head? ≠ some '%') :
    (AddressMeant host exDepth str state ↔ ¬ AddressSlip str) ∧
      (SizeMeant host exDepth str state ↔ ¬ SizeSlip str) :=
  ⟨addressMeant_iff plain, sizeMeant_iff plain⟩

/-- A number with a blank in front of it. -/
def blankSeven : NumberText 10 where
  spaces := [' ']
  sign := []
  zeroX := []
  digits := ['7']
  blank := List.forall_mem_singleton.mpr (by decide)
  signed := .inl rfl
  prefixed := .inl rfl
  digit := List.forall_mem_singleton.mpr (by decide)
  nonempty := List.cons_ne_nil _ _

theorem numbers_meant_blank : ¬ SizeMeant scripted 1 [' ', '7'] (Scripted.start []) := by
  have slip : SizeSlip [' ', '7'] := ⟨by decide, blankSeven, rfl, .inl (List.cons_ne_nil _ _)⟩
  intro meant
  exact (numbers_meant_iff scripted 1 (Scripted.start []) [' ', '7'] (by decide)).2.mp meant slip

/-- `-1` is read as the largest size, and so are seventeen digits as an address. -/
theorem negative_accepted :
    ¬ SizeMeant scripted 1 ['-', '1'] (Scripted.start []) ∧
      ¬ AddressMeant scripted 1 (List.replicate 17 '1') (Scripted.start []) := by
  constructor
  · intro meant
    have numeral := meant (BitVec.allOnes 64) (Scripted.start []) rfl
    exact absurd ((numeral.denotes rfl).2.1 '-' (.head _)) (by decide)
  · intro meant
    have numeral := meant (BitVec.allOnes 64) (Scripted.start []) rfl
    rcases numeral.text with ⟨number, same, _, _, _, _, denotes⟩ | nil
    · have ones : ∀ c ∈ List.replicate 17 '1', IsDigit 16 c := by
        intro c member
        rw [List.eq_of_mem_replicate member]
        decide
      have text : (hexText [] (List.replicate 17 '1') (.inl rfl) (by decide) ones).text =
          number.text := same.symm
      obtain ⟨_, _, _, digits⟩ := NumberText.text_inj (Nat.le_refl _) text
      have large : value 16 (List.replicate 17 '1') ≠ (BitVec.allOnes 64).toNat := by decide
      rw [← digits] at denotes
      exact large denotes
    · exact absurd nil (by decide)

end Numerals

end MyDbg
