import MyDbg.Debugger.FormatUtils
import MyDbg.Utils.Memory
import MyDbg.Utils.PointerArrays

/-!
Contract: `cmd_examine.c`, and `in_array` of `array_utils.c`.

Owns: the four formats as they print a buffer; what the text of format `s`
stands for, and that it is decoded again; and for which sizes `read_memory`
asks for a buffer that is large enough.

Does not own: the decoder of instructions, and what the tracee's memory holds.
-/

namespace MyDbg

open LittleEndian ProgramLogic
open Utils (Block)

/-! ## Characters -/

/-- `in_array`, for as many values as `length` says. -/
def inArray (value : Int) (length : Nat)
    (values : { values : List Int // values.length = length }) : Bool :=
  values.1.any (value == ·)

/-- `'\a'`, `'\b'`, `'\f'`, `'\n'`, `'\r'`, `'\f'`, `'\t'`, `'\v'`, `'\\'`, `'\''`, `'\"'`
and `'\?'`; a `char` is a signed number. -/
def isSpecialChar (c : Byte) : Bool :=
  inArray c.toInt 12
    ⟨[0x07, 0x08, 0x0c, 0x0a, 0x0d, 0x0c, 0x09, 0x0b, 0x5c, 0x27, 0x22, 0x3f], rfl⟩

/-- The letters are `a`, `b`, `f`, `n`, `r`, `f`, `t` and `v`. -/
def getSpecialChar (c : Byte) : Byte :=
  if c = 0x07 then 0x61
  else if c = 0x08 then 0x62
  else if c = 0x0c then 0x66
  else if c = 0x0a then 0x6e
  else if c = 0x0d then 0x72
  else if c = 0x0c then 0x66
  else if c = 0x09 then 0x74
  else if c = 0x0b then 0x76
  else c

/-- `isprint` in the C locale. -/
def isprint (c : Int) : Bool := 0x20 ≤ c && c ≤ 0x7e

/-- A digit of `%x`. -/
def hexDigit (value : Nat) : Byte :=
  BitVec.ofNat 8 (if value < 10 then 0x30 + value else 0x57 + value)

/-- `%02hhx`. -/
def hexByte (c : Byte) : List Byte := [hexDigit (c.toNat / 16), hexDigit (c.toNat % 16)]

def backslash : Byte := 0x5c

def quote : Byte := 0x22

def blank : Byte := 0x20

def lineFeed : Byte := 0x0a

/-- The digits of `%d`. -/
def decimalText (value : Int) : List Byte :=
  (if value < 0 then [0x2d] else []) ++
    (Nat.toDigits 10 value.natAbs).map fun c => BitVec.ofNat 8 c.toNat

/-- `%11d`. -/
def paddedDecimal (value : Int) : List Byte :=
  List.replicate (11 - (decimalText value).length) blank ++ decimalText value

/-! ## Formats -/

/-- `mem[i]`, where it is in the buffer and was written. -/
def cell (mem : Block) (i : Nat) : Option Byte := mem[i]?.join

/-- `((int *) mem)[i]`. -/
def intCell (mem : Block) (i : Nat) : Option Int := do
  let byte0 ← cell mem (4 * i)
  let byte1 ← cell mem (4 * i + 1)
  let byte2 ← cell mem (4 * i + 2)
  let byte3 ← cell mem (4 * i + 3)
  return (BitVec.ofNat 32 (leNat [byte0, byte1, byte2, byte3])).toInt

/-- What a loop prints; nothing where a turn of it reads outside the buffer. -/
def printLoop (body : Nat → Option (List Byte)) : Nat → Option (List Byte)
  | 0 => some []
  | count + 1 => do
      let front ← printLoop body count
      let last ← body count
      return front ++ last

def hexaItem (i : Nat) (c : Byte) : List Byte :=
  (if i ≠ 0 ∧ i % 16 = 0 then [lineFeed] else []) ++
    (if i ≠ 0 ∧ i % 2 = 0 ∧ i % 16 ≠ 0 then [blank] else []) ++ hexByte c

def examineHexa (mem : Block) (size : Nat) : Option (List Byte) :=
  (printLoop (fun i => (cell mem i).map (hexaItem i)) size).map (· ++ [lineFeed])

/-- The `int`s that `examine_decimal` prints. -/
def decimalCount (size : Nat) : Nat := size / 4 + if size % 4 ≠ 0 then 1 else 0

def decimalItem (i : Nat) (value : Int) : List Byte :=
  (if i ≠ 0 ∧ i % 2 = 0 then [lineFeed] else []) ++ paddedDecimal value

def examineDecimal (mem : Block) (size : Nat) : Option (List Byte) :=
  (printLoop (fun i => (intCell mem i).map (decimalItem i)) (decimalCount size)).map
    (· ++ [lineFeed])

/-- A character in the text of format `s`. -/
def examineChar (c : Byte) : List Byte :=
  if isSpecialChar c then [backslash, getSpecialChar c]
  else if !isprint c.toInt then backslash :: 0x78 :: hexByte c
  else [c]

def examineString (mem : Block) (size : Nat) : Option (List Byte) :=
  (printLoop (fun i => (cell mem i).map examineChar) size).map
    fun text => quote :: text ++ [quote, lineFeed]

/-- What capstone makes of the bytes at an address: the lines that are printed. -/
abbrev Disassembler := Word → List Byte → List Byte

def examineInstructions (disassembler : Disassembler) (addr : Word) (mem : Block) (size : Nat) :
    Option (List Byte) :=
  (printLoop (fun i => (cell mem i).map ([·])) size).map (disassembler addr)

/-- What `examine_memory` prints of the buffer. -/
def examined (disassembler : Disassembler) (format : Char) (addr : Word) (mem : Block)
    (size : Nat) : Option (List Byte) :=
  if format = 'x' then examineHexa mem size
  else if format = 'd' then examineDecimal mem size
  else if format = 's' then examineString mem size
  else if format = 'i' then examineInstructions disassembler addr mem size
  else some []

/-! ## The command -/

/-- The warning of `cmd_examine`, or what it passes to `examine_memory`. -/
inductive Examination where
  | missingArguments
  | invalidFormat
  | nullSize
  | memory (format : Char) (addr size : Word)
deriving DecidableEq

section Commands

variable {κ : Type}

def cmdExamine (host : Host κ) (exDepth : Nat) (argv : List (List Char)) : Dbg κ Examination :=
  match argv with
  | _ :: format :: sizeText :: addrText :: _ =>
      match format with
      | [c] =>
          if inArray c.toNat 4 ⟨[0x78, 0x64, 0x69, 0x73], rfl⟩ then do
            let size ← readSize host exDepth sizeText
            let addr ← readAddress host exDepth addrText
            if size ≠ 0 then return .memory c addr size else return .nullSize
          else
            return .invalidFormat
      | _ => return .invalidFormat
  | _ => return .missingArguments

def examineMemory (allocator : Utils.Allocator κ) (procMem : Utils.ProcMem)
    (disassembler : Disassembler) (format : Char) (addr size : Word) :
    Utils.Tmp κ (List Byte) := do
  let mem ← Utils.readMemory allocator procMem addr size
  let heap ← Program.gets Utils.Pool.heap
  match (heap mem).bind fun block => examined disassembler format addr block size.toNat with
  | some text => return text
  | none => Program.fault

end Commands

/-! ## Buffers -/

section Buffers

variable {body : Nat → Option (List Byte)} {mem : Block} {size : Nat}

theorem printLoop_isSome :
    (printLoop body size).isSome ↔ ∀ i < size, (body i).isSome := by
  induction size with
  | zero => simp [printLoop]
  | succ size inductionHypothesis =>
      rw [Nat.forall_lt_succ_right, ← inductionHypothesis, printLoop]
      cases printLoop body size with
      | none => simp
      | some front => cases body size <;> simp

/-- The cells in front of `size` are in the buffer and were written. -/
def Covered (mem : Block) (size : Nat) : Prop := ∀ i < size, (cell mem i).isSome

theorem covered_bytes (bytes : List Byte) :
    Covered (bytes.map some) size ↔ size ≤ bytes.length := by
  unfold Covered cell
  constructor
  · intro covered
    by_contra longer
    have last := covered bytes.length (by omega)
    simp at last
  · intro within i below
    have inside : i < bytes.length := by omega
    simp [inside]

theorem intCell_isSome (i : Nat) : (intCell mem i).isSome ↔
    (cell mem (4 * i)).isSome ∧ (cell mem (4 * i + 1)).isSome ∧
      (cell mem (4 * i + 2)).isSome ∧ (cell mem (4 * i + 3)).isSome := by
  unfold intCell
  cases cell mem (4 * i) with
  | none => simp
  | some _ =>
      cases cell mem (4 * i + 1) with
      | none => simp
      | some _ =>
          cases cell mem (4 * i + 2) with
          | none => simp
          | some _ => cases cell mem (4 * i + 3) <;> simp

/-- Whole `int`s are read. -/
theorem intCells_covered (count : Nat) :
    (∀ i < count, (intCell mem i).isSome) ↔ Covered mem (4 * count) := by
  simp only [intCell_isSome]
  constructor
  · intro ints i below
    obtain ⟨first, second, third, fourth⟩ := ints (i / 4) (by omega)
    have split := Nat.div_add_mod i 4
    have small := Nat.mod_lt i (by decide : 0 < 4)
    generalize i % 4 = offset at split small
    rw [← split]
    interval_cases offset <;> assumption
  · intro covered i below
    exact ⟨covered _ (by omega), covered _ (by omega), covered _ (by omega), covered _ (by omega)⟩

theorem examineHexa_isSome : (examineHexa mem size).isSome ↔ Covered mem size := by
  simp only [examineHexa, Option.isSome_map, printLoop_isSome, Covered]

theorem examineDecimal_isSome :
    (examineDecimal mem size).isSome ↔ Covered mem (4 * decimalCount size) := by
  simp only [examineDecimal, Option.isSome_map, printLoop_isSome, intCells_covered]

theorem examineString_isSome : (examineString mem size).isSome ↔ Covered mem size := by
  simp only [examineString, Option.isSome_map, printLoop_isSome, Covered]

theorem examineInstructions_isSome (disassembler : Disassembler) (addr : Word) :
    (examineInstructions disassembler addr mem size).isSome ↔ Covered mem size := by
  simp only [examineInstructions, Option.isSome_map, printLoop_isSome, Covered]

/-- Whole `int`s cover what the other formats print. -/
theorem size_le_decimal (size : Nat) : size ≤ 4 * decimalCount size := by
  unfold decimalCount
  by_cases rest : size % 4 ≠ 0
  · rw [if_pos rest]
    omega
  · rw [if_neg rest]
    omega

theorem examined_isSome (disassembler : Disassembler) (format : Char) (addr : Word)
    (covered : Covered mem (4 * decimalCount size)) :
    (examined disassembler format addr mem size).isSome := by
  have bytes : Covered mem size := fun i below => covered i (below.trans_le (size_le_decimal size))
  unfold examined
  by_cases hexa : format = 'x'
  · rw [if_pos hexa]
    exact examineHexa_isSome.mpr bytes
  · rw [if_neg hexa]
    by_cases decimal : format = 'd'
    · rw [if_pos decimal]
      exact examineDecimal_isSome.mpr covered
    · rw [if_neg decimal]
      by_cases string : format = 's'
      · rw [if_pos string]
        exact examineString_isSome.mpr bytes
      · rw [if_neg string]
        by_cases instructions : format = 'i'
        · rw [if_pos instructions]
          exact (examineInstructions_isSome disassembler addr).mpr bytes
        · rw [if_neg instructions]
          rfl

/-- The bytes `read_memory` asks for. -/
def requested (size : Word) : Nat := (Utils.roundedSize size).toNat

theorem requested_eq (size : Word) :
    requested size = 8 * ((size.toNat + 7) / 8) % 2 ^ 64 := by
  have quotient : (size / 8).toNat = size.toNat / 8 := rfl
  have remainder : (size % 8).toNat = size.toNat % 8 := rfl
  have bound := size.isLt
  unfold requested Utils.roundedSize
  rw [BitVec.toNat_mul, BitVec.toNat_add, quotient]
  by_cases rest : size % 8 = 0
  · have whole : size.toNat % 8 = 0 := by
      rw [← remainder, rest]
      rfl
    rw [if_neg (not_not.mpr rest)]
    change (size.toNat / 8 + 0) % 2 ^ 64 * 8 % 2 ^ 64 = _
    omega
  · have part : size.toNat % 8 ≠ 0 := by
      intro whole
      exact rest (BitVec.eq_of_toNat_eq (by rw [remainder, whole]; rfl))
    rw [if_pos rest]
    change (size.toNat / 8 + 1) % 2 ^ 64 * 8 % 2 ^ 64 = _
    omega

/-- The buffer consists of whole words, and all that is printed of it lies inside. -/
structure Suffices (disassembler : Disassembler) (size : Word) : Prop where
  words : requested size % 8 = 0
  atLeast : size.toNat ≤ requested size
  inside : ∀ (format : Char) (addr : Word) (bytes : List Byte), bytes.length = requested size →
    (examined disassembler format addr (bytes.map some) size.toNat).isSome

theorem suffices_of_small (disassembler : Disassembler) {size : Word}
    (small : size.toNat ≤ 2 ^ 64 - 8) : Suffices disassembler size := by
  have whole : requested size = 8 * ((size.toNat + 7) / 8) := by
    rw [requested_eq]
    omega
  refine ⟨by omega, by omega, fun format addr bytes length => ?_⟩
  apply examined_isSome
  rw [covered_bytes, length, whole, decimalCount]
  by_cases rest : size.toNat % 4 ≠ 0
  · rw [if_pos rest]
    omega
  · rw [if_neg rest]
    omega

/-- The number of bytes wraps around for the last seven sizes. -/
theorem suffices_iff (disassembler : Disassembler) (size : Word) :
    Suffices disassembler size ↔ size.toNat ≤ 2 ^ 64 - 8 := by
  constructor
  · intro suffice
    have bound := size.isLt
    have least := suffice.atLeast
    rw [requested_eq] at least
    omega
  · exact suffices_of_small disassembler

/-- `examine x 18446744073709551609 0x10`. -/
def hugeExamine : List (List Char) :=
  [['e', 'x', 'a', 'm', 'i', 'n', 'e'], ['x'],
    ['1', '8', '4', '4', '6', '7', '4', '4', '0', '7', '3', '7', '0', '9', '5', '5', '1', '6', '0',
      '9'],
    ['0', 'x', '1', '0']]

/-- No bytes are requested for a size that `cmd_examine` lets pass. -/
theorem hugeExamine_wraps :
    cmdExamine scripted 1 hugeExamine (Scripted.start []) =
        .ok (.memory 'x' 0x10 18446744073709551609) (Scripted.start []) ∧
      requested 18446744073709551609 = 0 ∧
      ∀ disassembler, ¬ Suffices disassembler 18446744073709551609 := by
  have wraps : requested 18446744073709551609 = 0 := by decide
  refine ⟨rfl, wraps, fun disassembler suffice => ?_⟩
  have least := suffice.atLeast
  rw [wraps] at least
  exact absurd least (by decide)

/-- There is no undefined behaviour, no exception but `MemoryException`, and the debugger
exits only where a call is refused memory. -/
abbrev Survives {κ α : Type} (before : Utils.Pool κ) (ok : α → Utils.Pool κ → Prop) :
    Post MyException (Utils.Pool κ) α where
  ok := ok
  throw ex _ := ex = .memoryException
  fault _ := False
  noReturn after := before.refusals < after.refusals

/-- A buffer that suffices is filled from its start; behind what was read there are zeros. -/
theorem readMemory_filled {κ : Type} (allocator : Utils.Allocator κ) (procMem : Utils.ProcMem)
    (addr : Word) {size : Word} (small : size.toNat ≤ 2 ^ 64 - 8) (pool : Utils.Pool κ) :
    wp (Utils.readMemory allocator procMem addr size)
      (Survives pool fun mem after => ∃ bytes : List Byte, bytes.length = requested size ∧
        after.heap mem = some (bytes.map some)) pool := by
  unfold Utils.readMemory
  by_cases opened : procMem.opens
  · rw [if_pos opened, wp_bind]
    have fits : (Utils.roundedSize size).toNat * 1 < 2 ^ 64 := by
      rw [Nat.mul_one]
      exact (Utils.roundedSize size).isLt
    refine wp_mono (Utils.given_tmpCalloc (Utils.roundedSize size).toNat 1 fits)
      ⟨?_, fun _ _ raised => raised.1, fun _ no => no, fun _ refused => refused⟩
    rintro buf after ⟨-, fresh⟩
    cases answered : procMem.pread addr size.toNat with
    | none => exact rfl
    | some bytes =>
        have short := procMem.short addr size.toNat bytes answered
        have atLeast := (suffices_of_small (fun _ _ => []) small).atLeast
        have zeros : after.heap buf = some ([] ++ List.replicate (requested size) (some 0)) := by
          rw [List.nil_append, fresh.found, Nat.mul_one]
          rfl
        have room : (bytes.map some).length ≤
            (List.replicate (requested size) (some (0 : Byte))).length := by
          rw [List.length_map, List.length_replicate]
          omega
        change wp (Utils.storeCells buf ([] : Block).length (bytes.map some) >>= _) _ after
        rw [wp_bind_ok (Utils.storeCells_ok [] (bytes.map some) zeros room), wp_ite]
        constructor
        · intro _
          refine ⟨bytes ++ List.replicate (requested size - bytes.length) 0, ?_, ?_⟩
          · rw [List.length_append, List.length_replicate]
            omega
          · rw [List.map_append, List.map_replicate]
            refine Ownership.put_self.trans ?_
            rw [List.nil_append, List.drop_replicate, List.length_map]
        · intro _
          exact rfl
  · rw [if_neg opened]
    exact rfl

/-- Whatever the format, nothing outside the buffer is read. -/
theorem examineMemory_survives {κ : Type} (allocator : Utils.Allocator κ) (procMem : Utils.ProcMem)
    (disassembler : Disassembler) (format : Char) (addr : Word) {size : Word}
    (small : size.toNat ≤ 2 ^ 64 - 8) (pool : Utils.Pool κ) :
    wp (examineMemory allocator procMem disassembler format addr size)
      (Survives pool fun _ _ => True) pool := by
  unfold examineMemory
  rw [wp_bind]
  refine wp_mono (readMemory_filled allocator procMem addr small pool)
    ⟨?_, fun _ _ raised => raised, fun _ no => no, fun _ refused => refused⟩
  rintro mem after ⟨bytes, length, found⟩
  have printed := (suffices_of_small disassembler small).inside format addr bytes length
  obtain ⟨text, prints⟩ := Option.isSome_iff_exists.mp printed
  simp only [wp_bind, wp_gets, found, Option.bind_some, prints]
  trivial

end Buffers

/-! ## Escapes -/

/-- The letter behind a backslash, and what it stands for. -/
def escapes : List (Byte × Byte) :=
  [(0x61, 0x07), (0x62, 0x08), (0x66, 0x0c), (0x6e, 0x0a), (0x72, 0x0d), (0x74, 0x09),
    (0x76, 0x0b), (backslash, backslash), (0x27, 0x27), (quote, quote), (0x3f, 0x3f)]

/-- The value of a hexadecimal digit. -/
def hexValue (digit : Byte) : Option Nat :=
  if 0x30 ≤ digit ∧ digit ≤ 0x39 then some (digit.toNat - 0x30)
  else if 0x61 ≤ digit ∧ digit ≤ 0x66 then some (digit.toNat - 0x57)
  else none

def hexPair (high low : Byte) : Option Byte := do
  let high ← hexValue high
  let low ← hexValue low
  return BitVec.ofNat 8 (16 * high + low)

/-- A character that stands for itself. -/
def plain (c : Byte) : Bool := isprint c.toInt && !(escapes.map Prod.snd).contains c

def readHex : List Byte → Option (Byte × List Byte)
  | high :: low :: rest => (hexPair high low).map (·, rest)
  | _ => none

def readEscape : List Byte → Option (Byte × List Byte)
  | [] => none
  | letter :: rest =>
      if letter = 0x78 then readHex rest else (escapes.lookup letter).map (·, rest)

/-- The first byte a text stands for, and the rest of the text. -/
def readChar : List Byte → Option (Byte × List Byte)
  | [] => none
  | c :: rest =>
      if c = backslash then readEscape rest
      else if plain c then some (c, rest)
      else none

/-- At most `count` bytes are read. -/
def decodeUpTo : Nat → List Byte → Option (List Byte)
  | _, [] => some []
  | 0, _ => none
  | count + 1, text => do
      let (c, rest) ← readChar text
      let bytes ← decodeUpTo count rest
      return c :: bytes

/-- The bytes a text between quotes stands for. -/
def decode (text : List Byte) : Option (List Byte) := decodeUpTo text.length text

theorem special_escapes : ∀ c : Byte, isSpecialChar c = true →
    getSpecialChar c ≠ 0x78 ∧ escapes.lookup (getSpecialChar c) = some c := by
  decide

theorem plain_of_printed : ∀ c : Byte, isSpecialChar c = false → isprint c.toInt = true →
    c ≠ backslash ∧ plain c = true := by
  decide

theorem hexPair_digits : ∀ c : Byte,
    hexPair (hexDigit (c.toNat / 16)) (hexDigit (c.toNat % 16)) = some c := by
  decide

/-- A character is read off its own text, and the rest is left. -/
theorem readChar_examineChar (c : Byte) (rest : List Byte) :
    readChar (examineChar c ++ rest) = some (c, rest) := by
  unfold examineChar
  by_cases special : isSpecialChar c = true
  · obtain ⟨letter, known⟩ := special_escapes c special
    rw [if_pos special]
    change readEscape (getSpecialChar c :: rest) = _
    rw [readEscape, if_neg letter, known]
    rfl
  · rw [if_neg special]
    rw [Bool.not_eq_true] at special
    by_cases printed : isprint c.toInt = true
    · obtain ⟨other, itself⟩ := plain_of_printed c special printed
      rw [printed]
      change readChar (c :: rest) = _
      rw [readChar, if_neg other, if_pos itself]
    · rw [Bool.not_eq_true] at printed
      rw [printed]
      change (hexPair (hexDigit (c.toNat / 16)) (hexDigit (c.toNat % 16))).map (·, rest) = _
      rw [hexPair_digits]
      rfl

theorem examineChar_ne_nil (c : Byte) : examineChar c ≠ [] := by
  intro empty
  have read := readChar_examineChar c []
  rw [empty] at read
  cases read

theorem decodeUpTo_flatMap (bytes : List Byte) {count : Nat} (enough : bytes.length ≤ count) :
    decodeUpTo count (bytes.flatMap examineChar) = some bytes := by
  induction bytes generalizing count with
  | nil => simp [decodeUpTo]
  | cons c bytes inductionHypothesis =>
      rw [List.length_cons] at enough
      obtain ⟨more, rfl⟩ : ∃ more, count = more + 1 := ⟨count - 1, by omega⟩
      have rest : decodeUpTo more (bytes.flatMap examineChar) = some bytes :=
        inductionHypothesis (by omega)
      have read := readChar_examineChar c (bytes.flatMap examineChar)
      rw [List.flatMap_cons, decodeUpTo, read]
      · simp [rest]
      · intro empty
        exact examineChar_ne_nil c (List.append_eq_nil_iff.mp empty).1

theorem length_le_flatMap (bytes : List Byte) :
    bytes.length ≤ (bytes.flatMap examineChar).length := by
  induction bytes with
  | nil => simp
  | cons c bytes inductionHypothesis =>
      have one := List.length_pos_iff.mpr (examineChar_ne_nil c)
      rw [List.flatMap_cons, List.length_append, List.length_cons]
      omega

theorem decode_flatMap (bytes : List Byte) :
    decode (bytes.flatMap examineChar) = some bytes :=
  decodeUpTo_flatMap bytes (length_le_flatMap bytes)

/-- A buffer that holds some bytes and whatever is behind them. -/
def bufferOf (bytes : List Byte) (spare : Block) : Block := bytes.map some ++ spare

theorem printLoop_cells (f : Byte → List Byte) (bytes : List Byte) (spare : Block) {count : Nat}
    (within : count ≤ bytes.length) :
    printLoop (fun i => (cell (bufferOf bytes spare) i).map f) count =
      some ((bytes.take count).flatMap f) := by
  induction count with
  | zero => rfl
  | succ count inductionHypothesis =>
      have front := inductionHypothesis (by omega)
      have last : cell (bufferOf bytes spare) count = some bytes[count] := by
        unfold cell bufferOf
        rw [List.getElem?_append_left (by rw [List.length_map]; omega), List.getElem?_map,
          List.getElem?_eq_getElem (by omega)]
        rfl
      rw [printLoop, front, last, List.take_succ_eq_append_getElem within, List.flatMap_append]
      simp

theorem examineString_eq (bytes : List Byte) (spare : Block) :
    examineString (bufferOf bytes spare) bytes.length =
      some (quote :: bytes.flatMap examineChar ++ [quote, lineFeed]) := by
  unfold examineString
  rw [printLoop_cells examineChar bytes spare (Nat.le_refl _), List.take_length]
  rfl

/-- What is printed between the quotes stands for the bytes, and for no others. -/
theorem examineString_unambiguous (bytes other : List Byte) (spare spare' : Block) :
    (∃ text, examineString (bufferOf bytes spare) bytes.length =
        some (quote :: text ++ [quote, lineFeed]) ∧ decode text = some bytes) ∧
      (examineString (bufferOf bytes spare) bytes.length =
        examineString (bufferOf other spare') other.length ↔ bytes = other) := by
  constructor
  · exact ⟨bytes.flatMap examineChar, examineString_eq bytes spare, decode_flatMap bytes⟩
  · rw [examineString_eq, examineString_eq]
    constructor
    · intro same
      have text : bytes.flatMap examineChar = other.flatMap examineChar := by
        simpa using same
      have decoded := decode_flatMap bytes
      rw [text, decode_flatMap] at decoded
      exact (Option.some.inj decoded).symm
    · rintro rfl
      rfl

/-- A digit behind an escape is no part of it. -/
example : examineString (bufferOf [0x00, 0x30, 0x22, 0xff] []) 4 =
    some [quote, backslash, 0x78, 0x30, 0x30, 0x30, backslash, quote, backslash, 0x78, 0x66, 0x66,
      quote, lineFeed] := by
  decide

end MyDbg
