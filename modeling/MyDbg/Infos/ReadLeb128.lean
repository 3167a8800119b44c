import MyDbg.Infos.LineRows
import MyDbg.Lib.Leb128

/-!
Contract: which LEB128 numbers `read_leb128` decodes.

Owns: the bits of what `read_leb128` returns, the bits of an encoding that it
misplaces, and from them when it returns the unsigned number encoded and when
`DW_LNS_advance_line` adds the signed one.

Does not own: the operands of the other opcodes.
-/

namespace MyDbg.Infos

open LittleEndian ProgramLogic LineNumbers

/-! ## The bits of the result -/

theorem unmasked : ∀ byte : Byte,
    (byte.setWidth 32 <<< 1 : BitVec 32).sshiftRight 1 = byte.setWidth 32 := by decide

/-- The upper half repeats bit 31. -/
theorem leb128Part_getLsbD (byte : Byte) (shift : Nat) {k : Nat} (inside : k < 64) :
    (leb128Part byte shift).getLsbD k = true ↔
      shift % 32 ≤ min k 31 ∧ byte.getLsbD (min k 31 - shift % 32) = true := by
  have shifted (position : Nat) (low : position < 32) :
      ((byte.setWidth 32 <<< (shift % 32) : BitVec 32)).getLsbD position = true ↔
        shift % 32 ≤ position ∧ byte.getLsbD (position - shift % 32) = true := by
    simp only [BitVec.getLsbD_shiftLeft, BitVec.getLsbD_setWidth, Bool.and_eq_true,
      decide_eq_true_eq, Bool.not_eq_true', decide_eq_false_iff_not, Nat.not_lt]
    constructor
    · intro bit
      exact ⟨bit.1.2, bit.2.2⟩
    · intro bit
      exact ⟨⟨low, bit.1⟩, by omega, bit.2⟩
  unfold leb128Part
  rw [unmasked, BitVec.getLsbD_signExtend, decide_eq_true inside, Bool.true_and]
  by_cases low : k < 32
  · rw [if_pos low, Nat.min_eq_left (by omega)]
    exact shifted k low
  · rw [if_neg low, Nat.min_eq_right (by omega)]
    exact shifted 31 (by decide)

/-- Each byte leaves its bits at its own shift, in 32 bits, with none masked. -/
theorem leb128From_getLsbD (bytes : List Byte) (first : Nat) (result : Word) {k : Nat}
    (inside : k < 64) :
    (leb128From (7 * first) result bytes).getLsbD k = true ↔
      result.getLsbD k = true ∨ ∃ i, 7 * (first + i) % 32 ≤ min k 31 ∧
        bitAt bytes i (min k 31 - 7 * (first + i) % 32) = true := by
  induction bytes generalizing first result with
  | nil => simp [leb128From, bitAt]
  | cons byte rest inductionHypothesis =>
      have shift : 7 * first + 7 = 7 * (first + 1) := by omega
      rw [leb128From, shift, inductionHypothesis, BitVec.getLsbD_or, Bool.or_eq_true,
        leb128Part_getLsbD byte _ inside, or_assoc]
      apply or_congr_right
      constructor
      · intro bit
        rcases bit with ⟨place, bit⟩ | ⟨i, place, bit⟩
        · exact ⟨0, place, bit⟩
        · have same : first + 1 + i = first + (i + 1) := by omega
          rw [same] at place bit
          exact ⟨i + 1, place, bit⟩
      · intro bit
        obtain ⟨i, place, bit⟩ := bit
        cases i with
        | zero => exact Or.inl ⟨place, bit⟩
        | succ i =>
            have same : first + (i + 1) = first + 1 + i := by omega
            rw [same] at place bit
            exact Or.inr ⟨i, place, bit⟩

theorem leb128Value_getLsbD (operand : Leb128) {k : Nat} (inside : k < 64) :
    (leb128Value operand).getLsbD k = true ↔
      ∃ i, 7 * i % 32 ≤ min k 31 ∧ bitAt operand.1 i (min k 31 - 7 * i % 32) = true := by
  have bits := leb128From_getLsbD operand.1 0 0 inside
  have nothing : (0 : Word).getLsbD k = false := BitVec.getLsbD_zero
  simp only [Nat.zero_add, nothing, Bool.false_eq_true, false_or] at bits
  exact bits

/-! ## Misplaced bits -/

/-- Each bit of `bytes` that `read_leb128` leaves at a place that is not its own
is a bit of `bits`: the continuation bits, and those of the sixth byte and the
bytes after it, whose shifts have come round. -/
def MisplacedWithin (bytes : List Byte) (bits : Nat → Bool) : Prop :=
  ∀ i j, bitAt bytes i j = true → j = 7 ∨ 5 ≤ i → 7 * i % 32 + j < 32 →
    bits (7 * i % 32 + j) = true

/-- The shifts of the first five bytes are not reduced. -/
theorem early_shift {i : Nat} (early : i < 5) : 7 * i % 32 = 7 * i :=
  Nat.mod_eq_of_lt (by omega)

/-- A number is decoded in its 32 low bits if no misplaced bit spoils it. -/
theorem low_bits_iff (operand : Leb128) (bits : Nat → Bool)
    (placed : ∀ k, k < 32 → bits k = bitAt operand.1 (k / 7) (k % 7)) :
    (∀ k, k < 32 → (leb128Value operand).getLsbD k = bits k) ↔
      MisplacedWithin operand.1 bits := by
  constructor
  · intro same i j bit _ low
    rw [← same _ low, leb128Value_getLsbD operand (by omega)]
    refine ⟨i, by omega, ?_⟩
    have place : min (7 * i % 32 + j) 31 - 7 * i % 32 = j := by omega
    rw [place]
    exact bit
  · intro within k low
    rw [Bool.eq_iff_iff, leb128Value_getLsbD operand (by omega)]
    have whole : min k 31 = k := by omega
    rw [whole]
    constructor
    · intro bit
      obtain ⟨i, place, bit⟩ := bit
      have here : 7 * i % 32 + (k - 7 * i % 32) = k := by omega
      by_cases astray : k - 7 * i % 32 = 7 ∨ 5 ≤ i
      · have spoilt := within i _ bit astray (by omega)
        rwa [here] at spoilt
      · have small := (bitAt_lt bit).2
        have flat := early_shift (by omega : i < 5)
        have own : k / 7 = i ∧ k % 7 = k - 7 * i % 32 := by omega
        rw [placed k low, own.1, own.2]
        exact bit
    · intro bit
      rw [placed k low] at bit
      have own : 7 * (k / 7) % 32 ≤ k ∧ k - 7 * (k / 7) % 32 = k % 7 := by omega
      exact ⟨k / 7, own.1, by rw [own.2]; exact bit⟩

/-! ## Unsigned numbers -/

/-- The number is what 32 bits with a sign hold, and no misplaced bit spoils it. -/
def Decodable (operand : Leb128) : Prop :=
  (unsignedValue operand.1 < 2 ^ 31 ∨ 2 ^ 64 - 2 ^ 31 ≤ unsignedValue operand.1) ∧
    MisplacedWithin operand.1 (unsignedValue operand.1).testBit

/-- The upper half of what is returned repeats bit 31. -/
theorem leb128Value_high (operand : Leb128) {k : Nat} (high : 31 ≤ k) (inside : k < 64) :
    (leb128Value operand).getLsbD k = (leb128Value operand).getLsbD 31 := by
  rw [Bool.eq_iff_iff, leb128Value_getLsbD operand inside,
    leb128Value_getLsbD operand (by decide), Nat.min_eq_right high, Nat.min_self]

/-- Numbers whose upper half repeats bit 31. -/
theorem sign_extended_iff {value : Nat} (fits : value < 2 ^ 64) :
    (∀ k, 31 ≤ k → k < 64 → value.testBit k = value.testBit 31) ↔
      value < 2 ^ 31 ∨ 2 ^ 64 - 2 ^ 31 ≤ value := by
  have upper (k : Nat) : (value / 2 ^ 31).testBit k = value.testBit (31 + k) := by
    rw [Nat.testBit_div_two_pow, Nat.add_comm]
  have bound : value / 2 ^ 31 < 2 ^ 33 := by omega
  constructor
  · intro same
    cases top : value.testBit 31 with
    | false =>
        have none : value / 2 ^ 31 = 0 := by
          apply Nat.eq_of_testBit_eq
          intro k
          rw [upper, Nat.zero_testBit]
          by_cases inside : 31 + k < 64
          · rw [same _ (by omega) inside, top]
          · exact Nat.testBit_lt_two_pow (Nat.lt_of_lt_of_le fits
              (Nat.pow_le_pow_right (by decide) (by omega)))
        left
        omega
    | true =>
        have all : value / 2 ^ 31 = 2 ^ 33 - 1 := by
          apply Nat.eq_of_testBit_eq
          intro k
          rw [upper, Nat.testBit_two_pow_sub_one]
          by_cases inside : 31 + k < 64
          · rw [same _ (by omega) inside, top, decide_eq_true (by omega)]
          · rw [decide_eq_false (by omega)]
            exact Nat.testBit_lt_two_pow (Nat.lt_of_lt_of_le fits
              (Nat.pow_le_pow_right (by decide) (by omega)))
        right
        omega
  · intro halves k high inside
    obtain ⟨later, rfl⟩ : ∃ later, k = 31 + later := ⟨k - 31, by omega⟩
    have first : value.testBit 31 = (value / 2 ^ 31).testBit 0 := (upper 0).symm
    rw [← upper later, first]
    rcases halves with small | large
    · have none : value / 2 ^ 31 = 0 := by omega
      rw [none, Nat.zero_testBit, Nat.zero_testBit]
    · have all : value / 2 ^ 31 = 2 ^ 33 - 1 := by omega
      rw [all, Nat.testBit_two_pow_sub_one, Nat.testBit_two_pow_sub_one,
        decide_eq_true (by omega), decide_eq_true (by omega)]

theorem leb128Value_iff (operand : Leb128) (fits : unsignedValue operand.1 < 2 ^ 64) :
    leb128Value operand = BitVec.ofNat 64 (unsignedValue operand.1) ↔ Decodable operand := by
  have bits (k : Nat) (inside : k < 64) :
      (BitVec.ofNat 64 (unsignedValue operand.1)).getLsbD k =
        (unsignedValue operand.1).testBit k := by
    rw [BitVec.getLsbD_ofNat, decide_eq_true inside, Bool.true_and]
  have low := low_bits_iff operand (unsignedValue operand.1).testBit
    fun k _ => unsignedValue_testBit k
  unfold Decodable
  rw [← low, ← sign_extended_iff fits]
  constructor
  · intro same
    have every (k : Nat) (inside : k < 64) :
        (leb128Value operand).getLsbD k = (unsignedValue operand.1).testBit k := by
      rw [same, bits k inside]
    constructor
    · intro k high inside
      rw [← every k inside, ← every 31 (by decide), leb128Value_high operand high inside]
    · intro k inside
      exact every k (by omega)
  · intro decodable
    obtain ⟨repeats, same⟩ := decodable
    apply BitVec.eq_of_getLsbD_eq
    intro k inside
    rw [bits k inside]
    by_cases high : 31 ≤ k
    · rw [leb128Value_high operand high inside, same 31 (by decide), repeats k high inside]
    · exact same k (by omega)

section Decoding

variable {memory : PartialMemory} {lhdr ptr : Addr}

/-- `read_leb128` decodes the numbers it does not spoil, and no others. -/
theorem readLeb128_decodes_iff (operand : Leb128) (fits : unsignedValue operand.1 < 2 ^ 64)
    (stored : Holds memory ptr operand.1) :
    Yields (fun fuel => readLeb128 memory fuel ptr)
        (BitVec.ofNat 64 (unsignedValue operand.1), ptr + BitVec.ofNat 64 operand.1.length) ↔
      Decodable operand := by
  have returned := readLeb128_yields operand stored
  rw [← leb128Value_iff operand fits]
  constructor
  · intro decoded
    exact congrArg Prod.fst (returned.unique decoded)
  · intro same
    rw [← same]
    exact returned

/-- Bytes from address 0 on. -/
def storedAt0 (bytes : List Byte) : PartialMemory := fun addr => bytes[addr.toNat]?

/-- 128 is decoded from two bytes, the low bit of the second being set. -/
theorem readLeb128_decodes_128 :
    unsignedValue [0x80, 0x01] = 128 ∧
      Yields (fun fuel => readLeb128 (storedAt0 [0x80, 0x01]) fuel 0) (128, 2) := by
  refine ⟨rfl, (readLeb128_decodes_iff ⟨[0x80, 0x01], by decide⟩ (by decide) (by decide)).mpr ?_⟩
  refine ⟨by decide, ?_⟩
  intro i j bit astray low
  have inside := bitAt_lt bit
  change i < 2 ∧ j < 8 at inside
  have first : i = 0 ∧ j = 7 := by
    have last : i ≠ 1 := by
      rintro rfl
      have seven : j = 7 := by omega
      subst seven
      exact absurd bit (by decide)
    omega
  rw [first.1, first.2]
  decide

/-- 256 is not: the continuation bit of the first byte comes out as 128. -/
theorem readLeb128_misreads_256 :
    IsLeb128 [0x80, 0x02] ∧ unsignedValue [0x80, 0x02] = 256 ∧
      Yields (fun fuel => readLeb128 (storedAt0 [0x80, 0x02]) fuel 0) (384, 2) ∧
      ¬ Yields (fun fuel => readLeb128 (storedAt0 [0x80, 0x02]) fuel 0) (256, 2) := by
  have returned : Yields (fun fuel => readLeb128 (storedAt0 [0x80, 0x02]) fuel 0) (384, 2) :=
    readLeb128_yields ⟨[0x80, 0x02], by decide⟩ (by decide)
  refine ⟨by decide, rfl, returned, ?_⟩
  intro decoded
  exact absurd (congrArg Prod.fst (returned.unique decoded)) (by decide)

/-! ## Signed numbers -/

/-- A negative number takes five bytes or more, and no misplaced bit spoils the
32 bits added to a line. -/
def SignedDecodable (operand : Leb128) : Prop :=
  (signedValue operand.1 < 0 → 5 ≤ operand.1.length) ∧
    MisplacedWithin operand.1 (BitVec.ofInt 32 (signedValue operand.1)).getLsbD

/-- Fewer than five bytes leave bit 31 clear. -/
theorem leb128Value_short (operand : Leb128) (short : operand.1.length < 5) :
    (leb128Value operand).getLsbD 31 = false := by
  rw [Bool.eq_false_iff]
  intro bit
  obtain ⟨i, place, bit⟩ := (leb128Value_getLsbD operand (by decide)).mp bit
  have inside := bitAt_lt bit
  have flat := early_shift (by omega : i < 5)
  omega

theorem leb128Value_signed_iff (operand : Leb128) :
    (leb128Value operand).setWidth 32 = BitVec.ofInt 32 (signedValue operand.1) ↔
      SignedDecodable operand := by
  have narrow (k : Nat) (inside : k < 32) :
      ((leb128Value operand).setWidth 32).getLsbD k = (leb128Value operand).getLsbD k := by
    rw [BitVec.getLsbD_setWidth, decide_eq_true inside, Bool.true_and]
  constructor
  · intro same
    have every (k : Nat) (inside : k < 32) : (leb128Value operand).getLsbD k =
        (BitVec.ofInt 32 (signedValue operand.1)).getLsbD k := by
      rw [← same, narrow k inside]
    have long : signedValue operand.1 < 0 → 5 ≤ operand.1.length := by
      intro negative
      by_contra short
      have high := every 31 (by decide)
      rw [leb128Value_short operand (by omega), signedValue_short negative (by omega)] at high
      cases high
    exact ⟨long, (low_bits_iff operand _ fun k => signedValue_getLsbD long).mp every⟩
  · intro decodable
    obtain ⟨long, within⟩ := decodable
    have every := (low_bits_iff operand _ fun k => signedValue_getLsbD long).mpr within
    apply BitVec.eq_of_getLsbD_eq
    intro k inside
    rw [narrow k inside, every k inside]

/-- `DW_LNS_advance_line` advances the line by the signed number and consumes the
encoding for the numbers that are not spoilt, and for no others. -/
theorem advanceLine_iff (delta : Leb128) (run : LineRun)
    (stored : Holds memory run.ptr (3 :: delta.1)) :
    Yields (fun fuel => standardInstruction memory lhdr fuel run)
        { run with
          sm := { run.sm with line := run.sm.line + BitVec.ofInt 32 (signedValue delta.1) }
          ptr := run.ptr + BitVec.ofNat 64 (delta.1.length + 1) } ↔
      SignedDecodable delta := by
  have returned : Yields (fun fuel => standardInstruction memory lhdr fuel run)
      { run with
        sm := { run.sm with line := run.sm.line + (leb128Value delta).setWidth 32 }
        ptr := run.ptr + BitVec.ofNat 64 (delta.1.length + 1) } := by
    apply Yields.bind (.of_returns (load_byte stored.1))
    rw [add_ofNat_succ]
    exact (readLeb128_yields delta stored.2).bind (.pure _)
  rw [← leb128Value_signed_iff]
  constructor
  · intro advanced
    have lines := congrArg (fun next => next.sm.line) (returned.unique advanced)
    exact (BitVec.add_right_inj run.sm.line).mp lines
  · intro same
    rw [← same]
    exact returned

/-- A machine in front of the bytes at 0. -/
def lineRunAt0 : LineRun where
  sm := {
    address := 0
    opIndex := 0
    file := 1
    line := 20
    column := 0
    isStmt := true
    basicBlock := false
    endSequence := false
    prologueEnd := false
    epilogueBegin := false
    isa := 0
    discriminator := 0 }
  states := []
  ptr := 0

/-- Ten lines on. -/
theorem advanceLine_ten :
    Yields (fun fuel => standardInstruction (storedAt0 [3, 0x0A]) 0 fuel lineRunAt0)
      { lineRunAt0 with sm := { lineRunAt0.sm with line := 30 }, ptr := 2 } := by
  refine (advanceLine_iff ⟨[0x0A], by decide⟩ lineRunAt0 (by decide)).mpr ⟨by decide, ?_⟩
  intro i j bit astray low
  have inside := bitAt_lt bit
  change i < 1 ∧ j < 8 at inside
  have last : i = 0 ∧ j = 7 := by omega
  rw [last.1, last.2] at bit
  exact absurd bit (by decide)

/-- One line back, in one byte, comes out as 127 lines on. -/
theorem advanceLine_back :
    signedValue [0x7F] = -1 ∧
      Yields (fun fuel => standardInstruction (storedAt0 [3, 0x7F]) 0 fuel lineRunAt0)
        { lineRunAt0 with sm := { lineRunAt0.sm with line := 147 }, ptr := 2 } ∧
      ¬ Yields (fun fuel => standardInstruction (storedAt0 [3, 0x7F]) 0 fuel lineRunAt0)
        { lineRunAt0 with sm := { lineRunAt0.sm with line := 19 }, ptr := 2 } := by
  have returned : Yields (fun fuel => standardInstruction (storedAt0 [3, 0x7F]) 0 fuel lineRunAt0)
      { lineRunAt0 with sm := { lineRunAt0.sm with line := 147 }, ptr := 2 } := by
    have opcode : storedAt0 [3, 0x7F] 0 = some 3 := rfl
    apply Yields.bind (.of_returns (load_byte opcode))
    exact (readLeb128_yields ⟨[0x7F], by decide⟩ (by decide)).bind (.pure _)
  refine ⟨by decide, returned, ?_⟩
  intro advanced
  exact absurd (congrArg (fun next => next.sm.line) (returned.unique advanced)) (by decide)

end Decoding

end MyDbg.Infos
