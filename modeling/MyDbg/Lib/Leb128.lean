import MyDbg.Lib.LineNumbers

/-!
Contract: the numbers that LEB128 bytes stand for.

Owns: the unsigned and the signed value of an encoding of any length, padded
or not, and the bits of both in terms of the bits of the bytes.

Does not own: any decoder.
-/

namespace LineNumbers

open LittleEndian

/-- Bit `j` of byte `i`. -/
def bitAt (bytes : List Byte) (i j : Nat) : Bool :=
  match bytes[i]? with
  | some byte => byte.getLsbD j
  | none => false

/-- Seven bits of each byte, the low ones first. -/
def unsignedValue : List Byte → Nat
  | [] => 0
  | byte :: rest => byte.toNat % 128 + 128 * unsignedValue rest

/-- The second highest bit of the last byte is the sign. -/
def signBit (bytes : List Byte) : Bool := bitAt bytes (bytes.length - 1) 6

def signedValue (bytes : List Byte) : Int :=
  if signBit bytes then unsignedValue bytes - 2 ^ (7 * bytes.length) else unsignedValue bytes

section Bits

variable {bytes : List Byte} {byte : Byte} {rest : List Byte} {i j : Nat}

@[simp] theorem bitAt_cons_zero : bitAt (byte :: rest) 0 j = byte.getLsbD j := rfl

@[simp] theorem bitAt_cons_succ : bitAt (byte :: rest) (i + 1) j = bitAt rest i j := rfl

theorem bitAt_eq_true :
    bitAt bytes i j = true ↔ ∃ byte, bytes[i]? = some byte ∧ byte.getLsbD j = true := by
  unfold bitAt
  cases bytes[i]? <;> simp

theorem bitAt_lt (set : bitAt bytes i j = true) : i < bytes.length ∧ j < 8 := by
  obtain ⟨byte, found, bit⟩ := bitAt_eq_true.mp set
  exact ⟨(List.getElem?_eq_some_iff.mp found).1, BitVec.lt_of_getLsbD bit⟩

theorem getLsbD_low (byte : Byte) (inside : j < 7) :
    byte.getLsbD j = (byte.toNat % 128).testBit j := by
  have low : (byte.toNat % 2 ^ 7).testBit j = byte.toNat.testBit j := by
    rw [Nat.testBit_mod_two_pow, decide_eq_true inside, Bool.true_and]
  exact low.symm

/-! ## Unsigned values -/

theorem unsignedValue_testBit (k : Nat) :
    (unsignedValue bytes).testBit k = bitAt bytes (k / 7) (k % 7) := by
  induction bytes generalizing k with
  | nil => simp [unsignedValue, bitAt]
  | cons byte rest inductionHypothesis =>
      have low : byte.toNat % 128 < 2 ^ 7 := Nat.mod_lt _ (by decide)
      have split := Nat.testBit_two_pow_mul_add (unsignedValue rest) low k
      rw [unsignedValue, Nat.add_comm]
      refine split.trans ?_
      by_cases inside : k < 7
      · rw [if_pos inside, ← getLsbD_low byte inside, Nat.div_eq_of_lt inside,
          Nat.mod_eq_of_lt inside, bitAt_cons_zero]
      · obtain ⟨later, rfl⟩ : ∃ later, k = later + 7 := ⟨k - 7, by omega⟩
        rw [if_neg inside, Nat.add_sub_cancel, inductionHypothesis, Nat.add_div_right _ (by decide),
          Nat.add_mod_right, bitAt_cons_succ]

theorem unsignedValue_lt (bytes : List Byte) : unsignedValue bytes < 2 ^ (7 * bytes.length) := by
  induction bytes with
  | nil => exact Nat.one_pos
  | cons byte rest inductionHypothesis =>
      have low : byte.toNat % 128 < 128 := Nat.mod_lt _ (by decide)
      have width : 2 ^ (7 * (rest.length + 1)) = 128 * 2 ^ (7 * rest.length) := by
        rw [Nat.mul_add, Nat.pow_add, Nat.mul_comm]
      rw [List.length_cons, width, unsignedValue]
      omega

/-! ## Signed values -/

theorem signedValue_neg (bytes : List Byte) : signedValue bytes < 0 ↔ signBit bytes = true := by
  have bound := unsignedValue_lt bytes
  have cast : ((2 ^ (7 * bytes.length) : Nat) : Int) = 2 ^ (7 * bytes.length) := by norm_cast
  unfold signedValue
  cases signBit bytes <;> simp only [if_true, Bool.false_eq_true, if_false, iff_true, iff_false] <;>
    omega

/-- A set sign bit is the highest bit of the unsigned value. -/
theorem unsignedValue_ge (sign : signBit bytes = true) :
    2 ^ (7 * bytes.length - 1) ≤ unsignedValue bytes := by
  have positive := (bitAt_lt sign).1
  apply Nat.ge_two_pow_of_testBit
  rw [unsignedValue_testBit]
  have place : (7 * bytes.length - 1) / 7 = bytes.length - 1 ∧ (7 * bytes.length - 1) % 7 = 6 := by
    omega
  rw [place.1, place.2]
  exact sign

theorem ofInt_natCast_getLsbD (value : Nat) {k : Nat} (inside : k < 32) :
    (BitVec.ofInt 32 (value : Int)).getLsbD k = value.testBit k := by
  rw [BitVec.ofInt_natCast, BitVec.getLsbD_ofNat, decide_eq_true inside, Bool.true_and]

/-- Below bit 32, a number that is not negative or takes five bytes or more has
the bits of its bytes. -/
theorem signedValue_getLsbD (long : signedValue bytes < 0 → 5 ≤ bytes.length) {k : Nat}
    (inside : k < 32) :
    (BitVec.ofInt 32 (signedValue bytes)).getLsbD k = bitAt bytes (k / 7) (k % 7) := by
  have same :
      BitVec.ofInt 32 (signedValue bytes) = BitVec.ofInt 32 (unsignedValue bytes : Int) := by
    rw [signedValue_neg] at long
    unfold signedValue
    split
    · next sign =>
        have more := long sign
        have multiple : (2 : Int) ^ (7 * bytes.length) =
            2 ^ 32 * 2 ^ (7 * bytes.length - 32) := by
          rw [← pow_add]
          congr 1
          omega
        apply BitVec.eq_of_toNat_eq
        rw [BitVec.toNat_ofInt, BitVec.toNat_ofInt, multiple]
        omega
    · rfl
  rw [same, ofInt_natCast_getLsbD _ inside, unsignedValue_testBit]

/-- The sign of a negative number in fewer bytes reaches bit 31. -/
theorem signedValue_short (negative : signedValue bytes < 0) (short : bytes.length < 5) :
    (BitVec.ofInt 32 (signedValue bytes)).getLsbD 31 = true := by
  have sign := (signedValue_neg bytes).mp negative
  have high := unsignedValue_ge sign
  have positive := (bitAt_lt sign).1
  have below : 2 ^ (7 * bytes.length) = 2 * 2 ^ (7 * bytes.length - 1) := by
    rw [← Nat.pow_succ']
    congr 1
    omega
  have small : 2 ^ (7 * bytes.length - 1) ≤ 2 ^ 27 := Nat.pow_le_pow_right (by decide) (by omega)
  have value : signedValue bytes = unsignedValue bytes - (2 ^ (7 * bytes.length) : Nat) := by
    rw [signedValue, if_pos sign]
    norm_cast
  have msb : (BitVec.ofInt 32 (signedValue bytes)).msb = true := by
    rw [BitVec.msb_eq_decide, decide_eq_true_eq, BitVec.toNat_ofInt]
    omega
  exact msb

end Bits

end LineNumbers
