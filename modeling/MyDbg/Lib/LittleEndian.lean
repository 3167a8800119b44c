import Mathlib.Data.Nat.Digits.Lemmas
import Mathlib.Data.Nat.Bitwise
import Mathlib.Logic.Function.Basic
import Mathlib.Tactic.Ring

/-!
Contract: little-endian numbers in a byte-addressed memory of 64-bit addresses.

Owns: the value of a list of bytes and the bytes of a value, each the inverse
of the other; reading and storing consecutive bytes, addresses wrapping at
`2 ^ 64`; and the one fact about words that patching a single byte rests on:
writing back the word read with its low byte replaced changes that byte only;
and memories of which only a part can be read.

Does not own: which addresses are mapped, or who may write.
-/

namespace LittleEndian

abbrev Byte := BitVec 8

abbrev Word := BitVec 64

abbrev Addr := BitVec 64

/-- A memory in which every address holds a byte. -/
abbrev Memory := Addr → Byte

/-! ## Values and bytes -/

/-- The number a list of bytes denotes, least significant byte first. -/
def leNat (bytes : List Byte) : Nat := Nat.ofDigits 256 (bytes.map BitVec.toNat)

@[simp] theorem leNat_nil : leNat [] = 0 := rfl

@[simp] theorem leNat_cons (byte : Byte) (bytes : List Byte) :
    leNat (byte :: bytes) = byte.toNat + 256 * leNat bytes := by
  simp [leNat, Nat.ofDigits_cons]

theorem leNat_lt (bytes : List Byte) : leNat bytes < 256 ^ bytes.length := by
  have small := Nat.ofDigits_lt_base_pow_length (by decide : 1 < 256)
    (l := bytes.map BitVec.toNat) (by
      intro digit member
      obtain ⟨byte, _, rfl⟩ := List.mem_map.mp member
      exact byte.isLt)
  simpa [leNat] using small

/-- The `count` low bytes of a number, least significant first. -/
def leBytes : Nat → Nat → List Byte
  | 0, _ => []
  | count + 1, value => BitVec.ofNat 8 value :: leBytes count (value / 256)

@[simp] theorem leBytes_length (count value : Nat) :
    (leBytes count value).length = count := by
  induction count generalizing value with
  | zero => rfl
  | succ count inductionHypothesis => simp [leBytes, inductionHypothesis]

/-- Encoding the value of some bytes gives the bytes back. -/
theorem leBytes_leNat (bytes : List Byte) : leBytes bytes.length (leNat bytes) = bytes := by
  induction bytes with
  | nil => rfl
  | cons byte rest inductionHypothesis =>
      have small := byte.isLt
      have low : BitVec.ofNat 8 (byte.toNat + 256 * leNat rest) = byte := by
        apply BitVec.eq_of_toNat_eq
        rw [BitVec.toNat_ofNat]
        omega
      have high : (byte.toNat + 256 * leNat rest) / 256 = leNat rest := by omega
      simp only [List.length_cons, leNat_cons, leBytes, low, high, inductionHypothesis]

/-- Decoding the bytes of a value gives the value back, if it fits. -/
theorem leNat_leBytes {count value : Nat} (fits : value < 256 ^ count) :
    leNat (leBytes count value) = value := by
  induction count generalizing value with
  | zero =>
      have isZero : value = 0 := by simpa using fits
      simp [leBytes, isZero]
  | succ count inductionHypothesis =>
      have quotientFits : value / 256 < 256 ^ count := by
        rw [Nat.div_lt_iff_lt_mul (by decide)]
        rwa [pow_succ] at fits
      rw [leBytes, leNat_cons, inductionHypothesis quotientFits, BitVec.toNat_ofNat]
      omega

/-- Some bytes are those of the number of their width. -/
theorem leBytes_ofNat {bytes : List Byte} {width : Nat} (whole : width = 8 * bytes.length) :
    leBytes bytes.length (BitVec.ofNat width (leNat bytes)).toNat = bytes := by
  have small : leNat bytes < 2 ^ width := by
    rw [whole, pow_mul]
    exact leNat_lt bytes
  rw [BitVec.toNat_ofNat, Nat.mod_eq_of_lt small, leBytes_leNat]

/-! ## Consecutive bytes of a memory -/

/-- The `count` bytes from `addr` on. -/
def bytesAt (memory : Memory) (addr : Addr) : Nat → List Byte
  | 0 => []
  | count + 1 => memory addr :: bytesAt memory (addr + 1) count

/-- Store bytes from `addr` on. -/
def store (memory : Memory) (addr : Addr) : List Byte → Memory
  | [] => memory
  | byte :: rest => store (Function.update memory addr byte) (addr + 1) rest

@[simp] theorem bytesAt_length (memory : Memory) (addr : Addr) (count : Nat) :
    (bytesAt memory addr count).length = count := by
  induction count generalizing addr with
  | zero => rfl
  | succ count inductionHypothesis => simp [bytesAt, inductionHypothesis]

/-- Storing back the bytes read changes nothing. -/
theorem store_bytesAt (memory : Memory) (addr : Addr) (count : Nat) :
    store memory addr (bytesAt memory addr count) = memory := by
  induction count generalizing addr with
  | zero => rfl
  | succ count inductionHypothesis =>
      simp only [bytesAt, store, Function.update_eq_self, inductionHypothesis]

theorem add_ofNat_ne (addr : Addr) {size : Nat} (positive : 0 < size) (small : size < 2 ^ 64) :
    addr + BitVec.ofNat 64 size ≠ addr := by
  intro same
  have zero : BitVec.ofNat 64 size = 0 := by
    simpa using same
  have multiple : size % 2 ^ 64 = 0 := by
    simpa using congrArg BitVec.toNat zero
  omega

theorem add_ofNat_succ (addr : Addr) (offset : Nat) :
    addr + BitVec.ofNat 64 (offset + 1) = addr + 1 + BitVec.ofNat 64 offset := by
  apply BitVec.eq_of_toNat_eq
  simp only [BitVec.toNat_add, BitVec.toNat_ofNat, show (1 : Addr).toNat = 1 from rfl]
  omega

/-- The bytes read depend on nothing else. -/
theorem bytesAt_congr {left right : Memory} {start : Addr} {count : Nat}
    (same : ∀ offset < count,
      left (start + BitVec.ofNat 64 offset) = right (start + BitVec.ofNat 64 offset)) :
    bytesAt left start count = bytesAt right start count := by
  induction count generalizing start with
  | zero => rfl
  | succ count inductionHypothesis =>
      have here : left start = right start := by simpa using same 0 (by omega)
      have later : ∀ offset < count, left (start + 1 + BitVec.ofNat 64 offset) =
          right (start + 1 + BitVec.ofNat 64 offset) := by
        intro offset small
        rw [← add_ofNat_succ]
        exact same (offset + 1) (by omega)
      simp only [bytesAt, here, inductionHypothesis later]

/-- Bytes read beyond an updated address are the old ones. -/
theorem bytesAt_update {memory : Memory} {addr start : Addr} {byte : Byte} {count : Nat}
    (beyond : ∀ offset < count, start + BitVec.ofNat 64 offset ≠ addr) :
    bytesAt (Function.update memory addr byte) start count = bytesAt memory start count := by
  apply bytesAt_congr
  intro offset small
  exact Function.update_of_ne (beyond offset small) _ _

/-! ## Words -/

/-- The 64-bit word at `addr`. -/
def peek (memory : Memory) (addr : Addr) : Word :=
  BitVec.ofNat 64 (leNat (bytesAt memory addr 8))

/-- Replace the 8 bytes at `addr` by those of `word`. -/
def poke (memory : Memory) (addr : Addr) (word : Word) : Memory :=
  store memory addr (leBytes 8 word.toNat)

/-- The least significant byte. -/
def lowByte (word : Word) : Byte := word.setWidth 8

/-- `word` with its least significant byte replaced by that of `source`. -/
def withLowByte (word source : Word) : Word := (word &&& ~~~0xFF#64) ||| (source &&& 0xFF#64)

theorem peek_toNat (memory : Memory) (addr : Addr) :
    (peek memory addr).toNat = leNat (bytesAt memory addr 8) := by
  have small := leNat_lt (bytesAt memory addr 8)
  rw [bytesAt_length] at small
  rw [peek, BitVec.toNat_ofNat, Nat.mod_eq_of_lt]
  calc leNat (bytesAt memory addr 8) < 256 ^ 8 := small
    _ = 2 ^ 64 := by norm_num

@[simp] theorem lowByte_peek (memory : Memory) (addr : Addr) :
    lowByte (peek memory addr) = memory addr := by
  have small := (memory addr).isLt
  apply BitVec.eq_of_toNat_eq
  rw [lowByte, BitVec.toNat_setWidth, peek_toNat, bytesAt, leNat_cons]
  omega

/-- The seven other bytes are kept. -/
theorem withLowByte_toNat (word source : Word) :
    (withLowByte word source).toNat = 256 * (word.toNat / 256) + (lowByte source).toNat := by
  have split : withLowByte word source =
      (word.extractLsb' 8 56 ++ source.extractLsb' 0 8 : BitVec 64) := by
    apply BitVec.eq_of_getLsbD_eq
    intro index inWord
    have mask : (0xFF#64).getLsbD index = decide (index < 8) := by
      interval_cases index <;> rfl
    simp only [withLowByte, BitVec.getLsbD_or, BitVec.getLsbD_and, BitVec.getLsbD_not, mask,
      BitVec.getLsbD_append, BitVec.getLsbD_extractLsb']
    by_cases low : index < 8
    · simp [low]
    · have shift : 8 + (index - 8) = index := by omega
      have inHigh : index - 8 < 56 := by omega
      simp [low, shift, inHigh, inWord]
  have wordSmall := word.isLt
  have highByte : (word.extractLsb' 8 56).toNat = word.toNat / 256 := by
    rw [BitVec.extractLsb'_toNat, Nat.shiftRight_eq_div_pow]
    omega
  have low : (source.extractLsb' 0 8).toNat = (lowByte source).toNat := by
    simp [lowByte, BitVec.extractLsb'_toNat]
  have lowSmall := (lowByte source).isLt
  rw [split, BitVec.toNat_append, highByte, low, ← Nat.shiftLeft_add_eq_or_of_lt lowSmall,
    Nat.shiftLeft_eq]
  omega

/-- Writing back a word read with its low byte replaced changes one byte. -/
theorem poke_withLowByte (memory : Memory) (addr : Addr) (source : Word) :
    poke memory addr (withLowByte (peek memory addr) source) =
      Function.update memory addr (lowByte source) := by
  have lowSmall := (lowByte source).isLt
  have firstSmall := (memory addr).isLt
  have rest : (peek memory addr).toNat / 256 = leNat (bytesAt memory (addr + 1) 7) := by
    rw [peek_toNat, bytesAt, leNat_cons]
    omega
  have bytes : leBytes 8 (withLowByte (peek memory addr) source).toNat =
      lowByte source :: bytesAt memory (addr + 1) 7 := by
    have first : BitVec.ofNat 8 (256 * leNat (bytesAt memory (addr + 1) 7) +
        (lowByte source).toNat) = lowByte source := by
      apply BitVec.eq_of_toNat_eq
      rw [BitVec.toNat_ofNat]
      omega
    have tail : (256 * leNat (bytesAt memory (addr + 1) 7) + (lowByte source).toNat) / 256 =
        leNat (bytesAt memory (addr + 1) 7) := by
      omega
    rw [withLowByte_toNat, rest, leBytes, first, tail]
    exact congrArg (List.cons _) (by simpa using leBytes_leNat (bytesAt memory (addr + 1) 7))
  have untouched : bytesAt (Function.update memory addr (lowByte source)) (addr + 1) 7 =
      bytesAt memory (addr + 1) 7 := by
    apply bytesAt_update
    intro offset small equal
    have value := congrArg BitVec.toNat equal
    have addrSmall := addr.isLt
    simp only [BitVec.toNat_add, BitVec.toNat_ofNat,
      show (1 : Addr).toNat = 1 from rfl] at value
    omega
  rw [poke, bytes, store, ← untouched, store_bytesAt]

/-! ## Memories with holes -/

/-- A memory in which some addresses cannot be read. -/
abbrev PartialMemory := Addr → Option Byte

/-- `size` bytes from `addr` on, if all can be read. -/
def readBytes (memory : PartialMemory) (addr : Addr) : Nat → Option (List Byte)
  | 0 => some []
  | size + 1 => do
      let byte ← memory addr
      let rest ← readBytes memory (addr + 1) size
      return byte :: rest

/-- `bytes` are stored from `addr` on. -/
def Holds (memory : PartialMemory) (addr : Addr) : List Byte → Prop
  | [] => True
  | byte :: rest => memory addr = some byte ∧ Holds memory (addr + 1) rest

instance instDecidableHolds (memory : PartialMemory) :
    (addr : Addr) → (bytes : List Byte) → Decidable (Holds memory addr bytes)
  | _, [] => inferInstanceAs (Decidable True)
  | addr, _ :: rest =>
      have := instDecidableHolds memory (addr + 1) rest
      inferInstanceAs (Decidable (_ ∧ _))

section Holds

variable {memory : PartialMemory} {addr : Addr} {bytes rest : List Byte}

theorem readBytes_eq (holds : Holds memory addr bytes) :
    readBytes memory addr bytes.length = some bytes := by
  induction bytes generalizing addr with
  | nil => rfl
  | cons byte rest inductionHypothesis =>
      rw [List.length_cons, readBytes, holds.1, inductionHypothesis holds.2]
      rfl

theorem readBytes_holds {size : Nat} (read : readBytes memory addr size = some bytes) :
    bytes.length = size ∧ Holds memory addr bytes := by
  induction size generalizing addr bytes with
  | zero =>
      obtain rfl := Option.some.inj read
      exact ⟨rfl, trivial⟩
  | succ size inductionHypothesis =>
      simp only [readBytes, Option.bind_eq_bind, Option.bind_eq_some_iff] at read
      obtain ⟨byte, here, rest, later, whole⟩ := read
      obtain rfl := Option.some.inj whole
      obtain ⟨length, holds⟩ := inductionHypothesis later
      exact ⟨by rw [List.length_cons, length], here, holds⟩

theorem holds_append :
    Holds memory addr (bytes ++ rest) ↔
      Holds memory addr bytes ∧ Holds memory (addr + BitVec.ofNat 64 bytes.length) rest := by
  induction bytes generalizing addr with
  | nil => simp [Holds]
  | cons byte bytes inductionHypothesis =>
      simp only [List.cons_append, Holds, inductionHypothesis, List.length_cons, add_ofNat_succ,
        and_assoc]

/-- A part of the bytes. -/
theorem Holds.slice (holds : Holds memory addr bytes) {offset size : Nat}
    (inside : offset ≤ bytes.length) :
    Holds memory (addr + BitVec.ofNat 64 offset) ((bytes.drop offset).take size) := by
  rw [← List.take_append_drop offset bytes, holds_append, List.length_take_of_le inside] at holds
  have later := holds.2
  rw [← List.take_append_drop size (bytes.drop offset), holds_append] at later
  exact later.1

end Holds

/-- Only `bytes` can be read, from `base` on. -/
def mapped (base : Addr) (bytes : List Byte) : PartialMemory :=
  fun addr => bytes[(addr - base).toNat]?

section Mapped

variable {base : Addr} {bytes found : List Byte} {offset : Nat}

theorem mapped_offset (small : offset < 2 ^ 64) :
    mapped base bytes (base + BitVec.ofNat 64 offset) = bytes[offset]? := by
  have distance : (base + BitVec.ofNat 64 offset - base).toNat = offset := by
    rw [BitVec.add_comm, BitVec.add_sub_cancel, BitVec.toNat_ofNat, Nat.mod_eq_of_lt small]
  rw [mapped, distance]

/-- What is stored at an offset starts the bytes left there. -/
theorem holds_mapped (fits : bytes.length < 2 ^ 64) (small : offset < 2 ^ 64) :
    Holds (mapped base bytes) (base + BitVec.ofNat 64 offset) found ↔
      found <+: bytes.drop offset := by
  induction found generalizing offset with
  | nil => simp [Holds]
  | cons byte rest inductionHypothesis =>
      have next : base + BitVec.ofNat 64 offset + 1 = base + BitVec.ofNat 64 (offset + 1) := by
        rw [BitVec.ofNat_add, BitVec.add_assoc]
        rfl
      rw [Holds, mapped_offset small, next]
      by_cases inside : offset < bytes.length
      · rw [inductionHypothesis (by omega), List.drop_eq_getElem_cons inside,
          List.cons_prefix_cons, List.getElem?_eq_getElem inside, Option.some_inj, eq_comm]
      · rw [List.getElem?_eq_none (Nat.le_of_not_lt inside),
          List.drop_of_length_le (Nat.le_of_not_lt inside)]
        simp

theorem mapped_holds (base : Addr) (fits : bytes.length < 2 ^ 64) :
    Holds (mapped base bytes) base bytes := by
  have whole : Holds (mapped base bytes) (base + BitVec.ofNat 64 0) bytes :=
    (holds_mapped fits (by decide)).mpr (List.prefix_refl bytes)
  rwa [show base + BitVec.ofNat 64 0 = base from BitVec.add_zero base] at whole

end Mapped

/-- The number in the `size` bytes behind the first `offset`. -/
def leNatAt (bytes : List Byte) (offset size : Nat) : Nat := leNat ((bytes.drop offset).take size)

theorem leNatAt_lt (bytes : List Byte) (offset size : Nat) :
    leNatAt bytes offset size < 256 ^ size :=
  (leNat_lt _).trans_le (Nat.pow_le_pow_right (by decide) (List.length_take_le _ _))

/-- Numbers in the first bytes are kept. -/
theorem leNatAt_take {bytes : List Byte} {offset size limit : Nat}
    (inside : offset + size ≤ limit) :
    leNatAt (bytes.take limit) offset size = leNatAt bytes offset size := by
  rw [leNatAt, leNatAt, List.drop_take, List.take_take, Nat.min_eq_left (by omega)]

/-- The bytes of an array of numbers of `size` bytes. -/
def arrayBytes (size : Nat) (values : List Nat) : List Byte := values.flatMap (leBytes size)

theorem arrayBytes_cons (size first : Nat) (values : List Nat) :
    arrayBytes size (first :: values) = leBytes size first ++ arrayBytes size values :=
  List.flatMap_cons

theorem arrayBytes_length (size : Nat) (values : List Nat) :
    (arrayBytes size values).length = size * values.length := by
  induction values with
  | nil => rfl
  | cons first values inductionHypothesis =>
      rw [arrayBytes_cons, List.length_append, leBytes_length, inductionHypothesis,
        List.length_cons]
      ring

/-- An element of an array. -/
theorem leNatAt_arrayBytes {size index value : Nat} {values : List Nat}
    (found : values[index]? = some value) (fits : value < 256 ^ size) :
    leNatAt (arrayBytes size values) (size * index) size = value := by
  induction values generalizing index with
  | nil => simp at found
  | cons first values inductionHypothesis =>
      cases index with
      | zero =>
          obtain rfl := Option.some.inj found
          rw [leNatAt, arrayBytes_cons, Nat.mul_zero, List.drop_zero,
            List.take_left' (leBytes_length size first), leNat_leBytes fits]
      | succ index =>
          have later : values[index]? = some value := by simpa using found
          have length : (leBytes size first).length = size := leBytes_length size first
          have next : size * (index + 1) = (leBytes size first).length + size * index := by
            rw [length]
            ring
          rw [leNatAt, arrayBytes_cons, next, List.drop_length_add_append]
          exact inductionHypothesis later

end LittleEndian
