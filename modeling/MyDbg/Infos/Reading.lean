import MyDbg.Exceptions.Basic
import MyDbg.Lib.Evaluation
import MyDbg.Lib.LittleEndian

/-!
Contract: code that reads memory and writes none.

Owns: the `Reading` programs, which keep a record of what they read, and how
they run in a program with a state of its own; strings;
loads from the debugger's own memory; `read_memory` and `read_mem_string` on
the memory of a stopped tracee.

Does not own: which bytes are where. Opening `/proc/<pid>/mem` and allocating
the buffers succeed here.
-/

namespace MyDbg.Infos

open LittleEndian ProgramLogic

/-- Bytes asked for from memory. -/
structure Access where
  addr : Addr
  size : Nat
deriving DecidableEq

/-- The state is the accesses so far, newest first; nothing reads it. -/
abbrev Reading := Program MyException (List Access)

/-- The bytes in front of the terminating NUL. -/
abbrev CString := { bytes : List Byte // 0 ∉ bytes }

theorem noNul_nil : (0 : Byte) ∉ ([] : List Byte) := List.not_mem_nil

theorem noNul_a : (0 : Byte) ∉ [97] := by decide

/-- The name a. -/
def nameA : CString := ⟨[97], noNul_a⟩

def CString.push (string : CString) (byte : Byte) (nonzero : byte ≠ 0) : CString :=
  ⟨string.1 ++ [byte], by
    rw [List.mem_append, List.mem_singleton]
    rintro (early | last)
    · exact string.2 early
    · exact nonzero last.symm⟩

def access (addr : Addr) (size : Nat) : Reading Unit :=
  Program.modify fun accesses => ⟨addr, size⟩ :: accesses

section Memory

variable (memory : PartialMemory)

/-- A number of `size` bytes behind a pointer of the debugger's own. -/
def load (addr : Addr) (size : Nat) : Reading Nat := do
  access addr size
  match readBytes memory addr size with
  | some bytes => return leNat bytes
  | none => Program.fault

/-- `read_memory`, with the access on record. -/
def readMemory (addr : Addr) (size : Nat) : Reading (List Byte) := do
  access addr size
  match readBytes memory addr size with
  | some bytes => return bytes
  | none => Program.throw .memoryException

/-- The loop of `read_mem_string`. Where a `pread` fails after the first, the
buffer is freed and another one, with anything in it, is returned. -/
def readMemStringFrom : Nat → Addr → CString → Reading CString
  | 0, _, _ => Program.noReturn
  | fuel + 1, addr, buf => do
      access addr 1
      match memory addr with
      | some c =>
          if zero : c = 0 then
            return buf
          else
            readMemStringFrom fuel (addr + 1) (buf.push c zero)
      | none => if buf.1 = [] then return buf else Program.fault

def readMemString (fuel : Nat) (addr : Addr) : Reading CString :=
  readMemStringFrom memory fuel addr ⟨[], List.not_mem_nil⟩

end Memory

/-- `array[index]`, in an array of numbers of `size` bytes that was read before. -/
def element (size : Nat) (array : List Byte) (index : Nat) : Reading Nat :=
  if size * (index + 1) ≤ array.length then return leNatAt array (size * index) size
  else Program.fault

/-- `/` and `%` by zero trap. -/
def checkDivisor (divisor : Nat) : Reading Unit :=
  if divisor = 0 then Program.fault else return ()

/-- The same code in a program with a state of its own. -/
def reading {σ α : Type} (program : Reading α) : Program MyException σ α := fun state =>
  match program [] with
  | .ok value _ => .ok value state
  | .throw ex _ => .throw ex state
  | .fault _ => .fault state
  | .noReturn _ => .noReturn state

/-! ## What they return -/

section Returns

variable {memory : PartialMemory} {addr : Addr} {bytes : List Byte} {size : Nat}

theorem reading_ok {σ α : Type} {program : Reading α} {value : α} (returns : Returns program value)
    (state : σ) : reading program state = .ok value state := by
  obtain ⟨accesses, ends⟩ := returns []
  unfold reading
  rw [ends]

theorem load_returns (holds : Holds memory addr bytes) (length : bytes.length = size) :
    Returns (load memory addr size) (leNat bytes) := by
  subst length
  refine Returns.bind (.modify _) ?_
  rw [readBytes_eq holds]
  exact .pure _

theorem load_byte {byte : Byte} (stored : memory addr = some byte) :
    Returns (load memory addr 1) byte.toNat := by
  have holds : Holds memory addr [byte] := ⟨stored, trivial⟩
  have returns := load_returns holds rfl
  rwa [leNat_cons, leNat_nil, Nat.mul_zero, Nat.add_zero] at returns

theorem load_number {value : Nat} (holds : Holds memory addr (leBytes size value))
    (fits : value < 256 ^ size) : Returns (load memory addr size) value := by
  have returns := load_returns holds (leBytes_length size value)
  rwa [leNat_leBytes fits] at returns

/-- A number in the middle of stored bytes. -/
theorem load_part (holds : Holds memory addr bytes) {offset : Nat}
    (inside : offset + size ≤ bytes.length) :
    Returns (load memory (addr + BitVec.ofNat 64 offset) size) (leNatAt bytes offset size) := by
  apply load_returns (holds.slice (by omega))
  rw [List.length_take, List.length_drop]
  omega

theorem readMemory_returns (holds : Holds memory addr bytes) (length : bytes.length = size) :
    Returns (readMemory memory addr size) bytes := by
  subst length
  refine Returns.bind (.modify _) ?_
  rw [readBytes_eq holds]
  exact .pure _

theorem element_returns {index : Nat} {array : List Byte}
    (inside : size * (index + 1) ≤ array.length) :
    Returns (element size array index) (leNatAt array (size * index) size) := by
  rw [element, if_pos inside]
  exact .pure _

/-- A number of an array that was read from memory. -/
theorem element_arrayBytes {index value : Nat} {values : List Nat}
    (found : values[index]? = some value) (fits : value < 256 ^ size) :
    Returns (element size (arrayBytes size values) index) value := by
  obtain ⟨inside, _⟩ := List.getElem?_eq_some_iff.mp found
  have room : size * (index + 1) ≤ (arrayBytes size values).length := by
    rw [arrayBytes_length]
    exact Nat.mul_le_mul_left size inside
  have returns := element_returns room
  rwa [leNatAt_arrayBytes found fits] at returns

theorem checkDivisor_returns {divisor : Nat} (positive : 0 < divisor) :
    Returns (checkDivisor divisor) () := by
  rw [checkDivisor, if_neg (by omega)]
  exact .pure ()

end Returns

/-! ## What is known of a load -/

section Ensures

variable {memory : PartialMemory} {addr : Addr} {size : Nat} {raised : MyException → Prop}

theorem load_ensures :
    Ensures (load memory addr size)
      (fun value => ∃ bytes, bytes.length = size ∧ Holds memory addr bytes ∧ value = leNat bytes)
      raised := by
  apply Ensures.bind (.modify _)
  intro _ _
  cases read : readBytes memory addr size with
  | none => exact .fault
  | some bytes =>
      obtain ⟨length, holds⟩ := readBytes_holds read
      exact .pure ⟨bytes, length, holds, rfl⟩

theorem load_byte_ensures :
    Ensures (load memory addr 1)
      (fun value => ∃ byte, memory addr = some byte ∧ value = byte.toNat) raised := by
  apply load_ensures.mono
  intro value loaded
  obtain ⟨bytes, length, holds, rfl⟩ := loaded
  obtain ⟨byte, rfl⟩ := List.length_eq_one_iff.mp length
  exact ⟨byte, holds.1, by simp⟩

/-- A number that was loaded from a mapping is in it. -/
theorem load_mapped_ensures {base : Addr} {bytes : List Byte} (fits : bytes.length < 2 ^ 64)
    {offset : Nat} (small : offset < 2 ^ 64) (positive : 0 < size) :
    Ensures (load (mapped base bytes) (base + BitVec.ofNat 64 offset) size)
      (fun value => offset + size ≤ bytes.length ∧ value = leNatAt bytes offset size) raised := by
  apply load_ensures.mono
  intro value loaded
  obtain ⟨found, length, holds, rfl⟩ := loaded
  rw [holds_mapped fits small] at holds
  have room := holds.length_le
  rw [List.length_drop] at room
  refine ⟨by omega, ?_⟩
  rw [leNatAt, ← length, ← List.prefix_iff_eq_take.mp holds]

theorem checkDivisor_ensures {divisor : Nat} :
    Ensures (checkDivisor divisor) (fun _ => 0 < divisor) raised :=
  .ite (fun _ => .fault) fun nonzero => .pure (Nat.pos_of_ne_zero nonzero)

end Ensures

/-! ## What they read -/

section Within

variable {memory : PartialMemory} {addr : Addr} {bytes : List Byte} {size : Nat}
  {allowed : Access → Prop}

theorem readMemory_within (holds : Holds memory addr bytes) (length : bytes.length = size)
    (permitted : allowed ⟨addr, size⟩) :
    YieldsWithin allowed (fun _ => readMemory memory addr size) bytes := by
  subst length
  apply YieldsWithin.bind (.log permitted)
  simp only [readBytes_eq holds]
  exact .pure _

/-- The bytes of a string are read one by one, with the NUL. -/
theorem readMemStringFrom_within {string : List Byte} (terminated : 0 ∉ string)
    (holds : Holds memory addr (string ++ [0])) (buf : CString) (whole : 0 ∉ buf.1 ++ string)
    (permitted : ∀ k ≤ string.length, allowed ⟨addr + BitVec.ofNat 64 k, 1⟩) :
    YieldsWithin allowed (fun fuel => readMemStringFrom memory fuel addr buf)
      ⟨buf.1 ++ string, whole⟩ := by
  have first : allowed ⟨addr, 1⟩ := by
    have here := permitted 0 (by simp)
    rwa [BitVec.add_zero] at here
  induction string generalizing addr buf with
  | nil =>
      apply YieldsWithin.succ fun fuel => rfl
      apply YieldsWithin.bind (.log first)
      rw [holds.1]
      simp only [List.append_nil]
      exact .pure _
  | cons c string inductionHypothesis =>
      have nonzero : c ≠ 0 := fun zero => terminated (by simp [zero])
      have later : 0 ∉ string := fun member => terminated (List.mem_cons_of_mem c member)
      have together : buf.1 ++ c :: string = (buf.push c nonzero).1 ++ string := by
        simp [CString.push]
      have behind : ∀ k ≤ string.length, allowed ⟨addr + 1 + BitVec.ofNat 64 k, 1⟩ := by
        intro k inside
        rw [← add_ofNat_succ]
        exact permitted (k + 1) (by simpa using inside)
      have next : allowed ⟨addr + 1, 1⟩ := by
        have there := behind 0 (by simp)
        rwa [BitVec.add_zero] at there
      apply YieldsWithin.succ fun fuel => rfl
      apply YieldsWithin.bind (.log first)
      rw [holds.1]
      simp only [dif_neg nonzero, together]
      exact inductionHypothesis later holds.2 (buf.push c nonzero) (together ▸ whole) behind next

theorem readMemString_within {string : CString} (holds : Holds memory addr (string.1 ++ [0]))
    (permitted : ∀ k ≤ string.1.length, allowed ⟨addr + BitVec.ofNat 64 k, 1⟩) :
    YieldsWithin allowed (fun fuel => readMemString memory fuel addr) string :=
  readMemStringFrom_within string.2 holds ⟨[], List.not_mem_nil⟩ string.2 permitted

theorem readMemString_yields {string : CString} (holds : Holds memory addr (string.1 ++ [0])) :
    Yields (fun fuel => readMemString memory fuel addr) string :=
  have within : YieldsWithin (fun _ => True) _ _ := readMemString_within holds fun _ _ => trivial
  within.yields

theorem element_silent (size : Nat) (array : List Byte) (index : Nat) :
    Silent (element size array index) :=
  .ite (.pure _) .fault

theorem checkDivisor_silent (divisor : Nat) : Silent (checkDivisor divisor) :=
  .ite .fault (.pure _)

end Within

end MyDbg.Infos
