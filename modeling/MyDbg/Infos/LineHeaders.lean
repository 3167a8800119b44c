import MyDbg.Infos.DwarfStateMachine

/-!
Contract: the fields of a header in memory.

Owns: the layouts of `struct my_dw_lhdr2` and `struct my_dw_lhdr4`, whatever
the fields hold, and what `VAL` reads there.

Does not own: which values a header may have, and what is behind it.
-/

namespace MyDbg.Infos

open LittleEndian ProgramLogic

/-- The fields up to `opcode_base`. -/
structure HeaderFields where
  unitLength : BitVec 32
  version : BitVec 16
  headerLength : BitVec 32
  minimumInstructionLength : Byte
  maximumOperationsPerInstruction : Byte
  defaultIsStmt : Byte
  lineBase : Byte
  lineRange : Byte
  opcodeBase : Byte

namespace HeaderFields

variable (fields : HeaderFields)

/-- What stands behind `header_length`; the number of operations only from version 4 on. -/
def shortFields : List Byte :=
  if fields.version.toNat < 4 then
    [fields.minimumInstructionLength, fields.defaultIsStmt, fields.lineBase, fields.lineRange,
      fields.opcodeBase]
  else
    [fields.minimumInstructionLength, fields.maximumOperationsPerInstruction,
      fields.defaultIsStmt, fields.lineBase, fields.lineRange, fields.opcodeBase]

def bytes : List Byte :=
  leBytes 4 fields.unitLength.toNat ++ leBytes 2 fields.version.toNat ++
    leBytes 4 fields.headerLength.toNat ++ fields.shortFields

def operations : Nat :=
  if fields.version.toNat < 4 then 1 else fields.maximumOperationsPerInstruction.toNat

/-- The number that is encoded, without the sign of `line_base`. -/
def value : MyDwKey → Nat
  | .headerLength => fields.headerLength.toNat
  | .minimumInstructionLength => fields.minimumInstructionLength.toNat
  | .maximumOperationsPerInstruction => fields.operations
  | .defaultIsStmt => fields.defaultIsStmt.toNat
  | .lineBase => fields.lineBase.toNat
  | .lineRange => fields.lineRange.toNat
  | .opcodeBase => fields.opcodeBase.toNat

end HeaderFields

variable {memory : PartialMemory} {lhdr : Addr} {fields : HeaderFields}

theorem HeaderFields.bytes_length (fields : HeaderFields) :
    fields.bytes.length = 10 + fields.shortFields.length := by
  simp only [HeaderFields.bytes, List.length_append, leBytes_length]

/-- A number in front of the short fields. -/
theorem field_returns (stored : Holds memory lhdr fields.bytes) {offset size value : Nat}
    (inside : offset + size ≤ 10)
    (found : ((leBytes 4 fields.unitLength.toNat ++ leBytes 2 fields.version.toNat ++
      leBytes 4 fields.headerLength.toNat).drop offset).take size = leBytes size value)
    (fits : value < 256 ^ size) :
    Returns (load memory (lhdr + BitVec.ofNat 64 offset) size) value := by
  have front := (holds_append.mp stored).1
  have holds : Holds memory (lhdr + BitVec.ofNat 64 offset) (leBytes size value) := by
    rw [← found]
    apply front.slice
    simp only [List.length_append, leBytes_length]
    omega
  exact load_number holds fits

theorem version_returns (stored : Holds memory lhdr fields.bytes) :
    Returns (load memory (lhdr + BitVec.ofNat 64 4) 2) fields.version.toNat :=
  field_returns stored (by omega) rfl fields.version.isLt

/-- One of the short fields. -/
theorem byte_returns (stored : Holds memory lhdr fields.bytes) (index : Nat) {byte : Byte}
    (found : fields.shortFields[index]? = some byte) :
    Returns (load memory (lhdr + BitVec.ofNat 64 (10 + index)) 1) byte.toNat := by
  obtain ⟨inside, same⟩ := List.getElem?_eq_some_iff.mp found
  have whole : index + 10 ≤ fields.bytes.length := by
    rw [fields.bytes_length]
    omega
  have front : (leBytes 4 fields.unitLength.toNat ++ leBytes 2 fields.version.toNat ++
      leBytes 4 fields.headerLength.toNat).length = 10 := by
    simp only [List.length_append, leBytes_length]
  have split : fields.bytes.drop (10 + index) = byte :: fields.shortFields.drop (index + 1) := by
    rw [HeaderFields.bytes, ← front, List.drop_length_add_append,
      List.drop_eq_getElem_cons inside, same]
  have holds : Holds memory (lhdr + BitVec.ofNat 64 (10 + index))
      ((fields.bytes.drop (10 + index)).take 1) := stored.slice (by omega)
  rw [split] at holds
  exact load_byte holds.1

/-- `VAL` reads what the header has. -/
theorem HeaderFields.val_returns (stored : Holds memory lhdr fields.bytes) (key : MyDwKey) :
    Returns (val memory lhdr key) (fields.value key) := by
  have lengthRead : Returns (load memory (lhdr + BitVec.ofNat 64 6) 4)
      fields.headerLength.toNat :=
    field_returns stored (by omega) rfl fields.headerLength.isLt
  apply Returns.bind (version_returns stored)
  by_cases early : fields.version.toNat < 4
  · have byte := byte_returns stored
    rw [HeaderFields.shortFields, if_pos early] at byte
    rw [if_pos early]
    cases key with
    | maximumOperationsPerInstruction =>
        rw [HeaderFields.value, HeaderFields.operations, if_pos early]
        exact .pure 1
    | headerLength => exact lengthRead
    | minimumInstructionLength => exact byte 0 rfl
    | defaultIsStmt => exact byte 1 rfl
    | lineBase => exact byte 2 rfl
    | lineRange => exact byte 3 rfl
    | opcodeBase => exact byte 4 rfl
  · have byte := byte_returns stored
    rw [HeaderFields.shortFields, if_neg early] at byte
    rw [if_neg early]
    cases key with
    | maximumOperationsPerInstruction =>
        rw [HeaderFields.value, HeaderFields.operations, if_neg early]
        exact byte 1 rfl
    | headerLength => exact lengthRead
    | minimumInstructionLength => exact byte 0 rfl
    | defaultIsStmt => exact byte 2 rfl
    | lineBase => exact byte 3 rfl
    | lineRange => exact byte 4 rfl
    | opcodeBase => exact byte 5 rfl

theorem HeaderFields.unitLength_returns (stored : Holds memory lhdr fields.bytes) :
    Returns (Infos.unitLength memory lhdr) fields.unitLength := by
  have read : Returns (load memory (lhdr + BitVec.ofNat 64 0) 4) fields.unitLength.toNat :=
    field_returns stored (by omega) rfl fields.unitLength.isLt
  rw [show lhdr + BitVec.ofNat 64 0 = lhdr from BitVec.add_zero lhdr] at read
  apply Returns.bind read
  rw [BitVec.ofNat_toNat, BitVec.setWidth_eq]
  exact .pure _

end MyDbg.Infos
