import MyDbg.Lib.LittleEndian

/-!
Contract: the line number information of the DWARF standard, section 6.2.

Owns: the registers, the instructions of a line number program with their
encoding, the rows a program appends to the matrix, and the encoding of the
tables behind a header. Lines are numbers modulo `2 ^ 32` and addresses, with
what is added up to advance them, modulo `2 ^ 64`; the other registers have 32
bits.

Does not own: the value of a LEB128 operand, which is a parameter;
`DW_LNE_define_file` and vendor extensions.
-/

namespace LineNumbers

open LittleEndian

/-- The bytes of a LEB128 number: the high bit is set on all but the last. -/
def IsLeb128 : List Byte → Prop
  | [] => False
  | [last] => last.toNat < 0x80
  | byte :: next :: rest => 0x80 ≤ byte.toNat ∧ IsLeb128 (next :: rest)

instance instDecidableIsLeb128 : (bytes : List Byte) → Decidable (IsLeb128 bytes)
  | [] => inferInstanceAs (Decidable False)
  | [last] => inferInstanceAs (Decidable (last.toNat < 0x80))
  | byte :: next :: rest =>
      have := instDecidableIsLeb128 (next :: rest)
      inferInstanceAs (Decidable (0x80 ≤ byte.toNat ∧ _))

theorem IsLeb128.cons {byte : Byte} {rest : List Byte} (more : 0x80 ≤ byte.toNat)
    (encoding : IsLeb128 rest) : IsLeb128 (byte :: rest) := by
  cases rest with
  | nil => exact encoding.elim
  | cons next rest => exact ⟨more, encoding⟩

abbrev Leb128 := { bytes : List Byte // IsLeb128 bytes }

/-- The fields of a header that the registers depend on. -/
structure Header where
  minimumInstructionLength : Nat
  maximumOperationsPerInstruction : Nat
  defaultIsStmt : Bool
  lineBase : Int
  lineRange : Nat
  opcodeBase : Nat

structure LineRegisters where
  address : Nat
  opIndex : Nat
  file : Nat
  line : Nat
  column : Nat
  isStmt : Bool
  basicBlock : Bool
  endSequence : Bool
  prologueEnd : Bool
  epilogueBegin : Bool
  isa : Nat
  discriminator : Nat
deriving DecidableEq

/-- The instructions; the first operand of an extended one is its length. -/
inductive LineInstruction where
  | special (opcode : Byte)
  | copy
  | advancePc (operationAdvance : Leb128)
  | advanceLine (delta : Leb128)
  | setFile (file : Leb128)
  | setColumn (column : Leb128)
  | negateStmt
  | setBasicBlock
  | constAddPc
  | fixedAdvancePc (delta : BitVec 16)
  | setPrologueEnd
  | setEpilogueBegin
  | setIsa (isa : Leb128)
  | endSequence (length : Leb128)
  | setAddress (length : Leb128) (address : Addr)
  | setDiscriminator (length discriminator : Leb128)

namespace LineInstruction

/-- The opcode of a standard instruction. -/
def standard : LineInstruction → Option Nat
  | copy => some 1
  | advancePc _ => some 2
  | advanceLine _ => some 3
  | setFile _ => some 4
  | setColumn _ => some 5
  | negateStmt => some 6
  | setBasicBlock => some 7
  | constAddPc => some 8
  | fixedAdvancePc _ => some 9
  | setPrologueEnd => some 10
  | setEpilogueBegin => some 11
  | setIsa _ => some 12
  | _ => none

/-- Standard opcodes are below `opcode_base` and special ones are not. -/
def Supported (header : Header) : LineInstruction → Prop
  | special opcode => header.opcodeBase ≤ opcode.toNat
  | instruction => ∀ opcode, instruction.standard = some opcode → opcode < header.opcodeBase

def encode : LineInstruction → List Byte
  | special opcode => [opcode]
  | copy => [1]
  | advancePc operationAdvance => 2 :: operationAdvance.1
  | advanceLine delta => 3 :: delta.1
  | setFile file => 4 :: file.1
  | setColumn column => 5 :: column.1
  | negateStmt => [6]
  | setBasicBlock => [7]
  | constAddPc => [8]
  | fixedAdvancePc delta => 9 :: leBytes 2 delta.toNat
  | setPrologueEnd => [10]
  | setEpilogueBegin => [11]
  | setIsa isa => 12 :: isa.1
  | endSequence length => 0 :: (length.1 ++ [1])
  | setAddress length address => 0 :: (length.1 ++ 2 :: leBytes 8 address.toNat)
  | setDiscriminator length discriminator => 0 :: (length.1 ++ 4 :: discriminator.1)

theorem encode_length (instruction : LineInstruction) : 0 < instruction.encode.length := by
  cases instruction <;> exact Nat.succ_pos _

/-- A standard instruction starts with its opcode. -/
theorem encode_standard {instruction : LineInstruction} {opcode : Nat}
    (standard : instruction.standard = some opcode) :
    instruction.encode = BitVec.ofNat 8 opcode :: instruction.encode.tail := by
  cases instruction with
  | special opcode => cases standard
  | endSequence length => cases standard
  | setAddress length address => cases standard
  | setDiscriminator length discriminator => cases standard
  | _ => cases standard; rfl

/-- Nothing is divided by zero, and a special opcode is not that of the extended ones. -/
def Defined (header : Header) : LineInstruction → Prop
  | special opcode =>
      0 < opcode.toNat ∧ 0 < header.lineRange ∧ 0 < header.maximumOperationsPerInstruction
  | constAddPc => 0 < header.lineRange ∧ 0 < header.maximumOperationsPerInstruction
  | advancePc _ => 0 < header.maximumOperationsPerInstruction
  | _ => True

structure Executable (header : Header) (instruction : LineInstruction) : Prop where
  supported : instruction.Supported header
  defined : instruction.Defined header

end LineInstruction

/-- The first bytes of what is no instruction: an opcode between the standard and the
special ones, or an extended one that is not among the instructions. -/
inductive Unknown (header : Header) : List Byte → Prop
  | standard (opcode : Byte) (behind : 12 < opcode.toNat)
      (below : opcode.toNat < header.opcodeBase) : Unknown header [opcode]
  | extended (length : Leb128) (opcode : Byte) (other : opcode.toNat ∉ [1, 2, 4]) :
      Unknown header (0 :: (length.1 ++ [opcode]))

def encode (program : List LineInstruction) : List Byte := program.flatMap LineInstruction.encode

theorem encode_cons (instruction : LineInstruction) (program : List LineInstruction) :
    encode (instruction :: program) = instruction.encode ++ encode program :=
  List.flatMap_cons

theorem encode_cons_length (instruction : LineInstruction) (program : List LineInstruction) :
    (encode (instruction :: program)).length =
      instruction.encode.length + (encode program).length := by
  rw [encode_cons, List.length_append]

/-! ## The registers -/

namespace LineRegisters

/-- The registers at the start of each sequence. -/
def initial (header : Header) : LineRegisters where
  address := 0
  opIndex := 0
  file := 1
  line := 1
  column := 0
  isStmt := header.defaultIsStmt
  basicBlock := false
  endSequence := false
  prologueEnd := false
  epilogueBegin := false
  isa := 0
  discriminator := 0

def advance (header : Header) (operationAdvance : Nat) (registers : LineRegisters) :
    LineRegisters :=
  let operations := (registers.opIndex + operationAdvance) % 2 ^ 64
  { registers with
    address := (registers.address + header.minimumInstructionLength *
      (operations / header.maximumOperationsPerInstruction)) % 2 ^ 64
    opIndex := operations % header.maximumOperationsPerInstruction }

def addLine (delta : Int) (registers : LineRegisters) : LineRegisters :=
  { registers with line := ((registers.line + delta) % 2 ^ 32).toNat }

/-- What a row leaves behind. -/
def afterRow (registers : LineRegisters) : LineRegisters :=
  { registers with
    discriminator := 0
    basicBlock := false
    prologueEnd := false
    epilogueBegin := false }

end LineRegisters

/-- The registers and the rows appended so far. -/
structure LineMatrix where
  registers : LineRegisters
  rows : List LineRegisters
deriving DecidableEq

namespace LineMatrix

def append (matrix : LineMatrix) : LineMatrix :=
  { matrix with rows := matrix.rows ++ [matrix.registers] }

def update (change : LineRegisters → LineRegisters) (matrix : LineMatrix) : LineMatrix :=
  { matrix with registers := change matrix.registers }

/-- One instruction, with `value` for the operands. -/
def step (header : Header) (value : Leb128 → Nat) (matrix : LineMatrix) :
    LineInstruction → LineMatrix
  | .special opcode =>
      let adjusted := opcode.toNat - header.opcodeBase
      let moved := matrix.update fun registers =>
        (registers.addLine (header.lineBase + (adjusted % header.lineRange : Nat))).advance header
          (adjusted / header.lineRange)
      moved.append.update LineRegisters.afterRow
  | .copy => matrix.append.update LineRegisters.afterRow
  | .advancePc operationAdvance => matrix.update (·.advance header (value operationAdvance))
  | .advanceLine delta => matrix.update (·.addLine (value delta))
  | .setFile file => matrix.update fun registers => { registers with file := value file % 2 ^ 32 }
  | .setColumn column =>
      matrix.update fun registers => { registers with column := value column % 2 ^ 32 }
  | .negateStmt => matrix.update fun registers => { registers with isStmt := !registers.isStmt }
  | .setBasicBlock => matrix.update fun registers => { registers with basicBlock := true }
  | .constAddPc =>
      matrix.update (·.advance header ((255 - header.opcodeBase) / header.lineRange))
  | .fixedAdvancePc delta =>
      matrix.update fun registers =>
        { registers with address := (registers.address + delta.toNat) % 2 ^ 64, opIndex := 0 }
  | .setPrologueEnd => matrix.update fun registers => { registers with prologueEnd := true }
  | .setEpilogueBegin => matrix.update fun registers => { registers with epilogueBegin := true }
  | .setIsa isa => matrix.update fun registers => { registers with isa := value isa % 2 ^ 32 }
  | .endSequence _ =>
      let ended := matrix.update fun registers => { registers with endSequence := true }
      ended.append.update fun _ => LineRegisters.initial header
  | .setAddress _ address =>
      matrix.update fun registers => { registers with address := address.toNat, opIndex := 0 }
  | .setDiscriminator _ discriminator =>
      matrix.update fun registers =>
        { registers with discriminator := value discriminator % 2 ^ 32 }

end LineMatrix

/-- The rows of a program. -/
def rows (header : Header) (value : Leb128 → Nat) (program : List LineInstruction) :
    List LineRegisters :=
  (program.foldl (LineMatrix.step header value) ⟨LineRegisters.initial header, []⟩).rows

/-! ## The tables behind a header -/

/-- A string that is not empty, without the NUL. -/
abbrev PathName := { bytes : List Byte // bytes ≠ [] ∧ 0 ∉ bytes }

structure FileEntry where
  path : PathName
  directory : Leb128
  lastModification : Leb128
  size : Leb128

structure Tables where
  directories : List PathName
  files : List FileEntry

def encodePath (path : PathName) : List Byte := path.1 ++ [0]

def FileEntry.encode (entry : FileEntry) : List Byte :=
  encodePath entry.path ++
    (entry.directory.1 ++ (entry.lastModification.1 ++ entry.size.1))

/-- An empty string ends each table. -/
def Tables.encode (tables : Tables) : List Byte :=
  tables.directories.flatMap encodePath ++ 0 :: (tables.files.flatMap FileEntry.encode ++ [0])

end LineNumbers
