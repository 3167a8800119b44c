import MyDbg.Infos.Reading

/-!
Contract: the interpreter of line number programs.

Owns: the header fields that `VAL` reads, `read_leb128`, `reset_machine` and
`run_machine` with the three kinds of instructions.

Does not own: the tables of directories and files behind a header, and what
the rows are used for.
-/

namespace MyDbg.Infos

open LittleEndian ProgramLogic

/-! ## The header -/

/-- The keys of `VAL`. -/
inductive MyDwKey where
  | headerLength
  | minimumInstructionLength
  | maximumOperationsPerInstruction
  | defaultIsStmt
  | lineBase
  | lineRange
  | opcodeBase
deriving DecidableEq

/-- The offset of a field in `struct my_dw_lhdr2`. -/
def MyDwKey.offset2 : MyDwKey → Nat
  | headerLength => 0
  | minimumInstructionLength => 4
  | defaultIsStmt => 5
  | lineBase => 6
  | lineRange => 7
  | opcodeBase => 8
  | maximumOperationsPerInstruction => 9

/-- The offset of a field in `struct my_dw_lhdr4`. -/
def MyDwKey.offset4 : MyDwKey → Nat
  | headerLength => 0
  | minimumInstructionLength => 4
  | maximumOperationsPerInstruction => 5
  | defaultIsStmt => 6
  | lineBase => 7
  | lineRange => 8
  | opcodeBase => 9

def MyDwKey.size : MyDwKey → Nat
  | headerLength => 4
  | _ => 1

def sizeofMyDwLhdr : Nat := 6

/-- `struct my_dw_sm`. -/
structure MyDwSm where
  address : Addr
  opIndex : BitVec 32
  file : BitVec 32
  line : BitVec 32
  column : BitVec 32
  isStmt : Bool
  basicBlock : Bool
  endSequence : Bool
  prologueEnd : Bool
  epilogueBegin : Bool
  isa : BitVec 32
  discriminator : BitVec 32
deriving DecidableEq

section Machine

-- `lhdr` is `lconf->lhdr`, the only field of `lconf` in use here.
variable (memory : PartialMemory) (lhdr : Addr)

def unitLength : Reading (BitVec 32) := do
  let unitLength ← load memory lhdr 4
  return BitVec.ofNat 32 unitLength

/-- `VAL(key)`, without the sign of `line_base`. -/
def val (key : MyDwKey) : Reading Nat := do
  let version ← load memory (lhdr + 4) 2
  if version < 4 then
    if key = .maximumOperationsPerInstruction then
      return 1
    else
      load memory (lhdr + BitVec.ofNat 64 (sizeofMyDwLhdr + key.offset2)) key.size
  else
    load memory (lhdr + BitVec.ofNat 64 (sizeofMyDwLhdr + key.offset4)) key.size

/-! ## Operands -/

/-- `((byte << 1) >> 1) << shift`, in `int`, converted to `uint64_t`. The
processor takes the count of a shift modulo 32. -/
def leb128Part (byte : Byte) (shift : Nat) : Word :=
  (((byte.setWidth 32 <<< 1).sshiftRight 1 <<< (shift % 32) : BitVec 32)).signExtend 64

def readLeb128From : Nat → Nat → Word → Addr → Reading (Word × Addr)
  | 0, _, _, _ => Program.noReturn
  | fuel + 1, shift, result, ptr => do
      let loaded ← load memory ptr 1
      let byte : Byte := BitVec.ofNat 8 loaded
      let result := result ||| leb128Part byte shift
      if byte >>> 7 = 0 then
        return (result, ptr + 1)
      else
        readLeb128From fuel (shift + 7) result (ptr + 1)

/-- `read_leb128`, with the advanced pointer. -/
def readLeb128 (fuel : Nat) (ptr : Addr) : Reading (Word × Addr) :=
  readLeb128From memory fuel 0 0 ptr

/-! ## Instructions -/

/-- What the instructions are passed pointers to. -/
structure LineRun where
  sm : MyDwSm
  states : List MyDwSm
  ptr : Addr

def cloneState (run : LineRun) : LineRun :=
  { run with states := run.states ++ [run.sm] }

def resetMachine : Reading MyDwSm := do
  let defaultIsStmt ← val memory lhdr .defaultIsStmt
  return {
    address := 0
    opIndex := 0
    file := 1
    line := 1
    column := 0
    isStmt := defaultIsStmt != 0
    basicBlock := false
    endSequence := false
    prologueEnd := false
    epilogueBegin := false
    isa := 0
    discriminator := 0 }

def initMachine : Reading MyDwSm := resetMachine memory lhdr

def advanceAddrAndOpIndex (sm : MyDwSm) (opAdv : Word) : Reading MyDwSm := do
  let minimumInstructionLength ← val memory lhdr .minimumInstructionLength
  let maximumOperations ← val memory lhdr .maximumOperationsPerInstruction
  checkDivisor maximumOperations
  let operations := sm.opIndex.setWidth 64 + opAdv
  return { sm with
    address := sm.address + BitVec.ofNat 64 minimumInstructionLength *
      (operations / BitVec.ofNat 64 maximumOperations)
    opIndex := (operations % BitVec.ofNat 64 maximumOperations).setWidth 32 }

@[match_pattern] def dwLneEndSequence : Nat := 0x01

@[match_pattern] def dwLneSetAddress : Nat := 0x02

@[match_pattern] def dwLneSetDiscriminator : Nat := 0x04

/-- `DW_LNE_define_file` and all opcodes not named are rejected. -/
def extendedOpcode (fuel : Nat) (run : LineRun) (opcode : Nat) : Reading LineRun :=
  match opcode with
  | dwLneEndSequence => do
      let ended := cloneState { run with sm := { run.sm with endSequence := true } }
      let sm ← resetMachine memory lhdr
      return { ended with sm }
  | dwLneSetAddress => do
      let address ← load memory run.ptr 8
      return { run with
        sm := { run.sm with address := BitVec.ofNat 64 address, opIndex := 0 }
        ptr := run.ptr + 8 }
  | dwLneSetDiscriminator => do
      let (discriminator, ptr) ← readLeb128 memory fuel run.ptr
      return { run with sm := { run.sm with discriminator := discriminator.setWidth 32 }, ptr }
  | _ => Program.throw .dwarfException

def extendedInstruction (fuel : Nat) (run : LineRun) : Reading LineRun := do
  let (_, ptr) ← readLeb128 memory fuel (run.ptr + 1)
  let opcode ← load memory ptr 1
  extendedOpcode memory lhdr fuel { run with ptr := ptr + 1 } opcode

@[match_pattern] def dwLnsCopy : Nat := 0x01

@[match_pattern] def dwLnsAdvancePc : Nat := 0x02

@[match_pattern] def dwLnsAdvanceLine : Nat := 0x03

@[match_pattern] def dwLnsSetFile : Nat := 0x04

@[match_pattern] def dwLnsSetColumn : Nat := 0x05

@[match_pattern] def dwLnsNegateStmt : Nat := 0x06

@[match_pattern] def dwLnsSetBasicBlock : Nat := 0x07

@[match_pattern] def dwLnsConstAddPc : Nat := 0x08

@[match_pattern] def dwLnsFixedAdvancePc : Nat := 0x09

@[match_pattern] def dwLnsSetPrologueEnd : Nat := 0x0a

@[match_pattern] def dwLnsSetEpilogueBegin : Nat := 0x0b

@[match_pattern] def dwLnsSetIsa : Nat := 0x0c

def standardOpcode (fuel : Nat) (run : LineRun) (opcode : Nat) : Reading LineRun :=
  match opcode with
  | dwLnsCopy =>
      let copied := cloneState run
      return { copied with
        sm := { run.sm with
          discriminator := 0
          basicBlock := false
          prologueEnd := false
          epilogueBegin := false } }
  | dwLnsAdvancePc => do
      let (opAdv, ptr) ← readLeb128 memory fuel run.ptr
      let sm ← advanceAddrAndOpIndex memory lhdr run.sm opAdv
      return { run with sm, ptr }
  | dwLnsAdvanceLine => do
      let (delta, ptr) ← readLeb128 memory fuel run.ptr
      return { run with sm := { run.sm with line := run.sm.line + delta.setWidth 32 }, ptr }
  | dwLnsSetFile => do
      let (file, ptr) ← readLeb128 memory fuel run.ptr
      return { run with sm := { run.sm with file := file.setWidth 32 }, ptr }
  | dwLnsSetColumn => do
      let (column, ptr) ← readLeb128 memory fuel run.ptr
      return { run with sm := { run.sm with column := column.setWidth 32 }, ptr }
  | dwLnsNegateStmt => return { run with sm := { run.sm with isStmt := !run.sm.isStmt } }
  | dwLnsSetBasicBlock => return { run with sm := { run.sm with basicBlock := true } }
  | dwLnsConstAddPc => do
      let opcodeBase ← val memory lhdr .opcodeBase
      let lineRange ← val memory lhdr .lineRange
      checkDivisor lineRange
      let sm ← advanceAddrAndOpIndex memory lhdr run.sm
        (BitVec.ofNat 64 ((255 - opcodeBase) / lineRange))
      return { run with sm }
  | dwLnsFixedAdvancePc => do
      let delta ← load memory run.ptr 2
      return { run with
        sm := { run.sm with address := run.sm.address + BitVec.ofNat 64 delta, opIndex := 0 }
        ptr := run.ptr + 2 }
  | dwLnsSetPrologueEnd => return { run with sm := { run.sm with prologueEnd := true } }
  | dwLnsSetEpilogueBegin => return { run with sm := { run.sm with epilogueBegin := true } }
  | dwLnsSetIsa => do
      let (isa, ptr) ← readLeb128 memory fuel run.ptr
      return { run with sm := { run.sm with isa := isa.setWidth 32 }, ptr }
  | _ => Program.throw .dwarfException

def standardInstruction (fuel : Nat) (run : LineRun) : Reading LineRun := do
  let opcode ← load memory run.ptr 1
  standardOpcode memory lhdr fuel { run with ptr := run.ptr + 1 } opcode

def specialInstruction (run : LineRun) (opcode : Byte) : Reading LineRun := do
  let opcodeBase ← val memory lhdr .opcodeBase
  let adjOpcode : Byte := opcode - BitVec.ofNat 8 opcodeBase
  let lineRange ← val memory lhdr .lineRange
  checkDivisor lineRange
  let opAdv : Byte := BitVec.ofNat 8 (adjOpcode.toNat / lineRange)
  let lineBase ← val memory lhdr .lineBase
  let delta : Int := (BitVec.ofNat 8 lineBase).toInt + (adjOpcode.toNat % lineRange : Nat)
  let sm := { run.sm with line := run.sm.line + BitVec.ofInt 32 delta }
  let sm ← advanceAddrAndOpIndex memory lhdr sm (opAdv.setWidth 64)
  let appended := cloneState { run with sm }
  return { appended with
    sm := { sm with
      basicBlock := false
      prologueEnd := false
      epilogueBegin := false
      discriminator := 0 } }

/-- The body of the loop. -/
def runInstruction (fuel : Nat) (run : LineRun) : Reading LineRun := do
  let opcode ← load memory run.ptr 1
  if opcode = 0 then
    extendedInstruction memory lhdr fuel run
  else do
    let opcodeBase ← val memory lhdr .opcodeBase
    if opcode < opcodeBase then
      standardInstruction memory lhdr fuel run
    else
      specialInstruction memory lhdr { run with ptr := run.ptr + 1 } (BitVec.ofNat 8 opcode)

def runFrom (size : Word) : Nat → Word → LineRun → Reading LineRun
  | 0, _, _ => Program.noReturn
  | fuel + 1, i, run =>
      if i < size then do
        let next ← runInstruction memory lhdr fuel run
        runFrom size fuel (i + (next.ptr - run.ptr)) next
      else
        return run

/-- `run_machine`, without the NULL behind the rows. -/
def runMachine (fuel : Nat) (sm : MyDwSm) : Reading (List MyDwSm) := do
  let headerLength ← val memory lhdr .headerLength
  let unitLength ← unitLength memory lhdr
  let ptr := lhdr + BitVec.ofNat 64 (sizeofMyDwLhdr + 4 + headerLength)
  let size : BitVec 32 := unitLength - BitVec.ofNat 32 headerLength - 6
  let run ← runFrom memory lhdr (size.setWidth 64) fuel 0 { sm, states := [], ptr }
  return run.states

end Machine

end MyDbg.Infos
