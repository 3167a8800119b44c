import MyDbg.Infos.LineHeaders
import MyDbg.Lib.LineNumbers

/-!
Contract: the rows that `run_machine` returns.

Owns: the headers of versions 2, 3 and 4 as they are laid out in memory, units
with a line number program behind them, the value `read_leb128` gives an
operand; and that the rows are those of the program.

Does not own: the tables between header and program.
-/

namespace MyDbg.Infos

open LittleEndian ProgramLogic LineNumbers

/-! ## Units -/

/-- A header of version 2, 3 or 4. `maximum_operations_per_instruction` exists
from version 4 on. -/
structure LineHeader extends HeaderFields where
  known : version ∈ [2, 3, 4]
  operations_pos : version = 4 → 0 < maximumOperationsPerInstruction.toNat
  lineRange_pos : 0 < lineRange.toNat
  opcodeBase_pos : 0 < opcodeBase.toNat

namespace LineHeader

variable (header : LineHeader)

/-- What the registers depend on. -/
def fields : Header where
  minimumInstructionLength := header.minimumInstructionLength.toNat
  maximumOperationsPerInstruction := header.operations
  defaultIsStmt := header.defaultIsStmt.toNat != 0
  lineBase := header.lineBase.toInt
  lineRange := header.lineRange.toNat
  opcodeBase := header.opcodeBase.toNat

end LineHeader

/-- What the registers depend on, of what `VAL` reads. -/
def lineFields (value : MyDwKey → Nat) : Header where
  minimumInstructionLength := value .minimumInstructionLength
  maximumOperationsPerInstruction := value .maximumOperationsPerInstruction
  defaultIsStmt := value .defaultIsStmt != 0
  lineBase := (BitVec.ofNat 8 (value .lineBase)).toInt
  lineRange := value .lineRange
  opcodeBase := value .opcodeBase

/-- `VAL` reads `value`, whatever the key. -/
structure HeaderReads (memory : PartialMemory) (lhdr : Addr) (value : MyDwKey → Nat) : Prop where
  returns : ∀ key, Returns (val memory lhdr key) (value key)
  small : ∀ key, value key < 256 ^ key.size

namespace LineHeader

variable (header : LineHeader)

theorem fields_eq : header.fields = lineFields header.value := by
  rw [fields, lineFields]
  simp only [HeaderFields.value, BitVec.ofNat_toNat, BitVec.setWidth_eq]

theorem operations_bounds : 0 < header.operations ∧ header.operations < 2 ^ 8 := by
  unfold HeaderFields.operations
  by_cases early : header.version.toNat < 4
  · rw [if_pos early]
    omega
  · have version : header.version = 4 := by
      have known := header.known
      simp only [List.mem_cons, List.not_mem_nil, or_false] at known
      rcases known with two | three | four
      · rw [two] at early
        exact absurd (by decide) early
      · rw [three] at early
        exact absurd (by decide) early
      · exact four
    rw [if_neg early]
    exact ⟨header.operations_pos version, header.maximumOperationsPerInstruction.isLt⟩

/-- No field is zero that is divided by. -/
theorem executable {instruction : LineInstruction}
    (supported : instruction.Supported header.fields) : instruction.Executable header.fields := by
  refine ⟨supported, ?_⟩
  have operations := header.operations_bounds.1
  have lineRange := header.lineRange_pos
  cases instruction with
  | special opcode => exact ⟨header.opcodeBase_pos.trans_le supported, lineRange, operations⟩
  | constAddPc => exact ⟨lineRange, operations⟩
  | advancePc _ => exact operations
  | _ => trivial

end LineHeader

/-- A unit at `lhdr`: the header, and `program` where its length says. -/
structure LineUnit (memory : PartialMemory) (lhdr : Addr) (header : LineHeader)
    (program : List LineInstruction) : Prop where
  stored : Holds memory lhdr header.bytes
  placed : Holds memory (lhdr + BitVec.ofNat 64 (sizeofMyDwLhdr + 4 + header.headerLength.toNat))
    (encode program)
  length : header.unitLength.toNat = header.headerLength.toNat + (encode program).length + 6
  supported : ∀ instruction ∈ program, instruction.Supported header.fields

/-! ## Operands -/

/-- What the loop of `read_leb128` makes of bytes. -/
def leb128From : Nat → Word → List Byte → Word
  | _, result, [] => result
  | shift, result, byte :: rest => leb128From (shift + 7) (result ||| leb128Part byte shift) rest

def leb128Value (operand : Leb128) : Word := leb128From 0 0 operand.1

section Operands

variable {memory : PartialMemory} {addr ptr : Addr} {byte : Byte} {bytes : List Byte}

theorem high_bit : ∀ byte : Byte, byte >>> 7 = 0 ↔ byte.toNat < 0x80 := by decide

theorem readLeb128From_yields (encoding : IsLeb128 bytes) (holds : Holds memory ptr bytes)
    (shift : Nat) (result : Word) :
    Yields (fun fuel => readLeb128From memory fuel shift result ptr)
      (leb128From shift result bytes, ptr + BitVec.ofNat 64 bytes.length) := by
  induction bytes generalizing ptr shift result with
  | nil => exact encoding.elim
  | cons byte rest inductionHypothesis =>
      have whole : BitVec.ofNat 8 byte.toNat = byte := by
        rw [BitVec.ofNat_toNat, BitVec.setWidth_eq]
      apply Yields.succ fun fuel => rfl
      apply Yields.bind (.of_returns (load_byte holds.1))
      simp only [whole]
      cases rest with
      | nil =>
          simp only [if_pos ((high_bit byte).mpr encoding)]
          exact .pure _
      | cons next rest =>
          have more : ¬ byte >>> 7 = 0 := by
            rw [high_bit]
            exact Nat.not_lt.mpr encoding.1
          simp only [if_neg more]
          rw [List.length_cons, add_ofNat_succ]
          exact inductionHypothesis encoding.2 holds.2 (shift + 7) _

/-- An operand has the value that `read_leb128` returns. -/
theorem readLeb128_yields (operand : Leb128) (holds : Holds memory ptr operand.1) :
    Yields (fun fuel => readLeb128 memory fuel ptr)
      (leb128Value operand, ptr + BitVec.ofNat 64 operand.1.length) :=
  readLeb128From_yields operand.2 holds 0 0

end Operands

/-! ## Header fields -/

section Fields

variable {memory : PartialMemory} {lhdr : Addr} {header : LineHeader}

theorem headerReads (stored : Holds memory lhdr header.bytes) :
    HeaderReads memory lhdr header.value where
  returns := HeaderFields.val_returns stored
  small := by
    intro key
    cases key with
    | headerLength => exact header.headerLength.isLt
    | minimumInstructionLength => exact header.minimumInstructionLength.isLt
    | maximumOperationsPerInstruction => exact header.operations_bounds.2
    | defaultIsStmt => exact header.defaultIsStmt.isLt
    | lineBase => exact header.lineBase.isLt
    | lineRange => exact header.lineRange.isLt
    | opcodeBase => exact header.opcodeBase.isLt

end Fields

/-! ## Instructions -/

def MyDwSm.registers (sm : MyDwSm) : LineRegisters where
  address := sm.address.toNat
  opIndex := sm.opIndex.toNat
  file := sm.file.toNat
  line := sm.line.toNat
  column := sm.column.toNat
  isStmt := sm.isStmt
  basicBlock := sm.basicBlock
  endSequence := sm.endSequence
  prologueEnd := sm.prologueEnd
  epilogueBegin := sm.epilogueBegin
  isa := sm.isa.toNat
  discriminator := sm.discriminator.toNat

/-- The value `read_leb128` returns for an operand. -/
def operandValue (operand : Leb128) : Nat := (leb128Value operand).toNat

def LineRun.matrix (run : LineRun) : LineMatrix where
  registers := run.sm.registers
  rows := run.states.map MyDwSm.registers

/-- With enough fuel, `program` leaves the pointer at `ptr` and the machine as `matrix` says. -/
def Executes (program : Nat → Reading LineRun) (ptr : Addr) (matrix : LineMatrix) : Prop :=
  ∃ next, Yields program next ∧ next.ptr = ptr ∧ next.matrix = matrix

section Instructions

variable {memory : PartialMemory} {lhdr ptr : Addr} {value : MyDwKey → Nat} {run : LineRun}
  {program : Nat → Reading LineRun} {sm : MyDwSm} {matrix : LineMatrix} {opcode : Nat}
  {instruction : LineInstruction}

/-- An instruction that appends no row. -/
theorem executes_update {change : LineRegisters → LineRegisters}
    (yields : Yields program { run with sm, ptr })
    (same : sm.registers = change run.sm.registers) :
    Executes program ptr (run.matrix.update change) := by
  refine ⟨_, yields, rfl, ?_⟩
  simp only [LineRun.matrix, LineMatrix.update, same]

/-- An instruction that appends a row of the registers `row`. -/
theorem executes_append {row : MyDwSm} {change : LineRegisters → LineRegisters}
    (yields : Yields program { run with sm, states := run.states ++ [row], ptr })
    (same : row.registers = matrix.registers) (rows : matrix.rows = run.matrix.rows)
    (changed : sm.registers = change matrix.registers) :
    Executes program ptr (matrix.append.update change) := by
  refine ⟨_, yields, rfl, ?_⟩
  simp only [LineRun.matrix, LineMatrix.update, LineMatrix.append, List.map_append, List.map_cons,
    List.map_nil, same, rows, changed]

/-! ## Registers -/

theorem registers_addLine (sm : MyDwSm) (delta : Int) :
    MyDwSm.registers { sm with line := sm.line + BitVec.ofInt 32 delta } =
      sm.registers.addLine delta := by
  have value : (sm.line + BitVec.ofInt 32 delta).toNat =
      (((sm.line.toNat : Int) + delta) % 2 ^ 32).toNat := by
    rw [BitVec.toNat_add, BitVec.toNat_ofInt]
    omega
  simp only [MyDwSm.registers, LineRegisters.addLine, value]

theorem resetMachine_returns (reads : HeaderReads memory lhdr value) :
    ∃ sm, Returns (resetMachine memory lhdr) sm ∧
      sm.registers = LineRegisters.initial (lineFields value) := by
  refine ⟨_, (reads.returns .defaultIsStmt).bind (.pure _), rfl⟩

/-- The arithmetic of an advance, with the fields of the header below 256. -/
theorem advance_numbers {minimum maximum : Nat} (small : minimum < 2 ^ 8) (positive : 0 < maximum)
    (bound : maximum < 2 ^ 8) (sm : MyDwSm) (opAdv : Word) :
    let operations := sm.opIndex.setWidth 64 + opAdv
    let total := (sm.opIndex.toNat + opAdv.toNat) % 2 ^ 64
    (sm.address + BitVec.ofNat 64 minimum * (operations / BitVec.ofNat 64 maximum)).toNat =
        (sm.address.toNat + minimum * (total / maximum)) % 2 ^ 64 ∧
      ((operations % BitVec.ofNat 64 maximum).setWidth 32).toNat = total % maximum := by
  intro operations total
  have divisor : (BitVec.ofNat 64 maximum).toNat = maximum := by
    rw [BitVec.toNat_ofNat]
    omega
  have factor : (BitVec.ofNat 64 minimum).toNat = minimum := by
    rw [BitVec.toNat_ofNat]
    omega
  have sum : operations.toNat = total := by
    have opIndex := sm.opIndex.isLt
    rw [BitVec.toNat_add, BitVec.toNat_setWidth]
    omega
  constructor
  · rw [BitVec.toNat_add, BitVec.toNat_mul, BitVec.toNat_udiv, divisor, factor, sum,
      Nat.add_mod_mod]
  · have below := Nat.mod_lt operations.toNat positive
    rw [BitVec.toNat_setWidth, BitVec.toNat_umod, divisor, sum] at *
    omega

theorem advance_returns (reads : HeaderReads memory lhdr value)
    (positive : 0 < value .maximumOperationsPerInstruction) (sm : MyDwSm) (opAdv : Word) :
    ∃ next, Returns (advanceAddrAndOpIndex memory lhdr sm opAdv) next ∧
      next.registers = sm.registers.advance (lineFields value) opAdv.toNat := by
  obtain ⟨address, opIndex⟩ := advance_numbers (reads.small .minimumInstructionLength) positive
    (reads.small .maximumOperationsPerInstruction) sm opAdv
  let minimum : Word := BitVec.ofNat 64 (value .minimumInstructionLength)
  let maximum : Word := BitVec.ofNat 64 (value .maximumOperationsPerInstruction)
  let operations := sm.opIndex.setWidth 64 + opAdv
  refine ⟨{ sm with
    address := sm.address + minimum * (operations / maximum)
    opIndex := (operations % maximum).setWidth 32 }, ?_, ?_⟩
  · apply Returns.bind (reads.returns .minimumInstructionLength)
    apply Returns.bind (reads.returns .maximumOperationsPerInstruction)
    apply Returns.bind (checkDivisor_returns positive)
    exact .pure _
  · simp only [MyDwSm.registers, operations, minimum, maximum, address, opIndex]
    rfl

/-! ## Standard opcodes -/

/-- An opcode without operands that appends no row. -/
theorem executes_flag {change : LineRegisters → LineRegisters}
    (same : sm.registers = change run.sm.registers) :
    Executes (fun _ => pure { run with sm }) (run.ptr + BitVec.ofNat 64 0)
      (run.matrix.update change) := by
  have stay : run.ptr + BitVec.ofNat 64 0 = run.ptr := BitVec.add_zero _
  rw [stay]
  exact executes_update (.pure _) same

/-- An opcode with a number that appends no row. -/
theorem executes_number {change : LineRegisters → LineRegisters} {operand : Leb128}
    {next : Word × Addr → Reading LineRun} (operands : Holds memory run.ptr operand.1)
    (goesOn : next (leb128Value operand, run.ptr + BitVec.ofNat 64 operand.1.length) =
      pure { run with sm, ptr := run.ptr + BitVec.ofNat 64 operand.1.length })
    (same : sm.registers = change run.sm.registers) :
    Executes (fun fuel => readLeb128 memory fuel run.ptr >>= next)
      (run.ptr + BitVec.ofNat 64 operand.1.length) (run.matrix.update change) := by
  apply executes_update _ same
  refine (readLeb128_yields operand operands).bind ?_
  rw [goesOn]
  exact .pure _

/-- The address advances as far as for the special opcode 255. -/
theorem constAddPc_executes (reads : HeaderReads memory lhdr value)
    (defined : LineInstruction.constAddPc.Defined (lineFields value)) :
    Executes (fun fuel => standardOpcode memory lhdr fuel run dwLnsConstAddPc) run.ptr
      (run.matrix.step (lineFields value) operandValue .constAddPc) := by
  obtain ⟨next, returns, same⟩ := advance_returns reads defined.2 run.sm
    (BitVec.ofNat 64 ((255 - value .opcodeBase) / value .lineRange))
  have small : (255 - value .opcodeBase) / value .lineRange ≤ 255 :=
    (Nat.div_le_self _ _).trans (Nat.sub_le _ _)
  rw [BitVec.toNat_ofNat, Nat.mod_eq_of_lt (by omega)] at same
  rw [LineMatrix.step]
  apply executes_update _ same
  apply Yields.bind (.of_returns (reads.returns .opcodeBase))
  apply Yields.bind (.of_returns (reads.returns .lineRange))
  apply Yields.bind (.of_returns (checkDivisor_returns defined.1))
  exact (Yields.of_returns returns).bind (.pure _)

/-- The operand is two bytes, whatever the length of an instruction. -/
theorem fixedAdvancePc_executes {header : Header} {delta : BitVec 16}
    (operands : Holds memory run.ptr (leBytes 2 delta.toNat)) :
    Executes (fun fuel => standardOpcode memory lhdr fuel run dwLnsFixedAdvancePc)
      (run.ptr + BitVec.ofNat 64 (leBytes 2 delta.toNat).length)
      (run.matrix.step header operandValue (.fixedAdvancePc delta)) := by
  have loaded := load_number operands delta.isLt
  have bound := delta.isLt
  have wide : (BitVec.ofNat 64 delta.toNat).toNat = delta.toNat := by
    rw [BitVec.toNat_ofNat]
    omega
  rw [LineMatrix.step]
  apply executes_update
  · exact (Yields.of_returns loaded).bind (.pure _)
  · simp only [MyDwSm.registers, BitVec.toNat_add, wide]
    rfl

theorem standardOpcode_executes (reads : HeaderReads memory lhdr value)
    (standard : instruction.standard = some opcode)
    (defined : instruction.Defined (lineFields value))
    (operands : Holds memory run.ptr instruction.encode.tail) :
    Executes (fun fuel => standardOpcode memory lhdr fuel run opcode)
      (run.ptr + BitVec.ofNat 64 instruction.encode.tail.length)
      (run.matrix.step (lineFields value) operandValue instruction) := by
  have stay : run.ptr + BitVec.ofNat 64 0 = run.ptr := BitVec.add_zero _
  cases instruction with
  | special opcode => cases standard
  | endSequence length => cases standard
  | setAddress length address => cases standard
  | setDiscriminator length discriminator => cases standard
  | copy =>
      obtain rfl := Option.some.inj standard
      simp only [LineInstruction.encode, List.tail_cons, List.length_nil, stay]
      exact executes_append (.pure _) rfl rfl rfl
  | advancePc operationAdvance =>
      obtain rfl := Option.some.inj standard
      obtain ⟨next, returns, same⟩ := advance_returns reads defined run.sm
        (leb128Value operationAdvance)
      rw [LineMatrix.step]
      apply executes_update _ same
      exact (readLeb128_yields operationAdvance operands).bind
        ((Yields.of_returns returns).bind (.pure _))
  | advanceLine delta =>
      obtain rfl := Option.some.inj standard
      have wide : (leb128Value delta).setWidth 32 = BitVec.ofInt 32 (operandValue delta) := by
        rw [BitVec.ofInt_natCast, operandValue, BitVec.ofNat_toNat]
      rw [LineMatrix.step]
      apply executes_number operands rfl
      rw [wide]
      exact registers_addLine run.sm (operandValue delta)
  | setFile file =>
      obtain rfl := Option.some.inj standard
      rw [LineMatrix.step]
      apply executes_number operands rfl
      simp only [MyDwSm.registers, BitVec.toNat_setWidth]
      rfl
  | setColumn column =>
      obtain rfl := Option.some.inj standard
      rw [LineMatrix.step]
      apply executes_number operands rfl
      simp only [MyDwSm.registers, BitVec.toNat_setWidth]
      rfl
  | negateStmt =>
      obtain rfl := Option.some.inj standard
      rw [LineMatrix.step]
      apply executes_flag
      rfl
  | setBasicBlock =>
      obtain rfl := Option.some.inj standard
      rw [LineMatrix.step]
      apply executes_flag
      rfl
  | constAddPc =>
      obtain rfl := Option.some.inj standard
      simp only [LineInstruction.encode, List.tail_cons, List.length_nil, stay]
      exact constAddPc_executes reads defined
  | fixedAdvancePc delta =>
      obtain rfl := Option.some.inj standard
      exact fixedAdvancePc_executes operands
  | setPrologueEnd =>
      obtain rfl := Option.some.inj standard
      rw [LineMatrix.step]
      apply executes_flag
      rfl
  | setEpilogueBegin =>
      obtain rfl := Option.some.inj standard
      rw [LineMatrix.step]
      apply executes_flag
      rfl
  | setIsa isa =>
      obtain rfl := Option.some.inj standard
      rw [LineMatrix.step]
      apply executes_number operands rfl
      simp only [MyDwSm.registers, BitVec.toNat_setWidth]
      rfl

/-- A standard opcode is dispatched. -/
theorem standard_executes (reads : HeaderReads memory lhdr value)
    (here : memory run.ptr = some (BitVec.ofNat 8 opcode)) (nonzero : 0 < opcode)
    (below : opcode < value .opcodeBase)
    (executes : Executes
      (fun fuel => standardOpcode memory lhdr fuel { run with ptr := run.ptr + 1 } opcode) ptr
        matrix) :
    Executes (fun fuel => runInstruction memory lhdr fuel run) ptr matrix := by
  obtain ⟨next, yields, ends⟩ := executes
  have small : value .opcodeBase < 2 ^ 8 := reads.small .opcodeBase
  have loaded := load_byte here
  rw [BitVec.toNat_ofNat, Nat.mod_eq_of_lt (by omega)] at loaded
  refine ⟨next, ?_, ends⟩
  apply Yields.bind (.of_returns loaded)
  simp only [if_neg (show ¬ opcode = 0 by omega)]
  apply Yields.bind (.of_returns (reads.returns .opcodeBase))
  simp only [if_pos below]
  apply Yields.bind (.of_returns loaded)
  exact yields

/-! ## Extended and special opcodes -/

/-- An extended opcode is dispatched; its length is skipped. -/
theorem extended_executes {length : Leb128} {rest : List Byte} (small : opcode < 2 ^ 8)
    (holds : Holds memory run.ptr (0 :: (length.1 ++ BitVec.ofNat 8 opcode :: rest)))
    (executes : ∀ after, Holds memory after rest →
      Executes (fun fuel => extendedOpcode memory lhdr fuel { run with ptr := after } opcode)
        (after + BitVec.ofNat 64 rest.length) matrix) :
    Executes (fun fuel => runInstruction memory lhdr fuel run)
      (run.ptr + BitVec.ofNat 64 (0 :: (length.1 ++ BitVec.ofNat 8 opcode :: rest)).length)
        matrix := by
  have behind := holds_append.mp holds.2
  have loaded := load_byte behind.2.1
  rw [BitVec.toNat_ofNat, Nat.mod_eq_of_lt small] at loaded
  obtain ⟨next, yields, ptr, same⟩ := executes _ behind.2.2
  refine ⟨next, ?_, ?_, same⟩
  · apply Yields.bind (.of_returns (load_byte holds.1))
    apply Yields.bind (readLeb128_yields length behind.1)
    apply Yields.bind (.of_returns loaded)
    exact yields
  · rw [ptr, List.length_cons, List.length_append, List.length_cons, add_ofNat_succ,
      ← Nat.add_assoc, BitVec.ofNat_add, BitVec.ofNat_add]
    have swap : 1 + BitVec.ofNat 64 rest.length = BitVec.ofNat 64 rest.length + 1#64 :=
      BitVec.add_comm _ _
    simp only [BitVec.add_assoc, swap]

theorem special_executes (reads : HeaderReads memory lhdr value) {opcode : Byte}
    (here : memory run.ptr = some opcode)
    (executable : (LineInstruction.special opcode).Executable (lineFields value)) :
    Executes (fun fuel => runInstruction memory lhdr fuel run) (run.ptr + 1)
      (run.matrix.step (lineFields value) operandValue (.special opcode)) := by
  obtain ⟨supported, positive, lineRange, operations⟩ := executable
  have supported : value .opcodeBase ≤ opcode.toNat := supported
  have bound := opcode.isLt
  let adjOpcode : Byte := opcode - BitVec.ofNat 8 (value .opcodeBase)
  have adjusted : adjOpcode.toNat = opcode.toNat - value .opcodeBase := by
    rw [BitVec.toNat_sub, BitVec.toNat_ofNat]
    omega
  let opAdv : Byte := BitVec.ofNat 8 (adjOpcode.toNat / value .lineRange)
  have advance : (opAdv.setWidth 64 : Word).toNat = adjOpcode.toNat / value .lineRange := by
    have small : adjOpcode.toNat / value .lineRange < 2 ^ 8 :=
      (Nat.div_le_self _ _).trans_lt adjOpcode.isLt
    have wide : adjOpcode.toNat / value .lineRange < 2 ^ 64 := small.trans (by decide)
    rw [BitVec.toNat_setWidth, BitVec.toNat_ofNat, Nat.mod_eq_of_lt small, Nat.mod_eq_of_lt wide]
  let delta : Int :=
    (BitVec.ofNat 8 (value .lineBase)).toInt + (adjOpcode.toNat % value .lineRange : Nat)
  let sm : MyDwSm := { run.sm with line := run.sm.line + BitVec.ofInt 32 delta }
  obtain ⟨next, returns, same⟩ := advance_returns reads operations sm (opAdv.setWidth 64)
  have moved : next.registers = (run.sm.registers.addLine ((lineFields value).lineBase +
      ((opcode.toNat - value .opcodeBase) % value .lineRange : Nat))).advance (lineFields value)
        ((opcode.toNat - value .opcodeBase) / value .lineRange) := by
    rw [same, registers_addLine, advance]
    simp only [delta, adjusted]
    rfl
  rw [LineMatrix.step]
  apply executes_append
  · apply Yields.bind (.of_returns (load_byte here))
    simp only [if_neg (show ¬ opcode.toNat = 0 by omega)]
    apply Yields.bind (.of_returns (reads.returns .opcodeBase))
    simp only [if_neg (Nat.not_lt.mpr supported), BitVec.ofNat_toNat, BitVec.setWidth_eq]
    apply Yields.bind (.of_returns (reads.returns .opcodeBase))
    apply Yields.bind (.of_returns (reads.returns .lineRange))
    apply Yields.bind (.of_returns (checkDivisor_returns lineRange))
    apply Yields.bind (.of_returns (reads.returns .lineBase))
    exact (Yields.of_returns returns).bind (.pure _)
  · exact moved
  · rfl
  · exact congrArg LineRegisters.afterRow moved

/-- Every instruction is executed as the standard has it. -/
theorem runInstruction_executes (reads : HeaderReads memory lhdr value)
    (executable : instruction.Executable (lineFields value))
    (holds : Holds memory run.ptr instruction.encode) :
    Executes (fun fuel => runInstruction memory lhdr fuel run)
      (run.ptr + BitVec.ofNat 64 instruction.encode.length)
      (run.matrix.step (lineFields value) operandValue instruction) := by
  have standardCase {opcode : Nat} (standard : instruction.standard = some opcode)
      (encoded : instruction.encode = BitVec.ofNat 8 opcode :: instruction.encode.tail)
      (nonzero : 0 < opcode) (below : opcode < value .opcodeBase) :
      Executes (fun fuel => runInstruction memory lhdr fuel run)
        (run.ptr + BitVec.ofNat 64 instruction.encode.length)
        (run.matrix.step (lineFields value) operandValue instruction) := by
    rw [encoded] at holds
    rw [encoded, List.length_cons, add_ofNat_succ]
    apply standard_executes reads holds.1 nonzero below
    exact standardOpcode_executes reads standard executable.defined holds.2
  cases instruction with
  | special opcode => exact special_executes reads holds.1 executable
  | endSequence length =>
      apply extended_executes (by decide : 1 < 2 ^ 8) holds
      intro after _
      have stay : after + BitVec.ofNat 64 0 = after := BitVec.add_zero _
      obtain ⟨sm, returns, same⟩ := resetMachine_returns reads
      rw [LineMatrix.step, List.length_nil, stay]
      apply executes_append
      · exact (Yields.of_returns returns).bind (.pure _)
      · rfl
      · rfl
      · exact same
  | setAddress length address =>
      apply extended_executes (by decide : 2 < 2 ^ 8) holds
      intro after operands
      have loaded := load_returns operands (leBytes_length 8 address.toNat)
      rw [leNat_leBytes address.isLt] at loaded
      rw [LineMatrix.step]
      apply executes_update
      · exact (Yields.of_returns loaded).bind (.pure _)
      · rw [BitVec.ofNat_toNat, BitVec.setWidth_eq]
        rfl
  | setDiscriminator length discriminator =>
      apply extended_executes (by decide : 4 < 2 ^ 8) holds
      intro after operands
      rw [LineMatrix.step]
      apply executes_update
      · exact (readLeb128_yields discriminator operands).bind (.pure _)
      · simp only [MyDwSm.registers, BitVec.toNat_setWidth]
        rfl
  | _ => exact standardCase rfl rfl (by decide) (executable.supported _ rfl)

end Instructions

/-! ## The whole program -/

section Runs

variable {memory : PartialMemory} {lhdr : Addr} {value : MyDwKey → Nat} {size : Word}

theorem consumed_bytes {next run : LineRun} {count : Nat}
    (ptr : next.ptr = run.ptr + BitVec.ofNat 64 count) :
    next.ptr - run.ptr = BitVec.ofNat 64 count := by
  rw [ptr, BitVec.add_comm, BitVec.add_sub_cancel]

theorem runFrom_more {i : Word} (more : i < size) (fuel : Nat) (run : LineRun) :
    runFrom memory lhdr size (fuel + 1) i run =
      runInstruction memory lhdr fuel run >>= fun next =>
        runFrom memory lhdr size fuel (i + (next.ptr - run.ptr)) next :=
  if_pos more

theorem runFrom_done {i : Word} (done : ¬ i < size) (fuel : Nat) (run : LineRun) :
    runFrom memory lhdr size (fuel + 1) i run = pure run :=
  if_neg done

/-- The loop executes instruction after instruction, as long as `i` is below `size`. -/
theorem runFrom_goesOn (reads : HeaderReads memory lhdr value) {program : List LineInstruction}
    (executable : ∀ instruction ∈ program, instruction.Executable (lineFields value))
    (run : LineRun) (holds : Holds memory run.ptr (encode program)) {i : Word}
    (room : i.toNat + (encode program).length ≤ size.toNat) :
    ∃ next, GoesOnAs (fun fuel => runFrom memory lhdr size fuel i run)
        (fun fuel => runFrom memory lhdr size fuel
          (i + BitVec.ofNat 64 (encode program).length) next) ∧
      next.ptr = run.ptr + BitVec.ofNat 64 (encode program).length ∧
      next.matrix = program.foldl (LineMatrix.step (lineFields value) operandValue) run.matrix := by
  induction program generalizing run i with
  | nil =>
      have still : i + BitVec.ofNat 64 0 = i := BitVec.add_zero i
      have stay : run.ptr + BitVec.ofNat 64 0 = run.ptr := BitVec.add_zero run.ptr
      refine ⟨run, ?_, stay.symm, rfl⟩
      show GoesOnAs _ fun fuel => runFrom memory lhdr size fuel (i + BitVec.ofNat 64 0) run
      rw [still]
      exact .refl _
  | cons instruction rest inductionHypothesis =>
      rw [encode_cons] at holds
      rw [encode_cons_length] at room ⊢
      have positive := instruction.encode_length
      have bound := size.isLt
      have more : i < size := by
        rw [BitVec.lt_def]
        omega
      obtain ⟨here, later⟩ := holds_append.mp holds
      obtain ⟨next, yields, ptr, matrix⟩ := runInstruction_executes reads
        (executable instruction List.mem_cons_self) here
      have advanced : (i + BitVec.ofNat 64 instruction.encode.length).toNat =
          i.toNat + instruction.encode.length := by
        rw [BitVec.toNat_add, BitVec.toNat_ofNat]
        omega
      have behind : Holds memory next.ptr (encode rest) := by rwa [ptr]
      have left : (i + BitVec.ofNat 64 instruction.encode.length).toNat + (encode rest).length ≤
          size.toNat := by omega
      obtain ⟨last, goesOn, end_ptr, same⟩ := inductionHypothesis
        (fun other member => executable other (List.mem_cons_of_mem _ member)) next behind left
      have turn : GoesOnAs (fun fuel => runFrom memory lhdr size fuel i run) fun fuel =>
          runFrom memory lhdr size fuel (i + BitVec.ofNat 64 instruction.encode.length) next := by
        have first : GoesOnAs (fun fuel => runInstruction memory lhdr fuel run >>= fun next =>
            runFrom memory lhdr size fuel (i + (next.ptr - run.ptr)) next)
              fun fuel => runFrom memory lhdr size fuel (i + (next.ptr - run.ptr)) next :=
          .bind yields
        rw [consumed_bytes ptr] at first
        exact (GoesOnAs.succ fun fuel => runFrom_more more fuel run).trans first
      refine ⟨last, ?_, ?_, ?_⟩
      · rw [BitVec.ofNat_add, ← BitVec.add_assoc]
        exact turn.trans goesOn
      · rw [end_ptr, ptr, BitVec.ofNat_add, BitVec.add_assoc]
      · rw [same, matrix]
        rfl

theorem runFrom_stops {i : Word} (done : ¬ i < size) (run : LineRun) :
    Yields (fun fuel => runFrom memory lhdr size fuel i run) run :=
  .succ (fun fuel => runFrom_done done fuel run) (.pure run)

/-- A program that fills the size is executed. -/
theorem runFrom_yields (reads : HeaderReads memory lhdr value) {program : List LineInstruction}
    (executable : ∀ instruction ∈ program, instruction.Executable (lineFields value))
    (run : LineRun) (holds : Holds memory run.ptr (encode program))
    (whole : (encode program).length = size.toNat) :
    ∃ next, Yields (fun fuel => runFrom memory lhdr size fuel 0 run) next ∧
      next.ptr = run.ptr + BitVec.ofNat 64 (encode program).length ∧
      next.matrix = program.foldl (LineMatrix.step (lineFields value) operandValue) run.matrix := by
  have room : (0 : Word).toNat + (encode program).length ≤ size.toNat := by
    rw [whole]
    exact (Nat.zero_add _).le
  obtain ⟨next, goesOn, ptr, matrix⟩ := runFrom_goesOn reads executable run holds room
  have done : ¬ 0 + BitVec.ofNat 64 (encode program).length < size := by
    have zero : 0 + size = size := BitVec.zero_add size
    rw [whole, BitVec.ofNat_toNat, BitVec.setWidth_eq, zero]
    exact BitVec.lt_irrefl size
  exact ⟨next, goesOn.yields (runFrom_stops done next), ptr, matrix⟩

/-- `run_machine`, started in the state `init_machine` makes, returns the rows of
the program. -/
theorem runMachine_rows {header : LineHeader} {program : List LineInstruction}
    (unit : LineUnit memory lhdr header program) :
    ∃ states, Yields (fun fuel => initMachine memory lhdr >>= runMachine memory lhdr fuel)
        states ∧
      states.map MyDwSm.registers = rows header.fields operandValue program := by
  have reads := headerReads unit.stored
  obtain ⟨sm, initialised, initial⟩ := resetMachine_returns reads
  let start : LineRun := {
    sm
    states := []
    ptr := lhdr + BitVec.ofNat 64 (sizeofMyDwLhdr + 4 + header.headerLength.toNat) }
  have length := unit.length
  have bound := header.unitLength.isLt
  have size : ((header.unitLength - BitVec.ofNat 32 header.headerLength.toNat - 6).setWidth 64 :
      Word).toNat = (encode program).length := by
    rw [BitVec.toNat_setWidth, BitVec.toNat_sub, BitVec.toNat_sub, BitVec.toNat_ofNat]
    simp only [BitVec.reduceToNat]
    omega
  have executable : ∀ instruction ∈ program,
      instruction.Executable (lineFields header.value) := by
    intro instruction member
    rw [← header.fields_eq]
    exact header.executable (unit.supported instruction member)
  obtain ⟨last, ends, _, matrix⟩ :=
    runFrom_yields reads executable start unit.placed size.symm
  refine ⟨last.states, ?_, ?_⟩
  · apply Yields.bind (.of_returns initialised)
    apply Yields.bind (.of_returns (HeaderFields.val_returns unit.stored .headerLength))
    apply Yields.bind (.of_returns (HeaderFields.unitLength_returns unit.stored))
    exact ends.bind (.pure _)
  · have first : start.matrix = ⟨LineRegisters.initial (lineFields header.value), []⟩ := by
      rw [← initial]
      rfl
    rw [header.fields_eq, rows, ← first, ← matrix]
    rfl

end Runs

/-! ## A unit of version 4 -/

def shortHeader : LineHeader where
  unitLength := 27
  version := 4
  headerLength := 6
  minimumInstructionLength := 1
  maximumOperationsPerInstruction := 1
  defaultIsStmt := 1
  lineBase := 0xfb
  lineRange := 14
  opcodeBase := 13
  known := by decide
  operations_pos := by decide
  lineRange_pos := by decide
  opcodeBase_pos := by decide

/-- Five lines on at 0x1001, and the end of the sequence. -/
def shortProgram : List LineInstruction :=
  [.setAddress ⟨[9], by decide⟩ 0x1000, .special 37, .endSequence ⟨[1], by decide⟩]

def shortMemory : PartialMemory := fun addr =>
  (shortHeader.bytes ++ encode shortProgram)[addr.toNat]?

theorem shortUnit : LineUnit shortMemory 0 shortHeader shortProgram where
  stored := by decide
  placed := by decide
  length := by decide
  supported := by
    intro instruction member
    simp only [shortProgram, List.mem_cons, List.not_mem_nil, or_false] at member
    rcases member with rfl | rfl | rfl
    · exact nofun
    · change 13 ≤ 37
      decide
    · exact nofun

theorem runMachine_rows_short :
    (rows shortHeader.fields operandValue shortProgram).map (fun row => (row.address, row.line)) =
        [(0x1001, 6), (0x1001, 6)] ∧
      ∃ states, Yields (fun fuel => initMachine shortMemory 0 >>= runMachine shortMemory 0 fuel)
          states ∧
        states.map MyDwSm.registers = rows shortHeader.fields operandValue shortProgram :=
  ⟨by decide, runMachine_rows shortUnit⟩

end MyDbg.Infos
