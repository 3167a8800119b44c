import MyDbg.Infos.LineReading
import MyDbg.Infos.LineWindow

/-!
Contract: which line number sections are read within their first unit.

Owns: sections as byte strings, the fields of their first unit; what is asked
of `dwarf_lines` on any of them, that a unit is rejected or supported and read
within its bounds; and which sections it holds of, given that neither version
nor length nor any bound is checked.

Does not own: what the lines of a supported unit are.
-/

namespace MyDbg.Infos

open LittleEndian ProgramLogic LineNumbers

/-- A section, with what follows it in memory. -/
structure LineSection where
  bytes : List Byte
  fits : bytes.length < 2 ^ 64

/-! ## Fields of the first unit -/

namespace LineSection

variable (lineSection : LineSection)

def unitLength : Nat := leNatAt lineSection.bytes 0 4

def version : Nat := leNatAt lineSection.bytes 4 2

/-- What `VAL` reads. -/
def value (key : MyDwKey) : Nat :=
  if lineSection.version < 4 then
    if key = .maximumOperationsPerInstruction then 1
    else leNatAt lineSection.bytes (sizeofMyDwLhdr + key.offset2) key.size
  else leNatAt lineSection.bytes (sizeofMyDwLhdr + key.offset4) key.size

def fields : Header := lineFields lineSection.value

/-- The tables stand behind `opcode_base` and the opcode lengths. -/
def tablesOffset : Nat :=
  sizeofMyDwLhdr + (if lineSection.version < 4 then 8 else 9) + lineSection.value .opcodeBase

def programOffset : Nat := sizeofMyDwLhdr + 4 + lineSection.value .headerLength

/-- The size of the program, in 32 bits. -/
def programSize : BitVec 32 :=
  BitVec.ofNat 32 lineSection.unitLength - BitVec.ofNat 32 (lineSection.value .headerLength) - 6

def unitEnd : Nat := 4 + lineSection.unitLength

/-- The bytes of the first unit, as far as there are any. -/
def firstUnit : LineSection where
  bytes := lineSection.bytes.take lineSection.unitEnd
  fits := (List.length_take_le' _ _).trans_lt lineSection.fits

/-- The section in memory. -/
def memory (lhdr : Addr) : PartialMemory := mapped lhdr lineSection.bytes

/-- What the loop of `run_machine` starts with. -/
def start (lhdr : Addr) (sm : MyDwSm) : LineRun where
  sm := sm
  states := []
  ptr := lhdr + BitVec.ofNat 64 lineSection.programOffset

theorem unitLength_lt : lineSection.unitLength < 2 ^ 32 := leNatAt_lt _ 0 4

theorem value_lt (key : MyDwKey) : lineSection.value key < 256 ^ key.size := by
  unfold value
  by_cases early : lineSection.version < 4
  · rw [if_pos early]
    by_cases absent : key = .maximumOperationsPerInstruction
    · rw [if_pos absent]
      exact Nat.one_lt_pow (by cases key <;> decide) (by decide)
    · rw [if_neg absent]
      exact leNatAt_lt _ _ _
  · rw [if_neg early]
    exact leNatAt_lt _ _ _

theorem headerLength_lt : lineSection.value .headerLength < 2 ^ 32 :=
  lineSection.value_lt .headerLength

theorem opcodeBase_lt : lineSection.value .opcodeBase < 2 ^ 8 := lineSection.value_lt .opcodeBase

end LineSection

/-! ## What is asked -/

/-- Loads from the first unit only. -/
def InFirstUnit (lineSection : LineSection) (lhdr : Addr) (access : Access) : Prop :=
  (access.addr - lhdr).toNat + access.size ≤ lineSection.unitEnd

/-- The instructions executed are those bytes of the unit that are behind its header. -/
def CoversProgram (lineSection : LineSection) (lhdr : Addr) : Prop :=
  let size := BitVec.ofNat 64 (lineSection.unitLength - lineSection.value .headerLength - 6)
  ∃ sm last, Returns (initMachine (lineSection.memory lhdr) lhdr) sm ∧
    Yields (fun fuel => runFrom (lineSection.memory lhdr) lhdr size fuel 0
      (lineSection.start lhdr sm)) last ∧
    last.ptr = (lineSection.start lhdr sm).ptr + size

/-- A unit with 32-bit lengths, of version 2, 3 or 4, that is read within its bounds. -/
structure ReadsFirstUnit (lineSection : LineSection) (lhdr : Addr) : Prop where
  format : lineSection.unitLength < 0xfffffff0
  version : lineSection.version ∈ [2, 3, 4]
  room : lineSection.value .headerLength + 6 ≤ lineSection.unitLength
  within : ∃ lines, YieldsWithin (InFirstUnit lineSection lhdr)
    (fun fuel => dwarfLines (lineSection.memory lhdr) fuel lhdr) lines
  covers : CoversProgram lineSection lhdr

/-- What is malformed is rejected. -/
def RejectsMalformed (lineSection : LineSection) (lhdr : Addr) : Prop :=
  Raises (fun fuel => dwarfLines (lineSection.memory lhdr) fuel lhdr) .dwarfException ∨
    ReadsFirstUnit lineSection lhdr

/-! ## Well-formed and rejected sections -/

def HasTables (lineSection : LineSection) : Prop :=
  ∃ tables : Tables, tables.encode <+: lineSection.bytes.drop lineSection.tablesOffset

/-- At `offset` stand instructions that can be executed, and `rest` behind them. -/
structure HasProgram (lineSection : LineSection) (offset : Nat) (program : List LineInstruction)
    (rest : List Byte) : Prop where
  executable : ∀ instruction ∈ program, instruction.Executable lineSection.fields
  stored : encode program ++ rest <+: lineSection.bytes.drop offset

/-- The first unit is supported, and its bytes have tables and a program of the size
the header says. -/
structure WellFormed (lineSection : LineSection) : Prop where
  format : lineSection.unitLength < 0xfffffff0
  version : lineSection.version ∈ [2, 3, 4]
  tables : HasTables lineSection.firstUnit
  program : ∃ program,
    HasProgram lineSection.firstUnit lineSection.firstUnit.programOffset program [] ∧
      lineSection.value .headerLength + 6 + (encode program).length = lineSection.unitLength

/-- Behind the tables, which may end anywhere, instructions are executed up to one that is
none; the size of the program is not used up before. -/
structure ReachesUnknown (lineSection : LineSection) : Prop where
  tables : HasTables lineSection
  program : ∃ program unknown,
    HasProgram lineSection lineSection.programOffset program unknown ∧
      Unknown lineSection.fields unknown ∧
        (encode program).length < lineSection.programSize.toNat

/-! ## The header -/

section Header

variable {lineSection : LineSection} {lhdr : Addr} {raised : MyException → Prop}

theorem field_inside (key : MyDwKey) :
    sizeofMyDwLhdr + key.offset2 + key.size ≤ 16 ∧
      sizeofMyDwLhdr + key.offset4 + key.size ≤ 16 := by
  cases key <;> decide

theorem load_field (header : 16 ≤ lineSection.bytes.length) {offset size : Nat}
    (inside : offset + size ≤ 16) :
    Returns (load (lineSection.memory lhdr) (lhdr + BitVec.ofNat 64 offset) size)
      (leNatAt lineSection.bytes offset size) :=
  load_part (mapped_holds lhdr lineSection.fits) (inside.trans header)

theorem header_reads (header : 16 ≤ lineSection.bytes.length) :
    HeaderReads (lineSection.memory lhdr) lhdr lineSection.value where
  small := lineSection.value_lt
  returns := by
    intro key
    have version : Returns (load (lineSection.memory lhdr) (lhdr + BitVec.ofNat 64 4) 2)
        lineSection.version := load_field header (by decide)
    apply Returns.bind version
    rw [LineSection.value]
    by_cases early : lineSection.version < 4
    · rw [if_pos early, if_pos early]
      by_cases absent : key = .maximumOperationsPerInstruction
      · rw [if_pos absent, if_pos absent]
        exact .pure 1
      · rw [if_neg absent, if_neg absent]
        exact load_field header (field_inside key).1
    · rw [if_neg early, if_neg early]
      exact load_field header (field_inside key).2

theorem unitLength_reads (header : 16 ≤ lineSection.bytes.length) :
    Returns (unitLength (lineSection.memory lhdr) lhdr)
      (BitVec.ofNat 32 lineSection.unitLength) := by
  have read : Returns (load (lineSection.memory lhdr) (lhdr + BitVec.ofNat 64 0) 4)
      lineSection.unitLength := load_field header (by decide)
  rw [show lhdr + BitVec.ofNat 64 0 = lhdr from BitVec.add_zero lhdr] at read
  exact read.bind (.pure _)

theorem load_field_ensures {offset size : Nat} (positive : 0 < size) (small : offset < 2 ^ 64) :
    Ensures (load (lineSection.memory lhdr) (lhdr + BitVec.ofNat 64 offset) size)
      (fun value => value = leNatAt lineSection.bytes offset size) raised :=
  (load_mapped_ensures lineSection.fits small positive).mono fun _ found => found.2

theorem version_ensures :
    Ensures (load (lineSection.memory lhdr) (lhdr + 4) 2)
      (fun version => version = lineSection.version) raised :=
  load_field_ensures (by decide) (by decide)

theorem value_ensures (key : MyDwKey) :
    Ensures (val (lineSection.memory lhdr) lhdr key)
      (fun value => value = lineSection.value key) raised := by
  have positive : 0 < key.size := key_size_pos key
  obtain ⟨inside2, inside4⟩ := field_inside key
  apply Ensures.bind version_ensures
  intro version same
  subst same
  rw [LineSection.value]
  apply Ensures.ite
  · intro early
    rw [if_pos early]
    apply Ensures.ite
    · intro absent
      rw [if_pos absent]
      exact .pure rfl
    · intro present
      rw [if_neg present]
      exact load_field_ensures positive (by omega)
  · intro late
    rw [if_neg late]
    exact load_field_ensures positive (by omega)

/-- Where the strings start. -/
theorem lengths_end (base : Addr) (count opcodes : Nat) :
    base + BitVec.ofNat 64 (sizeofMyDwLhdr + (count + 1)) + BitVec.ofNat 64 opcodes - 1 =
      base + BitVec.ofNat 64 (sizeofMyDwLhdr + count + opcodes) := by
  have sum : sizeofMyDwLhdr + (count + 1) + opcodes = sizeofMyDwLhdr + count + opcodes + 1 := by
    omega
  rw [BitVec.add_assoc, ← BitVec.ofNat_add, sum, BitVec.ofNat_add, ← BitVec.add_assoc]
  exact BitVec.add_sub_cancel _ 1

theorem tables_small : lineSection.tablesOffset < 2 ^ 64 := by
  have small := lineSection.opcodeBase_lt
  unfold LineSection.tablesOffset sizeofMyDwLhdr
  split <;> omega

theorem header_of_tables (tables : HasTables lineSection) : 16 ≤ lineSection.bytes.length := by
  obtain ⟨tables, stored⟩ := tables
  have room := stored.length_le
  have two : 2 ≤ tables.encode.length := by
    simp only [Tables.encode, List.length_append, List.length_cons, List.length_nil]
    omega
  have start : 14 ≤ lineSection.tablesOffset := by
    unfold LineSection.tablesOffset sizeofMyDwLhdr
    split <;> omega
  rw [List.length_drop] at room
  omega

/-- What is passed on to the directories. -/
theorem standardOpcodeLengths_ensures :
    Ensures (standardOpcodeLengths (lineSection.memory lhdr) lhdr)
      (fun lengths => lengths + BitVec.ofNat 64 (lineSection.value .opcodeBase) - 1 =
        lhdr + BitVec.ofNat 64 lineSection.tablesOffset) raised := by
  apply Ensures.bind version_ensures
  intro version same
  subst same
  rw [LineSection.tablesOffset]
  apply Ensures.ite
  · intro early
    rw [if_pos early]
    exact .pure (lengths_end lhdr 8 _)
  · intro late
    rw [if_neg late]
    exact .pure (lengths_end lhdr 9 _)

theorem dwarfLinesConfig_ensures (fuel : Nat) :
    Ensures (dwarfLinesConfig (lineSection.memory lhdr) fuel lhdr)
      (fun lconf => lconf.lhdr = lhdr ∧ HasTables lineSection) raised := by
  apply Ensures.bind standardOpcodeLengths_ensures
  intro lengths start
  apply Ensures.bind (value_ensures .opcodeBase)
  intro opcodeBase same
  subst same
  rw [start]
  apply Ensures.bind (storeDirectoriesFrom_ensures fuel [] _)
  intro found directories
  apply Ensures.bind (storeFilesFrom_ensures fuel [] found.2)
  intro _ files
  obtain ⟨paths, first⟩ := directories
  obtain ⟨entries, next, second⟩ := files
  obtain ⟨tables, holds⟩ := tables_hold first second
  exact .pure ⟨rfl, tables, (holds_mapped lineSection.fits tables_small).mp holds⟩

theorem standardOpcodeLengths_returns (header : 16 ≤ lineSection.bytes.length) :
    ∃ lengths, Returns (standardOpcodeLengths (lineSection.memory lhdr) lhdr) lengths ∧
      lengths + BitVec.ofNat 64 (lineSection.value .opcodeBase) - 1 =
        lhdr + BitVec.ofNat 64 lineSection.tablesOffset := by
  have version : Returns (load (lineSection.memory lhdr) (lhdr + BitVec.ofNat 64 4) 2)
      lineSection.version := load_field header (by decide)
  rw [LineSection.tablesOffset]
  by_cases early : lineSection.version < 4
  · refine ⟨lhdr + BitVec.ofNat 64 (sizeofMyDwLhdr + 9), version.bind ?_, ?_⟩
    · rw [if_pos early]
      exact .pure _
    · rw [if_pos early]
      exact lengths_end lhdr 8 _
  · refine ⟨lhdr + BitVec.ofNat 64 (sizeofMyDwLhdr + 10), version.bind ?_, ?_⟩
    · rw [if_neg early]
      exact .pure _
    · rw [if_neg early]
      exact lengths_end lhdr 9 _

theorem dwarfLinesConfig_yields (tables : HasTables lineSection) :
    ∃ lconf, Yields (fun fuel => dwarfLinesConfig (lineSection.memory lhdr) fuel lhdr) lconf ∧
      lconf.lhdr = lhdr := by
  have header := header_of_tables tables
  obtain ⟨tables, stored⟩ := tables
  have holds : Holds (lineSection.memory lhdr)
      (lhdr + BitVec.ofNat 64 lineSection.tablesOffset) tables.encode :=
    (holds_mapped lineSection.fits tables_small).mpr stored
  obtain ⟨lengths, returns, start⟩ := standardOpcodeLengths_returns header
  obtain ⟨directories, next, files, listed, found⟩ := tables_yields tables holds
  refine ⟨⟨lhdr, lengths, directories, files⟩, ?_, rfl⟩
  apply Yields.bind (.of_returns returns)
  apply Yields.bind (.of_returns ((header_reads header).returns .opcodeBase))
  rw [start]
  exact listed.bind (found.bind (.pure _))

end Header

/-! ## The program -/

section Run

variable {lineSection : LineSection} {lhdr : Addr} {size : Word}

theorem prefix_drop {whole first rest : List Byte} (starts : first <+: whole)
    (goesOn : rest <+: whole.drop first.length) : first ++ rest <+: whole := by
  obtain ⟨behind, rfl⟩ := starts
  rw [List.drop_left] at goesOn
  exact (List.prefix_append_right_inj first).mpr goesOn

theorem HasProgram.cons {offset : Nat} {instruction : LineInstruction}
    {program : List LineInstruction} {rest : List Byte}
    (executable : instruction.Executable lineSection.fields)
    (stored : instruction.encode <+: lineSection.bytes.drop offset)
    (later : HasProgram lineSection (offset + instruction.encode.length) program rest) :
    HasProgram lineSection offset (instruction :: program) rest where
  executable := by
    intro other member
    cases List.mem_cons.mp member with
    | inl same => exact same ▸ executable
    | inr behind => exact later.executable other behind
  stored := by
    rw [encode_cons, List.append_assoc]
    apply prefix_drop stored
    rw [List.drop_drop]
    exact later.stored

/-- An instruction that was read lies in the section, and the pointer stays in reach. -/
theorem instruction_inside {offset : Nat} (small : offset < 2 ^ 64)
    {instruction : LineInstruction} {next : Addr}
    (spans : Spans (lineSection.memory lhdr) (lhdr + BitVec.ofNat 64 offset)
      instruction.encode next) :
    instruction.encode <+: lineSection.bytes.drop offset ∧
      offset + instruction.encode.length < 2 ^ 64 ∧
        next = lhdr + BitVec.ofNat 64 (offset + instruction.encode.length) := by
  obtain ⟨holds, ends⟩ := spans
  rw [LineSection.memory, holds_mapped lineSection.fits small] at holds
  have room := holds.length_le
  have fits := lineSection.fits
  have positive := instruction.encode_length
  rw [List.length_drop] at room
  refine ⟨holds, by omega, ?_⟩
  rw [ends, BitVec.add_assoc, ← BitVec.ofNat_add]

/-- The loop stops behind the first instruction that uses up the size, unless it comes to
bytes that are no instruction. -/
theorem runFrom_ensures (reads : HeaderReads (lineSection.memory lhdr) lhdr lineSection.value)
    (fuel start i : Nat) (small : start + i < 2 ^ 64) {run : LineRun}
    (ptr : run.ptr = lhdr + BitVec.ofNat 64 (start + i)) :
    Ensures (runFrom (lineSection.memory lhdr) lhdr size fuel (BitVec.ofNat 64 i) run)
      (fun _ => ∃ program, HasProgram lineSection (start + i) program [] ∧
        size.toNat ≤ i + (encode program).length)
      (fun thrown => thrown = .dwarfException ∧ ∃ program unknown,
        HasProgram lineSection (start + i) program unknown ∧
          Unknown lineSection.fields unknown ∧ i + (encode program).length < size.toNat) := by
  have count : (BitVec.ofNat 64 i).toNat = i := by
    rw [BitVec.toNat_ofNat, Nat.mod_eq_of_lt (by omega)]
  induction fuel generalizing i run with
  | zero => exact .noReturn
  | succ fuel inductionHypothesis =>
      apply Ensures.ite
      · intro more
        rw [BitVec.lt_def, count] at more
        have first : Ensures (runInstruction (lineSection.memory lhdr) lhdr fuel run)
            (fun next => ReadsInstruction (lineSection.memory lhdr) lineSection.fields run.ptr
              next.ptr)
            (ReadsUnknown (lineSection.memory lhdr) lineSection.fields run.ptr) :=
          runInstruction_ensures reads
        rw [ptr] at first
        refine Ensures.bind (first.consequence (fun _ found => found) ?_) ?_
        · intro thrown found
          obtain ⟨rfl, unknown, isUnknown, holds⟩ := found
          rw [LineSection.memory, holds_mapped lineSection.fits small] at holds
          exact ⟨rfl, [], unknown, ⟨by simp, holds⟩, isUnknown, more⟩
        · intro next found
          obtain ⟨instruction, executable, spans⟩ := found
          have consumed : BitVec.ofNat 64 i + (next.ptr - run.ptr) =
              BitVec.ofNat 64 (i + instruction.encode.length) := by
            have ends := spans.ends
            rw [← ptr] at ends
            rw [consumed_bytes ends, BitVec.ofNat_add]
          rw [consumed]
          have position : start + (i + instruction.encode.length) =
              start + i + instruction.encode.length := (Nat.add_assoc _ _ _).symm
          obtain ⟨holds, inside, behind⟩ := instruction_inside small spans
          rw [← position] at inside behind
          have next_count : (BitVec.ofNat 64 (i + instruction.encode.length)).toNat =
              i + instruction.encode.length := by
            rw [BitVec.toNat_ofNat, Nat.mod_eq_of_lt (by omega)]
          apply (inductionHypothesis _ inside behind next_count).consequence
          · intro last rest
            obtain ⟨program, later, whole⟩ := rest
            rw [position] at later
            refine ⟨instruction :: program, .cons executable holds later, ?_⟩
            rw [encode_cons_length]
            omega
          · intro thrown rest
            obtain ⟨rfl, program, unknown, later, isUnknown, before⟩ := rest
            rw [position] at later
            refine ⟨rfl, instruction :: program, unknown, .cons executable holds later,
              isUnknown, ?_⟩
            rw [encode_cons_length]
            omega
      · intro done
        rw [BitVec.lt_def, count] at done
        exact .pure ⟨[], ⟨by simp, by simp [encode]⟩, Nat.le_of_not_lt done⟩

end Run

/-! ## The lines of a section -/

section Lines

variable {lineSection : LineSection} {lhdr : Addr}

theorem programOffset_small : lineSection.programOffset < 2 ^ 64 := by
  have small := lineSection.headerLength_lt
  unfold LineSection.programOffset sizeofMyDwLhdr
  omega

theorem programSize_toNat :
    (lineSection.programSize.setWidth 64 : Word).toNat = lineSection.programSize.toNat := by
  have small := lineSection.programSize.isLt
  rw [BitVec.toNat_setWidth]
  omega

theorem runMachine_ensures (header : 16 ≤ lineSection.bytes.length) (fuel : Nat) (sm : MyDwSm) :
    Ensures (runMachine (lineSection.memory lhdr) lhdr fuel sm)
      (fun _ => ∃ program, HasProgram lineSection lineSection.programOffset program [] ∧
        lineSection.programSize.toNat ≤ (encode program).length)
      (fun thrown => thrown = .dwarfException ∧ ∃ program unknown,
        HasProgram lineSection lineSection.programOffset program unknown ∧
          Unknown lineSection.fields unknown ∧
            (encode program).length < lineSection.programSize.toNat) := by
  have reads : HeaderReads (lineSection.memory lhdr) lhdr lineSection.value := header_reads header
  apply Ensures.bind (.of_returns (reads.returns .headerLength))
  intro headerLength same
  subst same
  apply Ensures.bind (.of_returns (unitLength_reads header))
  intro unitLength same
  subst same
  have run : Ensures (runFrom (lineSection.memory lhdr) lhdr
      (lineSection.programSize.setWidth 64) fuel 0 (lineSection.start lhdr sm)) _ _ :=
    runFrom_ensures reads fuel lineSection.programOffset 0 programOffset_small rfl
  simp only [programSize_toNat, Nat.zero_add, Nat.add_zero] at run
  apply Ensures.bind run
  intro last found
  exact .pure found

/-- A program that fills the size is executed to its end. -/
theorem program_yields (header : 16 ≤ lineSection.bytes.length) {program : List LineInstruction}
    (stored : HasProgram lineSection lineSection.programOffset program []) {size : Word}
    (whole : (encode program).length = size.toNat) (sm : MyDwSm) :
    ∃ last, Yields (fun fuel => runFrom (lineSection.memory lhdr) lhdr size fuel 0
        (lineSection.start lhdr sm)) last ∧
      last.ptr = (lineSection.start lhdr sm).ptr + size := by
  have holds : Holds (lineSection.memory lhdr) (lineSection.start lhdr sm).ptr
      (encode program) := by
    have starts := stored.stored
    rw [List.append_nil] at starts
    exact (holds_mapped lineSection.fits programOffset_small).mpr starts
  obtain ⟨last, yields, ptr, _⟩ :=
    runFrom_yields (header_reads header) stored.executable _ holds whole
  rw [whole, BitVec.ofNat_toNat, BitVec.setWidth_eq] at ptr
  exact ⟨last, yields, ptr⟩

/-- What was read where the lines were returned or an exception raised. -/
theorem dwarfLines_ensures (fuel : Nat) :
    Ensures (dwarfLines (lineSection.memory lhdr) fuel lhdr)
      (fun _ => HasTables lineSection ∧
        ∃ program, HasProgram lineSection lineSection.programOffset program [] ∧
          lineSection.programSize.toNat ≤ (encode program).length)
      (fun thrown => thrown = .dwarfException ∧ ReachesUnknown lineSection) := by
  apply Ensures.bind (dwarfLinesConfig_ensures fuel)
  intro lconf found
  obtain ⟨same, tables⟩ := found
  rw [same]
  have header := header_of_tables tables
  have reads : HeaderReads (lineSection.memory lhdr) lhdr lineSection.value := header_reads header
  obtain ⟨sm, initialised, _⟩ := resetMachine_returns reads
  apply Ensures.bind (.of_returns initialised)
  intro _ _
  apply Ensures.bind ((runMachine_ensures header fuel _).consequence (fun _ found => found) ?_)
  · intro states found
    exact .pure ⟨tables, found⟩
  · intro thrown found
    exact ⟨found.1, tables, found.2⟩

theorem runMachine_yields (header : 16 ≤ lineSection.bytes.length)
    {program : List LineInstruction}
    (stored : HasProgram lineSection lineSection.programOffset program [])
    (whole : (encode program).length = lineSection.programSize.toNat) (sm : MyDwSm) :
    ∃ states, Yields (fun fuel => runMachine (lineSection.memory lhdr) lhdr fuel sm) states := by
  rw [← programSize_toNat] at whole
  obtain ⟨last, yields, _⟩ := program_yields header stored whole sm
  refine ⟨last.states, ?_⟩
  apply Yields.bind (.of_returns ((header_reads header).returns .headerLength))
  apply Yields.bind (.of_returns (unitLength_reads header))
  exact yields.bind (.pure _)

/-- The loop comes to bytes that are no instruction before the size is used up. -/
theorem runMachine_raises (header : 16 ≤ lineSection.bytes.length)
    {program : List LineInstruction} {unknown : List Byte}
    (stored : HasProgram lineSection lineSection.programOffset program unknown)
    (isUnknown : Unknown lineSection.fields unknown)
    (before : (encode program).length < lineSection.programSize.toNat) (sm : MyDwSm) :
    Raises (fun fuel => runMachine (lineSection.memory lhdr) lhdr fuel sm) .dwarfException := by
  have reads : HeaderReads (lineSection.memory lhdr) lhdr lineSection.value := header_reads header
  have holds : Holds (lineSection.memory lhdr) (lineSection.start lhdr sm).ptr
      (encode program ++ unknown) :=
    (holds_mapped lineSection.fits programOffset_small).mpr stored.stored
  obtain ⟨first, behind⟩ := holds_append.mp holds
  have size : (lineSection.programSize.setWidth 64 : Word).toNat = lineSection.programSize.toNat :=
    programSize_toNat
  have small := lineSection.programSize.isLt
  have room : (0 : Word).toNat + (encode program).length ≤
      (lineSection.programSize.setWidth 64 : Word).toNat := by
    rw [size]
    exact (Nat.zero_add _).trans_le before.le
  obtain ⟨next, goesOn, ptr, _⟩ := runFrom_goesOn reads stored.executable _ first room
  have more : 0 + BitVec.ofNat 64 (encode program).length <
      (lineSection.programSize.setWidth 64 : Word) := by
    have zero : 0 + BitVec.ofNat 64 (encode program).length =
      BitVec.ofNat 64 (encode program).length := BitVec.zero_add _
    rw [zero, BitVec.lt_def, size, BitVec.toNat_ofNat, Nat.mod_eq_of_lt (by omega)]
    exact before
  rw [← ptr] at behind
  apply Raises.of_bind (.of_returns (reads.returns .headerLength))
  apply Raises.of_bind (.of_returns (unitLength_reads header))
  apply Raises.bind
  apply goesOn.raises
  exact .succ (fun fuel => runFrom_more more fuel next)
    (runInstruction_raises reads isUnknown behind).bind

theorem dwarfLines_yields (tables : HasTables lineSection) {program : List LineInstruction}
    (stored : HasProgram lineSection lineSection.programOffset program [])
    (whole : (encode program).length = lineSection.programSize.toNat) :
    ∃ lines, Yields (fun fuel => dwarfLines (lineSection.memory lhdr) fuel lhdr) lines := by
  have header := header_of_tables tables
  obtain ⟨lconf, configured, same⟩ := dwarfLinesConfig_yields tables
  obtain ⟨sm, initialised, _⟩ := resetMachine_returns (header_reads header)
  obtain ⟨states, ran⟩ := runMachine_yields header stored whole sm
  refine ⟨{ lconf, states }, ?_⟩
  apply Yields.bind configured
  rw [same]
  apply Yields.bind (.of_returns initialised)
  exact ran.bind (.pure _)

theorem dwarfLines_raises (reaches : ReachesUnknown lineSection) :
    Raises (fun fuel => dwarfLines (lineSection.memory lhdr) fuel lhdr) .dwarfException := by
  obtain ⟨tables, program, unknown, stored, isUnknown, before⟩ := reaches
  have header := header_of_tables tables
  obtain ⟨lconf, configured, same⟩ := dwarfLinesConfig_yields tables
  obtain ⟨sm, initialised, _⟩ := resetMachine_returns (header_reads header)
  apply Raises.of_bind configured
  rw [same]
  apply Raises.of_bind (.of_returns initialised)
  exact (runMachine_raises header stored isUnknown before sm).bind

/-- Exactly the sections that reach an unknown opcode are rejected. -/
theorem raises_iff :
    Raises (fun fuel => dwarfLines (lineSection.memory lhdr) fuel lhdr) .dwarfException ↔
      ReachesUnknown lineSection := by
  constructor
  · intro raises
    exact (Ensures.raises dwarfLines_ensures raises).2
  · exact dwarfLines_raises

end Lines

/-! ## The first unit alone -/

section FirstUnit

variable {lineSection : LineSection} {lhdr : Addr}

theorem unitEnd_lt : lineSection.unitEnd < 2 ^ 64 := by
  have small := lineSection.unitLength_lt
  unfold LineSection.unitEnd
  omega

theorem firstUnit_length : lineSection.firstUnit.bytes.length ≤ lineSection.unitEnd :=
  List.length_take_le _ _

theorem firstUnit_number (header : 16 ≤ lineSection.firstUnit.bytes.length) {offset size : Nat}
    (inside : offset + size ≤ 16) :
    leNatAt lineSection.firstUnit.bytes offset size = leNatAt lineSection.bytes offset size :=
  leNatAt_take (inside.trans (header.trans firstUnit_length))

/-- A header that fits into the unit is the header of the section. -/
theorem firstUnit_value (header : 16 ≤ lineSection.firstUnit.bytes.length) (key : MyDwKey) :
    lineSection.firstUnit.value key = lineSection.value key := by
  obtain ⟨inside2, inside4⟩ := field_inside key
  have version : lineSection.firstUnit.version = lineSection.version :=
    firstUnit_number header (by decide)
  unfold LineSection.value
  rw [version, firstUnit_number header inside2, firstUnit_number header inside4]

theorem within_iff (lines : MyDwLines) :
    YieldsWithin (InFirstUnit lineSection lhdr)
        (fun fuel => dwarfLines (lineSection.memory lhdr) fuel lhdr) lines ↔
      Yields (fun fuel => dwarfLines (lineSection.firstUnit.memory lhdr) fuel lhdr) lines :=
  Restricts.yieldsWithin_iff (fun fuel => dwarfLines_restricts (first_window unitEnd_lt) lhdr fuel)
    lines

theorem programSize_eq (room : lineSection.value .headerLength + 6 ≤ lineSection.unitLength) :
    lineSection.programSize.toNat =
      lineSection.unitLength - lineSection.value .headerLength - 6 := by
  have small := lineSection.unitLength_lt
  have header := lineSection.headerLength_lt
  unfold LineSection.programSize
  rw [BitVec.toNat_sub, BitVec.toNat_sub, BitVec.toNat_ofNat, BitVec.toNat_ofNat]
  simp only [BitVec.reduceToNat]
  omega

theorem firstUnit_program (header : 16 ≤ lineSection.firstUnit.bytes.length) :
    lineSection.firstUnit.programOffset = lineSection.programOffset ∧
      lineSection.firstUnit.programSize = lineSection.programSize ∧
        lineSection.firstUnit.fields = lineSection.fields := by
  have value : lineSection.firstUnit.value = lineSection.value :=
    funext (firstUnit_value header)
  have length : lineSection.firstUnit.unitLength = lineSection.unitLength :=
    firstUnit_number header (by decide)
  unfold LineSection.programOffset LineSection.programSize LineSection.fields
  rw [value, length]
  exact ⟨rfl, rfl, rfl⟩

/-- A program in the unit is one in the section. -/
theorem firstUnit_stored (header : 16 ≤ lineSection.firstUnit.bytes.length) {offset : Nat}
    {program : List LineInstruction} {rest : List Byte}
    (stored : HasProgram lineSection.firstUnit offset program rest) :
    HasProgram lineSection offset program rest where
  executable := by
    rw [← (firstUnit_program header).2.2]
    exact stored.executable
  stored := by
    apply stored.stored.trans
    show (lineSection.bytes.take _).drop offset <+: _
    rw [List.drop_take]
    exact List.take_prefix _ _

theorem wellFormed_reads (wellFormed : WellFormed lineSection) :
    ReadsFirstUnit lineSection lhdr := by
  obtain ⟨format, version, tables, program, stored, whole⟩ := wellFormed
  have header := header_of_tables tables
  obtain ⟨offset, size, _⟩ := firstUnit_program header
  have room : lineSection.value .headerLength + 6 ≤ lineSection.unitLength := by omega
  have sizes := programSize_eq room
  have small := lineSection.unitLength_lt
  refine ⟨format, version, room, ?_, ?_⟩
  · have filled : (encode program).length = lineSection.firstUnit.programSize.toNat := by
      rw [size]
      omega
    obtain ⟨lines, yields⟩ := dwarfLines_yields tables stored filled
    exact ⟨lines, (within_iff lines).mpr yields⟩
  · have long : 16 ≤ lineSection.bytes.length :=
      header.trans (List.length_take_le' _ _)
    rw [offset] at stored
    obtain ⟨sm, initialised, _⟩ := resetMachine_returns (header_reads long)
    have filled : (encode program).length =
        (BitVec.ofNat 64 (lineSection.unitLength - lineSection.value .headerLength - 6)).toNat := by
      rw [BitVec.toNat_ofNat]
      omega
    obtain ⟨last, yields, ptr⟩ :=
      program_yields long (firstUnit_stored header stored) filled sm
    exact ⟨sm, last, initialised, yields, ptr⟩

theorem reads_wellFormed (reads : ReadsFirstUnit lineSection lhdr) : WellFormed lineSection := by
  obtain ⟨format, version, room, ⟨lines, within⟩, _⟩ := reads
  obtain ⟨tables, program, stored, enough⟩ :=
    Ensures.yields dwarfLines_ensures ((within_iff lines).mp within)
  have header := header_of_tables tables
  obtain ⟨offset, size, _⟩ := firstUnit_program header
  refine ⟨format, version, tables, program, stored, ?_⟩
  have inside := stored.stored.length_le
  have bound : lineSection.firstUnit.bytes.length ≤ 4 + lineSection.unitLength := firstUnit_length
  rw [List.append_nil, List.length_drop, offset, LineSection.programOffset,
    sizeofMyDwLhdr] at inside
  rw [size, programSize_eq room] at enough
  omega

/-- Malformed sections are rejected exactly where the bytes of the first unit are those of
a supported one, or its program comes to an opcode that is none. -/
theorem rejectsMalformed_iff (lineSection : LineSection) (lhdr : Addr) :
    RejectsMalformed lineSection lhdr ↔ WellFormed lineSection ∨ ReachesUnknown lineSection := by
  constructor
  · intro rejects
    cases rejects with
    | inl raises => exact .inr (raises_iff.mp raises)
    | inr reads => exact .inl (reads_wellFormed reads)
  · intro either
    cases either with
    | inl wellFormed => exact .inr (wellFormed_reads wellFormed)
    | inr reaches => exact .inl (raises_iff.mpr reaches)

end FirstUnit

/-! ## A unit that is not supported -/

/-- A header in the layout of version 4, empty tables, and the end of a sequence. -/
def endOfSequence (version : Byte) : LineSection where
  bytes := [17, 0, 0, 0, version, 0, 8, 0, 0, 0, 1, 1, 1, 0xfb, 14, 1, 0, 0, 0, 1, 1]
  fits := (by decide : 21 < 2 ^ 64)

theorem one_encoded : IsLeb128 [1] := by decide

def onlyEnd : List LineInstruction := [.endSequence ⟨[1], one_encoded⟩]

theorem onlyEnd_executable (header : Header) :
    ∀ instruction ∈ onlyEnd, instruction.Executable header := by
  intro instruction member
  obtain rfl := List.mem_singleton.mp member
  exact ⟨fun _ same => (by cases same), trivial⟩

example : WellFormed (endOfSequence 4) where
  format := by decide
  version := by decide
  tables := ⟨⟨[], []⟩, by decide⟩
  program := ⟨onlyEnd, ⟨onlyEnd_executable _, by decide⟩, by decide⟩

/-- Version 5 is taken for version 4. -/
theorem version5_accepted :
    (∃ lines, Yields (fun fuel => dwarfLines ((endOfSequence 5).memory 0) fuel 0) lines) ∧
      ¬ RejectsMalformed (endOfSequence 5) 0 := by
  have tables : HasTables (endOfSequence 5) := ⟨⟨[], []⟩, by decide⟩
  have stored : HasProgram (endOfSequence 5) (endOfSequence 5).programOffset onlyEnd [] :=
    ⟨onlyEnd_executable _, by decide⟩
  obtain ⟨lines, yields⟩ := dwarfLines_yields tables stored (by decide)
  refine ⟨⟨lines, yields⟩, ?_⟩
  intro rejects
  cases rejects with
  | inl raises => exact raises.not_yields lines yields
  | inr reads => exact absurd reads.version (by decide)

end MyDbg.Infos
