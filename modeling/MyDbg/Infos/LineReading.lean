import MyDbg.Infos.DwarfLines
import MyDbg.Infos.LineRows

/-!
Contract: what is in memory where line number information is read.

Owns: that the readers of the tables return exactly where tables are stored,
and what they return; that an instruction was stored where one was executed,
with the pointer left behind it; and that the bytes of no instruction were where
one was rejected, which they always are.

Does not own: that instructions are executed where they are stored, or which
bytes are in the unit.
-/

namespace MyDbg.Infos

open LittleEndian ProgramLogic LineNumbers

/-! ## Bytes and the pointer behind them -/

/-- `bytes` are stored at `ptr`, up to `next`. -/
structure Spans (memory : PartialMemory) (ptr : Addr) (bytes : List Byte) (next : Addr) : Prop where
  holds : Holds memory ptr bytes
  ends : next = ptr + BitVec.ofNat 64 bytes.length

namespace Spans

variable {memory : PartialMemory} {ptr middle next : Addr} {bytes rest : List Byte}

theorem nil (ptr : Addr) : Spans memory ptr [] ptr :=
  ⟨trivial, (BitVec.add_zero ptr).symm⟩

theorem append (first : Spans memory ptr bytes middle) (second : Spans memory middle rest next) :
    Spans memory ptr (bytes ++ rest) next := by
  obtain ⟨start, rfl⟩ := first
  obtain ⟨later, rfl⟩ := second
  refine ⟨holds_append.mpr ⟨start, later⟩, ?_⟩
  rw [List.length_append, BitVec.ofNat_add, BitVec.add_assoc]

theorem byte {byte : Byte} (stored : memory ptr = some byte) : Spans memory ptr [byte] (ptr + 1) :=
  ⟨⟨stored, trivial⟩, rfl⟩

theorem cons {byte : Byte} (stored : memory ptr = some byte)
    (spans : Spans memory (ptr + 1) rest next) : Spans memory ptr (byte :: rest) next :=
  (Spans.byte stored).append spans

theorem split (spans : Spans memory ptr (bytes ++ rest) next) :
    ∃ middle, Spans memory ptr bytes middle ∧ Spans memory middle rest next := by
  obtain ⟨start, later⟩ := holds_append.mp spans.holds
  refine ⟨_, ⟨start, rfl⟩, ⟨later, ?_⟩⟩
  rw [spans.ends, List.length_append, BitVec.ofNat_add, BitVec.add_assoc]

end Spans

theorem nonzero_toNat {byte : Byte} (nonzero : byte ≠ 0) : byte.toNat ≠ 0 :=
  fun zero => nonzero (BitVec.eq_of_toNat_eq zero)

variable {memory : PartialMemory} {raised : MyException → Prop}

/-! ## Numbers and strings -/

theorem readLeb128From_ensures (fuel shift : Nat) (result : Word) (ptr : Addr) :
    Ensures (readLeb128From memory fuel shift result ptr)
      (fun read => ∃ operand : Leb128, Spans memory ptr operand.1 read.2) raised := by
  induction fuel generalizing shift result ptr with
  | zero => exact .noReturn
  | succ fuel inductionHypothesis =>
      apply Ensures.bind load_byte_ensures
      intro loaded here
      obtain ⟨byte, stored, rfl⟩ := here
      have whole : BitVec.ofNat 8 byte.toNat = byte := by
        rw [BitVec.ofNat_toNat, BitVec.setWidth_eq]
      simp only [whole]
      apply Ensures.ite
      · intro last
        exact .pure ⟨⟨[byte], (high_bit byte).mp last⟩, .byte stored⟩
      · intro more
        apply (inductionHypothesis _ _ _).mono
        intro read behind
        obtain ⟨operand, spans⟩ := behind
        rw [high_bit, Nat.not_lt] at more
        exact ⟨⟨byte :: operand.1, .cons more operand.2⟩, .cons stored spans⟩

theorem readLeb128_ensures (fuel : Nat) (ptr : Addr) :
    Ensures (readLeb128 memory fuel ptr)
      (fun read => ∃ operand : Leb128, Spans memory ptr operand.1 read.2) raised :=
  readLeb128From_ensures fuel 0 0 ptr

/-- The end of a table or a string, or something before it. -/
theorem terminator_ensures {α : Type} {str : Addr} {yes no : Reading α} {ok : α → Prop}
    (zero : memory str = some 0 → Ensures yes ok raised)
    (more : ∀ byte, memory str = some byte → byte.toNat ≠ 0 → Ensures no ok raised) :
    Ensures (do let c ← load memory str 1; if c = 0 then yes else no) ok raised := by
  apply Ensures.bind load_byte_ensures
  intro loaded here
  obtain ⟨byte, stored, rfl⟩ := here
  apply Ensures.ite
  · intro isZero
    have same : byte = 0 := BitVec.eq_of_toNat_eq isZero
    exact zero (same ▸ stored)
  · exact more byte stored

theorem stringEnd_ensures (fuel : Nat) (str : Addr) :
    Ensures (stringEnd memory fuel str)
      (fun next => ∃ string, 0 ∉ string ∧ Spans memory str (string ++ [0]) next) raised := by
  induction fuel generalizing str with
  | zero => exact .noReturn
  | succ fuel inductionHypothesis =>
      apply terminator_ensures
      · intro stored
        exact .pure ⟨[], by simp, .byte stored⟩
      · intro byte stored nonzero
        apply (inductionHypothesis _).mono
        intro next behind
        obtain ⟨string, terminated, spans⟩ := behind
        refine ⟨byte :: string, ?_, .cons stored spans⟩
        intro member
        cases List.mem_cons.mp member with
        | inl same => exact nonzero (same ▸ rfl)
        | inr later => exact terminated later

theorem stringEnd_yields {string : List Byte} (terminated : 0 ∉ string) {str next : Addr}
    (spans : Spans memory str (string ++ [0]) next) :
    Yields (fun fuel => stringEnd memory fuel str) next := by
  induction string generalizing str with
  | nil =>
      obtain ⟨holds, rfl⟩ := spans
      apply Yields.succ fun fuel => rfl
      apply Yields.bind (.of_returns (load_byte holds.1))
      exact .pure _
  | cons byte string inductionHypothesis =>
      have nonzero : byte ≠ 0 := fun zero => terminated (by simp [zero])
      have later : 0 ∉ string := fun member => terminated (List.mem_cons_of_mem byte member)
      have spans : Spans memory str ([byte] ++ (string ++ [0])) next := spans
      obtain ⟨middle, first, rest⟩ := spans.split
      obtain ⟨here, rfl⟩ := first
      apply Yields.succ fun fuel => rfl
      apply Yields.bind (.of_returns (load_byte here.1))
      simp only [if_neg (nonzero_toNat nonzero)]
      exact inductionHypothesis later rest

/-- A string whose first character was seen is not empty. -/
theorem path_ensures (fuel : Nat) {str : Addr} {byte : Byte} (stored : memory str = some byte)
    (nonzero : byte.toNat ≠ 0) :
    Ensures (stringEnd memory fuel str)
      (fun next => ∃ path : PathName, Spans memory str (encodePath path) next) raised := by
  apply (stringEnd_ensures fuel str).mono
  intro next behind
  obtain ⟨string, terminated, spans⟩ := behind
  refine ⟨⟨string, ?_, terminated⟩, spans⟩
  rintro rfl
  have zero : memory str = some 0 := spans.holds.1
  rw [stored] at zero
  exact nonzero (congrArg BitVec.toNat (Option.some.inj zero))

/-! ## Tables -/

theorem storeDirectoriesFrom_ensures (fuel : Nat) (directories : List Addr) (str : Addr) :
    Ensures (storeDirectoriesFrom memory fuel directories str)
      (fun result => ∃ paths : List PathName,
        Spans memory str (paths.flatMap encodePath ++ [0]) result.2) raised := by
  induction fuel generalizing directories str with
  | zero => exact .noReturn
  | succ fuel inductionHypothesis =>
      apply terminator_ensures
      · intro stored
        exact .pure ⟨[], .byte stored⟩
      · intro byte stored nonzero
        apply Ensures.bind (path_ensures fuel stored nonzero)
        intro next first
        obtain ⟨path, first⟩ := first
        apply (inductionHypothesis _ next).mono
        intro result behind
        obtain ⟨paths, spans⟩ := behind
        refine ⟨path :: paths, ?_⟩
        rw [List.flatMap_cons, List.append_assoc]
        exact first.append spans

theorem path_first (path : PathName) {rest : List Byte} {str next : Addr}
    (spans : Spans memory str (encodePath path ++ rest) next) :
    ∃ byte, memory str = some byte ∧ byte ≠ 0 := by
  obtain ⟨string, nonempty, terminated⟩ := path
  cases string with
  | nil => exact absurd rfl nonempty
  | cons byte string =>
      refine ⟨byte, spans.holds.1, ?_⟩
      rintro rfl
      exact terminated List.mem_cons_self

/-- Where the strings of a table are that starts at `str`. -/
def directoriesAt (str : Addr) : List PathName → List Addr
  | [] => []
  | path :: paths => str :: directoriesAt (str + BitVec.ofNat 64 (encodePath path).length) paths

theorem storeDirectoriesFrom_yields {paths : List PathName} {str next : Addr}
    (spans : Spans memory str (paths.flatMap encodePath ++ [0]) next) (directories : List Addr) :
    Yields (fun fuel => storeDirectoriesFrom memory fuel directories str)
      (directories ++ directoriesAt str paths, next) := by
  induction paths generalizing str directories with
  | nil =>
      obtain ⟨holds, rfl⟩ := spans
      apply Yields.succ fun fuel => rfl
      apply Yields.bind (.of_returns (load_byte holds.1))
      rw [directoriesAt, List.append_nil]
      exact .pure _
  | cons path paths inductionHypothesis =>
      rw [List.flatMap_cons, List.append_assoc] at spans
      obtain ⟨byte, here, nonzero⟩ := path_first path spans
      obtain ⟨middle, first, rest⟩ := spans.split
      apply Yields.succ fun fuel => rfl
      apply Yields.bind (.of_returns (load_byte here))
      simp only [if_neg (nonzero_toNat nonzero)]
      apply (stringEnd_yields path.2.2 first).bind
      have later := inductionHypothesis rest (directories ++ [str])
      rw [← List.append_cons, first.ends] at later
      rw [first.ends]
      exact later

theorem storeFilesFrom_ensures (fuel : Nat) (files : List MyDwFile) (str : Addr) :
    Ensures (storeFilesFrom memory fuel files str)
      (fun _ => ∃ (entries : List FileEntry) (next : Addr),
        Spans memory str (entries.flatMap FileEntry.encode ++ [0]) next) raised := by
  induction fuel generalizing files str with
  | zero => exact .noReturn
  | succ fuel inductionHypothesis =>
      apply terminator_ensures
      · intro stored
        exact .pure ⟨[], _, .byte stored⟩
      · intro byte stored nonzero
        apply Ensures.bind (path_ensures fuel stored nonzero)
        intro ptr name
        apply Ensures.bind (readLeb128_ensures fuel ptr)
        intro index first
        apply Ensures.bind (readLeb128_ensures fuel index.2)
        intro time second
        apply Ensures.bind (readLeb128_ensures fuel time.2)
        intro size third
        apply (inductionHypothesis _ size.2).mono
        intro result behind
        obtain ⟨path, name⟩ := name
        obtain ⟨directory, first⟩ := first
        obtain ⟨lastModification, second⟩ := second
        obtain ⟨length, third⟩ := third
        obtain ⟨entries, next, spans⟩ := behind
        refine ⟨⟨path, directory, lastModification, length⟩ :: entries, next, ?_⟩
        rw [List.flatMap_cons, List.append_assoc]
        exact (name.append (first.append (second.append third))).append spans

theorem readLeb128_spans (operand : Leb128) {ptr next : Addr}
    (spans : Spans memory ptr operand.1 next) :
    Yields (fun fuel => readLeb128 memory fuel ptr) (leb128Value operand, next) := by
  obtain ⟨holds, rfl⟩ := spans
  exact readLeb128_yields operand holds

/-- What is stored for an entry at `str`. -/
def fileAt (str : Addr) (entry : FileEntry) : MyDwFile where
  path := str
  index := leb128Value entry.directory
  lastModification := leb128Value entry.lastModification
  fileSize := leb128Value entry.size

/-- What is stored for the entries of a table that starts at `str`. -/
def filesAt (str : Addr) : List FileEntry → List MyDwFile
  | [] => []
  | entry :: entries =>
      fileAt str entry :: filesAt (str + BitVec.ofNat 64 entry.encode.length) entries

/-- The parts of an entry, one behind the other. -/
structure EntryAt (memory : PartialMemory) (str : Addr) (entry : FileEntry)
    (ptr afterIndex afterTime next : Addr) : Prop where
  path : Spans memory str (encodePath entry.path) ptr
  directory : Spans memory ptr entry.directory.1 afterIndex
  lastModification : Spans memory afterIndex entry.lastModification.1 afterTime
  size : Spans memory afterTime entry.size.1 next
  ends : next = str + BitVec.ofNat 64 entry.encode.length

theorem entry_split {entry : FileEntry} {rest : List Byte} {str last : Addr}
    (spans : Spans memory str (entry.encode ++ rest) last) :
    ∃ ptr afterIndex afterTime next, EntryAt memory str entry ptr afterIndex afterTime next ∧
      Spans memory next rest last := by
  obtain ⟨next, first, behind⟩ := spans.split
  obtain ⟨ptr, path, numbers⟩ := first.split
  obtain ⟨afterIndex, directory, numbers⟩ := numbers.split
  obtain ⟨afterTime, lastModification, size⟩ := numbers.split
  exact ⟨ptr, afterIndex, afterTime, next, ⟨path, directory, lastModification, size, first.ends⟩,
    behind⟩

theorem entry_first (entry : FileEntry) {rest : List Byte} {str next : Addr}
    (spans : Spans memory str (entry.encode ++ rest) next) :
    ∃ byte, memory str = some byte ∧ byte ≠ 0 := by
  rw [FileEntry.encode, List.append_assoc] at spans
  exact path_first entry.path spans

theorem storeFilesFrom_yields {entries : List FileEntry} {str next : Addr}
    (spans : Spans memory str (entries.flatMap FileEntry.encode ++ [0]) next)
    (files : List MyDwFile) :
    Yields (fun fuel => storeFilesFrom memory fuel files str) (files ++ filesAt str entries) := by
  induction entries generalizing str files with
  | nil =>
      apply Yields.succ fun fuel => rfl
      apply Yields.bind (.of_returns (load_byte spans.holds.1))
      rw [filesAt, List.append_nil]
      exact .pure _
  | cons entry entries inductionHypothesis =>
      rw [List.flatMap_cons, List.append_assoc] at spans
      obtain ⟨byte, here, nonzero⟩ := entry_first entry spans
      obtain ⟨_, _, _, middle, stored, rest⟩ := entry_split spans
      apply Yields.succ fun fuel => rfl
      apply Yields.bind (.of_returns (load_byte here))
      simp only [if_neg (nonzero_toNat nonzero)]
      apply Yields.bind (stringEnd_yields entry.path.2.2 stored.path)
      apply Yields.bind (readLeb128_spans entry.directory stored.directory)
      apply Yields.bind (readLeb128_spans entry.lastModification stored.lastModification)
      apply Yields.bind (readLeb128_spans entry.size stored.size)
      have later := inductionHypothesis rest (files ++ [fileAt str entry])
      rw [← List.append_cons] at later
      rw [filesAt, ← stored.ends]
      exact later

theorem tables_hold {paths : List PathName} {entries : List FileEntry} {str middle next : Addr}
    (directories : Spans memory str (paths.flatMap encodePath ++ [0]) middle)
    (files : Spans memory middle (entries.flatMap FileEntry.encode ++ [0]) next) :
    ∃ tables : Tables, Holds memory str tables.encode := by
  have spans := directories.append files
  rw [List.append_assoc] at spans
  exact ⟨⟨paths, entries⟩, spans.holds⟩

/-- The two tables, with the pointer between them. -/
theorem tables_split (tables : Tables) {rest : List Byte} {str last : Addr}
    (spans : Spans memory str (tables.encode ++ rest) last) :
    ∃ middle next, Spans memory str (tables.directories.flatMap encodePath ++ [0]) middle ∧
      Spans memory middle (tables.files.flatMap FileEntry.encode ++ [0]) next ∧
      Spans memory next rest last := by
  have split : tables.encode = (tables.directories.flatMap encodePath ++ [0]) ++
      (tables.files.flatMap FileEntry.encode ++ [0]) := by
    simp [Tables.encode]
  obtain ⟨next, both, behind⟩ := spans.split
  rw [split] at both
  obtain ⟨middle, first, second⟩ := both.split
  exact ⟨middle, next, first, second, behind⟩

theorem tables_yields (tables : Tables) {str : Addr} (holds : Holds memory str tables.encode) :
    ∃ directories next files,
      Yields (fun fuel => storeDirectoriesFrom memory fuel [] str) (directories, next) ∧
        Yields (fun fuel => storeFiles memory fuel next) files := by
  have spans : Spans memory str (tables.encode ++ []) _ :=
    ⟨by rwa [List.append_nil], rfl⟩
  obtain ⟨next, _, first, second, _⟩ := tables_split tables spans
  exact ⟨_, next, _, storeDirectoriesFrom_yields first [], storeFilesFrom_yields second []⟩

/-! ## Instructions -/

section Instructions

variable {lhdr : Addr} {value : MyDwKey → Nat} {run : LineRun} {fuel opcode : Nat}

theorem advance_ensures (reads : HeaderReads memory lhdr value) (sm : MyDwSm) (opAdv : Word) :
    Ensures (advanceAddrAndOpIndex memory lhdr sm opAdv)
      (fun _ => 0 < value .maximumOperationsPerInstruction) raised := by
  apply Ensures.bind (.of_returns (reads.returns .minimumInstructionLength))
  intro _ _
  apply Ensures.bind (.of_returns (reads.returns .maximumOperationsPerInstruction))
  intro maximum same
  apply Ensures.bind checkDivisor_ensures
  intro _ positive
  exact .pure (same ▸ positive)

/-- The fields that every instruction reads that divides by the range of lines. -/
theorem range_ensures {α : Type} {ok : α → Prop} (reads : HeaderReads memory lhdr value)
    {next : Nat → Nat → Reading α}
    (rest : 0 < value .lineRange →
      Ensures (next (value .opcodeBase) (value .lineRange)) ok raised) :
    Ensures (do
      let opcodeBase ← val memory lhdr .opcodeBase
      let lineRange ← val memory lhdr .lineRange
      checkDivisor lineRange
      next opcodeBase lineRange) ok raised := by
  apply Ensures.bind (.of_returns (reads.returns .opcodeBase))
  rintro _ rfl
  apply Ensures.bind (.of_returns (reads.returns .lineRange))
  rintro _ rfl
  apply Ensures.bind checkDivisor_ensures
  intro _ nonzero
  exact rest nonzero

/-- What is known of a standard opcode that was executed. -/
def ReadsStandard (memory : PartialMemory) (header : Header) (opcode : Nat) (run next : LineRun) :
    Prop :=
  ∃ instruction : LineInstruction, instruction.standard = some opcode ∧
    instruction.Defined header ∧ Spans memory run.ptr instruction.encode.tail next.ptr

/-- An opcode with a number for its operand, and nothing to divide by. -/
theorem number_ensures {next : Word × Addr → Reading LineRun}
    (instruction : Leb128 → LineInstruction)
    (standard : ∀ operand, (instruction operand).standard = some opcode)
    (defined : ∀ operand, (instruction operand).Defined (lineFields value))
    (operands : ∀ operand, (instruction operand).encode.tail = operand.1)
    (goesOn : ∀ read, Ensures (next read) (fun run => run.ptr = read.2) raised) :
    Ensures (readLeb128 memory fuel run.ptr >>= next)
      (ReadsStandard memory (lineFields value) opcode run) raised := by
  apply Ensures.bind (readLeb128_ensures fuel run.ptr)
  intro read found
  obtain ⟨operand, spans⟩ := found
  apply (goesOn read).mono
  intro last ptr
  refine ⟨instruction operand, standard operand, defined operand, ?_⟩
  rw [operands, ptr]
  exact spans

theorem standardOpcode_ensures (reads : HeaderReads memory lhdr value) :
    Ensures (standardOpcode memory lhdr fuel run opcode)
      (ReadsStandard memory (lineFields value) opcode run)
      fun thrown => thrown = .dwarfException ∧ (opcode = 0 ∨ 12 < opcode) := by
  rcases opcode with _ | _ | _ | _ | _ | _ | _ | _ | _ | _ | _ | _ | _ | opcode
  · exact .throw ⟨rfl, .inl rfl⟩
  · exact .pure ⟨.copy, rfl, trivial, .nil run.ptr⟩
  · apply Ensures.bind (readLeb128_ensures fuel run.ptr)
    intro read found
    obtain ⟨operand, spans⟩ := found
    apply Ensures.bind (advance_ensures reads run.sm read.1)
    intro sm positive
    exact .pure ⟨.advancePc operand, rfl, positive, spans⟩
  · exact number_ensures .advanceLine (fun _ => rfl) (fun _ => trivial)
      (fun _ => rfl) fun _ => .pure rfl
  · exact number_ensures .setFile (fun _ => rfl) (fun _ => trivial)
      (fun _ => rfl) fun _ => .pure rfl
  · exact number_ensures .setColumn (fun _ => rfl) (fun _ => trivial)
      (fun _ => rfl) fun _ => .pure rfl
  · exact .pure ⟨.negateStmt, rfl, trivial, .nil run.ptr⟩
  · exact .pure ⟨.setBasicBlock, rfl, trivial, .nil run.ptr⟩
  · apply range_ensures reads
    intro nonzero
    apply Ensures.bind (advance_ensures reads run.sm _)
    intro sm positive
    exact .pure ⟨.constAddPc, rfl, ⟨nonzero, positive⟩, .nil run.ptr⟩
  · apply Ensures.bind load_ensures
    intro loaded found
    obtain ⟨bytes, length, holds, rfl⟩ := found
    have stored : leBytes 2 (BitVec.ofNat 16 (leNat bytes)).toNat = bytes := by
      rw [← length]
      exact leBytes_ofNat (by rw [length])
    refine .pure ⟨.fixedAdvancePc (BitVec.ofNat 16 (leNat bytes)), rfl, trivial, ?_⟩
    rw [LineInstruction.encode, List.tail_cons, stored]
    exact ⟨holds, by rw [length]; rfl⟩
  · exact .pure ⟨.setPrologueEnd, rfl, trivial, .nil run.ptr⟩
  · exact .pure ⟨.setEpilogueBegin, rfl, trivial, .nil run.ptr⟩
  · exact number_ensures .setIsa (fun _ => rfl) (fun _ => trivial)
      (fun _ => rfl) fun _ => .pure rfl
  · exact .throw ⟨rfl, .inr (by omega)⟩

/-- What is known of an instruction that was executed. -/
def ReadsInstruction (memory : PartialMemory) (header : Header) (ptr next : Addr) : Prop :=
  ∃ instruction : LineInstruction, instruction.Executable header ∧
    Spans memory ptr instruction.encode next

/-- What is known of an exception. -/
def ReadsUnknown (memory : PartialMemory) (header : Header) (ptr : Addr)
    (thrown : MyException) : Prop :=
  thrown = .dwarfException ∧ ∃ bytes, Unknown header bytes ∧ Holds memory ptr bytes

/-- An extended opcode, behind its length. -/
theorem extendedOpcode_ensures (reads : HeaderReads memory lhdr value) {ptr : Addr}
    {length : Leb128} {byte : Byte}
    (spans : Spans memory ptr (0 :: (length.1 ++ [byte])) run.ptr) :
    Ensures (extendedOpcode memory lhdr fuel run byte.toNat)
      (fun next => ReadsInstruction memory (lineFields value) ptr next.ptr)
      (ReadsUnknown memory (lineFields value) ptr) := by
  have unknown (other : byte.toNat ∉ [1, 2, 4]) :
      ReadsUnknown memory (lineFields value) ptr .dwarfException :=
    ⟨rfl, _, .extended length byte other, spans.holds⟩
  have known {number : Nat} (same : byte.toNat = number) : byte = BitVec.ofNat 8 number := by
    rw [← same, BitVec.ofNat_toNat, BitVec.setWidth_eq]
  generalize number : byte.toNat = opcode at unknown
  rcases opcode with _ | _ | _ | _ | _ | opcode
  · exact .throw (unknown (by decide))
  · obtain rfl := known number
    obtain ⟨sm, returns, _⟩ := resetMachine_returns reads
    apply Ensures.bind (.of_returns returns)
    intro _ _
    exact .pure ⟨.endSequence length, ⟨fun _ same => (by cases same), trivial⟩, spans⟩
  · obtain rfl := known number
    apply Ensures.bind load_ensures
    intro loaded found
    obtain ⟨bytes, count, holds, rfl⟩ := found
    have stored : leBytes 8 (BitVec.ofNat 64 (leNat bytes)).toNat = bytes := by
      rw [← count]
      exact leBytes_ofNat (by rw [count])
    have behind : Spans memory run.ptr bytes (run.ptr + 8) := ⟨holds, by rw [count]; rfl⟩
    refine .pure ⟨.setAddress length (BitVec.ofNat 64 (leNat bytes)),
      ⟨fun _ same => (by cases same), trivial⟩, ?_⟩
    have whole := spans.append behind
    rw [List.cons_append, List.append_assoc] at whole
    rw [LineInstruction.encode, stored]
    exact whole
  · exact .throw (unknown (by decide))
  · obtain rfl := known number
    apply Ensures.bind (readLeb128_ensures fuel run.ptr)
    intro read found
    obtain ⟨operand, behind⟩ := found
    have whole := spans.append behind
    rw [List.cons_append, List.append_assoc] at whole
    exact .pure ⟨.setDiscriminator length operand,
      ⟨fun _ same => (by cases same), trivial⟩, whole⟩
  · exact .throw (unknown (by simp))

theorem extendedInstruction_ensures (reads : HeaderReads memory lhdr value)
    (zero : memory run.ptr = some 0) :
    Ensures (extendedInstruction memory lhdr fuel run)
      (fun next => ReadsInstruction memory (lineFields value) run.ptr next.ptr)
      (ReadsUnknown memory (lineFields value) run.ptr) := by
  apply Ensures.bind (readLeb128_ensures fuel (run.ptr + 1))
  intro read found
  obtain ⟨length, first⟩ := found
  apply Ensures.bind load_byte_ensures
  intro loaded here
  obtain ⟨byte, stored, rfl⟩ := here
  have behind := first.append (.byte stored)
  have spans := Spans.cons zero behind
  exact extendedOpcode_ensures reads spans

theorem standardInstruction_ensures (reads : HeaderReads memory lhdr value) {byte : Byte}
    (stored : memory run.ptr = some byte) (nonzero : byte.toNat ≠ 0)
    (below : byte.toNat < value .opcodeBase) :
    Ensures (standardInstruction memory lhdr fuel run)
      (fun next => ReadsInstruction memory (lineFields value) run.ptr next.ptr)
      (ReadsUnknown memory (lineFields value) run.ptr) := by
  apply Ensures.bind (.of_returns (load_byte stored))
  intro opcode same
  subst same
  have encoded : BitVec.ofNat 8 byte.toNat = byte := by
    rw [BitVec.ofNat_toNat, BitVec.setWidth_eq]
  apply (standardOpcode_ensures reads).consequence
  · intro next found
    obtain ⟨instruction, standard, defined, behind⟩ := found
    have spans := Spans.cons stored behind
    have supported : instruction.Supported (lineFields value) := by
      cases instruction with
      | special opcode => cases standard
      | _ =>
          intro opcode same
          rw [standard] at same
          cases same
          exact below
    refine ⟨instruction, ⟨supported, defined⟩, ?_⟩
    rw [LineInstruction.encode_standard standard, encoded]
    exact spans
  · intro thrown found
    obtain ⟨rfl, other⟩ := found
    have behind : 12 < byte.toNat := by omega
    exact ⟨rfl, [byte], .standard byte behind below, stored, trivial⟩

theorem specialInstruction_ensures (reads : HeaderReads memory lhdr value) (opcode : Byte) :
    Ensures (specialInstruction memory lhdr run opcode)
      (fun next => next.ptr = run.ptr ∧ 0 < value .lineRange ∧
        0 < value .maximumOperationsPerInstruction) raised := by
  apply range_ensures reads
  intro nonzero
  apply Ensures.bind (.of_returns (reads.returns .lineBase))
  intro lineBase _
  apply Ensures.bind (advance_ensures reads _ _)
  intro sm positive
  exact .pure ⟨rfl, nonzero, positive⟩

/-- An instruction that was executed is stored at the pointer, which is left behind it. -/
theorem runInstruction_ensures (reads : HeaderReads memory lhdr value) :
    Ensures (runInstruction memory lhdr fuel run)
      (fun next => ReadsInstruction memory (lineFields value) run.ptr next.ptr)
      (ReadsUnknown memory (lineFields value) run.ptr) := by
  apply Ensures.bind load_byte_ensures
  intro loaded here
  obtain ⟨byte, stored, rfl⟩ := here
  apply Ensures.ite
  · intro zero
    obtain rfl : byte = 0 := BitVec.eq_of_toNat_eq zero
    exact extendedInstruction_ensures reads stored
  · intro nonzero
    apply Ensures.bind (.of_returns (reads.returns .opcodeBase))
    intro opcodeBase same
    subst same
    apply Ensures.ite
    · intro below
      exact standardInstruction_ensures reads stored nonzero below
    · intro above
      apply (specialInstruction_ensures reads _).mono
      intro next found
      obtain ⟨ptr, lineRange, operations⟩ := found
      refine ⟨.special byte, ⟨Nat.le_of_not_lt above, Nat.pos_of_ne_zero nonzero, lineRange,
        operations⟩, ?_⟩
      rw [ptr]
      exact .byte stored

/-- What is no instruction is rejected. -/
theorem runInstruction_raises (reads : HeaderReads memory lhdr value) {bytes : List Byte}
    (unknown : Unknown (lineFields value) bytes) (holds : Holds memory run.ptr bytes) :
    Raises (fun fuel => runInstruction memory lhdr fuel run) .dwarfException := by
  cases unknown with
  | standard opcode behind below =>
      apply Raises.of_bind (.of_returns (load_byte holds.1))
      simp only [if_neg (show ¬ opcode.toNat = 0 by omega)]
      apply Raises.of_bind (.of_returns (reads.returns .opcodeBase))
      have dispatched : opcode.toNat < value .opcodeBase := below
      simp only [if_pos dispatched]
      apply Raises.of_bind (.of_returns (load_byte holds.1))
      obtain ⟨more, same⟩ := Nat.exists_eq_add_of_le' behind
      rw [same]
      exact .throw _
  | extended length opcode other =>
      obtain ⟨operand, last⟩ := holds_append.mp holds.2
      apply Raises.of_bind (.of_returns (load_byte holds.1))
      apply Raises.of_bind (readLeb128_yields length operand)
      apply Raises.of_bind (.of_returns (load_byte last.1))
      generalize opcode.toNat = number at other
      rcases number with _ | _ | _ | _ | _ | number
      · exact .throw _
      · exact absurd (by decide) other
      · exact absurd (by decide) other
      · exact .throw _
      · exact absurd (by decide) other
      · exact .throw _

end Instructions

end MyDbg.Infos
