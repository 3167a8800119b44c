import MyDbg.Infos.FileUtils
import MyDbg.Infos.LineRows
import MyDbg.Infos.LineTables
import MyDbg.Infos.Resolution

/-!
Contract: what `list` prints in a process.

Owns: `elf_section`; `print_line_at_addr` from the executable to the line that is
printed; executables with line number information; the row and the file that this
assigns to an address; and that the line of the file is what is printed.

Does not own: opening and closing the executable.
-/

namespace MyDbg.Infos

open LittleEndian ProgramLogic LineNumbers Lines
open Utils (myPathMax)

/-! ## Sections by name -/

def shtProgbits : Nat := 1

/-- `".debug_line"`. -/
def debugLine : CString :=
  ⟨[0x2e, 0x64, 0x65, 0x62, 0x75, 0x67, 0x5f, 0x6c, 0x69, 0x6e, 0x65], by decide⟩

section Sections

variable (own : PartialMemory)

def elfSectionName (elf sHeaders : Addr) (eShstrndx : BitVec 16) (sh : Addr) : Reading Addr := do
  let strings ← elfStringSection own elf sHeaders eShstrndx.toNat
  let shName ← load own sh 4
  return strings + BitVec.ofNat 64 shName

/-- The loop of `elf_section` from `sh` on, with what is stored in `addr`; `left` headers are
to come. -/
def elfSectionFrom (name : Option CString) (type : Nat) (elf sHeaders : Addr)
    (eShstrndx : BitVec 16) : Nat → Addr → Reading Addr
  | 0, _ => Program.throw .elfException
  | left + 1, sh => do
      let next := elfSectionFrom name type elf sHeaders eShstrndx left
        (sh + BitVec.ofNat 64 sizeofElf64Shdr)
      let other ←
        (match name with
        | none => pure false
        | some name => do
            let string ← elfSectionName own elf sHeaders eShstrndx sh
            let same ← equals own string name.1
            pure !same)
      if other then
        next
      else
        let shType ← load own (sh + 4) 4
        if shType = type then
          let shOffset ← load own (sh + 24) 8
          return elf + BitVec.ofNat 64 shOffset
        else
          next

def elfSection (name : Option CString) (type : Nat) (elf : Addr) (header : Elf64Ehdr)
    (eShstrndx : BitVec 16) (sHeaders : Addr) : Reading Addr :=
  elfSectionFrom own name type elf sHeaders eShstrndx header.eShnum.toNat sHeaders

end Sections

/-- What `elf_section` looks at of a section. -/
structure NamedSection where
  name : CString
  shName : BitVec 32
  shType : BitVec 32
  shOffset : Word

/-- The headers stored from `sh` on, with their names behind `strings`. -/
def NamedSectionsAt (own : PartialMemory) (strings : Addr) : Addr → List NamedSection → Prop
  | _, [] => True
  | sh, contents :: rest =>
      (Holds own sh (leBytes 4 contents.shName.toNat) ∧
        Holds own (strings + contents.shName.setWidth 64) (contents.name.1 ++ [0]) ∧
        Holds own (sh + 4) (leBytes 4 contents.shType.toNat) ∧
        Holds own (sh + 24) (leBytes 8 contents.shOffset.toNat)) ∧
      NamedSectionsAt own strings (sh + BitVec.ofNat 64 sizeofElf64Shdr) rest

section Found

variable {own : PartialMemory} {elf sHeaders sh : Addr} {eShstrndx : BitVec 16} {strings : Word}
  {name : CString} {type : Nat}

/-- The loop stops at the first section with the name and the type. -/
theorem elfSection_returns {sections : List NamedSection} {found : NamedSection}
    (placed : Holds own (sHeaders + BitVec.ofNat 64 (sizeofElf64Shdr * eShstrndx.toNat) + 24)
      (leBytes 8 strings.toNat))
    (stored : NamedSectionsAt own (elf + strings) sh sections)
    (first : sections.find? (fun contents =>
      contents.name = name ∧ contents.shType.toNat = type) = some found) :
    Returns (elfSectionFrom own (some name) type elf sHeaders eShstrndx sections.length sh)
      (elf + found.shOffset) := by
  have base : Returns (elfStringSection own elf sHeaders eShstrndx.toNat) (elf + strings) := by
    apply (load_number placed strings.isLt).bind
    rw [BitVec.ofNat_toNat, BitVec.setWidth_eq]
    exact .pure _
  induction sections generalizing sh with
  | nil => cases first
  | cons contents rest inductionHypothesis =>
      obtain ⟨⟨nameStored, string, typeStored, offset⟩, later⟩ := stored
      have place : Returns (elfSectionName own elf sHeaders eShstrndx sh)
          (elf + strings + contents.shName.setWidth 64) := by
        apply base.bind
        apply (load_number nameStored contents.shName.isLt).bind
        rw [BitVec.ofNat_toNat]
        exact .pure _
      have compared := equals_returns contents.name.2 string name.1 name.2
      have next (passed : ¬ (contents.name = name ∧ contents.shType.toNat = type)) :
          Returns (elfSectionFrom own (some name) type elf sHeaders eShstrndx rest.length
            (sh + BitVec.ofNat 64 sizeofElf64Shdr)) (elf + found.shOffset) := by
        apply inductionHypothesis later
        simpa [passed] using first
      have differs : Returns (equals own (elf + strings + contents.shName.setWidth 64) name.1 >>=
          fun same => pure !same) (!decide (contents.name.1 = name.1)) := compared.bind (.pure _)
      apply (place.bind differs).bind
      by_cases same : contents.name = name
      · have equal : contents.name.1 = name.1 := congrArg Subtype.val same
        rw [decide_eq_true equal]
        apply (load_number typeStored contents.shType.isLt).bind
        by_cases typed : contents.shType.toNat = type
        · obtain rfl : contents = found := by
            simpa [same, typed] using first
          rw [if_pos typed]
          apply (load_number offset contents.shOffset.isLt).bind
          rw [BitVec.ofNat_toNat, BitVec.setWidth_eq]
          exact .pure _
        · rw [if_neg typed]
          exact next fun both => typed both.2
      · have differ : ¬ contents.name.1 = name.1 := fun equal => same (Subtype.ext equal)
        rw [decide_eq_false differ]
        exact next fun both => same both.1

end Found

/-! ## Strings of the debugger -/

/-- The string at `ptr`, or its first `fuel` bytes. -/
def stringFrom (own : PartialMemory) : Nat → Addr → List Byte
  | 0, _ => []
  | fuel + 1, ptr =>
      match own ptr with
      | none => []
      | some c => if c = 0 then [] else c :: stringFrom own fuel (ptr + 1)

theorem stringFrom_string (own : PartialMemory) (fuel : Nat) (ptr : Addr) :
    0 ∉ stringFrom own fuel ptr := by
  induction fuel generalizing ptr with
  | zero => exact List.not_mem_nil
  | succ fuel inductionHypothesis =>
      rw [stringFrom]
      cases own ptr with
      | none => exact List.not_mem_nil
      | some c =>
          by_cases zero : c = 0
          · simp only [if_pos zero]
            exact List.not_mem_nil
          · simp only [if_neg zero, List.mem_cons, not_or]
            exact ⟨Ne.symm zero, inductionHypothesis (ptr + 1)⟩

def textAt (own : PartialMemory) (fuel : Nat) (ptr : Addr) : CString :=
  ⟨stringFrom own fuel ptr, stringFrom_string own fuel ptr⟩

theorem textAt_holds {own : PartialMemory} {string : List Byte} {fuel : Nat} {ptr : Addr}
    (terminated : 0 ∉ string) (holds : Holds own ptr (string ++ [0]))
    (enough : string.length ≤ fuel) : (textAt own fuel ptr).1 = string := by
  change stringFrom own fuel ptr = string
  induction string generalizing fuel ptr with
  | nil =>
      cases fuel with
      | zero => rfl
      | succ fuel =>
          rw [stringFrom, holds.1]
          exact if_pos rfl
  | cons c string inductionHypothesis =>
      obtain ⟨fuel, rfl⟩ : ∃ less, fuel = less + 1 := ⟨fuel - 1, by
        rw [List.length_cons] at enough
        omega⟩
      have nonzero : c ≠ 0 := fun zero => terminated (by simp [zero])
      have rest := inductionHypothesis (fun member => terminated (List.mem_cons_of_mem c member))
        holds.2 (Nat.le_of_succ_le_succ enough)
      rw [stringFrom, holds.1]
      simp only [if_neg nonzero, rest]

/-! ## `print_line_at_addr` -/

section PrintLine

variable (host : FileHost) (memory own : PartialMemory)

/-- `print_line_at_addr`; the executable is mapped at `elf`. -/
def printLineAt (auxv : Option (List Elf64Auxv)) (fuel : Nat) (elf : Addr) (header : Elf64Ehdr)
    (eShstrndx : BitVec 16) (sHeaders addr : Addr) : Viewing Unit := do
  let (baseAddr, _) ← reading (calcBaseAddress memory auxv header)
  let s ← reading (elfSection own debugLine shtProgbits elf header eShstrndx sHeaders)
  let lines ← reading (dwarfLines own fuel s)
  showLineAtAddr host (textAt own fuel) lines addr baseAddr

end PrintLine

/-! ## Executables with line number information -/

/-- The first unit of a line number section, with its tables and its program. -/
structure LineInfo (own : PartialMemory) (sAddr : Addr) where
  header : LineHeader
  lengths : List Byte
  tables : LineNumbers.Tables
  program : List LineInstruction
  numbered : header.opcodeBase.toNat = lengths.length + 1
  stored : Holds own sAddr (header.bytes ++ (lengths ++ tables.encode))
  unit : LineUnit own sAddr header program

/-- A process whose executable has a `.debug_line`. -/
structure ListedProcess extends Process where
  eShstrndx : BitVec 16
  strings : Word
  placed : Holds file.own
    (file.sHeaders + BitVec.ofNat 64 (sizeofElf64Shdr * eShstrndx.toNat) + 24)
    (leBytes 8 strings.toNat)
  named : List NamedSection
  counted : named.length = file.header.eShnum.toNat
  namedStored : NamedSectionsAt file.own (file.elf + strings) file.sHeaders named
  lineSection : NamedSection
  isLineSection : named.find? (fun contents =>
    contents.name = debugLine ∧ contents.shType.toNat = shtProgbits) = some lineSection
  info : LineInfo file.own (file.elf + lineSection.shOffset)

/-- `row` is the last of the rows with the greatest address not above `addr`. -/
def Reaches (rows : List LineRegisters) (base addr : Nat) (row : LineRegisters) : Prop :=
  ∃ before after, rows = before ++ row :: after ∧ base + row.address ≤ addr ∧
    (∀ other ∈ before, base + other.address ≤ addr → other.address ≤ row.address) ∧
    (∀ other ∈ after, base + other.address ≤ addr → other.address < row.address)

/-- The directory of an entry: that of the executable, or the one with its number. -/
def Tables.InDirectory (tables : LineNumbers.Tables) (host : FileHost) (viewer : Viewer)
    (entry : FileEntry) (dir : List Byte) : Prop :=
  if operandValue entry.directory = 0 then FindsExecutable host viewer ∧ dir = host.directory
  else ∃ path, tables.directories[operandValue entry.directory - 1]? = some path ∧ dir = path.1

/-- A line of a file, counted from 1. -/
def FileHost.line (host : FileHost) (path : List Byte) (line : Nat) : Option (List Byte) :=
  (host.fopen path).bind fun content => (lines newline content)[line - 1]?

/-- The file is opened and the line printed, up to a NUL; without the line there is an
exception. -/
def PrintsLineOf (path : List Byte) (line : Option (List Byte)) (viewer : Viewer) :
    Outcome MyException Viewer Unit → Prop
  | .ok _ after => ∃ text, line = some text ∧ after.printed = viewer.printed ++ cString text ∧
      after.opened = path :: viewer.opened
  | .throw ex after => line = none ∧ ex = .ioException ∧
      after.printed = viewer.printed ∧ after.opened = path :: viewer.opened
  | _ => False

namespace ListedProcess

variable (process : ListedProcess)

def rows : List LineRegisters :=
  LineNumbers.rows process.info.header.fields operandValue process.info.program

/-- `list` at `addr`. -/
def list (host : FileHost) (addr : Addr) (fuel : Nat) : Viewing Unit :=
  printLineAt host process.memory process.file.own (some process.auxv) fuel process.file.elf
    process.file.header process.eShstrndx process.file.sHeaders addr

/-- What is printed at `addr` is the line of the row that is reached. -/
structure Lists (host : FileHost) (addr : Addr) (viewer : Viewer) : Prop where
  nothing : (∀ row ∈ process.rows, addr.toNat < process.bias.toNat + row.address) →
    ∀ᶠ fuel in Filter.atTop, process.list host addr fuel viewer = .ok () viewer
  unnumbered : ∀ row, Reaches process.rows process.bias.toNat addr.toNat row → row.file = 0 →
    ∀ᶠ fuel in Filter.atTop, process.list host addr fuel viewer = .throw .dwarfException viewer
  line : ∀ row entry dir, Reaches process.rows process.bias.toNat addr.toNat row →
    row.file ≠ 0 → process.info.tables.files[row.file - 1]? = some entry →
      Tables.InDirectory process.info.tables host viewer entry dir →
        (joined dir entry.path.1).length < myPathMax →
          ∀ᶠ fuel in Filter.atTop,
            PrintsLineOf (joined dir entry.path.1) (host.line (joined dir entry.path.1) row.line)
              viewer (process.list host addr fuel viewer)

end ListedProcess

/-! ## What is read of the section -/

section Read

variable {own : PartialMemory} {sAddr : Addr}

def LineInfo.tablesHeader (info : LineInfo own sAddr) : TablesHeader where
  fields := info.header.toHeaderFields
  standardOpcodeLengths := info.lengths
  tables := info.tables
  known := info.header.known
  numbered := info.numbered

/-- The tables and the rows of the unit are found. -/
theorem LineInfo.read (info : LineInfo own sAddr) :
    ∃ lines : MyDwLines, Yields (fun fuel => dwarfLines own fuel sAddr) lines ∧
      TablesFound own info.tablesHeader lines.lconf ∧
      lines.states.map MyDwSm.registers =
        LineNumbers.rows info.header.fields operandValue info.program := by
  obtain ⟨lconf, same, tables, configured, _⟩ :=
    config_built Utils.firstFit (show Holds own sAddr info.tablesHeader.bytes from info.stored)
  obtain ⟨states, ran, rows⟩ := runMachine_rows info.unit
  refine ⟨{ lconf, states }, ?_, tables, rows⟩
  apply configured.bind
  rw [same]
  have finished : Yields (fun fuel => (initMachine own sAddr >>= runMachine own sAddr fuel) >>=
      fun states => pure ({ lconf, states } : MyDwLines)) { lconf, states } :=
    ran.bind (.pure _)
  simpa only [Program.bind_assoc] using finished

/-- What stands at a place of one list stands at the same place of the other. -/
theorem getElem?_of_forall₂ {α β : Type} {relation : α → β → Prop} {left : List α}
    {right : List β} (related : List.Forall₂ relation left right) {index : Nat} {item : α}
    (found : left[index]? = some item) : ∃ other, right[index]? = some other ∧
      relation item other := by
  induction related generalizing index with
  | nil => cases found
  | cons first rest inductionHypothesis =>
      cases index with
      | zero =>
          obtain rfl := Option.some.inj found
          exact ⟨_, rfl, first⟩
      | succ index => exact inductionHypothesis found

/-- The number of a directory is stored, so there is one value it is read as. -/
theorem LineInfo.index_eq (info : LineInfo own sAddr) {entry : FileEntry} {file : MyDwFile}
    (member : entry ∈ info.tables.files) (isEntry : IsEntry own entry file) :
    file.index.toNat = operandValue entry.directory := by
  obtain ⟨front, back, split⟩ := List.append_of_mem member
  have encoded : ∃ before after, info.header.bytes ++ (info.lengths ++ info.tables.encode) =
      before ++ (entry.directory.1 ++ after) := by
    refine ⟨info.header.bytes ++ (info.lengths ++ (info.tables.directories.flatMap encodePath ++
      0 :: (front.flatMap FileEntry.encode ++ encodePath entry.path))),
      entry.lastModification.1 ++ (entry.size.1 ++ (back.flatMap FileEntry.encode ++ [0])), ?_⟩
    rw [LineNumbers.Tables.encode, split]
    simp [FileEntry.encode]
  obtain ⟨before, after, same⟩ := encoded
  have stored := info.stored
  rw [same] at stored
  have placed := (holds_append.mp (holds_append.mp stored).2).1
  have first := isEntry.index own _ placed
  have second := leb128Value_readAs entry.directory own _ placed
  have value : file.index = leb128Value entry.directory :=
    congrArg Prod.fst (first.unique second)
  rw [value, operandValue]

end Read

/-! ## The row -/

section Row

variable {states : List MyDwSm} {rows : List LineRegisters} {row : LineRegisters}
  {baseAddr addr : Addr}

/-- The row of a state is in user space. -/
theorem row_address {sm : MyDwSm}
    (loaded : baseAddr.toNat + sm.registers.address < 2 ^ 47) :
    (baseAddr + sm.address).toNat = baseAddr.toNat + sm.registers.address := by
  change baseAddr.toNat + sm.address.toNat < 2 ^ 47 at loaded
  change _ = baseAddr.toNat + sm.address.toNat
  rw [BitVec.toNat_add]
  omega

/-- The state that `get_nearest_state` selects is that of the row that is reached. -/
theorem selected_of_reaches (same : states.map MyDwSm.registers = rows)
    (user : addr.toNat < 2 ^ 47)
    (loaded : ∀ row ∈ rows, baseAddr.toNat + row.address < 2 ^ 47)
    (reaches : Reaches rows baseAddr.toNat addr.toNat row) :
    ∃ sm, getNearestState states addr baseAddr = some sm ∧ sm.registers = row := by
  subst same
  have place (sm : MyDwSm) (member : sm ∈ states) :
      (baseAddr + sm.address).toNat = baseAddr.toNat + sm.registers.address :=
    row_address (loaded _ (List.mem_map_of_mem member))
  obtain ⟨before, after, split, below, early, late⟩ := reaches
  obtain ⟨front, back, rfl, rfl, tail⟩ := List.map_eq_append_iff.mp split
  obtain ⟨sm, back, rfl, rfl, rfl⟩ := List.map_eq_cons_iff.mp tail
  have near := place sm (by simp)
  refine ⟨sm, ?_, rfl⟩
  rw [(getNearestState_greatest user fun sm member => ?_).2]
  · refine ⟨front, back, rfl, ?_, ?_, ?_⟩
    · rw [BitVec.le_def, near]
      exact below
    · intro other member reached
      have far := place other (by simp [member])
      rw [BitVec.le_def, far] at reached
      have ordered := early _ (List.mem_map_of_mem member) reached
      rw [BitVec.le_def, far, near]
      omega
    · intro other member reached
      have far := place other (by simp [member])
      rw [BitVec.le_def, far] at reached
      have ordered := late _ (List.mem_map_of_mem member) reached
      rw [BitVec.lt_def, far, near]
      omega
  · rw [place sm member]
    exact loaded _ (List.mem_map_of_mem member)

theorem selected_none (same : states.map MyDwSm.registers = rows)
    (user : addr.toNat < 2 ^ 47)
    (loaded : ∀ row ∈ rows, baseAddr.toNat + row.address < 2 ^ 47)
    (above : ∀ row ∈ rows, addr.toNat < baseAddr.toNat + row.address) :
    getNearestState states addr baseAddr = none := by
  subst same
  have place (sm : MyDwSm) (member : sm ∈ states) :
      (baseAddr + sm.address).toNat = baseAddr.toNat + sm.registers.address :=
    row_address (loaded _ (List.mem_map_of_mem member))
  rw [(getNearestState_greatest user fun sm member => ?_).1]
  · intro sm member
    rw [BitVec.lt_def, place sm member]
    exact above _ (List.mem_map_of_mem member)
  · rw [place sm member]
    exact loaded _ (List.mem_map_of_mem member)

end Row

/-! ## The line -/

section Line

variable {host : FileHost} {text : Addr → CString} {viewer : Viewer} {dir name path : List Byte}
  {line : BitVec 32}

/-- The state may differ in the buffer of `real_path`. -/
theorem printFileLine_prints {before : Viewer} (fits : (joined dir name).length < myPathMax)
    (printed : before.printed = viewer.printed) (opened : before.opened = viewer.opened) :
    PrintsLineOf (joined dir name) (host.line (joined dir name) line.toNat) viewer
      (printFileLine host (some dir) name line before) := by
  have start : printFileLine host (some dir) name line before =
      openFileLine host (joined dir name) line before := by
    rw [printFileLine]
    simp only [Option.getD_some]
    rw [if_pos fits, if_neg fun longer => longer (joined_length dir name)]
  rw [start, openFileLine, Program.bind_apply]
  unfold FileHost.line
  cases found : host.fopen (joined dir name) with
  | none =>
      refine ⟨rfl, rfl, printed, ?_⟩
      exact congrArg _ opened
  | some content =>
      simp only [Program.modify, Option.bind_some]
      rw [showLine_eq]
      cases (lines newline content)[line.toNat - 1]? with
      | none => exact ⟨rfl, rfl, printed, congrArg _ opened⟩
      | some shown =>
          refine ⟨shown, rfl, ?_, congrArg _ opened⟩
          exact congrArg (· ++ cString shown) printed

/-- `real_path` returns the directory of the executable where it finds it. -/
theorem realPath_finds (finds : FindsExecutable host viewer) :
    ∃ after, realPath host viewer = .ok host.directory after ∧
      after.printed = viewer.printed ∧ after.opened = viewer.opened := by
  obtain ⟨linked, ended, clean⟩ := finds
  have short : host.exe.1.length < myPathMax := by
    by_contra large
    rw [List.drop_eq_nil_of_le (by rw [viewer.buf.2]; omega)] at ended
    exact List.not_mem_nil ended
  have returns := realPath_linked ⟨host, linked, short⟩ ended
  rw [(dirName_stale host _).mpr clean] at returns
  exact ⟨_, returns, rfl, rfl⟩

end Line

section Entry

variable {host : FileHost} {own : PartialMemory} {sAddr addr baseAddr : Addr} {viewer : Viewer}
  {lines : MyDwLines} {sm : MyDwSm} {entry : FileEntry} {dir : List Byte}

/-- The line of the row that is selected, in the file of its entry. -/
theorem LineInfo.prints (info : LineInfo own sAddr)
    (tables : TablesFound own info.tablesHeader lines.lconf)
    (selected : getNearestState lines.states addr baseAddr = some sm) (numbered : sm.file ≠ 0)
    (listed : info.tables.files[sm.file.toNat - 1]? = some entry)
    (inDirectory : Tables.InDirectory info.tables host viewer entry dir)
    (fits : (joined dir entry.path.1).length < myPathMax) :
    ∀ᶠ fuel in Filter.atTop,
      PrintsLineOf (joined dir entry.path.1) (host.line (joined dir entry.path.1) sm.line.toNat)
        viewer (showLineAtAddr host (textAt own fuel) lines addr baseAddr viewer) := by
  have index : (sm.file - 1).toNat = sm.file.toNat - 1 := by
    have positive : sm.file.toNat ≠ 0 := fun zero => numbered (BitVec.eq_of_toNat_eq zero)
    bv_omega
  obtain ⟨file, found, isEntry⟩ := getElem?_of_forall₂ tables.files listed
  rw [← index] at found
  have directory := info.index_eq (List.mem_of_getElem? listed) isEntry
  filter_upwards [Filter.eventually_ge_atTop entry.path.1.length,
    Filter.eventually_ge_atTop dir.length] with fuel enough long
  have named : (textAt own fuel file.path).1 = entry.path.1 :=
    textAt_holds entry.path.2.2 isEntry.path enough
  unfold Tables.InDirectory at inDirectory
  by_cases executable : operandValue entry.directory = 0
  · rw [if_pos executable] at inDirectory
    obtain ⟨finds, rfl⟩ := inDirectory
    have ownIndex : file.index = 0 := BitVec.eq_of_toNat_eq (directory.trans executable)
    obtain ⟨after, returns, printed, opened⟩ := realPath_finds finds
    rw [showLineAtAddr_executable selected numbered found ownIndex, Program.bind_ok returns, named]
    exact printFileLine_prints fits printed opened
  · rw [if_neg executable] at inDirectory
    obtain ⟨path, member, rfl⟩ := inDirectory
    have other : file.index ≠ 0 := by
      intro zero
      rw [zero] at directory
      exact executable directory.symm
    obtain ⟨place, there, holds⟩ := getElem?_of_forall₂ tables.directories member
    have same : operandValue entry.directory - 1 = (file.index - 1).toNat := by
      have number := index_pred other
      omega
    rw [same] at there
    have directoryText : (textAt own fuel place).1 = path.1 := textAt_holds path.2.2 holds long
    rw [showLineAtAddr_included selected numbered found other there, named, directoryText]
    exact printFileLine_prints fits rfl rfl

end Entry

section Result

variable {process : ListedProcess} {host : FileHost} {addr : Addr} {viewer : Viewer}

/-- Where the tables and the rows are, what is shown is decided by them. -/
theorem ListedProcess.list_eventually (process : ListedProcess) (host : FileHost) (addr : Addr)
    (viewer : Viewer) :
    ∃ lines : MyDwLines, TablesFound process.file.own process.info.tablesHeader lines.lconf ∧
      lines.states.map MyDwSm.registers = process.rows ∧
      ∀ᶠ fuel in Filter.atTop, process.list host addr fuel viewer =
        showLineAtAddr host (textAt process.file.own fuel) lines addr process.bias viewer := by
  obtain ⟨lines, yields, tables, rows⟩ := process.info.read
  refine ⟨lines, tables, rows, yields.eventually.mono fun fuel returns => ?_⟩
  have found := elfSection_returns process.placed process.namedStored process.isLineSection
  rw [process.counted] at found
  change Returns (elfSection process.file.own debugLine shtProgbits process.file.elf
    process.file.header process.eShstrndx process.file.sHeaders) _ at found
  unfold ListedProcess.list printLineAt
  rw [Program.bind_ok (reading_ok process.base_returns viewer)]
  dsimp only
  rw [Program.bind_ok (reading_ok found viewer), Program.bind_ok (reading_ok returns viewer)]

/-- `list` prints the line that the line number program assigns to the address. -/
theorem list_prints (process : ListedProcess) (host : FileHost) (addr : Addr) (viewer : Viewer)
    (user : addr.toNat < 2 ^ 47)
    (loaded : ∀ row ∈ process.rows, process.bias.toNat + row.address < 2 ^ 47) :
    process.Lists host addr viewer := by
  obtain ⟨lines, tables, rows, shows⟩ := process.list_eventually host addr viewer
  refine ⟨fun above => ?_, fun row reaches unnumbered => ?_, fun row entry dir reaches numbered
    listed inDirectory fits => ?_⟩
  · have missed := selected_none rows user loaded above
    filter_upwards [shows] with fuel same
    rw [same]
    unfold showLineAtAddr
    rw [printLineAtAddr, missed]
    rfl
  · obtain ⟨sm, selected, rfl⟩ := selected_of_reaches rows user loaded reaches
    have zero : sm.file = 0 := BitVec.eq_of_toNat_eq unnumbered
    filter_upwards [shows] with fuel same
    rw [same, showLineAtAddr_noFile selected zero]
  · obtain ⟨sm, selected, rfl⟩ := selected_of_reaches rows user loaded reaches
    have nonzero : sm.file ≠ 0 := by
      intro zero
      apply numbered
      change sm.file.toNat = 0
      rw [zero]
      rfl
    filter_upwards [shows,
      process.info.prints tables selected nonzero listed inDirectory fits] with fuel same prints
    rw [same]
    exact prints

end Result

/-! ## An executable with one line -/

def listedHeader : LineHeader :=
  { shortHeader with
    unitLength := 35
    headerLength := 13
    opcodeBase := 1
    opcodeBase_pos := Nat.one_pos }

theorem isLeb128_single (byte : BitVec 7) : IsLeb128 [byte.setWidth 8] := by
  revert byte
  decide

/-- A number below 128 in one byte. -/
def single (byte : BitVec 7) : Leb128 := ⟨[byte.setWidth 8], isLeb128_single byte⟩

theorem isPath_a : nameA.1 ≠ [] ∧ 0 ∉ nameA.1 := ⟨List.cons_ne_nil _ _, nameA.2⟩

/-- A file a in the directory of the executable. -/
def listedTables : LineNumbers.Tables where
  directories := []
  files := [⟨⟨nameA.1, isPath_a⟩, single 0, single 0, single 0⟩]

/-- Its first line is at 0x10 and 0x11. -/
def listedProgram : List LineInstruction :=
  [.setAddress (single 9) 0x10, .special 6, .special 34, .endSequence (single 1)]

def listedBytes : List Byte :=
  arrayBytes 8 [1 + 2 ^ 32, 0, 0, 144, 0, 0, 0, 0] ++
    arrayBytes 8 [3 * 2 ^ 32, 0, 0, 128, 0, 0, 0, 0] ++
      (0 :: (debugLine.1 ++ [0, 0, 0, 0])) ++
        (listedHeader.bytes ++ (listedTables.encode ++ encode listedProgram))

def listedOwn : PartialMemory := fun addr => listedBytes[addr.toNat]?

def listedElf : MappedElf where
  own := listedOwn
  elf := 0
  header := ⟨3, 2, 2⟩
  sHeaders := 0
  sections := [⟨1, 144, 0, 0, 128, []⟩, ⟨3, 128, 0, 0, 128, []⟩]
  count := rfl
  stored := ⟨by decide, fun holding => absurd holding (by decide), by decide,
    fun holding => absurd holding (by decide), trivial⟩

def listedProcess : ListedProcess where
  toProcess :=
    { strippedProcess with
      file := listedElf
      kind := .inr rfl
      count := rfl
      fixed := fun exec => absurd exec (by decide) }
  eShstrndx := 1
  strings := 128
  placed := by decide
  named := [⟨debugLine, 1, 1, 144⟩, ⟨⟨[], noNul_nil⟩, 0, 3, 128⟩]
  counted := rfl
  namedStored := ⟨by decide, by decide, trivial⟩
  lineSection := ⟨debugLine, 1, 1, 144⟩
  isLineSection := rfl
  info :=
    { header := listedHeader
      lengths := []
      tables := listedTables
      program := listedProgram
      numbered := rfl
      stored := by decide
      unit :=
        { stored := by decide
          placed := by decide
          length := by decide
          supported := by
            intro instruction member
            simp only [listedProgram, List.mem_cons, List.not_mem_nil, or_false] at member
            rcases member with rfl | rfl | rfl | rfl
            · exact nofun
            · change 1 ≤ 6
              decide
            · change 1 ≤ 34
              decide
            · exact nofun } }

theorem list_prints_listed :
    listedProcess.rows.map (fun row => (row.address, row.line)) =
        [(0x10, 1), (0x12, 1), (0x12, 1)] ∧
      listedProcess.Lists (serving [0x78, newline]) 0x10011 freshViewer :=
  ⟨by decide, list_prints listedProcess (serving [0x78, newline]) 0x10011 freshViewer (by decide)
    (by decide)⟩

end MyDbg.Infos
