import MyDbg.Infos.NearestState

/-!
Contract: the lines of a `.debug_line` section in `my_dwarf.c`.

Owns: `dwarf_lines_config` with the tables of directories and files behind a
header, `dwarf_lines`, and the two ways the debugger uses the rows: the line of
an address in `print_line_at_addr`, and the address of a line in
`get_line_address_internal`.

Does not own: finding the section and the base address, and printing the line
of a file.
-/

namespace MyDbg.Infos

open LittleEndian ProgramLogic

/-- `struct my_dw_file`. -/
structure MyDwFile where
  path : Addr
  index : Word
  lastModification : Word
  fileSize : Word
deriving DecidableEq

/-- `struct my_dw_lconf`, without `lhdrx`. The NULL at the end of a table is left
out. -/
structure MyDwLconf where
  lhdr : Addr
  standardOpcodeLengths : Addr
  includeDirectories : List Addr
  files : List MyDwFile

/-- `struct my_dw_lines`. -/
structure MyDwLines where
  lconf : MyDwLconf
  states : List MyDwSm

/-! ## The tables behind a header -/

section Tables

variable (memory : PartialMemory)

/-- `str + strlen(str) + 1`. -/
def stringEnd : Nat → Addr → Reading Addr
  | 0, _ => Program.noReturn
  | fuel + 1, str => do
      let c ← load memory str 1
      if c = 0 then return str + 1 else stringEnd fuel (str + 1)

/-- The loop over the directories, which are appended to those found so far. The
pointer is left behind the empty string at the end. -/
def storeDirectoriesFrom : Nat → List Addr → Addr → Reading (List Addr × Addr)
  | 0, _, _ => Program.noReturn
  | fuel + 1, directories, str => do
      let c ← load memory str 1
      if c = 0 then
        return (directories, str + 1)
      else
        let next ← stringEnd memory fuel str
        storeDirectoriesFrom fuel (directories ++ [str]) next

/-- The loop of `store_files`. -/
def storeFilesFrom : Nat → List MyDwFile → Addr → Reading (List MyDwFile)
  | 0, _, _ => Program.noReturn
  | fuel + 1, files, str => do
      let c ← load memory str 1
      if c = 0 then
        return files
      else
        let ptr ← stringEnd memory fuel str
        let (index, ptr) ← readLeb128 memory fuel ptr
        let (lastModification, ptr) ← readLeb128 memory fuel ptr
        let (fileSize, ptr) ← readLeb128 memory fuel ptr
        storeFilesFrom fuel
          (files ++ [{ path := str, index, lastModification, fileSize }]) ptr

def storeFiles (fuel : Nat) (str : Addr) : Reading (List MyDwFile) :=
  storeFilesFrom memory fuel [] str

/-- In `struct my_dw_lhdr2` the last field only stands for the opcode lengths. -/
def standardOpcodeLengths (lhdr : Addr) : Reading Addr := do
  let version ← load memory (lhdr + 4) 2
  if version < 4 then
    return lhdr + BitVec.ofNat 64 (sizeofMyDwLhdr + 9)
  else
    return lhdr + BitVec.ofNat 64 (sizeofMyDwLhdr + 10)

def dwarfLinesConfig (fuel : Nat) (lhdr : Addr) : Reading MyDwLconf := do
  let standardOpcodeLengths ← standardOpcodeLengths memory lhdr
  let opcodeBase ← val memory lhdr .opcodeBase
  let str := standardOpcodeLengths + BitVec.ofNat 64 opcodeBase - 1
  let (includeDirectories, str) ← storeDirectoriesFrom memory fuel [] str
  let files ← storeFiles memory fuel str
  return { lhdr, standardOpcodeLengths, includeDirectories, files }

def dwarfLines (fuel : Nat) (sAddr : Addr) : Reading MyDwLines := do
  let lconf ← dwarfLinesConfig memory fuel sAddr
  let sm ← initMachine memory lconf.lhdr
  let states ← runMachine memory lconf.lhdr fuel sm
  return { lconf, states }

end Tables

/-! ## The line of an address -/

/-- The directory a path is looked up in: that of the executable, or the one with
the index of the file, where NULL may be found. -/
inductive LineDirectory where
  | executable
  | included (directory : Option Addr)

/-- What `print_file_line` is called with. -/
structure FileLine where
  dir : LineDirectory
  file : Addr
  line : BitVec 32

/-- `array[index]`, where NULL ends the array and nothing is behind it. -/
def pointerAt {α : Type} (array : List α) (index : Nat) : Reading (Option α) :=
  if index ≤ array.length then return array[index]? else Program.fault

/-- The directory of an absolute path is NULL only until the next test. -/
def lineDirectory (lconf : MyDwLconf) (file : MyDwFile) : Reading LineDirectory :=
  if file.index = 0 then
    return .executable
  else do
    let directory ← pointerAt lconf.includeDirectories (file.index - 1).toNat
    return .included directory

/-- `print_line_at_addr`, up to `print_file_line`; `none` is the warning that no
line was found. Paths are not NULL. -/
def printLineAtAddr (lines : MyDwLines) (addr baseAddr : Addr) : Reading (Option FileLine) :=
  match getNearestState lines.states addr baseAddr with
  | none => return none
  | some mySm =>
      if mySm.file = 0 then
        Program.throw .dwarfException
      else do
        let file ← pointerAt lines.lconf.files (mySm.file - 1).toNat
        match file with
        | none => Program.fault
        | some file => do
            let dir ← lineDirectory lines.lconf file
            return some { dir, file := file.path, line := mySm.line }

/-! ## The address of a line -/

/-- The loop of `get_line_address_internal`, which ignores the file. -/
def MyDwLines.getLineAddress (lines : MyDwLines) (baseAddr : Addr) (_file : CString)
    (line : BitVec 32) : Option Addr :=
  (lines.states.find? fun sm => sm.line = line).map fun sm => baseAddr + sm.address

def getLineAddressInternal (memory : PartialMemory) (fuel : Nat) (sAddr baseAddr : Addr)
    (file : CString) (line : BitVec 32) : Reading Addr := do
  let lines ← dwarfLines memory fuel sAddr
  match lines.getLineAddress baseAddr file line with
  | some addr => return addr
  | none => Program.throw .dwarfException

end MyDbg.Infos
