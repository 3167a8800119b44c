import MyDbg.Infos.DwarfLines
import MyDbg.Utils.MemMappings

/-!
Contract: which file `print_line_at_addr` opens.

Owns: `real_path` with its buffer, `print_file_line`, and `print_line_at_addr`
down to the file that is opened; the file that should be; and when it is.

Does not own: how the tables come about. Strings do not move, and what is
printed arrives.
-/

namespace MyDbg.Infos

open LittleEndian ProgramLogic Utils

/-- `'/'`. -/
def slash : Byte := 0x2f

/-- `'\n'`. -/
def newline : Byte := 0x0a

/-- The files of the machine. -/
structure FileHost where
  /-- What `/proc/<pid>/exe` links to. -/
  exe : CString
  absolute : exe.1.head? = some slash
  /-- `readlink` succeeds. -/
  readlink : Bool
  fopen : List Byte → Option (List Byte)

/-- `static char buf[MY_PATH_MAX]`. -/
abbrev PathBuffer := { bytes : List Byte // bytes.length = myPathMax }

structure Viewer where
  buf : PathBuffer
  /-- The paths that were passed to `fopen`, newest first; nothing reads them. -/
  opened : List (List Byte)
  printed : List Byte

abbrev Viewing := Program MyException Viewer

/-- The string at the start of an array. -/
def cString (bytes : List Byte) : List Byte := bytes.takeWhile (· ≠ 0)

/-- What stands in front of the last `'/'`. -/
def dirName (path : List Byte) : List Byte :=
  ((path.reverse.dropWhile (· ≠ slash)).drop 1).reverse

/-- Bytes are written over the beginning of the buffer, as far as they fit. -/
def PathBuffer.write (buf : PathBuffer) (bytes : List Byte) : PathBuffer :=
  ⟨(bytes ++ buf.1.drop bytes.length).take myPathMax, by
    have full := buf.2
    rw [List.length_take, List.length_append, List.length_drop]
    omega⟩

/-- `buf[index] = 0`. -/
def PathBuffer.cut (buf : PathBuffer) (index : Nat) : PathBuffer :=
  ⟨buf.1.set index 0, by rw [List.length_set, buf.2]⟩

section Functions

variable (host : FileHost) (text : Addr → CString)

/-- `real_path` of `/proc/<pid>/exe`. `readlink` appends no NUL, and what an earlier call
left in the buffer is still there. -/
def realPath : Viewing (List Byte) := do
  if host.readlink then
    Program.modify fun viewer => { viewer with buf := viewer.buf.write host.exe.1 }
    let viewer ← Program.gets id
    if 0 ∈ viewer.buf.1 ∧ slash ∈ cString viewer.buf.1 then
      let dir := dirName (cString viewer.buf.1)
      Program.modify fun viewer => { viewer with buf := viewer.buf.cut dir.length }
      return dir
    else
      Program.fault
  else
    Program.throw .ioException

/-- The `for` loops of `print_file_line`; nothing where the file ends. -/
def skipLines : Nat → List Byte → Option (List Byte)
  | 0, content => some content
  | count + 1, content =>
      match content.dropWhile (· ≠ newline) with
      | [] => none
      | _ :: rest => skipLines count rest

/-- A line with its end. -/
def firstLine (content : List Byte) : List Byte :=
  content.takeWhile (· ≠ newline) ++ (content.dropWhile (· ≠ newline)).take 1

/-- `print_file_line` behind the `fopen`. -/
def showLine (content : List Byte) (line : BitVec 32) : Viewing Unit :=
  match skipLines (line.toNat - 1) content with
  | none => Program.throw .ioException
  | some rest =>
      if rest = [] then
        Program.throw .ioException
      else
        Program.modify fun viewer =>
          { viewer with printed := viewer.printed ++ cString (firstLine rest) }

def openFileLine (path : List Byte) (line : BitVec 32) : Viewing Unit := do
  Program.modify fun viewer => { viewer with opened := path :: viewer.opened }
  match host.fopen path with
  | none => Program.throw .ioException
  | some content => showLine content line

/-- `"%s/%s"`. -/
def joined (dir file : List Byte) : List Byte := dir ++ slash :: file

/-- `sprintf` prints an empty string for a `dir` that is NULL, and `strlen` reads it. -/
def printFileLine (dir : Option (List Byte)) (file : List Byte) (line : BitVec 32) :
    Viewing Unit :=
  let path := joined (dir.getD []) file
  if path.length < myPathMax then
    match dir with
    | none => Program.fault
    | some dir =>
        if path.length ≠ dir.length + file.length + 1 then Program.throw .printfException
        else openFileLine host path line
  else
    Program.fault

def lineDirectoryName : LineDirectory → Viewing (Option (List Byte))
  | .executable => do
      let dir ← realPath host
      return some dir
  | .included directory => return directory.map fun dir => (text dir).1

/-- `print_line_at_addr`, with `print_file_line`. -/
def showLineAtAddr (lines : MyDwLines) (addr baseAddr : Addr) : Viewing Unit := do
  let shown ← reading (printLineAtAddr lines addr baseAddr)
  match shown with
  | none => return ()
  | some shown => do
      let dir ← lineDirectoryName host text shown.dir
      printFileLine host dir (text shown.file).1 shown.line

end Functions

/-! ## The file that should be opened -/

section Statement

variable (host : FileHost) (text : Addr → CString)

/-- The path of an entry; nothing where its directory is not in the table. -/
def entryPath (lconf : MyDwLconf) (file : MyDwFile) : Option (List Byte) :=
  if lconf.includeDirectories.length < file.index.toNat then
    none
  else if (text file.path).1.head? = some slash then
    some (text file.path).1
  else if file.index = 0 then
    some (joined (dirName host.exe.1) (text file.path).1)
  else
    (lconf.includeDirectories[(file.index - 1).toNat]?).map fun dir =>
      joined (text dir).1 (text file.path).1

/-- The path for a row; nothing where there is none and `DWARFException` is due. -/
def sourcePath (lconf : MyDwLconf) (sm : MyDwSm) : Option (List Byte) :=
  if sm.file = 0 then
    none
  else
    (lconf.files[(sm.file - 1).toNat]?).bind (entryPath host text lconf)

/-- `print_line_at_addr` opens the file that should be opened, and no other, or raises
`DWARFException` where there is none. -/
def Resolves (lines : MyDwLines) (addr baseAddr : Addr) (sm : MyDwSm) (viewer : Viewer) : Prop :=
  match sourcePath host text lines.lconf sm with
  | some path =>
      (showLineAtAddr host text lines addr baseAddr viewer).state.opened = path :: viewer.opened
  | none => ∃ after, showLineAtAddr host text lines addr baseAddr viewer =
      .throw .dwarfException after ∧ after.opened = viewer.opened

/-- `real_path` finds the directory of the executable: the link can be read, it is shorter
than the buffer, and what the buffer still holds behind it is the rest of a name. -/
def FindsExecutable (viewer : Viewer) : Prop :=
  let stale := viewer.buf.1.drop host.exe.1.length
  host.readlink ∧ 0 ∈ stale ∧ slash ∉ cString stale

/-- The directory of a row's file is known, and the path fits in the array. -/
def Locates (lconf : MyDwLconf) (file : MyDwFile) (viewer : Viewer) : Prop :=
  if file.index = 0 then
    FindsExecutable host viewer ∧
      (joined (dirName host.exe.1) (text file.path).1).length < myPathMax
  else
    ∃ dir ∈ lconf.includeDirectories[(file.index - 1).toNat]?,
      (joined (text dir).1 (text file.path).1).length < myPathMax

/-- The row has no file number, or its file is in the table with a relative path. -/
def Resolvable (lconf : MyDwLconf) (sm : MyDwSm) (viewer : Viewer) : Prop :=
  sm.file = 0 ∨ ∃ file ∈ lconf.files[(sm.file - 1).toNat]?,
    (text file.path).1.head? ≠ some slash ∧ Locates host text lconf file viewer

end Statement

/-! ## Strings -/

section Strings

variable {path stale dir file : List Byte}

theorem dirName_append (rest : slash ∉ stale) : dirName (path ++ stale) = dirName path := by
  unfold dirName
  rw [List.reverse_append, List.dropWhile_append_of_pos]
  intro byte member
  have other : byte ≠ slash := by
    rintro rfl
    exact rest (List.mem_reverse.mp member)
  exact decide_eq_true other

/-- The last `'/'` is the first one from behind. -/
theorem dirName_split (rest : slash ∉ file) : dirName (dir ++ slash :: file) = dir := by
  have all : slash ∉ file.reverse := fun member => rest (List.mem_reverse.mp member)
  have order : (dir ++ slash :: file).reverse = file.reverse ++ slash :: dir.reverse := by simp
  unfold dirName
  rw [order, List.dropWhile_append_of_pos]
  · simp
  · intro byte member
    have other : byte ≠ slash := by
      rintro rfl
      exact all member
    exact decide_eq_true other

theorem exists_last_slash (member : slash ∈ path) :
    ∃ dir file, path = dir ++ slash :: file ∧ slash ∉ file := by
  obtain ⟨front, back, same, none⟩ :=
    List.eq_append_cons_of_mem (List.mem_reverse.mpr member)
  refine ⟨back.reverse, front.reverse, ?_, fun member => none (List.mem_reverse.mp member)⟩
  rw [← List.reverse_reverse path, same]
  simp

theorem dirName_longer (path : List Byte) (more : slash ∈ stale) :
    path.length ≤ (dirName (path ++ stale)).length := by
  obtain ⟨dir, file, rfl, rest⟩ := exists_last_slash more
  rw [← List.append_assoc, dirName_split rest, List.length_append]
  omega

theorem dirName_shorter (nonempty : path ≠ []) : (dirName path).length < path.length := by
  have dropped : (path.reverse.dropWhile (· ≠ slash)).length ≤ path.reverse.length :=
    (List.dropWhile_suffix _).length_le
  have positive : 0 < path.length := List.length_pos_iff.mpr nonempty
  unfold dirName
  rw [List.length_reverse] at dropped ⊢
  rw [List.length_drop]
  omega

theorem joined_inj {other : List Byte} : joined dir file = joined other file ↔ dir = other := by
  unfold joined
  exact List.append_left_inj _

theorem joined_length (dir file : List Byte) :
    (joined dir file).length = dir.length + file.length + 1 := by
  unfold joined
  rw [List.length_append, List.length_cons]
  omega

/-- A path with something in front is another one. -/
theorem joined_ne (dir file : List Byte) : joined dir file ≠ file := by
  intro same
  have length := congrArg List.length same
  rw [joined_length] at length
  omega

end Strings

section Buffers

variable {bytes : List Byte}

theorem cString_append (string : CString) (rest : List Byte) :
    cString (string.1 ++ rest) = string.1 ++ cString rest := by
  unfold cString
  rw [List.takeWhile_append_of_pos]
  intro byte member
  have nonzero : byte ≠ 0 := by
    rintro rfl
    exact string.2 member
  exact decide_eq_true nonzero

theorem PathBuffer.write_short (buf : PathBuffer) (short : bytes.length ≤ myPathMax) :
    (buf.write bytes).1 = bytes ++ buf.1.drop bytes.length := by
  have full := buf.2
  apply List.take_of_length_le
  rw [List.length_append, List.length_drop]
  omega

theorem PathBuffer.write_long (buf : PathBuffer) (long : myPathMax < bytes.length) :
    (buf.write bytes).1 = bytes.take myPathMax :=
  List.take_append_of_le_length (by omega)

/-- A link that fills the buffer leaves no room for a NUL. -/
theorem PathBuffer.zero_mem_write (buf : PathBuffer) (string : CString) :
    0 ∈ (buf.write string.1).1 ↔ 0 ∈ buf.1.drop string.1.length := by
  by_cases short : string.1.length ≤ myPathMax
  · rw [buf.write_short short, List.mem_append]
    constructor
    · rintro (early | late)
      · exact absurd early string.2
      · exact late
    · exact .inr
  · have long : myPathMax < string.1.length := by omega
    rw [buf.write_long long, List.drop_eq_nil_of_le (by rw [buf.2]; omega)]
    constructor
    · intro early
      exact absurd (List.mem_of_mem_take early) string.2
    · intro member
      exact absurd member List.not_mem_nil

end Buffers

/-! ## The parts of `print_line_at_addr` -/

section Parts

variable {host : FileHost} {text : Addr → CString} {viewer : Viewer}

theorem slash_mem_exe (host : FileHost) : slash ∈ host.exe.1 :=
  List.mem_of_mem_head? host.absolute

/-- What `real_path` returns is the front of the link and the rest of an older one. -/
theorem realPath_ends (host : FileHost) (viewer : Viewer) : wp (realPath host)
    { ok := fun dir after =>
        (host.readlink ∧ 0 ∈ viewer.buf.1.drop host.exe.1.length) ∧
          dir = dirName (host.exe.1 ++ cString (viewer.buf.1.drop host.exe.1.length)) ∧
          after.opened = viewer.opened
      throw := fun _ after => ¬ FindsExecutable host viewer ∧ after.opened = viewer.opened
      fault := fun after => ¬ FindsExecutable host viewer ∧ after.opened = viewer.opened
      noReturn := fun _ => False } viewer := by
  unfold realPath
  by_cases linked : host.readlink
  · rw [if_pos linked]
    simp only [wp_bind, wp_modify, wp_gets, id]
    by_cases ended : 0 ∈ viewer.buf.1.drop host.exe.1.length
    · have room : host.exe.1.length < myPathMax := by
        by_contra large
        rw [List.drop_eq_nil_of_le (by rw [viewer.buf.2]; omega)] at ended
        exact List.not_mem_nil ended
      have string := cString_append host.exe (viewer.buf.1.drop host.exe.1.length)
      rw [← viewer.buf.write_short (by omega)] at string
      have terminated := (viewer.buf.zero_mem_write host.exe).mpr ended
      have slashed : slash ∈ cString (viewer.buf.write host.exe.1).1 := by
        rw [string]
        exact List.mem_append_left _ (slash_mem_exe host)
      rw [if_pos ⟨terminated, slashed⟩]
      simp only [wp_bind, wp_modify, wp_pure]
      exact ⟨⟨linked, ended⟩, congrArg dirName string, trivial⟩
    · have unended := mt (viewer.buf.zero_mem_write host.exe).mp ended
      rw [if_neg fun both => unended both.1, wp_fault]
      exact ⟨fun finds => ended finds.2.1, rfl⟩
  · rw [if_neg linked, wp_throw]
    exact ⟨fun finds => linked finds.1, rfl⟩

theorem showLine_opened (content : List Byte) (line : BitVec 32) :
    (showLine content line viewer).state.opened = viewer.opened := by
  unfold showLine
  cases skipLines (line.toNat - 1) content with
  | none => rfl
  | some rest =>
      by_cases empty : rest = []
      · simp only [if_pos empty]
        rfl
      · simp only [if_neg empty]
        rfl

theorem openFileLine_opened (path : List Byte) (line : BitVec 32) :
    (openFileLine host path line viewer).state.opened = path :: viewer.opened := by
  unfold openFileLine
  cases host.fopen path with
  | none => rfl
  | some content => exact showLine_opened content line

/-- A path that does not fit in the array is not opened. -/
theorem printFileLine_opened (dir file : List Byte) (line : BitVec 32) :
    (printFileLine host (some dir) file line viewer).state.opened =
      if (joined dir file).length < myPathMax then joined dir file :: viewer.opened
      else viewer.opened := by
  unfold printFileLine
  simp only [Option.getD_some]
  by_cases fits : (joined dir file).length < myPathMax
  · rw [if_pos fits, if_pos fits, if_neg fun longer => longer (joined_length dir file)]
    exact openFileLine_opened (joined dir file) line
  · rw [if_neg fits, if_neg fits]
    rfl

theorem printFileLine_null (host : FileHost) (file : List Byte) (line : BitVec 32) :
    printFileLine host none file line viewer = .fault viewer := by
  unfold printFileLine
  by_cases fits : (joined (Option.getD none []) file).length < myPathMax
  · rw [if_pos fits]
    rfl
  · rw [if_neg fits]
    rfl

end Parts

/-! ## The cases of a row -/

section Cases

variable {host : FileHost} {text : Addr → CString} {lines : MyDwLines} {addr baseAddr : Addr}
  {sm : MyDwSm} {file : MyDwFile} {viewer : Viewer}

theorem showLineAtAddr_noFile (selected : getNearestState lines.states addr baseAddr = some sm)
    (zero : sm.file = 0) :
    showLineAtAddr host text lines addr baseAddr viewer = .throw .dwarfException viewer := by
  have stops : printLineAtAddr lines addr baseAddr = Program.throw .dwarfException := by
    simp only [printLineAtAddr, selected]
    rw [if_pos zero]
  unfold showLineAtAddr
  rw [stops]
  rfl

/-- NULL ends the table, and nothing is behind it. -/
theorem pointerAt_outside {α : Type} {array : List α} {index : Nat} (missing : array[index]? = none)
    (accesses : List Access) :
    pointerAt array index accesses = .ok none accesses ∨
      pointerAt array index accesses = .fault accesses := by
  unfold pointerAt
  by_cases last : index ≤ array.length
  · rw [if_pos last, missing]
    exact .inl rfl
  · rw [if_neg last]
    exact .inr rfl

theorem pointerAt_inside {α : Type} {array : List α} {index : Nat} {value : α}
    (found : array[index]? = some value) : pointerAt array index = pure (some value) := by
  obtain ⟨inside, _⟩ := List.getElem?_eq_some_iff.mp found
  rw [pointerAt, if_pos (by omega), found]

theorem showLineAtAddr_noEntry
    (selected : getNearestState lines.states addr baseAddr = some sm) (numbered : sm.file ≠ 0)
    (missing : lines.lconf.files[(sm.file - 1).toNat]? = none) :
    showLineAtAddr host text lines addr baseAddr viewer = .fault viewer := by
  have lost : printLineAtAddr lines addr baseAddr [] = .fault [] := by
    simp only [printLineAtAddr, selected]
    rw [if_neg numbered, Program.bind_apply]
    rcases pointerAt_outside missing [] with null | beyond
    · rw [null]
      rfl
    · rw [beyond]
  unfold showLineAtAddr
  rw [Program.bind_apply, reading, lost]

theorem printLineAtAddr_entry (selected : getNearestState lines.states addr baseAddr = some sm)
    (numbered : sm.file ≠ 0)
    (found : lines.lconf.files[(sm.file - 1).toNat]? = some file) :
    printLineAtAddr lines addr baseAddr = do
      let dir ← lineDirectory lines.lconf file
      return some { dir, file := file.path, line := sm.line } := by
  simp only [printLineAtAddr, selected]
  rw [if_neg numbered, pointerAt_inside found]
  rfl

theorem showLineAtAddr_executable
    (selected : getNearestState lines.states addr baseAddr = some sm) (numbered : sm.file ≠ 0)
    (found : lines.lconf.files[(sm.file - 1).toNat]? = some file) (own : file.index = 0) :
    showLineAtAddr host text lines addr baseAddr viewer =
      (realPath host >>= fun dir =>
        printFileLine host (some dir) (text file.path).1 sm.line) viewer := by
  have shown : printLineAtAddr lines addr baseAddr [] =
      .ok (some { dir := .executable, file := file.path, line := sm.line }) [] := by
    rw [printLineAtAddr_entry selected numbered found, lineDirectory, if_pos own]
    rfl
  unfold showLineAtAddr
  rw [Program.bind_apply, reading, shown]
  simp only [lineDirectoryName, Program.bind_apply]
  cases realPath host viewer <;> rfl

theorem showLineAtAddr_included
    (selected : getNearestState lines.states addr baseAddr = some sm) (numbered : sm.file ≠ 0)
    (found : lines.lconf.files[(sm.file - 1).toNat]? = some file) (other : file.index ≠ 0)
    {dir : Addr} (listed : lines.lconf.includeDirectories[(file.index - 1).toNat]? = some dir) :
    showLineAtAddr host text lines addr baseAddr viewer =
      printFileLine host (some (text dir).1) (text file.path).1 sm.line viewer := by
  have shown : printLineAtAddr lines addr baseAddr [] =
      .ok (some { dir := .included (some dir), file := file.path, line := sm.line }) [] := by
    rw [printLineAtAddr_entry selected numbered found, lineDirectory, if_neg other,
      pointerAt_inside listed]
    rfl
  unfold showLineAtAddr
  rw [Program.bind_apply, reading, shown]
  rfl

theorem showLineAtAddr_unlisted
    (selected : getNearestState lines.states addr baseAddr = some sm) (numbered : sm.file ≠ 0)
    (found : lines.lconf.files[(sm.file - 1).toNat]? = some file) (other : file.index ≠ 0)
    (missing : lines.lconf.includeDirectories[(file.index - 1).toNat]? = none) :
    showLineAtAddr host text lines addr baseAddr viewer = .fault viewer := by
  have entry := printLineAtAddr_entry selected numbered found
  rw [lineDirectory, if_neg other] at entry
  unfold showLineAtAddr
  rw [Program.bind_apply, reading, entry]
  simp only [Program.bind_apply]
  rcases pointerAt_outside missing [] with null | beyond
  · rw [null]
    exact printFileLine_null host (text file.path).1 sm.line
  · rw [beyond]

end Cases

/-! ## When the right file is opened -/

section Result

variable {host : FileHost} {text : Addr → CString} {lines : MyDwLines} {addr baseAddr : Addr}
  {sm : MyDwSm} {file : MyDwFile} {viewer : Viewer}

/-- The directory of the executable is returned only if the rest of an older link has no `'/'`. -/
theorem dirName_stale (host : FileHost) (stale : List Byte) :
    dirName (host.exe.1 ++ stale) = dirName host.exe.1 ↔ slash ∉ stale := by
  have nonempty : host.exe.1 ≠ [] := List.ne_nil_of_mem (slash_mem_exe host)
  have shorter := dirName_shorter nonempty
  constructor
  · intro same more
    have longer := dirName_longer host.exe.1 more
    rw [same] at longer
    omega
  · exact dirName_append

theorem index_pred {index : Word} (other : index ≠ 0) :
    index.toNat = (index - 1).toNat + 1 := by
  bv_omega

theorem entryPath_unlisted {lconf : MyDwLconf} (other : file.index ≠ 0)
    (missing : lconf.includeDirectories[(file.index - 1).toNat]? = none) :
    entryPath host text lconf file = none := by
  have beyond := List.getElem?_eq_none_iff.mp missing
  have number := index_pred other
  rw [entryPath, if_pos (by omega)]

/-- Where the directory is known, only an absolute path stands without it. -/
theorem entryPath_listed {lconf : MyDwLconf} {dir : List Byte}
    (inside : ¬ lconf.includeDirectories.length < file.index.toNat)
    (known : (if file.index = 0 then some (dirName host.exe.1)
      else lconf.includeDirectories[(file.index - 1).toNat]?.map fun dir => (text dir).1) =
        some dir) :
    entryPath host text lconf file =
      some (if (text file.path).1.head? = some slash then (text file.path).1
        else joined dir (text file.path).1) := by
  rw [entryPath, if_neg inside]
  by_cases absolute : (text file.path).1.head? = some slash
  · rw [if_pos absolute, if_pos absolute]
  · rw [if_neg absolute, if_neg absolute]
    by_cases own : file.index = 0
    · rw [if_pos own] at known ⊢
      rw [Option.some.inj known]
    · rw [if_neg own] at known ⊢
      obtain ⟨listed, found, rfl⟩ := Option.map_eq_some_iff.mp known
      rw [found, Option.map_some]

/-- What is opened is the path without a directory for no directory. -/
theorem opens_iff {found dir name : List Byte} {opened : List (List Byte)} :
    (if (joined found name).length < myPathMax then joined found name :: opened else opened) =
        (if name.head? = some slash then name else joined dir name) :: opened ↔
      name.head? ≠ some slash ∧ found = dir ∧ (joined dir name).length < myPathMax := by
  by_cases fits : (joined found name).length < myPathMax
  · rw [if_pos fits, List.cons.injEq, and_iff_left rfl]
    by_cases absolute : name.head? = some slash
    · rw [if_pos absolute]
      constructor
      · intro same
        exact absurd same (joined_ne found name)
      · intro relative
        exact absurd absolute relative.1
    · rw [if_neg absolute, joined_inj]
      constructor
      · rintro rfl
        exact ⟨absolute, rfl, fits⟩
      · intro right
        exact right.2.1
  · rw [if_neg fits]
    constructor
    · intro same
      exact absurd same (List.cons_ne_self _ _).symm
    · rintro ⟨_, rfl, short⟩
      exact absurd short fits

theorem opens_executable (name : List Byte) (line : BitVec 32) :
    ((realPath host >>= fun dir => printFileLine host (some dir) name line) viewer).state.opened =
        (if name.head? = some slash then name else joined (dirName host.exe.1) name) ::
          viewer.opened ↔
      name.head? ≠ some slash ∧ FindsExecutable host viewer ∧
        (joined (dirName host.exe.1) name).length < myPathMax := by
  have never {opened : List (List Byte)} {path : List Byte}
      (lost : ¬ FindsExecutable host viewer ∧ opened = viewer.opened) :
      opened = path :: viewer.opened ↔
        name.head? ≠ some slash ∧ FindsExecutable host viewer ∧
          (joined (dirName host.exe.1) name).length < myPathMax := by
    constructor
    · intro same
      exact absurd (lost.2.symm.trans same) (List.cons_ne_self _ _).symm
    · intro right
      exact absurd right.2.1 lost.1
  have ends := realPath_ends host viewer
  unfold wp at ends
  rw [Program.bind_apply]
  cases run : realPath host viewer with
  | ok dir after =>
      rw [run] at ends
      obtain ⟨⟨linked, ended⟩, rfl, kept⟩ := ends
      simp only [printFileLine_opened]
      rw [kept, opens_iff, dirName_stale]
      constructor
      · rintro ⟨relative, whole, fits⟩
        exact ⟨relative, ⟨linked, ended, whole⟩, fits⟩
      · rintro ⟨relative, ⟨_, _, whole⟩, fits⟩
        exact ⟨relative, whole, fits⟩
  | throw ex after =>
      rw [run] at ends
      exact never ends
  | fault after =>
      rw [run] at ends
      exact never ends
  | noReturn after =>
      rw [run] at ends
      exact ends.elim

theorem resolves_entry (selected : getNearestState lines.states addr baseAddr = some sm)
    (numbered : sm.file ≠ 0)
    (found : lines.lconf.files[(sm.file - 1).toNat]? = some file) :
    Resolves host text lines addr baseAddr sm viewer ↔
      (text file.path).1.head? ≠ some slash ∧ Locates host text lines.lconf file viewer := by
  have source : sourcePath host text lines.lconf sm = entryPath host text lines.lconf file := by
    rw [sourcePath, if_neg numbered, found, Option.bind_some]
  unfold Resolves
  rw [source]
  unfold Locates
  by_cases own : file.index = 0
  · have inside : ¬ lines.lconf.includeDirectories.length < file.index.toNat := by simp [own]
    rw [entryPath_listed inside (if_pos own), if_pos own,
      showLineAtAddr_executable selected numbered found own]
    exact opens_executable (text file.path).1 sm.line
  · rw [if_neg own]
    cases listed : lines.lconf.includeDirectories[(file.index - 1).toNat]? with
    | none =>
        rw [entryPath_unlisted own listed,
          showLineAtAddr_unlisted selected numbered found own listed]
        constructor
        · rintro ⟨_, same, _⟩
          cases same
        · rintro ⟨_, _, member, _⟩
          exact absurd member (Option.not_mem_none _)
    | some dir =>
        have number := index_pred own
        obtain ⟨inside, _⟩ := List.getElem?_eq_some_iff.mp listed
        have known : (if file.index = 0 then some (dirName host.exe.1)
            else lines.lconf.includeDirectories[(file.index - 1).toNat]?.map
              fun dir => (text dir).1) = some (text dir).1 := by
          rw [if_neg own, listed, Option.map_some]
        rw [entryPath_listed (by omega) known,
          showLineAtAddr_included selected numbered found own listed]
        simp only [printFileLine_opened]
        rw [opens_iff]
        constructor
        · rintro ⟨relative, _, fits⟩
          exact ⟨relative, dir, rfl, fits⟩
        · rintro ⟨relative, _, member, fits⟩
          cases member
          exact ⟨relative, rfl, fits⟩

/-- For every row that is selected, and whatever an earlier call left in the buffer. -/
theorem resolves_iff (host : FileHost) (text : Addr → CString) (lines : MyDwLines)
    (addr baseAddr : Addr) (viewer : Viewer) {sm : MyDwSm}
    (selected : getNearestState lines.states addr baseAddr = some sm) :
    Resolves host text lines addr baseAddr sm viewer ↔
      Resolvable host text lines.lconf sm viewer := by
  unfold Resolvable
  by_cases zero : sm.file = 0
  · have none : sourcePath host text lines.lconf sm = none := by rw [sourcePath, if_pos zero]
    unfold Resolves
    rw [none, showLineAtAddr_noFile selected zero]
    constructor
    · intro _
      exact .inl zero
    · intro _
      exact ⟨viewer, rfl, rfl⟩
  · rw [or_iff_right zero]
    cases found : lines.lconf.files[(sm.file - 1).toNat]? with
    | none =>
        have missing : sourcePath host text lines.lconf sm = none := by
          rw [sourcePath, if_neg zero, found, Option.bind_none]
        unfold Resolves
        rw [missing, showLineAtAddr_noEntry selected zero found]
        constructor
        · rintro ⟨_, same, _⟩
          cases same
        · rintro ⟨_, member, _⟩
          exact absurd member (Option.not_mem_none _)
    | some file =>
        rw [resolves_entry selected zero found]
        constructor
        · intro right
          exact ⟨file, rfl, right⟩
        · rintro ⟨_, member, right⟩
          cases member
          exact right

end Result

/-! ## An absolute path -/

/-- The link `/b/p`, and an empty file under every name. -/
def emptyHost : FileHost where
  exe := ⟨[slash, 0x62, slash, 0x70], by decide⟩
  absolute := rfl
  readlink := true
  fopen _ := some []

/-- `/f` is stored at one place, and `d` everywhere else. -/
def absoluteAt (place : Addr) : Addr → CString := fun addr =>
  if addr = place then ⟨[slash, 0x66], by decide⟩ else ⟨[0x64], by decide⟩

/-- One row, for a file in the only directory of the table. -/
def oneFile (count : Nat) : MyDwLines where
  lconf :=
    { lhdr := 0
      standardOpcodeLengths := 0
      includeDirectories := [1]
      files := List.replicate count
        { path := 2, index := 1, lastModification := 0, fileSize := 0 } }
  states := [rowAt 0 false]

def freshViewer : Viewer := ⟨⟨List.replicate myPathMax 0, List.length_replicate⟩, [], []⟩

theorem rowAt_selected (count : Nat) :
    getNearestState (oneFile count).states 0 0 = some (rowAt 0 false) := by
  change getNearestState [rowAt 0 false] 0 0 = some (rowAt 0 false)
  decide

/-- With a relative path it is `d/d` that is opened. -/
theorem resolves_relative :
    Resolves emptyHost (absoluteAt 0) (oneFile 1) 0 0 (rowAt 0 false) freshViewer :=
  (resolves_iff emptyHost (absoluteAt 0) (oneFile 1) 0 0 freshViewer (rowAt_selected 1)).mpr
    (.inr ⟨_, rfl, by decide, 1, rfl, by decide⟩)

/-- `/f` is looked for in `d`, and the first of no files is NULL. -/
theorem absolute_joined :
    ¬ Resolves emptyHost (absoluteAt 2) (oneFile 1) 0 0 (rowAt 0 false) freshViewer ∧
      ¬ Resolves emptyHost (absoluteAt 2) (oneFile 0) 0 0 (rowAt 0 false) freshViewer := by
  have numbered : (rowAt 0 false).file ≠ 0 := by decide
  constructor
  · intro right
    rw [resolves_entry (rowAt_selected 1) numbered rfl] at right
    exact right.1 rfl
  · rintro ⟨after, raised, _⟩
    rw [showLineAtAddr_noEntry (rowAt_selected 0) numbered rfl] at raised
    cases raised

end MyDbg.Infos
