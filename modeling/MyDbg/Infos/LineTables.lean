import MyDbg.Infos.LineReading
import MyDbg.Utils.Memory
import MyDbg.Utils.PointerArrays

/-!
Contract: the tables of directories and files on the heap.

Owns: `add_string`, `store_files` and `dwarf_lines_config` with the blocks they
allocate and grow; headers with their tables in memory; and that the tables and
the fields of every header are found again, up to the pointer `run_machine`
starts with.

Does not own: the allocator, and what the tables are used for. Sizes do not wrap
around: an array as large as that would not fit in memory.
-/

namespace MyDbg.Infos

open LittleEndian ProgramLogic LineNumbers Ownership
open Utils hiding Holds

namespace LineTables

section Functions

variable {κ : Type} (allocator : Allocator κ) (memory : PartialMemory)

/-- `add_string`; the array is what field `array` of `lconf` points to. -/
def addString (lconf : Ptr) (array : Nat) (str : Addr) (length : Nat) : Tmp κ Nat := do
  let old ← loadWord lconf array
  let ptr ← tmpRealloc allocator old (8 * length) (8 * (length + 1))
  storeWord lconf array ptr
  storeWord ptr length str
  return length + 1

/-- The loop over the directories. -/
def addStrings (lconf : Ptr) : Nat → Addr → Nat → Tmp κ (Addr × Nat)
  | 0, _, _ => Program.noReturn
  | fuel + 1, str, length => do
      let c ← reading (load memory str 1)
      if c = 0 then
        return (str, length)
      else
        let length ← addString allocator lconf 3 str length
        let str ← reading (stringEnd memory fuel str)
        addStrings lconf fuel str length

/-- The body of the loop of `store_files`. -/
def storeEntry (fuel : Nat) (files : Ptr) (length : Nat) (str : Addr) : Tmp κ (Ptr × Addr) := do
  let files ← tmpRealloc allocator files (8 * (length + 1)) (8 * (length + 2))
  let f ← tmpMalloc allocator 32
  storeWord files length f
  storeWord f 0 str
  let ptr ← reading (stringEnd memory fuel str)
  let (index, ptr) ← reading (readLeb128 memory fuel ptr)
  storeWord f 1 index
  let (lastModification, ptr) ← reading (readLeb128 memory fuel ptr)
  storeWord f 2 lastModification
  let (fileSize, ptr) ← reading (readLeb128 memory fuel ptr)
  storeWord f 3 fileSize
  return (files, ptr)

def storeEntries : Nat → Ptr → Nat → Addr → Tmp κ (Ptr × Nat)
  | 0, _, _, _ => Program.noReturn
  | fuel + 1, files, length, str => do
      let c ← reading (load memory str 1)
      if c = 0 then
        return (files, length)
      else
        let (files, str) ← storeEntry allocator memory fuel files length str
        storeEntries fuel files (length + 1) str

def storeFiles (fuel : Nat) (str : Addr) : Tmp κ Ptr := do
  let files ← tmpMalloc allocator 8
  let (files, length) ← storeEntries allocator memory fuel files 0 str
  storeWord files length 0
  return files

/-- `struct my_dw_lconf` is five words. -/
def dwarfLinesConfig (fuel : Nat) (sAddr : Addr) : Tmp κ Ptr := do
  let lconf ← tmpCalloc allocator 1 40
  storeWord lconf 0 sAddr
  storeWord lconf 1 (sAddr + BitVec.ofNat 64 sizeofMyDwLhdr)
  let lengths ← reading (standardOpcodeLengths memory sAddr)
  storeWord lconf 2 lengths
  let opcodeBase ← reading (val memory sAddr .opcodeBase)
  let str := lengths + BitVec.ofNat 64 opcodeBase - 1
  let (str, length) ← addStrings allocator memory lconf fuel str 0
  let _ ← addString allocator lconf 3 0 length
  let files ← storeFiles allocator memory fuel (str + 1)
  storeWord lconf 4 files
  return lconf

end Functions

/-! ## What is built -/

/-- An array that ends with NULL. -/
def HasArray (heap : Heap) (ptr : Ptr) (words : List Word) : Prop :=
  heap ptr = some (arrayCells (words ++ [0]))

/-- A `struct my_dw_file`. -/
structure HasFile (heap : Heap) (ptr : Ptr) (file : MyDwFile) : Prop where
  notNull : ptr ≠ 0
  found : heap ptr =
    some (arrayCells [file.path, file.index, file.lastModification, file.fileSize])

/-- A `struct my_dw_lconf`, with the arrays and the files. -/
def HasLconf (heap : Heap) (ptr : Ptr) (lconf : MyDwLconf) : Prop :=
  ∃ includeDirectories files ptrs,
    heap ptr = some (arrayCells [lconf.lhdr, lconf.lhdr + BitVec.ofNat 64 sizeofMyDwLhdr,
      lconf.standardOpcodeLengths, includeDirectories, files]) ∧
    HasArray heap includeDirectories lconf.includeDirectories ∧
    HasArray heap files ptrs ∧ List.Forall₂ (HasFile heap) ptrs lconf.files

/-! ## The directories -/

section Directories

variable {κ : Type} {allocator : Allocator κ} {memory : PartialMemory} {pool : Pool κ}
  {lconf : Ptr} {lhdr lhdrx lengths : Word} {strs : List Addr} {str next : Addr}

/-- The first loop has found `strs`; `files` is still NULL. -/
def Listing (lconf : Ptr) (lhdr lhdrx lengths : Word) (strs : List Addr) (heap : Heap) : Prop :=
  ∃ array, heap lconf = some (arrayCells [lhdr, lhdrx, lengths, array, 0]) ∧
    Has heap array (arrayCells strs) ∧ lconf ≠ array

theorem given_addString (listing : Listing lconf lhdr lhdrx lengths strs pool.heap) (str : Addr) :
    wp (addString allocator lconf 3 str strs.length)
      (Given pool.refusals fun length after => length = (strs ++ [str]).length ∧
        Listing lconf lhdr lhdrx lengths (strs ++ [str]) after.heap) pool := by
  obtain ⟨old, found, has, apart⟩ := listing
  unfold addString
  rw [wp_bind_ok (loadWord_ok found rfl)]
  have room : (arrayCells strs).length ≤ 8 * (strs.length + 1) := by
    rw [arrayCells_length]
    omega
  apply given_bind (given_tmpRealloc has (arrayCells_length strs).symm room (by omega))
  intro array middle grown
  have kept := grown.kept lconf _ apart found
  have other : lconf ≠ array := grown.moved.ne found apart
  have larger := grown.found
  rw [← arrayRoom_zero, arrayRoom_grow strs (Nat.zero_le 1)] at larger
  rw [wp_bind_ok (storeWord_set array kept (by simp))]
  rw [wp_bind_ok (storeWord_room str ((put_of_ne other.symm).trans larger))]
  refine ⟨rfl, by simp, array, (put_of_ne other).trans put_self, ?_, other⟩
  rw [← arrayRoom_zero (strs ++ [str])]
  exact has_put grown.notNull

theorem given_addStrings (allocator : Allocator κ) {paths : List PathName}
    (spans : Spans memory str (paths.flatMap encodePath ++ [0]) next) :
    ∀ᶠ fuel in Filter.atTop, ∀ (lconf : Ptr) (lhdr lhdrx lengths : Word) (strs : List Addr)
      (pool : Pool κ), Listing lconf lhdr lhdrx lengths strs pool.heap →
        wp (addStrings allocator memory lconf fuel str strs.length)
          (Given pool.refusals fun result after => result.1 + 1 = next ∧
            result.2 = (strs ++ directoriesAt str paths).length ∧
              Listing lconf lhdr lhdrx lengths (strs ++ directoriesAt str paths) after.heap)
          pool := by
  induction paths generalizing str with
  | nil =>
      obtain ⟨holds, rfl⟩ := spans
      apply eventually_succ
      filter_upwards with fuel lconf lhdr lhdrx lengths strs pool listing
      unfold addStrings
      rw [wp_bind_ok (reading_ok (load_byte holds.1) pool), directoriesAt, List.append_nil]
      exact ⟨rfl, rfl, rfl, listing⟩
  | cons path paths inductionHypothesis =>
      rw [List.flatMap_cons, List.append_assoc] at spans
      obtain ⟨byte, here, nonzero⟩ := path_first path spans
      obtain ⟨middle, first, rest⟩ := spans.split
      apply eventually_succ
      filter_upwards [(stringEnd_yields path.2.2 first).eventually, inductionHypothesis rest]
        with fuel skips later lconf lhdr lhdrx lengths strs pool listing
      unfold addStrings
      rw [wp_bind_ok (reading_ok (load_byte here) pool), if_neg (nonzero_toNat nonzero)]
      apply given_bind (given_addString listing str)
      rintro _ after ⟨rfl, listing⟩
      have rest := later lconf lhdr lhdrx lengths (strs ++ [str]) after listing
      rw [← List.append_cons] at rest
      rw [wp_bind_ok (reading_ok skips after), directoriesAt, ← first.ends]
      exact rest

end Directories

/-! ## The files -/

section Files

variable {κ : Type} {allocator : Allocator κ} {memory : PartialMemory} {pool : Pool κ}
  {str next : Addr}

/-- The array points to the files found so far and has room for one more pointer. -/
structure Storing (heap : Heap) (array : Ptr) (ptrs : List Ptr) (files : List MyDwFile) :
    Prop where
  notNull : array ≠ 0
  found : heap array = some (arrayRoom ptrs 1)
  stored : List.Forall₂ (fun ptr file => ptr ≠ array ∧ HasFile heap ptr file) ptrs files

/-- Files are where they were when the array has moved. -/
theorem Storing.moved {before after : Heap} {old array : Ptr} {ptrs : List Ptr}
    {files : List MyDwFile} (storing : Storing before old ptrs files)
    (moved : Moved old before array after) :
    List.Forall₂ (fun ptr file => ptr ≠ array ∧ HasFile after ptr file) ptrs files := by
  apply storing.stored.imp
  rintro ptr file ⟨apart, notNull, found⟩
  exact ⟨moved.ne found apart, notNull, moved.kept ptr _ apart found⟩

/-- What one turn reads: the end of a path, and three numbers behind it. -/
structure EntryRead (memory : PartialMemory) (fuel : Nat) (str : Addr) (file : MyDwFile)
    (next : Addr) : Prop where
  path : file.path = str
  numbers : ∃ first second third, Returns (stringEnd memory fuel str) first ∧
    Returns (readLeb128 memory fuel first) (file.index, second) ∧
    Returns (readLeb128 memory fuel second) (file.lastModification, third) ∧
    Returns (readLeb128 memory fuel third) (file.fileSize, next)

theorem given_storeEntry_read {fuel : Nat} {file : MyDwFile} {old : Ptr} {ptrs : List Ptr}
    {files : List MyDwFile} (read : EntryRead memory fuel str file next)
    (storing : Storing pool.heap old ptrs files) :
    wp (storeEntry allocator memory fuel old ptrs.length str)
      (Given pool.refusals fun result after => result.2 = next ∧
        Moved old pool.heap result.1 after.heap ∧
          ∃ f, Storing after.heap result.1 (ptrs ++ [f]) (files ++ [file])) pool := by
  obtain ⟨rfl, first, second, third, path, index, lastModification, size⟩ := read
  have has : Has pool.heap old (arrayRoom ptrs 1) := by
    rw [Has, if_neg storing.notNull]
    exact storing.found
  have room : (arrayRoom ptrs 1).length ≤ 8 * (ptrs.length + 2) := by
    rw [arrayRoom_length]
    omega
  unfold storeEntry
  apply given_bind (given_tmpRealloc has (arrayRoom_length ptrs 1).symm room (by omega))
  intro array grownPool grown
  have larger := grown.found
  rw [arrayRoom_grow ptrs (by omega)] at larger
  apply given_bind (given_tmpMalloc 32)
  intro f freshPool fresh
  have apart : array ≠ f := fresh.ne larger
  have growing : Filling freshPool.heap array ptrs 2 freshPool.heap :=
    ⟨fresh.kept array _ larger, fun _ _ _ found => found⟩
  apply given_bind (given_storeWord growing f)
  intro _ linked pointed
  have empty : Filling linked.heap f [] 4 linked.heap :=
    ⟨pointed.kept f _ apart.symm fresh.found, fun _ _ _ found => found⟩
  apply given_bind (given_storeWord empty file.path)
  intro _ named one
  rw [wp_bind_ok (reading_ok path named), wp_bind_ok (reading_ok index named)]
  apply given_bind (given_storeWord one _)
  intro _ indexed two
  rw [wp_bind_ok (reading_ok lastModification indexed)]
  apply given_bind (given_storeWord two _)
  intro _ timed three
  rw [wp_bind_ok (reading_ok size timed)]
  apply given_bind (given_storeWord three _)
  intro _ after four
  have moved : Moved old pool.heap array after.heap := by
    apply grown.moved.trans
    refine ⟨.inl rfl, fun other block beside found => ?_⟩
    have kept := pointed.kept other block beside (fresh.kept other block found)
    exact four.kept other block (fresh.ne found) kept
  refine ⟨rfl, rfl, moved, f, grown.notNull, four.kept array _ apart pointed.found, ?_⟩
  have written := four.found
  rw [arrayRoom_zero] at written
  exact List.rel_append (storing.moved moved) (.cons ⟨apart.symm, fresh.notNull, written⟩ .nil)

theorem given_storeEntry {entry : FileEntry} {ptr afterIndex afterTime : Addr}
    (placed : EntryAt memory str entry ptr afterIndex afterTime next) :
    ∀ᶠ fuel in Filter.atTop, ∀ (old : Ptr) (ptrs : List Ptr) (files : List MyDwFile)
      (pool : Pool κ), Storing pool.heap old ptrs files →
        wp (storeEntry allocator memory fuel old ptrs.length str)
          (Given pool.refusals fun result after => result.2 = next ∧
            Moved old pool.heap result.1 after.heap ∧
              ∃ f, Storing after.heap result.1 (ptrs ++ [f]) (files ++ [fileAt str entry]))
          pool := by
  filter_upwards [(stringEnd_yields entry.path.2.2 placed.path).eventually,
    (readLeb128_spans entry.directory placed.directory).eventually,
    (readLeb128_spans entry.lastModification placed.lastModification).eventually,
    (readLeb128_spans entry.size placed.size).eventually]
    with fuel path directory lastModification size old ptrs files pool storing
  exact given_storeEntry_read ⟨rfl, _, _, _, path, directory, lastModification, size⟩ storing

theorem given_storeEntries {entries : List FileEntry}
    (spans : Spans memory str (entries.flatMap FileEntry.encode ++ [0]) next) :
    ∀ᶠ fuel in Filter.atTop, ∀ (old : Ptr) (ptrs : List Ptr) (files : List MyDwFile)
      (pool : Pool κ), Storing pool.heap old ptrs files →
        wp (storeEntries allocator memory fuel old ptrs.length str)
          (Given pool.refusals fun result after => Moved old pool.heap result.1 after.heap ∧
            ∃ all, Storing after.heap result.1 all (files ++ filesAt str entries) ∧
              result.2 = all.length) pool := by
  induction entries generalizing str with
  | nil =>
      apply eventually_succ
      filter_upwards with fuel old ptrs files pool storing
      unfold storeEntries
      rw [wp_bind_ok (reading_ok (load_byte spans.holds.1) pool), filesAt, List.append_nil]
      exact ⟨rfl, .refl old pool.heap, ptrs, storing, rfl⟩
  | cons entry entries inductionHypothesis =>
      rw [List.flatMap_cons, List.append_assoc] at spans
      obtain ⟨byte, here, nonzero⟩ := entry_first entry spans
      obtain ⟨_, _, _, middle, placed, rest⟩ := entry_split spans
      apply eventually_succ
      filter_upwards [given_storeEntry placed, inductionHypothesis rest]
        with fuel first later old ptrs files pool storing
      unfold storeEntries
      rw [wp_bind_ok (reading_ok (load_byte here) pool), if_neg (nonzero_toNat nonzero)]
      apply given_bind (first old ptrs files pool storing)
      rintro ⟨array, _⟩ grown ⟨rfl, moved, f, storing⟩
      have more := later array (ptrs ++ [f]) (files ++ [fileAt str entry]) grown storing
      rw [← List.append_cons] at more
      rw [List.length_append] at more
      rw [filesAt, ← placed.ends]
      apply given_mono more
      rintro ⟨last, length⟩ after ⟨onwards, all, stored, same⟩
      exact ⟨moved.trans onwards, all, stored, same⟩

theorem given_storeFiles (allocator : Allocator κ) {entries : List FileEntry}
    (spans : Spans memory str (entries.flatMap FileEntry.encode ++ [0]) next) :
    ∀ᶠ fuel in Filter.atTop, ∀ pool : Pool κ,
      wp (storeFiles allocator memory fuel str)
        (Given pool.refusals fun array after => pool.heap array = none ∧
          Retains pool.heap after.heap ∧ ∃ ptrs, HasArray after.heap array ptrs ∧
            List.Forall₂ (HasFile after.heap) ptrs (filesAt str entries)) pool := by
  filter_upwards [given_storeEntries spans] with fuel stores pool
  unfold storeFiles
  apply given_bind (given_tmpMalloc 8)
  intro first started fresh
  apply given_bind (stores first [] [] started ⟨fresh.notNull, fresh.found, .nil⟩)
  rintro ⟨array, _⟩ filled ⟨moved, ptrs, storing, rfl⟩
  rw [wp_bind_ok (storeWord_room 0 storing.found), arrayRoom_zero]
  have unused : pool.heap array = none := by
    cases held : pool.heap array with
    | none => rfl
    | some block => exact absurd rfl (moved.ne (fresh.kept array block held) (fresh.ne held))
  refine ⟨rfl, unused, ?_, ptrs, put_self, ?_⟩
  · intro other block found
    have beside := fresh.ne found
    have held := fresh.kept other block found
    exact (put_of_ne (moved.ne held beside)).trans (moved.kept other block beside held)
  · apply storing.stored.imp
    rintro ptr file ⟨apart, notNull, found⟩
    exact ⟨notNull, (put_of_ne apart).trans found⟩

end Files

/-! ## The configuration -/

section Config

variable {κ : Type} {allocator : Allocator κ} {memory : PartialMemory}
  {lhdr lengths str middle last : Addr}

theorem calloc_words : List.replicate (1 * 40) (some 0) = arrayCells [0, 0, 0, 0, 0] := by
  decide

/-- An array with an end is not NULL. -/
theorem has_terminated {heap : Heap} {array : Ptr} {words : List Word}
    (has : Has heap array (arrayCells (words ++ [0]))) : HasArray heap array words := by
  unfold Has at has
  by_cases null : array = 0
  · rw [if_pos null] at has
    have length := congrArg List.length has
    rw [arrayCells_length, List.length_append] at length
    cases length
  · rwa [if_neg null] at has

/-- A configuration is larger than an entry. -/
theorem HasFile.ne {heap : Heap} {ptr lconf : Ptr} {file : MyDwFile} {a b c d e : Word}
    (has : HasFile heap ptr file) (found : heap lconf = some (arrayCells [a, b, c, d, e])) :
    ptr ≠ lconf := by
  rintro rfl
  have same := Option.some.inj (has.found.symm.trans found)
  have length := congrArg List.length same
  rw [arrayCells_length, arrayCells_length] at length
  cases length

theorem given_dwarfLinesConfig {base : Nat} {paths : List PathName} {entries : List FileEntry}
    (lengthsRead : Returns (standardOpcodeLengths memory lhdr) lengths)
    (baseRead : Returns (val memory lhdr .opcodeBase) base)
    (start : lengths + BitVec.ofNat 64 base - 1 = str)
    (directories : Spans memory str (paths.flatMap encodePath ++ [0]) middle)
    (files : Spans memory middle (entries.flatMap FileEntry.encode ++ [0]) last) :
    ∀ᶠ fuel in Filter.atTop, ∀ pool : Pool κ,
      wp (dwarfLinesConfig allocator memory fuel lhdr)
        (Given pool.refusals fun ptr after => HasLconf after.heap ptr {
          lhdr
          standardOpcodeLengths := lengths
          includeDirectories := directoriesAt str paths
          files := filesAt middle entries }) pool := by
  filter_upwards [given_addStrings allocator directories, given_storeFiles allocator files]
    with fuel lists stores pool
  unfold dwarfLinesConfig
  apply given_bind (given_tmpCalloc 1 40 (by omega))
  intro lconf allocated fresh
  have zeros := fresh.found
  rw [calloc_words] at zeros
  apply given_bind (given_storeWord_set lhdr zeros (by simp))
  rintro _ _ ⟨one, _⟩
  apply given_bind (given_storeWord_set _ one (by simp))
  rintro _ second ⟨two, _⟩
  rw [wp_bind_ok (reading_ok lengthsRead second)]
  apply given_bind (given_storeWord_set lengths two (by simp))
  rintro _ third ⟨three, _⟩
  rw [wp_bind_ok (reading_ok baseRead third), start]
  apply given_bind (lists lconf _ _ _ [] third ⟨0, three, rfl, fresh.notNull⟩)
  rintro ⟨stopped, _⟩ listed ⟨rfl, rfl, listing⟩
  apply given_bind (given_addString listing 0)
  rintro _ ended ⟨_, array, found, has, apart⟩
  apply given_bind (stores ended)
  rintro files filled ⟨unused, kept, ptrs, pointers, stored⟩
  have config := kept lconf _ found
  have beside : files ≠ lconf := by
    rintro rfl
    rw [unused] at found
    cases found
  apply given_bind (given_storeWord_set files config (by simp))
  rintro _ after ⟨last, rest⟩
  refine ⟨rfl, array, files, ptrs, last, ?_, rest files _ beside pointers, ?_⟩
  · exact rest array _ apart.symm (kept array _ (has_terminated has))
  · apply stored.imp
    intro ptr file isFile
    exact ⟨isFile.notNull, rest ptr _ (isFile.ne config) isFile.found⟩

end Config

end LineTables

/-! ## Headers with tables -/

/-- A header of version 2, 3 or 4 with what is behind its fields. -/
structure TablesHeader where
  fields : HeaderFields
  standardOpcodeLengths : List Byte
  tables : LineNumbers.Tables
  known : fields.version ∈ [2, 3, 4]
  numbered : fields.opcodeBase.toNat = standardOpcodeLengths.length + 1

namespace TablesHeader

variable (header : TablesHeader)

def bytes : List Byte :=
  header.fields.bytes ++ (header.standardOpcodeLengths ++ header.tables.encode)

/-- What `header_length` counts: the bytes behind it. -/
def length : Nat :=
  header.fields.shortFields.length + header.standardOpcodeLengths.length +
    header.tables.encode.length

theorem bytes_length : header.bytes.length = sizeofMyDwLhdr + 4 + header.length := by
  rw [bytes, length, List.length_append, List.length_append, header.fields.bytes_length,
    sizeofMyDwLhdr]
  omega

end TablesHeader

/-- `value` is what `read_leb128` returns for an operand, wherever it is stored. -/
def ReadAs (operand : Leb128) (value : Word) : Prop :=
  ∀ (memory : PartialMemory) (ptr : Addr), Holds memory ptr operand.1 →
    Yields (fun fuel => readLeb128 memory fuel ptr)
      (value, ptr + BitVec.ofNat 64 operand.1.length)

/-- The name and the numbers of an entry. -/
structure IsEntry (memory : PartialMemory) (entry : FileEntry) (file : MyDwFile) : Prop where
  path : Holds memory file.path (encodePath entry.path)
  index : ReadAs entry.directory file.index
  lastModification : ReadAs entry.lastModification file.lastModification
  fileSize : ReadAs entry.size file.fileSize

/-- A configuration has the tables of a header, in order. -/
structure TablesFound (memory : PartialMemory) (header : TablesHeader) (lconf : MyDwLconf) :
    Prop where
  lengths : Holds memory lconf.standardOpcodeLengths header.standardOpcodeLengths
  directories : List.Forall₂ (fun path str => Holds memory str (encodePath path))
    header.tables.directories lconf.includeDirectories
  files : List.Forall₂ (IsEntry memory) header.tables.files lconf.files

/-- `run_machine` starts at `ptr`, with the rest of the unit in front of it. -/
def StartsAt (memory : PartialMemory) (lhdr : Addr) (fields : HeaderFields) (ptr : Addr) : Prop :=
  ∀ fuel sm before, ∃ after, runMachine memory lhdr fuel sm before =
    (do
      let size := (fields.unitLength - fields.headerLength - 6).setWidth 64
      let run ← runFrom memory lhdr size fuel 0 { sm, states := [], ptr }
      return run.states : Reading (List MyDwSm)) after

/-- What is read at `lhdr` and built of it is what the header has, unless memory is refused
while it is built. -/
structure Recovers {κ : Type} (allocator : Allocator κ) (memory : PartialMemory) (lhdr : Addr)
    (header : TablesHeader) : Prop where
  fields : ∀ key, Returns (val memory lhdr key) (header.fields.value key)
  signed : (BitVec.ofNat 8 (header.fields.value .lineBase)).toInt = header.fields.lineBase.toInt
  single : header.fields.version.toNat < 4 →
    header.fields.value .maximumOperationsPerInstruction = 1
  tables : ∃ lconf, lconf.lhdr = lhdr ∧ TablesFound memory header lconf ∧
    ∀ᶠ fuel in Filter.atTop, ∀ pool : Pool κ,
      wp (LineTables.dwarfLinesConfig allocator memory fuel lhdr)
        (Given pool.refusals fun ptr after => LineTables.HasLconf after.heap ptr lconf) pool
  starts : header.fields.headerLength.toNat = header.length →
    StartsAt memory lhdr header.fields (lhdr + BitVec.ofNat 64 header.bytes.length)

section Results

variable {memory : PartialMemory} {lhdr str next : Addr} {header : TablesHeader}

theorem directoriesAt_hold {paths : List PathName}
    (spans : Spans memory str (paths.flatMap encodePath ++ [0]) next) :
    List.Forall₂ (fun path str => Holds memory str (encodePath path)) paths
      (directoriesAt str paths) := by
  induction paths generalizing str with
  | nil => exact .nil
  | cons path paths inductionHypothesis =>
      rw [List.flatMap_cons, List.append_assoc] at spans
      obtain ⟨middle, first, rest⟩ := spans.split
      rw [directoriesAt, ← first.ends]
      exact .cons first.holds (inductionHypothesis rest)

theorem leb128Value_readAs (operand : Leb128) : ReadAs operand (leb128Value operand) :=
  fun _ _ holds => readLeb128_yields operand holds

theorem filesAt_hold {entries : List FileEntry}
    (spans : Spans memory str (entries.flatMap FileEntry.encode ++ [0]) next) :
    List.Forall₂ (IsEntry memory) entries (filesAt str entries) := by
  induction entries generalizing str with
  | nil => exact .nil
  | cons entry entries inductionHypothesis =>
      rw [List.flatMap_cons, List.append_assoc] at spans
      obtain ⟨_, _, _, middle, placed, rest⟩ := entry_split spans
      rw [filesAt, ← placed.ends]
      exact .cons ⟨placed.path.holds, leb128Value_readAs _, leb128Value_readAs _,
        leb128Value_readAs _⟩ (inductionHypothesis rest)

/-- In both layouts `opcode_base` is the last field. -/
theorem opcodeLengths_returns {fields : HeaderFields}
    (stored : Holds memory lhdr fields.bytes) :
    Returns (standardOpcodeLengths memory lhdr)
      (lhdr + BitVec.ofNat 64 fields.bytes.length) := by
  apply Returns.bind (version_returns stored)
  rw [fields.bytes_length, HeaderFields.shortFields]
  by_cases early : fields.version.toNat < 4
  · rw [if_pos early, if_pos early]
    exact .pure _
  · rw [if_neg early, if_neg early]
    exact .pure _

theorem startsAt_next (stored : Holds memory lhdr header.bytes)
    (counted : header.fields.headerLength.toNat = header.length) :
    StartsAt memory lhdr header.fields (lhdr + BitVec.ofNat 64 header.bytes.length) := by
  have front := (holds_append.mp stored).1
  intro fuel sm before
  obtain ⟨middle, lengthRead⟩ := HeaderFields.val_returns front .headerLength before
  obtain ⟨after, unitRead⟩ := HeaderFields.unitLength_returns front middle
  have whole : BitVec.ofNat 32 (header.fields.value .headerLength) =
      header.fields.headerLength := by
    rw [HeaderFields.value, BitVec.ofNat_toNat, BitVec.setWidth_eq]
  refine ⟨after, ?_⟩
  unfold runMachine
  rw [Program.bind_ok lengthRead, Program.bind_ok unitRead, whole, header.bytes_length, ← counted]
  rfl

/-- The two levels: what is found in the section, and what is built of it on the heap. -/
theorem config_built {κ : Type} (allocator : Allocator κ)
    (stored : Holds memory lhdr header.bytes) :
    ∃ lconf, lconf.lhdr = lhdr ∧ TablesFound memory header lconf ∧
      Yields (fun fuel => dwarfLinesConfig memory fuel lhdr) lconf ∧
      ∀ᶠ fuel in Filter.atTop, ∀ pool : Pool κ,
        wp (LineTables.dwarfLinesConfig allocator memory fuel lhdr)
          (Given pool.refusals fun ptr after => LineTables.HasLconf after.heap ptr lconf) pool := by
  have spans : Spans memory lhdr (header.bytes ++ []) _ := ⟨by rwa [List.append_nil], rfl⟩
  rw [TablesHeader.bytes, List.append_assoc, List.append_assoc] at spans
  obtain ⟨lengths, fields, rest⟩ := spans.split
  obtain ⟨str, opcodes, rest⟩ := rest.split
  obtain ⟨middle, last, directories, files, _⟩ := tables_split header.tables rest
  have lengthsRead := opcodeLengths_returns fields.holds
  rw [← fields.ends] at lengthsRead
  have baseRead := HeaderFields.val_returns fields.holds .opcodeBase
  have start : lengths + BitVec.ofNat 64 (header.fields.value .opcodeBase) - 1 = str := by
    rw [HeaderFields.value, header.numbered, opcodes.ends, BitVec.ofNat_add, ← BitVec.add_assoc]
    exact BitVec.add_sub_cancel _ _
  refine ⟨{
    lhdr
    standardOpcodeLengths := lengths
    includeDirectories := directoriesAt str header.tables.directories
    files := filesAt middle header.tables.files }, rfl,
    ⟨opcodes.holds, directoriesAt_hold directories, filesAt_hold files⟩, ?_, ?_⟩
  · apply Yields.bind (.of_returns lengthsRead)
    apply Yields.bind (.of_returns baseRead)
    rw [start]
    apply Yields.bind (storeDirectoriesFrom_yields directories [])
    apply Yields.bind (storeFilesFrom_yields files [])
    exact .pure _
  · exact LineTables.given_dwarfLinesConfig lengthsRead baseRead start directories files

theorem tables_recovered {κ : Type} (allocator : Allocator κ) (header : TablesHeader)
    (stored : Holds memory lhdr header.bytes) : Recovers allocator memory lhdr header where
  fields := HeaderFields.val_returns (holds_append.mp stored).1
  signed := by rw [HeaderFields.value, BitVec.ofNat_toNat, BitVec.setWidth_eq]
  single early := if_pos early
  tables := by
    obtain ⟨lconf, same, tables, _, built⟩ := config_built allocator stored
    exact ⟨lconf, same, tables, built⟩
  starts := startsAt_next stored

end Results

/-! ## A header of version 2 -/

/-- Two directories, and a file whose time takes two bytes. -/
def smallHeader : TablesHeader where
  fields :=
    { unitLength := 27
      version := 2
      headerLength := 21
      minimumInstructionLength := 1
      maximumOperationsPerInstruction := 0
      defaultIsStmt := 1
      lineBase := 0xfb
      lineRange := 0
      opcodeBase := 3 }
  standardOpcodeLengths := [0, 1]
  tables :=
    { directories := [⟨[0x64], by decide⟩, ⟨[0x65], by decide⟩]
      files := [{
        path := ⟨[0x66, 0x2e, 0x63], by decide⟩
        directory := ⟨[2], by decide⟩
        lastModification := ⟨[0x81, 1], by decide⟩
        size := ⟨[0], by decide⟩ }] }
  known := by decide
  numbered := by decide

theorem tables_recovered_small :
    Recovers firstFit (mapped 0x1000 smallHeader.bytes) 0x1000 smallHeader ∧
      smallHeader.fields.headerLength.toNat = smallHeader.length :=
  ⟨tables_recovered firstFit smallHeader (by decide), by decide⟩

end MyDbg.Infos
