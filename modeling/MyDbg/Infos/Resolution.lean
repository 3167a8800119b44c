import MyDbg.Infos.LinkMap
import MyDbg.Infos.SectionSymbols

/-!
Contract: where a name is, in a process.

Owns: the program headers of a process and where they place its executable; which
definition of a name comes first, of those in the section table, in the dynamic
section and in the libraries; and that `get_address_internal` returns the
run-time address of this one exactly for the symbols below the base address.

Does not own: reading `auxv`. The executable is linked dynamically.
-/

namespace MyDbg.Infos

open LittleEndian ProgramLogic

/-! ## Program headers -/

/-- The fields of `Elf64_Phdr` that the search uses. -/
structure Elf64Phdr where
  pType : Nat
  pVaddr : Addr

def elf64Phdr (bytes : List Byte) : Elf64Phdr where
  pType := leNatAt bytes 0 4
  pVaddr := BitVec.ofNat 64 (leNatAt bytes 16 8)

section Headers

variable {memory : PartialMemory} {pHeader : Addr} {pType : Nat}

/-- The headers stored from `pHeader` on. -/
def PhdrsAt (memory : PartialMemory) : Addr → List Elf64Phdr → Prop
  | _, [] => True
  | pHeader, ph :: rest =>
      (∃ bytes, bytes.length = sizeofElf64Phdr ∧ Holds memory pHeader bytes ∧
        elf64Phdr bytes = ph) ∧
      PhdrsAt memory (pHeader + BitVec.ofNat 64 sizeofElf64Phdr) rest

/-- The loop stops at the first header of the type. -/
theorem getProgramHeader_returns {phdrs : List Elf64Phdr} {ph : Elf64Phdr}
    (stored : PhdrsAt memory pHeader phdrs)
    (first : phdrs.find? (fun ph => ph.pType = pType) = some ph) :
    Returns (getProgramHeader memory pType phdrs.length pHeader) ph.pVaddr := by
  induction phdrs generalizing pHeader with
  | nil => cases first
  | cons header rest inductionHypothesis =>
      obtain ⟨⟨bytes, length, holds, rfl⟩, later⟩ := stored
      apply (readMemory_returns holds length).bind
      by_cases same : leNatAt bytes 0 4 = pType
      · obtain rfl : elf64Phdr bytes = ph := by
          simpa [elf64Phdr, same] using first
        rw [if_pos same]
        exact .pure _
      · have behind : rest.find? (fun ph => ph.pType = pType) = some ph := by
          simpa [elf64Phdr, same] using first
        rw [if_neg same]
        exact inductionHypothesis later behind

end Headers

/-! ## Processes -/

/-- A stopped process, and its executable as the debugger has mapped it. -/
structure Process where
  memory : PartialMemory
  file : MappedElf
  kind : file.header.eType = etExec ∨ file.header.eType = etDyn
  auxv : List Elf64Auxv
  ended : ∃ entry ∈ auxv, entry.aType = atNull
  pHeaders : Addr
  atPHeaders :
    ((auxv.takeWhile fun entry => entry.aType ≠ atNull).find? fun entry => entry.aType = atPhdr) =
      some ⟨atPhdr, pHeaders⟩
  phdrs : List Elf64Phdr
  count : phdrs.length = file.header.ePhnum.toNat
  stored : PhdrsAt memory pHeaders phdrs
  phdr : Elf64Phdr
  isPhdr : phdrs.find? (fun ph => ph.pType = ptPhdr) = some phdr
  dynamic : Elf64Phdr
  isDynamic : phdrs.find? (fun ph => ph.pType = ptDynamic) = some dynamic
  /-- An executable that is not relocatable is loaded where it asks to be. -/
  fixed : file.header.eType = etExec → pHeaders = phdr.pVaddr
  tables : DynamicObject memory
  tables_lAddr : tables.lAddr = pHeaders - phdr.pVaddr
  tables_lLd : tables.lLd = pHeaders - phdr.pVaddr + dynamic.pVaddr
  rDebug : Addr
  rDebugEntry : DynamicEntry memory tables.lAddr dtDebug tables.lLd rDebug
  objects : List (LoadedObject memory)
  /-- Until the libraries are loaded, `r_debug` is NULL. -/
  linked : rDebug = 0 ∧ objects = [] ∨
    rDebug ≠ 0 ∧ ∃ bytes, bytes.length = sizeofRDebug ∧ Holds memory rDebug bytes ∧
      LinkMaps memory (BitVec.ofNat 64 (leNatAt bytes 8 8)) objects

namespace Process

variable (process : Process) (function : CString)

/-- What is added to the addresses in the file. -/
def bias : Addr := process.tables.lAddr

def getAddress (fuel : Nat) : Reading Addr :=
  getAddressInternal process.memory process.file.own (some process.auxv) fuel function
    process.file.elf process.file.header process.file.sHeaders

/-- The scan of the dynamic symbols of the executable. -/
def scanned (fuel : Nat) : Reading Addr :=
  if process.file.header.eType = etDyn then
    getAddressDyn process.memory fuel function process.tables.lLd process.bias
  else pure 0

/-- The first function of the name in the section table has that value. -/
def InSections (value : Addr) : Prop :=
  ∃ first rest, process.file.functions function = first :: rest ∧ first.sym.stValue = value ∧
    value ≠ 0

/-- The first function of the name in the dynamic section has that value. It is not looked
at in an executable that is not relocatable. -/
def InTables (value : Addr) : Prop :=
  process.file.header.eType = etDyn ∧
    ∃ i, IsLeast {k | process.tables.symbols.IsFunction function k} i ∧
      process.tables.stValue i = value ∧ value ≠ 0

/-- The executable defines the name, with that value. -/
def Defines (value : Addr) : Prop :=
  process.InSections function value ∨
    (∀ other, ¬ process.InSections function other) ∧ process.InTables function value

/-- A name is what the executable defines it to be. Otherwise it is what the first library
that has it defines, and a library without a hash table ends the search. -/
structure Resolves : Prop where
  own : ∀ value, process.Defines function value →
    Yields (process.getAddress function) (process.bias + value)
  library : (∀ value, ¬ process.Defines function value) → ∀ front met back i,
    process.objects = front ++ met :: back → (∀ other ∈ front, PassesOver function other) →
      met.hash.isSome → met.Meets function i →
        Yields (process.getAddress function) (met.stValue i + met.lAddr)
  lacking : (∀ value, ¬ process.Defines function value) → ∀ front stop back,
    process.objects = front ++ stop :: back → (∀ other ∈ front, PassesOver function other) →
      stop.hash = none → Raises (process.getAddress function) .elfException
  nowhere : (∀ value, ¬ process.Defines function value) →
    (∀ object ∈ process.objects, PassesOver function object) →
      Yields (process.getAddress function) 0

end Process

/-! ## The search -/

/-- An offset is told from an address by the base address. -/
theorem calcAddress_eq_add_iff {baseAddr addr : Addr} (notNull : addr ≠ 0) :
    calcAddress baseAddr addr = baseAddr + addr ↔ addr < baseAddr ∨ baseAddr = 0 := by
  rw [calcAddress, if_neg notNull]
  by_cases below : addr < baseAddr
  · rw [if_pos below]
    simp [below]
  · rw [if_neg below]
    simp [below]

theorem calcAddress_zero (addr : Addr) : calcAddress 0 addr = addr := by
  by_cases null : addr = 0
  · rw [calcAddress, if_pos null, null]
  · rw [calcAddress, if_neg null, if_neg (by simp)]

section Search

variable {process : Process} {function : CString} {value : Addr}

theorem Process.base_returns (process : Process) :
    Returns (calcBaseAddress process.memory (some process.auxv) process.file.header)
      (process.bias, process.pHeaders) := by
  have ends : process.auxv.any (fun entry => entry.aType = atNull) = true := by
    rw [List.any_eq_true]
    simpa using process.ended
  have found := getProgramHeader_returns process.stored process.isPhdr
  rw [process.count] at found
  have auxv : Returns (getAuxiliaryVector (some process.auxv))
      (process.auxv.takeWhile fun entry => entry.aType ≠ atNull) := by
    unfold getAuxiliaryVector
    simp only [if_pos ends]
    exact .pure _
  have headers : Returns (extractProgramHeaders
      (process.auxv.takeWhile fun entry => entry.aType ≠ atNull)) process.pHeaders := by
    unfold extractProgramHeaders
    rw [process.atPHeaders]
    exact .pure _
  have base : Returns (getBaseAddress process.memory process.file.header process.pHeaders)
      process.bias := by
    unfold Process.bias
    rw [process.tables_lAddr]
    exact found.bind (.pure _)
  exact auxv.bind (headers.bind (base.bind (.pure _)))

theorem Process.dynamic_returns (process : Process) :
    Returns (getDynamicSection process.memory process.file.header process.pHeaders process.bias)
      process.tables.lLd := by
  have found := getProgramHeader_returns process.stored process.isDynamic
  rw [process.count] at found
  unfold Process.bias
  rw [process.tables_lLd, process.tables_lAddr]
  exact found.bind (.pure _)

theorem Process.bias_fixed (process : Process) (exec : process.file.header.eType = etExec) :
    process.bias = 0 := by
  unfold Process.bias
  rw [process.tables_lAddr, process.fixed exec]
  exact BitVec.sub_self _

/-- An executable that is not relocatable is searched before its base address is known. -/
def Process.early (process : Process) (function : CString) : Reading Addr :=
  if process.file.header.eType = etExec then process.file.lookup function
  else if process.file.header.eType ≠ etDyn then Program.throw .elfException
  else pure 0

theorem Process.early_returns (process : Process)
    (undefined : Returns (process.file.lookup function) 0) :
    Returns (process.early function) 0 := by
  unfold Process.early
  rcases process.kind with isExec | isDyn
  · rwa [if_pos isExec]
  · have other : process.file.header.eType ≠ etExec := by
      rw [isDyn]
      decide
    rw [if_neg other, if_neg (not_not.mpr isDyn)]
    exact .pure 0

/-- What the section table says of the name. -/
theorem Process.sections_cases (process : Process) (function : CString) :
    (∃ value, process.InSections function value ∧
        Returns (process.file.lookup function) value) ∨
      (∀ value, ¬ process.InSections function value) ∧
        Returns (process.file.lookup function) 0 := by
  have returns := process.file.lookup_returns function
  unfold Process.InSections
  cases functions : process.file.functions function with
  | nil =>
      rw [functions] at returns
      refine .inr ⟨?_, returns⟩
      rintro value ⟨first, rest, split, _⟩
      cases split
  | cons first rest =>
      rw [functions] at returns
      change Returns _ first.sym.stValue at returns
      by_cases undefined : first.sym.stValue = 0
      · rw [undefined] at returns
        refine .inr ⟨?_, returns⟩
        rintro value ⟨other, others, split, rfl, nonzero⟩
        obtain ⟨rfl, rfl⟩ := List.cons.inj split
        exact nonzero undefined
      · exact .inl ⟨_, ⟨first, rest, rfl, rfl, undefined⟩, returns⟩

theorem Process.sections_unique {other : Addr} (left : process.InSections function value)
    (right : process.InSections function other) : value = other := by
  obtain ⟨first, rest, split, rfl, _⟩ := left
  obtain ⟨second, others, same, rfl, _⟩ := right
  obtain ⟨rfl, rfl⟩ := List.cons.inj (split.symm.trans same)
  rfl

/-- The scan of the dynamic section, which is made for an executable that is relocatable. -/
theorem Process.tables_cases (process : Process) (function : CString) :
    (∃ value, process.InTables function value ∧
        Yields (process.scanned function) value) ∨
      (∀ value, ¬ process.InTables function value) ∧ Yields (process.scanned function) 0 := by
  unfold Process.InTables Process.scanned
  by_cases dyn : process.file.header.eType = etDyn
  · simp only [if_pos dyn]
    rcases process.tables.getAddressDyn_yields function with ⟨i, least, yields⟩ | ⟨none, yields⟩
    · by_cases undefined : process.tables.stValue i = 0
      · rw [undefined] at yields
        refine .inr ⟨?_, yields⟩
        rintro value ⟨_, k, leastK, rfl, nonzero⟩
        rw [leastK.unique least] at nonzero
        exact nonzero undefined
      · exact .inl ⟨_, ⟨dyn, i, least, rfl, undefined⟩, yields⟩
    · exact .inr ⟨fun _ ⟨_, k, least, _⟩ => none k least.1, yields⟩
  · simp only [if_neg dyn]
    exact .inr ⟨fun _ tables => dyn tables.1, .pure 0⟩

theorem Process.InSections.nonzero (inSections : process.InSections function value) :
    value ≠ 0 := by
  obtain ⟨_, _, _, _, nonzero⟩ := inSections
  exact nonzero

theorem Process.InTables.nonzero (inTables : process.InTables function value) : value ≠ 0 := by
  obtain ⟨_, _, _, _, nonzero⟩ := inTables
  exact nonzero

theorem Process.Defines.nonzero (defines : process.Defines function value) : value ≠ 0 := by
  rcases defines with inSections | ⟨_, inTables⟩
  · exact inSections.nonzero
  · exact inTables.nonzero

theorem Process.tables_unique {other : Addr} (left : process.InTables function value)
    (right : process.InTables function other) : value = other := by
  obtain ⟨_, i, least, rfl, _⟩ := left
  obtain ⟨_, k, leastK, rfl, _⟩ := right
  rw [least.unique leastK]

/-- The search up to the libraries, where the executable does not define the name. -/
theorem Process.getAddress_goesOn (none : ∀ value, ¬ process.Defines function value) :
    GoesOnAs (process.getAddress function) fun fuel =>
      getAddressLibraries process.memory fuel function process.tables.lLd process.bias := by
  have undefined : ∀ value, ¬ process.InSections function value :=
    fun value inSections => none value (.inl inSections)
  have exec : Returns (process.file.lookup function) 0 := by
    rcases process.sections_cases function with ⟨value, inSections, _⟩ | ⟨_, returns⟩
    · exact absurd inSections (undefined value)
    · exact returns
  have scan : Yields (process.scanned function) 0 := by
    rcases process.tables_cases function with ⟨value, inTables, _⟩ | ⟨_, yields⟩
    · exact absurd (.inr ⟨undefined, inTables⟩) (none value)
    · exact yields
  refine .trans (.bind (.of_returns (process.early_returns exec))) ?_
  refine .trans (.bind (.of_returns process.base_returns)) ?_
  refine .trans (.bind (.of_returns exec)) ?_
  refine .trans (.bind (.of_returns process.dynamic_returns)) ?_
  exact .trans (.bind scan) (.refl _)

/-- A definition of the executable ends the search. -/
theorem Process.getAddress_defines (defines : process.Defines function value) :
    Yields (process.getAddress function) (calcAddress process.bias value) := by
  rcases defines with inSections | ⟨undefined, inTables⟩
  · have nonzero := inSections.nonzero
    have exec : Returns (process.file.lookup function) value := by
      rcases process.sections_cases function with ⟨other, same, returns⟩ | ⟨none, _⟩
      · rwa [Process.sections_unique inSections same]
      · exact absurd inSections (none value)
    rcases process.kind with isExec | isDyn
    · have early : Returns (process.early function) value := by
        unfold Process.early
        rwa [if_pos isExec]
      rw [process.bias_fixed isExec, calcAddress_zero]
      refine (GoesOnAs.bind (.of_returns early)).yields ?_
      simp only [ne_eq, nonzero, not_false_eq_true, if_true]
      exact .pure _
    · have other : process.file.header.eType ≠ etExec := by
        rw [isDyn]
        decide
      have early : Returns (process.early function) 0 := by
        unfold Process.early
        rw [if_neg other, if_neg (not_not.mpr isDyn)]
        exact .pure 0
      refine (GoesOnAs.bind (.of_returns early)).yields ?_
      refine (GoesOnAs.bind (.of_returns process.base_returns)).yields ?_
      refine (GoesOnAs.bind (.of_returns exec)).yields ?_
      simp only [ne_eq, nonzero, not_false_eq_true, if_true]
      exact .pure _
  · have nonzero := inTables.nonzero
    have exec : Returns (process.file.lookup function) 0 := by
      rcases process.sections_cases function with ⟨other, inSections, _⟩ | ⟨_, returns⟩
      · exact absurd inSections (undefined other)
      · exact returns
    have scan : Yields (process.scanned function) value := by
      rcases process.tables_cases function with ⟨other, same, yields⟩ | ⟨none, _⟩
      · rwa [Process.tables_unique inTables same]
      · exact absurd inTables (none value)
    refine (GoesOnAs.bind (.of_returns (process.early_returns exec))).yields ?_
    refine (GoesOnAs.bind (.of_returns process.base_returns)).yields ?_
    refine (GoesOnAs.bind (.of_returns exec)).yields ?_
    refine (GoesOnAs.bind (.of_returns process.dynamic_returns)).yields ?_
    refine (GoesOnAs.bind scan).yields ?_
    simp only [ne_eq, nonzero, not_false_eq_true, if_true]
    exact .pure _

/-- What the libraries are searched for. -/
theorem Process.libraries_goesOn (process : Process) (function : CString) :
    ∃ map, LinkMaps process.memory map process.objects ∧
      GoesOnAs (fun fuel =>
          getAddressLibraries process.memory fuel function process.tables.lLd process.bias)
        (loop process.memory function map) := by
  have entry : GoesOnAs (fun fuel =>
        getAddressLibraries process.memory fuel function process.tables.lLd process.bias) _ :=
    .bind (getDynamicEntry_yields process.rDebugEntry)
  rcases process.linked with ⟨null, none⟩ | ⟨nonzero, bytes, length, holds, linked⟩
  · refine ⟨0, by rw [none]; rfl, entry.trans ⟨1, 0, fun fuel positive before => ⟨before, ?_⟩⟩⟩
    obtain ⟨fuel, rfl⟩ : ∃ less, fuel = less + 1 := ⟨fuel - 1, by omega⟩
    simp only [if_pos null]
    rfl
  · refine ⟨_, linked, entry.trans ?_⟩
    simp only [if_neg nonzero]
    exact .bind (.of_returns (readMemory_returns holds length))

/-- A name is what it should be exactly where the executable's own definition, if there is
one, is below the base address. -/
theorem resolves_below_iff (process : Process) (function : CString) :
    process.Resolves function ↔
      ∀ value, process.Defines function value → value < process.bias ∨ process.bias = 0 := by
  constructor
  · intro resolves value defines
    have runtime := resolves.own value defines
    have found := process.getAddress_defines defines
    exact (calcAddress_eq_add_iff defines.nonzero).mp (found.unique runtime)
  · intro below
    obtain ⟨map, linked, goesOn⟩ := process.libraries_goesOn function
    have searched (none : ∀ value, ¬ process.Defines function value) :
        GoesOnAs (process.getAddress function) (loop process.memory function map) :=
      (process.getAddress_goesOn none).trans goesOn
    refine ⟨fun value defines => ?_, fun none front met back i split quiet present meets => ?_,
      fun none front stop back split quiet absent => ?_, fun none quiet => ?_⟩
    · have found := process.getAddress_defines defines
      rwa [(calcAddress_eq_add_iff defines.nonzero).mpr (below value defines)] at found
    · rw [split] at linked
      exact (searched none).yields (loop_meets linked quiet present meets)
    · rw [split] at linked
      exact (searched none).raises (loop_lacks linked quiet absent)
    · exact (searched none).yields (loop_quiet linked quiet)

end Search

/-! ## An executable without a section table -/

/-- The undefined symbol, and a function named a. -/
def strippedSymbols : DynamicSymbols where
  count := 2
  name i := if i = 0 then ⟨[], noNul_nil⟩ else nameA
  sym i := if i = 0 then ⟨0, 0, 0⟩ else ⟨1, 0x12, 0x10⟩

def strippedBytes : List Byte :=
  arrayBytes 8 [6, 0, 0, 0, 0, 0, 0] ++ arrayBytes 8 [2, 0, 112, 0, 0, 0, 0] ++
    arrayBytes 8 [6, 176, 5, 224, 21, 0, 0, 0] ++
      arrayBytes 8 [0, 0, 0] ++ arrayBytes 8 [1 + 0x12 * 2 ^ 32, 0x10, 0] ++ [0, 97, 0]

/-- It is loaded at 0x10000. -/
def strippedMemory : PartialMemory := fun addr => strippedBytes[(addr - 0x10000).toNat]?

def strippedTables : DynamicObject strippedMemory where
  symbols := strippedSymbols
  lAddr := 0x10000
  lLd := 0x10070
  symtab := 0x100b0
  strtab := 0x100e0
  symtabEntry := .here ⟨arrayBytes 8 [6, 176], rfl, by decide, rfl⟩ rfl
  strtabEntry := .later ⟨arrayBytes 8 [6, 176], rfl, by decide, rfl⟩ (by decide) (by decide)
    (.here ⟨arrayBytes 8 [5, 224], rfl, by decide, rfl⟩ rfl)
  count_le := by decide
  adjacent := rfl
  syms := by
    intro i below
    change i < 2 at below
    interval_cases i
    · exact ⟨arrayBytes 8 [0, 0, 0], rfl, by decide, by decide⟩
    · exact ⟨arrayBytes 8 [1 + 0x12 * 2 ^ 32, 0x10, 0], rfl, by decide, by decide⟩
  names := by
    intro i below
    change i < 2 at below
    interval_cases i <;> decide

def strippedProcess : Process where
  memory := strippedMemory
  file :=
    { own := fun _ => none
      elf := 0
      header := ⟨3, 2, 0⟩
      sHeaders := 0
      sections := []
      count := rfl
      stored := trivial }
  kind := .inr rfl
  auxv := [⟨3, 0x10000⟩, ⟨0, 0⟩]
  ended := ⟨⟨0, 0⟩, .tail _ (.head _), rfl⟩
  pHeaders := 0x10000
  atPHeaders := rfl
  phdrs := [⟨6, 0⟩, ⟨2, 112⟩]
  count := rfl
  stored := ⟨⟨arrayBytes 8 [6, 0, 0, 0, 0, 0, 0], rfl, by decide, rfl⟩,
    ⟨arrayBytes 8 [2, 0, 112, 0, 0, 0, 0], rfl, by decide, rfl⟩, trivial⟩
  phdr := ⟨6, 0⟩
  isPhdr := rfl
  dynamic := ⟨2, 112⟩
  isDynamic := rfl
  fixed exec := absurd exec (by decide)
  tables := strippedTables
  tables_lAddr := rfl
  tables_lLd := rfl
  rDebug := 0
  rDebugEntry := .later ⟨arrayBytes 8 [6, 176], rfl, by decide, rfl⟩ (by decide) (by decide)
    (.later ⟨arrayBytes 8 [5, 224], rfl, by decide, rfl⟩ (by decide) (by decide)
      (.here ⟨arrayBytes 8 [21, 0], rfl, by decide, rfl⟩ rfl))
  objects := []
  linked := .inl ⟨rfl, rfl⟩

theorem stripped_resolves : strippedProcess.Resolves nameA := by
  refine (resolves_below_iff strippedProcess nameA).mpr ?_
  rintro value (⟨_, _, split, _⟩ | ⟨_, _, i, least, rfl, _⟩)
  · cases split
  · left
    have below : i < 2 := least.1.1
    interval_cases i <;> decide

end MyDbg.Infos
