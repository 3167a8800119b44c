import MyDbg.Infos.GetAddress

/-!
Contract: which symbol of the executable's sections `get_address_exec` ends at.

Owns: section tables as they are mapped, with the symbols of their sections; the
symbol that the two loops return from; and for which tables an undefined symbol
does not come before a defined one.

Does not own: the section tables that do not fit in the file.
-/

namespace MyDbg.Infos

open LittleEndian ProgramLogic

/-- A symbol, with the name it has in the string section. -/
structure NamedSymbol where
  sym : Elf64Sym
  name : CString
deriving DecidableEq

/-- What `get_address_exec` looks at of a section; `strings` is the offset of the string
section with index `sh_link`. -/
structure ElfSection where
  shType : BitVec 32
  shOffset : Word
  shSize : Word
  shLink : BitVec 32
  strings : Word
  symbols : List NamedSymbol

def ElfSection.hasSymbols (sh : ElfSection) : Bool :=
  sh.shType.toNat = shtSymtab ∨ sh.shType.toNat = shtDynsym

section Mapped

variable (own : PartialMemory)

/-- The symbols stored from `sym` on, with their names behind `strings`. -/
def SymbolsAt (strings : Addr) : Addr → List NamedSymbol → Prop
  | _, [] => True
  | sym, symbol :: rest =>
      (∃ bytes, bytes.length = sizeofElf64Sym ∧ Holds own sym bytes ∧
        elf64Sym bytes = symbol.sym) ∧
      Holds own (strings + symbol.sym.stName.setWidth 64) (symbol.name.1 ++ [0]) ∧
      SymbolsAt strings (sym + BitVec.ofNat 64 sizeofElf64Sym) rest

/-- A section with symbols, whose header is at `sh`. -/
structure SymbolSectionAt (elf sHeaders sh : Addr) (contents : ElfSection) : Prop where
  offset : Holds own (sh + 24) (leBytes 8 contents.shOffset.toNat)
  size : Holds own (sh + 32) (leBytes 8 contents.shSize.toNat)
  link : Holds own (sh + 40) (leBytes 4 contents.shLink.toNat)
  strings : Holds own (sHeaders + BitVec.ofNat 64 (sizeofElf64Shdr * contents.shLink.toNat) + 24)
    (leBytes 8 contents.strings.toNat)
  count : contents.shSize.toNat / sizeofElf64Sym = contents.symbols.length
  symbols : SymbolsAt own (elf + contents.strings) (elf + contents.shOffset) contents.symbols

/-- The headers stored from `sh` on. -/
def SectionsAt (elf sHeaders : Addr) : Addr → List ElfSection → Prop
  | _, [] => True
  | sh, contents :: rest =>
      Holds own (sh + 4) (leBytes 4 contents.shType.toNat) ∧
      (contents.hasSymbols = true → SymbolSectionAt own elf sHeaders sh contents) ∧
      SectionsAt elf sHeaders (sh + BitVec.ofNat 64 sizeofElf64Shdr) rest

end Mapped

/-- An executable with its section table, mapped at `elf`. -/
structure MappedElf where
  own : PartialMemory
  elf : Addr
  header : Elf64Ehdr
  sHeaders : Addr
  sections : List ElfSection
  count : sections.length = header.eShnum.toNat
  stored : SectionsAt own elf sHeaders sHeaders sections

namespace MappedElf

/-- The functions of that name in some symbols, in order. -/
def functionsOf (function : CString) (symbols : List NamedSymbol) : List NamedSymbol :=
  symbols.filter fun symbol => symbol.sym.stType = sttFunc ∧ symbol.name = function

/-- The functions of that name in some sections, in order. -/
def functionsIn (function : CString) (sections : List ElfSection) : List NamedSymbol :=
  (sections.filter ElfSection.hasSymbols).flatMap fun contents =>
    functionsOf function contents.symbols

variable (file : MappedElf) (function : CString)

def functions : List NamedSymbol := functionsIn function file.sections

def lookup : Reading Addr :=
  getAddressExec file.own function file.elf file.header file.sHeaders

/-- The lookup returns the value of a defined function of the name, or NULL if there is
none. -/
def SkipsUndefined : Prop :=
  ∃ value, Returns (file.lookup function) value ∧
    ((∃ symbol ∈ file.functions function, symbol.sym.stValue ≠ 0) →
      ∃ symbol ∈ file.functions function, symbol.sym.stValue ≠ 0 ∧
        value = symbol.sym.stValue) ∧
    (value = 0 → ∀ symbol ∈ file.functions function, symbol.sym.stValue = 0)

/-- The first function of the name is defined, unless none is. -/
def DefinedFirst : Prop :=
  ∀ first rest, file.functions function = first :: rest → first.sym.stValue = 0 →
    ∀ symbol ∈ rest, symbol.sym.stValue = 0

end MappedElf

/-! ## The loops -/

section Loops

variable {own : PartialMemory} {elf sHeaders sh sym addr : Addr} {function : CString}
  {bytes : List Byte} {symbol : NamedSymbol} {contents : ElfSection}

theorem toNat_ne {left right : Byte} (differ : left ≠ right) : left.toNat ≠ right.toNat := by
  intro same
  exact differ (BitVec.eq_of_toNat_eq same)

/-- `strcmp` compares up to the NUL that ends one of the strings. -/
theorem equals_returns {name : List Byte} (terminated : 0 ∉ name)
    (holds : Holds own addr (name ++ [0])) (string : List Byte) (nonzero : 0 ∉ string) :
    Returns (equals own addr string) (decide (name = string)) := by
  induction string generalizing addr name with
  | nil =>
      cases name with
      | nil => exact (load_byte holds.1).bind (.pure _)
      | cons c name =>
          have positive : c ≠ 0 := by
            intro zero
            exact terminated (by simp [zero])
          have differ : (c.toNat == 0) = false := by
            simpa using toNat_ne positive
          apply (load_byte holds.1).bind
          rw [differ]
          exact .pure _
  | cons byte string inductionHypothesis =>
      have later : 0 ∉ string := fun member => nonzero (List.mem_cons_of_mem byte member)
      cases name with
      | nil =>
          have positive : 0 ≠ byte := by
            intro zero
            exact nonzero (by simp [zero])
          apply (load_byte holds.1).bind
          rw [if_neg (toNat_ne positive)]
          exact .pure _
      | cons c name =>
          have rest : 0 ∉ name := fun member => terminated (List.mem_cons_of_mem c member)
          have step := inductionHypothesis rest holds.2 later
          apply (load_byte holds.1).bind
          by_cases same : c = byte
          · subst same
            simpa using step
          · rw [if_neg (toNat_ne same)]
            simp only [List.cons.injEq, same, false_and, decide_false]
            exact .pure _

/-- The type, the name and the value of a stored symbol, as the loop loads them. -/
theorem symbol_returns (length : bytes.length = sizeofElf64Sym) (holds : Holds own sym bytes) :
    (∃ stInfo, Returns (load own (sym + 4) 1) stInfo ∧
      stInfo % 16 = (elf64Sym bytes).stType) ∧
    (∃ stName, Returns (load own sym 4) stName ∧
      BitVec.ofNat 64 stName = (elf64Sym bytes).stName.setWidth 64) ∧
    ∃ stValue, Returns (load own (sym + 8) 8) stValue ∧
      BitVec.ofNat 64 stValue = (elf64Sym bytes).stValue := by
  have room : bytes.length = 24 := length
  refine ⟨⟨_, load_part holds (by omega : 4 + 1 ≤ _), ?_⟩, ⟨leNatAt bytes 0 4, ?_, ?_⟩,
    ⟨_, load_part holds (by omega : 8 + 8 ≤ _), rfl⟩⟩
  · show leNatAt bytes 4 1 % 16 = (BitVec.ofNat 8 (leNatAt bytes 4 1) &&& 0xF).toNat
    have low : (BitVec.ofNat 8 (leNatAt bytes 4 1) &&& 0xF).toNat =
        (BitVec.ofNat 8 (leNatAt bytes 4 1)).toNat % 16 := by
      rw [BitVec.toNat_and]
      exact Nat.and_two_pow_sub_one_eq_mod _ 4
    rw [low, BitVec.toNat_ofNat]
    omega
  · have first := load_part holds (by omega : 0 + 4 ≤ _)
    rwa [BitVec.add_zero] at first
  · have fits : leNatAt bytes 0 4 < 2 ^ 32 := by
      have bound := leNat_lt (bytes.take 4)
      rwa [List.length_take, room] at bound
    show BitVec.ofNat 64 (leNatAt bytes 0 4) =
      (BitVec.ofNat 32 (leNatAt bytes 0 4)).setWidth 64
    apply BitVec.eq_of_toNat_eq
    simp only [BitVec.toNat_ofNat, BitVec.toNat_setWidth]
    omega

theorem elfSymbolName_returns (inSection : SymbolSectionAt own elf sHeaders sh contents)
    {stName : Nat} (read : Returns (load own sym 4) stName) :
    Returns (elfSymbolName own elf sHeaders sh sym)
      (elf + contents.strings + BitVec.ofNat 64 stName) := by
  have strings : Returns (elfStringSection own elf sHeaders contents.shLink.toNat)
      (elf + contents.strings) := by
    apply (load_number inSection.strings contents.strings.isLt).bind
    rw [BitVec.ofNat_toNat, BitVec.setWidth_eq]
    exact .pure _
  apply (load_number inSection.link contents.shLink.isLt).bind
  exact strings.bind (read.bind (.pure _))

/-- The value of the first function of the name among the symbols still to come. -/
theorem section_returns (function : CString)
    (inSection : SymbolSectionAt own elf sHeaders sh contents) (symbols : List NamedSymbol)
    (stored : SymbolsAt own (elf + contents.strings) sym symbols) :
    Returns (getAddressSection own function elf sHeaders sh symbols.length sym)
      ((MappedElf.functionsOf function symbols).head?.map fun symbol => symbol.sym.stValue) := by
  induction symbols generalizing sym with
  | nil => exact .pure _
  | cons symbol rest inductionHypothesis =>
      obtain ⟨⟨bytes, length, holds, decoded⟩, named, later⟩ := stored
      have next := inductionHypothesis later
      obtain ⟨⟨stInfo, infoRead, type⟩, ⟨stName, nameRead, offset⟩, stValue, valueRead, value⟩ :=
        symbol_returns length holds
      rw [decoded] at type offset value
      apply infoRead.bind
      by_cases isFunction : symbol.sym.stType = sttFunc
      · have name := elfSymbolName_returns inSection nameRead
        rw [offset] at name
        have compared := equals_returns symbol.name.2 named function.1 function.2
        rw [type, if_neg (not_not.mpr isFunction)]
        apply name.bind
        apply compared.bind
        by_cases same : symbol.name = function
        · have found : MappedElf.functionsOf function (symbol :: rest) =
              symbol :: MappedElf.functionsOf function rest := by
            simp [MappedElf.functionsOf, isFunction, same]
          rw [found, same, decide_eq_true rfl, List.head?_cons, Option.map_some, ← value]
          exact valueRead.bind (.pure _)
        · have passed : MappedElf.functionsOf function (symbol :: rest) =
              MappedElf.functionsOf function rest := by
            simp [MappedElf.functionsOf, same]
          have differ : ¬ symbol.name.1 = function.1 := fun equal => same (Subtype.ext equal)
          rw [passed, decide_eq_false differ]
          exact next
      · have skipped : MappedElf.functionsOf function (symbol :: rest) =
            MappedElf.functionsOf function rest := by
          simp [MappedElf.functionsOf, isFunction]
        rw [skipped, type, if_pos isFunction]
        exact next

/-- The value of the first function of the name in the sections still to come. -/
theorem sections_returns (function : CString) (sections : List ElfSection)
    (stored : SectionsAt own elf sHeaders sh sections) :
    Returns (getAddressExecFrom own function elf sHeaders sections.length sh)
      (((MappedElf.functionsIn function sections).head?.map fun symbol =>
        symbol.sym.stValue).getD 0) := by
  induction sections generalizing sh with
  | nil => exact .pure _
  | cons contents rest inductionHypothesis =>
      obtain ⟨typed, held, later⟩ := stored
      have next := inductionHypothesis later
      apply (load_number typed contents.shType.isLt).bind
      cases holding : contents.hasSymbols with
      | false =>
          have other : contents.shType.toNat ≠ shtSymtab ∧ contents.shType.toNat ≠ shtDynsym := by
            simpa [ElfSection.hasSymbols] using holding
          have skipped : MappedElf.functionsIn function (contents :: rest) =
              MappedElf.functionsIn function rest := by
            simp [MappedElf.functionsIn, holding]
          rw [skipped, if_pos other]
          exact next
      | true =>
          have inSection := held holding
          have searched : ¬ (contents.shType.toNat ≠ shtSymtab ∧
              contents.shType.toNat ≠ shtDynsym) := by
            have symbols := holding
            simp only [ElfSection.hasSymbols, decide_eq_true_eq] at symbols
            omega
          have both : MappedElf.functionsIn function (contents :: rest) =
              MappedElf.functionsOf function contents.symbols ++
                MappedElf.functionsIn function rest := by
            simp [MappedElf.functionsIn, holding]
          have found := section_returns function inSection contents.symbols inSection.symbols
          rw [if_neg searched]
          apply (load_number inSection.offset contents.shOffset.isLt).bind
          apply (load_number inSection.size contents.shSize.isLt).bind
          rw [inSection.count, BitVec.ofNat_toNat, BitVec.setWidth_eq]
          apply found.bind
          rw [both, List.head?_append]
          cases MappedElf.functionsOf function contents.symbols with
          | nil => exact next
          | cons first others => exact .pure _

end Loops

/-! ## The lookup -/

section Lookup

variable {file : MappedElf} {function : CString}

theorem MappedElf.lookup_returns (file : MappedElf) (function : CString) :
    Returns (file.lookup function)
      (((file.functions function).head?.map fun symbol => symbol.sym.stValue).getD 0) := by
  have returns := sections_returns function file.sections file.stored
  rw [file.count] at returns
  exact returns

/-- Undefined symbols are skipped exactly where the first function of the name is defined
or none is. -/
theorem skipsUndefined_iff (file : MappedElf) (function : CString) :
    file.SkipsUndefined function ↔ file.DefinedFirst function := by
  have returns := file.lookup_returns function
  unfold MappedElf.SkipsUndefined MappedElf.DefinedFirst
  cases functions : file.functions function with
  | nil =>
      rw [functions] at returns
      constructor
      · intro _ first rest split
        cases split
      · intro _
        refine ⟨0, returns, ?_, ?_⟩ <;> simp
  | cons first rest =>
      rw [functions] at returns
      have value : Returns (file.lookup function) first.sym.stValue := returns
      constructor
      · intro skips other others split undefined
        obtain ⟨rfl, rfl⟩ := List.cons.inj split
        obtain ⟨result, ends, _, null⟩ := skips
        rw [ends.unique value] at null
        intro symbol member
        exact null undefined symbol (List.mem_cons_of_mem first member)
      · intro definedFirst
        have later := definedFirst first rest rfl
        by_cases undefined : first.sym.stValue = 0
        · have none : ∀ symbol ∈ first :: rest, symbol.sym.stValue = 0 := by
            simpa [undefined] using later undefined
          refine ⟨_, value, ?_, fun _ => none⟩
          intro defined
          obtain ⟨symbol, member, nonzero⟩ := defined
          exact absurd (none symbol member) nonzero
        · refine ⟨_, value, fun _ => ⟨first, List.mem_cons_self, undefined, rfl⟩, ?_⟩
          intro null
          exact absurd null undefined

end Lookup

/-! ## A function imported under the name of a defined one -/

def importedBytes : List Byte :=
  arrayBytes 8 [11 * 2 ^ 32, 0, 0, 192, 24, 2, 0, 24] ++
    arrayBytes 8 [2 * 2 ^ 32, 0, 0, 216, 24, 2, 0, 24] ++
      arrayBytes 8 [3 * 2 ^ 32, 0, 0, 240, 3, 0, 0, 0] ++
        arrayBytes 8 [1 + 0x12 * 2 ^ 32, 0, 0] ++ arrayBytes 8 [1 + 0x12 * 2 ^ 32, 0x1000, 0] ++
          [0, 97, 0]

def importedMemory : PartialMemory := fun addr => importedBytes[addr.toNat]?

def undefinedSymbol : NamedSymbol := ⟨⟨1, 0x12, 0⟩, nameA⟩

def definedSymbol : NamedSymbol := ⟨⟨1, 0x12, 0x1000⟩, nameA⟩

def importedSections : List ElfSection :=
  [⟨11, 192, 24, 2, 240, [undefinedSymbol]⟩, ⟨2, 216, 24, 2, 240, [definedSymbol]⟩,
    ⟨3, 240, 3, 0, 0, []⟩]

theorem importedSections_stored : SectionsAt importedMemory 0 0 0 importedSections := by
  have undefined : SymbolsAt importedMemory 240 192 [undefinedSymbol] :=
    ⟨⟨arrayBytes 8 [1 + 0x12 * 2 ^ 32, 0, 0], rfl, by decide, by decide⟩, by decide, trivial⟩
  have defined : SymbolsAt importedMemory 240 216 [definedSymbol] :=
    ⟨⟨arrayBytes 8 [1 + 0x12 * 2 ^ 32, 0x1000, 0], rfl, by decide, by decide⟩, by decide, trivial⟩
  refine ⟨by decide, fun _ => ?_, by decide, fun _ => ?_, by decide, ?_, trivial⟩
  · exact ⟨by decide, by decide, by decide, by decide, rfl, undefined⟩
  · exact ⟨by decide, by decide, by decide, by decide, rfl, defined⟩
  · intro symbols
    exact absurd symbols (by decide)

def importedElf : MappedElf where
  own := importedMemory
  elf := 0
  header := ⟨2, 0, 3⟩
  sHeaders := 0
  sections := importedSections
  count := rfl
  stored := importedSections_stored

/-- NULL is returned for the undefined symbol. -/
theorem importedElf_unskipped : ¬ importedElf.SkipsUndefined nameA := by
  intro skips
  have functions : importedElf.functions nameA = [undefinedSymbol, definedSymbol] := by
    decide
  obtain ⟨value, ends, _, null⟩ := skips
  have returns := importedElf.lookup_returns nameA
  rw [functions] at returns null
  have zero : value = 0 := ends.unique returns
  have value := null zero definedSymbol (by simp)
  exact absurd value (by decide)

end MyDbg.Infos
