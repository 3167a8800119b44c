import MyDbg.Infos.GnuHashTable

/-!
Contract: `get_address_internal` of `my_elf.c`.

Owns: the symbols of the sections of the executable; where the tracee has
loaded it; the scan of a dynamic symbol table; and the walk over the link map.

Does not own: opening and closing the executable. `auxv` can be closed again.
-/

namespace MyDbg.Infos

open LittleEndian ProgramLogic

/-- The fields of `Elf64_Ehdr` that the search uses. -/
structure Elf64Ehdr where
  eType : BitVec 16
  ePhnum : BitVec 16
  eShnum : BitVec 16

structure Elf64Auxv where
  aType : Word
  aVal : Word

def sizeofElf64Shdr : Nat := 64

def sizeofElf64Phdr : Nat := 56

/-- `struct r_debug`, with the padding behind `r_version`. -/
def sizeofRDebug : Nat := 40

def sizeofLinkMap : Nat := 40

def etExec : BitVec 16 := 2

def etDyn : BitVec 16 := 3

def shtSymtab : Nat := 2

def shtDynsym : Nat := 11

def ptDynamic : Nat := 2

def ptPhdr : Nat := 6

def atNull : Word := 0

def atPhdr : Word := 3

def dtDebug : Word := 21

def sttFunc : Nat := 2

/-- `ELF64_ST_TYPE`. -/
def Elf64Sym.stType (sym : Elf64Sym) : Nat := (sym.stInfo &&& 0xF).toNat

/-! ## The sections of the executable -/

section Sections

variable (own : PartialMemory)

/-- `!strcmp(s, string)`. -/
def equals (s : Addr) : List Byte → Reading Bool
  | [] => do
      let c ← load own s 1
      return c == 0
  | byte :: string => do
      let c ← load own s 1
      if c = byte.toNat then equals (s + 1) string else return false

def elfStringSection (elf sHeaders : Addr) (index : Nat) : Reading Addr := do
  let shOffset ← load own (sHeaders + BitVec.ofNat 64 (sizeofElf64Shdr * index) + 24) 8
  return elf + BitVec.ofNat 64 shOffset

def elfSymbolName (elf sHeaders symHeader sym : Addr) : Reading Addr := do
  let shLink ← load own (symHeader + 40) 4
  let strings ← elfStringSection own elf sHeaders shLink
  let stName ← load own sym 4
  return strings + BitVec.ofNat 64 stName

/-- The loop over the symbols of one section, which are still `left`. -/
def getAddressSection (function : CString) (elf sHeaders sh : Addr) :
    Nat → Addr → Reading (Option Addr)
  | 0, _ => return none
  | left + 1, sym => do
      let next := getAddressSection function elf sHeaders sh left
        (sym + BitVec.ofNat 64 sizeofElf64Sym)
      let stInfo ← load own (sym + 4) 1
      if stInfo % 16 ≠ sttFunc then
        next
      else
        let name ← elfSymbolName own elf sHeaders sh sym
        let same ← equals own name function.1
        if same then
          let stValue ← load own (sym + 8) 8
          return some (BitVec.ofNat 64 stValue)
        else
          next

/-- The loop of `get_address_exec`, from the section header `sh` on. -/
def getAddressExecFrom (function : CString) (elf sHeaders : Addr) : Nat → Addr → Reading Addr
  | 0, _ => return 0
  | left + 1, sh => do
      let next := getAddressExecFrom function elf sHeaders left
        (sh + BitVec.ofNat 64 sizeofElf64Shdr)
      let shType ← load own (sh + 4) 4
      if shType ≠ shtSymtab ∧ shType ≠ shtDynsym then
        next
      else
        let shOffset ← load own (sh + 24) 8
        let shSize ← load own (sh + 32) 8
        let found ← getAddressSection own function elf sHeaders sh (shSize / sizeofElf64Sym)
          (elf + BitVec.ofNat 64 shOffset)
        match found with
        | some addr => return addr
        | none => next

def getAddressExec (function : CString) (elf : Addr) (header : Elf64Ehdr) (sHeaders : Addr) :
    Reading Addr :=
  getAddressExecFrom own function elf sHeaders header.eShnum.toNat sHeaders

end Sections

/-! ## Where the executable is loaded -/

section Loaded

variable (memory : PartialMemory)

/-- The entries in front of `AT_NULL`; `auxv` holds what can be read from the file. -/
def getAuxiliaryVector (auxv : Option (List Elf64Auxv)) : Reading (List Elf64Auxv) :=
  match auxv with
  | none => Program.throw .ioException
  | some entries =>
      if entries.any (fun entry => entry.aType = atNull) then
        return entries.takeWhile (fun entry => entry.aType ≠ atNull)
      else
        Program.throw .ioException

def extractProgramHeaders (entries : List Elf64Auxv) : Reading Addr :=
  match entries.find? (fun entry => entry.aType = atPhdr) with
  | some entry => return entry.aVal
  | none => Program.throw .elfException

/-- The `p_vaddr` of the first program header of a type. -/
def getProgramHeader (pType : Nat) : Nat → Addr → Reading Addr
  | 0, _ => Program.throw .elfException
  | left + 1, pHeader => do
      let ph ← readMemory memory pHeader sizeofElf64Phdr
      if leNatAt ph 0 4 = pType then
        return BitVec.ofNat 64 (leNatAt ph 16 8)
      else
        getProgramHeader pType left (pHeader + BitVec.ofNat 64 sizeofElf64Phdr)

def getBaseAddress (header : Elf64Ehdr) (pHeaders : Addr) : Reading Addr := do
  let pVaddr ← getProgramHeader memory ptPhdr header.ePhnum.toNat pHeaders
  return pHeaders - pVaddr

/-- The base address, with the program headers. -/
def calcBaseAddress (auxv : Option (List Elf64Auxv)) (header : Elf64Ehdr) :
    Reading (Addr × Addr) := do
  let entries ← getAuxiliaryVector auxv
  let pHeaders ← extractProgramHeaders entries
  let baseAddr ← getBaseAddress memory header pHeaders
  return (baseAddr, pHeaders)

def getDynamicSection (header : Elf64Ehdr) (pHeaders baseAddr : Addr) : Reading Addr := do
  let pVaddr ← getProgramHeader memory ptDynamic header.ePhnum.toNat pHeaders
  return baseAddr + pVaddr

end Loaded

/-! ## The dynamic symbols -/

section Search

variable (memory : PartialMemory)

/-- The loop of `get_address_dyn`, from symbol `i` on; `left` are to come. -/
def scanSymbols (fuel : Nat) (function : CString) (symtab strtab : Addr) :
    Nat → Nat → Reading Addr
  | 0, _ => return 0
  | left + 1, i => do
      let next := scanSymbols fuel function symtab strtab left (i + 1)
      let bytes ← readMemory memory (symtab + BitVec.ofNat 64 (sizeofElf64Sym * i))
        sizeofElf64Sym
      let sym := elf64Sym bytes
      if sym.stType ≠ sttFunc then
        next
      else
        let str ← readMemString memory fuel (strtab + sym.stName.setWidth 64)
        if str = function then return sym.stValue else next

def getAddressDyn (fuel : Nat) (function : CString) (dynSection baseAddr : Addr) :
    Reading Addr := do
  let symtab ← getDynamicEntry memory baseAddr dtSymtab fuel dynSection
  let strtab ← getDynamicEntry memory baseAddr dtStrtab fuel dynSection
  let size := (strtab - symtab).toNat / sizeofElf64Sym
  scanSymbols memory fuel function symtab strtab size 0

/-- The two lookups in the object of one `struct link_map`. -/
def searchObject (fuel : Nat) (function : CString) (lLd lAddr : Addr) : Reading Addr := do
  let addr ← getAddressGnuHash memory fuel function lLd lAddr
  if addr ≠ 0 then return addr else getAddressDyn memory fuel function lLd lAddr

/-- `for (; map; map = map->l_next)`. -/
def searchLinkMap (function : CString) : Nat → Addr → Reading Addr
  | 0, _ => Program.noReturn
  | fuel + 1, map =>
      if map = 0 then
        return 0
      else do
        let linkMap ← readMemory memory map sizeofLinkMap
        let lAddr := BitVec.ofNat 64 (leNatAt linkMap 0 8)
        let lLd := BitVec.ofNat 64 (leNatAt linkMap 16 8)
        let lNext := BitVec.ofNat 64 (leNatAt linkMap 24 8)
        let addr ← searchObject memory fuel function lLd lAddr
        if addr ≠ 0 then return addr + lAddr else searchLinkMap function fuel lNext

/-- `get_address_internal`, from `DT_DEBUG` on. -/
def getAddressLibraries (fuel : Nat) (function : CString) (dynSection baseAddr : Addr) :
    Reading Addr := do
  let rDebug ← getDynamicEntry memory baseAddr dtDebug fuel dynSection
  if rDebug = 0 then
    return 0
  else
    let bytes ← readMemory memory rDebug sizeofRDebug
    searchLinkMap memory function fuel (BitVec.ofNat 64 (leNatAt bytes 8 8))

/-- The executable is mapped at `elf`, and the debugger's own memory is `own`. -/
def getAddressInternal (own : PartialMemory) (auxv : Option (List Elf64Auxv)) (fuel : Nat)
    (function : CString) (elf : Addr) (header : Elf64Ehdr) (sHeaders : Addr) :
    Reading Addr := do
  let exec := getAddressExec own function elf header sHeaders
  let early ←
    (if header.eType = etExec then exec
      else if header.eType ≠ etDyn then Program.throw .elfException
      else pure 0)
  if early ≠ 0 then
    return early
  else
    let (baseAddr, pHeaders) ← calcBaseAddress memory auxv header
    let addr ← exec
    if addr ≠ 0 then
      return calcAddress baseAddr addr
    else
      let dynSection ← getDynamicSection memory header pHeaders baseAddr
      let addr ←
        (if header.eType = etDyn then getAddressDyn memory fuel function dynSection baseAddr
          else pure 0)
      if addr ≠ 0 then
        return calcAddress baseAddr addr
      else
        getAddressLibraries memory fuel function dynSection baseAddr

end Search

end MyDbg.Infos
