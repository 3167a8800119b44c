import MyDbg.Infos.MyElf

/-!
Contract: symbol lookup by `DT_GNU_HASH`.

Owns: `dl_new_hash`, `get_gnu_hash` and `get_address_gnu_hash`.

Does not own: what a hash table has to look like.
-/

namespace MyDbg.Infos

open LittleEndian ProgramLogic

/-- The bytes are read as `unsigned char`, and `uint_fast32_t` has 64 bits. -/
def dlNewHash (s : CString) : Word :=
  s.1.foldl (fun h c => h * 33 + c.setWidth 64) 5381 &&& 0xFFFFFFFF

structure MyGnuHtConfig where
  nbuckets : BitVec 32
  symndx : BitVec 32
  maskwords : BitVec 32
  shift2 : BitVec 32

def sizeofMyGnuHtConfig : Nat := 16

def myGnuHtConfig (bytes : List Byte) : MyGnuHtConfig where
  nbuckets := BitVec.ofNat 32 (leNatAt bytes 0 4)
  symndx := BitVec.ofNat 32 (leNatAt bytes 4 4)
  maskwords := BitVec.ofNat 32 (leNatAt bytes 8 4)
  shift2 := BitVec.ofNat 32 (leNatAt bytes 12 4)

/-- `bloom` and `buckets` are copies, `symhash` is an address in the tracee. -/
structure MyGnuHt where
  conf : MyGnuHtConfig
  bloom : List Byte
  buckets : List Byte
  symhash : Addr

/-- Where the parts of a table start that is stored at `ht`. -/
def bloomAddr (ht : Addr) : Addr := ht + BitVec.ofNat 64 sizeofMyGnuHtConfig

def bucketsAddr (conf : MyGnuHtConfig) (ht : Addr) : Addr :=
  bloomAddr ht + BitVec.ofNat 64 (8 * conf.maskwords.toNat)

def symhashAddr (conf : MyGnuHtConfig) (ht : Addr) : Addr :=
  bucketsAddr conf ht + BitVec.ofNat 64 (4 * conf.nbuckets.toNat)

section Lookup

variable (memory : PartialMemory)

def getGnuHash (fuel : Nat) (dynSection baseAddr : Addr) : Reading MyGnuHt := do
  let ht ← getDynamicEntry memory baseAddr dtGnuHash fuel dynSection
  let header ← readMemory memory ht sizeofMyGnuHtConfig
  let conf := myGnuHtConfig header
  let bloom ← readMemory memory (bloomAddr ht) (8 * conf.maskwords.toNat)
  let buckets ← readMemory memory (bucketsAddr conf ht) (4 * conf.nbuckets.toNat)
  return { conf, bloom, buckets, symhash := symhashAddr conf ht }

/-- Whether the Bloom filter is asked. -/
def MyGnuHt.filters (ht : MyGnuHt) : Reading Bool :=
  if ht.conf.maskwords ≠ 1 then
    return true
  else do
    let first ← element 8 ht.bloom 0
    return first != 0

/-- The bits of a hash in the Bloom filter. Shifting a `uint32_t` by 32 or more
is undefined. -/
def MyGnuHt.hasBits (ht : MyGnuHt) (hash : BitVec 32) : Reading Bool := do
  let mask ← element 8 ht.bloom ((hash / 64) &&& (ht.conf.maskwords - 1)).toNat
  if 32 ≤ ht.conf.shift2.toNat then
    Program.fault
  else
    let bit1 := hash &&& 63
    let bit2 := (hash >>> ht.conf.shift2.toNat) &&& 63
    let mask : Word := BitVec.ofNat 64 mask
    return (mask >>> bit1.toNat) &&& (mask >>> bit2.toNat) &&& 1#64 != 0

/-- Whether the Bloom filter lets a hash pass. -/
def MyGnuHt.passes (ht : MyGnuHt) (hash : BitVec 32) : Reading Bool := do
  let filters ← ht.filters
  if filters then ht.hasBits hash else return true

/-- `&symhash[i - symndx]`. -/
def MyGnuHt.symhashAt (ht : MyGnuHt) (i : BitVec 32) : Addr :=
  ht.symhash + BitVec.ofNat 64 (4 * i.toNat) - BitVec.ofNat 64 (4 * ht.conf.symndx.toNat)

/-- The two comparisons of the loop. -/
def isFunction (function : CString) (hash h : BitVec 32) (fuel : Nat) (name : Addr) :
    Reading Bool :=
  if hash = h &&& ~~~1#32 then do
    let string ← readMemString memory fuel name
    return function = string
  else
    return false

/-- `for (;; ++i)`. -/
def walkChain (function : CString) (hash : BitVec 32) (symtab strtab : Addr) (ht : MyGnuHt) :
    Nat → BitVec 32 → Reading Addr
  | 0, _ => Program.noReturn
  | fuel + 1, i => do
      let entry ← readMemory memory (ht.symhashAt i) 4
      let h := BitVec.ofNat 32 (leNatAt entry 0 4)
      let bytes ← readMemory memory (symtab + BitVec.ofNat 64 (sizeofElf64Sym * i.toNat))
        sizeofElf64Sym
      let sym := elf64Sym bytes
      let found ← isFunction memory function hash h fuel (strtab + sym.stName.setWidth 64)
      if found then
        return sym.stValue
      else if h &&& 1#32 ≠ 0 then
        return 0
      else
        walkChain function hash symtab strtab ht fuel (i + 1)

/-- `get_address_gnu_hash`, which returns NULL for a name it does not find. -/
def getAddressGnuHash (fuel : Nat) (function : CString) (dynSection baseAddr : Addr) :
    Reading Addr := do
  let hash := (dlNewHash function).setWidth 32
  let symtab ← getDynamicEntry memory baseAddr dtSymtab fuel dynSection
  let strtab ← getDynamicEntry memory baseAddr dtStrtab fuel dynSection
  let ht ← getGnuHash memory fuel dynSection baseAddr
  let passes ← ht.passes hash
  if passes then do
    checkDivisor ht.conf.nbuckets.toNat
    let bucket ← element 4 ht.buckets (hash % ht.conf.nbuckets).toNat
    let i := BitVec.ofNat 32 bucket
    if i < ht.conf.symndx then
      return 0
    else
      walkChain memory function hash symtab strtab ht fuel i
  else
    return 0

end Lookup

end MyDbg.Infos
