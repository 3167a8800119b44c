import MyDbg.Infos.Reading

/-!
Contract: the tables of a loaded object, found through its dynamic section.

Owns: symbols and dynamic entries as `<elf.h>` lays them out,
`get_dynamic_entry` and `calc_address`; and the memory of an object in which
an entry is found, or is not.

Does not own: the section headers of a file, program headers and `r_debug`.
-/

namespace MyDbg.Infos

open LittleEndian ProgramLogic

/-- The fields of `Elf64_Sym` that the debugger uses. -/
structure Elf64Sym where
  stName : BitVec 32
  stInfo : Byte
  stValue : Addr
deriving DecidableEq

def sizeofElf64Sym : Nat := 24

def elf64Sym (bytes : List Byte) : Elf64Sym where
  stName := BitVec.ofNat 32 (leNatAt bytes 0 4)
  stInfo := BitVec.ofNat 8 (leNatAt bytes 4 1)
  stValue := BitVec.ofNat 64 (leNatAt bytes 8 8)

structure Elf64Dyn where
  dTag : Word
  dPtr : Addr

def sizeofElf64Dyn : Nat := 16

def elf64Dyn (bytes : List Byte) : Elf64Dyn where
  dTag := BitVec.ofNat 64 (leNatAt bytes 0 8)
  dPtr := BitVec.ofNat 64 (leNatAt bytes 8 8)

def dtNull : Word := 0

def dtStrtab : Word := 5

def dtSymtab : Word := 6

def dtGnuHash : Word := 0x6ffffef5

/-- An address that is not relocated yet is an offset from the base. -/
def calcAddress (baseAddr addr : Addr) : Addr :=
  if addr = 0 then 0 else if addr < baseAddr then baseAddr + addr else addr

section Memory

variable (memory : PartialMemory)

def getDynamicEntry (baseAddr : Addr) (dTag : Word) : Nat → Addr → Reading Addr
  | 0, _ => Program.noReturn
  | fuel + 1, dynSection => do
      let bytes ← readMemory memory dynSection sizeofElf64Dyn
      let dyn := elf64Dyn bytes
      if dyn.dTag = dTag then
        return calcAddress baseAddr dyn.dPtr
      else if dyn.dTag = dtNull then
        Program.throw .elfException
      else
        getDynamicEntry baseAddr dTag fuel (dynSection + BitVec.ofNat 64 sizeofElf64Dyn)

/-- `dyn` is what an object holds at `addr`. -/
def DynAt (addr : Addr) (dyn : Elf64Dyn) : Prop :=
  ∃ bytes, bytes.length = sizeofElf64Dyn ∧ Holds memory addr bytes ∧ elf64Dyn bytes = dyn

/-- The first entry with a tag, ahead of the `DT_NULL` at the end, and where it
leads to. -/
inductive DynamicEntry (baseAddr : Addr) (dTag : Word) : Addr → Addr → Prop where
  | here {dynSection : Addr} {dyn : Elf64Dyn} (stored : DynAt memory dynSection dyn)
      (same : dyn.dTag = dTag) :
      DynamicEntry baseAddr dTag dynSection (calcAddress baseAddr dyn.dPtr)
  | later {dynSection found : Addr} {dyn : Elf64Dyn} (stored : DynAt memory dynSection dyn)
      (other : dyn.dTag ≠ dTag) (more : dyn.dTag ≠ dtNull)
      (rest : DynamicEntry baseAddr dTag (dynSection + BitVec.ofNat 64 sizeofElf64Dyn) found) :
      DynamicEntry baseAddr dTag dynSection found

/-- There is no entry with a tag ahead of the `DT_NULL`. -/
inductive NoDynamicEntry (dTag : Word) : Addr → Prop where
  | here {dynSection : Addr} {dyn : Elf64Dyn} (stored : DynAt memory dynSection dyn)
      (last : dyn.dTag = dtNull) : NoDynamicEntry dTag dynSection
  | later {dynSection : Addr} {dyn : Elf64Dyn} (stored : DynAt memory dynSection dyn)
      (other : dyn.dTag ≠ dTag) (more : dyn.dTag ≠ dtNull)
      (rest : NoDynamicEntry dTag (dynSection + BitVec.ofNat 64 sizeofElf64Dyn)) :
      NoDynamicEntry dTag dynSection

end Memory

section Returns

variable {memory : PartialMemory} {baseAddr dynSection found : Addr} {dTag : Word}

/-- The loop stops at the entry, and reads the entries in front of it. -/
theorem getDynamicEntry_within {allowed : Access → Prop}
    (entry : DynamicEntry memory baseAddr dTag dynSection found)
    (permitted : ∀ n, allowed ⟨dynSection + BitVec.ofNat 64 (sizeofElf64Dyn * n), sizeofElf64Dyn⟩) :
    YieldsWithin allowed (fun fuel => getDynamicEntry memory baseAddr dTag fuel dynSection)
      found := by
  induction entry with
  | here stored same =>
      obtain ⟨bytes, length, holds, rfl⟩ := stored
      have here := permitted 0
      rw [Nat.mul_zero, BitVec.add_zero] at here
      apply YieldsWithin.succ fun fuel => rfl
      apply YieldsWithin.bind (readMemory_within holds length here)
      simp only [if_pos same]
      exact .pure _
  | later stored other more rest inductionHypothesis =>
      obtain ⟨bytes, length, holds, rfl⟩ := stored
      have here := permitted 0
      rw [Nat.mul_zero, BitVec.add_zero] at here
      apply YieldsWithin.succ fun fuel => rfl
      apply YieldsWithin.bind (readMemory_within holds length here)
      simp only [if_neg other, if_neg more]
      apply inductionHypothesis
      intro n
      have there := permitted (n + 1)
      rwa [Nat.mul_succ, Nat.add_comm, BitVec.ofNat_add, ← BitVec.add_assoc] at there

theorem getDynamicEntry_yields (entry : DynamicEntry memory baseAddr dTag dynSection found) :
    Yields (fun fuel => getDynamicEntry memory baseAddr dTag fuel dynSection) found :=
  have within : YieldsWithin (fun _ => True) _ _ := getDynamicEntry_within entry fun _ => trivial
  within.yields

theorem getDynamicEntry_raises (tag : dTag ≠ dtNull)
    (missing : NoDynamicEntry memory dTag dynSection) :
    Raises (fun fuel => getDynamicEntry memory baseAddr dTag fuel dynSection) .elfException := by
  induction missing with
  | here stored last =>
      obtain ⟨bytes, length, holds, rfl⟩ := stored
      apply Raises.succ fun fuel => rfl
      apply Raises.of_bind (.of_returns (readMemory_returns holds length))
      have other : (elf64Dyn bytes).dTag ≠ dTag := fun same => tag (same.symm.trans last)
      simp only [if_neg other, if_pos last]
      exact .throw _
  | later stored other more rest inductionHypothesis =>
      obtain ⟨bytes, length, holds, rfl⟩ := stored
      apply Raises.succ fun fuel => rfl
      apply Raises.of_bind (.of_returns (readMemory_returns holds length))
      simp only [if_neg other, if_neg more]
      exact inductionHypothesis

end Returns

end MyDbg.Infos
