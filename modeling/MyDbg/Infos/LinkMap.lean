import MyDbg.Infos.ObjectSearch

/-!
Contract: which of the loaded objects `get_address_internal` takes a name from.

Owns: link maps in memory; programs whose own tables do not hold the name; and
exactly when the first object that provides it is the one it is taken from.

Does not own: what the executable's own tables hold.
-/

namespace MyDbg.Infos

open LittleEndian ProgramLogic

/-! ## The list -/

/-- The list that starts at `map` holds these objects. -/
def LinkMaps (memory : PartialMemory) : Addr → List (LoadedObject memory) → Prop
  | map, [] => map = 0
  | map, object :: objects => map ≠ 0 ∧ ∃ bytes, bytes.length = sizeofLinkMap ∧
      Holds memory map bytes ∧ BitVec.ofNat 64 (leNatAt bytes 0 8) = object.lAddr ∧
        BitVec.ofNat 64 (leNatAt bytes 16 8) = object.lLd ∧
          LinkMaps memory (BitVec.ofNat 64 (leNatAt bytes 24 8)) objects

section Walk

variable {memory : PartialMemory} {map : Addr} {object : LoadedObject memory}
  {objects before after : List (LoadedObject memory)} {function : CString} {i : Nat}

/-- The loop from `map` on. -/
def loop (memory : PartialMemory) (function : CString) (map : Addr) (fuel : Nat) : Reading Addr :=
  searchLinkMap memory function fuel map

/-- A turn of the loop searches the first object. -/
theorem loop_turn (function : CString) (linked : LinkMaps memory map (object :: objects)) :
    ∃ next, LinkMaps memory next objects ∧
      GoesOnAs (loop memory function map) (fun fuel => do
        let addr ← search object function fuel
        if addr ≠ 0 then return addr + object.lAddr else loop memory function next fuel) := by
  obtain ⟨nonzero, bytes, length, stored, lAddr, lLd, rest⟩ := linked
  refine ⟨_, rest, .trans (.succ fun fuel => if_neg nonzero) ?_⟩
  unfold search
  rw [← lAddr, ← lLd]
  exact .bind (.of_returns (readMemory_returns stored length))

/-- The object has a `DT_GNU_HASH`, and the name is not met in it. -/
def PassesOver (function : CString) (object : LoadedObject memory) : Prop :=
  object.hash.isSome ∧ ∀ i, ¬ object.Meets function i

/-- The loop goes on behind the objects that are passed over. -/
theorem loop_append (linked : LinkMaps memory map (before ++ after))
    (quiet : ∀ object ∈ before, PassesOver function object) :
    ∃ next, LinkMaps memory next after ∧
      GoesOnAs (loop memory function map) (loop memory function next) := by
  induction before generalizing map with
  | nil => exact ⟨map, linked, .refl _⟩
  | cons object before inductionHypothesis =>
      obtain ⟨present, none⟩ := quiet object (.head _)
      obtain ⟨hash, some⟩ := Option.isSome_iff_exists.mp present
      obtain ⟨next, rest, turn⟩ := loop_turn function linked
      obtain ⟨last, linked, goesOn⟩ :=
        inductionHypothesis rest fun other member => quiet other (.tail _ member)
      exact ⟨last, linked, (turn.trans (.bind (search_quiet some none))).trans goesOn⟩

/-- The name is met in `object`, at symbol `i`, and in none before it. -/
theorem loop_meets (linked : LinkMaps memory map (before ++ object :: after))
    (quiet : ∀ other ∈ before, PassesOver function other) (present : object.hash.isSome)
    (meets : object.Meets function i) :
    Yields (loop memory function map) (object.stValue i + object.lAddr) := by
  obtain ⟨hash, some⟩ := Option.isSome_iff_exists.mp present
  obtain ⟨next, rest, goesOn⟩ := loop_append linked quiet
  obtain ⟨_, _, turn⟩ := loop_turn function rest
  apply ((goesOn.trans turn).trans (.bind (search_meets some meets))).yields
  simp only [ne_eq, meets.stValue_ne, not_false_eq_true, if_true]
  exact .pure _

theorem loop_lacks (linked : LinkMaps memory map (before ++ object :: after))
    (quiet : ∀ other ∈ before, PassesOver function other) (absent : object.hash = none) :
    Raises (loop memory function map) .elfException := by
  obtain ⟨next, rest, goesOn⟩ := loop_append linked quiet
  obtain ⟨_, _, turn⟩ := loop_turn function rest
  exact (goesOn.trans turn).raises (.bind (search_raises absent))

theorem loop_quiet (linked : LinkMaps memory map objects)
    (quiet : ∀ object ∈ objects, PassesOver function object) :
    Yields (loop memory function map) 0 := by
  rw [← List.append_nil objects] at linked
  obtain ⟨next, rest, goesOn⟩ := loop_append linked quiet
  obtain rfl : next = 0 := rest
  exact goesOn.yields (.succ (fun fuel => rfl) (.pure 0))

/-- All objects are passed over, or there is a first one that is not. -/
theorem exists_stop (function : CString) (objects : List (LoadedObject memory)) :
    (∀ object ∈ objects, PassesOver function object) ∨
      ∃ before object after, objects = before ++ object :: after ∧
        (∀ other ∈ before, PassesOver function other) ∧ ¬ PassesOver function object := by
  induction objects with
  | nil => exact .inl nofun
  | cons object objects inductionHypothesis =>
      by_cases quiet : PassesOver function object
      · rcases inductionHypothesis with all | ⟨before, stop, after, rfl, front, stops⟩
        · exact .inl (List.forall_mem_cons.mpr ⟨quiet, all⟩)
        · exact .inr ⟨object :: before, stop, after, rfl,
            List.forall_mem_cons.mpr ⟨quiet, front⟩, stops⟩
      · exact .inr ⟨[], object, objects, rfl, nofun, quiet⟩

end Walk

/-! ## Programs -/

/-- A stopped program whose own tables do not hold `function`, with what is loaded. -/
structure LinkedProgram (function : CString) where
  memory : PartialMemory
  /-- The debugger's own memory, with the executable at `elf`. -/
  own : PartialMemory
  auxv : Option (List Elf64Auxv)
  elf : Addr
  header : Elf64Ehdr
  sHeaders : Addr
  pHeaders : Addr
  baseAddr : Addr
  dynSection : Addr
  kind : header.eType = etExec ∨ header.eType = etDyn
  exec : Returns (getAddressExec own function elf header sHeaders) 0
  base : Returns (calcBaseAddress memory auxv header) (baseAddr, pHeaders)
  dynamic : Returns (getDynamicSection memory header pHeaders baseAddr) dynSection
  dyn : header.eType = etDyn →
    Yields (fun fuel => getAddressDyn memory fuel function dynSection baseAddr) 0
  rDebug : Addr
  rDebugEntry : DynamicEntry memory baseAddr dtDebug dynSection rDebug
  rDebug_ne : rDebug ≠ 0
  rMap : Addr
  rMapStored : ∃ bytes, bytes.length = sizeofRDebug ∧ Holds memory rDebug bytes ∧
    BitVec.ofNat 64 (leNatAt bytes 8 8) = rMap
  objects : List (LoadedObject memory)
  linked : LinkMaps memory rMap objects

namespace LinkedProgram

variable {function : CString} (program : LinkedProgram function)

def getAddress (fuel : Nat) : Reading Addr :=
  getAddressInternal program.memory program.own program.auxv fuel function program.elf
    program.header program.sHeaders

/-- Some object has a symbol of that name, of any type. -/
def Named : Prop :=
  ∃ object ∈ program.objects, ∃ i < object.symbols.count, object.symbols.name i = function

/-- `object` is the first one that provides the name. -/
def FirstProvider (object : LoadedObject program.memory) : Prop :=
  ∃ before after, program.objects = before ++ object :: after ∧
    (∃ i, object.Provides function i) ∧ ∀ other ∈ before, ∀ i, ¬ other.Provides function i

/-- The name resolves to the first object that provides it, and to NULL where no object
has it. -/
def Resolves : Prop :=
  (∀ object, program.FirstProvider object →
    ∃ i, object.Provides function i ∧
      Yields program.getAddress (object.stValue i + object.lAddr)) ∧
    (¬ program.Named → Yields program.getAddress 0)

/-- The objects have a `DT_GNU_HASH` up to `met`, the first in which the name is met. -/
def MetIn (met : LoadedObject program.memory) (i : Nat) : Prop :=
  ∃ front back, program.objects = front ++ met :: back ∧
    (∀ other ∈ front, PassesOver function other) ∧ met.hash.isSome ∧ met.Meets function i

/-- The condition on the objects: where the name is met first, it has the address of a
function that provides it. -/
def Fits : Prop :=
  (∀ object, program.FirstProvider object →
    ∃ met i k, program.MetIn met i ∧ object.Provides function k ∧
      met.stValue i + met.lAddr = object.stValue k + object.lAddr) ∧
    (¬ program.Named → ∀ object ∈ program.objects, object.hash.isSome)

/-- What is not resolved by the executable is looked for in the link map. -/
theorem getAddress_goesOn :
    GoesOnAs program.getAddress (loop program.memory function program.rMap) := by
  obtain ⟨bytes, length, stored, rMap⟩ := program.rMapStored
  have early : Returns
      (if program.header.eType = etExec then
          getAddressExec program.own function program.elf program.header program.sHeaders
        else if program.header.eType ≠ etDyn then Program.throw .elfException
        else pure 0) 0 := by
    rcases program.kind with exec | dyn
    · rw [if_pos exec]
      exact program.exec
    · have other : program.header.eType ≠ etExec := by
        rw [dyn]
        decide
      rw [if_neg other, if_neg (not_not.mpr dyn)]
      exact .pure 0
  have own : Yields (fun fuel =>
      if program.header.eType = etDyn then
        getAddressDyn program.memory fuel function program.dynSection program.baseAddr
      else pure 0) 0 := by
    split
    · next dyn => exact program.dyn dyn
    · exact .pure 0
  refine .trans (.bind (.of_returns early)) ?_
  refine .trans (.bind (.of_returns program.base)) ?_
  refine .trans (.bind (.of_returns program.exec)) ?_
  refine .trans (.bind (.of_returns program.dynamic)) ?_
  refine .trans (.bind own) ?_
  refine .trans (.bind (getDynamicEntry_yields program.rDebugEntry)) ?_
  simp only [if_neg program.rDebug_ne]
  refine .trans (.bind (.of_returns (readMemory_returns stored length))) ?_
  rw [rMap]
  exact .refl _

/-- A first object that is not passed over either ends the search with an exception, or
is the one in which the name is met. -/
theorem getAddress_stop :
    (∀ object ∈ program.objects, PassesOver function object) ∧ Yields program.getAddress 0 ∨
      (∃ object ∈ program.objects, object.hash = none) ∧
          Raises program.getAddress .elfException ∨
        ∃ met i, program.MetIn met i ∧
          Yields program.getAddress (met.stValue i + met.lAddr) := by
  have goesOn := program.getAddress_goesOn
  have linked := program.linked
  rcases exists_stop function program.objects with quiet | ⟨front, stop, back, split, quiet, stops⟩
  · exact .inl ⟨quiet, goesOn.yields (loop_quiet linked quiet)⟩
  · right
    rw [split] at linked
    by_cases absent : stop.hash = none
    · have member : stop ∈ program.objects := by
        rw [split]
        exact List.mem_append_right _ (.head _)
      exact .inl ⟨⟨stop, member, absent⟩, goesOn.raises (loop_lacks linked quiet absent)⟩
    · have present : stop.hash.isSome := Option.isSome_iff_ne_none.mpr absent
      obtain ⟨i, meets⟩ : ∃ i, stop.Meets function i := by
        by_contra none
        exact stops ⟨present, not_exists.mp none⟩
      exact .inr ⟨stop, i, ⟨front, back, split, quiet, present, meets⟩,
        goesOn.yields (loop_meets linked quiet present meets)⟩

theorem getAddress_met {met : LoadedObject program.memory} {i : Nat}
    (metIn : program.MetIn met i) :
    Yields program.getAddress (met.stValue i + met.lAddr) := by
  obtain ⟨front, back, split, quiet, present, meets⟩ := metIn
  have linked := program.linked
  rw [split] at linked
  exact program.getAddress_goesOn.yields (loop_meets linked quiet present meets)

theorem MetIn.named {met : LoadedObject program.memory} {i : Nat}
    (metIn : program.MetIn met i) : program.Named := by
  obtain ⟨front, back, split, _, _, meets⟩ := metIn
  refine ⟨met, ?_, i, meets.named⟩
  rw [split]
  exact List.mem_append_right _ (.head _)

/-- The search resolves a name as it should exactly on the lists that meet the condition. -/
theorem getAddress_iff : program.Resolves ↔ program.Fits := by
  constructor
  · rintro ⟨provided, absent⟩
    constructor
    · intro object first
      obtain ⟨k, provides, yields⟩ := provided object first
      rcases program.getAddress_stop with ⟨_, null⟩ | ⟨_, raises⟩ | ⟨met, i, metIn, ends⟩
      · exact absurd (yields.unique null) (object.nonnull function k provides.1 provides.2)
      · exact absurd yields (raises.not_yields _)
      · exact ⟨met, i, k, metIn, provides, ends.unique yields⟩
    · intro unnamed object member
      rcases program.getAddress_stop with ⟨quiet, _⟩ | ⟨_, raises⟩ | ⟨met, i, metIn, _⟩
      · exact (quiet object member).1
      · exact absurd (absent unnamed) (raises.not_yields 0)
      · exact absurd (metIn.named) unnamed
  · rintro ⟨provided, absent⟩
    constructor
    · intro object first
      obtain ⟨met, i, k, metIn, provides, same⟩ := provided object first
      exact ⟨k, provides, same ▸ program.getAddress_met metIn⟩
    · intro unnamed
      rcases program.getAddress_stop with ⟨_, null⟩ | ⟨lacks, _⟩ | ⟨met, i, metIn, _⟩
      · exact null
      · obtain ⟨object, member, none⟩ := lacks
        have present := absent unnamed object member
        rw [none] at present
        cases present
      · exact absurd (metIn.named) unnamed

end LinkedProgram

/-! ## An object without a hash table -/

/-- The undefined symbol, and a function named a. -/
def plainSymbols : DynamicSymbols where
  count := 2
  name i := if i = 0 then ⟨[], noNul_nil⟩ else nameA
  sym i := if i = 0 then ⟨0, 0, 0⟩ else ⟨1, 0x12, 0x1000⟩

def plainBytes : List Byte :=
  arrayBytes 8 [6, 0, 0, 0, 0, 0, 0] ++ arrayBytes 8 [2, 0, 112, 0, 0, 0, 0] ++
    arrayBytes 8 [21, 144, 0, 0] ++ arrayBytes 8 [1, 184, 0, 0, 0] ++
      arrayBytes 8 [0, 0, 224, 0, 0] ++ arrayBytes 8 [6, 272, 5, 320, 0, 0] ++
        arrayBytes 8 [0, 0, 0] ++ arrayBytes 8 [1 + 0x12 * 2 ^ 32, 0x1000, 0] ++ [0, 97, 0]

def plainMemory : PartialMemory := fun addr => plainBytes[addr.toNat]?

def plainObject : LoadedObject plainMemory where
  symbols := plainSymbols
  lAddr := 0
  lLd := 224
  symtab := 272
  strtab := 320
  symtabEntry := .here ⟨arrayBytes 8 [6, 272], rfl, by decide, rfl⟩ rfl
  strtabEntry := .later ⟨arrayBytes 8 [6, 272], rfl, by decide, rfl⟩ (by decide) (by decide)
    (.here ⟨arrayBytes 8 [5, 320], rfl, by decide, rfl⟩ rfl)
  count_le := by decide
  adjacent := rfl
  syms := by
    intro i below
    change i < 2 at below
    interval_cases i
    · exact ⟨arrayBytes 8 [0, 0, 0], rfl, by decide, by decide⟩
    · exact ⟨arrayBytes 8 [1 + 0x12 * 2 ^ 32, 0x1000, 0], rfl, by decide, by decide⟩
  names := by
    intro i below
    change i < 2 at below
    interval_cases i <;> decide
  hash := none
  noHash _ := .later ⟨arrayBytes 8 [6, 272], rfl, by decide, rfl⟩ (by decide) (by decide)
    (.later ⟨arrayBytes 8 [5, 320], rfl, by decide, rfl⟩ (by decide) (by decide)
      (.here ⟨arrayBytes 8 [0, 0], rfl, by decide, rfl⟩ rfl))
  nonnull := by
    rintro function i _ nonzero null
    exact nonzero ((BitVec.add_zero _).symm.trans null)

theorem plain_phdr : Returns (readMemory plainMemory 0 sizeofElf64Phdr)
    (arrayBytes 8 [6, 0, 0, 0, 0, 0, 0]) :=
  readMemory_returns (by decide) rfl

theorem plain_dynamic : Returns (readMemory plainMemory 56 sizeofElf64Phdr)
    (arrayBytes 8 [2, 0, 112, 0, 0, 0, 0]) :=
  readMemory_returns (by decide) rfl

def plainProgram : LinkedProgram nameA where
  memory := plainMemory
  own _ := none
  auxv := some [⟨3, 0⟩, ⟨0, 0⟩]
  elf := 0
  header := ⟨2, 2, 0⟩
  sHeaders := 0
  pHeaders := 0
  baseAddr := 0
  dynSection := 112
  kind := .inl rfl
  exec before := ⟨before, rfl⟩
  base := .bind (.pure _) (.bind (.pure _) (.bind (.bind (.bind plain_phdr (.pure _)) (.pure _))
    (.pure _)))
  dynamic := .bind (.bind plain_phdr (.bind plain_dynamic (.pure _))) (.pure _)
  dyn exec := absurd exec (by decide)
  rDebug := 144
  rDebugEntry := .here ⟨arrayBytes 8 [21, 144], rfl, by decide, rfl⟩ rfl
  rDebug_ne := by decide
  rMap := 184
  rMapStored := ⟨arrayBytes 8 [1, 184, 0, 0, 0], rfl, by decide, rfl⟩
  objects := [plainObject]
  linked := ⟨by decide, arrayBytes 8 [0, 0, 224, 0, 0], rfl, by decide, rfl, rfl, rfl⟩

/-- The function is there, but the search ends with an exception. -/
theorem plainProgram_unresolved : ¬ ∀ function, ∀ program : LinkedProgram function,
    program.Resolves := by
  intro all
  have provides : plainObject.Provides nameA 1 := ⟨⟨by decide, by decide, rfl⟩, by decide⟩
  have none : ∀ other ∈ ([] : List (LoadedObject plainMemory)), ∀ i, ¬ other.Provides nameA i :=
    fun _ member => absurd member List.not_mem_nil
  have first : plainProgram.FirstProvider plainObject := ⟨[], [], rfl, ⟨1, provides⟩, none⟩
  obtain ⟨_, _, yields⟩ := (all nameA plainProgram).1 plainObject first
  have front : ∀ other ∈ ([] : List (LoadedObject plainMemory)), PassesOver nameA other :=
    fun _ member => absurd member List.not_mem_nil
  have linked : LinkMaps plainMemory plainProgram.rMap ([] ++ [plainObject]) :=
    plainProgram.linked
  have lacks : Raises (loop plainMemory nameA plainProgram.rMap) .elfException :=
    loop_lacks linked front rfl
  exact (plainProgram.getAddress_goesOn.raises lacks).not_yields _ yields

end MyDbg.Infos
