import MyDbg.Infos.ObjectSearch

/-!
Contract: whether the lookup by hash and the scan of the symbol table agree.

Owns: objects in which no two symbols share a name; and for which names a
symbol that `get_address_gnu_hash` returns is the one `get_address_dyn` returns.

Does not own: names of several symbols.
-/

namespace MyDbg.Infos

open LittleEndian ProgramLogic Grouping

/-- An object with a `DT_GNU_HASH` over its symbols, all of different names. -/
structure NamedObject (memory : PartialMemory) extends DynamicObject memory where
  hash : HashSection memory symbols lAddr lLd
  unique : ∀ i j, i < symbols.count → j < symbols.count → symbols.name i = symbols.name j → i = j

namespace NamedObject

variable {memory : PartialMemory} (object : NamedObject memory) (function : CString)

def gnuLookup (fuel : Nat) : Reading Addr :=
  getAddressGnuHash memory fuel function object.lLd object.lAddr

def dynLookup (fuel : Nat) : Reading Addr :=
  getAddressDyn memory fuel function object.lLd object.lAddr

/-- What the lookup by hash returns is what the scan returns, unless it is NULL. -/
def LookupsAgree : Prop :=
  ∀ value, value ≠ 0 → Yields (object.gnuLookup function) value →
    Yields (object.dynLookup function) value

/-- The name leads to a symbol that is no function. -/
def FindsOther : Prop :=
  ∃ i, object.hash.table.HasName function i ∧ (gnuHash function).toNat % 2 = 0 ∧
    object.stValue i ≠ 0 ∧ (object.symbols.sym i).stType ≠ sttFunc

end NamedObject

variable {memory : PartialMemory} {object : NamedObject memory} {function : CString} {i : Nat}

/-- The lookup by hash returns the value of a hashed symbol, if it is no NULL. -/
theorem gnuLookup_found {value : Addr} (nonzero : value ≠ 0)
    (yields : Yields (object.gnuLookup function) value) :
    ∃ i, object.hash.table.HasName function i ∧ (gnuHash function).toNat % 2 = 0 ∧
      value = object.stValue i := by
  rcases object.lookup_any object.hash function with ⟨even, k, least, found⟩ | ⟨_, null⟩
  · exact ⟨k, least.1, even, yields.unique found.yields⟩
  · exact absurd (yields.unique null.yields) nonzero

theorem gnuLookup_named (named : object.hash.table.HasName function i)
    (even : (gnuHash function).toNat % 2 = 0) :
    Yields (object.gnuLookup function) (object.stValue i) := by
  rcases object.lookup_any object.hash function with ⟨_, k, least, found⟩ | ⟨none, _⟩
  · have same : k = i :=
      object.unique k i least.1.1.2 named.1.2 (least.1.2.trans named.2.symm)
    rw [same] at found
    exact found.yields
  · exact absurd named (none even i)

/-- The scan returns the value of the symbol with the name if it is a function. -/
theorem dynLookup_named (below : i < object.symbols.count)
    (name : object.symbols.name i = function) :
    Yields (object.dynLookup function)
      (if (object.symbols.sym i).stType = sttFunc then object.stValue i else 0) := by
  rcases object.getAddressDyn_yields function with ⟨k, least, found⟩ | ⟨none, null⟩
  · have same : k = i := object.unique k i least.1.1 below (least.1.2.2.trans name.symm)
    subst same
    rw [if_pos least.1.2.1]
    exact found
  · have other : (object.symbols.sym i).stType ≠ sttFunc := by
      intro isFunction
      exact none i ⟨below, isFunction, name⟩
    rw [if_neg other]
    exact null

/-- The two agree on every name, apart from those of hashed symbols that are no functions. -/
theorem lookupsAgree_iff (object : NamedObject memory) (function : CString) :
    object.LookupsAgree function ↔ ¬ object.FindsOther function := by
  constructor
  · intro agree other
    obtain ⟨i, named, even, nonzero, notFunction⟩ := other
    have scanned := agree _ nonzero (gnuLookup_named named even)
    have null := dynLookup_named named.1.2 named.2
    rw [if_neg notFunction] at null
    exact nonzero (scanned.unique null)
  · intro onlyFunctions value nonzero yields
    obtain ⟨i, named, even, rfl⟩ := gnuLookup_found nonzero yields
    have isFunction : (object.symbols.sym i).stType = sttFunc := by
      by_contra notFunction
      exact onlyFunctions ⟨i, named, even, nonzero, notFunction⟩
    have scanned := dynLookup_named named.1.2 named.2
    rwa [if_pos isFunction] at scanned

/-! ## A variable named a -/

/-- The undefined symbol, and an object of data. -/
def variableSymbols : DynamicSymbols where
  count := 2
  name i := if i = 0 then ⟨[], noNul_nil⟩ else nameA
  sym i := if i = 0 then ⟨0, 0, 0⟩ else ⟨1, 0x11, 0x1000⟩

def variableConfig : MyGnuHtConfig where
  nbuckets := 1
  symndx := 1
  maskwords := 1
  shift2 := 5

def variableTable : GnuHashTable variableSymbols where
  conf := variableConfig
  bloom := [0x1000000000040]
  buckets := [1]
  nbuckets_pos := by decide
  shift2_lt := by decide
  maskwords_pow := ⟨0, rfl⟩
  count_le := by decide
  bloom_length := by decide
  buckets_length := by decide
  grouped := by
    intro i j l above _ _ below _
    obtain rfl : i = j := by
      change 1 ≤ i at above
      change l < 2 at below
      omega
    rfl
  first := by
    intro i isFirst
    obtain rfl : i = 1 := by
      have above : 1 ≤ i := isFirst.lower_le
      have below : i < 2 := isFirst.lt_upper
      omega
    decide
  filtered := by
    intro i above below mask found
    obtain rfl : i = 1 := by
      change 1 ≤ i at above
      change i < 2 at below
      omega
    obtain rfl : (0x1000000000040 : Word) = mask := Option.some.inj found
    decide

def variableBytes : List Byte :=
  arrayBytes 8 [6, 80, 5, 128, 0x6ffffef5, 48] ++ arrayBytes 4 [1, 1, 1, 5] ++
    arrayBytes 8 [0x1000000000040] ++ arrayBytes 4 [1, 177671] ++ arrayBytes 8 [0, 0, 0] ++
      arrayBytes 8 [1 + 0x11 * 2 ^ 32, 0x1000, 0] ++ [0, 97, 0]

def variableMemory : PartialMemory := fun addr => variableBytes[addr.toNat]?

def variableSection : HashSection variableMemory variableSymbols 0 0 where
  table := variableTable
  ht := 48
  htEntry := .later ⟨arrayBytes 8 [6, 80], rfl, by decide, rfl⟩ (by decide) (by decide)
    (.later ⟨arrayBytes 8 [5, 128], rfl, by decide, rfl⟩ (by decide) (by decide)
      (.here ⟨arrayBytes 8 [0x6ffffef5, 48], rfl, by decide, rfl⟩ rfl))
  config := by decide
  bloom := by decide
  buckets := by decide
  symhash := by
    intro i hashed
    obtain rfl : i = 1 := by
      obtain ⟨above, below⟩ : 1 ≤ i ∧ i < 2 := hashed
      omega
    decide
  symndx_pos := by decide
  empty := by
    intro bucket below vacant
    obtain rfl : bucket = 0 := by
      change bucket < 1 at below
      omega
    exact absurd (Nat.mod_one _) (vacant 1 ⟨by decide, by decide⟩)

def variableObject : NamedObject variableMemory where
  symbols := variableSymbols
  lAddr := 0
  lLd := 0
  symtab := 80
  strtab := 128
  symtabEntry := .here ⟨arrayBytes 8 [6, 80], rfl, by decide, rfl⟩ rfl
  strtabEntry := .later ⟨arrayBytes 8 [6, 80], rfl, by decide, rfl⟩ (by decide) (by decide)
    (.here ⟨arrayBytes 8 [5, 128], rfl, by decide, rfl⟩ rfl)
  count_le := by decide
  adjacent := rfl
  syms := by
    intro i below
    change i < 2 at below
    interval_cases i
    · exact ⟨arrayBytes 8 [0, 0, 0], rfl, by decide, by decide⟩
    · exact ⟨arrayBytes 8 [1 + 0x11 * 2 ^ 32, 0x1000, 0], rfl, by decide, by decide⟩
  names := by
    intro i below
    change i < 2 at below
    interval_cases i <;> decide
  hash := variableSection
  unique := by
    intro i j belowI belowJ
    change i < 2 at belowI
    change j < 2 at belowJ
    interval_cases i <;> interval_cases j <;> decide

/-- The lookup by hash finds the variable, and the scan does not. -/
theorem variable_disagrees : ¬ variableObject.LookupsAgree nameA := by
  have named : variableObject.hash.table.HasName nameA 1 := ⟨⟨by decide, by decide⟩, rfl⟩
  have found := gnuLookup_named named (by decide)
  have missed := dynLookup_named named.1.2 named.2
  intro agree
  have scanned := agree 0x1000 (by decide) found
  exact absurd (scanned.unique missed) (by decide)

end MyDbg.Infos
