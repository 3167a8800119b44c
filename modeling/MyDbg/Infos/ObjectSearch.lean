import MyDbg.Infos.GetAddress
import MyDbg.Infos.GnuHashBounds
import Mathlib.Order.Nat

/-!
Contract: which symbol of one loaded object a search for a name ends at.

Owns: loaded objects with or without a `DT_GNU_HASH`; the lookup by hash of any
name; the scan of the symbol table behind it; and what both come to.

Does not own: the list of objects.
-/

namespace MyDbg.Infos

open LittleEndian ProgramLogic Grouping

/-! ## Objects -/

/-- Symbol `i` is a function with that name. -/
def DynamicSymbols.IsFunction (symbols : DynamicSymbols) (function : CString) (i : Nat) : Prop :=
  i < symbols.count ∧ (symbols.sym i).stType = sttFunc ∧ symbols.name i = function

/-- A well-formed `DT_GNU_HASH` in the dynamic section `lLd`. -/
structure HashSection (memory : PartialMemory) (symbols : DynamicSymbols) (lAddr lLd : Addr) where
  table : GnuHashTable symbols
  ht : Addr
  htEntry : DynamicEntry memory lAddr dtGnuHash lLd ht
  config : Holds memory ht (arrayBytes 4 [table.conf.nbuckets.toNat, table.conf.symndx.toNat,
    table.conf.maskwords.toNat, table.conf.shift2.toNat])
  bloom : Holds memory (bloomAddr ht) (arrayBytes 8 (table.bloom.map BitVec.toNat))
  buckets : Holds memory (bucketsAddr table.conf ht)
    (arrayBytes 4 (table.buckets.map BitVec.toNat))
  symhash : ∀ i, table.Hashed i →
    Holds memory (symhashAddr table.conf ht + BitVec.ofNat 64 (4 * (i - table.conf.symndx.toNat)))
      (leBytes 4 (table.symhash i))
  /-- Symbol 0 is undefined. -/
  symndx_pos : 0 < table.conf.symndx.toNat
  empty : ∀ bucket < table.conf.nbuckets.toNat,
    (∀ i, table.Hashed i → symbols.bucket table.conf i ≠ bucket) →
      table.buckets[bucket]? = some 0

/-- An object with a symbol table that a string table follows. -/
structure DynamicObject (memory : PartialMemory) where
  symbols : DynamicSymbols
  lAddr : Addr
  lLd : Addr
  symtab : Addr
  strtab : Addr
  symtabEntry : DynamicEntry memory lAddr dtSymtab lLd symtab
  strtabEntry : DynamicEntry memory lAddr dtStrtab lLd strtab
  count_le : symbols.count ≤ 2 ^ 32
  adjacent : strtab = symtab + BitVec.ofNat 64 (sizeofElf64Sym * symbols.count)
  syms : ∀ i < symbols.count, ∃ bytes, bytes.length = sizeofElf64Sym ∧
    Holds memory (symtab + BitVec.ofNat 64 (sizeofElf64Sym * i)) bytes ∧
      elf64Sym bytes = symbols.sym i
  names : ∀ i < symbols.count,
    Holds memory (strtab + (symbols.sym i).stName.setWidth 64) ((symbols.name i).1 ++ [0])

/-- An object of the link map. -/
structure LoadedObject (memory : PartialMemory) extends DynamicObject memory where
  hash : Option (HashSection memory symbols lAddr lLd)
  noHash : hash = none → NoDynamicEntry memory dtGnuHash lLd
  /-- No function is at NULL. -/
  nonnull : ∀ function i, symbols.IsFunction function i → (symbols.sym i).stValue ≠ 0 →
    (symbols.sym i).stValue + lAddr ≠ 0

def DynamicObject.stValue {memory : PartialMemory} (object : DynamicObject memory) (i : Nat) :
    Addr :=
  (object.symbols.sym i).stValue

namespace LoadedObject

variable {memory : PartialMemory} (object : LoadedObject memory) (function : CString)

/-- Symbol `i` is what the name should resolve to, if nothing comes before it. -/
def Provides (i : Nat) : Prop := object.symbols.IsFunction function i ∧ object.stValue i ≠ 0

/-- The lookup by hash, which fails for an odd hash, ends at symbol `i`. -/
def HashLeadsTo (i : Nat) : Prop :=
  ∃ hash, object.hash = some hash ∧ (gnuHash function).toNat % 2 = 0 ∧
    IsLeast {k | hash.table.HasName function k} i ∧ object.stValue i ≠ 0

/-- The search ends at symbol `i`: the lookup by hash, or else the scan. -/
def Meets (i : Nat) : Prop :=
  object.HashLeadsTo function i ∨
    (∀ k, ¬ object.HashLeadsTo function k) ∧
      IsLeast {k | object.symbols.IsFunction function k} i ∧ object.stValue i ≠ 0

end LoadedObject

/-! ## The lookup by hash -/

section Object

variable {memory : PartialMemory} {object : DynamicObject memory} {function : CString} {i : Nat}

def DynamicObject.gnuHashObject (object : DynamicObject memory)
    (hash : HashSection memory object.symbols object.lAddr object.lLd) :
    GnuHashObject hash.table memory where
  dynSection := object.lLd
  baseAddr := object.lAddr
  symtab := object.symtab
  strtab := object.strtab
  ht := hash.ht
  symtabEntry := object.symtabEntry
  strtabEntry := object.strtabEntry
  htEntry := hash.htEntry
  config := hash.config
  bloom := hash.bloom
  buckets := hash.buckets
  symhash := hash.symhash
  syms i hashed := object.syms i hashed.2
  names i hashed := object.names i hashed.2

/-- The lookup by hash of any name. -/
theorem DynamicObject.lookup_any (object : DynamicObject memory)
    (hash : HashSection memory object.symbols object.lAddr object.lLd) (function : CString) :
    ((gnuHash function).toNat % 2 = 0 ∧ ∃ k, IsLeast {k | hash.table.HasName function k} k ∧
        YieldsWithin (LookupAccess (object.gnuHashObject hash) function)
          (lookup (object.gnuHashObject hash) function) (object.stValue k)) ∨
      ((gnuHash function).toNat % 2 = 0 → ∀ k, ¬ hash.table.HasName function k) ∧
        YieldsWithin (LookupAccess (object.gnuHashObject hash) function)
          (lookup (object.gnuHashObject hash) function) 0 :=
  lookup_ends (object.gnuHashObject hash) ⟨hash.symndx_pos, hash.empty⟩ function

/-! ## The scan -/

/-- The turns of the loop from symbol `i` on. -/
def scan (object : DynamicObject memory) (function : CString) (left i : Nat) (fuel : Nat) :
    Reading Addr :=
  scanSymbols memory fuel function object.symtab object.strtab left i

/-- One turn of the loop. -/
theorem scan_turn {left : Nat} {value : Addr} (below : i < object.symbols.count)
    (found : object.symbols.IsFunction function i → value = object.stValue i)
    (goesOn : ¬ object.symbols.IsFunction function i →
      Yields (scan object function left (i + 1)) value) :
    Yields (scan object function (left + 1) i) value := by
  obtain ⟨bytes, length, stored, decoded⟩ := object.syms i below
  unfold scan scanSymbols
  apply Yields.bind (.of_returns (readMemory_returns stored length))
  simp only [decoded]
  by_cases isFunction : (object.symbols.sym i).stType = sttFunc
  · simp only [isFunction, ne_eq, not_true_eq_false, if_false]
    apply Yields.bind (readMemString_yields (object.names i below))
    by_cases same : object.symbols.name i = function
    · simp only [if_pos same, found ⟨below, isFunction, same⟩]
      exact .pure _
    · simp only [if_neg same]
      exact goesOn fun here => same here.2.2
  · simp only [ne_eq, isFunction, not_false_eq_true, if_true]
    exact goesOn fun here => isFunction here.2.1

/-- The loop stops at the first function of the name, or else behind the last symbol. -/
theorem scan_yields (object : DynamicObject memory) (function : CString) (left i : Nat)
    (size : i + left = object.symbols.count) :
    (∃ k, i ≤ k ∧ object.symbols.IsFunction function k ∧
        (∀ j, i ≤ j → j < k → ¬ object.symbols.IsFunction function j) ∧
        Yields (scan object function left i) (object.stValue k)) ∨
      (∀ k, i ≤ k → ¬ object.symbols.IsFunction function k) ∧
        Yields (scan object function left i) 0 := by
  induction left generalizing i with
  | zero =>
      refine .inr ⟨fun k above found => ?_, .pure 0⟩
      have below := found.1
      omega
  | succ left inductionHypothesis =>
      have below : i < object.symbols.count := by omega
      by_cases here : object.symbols.IsFunction function i
      · refine .inl ⟨i, le_rfl, here, fun j fromI before => by omega, ?_⟩
        exact scan_turn below (fun _ => rfl) fun other => absurd here other
      · have goesOn {value : Addr} (rest : Yields (scan object function left (i + 1)) value) :
            Yields (scan object function (left + 1) i) value :=
          scan_turn below (fun found => absurd found here) fun _ => rest
        have later {k : Nat} (fromI : i ≤ k) (found : object.symbols.IsFunction function k) :
            i + 1 ≤ k := by
          rcases Nat.eq_or_lt_of_le fromI with rfl | after
          · exact absurd found here
          · exact after
        rcases inductionHypothesis (i + 1) (by omega) with
          ⟨k, above, found, fresh, yields⟩ | ⟨none, yields⟩
        · refine .inl ⟨k, by omega, found, fun j fromI before foundJ => ?_, goesOn yields⟩
          exact fresh j (later fromI foundJ) before foundJ
        · exact .inr ⟨fun k fromI foundK => none k (later fromI foundK) foundK, goesOn yields⟩

/-- The scan finds the first function of the name. -/
theorem DynamicObject.getAddressDyn_yields (object : DynamicObject memory) (function : CString) :
    (∃ k, IsLeast {k | object.symbols.IsFunction function k} k ∧
        Yields (fun fuel => getAddressDyn memory fuel function object.lLd object.lAddr)
          (object.stValue k)) ∨
      (∀ k, ¬ object.symbols.IsFunction function k) ∧
        Yields (fun fuel => getAddressDyn memory fuel function object.lLd object.lAddr) 0 := by
  have size : (object.strtab - object.symtab).toNat / sizeofElf64Sym = object.symbols.count := by
    have small := object.count_le
    have room : sizeofElf64Sym * object.symbols.count < 2 ^ 64 := by
      unfold sizeofElf64Sym
      omega
    rw [object.adjacent, BitVec.add_comm, BitVec.add_sub_cancel, toNat_ofNat_of_lt room]
    exact Nat.mul_div_cancel_left _ (by decide)
  have scans {value : Addr}
      (yields : Yields (scan object function object.symbols.count 0) value) :
      Yields (fun fuel => getAddressDyn memory fuel function object.lLd object.lAddr) value := by
    apply Yields.bind (getDynamicEntry_yields object.symtabEntry)
    apply Yields.bind (getDynamicEntry_yields object.strtabEntry)
    simp only [size]
    exact yields
  rcases scan_yields object function object.symbols.count 0 (Nat.zero_add _) with
    ⟨k, _, found, fresh, yields⟩ | ⟨none, yields⟩
  · refine .inl ⟨k, ⟨found, fun j foundJ => ?_⟩, scans yields⟩
    by_contra earlier
    exact fresh j (Nat.zero_le j) (Nat.not_le.mp earlier) foundJ
  · exact .inr ⟨fun k => none k (Nat.zero_le k), scans yields⟩

end Object

/-! ## Both -/

section Both

variable {memory : PartialMemory} {object : LoadedObject memory} {function : CString} {i : Nat}

def search (object : LoadedObject memory) (function : CString) (fuel : Nat) : Reading Addr :=
  searchObject memory fuel function object.lLd object.lAddr

/-- Without a `DT_GNU_HASH`, the lookup by hash raises. -/
theorem search_raises (absent : object.hash = none) :
    Raises (search object function) .elfException := by
  apply Raises.bind
  apply Raises.of_bind (getDynamicEntry_yields object.symtabEntry)
  apply Raises.of_bind (getDynamicEntry_yields object.strtabEntry)
  apply Raises.bind
  apply Raises.bind
  exact getDynamicEntry_raises (by decide) (object.noHash absent)

theorem hashLeadsTo_unique {j : Nat} (left : object.HashLeadsTo function i)
    (right : object.HashLeadsTo function j) : i = j := by
  obtain ⟨hash, present, _, least, _⟩ := left
  obtain ⟨other, same, _, leastJ, _⟩ := right
  obtain rfl := Option.some.inj (present.symm.trans same)
  exact least.unique leastJ

theorem meets_unique {j : Nat} (left : object.Meets function i)
    (right : object.Meets function j) : i = j := by
  rcases left with leads | ⟨none, least, _⟩
  · rcases right with leadsJ | ⟨noneJ, _⟩
    · exact hashLeadsTo_unique leads leadsJ
    · exact absurd leads (noneJ i)
  · rcases right with leadsJ | ⟨_, leastJ, _⟩
    · exact absurd leadsJ (none j)
    · exact least.unique leastJ

/-- Where the lookup by hash returns NULL, the scan decides. -/
theorem search_scanned {hash : HashSection memory object.symbols object.lAddr object.lLd}
    (quiet : ∀ k, ¬ object.HashLeadsTo function k)
    (null : Yields (lookup (object.gnuHashObject hash) function) 0) :
    (∃ k, object.Meets function k ∧ Yields (search object function) (object.stValue k)) ∨
      (∀ k, ¬ object.Meets function k) ∧ Yields (search object function) 0 := by
  have goesOn {value : Addr} (scans : Yields (fun fuel =>
      getAddressDyn memory fuel function object.lLd object.lAddr) value) :
      Yields (search object function) value := by
    apply Yields.bind null
    simp only [ne_eq, not_true_eq_false, if_false]
    exact scans
  rcases object.getAddressDyn_yields function with ⟨k, least, yields⟩ | ⟨none, yields⟩
  · by_cases zero : object.stValue k = 0
    · rw [zero] at yields
      refine .inr ⟨fun j meets => ?_, goesOn yields⟩
      rcases meets with leads | ⟨_, leastJ, nonzero⟩
      · exact quiet j leads
      · rw [leastJ.unique least] at nonzero
        exact nonzero zero
    · exact .inl ⟨k, .inr ⟨quiet, least, zero⟩, goesOn yields⟩
  · refine .inr ⟨fun j meets => ?_, goesOn yields⟩
    rcases meets with leads | ⟨_, leastJ, _⟩
    · exact quiet j leads
    · exact none j leastJ.1

/-- With one, the search returns the value of the symbol it ends at, or else NULL. -/
theorem search_cases (hash : HashSection memory object.symbols object.lAddr object.lLd)
    (present : object.hash = some hash) (function : CString) :
    (∃ k, object.Meets function k ∧ Yields (search object function) (object.stValue k)) ∨
      (∀ k, ¬ object.Meets function k) ∧ Yields (search object function) 0 := by
  rcases object.lookup_any hash function with ⟨even, k, least, yields⟩ | ⟨none, yields⟩
  · by_cases zero : object.stValue k = 0
    · have quiet : ∀ j, ¬ object.HashLeadsTo function j := by
        rintro j ⟨other, same, _, leastJ, nonzero⟩
        obtain rfl := Option.some.inj (present.symm.trans same)
        rw [leastJ.unique least] at nonzero
        exact nonzero zero
      rw [zero] at yields
      exact search_scanned quiet yields.yields
    · refine .inl ⟨k, .inl ⟨hash, present, even, least, zero⟩, ?_⟩
      apply Yields.bind yields.yields
      simp only [ne_eq, zero, not_false_eq_true, if_true]
      exact .pure _
  · have quiet : ∀ j, ¬ object.HashLeadsTo function j := by
      rintro j ⟨other, same, even, leastJ, _⟩
      obtain rfl := Option.some.inj (present.symm.trans same)
      exact none even j leastJ.1
    exact search_scanned quiet yields.yields

theorem search_meets {hash : HashSection memory object.symbols object.lAddr object.lLd}
    (present : object.hash = some hash) (meets : object.Meets function i) :
    Yields (search object function) (object.stValue i) := by
  rcases search_cases hash present function with ⟨k, meetsK, yields⟩ | ⟨none, _⟩
  · rwa [meets_unique meets meetsK]
  · exact absurd meets (none i)

theorem search_quiet {hash : HashSection memory object.symbols object.lAddr object.lLd}
    (present : object.hash = some hash) (quiet : ∀ k, ¬ object.Meets function k) :
    Yields (search object function) 0 := by
  rcases search_cases hash present function with ⟨k, meets, _⟩ | ⟨_, yields⟩
  · exact absurd meets (quiet k)
  · exact yields

theorem LoadedObject.Meets.named (meets : object.Meets function i) :
    i < object.symbols.count ∧ object.symbols.name i = function := by
  rcases meets with ⟨_, _, _, least, _⟩ | ⟨_, least, _⟩
  · exact ⟨least.1.1.2, least.1.2⟩
  · exact ⟨least.1.1, least.1.2.2⟩

theorem LoadedObject.Meets.stValue_ne (meets : object.Meets function i) :
    object.stValue i ≠ 0 := by
  rcases meets with ⟨_, _, _, _, nonzero⟩ | ⟨_, _, nonzero⟩
  · exact nonzero
  · exact nonzero

end Both

end MyDbg.Infos
