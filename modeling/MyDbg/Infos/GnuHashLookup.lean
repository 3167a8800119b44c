import MyDbg.Infos.GnuHashTable
import MyDbg.Lib.Grouping
import Mathlib.Data.Nat.Bitwise
import Mathlib.Tactic.IntervalCases

/-!
Contract: which names `get_address_gnu_hash` finds.

Owns: well-formed GNU hash tables, with the symbols they index; objects in
memory that hold one; and that the lookup of a hashed name finds it exactly if
its hash is even, unless NULL is what there is to find.

Does not own: the tables without a hash that `get_address_dyn` scans.
-/

namespace MyDbg.Infos

open LittleEndian ProgramLogic Grouping

/-! ## Hash tables -/

/-- The hash of a name, in 32 bits. -/
def gnuHash (name : CString) : BitVec 32 :=
  name.1.foldl (fun h c => h * 33 + c.setWidth 32) 5381

/-- The symbols of an object, from the undefined symbol 0 on. -/
structure DynamicSymbols where
  count : Nat
  name : Nat → CString
  sym : Nat → Elf64Sym

namespace DynamicSymbols

variable (symbols : DynamicSymbols)

def hash (i : Nat) : Nat := (gnuHash (symbols.name i)).toNat

def bucket (conf : MyGnuHtConfig) (i : Nat) : Nat := symbols.hash i % conf.nbuckets.toNat

end DynamicSymbols

/-- A well-formed `DT_GNU_HASH` table over some symbols. -/
structure GnuHashTable (symbols : DynamicSymbols) where
  conf : MyGnuHtConfig
  bloom : List Word
  buckets : List (BitVec 32)
  nbuckets_pos : 0 < conf.nbuckets.toNat
  shift2_lt : conf.shift2.toNat < 32
  maskwords_pow : ∃ exponent, conf.maskwords.toNat = 2 ^ exponent
  /-- Symbols are numbered in 32 bits. -/
  count_le : symbols.count ≤ 2 ^ 32
  bloom_length : bloom.length = conf.maskwords.toNat
  buckets_length : buckets.length = conf.nbuckets.toNat
  grouped : Grouped (symbols.bucket conf) conf.symndx.toNat symbols.count
  /-- A bucket leads to the first symbol in it. -/
  first : ∀ i, First (symbols.bucket conf) conf.symndx.toNat symbols.count i →
    buckets[symbols.bucket conf i]? = some (BitVec.ofNat 32 i)
  /-- Two bits of the Bloom filter are set for each hashed symbol. -/
  filtered : ∀ i, conf.symndx.toNat ≤ i → i < symbols.count → ∀ mask,
    bloom[symbols.hash i / 64 % conf.maskwords.toNat]? = some mask →
      mask.getLsbD (symbols.hash i % 64) = true ∧
        mask.getLsbD (symbols.hash i / 2 ^ conf.shift2.toNat % 64) = true

namespace GnuHashTable

variable {symbols : DynamicSymbols} (table : GnuHashTable symbols)

/-- The symbols the table has an entry for. -/
def Hashed (i : Nat) : Prop := table.conf.symndx.toNat ≤ i ∧ i < symbols.count

/-- The end of a chain. -/
def ends (i : Nat) : Bool :=
  i + 1 == symbols.count || symbols.bucket table.conf (i + 1) != symbols.bucket table.conf i

/-- The hash of a symbol, with the end-of-chain flag for its low bit. -/
def symhash (i : Nat) : Nat := 2 * (symbols.hash i / 2) + (table.ends i).toNat

/-- The chain that a name is looked up in: from the first symbol of its bucket to the
one with the end-of-chain flag. -/
def InChain (function : CString) (i : Nat) : Prop :=
  ∃ first last, First (symbols.bucket table.conf) table.conf.symndx.toNat symbols.count first ∧
    symbols.bucket table.conf first = (gnuHash function).toNat % table.conf.nbuckets.toNat ∧
    table.ends last = true ∧ (∀ j, first ≤ j → j < last → table.ends j = false) ∧
    first ≤ i ∧ i ≤ last

end GnuHashTable

/-- An object that holds `table` and the symbols in it. -/
structure GnuHashObject {symbols : DynamicSymbols} (table : GnuHashTable symbols)
    (memory : PartialMemory) where
  dynSection : Addr
  baseAddr : Addr
  symtab : Addr
  strtab : Addr
  ht : Addr
  symtabEntry : DynamicEntry memory baseAddr dtSymtab dynSection symtab
  strtabEntry : DynamicEntry memory baseAddr dtStrtab dynSection strtab
  htEntry : DynamicEntry memory baseAddr dtGnuHash dynSection ht
  config : Holds memory ht (arrayBytes 4 [table.conf.nbuckets.toNat, table.conf.symndx.toNat,
    table.conf.maskwords.toNat, table.conf.shift2.toNat])
  bloom : Holds memory (bloomAddr ht) (arrayBytes 8 (table.bloom.map BitVec.toNat))
  buckets : Holds memory (bucketsAddr table.conf ht)
    (arrayBytes 4 (table.buckets.map BitVec.toNat))
  symhash : ∀ i, table.Hashed i →
    Holds memory (symhashAddr table.conf ht + BitVec.ofNat 64 (4 * (i - table.conf.symndx.toNat)))
      (leBytes 4 (table.symhash i))
  syms : ∀ i, table.Hashed i → ∃ bytes, bytes.length = sizeofElf64Sym ∧
    Holds memory (symtab + BitVec.ofNat 64 (sizeofElf64Sym * i)) bytes ∧
      elf64Sym bytes = symbols.sym i
  names : ∀ i, table.Hashed i →
    Holds memory (strtab + (symbols.sym i).stName.setWidth 64) ((symbols.name i).1 ++ [0])

/-- What the lookup of a name reads: the dynamic section, the parts of the table in
front of the hashes, and of the symbols those in the chain of the name. -/
inductive LookupAccess {symbols : DynamicSymbols} {table : GnuHashTable symbols}
    {memory : PartialMemory} (object : GnuHashObject table memory) (function : CString) :
    Access → Prop where
  | dynamic (n : Nat) : LookupAccess object function
      ⟨object.dynSection + BitVec.ofNat 64 (sizeofElf64Dyn * n), sizeofElf64Dyn⟩
  | config : LookupAccess object function ⟨object.ht, sizeofMyGnuHtConfig⟩
  | bloom : LookupAccess object function
      ⟨bloomAddr object.ht, 8 * table.conf.maskwords.toNat⟩
  | buckets : LookupAccess object function
      ⟨bucketsAddr table.conf object.ht, 4 * table.conf.nbuckets.toNat⟩
  | symhash {i : Nat} (inChain : table.InChain function i) : LookupAccess object function
      ⟨symhashAddr table.conf object.ht +
        BitVec.ofNat 64 (4 * (i - table.conf.symndx.toNat)), 4⟩
  | sym {i : Nat} (inChain : table.InChain function i) : LookupAccess object function
      ⟨object.symtab + BitVec.ofNat 64 (sizeofElf64Sym * i), sizeofElf64Sym⟩
  | name {i k : Nat} (inChain : table.InChain function i)
      (inside : k ≤ (symbols.name i).1.length) : LookupAccess object function
      ⟨object.strtab + (symbols.sym i).stName.setWidth 64 + BitVec.ofNat 64 k, 1⟩

/-! ## The hash -/

theorem setWidth_foldl (h : Word) (bytes : List Byte) :
    (bytes.foldl (fun h c => h * 33 + c.setWidth 64) h).setWidth 32 =
      bytes.foldl (fun h c => h * 33 + c.setWidth 32) (h.setWidth 32) := by
  induction bytes generalizing h with
  | nil => rfl
  | cons c rest inductionHypothesis =>
      rw [List.foldl_cons, inductionHypothesis, List.foldl_cons]
      congr 1
      rw [BitVec.setWidth_add _ _ (by omega), BitVec.setWidth_mul _ _ (by omega)]
      congr 1
      exact BitVec.setWidth_setWidth_of_le c (by omega)

/-- Masking once at the end keeps the 32 bits. -/
theorem dlNewHash_eq (name : CString) : (dlNewHash name).setWidth 32 = gnuHash name := by
  rw [dlNewHash, BitVec.setWidth_and, setWidth_foldl]
  exact BitVec.and_allOnes

/-! ## Bits -/

theorem toNat_ofNat_of_lt {width value : Nat} (fits : value < 2 ^ width) :
    (BitVec.ofNat width value).toNat = value := by
  rw [BitVec.toNat_ofNat, Nat.mod_eq_of_lt fits]

/-- `mask & ~1`. -/
theorem and_not_one (x : BitVec 32) : (x &&& ~~~1#32).toNat = 2 * (x.toNat / 2) := by
  have shifted : x &&& ~~~1#32 = (x >>> 1) <<< 1 := by
    apply BitVec.eq_of_getLsbD_eq
    intro index inside
    simp only [BitVec.getLsbD_and, BitVec.getLsbD_not, BitVec.getLsbD_one,
      BitVec.getLsbD_shiftLeft, BitVec.getLsbD_ushiftRight]
    cases index with
    | zero => simp
    | succ index => simp [inside, Nat.add_comm 1 index]
  have small := x.isLt
  rw [shifted, BitVec.toNat_shiftLeft, BitVec.toNat_ushiftRight, Nat.shiftRight_eq_div_pow,
    Nat.shiftLeft_eq]
  omega

theorem and_one (x : BitVec 32) : x &&& 1#32 = 0 ↔ x.toNat % 2 = 0 := by
  rw [← BitVec.toNat_inj, BitVec.toNat_and]
  exact iff_of_eq (congrArg (· = 0) (Nat.and_one_is_mod x.toNat))

theorem mask_bits (mask : Word) (first second : Nat) :
    (mask >>> first &&& mask >>> second &&& 1#64 != 0) =
      (mask.getLsbD first && mask.getLsbD second) := by
  rw [BitVec.and_one_eq_setWidth_ofBool_getLsbD, BitVec.getLsbD_and,
    BitVec.getLsbD_ushiftRight, BitVec.getLsbD_ushiftRight]
  cases mask.getLsbD first <;> cases mask.getLsbD second <;> rfl

/-- The remainder by a power of two. -/
theorem and_sub_one {x : BitVec 32} {divisor : BitVec 32} {exponent : Nat}
    (power : divisor.toNat = 2 ^ exponent) :
    (x &&& (divisor - 1)).toNat = x.toNat % divisor.toNat := by
  have positive : 0 < 2 ^ exponent := Nat.two_pow_pos exponent
  have small := divisor.isLt
  have less : (divisor - 1).toNat = 2 ^ exponent - 1 := by
    rw [BitVec.toNat_sub, power]
    simp only [BitVec.reduceToNat]
    omega
  rw [BitVec.toNat_and, less, Nat.and_two_pow_sub_one_eq_mod, power]

/-! ## The table in memory -/

section Object

variable {symbols : DynamicSymbols} {table : GnuHashTable symbols} {memory : PartialMemory}
  {i j : Nat} {function : CString}

theorem GnuHashTable.Hashed.lt (hashed : table.Hashed i) : i < 2 ^ 32 :=
  Nat.lt_of_lt_of_le hashed.2 table.count_le

theorem GnuHashTable.symhash_lt (i : Nat) : table.symhash i < 256 ^ 4 := by
  have small := (gnuHash (symbols.name i)).isLt
  unfold GnuHashTable.symhash DynamicSymbols.hash
  cases table.ends i <;> simp only [Bool.toNat_true, Bool.toNat_false] <;> omega

theorem GnuHashTable.ends_iff (i : Nat) :
    table.ends i = true ↔ Last (symbols.bucket table.conf) symbols.count i := by
  unfold GnuHashTable.ends Last
  rw [Bool.or_eq_true, beq_iff_eq, bne_iff_ne]

/-- The copies the debugger makes of a table. -/
def GnuHashTable.copied (table : GnuHashTable symbols) (ht : Addr) : MyGnuHt where
  conf := table.conf
  bloom := arrayBytes 8 (table.bloom.map BitVec.toNat)
  buckets := arrayBytes 4 (table.buckets.map BitVec.toNat)
  symhash := symhashAddr table.conf ht

theorem myGnuHtConfig_arrayBytes (conf : MyGnuHtConfig) :
    myGnuHtConfig (arrayBytes 4 [conf.nbuckets.toNat, conf.symndx.toNat, conf.maskwords.toNat,
      conf.shift2.toNat]) = conf := by
  obtain ⟨nbuckets, symndx, maskwords, shift2⟩ := conf
  have entry (index : Nat) (value : BitVec 32)
      (found : [nbuckets.toNat, symndx.toNat, maskwords.toNat, shift2.toNat][index]? =
        some value.toNat) :
      BitVec.ofNat 32 (leNatAt (arrayBytes 4 [nbuckets.toNat, symndx.toNat, maskwords.toNat,
        shift2.toNat]) (4 * index) 4) = value := by
    rw [leNatAt_arrayBytes found value.isLt, BitVec.ofNat_toNat, BitVec.setWidth_eq]
  unfold myGnuHtConfig
  congr
  · exact entry 0 nbuckets rfl
  · exact entry 1 symndx rfl
  · exact entry 2 maskwords rfl
  · exact entry 3 shift2 rfl

theorem getGnuHash_within (object : GnuHashObject table memory) (function : CString) :
    YieldsWithin (LookupAccess object function)
      (fun fuel => getGnuHash memory fuel object.dynSection object.baseAddr)
      (table.copied object.ht) := by
  have bloomLength := arrayBytes_length 8 (table.bloom.map BitVec.toNat)
  have bucketsLength := arrayBytes_length 4 (table.buckets.map BitVec.toNat)
  rw [List.length_map, table.bloom_length] at bloomLength
  rw [List.length_map, table.buckets_length] at bucketsLength
  apply YieldsWithin.bind (getDynamicEntry_within object.htEntry .dynamic)
  apply YieldsWithin.bind (readMemory_within object.config (arrayBytes_length 4 _) .config)
  simp only [myGnuHtConfig_arrayBytes]
  apply YieldsWithin.bind (readMemory_within object.bloom bloomLength .bloom)
  apply YieldsWithin.bind (readMemory_within object.buckets bucketsLength .buckets)
  exact .pure _

theorem bloom_get (ht : Addr) {index : Nat} {mask : Word}
    (found : table.bloom[index]? = some mask) :
    Returns (element 8 (table.copied ht).bloom index) mask.toNat := by
  apply element_arrayBytes
  · rw [List.getElem?_map, found]
    rfl
  · exact mask.isLt

theorem filters_returns (ht : Addr) : ∃ answer, Returns (table.copied ht).filters answer := by
  unfold MyGnuHt.filters
  split
  · exact ⟨true, .pure true⟩
  · next single =>
      have length : table.bloom.length = 1 := by
        have one : table.conf.maskwords = 1 := Decidable.not_not.mp single
        rw [table.bloom_length, one]
        rfl
      obtain ⟨mask, found⟩ := List.length_eq_one_iff.mp length
      have first : table.bloom[0]? = some mask := by
        rw [found]
        rfl
      exact ⟨_, (bloom_get ht first).bind (.pure _)⟩

/-- What the Bloom filter tells of a hash. -/
theorem hasBits_any (table : GnuHashTable symbols) (ht : Addr) (hash : BitVec 32) :
    ∃ mask, table.bloom[hash.toNat / 64 % table.conf.maskwords.toNat]? = some mask ∧
      Returns ((table.copied ht).hasBits hash)
        (mask.getLsbD (hash.toNat % 64) &&
          mask.getLsbD (hash.toNat / 2 ^ table.conf.shift2.toNat % 64)) := by
  obtain ⟨exponent, power⟩ := table.maskwords_pow
  have positive : 0 < 2 ^ exponent := Nat.two_pow_pos exponent
  have index : ((hash / 64) &&& (table.conf.maskwords - 1)).toNat =
      hash.toNat / 64 % table.conf.maskwords.toNat := by
    rw [and_sub_one power, BitVec.toNat_udiv]
    rfl
  have inside : hash.toNat / 64 % table.conf.maskwords.toNat < table.bloom.length := by
    rw [table.bloom_length]
    exact Nat.mod_lt _ (by omega)
  obtain ⟨mask, found⟩ : ∃ mask,
      table.bloom[hash.toNat / 64 % table.conf.maskwords.toNat]? = some mask :=
    ⟨_, List.getElem?_eq_getElem inside⟩
  refine ⟨mask, found, ?_⟩
  unfold MyGnuHt.hasBits
  have read := bloom_get ht found
  rw [← index] at read
  apply Returns.bind read
  have shift : ¬ 32 ≤ (table.copied ht).conf.shift2.toNat := Nat.not_le.mpr table.shift2_lt
  have low (x : BitVec 32) : (x &&& 63).toNat = x.toNat % 64 := by
    rw [BitVec.toNat_and]
    exact Nat.and_two_pow_sub_one_eq_mod x.toNat 6
  have bit2 : (hash >>> table.conf.shift2.toNat &&& 63).toNat =
      hash.toNat / 2 ^ table.conf.shift2.toNat % 64 := by
    rw [low, BitVec.toNat_ushiftRight, Nat.shiftRight_eq_div_pow]
  rw [if_neg shift]
  have answer : (mask >>> (hash &&& 63).toNat &&&
      mask >>> (hash >>> table.conf.shift2.toNat &&& 63).toNat &&& 1#64 != 0) =
        (mask.getLsbD (hash.toNat % 64) &&
          mask.getLsbD (hash.toNat / 2 ^ table.conf.shift2.toNat % 64)) := by
    rw [mask_bits, low, bit2]
  have whole : BitVec.ofNat 64 mask.toNat = mask := by
    rw [BitVec.ofNat_toNat, BitVec.setWidth_eq]
  simp only [whole]
  exact answer ▸ .pure _

theorem hasBits_returns (ht : Addr) (hashed : table.Hashed i) :
    Returns ((table.copied ht).hasBits (gnuHash (symbols.name i))) true := by
  obtain ⟨mask, found, returns⟩ := hasBits_any table ht (gnuHash (symbols.name i))
  obtain ⟨firstBit, secondBit⟩ := table.filtered i hashed.1 hashed.2 mask found
  have set : (mask.getLsbD ((gnuHash (symbols.name i)).toNat % 64) &&
      mask.getLsbD ((gnuHash (symbols.name i)).toNat / 2 ^ table.conf.shift2.toNat % 64)) =
        true :=
    Bool.and_eq_true_iff.mpr ⟨firstBit, secondBit⟩
  rwa [set] at returns

/-- The Bloom filter lets the hash of every symbol pass. -/
theorem passes_returns (ht : Addr) (hashed : table.Hashed i) :
    Returns ((table.copied ht).passes (gnuHash (symbols.name i))) true := by
  obtain ⟨answer, filters⟩ := @filters_returns _ table ht
  apply Returns.bind filters
  cases answer with
  | true => exact hasBits_returns ht hashed
  | false => exact .pure true

/-- The Bloom filter is asked in a copy. -/
theorem passes_silent (ht : MyGnuHt) (hash : BitVec 32) : Silent (ht.passes hash) := by
  have filters : Silent ht.filters :=
    .ite (.pure _) (.bind (element_silent _ _ _) fun _ => .pure _)
  have bits : Silent (ht.hasBits hash) :=
    .bind (element_silent _ _ _) fun _ => .ite .fault (.pure _)
  exact .bind filters fun _ => .ite bits (.pure _)

/-! ## The chain -/

/-- What the comparison of the code accepts. -/
def Matches (symbols : DynamicSymbols) (function : CString) (i : Nat) : Prop :=
  function = symbols.name i ∧ (gnuHash function).toNat % 2 = 0

instance : Decidable (Matches symbols function i) := inferInstanceAs (Decidable (_ ∧ _))

/-- The turns of the loop from symbol `i` on. -/
def walk (object : GnuHashObject table memory) (function : CString) (i : Nat) (fuel : Nat) :
    Reading Addr :=
  walkChain memory function (gnuHash function) object.symtab object.strtab
    (table.copied object.ht) fuel (BitVec.ofNat 32 i)

theorem symhashAt_eq (ht : Addr) (hashed : table.Hashed i) :
    (table.copied ht).symhashAt (BitVec.ofNat 32 i) = symhashAddr table.conf ht +
      BitVec.ofNat 64 (4 * (i - table.conf.symndx.toNat)) := by
  have above := hashed.1
  have number : (BitVec.ofNat 32 i).toNat = i := toNat_ofNat_of_lt hashed.lt
  have split : 4 * i = 4 * (i - table.conf.symndx.toNat) + 4 * table.conf.symndx.toNat := by omega
  unfold MyGnuHt.symhashAt
  rw [number, split, BitVec.ofNat_add, ← BitVec.add_assoc]
  exact BitVec.add_sub_cancel _ _

/-- The entry with its low bit off is the hash of a matching name. -/
theorem masked_iff (same : function = symbols.name i) :
    gnuHash function = BitVec.ofNat 32 (table.symhash i) &&& ~~~1#32 ↔
      (gnuHash function).toNat % 2 = 0 := by
  have number : (BitVec.ofNat 32 (table.symhash i)).toNat = table.symhash i :=
    toNat_ofNat_of_lt (GnuHashTable.symhash_lt i)
  have half : table.symhash i / 2 = (gnuHash function).toNat / 2 := by
    unfold GnuHashTable.symhash DynamicSymbols.hash
    rw [← same]
    cases table.ends i <;> simp only [Bool.toNat_true, Bool.toNat_false] <;> omega
  rw [← BitVec.toNat_inj, and_not_one, number, half]
  omega

theorem flag_iff (i : Nat) :
    BitVec.ofNat 32 (table.symhash i) &&& 1#32 ≠ 0 ↔
      Last (symbols.bucket table.conf) symbols.count i := by
  have number : (BitVec.ofNat 32 (table.symhash i)).toNat = table.symhash i :=
    toNat_ofNat_of_lt (GnuHashTable.symhash_lt i)
  have low : table.symhash i % 2 = (table.ends i).toNat := by
    unfold GnuHashTable.symhash
    cases table.ends i <;> simp only [Bool.toNat_true, Bool.toNat_false] <;> omega
  rw [← table.ends_iff, Ne, and_one, number, low]
  cases table.ends i <;> decide

theorem isFunction_within (object : GnuHashObject table memory) (hashed : table.Hashed i)
    (inChain : table.InChain function i) :
    YieldsWithin (LookupAccess object function)
      (fun fuel => isFunction memory function (gnuHash function)
        (BitVec.ofNat 32 (table.symhash i)) fuel
        (object.strtab + (symbols.sym i).stName.setWidth 64))
      (decide (Matches symbols function i)) := by
  unfold isFunction
  by_cases masked : gnuHash function = BitVec.ofNat 32 (table.symhash i) &&& ~~~1#32
  · simp only [if_pos masked]
    apply YieldsWithin.bind (readMemString_within (object.names i hashed) fun k => .name inChain)
    have answer : decide (function = symbols.name i) = decide (Matches symbols function i) := by
      apply decide_eq_decide.mpr
      constructor
      · intro same
        exact ⟨same, (masked_iff same).mp masked⟩
      · intro matched
        exact matched.1
    rw [answer]
    exact .pure _
  · simp only [if_neg masked]
    have answer : decide (Matches symbols function i) = false := by
      apply decide_eq_false
      intro matched
      exact masked ((masked_iff matched.1).mpr matched.2)
    rw [answer]
    exact .pure _

/-- One turn of the loop. -/
theorem walk_turn (object : GnuHashObject table memory) (hashed : table.Hashed i)
    (inChain : table.InChain function i) {value : Addr}
    (found : Matches symbols function i → value = (symbols.sym i).stValue)
    (ends : ¬ Matches symbols function i → Last (symbols.bucket table.conf) symbols.count i →
      value = 0)
    (goesOn : ¬ Matches symbols function i → ¬ Last (symbols.bucket table.conf) symbols.count i →
      YieldsWithin (LookupAccess object function) (walk object function (i + 1)) value) :
    YieldsWithin (LookupAccess object function) (walk object function i) value := by
  have number : (BitVec.ofNat 32 i).toNat = i := toNat_ofNat_of_lt hashed.lt
  have entry := readMemory_within (object.symhash i hashed) (leBytes_length 4 _)
    (LookupAccess.symhash inChain)
  obtain ⟨bytes, length, stored, decoded⟩ := object.syms i hashed
  have sym := readMemory_within stored length (LookupAccess.sym inChain)
  have h : leNatAt (leBytes 4 (table.symhash i)) 0 4 = table.symhash i := by
    rw [leNatAt, List.drop_zero, List.take_of_length_le (leBytes_length 4 _).le,
      leNat_leBytes (GnuHashTable.symhash_lt i)]
  apply YieldsWithin.succ fun fuel => rfl
  simp only [walk, walkChain, symhashAt_eq object.ht hashed, number]
  apply YieldsWithin.bind entry
  apply YieldsWithin.bind sym
  simp only [h, decoded]
  apply YieldsWithin.bind (isFunction_within object hashed inChain)
  by_cases matched : Matches symbols function i
  · rw [found matched, decide_eq_true matched]
    exact .pure _
  · rw [decide_eq_false matched]
    simp only [Bool.false_eq_true, if_false]
    by_cases last : Last (symbols.bucket table.conf) symbols.count i
    · rw [ends matched last]
      simp only [if_pos ((flag_iff i).mpr last)]
      exact .pure _
    · simp only [if_neg ((flag_iff i).not.mpr last)]
      have next : BitVec.ofNat 32 i + 1 = BitVec.ofNat 32 (i + 1) := (BitVec.ofNat_add i 1).symm
      rw [next]
      exact goesOn matched last

/-- From the first symbol of a bucket to the last one. -/
theorem GnuHashTable.inChain {first l : Nat}
    (isFirst : First (symbols.bucket table.conf) table.conf.symndx.toNat symbols.count first)
    (inBucket : symbols.bucket table.conf first =
      (gnuHash function).toNat % table.conf.nbuckets.toNat)
    (below : l < symbols.count)
    (same : symbols.bucket table.conf first = symbols.bucket table.conf l)
    (last : Last (symbols.bucket table.conf) symbols.count l) :
    ∀ k, first ≤ k → k ≤ l → table.InChain function k := by
  intro k fromFirst upTo
  refine ⟨first, l, isFirst, inBucket, (table.ends_iff l).mpr last, ?_, fromFirst, upTo⟩
  intro j after before
  have above := isFirst.lower_le
  have group : symbols.bucket table.conf j = symbols.bucket table.conf first :=
    table.grouped first j l above after before.le below same
  rw [← Bool.not_eq_true, table.ends_iff]
  exact table.grouped.not_last (above.trans after) before below (group.trans same)

theorem walk_found (object : GnuHashObject table memory) (hashed : table.Hashed i)
    (inChain : table.InChain function i) (matched : Matches symbols function i) :
    YieldsWithin (LookupAccess object function) (walk object function i)
      (symbols.sym i).stValue := by
  apply walk_turn object hashed inChain
  · intro _
    rfl
  · intro mismatched
    exact absurd matched mismatched
  · intro mismatched
    exact absurd matched mismatched

theorem walk_ended (object : GnuHashObject table memory) (hashed : table.Hashed i)
    (inChain : table.InChain function i) (mismatched : ¬ Matches symbols function i)
    (last : Last (symbols.bucket table.conf) symbols.count i) :
    YieldsWithin (LookupAccess object function) (walk object function i) 0 := by
  apply walk_turn object hashed inChain
  · intro matched
    exact absurd matched mismatched
  · intro _ _
    rfl
  · intro _ inner
    exact absurd last inner

theorem walk_goesOn (object : GnuHashObject table memory) (hashed : table.Hashed i)
    (inChain : table.InChain function i) (mismatched : ¬ Matches symbols function i)
    (inner : ¬ Last (symbols.bucket table.conf) symbols.count i) {value : Addr}
    (yields : YieldsWithin (LookupAccess object function) (walk object function (i + 1)) value) :
    YieldsWithin (LookupAccess object function) (walk object function i) value := by
  apply walk_turn object hashed inChain
  · intro matched
    exact absurd matched mismatched
  · intro _ last
    exact absurd last inner
  · intro _ _
    exact yields

/-- The loop stops at the first symbol that matches, or else at the end of the chain. -/
theorem walk_within (object : GnuHashObject table memory) (function : CString) {l : Nat}
    (before : i ≤ l) (above : table.conf.symndx.toNat ≤ i) (below : l < symbols.count)
    (same : symbols.bucket table.conf i = symbols.bucket table.conf l)
    (last : Last (symbols.bucket table.conf) symbols.count l)
    (chain : ∀ k, i ≤ k → k ≤ l → table.InChain function k) :
    (∃ k, i ≤ k ∧ k ≤ l ∧ Matches symbols function k ∧
        (∀ j, i ≤ j → j < k → ¬ Matches symbols function j) ∧
        YieldsWithin (LookupAccess object function) (walk object function i)
          (symbols.sym k).stValue) ∨
      (∀ k, i ≤ k → k ≤ l → ¬ Matches symbols function k) ∧
        YieldsWithin (LookupAccess object function) (walk object function i) 0 := by
  obtain ⟨room, rfl⟩ := Nat.exists_eq_add_of_le before
  clear before
  induction room generalizing i with
  | zero =>
      have hashed : table.Hashed i := ⟨above, below⟩
      have inChain := chain i le_rfl le_rfl
      by_cases matched : Matches symbols function i
      · have fresh : ∀ j, i ≤ j → j < i → ¬ Matches symbols function j := by omega
        exact .inl ⟨i, le_rfl, le_rfl, matched, fresh, walk_found object hashed inChain matched⟩
      · right
        constructor
        · intro k from_ upTo
          obtain rfl : k = i := by omega
          exact matched
        · exact walk_ended object hashed inChain matched last
  | succ room inductionHypothesis =>
      have hashed : table.Hashed i := ⟨above, by omega⟩
      have inChain := chain i le_rfl (by omega)
      have shift : i + (room + 1) = i + 1 + room := by omega
      rw [shift] at below last same ⊢
      have before : i < i + 1 + room := by omega
      have inner : ¬ Last (symbols.bucket table.conf) symbols.count i :=
        table.grouped.not_last above before below same
      have next : symbols.bucket table.conf (i + 1) = symbols.bucket table.conf (i + 1 + room) :=
        table.grouped.next above before below same
      by_cases matched : Matches symbols function i
      · have fresh : ∀ j, i ≤ j → j < i → ¬ Matches symbols function j := by omega
        exact .inl ⟨i, le_rfl, by omega, matched, fresh, walk_found object hashed inChain matched⟩
      · have further : ∀ k, i + 1 ≤ k → k ≤ i + 1 + room → table.InChain function k :=
          fun k from_ upTo => chain k (by omega) (by omega)
        rcases inductionHypothesis (by omega) below next last further with
          ⟨k, from_, upTo, found, fresh, yields⟩ | ⟨none, yields⟩
        · refine .inl ⟨k, by omega, upTo, found, fun j fromJ before => ?_,
            walk_goesOn object hashed inChain matched inner yields⟩
          by_cases here : j = i
          · rw [here]
            exact matched
          · exact fresh j (by omega) before
        · refine .inr ⟨fun k from_ upTo => ?_,
            walk_goesOn object hashed inChain matched inner yields⟩
          by_cases here : k = i
          · rw [here]
            exact matched
          · exact none k (by omega) upTo

/-! ## The lookup -/

def lookup (object : GnuHashObject table memory) (function : CString) (fuel : Nat) :
    Reading Addr :=
  getAddressGnuHash memory fuel function object.dynSection object.baseAddr

theorem lookup_rejected (object : GnuHashObject table memory)
    (filter : Returns ((table.copied object.ht).passes (gnuHash function)) false) :
    YieldsWithin (LookupAccess object function) (lookup object function) 0 := by
  unfold lookup
  simp only [getAddressGnuHash, dlNewHash_eq]
  apply YieldsWithin.bind (getDynamicEntry_within object.symtabEntry .dynamic)
  apply YieldsWithin.bind (getDynamicEntry_within object.strtabEntry .dynamic)
  apply YieldsWithin.bind (getGnuHash_within object function)
  apply YieldsWithin.bind (.of_silent filter (passes_silent _ _))
  exact .pure 0

/-- A hash that passes the Bloom filter leads to its bucket. -/
theorem lookup_passing (object : GnuHashObject table memory) {first : BitVec 32} {value : Addr}
    (filter : Returns ((table.copied object.ht).passes (gnuHash function)) true)
    (found : table.buckets[(gnuHash function).toNat % table.conf.nbuckets.toNat]? = some first)
    (empty : first < table.conf.symndx → value = 0)
    (walks : ¬ first < table.conf.symndx →
      YieldsWithin (LookupAccess object function) (walk object function first.toNat) value) :
    YieldsWithin (LookupAccess object function) (lookup object function) value := by
  have entry : Returns (element 4 (table.copied object.ht).buckets
      (gnuHash function % table.conf.nbuckets).toNat) first.toNat := by
    rw [BitVec.toNat_umod]
    apply element_arrayBytes
    · rw [List.getElem?_map, found, Option.map_some]
    · exact first.isLt
  have whole : BitVec.ofNat 32 first.toNat = first := by
    rw [BitVec.ofNat_toNat, BitVec.setWidth_eq]
  unfold lookup
  simp only [getAddressGnuHash, dlNewHash_eq]
  apply YieldsWithin.bind (getDynamicEntry_within object.symtabEntry .dynamic)
  apply YieldsWithin.bind (getDynamicEntry_within object.strtabEntry .dynamic)
  apply YieldsWithin.bind (getGnuHash_within object function)
  apply YieldsWithin.bind (.of_silent filter (passes_silent _ _))
  simp only [if_true]
  apply YieldsWithin.bind (.of_silent (checkDivisor_returns table.nbuckets_pos)
    (checkDivisor_silent _))
  apply YieldsWithin.bind (.of_silent entry (element_silent _ _ _))
  change YieldsWithin _ (fun fuel => if BitVec.ofNat 32 first.toNat < table.conf.symndx then pure 0
    else walk object function first.toNat fuel) value
  rw [whole]
  by_cases below : first < table.conf.symndx
  · simp only [if_pos below, empty below]
    exact .pure 0
  · simp only [if_neg below]
    exact walks below

/-- For a name in a bucket that holds symbols, the chain is walked from the first one. -/
theorem lookup_within (object : GnuHashObject table memory) {first : Nat} {value : Addr}
    (filter : Returns ((table.copied object.ht).passes (gnuHash function)) true)
    (isFirst : First (symbols.bucket table.conf) table.conf.symndx.toNat symbols.count first)
    (same : symbols.bucket table.conf first =
      (gnuHash function).toNat % table.conf.nbuckets.toNat)
    (walks : YieldsWithin (LookupAccess object function) (walk object function first) value) :
    YieldsWithin (LookupAccess object function) (lookup object function) value := by
  have firstHashed : table.Hashed first := ⟨isFirst.lower_le, isFirst.lt_upper⟩
  have number : (BitVec.ofNat 32 first).toNat = first := toNat_ofNat_of_lt firstHashed.lt
  have inside : ¬ BitVec.ofNat 32 first < table.conf.symndx := by
    rw [BitVec.lt_def, number]
    exact Nat.not_lt.mpr isFirst.lower_le
  have found := table.first first isFirst
  rw [same] at found
  refine lookup_passing object filter found (fun below => absurd below inside) fun _ => ?_
  rw [number]
  exact walks

/-- The value of a symbol with that name is returned. -/
def Finds (object : GnuHashObject table memory) (function : CString) : Prop :=
  ∃ k, table.Hashed k ∧ symbols.name k = function ∧
    Yields (lookup object function) (symbols.sym k).stValue

/-- The lookup of a hashed name. -/
theorem lookup_result (object : GnuHashObject table memory) (hashed : table.Hashed i) :
    ((gnuHash (symbols.name i)).toNat % 2 = 0 → Finds object (symbols.name i)) ∧
      ((gnuHash (symbols.name i)).toNat % 2 ≠ 0 → Yields (lookup object (symbols.name i)) 0) := by
  obtain ⟨first, isFirst, same⟩ := exists_first (symbols.bucket table.conf) hashed.1 hashed.2
  obtain ⟨l, after, below, group, last⟩ :=
    exists_last (symbols.bucket table.conf) hashed.2
  have before : first ≤ i := isFirst.le hashed.1 same.symm
  have filter := passes_returns object.ht hashed
  have chain := table.inChain isFirst same below (same.trans group.symm) last
  have walks := walk_within object (symbols.name i) (before.trans after)
    isFirst.lower_le below (same.trans group.symm) last chain
  constructor
  · intro even
    rcases walks with ⟨k, from_, upTo, matched, _, yields⟩ | ⟨none, _⟩
    · have above := isFirst.lower_le
      exact ⟨k, ⟨by omega, by omega⟩, matched.1.symm,
        (lookup_within object filter isFirst same yields).yields⟩
    · exact absurd ⟨rfl, even⟩ (none i before after)
  · intro odd
    rcases walks with ⟨k, _, _, matched, _⟩ | ⟨_, yields⟩
    · exact absurd matched.2 odd
    · exact (lookup_within object filter isFirst same yields).yields

/-- A hashed name is found exactly if its hash is even or NULL is to be found. -/
theorem finds_iff (object : GnuHashObject table memory) (hashed : table.Hashed i) :
    Finds object (symbols.name i) ↔
      (gnuHash (symbols.name i)).toNat % 2 = 0 ∨
        ∃ k, table.Hashed k ∧ symbols.name k = symbols.name i ∧ (symbols.sym k).stValue = 0 := by
  obtain ⟨found, missed⟩ := lookup_result object hashed
  by_cases even : (gnuHash (symbols.name i)).toNat % 2 = 0
  · exact iff_of_true (found even) (.inl even)
  · constructor
    · rintro ⟨k, hashedK, name, yields⟩
      exact .inr ⟨k, hashedK, name, yields.unique (missed even)⟩
    · rintro (isEven | ⟨k, hashedK, name, null⟩)
      · exact absurd isEven even
      · refine ⟨k, hashedK, name, ?_⟩
        rw [null]
        exact missed even

end Object

/-! ## A table with the names a and b -/

/-- Of the two hashes, 177670 and 177671, the second is odd. -/
def letters : DynamicSymbols where
  count := 3
  name i := if i = 1 then ⟨[97], by decide⟩ else ⟨[98], by decide⟩
  sym i := if i = 1 then ⟨1, 0x12, 0x1000⟩ else ⟨3, 0x12, 0x2000⟩

def lettersTable : GnuHashTable letters where
  conf := { nbuckets := 1, symndx := 1, maskwords := 1, shift2 := 6 }
  bloom := [0x10000C0]
  buckets := [1]
  nbuckets_pos := by decide
  shift2_lt := by decide
  maskwords_pow := ⟨0, rfl⟩
  count_le := by decide
  bloom_length := rfl
  buckets_length := rfl
  grouped := by
    intro i j l _ _ _ _ _
    rw [DynamicSymbols.bucket, DynamicSymbols.bucket]
    exact (Nat.mod_one _).trans (Nat.mod_one _).symm
  first := by
    intro i isFirst
    have only : i = 1 := by
      by_contra other
      have above := isFirst.lower_le
      exact isFirst.fresh 1 le_rfl (by change 1 ≤ i at above; omega)
        ((Nat.mod_one _).trans (Nat.mod_one _).symm)
    rw [only]
    decide
  filtered := by
    intro i above below mask found
    change 1 ≤ i at above
    change i < 3 at below
    interval_cases i
    · obtain rfl : (0x10000C0 : Word) = mask := Option.some.inj found
      decide
    · obtain rfl : (0x10000C0 : Word) = mask := Option.some.inj found
      decide

def lettersBytes : List Byte :=
  arrayBytes 8 [6, 84, 5, 156, 0x6ffffef5, 48] ++ arrayBytes 4 [1, 1, 1, 6] ++
    arrayBytes 8 [0x10000C0] ++ arrayBytes 4 [1, 177670, 177671] ++
      arrayBytes 8 [0, 0, 0] ++ arrayBytes 8 [1 + 0x12 * 2 ^ 32, 0x1000, 0] ++
        arrayBytes 8 [3 + 0x12 * 2 ^ 32, 0x2000, 0] ++ [0, 97, 0, 98, 0]

def lettersMemory : PartialMemory := fun addr => lettersBytes[addr.toNat]?

def lettersObject : GnuHashObject lettersTable lettersMemory where
  dynSection := 0
  baseAddr := 0
  symtab := 84
  strtab := 156
  ht := 48
  symtabEntry := .here ⟨arrayBytes 8 [6, 84], rfl, by decide, rfl⟩ rfl
  strtabEntry := .later ⟨arrayBytes 8 [6, 84], rfl, by decide, rfl⟩ (by decide) (by decide)
    (.here ⟨arrayBytes 8 [5, 156], rfl, by decide, rfl⟩ rfl)
  htEntry := .later ⟨arrayBytes 8 [6, 84], rfl, by decide, rfl⟩ (by decide) (by decide)
    (.later ⟨arrayBytes 8 [5, 156], rfl, by decide, rfl⟩ (by decide) (by decide)
      (.here ⟨arrayBytes 8 [0x6ffffef5, 48], rfl, by decide, rfl⟩ rfl))
  config := by decide
  bloom := by decide
  buckets := by decide
  symhash := by
    intro i hashed
    obtain ⟨above, below⟩ : 1 ≤ i ∧ i < 3 := hashed
    interval_cases i <;> decide
  syms := by
    intro i hashed
    obtain ⟨above, below⟩ : 1 ≤ i ∧ i < 3 := hashed
    interval_cases i
    · exact ⟨arrayBytes 8 [1 + 0x12 * 2 ^ 32, 0x1000, 0], rfl, by decide, by decide⟩
    · exact ⟨arrayBytes 8 [3 + 0x12 * 2 ^ 32, 0x2000, 0], rfl, by decide, by decide⟩
  names := by
    intro i hashed
    obtain ⟨above, below⟩ : 1 ≤ i ∧ i < 3 := hashed
    interval_cases i <;> decide

/-- The name a is found. -/
theorem finds_a : Finds lettersObject (letters.name 1) :=
  (finds_iff lettersObject ⟨by decide, by decide⟩).mpr (.inl (by decide))

/-- The name b is hashed too, but not found. -/
theorem misses_b : lettersTable.Hashed 2 ∧ ¬ Finds lettersObject (letters.name 2) := by
  have hashed : lettersTable.Hashed 2 := ⟨by decide, by decide⟩
  refine ⟨hashed, ?_⟩
  rintro ⟨k, _, name, yields⟩
  have null := yields.unique ((lookup_result lettersObject hashed).2 (by decide))
  have value : (letters.sym k).stValue ≠ 0 := by
    unfold letters
    dsimp only
    split <;> decide
  exact value null

end MyDbg.Infos
