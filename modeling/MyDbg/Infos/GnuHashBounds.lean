import MyDbg.Infos.GnuHashLookup
import Mathlib.Order.Nat

/-!
Contract: what `get_address_gnu_hash` reads and returns, whatever the name.

Owns: the buckets without symbols; the lookup of any name, hashed or not; that it
ends, stays in one chain and returns the value of a symbol of that name or NULL.

Does not own: the contents of memory that is not read.
-/

namespace MyDbg.Infos

open LittleEndian ProgramLogic Grouping

variable {memory : PartialMemory} {symbols : DynamicSymbols} {table : GnuHashTable symbols}

/-- The table has an entry for symbol `i`, with that name. -/
def GnuHashTable.HasName {symbols : DynamicSymbols} (table : GnuHashTable symbols)
    (function : CString) (i : Nat) : Prop :=
  table.Hashed i ∧ symbols.name i = function

/-- A bucket without symbols leads to the undefined symbol, which has no entry. -/
structure GnuHashTable.EmptyBuckets (table : GnuHashTable symbols) : Prop where
  symndx_pos : 0 < table.conf.symndx.toNat
  empty : ∀ bucket < table.conf.nbuckets.toNat,
    (∀ i, table.Hashed i → symbols.bucket table.conf i ≠ bucket) →
      table.buckets[bucket]? = some 0

/-- The Bloom filter answers, and keeps back no name that is hashed. -/
theorem passes_any (table : GnuHashTable symbols) (ht : Addr) (function : CString) :
    ∃ answer, Returns ((table.copied ht).passes (gnuHash function)) answer ∧
      (answer = false → ∀ i, ¬ table.HasName function i) := by
  obtain ⟨filters, asks⟩ := @filters_returns _ table ht
  obtain ⟨mask, _, bits⟩ := hasBits_any table ht (gnuHash function)
  have answers : ∃ answer, Returns ((table.copied ht).passes (gnuHash function)) answer := by
    cases filters with
    | true => exact ⟨_, asks.bind bits⟩
    | false => exact ⟨true, asks.bind (.pure true)⟩
  obtain ⟨answer, returns⟩ := answers
  refine ⟨answer, returns, ?_⟩
  rintro rfl i ⟨hashed, rfl⟩
  exact absurd (returns.unique (passes_returns ht hashed)) (by decide)

/-- In a bucket that holds symbols, the loop finds the first one of the name. -/
theorem lookup_populated (object : GnuHashObject table memory) (function : CString) {i : Nat}
    (filter : Returns ((table.copied object.ht).passes (gnuHash function)) true)
    (hashed : table.Hashed i) (inside : symbols.bucket table.conf i =
      (gnuHash function).toNat % table.conf.nbuckets.toNat) :
    ((gnuHash function).toNat % 2 = 0 ∧ ∃ k, IsLeast {k | table.HasName function k} k ∧
        YieldsWithin (LookupAccess object function) (lookup object function)
          (symbols.sym k).stValue) ∨
      ((gnuHash function).toNat % 2 = 0 → ∀ k, ¬ table.HasName function k) ∧
        YieldsWithin (LookupAccess object function) (lookup object function) 0 := by
  obtain ⟨first, isFirst, same⟩ := exists_first (symbols.bucket table.conf) hashed.1 hashed.2
  obtain ⟨l, after, below, group, last⟩ := exists_last (symbols.bucket table.conf) hashed.2
  have above : table.conf.symndx.toNat ≤ first := isFirst.lower_le
  have before : first ≤ i := isFirst.le hashed.1 same.symm
  -- All symbols of the name are in the bucket, between its first and its last one.
  have within {j : Nat} (named : table.HasName function j) : first ≤ j ∧ j ≤ l := by
    obtain ⟨hashedJ, rfl⟩ := named
    have bucket : symbols.bucket table.conf j = symbols.bucket table.conf i := inside.symm
    exact ⟨isFirst.le hashedJ.1 (bucket.trans same.symm),
      last.le table.grouped (by omega) hashedJ.2 (bucket.trans group.symm)⟩
  have chain := table.inChain isFirst (same.trans inside) below (same.trans group.symm) last
  rcases walk_within object function (before.trans after) above below (same.trans group.symm)
      last chain with ⟨k, fromFirst, upTo, matched, fresh, yields⟩ | ⟨none, yields⟩
  · refine .inl ⟨matched.2, k, ⟨⟨⟨by omega, by omega⟩, matched.1.symm⟩, ?_⟩,
      lookup_within object filter isFirst (same.trans inside) yields⟩
    intro j named
    by_contra earlier
    exact fresh j (within named).1 (Nat.not_le.mp earlier) ⟨named.2.symm, matched.2⟩
  · refine .inr ⟨fun even j named => ?_,
      lookup_within object filter isFirst (same.trans inside) yields⟩
    exact none j (within named).1 (within named).2 ⟨named.2.symm, even⟩

/-- The lookup of any name. -/
theorem lookup_ends (object : GnuHashObject table memory) (vacant : table.EmptyBuckets)
    (function : CString) :
    ((gnuHash function).toNat % 2 = 0 ∧ ∃ k, IsLeast {k | table.HasName function k} k ∧
        YieldsWithin (LookupAccess object function) (lookup object function)
          (symbols.sym k).stValue) ∨
      ((gnuHash function).toNat % 2 = 0 → ∀ k, ¬ table.HasName function k) ∧
        YieldsWithin (LookupAccess object function) (lookup object function) 0 := by
  obtain ⟨answer, filter, rejected⟩ := passes_any table object.ht function
  cases answer with
  | false => exact .inr ⟨fun _ => rejected rfl, lookup_rejected object filter⟩
  | true =>
      by_cases populated : ∃ i, table.Hashed i ∧
          symbols.bucket table.conf i = (gnuHash function).toNat % table.conf.nbuckets.toNat
      · obtain ⟨i, hashed, inside⟩ := populated
        exact lookup_populated object function filter hashed inside
      · have found := vacant.empty _ (Nat.mod_lt (gnuHash function).toNat table.nbuckets_pos)
          fun i hashed inside => populated ⟨i, hashed, inside⟩
        refine .inr ⟨fun _ k named => populated ⟨k, named.1, ?_⟩,
          lookup_passing object filter found (fun _ => rfl) fun full => ?_⟩
        · rw [← named.2]
          rfl
        · have inFront : (0 : BitVec 32) < table.conf.symndx :=
            BitVec.lt_def.mpr vacant.symndx_pos
          exact absurd inFront full

/-! ## Bounds -/

variable {function : CString} {i : Nat}

/-- A chain ends with its bucket, and the symbols in it have entries. -/
theorem GnuHashTable.InChain.hashed (inChain : table.InChain function i) : table.Hashed i := by
  obtain ⟨first, last, isFirst, _, _, inner, fromFirst, upTo⟩ := inChain
  have above := isFirst.lower_le
  have below := isFirst.lt_upper
  obtain ⟨l, after, inside, _, ends⟩ := exists_last (symbols.bucket table.conf) below
  have notBeyond : last ≤ l := by
    by_contra beyond
    have flag := (table.ends_iff l).mpr ends
    rw [inner l after (Nat.not_le.mp beyond)] at flag
    cases flag
  exact ⟨by omega, by omega⟩

/-- A symbol with the name looked up is in the chain. -/
theorem GnuHashTable.HasName.inChain (named : table.HasName function i) :
    table.InChain function i := by
  obtain ⟨hashed, rfl⟩ := named
  obtain ⟨first, isFirst, same⟩ := exists_first (symbols.bucket table.conf) hashed.1 hashed.2
  obtain ⟨l, after, below, group, last⟩ := exists_last (symbols.bucket table.conf) hashed.2
  have before : first ≤ i := isFirst.le hashed.1 same.symm
  exact table.inChain isFirst same below (same.trans group.symm) last i before after

/-- The lookup ends; it reads no symbols but those in the chain, which all have entries;
and a value it returns is that of a symbol in the chain with the name. -/
theorem lookup_bounded (object : GnuHashObject table memory) (vacant : table.EmptyBuckets)
    (function : CString) :
    ∃ value, YieldsWithin (LookupAccess object function)
        (fun fuel => getAddressGnuHash memory fuel function object.dynSection object.baseAddr)
        value ∧
      (∀ i, table.InChain function i → table.conf.symndx.toNat ≤ i ∧ i < symbols.count) ∧
      (value ≠ 0 → ∃ i, table.InChain function i ∧ symbols.name i = function ∧
        (symbols.sym i).stValue = value) := by
  have entries (i : Nat) (inChain : table.InChain function i) : table.Hashed i := inChain.hashed
  rcases lookup_ends object vacant function with ⟨_, k, least, found⟩ | ⟨_, null⟩
  · exact ⟨_, found, entries, fun _ => ⟨k, least.1.inChain, least.1.2, rfl⟩⟩
  · exact ⟨0, null, entries, fun nonzero => absurd rfl nonzero⟩

theorem letters_emptyBuckets : lettersTable.EmptyBuckets where
  symndx_pos := by decide
  empty := by
    intro bucket below vacant
    obtain rfl : bucket = 0 := by
      change bucket < 1 at below
      omega
    exact absurd (Nat.mod_one _) (vacant 1 ⟨by decide, by decide⟩)

theorem noNul_c : (0 : Byte) ∉ [99] := by decide

def nameC : CString := ⟨[99], noNul_c⟩

/-- The lookup of a name that the table with a and b does not have. -/
theorem letters_bounded :
    ∃ value, YieldsWithin (LookupAccess lettersObject nameC)
        (fun fuel => getAddressGnuHash lettersMemory fuel nameC 0 0) value ∧
      (∀ i, lettersTable.InChain nameC i → 1 ≤ i ∧ i < 3) ∧
      (value ≠ 0 → ∃ i, lettersTable.InChain nameC i ∧ letters.name i = nameC ∧
        (letters.sym i).stValue = value) :=
  lookup_bounded lettersObject letters_emptyBuckets nameC

end MyDbg.Infos
