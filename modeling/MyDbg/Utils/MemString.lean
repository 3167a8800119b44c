import MyDbg.Utils.GrowingArrays
import Mathlib.Order.Filter.AtTopBot.Basic

/-!
Contract: the strings `read_mem_string` returns.

Owns: the byte that can be read at an address; what a string in the tracee's
memory reads as; the buffer behind the loop of `read_mem_string`; and when
what is returned is that string, every byte of it written.

Does not own: who uses the string, and what becomes of its buffer.
-/

namespace MyDbg.Utils

open LittleEndian Ownership ProgramLogic

/-- The byte `i` places behind `addr`; nothing where it cannot be read, or the file ends. -/
def ProcMem.byteAt (mem : ProcMem) (addr : Addr) (i : Nat) : Option Byte :=
  (mem.pread (addr + BitVec.ofNat 64 i) 1).bind List.head?

/-- `chars` can be read from `addr` on, and contain no NUL. -/
structure ProcMem.Begins (mem : ProcMem) (addr : Addr) (chars : List Byte) : Prop where
  nonzero : 0 ∉ chars
  read : ∀ (i : Nat) (c : Byte), chars[i]? = some c → mem.byteAt addr i = some c

/-- What `read_mem_string` is to return: the bytes in front of the first NUL, or the empty
string where one that cannot be read comes first. -/
inductive ProcMem.Reads (mem : ProcMem) (addr : Addr) : List Byte → Prop where
  | string {chars : List Byte} (begins : mem.Begins addr chars)
      (ended : mem.byteAt addr chars.length = some 0) : Reads mem addr chars
  | broken {front : List Byte} (begins : mem.Begins addr front)
      (lost : mem.byteAt addr front.length = none) : Reads mem addr []

/-- The condition: the first byte cannot be read, or all up to a NUL can, which is near
enough for the size of a buffer. -/
def ProcMem.Whole (mem : ProcMem) (addr : Addr) : Prop :=
  mem.opens = true ∧ (mem.byteAt addr 0 = none ∨
    ∃ count, count + 1 < 2 ^ 64 ∧ mem.byteAt addr count = some 0 ∧
      ∀ i < count, (mem.byteAt addr i).isSome)

/-- `buf` points to the string `chars`, with its NUL, and to nothing else. -/
def IsString {κ : Type} (chars : List Byte) (buf : Ptr) (pool : Pool κ) : Prop :=
  buf ≠ 0 ∧ pool.heap buf = some (charCells (chars ++ [0]))

section Bytes

variable {mem : ProcMem} {addr : Addr} {chars front : List Byte} {i : Nat}

theorem ProcMem.byteAt_wraps (mem : ProcMem) (addr : Addr) (i : Nat) :
    mem.byteAt addr (i + 2 ^ 64) = mem.byteAt addr i := by
  have same : BitVec.ofNat 64 (i + 2 ^ 64) = BitVec.ofNat 64 i := by
    apply BitVec.eq_of_toNat_eq
    simp
  rw [byteAt, byteAt, same]

theorem ProcMem.Begins.byteAt_of_lt (begins : mem.Begins addr chars) (below : i < chars.length) :
    ∃ c, c ≠ 0 ∧ mem.byteAt addr i = some c := by
  refine ⟨chars[i], ?_, begins.read i _ (List.getElem?_eq_getElem below)⟩
  intro zero
  exact begins.nonzero (zero ▸ List.getElem_mem below)

/-- A string ends before its own beginning. -/
theorem ProcMem.Begins.small (begins : mem.Begins addr chars)
    (stops : mem.byteAt addr chars.length = some 0 ∨ mem.byteAt addr chars.length = none) :
    chars.length < 2 ^ 64 := by
  by_contra large
  have wraps := mem.byteAt_wraps addr (chars.length - 2 ^ 64)
  rw [Nat.sub_add_cancel (by omega)] at wraps
  have below : chars.length - 2 ^ 64 < chars.length := by omega
  obtain ⟨c, nonzero, read⟩ := begins.byteAt_of_lt below
  rw [wraps, read] at stops
  rcases stops with zero | none
  · exact nonzero (Option.some.inj zero)
  · cases none

end Bytes

/-! ## The loop -/

section Loop

variable {κ : Type} {allocator : Allocator κ} {pool : Pool κ} {mem : ProcMem} {addr : Addr}

/-- As `Given`, but with too little fuel the loop comes to no end. -/
abbrev GivenFuel {α : Type} (refusals : Nat) (short : Prop) (ok : α → Pool κ → Prop) :
    Post MyException (Pool κ) α where
  ok := (Given refusals ok).ok
  throw := (Given refusals ok).throw
  fault _ := False
  noReturn after := refusals < after.refusals ∨ short

/-- What holds behind the loop. -/
structure CharsLeft (mem : ProcMem) (addr : Addr) (chars : List Byte)
    (result : Ptr × Word × Bool) (after : Pool κ) : Prop where
  length : result.2.1 = BitVec.ofNat 64 chars.length
  failed : result.2.2 = true ↔ mem.pread (addr + BitVec.ofNat 64 chars.length) 1 = none
  has : Has after.heap result.1 (charCells chars)

theorem readChars_next {c : Byte} {answer : Option (List Byte)} (nonzero : c ≠ 0)
    (read : answer.bind List.head? = some c) (fuel : Nat) (buf : Ptr) (length : Word) :
    readChars allocator mem addr (fuel + 1) buf length answer =
      (addChar allocator buf length c >>= fun grown =>
        readChars allocator mem addr fuel grown.1 grown.2 (mem.pread (addr + grown.2) 1)) := by
  cases answer with
  | none => cases read
  | some bytes =>
      cases bytes with
      | nil => cases read
      | cons first rest =>
          obtain rfl := Option.some.inj read
          conv_lhs => unfold readChars
          rw [if_neg nonzero]

theorem readChars_empty {c : Byte} {answer : Option (List Byte)} (nonzero : c ≠ 0)
    (read : answer.bind List.head? = some c) (buf : Ptr) (length : Word) :
    readChars allocator mem addr 0 buf length answer = Program.noReturn := by
  cases answer with
  | none => cases read
  | some bytes =>
      cases bytes with
      | nil => cases read
      | cons first rest =>
          obtain rfl := Option.some.inj read
          unfold readChars
          rw [if_neg nonzero]

theorem readChars_stops {answer : Option (List Byte)}
    (stops : answer.bind List.head? = some 0 ∨ answer.bind List.head? = none) (fuel : Nat)
    (buf : Ptr) (length : Word) :
    readChars allocator mem addr fuel buf length answer =
      pure (buf, length, answer.isNone) := by
  cases answer with
  | none =>
      unfold readChars
      rfl
  | some bytes =>
      cases bytes with
      | nil =>
          unfold readChars
          rfl
      | cons first rest =>
          have zero : first = 0 := by simpa using stops
          subst zero
          unfold readChars
          rw [if_pos rfl]
          rfl

/-- The characters `done` are in the buffer, and `rest` are to come. -/
theorem given_readChars {fuel : Nat} {buf : Ptr} (done rest : List Byte)
    (begins : mem.Begins addr (done ++ rest))
    (stops : mem.byteAt addr (done ++ rest).length = some 0 ∨
      mem.byteAt addr (done ++ rest).length = none)
    (has : Has pool.heap buf (charCells done)) :
    wp (readChars allocator mem addr fuel buf (BitVec.ofNat 64 done.length)
        (mem.pread (addr + BitVec.ofNat 64 done.length) 1))
      (GivenFuel pool.refusals (fuel < rest.length) (CharsLeft mem addr (done ++ rest))) pool := by
  induction rest generalizing done fuel buf pool with
  | nil =>
      rw [List.append_nil] at *
      rw [readChars_stops stops]
      exact ⟨rfl, rfl, Option.isNone_iff_eq_none, has⟩
  | cons c rest inductionHypothesis =>
      have here : mem.byteAt addr done.length = some c := begins.read done.length c (by simp)
      have nonzero : c ≠ 0 := by
        rintro rfl
        exact begins.nonzero (by simp)
      cases fuel with
      | zero =>
          rw [readChars_empty nonzero here]
          exact .inr (by rw [List.length_cons]; omega)
      | succ fuel =>
          have small := begins.small stops
          have next : done.length + 1 = (done ++ [c]).length := by simp
          rw [List.append_cons] at begins stops
          rw [readChars_next nonzero here, wp_bind]
          rw [List.length_append, List.length_cons] at small
          refine wp_mono (given_addChar has (by omega) c) ⟨?_, fun _ _ raised => raised,
            fun _ no => no, fun _ lost => .inl lost⟩
          rintro ⟨grown, _⟩ after ⟨given, rfl, notNull, found, _⟩
          rw [next, List.append_cons, ← given]
          refine wp_mono (inductionHypothesis (done ++ [c]) begins stops ?_)
            ⟨fun _ _ left => left, fun _ _ raised => raised, fun _ no => no,
              fun _ lost => lost.imp_right fun short => ?_⟩
          · rw [Has, if_neg notNull]
            exact found
          · rw [List.length_cons]
            omega

/-- Where a character is stored, there is a byte for it and none behind it. -/
theorem addChar_returns (allocator : Allocator κ) {buf : Ptr} {block : Block} (length : Word)
    (c : Byte) (has : Has pool.heap buf block) (within : buf = 0 ∨ length.toNat ≤ block.length) :
    wp (addChar allocator buf length c)
      (.onReturn fun grown after => length.toNat + 1 < 2 ^ 64 ∧
        ∃ content, after.heap grown.1 = some content ∧ content.length = length.toNat + 1)
      pool := by
  unfold addChar
  by_cases stays : StaysLive pool buf (length + 1).toNat
  · have grows : wp (tmpRealloc allocator buf length.toNat (length + 1).toNat)
        (.onReturn fun ptr after => ∃ content, after.heap ptr = some content ∧
          content.length = (length + 1).toNat) pool := by
      rcases within with rfl | within
      · rw [tmpRealloc_null]
        apply wp_onReturn (given_tmpRealloc_any has (Nat.zero_le _) stays)
        rintro ptr after ⟨_, _, _, ⟨content, found, size, _⟩, _⟩
        exact ⟨content, found, size⟩
      · apply wp_onReturn (given_tmpRealloc_any has within stays)
        rintro ptr after ⟨_, _, _, ⟨content, found, size, _⟩, _⟩
        exact ⟨content, found, size⟩
    rw [wp_bind]
    apply wp_onReturn grows
    rintro ptr middle ⟨content, found, size⟩
    change wp (storeCells ptr length.toNat [some c] >>= _) _ _
    unfold wp
    rw [Program.bind_apply, storeCells, found]
    dsimp only
    by_cases inside : length.toNat + [some c].length ≤ content.length
    · rw [if_pos inside]
      rw [List.length_singleton] at inside
      have next : (length + 1).toNat = (length.toNat + 1) % 2 ^ 64 := rfl
      have bound := length.isLt
      refine ⟨by omega, _, put_self, ?_⟩
      simp only [List.length_append, List.length_take, List.length_drop, List.length_singleton]
      omega
    · rw [if_neg inside]
      trivial
  · obtain ⟨after, raises⟩ := tmpRealloc_frees allocator length.toNat has stays
    unfold wp
    rw [Program.bind_throw raises]
    trivial

end Loop

/-! ## The string -/

section Result

variable {κ : Type} {allocator : Allocator κ} {pool : Pool κ} {mem : ProcMem} {addr : Addr}
  {chars front : List Byte} {fuel : Nat}

/-- `read_mem_string` behind its loop. -/
def endString (allocator : Allocator κ) (buf : Ptr) (length : Word) (failed : Bool) :
    Tmp κ Ptr := do
  Program.when failed (cFree buf)
  let (buf, _) ← addChar allocator (if failed then 0 else buf) length 0
  return buf

theorem readMemString_opened (opened : mem.opens = true) :
    readMemString allocator mem fuel addr =
      (readChars allocator mem addr fuel 0 (BitVec.ofNat 64 ([] : List Byte).length)
          (mem.pread (addr + BitVec.ofNat 64 ([] : List Byte).length) 1) >>= fun result =>
        endString allocator result.1 result.2.1 result.2.2) := by
  have start : addr + BitVec.ofNat 64 ([] : List Byte).length = addr := BitVec.add_zero addr
  unfold readMemString
  rw [if_pos opened, start]
  rfl

theorem has_null (heap : Heap) : Has heap 0 (charCells []) := by
  rw [Has, if_pos rfl]
  rfl

/-- The NUL is appended to the characters read. -/
theorem given_endString {buf : Ptr} (has : Has pool.heap buf (charCells chars))
    (fits : chars.length + 1 < 2 ^ 64) :
    wp (endString allocator buf (BitVec.ofNat 64 chars.length) false)
      (Given pool.refusals (IsString chars)) pool := by
  change wp (addChar allocator buf (BitVec.ofNat 64 chars.length) 0 >>= fun grown =>
    pure grown.1) _ pool
  apply given_bind (given_addChar has fits 0)
  rintro ⟨grown, _⟩ after ⟨_, notNull, found, _⟩
  exact ⟨rfl, notNull, found⟩

theorem given_string (opened : mem.opens = true) (begins : mem.Begins addr chars)
    (ended : mem.byteAt addr chars.length = some 0) (fits : chars.length + 1 < 2 ^ 64)
    (enough : chars.length ≤ fuel) :
    wp (readMemString allocator mem fuel addr) (Given pool.refusals (IsString chars)) pool := by
  rw [readMemString_opened opened, wp_bind]
  refine wp_mono (given_readChars [] chars begins (.inl ended) (has_null _))
    ⟨?_, fun _ _ raised => raised, fun _ no => no, fun _ lost => ?_⟩
  · rintro ⟨buf, length, failed⟩ after ⟨given, rfl, failure, has⟩
    have answered : failed = false := by
      rw [Bool.eq_false_iff]
      intro lost
      have none := failure.mp lost
      rw [ProcMem.byteAt] at ended
      rw [List.nil_append] at none
      rw [none] at ended
      cases ended
    rw [answered, ← given]
    exact given_endString has fits
  · rcases lost with refused | short
    · exact refused
    · omega

/-- Nothing can be read: the buffer is still NULL. -/
theorem given_empty (opened : mem.opens = true) (lost : mem.byteAt addr 0 = none) :
    wp (readMemString allocator mem fuel addr) (Given pool.refusals (IsString [])) pool := by
  have ends : wp (endString allocator 0 (BitVec.ofNat 64 ([] : List Byte).length) false)
      (Given pool.refusals (IsString [])) pool :=
    given_endString (has_null _) (by decide)
  have answer : (mem.pread (addr + BitVec.ofNat 64 ([] : List Byte).length) 1).bind List.head? =
      none := lost
  rw [readMemString_opened opened, readChars_stops (.inr answer), wp_bind]
  cases (mem.pread (addr + BitVec.ofNat 64 ([] : List Byte).length) 1).isNone with
  | true => exact ends
  | false => exact ends

/-- The buffer has room for the characters read and the NUL. -/
theorem readMemString_returns (opened : mem.opens = true) (begins : mem.Begins addr front)
    (stops : mem.byteAt addr front.length = some 0 ∨ mem.byteAt addr front.length = none) :
    wp (readMemString allocator mem fuel addr)
      (.onReturn fun buf after => front.length + 1 < 2 ^ 64 ∧
        ∃ content, after.heap buf = some content ∧ content.length = front.length + 1) pool := by
  have small := begins.small stops
  have length : (BitVec.ofNat 64 front.length).toNat = front.length := by
    rw [BitVec.toNat_ofNat]
    omega
  rw [readMemString_opened opened, wp_bind]
  refine wp_mono (given_readChars [] front begins stops (has_null _))
    ⟨?_, fun _ _ _ => trivial, fun _ no => no.elim, fun _ _ => trivial⟩
  rintro ⟨buf, _, failed⟩ middle ⟨_, rfl, _, has⟩
  change wp (Program.when failed (cFree buf) >>= _) _ middle
  rw [wp_bind]
  cases failed with
  | true =>
      refine wp_any (fun _ freed => ?_) (fun _ _ => trivial) (fun _ => trivial) fun _ => trivial
      change wp (addChar allocator 0 (BitVec.ofNat 64 front.length) 0 >>= _) _ freed
      rw [wp_bind]
      have adds := addChar_returns allocator (BitVec.ofNat 64 front.length) 0
        (has_null freed.heap) (.inl rfl)
      rw [length] at adds
      exact wp_onReturn adds fun _ _ returned => returned
  | false =>
      change wp (addChar allocator buf (BitVec.ofNat 64 front.length) 0 >>= _) _ middle
      rw [wp_bind]
      have within : (BitVec.ofNat 64 front.length).toNat ≤ (charCells front).length := by
        rw [length, charCells_length]
      have adds := addChar_returns allocator (BitVec.ofNat 64 front.length) 0 has
        (.inr within)
      rw [length] at adds
      exact wp_onReturn adds fun _ _ returned => returned

theorem readMemString_unopened (closed : mem.opens = false) :
    readMemString allocator mem fuel addr = pure 0 := by
  unfold readMemString
  rw [closed]
  rfl

/-- A string that is ended within reach ends there. -/
theorem ProcMem.Begins.length_le (begins : mem.Begins addr chars) {count : Nat}
    (zero : mem.byteAt addr count = some 0) : chars.length ≤ count := by
  by_contra longer
  obtain ⟨c, nonzero, read⟩ := begins.byteAt_of_lt (Nat.not_le.mp longer)
  rw [zero] at read
  exact nonzero (Option.some.inj read).symm

/-- A string can only be read to its end, or not at all. -/
theorem whole_cases (reads : mem.Reads addr chars)
    (reach : mem.byteAt addr 0 = none ∨ ∃ count, count + 1 < 2 ^ 64 ∧
      mem.byteAt addr count = some 0 ∧ ∀ i < count, (mem.byteAt addr i).isSome) :
    (mem.byteAt addr 0 = none ∧ chars = []) ∨
      (mem.Begins addr chars ∧ mem.byteAt addr chars.length = some 0 ∧
        chars.length + 1 < 2 ^ 64) := by
  cases reads with
  | string begins ended =>
      right
      refine ⟨begins, ended, ?_⟩
      rcases reach with lost | ⟨count, near, zero, _⟩
      · cases chars with
        | nil =>
            rw [List.length_nil, lost] at ended
            cases ended
        | cons c chars =>
            rw [begins.read 0 c rfl] at lost
            cases lost
      · have shorter := begins.length_le zero
        omega
  | @broken front begins lost =>
      left
      rcases reach with first | ⟨count, _, zero, readable⟩
      · exact ⟨first, rfl⟩
      · have within := begins.length_le zero
        rcases Nat.lt_or_eq_of_le within with before | same
        · have read := readable front.length before
          rw [lost] at read
          cases read
        · rw [same, zero] at lost
          cases lost

variable (allocator pool) in
/-- Where the condition holds, the string is returned unless memory is exhausted; and it is
returned nowhere else. -/
theorem readMemString_iff (reads : mem.Reads addr chars) :
    (mem.Whole addr → ∀ᶠ fuel in Filter.atTop,
        wp (readMemString allocator mem fuel addr) (Given pool.refusals (IsString chars)) pool) ∧
      ((∃ fuel buf after, readMemString allocator mem fuel addr pool = .ok buf after ∧
        IsString chars buf after) → mem.Whole addr) := by
  constructor
  · rintro ⟨opened, reach⟩
    filter_upwards [Filter.eventually_ge_atTop chars.length] with fuel enough
    rcases whole_cases reads reach with ⟨lost, rfl⟩ | ⟨begins, ended, fits⟩
    · exact given_empty opened lost
    · exact given_string opened begins ended fits enough
  · rintro ⟨fuel, buf, after, returns, notNull, found⟩
    have opened : mem.opens = true := by
      by_contra closed
      rw [Bool.not_eq_true] at closed
      rw [readMemString_unopened closed] at returns
      exact notNull (Outcome.ok.inj returns).1.symm
    refine ⟨opened, ?_⟩
    cases reads with
    | string begins ended =>
        obtain ⟨fits, _⟩ := (readMemString_returns opened begins (.inl ended)).ok returns
        refine .inr ⟨chars.length, fits, ended, fun i below => ?_⟩
        obtain ⟨c, _, read⟩ := begins.byteAt_of_lt below
        rw [read]
        rfl
    | @broken front begins lost =>
        obtain ⟨_, content, held, size⟩ :=
          (readMemString_returns opened begins (.inr lost)).ok returns
        rw [found] at held
        have length := congrArg List.length (Option.some.inj held)
        rw [charCells_length, size] at length
        have empty : front.length = 0 := by simpa using length.symm
        rw [empty] at lost
        exact .inl lost

end Result

/-! ## A string that breaks off -/

theorem begins_a (rest : List Byte) : (procMem (0x61 :: rest)).Begins 0 [0x61] := by
  refine ⟨by decide, ?_⟩
  intro i c stored
  cases i with
  | zero =>
      obtain rfl := Option.some.inj stored
      have below : (0 : Addr).toNat < (0x61 :: rest).length := Nat.zero_lt_succ _
      have read : (procMem (0x61 :: rest)).pread 0 1 = some [0x61] := by
        change (if (0 : Addr).toNat < (0x61 :: rest).length then _ else none) = _
        rw [if_pos below]
        rfl
      rw [ProcMem.byteAt, BitVec.add_zero, read]
      rfl
  | succ i => cases stored

/-- The string `a`, which ends. -/
theorem readMemString_iff_a : ∀ᶠ fuel in Filter.atTop,
    wp (readMemString firstFit (procMem [0x61, 0]) fuel 0)
      (Given (Pool.start ()).refusals (IsString [0x61])) (Pool.start ()) := by
  have reads : (procMem [0x61, 0]).Reads 0 [0x61] := .string (begins_a [0]) (by decide)
  refine (readMemString_iff firstFit (Pool.start ()) reads).1 ⟨rfl, .inr ⟨1, by decide, ?_, ?_⟩⟩
  · decide
  · intro i below
    obtain rfl : i = 0 := by omega
    decide

/-- The place of the character read is never written. -/
theorem readMemString_uninitialised : (procMem [0x61]).Reads 0 [] ∧
    ∃ buf after, readMemString firstFit (procMem [0x61]) 1 0 (Pool.start ()) = .ok buf after ∧
      after.heap buf = some [none, some 0] ∧ ¬ IsString [] buf after := by
  have computed : (match readMemString firstFit (procMem [0x61]) 1 0 (Pool.start ()) with
      | .ok buf after => decide (after.heap buf = some [none, some 0])
      | .throw _ _ | .fault _ | .noReturn _ => false) = true := by
    decide +kernel
  refine ⟨.broken (begins_a []) (by decide), ?_⟩
  generalize readMemString firstFit (procMem [0x61]) 1 0 (Pool.start ()) = outcome at computed
  cases outcome with
  | ok buf after =>
      have held : after.heap buf = some [none, some 0] := of_decide_eq_true computed
      refine ⟨buf, after, rfl, held, ?_⟩
      rintro ⟨_, string⟩
      rw [held] at string
      have length := congrArg List.length (Option.some.inj string)
      rw [charCells_length] at length
      cases length
  | throw ex after => cases computed
  | fault after => cases computed
  | noReturn after => cases computed

end MyDbg.Utils
