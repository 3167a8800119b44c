import MyDbg.Lib.Transition
import MyDbg.Utils.TempMemory

/-!
Contract: `memory.c`, and who owns what it and the temporary allocator hand out.

Owns: `read_memory` and `read_mem_string` on what `pread` answers; the runs of
calls between two `tmp_free_all`s and over them; `BreaksOff`, that a read fails
in the middle of a string; and that without this the list stays sound.

Does not own: what is read.
-/

namespace MyDbg.Utils

open LittleEndian Ownership ProgramLogic Transition

/-- `/proc/<pid>/mem`: whether it can be opened, and what `pread` reads; `none` is a
read that fails. -/
structure ProcMem where
  opens : Bool
  pread : Addr → Nat → Option (List Byte)
  short : ∀ addr count bytes, pread addr count = some bytes → bytes.length ≤ count

variable {κ : Type} (allocator : Allocator κ)

/-- The bytes `read_memory` asks for: `size`, rounded up to whole words. -/
def roundedSize (size : Word) : Word := (size / 8 + (if size % 8 ≠ 0 then 1 else 0)) * 8

def readMemory (mem : ProcMem) (addr : Addr) (size : Word) : Tmp κ Ptr := do
  if mem.opens then
    let buf ← tmpCalloc allocator (roundedSize size).toNat 1
    match mem.pread addr size.toNat with
    | none => Program.throw .memoryException
    | some bytes =>
        storeCells buf 0 (bytes.map some)
        if bytes.length = size.toNat then
          return buf
        else
          Program.throw .memoryException
  else
    Program.throw .memoryException

/-- The buffer and its length with one more character. -/
def addChar (buf : Ptr) (length : Word) (c : Byte) : Tmp κ (Ptr × Word) := do
  let buf ← tmpRealloc allocator buf length.toNat (length + 1).toNat
  storeCells buf length.toNat [some c]
  return (buf, length + 1)

/-- The loop of `read_mem_string`, from the answer to a `pread` on; it tells whether
the last one failed. -/
def readChars (mem : ProcMem) (addr : Addr) :
    Nat → Ptr → Word → Option (List Byte) → Tmp κ (Ptr × Word × Bool)
  | _, buf, length, none => return (buf, length, true)
  | _, buf, length, some [] => return (buf, length, false)
  | fuel, buf, length, some (c :: _) =>
      if c = 0 then
        return (buf, length, false)
      else
        match fuel with
        | 0 => Program.noReturn
        | fuel + 1 => do
            let (buf, length) ← addChar allocator buf length c
            readChars mem addr fuel buf length (mem.pread (addr + length) 1)

def readMemString (mem : ProcMem) (fuel : Nat) (addr : Addr) : Tmp κ Ptr := do
  if mem.opens then
    let (buf, length, failed) ← readChars allocator mem addr fuel 0 0 (mem.pread addr 1)
    Program.when failed (cFree buf)
    let (buf, _) ← addChar allocator (if failed then 0 else buf) length 0
    return buf
  else
    return 0

/-! ## Runs -/

/-- A call with its arguments, and the tracee's memory where it reads it; `fuel`
bounds the length of a string. -/
inductive Call where
  | malloc (size : Nat)
  | calloc (nmemb size : Nat)
  | realloc (oldPtr : Ptr) (oldSize newSize : Nat)
  | strdup (s : List Byte)
  | readMemory (mem : ProcMem) (addr : Addr) (size : Word)
  | readMemString (mem : ProcMem) (fuel : Nat) (addr : Addr)
  | freeAll

def Call.exec : Call → Tmp κ Unit
  | .malloc size => do let _ ← tmpMalloc allocator size
  | .calloc nmemb size => do let _ ← tmpCalloc allocator nmemb size
  | .realloc oldPtr oldSize newSize => do let _ ← tmpRealloc allocator oldPtr oldSize newSize
  | .strdup s => do let _ ← tmpStrdup allocator s
  | .readMemory mem addr size => do let _ ← Utils.readMemory allocator mem addr size
  | .readMemString mem fuel addr => do let _ ← Utils.readMemString allocator mem fuel addr
  | .freeAll => tmpFreeAll

/-- `call` comes back, by a return or an exception. -/
def Call.Leads (call : Call) (before after : Pool κ) : Prop :=
  call.exec allocator before = .ok () after ∨
    ∃ raised, call.exec allocator before = .throw raised after

/-- `pread` fails after a character of the string at `addr` was read. -/
def BreaksOff (mem : ProcMem) (addr : Addr) : Prop :=
  ∃ count : Nat,
    (∀ i ≤ count, ∃ c rest, c ≠ 0 ∧
      mem.pread (addr + BitVec.ofNat 64 i) 1 = some (c :: rest)) ∧
    mem.pread (addr + BitVec.ofNat 64 (count + 1)) 1 = none

/-- The condition on a call. -/
def Call.Careful : Call → Prop
  | .readMemString mem _ addr => mem.opens = true → ¬ BreaksOff mem addr
  | _ => True

section Sound

variable {allocator} {pool last : Pool κ}

theorem keeping_readMemory (mem : ProcMem) (addr : Addr) (size : Word) :
    Keeping (readMemory allocator mem addr size) := by
  have raises {α : Type} : Keeping (Program.throw .memoryException : Tmp κ α) :=
    fun _ sound => sound
  apply Keeps.ite
  · refine (keeping_tmpCalloc _ _).bind fun buf => ?_
    cases mem.pread addr size.toNat with
    | none => exact raises
    | some bytes =>
        exact (keeping_storeCells _ _).bind fun _ => Keeps.ite (.pure _) raises
  · exact raises

theorem wp_addChar (buf : Ptr) (length : Word) (c : Byte) (sound : Sound pool) :
    wp (addChar allocator buf length c)
      { ok := fun grown after => grown.2 = length + 1 ∧ Sound after
        throw := fun _ => Sound
        fault := fun _ => True
        noReturn := fun _ => True } pool := by
  unfold addChar
  rw [wp_bind]
  refine wp_concludes (keeping_tmpRealloc buf length.toNat (length + 1).toNat pool sound)
    fun _ _ sound => ?_
  change wp (storeCells _ _ _ >>= _) _ _
  rw [wp_bind]
  exact wp_concludes (keeping_storeCells _ _ _ sound) fun _ _ sound => ⟨rfl, sound⟩

/-- A read that fails is the first one. -/
theorem first_failure {mem : ProcMem} {addr : Addr} {i : Nat} (whole : ¬ BreaksOff mem addr)
    (read : ∀ j < i, ∃ c rest, c ≠ 0 ∧
      mem.pread (addr + BitVec.ofNat 64 j) 1 = some (c :: rest))
    (failed : mem.pread (addr + BitVec.ofNat 64 i) 1 = none) : i = 0 := by
  cases i with
  | zero => rfl
  | succ count => exact absurd ⟨count, fun j within => read j (by omega), failed⟩ whole

/-- What holds behind the loop. -/
abbrev CharsRead : Post MyException (Pool κ) (Ptr × Word × Bool) where
  ok result after := Sound after ∧ (result.2.2 = true → result.1 = 0)
  throw _ := Sound
  fault _ := True
  noReturn _ := True

/-- One turn of the loop. -/
theorem wp_readChars_turn {mem : ProcMem} {addr : Addr} {fuel : Nat} {buf : Ptr} {length : Word}
    {answer : Option (List Byte)} (null : answer = none → buf = 0) (sound : Sound pool)
    (continues : ∀ more c rest, fuel = more + 1 → c ≠ 0 → answer = some (c :: rest) →
      wp (addChar allocator buf length c >>= fun grown => readChars allocator mem addr more
        grown.1 grown.2 (mem.pread (addr + grown.2) 1)) CharsRead pool) :
    wp (readChars allocator mem addr fuel buf length answer) CharsRead pool := by
  unfold readChars
  split
  · exact ⟨sound, fun _ => null rfl⟩
  · exact ⟨sound, nofun⟩
  · next c rest =>
      rw [wp_ite]
      refine ⟨fun _ => ⟨sound, nofun⟩, fun notEnd => ?_⟩
      cases fuel with
      | zero => trivial
      | succ more => exact continues more c rest rfl notEnd rfl

/-- The loop only comes to a failed read before its first character. -/
theorem wp_readChars {mem : ProcMem} {addr : Addr} (whole : ¬ BreaksOff mem addr) (fuel i : Nat)
    (buf : Ptr) (empty : i = 0 → buf = 0) (sound : Sound pool)
    (read : ∀ j < i, ∃ c rest, c ≠ 0 ∧
      mem.pread (addr + BitVec.ofNat 64 j) 1 = some (c :: rest)) :
    wp (readChars allocator mem addr fuel buf (BitVec.ofNat 64 i)
        (mem.pread (addr + BitVec.ofNat 64 i) 1)) CharsRead pool := by
  induction fuel generalizing pool i buf with
  | zero =>
      refine wp_readChars_turn (fun failed => ?_) sound nofun
      exact empty (first_failure whole read failed)
  | succ fuel inductionHypothesis =>
      refine wp_readChars_turn (fun failed => ?_) sound ?_
      · exact empty (first_failure whole read failed)
      · rintro _ c rest ⟨⟩ notEnd answer
        have next : BitVec.ofNat 64 i + 1 = BitVec.ofNat 64 (i + 1) := by
          rw [BitVec.ofNat_add]
          rfl
        have further : ∀ j < i + 1, ∃ c rest, c ≠ 0 ∧
            mem.pread (addr + BitVec.ofNat 64 j) 1 = some (c :: rest) := by
          intro j below
          rcases Nat.lt_succ_iff_lt_or_eq.mp below with before | rfl
          · exact read j before
          · exact ⟨c, rest, notEnd, answer⟩
        rw [wp_bind]
        refine wp_concludes (wp_addChar buf (BitVec.ofNat 64 i) c sound)
          fun grown after kept => ?_
        rw [kept.1, next]
        exact inductionHypothesis (i + 1) grown.1 (absurd · (by omega)) kept.2 further

theorem keeping_readMemString {mem : ProcMem} {addr : Addr}
    (whole : mem.opens = true → ¬ BreaksOff mem addr) (fuel : Nat) :
    Keeping (readMemString allocator mem fuel addr) := by
  intro pool sound
  unfold readMemString
  rw [wp_ite]
  refine ⟨fun opens => ?_, fun _ => sound⟩
  have begins : addr + BitVec.ofNat 64 0 = addr := BitVec.add_zero addr
  have loop : wp (readChars allocator mem addr fuel 0 (BitVec.ofNat 64 0)
      (mem.pread (addr + BitVec.ofNat 64 0) 1)) _ pool :=
    wp_readChars (whole opens) fuel 0 0 (fun _ => rfl) sound nofun
  rw [begins] at loop
  rw [wp_bind]
  refine wp_concludes loop fun result after kept => ?_
  obtain ⟨buf, length, failed⟩ := result
  obtain ⟨sound, null⟩ := kept
  have frees : Program.when failed (cFree buf) after = .ok () after := by
    cases failed with
    | false => rfl
    | true =>
        obtain rfl := null rfl
        rfl
  have ends : Keeping (addChar allocator (if failed then 0 else buf) length 0 >>=
      fun grown => pure grown.1) :=
    Keeps.bind (fun _ sound => wp_concludes (wp_addChar _ _ _ sound) fun _ _ kept => kept.2)
      fun _ => Keeps.pure _
  change wp (Program.when failed (cFree buf) >>= fun _ => addChar allocator
    (if failed then 0 else buf) length 0 >>= fun grown => pure grown.1) _ after
  rw [wp_bind_ok frees]
  exact ends after sound

/-- A call that meets the condition keeps the list sound. -/
theorem keeping_call {call : Call} (careful : call.Careful) : Keeping (call.exec allocator) := by
  cases call with
  | malloc size => exact (keeping_tmpMalloc size).bind fun _ => .pure ()
  | calloc nmemb size => exact (keeping_tmpCalloc nmemb size).bind fun _ => .pure ()
  | realloc oldPtr oldSize newSize =>
      exact (keeping_tmpRealloc oldPtr oldSize newSize).bind fun _ => .pure ()
  | strdup s => exact (keeping_tmpStrdup s).bind fun _ => .pure ()
  | readMemory mem addr size => exact (keeping_readMemory mem addr size).bind fun _ => .pure ()
  | readMemString mem fuel addr =>
      exact (keeping_readMemString careful fuel).bind fun _ => .pure ()
  | freeAll =>
      intro pool sound
      obtain ⟨after, ends, kept, _⟩ := tmpFreeAll_apply sound
      unfold wp
      rw [Call.exec, ends]
      exact kept

/-- Every block of the list is live and stands there once, and `tmp_free_all` frees
each of them once, and nothing else. -/
structure FreedOnce (pool : Pool κ) : Prop where
  live : ∀ ptr ∈ pool.list.map MyPtrList.ptr, ptr ≠ 0 → (pool.heap ptr).isSome ∧
    (pool.list.map MyPtrList.ptr).count ptr = 1
  frees : ∃ after freed, tmpFreeAll pool = .ok () after ∧ after.list = [] ∧
    after.freed = freed ++ pool.freed ∧ freed.Nodup ∧
    ∀ ptr, ptr ∈ freed ↔ ∃ l ∈ pool.list, ptr = l.node ∨ (ptr = l.ptr ∧ ptr ≠ 0)

theorem mem_blocks {ptr : Ptr} {list : List MyPtrList} :
    ptr ∈ blocks list ↔ ∃ l ∈ list, ptr = l.node ∨ (ptr = l.ptr ∧ ptr ≠ 0) := by
  induction list with
  | nil => simp [blocks]
  | cons l next inductionHypothesis =>
      have head : ptr ∈ inHand l.ptr ↔ ptr = l.ptr ∧ ptr ≠ 0 := by
        unfold inHand
        split
        · next null => simp [null]
        · next notNull =>
            simp only [List.mem_singleton]
            constructor
            · rintro rfl
              exact ⟨rfl, notNull⟩
            · exact And.left
      rw [List.exists_mem_cons_iff, ← inductionHypothesis]
      simp only [blocks, List.mem_append, List.mem_cons, head]
      tauto

theorem count_blocks {ptr : Ptr} {list : List MyPtrList} (notNull : ptr ≠ 0) :
    (list.map MyPtrList.ptr).count ptr ≤ (blocks list).count ptr := by
  induction list with
  | nil => exact Nat.le_refl _
  | cons l next inductionHypothesis =>
      rw [List.map_cons, List.count_cons, blocks, List.count_append, List.count_cons]
      have head : (if l.ptr == ptr then 1 else 0) ≤ (inHand l.ptr).count ptr := by
        by_cases same : l.ptr = ptr
        · rw [same, inHand_of_ne notNull]
          simp
        · simp [same]
      omega

theorem Sound.freedOnce (sound : Sound pool) : FreedOnce pool where
  live := by
    intro ptr member notNull
    obtain ⟨l, inside, rfl⟩ := List.mem_map.mp member
    have owned : l.ptr ∈ blocks pool.list := mem_blocks.mpr ⟨l, inside, Or.inr ⟨rfl, notNull⟩⟩
    refine ⟨sound.owns.live _ owned, ?_⟩
    have most := List.nodup_iff_count_le_one.mp sound.owns.once l.ptr
    have least := List.count_pos_iff.mpr member
    have fewer : (pool.list.map MyPtrList.ptr).count l.ptr ≤ (blocks pool.list).count l.ptr :=
      count_blocks notNull
    omega
  frees := by
    obtain ⟨after, ends, _, empty, noted⟩ := tmpFreeAll_apply sound
    refine ⟨after, (blocks pool.list).reverse, ends, empty, noted,
      List.nodup_reverse.mpr sound.owns.once, ?_⟩
    intro ptr
    rw [List.mem_reverse]
    exact mem_blocks

/-- A pool with nothing in it. -/
def Pool.start (alloc : κ) : Pool κ where
  alloc := alloc
  heap _ := none
  list := []
  freed := []
  refusals := 0

/-- After any calls none of which breaks off in a string, the list owns its blocks. -/
theorem freed_once {alloc : κ} {calls : List Call}
    (run : Run (Call.Leads allocator) (Pool.start alloc) calls last)
    (careful : ∀ call ∈ calls, call.Careful) : FreedOnce last := by
  have start : Sound (Pool.start alloc : Pool κ) := ⟨rfl, .nil, rfl⟩
  have sound : Sound last := by
    induction run with
    | refl => exact start
    | @tail labels middle last call _ leads inductionHypothesis =>
        have before := inductionHypothesis fun call member => careful call (by simp [member])
        have kept : Keeping (call.exec allocator) := keeping_call (careful call (by simp))
        have keeps := kept _ before
        rcases leads with returned | ⟨raised, broke⟩
        · exact keeps.ok returned
        · exact keeps.throw broke
  exact sound.freedOnce

end Sound

/-! ## Runs that can be computed -/

/-- An allocator that takes the first free place of a few, and moves no block. -/
def firstFit : Allocator Unit where
  malloc _ heap _ :=
    (([16, 32, 48, 64, 80, 96] : List Ptr).find? fun ptr => (heap ptr).isNone, ())
  realloc _ _ old _ := (if old = 0 then none else some old, ())
  malloc_fresh alloc heap size ptr chosen := by
    have free := List.find?_some chosen
    have member := List.mem_of_find?_eq_some chosen
    refine ⟨?_, by simpa using free⟩
    rintro rfl
    exact absurd member (by decide)
  realloc_fresh alloc heap old size ptr chosen := by
    dsimp only at chosen
    split at chosen
    · cases chosen
    · next notNull =>
        obtain rfl := Option.some.inj chosen
        exact ⟨notNull, Or.inl rfl⟩

/-- Memory that is `bytes` from address 0 on and cannot be read behind them. -/
def procMem (bytes : List Byte) : ProcMem where
  opens := true
  pread addr count := if addr.toNat < bytes.length then some ((bytes.drop addr.toNat).take count)
    else none
  short addr count read answered := by
    split at answered
    · rw [← Option.some.inj answered]
      exact List.length_take_le _ _
    · cases answered

/-- The pool after a call that returns. -/
def Call.next (call : Call) (before : Pool κ) : Option (Pool κ) :=
  match call.exec allocator before with
  | .ok _ after => some after
  | _ => none

theorem Call.leads_of_next {allocator : Allocator κ} {call : Call} {before after : Pool κ}
    (next : call.next allocator before = some after) : call.Leads allocator before after := by
  unfold Call.next at next
  split at next
  · next ends =>
      obtain rfl := Option.some.inj next
      exact Or.inl ends
  · cases next

/-- A copied string, and a string that grows in place beside it. -/
theorem freed_once_ab :
    ∃ last, Run (Call.Leads firstFit) (Pool.start ())
        [.strdup [0x61], .readMemString (procMem [0x61, 0x62, 0]) 2 0] last ∧ FreedOnce last := by
  have computed : (((Call.strdup [0x61]).next firstFit (Pool.start ())).bind
      ((Call.readMemString (procMem [0x61, 0x62, 0]) 2 0).next firstFit)).isSome = true := by
    decide +kernel
  obtain ⟨last, computed⟩ := Option.isSome_iff_exists.mp computed
  obtain ⟨copied, first, second⟩ := Option.bind_eq_some_iff.mp computed
  have run : Run (Call.Leads firstFit) (Pool.start ())
      [.strdup [0x61], .readMemString (procMem [0x61, 0x62, 0]) 2 0] last :=
    (Run.single (Call.leads_of_next first)).trans (Run.single (Call.leads_of_next second))
  refine ⟨last, run, freed_once run ?_⟩
  intro call member
  rcases List.mem_cons.mp member with rfl | member
  · trivial
  · obtain rfl := List.mem_singleton.mp member
    rintro _ ⟨count, read, failed⟩
    rcases Nat.lt_or_ge count 2 with short | long
    · have fails : count = 0 ∨ count = 1 := by omega
      rcases fails with rfl | rfl
      · exact absurd failed (by decide)
      · exact absurd failed (by decide)
    · obtain ⟨c, rest, notEnd, answer⟩ := read 2 long
      have ends : (procMem [0x61, 0x62, 0]).pread (0 + BitVec.ofNat 64 2) 1 = some [0] := by decide
      rw [ends] at answer
      cases answer
      exact notEnd rfl

/-- A string that breaks off behind its first character: its buffer is freed, and
still in the list. -/
theorem freed_twice :
    ∃ last, Call.Leads firstFit (.readMemString (procMem [0x61]) 1 0) (Pool.start ()) last ∧
      last.list.map MyPtrList.ptr = [16, 16] ∧ (∃ after, tmpFreeAll last = .fault after) ∧
      ¬ FreedOnce last := by
  have computed : ((Call.readMemString (procMem [0x61]) 1 0).next firstFit (Pool.start ())).map
      (fun last => (last.list.map MyPtrList.ptr,
        match tmpFreeAll last with
        | .fault _ => true
        | .ok _ _ | .throw _ _ | .noReturn _ => false)) = some ([16, 16], true) := by
    decide +kernel
  obtain ⟨last, next, values⟩ := Option.map_eq_some_iff.mp computed
  obtain ⟨list, faults⟩ := Prod.mk.inj values
  have undefined : ∃ after, tmpFreeAll last = .fault after := by
    split at faults
    · next after ends => exact ⟨after, ends⟩
    all_goals cases faults
  refine ⟨last, Call.leads_of_next next, list, undefined, ?_⟩
  intro once
  obtain ⟨after, _, returns, _⟩ := once.frees
  obtain ⟨stuck, faults⟩ := undefined
  rw [faults] at returns
  cases returns

end MyDbg.Utils
