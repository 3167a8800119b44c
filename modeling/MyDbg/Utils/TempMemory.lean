import MyDbg.Exceptions.Basic
import MyDbg.Lib.LittleEndian
import MyDbg.Lib.Ownership
import MyDbg.Lib.Program

/-!
Contract: `temp_memory_utils.c` on the C library's allocator.

Owns: the heap, with the bytes of each block; `malloc`, `calloc`, `realloc`,
`free` and `memcpy` as glibc documents them, the choice of addresses being a
parameter; and `add_ptr`, `tmp_free_all`, `tmp_malloc`, `tmp_calloc`,
`tmp_realloc` and `tmp_strdup`. Freeing, or copying from, what is no live block
is undefined behaviour.

Does not own: what is stored in a block, and by whom.
-/

namespace MyDbg.Utils

open LittleEndian Ownership ProgramLogic

/-! ## Heap -/

abbrev Ptr := Word

/-- The bytes of a block; `none` is one that was never written. -/
abbrev Block := List (Option Byte)

/-- The blocks that are live. -/
abbrev Heap := Ptr → Option Block

/-- The addresses the allocator chooses, if it has any: never NULL, and none that is
in use. `realloc` may stay where it is. -/
structure Allocator (κ : Type) where
  malloc : κ → Heap → Nat → Option Ptr × κ
  realloc : κ → Heap → Ptr → Nat → Option Ptr × κ
  malloc_fresh : ∀ alloc heap size ptr, (malloc alloc heap size).1 = some ptr →
    ptr ≠ 0 ∧ heap ptr = none
  realloc_fresh : ∀ alloc heap old size ptr, (realloc alloc heap old size).1 = some ptr →
    ptr ≠ 0 ∧ (ptr = old ∨ heap ptr = none)

/-- `struct my_ptr_list`, with the address of the node itself. -/
structure MyPtrList where
  node : Ptr
  ptr : Ptr
deriving DecidableEq, Repr

structure Pool (κ : Type) where
  alloc : κ
  heap : Heap
  /-- `list`, its head first. -/
  list : List MyPtrList
  /-- What was passed to `free`, NULL apart, newest first. Nothing reads it. -/
  freed : List Ptr
  /-- How often `malloc`, `calloc` or `realloc` had no memory. Nothing reads it. -/
  refusals : Nat

abbrev Tmp (κ : Type) := Program MyException (Pool κ)

variable {κ : Type} (allocator : Allocator κ)

/-! ## The C library -/

/-- NULL is returned for lack of memory. -/
def Pool.refused (pool : Pool κ) (alloc : κ) : Pool κ :=
  { pool with alloc := alloc, refusals := pool.refusals + 1 }

/-- `malloc`. -/
def cMalloc (size : Nat) : Tmp κ Ptr := fun pool =>
  match allocator.malloc pool.alloc pool.heap size with
  | (some ptr, alloc) =>
      .ok ptr { pool with alloc := alloc, heap := put pool.heap ptr (List.replicate size none) }
  | (none, alloc) => .ok 0 (pool.refused alloc)

/-- `calloc`: NULL where the product overflows. -/
def cCalloc (nmemb size : Nat) : Tmp κ Ptr := fun pool =>
  if nmemb * size < 2 ^ 64 then
    match allocator.malloc pool.alloc pool.heap (nmemb * size) with
    | (some ptr, alloc) =>
        .ok ptr { pool with
          alloc := alloc
          heap := put pool.heap ptr (List.replicate (nmemb * size) (some 0)) }
    | (none, alloc) => .ok 0 (pool.refused alloc)
  else
    .ok 0 (pool.refused pool.alloc)

/-- `free`. -/
def cFree (ptr : Ptr) : Tmp κ Unit := fun pool =>
  if ptr = 0 then
    .ok () pool
  else if (pool.heap ptr).isSome then
    .ok () { pool with heap := drop pool.heap ptr, freed := ptr :: pool.freed }
  else
    .fault pool

/-- A block with its size changed. -/
def Block.resize (block : Block) (size : Nat) : Block :=
  block.take size ++ List.replicate (size - block.length) none

/-- A block is moved, or left alone where there is no room. -/
def moveBlock (old : Ptr) (size : Nat) : Tmp κ Ptr := fun pool =>
  match pool.heap old with
  | none => .fault pool
  | some block =>
      match allocator.realloc pool.alloc pool.heap old size with
      | (some ptr, alloc) =>
          .ok ptr { pool with
            alloc := alloc
            heap := put (drop pool.heap old) ptr (Block.resize block size) }
      | (none, alloc) => .ok 0 (pool.refused alloc)

/-- `realloc`; size 0 frees the block. -/
def cRealloc (old : Ptr) (size : Nat) : Tmp κ Ptr :=
  if old = 0 then
    cMalloc allocator size
  else if size = 0 then do
    cFree old
    return 0
  else
    moveBlock allocator old size

/-- Bytes are written into a block from `offset` on. -/
def storeCells (ptr : Ptr) (offset : Nat) (cells : Block) : Tmp κ Unit := fun pool =>
  match pool.heap ptr with
  | none => .fault pool
  | some block =>
      if offset + cells.length ≤ block.length then
        .ok () { pool with
          heap := put pool.heap ptr
            (block.take offset ++ cells ++ block.drop (offset + cells.length)) }
      else
        .fault pool

/-- `memcpy` from the start of a block to the start of another one. -/
def cMemcpy (dest src : Ptr) (size : Nat) : Tmp κ Unit := fun pool =>
  match pool.heap src with
  | none => .fault pool
  | some block =>
      if size ≤ block.length then
        storeCells dest 0 (block.take size) pool
      else
        .fault pool

/-! ## The temporary list -/

/-- `sizeof(struct my_ptr_list)`. -/
def sizeofMyPtrList : Nat := 16

/-- `add_ptr`; `my_malloc` exits the debugger where it gets no memory. -/
def addPtr (ptr : Ptr) : Tmp κ Unit := do
  let l ← cMalloc allocator sizeofMyPtrList
  if l = 0 then
    Program.noReturn
  else
    Program.modify fun pool => { pool with list := ⟨l, ptr⟩ :: pool.list }

/-- `l->next` and `l->ptr` are read from the node. -/
def readNode (l : MyPtrList) : Tmp κ Unit := fun pool =>
  if (pool.heap l.node).isSome then .ok () pool else .fault pool

def tmpFreeRec : List MyPtrList → Tmp κ Unit
  | [] => pure ()
  | l :: next => do
      readNode l
      cFree l.ptr
      cFree l.node
      tmpFreeRec next

def tmpFreeAll : Tmp κ Unit := do
  let list ← Program.gets Pool.list
  tmpFreeRec list
  Program.modify fun pool => { pool with list := [] }

/-- The tail of `tmp_malloc` and `tmp_calloc`. -/
def keepPtr (ptr : Ptr) : Tmp κ Ptr := do
  if ptr = 0 then
    Program.throw .memoryException
  else
    addPtr allocator ptr
    return ptr

def tmpMalloc (size : Nat) : Tmp κ Ptr := do
  let ptr ← cMalloc allocator size
  keepPtr allocator ptr

def tmpCalloc (nmemb size : Nat) : Tmp κ Ptr := do
  let ptr ← cCalloc allocator nmemb size
  keepPtr allocator ptr

/-- `list->ptr = ptr`. -/
def setHead (ptr : Ptr) : Tmp κ Unit :=
  Program.modify fun pool => { pool with list := pool.list.modifyHead ({ · with ptr := ptr }) }

def tmpRealloc (oldPtr : Ptr) (oldSize newSize : Nat) : Tmp κ Ptr := do
  let list ← Program.gets Pool.list
  if list.head?.any (·.ptr == oldPtr) then
    let ptr ← cRealloc allocator oldPtr newSize
    setHead ptr
    if ptr = 0 then
      Program.throw .memoryException
    else
      return ptr
  else
    let ptr ← cMalloc allocator newSize
    let _ ← keepPtr allocator ptr
    Program.when (oldPtr != 0) (cMemcpy ptr oldPtr (min oldSize newSize))
    return ptr

/-- `tmp_strdup`, of the bytes before the NUL. -/
def tmpStrdup (s : List Byte) : Tmp κ Ptr := do
  let s2 ← tmpMalloc allocator (s.length + 1)
  storeCells s2 0 ((s ++ [0]).map some)
  return s2

/-! ## What the list owns -/

/-- The block at `ptr`, unless it is NULL. -/
def inHand (ptr : Ptr) : List Ptr := if ptr = 0 then [] else [ptr]

/-- What `tmp_free_all` frees, in this order. -/
def blocks : List MyPtrList → List Ptr
  | [] => []
  | l :: next => inHand l.ptr ++ l.node :: blocks next

/-- The blocks `owned` are live, and the list is `list`. -/
structure Holds (owned : List Ptr) (list : List MyPtrList) (pool : Pool κ) : Prop where
  null : pool.heap 0 = none
  owns : Owns pool.heap owned
  same : pool.list = list

/-- The list owns the blocks it points to. -/
def Sound (pool : Pool κ) : Prop := Holds (blocks pool.list) pool.list pool

section Rules

variable {allocator} {owned : List Ptr} {list : List MyPtrList} {pool : Pool κ} {ptr : Ptr}

@[simp] theorem inHand_null : inHand 0 = [] := rfl

theorem inHand_of_ne (notNull : ptr ≠ 0) : inHand ptr = [ptr] := if_neg notNull

theorem Holds.sound (holds : Holds (blocks list) list pool) : Sound pool := by
  unfold Sound
  rw [holds.same]
  exact holds

/-- A fresh block is in hand. -/
theorem Holds.allocated (holds : Holds owned list pool) (alloc : κ) (block : Block)
    (fresh : ptr ≠ 0 ∧ pool.heap ptr = none) :
    Holds (inHand ptr ++ owned) list
      { pool with alloc := alloc, heap := put pool.heap ptr block } := by
  rw [inHand_of_ne fresh.1]
  exact ⟨(put_of_ne fresh.1.symm).trans holds.null, holds.owns.allocate fresh.2, holds.same⟩

/-- What a block holds does not matter. -/
theorem Holds.stored (holds : Holds owned list pool) (live : (pool.heap ptr).isSome)
    (block : Block) : Holds owned list { pool with heap := put pool.heap ptr block } := by
  have notNull : (0 : Ptr) ≠ ptr := by
    rintro rfl
    rw [holds.null] at live
    cases live
  exact ⟨(put_of_ne notNull).trans holds.null, holds.owns.store, holds.same⟩

/-- A call that returns a pointer, or NULL, and cannot go wrong. -/
abbrev Gives (owned : List Ptr) (list : List MyPtrList) : Post MyException (Pool κ) Ptr where
  ok ptr := Holds (inHand ptr ++ owned) list
  throw _ _ := False
  fault _ := False
  noReturn _ := False

theorem wp_cMalloc (size : Nat) (holds : Holds owned list pool) :
    wp (cMalloc allocator size) (Gives owned list) pool := by
  unfold wp cMalloc
  have fresh := allocator.malloc_fresh pool.alloc pool.heap size
  generalize allocator.malloc pool.alloc pool.heap size = answer at fresh
  obtain ⟨chosen, alloc⟩ := answer
  cases chosen with
  | none => exact ⟨holds.null, holds.owns, holds.same⟩
  | some ptr => exact holds.allocated alloc _ (fresh ptr rfl)

theorem wp_cCalloc (nmemb size : Nat) (holds : Holds owned list pool) :
    wp (cCalloc allocator nmemb size) (Gives owned list) pool := by
  unfold wp cCalloc
  split
  · have fresh := allocator.malloc_fresh pool.alloc pool.heap (nmemb * size)
    generalize allocator.malloc pool.alloc pool.heap (nmemb * size) = answer at fresh
    obtain ⟨chosen, alloc⟩ := answer
    cases chosen with
    | none => exact ⟨holds.null, holds.owns, holds.same⟩
    | some ptr => exact holds.allocated alloc _ (fresh ptr rfl)
  · exact ⟨holds.null, holds.owns, holds.same⟩

/-- A block that is in hand is freed, and that is noted. -/
theorem cFree_apply (holds : Holds (inHand ptr ++ owned) list pool) :
    ∃ after, cFree ptr pool = .ok () after ∧ Holds owned list after ∧
      after.freed = inHand ptr ++ pool.freed := by
  unfold cFree
  by_cases null : ptr = 0
  · rw [if_pos null]
    subst null
    exact ⟨pool, rfl, holds, rfl⟩
  · rw [inHand_of_ne null] at holds ⊢
    have live := holds.owns.live ptr List.mem_cons_self
    rw [if_neg null, if_pos live]
    exact ⟨_, rfl, ⟨(drop_of_ne (Ne.symm null)).trans holds.null, holds.owns.release,
      holds.same⟩, rfl⟩

/-- Whether or not the block can be moved, what is returned is in hand. -/
theorem wp_cRealloc {old : Ptr} (size : Nat) (holds : Holds (inHand old ++ owned) list pool) :
    wp (cRealloc allocator old size) (Gives owned list) pool := by
  unfold cRealloc
  by_cases null : old = 0
  · rw [if_pos null]
    subst null
    exact wp_cMalloc size holds
  · rw [if_neg null, wp_ite]
    constructor
    · intro _
      obtain ⟨after, freed, kept, _⟩ := cFree_apply holds
      rw [wp_bind_ok freed]
      exact kept
    · intro _
      rw [inHand_of_ne null] at holds
      obtain ⟨block, found⟩ := Option.isSome_iff_exists.mp (holds.owns.live old List.mem_cons_self)
      have fresh := allocator.realloc_fresh pool.alloc pool.heap old size
      unfold wp moveBlock
      simp only [found]
      generalize allocator.realloc pool.alloc pool.heap old size = answer at fresh
      obtain ⟨chosen, alloc⟩ := answer
      cases chosen with
      | none => exact ⟨holds.null, holds.owns.tail, holds.same⟩
      | some ptr =>
          obtain ⟨notNull, free⟩ := fresh ptr rfl
          show Holds (inHand ptr ++ owned) list _
          rw [inHand_of_ne notNull]
          have null := (drop_of_ne (Ne.symm null)).trans holds.null
          exact ⟨(put_of_ne notNull.symm).trans null, holds.owns.move free, holds.same⟩

/-- `add_ptr` takes over what is in hand. -/
theorem wp_addPtr (holds : Holds (inHand ptr ++ blocks list) list pool) :
    wp (addPtr allocator ptr)
      { ok := fun _ => Sound
        throw := fun _ _ => False
        fault := fun _ => False
        noReturn := fun _ => True } pool := by
  unfold addPtr
  simp only [wp_bind, wp_ite, wp_noReturn, wp_modify]
  refine wp_mono (wp_cMalloc sizeofMyPtrList holds)
    ⟨fun l noded kept => ?_, fun _ _ no => no, fun _ no => no, fun _ no => no.elim⟩
  constructor
  · intro _
    trivial
  · intro notNull
    change Holds (inHand l ++ (inHand ptr ++ blocks list)) list noded at kept
    rw [inHand_of_ne notNull] at kept
    have linked : Holds (blocks (⟨l, ptr⟩ :: list)) (⟨l, ptr⟩ :: list)
        { noded with list := ⟨l, ptr⟩ :: noded.list } := by
      have order : (l :: (inHand ptr ++ blocks list)).Perm (inHand ptr ++ l :: blocks list) :=
        List.perm_middle.symm
      refine ⟨kept.null, kept.owns.perm order, ?_⟩
      rw [kept.same]
    exact linked.sound

/-- What every call does that is not wrong itself. -/
abbrev Keeping {α : Type} (program : Tmp κ α) : Prop := Keeps Sound Sound (fun _ => True) program

theorem wp_keepPtr (holds : Holds (inHand ptr ++ blocks list) list pool) :
    wp (keepPtr allocator ptr)
      { ok := fun kept after => kept = ptr ∧ ptr ≠ 0 ∧ Sound after
        throw := fun _ => Sound
        fault := fun _ => True
        noReturn := fun _ => True } pool := by
  unfold keepPtr
  rw [wp_ite]
  constructor
  · intro null
    subst null
    exact holds.sound
  · intro notNull
    rw [wp_bind]
    exact wp_mono (wp_addPtr holds) ⟨fun _ _ sound => ⟨rfl, notNull, sound⟩, fun _ _ no => no.elim,
      fun _ _ => trivial, fun _ _ => trivial⟩

theorem keeping_tmpMalloc (size : Nat) : Keeping (tmpMalloc allocator size) := by
  intro pool sound
  unfold tmpMalloc
  rw [wp_bind]
  refine wp_mono (wp_cMalloc size sound) ⟨fun ptr _ holds => ?_, fun _ _ no => no.elim,
    fun _ _ => trivial, fun _ _ => trivial⟩
  exact wp_concludes (wp_keepPtr holds) fun _ _ kept => kept.2.2

theorem keeping_tmpCalloc (nmemb size : Nat) : Keeping (tmpCalloc allocator nmemb size) := by
  intro pool sound
  unfold tmpCalloc
  rw [wp_bind]
  refine wp_mono (wp_cCalloc nmemb size sound) ⟨fun ptr _ holds => ?_, fun _ _ no => no.elim,
    fun _ _ => trivial, fun _ _ => trivial⟩
  exact wp_concludes (wp_keepPtr holds) fun _ _ kept => kept.2.2

theorem keeping_storeCells (offset : Nat) (cells : Block) :
    Keeping (storeCells ptr offset cells : Tmp κ Unit) := by
  intro pool sound
  unfold wp storeCells
  cases found : pool.heap ptr with
  | none => trivial
  | some block =>
      dsimp only
      split
      · exact Holds.stored sound (by rw [found]; rfl) _
      · trivial

theorem keeping_cMemcpy (dest src : Ptr) (size : Nat) :
    Keeping (cMemcpy dest src size : Tmp κ Unit) := by
  intro pool sound
  unfold wp cMemcpy
  cases pool.heap src with
  | none => trivial
  | some block =>
      dsimp only
      split
      · exact keeping_storeCells 0 (block.take size) pool sound
      · trivial

theorem keeping_tmpStrdup (s : List Byte) : Keeping (tmpStrdup allocator s) :=
  (keeping_tmpMalloc _).bind fun _ => (keeping_storeCells _ _).bind fun _ => Keeps.pure _

/-- The head of the list moves in place; any other block is copied and stays. -/
theorem wp_tmpRealloc (oldPtr : Ptr) (oldSize newSize : Nat) (sound : Sound pool) :
    wp (tmpRealloc allocator oldPtr oldSize newSize)
      { ok := fun ptr after => ptr ≠ 0 ∧ Sound after
        throw := fun _ => Sound
        fault := fun _ => True
        noReturn := fun _ => True } pool := by
  unfold tmpRealloc
  rw [wp_bind, wp_gets]
  change wp (if pool.list.head?.any (·.ptr == oldPtr) then _ else _) _ pool
  rw [wp_ite]
  constructor
  · intro head
    obtain ⟨l, next, split⟩ : ∃ l next, pool.list = l :: next := by
      cases list : pool.list with
      | nil => simp [list] at head
      | cons l next => exact ⟨l, next, rfl⟩
    have same : l.ptr = oldPtr := by simpa [split] using head
    have holds : Holds (inHand oldPtr ++ l.node :: blocks next) (l :: next) pool := by
      unfold Sound at sound
      rw [split, blocks, same] at sound
      exact sound
    rw [wp_bind]
    refine wp_mono (wp_cRealloc newSize holds) ⟨fun ptr moved kept => ?_, fun _ _ no => no.elim,
      fun _ _ => trivial, fun _ _ => trivial⟩
    have set : Sound { moved with list := moved.list.modifyHead ({ · with ptr := ptr }) } := by
      have linked : Holds (blocks (⟨l.node, ptr⟩ :: next)) (⟨l.node, ptr⟩ :: next)
          { moved with list := moved.list.modifyHead ({ · with ptr := ptr }) } := by
        refine ⟨kept.null, kept.owns, ?_⟩
        rw [kept.same]
        rfl
      exact linked.sound
    unfold setHead
    simp only [wp_bind, wp_modify, wp_ite]
    exact ⟨fun _ => set, fun notNull => ⟨notNull, set⟩⟩
  · intro _
    rw [wp_bind]
    refine wp_mono (wp_cMalloc newSize sound) ⟨fun ptr _ holds => ?_, fun _ _ no => no.elim,
      fun _ _ => trivial, fun _ _ => trivial⟩
    change wp (keepPtr allocator ptr >>= _) _ _
    rw [wp_bind]
    refine wp_concludes (wp_keepPtr holds) fun _ _ kept => ?_
    have copies : Keeping (Program.when (oldPtr != 0)
        (cMemcpy ptr oldPtr (min oldSize newSize)) : Tmp κ Unit) :=
      Keeps.ite (keeping_cMemcpy _ _ _) (.pure ())
    change wp (Program.when (oldPtr != 0) (cMemcpy ptr oldPtr (min oldSize newSize)) >>= _) _ _
    rw [wp_bind]
    exact wp_concludes (copies _ kept.2.2) fun _ _ sound => ⟨kept.2.1, sound⟩

theorem keeping_tmpRealloc (oldPtr : Ptr) (oldSize newSize : Nat) :
    Keeping (tmpRealloc allocator oldPtr oldSize newSize) := by
  intro pool sound
  exact wp_concludes (wp_tmpRealloc oldPtr oldSize newSize sound) fun _ _ kept => kept.2

/-! ## Freeing everything -/

/-- The blocks of the list are freed one by one, and each is live when it is. -/
theorem tmpFreeRec_apply (list kept : List MyPtrList) (holds : Holds (blocks list) kept pool) :
    ∃ after, tmpFreeRec list pool = .ok () after ∧ Holds [] kept after ∧
      after.freed = (blocks list).reverse ++ pool.freed := by
  induction list generalizing pool with
  | nil => exact ⟨pool, rfl, holds, rfl⟩
  | cons l next inductionHypothesis =>
      have live : (pool.heap l.node).isSome := by
        apply holds.owns.live
        unfold blocks
        simp
      have notNull : l.node ≠ 0 := by
        intro null
        rw [null, holds.null] at live
        cases live
      have reads : readNode l pool = .ok () pool := if_pos live
      have owned : Holds (inHand l.ptr ++ l.node :: blocks next) kept pool := holds
      obtain ⟨first, freed, left, noted⟩ := cFree_apply owned
      rw [← List.singleton_append, ← inHand_of_ne notNull] at left
      obtain ⟨second, freed', left', noted'⟩ := cFree_apply left
      obtain ⟨after, rest, empty, noted''⟩ := inductionHypothesis left'
      refine ⟨after, ?_, empty, ?_⟩
      · unfold tmpFreeRec
        rw [Program.bind_ok reads, Program.bind_ok freed, Program.bind_ok freed']
        exact rest
      · rw [noted'', noted', noted, inHand_of_ne notNull, blocks]
        unfold inHand
        split <;> simp

/-- Every block of the list is freed once, and nothing else. -/
theorem tmpFreeAll_apply (sound : Sound pool) :
    ∃ after, tmpFreeAll pool = .ok () after ∧ Sound after ∧ after.list = [] ∧
      after.freed = (blocks pool.list).reverse ++ pool.freed := by
  obtain ⟨freed, ends, empty, noted⟩ := tmpFreeRec_apply pool.list pool.list sound
  refine ⟨{ freed with list := [] }, ?_, ⟨empty.null, .nil, rfl⟩, rfl, noted⟩
  unfold tmpFreeAll
  rw [Program.bind_ok (rfl : Program.gets Pool.list pool = .ok pool.list pool),
    Program.bind_ok ends]
  rfl

end Rules

end MyDbg.Utils
