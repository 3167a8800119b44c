import MyDbg.Lib.Transition
import MyDbg.Utils.Memory
import MyDbg.Utils.PointerArrays

/-!
Contract: arrays that grow one element at a time, between other calls.

Owns: what `tmp_realloc` returns for any two sizes, in place or by a copy, and
when it does; the calls others make to the temporary allocator, which leave
alone what they do not touch; the runs of a loop that grows an array among
such calls; and `add_char` as the body of such a loop.

Does not own: the loops over words.
-/

namespace MyDbg.Utils

open LittleEndian Ownership ProgramLogic Transition

/-! ## `tmp_realloc` -/

/-- A block of size `newSize` with the first bytes of the old one; no other block
has changed. -/
structure Reallocated (old : Ptr) (block : Block) (oldSize newSize : Nat) (before : Heap)
    (ptr : Ptr) (after : Heap) : Prop where
  notNull : ptr ≠ 0
  place : ptr = old ∨ before ptr = none
  found : ∃ content, after ptr = some content ∧ content.length = newSize ∧
    content.take (min oldSize newSize) = block.take (min oldSize newSize)
  kept : Beside old before after

/-- The block is not the head of the list, or its size does not become 0. -/
def StaysLive {κ : Type} (pool : Pool κ) (old : Ptr) (newSize : Nat) : Prop :=
  newSize ≠ 0 ∨ old = 0 ∨ pool.list.head?.any (·.ptr == old) = false

section Realloc

variable {κ : Type} {allocator : Allocator κ} {pool : Pool κ} {old : Ptr} {block : Block}
  {oldSize newSize : Nat}

theorem Block.resize_take {count : Nat} (within : count ≤ block.length) :
    (Block.resize block newSize).take (min count newSize) = block.take (min count newSize) := by
  have early : min count newSize ≤ (block.take newSize).length := by
    rw [List.length_take]
    omega
  rw [Block.resize, List.take_append_of_le_length early, List.take_take]
  congr 1
  omega

theorem Replaces.reallocated {before after : Heap} {ptr : Ptr} (within : oldSize ≤ block.length)
    (replaces : Replaces old (Block.resize block newSize) before after ptr ∨
      Replaces old (Block.resize (block.take oldSize) newSize) before after ptr) :
    Reallocated old block oldSize newSize before ptr after := by
  rcases replaces with inPlace | copied
  · exact ⟨inPlace.notNull, inPlace.place,
      ⟨_, inPlace.found, Block.resize_length _ _, Block.resize_take within⟩, inPlace.kept⟩
  · refine ⟨copied.notNull, copied.place,
      ⟨_, copied.found, Block.resize_length _ _, ?_⟩, copied.kept⟩
    have part : oldSize ≤ (block.take oldSize).length := by
      rw [List.length_take]
      omega
    rw [Block.resize_take part, List.take_take]
    congr 1
    omega

theorem given_tmpRealloc_any (has : Has pool.heap old block) (within : oldSize ≤ block.length)
    (stays : StaysLive pool old newSize) :
    wp (tmpRealloc allocator old oldSize newSize)
      (Given pool.refusals fun ptr after =>
        Reallocated old block oldSize newSize pool.heap ptr after.heap) pool := by
  have live : newSize = 0 → old ≠ 0 → pool.list.head?.any (·.ptr == old) = false := by
    intro zero notNull
    rcases stays with positive | null | other
    · exact absurd zero positive
    · exact absurd null notNull
    · exact other
  apply given_mono (given_tmpRealloc_replaces has within live)
  intro ptr after replaces
  exact Replaces.reallocated within replaces

/-- Size 0 frees the head of the list, which is taken for a lack of memory. -/
theorem tmpRealloc_frees (allocator : Allocator κ) (oldSize : Nat)
    (has : Has pool.heap old block) (lost : ¬ StaysLive pool old newSize) :
    ∃ after, tmpRealloc allocator old oldSize newSize pool = .throw .memoryException after := by
  simp only [StaysLive, not_or, not_not, Bool.not_eq_false] at lost
  obtain ⟨rfl, notNull, head⟩ := lost
  rw [Has, if_neg notNull] at has
  have freed : cFree old pool =
      .ok () { pool with heap := drop pool.heap old, freed := old :: pool.freed } := by
    unfold cFree
    rw [if_neg notNull, if_pos (by rw [has]; rfl)]
  have frees : cRealloc allocator old 0 pool =
      .ok 0 { pool with heap := drop pool.heap old, freed := old :: pool.freed } := by
    unfold cRealloc
    rw [if_neg notNull, if_pos rfl]
    exact Program.bind_ok freed
  have start : (Program.gets Pool.list : Tmp κ _) pool = .ok pool.list pool := rfl
  unfold tmpRealloc
  rw [Program.bind_ok start, if_pos head, Program.bind_ok frees]
  exact ⟨_, rfl⟩

end Realloc

/-! ## Other calls -/

/-- What is done between two steps of a loop: a call of the allocator, or a store. -/
inductive PoolCall where
  | malloc (size : Nat)
  | calloc (nmemb size : Nat)
  | realloc (oldPtr : Ptr) (oldSize newSize : Nat)
  | strdup (s : List Byte)
  | store (ptr : Ptr) (offset : Nat) (cells : Block)

/-- The blocks a call is passed. -/
def PoolCall.touched : PoolCall → List Ptr
  | .realloc oldPtr _ _ => inHand oldPtr
  | .store ptr _ _ => [ptr]
  | _ => []

section Calls

variable {κ : Type} (allocator : Allocator κ)

def PoolCall.exec : PoolCall → Tmp κ Unit
  | .malloc size => do let _ ← tmpMalloc allocator size
  | .calloc nmemb size => do let _ ← tmpCalloc allocator nmemb size
  | .realloc oldPtr oldSize newSize => do let _ ← tmpRealloc allocator oldPtr oldSize newSize
  | .strdup s => do let _ ← tmpStrdup allocator s
  | .store ptr offset cells => storeCells ptr offset cells

end Calls

/-- The block at `ptr` is live, with these contents. -/
abbrev Live {κ : Type} (ptr : Ptr) (block : Block) (pool : Pool κ) : Prop :=
  pool.heap ptr = some block

section Spared

variable {κ α : Type} {allocator : Allocator κ} {pool : Pool κ} {ptr other : Ptr} {block : Block}

theorem preserves_cMalloc (size : Nat) :
    Preserves (Live other block) (cMalloc allocator size : Tmp κ Ptr) := by
  intro pool live
  unfold cMalloc
  have fresh := allocator.malloc_fresh pool.alloc pool.heap size
  cases answers : allocator.malloc pool.alloc pool.heap size with
  | mk chosen alloc =>
      rw [answers] at fresh
      cases chosen with
      | none => exact live
      | some ptr => exact retains_put (fresh ptr rfl).2 other block live

theorem preserves_cCalloc (nmemb size : Nat) :
    Preserves (Live other block) (cCalloc allocator nmemb size : Tmp κ Ptr) := by
  intro pool live
  unfold cCalloc
  by_cases small : nmemb * size < 2 ^ 64
  · rw [if_pos small]
    have fresh := allocator.malloc_fresh pool.alloc pool.heap (nmemb * size)
    cases answers : allocator.malloc pool.alloc pool.heap (nmemb * size) with
    | mk chosen alloc =>
        rw [answers] at fresh
        cases chosen with
        | none => exact live
        | some ptr => exact retains_put (fresh ptr rfl).2 other block live
  · rw [if_neg small]
    exact live

theorem preserves_cFree (apart : other ∉ inHand ptr) :
    Preserves (Live other block) (cFree ptr : Tmp κ Unit) := by
  intro pool live
  unfold cFree
  by_cases null : ptr = 0
  · rw [if_pos null]
    exact live
  · rw [if_neg null]
    rw [inHand_of_ne null, List.mem_singleton] at apart
    split
    · exact (drop_of_ne apart).trans live
    · exact live

theorem preserves_moveBlock {old : Ptr} (apart : other ≠ old) (size : Nat) :
    Preserves (Live other block) (moveBlock allocator old size : Tmp κ Ptr) := by
  intro pool live
  unfold moveBlock
  cases found : pool.heap old with
  | none => exact live
  | some held =>
      have fresh := allocator.realloc_fresh pool.alloc pool.heap old size
      dsimp only
      cases answers : allocator.realloc pool.alloc pool.heap old size with
      | mk chosen alloc =>
          rw [answers] at fresh
          cases chosen with
          | none => exact (live : pool.heap other = some block)
          | some ptr =>
              have elsewhere : other ≠ ptr := by
                rintro rfl
                rcases (fresh other rfl).2 with same | free
                · exact apart same
                · rw [Live, free] at live
                  cases live
              exact (put_of_ne elsewhere).trans ((drop_of_ne apart).trans live)

theorem preserves_cRealloc {old : Ptr} (apart : other ∉ inHand old) (size : Nat) :
    Preserves (Live other block) (cRealloc allocator old size : Tmp κ Ptr) := by
  unfold cRealloc
  by_cases null : old = 0
  · rw [if_pos null]
    exact preserves_cMalloc size
  · rw [if_neg null]
    refine .ite ((preserves_cFree apart).bind fun _ => .pure 0) ?_
    rw [inHand_of_ne null, List.mem_singleton] at apart
    exact preserves_moveBlock apart size

theorem preserves_addPtr (ptr : Ptr) :
    Preserves (Live other block) (addPtr allocator ptr : Tmp κ Unit) :=
  (preserves_cMalloc _).bind fun _ => .ite .noReturn fun _ live => live

theorem preserves_keepPtr (ptr : Ptr) :
    Preserves (Live other block) (keepPtr allocator ptr : Tmp κ Ptr) :=
  .ite (.throw _) ((preserves_addPtr ptr).bind fun _ => .pure ptr)

theorem preserves_cMemcpy {dest : Ptr} (apart : other ≠ dest) (src : Ptr) (size : Nat) :
    Preserves (Live other block) (cMemcpy dest src size : Tmp κ Unit) := by
  intro pool live
  unfold cMemcpy
  cases pool.heap src with
  | none => exact live
  | some held =>
      dsimp only
      by_cases within : size ≤ held.length
      · rw [if_pos within]
        exact preserves_storeCells apart 0 (held.take size) pool live
      · rw [if_neg within]
        exact live

theorem wp_live {program : Tmp κ α} (preserves : Preserves (Live other block) program)
    (live : Live other block pool) :
    wp program (.onReturn fun _ after => Live other block after) pool :=
  wp_onReturn (preserves.wp live) fun _ _ kept => kept

/-- What is allocated is another block. -/
theorem wp_cMalloc_other (size : Nat) (notNull : other ≠ 0) (live : Live other block pool) :
    wp (cMalloc allocator size)
      (.onReturn fun ptr after => other ≠ ptr ∧ Live other block after) pool := by
  apply wp_onReturn (answers_cMalloc size)
  intro ptr after answered
  change if ptr = 0 then _ else _ at answered
  by_cases null : ptr = 0
  · rw [if_pos null] at answered
    rw [null, Live, answered.2]
    exact ⟨notNull, live⟩
  · rw [if_neg null] at answered
    obtain ⟨_, fresh⟩ := answered
    exact ⟨fresh.ne live, fresh.kept other block live⟩

theorem spares_tmpRealloc {old : Ptr} (oldSize newSize : Nat) (notNull : other ≠ 0)
    (apart : other ∉ inHand old) (live : Live other block pool) :
    wp (tmpRealloc allocator old oldSize newSize)
      (.onReturn fun _ after => Live other block after) pool := by
  unfold tmpRealloc
  rw [wp_bind, wp_gets]
  change wp (if pool.list.head?.any (·.ptr == old) then _ else _) _ pool
  rw [wp_ite]
  constructor
  · intro _
    have resizes : Preserves (Live other block) (do
        let ptr ← cRealloc allocator old newSize
        setHead ptr
        if ptr = 0 then Program.throw .memoryException else return ptr : Tmp κ Ptr) :=
      (preserves_cRealloc apart newSize).bind fun ptr =>
        Preserves.bind (fun _ live => live) fun _ => .ite (.throw _) (.pure ptr)
    exact wp_live resizes live
  · intro _
    rw [wp_bind]
    refine wp_mono (wp_cMalloc_other newSize notNull live) ⟨fun ptr middle kept => ?_,
      fun _ _ _ => trivial, fun _ _ => trivial, fun _ _ => trivial⟩
    obtain ⟨elsewhere, live⟩ := kept
    have copies : Preserves (Live other block) (do
        let _ ← keepPtr allocator ptr
        Program.when (old != 0) (cMemcpy ptr old (min oldSize newSize))
        return ptr : Tmp κ Ptr) :=
      (preserves_keepPtr ptr).bind fun _ =>
        (Preserves.when _ (preserves_cMemcpy elsewhere old _)).bind fun _ => .pure ptr
    exact wp_live copies live

/-- A block that a call is not passed stays as it is. -/
theorem PoolCall.spares (call : PoolCall) (notNull : other ≠ 0) (apart : other ∉ call.touched)
    (live : Live other block pool) :
    wp (call.exec allocator) (.onReturn fun _ after => Live other block after) pool := by
  cases call with
  | malloc size =>
      have kept : Preserves (Live other block) ((PoolCall.malloc size).exec allocator) :=
        ((preserves_cMalloc size).bind fun ptr => preserves_keepPtr ptr).bind fun _ => .pure ()
      exact wp_live kept live
  | calloc nmemb size =>
      have kept : Preserves (Live other block) ((PoolCall.calloc nmemb size).exec allocator) :=
        ((preserves_cCalloc nmemb size).bind fun ptr => preserves_keepPtr ptr).bind
          fun _ => .pure ()
      exact wp_live kept live
  | realloc oldPtr oldSize newSize =>
      change wp (tmpRealloc allocator oldPtr oldSize newSize >>= fun _ => pure ()) _ _
      rw [wp_bind]
      exact wp_onReturn (spares_tmpRealloc oldSize newSize notNull apart live) fun _ _ kept => kept
  | strdup s =>
      change wp (tmpStrdup allocator s >>= fun _ => pure ()) _ _
      unfold tmpStrdup
      rw [wp_bind, wp_bind]
      refine wp_onReturn (given_tmpMalloc (s.length + 1)) fun ptr middle given => ?_
      obtain ⟨_, fresh⟩ := given
      have stores : Preserves (Live other block) (do
          storeCells ptr 0 ((s ++ [0]).map some)
          return ptr : Tmp κ Ptr) :=
        (preserves_storeCells (fresh.ne live) 0 _).bind fun _ => .pure ptr
      exact wp_live stores (fresh.kept other block live)
  | store ptr offset cells =>
      have elsewhere : other ≠ ptr := fun same => apart (List.mem_singleton.mpr same)
      exact wp_live (preserves_storeCells elsewhere offset cells) live

end Spared

/-! ## Runs of a loop -/

/-- A loop that appends one element in each turn. `Holds` says of which elements the array
consists, and which blocks the array and the elements are stored in. -/
structure Growth {κ : Type} (allocator : Allocator κ) (Vars Elem : Type) where
  push : Vars → Elem → Tmp κ Vars
  /-- The size that is passed to `tmp_realloc`. -/
  newSize : Vars → Nat
  Holds : Vars → List Elem → List Ptr → Heap → Prop
  /-- What a turn reads is there, and in no block of the array. -/
  Ready : Elem → List Ptr → Heap → Prop
  notNull : ∀ {vars elems owned heap}, Holds vars elems owned heap → 0 ∉ owned
  spared : ∀ {vars elems owned before after}, Holds vars elems owned before →
    (∀ ptr ∈ owned, ∀ block, before ptr = some block → after ptr = some block) →
    Holds vars elems owned after
  pushes : ∀ {vars elems owned elem} {pool : Pool κ}, Holds vars elems owned pool.heap →
    Ready elem owned pool.heap → newSize vars ≠ 0 →
    wp (push vars elem) (Given pool.refusals fun vars after =>
      ∃ owned, Holds vars (elems ++ [elem]) owned after.heap) pool

inductive GrowthEvent (Elem : Type) where
  | push (elem : Elem)
  | call (call : PoolCall)

/-- The elements that were pushed, oldest first. -/
def pushed {Elem : Type} : List (GrowthEvent Elem) → List Elem
  | [] => []
  | .push elem :: rest => elem :: pushed rest
  | .call _ :: rest => pushed rest

structure Growing (κ Vars : Type) where
  pool : Pool κ
  vars : Vars

namespace Growth

variable {κ Vars Elem : Type} {allocator : Allocator κ} (loop : Growth allocator Vars Elem)

/-- A turn that returns, or a call that returns and is passed no block of the array. -/
def Step : GrowthEvent Elem → Growing κ Vars → Growing κ Vars → Prop
  | .push elem, before, after =>
      loop.newSize before.vars ≠ 0 ∧
        (∀ elems owned, loop.Holds before.vars elems owned before.pool.heap →
          loop.Ready elem owned before.pool.heap) ∧
        loop.push before.vars elem before.pool = .ok after.vars after.pool
  | .call call, before, after =>
      (∀ elems owned, loop.Holds before.vars elems owned before.pool.heap →
        ∀ ptr ∈ owned, ptr ∉ call.touched) ∧
        call.exec allocator before.pool = .ok () after.pool ∧ after.vars = before.vars

/-- The array consists of the elements pushed, however the turns and other calls alternate;
and one more can be pushed, unless memory is exhausted. -/
def Yields : Prop :=
  ∀ first events last, (∃ owned, loop.Holds first.vars [] owned first.pool.heap) →
    Run loop.Step first events last →
    ∃ owned, loop.Holds last.vars (pushed events) owned last.pool.heap ∧
      ∀ elem, loop.Ready elem owned last.pool.heap → loop.newSize last.vars ≠ 0 →
        wp (loop.push last.vars elem) (Given last.pool.refusals fun vars after =>
          ∃ owned, loop.Holds vars (pushed events ++ [elem]) owned after.heap) last.pool

variable {loop} {before after : Growing κ Vars} {elems : List Elem} {owned : List Ptr}

theorem pushed_append (events more : List (GrowthEvent Elem)) :
    pushed (events ++ more) = pushed events ++ pushed more := by
  induction events with
  | nil => rfl
  | cons event events inductionHypothesis =>
      cases event with
      | push elem => exact congrArg (elem :: ·) inductionHypothesis
      | call call => exact inductionHypothesis

theorem holds_push {elem : Elem} (holds : loop.Holds before.vars elems owned before.pool.heap)
    (step : loop.Step (.push elem) before after) :
    ∃ owned, loop.Holds after.vars (elems ++ [elem]) owned after.pool.heap := by
  obtain ⟨positive, ready, returns⟩ := step
  exact ((loop.pushes holds (ready elems owned holds) positive).ok returns).2

theorem holds_call {call : PoolCall} (holds : loop.Holds before.vars elems owned before.pool.heap)
    (step : loop.Step (.call call) before after) :
    loop.Holds after.vars elems owned after.pool.heap := by
  obtain ⟨apart, returns, same⟩ := step
  rw [same]
  apply loop.spared holds
  intro ptr member block live
  have notNull : ptr ≠ 0 := by
    rintro rfl
    exact loop.notNull holds member
  exact (call.spares notNull (apart elems owned holds ptr member) live).ok returns

theorem holds_run {first last : Growing κ Vars} {events : List (GrowthEvent Elem)}
    (start : ∃ owned, loop.Holds first.vars [] owned first.pool.heap)
    (run : Run loop.Step first events last) :
    ∃ owned, loop.Holds last.vars (pushed events) owned last.pool.heap := by
  induction run with
  | refl => exact start
  | @tail events middle last event _ step inductionHypothesis =>
      obtain ⟨owned, holds⟩ := inductionHypothesis
      rw [pushed_append]
      cases event with
      | push elem => exact holds_push holds step
      | call call =>
          have same := holds_call holds step
          rw [pushed, pushed, List.append_nil]
          exact ⟨owned, same⟩

theorem yields (loop : Growth allocator Vars Elem) : loop.Yields := by
  intro first events last start run
  obtain ⟨owned, holds⟩ := holds_run start run
  exact ⟨owned, holds, fun elem ready positive => loop.pushes holds ready positive⟩

end Growth

/-! ## `add_char` -/

section Chars

variable {κ : Type} {allocator : Allocator κ} {pool : Pool κ} {buf : Ptr} {chars : List Byte}

def charCells (chars : List Byte) : Block := chars.map some

@[simp] theorem charCells_length (chars : List Byte) : (charCells chars).length = chars.length :=
  List.length_map _

/-- The buffer grows by one character, in place or not. -/
theorem given_addChar (has : Has pool.heap buf (charCells chars))
    (small : chars.length + 1 < 2 ^ 64) (c : Byte) :
    wp (addChar allocator buf (BitVec.ofNat 64 chars.length) c)
      (Given pool.refusals fun grown after => grown.2 = BitVec.ofNat 64 (chars.length + 1) ∧
        grown.1 ≠ 0 ∧ after.heap grown.1 = some (charCells (chars ++ [c])) ∧
          Moved buf pool.heap grown.1 after.heap) pool := by
  have length : (BitVec.ofNat 64 chars.length).toNat = chars.length := by
    rw [BitVec.toNat_ofNat]
    omega
  have next : BitVec.ofNat 64 chars.length + 1 = BitVec.ofNat 64 (chars.length + 1) := by
    rw [BitVec.ofNat_add]
    rfl
  have size : (BitVec.ofNat 64 (chars.length + 1)).toNat = chars.length + 1 := by
    rw [BitVec.toNat_ofNat]
    omega
  unfold addChar
  rw [next, length, size]
  apply given_bind (given_tmpRealloc has (charCells_length chars).symm
    (by rw [charCells_length]; omega) (by omega))
  intro ptr middle grown
  have stores := storeCells_ok (charCells chars) [some c] grown.found
    (by rw [charCells_length, List.length_replicate, List.length_singleton]; omega)
  rw [charCells_length, List.drop_replicate] at stores
  change wp (storeCells ptr chars.length [some c] >>= _) _ _
  rw [wp_bind_ok stores]
  have full : chars.length + 1 - chars.length - [some c].length = 0 := by
    rw [List.length_singleton]
    omega
  have cells : charCells chars ++ [some c] = charCells (chars ++ [c]) := by
    rw [charCells, charCells, List.map_append]
    rfl
  refine ⟨rfl, rfl, grown.notNull, ?_, grown.place, ?_⟩
  · change put _ _ _ _ = _
    rw [put_self, full, List.replicate_zero, List.append_nil, cells]
  · intro other held apart found
    exact (put_of_ne (grown.moved.ne found apart)).trans (grown.kept other held apart found)

/-- `buf` and `length`. -/
structure HoldsChars (vars : Ptr × Word) (chars : List Byte) (owned : List Ptr) (heap : Heap) :
    Prop where
  length : vars.2 = BitVec.ofNat 64 chars.length
  small : chars.length < 2 ^ 64
  has : Has heap vars.1 (charCells chars)
  owned : owned = inHand vars.1

theorem inHand_notNull (ptr : Ptr) : 0 ∉ inHand ptr := by
  by_cases null : ptr = 0
  · rw [null]
    exact List.not_mem_nil
  · rw [inHand_of_ne null, List.mem_singleton]
    exact Ne.symm null

theorem Has.spared {before after : Heap} {ptr : Ptr} {block : Block} (has : Has before ptr block)
    (kept : ∀ other ∈ inHand ptr, ∀ held, before other = some held → after other = some held) :
    Has after ptr block := by
  unfold Has at has ⊢
  by_cases null : ptr = 0
  · rwa [if_pos null] at has ⊢
  · rw [if_neg null] at has ⊢
    rw [inHand_of_ne null] at kept
    exact kept ptr List.mem_cons_self block has

def addCharLoop (allocator : Allocator κ) : Growth allocator (Ptr × Word) Byte where
  push vars c := addChar allocator vars.1 vars.2 c
  newSize vars := (vars.2 + 1).toNat
  Holds := HoldsChars
  Ready _ _ _ := True
  notNull holds := by
    rw [holds.owned]
    exact inHand_notNull _
  spared holds kept := by
    rw [holds.owned] at kept
    exact ⟨holds.length, holds.small, holds.has.spared kept, holds.owned⟩
  pushes := by
    intro vars chars owned c pool holds _ positive
    obtain ⟨buf, length⟩ := vars
    obtain ⟨rfl, small, has, rfl⟩ := holds
    have fits : chars.length + 1 < 2 ^ 64 := by
      by_contra large
      have last : chars.length = 2 ^ 64 - 1 := by omega
      apply positive
      dsimp only
      rw [last]
      decide
    apply given_mono (given_addChar has fits c)
    rintro ⟨ptr, next⟩ after ⟨same, notNull, found, _⟩
    refine ⟨_, ⟨?_, ?_, ?_, rfl⟩⟩
    · rw [List.length_append, List.length_singleton]
      exact same
    · rw [List.length_append, List.length_singleton]
      exact fits
    · rw [Has, if_neg notNull]
      exact found

end Chars

end MyDbg.Utils
