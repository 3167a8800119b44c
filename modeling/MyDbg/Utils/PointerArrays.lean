import MyDbg.Utils.TempMemory

/-!
Contract: blocks of the heap that hold words.

Owns: the bytes of an array of words, reading and writing one of them; and
what `malloc`, `realloc` and the functions of `temp_memory_utils.c` leave in a
block and in the blocks beside it, NULL being the empty array.

Does not own: what the words are.
-/

namespace MyDbg.Utils

open LittleEndian Ownership ProgramLogic

def wordCells (word : Word) : Block := (leBytes 8 word.toNat).map some

def arrayCells (words : List Word) : Block := words.flatMap wordCells

/-- An array with room for more words. -/
def arrayRoom (words : List Word) (room : Nat) : Block :=
  arrayCells words ++ List.replicate (8 * room) none

/-- `array[index]`, where it is in the block and was written. -/
def wordAt (heap : Heap) (array : Ptr) (index : Nat) : Option Word :=
  match heap array with
  | none => none
  | some block =>
      let cells := (block.drop (8 * index)).take 8
      if cells.length = 8 ∧ cells.all Option.isSome then
        some (BitVec.ofNat 64 (leNat cells.reduceOption))
      else
        none

section Operations

variable {κ : Type}

def loadWord (array : Ptr) (index : Nat) : Tmp κ Word := fun pool =>
  match wordAt pool.heap array index with
  | some word => .ok word pool
  | none => .fault pool

def storeWord (array : Ptr) (index : Nat) (word : Word) : Tmp κ Unit :=
  storeCells array (8 * index) (wordCells word)

end Operations

/-! ## Cells -/

section Cells

variable {heap : Heap} {array : Ptr} {words : List Word} {word : Word} {spare : Block}

@[simp] theorem wordCells_length (word : Word) : (wordCells word).length = 8 := by
  simp [wordCells]

@[simp] theorem arrayCells_nil : arrayCells [] = [] := rfl

theorem arrayCells_cons (word : Word) (words : List Word) :
    arrayCells (word :: words) = wordCells word ++ arrayCells words := List.flatMap_cons

theorem arrayCells_append (words more : List Word) :
    arrayCells (words ++ more) = arrayCells words ++ arrayCells more := List.flatMap_append

theorem arrayCells_singleton (word : Word) : arrayCells [word] = wordCells word := by
  rw [arrayCells_cons, arrayCells_nil, List.append_nil]

@[simp] theorem arrayCells_length (words : List Word) :
    (arrayCells words).length = 8 * words.length := by
  induction words with
  | nil => rfl
  | cons word words inductionHypothesis =>
      rw [arrayCells_cons, List.length_append, wordCells_length, inductionHypothesis,
        List.length_cons]
      omega

@[simp] theorem arrayRoom_zero (words : List Word) : arrayRoom words 0 = arrayCells words :=
  List.append_nil _

@[simp] theorem arrayRoom_length (words : List Word) (room : Nat) :
    (arrayRoom words room).length = 8 * (words.length + room) := by
  rw [arrayRoom, List.length_append, arrayCells_length, List.length_replicate]
  omega

theorem arrayRoom_grow (words : List Word) {room more : Nat} (larger : room ≤ more) :
    arrayRoom words room ++
        List.replicate (8 * (words.length + more) - (arrayRoom words room).length) none =
      arrayRoom words more := by
  have rest : 8 * room + (8 * (words.length + more) - (arrayRoom words room).length) =
      8 * more := by
    rw [arrayRoom_length]
    omega
  rw [arrayRoom, List.append_assoc, List.replicate_append_replicate, ← arrayRoom, rest, arrayRoom]

theorem wordCells_all (word : Word) : (wordCells word).all Option.isSome := by
  simp [wordCells]

theorem wordCells_value (word : Word) :
    BitVec.ofNat 64 (leNat (wordCells word).reduceOption) = word := by
  have whole : (wordCells word).reduceOption = leBytes 8 word.toNat := by
    change ((leBytes 8 word.toNat).map some).filterMap id = _
    rw [List.filterMap_map]
    exact List.filterMap_some
  have fits : word.toNat < 256 ^ 8 := word.isLt
  rw [whole, leNat_leBytes fits, BitVec.ofNat_toNat, BitVec.setWidth_eq]

/-- One of the words, with the others in front and behind. -/
theorem arrayCells_split {index : Nat} (below : index < words.length) :
    arrayCells words = arrayCells (words.take index) ++
        (wordCells words[index] ++ arrayCells (words.drop (index + 1))) ∧
      (arrayCells (words.take index)).length = 8 * index := by
  constructor
  · rw [← arrayCells_cons, ← arrayCells_append, ← List.drop_eq_getElem_cons below,
      List.take_append_drop]
  · rw [arrayCells_length, List.length_take_of_le below.le]

/-- A word that was stored is read back. -/
theorem wordAt_some {index : Nat} (found : heap array = some (arrayCells words ++ spare))
    (inside : words[index]? = some word) : wordAt heap array index = some word := by
  obtain ⟨below, rfl⟩ := List.getElem?_eq_some_iff.mp inside
  obtain ⟨split, early⟩ := arrayCells_split below
  have cells : ((arrayCells words ++ spare).drop (8 * index)).take 8 = wordCells words[index] := by
    rw [split, List.append_assoc, List.append_assoc, List.drop_left' early,
      List.take_left' (wordCells_length _)]
  unfold wordAt
  rw [found]
  simp only [cells, wordCells_length, wordCells_all, and_self, if_true, wordCells_value]

/-- Nothing is read behind the block. -/
theorem wordAt_outside {index : Nat} (found : heap array = some (arrayCells words))
    (outside : words.length ≤ index) : wordAt heap array index = none := by
  have none : (arrayCells words).drop (8 * index) = [] := by
    apply List.drop_eq_nil_of_le
    rw [arrayCells_length]
    omega
  unfold wordAt
  rw [found]
  simp [none]

end Cells

/-! ## Allocation -/

/-- What is live, `old` apart, is still there and holds the same. -/
def Beside (old : Ptr) (before after : Heap) : Prop :=
  ∀ ptr block, ptr ≠ old → before ptr = some block → after ptr = some block

/-- What is live is still there and holds the same. -/
def Retains (before after : Heap) : Prop :=
  ∀ ptr block, before ptr = some block → after ptr = some block

/-- A block, where NULL is the empty one. -/
def Has (heap : Heap) (ptr : Ptr) (block : Block) : Prop :=
  if ptr = 0 then block = [] else heap ptr = some block

section Heaps

variable {first second third : Heap} {ptr old : Ptr} {block : Block}

theorem Retains.trans (early : Retains first second) (late : Retains second third) :
    Retains first third := fun ptr block found => late ptr block (early ptr block found)

theorem Retains.beside (retains : Retains first second) (old : Ptr) : Beside old first second :=
  fun ptr block _ found => retains ptr block found

theorem Beside.trans (early : Beside old first second) (late : Beside old second third) :
    Beside old first third :=
  fun ptr block other found => late ptr block other (early ptr block other found)

theorem retains_put (free : first ptr = none) : Retains first (put first ptr block) := by
  intro other held found
  have apart : other ≠ ptr := by
    rintro rfl
    rw [free] at found
    cases found
  rw [put_of_ne apart]
  exact found

theorem beside_put : Beside ptr first (put first ptr block) := by
  intro other held apart found
  rw [put_of_ne apart]
  exact found

theorem has_put (notNull : ptr ≠ 0) : Has (put first ptr block) ptr block := by
  rw [Has, if_neg notNull]
  exact put_self

theorem Has.extend (has : Has first ptr block) (kept : Retains first second) :
    Has second ptr block := by
  unfold Has at has ⊢
  by_cases null : ptr = 0
  · rwa [if_pos null] at has ⊢
  · rw [if_neg null] at has ⊢
    exact kept ptr block has

end Heaps

section Rules

variable {κ α : Type} {allocator : Allocator κ} {pool : Pool κ} {ptr old : Ptr}

/-- A call, before which memory was refused `refusals` times, returns if it gets all the
memory it asks for, and only then. -/
abbrev Given (refusals : Nat) (ok : α → Pool κ → Prop) : Post MyException (Pool κ) α where
  ok value after := after.refusals = refusals ∧ ok value after
  throw ex after := ex = .memoryException ∧ refusals < after.refusals
  fault _ := False
  noReturn after := refusals < after.refusals

/-- A call of the C library returns. -/
abbrev Answers (ok : α → Pool κ → Prop) : Post MyException (Pool κ) α where
  ok := ok
  throw _ _ := False
  fault _ := False
  noReturn _ := False

theorem answers_mono {program : Tmp κ α} {strong weak : α → Pool κ → Prop}
    (proved : wp program (Answers strong) pool)
    (implies : ∀ value after, strong value after → weak value after) :
    wp program (Answers weak) pool :=
  wp_mono proved ⟨implies, fun _ _ no => no, fun _ no => no, fun _ no => no⟩

theorem given_mono {program : Tmp κ α} {refusals : Nat} {strong weak : α → Pool κ → Prop}
    (proved : wp program (Given refusals strong) pool)
    (implies : ∀ value after, strong value after → weak value after) :
    wp program (Given refusals weak) pool :=
  wp_mono proved ⟨fun value after returned => ⟨returned.1, implies value after returned.2⟩,
    fun _ _ raised => raised, fun _ no => no, fun _ lost => lost⟩

theorem given_bind {β : Type} {program : Tmp κ α} {next : α → Tmp κ β} {refusals : Nat}
    {strong : α → Pool κ → Prop} {weak : β → Pool κ → Prop}
    (proved : wp program (Given refusals strong) pool)
    (rest : ∀ value after, strong value after →
      wp (next value) (Given after.refusals weak) after) :
    wp (program >>= next) (Given refusals weak) pool := by
  rw [wp_bind]
  refine wp_mono proved ⟨fun value after returned => ?_, fun _ _ raised => raised, fun _ no => no,
    fun _ lost => lost⟩
  obtain ⟨same, kept⟩ := returned
  rw [← same]
  exact rest value after kept

/-- A block that was not there, besides everything that was. -/
structure Fresh (before after : Heap) (ptr : Ptr) (block : Block) : Prop where
  notNull : ptr ≠ 0
  free : before ptr = none
  found : after ptr = some block
  kept : Retains before after

theorem fresh_put {heap : Heap} {block : Block} (notNull : ptr ≠ 0) (free : heap ptr = none) :
    Fresh heap (put heap ptr block) ptr block :=
  ⟨notNull, free, put_self, retains_put free⟩

theorem Fresh.ne {before after : Heap} {block held : Block} (fresh : Fresh before after ptr block)
    (found : before old = some held) : old ≠ ptr := by
  rintro rfl
  rw [fresh.free] at found
  cases found

/-- A block that was there, or NULL, is another one. -/
theorem Has.ne {before after : Heap} {block held : Block} (has : Has before old held)
    (fresh : Fresh before after ptr block) : ptr ≠ old := by
  unfold Has at has
  by_cases null : old = 0
  · rw [null]
    exact fresh.notNull
  · rw [if_neg null] at has
    exact (fresh.ne has).symm

theorem Fresh.extend {before after later : Heap} {block : Block}
    (fresh : Fresh before after ptr block) (kept : Retains after later) :
    Fresh before later ptr block :=
  ⟨fresh.notNull, fresh.free, kept ptr block fresh.found, fresh.kept.trans kept⟩

/-- What an allocation returns: NULL where it is refused, the heap being as before, or what
is `given`. -/
abbrev Allocates (before : Pool κ) (given : Ptr → Heap → Prop) :
    Post MyException (Pool κ) Ptr :=
  Answers fun ptr after =>
    if ptr = 0 then before.refusals < after.refusals ∧ after.heap = before.heap
    else after.refusals = before.refusals ∧ given ptr after.heap

theorem allocates_mono {program : Tmp κ Ptr} {before : Pool κ} {strong weak : Ptr → Heap → Prop}
    (proved : wp program (Allocates before strong) pool)
    (implies : ∀ ptr heap, strong ptr heap → weak ptr heap) :
    wp program (Allocates before weak) pool := by
  apply answers_mono proved
  intro ptr after answered
  by_cases null : ptr = 0
  · rwa [if_pos null] at answered ⊢
  · rw [if_neg null] at answered ⊢
    exact ⟨answered.1, implies ptr after.heap answered.2⟩

/-- An allocation, and what follows where it is refused and where it is not. -/
theorem given_allocates {program : Tmp κ Ptr} {next : Ptr → Tmp κ α} {given : Ptr → Heap → Prop}
    {ok : α → Pool κ → Prop} (answers : wp program (Allocates pool given) pool)
    (refused : ∀ after, pool.refusals < after.refusals →
      wp (next 0) (Given pool.refusals ok) after)
    (rest : ∀ ptr after, ptr ≠ 0 → given ptr after.heap →
      wp (next ptr) (Given after.refusals ok) after) :
    wp (program >>= next) (Given pool.refusals ok) pool := by
  rw [wp_bind]
  refine wp_mono answers ⟨fun ptr after answered => ?_, fun _ _ no => no.elim, fun _ no => no,
    fun _ no => no.elim⟩
  change if ptr = 0 then _ else _ at answered
  by_cases null : ptr = 0
  · rw [if_pos null] at answered
    rw [null]
    exact refused after answered.1
  · rw [if_neg null] at answered
    rw [← answered.1]
    exact rest ptr after null answered.2

section Malloc

variable {count : Nat} {rest : κ}

theorem allocates_none {given : Ptr → Heap → Prop} (rest : κ) :
    (Allocates pool given).ok 0 (pool.refused rest) :=
  ⟨Nat.lt_succ_self _, rfl⟩

theorem allocates_some (block : Block)
    (answers : allocator.malloc pool.alloc pool.heap count = (some ptr, rest)) :
    (Allocates pool fun ptr heap => Fresh pool.heap heap ptr block).ok ptr
      { pool with alloc := rest, heap := put pool.heap ptr block } := by
  have fresh := allocator.malloc_fresh pool.alloc pool.heap count
  rw [answers] at fresh
  obtain ⟨notNull, free⟩ := fresh ptr rfl
  show if ptr = 0 then _ else _
  rw [if_neg notNull]
  exact ⟨rfl, fresh_put notNull free⟩

end Malloc

/-- The block at `old`, or nothing if it is NULL, has given way to one at `ptr`. -/
structure Placed (old : Ptr) (before after : Heap) (ptr : Ptr) (block : Block) : Prop where
  notNull : ptr ≠ 0
  place : ptr = old ∨ before ptr = none
  heap : after = put (drop before old) ptr block

theorem Placed.free {before after : Heap} {block : Block}
    (placed : Placed 0 before after ptr block) : before ptr = none :=
  placed.place.resolve_left placed.notNull

theorem drop_null {heap : Heap} (null : heap 0 = none) : drop heap 0 = heap := by
  unfold drop
  rw [← null]
  exact Function.update_eq_self 0 heap

theorem places_cMalloc (size : Nat) (null : pool.heap 0 = none) :
    wp (cMalloc allocator size)
      (Allocates pool fun ptr heap =>
        Placed 0 pool.heap heap ptr (List.replicate size none)) pool := by
  unfold wp cMalloc
  have fresh := allocator.malloc_fresh pool.alloc pool.heap size
  cases answers : allocator.malloc pool.alloc pool.heap size with
  | mk chosen alloc =>
      rw [answers] at fresh
      cases chosen with
      | none => exact allocates_none alloc
      | some ptr =>
          obtain ⟨notNull, free⟩ := fresh ptr rfl
          show if ptr = 0 then _ else _
          rw [if_neg notNull]
          exact ⟨rfl, notNull, .inr free, by rw [drop_null null]⟩

theorem places_cCalloc (nmemb size : Nat) (small : nmemb * size < 2 ^ 64)
    (null : pool.heap 0 = none) :
    wp (cCalloc allocator nmemb size)
      (Allocates pool fun ptr heap =>
        Placed 0 pool.heap heap ptr (List.replicate (nmemb * size) (some 0))) pool := by
  unfold wp cCalloc
  rw [if_pos small]
  have fresh := allocator.malloc_fresh pool.alloc pool.heap (nmemb * size)
  cases answers : allocator.malloc pool.alloc pool.heap (nmemb * size) with
  | mk chosen alloc =>
      rw [answers] at fresh
      cases chosen with
      | none => exact allocates_none alloc
      | some ptr =>
          obtain ⟨notNull, free⟩ := fresh ptr rfl
          show if ptr = 0 then _ else _
          rw [if_neg notNull]
          exact ⟨rfl, notNull, .inr free, by rw [drop_null null]⟩

theorem answers_cMalloc (size : Nat) :
    wp (cMalloc allocator size)
      (Allocates pool fun ptr heap =>
        Fresh pool.heap heap ptr (List.replicate size none)) pool := by
  unfold wp cMalloc
  cases answers : allocator.malloc pool.alloc pool.heap size with
  | mk chosen alloc =>
      cases chosen with
      | none => exact allocates_none alloc
      | some ptr => exact allocates_some _ answers

theorem answers_cCalloc (nmemb size : Nat) (small : nmemb * size < 2 ^ 64) :
    wp (cCalloc allocator nmemb size)
      (Allocates pool fun ptr heap =>
        Fresh pool.heap heap ptr (List.replicate (nmemb * size) (some 0))) pool := by
  unfold wp cCalloc
  rw [if_pos small]
  cases answers : allocator.malloc pool.alloc pool.heap (nmemb * size) with
  | mk chosen alloc =>
      cases chosen with
      | none => exact allocates_none alloc
      | some ptr => exact allocates_some _ answers

theorem given_addPtr (ptr : Ptr) :
    wp (addPtr allocator ptr)
      (Given pool.refusals fun _ after => Retains pool.heap after.heap) pool := by
  unfold addPtr
  apply given_allocates (answers_cMalloc sizeofMyPtrList)
  · intro after refused
    exact refused
  · intro l after notNull fresh
    rw [if_neg notNull]
    exact ⟨rfl, fresh.kept⟩

theorem given_keepPtr {block : Block} {before : Heap} (notNull : ptr ≠ 0)
    (fresh : Fresh before pool.heap ptr block) :
    wp (keepPtr allocator ptr)
      (Given pool.refusals fun kept after => kept = ptr ∧ Fresh before after.heap ptr block)
      pool := by
  unfold keepPtr
  rw [if_neg notNull]
  apply given_bind (given_addPtr ptr)
  intro _ after kept
  exact ⟨rfl, rfl, fresh.extend kept⟩

/-- What was just allocated is added to the list, if there is room. -/
theorem given_keeps {program : Tmp κ Ptr} {block : Block}
    (answers : wp program (Allocates pool fun ptr heap => Fresh pool.heap heap ptr block) pool) :
    wp (program >>= keepPtr allocator)
      (Given pool.refusals fun ptr after => Fresh pool.heap after.heap ptr block) pool := by
  apply given_allocates answers
  · intro after refused
    exact ⟨rfl, refused⟩
  · intro ptr middle notNull fresh
    apply given_mono (given_keepPtr notNull fresh)
    rintro _ after ⟨rfl, kept⟩
    exact kept

theorem given_tmpMalloc (size : Nat) :
    wp (tmpMalloc allocator size)
      (Given pool.refusals fun ptr after =>
        Fresh pool.heap after.heap ptr (List.replicate size none)) pool :=
  given_keeps (answers_cMalloc size)

theorem given_tmpCalloc (nmemb size : Nat) (small : nmemb * size < 2 ^ 64) :
    wp (tmpCalloc allocator nmemb size)
      (Given pool.refusals fun ptr after =>
        Fresh pool.heap after.heap ptr (List.replicate (nmemb * size) (some 0))) pool :=
  given_keeps (answers_cCalloc nmemb size small)

/-! ## Growing a block -/

/-- `ptr` is `old` with new contents, or a block that was not there. -/
structure Replaces (old : Ptr) (content : Block) (before after : Heap) (ptr : Ptr) : Prop where
  notNull : ptr ≠ 0
  place : ptr = old ∨ before ptr = none
  found : after ptr = some content
  kept : Beside old before after

theorem Fresh.replaces {before after : Heap} {content : Block}
    (fresh : Fresh before after ptr content) (old : Ptr) : Replaces old content before after ptr :=
  ⟨fresh.notNull, .inr fresh.free, fresh.found, fresh.kept.beside old⟩

/-- `ptr` is `old` with more room, or a block that was not there with the same in it. -/
structure Grown (old : Ptr) (block : Block) (size : Nat) (before after : Heap) (ptr : Ptr) :
    Prop where
  notNull : ptr ≠ 0
  place : ptr = old ∨ before ptr = none
  found : after ptr = some (block ++ List.replicate (size - block.length) none)
  kept : Beside old before after

theorem Block.resize_grow {block : Block} {size : Nat} (larger : block.length ≤ size) :
    Block.resize block size = block ++ List.replicate (size - block.length) none := by
  unfold Block.resize
  rw [List.take_of_length_le larger]

theorem Block.resize_nil (size : Nat) : Block.resize [] size = List.replicate size none := by
  rw [Block.resize_grow (Nat.zero_le size), List.nil_append, List.length_nil, Nat.sub_zero]

@[simp] theorem Block.resize_length (block : Block) (size : Nat) :
    (Block.resize block size).length = size := by
  unfold Block.resize
  rw [List.length_append, List.length_take, List.length_replicate]
  omega

theorem Replaces.grown {before after : Heap} {block : Block} {size : Nat}
    (larger : block.length ≤ size)
    (replaces : Replaces old (Block.resize block size) before after ptr) :
    Grown old block size before after ptr := by
  have found := replaces.found
  rw [Block.resize_grow larger] at found
  exact ⟨replaces.notNull, replaces.place, found, replaces.kept⟩

/-- Size 0 frees a block, and NULL is returned. -/
theorem answers_cRealloc_resize {block : Block} (allocator : Allocator κ) (size : Nat)
    (has : Has pool.heap old block) (positive : size = 0 → old = 0) :
    wp (cRealloc allocator old size)
      (Allocates pool fun ptr heap =>
        Replaces old (Block.resize block size) pool.heap heap ptr) pool := by
  unfold cRealloc Has at *
  by_cases null : old = 0
  · rw [if_pos null] at has ⊢
    subst null has
    apply allocates_mono (answers_cMalloc size)
    intro ptr heap fresh
    rw [Block.resize_nil]
    exact fresh.replaces 0
  · rw [if_neg null] at has ⊢
    rw [if_neg (mt positive null)]
    unfold wp moveBlock
    simp only [has]
    have fresh := allocator.realloc_fresh pool.alloc pool.heap old size
    cases answers : allocator.realloc pool.alloc pool.heap old size with
    | mk chosen alloc =>
        rw [answers] at fresh
        cases chosen with
        | none => exact allocates_none alloc
        | some ptr =>
            obtain ⟨notNull, place⟩ := fresh ptr rfl
            show if ptr = 0 then _ else _
            rw [if_neg notNull]
            refine ⟨rfl, notNull, place, put_self, ?_⟩
            intro other held apart found
            have elsewhere : other ≠ ptr := by
              rintro rfl
              rcases place with same | free
              · exact apart same
              · rw [free] at found
                cases found
            exact (put_of_ne elsewhere).trans ((drop_of_ne apart).trans found)

theorem places_cRealloc {block : Block} (size : Nat) (null : pool.heap 0 = none)
    (has : Has pool.heap old block) (positive : 0 < size) :
    wp (cRealloc allocator old size)
      (Allocates pool fun ptr heap =>
        Placed old pool.heap heap ptr (Block.resize block size)) pool := by
  unfold cRealloc Has at *
  by_cases first : old = 0
  · rw [if_pos first] at has ⊢
    subst first has
    rw [Block.resize_nil]
    exact places_cMalloc size null
  · rw [if_neg first] at has ⊢
    rw [if_neg (Nat.pos_iff_ne_zero.mp positive)]
    unfold wp moveBlock
    simp only [has]
    have fresh := allocator.realloc_fresh pool.alloc pool.heap old size
    cases answers : allocator.realloc pool.alloc pool.heap old size with
    | mk chosen alloc =>
        rw [answers] at fresh
        cases chosen with
        | none => exact allocates_none alloc
        | some ptr =>
            obtain ⟨notNull, place⟩ := fresh ptr rfl
            show if ptr = 0 then _ else _
            rw [if_neg notNull]
            exact ⟨rfl, notNull, place, rfl⟩

theorem answers_cRealloc {block : Block} (allocator : Allocator κ) (size : Nat)
    (has : Has pool.heap old block) (larger : block.length ≤ size) (positive : 0 < size) :
    wp (cRealloc allocator old size)
      (Allocates pool fun ptr heap => Grown old block size pool.heap heap ptr) pool :=
  allocates_mono (answers_cRealloc_resize allocator size has (by omega)) fun _ _ replaces =>
    replaces.grown larger

/-- What stands in front of the offset stays, and what the cells do not reach. -/
theorem storeCells_ok {back : Block} (front cells : Block)
    (found : pool.heap ptr = some (front ++ back)) (room : cells.length ≤ back.length) :
    storeCells ptr front.length cells pool = .ok () { pool with
      heap := put pool.heap ptr (front ++ cells ++ back.drop cells.length) } := by
  unfold storeCells
  simp only [found]
  rw [if_pos (by rw [List.length_append]; omega), List.take_left, List.drop_length_add_append]

/-- The beginning of a block is copied to one that was never written. -/
theorem cMemcpy_ok {dest : Ptr} {block : Block} {count size : Nat}
    (source : pool.heap ptr = some block)
    (target : pool.heap dest = some (List.replicate size none)) (within : count ≤ block.length)
    (room : count ≤ size) :
    cMemcpy dest ptr count pool = .ok () { pool with
      heap := put pool.heap dest (block.take count ++ List.replicate (size - count) none) } := by
  have length : (block.take count).length = count := List.length_take_of_le within
  have stores := storeCells_ok [] (block.take count) target
    (by rw [List.length_replicate, length]; exact room)
  unfold cMemcpy
  simp only [source, if_pos within]
  rw [List.drop_replicate, length] at stores
  exact stores

/-- The copy reads no more of NULL than of anything else. -/
theorem tmpRealloc_null (oldSize size : Nat) :
    tmpRealloc allocator 0 oldSize size = tmpRealloc allocator 0 0 size := rfl

/-- A block that was not there becomes a copy of another one, which stays. -/
theorem given_copyBlock {base : Heap} {block : Block} {oldSize size : Nat}
    (has : Has base old block) (within : oldSize ≤ block.length)
    (fresh : Fresh base pool.heap ptr (List.replicate size none)) :
    wp (Program.when (old != 0) (cMemcpy ptr old (min oldSize size)) >>= fun _ => pure ptr)
      (Given pool.refusals fun ptr after =>
        Replaces old (Block.resize (block.take oldSize) size) base after.heap ptr) pool := by
  unfold Has at has
  by_cases null : old = 0
  · rw [if_pos null] at has
    subst null has
    rw [List.take_nil, Block.resize_nil]
    exact ⟨rfl, fresh.replaces 0⟩
  · rw [if_neg null] at has
    have atMost : min oldSize size ≤ block.length := by omega
    have copies := cMemcpy_ok (fresh.kept old block has) fresh.found atMost (by omega)
    have some : (old != 0) = true := bne_iff_ne.mpr null
    rw [some]
    change wp (cMemcpy ptr old (min oldSize size) >>= _) _ _
    rw [wp_bind_ok copies]
    refine ⟨rfl, fresh.notNull, .inr fresh.free, ?_, ?_⟩
    · have taken : (block.take oldSize).take size = block.take (min oldSize size) := by
        rw [List.take_take, Nat.min_comm]
      have left : size - (block.take oldSize).length = size - min oldSize size := by
        rw [List.length_take]
        omega
      rw [Block.resize, taken, left]
      exact put_self
    · intro other held apart found
      exact (put_of_ne (fresh.ne found)).trans (fresh.kept other held found)

/-- The head of the list is resized in place, unless it would be freed; of another block
`oldSize` bytes are copied, and it stays. -/
theorem given_tmpRealloc_replaces {block : Block} {oldSize size : Nat}
    (has : Has pool.heap old block) (within : oldSize ≤ block.length)
    (stays : size = 0 → old ≠ 0 → pool.list.head?.any (·.ptr == old) = false) :
    wp (tmpRealloc allocator old oldSize size)
      (Given pool.refusals fun ptr after =>
        Replaces old (Block.resize block size) pool.heap after.heap ptr ∨
          Replaces old (Block.resize (block.take oldSize) size) pool.heap after.heap ptr)
      pool := by
  unfold tmpRealloc
  rw [wp_bind, wp_gets]
  change wp (if pool.list.head?.any (·.ptr == old) then _ else _) _ pool
  rw [wp_ite]
  constructor
  · intro head
    have positive : size = 0 → old = 0 := by
      intro zero
      by_contra some
      rw [stays zero some] at head
      cases head
    apply given_allocates (answers_cRealloc_resize allocator size has positive)
    · intro after refused
      exact ⟨rfl, refused⟩
    · intro ptr after notNull replaces
      unfold setHead
      simp only [wp_bind, wp_modify, if_neg notNull]
      exact ⟨rfl, .inl replaces⟩
  · intro _
    apply given_allocates (answers_cMalloc size)
    · intro after refused
      exact ⟨rfl, refused⟩
    · intro ptr after notNull fresh
      apply given_bind (given_keepPtr notNull fresh)
      rintro _ middle ⟨rfl, kept⟩
      exact given_mono (given_copyBlock has within kept) fun _ _ copied => .inr copied

/-- The head of the list grows in place; another block is copied, and stays. -/
theorem given_tmpRealloc {block : Block} {oldSize size : Nat} (has : Has pool.heap old block)
    (whole : oldSize = block.length) (larger : block.length ≤ size) (positive : 0 < size) :
    wp (tmpRealloc allocator old oldSize size)
      (Given pool.refusals fun ptr after => Grown old block size pool.heap after.heap ptr)
      pool := by
  apply given_mono (given_tmpRealloc_replaces has whole.le (by omega))
  intro ptr after replaces
  rw [whole, List.take_length, or_self] at replaces
  exact replaces.grown larger

/-- A block has become the one at `ptr`; the others have not changed. -/
structure Moved (old : Ptr) (before : Heap) (ptr : Ptr) (after : Heap) : Prop where
  place : ptr = old ∨ before ptr = none
  kept : Beside old before after

theorem Moved.refl (ptr : Ptr) (heap : Heap) : Moved ptr heap ptr heap :=
  ⟨.inl rfl, fun _ _ _ found => found⟩

theorem Grown.moved {before after : Heap} {block : Block} {size : Nat}
    (grown : Grown old block size before after ptr) : Moved old before ptr after :=
  ⟨grown.place, grown.kept⟩

theorem Moved.ne {before after : Heap} {other : Ptr} {held : Block}
    (moved : Moved old before ptr after) (found : before other = some held)
    (apart : other ≠ old) : other ≠ ptr := by
  rcases moved.place with same | free
  · rw [same]
    exact apart
  · rintro rfl
    rw [free] at found
    cases found

theorem Moved.trans {before middle after : Heap} {last : Ptr}
    (first : Moved old before ptr middle) (second : Moved ptr middle last after) :
    Moved old before last after := by
  constructor
  · rcases second.place with same | free
    · rw [same]
      exact first.place
    · by_cases stays : last = old
      · exact .inl stays
      · right
        cases held : before last with
        | none => rfl
        | some block =>
            rw [first.kept last block stays held] at free
            cases free
  · intro other held apart found
    exact second.kept other held (first.ne found apart) (first.kept other held apart found)

/-! ## Storing words -/

/-- The next word of an array is stored, where there is room for it. -/
theorem storeWord_ok {words : List Word} {back : Block} (word : Word)
    (found : pool.heap ptr = some (arrayCells words ++ back)) (room : 8 ≤ back.length) :
    storeWord ptr words.length word pool = .ok () { pool with
      heap := put pool.heap ptr (arrayCells (words ++ [word]) ++ back.drop 8) } := by
  have stores := storeCells_ok (arrayCells words) (wordCells word) found (by rwa [wordCells_length])
  unfold storeWord
  rw [arrayCells_append, arrayCells_singleton]
  rwa [arrayCells_length, wordCells_length] at stores

theorem storeWord_room {words : List Word} {room : Nat} (word : Word)
    (found : pool.heap ptr = some (arrayRoom words (room + 1))) :
    storeWord ptr words.length word pool = .ok () { pool with
      heap := put pool.heap ptr (arrayRoom (words ++ [word]) room) } := by
  have stores := storeWord_ok word found (by rw [List.length_replicate]; omega)
  rwa [List.drop_replicate, Nat.mul_succ, Nat.add_sub_cancel] at stores

/-- An array that is written word by word, the other blocks being as in `base`. -/
structure Filling (base : Heap) (ptr : Ptr) (words : List Word) (room : Nat) (heap : Heap) :
    Prop where
  found : heap ptr = some (arrayRoom words room)
  kept : Beside ptr base heap

theorem given_storeWord {base : Heap} {words : List Word} {room : Nat}
    (filling : Filling base ptr words (room + 1) pool.heap) (word : Word) :
    wp (storeWord ptr words.length word : Tmp κ Unit)
      (Given pool.refusals fun _ after => Filling base ptr (words ++ [word]) room after.heap)
      pool := by
  unfold wp
  rw [storeWord_room word filling.found]
  exact ⟨rfl, put_self, filling.kept.trans beside_put⟩

/-- A word of an array is replaced. -/
theorem storeWord_set {words : List Word} {index : Nat} (word : Word)
    (found : pool.heap ptr = some (arrayCells words)) (inside : index < words.length) :
    storeWord ptr index word pool = .ok () { pool with
      heap := put pool.heap ptr (arrayCells (words.set index word)) } := by
  obtain ⟨split, early⟩ := arrayCells_split inside
  rw [split] at found
  have stores := storeCells_ok (arrayCells (words.take index)) (wordCells word) found
    (by rw [List.length_append, wordCells_length, wordCells_length]; omega)
  rw [early, wordCells_length, List.drop_left' (wordCells_length _), List.append_assoc,
    ← arrayCells_cons, ← arrayCells_append] at stores
  rw [List.set_eq_take_append_cons_drop, if_pos inside]
  exact stores

theorem given_storeWord_set {words : List Word} {index : Nat} (word : Word)
    (found : pool.heap ptr = some (arrayCells words)) (inside : index < words.length) :
    wp (storeWord ptr index word : Tmp κ Unit)
      (Given pool.refusals fun _ after =>
        after.heap ptr = some (arrayCells (words.set index word)) ∧
          Beside ptr pool.heap after.heap) pool := by
  unfold wp
  rw [storeWord_set word found inside]
  exact ⟨rfl, put_self, beside_put⟩

theorem loadWord_ok {words : List Word} {word : Word} {index : Nat}
    (found : pool.heap ptr = some (arrayCells words)) (inside : words[index]? = some word) :
    loadWord ptr index pool = .ok word pool := by
  rw [← List.append_nil (arrayCells words)] at found
  unfold loadWord
  rw [wordAt_some found inside]

/-- What is stored in one block leaves the others alone. -/
theorem preserves_storeCells {array : Ptr} {block : Block} (apart : array ≠ ptr) (offset : Nat)
    (cells : Block) :
    Preserves (fun pool => pool.heap array = some block)
      (storeCells ptr offset cells : Tmp κ Unit) := by
  intro pool found
  unfold storeCells
  cases stored : pool.heap ptr with
  | none => exact found
  | some held =>
      dsimp only
      split
      · exact (put_of_ne apart).trans found
      · exact found

/-! ## Calls that ask for no memory -/

section Refusals

variable {counts : Nat → Prop}

theorem refusals_storeCells (offset : Nat) (cells : Block) :
    Preserves (fun pool => counts pool.refusals) (storeCells ptr offset cells : Tmp κ Unit) := by
  intro pool holds
  unfold storeCells
  cases pool.heap ptr with
  | none => exact holds
  | some held =>
      dsimp only
      split
      · exact holds
      · exact holds

theorem refusals_ok {program : Tmp κ α} {value : α} {after : Pool κ}
    (preserves : ∀ counts : Nat → Prop, Preserves (fun pool => counts pool.refusals) program)
    (ends : program pool = .ok value after) : after.refusals = pool.refusals :=
  ((preserves (· = pool.refusals)).wp rfl).ok ends

theorem refusals_loadWord (array : Ptr) (index : Nat) :
    Preserves (fun pool => counts pool.refusals) (loadWord array index : Tmp κ Word) := by
  intro pool holds
  unfold loadWord
  split
  · exact holds
  · exact holds

theorem refusals_cFree (ptr : Ptr) :
    Preserves (fun pool => counts pool.refusals) (cFree ptr : Tmp κ Unit) := by
  intro pool holds
  unfold cFree
  split
  · exact holds
  · split
    · exact holds
    · exact holds

end Refusals

end Rules

end MyDbg.Utils
