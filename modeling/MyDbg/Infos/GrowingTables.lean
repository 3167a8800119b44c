import MyDbg.Infos.LineTables
import MyDbg.Utils.GrowingArrays

/-!
Contract: the arrays of the line tables as they grow.

Owns: `clone_state` with its blocks; the three loops that append a pointer in
each turn; and that these and the loop over `add_char` yield the elements
pushed, in place or by a copy.

Does not own: what the elements are read from.
-/

namespace MyDbg.Infos

open LittleEndian ProgramLogic Ownership
open Utils hiding Holds

namespace LineTables

/-- `sizeof(struct my_dw_sm)`. -/
def sizeofMyDwSm : Nat := 40

section Functions

variable {κ : Type} (allocator : Allocator κ)

/-- `clone_state`, with `*states` and `*length` as it leaves them. -/
def cloneState (sm states : Ptr) (length : Nat) : Tmp κ (Ptr × Nat) := do
  let states ← tmpRealloc allocator states (8 * length) (8 * (length + 1))
  let state ← tmpMalloc allocator sizeofMyDwSm
  storeWord states length state
  cMemcpy state sm sizeofMyDwSm
  return (states, length + 1)

end Functions

/-! ## `add_string` -/

section Strings

variable {κ : Type} (allocator : Allocator κ)

/-- Field 3 of `lconf` points to the strings. -/
structure HoldsStrings (lconf : Ptr) (lhdr lhdrx lengths : Word) (length : Nat)
    (strs : List Addr) (owned : List Ptr) (heap : Heap) : Prop where
  length : length = strs.length
  notNull : lconf ≠ 0
  listing : ∃ array, owned = lconf :: inHand array ∧
    heap lconf = some (arrayCells [lhdr, lhdrx, lengths, array, 0]) ∧
    Has heap array (arrayCells strs) ∧ lconf ≠ array

def addStringLoop (lconf : Ptr) (lhdr lhdrx lengths : Word) : Growth allocator Nat Addr where
  push length str := addString allocator lconf 3 str length
  newSize length := 8 * (length + 1)
  Holds := HoldsStrings lconf lhdr lhdrx lengths
  Ready _ _ _ := True
  notNull holds := by
    obtain ⟨_, notNull, array, rfl, _⟩ := holds
    rw [List.mem_cons, not_or]
    exact ⟨Ne.symm notNull, inHand_notNull array⟩
  spared holds kept := by
    obtain ⟨same, notNull, array, rfl, found, has, apart⟩ := holds
    refine ⟨same, notNull, array, rfl, kept lconf List.mem_cons_self _ found, ?_, apart⟩
    exact has.spared fun other member => kept other (List.mem_cons_of_mem lconf member)
  pushes := by
    intro length strs owned str pool holds _ _
    obtain ⟨rfl, notNull, array, rfl, found, has, apart⟩ := holds
    apply given_mono (given_addString ⟨array, found, has, apart⟩ str)
    rintro _ after ⟨rfl, last, found, has, apart⟩
    exact ⟨_, rfl, notNull, last, rfl, found, has, apart⟩

end Strings

/-! ## `store_files` -/

section Files

variable {κ : Type} (allocator : Allocator κ) (memory : PartialMemory)

/-- An entry at an address, that can be read. -/
structure ReadableEntry where
  fuel : Nat
  str : Addr
  file : MyDwFile
  next : Addr
  read : EntryRead memory fuel str file next

structure HoldsFiles (vars : Ptr × Nat) (entries : List (ReadableEntry memory)) (owned : List Ptr)
    (heap : Heap) : Prop where
  length : vars.2 = entries.length
  files : ∃ ptrs, owned = vars.1 :: ptrs ∧
    Storing heap vars.1 ptrs (entries.map ReadableEntry.file)

theorem Storing.spared {before after : Heap} {array : Ptr} {ptrs : List Ptr}
    {files : List MyDwFile} (storing : Storing before array ptrs files)
    (kept : ∀ ptr ∈ array :: ptrs, ∀ block, before ptr = some block → after ptr = some block) :
    Storing after array ptrs files := by
  have elements : ∀ ptr ∈ ptrs, ∀ block, before ptr = some block → after ptr = some block :=
    fun ptr member => kept ptr (List.mem_cons_of_mem array member)
  refine ⟨storing.notNull, kept array List.mem_cons_self _ storing.found, ?_⟩
  apply ((List.forall₂_and_left _ _).mpr ⟨elements, storing.stored⟩).imp
  rintro ptr file ⟨stays, apart, notNull, found⟩
  exact ⟨apart, notNull, stays _ found⟩

theorem Storing.owned_notNull {heap : Heap} {array : Ptr} {ptrs : List Ptr}
    {files : List MyDwFile} (storing : Storing heap array ptrs files) : 0 ∉ array :: ptrs := by
  have notNull : List.Forall₂ (fun ptr _ => ptr ≠ 0 ∧ True) ptrs files :=
    storing.stored.imp fun ptr file stored => ⟨stored.2.notNull, trivial⟩
  rw [List.mem_cons, not_or]
  exact ⟨Ne.symm storing.notNull,
    fun member => ((List.forall₂_and_left _ _).mp notNull).1 0 member rfl⟩

def storeFilesLoop : Growth allocator (Ptr × Nat) (ReadableEntry memory) where
  push vars entry := do
    let (files, _) ← storeEntry allocator memory entry.fuel vars.1 vars.2 entry.str
    return (files, vars.2 + 1)
  newSize vars := 8 * (vars.2 + 2)
  Holds := HoldsFiles memory
  Ready _ _ _ := True
  notNull holds := by
    obtain ⟨_, ptrs, rfl, storing⟩ := holds
    exact storing.owned_notNull
  spared holds kept := by
    obtain ⟨same, ptrs, rfl, storing⟩ := holds
    exact ⟨same, ptrs, rfl, storing.spared kept⟩
  pushes := by
    intro vars entries owned entry pool holds _ _
    obtain ⟨files, length⟩ := vars
    obtain ⟨rfl, ptrs, rfl, storing⟩ := holds
    have count := storing.stored.length_eq
    rw [List.length_map] at count
    change wp (storeEntry allocator memory entry.fuel files entries.length entry.str >>= fun
      stored => pure (stored.1, entries.length + 1)) _ pool
    rw [← count]
    apply given_bind (given_storeEntry_read entry.read storing)
    rintro ⟨array, _⟩ after ⟨_, _, f, storing⟩
    refine ⟨rfl, _, ⟨?_, ptrs ++ [f], rfl, ?_⟩⟩
    · rw [List.length_append, List.length_singleton, count]
    · rw [List.map_append]
      exact storing

end Files

/-! ## `clone_state` -/

section States

variable {κ : Type} (allocator : Allocator κ)

/-- A `struct my_dw_sm` at an address, with its bytes. -/
structure ClonedState where
  sm : Ptr
  content : Block
  size : content.length = sizeofMyDwSm

/-- The array points to copies of the states. -/
structure HoldsStates (vars : Ptr × Nat) (states : List ClonedState) (owned : List Ptr)
    (heap : Heap) : Prop where
  length : vars.2 = states.length
  copies : ∃ ptrs, owned = inHand vars.1 ++ ptrs ∧ Has heap vars.1 (arrayCells ptrs) ∧
    List.Forall₂ (fun ptr state => ptr ≠ 0 ∧ ptr ≠ vars.1 ∧
      heap ptr = some (ClonedState.content state)) ptrs states

theorem given_cloneState {allocator : Allocator κ} {pool : Pool κ} {states sm : Ptr}
    {ptrs : List Ptr} {content : Block} (has : Has pool.heap states (arrayCells ptrs))
    (size : content.length = sizeofMyDwSm) (source : pool.heap sm = some content)
    (apart : sm ≠ states) :
    wp (cloneState allocator sm states ptrs.length)
      (Given pool.refusals fun result after => result.2 = ptrs.length + 1 ∧
        Moved states pool.heap result.1 after.heap ∧ result.1 ≠ 0 ∧
          ∃ state, state ≠ 0 ∧ state ≠ result.1 ∧ after.heap state = some content ∧
            after.heap result.1 = some (arrayCells (ptrs ++ [state]))) pool := by
  have room : (arrayCells ptrs).length ≤ 8 * (ptrs.length + 1) := by
    rw [arrayCells_length]
    omega
  unfold cloneState
  apply given_bind (given_tmpRealloc has (arrayCells_length ptrs).symm room (by omega))
  intro array grownPool grown
  have larger := grown.found
  rw [← arrayRoom_zero, arrayRoom_grow ptrs (Nat.zero_le 1)] at larger
  apply given_bind (given_tmpMalloc sizeofMyDwSm)
  intro state freshPool fresh
  have beside : array ≠ state := fresh.ne larger
  have growing : Filling freshPool.heap array ptrs 1 freshPool.heap :=
    ⟨fresh.kept array _ larger, fun _ _ _ found => found⟩
  apply given_bind (given_storeWord growing state)
  intro _ linked pointed
  have held := grown.kept sm content apart source
  have original : linked.heap sm = some content :=
    pointed.kept sm content (grown.moved.ne source apart) (fresh.kept sm content held)
  have empty := pointed.kept state _ beside.symm fresh.found
  have copies := cMemcpy_ok original empty size.ge (Nat.le_refl _)
  rw [← size, List.take_length, Nat.sub_self, List.replicate_zero, List.append_nil] at copies
  rw [← size]
  change wp (cMemcpy state sm content.length >>= _) _ linked
  rw [wp_bind_ok copies]
  refine ⟨rfl, rfl, ⟨grown.place, ?_⟩, grown.notNull, state, fresh.notNull, beside.symm, put_self,
    ?_⟩
  · intro other block elsewhere found
    have first := grown.kept other block elsewhere found
    have second := pointed.kept other block (grown.moved.ne found elsewhere)
      (fresh.kept other block first)
    exact (put_of_ne (fresh.ne first)).trans second
  · have written := pointed.found
    rw [arrayRoom_zero] at written
    exact (put_of_ne beside).trans written

def cloneStateLoop : Growth allocator (Ptr × Nat) ClonedState where
  push vars state := cloneState allocator state.sm vars.1 vars.2
  newSize vars := 8 * (vars.2 + 1)
  Holds := HoldsStates
  Ready state owned heap := state.sm ≠ 0 ∧ state.sm ∉ owned ∧ heap state.sm = some state.content
  notNull holds := by
    obtain ⟨_, ptrs, rfl, _, copies⟩ := holds
    rw [List.mem_append, not_or]
    exact ⟨inHand_notNull _, fun member => ((List.forall₂_and_left _ _).mp copies).1 0 member rfl⟩
  spared holds kept := by
    obtain ⟨same, ptrs, rfl, has, copies⟩ := holds
    have elements := fun ptr (member : ptr ∈ ptrs) =>
      kept ptr (List.mem_append_right _ member)
    refine ⟨same, ptrs, rfl, has.spared fun other member => ?_, ?_⟩
    · exact kept other (List.mem_append_left ptrs member)
    · apply ((List.forall₂_and_left _ _).mpr ⟨elements, copies⟩).imp
      rintro ptr state ⟨stays, notNull, apart, found⟩
      exact ⟨notNull, apart, stays _ found⟩
  pushes := by
    intro vars states owned state pool holds ready _
    obtain ⟨array, length⟩ := vars
    obtain ⟨rfl, ptrs, rfl, has, copies⟩ := holds
    obtain ⟨notNull, outside, source⟩ := ready
    have count := copies.length_eq
    have apart : state.sm ≠ array := by
      rintro rfl
      rw [inHand_of_ne notNull] at outside
      exact outside (List.mem_append_left ptrs List.mem_cons_self)
    change wp (cloneState allocator state.sm array states.length) _ pool
    rw [← count]
    apply given_mono (given_cloneState has state.size source apart)
    rintro ⟨last, next⟩ after ⟨rfl, moved, allocated, copy, live, beside, found, held⟩
    refine ⟨_, ⟨?_, ptrs ++ [copy], rfl, ?_, ?_⟩⟩
    · rw [List.length_append, List.length_singleton, count]
    · rw [Has, if_neg allocated]
      exact held
    · refine List.rel_append (copies.imp ?_) (.cons ⟨live, beside, found⟩ .nil)
      rintro ptr state ⟨notNull, elsewhere, copied⟩
      exact ⟨notNull, moved.ne copied elsewhere, moved.kept ptr _ elsewhere copied⟩

end States

/-! ## In place or by a copy -/

section Result

variable {κ : Type} (allocator : Allocator κ) (memory : PartialMemory) {pool : Pool κ} {old : Ptr}
  {block : Block} {oldSize newSize : Nat}

/-- `tmp_realloc` returns a block as it should unless its head of the list is to have size 0,
and of the arrays that grow by it each consists of the elements pushed. -/
theorem tmpRealloc_agrees_iff (has : Has pool.heap old block) (within : oldSize ≤ block.length) :
    ((StaysLive pool old newSize →
        wp (tmpRealloc allocator old oldSize newSize)
          (Given pool.refusals fun ptr after =>
            Reallocated old block oldSize newSize pool.heap ptr after.heap) pool) ∧
      ((∃ ptr after, tmpRealloc allocator old oldSize newSize pool = .ok ptr after ∧
        Reallocated old block oldSize newSize pool.heap ptr after.heap) →
          StaysLive pool old newSize)) ∧
      (addCharLoop allocator).Yields ∧
      (∀ lconf lhdr lhdrx lengths,
        (addStringLoop allocator lconf lhdr lhdrx lengths).Yields) ∧
      (storeFilesLoop allocator memory).Yields ∧ (cloneStateLoop allocator).Yields := by
  refine ⟨⟨fun stays => given_tmpRealloc_any has within stays, ?_⟩, Growth.yields _,
    fun _ _ _ _ => Growth.yields _, Growth.yields _, Growth.yields _⟩
  rintro ⟨ptr, after, returns, _⟩
  by_contra lost
  obtain ⟨last, raises⟩ := tmpRealloc_frees allocator oldSize has lost
  rw [raises] at returns
  cases returns

/-- NULL becomes a block of one byte. -/
theorem tmpRealloc_agrees_null : wp (tmpRealloc firstFit 0 0 1)
    (Given (Pool.start ()).refusals fun ptr after =>
      Reallocated 0 [] 0 1 (fun _ => none) ptr after.heap) (Pool.start ()) := by
  have has : Has (Pool.start ()).heap 0 [] := by
    rw [Has, if_pos rfl]
  exact (tmpRealloc_agrees_iff firstFit (fun _ => none) has (Nat.le_refl 0)).1.1 (.inl (by decide))

/-- One block of one byte, and one more behind it. -/
def onePool : Pool Unit := (tmpMalloc firstFit 1 (Pool.start ())).state

def twoPool : Pool Unit := (tmpMalloc firstFit 1 onePool).state

/-- The last allocation is lost, and of the one before there is a copy. -/
theorem tmpRealloc_last : Has onePool.heap 16 [none] ∧ Has twoPool.heap 16 [none] ∧
    (¬ ∃ ptr after, tmpRealloc firstFit 16 1 0 onePool = .ok ptr after) ∧
    ∃ ptr after, tmpRealloc firstFit 16 1 0 twoPool = .ok ptr after := by
  have notNull : (16 : Ptr) ≠ 0 := by decide
  have one : onePool.heap 16 = some [none] := by decide +kernel
  have two : twoPool.heap 16 = some [none] := by decide +kernel
  have lost : ∃ ex after, tmpRealloc firstFit 16 1 0 onePool = .throw ex after := ⟨_, _, rfl⟩
  have copied : ∃ ptr after, tmpRealloc firstFit 16 1 0 twoPool = .ok ptr after := ⟨_, _, rfl⟩
  refine ⟨by rwa [Has, if_neg notNull], by rwa [Has, if_neg notNull], ?_, copied⟩
  rintro ⟨_, _, returns⟩
  obtain ⟨_, _, raises⟩ := lost
  rw [raises] at returns
  cases returns

end Result

end LineTables

end MyDbg.Infos
