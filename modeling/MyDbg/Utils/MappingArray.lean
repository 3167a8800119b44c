import MyDbg.Utils.MapsFile

/-!
Contract: the array that `get_mem_mappings_file` builds on the heap.

Owns: where the array, the mappings it points to and their names are, and what
they hold; that each line that is accepted becomes one mapping, in order; and
that nothing else of the heap is changed or left behind.

Does not own: lines that are refused, and what the kernel prints on a line.
-/

namespace MyDbg.Utils.MapsFile

open LittleEndian Ownership ProgramLogic Scanf

/-! ## What a line becomes -/

/-- The fields a line is scanned into. -/
def scanLine (line : List Char) : MyMemMapping :=
  (mapsArguments.zip (sscanf mapsFormat line).items).foldl MyMemMapping.assign .fresh

/-- `add_mem_mapping` takes the line, and its name fits. -/
def Accepted (line : List Char) : Prop :=
  overflows (sscanf mapsFormat line).items = false ∧
    ((sscanf mapsFormat line).ret = 10 ∨ (sscanf mapsFormat line).ret = 11)

instance (line : List Char) : Decidable (Accepted line) := inferInstanceAs (Decidable (_ ∧ _))

/-! ## A mapping on the heap -/

/-- A mapping with the addresses of its two blocks. -/
structure Listed where
  mapping : Ptr
  objfile : Ptr
  content : MyMemMapping

def Listed.blocks (listed : Listed) : List Ptr := [listed.objfile, listed.mapping]

def fieldCells : Option Word → Block
  | some word => wordCells word
  | none => List.replicate 8 none

/-- The bytes of a `struct my_mem_mapping`. -/
def mappingCells (content : MyMemMapping) (objfile : Ptr) : Block :=
  fieldCells content.start ++ (fieldCells content.stop ++
    (fieldCells content.offset ++ wordCells objfile))

/-- The name stands at the start of its block. -/
def NameAt (heap : Heap) (objfile : Ptr) (name : List Char) : Prop :=
  ∃ rest, heap objfile = some (stringCells name ++ rest) ∧
    (stringCells name).length + rest.length = myPathMax

structure MappingAt (heap : Heap) (listed : Listed) : Prop where
  struct : heap listed.mapping = some (mappingCells listed.content listed.objfile)
  name : NameAt heap listed.objfile listed.content.objfile

/-- Besides what `base` holds, `heap` has the blocks of `more`, the array `block` at
`mappings` and the mappings of `entries`. -/
structure Listing (base heap : Heap) (more : List Ptr) (mappings : Ptr) (block : Block)
    (entries : List Listed) : Prop where
  null : heap 0 = none
  gained : Gained base heap (more ++ (inHand mappings ++ entries.flatMap Listed.blocks))
  has : Has heap mappings block
  stored : ∀ listed ∈ entries, MappingAt heap listed

section Cells

variable {heap : Heap} {listed : Listed} {ptr : Ptr} {block : Block} {word : Word}

@[simp] theorem fieldCells_length (field : Option Word) : (fieldCells field).length = 8 := by
  cases field with
  | none => rfl
  | some word => exact wordCells_length word

@[simp] theorem mappingCells_length (content : MyMemMapping) (objfile : Ptr) :
    (mappingCells content objfile).length = 32 := by
  simp [mappingCells]

@[simp] theorem stringCells_length (s : List Char) : (stringCells s).length = s.length + 1 := by
  simp [stringCells]

/-- A word in the middle of a block. -/
theorem wordAt_middle {front back : Block} {index : Nat} (place : front.length = 8 * index)
    (found : heap ptr = some (front ++ (wordCells word ++ back))) :
    wordAt heap ptr index = some word := by
  have cells : ((front ++ (wordCells word ++ back)).drop (8 * index)).take 8 = wordCells word := by
    rw [List.drop_left' place, List.take_left' (wordCells_length word)]
  unfold wordAt
  rw [found]
  simp only [cells, wordCells_length, wordCells_all, and_self, if_true, wordCells_value]

theorem MappingAt.objfile_word (stored : MappingAt heap listed) :
    wordAt heap listed.mapping 3 = some listed.objfile := by
  have found := stored.struct
  unfold mappingCells at found
  rw [← List.append_assoc, ← List.append_assoc, ← List.append_nil (wordCells _)] at found
  exact wordAt_middle (by simp) found

theorem MappingAt.start_word (stored : MappingAt heap listed)
    (start : listed.content.start = some word) : wordAt heap listed.mapping 0 = some word := by
  have found := stored.struct
  unfold mappingCells at found
  rw [start, ← List.nil_append (fieldCells _ ++ _)] at found
  exact wordAt_middle rfl found

theorem MappingAt.stop_word (stored : MappingAt heap listed)
    (stop : listed.content.stop = some word) : wordAt heap listed.mapping 1 = some word := by
  have found := stored.struct
  unfold mappingCells at found
  rw [stop] at found
  exact wordAt_middle (by simp) found

theorem MappingAt.offset_word (stored : MappingAt heap listed)
    (offset : listed.content.offset = some word) : wordAt heap listed.mapping 2 = some word := by
  have found := stored.struct
  unfold mappingCells at found
  rw [offset, ← List.append_assoc] at found
  exact wordAt_middle (by simp) found

/-- A mapping is where it was as long as its two blocks are not touched. -/
theorem MappingAt.congr {later : Heap} (stored : MappingAt heap listed)
    (same : ∀ ptr ∈ listed.blocks, later ptr = heap ptr) : MappingAt later listed := by
  obtain ⟨rest, found, length⟩ := stored.name
  refine ⟨?_, rest, ?_, length⟩
  · rw [same _ (by simp [Listed.blocks])]
    exact stored.struct
  · rw [same _ (by simp [Listed.blocks])]
    exact found

end Cells

/-! ## Changes of the heap -/

namespace Listing

variable {base heap after : Heap} {more : List Ptr} {mappings ptr array : Ptr}
  {block cells : Block} {entries : List Listed} {listed : Listed}

/-- The array and what is in hand are apart from the mappings. -/
theorem apart (listing : Listing base heap more mappings block entries)
    (owned : ptr ∈ more ++ inHand mappings) (member : listed ∈ entries) : ptr ∉ listed.blocks := by
  intro same
  have once := listing.gained.once
  rw [← List.append_assoc] at once
  have behind : ptr ∈ entries.flatMap Listed.blocks := List.mem_flatMap.mpr ⟨listed, member, same⟩
  exact (List.nodup_append.mp once).2.2 ptr owned ptr behind rfl

/-- What is live was not at an address that is free. -/
theorem apart_free (listing : Listing base heap more mappings block entries)
    (free : heap ptr = none) (member : listed ∈ entries) : ptr ∉ listed.blocks := by
  intro same
  have live : (heap ptr).isSome := by
    apply listing.gained.live
    simp only [List.mem_append, List.mem_flatMap]
    exact .inr (.inr ⟨listed, member, same⟩)
  rw [free] at live
  cases live

theorem stored_put (listing : Listing base heap more mappings block entries)
    (outside : ∀ listed ∈ entries, ptr ∉ listed.blocks) :
    ∀ listed ∈ entries, MappingAt (put heap ptr cells) listed := by
  intro listed member
  apply (listing.stored listed member).congr
  intro other inside
  apply put_of_ne
  rintro rfl
  exact outside listed member inside

theorem stored_drop (listing : Listing base heap more mappings block entries)
    (outside : ∀ listed ∈ entries, ptr ∉ listed.blocks) :
    ∀ listed ∈ entries, MappingAt (drop heap ptr) listed := by
  intro listed member
  apply (listing.stored listed member).congr
  intro other inside
  apply drop_of_ne
  rintro rfl
  exact outside listed member inside

theorem has_of_ne {later : Heap} (has : Has heap mappings block)
    (same : mappings ≠ 0 → later mappings = heap mappings) : Has later mappings block := by
  unfold Has at has ⊢
  by_cases null : mappings = 0
  · rwa [if_pos null] at has ⊢
  · rw [if_neg null] at has ⊢
    rw [same null]
    exact has

/-- A block that is allocated is in hand. -/
theorem allocate (listing : Listing base heap more mappings block entries)
    (placed : Placed 0 heap after ptr cells) :
    Listing base after (ptr :: more) mappings block entries := by
  obtain rfl : after = put heap ptr cells := by rw [placed.heap, drop_null listing.null]
  refine ⟨(put_of_ne placed.notNull.symm).trans listing.null,
    listing.gained.allocate placed.free, ?_,
    listing.stored_put fun _ member => listing.apart_free placed.free member⟩
  apply has_of_ne listing.has
  intro notNull
  apply put_of_ne
  rintro rfl
  have found := listing.has
  rw [Has, if_neg notNull, placed.free] at found
  cases found

/-- A block in hand is freed. -/
theorem release (listing : Listing base heap (ptr :: more) mappings block entries) :
    Listing base (drop heap ptr) more mappings block entries := by
  have once := listing.gained.once
  rw [List.cons_append, List.nodup_cons, List.mem_append, not_or, List.mem_append, not_or] at once
  have null : drop heap ptr 0 = none := by
    by_cases same : (0 : Ptr) = ptr
    · rw [same, drop_self]
    · exact (drop_of_ne same).trans listing.null
  refine ⟨null, listing.gained.release, ?_, ?_⟩
  · apply has_of_ne listing.has
    intro notNull
    apply drop_of_ne
    rintro rfl
    apply once.1.2.1
    rw [inHand_of_ne notNull]
    exact .head _
  · exact listing.stored_drop fun _ member => listing.apart (by simp) member

/-- A block in hand is written. -/
theorem write (listing : Listing base heap more mappings block entries) (owned : ptr ∈ more) :
    Listing base (put heap ptr cells) more mappings block entries := by
  have live : (heap ptr).isSome := listing.gained.live ptr (by simp [owned])
  have notNull : (0 : Ptr) ≠ ptr := by
    rintro rfl
    rw [listing.null] at live
    cases live
  refine ⟨(put_of_ne notNull).trans listing.null, listing.gained.store (by simp [owned]), ?_,
    listing.stored_put fun _ member => listing.apart (by simp [owned]) member⟩
  apply has_of_ne listing.has
  intro some
  apply put_of_ne
  rintro rfl
  have once := listing.gained.once
  rw [inHand_of_ne some] at once
  exact (List.nodup_append.mp once).2.2 mappings owned mappings (by simp) rfl

/-- The array is moved, or allocated. -/
theorem move (listing : Listing base heap more mappings block entries)
    (placed : Placed mappings heap after array cells) :
    Listing base after more array cells entries := by
  have order (ptr : Ptr) : (inHand ptr ++ (more ++ entries.flatMap Listed.blocks)).Perm
      (more ++ (inHand ptr ++ entries.flatMap Listed.blocks)) := by
    rw [← List.append_assoc, ← List.append_assoc]
    exact List.perm_append_comm.append_right _
  have gained : Gained base after (array :: (more ++ entries.flatMap Listed.blocks)) := by
    have before := listing.gained.perm (order mappings).symm
    rw [placed.heap]
    by_cases first : mappings = 0
    · subst first
      rw [drop_null listing.null]
      exact before.allocate placed.free
    · rw [inHand_of_ne first] at before
      exact before.move placed.place
  have outside : ∀ listed ∈ entries, array ∉ listed.blocks := by
    intro listed member
    rcases placed.place with same | free
    · rw [same]
      by_cases first : mappings = 0
      · rw [first]
        exact listing.apart_free listing.null member
      · exact listing.apart (by simp [inHand_of_ne first]) member
    · exact listing.apart_free free member
  refine ⟨?_, ?_, ?_, ?_⟩
  · have dropped : drop heap mappings 0 = none := by
      by_cases same : (0 : Ptr) = mappings
      · rw [same, drop_self]
      · exact (drop_of_ne same).trans listing.null
    rw [placed.heap, put_of_ne placed.notNull.symm]
    exact dropped
  · rw [← List.singleton_append, ← inHand_of_ne placed.notNull] at gained
    exact gained.perm (order array)
  · rw [placed.heap]
    exact has_put placed.notNull
  · intro listed member
    apply (listing.stored listed member).congr
    intro other inside
    have apart : other ≠ array := by
      rintro rfl
      exact outside listed member inside
    rw [placed.heap, put_of_ne apart]
    by_cases first : mappings = 0
    · rw [first, drop_null listing.null]
    · apply drop_of_ne
      rintro rfl
      exact listing.apart (by simp [inHand_of_ne first]) member inside

/-- The array is written. -/
theorem write_array (listing : Listing base heap more mappings block entries)
    (notNull : mappings ≠ 0) :
    Listing base (put heap mappings cells) more mappings cells entries := by
  refine ⟨(put_of_ne notNull.symm).trans listing.null,
    listing.gained.store (by simp [inHand_of_ne notNull]), has_put notNull,
    listing.stored_put fun _ member => listing.apart (by simp [inHand_of_ne notNull]) member⟩

/-- The last word of the array is stored. -/
theorem append_word {κ : Type} {pool : Pool κ} {words : List Word} (word : Word)
    (listing : Listing base pool.heap more mappings
      (arrayCells words ++ List.replicate 8 none) entries) (notNull : mappings ≠ 0) :
    storeWord mappings words.length word pool = .ok () { pool with
        heap := put pool.heap mappings (arrayCells (words ++ [word])) } ∧
      Listing base (put pool.heap mappings (arrayCells (words ++ [word]))) more mappings
        (arrayCells (words ++ [word])) entries := by
  have found := listing.has
  rw [Has, if_neg notNull] at found
  have stored := storeWord_ok word found (by simp)
  rw [List.drop_replicate, Nat.sub_self, List.replicate_zero, List.append_nil] at stored
  exact ⟨stored, listing.write_array notNull⟩

/-- Two blocks in hand have become a mapping. -/
theorem adopt (listing : Listing base heap (listed.objfile :: listed.mapping :: more) mappings
      block entries) (mapping : MappingAt heap listed) :
    Listing base heap more mappings block (entries ++ [listed]) := by
  have order := @List.perm_append_comm _ listed.blocks
    (more ++ (inHand mappings ++ entries.flatMap Listed.blocks))
  rw [List.append_assoc, List.append_assoc] at order
  refine ⟨listing.null, listing.gained.perm ?_, listing.has, ?_⟩
  · rw [List.flatMap_append, List.flatMap_singleton]
    exact order
  · intro other member
    rcases List.mem_append.mp member with before | last
    · exact listing.stored other before
    · rw [List.mem_singleton.mp last]
      exact mapping

end Listing

/-! ## The fields of a line -/

section Assign

variable {κ : Type} {base : Heap} {pool : Pool κ} {more : List Ptr} {mappings mapping objfile : Ptr}
  {block : Block} {entries : List Listed} {content : MyMemMapping}

/-- A mapping that is being filled in, both of its blocks being in hand. -/
structure Filling (base : Heap) (more : List Ptr) (mappings : Ptr) (block : Block)
    (entries : List Listed) (listed : Listed) (heap : Heap) : Prop where
  listing : Listing base heap (listed.objfile :: listed.mapping :: more) mappings block entries
  mapping : MappingAt heap listed

/-- One of the three numbers is stored. -/
theorem storeField_ok {front back : Block} {field : Option Word} {index : Nat} (word : Word)
    (place : front.length = 8 * index)
    (found : pool.heap mapping = some (front ++ (fieldCells field ++ back))) :
    storeWord mapping index word pool = .ok () { pool with
      heap := put pool.heap mapping (front ++ (wordCells word ++ back)) } := by
  have stores := storeCells_ok front (wordCells word) found (by simp)
  rw [wordCells_length, List.drop_left' (fieldCells_length field), List.append_assoc,
    place] at stores
  exact stores

/-- Filling in the struct leaves the name alone. -/
theorem Filling.put_struct {after : MyMemMapping}
    (filling : Filling base more mappings block entries ⟨mapping, objfile, content⟩ pool.heap)
    (same : after.objfile = content.objfile) :
    Filling base more mappings block entries ⟨mapping, objfile, after⟩
      (put pool.heap mapping (mappingCells after objfile)) := by
  have once := filling.listing.gained.once
  have apart : objfile ≠ mapping := by
    rintro rfl
    simp at once
  refine ⟨filling.listing.write (by simp), put_self, ?_⟩
  obtain ⟨rest, found, length⟩ := filling.mapping.name
  show NameAt _ objfile after.objfile
  rw [same]
  exact ⟨rest, (put_of_ne apart).trans found, length⟩

/-- Filling in the name leaves the struct alone. -/
theorem Filling.store_name
    (filling : Filling base more mappings block entries ⟨mapping, objfile, content⟩ pool.heap)
    {s : List Char} (short : s.length < myPathMax) :
    ∃ after, storeCells objfile 0 (stringCells s) pool = .ok () after ∧
      Filling base more mappings block entries ⟨mapping, objfile, { content with objfile := s }⟩
        after.heap := by
  have once := filling.listing.gained.once
  have apart : mapping ≠ objfile := by
    rintro rfl
    simp at once
  obtain ⟨rest, found, length⟩ := filling.mapping.name
  change pool.heap objfile = _ at found
  have whole : (stringCells content.objfile ++ rest).length = myPathMax := by
    rw [List.length_append]
    exact length
  have room : (stringCells s).length ≤ (stringCells content.objfile ++ rest).length := by
    rw [whole, stringCells_length]
    exact short
  rw [← List.nil_append (stringCells content.objfile ++ rest)] at found
  refine ⟨_, storeCells_ok [] (stringCells s) found room, filling.listing.write (by simp), ?_, ?_⟩
  · exact (put_of_ne apart).trans filling.mapping.struct
  · refine ⟨_, put_self, ?_⟩
    show (stringCells s).length + _ = myPathMax
    rw [List.length_drop, whole]
    rw [whole] at room
    omega

theorem assign_ok
    (filling : Filling base more mappings block entries ⟨mapping, objfile, content⟩ pool.heap)
    (item : Argument × Item) (short : overflows [item.2] = false) :
    ∃ after, assign mapping objfile item pool = .ok () after ∧
      Filling base more mappings block entries ⟨mapping, objfile, content.assign item⟩
        after.heap := by
  obtain ⟨argument, item⟩ := item
  have found := filling.mapping.struct
  change pool.heap mapping = some (mappingCells content objfile) at found
  unfold mappingCells at found
  cases argument with
  | start =>
      cases item with
      | number n =>
          rw [← List.nil_append (fieldCells content.start ++ _)] at found
          exact ⟨_, storeField_ok n rfl found, filling.put_struct rfl⟩
      | _ => exact ⟨pool, rfl, filling⟩
  | stop =>
      cases item with
      | number n =>
          exact ⟨_, storeField_ok n (by simp) found, filling.put_struct rfl⟩
      | _ => exact ⟨pool, rfl, filling⟩
  | offset =>
      cases item with
      | number n =>
          rw [← List.append_assoc] at found
          have place : (fieldCells content.start ++ fieldCells content.stop).length = 8 * 2 := by
            simp
          have stored := storeField_ok n place found
          rw [List.append_assoc] at stored
          exact ⟨_, stored, filling.put_struct rfl⟩
      | _ => exact ⟨pool, rfl, filling⟩
  | objfile =>
      cases item with
      | string s => exact filling.store_name (by simpa [overflows] using short)
      | _ => exact ⟨pool, rfl, filling⟩
  | c => exact ⟨pool, rfl, filling⟩
  | u => exact ⟨pool, rfl, filling⟩

/-- All items are stored as they are assigned in the list of mappings. -/
theorem assignAll_ok (items : List (Argument × Item))
    (filling : Filling base more mappings block entries ⟨mapping, objfile, content⟩ pool.heap)
    (short : ∀ item ∈ items, overflows [item.2] = false) :
    ∃ after, assignAll mapping objfile items pool = .ok () after ∧
      Filling base more mappings block entries
        ⟨mapping, objfile, items.foldl MyMemMapping.assign content⟩ after.heap := by
  induction items generalizing content pool with
  | nil => exact ⟨pool, rfl, filling⟩
  | cons item items inductionHypothesis =>
      obtain ⟨middle, stored, filled⟩ := assign_ok filling item (short item (.head _))
      obtain ⟨after, rest, done⟩ :=
        inductionHypothesis filled fun other member => short other (.tail _ member)
      refine ⟨after, ?_, done⟩
      unfold assignAll
      rw [Program.bind_ok stored]
      exact rest

/-- The two blocks of a mapping as they are allocated, with the name in its place. -/
theorem Filling.fresh
    (listing : Listing base pool.heap (objfile :: mapping :: more) mappings block entries)
    (struct : pool.heap mapping = some (List.replicate sizeofMyMemMapping none))
    (name : pool.heap objfile = some (List.replicate (myPathMax * 1) (some 0))) :
    ∃ after, storeWord mapping 3 objfile pool = .ok () after ∧
      Filling base more mappings block entries ⟨mapping, objfile, .fresh⟩ after.heap := by
  have once := listing.gained.once
  have apart : objfile ≠ mapping := by
    rintro rfl
    simp at once
  have parts : List.replicate sizeofMyMemMapping (none : Option Byte) =
      (fieldCells none ++ (fieldCells none ++ fieldCells none)) ++ (fieldCells none ++ []) := rfl
  have place : (fieldCells none ++ (fieldCells none ++ fieldCells none)).length = 8 * 3 := rfl
  rw [parts] at struct
  have stored := storeField_ok objfile place struct
  rw [List.append_nil, List.append_assoc, List.append_assoc] at stored
  refine ⟨_, stored, listing.write (by simp), put_self,
    List.replicate (myPathMax - 1) (some 0), (put_of_ne apart).trans name, ?_⟩
  rw [stringCells_length, List.length_replicate]
  rfl

theorem overflows_mem {items : List Item} {item : Item} (short : overflows items = false)
    (member : item ∈ items) : overflows [item] = false := by
  unfold overflows at short ⊢
  rw [List.any_eq_false] at short
  simpa using short item member

end Assign

/-! ## The loop over the lines -/

section Lines

variable {κ α : Type} {allocator : Allocator κ} {base : Heap} {locals : Locals κ}
  {more : List Ptr} {block : Block} {entries : List Listed} {line : List Char}
  {lines : List (List Char)}

/-- A call, before which memory was refused `refusals` times, returns if it gets all the
memory it asks for, and only then; an exception is the one of `getline`. -/
abbrev Supplied (refusals : Nat) (ok : α → Locals κ → Prop) : Post MyException (Locals κ) α where
  ok value after := after.pool.refusals = refusals ∧ ok value after
  throw ex after := ex = .ioException ∧ refusals < after.pool.refusals
  fault after := refusals < after.pool.refusals
  noReturn after := refusals < after.pool.refusals

theorem supplied_bind {β : Type} {program : Reader κ α} {next : α → Reader κ β} {refusals : Nat}
    {strong : α → Locals κ → Prop} {weak : β → Locals κ → Prop}
    (proved : wp program (Supplied refusals strong) locals)
    (rest : ∀ value after, strong value after →
      wp (next value) (Supplied after.pool.refusals weak) after) :
    wp (program >>= next) (Supplied refusals weak) locals := by
  rw [wp_bind]
  refine wp_mono proved ⟨fun value after returned => ?_, fun _ _ lost => lost,
    fun _ lost => lost, fun _ lost => lost⟩
  obtain ⟨same, kept⟩ := returned
  rw [← same]
  exact rest value after kept

theorem supplied_orExit {program : Tmp κ Ptr} {next : Ptr → Reader κ α}
    {given : Ptr → Heap → Prop} {ok : α → Locals κ → Prop}
    (answers : wp program (Allocates locals.pool given) locals.pool)
    (rest : ∀ ptr pool, given ptr pool.heap →
      wp (next ptr) (Supplied pool.refusals ok) { locals with pool := pool }) :
    wp (orExit program >>= next) (Supplied locals.pool.refusals ok) locals := by
  unfold orExit
  rw [wp_bind, wp_bind, wp_onHeap]
  refine wp_mono answers ⟨fun ptr pool answered => ?_, fun _ _ no => no.elim,
    fun _ no => no.elim, fun _ no => no.elim⟩
  change wp (if ptr = 0 then _ else _) _ _
  change if ptr = 0 then locals.pool.refusals < pool.refusals ∧ _
    else pool.refusals = locals.pool.refusals ∧ given ptr pool.heap at answered
  rw [wp_ite]
  constructor
  · intro null
    rw [if_pos null] at answered
    exact answered.1
  · intro notNull
    rw [if_neg notNull] at answered
    rw [← answered.1]
    exact rest ptr pool answered.2

/-- Between two lines: the array points to the mappings listed so far. -/
structure Listed.Turn (base : Heap) (more : List Ptr) (entries : List Listed)
    (locals : Locals κ) : Prop where
  listing : Listing base locals.pool.heap more locals.mappings
    (arrayCells (entries.map Listed.mapping)) entries
  length : locals.length = entries.length

/-- A line that is accepted becomes the last mapping. -/
theorem supplied_addMemMapping (accepted : Accepted line)
    (turn : Listed.Turn base more entries locals) :
    wp (addMemMapping allocator (some line))
      (Supplied locals.pool.refusals fun _ after => after.str = locals.str ∧ ∃ listed,
        listed.content = scanLine line ∧ Listed.Turn base more (entries ++ [listed]) after)
      locals := by
  have length : (arrayCells (entries.map Listed.mapping)).length = 8 * entries.length := by simp
  unfold addMemMapping
  rw [wp_locals, turn.length]
  apply supplied_orExit (places_cRealloc (8 * (entries.length + 1)) turn.listing.null
    turn.listing.has (by omega))
  intro array pool placed
  rw [Block.resize_grow (by omega), length, Nat.mul_succ, Nat.add_sub_cancel_left] at placed
  have moved := turn.listing.move placed
  rw [wp_bind, wp_modify]
  change wp (addLine allocator array entries.length line) _ _
  unfold addLine
  apply supplied_orExit (places_cMalloc sizeofMyMemMapping moved.null)
  intro mapping pool given
  have allocated := moved.allocate given
  obtain ⟨stored, written⟩ := allocated.append_word mapping placed.notNull
  rw [List.length_map] at stored
  rw [wp_bind_ok (onHeap_ok _ stored)]
  apply supplied_orExit (places_cCalloc myPathMax 1 (by decide) written.null)
  intro objfile pool filled
  have listing := written.allocate filled
  have apart : mapping ≠ array ∧ mapping ≠ objfile := by
    have once := listing.gained.once
    rw [inHand_of_ne placed.notNull] at once
    constructor
    · rintro rfl
      simp at once
    · rintro rfl
      simp at once
  have struct : pool.heap mapping = some (List.replicate sizeofMyMemMapping none) := by
    rw [filled.heap, drop_null written.null, put_of_ne apart.2, put_of_ne apart.1, given.heap,
      put_self]
  have name : pool.heap objfile = some (List.replicate (myPathMax * 1) (some 0)) := by
    rw [filled.heap, put_self]
  obtain ⟨linked, stored, fresh⟩ := Filling.fresh listing struct name
  have early : linked.refusals = pool.refusals :=
    refusals_ok (fun _ => refusals_storeCells _ _) stored
  rw [wp_bind_ok (onHeap_ok _ stored)]
  obtain ⟨last, assigned, filling⟩ := assignAll_ok
    (mapsArguments.zip (sscanf mapsFormat line).items) fresh fun item member =>
      overflows_mem accepted.1 (List.of_mem_zip member).2
  have late : last.refusals = linked.refusals :=
    refusals_ok (fun _ => preserves_assignAll refusals_storeCells refusals_storeCells _) assigned
  rw [wp_bind_ok (onHeap_ok _ assigned)]
  have returns : ¬ ((sscanf mapsFormat line).ret ≠ 10 ∧ (sscanf mapsFormat line).ret ≠ 11) := by
    rintro ⟨ten, eleven⟩
    exact accepted.2.elim ten eleven
  rw [if_neg returns]
  refine ⟨late.trans early, rfl, ⟨mapping, objfile, scanLine line⟩, rfl, ?_, ?_⟩
  · have adopted := filling.listing.adopt filling.mapping
    rw [List.map_append]
    exact adopted
  · show entries.length + 1 = _
    rw [List.length_append, List.length_singleton]

theorem supplied_getlineBuffer {next : Bool → Reader κ α} {ok : α → Locals κ → Prop}
    (turn : Listed.Turn base [] entries locals)
    (unread : ∀ after, locals.pool.refusals < after.pool.refusals →
      wp (next false) (Supplied locals.pool.refusals ok) after)
    (read : ∀ after, after.str ≠ 0 → Listed.Turn base [after.str] entries after →
      wp (next true) (Supplied after.pool.refusals ok) after) :
    wp (getlineBuffer allocator line >>= next) (Supplied locals.pool.refusals ok) locals := by
  unfold getlineBuffer
  rw [wp_bind, wp_bind, wp_onHeap]
  refine wp_mono (places_cMalloc (lineSize line) turn.listing.null)
    ⟨fun str pool answered => ?_, fun _ _ no => no.elim, fun _ no => no.elim,
      fun _ no => no.elim⟩
  change if str = 0 then locals.pool.refusals < pool.refusals ∧ _
    else pool.refusals = locals.pool.refusals ∧ Placed 0 _ pool.heap str _ at answered
  change wp (next (str != 0)) _ { locals with pool := pool, str := str }
  by_cases null : str = 0
  · rw [if_pos null] at answered
    have nothing : (str != 0) = false := by simpa using null
    rw [nothing]
    exact unread _ answered.1
  · rw [if_neg null] at answered
    obtain ⟨same, placed⟩ := answered
    rw [bne_iff_ne.mpr null, ← same]
    exact read _ null ⟨turn.listing.allocate placed, turn.length⟩

theorem supplied_freeStr (notNull : locals.str ≠ 0)
    (turn : Listed.Turn base [locals.str] entries locals) :
    wp freeStr (Supplied locals.pool.refusals fun _ after => Listed.Turn base [] entries after)
      locals := by
  have live : (locals.pool.heap locals.str).isSome := turn.listing.gained.live _ (.head _)
  have frees : cFree locals.str locals.pool = .ok () { locals.pool with
      heap := drop locals.pool.heap locals.str
      freed := locals.str :: locals.pool.freed } := (if_neg notNull).trans (if_pos live)
  unfold freeStr
  rw [wp_locals]
  unfold wp
  rw [onHeap_ok locals frees]
  exact ⟨rfl, turn.listing.release, turn.length⟩

/-- Every line that is read becomes a mapping behind the ones before it. -/
theorem supplied_readLines (accepted : ∀ line ∈ lines, Accepted line)
    (turn : Listed.Turn base [] entries locals) :
    wp (readLines allocator false lines)
      (Supplied locals.pool.refusals fun _ after => ∃ listed,
        listed.map Listed.content = lines.map scanLine ∧
          Listed.Turn base [] (entries ++ listed) after) locals := by
  induction lines generalizing entries locals with
  | nil =>
      unfold readLines
      apply supplied_getlineBuffer turn
      · intro after refused
        exact ⟨rfl, refused⟩
      · intro after notNull turned
        rw [if_neg (by simp)]
        refine wp_mono (supplied_freeStr notNull turned) ⟨fun _ last freed => ?_,
          fun _ _ lost => lost, fun _ lost => lost, fun _ lost => lost⟩
        refine ⟨freed.1, [], rfl, ?_⟩
        rw [List.append_nil]
        exact freed.2
  | cons line lines inductionHypothesis =>
      unfold readLines
      apply supplied_getlineBuffer turn
      · intro after refused
        exact ⟨rfl, refused⟩
      · intro after notNull turned
        rw [if_pos rfl]
        apply supplied_bind (supplied_addMemMapping (accepted line (.head _)) turned)
        intro _ middle added
        obtain ⟨same, listed, content, turned⟩ := added
        rw [← same] at notNull turned
        apply supplied_bind (supplied_freeStr notNull turned)
        intro _ freed turned
        apply wp_mono (inductionHypothesis (fun other member => accepted other (.tail _ member))
          turned)
        refine ⟨fun _ after rest => ?_, fun _ _ lost => lost, fun _ lost => lost,
          fun _ lost => lost⟩
        obtain ⟨given, later, contents, turned⟩ := rest
        refine ⟨given, listed :: later, ?_, ?_⟩
        · rw [List.map_cons, List.map_cons, content, contents]
        · rw [List.append_assoc] at turned
          exact turned

/-- The mappings are listed in order, and closed by a NULL. -/
def Lists (base heap : Heap) (mappings : Ptr) (contents : List MyMemMapping) : Prop :=
  ∃ entries, entries.map Listed.content = contents ∧ mappings ≠ 0 ∧
    Listing base heap [] mappings (arrayCells (entries.map Listed.mapping ++ [0])) entries

theorem supplied_addMemMapping_none (turn : Listed.Turn base [] entries locals) :
    wp (addMemMapping allocator none)
      (Supplied locals.pool.refusals fun _ after =>
        Lists base after.pool.heap after.mappings (entries.map Listed.content)) locals := by
  have length : (arrayCells (entries.map Listed.mapping)).length = 8 * entries.length := by simp
  unfold addMemMapping
  rw [wp_locals, turn.length]
  apply supplied_orExit (places_cRealloc (8 * (entries.length + 1)) turn.listing.null
    turn.listing.has (by omega))
  intro array pool placed
  rw [Block.resize_grow (by omega), length, Nat.mul_succ, Nat.add_sub_cancel_left] at placed
  rw [wp_bind, wp_modify]
  obtain ⟨stored, closed⟩ := (turn.listing.move placed).append_word 0 placed.notNull
  rw [List.length_map] at stored
  change wp (onHeap (storeWord array entries.length 0)) _ _
  unfold wp
  rw [onHeap_ok _ stored]
  exact ⟨rfl, entries, rfl, placed.notNull, closed⟩

theorem neverRaises_onHeap {program : Tmp κ α} (quiet : NeverRaises program) :
    NeverRaises (onHeap program : Reader κ α) := by
  intro locals
  rw [wp_onHeap]
  exact quiet locals.pool

theorem neverRaises_cFree (ptr : Ptr) : NeverRaises (cFree ptr : Tmp κ Unit) := by
  intro pool
  unfold wp cFree
  split
  · trivial
  · split
    · trivial
    · trivial

theorem neverRaises_loadWord (array : Ptr) (index : Nat) :
    NeverRaises (loadWord array index : Tmp κ Word) := by
  intro pool
  unfold wp loadWord
  cases wordAt pool.heap array index with
  | some word => trivial
  | none => trivial

theorem neverRaises_freeMemMappingsFrom (mappings : Ptr) (fuel i : Nat) :
    NeverRaises (freeMemMappingsFrom mappings fuel i : Tmp κ Unit) := by
  induction fuel generalizing i with
  | zero => exact fun _ => trivial
  | succ fuel inductionHypothesis =>
      refine (neverRaises_loadWord mappings i).bind fun mapping =>
        .ite (neverRaises_cFree mappings) ?_
      refine (neverRaises_loadWord mapping 3).bind fun objfile => ?_
      exact (neverRaises_cFree objfile).bind fun _ =>
        (neverRaises_cFree mapping).bind fun _ => inductionHypothesis (i + 1)

/-- The handler raises what was caught, if it does not go wrong. -/
theorem handler_raises (fuel : Nat) (ex : MyException) :
    wp (handler fuel ex)
      { ok := fun _ _ => False
        throw := fun raised _ => raised = ex
        fault := fun _ => True
        noReturn := fun _ => True } locals := by
  unfold handler
  rw [wp_ite]
  refine ⟨fun _ => ?_, fun _ => trivial⟩
  have any {β : Type} (program : Reader κ β) : Preserves (fun _ => True) program :=
    fun _ _ => trivial
  have frees : NeverRaises (freeStr : Reader κ Unit) :=
    (NeverRaises.gets id).bind fun _ => neverRaises_onHeap (neverRaises_cFree _)
  refine frees.wp_bind (any _) trivial (fun _ after _ => ?_) (fun _ _ => trivial)
    fun _ _ => trivial
  rw [wp_bind, wp_gets]
  have cleans : NeverRaises (freeMemMappings fuel after.mappings : Tmp κ Unit) :=
    .ite (.pure ()) (neverRaises_freeMemMappingsFrom after.mappings fuel 0)
  exact (neverRaises_onHeap cleans).wp_bind (any _) trivial (fun _ _ _ => rfl)
    (fun _ _ => trivial) fun _ _ => trivial

theorem refusals_onHeap {counts : Nat → Prop} {program : Tmp κ α}
    (preserves : Preserves (fun pool => counts pool.refusals) program) :
    Preserves (fun locals : Locals κ => counts locals.pool.refusals) (onHeap program) := by
  apply Preserves.of_wp
  intro locals holds
  rw [wp_onHeap]
  exact preserves.wp holds

theorem refusals_freeMemMappingsFrom {counts : Nat → Prop} (mappings : Ptr) (fuel i : Nat) :
    Preserves (fun pool => counts pool.refusals)
      (freeMemMappingsFrom mappings fuel i : Tmp κ Unit) := by
  induction fuel generalizing i with
  | zero => exact .noReturn
  | succ fuel inductionHypothesis =>
      refine (refusals_loadWord mappings i).bind fun mapping => .ite (refusals_cFree mappings) ?_
      refine (refusals_loadWord mapping 3).bind fun objfile => ?_
      exact (refusals_cFree objfile).bind fun _ =>
        (refusals_cFree mapping).bind fun _ => inductionHypothesis (i + 1)

/-- The handler asks for no memory. -/
theorem refusals_handler {counts : Nat → Prop} (fuel : Nat) (ex : MyException) :
    Preserves (fun locals : Locals κ => counts locals.pool.refusals) (handler fuel ex) := by
  have frees : Preserves (fun locals : Locals κ => counts locals.pool.refusals) freeStr :=
    (Preserves.gets id).bind fun _ => refusals_onHeap (refusals_cFree _)
  refine .ite (frees.bind fun _ => (Preserves.gets id).bind fun locals => ?_) .fault
  have mappings : Preserves (fun pool : Pool κ => counts pool.refusals)
      (freeMemMappings fuel locals.mappings) :=
    .ite (.pure ()) (refusals_freeMemMappingsFrom locals.mappings fuel 0)
  exact (refusals_onHeap mappings).bind fun _ => .throw _

/-- A file whose lines are all accepted is listed, unless memory runs out. -/
theorem supplied_getMemMappingsFile {pool : Pool κ} (fuel : Nat) (null : pool.heap 0 = none)
    (accepted : ∀ line ∈ lines, Accepted line) :
    wp (getMemMappingsFile allocator fuel false lines)
      (Supplied pool.refusals fun mappings after =>
        Lists pool.heap after.pool.heap mappings (lines.map scanLine)) (.start pool) := by
  have turn : Listed.Turn pool.heap [] [] (Locals.start pool) :=
    ⟨⟨null, .refl _, rfl, nofun⟩, rfl⟩
  unfold getMemMappingsFile
  rw [wp_attempt]
  have reads : wp (readFile allocator false lines)
      (Supplied pool.refusals fun mappings after =>
        Lists pool.heap after.pool.heap mappings (lines.map scanLine)) (.start pool) := by
    unfold readFile
    apply supplied_bind (supplied_readLines accepted turn)
    intro _ middle read
    obtain ⟨entries, contents, turned⟩ := read
    rw [List.nil_append] at turned
    apply supplied_bind (supplied_addMemMapping_none turned)
    intro _ after lists
    rw [contents] at lists
    exact ⟨rfl, lists⟩
  refine wp_mono reads ⟨fun _ _ lists => lists, fun ex after lost => ?_, fun _ lost => lost,
    fun _ lost => lost⟩
  obtain ⟨rfl, refused⟩ := lost
  exact wp_mono (wp_and (handler_raises fuel .ioException)
      ((refusals_handler fuel .ioException).wp refused))
    ⟨fun _ _ both => both.1.elim, fun _ _ both => both, fun _ both => both.2,
      fun _ both => both.2⟩

end Lines

end MyDbg.Utils.MapsFile
