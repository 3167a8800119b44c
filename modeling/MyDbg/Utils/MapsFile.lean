import MyDbg.Utils.MemMappings
import MyDbg.Utils.Memory
import MyDbg.Utils.PointerArrays

/-!
Contract: `get_mem_mappings_file` of `mem_mappings.c` and the blocks it allocates.

Owns: `add_mem_mapping`, `free_mem_mappings` and `get_mem_mappings_file` on the
heap; what its handler finds when a line cannot be parsed or read; and when it
cleans up.

Does not own: what is scanned from a line. Locals keep their values when an
exception is caught, and `getline`, whose `*n` is 0, allocates a buffer
whatever `*lineptr` is.
-/

namespace MyDbg.Utils.MapsFile

open LittleEndian Ownership ProgramLogic Scanf

/-- The locals of `get_mem_mappings_file`, with the heap. -/
structure Locals (κ : Type) where
  pool : Pool κ
  mappings : Ptr
  length : Nat
  str : Ptr

abbrev Reader (κ : Type) := Program MyException (Locals κ)

/-- The locals when the function is called. -/
def Locals.start {κ : Type} (pool : Pool κ) : Locals κ where
  pool := pool
  mappings := 0
  length := 0
  str := 0

section Functions

variable {κ α : Type}

def onHeap (program : Tmp κ α) : Reader κ α := fun locals =>
  match program locals.pool with
  | .ok value pool => .ok value { locals with pool := pool }
  | .throw ex pool => .throw ex { locals with pool := pool }
  | .fault pool => .fault { locals with pool := pool }
  | .noReturn pool => .noReturn { locals with pool := pool }

/-- `memory_exhausted` exits the debugger. -/
def orExit (program : Tmp κ Ptr) : Reader κ Ptr := do
  let ptr ← onHeap program
  if ptr = 0 then Program.noReturn else return ptr

/-- `sizeof(struct my_mem_mapping)`, four words. -/
def sizeofMyMemMapping : Nat := 32

/-- A string with its NUL. -/
def stringCells (s : List Char) : Block :=
  s.map (fun c => some (BitVec.ofNat 8 c.toNat)) ++ [some 0]

/-- `sscanf` stores an item where its argument points. -/
def assign (mapping objfile : Ptr) : Argument × Item → Tmp κ Unit
  | (.start, .number n) => storeWord mapping 0 n
  | (.stop, .number n) => storeWord mapping 1 n
  | (.offset, .number n) => storeWord mapping 2 n
  | (.objfile, .string s) => storeCells objfile 0 (stringCells s)
  | _ => return ()

def assignAll (mapping objfile : Ptr) : List (Argument × Item) → Tmp κ Unit
  | [] => return ()
  | item :: items => do
      assign mapping objfile item
      assignAll mapping objfile items

variable (allocator : Allocator κ)

/-- The new element of the array, and what it points to. -/
def addLine (mappings : Ptr) (length : Nat) (line : List Char) : Reader κ Unit := do
  let mapping ← orExit (cMalloc allocator sizeofMyMemMapping)
  onHeap (storeWord mappings length mapping)
  let objfile ← orExit (cCalloc allocator myPathMax 1)
  onHeap (storeWord mapping 3 objfile)
  let scanned := sscanf mapsFormat line
  onHeap (assignAll mapping objfile (mapsArguments.zip scanned.items))
  if scanned.ret ≠ 10 ∧ scanned.ret ≠ 11 then
    Program.throw .scanfException
  else
    Program.modify fun locals => { locals with length := length + 1 }

/-- `length` is set by the caller, and only where the call returns. -/
def addMemMapping (line : Option (List Char)) : Reader κ Unit := do
  let locals ← Program.gets id
  let mappings ← orExit (cRealloc allocator locals.mappings (8 * (locals.length + 1)))
  Program.modify fun locals => { locals with mappings := mappings }
  match line with
  | none => onHeap (storeWord mappings locals.length 0)
  | some line => addLine allocator mappings locals.length line

/-- The loop of `free_mem_mappings`, from element `i` on. -/
def freeMemMappingsFrom (mappings : Ptr) : Nat → Nat → Tmp κ Unit
  | 0, _ => Program.noReturn
  | fuel + 1, i => do
      let mapping ← loadWord mappings i
      if mapping = 0 then
        cFree mappings
      else
        let objfile ← loadWord mapping 3
        cFree objfile
        cFree mapping
        freeMemMappingsFrom mappings fuel (i + 1)

def freeMemMappings (fuel : Nat) (mappings : Ptr) : Tmp κ Unit :=
  if mappings = 0 then return () else freeMemMappingsFrom mappings fuel 0

/-- The size of the buffer of a line. -/
def lineSize (line : List Char) : Nat := max 120 (line.length + 1)

/-- What `getline` does with `str`; `false` where there is no memory for the buffer. -/
def getlineBuffer (line : List Char) : Reader κ Bool := do
  let str ← onHeap (cMalloc allocator (lineSize line))
  Program.modify fun locals => { locals with str := str }
  return str != 0

def freeStr : Reader κ Unit := do
  let locals ← Program.gets id
  onHeap (cFree locals.str)

/-- The loop over the lines that can be read. Behind them is the end of the file, or an
error if `failing`. -/
def readLines (failing : Bool) : List (List Char) → Reader κ Unit
  | [] => do
      let read ← getlineBuffer allocator []
      if failing ∨ ¬ read then Program.throw .ioException else freeStr
  | line :: lines => do
      let read ← getlineBuffer allocator line
      if read then
        addMemMapping allocator (some line)
        freeStr
        readLines failing lines
      else
        Program.throw .ioException

/-- The body of the `try`. -/
def readFile (failing : Bool) (lines : List (List Char)) : Reader κ Ptr := do
  readLines allocator failing lines
  addMemMapping allocator none
  let locals ← Program.gets id
  return locals.mappings

/-- `catch (ScanfException, IOException)`, and the `throw` behind the `etry`. For any
other exception `my_ex` is not set. -/
def handler (fuel : Nat) (ex : MyException) : Reader κ Ptr :=
  if ex = .scanfException ∨ ex = .ioException then do
    freeStr
    let locals ← Program.gets id
    onHeap (freeMemMappings fuel locals.mappings)
    Program.throw ex
  else
    Program.fault

def getMemMappingsFile (fuel : Nat) (failing : Bool) (lines : List (List Char)) : Reader κ Ptr :=
  Program.attempt (readFile allocator failing lines) pure (handler fuel)

end Functions

/-! ## What is asked of the handler -/

section Statement

variable {κ : Type}

/-- The array is NULL, or there is a NULL in it. -/
def Terminated (heap : Heap) (mappings : Ptr) : Prop :=
  mappings = 0 ∨ ∃ i, wordAt heap mappings i = some 0

/-- `ptr` is a mapping in the array, or what its `objfile` points to. -/
def StoredIn (heap : Heap) (mappings ptr : Ptr) : Prop :=
  mappings ≠ 0 ∧ ptr ≠ 0 ∧ ∃ i mapping, wordAt heap mappings i = some mapping ∧ mapping ≠ 0 ∧
    (ptr = mapping ∨ wordAt heap mapping 3 = some ptr)

/-- Where the body raises, the handler can free the array, frees the mappings in it and
the line buffer once, and the exception is raised again. -/
def CleanedUp (allocator : Allocator κ) (failing : Bool) (lines : List (List Char))
    (pool : Pool κ) : Prop :=
  ∀ ex middle, readFile allocator failing lines (.start pool) = .throw ex middle →
    Terminated middle.pool.heap middle.mappings ∧
      ∃ enough, ∀ fuel, enough ≤ fuel → ∃ after frees,
        getMemMappingsFile allocator fuel failing lines (.start pool) = .throw ex after ∧
          after.pool.freed = frees ++ middle.pool.freed ∧
          (∀ ptr ∈ inHand middle.str, frees.count ptr = 1) ∧
          ∀ ptr, StoredIn middle.pool.heap middle.mappings ptr → frees.count ptr = 1

/-- It is the first `getline` that fails: there is nothing to read, or no buffer to read
the first line into. -/
def FirstReadFails (allocator : Allocator κ) (lines : List (List Char)) (pool : Pool κ) : Prop :=
  ∀ line ∈ lines.head?, (allocator.malloc pool.alloc pool.heap (lineSize line)).1 = none

end Statement

/-! ## The array as it grows -/

section Growing

variable {κ α : Type} {allocator : Allocator κ} {locals base : Locals κ} {words : List Word}
  {array mapping objfile : Ptr} {block : Block}

theorem wp_onHeap (program : Tmp κ α) (post : Post MyException (Locals κ) α) :
    wp (onHeap program) post locals ↔
      wp program
        { ok := fun value pool => post.ok value { locals with pool := pool }
          throw := fun ex pool => post.throw ex { locals with pool := pool }
          fault := fun pool => post.fault { locals with pool := pool }
          noReturn := fun pool => post.noReturn { locals with pool := pool } }
        locals.pool := by
  unfold wp onHeap
  cases program locals.pool <;> rfl

/-- The locals are read. -/
theorem wp_locals {next : Locals κ → Reader κ α} {post : Post MyException (Locals κ) α} :
    wp (Program.gets id >>= next) post locals ↔ wp (next locals) post locals := Iff.rfl

theorem onHeap_ok {program : Tmp κ α} {value : α} {after : Pool κ} (locals : Locals κ)
    (ends : program locals.pool = .ok value after) :
    onHeap program locals = .ok value { locals with pool := after } := by
  simp only [onHeap, ends]

/-- The array of the mappings is `block`, and none of the locals has changed. -/
structure Stays (base : Locals κ) (block : Block) (locals : Locals κ) : Prop where
  mappings : locals.mappings = base.mappings
  length : locals.length = base.length
  str : locals.str = base.str
  found : locals.pool.heap base.mappings = some block

theorem preserves_onHeap {program : Tmp κ α}
    (preserves : Preserves (fun pool => pool.heap base.mappings = some block) program) :
    Preserves (Stays base block) (onHeap program) := by
  apply Preserves.of_wp
  intro locals stays
  rw [wp_onHeap]
  have keeps (pool : Pool κ) (found : pool.heap base.mappings = some block) :
      Stays base block { locals with pool := pool } :=
    ⟨stays.mappings, stays.length, stays.str, found⟩
  exact wp_mono (preserves.wp stays.found)
    ⟨fun _ => keeps, fun _ => keeps, keeps, keeps⟩

/-- A call that leaves the array alone, and what follows it. -/
theorem wp_stays {β : Type} {program : Tmp κ β} {next : β → Reader κ α}
    {post : Post MyException (Locals κ) α}
    (preserves : Preserves (fun pool => pool.heap base.mappings = some block) program)
    (stays : Stays base block locals)
    (raises : ∀ ex after, Stays base block after → post.throw ex after)
    (faults : ∀ after, post.fault after) (exits : ∀ after, post.noReturn after)
    (rest : ∀ value after, Stays base block after → wp (next value) post after) :
    wp (onHeap program >>= next) post locals := by
  rw [wp_bind]
  exact wp_mono ((preserves_onHeap preserves).wp stays)
    ⟨rest, raises, fun _ _ => faults _, fun _ _ => exits _⟩

/-- What storing in the mapping and in its name preserves. -/
theorem preserves_assign {invariant : Pool κ → Prop}
    (fields : ∀ offset cells, Preserves invariant (storeCells mapping offset cells))
    (name : ∀ offset cells, Preserves invariant (storeCells objfile offset cells))
    (item : Argument × Item) : Preserves invariant (assign mapping objfile item) := by
  unfold assign
  split
  · exact fields _ _
  · exact fields _ _
  · exact fields _ _
  · exact name _ _
  · exact .pure ()

theorem preserves_assignAll {invariant : Pool κ → Prop}
    (fields : ∀ offset cells, Preserves invariant (storeCells mapping offset cells))
    (name : ∀ offset cells, Preserves invariant (storeCells objfile offset cells))
    (items : List (Argument × Item)) : Preserves invariant (assignAll mapping objfile items) := by
  induction items with
  | nil => exact .pure ()
  | cons item items inductionHypothesis =>
      exact (preserves_assign fields name item).bind fun _ => inductionHypothesis

/-- Behind an allocation there is a block that was not there. -/
theorem wp_orExit {program : Tmp κ Ptr} {next : Ptr → Reader κ α}
    {post : Post MyException (Locals κ) α} {given : Ptr → Heap → Prop}
    (answers : wp program (Allocates locals.pool given) locals.pool)
    (exits : ∀ after, post.noReturn after)
    (rest : ∀ ptr pool, given ptr pool.heap →
      wp (next ptr) post { locals with pool := pool }) :
    wp (orExit program >>= next) post locals := by
  unfold orExit
  rw [wp_bind, wp_bind, wp_onHeap]
  refine wp_mono answers ⟨fun ptr pool answered => ?_, fun _ _ no => no.elim,
    fun _ no => no.elim, fun _ no => no.elim⟩
  change wp (if ptr = 0 then _ else _) _ _
  rw [wp_ite]
  constructor
  · intro _
    exact exits _
  · intro notNull
    change if ptr = 0 then _ else _ ∧ given ptr pool.heap at answered
    rw [if_neg notNull] at answered
    exact rest ptr pool answered.2

/-- The words of the array behind an `add_mem_mapping`, whether it returned or raised. -/
def Longer (base : Locals κ) (words : List Word) (locals : Locals κ) : Prop :=
  ∃ mapping, mapping ≠ 0 ∧ Stays base (arrayCells (words ++ [mapping])) locals

theorem wp_addLine {line : List Char} {spare : Block} (base : Locals κ)
    (found : base.pool.heap base.mappings = some (arrayCells words ++ spare))
    (room : spare.length = 8) (length : base.length = words.length) :
    wp (addLine allocator base.mappings base.length line)
      { ok := fun _ after => Longer base words { after with length := base.length } ∧
          after.length = base.length + 1
        throw := fun _ => Longer base words
        fault := fun _ => True
        noReturn := fun _ => True } base := by
  unfold addLine
  apply wp_orExit (answers_cMalloc sizeofMyMemMapping) (fun _ => trivial)
  intro mapping pool allocated
  have apart : base.mappings ≠ mapping := allocated.ne found
  have full : spare.drop 8 = [] := List.drop_eq_nil_of_le room.le
  have stored := storeWord_ok mapping (allocated.kept _ _ found) room.ge
  rw [full, List.append_nil, ← length] at stored
  rw [wp_bind_ok (onHeap_ok _ stored)]
  apply wp_orExit (answers_cCalloc myPathMax 1 (by decide)) (fun _ => trivial)
  intro objfile pool filled
  have beside : base.mappings ≠ objfile := filled.ne put_self
  have stays : Stays base (arrayCells (words ++ [mapping])) { base with pool := pool } :=
    ⟨rfl, rfl, rfl, filled.kept _ _ put_self⟩
  have longer (after : Locals κ) (stays : Stays base (arrayCells (words ++ [mapping])) after) :
      Longer base words after := ⟨mapping, allocated.notNull, stays⟩
  apply wp_stays (preserves_storeCells apart _ _) stays (fun _ after stays => longer after stays)
    (fun _ => trivial) fun _ => trivial
  intro _ after stays
  apply wp_stays
    (preserves_assignAll (preserves_storeCells apart) (preserves_storeCells beside) _) stays
    (fun _ after stays => longer after stays) (fun _ => trivial) fun _ => trivial
  intro _ after stays
  rw [wp_ite]
  constructor
  · intro _
    exact longer after stays
  · intro _
    exact ⟨longer _ ⟨stays.mappings, rfl, stays.str, stays.found⟩, rfl⟩

/-- The array holds `words` and nothing else, and none of them is NULL. -/
structure Growing (words : List Word) (locals : Locals κ) : Prop where
  has : Has locals.pool.heap locals.mappings (arrayCells words)
  some : ∀ word ∈ words, word ≠ 0

/-- There is an array, with no end. -/
def Endless (locals : Locals κ) : Prop := ∃ words, words ≠ [] ∧ Growing words locals

theorem Endless.unterminated (endless : Endless locals) :
    ¬ Terminated locals.pool.heap locals.mappings := by
  obtain ⟨words, nonempty, has, some⟩ := endless
  unfold Has at has
  have notNull : locals.mappings ≠ 0 := by
    intro null
    rw [if_pos null] at has
    have length := arrayCells_length words
    rw [has] at length
    exact nonempty (List.length_eq_zero_iff.mp (by simpa using length.symm))
  rw [if_neg notNull] at has
  rintro (null | ⟨i, zero⟩)
  · exact notNull null
  · rcases Nat.lt_or_ge i words.length with below | above
    · rw [← List.append_nil (arrayCells words)] at has
      rw [wordAt_some has (List.getElem?_eq_getElem below)] at zero
      exact some _ (List.getElem_mem below) (Option.some.inj zero)
    · rw [wordAt_outside has above] at zero
      cases zero

theorem Stays.growing (stays : Stays base (arrayCells (words ++ [mapping])) locals)
    (notNull : base.mappings ≠ 0) (nonzero : mapping ≠ 0) (some : ∀ word ∈ words, word ≠ 0) :
    Growing (words ++ [mapping]) locals := by
  constructor
  · unfold Has
    rw [stays.mappings, if_neg notNull]
    exact stays.found
  · intro word member
    rcases List.mem_append.mp member with before | last
    · exact some word before
    · rw [List.mem_singleton.mp last]
      exact nonzero

/-- Between two lines the array is as long as `length` says, and apart from the buffer. -/
structure Between (words : List Word) (locals : Locals κ) : Prop extends Growing words locals where
  length : locals.length = words.length
  apart : locals.str ≠ locals.mappings

theorem wp_addMemMapping {line : List Char} (between : Between words locals)
    (buffer : locals.pool.heap locals.str = some block) :
    wp (addMemMapping allocator (some line))
      { ok := fun _ after => ∃ mapping, Between (words ++ [mapping]) after
        throw := fun _ => Endless
        fault := fun _ => True
        noReturn := fun _ => True } locals := by
  unfold addMemMapping
  rw [wp_locals]
  have grows := answers_cRealloc allocator (8 * (locals.length + 1)) between.has
    (by rw [arrayCells_length, between.length]; omega) (by omega)
  apply wp_orExit grows (fun _ => trivial)
  intro array pool grown
  have apart : locals.str ≠ array := by
    rcases grown.place with same | free
    · rw [same]
      exact between.apart
    · rintro rfl
      rw [free] at buffer
      cases buffer
  rw [wp_bind, wp_modify]
  refine wp_mono (wp_addLine { locals with pool := pool, mappings := array }
    grown.found (by rw [List.length_replicate, arrayCells_length, between.length]; omega)
    between.length) ⟨fun _ after ends => ?_, fun _ after longer => ?_, fun _ _ => trivial,
      fun _ _ => trivial⟩
  · obtain ⟨⟨mapping, nonzero, stays⟩, longer⟩ := ends
    have growing := stays.growing grown.notNull nonzero between.some
    refine ⟨mapping, ⟨growing.has, growing.some⟩, ?_, ?_⟩
    · rw [longer, List.length_append, List.length_singleton]
      exact congrArg (· + 1) between.length
    · have str : after.str = locals.str := stays.str
      have mappings : after.mappings = array := stays.mappings
      rw [str, mappings]
      exact apart
  · obtain ⟨mapping, nonzero, stays⟩ := longer
    exact ⟨_, List.append_ne_nil_of_right_ne_nil _ (List.cons_ne_nil _ _),
      stays.growing grown.notNull nonzero between.some⟩

/-! ## The loop -/

/-- The loop has come round: the array is as long as `length` says. -/
structure Turned (words : List Word) (locals : Locals κ) : Prop extends Growing words locals where
  length : locals.length = words.length

theorem wp_getlineBuffer {line : List Char} (turned : Turned words locals) :
    wp (getlineBuffer allocator line)
      { ok := fun read after => Growing words after ∧ after.mappings = locals.mappings ∧
          if read then Between words after ∧ ∃ block, after.pool.heap after.str = some block
          else after.str = 0
        throw := fun _ _ => False
        fault := fun _ => False
        noReturn := fun _ => False } locals := by
  unfold getlineBuffer
  rw [wp_bind, wp_onHeap]
  refine wp_mono (answers_cMalloc (lineSize line)) ⟨fun str pool answered => ?_,
    fun _ _ no => no, fun _ no => no, fun _ no => no⟩
  change Growing words { locals with pool := pool, str := str } ∧ locals.mappings = _ ∧
    if (str != 0) = true then _ else str = 0
  change if str = 0 then _ ∧ pool.heap = _ else _ ∧ Fresh _ pool.heap _ _ at answered
  by_cases null : str = 0
  · rw [if_pos null] at answered
    rw [if_neg (by simpa using null)]
    refine ⟨⟨?_, turned.some⟩, rfl, null⟩
    change Has pool.heap locals.mappings _
    rw [answered.2]
    exact turned.has
  · rw [if_neg null] at answered
    rw [if_pos (bne_iff_ne.mpr null)]
    obtain ⟨_, fresh⟩ := answered
    have growing : Growing words { locals with pool := pool, str := str } :=
      ⟨turned.has.extend fresh.kept, turned.some⟩
    exact ⟨growing, rfl, ⟨growing, turned.length, turned.has.ne fresh⟩, _, fresh.found⟩

theorem wp_freeStr (between : Between words locals) :
    wp freeStr
      { ok := fun _ after => Turned words after
        throw := fun _ _ => False
        fault := fun _ => True
        noReturn := fun _ => True } locals := by
  unfold freeStr
  rw [wp_locals, wp_onHeap]
  unfold wp cFree
  by_cases null : locals.str = 0
  · rw [if_pos null]
    exact ⟨⟨between.has, between.some⟩, between.length⟩
  · rw [if_neg null]
    split
    · refine ⟨⟨?_, between.some⟩, between.length⟩
      have has := between.has
      unfold Has at has ⊢
      change if locals.mappings = 0 then _ else drop locals.pool.heap locals.str locals.mappings = _
      rwa [drop_of_ne between.apart.symm]
    · trivial

/-- Behind the line that was read comes the rest of the loop. -/
theorem wp_line {failing : Bool} {line : List Char} {lines : List (List Char)}
    (between : Between words locals) (buffer : locals.pool.heap locals.str = some block)
    (rest : ∀ more after, more ≠ [] → Turned more after →
      wp (readLines allocator failing lines)
        { ok := fun _ after => ∃ more, Turned more after
          throw := fun _ => Endless
          fault := fun _ => True
          noReturn := fun _ => True } after) :
    wp (do
        addMemMapping allocator (some line)
        freeStr
        readLines allocator failing lines)
      { ok := fun _ after => ∃ more, Turned more after
        throw := fun _ => Endless
        fault := fun _ => True
        noReturn := fun _ => True } locals := by
  rw [wp_bind]
  refine wp_mono (wp_addMemMapping between buffer) ⟨fun _ middle added => ?_,
    fun _ _ endless => endless, fun _ _ => trivial, fun _ _ => trivial⟩
  obtain ⟨mapping, added⟩ := added
  change wp (freeStr >>= _) _ middle
  rw [wp_bind]
  refine wp_mono (wp_freeStr added) ⟨fun _ after turned => ?_, fun _ _ no => no.elim,
    fun _ _ => trivial, fun _ _ => trivial⟩
  exact rest _ after (List.append_ne_nil_of_right_ne_nil _ (List.cons_ne_nil _ _)) turned

/-- Once there is an array it has no end until the loop is left. -/
theorem wp_readLines {failing : Bool} {lines : List (List Char)} (turned : Turned words locals)
    (nonempty : words ≠ []) :
    wp (readLines allocator failing lines)
      { ok := fun _ after => ∃ more, Turned more after
        throw := fun _ => Endless
        fault := fun _ => True
        noReturn := fun _ => True } locals := by
  induction lines generalizing words locals with
  | nil =>
      unfold readLines
      rw [wp_bind]
      refine wp_mono (wp_getlineBuffer turned) ⟨fun read after allocated => ?_,
        fun _ _ no => no.elim, fun _ no => no.elim, fun _ no => no.elim⟩
      change wp (if failing = true ∨ ¬ read = true then _ else _) _ after
      rw [wp_ite]
      constructor
      · intro _
        exact ⟨words, nonempty, allocated.1⟩
      · intro ends
        rw [not_or, not_not] at ends
        have buffer := allocated.2.2
        rw [if_pos ends.2] at buffer
        exact wp_mono (wp_freeStr buffer.1) ⟨fun _ _ turned => ⟨words, turned⟩,
          fun _ _ no => no.elim, fun _ _ => trivial, fun _ _ => trivial⟩
  | cons line lines inductionHypothesis =>
      unfold readLines
      rw [wp_bind]
      refine wp_mono (wp_getlineBuffer turned) ⟨fun read after allocated => ?_,
        fun _ _ no => no.elim, fun _ no => no.elim, fun _ no => no.elim⟩
      change wp (if read = true then _ else _) _ after
      rw [wp_ite]
      constructor
      · intro read
        have buffer := allocated.2.2
        rw [if_pos read] at buffer
        obtain ⟨between, block, buffer⟩ := buffer
        exact wp_line between buffer fun _ _ some turned => inductionHypothesis turned some
      · intro _
        exact ⟨words, nonempty, allocated.1⟩

/-- The `NULL` behind the last line is appended, or the debugger exits. -/
theorem wp_addMemMapping_none (turned : Turned words locals) :
    wp (addMemMapping allocator none)
      { ok := fun _ _ => True
        throw := fun _ _ => False
        fault := fun _ => True
        noReturn := fun _ => True } locals := by
  unfold addMemMapping
  rw [wp_locals]
  have grows := answers_cRealloc allocator (8 * (locals.length + 1)) turned.has
    (by rw [arrayCells_length, turned.length]; omega) (by omega)
  apply wp_orExit grows (fun _ => trivial)
  intro array pool grown
  rw [wp_bind, wp_modify]
  change wp (onHeap (storeWord array locals.length 0)) _ _
  rw [wp_onHeap]
  unfold wp storeWord storeCells
  split
  · trivial
  · split <;> trivial

theorem getlineBuffer_false {line : List Char} {pool : Pool κ}
    (refuses : (allocator.malloc pool.alloc pool.heap (lineSize line)).1 = none) :
    ∃ after, getlineBuffer allocator line (.start pool) = .ok false (.start after) := by
  cases answers : allocator.malloc pool.alloc pool.heap (lineSize line) with
  | mk chosen alloc =>
      rw [answers] at refuses
      obtain rfl : chosen = none := refuses
      have allocates : cMalloc allocator (lineSize line) pool =
          .ok 0 (pool.refused alloc) := by
        unfold cMalloc
        rw [answers]
      refine ⟨pool.refused alloc, ?_⟩
      unfold getlineBuffer
      rw [Program.bind_ok (onHeap_ok (.start pool) allocates)]
      rfl

theorem getlineBuffer_true {line : List Char} {pool : Pool κ}
    (gives : (allocator.malloc pool.alloc pool.heap (lineSize line)).1 ≠ none) :
    ∃ after, getlineBuffer allocator line (.start pool) = .ok true after := by
  have fresh := allocator.malloc_fresh pool.alloc pool.heap (lineSize line)
  cases answers : allocator.malloc pool.alloc pool.heap (lineSize line) with
  | mk chosen alloc =>
      rw [answers] at fresh gives
      cases chosen with
      | none => exact absurd rfl gives
      | some str =>
          have allocates : ∃ after, cMalloc allocator (lineSize line) pool = .ok str after := by
            unfold cMalloc
            rw [answers]
            exact ⟨_, rfl⟩
          obtain ⟨after, allocates⟩ := allocates
          have notNull : (str != 0) = true := bne_iff_ne.mpr (fresh str rfl).1
          refine ⟨{ Locals.start after with str := str }, ?_⟩
          unfold getlineBuffer
          rw [Program.bind_ok (onHeap_ok (.start pool) allocates), ← notNull]
          rfl

/-- What is raised behind the first `getline` leaves an array without an end. -/
theorem readFile_endless {failing : Bool} {line : List Char} {lines : List (List Char)}
    {pool : Pool κ}
    (gives : (allocator.malloc pool.alloc pool.heap (lineSize line)).1 ≠ none) :
    wp (readFile allocator failing (line :: lines))
      { ok := fun _ _ => True
        throw := fun _ => Endless
        fault := fun _ => True
        noReturn := fun _ => True } (.start pool) := by
  have turned : Turned [] (Locals.start pool) := ⟨⟨rfl, nofun⟩, rfl⟩
  obtain ⟨after, read⟩ := getlineBuffer_true gives
  obtain ⟨between, block, buffer⟩ := ((wp_getlineBuffer turned).ok read).2.2
  unfold readFile readLines
  rw [wp_bind, wp_bind_ok read]
  refine wp_mono (wp_line between buffer fun more after some turned => wp_readLines turned some)
    ⟨fun _ after turned => ?_, fun _ _ endless => endless, fun _ _ => trivial, fun _ _ => trivial⟩
  obtain ⟨more, turned⟩ := turned
  change wp (addMemMapping allocator none >>= _) _ after
  rw [wp_bind]
  exact wp_mono (wp_addMemMapping_none turned) ⟨fun _ _ _ => trivial, fun _ _ no => no.elim,
    fun _ _ => trivial, fun _ _ => trivial⟩

/-! ## The handler -/

/-- Where the first `getline` fails there is no array, and a buffer or none. -/
theorem readFile_first {failing : Bool} {lines : List (List Char)} {pool : Pool κ}
    (first : FirstReadFails allocator lines pool) :
    wp (readFile allocator failing lines)
      { ok := fun _ _ => True
        throw := fun ex middle => ex = .ioException ∧ middle.mappings = 0 ∧
          (middle.str = 0 ∨ (middle.pool.heap middle.str).isSome)
        fault := fun _ => True
        noReturn := fun _ => True } (.start pool) := by
  have turned : Turned [] (Locals.start pool) := ⟨⟨rfl, nofun⟩, rfl⟩
  unfold readFile
  cases lines with
  | nil =>
      unfold readLines
      rw [wp_bind, wp_bind]
      refine wp_mono (wp_getlineBuffer turned) ⟨fun read after allocated => ?_,
        fun _ _ no => no.elim, fun _ no => no.elim, fun _ no => no.elim⟩
      obtain ⟨_, mappings, buffer⟩ := allocated
      change wp (if failing = true ∨ ¬ read = true then _ else _) _ after
      rw [wp_ite]
      constructor
      · intro _
        refine ⟨rfl, mappings, ?_⟩
        cases read with
        | false => exact .inl buffer
        | true => exact .inr (Option.isSome_iff_exists.mpr buffer.2)
      · intro ends
        rw [not_or, not_not] at ends
        rw [if_pos ends.2] at buffer
        refine wp_mono (wp_freeStr buffer.1) ⟨fun _ last turned => ?_,
          fun _ _ no => no.elim, fun _ _ => trivial, fun _ _ => trivial⟩
        change wp (addMemMapping allocator none >>= _) _ last
        rw [wp_bind]
        exact wp_mono (wp_addMemMapping_none turned) ⟨fun _ _ _ => trivial,
          fun _ _ no => no.elim, fun _ _ => trivial, fun _ _ => trivial⟩
  | cons line lines =>
      obtain ⟨after, read⟩ := getlineBuffer_false (first line rfl)
      unfold readLines
      rw [wp_bind, wp_bind_ok read]
      exact ⟨rfl, rfl, .inl rfl⟩

theorem freeStr_ok (buffer : locals.str = 0 ∨ (locals.pool.heap locals.str).isSome) :
    ∃ after, freeStr locals = .ok () after ∧ after.mappings = locals.mappings ∧
      after.pool.freed = inHand locals.str ++ locals.pool.freed := by
  unfold freeStr inHand
  change ∃ after, onHeap (cFree locals.str) locals = .ok () after ∧ _
  by_cases null : locals.str = 0
  · have frees : cFree locals.str locals.pool = .ok () locals.pool := if_pos null
    rw [onHeap_ok _ frees, if_pos null]
    exact ⟨_, rfl, rfl, rfl⟩
  · have live := buffer.resolve_left null
    have frees : cFree locals.str locals.pool = .ok () { locals.pool with
        heap := drop locals.pool.heap locals.str
        freed := locals.str :: locals.pool.freed } := (if_neg null).trans (if_pos live)
    rw [onHeap_ok _ frees, if_neg null]
    exact ⟨_, rfl, rfl, rfl⟩

/-- Behind a first line the handler runs past the end of the array. -/
theorem not_cleanedUp {failing : Bool} {line : List Char} {lines : List (List Char)}
    {pool : Pool κ} {ex : MyException} {middle : Locals κ}
    (gives : (allocator.malloc pool.alloc pool.heap (lineSize line)).1 ≠ none)
    (raises : readFile allocator failing (line :: lines) (.start pool) = .throw ex middle) :
    ¬ CleanedUp allocator failing (line :: lines) pool := by
  intro cleaned
  have endless := (readFile_endless gives).throw raises
  exact endless.unterminated (cleaned ex middle raises).1

/-- The handler can clean up exactly if nothing was read yet. -/
theorem cleanedUp_iff (allocator : Allocator κ) (failing : Bool) (lines : List (List Char))
    (pool : Pool κ)
    (raised : ∃ ex middle, readFile allocator failing lines (.start pool) = .throw ex middle) :
    CleanedUp allocator failing lines pool ↔ FirstReadFails allocator lines pool := by
  obtain ⟨ex, middle, raises⟩ := raised
  constructor
  · intro cleaned line member
    by_contra gives
    obtain ⟨rest, rfl⟩ := List.head?_eq_some_iff.mp member
    exact not_cleanedUp gives raises cleaned
  · intro first ex middle raises
    obtain ⟨rfl, mappings, buffer⟩ := (readFile_first first).throw raises
    obtain ⟨after, frees, rest, freed⟩ := freeStr_ok buffer
    refine ⟨.inl mappings, 0, fun fuel _ => ⟨after, inHand middle.str, ?_, freed, ?_, ?_⟩⟩
    · unfold getMemMappingsFile
      rw [Program.attempt_apply, raises]
      change handler fuel .ioException middle = _
      unfold handler
      rw [if_pos (.inr rfl), Program.bind_ok frees]
      change (onHeap (freeMemMappings fuel after.mappings) >>= _) after = _
      rw [rest, mappings]
      rfl
    · intro ptr member
      unfold inHand at member ⊢
      by_cases null : middle.str = 0
      · rw [if_pos null] at member
        cases member
      · rw [if_neg null] at member ⊢
        rw [List.mem_singleton.mp member, List.count_singleton_self]
    · intro ptr stored
      exact absurd mappings stored.1

end Growing

/-- The file cannot be read. -/
theorem cleanedUp_unreadable : CleanedUp firstFit true [] (Pool.start ()) := by
  refine (cleanedUp_iff firstFit true [] (Pool.start ()) ⟨.ioException, _, rfl⟩).mpr ?_
  intro line member
  cases member

/-- A mapping 4 GiB into a file: its offset has a digit more than is scanned. -/
def farLine : List Char := "400000-401000 r--s 100000000 08:01 9 /data\n".toList

/-- The handler reads behind the array. -/
theorem farLine_unterminated :
    (∃ after, getMemMappingsFile firstFit 2 false [farLine] (.start (Pool.start ())) =
        .fault after) ∧
      ¬ CleanedUp firstFit false [farLine] (Pool.start ()) := by
  have gives : (firstFit.malloc (Pool.start ()).alloc (Pool.start ()).heap
      (lineSize farLine)).1 ≠ none := by
    decide
  have raises : (match readFile firstFit false [farLine] (.start (Pool.start ())) with
      | .throw ex _ => ex == .scanfException
      | .ok _ _ | .fault _ | .noReturn _ => false) = true := by
    decide +kernel
  have faults : (match getMemMappingsFile firstFit 2 false [farLine] (.start (Pool.start ())) with
      | .fault _ => true
      | .ok _ _ | .throw _ _ | .noReturn _ => false) = true := by
    decide +kernel
  constructor
  · generalize getMemMappingsFile firstFit 2 false [farLine] (.start (Pool.start ())) = outcome
      at faults ⊢
    cases outcome with
    | fault after => exact ⟨after, rfl⟩
    | _ => cases faults
  · generalize ends : readFile firstFit false [farLine] (.start (Pool.start ())) = outcome
      at raises
    cases outcome with
    | throw ex middle => exact not_cleanedUp gives ends
    | _ => cases raises

end MyDbg.Utils.MapsFile
