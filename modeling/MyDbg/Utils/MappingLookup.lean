import MyDbg.Utils.MappingArray

/-!
Contract: what is done with the list of mappings: `get_mem_mappings`,
`find_mem_mappings`, `free_mem_mappings` and `cmd_info_memory`.

Owns: the first mapping an address lies in; that freeing the list leaves the
heap as it was before the list was read; what is printed for the lines of the
kernel; and when the list is lost.

Does not own: how the list is built.
-/

namespace MyDbg.Utils.MapsFile

open LittleEndian Ownership ProgramLogic Scanf

/-! ## The functions -/

section Functions

variable {κ : Type}

/-- What `fopen` and `fclose` answer for `/proc/<pid>/maps`, and its lines. -/
structure File where
  opens : Bool
  closes : Bool
  lines : List (List Char)

/-- The loop of `find_mem_mappings`, from element `i` on. -/
def findMemMappingsFrom (mappings : Ptr) (addr : Word) : Nat → Nat → Tmp κ Ptr
  | 0, _ => Program.noReturn
  | fuel + 1, i => do
      let mapping ← loadWord mappings i
      if mapping = 0 then
        return 0
      else
        let start ← loadWord mapping 0
        if start ≤ addr then
          let stop ← loadWord mapping 1
          if addr < stop then return mapping else findMemMappingsFrom mappings addr fuel (i + 1)
        else
          findMemMappingsFrom mappings addr fuel (i + 1)

def findMemMappings (fuel : Nat) (mappings : Ptr) (addr : Word) : Tmp κ Ptr :=
  findMemMappingsFrom mappings addr fuel 0

variable (allocator : Allocator κ)

def getMemMappings (fuel : Nat) (file : File) : Reader κ Ptr :=
  if file.opens then do
    let mappings ← getMemMappingsFile allocator fuel false file.lines
    if file.closes then return mappings else Program.throw .ioException
  else
    Program.throw .ioException

/-- The bytes in front of the NUL. -/
def cString : Block → Option (List Byte)
  | some c :: rest => if c = 0 then some [] else (cString rest).map (c :: ·)
  | _ => none

def loadString (ptr : Ptr) : Tmp κ (List Byte) := fun pool =>
  match (pool.heap ptr).bind cString with
  | some string => .ok string pool
  | none => .fault pool

/-- `"%18p %18p %#10zx %#10zx %s\n"`, with the values printed. -/
structure Row where
  start : Word
  stop : Word
  size : Word
  offset : Word
  objfile : List Byte
deriving DecidableEq

def readRow (mapping : Ptr) : Tmp κ Row := do
  let start ← loadWord mapping 0
  let stop ← loadWord mapping 1
  let offset ← loadWord mapping 2
  let objfile ← loadWord mapping 3
  let name ← loadString objfile
  return ⟨start, stop, stop - start, offset, name⟩

/-- The loop of `cmd_info_memory`, from element `i` on, with what it prints. -/
def printRows (mappings : Ptr) : Nat → Nat → Tmp κ (List Row)
  | 0, _ => Program.noReturn
  | fuel + 1, i => do
      let mapping ← loadWord mappings i
      if mapping = 0 then
        return []
      else
        let row ← readRow mapping
        let rows ← printRows mappings fuel (i + 1)
        return row :: rows

/-- `none` is the warning that no mapping was found. -/
def cmdInfoMemory (fuel : Nat) (file : File) : Reader κ (Option (List Row)) := do
  let mappings ← getMemMappings allocator fuel file
  if mappings = 0 then
    return none
  else
    let rows ← onHeap (printRows mappings fuel 0)
    onHeap (freeMemMappings fuel mappings)
    return some rows

end Functions

end MyDbg.Utils.MapsFile

namespace MyDbg.Utils.MapsLine

open LittleEndian MapsFile Scanf

/-! ## Lines of the kernel -/

/-- What a line tells, as it is stored. -/
def content (line : MapsLine) : MyMemMapping :=
  ⟨line.start, line.stop, line.offset, line.pathname⟩

/-- What a line tells, as it is printed. -/
def row (line : MapsLine) : Row :=
  ⟨line.start, line.stop, line.stop - line.start, line.offset,
    line.pathname.map fun c => BitVec.ofNat 8 c.toNat⟩

/-- The address is in the mapping of the line. -/
def Covers (line : MapsLine) (addr : Word) : Prop :=
  line.start ≤ addr ∧ addr < line.stop

instance (line : MapsLine) (addr : Word) : Decidable (line.Covers addr) :=
  inferInstanceAs (Decidable (_ ∧ _))

/-- The pathname is made of bytes. -/
def InBytes (line : MapsLine) : Prop := ∀ c ∈ line.pathname, c.toNat < 256

instance (line : MapsLine) : Decidable line.InBytes :=
  inferInstanceAs (Decidable (∀ c ∈ _, _))

section Scan

variable {line : MapsLine}

theorem accepted_of_scanned {first second third : Word} {name : List Char}
    (offset : line.offset.toNat < 2 ^ 32) (same : line.pathname = name)
    (scans : sscanf mapsFormat line.text =
      .prepend (line.front ++ [.number first, .number second, .number third])
        (named name)) :
    Accepted line.text ∧ scanLine line.text = line.content := by
  have whole : (Numerals.numeral 16 8 line.offset.toNat).take 8 =
      Numerals.numeral 16 8 line.offset.toNat :=
    List.take_of_length_le
      ((length_hexadecimal_le_iff (by decide) (by decide)).mpr offset)
  unfold front named at scans
  rw [whole, clamp_numeral (by decide) (by decide)] at scans
  have short : ¬ myPathMax ≤ name.length := by
    rw [← same]
    exact Nat.not_le.mpr line.short
  unfold Accepted scanLine content
  rw [scans, same]
  by_cases none : name = []
  · rw [if_pos none, none]
    exact ⟨⟨rfl, .inl rfl⟩, rfl⟩
  · rw [if_neg none]
    exact ⟨⟨(Bool.or_false _).trans (decide_eq_false short), .inr rfl⟩, rfl⟩

/-- A line that meets the condition is accepted, and scanned as it was printed. -/
theorem Fits.scans (fits : line.Fits) :
    Accepted line.text ∧ scanLine line.text = line.content := by
  obtain ⟨offset, major, rest⟩ := fits
  have scans := sscanf_device line offset major
  by_cases minor : line.minor.toNat < 256
  · rw [if_pos minor] at rest
    obtain ⟨inode, name⟩ := sscanf_name line minor
    rw [name] at scans
    exact accepted_of_scanned offset ((firstWord_nameText line).mpr rest).symm scans
  · rw [if_neg minor] at rest
    obtain ⟨inode, name⟩ := sscanf_shifted line rest.1
    rw [name] at scans
    exact accepted_of_scanned offset rest.2 scans

end Scan

end MyDbg.Utils.MapsLine

namespace MyDbg.Utils.MapsFile

open LittleEndian Ownership ProgramLogic

/-! ## The elements of the array -/

section Elements

variable {κ : Type} {base : Heap} {pool : Pool κ} {mappings : Ptr} {words : List Word}
  {listed : Listed} {entries : List Listed} {fuel i : Nat} {addr : Word} {more : List Ptr}

/-- From element `i` on there are `entries`, and a NULL behind them. -/
structure Rest (base heap : Heap) (more : List Ptr) (mappings : Ptr) (words : List Word) (i : Nat)
    (entries : List Listed) : Prop where
  listing : Listing base heap more mappings (arrayCells words) entries
  notNull : mappings ≠ 0
  rest : words.drop i = entries.map Listed.mapping ++ [0]

theorem Listing.mapping_ne {block : Block} {heap : Heap}
    (listing : Listing base heap more mappings block entries) (member : listed ∈ entries) :
    listed.mapping ≠ 0 := by
  intro null
  have stored := (listing.stored listed member).struct
  rw [null, listing.null] at stored
  cases stored

theorem Rest.word {word : Word} {rest : List Word}
    (left : Rest base pool.heap more mappings words i entries)
    (head : entries.map Listed.mapping ++ [0] = word :: rest) :
    loadWord mappings i pool = .ok word pool := by
  have found := left.listing.has
  rw [Has, if_neg left.notNull] at found
  apply loadWord_ok found
  have dropped := left.rest.trans head
  rw [← List.head?_drop, dropped]
  rfl

theorem Rest.end_word (left : Rest base pool.heap more mappings words i []) :
    loadWord mappings i pool = .ok 0 pool := left.word rfl

theorem Rest.mapping_word
    (left : Rest base pool.heap more mappings words i (listed :: entries)) :
    loadWord mappings i pool = .ok listed.mapping pool := left.word rfl

theorem loadWord_of_wordAt {array : Ptr} {word : Word}
    (found : wordAt pool.heap array i = some word) :
    loadWord array i pool = .ok word pool := by
  unfold loadWord
  rw [found]

/-! ## Freeing -/

/-- Behind an element there is the rest, and its blocks are in hand. -/
theorem Rest.advance {heap : Heap}
    (left : Rest base heap more mappings words i (listed :: entries)) :
    Rest base heap (listed.blocks ++ more) mappings words (i + 1) entries := by
  refine ⟨⟨left.listing.null, left.listing.gained.perm ?_, left.listing.has,
    fun other member => left.listing.stored other (.tail _ member)⟩, left.notNull, ?_⟩
  · have order := (@List.perm_append_comm _ (more ++ inHand mappings) listed.blocks).append_right
      (entries.flatMap Listed.blocks)
    rw [List.flatMap_cons]
    simpa only [List.append_assoc] using order
  · rw [← List.drop_drop, left.rest]
    rfl

/-- A live block is freed. -/
theorem cFree_ok {ptr : Ptr} (null : pool.heap 0 = none) (live : (pool.heap ptr).isSome) :
    ∃ after, cFree ptr pool = .ok () after ∧ after.heap = drop pool.heap ptr ∧
      after.list = pool.list := by
  have notNull : ptr ≠ 0 := by
    rintro rfl
    rw [null] at live
    cases live
  refine ⟨{ pool with heap := drop pool.heap ptr, freed := ptr :: pool.freed }, ?_, rfl, rfl⟩
  unfold cFree
  rw [if_neg notNull, if_pos live]

/-- The elements that are left are freed one by one, then the array. -/
theorem freeMemMappingsFrom_ok (left : Rest base pool.heap [] mappings words i entries)
    (enough : entries.length < fuel) :
    ∃ after, freeMemMappingsFrom mappings fuel i pool = .ok () after ∧ after.heap = base ∧
      after.list = pool.list := by
  induction entries generalizing pool fuel i with
  | nil =>
      obtain ⟨fuel, rfl⟩ := Nat.exists_eq_succ_of_ne_zero (Nat.ne_of_gt enough)
      have gained := left.listing.gained
      rw [List.nil_append, inHand_of_ne left.notNull, List.flatMap_nil, List.append_nil] at gained
      obtain ⟨after, freed, heap, list⟩ :=
        cFree_ok left.listing.null (gained.live mappings (.head _))
      refine ⟨after, ?_, heap.trans gained.release.eq, list⟩
      unfold freeMemMappingsFrom
      rw [Program.bind_ok left.end_word, if_pos rfl]
      exact freed
  | cons listed entries inductionHypothesis =>
      obtain ⟨fuel, rfl⟩ := Nat.exists_eq_succ_of_ne_zero (Nat.ne_of_gt (Nat.zero_lt_of_lt enough))
      have nonzero := left.listing.mapping_ne (.head _)
      have objfile := loadWord_of_wordAt (left.listing.stored listed (.head _)).objfile_word
      have owned := left.advance.listing
      obtain ⟨middle, freed, heap, list⟩ :=
        cFree_ok left.listing.null (owned.gained.live listed.objfile (.head _))
      have first := owned.release
      rw [← heap] at first
      obtain ⟨last, freed', heap', list'⟩ :=
        cFree_ok first.null (first.gained.live listed.mapping (.head _))
      have second := first.release
      rw [← heap'] at second
      obtain ⟨after, rest, restored, list''⟩ := inductionHypothesis
        ⟨second, left.notNull, left.advance.rest⟩ (Nat.lt_of_succ_lt_succ enough)
      refine ⟨after, ?_, restored, list''.trans (list'.trans list)⟩
      unfold freeMemMappingsFrom
      rw [Program.bind_ok left.mapping_word, if_neg nonzero, Program.bind_ok objfile,
        Program.bind_ok freed, Program.bind_ok freed']
      exact rest

theorem Lists.rest {heap : Heap} {contents : List MyMemMapping}
    (lists : Lists base heap mappings contents) :
    ∃ entries words, entries.map Listed.content = contents ∧
      Rest base heap [] mappings words 0 entries := by
  obtain ⟨entries, rfl, notNull, listing⟩ := lists
  exact ⟨entries, _, rfl, listing, notNull, rfl⟩

/-- A list that is freed leaves the heap as it was before there was one. -/
theorem freeMemMappings_ok {contents : List MyMemMapping}
    (lists : Lists base pool.heap mappings contents) (enough : contents.length < fuel) :
    ∃ after, freeMemMappings fuel mappings pool = .ok () after ∧ after.heap = base ∧
      after.list = pool.list := by
  obtain ⟨entries, words, rfl, left⟩ := lists.rest
  rw [List.length_map] at enough
  unfold freeMemMappings
  rw [if_neg left.notNull]
  exact freeMemMappingsFrom_ok left enough

/-! ## Looking an address up -/

/-- NULL where there is no line, and otherwise the mapping it was stored in. -/
def Found (heap : Heap) (ptr : Ptr) : Option MapsLine → Prop
  | none => ptr = 0
  | some line => ptr ≠ 0 ∧ ∃ objfile, MappingAt heap ⟨ptr, objfile, line.content⟩

variable {lines : List MapsLine}

/-- The search goes on behind the mappings the address is not in. -/
theorem findMemMappingsFrom_ok (left : Rest base pool.heap more mappings words i entries)
    (contents : entries.map Listed.content = lines.map MapsLine.content)
    (enough : lines.length < fuel) :
    ∃ ptr, findMemMappingsFrom mappings addr fuel i pool = .ok ptr pool ∧
      Found pool.heap ptr (lines.find? (·.Covers addr)) := by
  induction lines generalizing entries fuel i more with
  | nil =>
      obtain ⟨fuel, rfl⟩ := Nat.exists_eq_succ_of_ne_zero (Nat.ne_of_gt enough)
      obtain rfl : entries = [] := List.map_eq_nil_iff.mp contents
      refine ⟨0, ?_, rfl⟩
      unfold findMemMappingsFrom
      rw [Program.bind_ok left.end_word, if_pos rfl]
      rfl
  | cons line lines inductionHypothesis =>
      obtain ⟨fuel, rfl⟩ := Nat.exists_eq_succ_of_ne_zero (Nat.ne_of_gt (Nat.zero_lt_of_lt enough))
      obtain ⟨listed, entries, rfl, content, contents⟩ := List.map_eq_cons_iff.mp contents
      have nonzero := left.listing.mapping_ne (.head _)
      have stored := left.listing.stored listed (.head _)
      have start := loadWord_of_wordAt (stored.start_word (by rw [content]; rfl))
      have stop := loadWord_of_wordAt (stored.stop_word (by rw [content]; rfl))
      have later := inductionHypothesis left.advance contents (Nat.lt_of_succ_lt_succ enough)
      unfold findMemMappingsFrom
      rw [Program.bind_ok left.mapping_word, if_neg nonzero, Program.bind_ok start]
      by_cases covers : line.Covers addr
      · have here : (line :: lines).find? (·.Covers addr) = some line :=
          List.find?_cons_of_pos (by simpa using covers)
        rw [if_pos covers.1, Program.bind_ok stop, if_pos covers.2, here]
        refine ⟨listed.mapping, rfl, nonzero, listed.objfile, ?_⟩
        rw [← content]
        exact stored
      · have behind : (line :: lines).find? (·.Covers addr) = lines.find? (·.Covers addr) :=
          List.find?_cons_of_neg (by simpa using covers)
        rw [behind]
        by_cases above : line.start ≤ addr
        · have outside : ¬ addr < line.stop := fun below => covers ⟨above, below⟩
          rw [if_pos above, Program.bind_ok stop, if_neg outside]
          exact later
        · rw [if_neg above]
          exact later

/-- The address is looked up in the first line that covers it. -/
theorem findMemMappings_ok
    (lists : Lists base pool.heap mappings (lines.map MapsLine.content))
    (enough : lines.length < fuel) (addr : Word) :
    ∃ ptr, findMemMappings fuel mappings addr pool = .ok ptr pool ∧
      Found pool.heap ptr (lines.find? (·.Covers addr)) := by
  obtain ⟨entries, words, contents, left⟩ := lists.rest
  exact findMemMappingsFrom_ok left contents enough

/-! ## Printing the list -/

theorem cString_bytes {name : List Byte} (terminated : 0 ∉ name) (rest : Block) :
    cString (name.map some ++ some 0 :: rest) = some name := by
  induction name with
  | nil => rfl
  | cons c name inductionHypothesis =>
      have nonzero : c ≠ 0 := by
        rintro rfl
        exact terminated (.head _)
      have later := inductionHypothesis fun member => terminated (.tail _ member)
      rw [List.map_cons, List.cons_append, cString, if_neg nonzero, later]
      rfl

theorem loadString_of_eq {ptr : Ptr} {string : List Byte}
    (found : (pool.heap ptr).bind cString = some string) :
    loadString ptr pool = .ok string pool := by
  unfold loadString
  rw [found]

/-- The name of a line is read back as it was printed. -/
theorem loadString_ok {line : MapsLine} {ptr : Ptr} (bytes : line.InBytes)
    (named : NameAt pool.heap ptr line.pathname) :
    loadString ptr pool = .ok line.row.objfile pool := by
  obtain ⟨rest, found, _⟩ := named
  have terminated : 0 ∉ line.pathname.map fun c => BitVec.ofNat 8 c.toNat := by
    intro member
    obtain ⟨c, inside, zero⟩ := List.mem_map.mp member
    have small := bytes c inside
    have none : c.toNat = 0 := by
      have value := congrArg BitVec.toNat zero
      rw [BitVec.toNat_ofNat] at value
      change c.toNat % 256 = 0 at value
      omega
    have nul : c = '\x00' := Char.ext (UInt32.toNat_inj.mp none)
    rw [nul] at inside
    exact line.noNul inside
  have read := cString_bytes terminated rest
  have whole : stringCells line.pathname ++ rest =
      (line.pathname.map fun c => BitVec.ofNat 8 c.toNat).map some ++ some 0 :: rest := by
    rw [stringCells, List.map_map, List.append_assoc]
    rfl
  apply loadString_of_eq
  rw [found, whole]
  exact read

/-- One row is printed for each line. -/
theorem printRows_ok (left : Rest base pool.heap more mappings words i entries)
    (contents : entries.map Listed.content = lines.map MapsLine.content)
    (bytes : ∀ line ∈ lines, line.InBytes) (enough : lines.length < fuel) :
    printRows mappings fuel i pool = .ok (lines.map MapsLine.row) pool := by
  induction lines generalizing entries fuel i more with
  | nil =>
      obtain ⟨fuel, rfl⟩ := Nat.exists_eq_succ_of_ne_zero (Nat.ne_of_gt enough)
      obtain rfl : entries = [] := List.map_eq_nil_iff.mp contents
      unfold printRows
      rw [Program.bind_ok left.end_word, if_pos rfl]
      rfl
  | cons line lines inductionHypothesis =>
      obtain ⟨fuel, rfl⟩ := Nat.exists_eq_succ_of_ne_zero (Nat.ne_of_gt (Nat.zero_lt_of_lt enough))
      obtain ⟨listed, entries, rfl, content, contents⟩ := List.map_eq_cons_iff.mp contents
      have nonzero := left.listing.mapping_ne (.head _)
      have stored := left.listing.stored listed (.head _)
      have start := loadWord_of_wordAt (stored.start_word (by rw [content]; rfl))
      have stop := loadWord_of_wordAt (stored.stop_word (by rw [content]; rfl))
      have offset := loadWord_of_wordAt (stored.offset_word (by rw [content]; rfl))
      have objfile := loadWord_of_wordAt stored.objfile_word
      have named := stored.name
      rw [content] at named
      have name := loadString_ok (bytes line (.head _)) named
      have row : readRow listed.mapping pool = .ok line.row pool := by
        unfold readRow
        rw [Program.bind_ok start, Program.bind_ok stop, Program.bind_ok offset,
          Program.bind_ok objfile, Program.bind_ok name]
        rfl
      have later := inductionHypothesis left.advance contents
        (fun other member => bytes other (.tail _ member)) (Nat.lt_of_succ_lt_succ enough)
      unfold printRows
      rw [Program.bind_ok left.mapping_word, if_neg nonzero, Program.bind_ok row,
        Program.bind_ok later]
      rfl

end Elements

/-! ## The commands -/

section Commands

variable {κ : Type} {allocator : Allocator κ} {pool : Pool κ} {file : File}
  {lines : List MapsLine} {fuel : Nat}

/-- The file holds these lines, and each is stored as it was printed. -/
structure File.Prints (file : File) (lines : List MapsLine) : Prop where
  printed : file.lines = lines.map MapsLine.text
  fits : ∀ line ∈ lines, line.Fits
  bytes : ∀ line ∈ lines, line.InBytes

theorem File.Prints.accepted (prints : file.Prints lines) :
    ∀ line ∈ file.lines, Accepted line := by
  rw [prints.printed]
  intro text member
  obtain ⟨line, inside, rfl⟩ := List.mem_map.mp member
  exact (prints.fits line inside).scans.1

theorem File.Prints.contents (prints : file.Prints lines) :
    file.lines.map scanLine = lines.map MapsLine.content := by
  rw [prints.printed, List.map_map]
  apply List.map_congr_left
  intro line member
  exact (prints.fits line member).scans.2

/-- The function is called, and NULL is no block. -/
def Called (locals : Locals κ) : Prop := locals = .start locals.pool ∧ locals.pool.heap 0 = none

/-- How `get_mem_mappings` ends: the list, an exception where the file cannot be opened, or
one with the list left behind where it cannot be closed; otherwise memory it asks for is
refused. -/
def Obtains (before : Pool κ) (file : File) (lines : List MapsLine) :
    Post MyException (Locals κ) Ptr where
  ok mappings after := after.pool.refusals = before.refusals ∧ file.opens = true ∧
    file.closes = true ∧ Lists before.heap after.pool.heap mappings (lines.map MapsLine.content)
  throw ex after := ex = .ioException ∧ (before.refusals < after.pool.refusals ∨
    (after.pool.refusals = before.refusals ∧
      if file.opens then file.closes = false ∧ ∃ mappings,
        Lists before.heap after.pool.heap mappings (lines.map MapsLine.content)
      else after.pool.heap = before.heap))
  fault after := before.refusals < after.pool.refusals
  noReturn after := before.refusals < after.pool.refusals

theorem obtains_getMemMappings (prints : file.Prints lines) (null : pool.heap 0 = none) :
    wp (getMemMappings allocator fuel file) (Obtains pool file lines) (.start pool) := by
  unfold getMemMappings
  by_cases opens : file.opens = true
  · rw [if_pos opens, wp_bind]
    refine wp_mono (supplied_getMemMappingsFile fuel null prints.accepted)
      ⟨fun mappings after supplied => ?_, fun _ _ lost => ⟨lost.1, .inl lost.2⟩,
        fun _ lost => lost, fun _ lost => lost⟩
    obtain ⟨given, lists⟩ := supplied
    change wp (if file.closes = true then _ else _) _ after
    rw [prints.contents] at lists
    by_cases closes : file.closes = true
    · rw [if_pos closes]
      exact ⟨given, opens, closes, lists⟩
    · rw [if_neg closes]
      refine ⟨rfl, .inr ⟨given, ?_⟩⟩
      rw [if_pos opens]
      exact ⟨eq_false_of_ne_true closes, mappings, lists⟩
  · rw [if_neg opens]
    refine ⟨rfl, .inr ⟨rfl, ?_⟩⟩
    rw [if_neg opens]
    rfl

/-- `info_memory` prints what the lines tell, in order, and leaves the heap as it was;
where the file cannot be closed the list stays behind. -/
theorem infoMemory_shows (allocator : Allocator κ) (prints : file.Prints lines)
    (enough : lines.length < fuel) :
    Triple Called (cmdInfoMemory allocator fuel file) fun before =>
      { ok := fun shown after => shown = some (lines.map MapsLine.row) ∧
          after.pool.heap = before.pool.heap
        throw := (Obtains before.pool file lines).throw
        fault := (Obtains before.pool file lines).fault
        noReturn := (Obtains before.pool file lines).noReturn } := by
  constructor
  intro before called
  obtain ⟨start, null⟩ := called
  rw [start]
  unfold cmdInfoMemory
  rw [wp_bind]
  refine wp_mono (obtains_getMemMappings prints null) ⟨fun mappings after obtained => ?_,
    fun _ _ raised => raised, fun _ lost => lost, fun _ lost => lost⟩
  obtain ⟨_, _, _, lists⟩ := obtained
  obtain ⟨entries, words, contents, left⟩ := lists.rest
  have printed := printRows_ok left contents prints.bytes enough
  obtain ⟨freed, frees, restored, _⟩ :=
    freeMemMappings_ok lists (by rw [List.length_map]; exact enough)
  change wp (if mappings = 0 then _ else _) _ after
  rw [if_neg left.notNull, wp_bind_ok (onHeap_ok after printed)]
  change wp (onHeap (freeMemMappings fuel mappings) >>= _) _ after
  rw [wp_bind_ok (onHeap_ok after frees)]
  exact ⟨rfl, restored⟩

end Commands

/-- `00400000-00401000 r-xp 00000000 08:01 9 /a` -/
def codeLine : MapsLine where
  start := 0x400000
  stop := 0x401000
  readable := true
  writable := false
  executable := true
  shared := false
  offset := 0
  major := 8
  minor := 1
  inode := 9
  pathname := ['/', 'a']
  width := 8
  padding := 0
  newline := true
  short := by decide
  noNul := by decide

def codeFile : File := ⟨true, true, [codeLine.text]⟩

theorem codeFile_prints : codeFile.Prints [codeLine] := by
  refine ⟨rfl, fun line member => ?_, fun line member => ?_⟩
  · obtain rfl := List.mem_singleton.mp member
    refine ⟨by decide, by decide, ?_⟩
    rw [if_pos (by decide)]
    show ∀ c ∈ ['/', 'a'], ¬ Scanf.IsSpace c
    simp only [List.forall_mem_cons, List.not_mem_nil, false_imp_iff, implies_true, and_true]
    exact ⟨by decide, by decide⟩
  · obtain rfl := List.mem_singleton.mp member
    show ∀ c ∈ ['/', 'a'], c.toNat < 256
    simp

theorem infoMemory_shows_code :
    codeFile.Prints [codeLine] ∧
      Triple Called (cmdInfoMemory firstFit 2 codeFile) fun before =>
        { ok := fun shown after => shown = some ([codeLine].map MapsLine.row) ∧
            after.pool.heap = before.pool.heap
          throw := (Obtains before.pool codeFile [codeLine]).throw
          fault := (Obtains before.pool codeFile [codeLine]).fault
          noReturn := (Obtains before.pool codeFile [codeLine]).noReturn } :=
  ⟨codeFile_prints, infoMemory_shows firstFit codeFile_prints (by decide)⟩

end MyDbg.Utils.MapsFile
