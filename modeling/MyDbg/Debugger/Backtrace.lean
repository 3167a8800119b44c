import MyDbg.Utils.MappingLookup

/-!
Contract: `print_backtrace` of `libunwind_wrapper.c`.

Owns: the frames that are printed and how many, the file each is told to come
from, what is complained about, and that the list of mappings is freed however
the walk ends.

Does not own: how libunwind finds a frame. It is the sequence of its answers.
-/

namespace MyDbg.Backtrace

open LittleEndian Ownership ProgramLogic Utils Utils.MapsFile

/-! ## The function -/

/-- `MY_MAX_BT_DEPTH`. -/
def myMaxBtDepth : Nat := 64

/-- `UNW_ENOMEM`. -/
def unwEnomem : Int := 2

/-- What libunwind answers; frame `n` is the one the cursor is at after `n` steps. -/
structure Unwinding where
  /-- There is an address space. -/
  addrSpace : Bool
  initRemote : Int
  /-- `unw_get_reg` of the instruction pointer, or the error it returns. -/
  getIp : Nat → Except Int Word
  /-- What `unw_get_proc_name` returns, and the string in the buffer. -/
  getProcName : Nat → Int × List Byte
  /-- What the `unw_step` behind frame `n` returns. -/
  step : Nat → Int

/-- The inodes `stat` tells; `exe` is that of `/proc/<pid>/exe`. -/
structure Inodes where
  stat : List Byte → Option Word
  exe : Option Word

/-- The line of a frame: `"#%-2zu %18p"`, `" in %s%s"`, `" from %s"`. -/
structure FrameLine where
  number : Nat
  ip : Word
  /-- The name, and whether `...` follows it. -/
  name : Option (List Byte × Bool)
  file : Option (List Byte)
deriving DecidableEq

inductive Complaint where
  | noAddressSpace
  | noStack
  /-- `print_error`. -/
  | failed (ret : Int)
deriving DecidableEq

/-- The loop has been left after `count` frames. -/
structure Walked where
  lines : List FrameLine
  count : Nat
  step : Int
  /-- What `unw_get_reg` returned where it failed. -/
  error : Option Int

structure Output where
  lines : List FrameLine
  complaint : Option Complaint
deriving DecidableEq

section Functions

variable {κ : Type} (unwinding : Unwinding) (inodes : Inodes)

/-- The tests on the name of a mapping. -/
def binaryName (objfile : List Byte) : Option (List Byte) :=
  if objfile.head? ≠ some 47 then none
  else
    match inodes.stat objfile, inodes.exe with
    | some inode, some own => if inode = own then none else some objfile
    | _, _ => none

def getBinaryFile (fuel : Nat) (mappings : Ptr) (addr : Word) : Tmp κ (Option (List Byte)) :=
  if mappings = 0 then
    return none
  else do
    let mapping ← findMemMappings fuel mappings addr
    if mapping = 0 then
      return none
    else
      let objfile ← loadWord mapping 3
      let name ← loadString objfile
      return binaryName inodes name

def procName (count : Nat) : Option (List Byte × Bool) :=
  let ret := (unwinding.getProcName count).1
  if ret = 0 ∨ ret = unwEnomem then
    some ((unwinding.getProcName count).2, decide (ret = unwEnomem))
  else
    none

/-- The loop, with `left` more frames allowed. -/
def printFrames (fuel : Nat) (mappings : Ptr) : Nat → Nat → Int → Tmp κ Walked
  | 0, count, step => return ⟨[], count, step, none⟩
  | left + 1, count, step =>
      if step ≤ 0 then
        return ⟨[], count, step, none⟩
      else
        match unwinding.getIp count with
        | .error ret => return ⟨[], count, step, some ret⟩
        | .ok ip => do
            let file ← getBinaryFile inodes fuel mappings ip
            let walked ← printFrames fuel mappings left (count + 1) (unwinding.step count)
            let line : FrameLine := ⟨count, ip, procName unwinding count, file⟩
            return { walked with lines := line :: walked.lines }

/-- What is printed behind the frames. -/
def complain (walked : Walked) : Option Complaint :=
  match walked.error with
  | some ret => some (.failed ret)
  | none =>
      if walked.count = 0 then some .noStack
      else if walked.step < 0 then some (.failed walked.step)
      else none

variable (allocator : Allocator κ)

def printBacktrace (fuel : Nat) (file : File) : Reader κ Output :=
  if unwinding.addrSpace then do
    let mappings ← getMemMappings allocator fuel file
    if unwinding.initRemote ≠ 0 then
      onHeap (freeMemMappings fuel mappings)
      return ⟨[], some (.failed unwinding.initRemote)⟩
    else
      let walked ← onHeap (printFrames unwinding inodes fuel mappings myMaxBtDepth 0 1)
      onHeap (freeMemMappings fuel mappings)
      return ⟨walked.lines, complain walked⟩
  else
    return ⟨[], some .noAddressSpace⟩

end Functions

/-! ## What a backtrace shows -/

namespace Unwinding

variable (unwinding : Unwinding) (inodes : Inodes) (lines : List MapsLine)

/-- The cursor gets to frame `n`. -/
def Reaches : Nat → Prop
  | 0 => True
  | n + 1 => Reaches n ∧ (unwinding.getIp n).isOk ∧ 0 < unwinding.step n

/-- Frame `n` is one to print. -/
def Shows (n : Nat) : Prop := n < myMaxBtDepth ∧ unwinding.Reaches n ∧ (unwinding.getIp n).isOk

/-- The name of the first mapping an address is in, where it is an absolute path to another
file than the executable. -/
def fileOf (addr : Word) : Option (List Byte) :=
  (lines.find? (·.Covers addr)).bind fun line => binaryName inodes line.row.objfile

/-- The line of frame `n`. -/
def line (n : Nat) : FrameLine :=
  ⟨n, (unwinding.getIp n).toOption.getD 0, procName unwinding n,
    fileOf inodes lines ((unwinding.getIp n).toOption.getD 0)⟩

/-- How the walk ends after `count` frames, and what is complained about then: a frame without
an instruction pointer, the outermost frame, a step that failed, or enough of them. -/
inductive Stops (unwinding : Unwinding) (count : Nat) : Option Complaint → Prop
  | lost (ret : Int) : count < myMaxBtDepth → unwinding.Reaches count →
      unwinding.getIp count = .error ret → Stops unwinding count (some (.failed ret))
  | outermost : 0 < count → unwinding.step (count - 1) = 0 → Stops unwinding count none
  | broken : 0 < count → unwinding.step (count - 1) < 0 →
      Stops unwinding count (some (.failed (unwinding.step (count - 1))))
  | enough : count = myMaxBtDepth → Stops unwinding count none

/-- What is printed: the frames that are to be shown, in order, and why there are no more. -/
def Tells (output : Output) : Prop :=
  if unwinding.addrSpace = false then output = ⟨[], some .noAddressSpace⟩
  else if unwinding.initRemote ≠ 0 then output = ⟨[], some (.failed unwinding.initRemote)⟩
  else ∃ count, output.lines = (List.range count).map (unwinding.line inodes lines) ∧
    (∀ n, n < count ↔ unwinding.Shows n) ∧ unwinding.Stops count output.complaint

variable {unwinding}

theorem Reaches.le {first last : Nat} (reaches : unwinding.Reaches last) (before : first ≤ last) :
    unwinding.Reaches first := by
  induction before with
  | refl => exact reaches
  | step _ inductionHypothesis => exact inductionHypothesis reaches.1

end Unwinding

/-! ## The walk -/

section Walk

variable {κ : Type} {base : Heap} {pool : Pool κ} {mappings : Ptr} {lines : List MapsLine}
  {unwinding : Unwinding} {inodes : Inodes} {fuel : Nat}

theorem binaryFile_ok (inodes : Inodes)
    (lists : Lists base pool.heap mappings (lines.map MapsLine.content))
    (bytes : ∀ line ∈ lines, line.InBytes) (enough : lines.length < fuel) (addr : Word) :
    getBinaryFile inodes fuel mappings addr pool =
      .ok (Unwinding.fileOf inodes lines addr) pool := by
  obtain ⟨_, _, _, left⟩ := lists.rest
  obtain ⟨mapping, finds, found⟩ := findMemMappings_ok lists enough addr
  unfold getBinaryFile Unwinding.fileOf
  rw [if_neg left.notNull, Program.bind_ok finds]
  cases first : lines.find? (·.Covers addr) with
  | none =>
      rw [first] at found
      have null : mapping = 0 := found
      rw [if_pos null]
      rfl
  | some line =>
      rw [first] at found
      obtain ⟨notNull, objfile, stored⟩ := found
      have name := loadString_ok (bytes line (List.mem_of_find?_eq_some first)) stored.name
      rw [if_neg notNull, Program.bind_ok (loadWord_of_wordAt stored.objfile_word),
        Program.bind_ok name]
      rfl

/-- The cursor is at frame `count`, or the last step got nowhere. -/
structure At (unwinding : Unwinding) (count : Nat) (step : Int) : Prop where
  reaches : 0 < step ↔ unwinding.Reaches count
  last : 0 < count → step = unwinding.step (count - 1)

/-- What the rest of the loop adds: the frames from `count` on that are to be printed. -/
structure Adds (unwinding : Unwinding) (inodes : Inodes) (lines : List MapsLine) (count : Nat)
    (walked : Walked) : Prop where
  atLeast : count ≤ walked.count
  lines : walked.lines = (List.range' count (walked.count - count)).map
    (unwinding.line inodes lines)
  shown : ∀ n, count ≤ n → (n < walked.count ↔ unwinding.Shows n)
  stops : unwinding.Stops walked.count (complain walked)

/-- The loop is left where it is entered. -/
theorem Adds.leave {count : Nat} {step : Int} {error : Option Int}
    (hidden : ¬ unwinding.Shows count)
    (stops : unwinding.Stops count (complain ⟨[], count, step, error⟩)) :
    Adds unwinding inodes lines count ⟨[], count, step, error⟩ := by
  refine ⟨le_rfl, by simp, fun n after => ?_, stops⟩
  refine iff_of_false (Nat.not_lt.mpr after) fun shows => hidden ?_
  obtain ⟨below, reaches, ok⟩ := shows
  refine ⟨Nat.lt_of_le_of_lt after below, reaches.le after, ?_⟩
  rcases Nat.eq_or_lt_of_le after with rfl | further
  · exact ok
  · exact (reaches.le further).2.1

/-- Where there is no error, it is the last step that tells what to complain about. -/
theorem stops_of_step {count : Nat} {step : Int} (position : At unwinding count step)
    (first : count = 0 → 0 < step) (leaves : count = myMaxBtDepth ∨ step ≤ 0) :
    unwinding.Stops count (complain ⟨[], count, step, none⟩) := by
  have positive : 0 < count := by
    rcases Nat.eq_zero_or_pos count with zero | positive
    · rcases leaves with full | halted
      · rw [zero] at full
        cases full
      · exact absurd (first zero) (not_lt.mpr halted)
    · exact positive
  have last := position.last positive
  show unwinding.Stops count (if count = 0 then _ else if step < 0 then _ else _)
  rw [if_neg positive.ne']
  by_cases failed : step < 0
  · rw [if_pos failed]
    rw [last] at failed ⊢
    exact .broken positive failed
  · rw [if_neg failed]
    rcases leaves with full | halted
    · exact .enough full
    · exact .outermost positive (by omega)

/-- A frame that is printed comes in front of what the rest of the loop adds. -/
theorem Adds.frame {count : Nat} {walked : Walked} {step : Int} {ip : Word}
    (position : At unwinding count step) (goesOn : 0 < step) (below : count < myMaxBtDepth)
    (known : unwinding.getIp count = .ok ip)
    (rest : Adds unwinding inodes lines (count + 1) walked) :
    Adds unwinding inodes lines count
      { walked with lines := unwinding.line inodes lines count :: walked.lines } := by
  have atLeast := rest.atLeast
  refine ⟨Nat.le_of_succ_le atLeast, ?_, fun n after => ?_, rest.stops⟩
  · show _ :: walked.lines = (List.range' count (walked.count - count)).map _
    obtain ⟨more, length⟩ : ∃ more, walked.count - count = more + 1 :=
      ⟨walked.count - (count + 1), by omega⟩
    have left : walked.count - (count + 1) = more := by omega
    rw [rest.lines, left, length, List.range'_succ, List.map_cons]
  · rcases Nat.eq_or_lt_of_le after with rfl | further
    · refine iff_of_true atLeast ⟨below, position.reaches.mp goesOn, ?_⟩
      rw [known]
      rfl
    · exact rest.shown n further

theorem printFrames_ok (lists : Lists base pool.heap mappings (lines.map MapsLine.content))
    (bytes : ∀ line ∈ lines, line.InBytes) (enough : lines.length < fuel)
    {left count : Nat} {step : Int} (bound : count + left = myMaxBtDepth)
    (position : At unwinding count step) (first : count = 0 → 0 < step) :
    ∃ walked, printFrames unwinding inodes fuel mappings left count step pool =
        .ok walked pool ∧ Adds unwinding inodes lines count walked := by
  induction left generalizing count step with
  | zero =>
      refine ⟨_, rfl, .leave (fun shows => ?_) (stops_of_step position first (.inl bound))⟩
      exact absurd shows.1 (by omega)
  | succ left inductionHypothesis =>
      unfold printFrames
      by_cases halted : step ≤ 0
      · rw [if_pos halted]
        refine ⟨_, rfl, .leave (fun shows => ?_) (stops_of_step position first (.inr halted))⟩
        exact absurd (position.reaches.mpr shows.2.1) (not_lt.mpr halted)
      · have goesOn : 0 < step := not_le.mp halted
        have reaches := position.reaches.mp goesOn
        rw [if_neg halted]
        cases known : unwinding.getIp count with
        | error ret =>
            refine ⟨_, rfl, .leave (fun shows => ?_) (.lost ret (by omega) reaches known)⟩
            have ok := shows.2.2
            rw [known] at ok
            cases ok
        | ok ip =>
            have file := binaryFile_ok inodes lists bytes enough ip
            have next : At unwinding (count + 1) (unwinding.step count) := by
              refine ⟨⟨fun steps => ⟨reaches, ?_, steps⟩, fun reaches => reaches.2.2⟩, fun _ => rfl⟩
              rw [known]
              rfl
            obtain ⟨walked, walks, adds⟩ := inductionHypothesis (by omega) next (by omega)
            have line : unwinding.line inodes lines count =
                ⟨count, ip, procName unwinding count, Unwinding.fileOf inodes lines ip⟩ := by
              unfold Unwinding.line
              rw [known]
              rfl
            refine ⟨_, ?_, .frame position goesOn (by omega) known adds⟩
            rw [line]
            change (getBinaryFile inodes fuel mappings ip >>= _) pool = _
            rw [Program.bind_ok file, Program.bind_ok walks]
            rfl

end Walk

/-! ## The backtrace -/

section Backtrace

variable {κ : Type} {file : File} {lines : List MapsLine} {fuel : Nat}

/-- A backtrace tells what it should, and leaves the heap as it was. -/
theorem backtrace_shows (allocator : Allocator κ) (unwinding : Unwinding) (inodes : Inodes)
    (prints : file.Prints lines) (enough : lines.length < fuel) :
    Triple Called (printBacktrace unwinding inodes allocator fuel file) fun before =>
      { ok := fun output after => unwinding.Tells inodes lines output ∧
          after.pool.heap = before.pool.heap
        throw := (Obtains before.pool file lines).throw
        fault := (Obtains before.pool file lines).fault
        noReturn := (Obtains before.pool file lines).noReturn } := by
  constructor
  intro before called
  obtain ⟨start, null⟩ := called
  rw [start]
  unfold printBacktrace
  by_cases space : unwinding.addrSpace = true
  · have noSpace : ¬ unwinding.addrSpace = false := by simp [space]
    rw [if_pos space, wp_bind]
    refine wp_mono (obtains_getMemMappings prints null) ⟨fun mappings after obtained => ?_,
      fun _ _ raised => raised, fun _ lost => lost, fun _ lost => lost⟩
    obtain ⟨_, _, _, lists⟩ := obtained
    obtain ⟨freed, frees, restored, _⟩ :=
      freeMemMappings_ok lists (by rw [List.length_map]; exact enough)
    change wp (if unwinding.initRemote ≠ 0 then _ else _) _ after
    by_cases failed : unwinding.initRemote ≠ 0
    · rw [if_pos failed, wp_bind_ok (onHeap_ok after frees)]
      refine ⟨?_, restored⟩
      unfold Unwinding.Tells
      rw [if_neg noSpace, if_pos failed]
    · have start : At unwinding 0 1 :=
        ⟨iff_of_true Int.one_pos trivial, fun positive => absurd positive (Nat.lt_irrefl 0)⟩
      obtain ⟨walked, walks, adds⟩ := printFrames_ok lists prints.bytes enough
        (Nat.zero_add myMaxBtDepth) start fun _ => Int.one_pos
      rw [if_neg failed, wp_bind_ok (onHeap_ok after walks)]
      change wp (onHeap (freeMemMappings fuel mappings) >>= _) _ after
      rw [wp_bind_ok (onHeap_ok after frees)]
      refine ⟨?_, restored⟩
      unfold Unwinding.Tells
      rw [if_neg noSpace, if_neg failed]
      refine ⟨walked.count, ?_, fun n => adds.shown n (Nat.zero_le n), adds.stops⟩
      rw [List.range_eq_range']
      exact adds.lines
  · rw [if_neg space]
    refine ⟨?_, rfl⟩
    unfold Unwinding.Tells
    rw [if_pos (eq_false_of_ne_true space)]

end Backtrace

/-- Two frames, and a third one that cannot be found. -/
def twoFrames : Unwinding where
  addrSpace := true
  initRemote := 0
  getIp n := .ok (BitVec.ofNat 64 (0x400000 + n))
  getProcName _ := (0, [0x66])
  step n := if n = 0 then 1 else -1

theorem backtrace_shows_two :
    codeFile.Prints [codeLine] ∧
      Triple Called (printBacktrace twoFrames ⟨fun _ => some 7, some 8⟩ firstFit 2 codeFile)
        fun before =>
          { ok := fun output after =>
              twoFrames.Tells ⟨fun _ => some 7, some 8⟩ [codeLine] output ∧
                after.pool.heap = before.pool.heap
            throw := (Obtains before.pool codeFile [codeLine]).throw
            fault := (Obtains before.pool codeFile [codeLine]).fault
            noReturn := (Obtains before.pool codeFile [codeLine]).noReturn } :=
  ⟨codeFile_prints,
    backtrace_shows firstFit twoFrames ⟨fun _ => some 7, some 8⟩ codeFile_prints (by decide)⟩

end MyDbg.Backtrace
