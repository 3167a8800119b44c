import MyDbg.Infos.SourcePath
import MyDbg.Lib.Lines

/-!
Contract: what `real_path` and `print_file_line` answer, whatever happened before
and whatever is in a file.

Owns: when all calls of `real_path` in a run return the directory of the
executable at that time; and when `print_file_line` prints the line of the file
that was asked for.

Does not own: which file and line are asked for.
-/

namespace MyDbg.Infos

open LittleEndian ProgramLogic Utils Lines

/-! ## `real_path` over a run -/

/-- A machine at a call of `real_path`: the link can be read, and its target is shorter
than the buffer. -/
structure LinkedHost extends FileHost where
  linked : readlink = true
  short : exe.1.length < myPathMax

/-- The directory that the executable is in. -/
def FileHost.directory (host : FileHost) : List Byte := dirName host.exe.1

/-- The calls of `real_path` in a run, each with the executable there is at that time. -/
def realPaths : List LinkedHost → Viewing (List (List Byte))
  | [] => return []
  | host :: later => do
      let dir ← realPath host.toFileHost
      let dirs ← realPaths later
      return dir :: dirs

/-- Each call returns the directory of its own target. -/
def Independent (hosts : List LinkedHost) (viewer : Viewer) : Prop :=
  ∃ after, realPaths hosts viewer = .ok (hosts.map fun host => host.directory) after

/-- `dir` was returned last: behind its NUL there is no `'/'` in the buffer. -/
structure Returned (buf : PathBuffer) (dir : List Byte) : Prop where
  ended : ∃ rest, buf.1 = dir ++ 0 :: rest ∧ slash ∉ rest
  string : 0 ∉ dir
  last : buf.1[myPathMax - 1]? = some 0

/-- What is left of `dir` behind a target holds no `'/'`. -/
def Overwrites (dir : List Byte) (host : LinkedHost) : Prop :=
  slash ∉ dir.drop host.exe.1.length

instance (dir : List Byte) (host : LinkedHost) : Decidable (Overwrites dir host) :=
  inferInstanceAs (Decidable (slash ∉ dir.drop host.exe.1.length))

section Calls

variable {buf : PathBuffer} {dir : List Byte} {host : LinkedHost} {viewer : Viewer}

theorem realPath_linked (host : LinkedHost) (ended : 0 ∈ viewer.buf.1.drop host.exe.1.length) :
    realPath host.toFileHost viewer =
      .ok (dirName (host.exe.1 ++ cString (viewer.buf.1.drop host.exe.1.length)))
        { viewer with
          buf := (viewer.buf.write host.exe.1).cut
            (dirName (host.exe.1 ++ cString (viewer.buf.1.drop host.exe.1.length))).length } := by
  have string := cString_append host.exe (viewer.buf.1.drop host.exe.1.length)
  rw [← viewer.buf.write_short host.short.le] at string
  have terminated := (viewer.buf.zero_mem_write host.exe).mpr ended
  have slashed : slash ∈ cString (viewer.buf.write host.exe.1).1 := by
    rw [string]
    exact List.mem_append_left _ (slash_mem_exe host.toFileHost)
  rw [← string, realPath, if_pos host.linked, Program.bind_apply]
  simp only [Program.modify, Program.gets, Program.bind_apply, id]
  rw [if_pos ⟨terminated, slashed⟩]
  rfl

theorem cString_subset (bytes : List Byte) : cString bytes ⊆ bytes :=
  (List.takeWhile_prefix _).subset

namespace Returned

/-- The last byte of the buffer is never written over. -/
theorem terminated (returned : Returned buf dir) (host : LinkedHost) :
    0 ∈ buf.1.drop host.exe.1.length := by
  have short := host.short
  have place : host.exe.1.length + (myPathMax - 1 - host.exe.1.length) = myPathMax - 1 := by omega
  apply List.mem_of_getElem? (i := myPathMax - 1 - host.exe.1.length)
  rw [List.getElem?_drop, place, returned.last]

/-- Behind a target there is what is left of `dir`, and then no `'/'`. -/
theorem stale (returned : Returned buf dir) (count : Nat) :
    ∃ rest, buf.1.drop count = dir.drop count ++ rest ∧ slash ∉ rest := by
  obtain ⟨rest, split, clean⟩ := returned.ended
  refine ⟨(0 :: rest).drop (count - dir.length), by rw [split, List.drop_append], ?_⟩
  intro member
  rcases List.mem_cons.mp (List.mem_of_mem_drop member) with zero | later
  · exact absurd zero (by decide)
  · exact clean later

theorem slash_mem_stale (returned : Returned buf dir) (count : Nat) :
    slash ∈ cString (buf.1.drop count) ↔ slash ∈ dir.drop count := by
  obtain ⟨rest, split, clean⟩ := returned.stale count
  have string : 0 ∉ dir.drop count := fun zero => returned.string (List.mem_of_mem_drop zero)
  have front := cString_append ⟨dir.drop count, string⟩ rest
  rw [split, front, List.mem_append, or_iff_left fun member => clean (cString_subset rest member)]

theorem next (returned : Returned buf dir) (overwrites : Overwrites dir host) :
    Returned ((buf.write host.exe.1).cut host.directory.length) host.directory := by
  obtain ⟨front, file, split, name⟩ := exists_last_slash (slash_mem_exe host.toFileHost)
  have directory : host.directory = front := by
    rw [FileHost.directory, split, dirName_split name]
  obtain ⟨rest, behind, clean⟩ := returned.stale host.exe.1.length
  have left : slash ∉ buf.1.drop host.exe.1.length := by
    rw [behind, List.mem_append]
    exact fun member => member.elim overwrites clean
  have cut : ((buf.write host.exe.1).cut host.directory.length).1 =
      front ++ 0 :: (file ++ buf.1.drop host.exe.1.length) := by
    change (buf.write host.exe.1).1.set host.directory.length 0 = _
    rw [directory, buf.write_short host.short.le]
    generalize buf.1.drop host.exe.1.length = stale
    rw [split]
    simp
  have short := host.short
  have length := congrArg List.length split
  rw [List.length_append, List.length_cons] at length
  refine ⟨⟨_, cut.trans (by rw [directory]), ?_⟩, ?_, ?_⟩
  · exact fun member => (List.mem_append.mp member).elim name left
  · intro zero
    apply host.exe.2
    rw [split]
    exact List.mem_append_left _ (directory ▸ zero)
  · change ((buf.write host.exe.1).1.set host.directory.length 0)[myPathMax - 1]? = some 0
    rw [List.getElem?_set_ne (by rw [directory]; omega), buf.write_short short.le,
      List.getElem?_append_right (by omega), List.getElem?_drop,
      show host.exe.1.length + (myPathMax - 1 - host.exe.1.length) = myPathMax - 1 by omega]
    exact returned.last

/-- A call after one that returned `dir`: the directory is right if the target leaves no `'/'`
of `dir` behind, and then so much is known of the next call. -/
theorem realPath_ok (returned : Returned viewer.buf dir) (host : LinkedHost) :
    ∃ found after, realPath host.toFileHost viewer = .ok found after ∧
      (found = host.directory ↔ Overwrites dir host) ∧
      (Overwrites dir host → Returned after.buf host.directory) := by
  have right : dirName (host.exe.1 ++ cString (viewer.buf.1.drop host.exe.1.length)) =
      host.directory ↔ Overwrites dir host := by
    rw [FileHost.directory, dirName_stale, returned.slash_mem_stale]
    rfl
  refine ⟨_, _, realPath_linked host (returned.terminated host), right, ?_⟩
  intro overwrites
  rw [right.mpr overwrites]
  exact returned.next overwrites

end Returned

theorem independent_nil (viewer : Viewer) : Independent [] viewer := ⟨viewer, rfl⟩

/-- The first call of a run, and the others in the state it leaves. -/
theorem independent_cons {found : List Byte} {after : Viewer} {later : List LinkedHost}
    (first : realPath host.toFileHost viewer = .ok found after) :
    Independent (host :: later) viewer ↔ found = host.directory ∧ Independent later after := by
  unfold Independent
  rw [realPaths, Program.bind_ok first, Program.bind_apply, List.map_cons]
  cases realPaths later after with
  | ok dirs last =>
      constructor
      · rintro ⟨_, same⟩
        cases same
        exact ⟨rfl, last, rfl⟩
      · rintro ⟨rfl, _, same⟩
        cases same
        exact ⟨last, rfl⟩
  | throw ex last => exact iff_of_false nofun nofun
  | fault last => exact iff_of_false nofun nofun
  | noReturn last => exact iff_of_false nofun nofun

/-- The first call that goes wrong is the first whose target leaves a `'/'` of the directory
before it. -/
theorem Returned.independent_iff {later : List LinkedHost} (returned : Returned viewer.buf dir)
    (overwrites : Overwrites dir host) :
    Independent (host :: later) viewer ↔
      (host :: later).IsChain fun earlier later => Overwrites earlier.directory later := by
  induction later generalizing viewer dir host with
  | nil =>
      obtain ⟨found, after, first, right, _⟩ := returned.realPath_ok host
      rw [independent_cons first]
      exact iff_of_true ⟨right.mpr overwrites, independent_nil after⟩ (.singleton host)
  | cons next later inductionHypothesis =>
      obtain ⟨found, after, first, right, kept⟩ := returned.realPath_ok host
      have goesOn := kept overwrites
      rw [independent_cons first, and_iff_right (right.mpr overwrites), List.isChain_cons_cons]
      by_cases again : Overwrites host.directory next
      · rw [and_iff_right again]
        exact inductionHypothesis goesOn again
      · obtain ⟨found, after, second, right, _⟩ := goesOn.realPath_ok next
        rw [independent_cons second, right]
        exact iff_of_false (fun both => again both.1) fun both => again both.1

end Calls

theorem freshViewer_returned : Returned freshViewer.buf [] where
  ended := ⟨List.replicate (myPathMax - 1) 0, rfl,
    fun member => absurd (List.eq_of_mem_replicate member) (by decide)⟩
  string := List.not_mem_nil
  last := List.getElem?_replicate_of_lt (by decide)

/-- In the buffer of a new process: each call of `real_path` returns the directory of the
executable if and only if no target is so short that it leaves a `'/'` of the directory before
it behind. -/
theorem realPaths_iff (hosts : List LinkedHost) :
    Independent hosts freshViewer ↔
      hosts.IsChain fun earlier later => slash ∉ earlier.directory.drop later.exe.1.length := by
  cases hosts with
  | nil => exact iff_of_true (independent_nil freshViewer) .nil
  | cons host later =>
      have overwrites : Overwrites [] host := by
        rw [Overwrites, List.drop_nil]
        exact List.not_mem_nil
      exact freshViewer_returned.independent_iff overwrites

/-- A process that executes `/usr/bin/p`. -/
def longHost : LinkedHost where
  exe := ⟨[slash, 0x75, 0x73, 0x72, slash, 0x62, 0x69, 0x6e, slash, 0x70], by decide⟩
  absolute := rfl
  readlink := true
  fopen _ := none
  linked := rfl
  short := by decide

/-- The same process after it executed `/b/p`. -/
def shortHost : LinkedHost := { emptyHost with linked := rfl, short := by decide }

/-- For `/b/p` the buffer holds `/b/p/bin`. -/
theorem realPaths_stale : ¬ Independent [longHost, shortHost] freshViewer := by
  have overwrites : Overwrites [] longHost := List.not_mem_nil
  rw [freshViewer_returned.independent_iff overwrites, List.isChain_pair]
  decide

/-! ## `print_file_line` -/

/-- The line of a number, or the exception that there is none. -/
def PrintsLine (host : FileHost) (dir file content : List Byte) (line : BitVec 32)
    (viewer : Viewer) : Prop :=
  match (lines newline content)[line.toNat - 1]? with
  | some text => ∃ after, printFileLine host (some dir) file line viewer = .ok () after ∧
      after.printed = viewer.printed ++ text
  | none => ∃ after, printFileLine host (some dir) file line viewer = .throw .ioException after ∧
      after.printed = viewer.printed

section Lines

variable {host : FileHost} {dir file content line : List Byte} {viewer : Viewer}

theorem other_of_clean (clean : newline ∉ line) :
    ∀ byte ∈ line, decide (byte ≠ newline) = true := by
  intro byte member
  apply decide_eq_true
  rintro rfl
  exact clean member

theorem firstLine_append (clean : newline ∉ line) (rest : List Byte) :
    firstLine (line ++ rest) = line ++ firstLine rest := by
  have other := other_of_clean clean
  rw [firstLine, List.takeWhile_append_of_pos other, List.dropWhile_append_of_pos other,
    List.append_assoc]
  rfl

theorem skipLines_append (clean : newline ∉ line) (count : Nat) (rest : List Byte) :
    skipLines (count + 1) (line ++ rest) = skipLines (count + 1) rest := by
  rw [skipLines, List.dropWhile_append_of_pos (other_of_clean clean)]
  rfl

/-- What `getline` reads is the first line of what is left. -/
theorem lines_head (content : List Byte) :
    (lines newline content).head? = if content = [] then none else some (firstLine content) := by
  rcases text_cases newline content with rfl | ⟨nonempty, clean⟩ | ⟨line, rest, rfl, clean⟩
  · rfl
  · have whole := firstLine_append clean []
    rw [List.append_nil] at whole
    rw [lines_last nonempty clean, if_neg nonempty, whole]
    exact congrArg some (List.append_nil content).symm
  · rw [lines_ended clean, if_neg (by simp), firstLine_append clean]
    rfl

/-- Behind the lines that are skipped the others are left; nothing where the file ends. -/
theorem skipLines_lines (count : Nat) (content : List Byte) :
    lines newline ((skipLines count content).getD []) = (lines newline content).drop count := by
  induction count generalizing content with
  | zero => rfl
  | succ count inductionHypothesis =>
      rcases text_cases newline content with rfl | ⟨nonempty, clean⟩ | ⟨line, rest, rfl, clean⟩
      · rfl
      · have ended := skipLines_append clean count []
        rw [List.append_nil] at ended
        rw [ended, lines_last nonempty clean, List.drop_succ_cons, List.drop_nil]
        rfl
      · rw [skipLines_append clean, lines_ended clean, List.drop_succ_cons, ← inductionHypothesis]
        rfl

/-- `fputs` prints the line up to a NUL. -/
theorem showLine_eq (content : List Byte) (line : BitVec 32) :
    showLine content line viewer =
      match (lines newline content)[line.toNat - 1]? with
      | none => .throw .ioException viewer
      | some text => .ok () { viewer with printed := viewer.printed ++ cString text } := by
  have left := skipLines_lines (line.toNat - 1) content
  have first : (lines newline content)[line.toNat - 1]? =
      ((lines newline content).drop (line.toNat - 1)).head? := by
    rw [List.head?_drop]
  rw [first, ← left, lines_head, showLine]
  cases skipped : skipLines (line.toNat - 1) content with
  | none => rfl
  | some rest =>
      simp only [Option.getD_some]
      by_cases empty : rest = []
      · rw [if_pos empty, if_pos empty]
        rfl
      · rw [if_neg empty, if_neg empty]
        rfl

theorem cString_eq_self {text : List Byte} : cString text = text ↔ 0 ∉ text := by
  rw [cString, List.takeWhile_eq_self_iff]
  constructor
  · intro nonzero member
    exact of_decide_eq_true (nonzero 0 member) rfl
  · intro string byte member
    apply decide_eq_true
    rintro rfl
    exact string member

/-- Whatever the file, the line is printed if it holds no NUL, and only then. -/
theorem printFileLine_iff (line : BitVec 32)
    (fits : (joined dir file).length < myPathMax)
    (found : host.fopen (joined dir file) = some content) :
    PrintsLine host dir file content line viewer ↔
      ∀ text, (lines newline content)[line.toNat - 1]? = some text → 0 ∉ text := by
  have shown : printFileLine host (some dir) file line viewer =
      showLine content line { viewer with opened := joined dir file :: viewer.opened } := by
    rw [printFileLine]
    simp only [Option.getD_some]
    rw [if_pos fits, if_neg fun longer => longer (joined_length dir file), openFileLine,
      Program.bind_apply, found]
    rfl
  rw [showLine_eq] at shown
  unfold PrintsLine
  rw [shown]
  cases (lines newline content)[line.toNat - 1]? with
  | none => exact iff_of_true ⟨_, rfl, rfl⟩ nofun
  | some text =>
      constructor
      · rintro ⟨_, same, printed⟩ _ asked
        cases same
        cases asked
        exact cString_eq_self.mp (List.append_cancel_left printed)
      · intro string
        refine ⟨_, rfl, ?_⟩
        rw [cString_eq_self.mpr (string text rfl)]

end Lines

/-- A machine on which every file has the same content. -/
def serving (content : List Byte) : FileHost := { emptyHost with fopen := fun _ => some content }

/-- The second line has no end. -/
theorem printFileLine_iff_second :
    PrintsLine (serving [0x61, newline, 0x62]) [0x64] [0x66] [0x61, newline, 0x62] 2 freshViewer ↔
      ∀ text, (lines newline [0x61, newline, 0x62])[(2 : BitVec 32).toNat - 1]? = some text →
        0 ∉ text :=
  printFileLine_iff 2 (by decide) rfl

/-- Of a line with a NUL only the front is printed, without the end of the line. -/
theorem printsLine_nul :
    ¬ PrintsLine (serving [0x61, 0, 0x62, newline]) [0x64] [0x66] [0x61, 0, 0x62, newline] 1
      freshViewer := by
  rintro ⟨after, same, printed⟩
  cases same
  revert printed
  decide

end MyDbg.Infos
