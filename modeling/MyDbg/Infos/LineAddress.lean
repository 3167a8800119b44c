import MyDbg.Infos.DwarfLines

/-!
Contract: whether `list` shows the line that `breakl` was asked for.

Owns: the row that `get_nearest_state` selects at the address of a line, and for
which tables that row is one for the line and the file asked for.

Does not own: what happens between the two commands.
-/

namespace MyDbg.Infos

open LittleEndian ProgramLogic Nearest

/-- The entry of a row in the table of files. -/
def MyDwLines.fileOf (lines : MyDwLines) (sm : MyDwSm) : Option MyDwFile :=
  if sm.file = 0 then none else lines.lconf.files[(sm.file - 1).toNat]?

/-- The row is one for the line, and its entry in the table of files has the name. -/
def MyDwLines.Shows (lines : MyDwLines) (memory : PartialMemory) (file : CString)
    (line : BitVec 32) (sm : MyDwSm) : Prop :=
  sm.line = line ∧ ∃ entry, lines.fileOf sm = some entry ∧ Holds memory entry.path (file.1 ++ [0])

/-- `get_nearest_state` selects such a row. -/
def MyDwLines.Agrees (lines : MyDwLines) (memory : PartialMemory) (file : CString)
    (line : BitVec 32) (addr baseAddr : Addr) : Prop :=
  ∃ sm, getNearestState lines.states addr baseAddr = some sm ∧ lines.Shows memory file line sm

/-- No row behind this one has its address. -/
def IsLastAt (states : List MyDwSm) (sm : MyDwSm) : Prop :=
  ∃ before after, states = before ++ sm :: after ∧ ∀ later ∈ after, later.address ≠ sm.address

/-- The address half of the memory away, whose distance has the wrong sign. -/
def opposite (address : Addr) : Addr := address + BitVec.intMin 64

/-- The last row at the address of the first row for the line is one for the line and
the file, where no row is at the opposite address; or else the last row there is. -/
def MyDwLines.Closes (lines : MyDwLines) (memory : PartialMemory) (file : CString)
    (line : BitVec 32) : Prop :=
  ∃ first sm, lines.states.find? (fun sm => sm.line = line) = some first ∧
    IsLastAt lines.states sm ∧ lines.Shows memory file line sm ∧
    (sm.address = opposite first.address ∨ sm.address = first.address ∧
      ∀ other ∈ lines.states, other.address ≠ opposite first.address)

/-! ## Distances -/

section Distance

variable {baseAddr address : Addr} {states : List MyDwSm} {sm : MyDwSm}

/-- The base address does not matter. -/
theorem rowDistance_add (baseAddr address : Addr) (sm : MyDwSm) :
    rowDistance (baseAddr + address) baseAddr sm =
      if addrDist sm.address address = longMax then none
      else some (addrDist sm.address address).toInt := by
  have difference : baseAddr + sm.address - (baseAddr + address) = sm.address - address := by
    bv_omega
  have same : addrDist (baseAddr + sm.address) (baseAddr + address) =
      addrDist sm.address address := by
    unfold addrDist
    rw [difference]
  rw [rowDistance, same]

theorem rowDistance_here (baseAddr : Addr) (here : sm.address = address) :
    rowDistance (baseAddr + address) baseAddr sm = some 0 := by
  rw [rowDistance_add, here, addrDist, BitVec.sub_self]
  rfl

theorem rowDistance_opposite (baseAddr : Addr) (away : sm.address = opposite address) :
    rowDistance (baseAddr + address) baseAddr sm = some (-2 ^ 63) := by
  have difference : opposite address - address = BitVec.intMin 64 := by
    rw [opposite, BitVec.add_comm, BitVec.add_sub_cancel]
  rw [rowDistance_add, away, addrDist, difference]
  rfl

/-- A row at another address is behind the address of the breakpoint, or passed over. -/
theorem rowDistance_elsewhere (elsewhere : sm.address ≠ address)
    (notOpposite : sm.address ≠ opposite address) {far : Int}
    (found : rowDistance (baseAddr + address) baseAddr sm = some far) : 0 < far := by
  rw [rowDistance_add] at found
  have considered : addrDist sm.address address ≠ longMax := by
    intro passed
    rw [if_pos passed] at found
    cases found
  rw [if_neg considered] at found
  have distance : (addrDist sm.address address).toInt = far := Option.some.inj found
  have below : (sm.address - address).sle 0 = true := by
    by_contra above
    exact considered (if_neg above)
  have notMin : sm.address - address ≠ BitVec.intMin 64 := by
    intro least
    apply notOpposite
    rw [opposite, BitVec.add_comm, ← least, BitVec.sub_add_cancel]
  have notZero : (sm.address - address).toInt ≠ 0 := by
    intro zero
    apply elsewhere
    have same : sm.address - address = 0 := BitVec.eq_of_toInt_eq zero
    rw [← BitVec.sub_add_cancel sm.address address, same]
    exact BitVec.zero_add address
  rw [addrDist, if_pos below, BitVec.toInt_neg_of_ne_intMin notMin] at distance
  rw [BitVec.sle_iff_toInt_le] at below
  change _ ≤ (0 : Int) at below
  omega

/-- Every distance is at least that of the opposite address. -/
theorem rowDistance_least {addr : Addr} {far : Int}
    (found : rowDistance addr baseAddr sm = some far) : -2 ^ 63 ≤ far := by
  unfold rowDistance at found
  split at found
  · cases found
  · obtain rfl := Option.some.inj found
    exact BitVec.le_toInt _

theorem isLastAt_cons {first : MyDwSm} (last : IsLastAt states sm) :
    IsLastAt (first :: states) sm := by
  obtain ⟨before, after, rfl, fresh⟩ := last
  exact ⟨first :: before, after, rfl, fresh⟩

/-- Of the rows at an address there is a last one. -/
theorem exists_isLastAt (present : ∃ row ∈ states, row.address = address) :
    ∃ sm, IsLastAt states sm ∧ sm.address = address := by
  induction states with
  | nil => simp at present
  | cons first rest inductionHypothesis =>
      by_cases later : ∃ row ∈ rest, row.address = address
      · obtain ⟨sm, last, here⟩ := inductionHypothesis later
        exact ⟨sm, isLastAt_cons last, here⟩
      · have fresh : ∀ row ∈ rest, row.address ≠ address := by
          intro row member here
          exact later ⟨row, member, here⟩
        have here : first.address = address := by
          simp only [List.mem_cons, exists_eq_or_imp] at present
          exact present.resolve_right later
        subst here
        exact ⟨first, ⟨[], rest, rfl, fresh⟩, rfl⟩

/-- A later row is selected only if it is no farther away. -/
theorem getNearestState_last {addr : Addr} {near : Int} (last : IsLastAt states sm)
    (here : rowDistance addr baseAddr sm = some near)
    (least : ∀ other ∈ states, ∀ far, rowDistance addr baseAddr other = some far → near ≤ far)
    (nearer : ∀ other ∈ states, other.address ≠ sm.address →
      ∀ far, rowDistance addr baseAddr other = some far → near < far) :
    getNearestState states addr baseAddr = some sm := by
  obtain ⟨before, after, split, fresh⟩ := last
  have unbeaten : Unbeaten (rowDistance addr baseAddr) (fun other => ¬ other = sm) states sm := by
    refine ⟨before, after, near, split, here, ?_, ?_⟩
    · intro other early _
      exact least other (by simp [split, early])
    · intro other late _
      exact nearer other (by simp [split, late]) (fresh other late)
  rw [getNearestState_eq]
  obtain ⟨found, selected, rfl⟩ := (nearest_mem_iff (· = sm)).mpr ⟨sm, rfl, unbeaten⟩
  exact selected

/-- A row at the opposite address is preferred to those at the address itself. -/
theorem getNearestState_opposite (last : IsLastAt states sm)
    (away : sm.address = opposite address) :
    getNearestState states (baseAddr + address) baseAddr = some sm := by
  have here := rowDistance_opposite baseAddr away
  apply getNearestState_last last here
  · intro other _ far found
    exact rowDistance_least found
  · intro other _ elsewhere far found
    rw [away] at elsewhere
    by_cases same : other.address = address
    · rw [rowDistance_here baseAddr same] at found
      obtain rfl := Option.some.inj found
      decide
    · have behind := rowDistance_elsewhere same elsewhere found
      omega

theorem getNearestState_here (last : IsLastAt states sm) (same : sm.address = address)
    (noOpposite : ∀ other ∈ states, other.address ≠ opposite address) :
    getNearestState states (baseAddr + address) baseAddr = some sm := by
  have here := rowDistance_here baseAddr same
  have behind (other : MyDwSm) (member : other ∈ states) (elsewhere : other.address ≠ address)
      (far : Int) (found : rowDistance (baseAddr + address) baseAddr other = some far) :
      0 < far :=
    rowDistance_elsewhere elsewhere (noOpposite other member) found
  apply getNearestState_last last here
  · intro other member far found
    by_cases level : other.address = address
    · rw [rowDistance_here baseAddr level] at found
      exact (Option.some.inj found).le
    · exact (behind other member level far found).le
  · intro other member elsewhere far found
    rw [same] at elsewhere
    exact behind other member elsewhere far found

end Distance

/-! ## Agreement -/

section Agreement

variable {lines : MyDwLines} {baseAddr addr : Addr} {file : CString} {line : BitVec 32}

/-- The row selected where a row is at `address`. -/
theorem exists_selected {states : List MyDwSm} {first : MyDwSm} (member : first ∈ states)
    (baseAddr : Addr) :
    ∃ sm, IsLastAt states sm ∧
      (sm.address = opposite first.address ∨ sm.address = first.address ∧
        ∀ other ∈ states, other.address ≠ opposite first.address) ∧
      getNearestState states (baseAddr + first.address) baseAddr = some sm := by
  by_cases away : ∃ other ∈ states, other.address = opposite first.address
  · obtain ⟨sm, last, here⟩ := exists_isLastAt away
    exact ⟨sm, last, Or.inl here, getNearestState_opposite last here⟩
  · obtain ⟨sm, last, here⟩ := exists_isLastAt ⟨first, member, rfl⟩
    have noOpposite : ∀ other ∈ states, other.address ≠ opposite first.address := by
      intro other present there
      exact away ⟨other, present, there⟩
    exact ⟨sm, last, Or.inr ⟨here, noOpposite⟩, getNearestState_here last here noOpposite⟩

/-- The row that `list` selects at the address of a line is one for that line and file
exactly if the last row there is. -/
theorem agrees_iff (lines : MyDwLines) (memory : PartialMemory) (baseAddr : Addr)
    (file : CString) (line : BitVec 32) (addr : Addr)
    (found : lines.getLineAddress baseAddr file line = some addr) :
    lines.Agrees memory file line addr baseAddr ↔ lines.Closes memory file line := by
  unfold MyDwLines.getLineAddress at found
  obtain ⟨first, isFirst, rfl⟩ := Option.map_eq_some_iff.mp found
  have member : first ∈ lines.states := List.mem_of_find?_eq_some isFirst
  constructor
  · intro agrees
    obtain ⟨sm, selected, shows⟩ := agrees
    obtain ⟨last, isLast, place, same⟩ := exists_selected member baseAddr
    obtain rfl : last = sm := Option.some.inj (same.symm.trans selected)
    exact ⟨first, last, isFirst, isLast, shows, place⟩
  · intro closes
    obtain ⟨other, sm, same, isLast, shows, place⟩ := closes
    obtain rfl : other = first := Option.some.inj (same.symm.trans isFirst)
    refine ⟨sm, ?_, shows⟩
    rcases place with away | ⟨here, noOpposite⟩
    · exact getNearestState_opposite isLast away
    · exact getNearestState_here isLast here noOpposite

/-- What `list` passes to `print_file_line` then. -/
theorem printLineAtAddr_returns {memory : PartialMemory}
    (agrees : lines.Agrees memory file line addr baseAddr)
    (included : ∀ entry ∈ lines.lconf.files,
      (entry.index - 1).toNat ≤ lines.lconf.includeDirectories.length) :
    ∃ shown, Returns (printLineAtAddr lines addr baseAddr) (some shown) ∧
      shown.line = line ∧ Holds memory shown.file (file.1 ++ [0]) := by
  obtain ⟨sm, selected, sameLine, entry, isEntry, named⟩ := agrees
  unfold MyDwLines.fileOf at isEntry
  split at isEntry
  · cases isEntry
  · next nonzero =>
      have inside := (List.getElem?_eq_some_iff.mp isEntry).1
      have room := included entry (List.mem_of_getElem? isEntry)
      have directory : ∃ dir, Returns (lineDirectory lines.lconf entry) dir := by
        unfold lineDirectory
        split
        · exact ⟨_, .pure _⟩
        · rw [pointerAt, if_pos room]
          exact ⟨_, (Returns.pure _).bind (.pure _)⟩
      obtain ⟨dir, returns⟩ := directory
      have pointer : Returns (pointerAt lines.lconf.files (sm.file - 1).toNat) (some entry) := by
        rw [pointerAt, if_pos inside.le, isEntry]
        exact .pure _
      refine ⟨{ dir, file := entry.path, line := sm.line }, ?_, sameLine, named⟩
      rw [printLineAtAddr, selected]
      simp only [nonzero, if_false]
      exact pointer.bind (returns.bind (.pure _))

end Agreement

/-! ## One line number in two files -/

/-- The names of two files. -/
def pathMemory : PartialMemory := fun addr => [97, 46, 99, 0, 98, 46, 99, 0][addr.toNat]?

/-- A row for line 1 of the first file, and the end of its sequence. -/
def twoFiles : MyDwLines where
  lconf := {
    lhdr := 0
    standardOpcodeLengths := 0
    includeDirectories := []
    files := [{ path := 0, index := 0, lastModification := 0, fileSize := 0 },
      { path := 4, index := 0, lastModification := 0, fileSize := 0 }] }
  states := [rowAt 0x10 false, rowAt 0x20 true]

def firstPath : CString := ⟨[97, 46, 99], by decide⟩

def secondPath : CString := ⟨[98, 46, 99], by decide⟩

/-- Line 1 of the first file is shown there. -/
theorem twoFiles_agree : twoFiles.Agrees pathMemory firstPath 1 0x1010 0x1000 :=
  (agrees_iff twoFiles pathMemory 0x1000 firstPath 1 0x1010 rfl).mpr
    ⟨rowAt 0x10 false, rowAt 0x10 false, rfl, ⟨[], [rowAt 0x20 true], rfl, by simp [rowAt]⟩,
      ⟨rfl, _, rfl, by decide⟩, Or.inr ⟨rfl, by decide⟩⟩

/-- The first file is shown there for line 1 of the second one, too. -/
theorem twoFiles_disagree :
    twoFiles.getLineAddress 0x1000 secondPath 1 = some 0x1010 ∧
      ¬ twoFiles.Agrees pathMemory secondPath 1 0x1010 0x1000 := by
  refine ⟨rfl, ?_⟩
  intro agrees
  obtain ⟨sm, selected, _, entry, isEntry, named⟩ := agrees
  obtain rfl : rowAt 0x10 false = sm := Option.some.inj selected
  obtain rfl := Option.some.inj isEntry
  revert named
  decide

end MyDbg.Infos
