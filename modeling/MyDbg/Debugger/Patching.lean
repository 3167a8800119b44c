import MyDbg.Debugger.Tracee
import MyDbg.Lib.Transition

/-!
Contract: what code breakpoints do to the bytes of the tracee.

Owns: the byte at an address with the breakpoint there, as one cell that an
operation changes; that `place_breakpoint` and `toggle_breakpoint` change the cell
of their own address and no other; and from it that operations at different
addresses commute.

Does not own: two breakpoints at one address, and what the tracee writes.
-/

namespace MyDbg

open LittleEndian ProgramLogic Transition

variable {κ : Type}

/-! ## Cells -/

/-- A code breakpoint; `restored` is the byte it leaves behind when disabled. -/
structure Patch where
  enabled : Bool
  temp : Bool
  restored : Byte
deriving DecidableEq

/-- The byte at an address, and the breakpoint there. -/
structure Cell where
  byte : Byte
  patch : Option Patch
deriving DecidableEq

inductive Patching where
  | place (flags : MyBpFlags)
  | toggle

/-- A disabled temporary breakpoint is left alone. -/
def Patch.toggle (byte : Byte) (patch : Patch) : Cell :=
  if !patch.enabled && patch.temp then ⟨byte, some patch⟩
  else ⟨if patch.enabled then patch.restored else 0xCC,
    some { patch with enabled := !patch.enabled }⟩

/-- What is done to the cell of the address. -/
def Patching.change (cell : Cell) : Patching → Cell
  | place flags => ⟨0xCC, some ⟨true, flags &&& myBpTemp != 0, cell.byte⟩⟩
  | toggle =>
      match cell.patch with
      | none => cell
      | some patch => patch.toggle cell.byte

/-- A place or toggle of the breakpoint at an address. -/
structure Operation where
  addr : Addr
  kind : Patching

def Operation.apply (operation : Operation) (cells : Addr → Cell) : Addr → Cell :=
  Function.update cells operation.addr (operation.kind.change (cells operation.addr))

/-- An enabled breakpoint is an int3. -/
def Cell.Armed (cell : Cell) : Prop :=
  ∀ patch, cell.patch = some patch → patch.enabled = true → cell.byte = 0xCC

section Cells

variable {cells : Addr → Cell} {cell : Cell} {first second operation : Operation} {addr : Addr}

theorem Operation.apply_self :
    operation.apply cells operation.addr = operation.kind.change (cells operation.addr) :=
  Function.update_self ..

theorem Operation.apply_of_ne (elsewhere : addr ≠ operation.addr) :
    operation.apply cells addr = cells addr :=
  Function.update_of_ne elsewhere ..

/-- Operations on different cells commute. -/
theorem Operation.apply_comm (apart : first.addr ≠ second.addr) :
    second.apply (first.apply cells) = first.apply (second.apply cells) := by
  have seen : first.apply cells second.addr = cells second.addr := apply_of_ne apart.symm
  have unseen : second.apply cells first.addr = cells first.addr := apply_of_ne apart
  show Function.update (first.apply cells) second.addr (second.kind.change _) =
    Function.update (second.apply cells) first.addr (first.kind.change _)
  rw [seen, unseen]
  exact Function.update_comm apart ..

theorem Patch.toggle_armed (byte : Byte) (patch : Patch)
    (armed : patch.enabled = true → byte = 0xCC) : (patch.toggle byte).Armed := by
  obtain ⟨enabled, temp, restored⟩ := patch
  intro other found on
  unfold toggle at found ⊢
  cases enabled with
  | true =>
      obtain rfl := Option.some.inj found
      cases on
  | false =>
      cases temp with
      | true =>
          obtain rfl := Option.some.inj found
          cases on
      | false => rfl

theorem Patching.change_armed (armed : cell.Armed) (kind : Patching) :
    (kind.change cell).Armed := by
  cases kind with
  | place flags =>
      intro patch _ _
      rfl
  | toggle =>
      show (match cell.patch with
        | none => cell
        | some patch => patch.toggle cell.byte).Armed
      cases present : cell.patch with
      | none => exact armed
      | some patch => exact patch.toggle_armed cell.byte (armed patch present)

/-- Two toggles of an int3 that is to stay. -/
theorem Patch.toggle_toggle {patch : Patch} (on : patch.enabled = true)
    (persistent : patch.temp = false) :
    Patching.toggle.change (patch.toggle 0xCC) = ⟨0xCC, some patch⟩ := by
  obtain ⟨enabled, temp, restored⟩ := patch
  subst on persistent
  rfl

end Cells

/-! ## The breakpoints of the debugger -/

def MyBp.isCodeAt (addr : Addr) (bp : MyBp) : Bool := bp.addr == addr && !bp.isSyscall

/-- The index of the code breakpoint at an address. -/
def codeIndex (breakpoints : List MyBp) (addr : Addr) : Option Nat :=
  breakpoints.findIdx? (MyBp.isCodeAt addr)

def MyBp.patch (bp : MyBp) : Patch := ⟨bp.enabled, bp.isTemp, lowByte bp.word⟩

def patchAt (breakpoints : List MyBp) (addr : Addr) : Option Patch :=
  (breakpoints.find? (MyBp.isCodeAt addr)).map MyBp.patch

/-- The memory of the tracee, with the breakpoints in it. -/
def Tracee.cells {host : Host κ} (tracee : Tracee host) (state : State κ) (addr : Addr) : Cell :=
  ⟨tracee.mem state.kernel addr, patchAt state.globals.gBreakpoints addr⟩

/-- The call of `place_breakpoint` or `toggle_breakpoint`. -/
def Operation.run (host : Host κ) (operation : Operation) : Dbg κ Unit :=
  match operation.kind with
  | .place flags => do
      let _ ← placeBreakpoint host operation.addr flags
      return ()
  | .toggle => do
      let globals ← getGlobals
      match codeIndex globals.gBreakpoints operation.addr with
      | some index => toggleBreakpoint host index
      | none => Program.fault

/-- A code breakpoint is placed where none is, and toggled where one is. -/
def Operation.Applies (operation : Operation) (state : State κ) : Prop :=
  match operation.kind with
  | .place flags =>
      flags &&& myBpSyscall = 0 ∧ patchAt state.globals.gBreakpoints operation.addr = none
  | .toggle => patchAt state.globals.gBreakpoints operation.addr ≠ none

/-- There is memory for the entry that is appended. -/
def Operation.Fits (operation : Operation) (length : Nat) : Prop :=
  match operation.kind with
  | .place _ => (length + 1) * sizeofMyBp < 2 ^ 63
  | .toggle => True

def Operation.lengthAfter (operation : Operation) (length : Nat) : Nat :=
  match operation.kind with
  | .place _ => length + 1
  | .toggle => length

section Entries

variable {α : Type} {p : α → Bool} {entries : List α} {entry other : α} {index : Nat}

theorem find?_set_hit (found : entries.findIdx? p = some index) (hit : p other = true) :
    (entries.set index other).find? p = some other := by
  induction entries generalizing index with
  | nil => simp at found
  | cons first rest inductionHypothesis =>
      rw [List.findIdx?_cons] at found
      cases here : p first with
      | true =>
          simp [here] at found
          simp [← found, hit]
      | false =>
          simp [here] at found
          obtain ⟨before, earlier, rfl⟩ := found
          simp [here, inductionHypothesis earlier]

theorem find?_set_miss (found : entries[index]? = some entry) (missed : p entry = false)
    (misses : p other = false) : (entries.set index other).find? p = entries.find? p := by
  induction entries generalizing index with
  | nil => simp at found
  | cons first rest inductionHypothesis =>
      cases index with
      | zero =>
          obtain rfl : first = entry := by simpa using found
          simp [missed, misses]
      | succ index =>
          have later : rest[index]? = some entry := by simpa using found
          simp [List.find?_cons, inductionHypothesis later]

theorem find?_of_findIdx? (found : entries.findIdx? p = some index) :
    ∃ entry, entries[index]? = some entry ∧ p entry = true ∧ entries.find? p = some entry := by
  obtain ⟨inside, hit, first⟩ := List.findIdx?_eq_some_iff_getElem.mp found
  refine ⟨entries[index], List.getElem?_eq_getElem inside, hit, ?_⟩
  rw [List.find?_eq_some_iff_getElem]
  refine ⟨hit, index, inside, rfl, ?_⟩
  intro earlier before
  simpa using first earlier before

end Entries

section Breakpoints

variable {breakpoints : List MyBp} {bp : MyBp} {addr : Addr} {index : Nat}

theorem MyBp.isCodeAt_iff :
    bp.isCodeAt addr = true ↔ bp.addr = addr ∧ bp.isSyscall = false := by
  simp [MyBp.isCodeAt]

theorem codeIndex_eq_none :
    codeIndex breakpoints addr = none ↔ patchAt breakpoints addr = none := by
  simp [codeIndex, patchAt]

theorem codeIndex_eq_some (found : codeIndex breakpoints addr = some index) :
    ∃ bp, breakpoints[index]? = some bp ∧ bp.isCodeAt addr = true ∧
      patchAt breakpoints addr = some bp.patch := by
  obtain ⟨bp, entry, hit, first⟩ := find?_of_findIdx? found
  refine ⟨bp, entry, hit, ?_⟩
  rw [patchAt, first, Option.map_some]

/-- An entry that is appended where there is no breakpoint yet. -/
theorem patchAt_append (fresh : patchAt breakpoints addr = none) (code : bp.isCodeAt addr = true) :
    patchAt (breakpoints ++ [bp]) = Function.update (patchAt breakpoints) addr (some bp.patch) := by
  funext other
  by_cases here : other = addr
  · subst here
    have absent : breakpoints.find? (MyBp.isCodeAt other) = none := by
      simpa [patchAt] using fresh
    simp [patchAt, List.find?_append, absent, code]
  · have elsewhere : bp.isCodeAt other = false := by
      obtain ⟨rfl, _⟩ := MyBp.isCodeAt_iff.mp code
      simp [MyBp.isCodeAt, Ne.symm here]
    simp [patchAt, List.find?_append, elsewhere, here]

/-- A breakpoint that is switched. -/
theorem patchAt_toggled (found : codeIndex breakpoints addr = some index)
    (entry : breakpoints[index]? = some bp) (code : bp.isCodeAt addr = true) :
    patchAt (breakpoints.set index bp.toggled) =
      Function.update (patchAt breakpoints) addr (some bp.toggled.patch) := by
  have same (other : Addr) : bp.toggled.isCodeAt other = bp.isCodeAt other := rfl
  funext other
  by_cases here : other = addr
  · subst here
    have hit : bp.toggled.isCodeAt other = true := code
    simp [patchAt, find?_set_hit found hit]
  · have elsewhere : bp.isCodeAt other = false := by
      obtain ⟨rfl, _⟩ := MyBp.isCodeAt_iff.mp code
      simp [MyBp.isCodeAt, Ne.symm here]
    have missed : bp.toggled.isCodeAt other = false := elsewhere
    simp [patchAt, find?_set_miss entry elsewhere missed, here]

end Breakpoints

/-! ## Operations of the code -/

section Operations

variable {host : Host κ} (tracee : Tracee host) {state after : State κ} {addr : Addr}
  {operation first second : Operation}

theorem Tracee.cells_eq (byte : Byte) (patch : Option Patch)
    (mem : tracee.mem after.kernel = Function.update (tracee.mem state.kernel) addr byte)
    (patches : patchAt after.globals.gBreakpoints =
      Function.update (patchAt state.globals.gBreakpoints) addr patch) :
    tracee.cells after = Function.update (tracee.cells state) addr ⟨byte, patch⟩ := by
  funext other
  show Cell.mk (tracee.mem after.kernel other) (patchAt after.globals.gBreakpoints other) = _
  rw [mem, patches]
  by_cases here : other = addr
  · subst here
    simp
  · simp [here, Tracee.cells]

/-- Requests for the word at `addr` never fail. -/
structure Transfers (host : Host κ) (addr : Addr) : Prop where
  peekdata : ∀ kernel, (host.ptrace (.peekdata addr) kernel).1.isSome
  pokedata : ∀ data kernel, (host.ptrace (.pokedata addr data) kernel).1.isSome

theorem WriteFails.refuses {source : Word} {kernel : κ}
    (fails : WriteFails host addr source kernel) : ¬ Transfers host addr := by
  intro transfers
  rcases fails with refused | ⟨reply, _, refused⟩
  · have accepted := transfers.peekdata kernel
    rw [refused] at accepted
    cases accepted
  · have accepted := transfers.pokedata (withLowByte reply.ret source)
      (host.ptrace (.peekdata addr) kernel).2
    rw [refused] at accepted
    cases accepted

/-- An operation changes its own cell and no other. It only raises where requests can be
refused, and only exits where there is no memory for the entry. -/
def Changes (tracee : Tracee host) (operation : Operation) (before : State κ) :
    Post MyException (State κ) Unit where
  ok _ after := operation.Fits before.globals.gBreakpoints.length ∧
    tracee.cells after = operation.apply (tracee.cells before) ∧
    after.globals.gBreakpoints.length =
      operation.lengthAfter before.globals.gBreakpoints.length
  throw _ _ := ¬ Transfers host operation.addr
  fault _ := False
  noReturn _ := ¬ operation.Fits before.globals.gBreakpoints.length

theorem place_changes {flags : MyBpFlags} (code : flags &&& myBpSyscall = 0)
    (fresh : patchAt state.globals.gBreakpoints addr = none) :
    wp (Operation.run host ⟨addr, .place flags⟩)
      (Changes tracee ⟨addr, .place flags⟩ state) state := by
  have isCode : (MyBp.placed state.globals.gBreakpoints addr flags
      (peek (tracee.mem state.kernel) addr)).isCodeAt addr = true := by
    rw [MyBp.isCodeAt_iff]
    refine ⟨rfl, ?_⟩
    simp [MyBp.isSyscall, MyBp.placed, code]
  have patch : (MyBp.placed state.globals.gBreakpoints addr flags
      (peek (tracee.mem state.kernel) addr)).patch =
        ⟨true, flags &&& myBpTemp != 0, tracee.mem state.kernel addr⟩ := by
    simp [MyBp.patch, MyBp.placed, MyBp.isTemp]
  change wp (placeBreakpoint host addr flags >>= fun _ => pure ()) _ state
  rw [wp_bind]
  refine wp_placeBreakpoint_code tracee code addr (fun fails _ _ => fails.refuses)
    fun _ middle written same => ?_
  unfold wp
  rw [appendBreakpoint_apply, same]
  by_cases fits : (state.globals.gBreakpoints.length + 1) * sizeofMyBp < 2 ^ 63
  · rw [if_pos fits]
    refine ⟨fits, ?_, ?_⟩
    · apply tracee.cells_eq 0xCC
      · exact written.mem
      · have appended := patchAt_append fresh isCode
        rw [patch] at appended
        exact appended
    · simp [Operation.lengthAfter]
  · rw [if_neg fits]
    exact fits

theorem toggle_changes (present : patchAt state.globals.gBreakpoints addr ≠ none) :
    wp (Operation.run host ⟨addr, .toggle⟩) (Changes tracee ⟨addr, .toggle⟩ state) state := by
  cases found : codeIndex state.globals.gBreakpoints addr with
  | none => exact absurd (codeIndex_eq_none.mp found) present
  | some index =>
      obtain ⟨bp, entry, code, patch⟩ := codeIndex_eq_some found
      obtain ⟨rfl, _⟩ := MyBp.isCodeAt_iff.mp code
      have run : Operation.run host ⟨bp.addr, .toggle⟩ state =
          toggleBreakpoint host index state := by
        change (getGlobals >>= fun globals =>
          match codeIndex globals.gBreakpoints bp.addr with
          | some index => toggleBreakpoint host index
          | none => Program.fault) state = _
        rw [Program.bind_ok (rfl : getGlobals state = .ok state.globals state), found]
      have change : Patching.toggle.change (tracee.cells state bp.addr) =
          bp.patch.toggle (tracee.mem state.kernel bp.addr) := by
        simp [Patching.change, Tracee.cells, patch]
      unfold wp
      rw [run]
      by_cases spent : bp.enabled = false ∧ bp.isTemp = true
      · obtain ⟨off, temp⟩ := spent
        rw [toggleBreakpoint_off entry off temp]
        refine ⟨trivial, ?_, rfl⟩
        have kept : bp.patch.toggle (tracee.mem state.kernel bp.addr) =
            tracee.cells state bp.addr := by
          simp [Patch.toggle, MyBp.patch, off, temp, Tracee.cells, patch]
        change tracee.cells state = Function.update (tracee.cells state) bp.addr _
        rw [change, kept, Function.update_eq_self]
      · have switches : bp.enabled = true ∨ bp.isTemp = false := by
          rw [not_and_or, Bool.not_eq_false, Bool.not_eq_true] at spent
          exact spent
        refine wp_toggleBreakpoint_on tracee entry switches
          (fun fails _ _ => WriteFails.refuses fails) fun _ middle written => ?_
        refine ⟨trivial, ?_, by simp [Operation.lengthAfter]⟩
        have switched : bp.patch.toggle (tracee.mem state.kernel bp.addr) =
            ⟨bp.toggledByte, some bp.toggled.patch⟩ := by
          have taken : (!bp.enabled && bp.isTemp) = false := by
            rcases switches with on | persistent
            · simp [on]
            · simp [persistent]
          simp only [Patch.toggle, MyBp.patch, taken, MyBp.toggledByte]
          rfl
        change _ = Function.update (tracee.cells state) bp.addr _
        rw [change, switched]
        apply tracee.cells_eq
        · exact written.mem
        · exact patchAt_toggled found entry code

theorem Operation.changes (applies : operation.Applies state) :
    wp (operation.run host) (Changes tracee operation state) state := by
  obtain ⟨addr, kind⟩ := operation
  cases kind with
  | place flags => exact place_changes tracee applies.1 applies.2
  | toggle => exact toggle_changes tracee applies

/-- It completes where there is memory for it and requests succeed. -/
theorem Operation.run_fits (transfers : Transfers host operation.addr)
    (applies : operation.Applies state)
    (fits : operation.Fits state.globals.gBreakpoints.length) :
    ∃ after, operation.run host state = .ok () after ∧
      tracee.cells after = operation.apply (tracee.cells state) ∧
      after.globals.gBreakpoints.length =
        operation.lengthAfter state.globals.gBreakpoints.length := by
  have changes := operation.changes tracee applies
  unfold wp at changes
  cases ends : operation.run host state with
  | ok value after =>
      rw [ends] at changes
      exact ⟨after, rfl, changes.2⟩
  | throw raised after =>
      rw [ends] at changes
      exact absurd transfers changes
  | fault after =>
      rw [ends] at changes
      exact changes.elim
  | noReturn after =>
      rw [ends] at changes
      exact absurd fits changes

theorem Operation.run_spec (applies : operation.Applies state)
    (completes : operation.run host state = .ok () after) :
    operation.Fits state.globals.gBreakpoints.length ∧
      tracee.cells after = operation.apply (tracee.cells state) ∧
      after.globals.gBreakpoints.length =
        operation.lengthAfter state.globals.gBreakpoints.length :=
  (operation.changes tracee applies).ok completes

/-- Whether an operation applies shows in the cell of its address. -/
theorem Operation.applies_congr {other : State κ}
    (same : tracee.cells state operation.addr = tracee.cells other operation.addr) :
    operation.Applies state ↔ operation.Applies other := by
  have patch : patchAt state.globals.gBreakpoints operation.addr =
      patchAt other.globals.gBreakpoints operation.addr := congrArg Cell.patch same
  obtain ⟨addr, kind⟩ := operation
  cases kind <;> simp only [Applies, patch]

/-- Only the number of placements counts. -/
theorem Operation.fits_comm {length : Nat} (firstFits : first.Fits length)
    (secondFits : second.Fits (first.lengthAfter length)) :
    second.Fits length ∧ first.Fits (second.lengthAfter length) := by
  obtain ⟨_, firstKind⟩ := first
  obtain ⟨_, secondKind⟩ := second
  cases firstKind with
  | place _ =>
      cases secondKind with
      | place _ => exact ⟨firstFits, secondFits⟩
      | toggle => exact ⟨trivial, firstFits⟩
  | toggle =>
      cases secondKind with
      | place _ => exact ⟨secondFits, trivial⟩
      | toggle => exact ⟨trivial, trivial⟩

/-- Two operations on different addresses come to the same in both orders. -/
theorem Operation.run_comm (firstTransfers : Transfers host first.addr)
    (secondTransfers : Transfers host second.addr) (apart : first.addr ≠ second.addr)
    (firstApplies : first.Applies state) (secondApplies : second.Applies state)
    (completes : (first.run host >>= fun _ => second.run host) state = .ok () after) :
    ∃ other, (second.run host >>= fun _ => first.run host) state = .ok () other ∧
      tracee.cells other = tracee.cells after := by
  rw [Program.bind_apply] at completes
  cases start : first.run host state with
  | throw raised middle => rw [start] at completes; cases completes
  | fault middle => rw [start] at completes; cases completes
  | noReturn middle => rw [start] at completes; cases completes
  | ok value middle =>
      rw [start] at completes
      obtain ⟨firstFits, early, grown⟩ := Operation.run_spec tracee firstApplies start
      have unseen : tracee.cells state second.addr = tracee.cells middle second.addr := by
        rw [early, apply_of_ne apart.symm]
      have later := (applies_congr tracee unseen).mp secondApplies
      obtain ⟨secondFits, late, _⟩ := Operation.run_spec tracee later completes
      rw [grown] at secondFits
      obtain ⟨fits, stillFits⟩ := fits_comm firstFits secondFits
      obtain ⟨between, begins, swapped, length⟩ :=
        run_fits tracee secondTransfers secondApplies fits
      have seen : tracee.cells state first.addr = tracee.cells between first.addr := by
        rw [swapped, apply_of_ne apart]
      have stillApplies := (applies_congr tracee seen).mp firstApplies
      rw [← length] at stillFits
      obtain ⟨other, ends, last, _⟩ := run_fits tracee firstTransfers stillApplies stillFits
      refine ⟨other, (Program.bind_ok begins).trans ends, ?_⟩
      rw [last, swapped, late, early]
      exact (apply_comm apart).symm

/-- Two toggles of an int3 that is to stay. -/
theorem toggle_twice {patch : Patch} (transfers : Transfers host addr)
    (here : tracee.cells state addr = ⟨0xCC, some patch⟩) (on : patch.enabled = true)
    (persistent : patch.temp = false) :
    ∃ after, (Operation.run host ⟨addr, .toggle⟩ >>= fun _ =>
        Operation.run host ⟨addr, .toggle⟩) state = .ok () after ∧
      tracee.cells after = tracee.cells state := by
  have present : patchAt state.globals.gBreakpoints addr = some patch := congrArg Cell.patch here
  have applies : Operation.Applies ⟨addr, .toggle⟩ state := by
    show patchAt state.globals.gBreakpoints addr ≠ none
    simp [present]
  obtain ⟨middle, starts, once, _⟩ := Operation.run_fits tracee transfers applies trivial
  have between : tracee.cells middle addr = patch.toggle 0xCC := by
    rw [once, Operation.apply_self, here]
    rfl
  have still : Operation.Applies ⟨addr, .toggle⟩ middle := by
    have kept : patchAt middle.globals.gBreakpoints addr = (patch.toggle 0xCC).patch :=
      congrArg Cell.patch between
    show patchAt middle.globals.gBreakpoints addr ≠ none
    rw [kept, Patch.toggle]
    split <;> simp
  obtain ⟨after, ends, twice, _⟩ := Operation.run_fits tracee transfers still trivial
  refine ⟨after, (Program.bind_ok starts).trans ends, ?_⟩
  rw [twice, Operation.apply, between, Patch.toggle_toggle on persistent, once, Operation.apply,
    Function.update_idem, ← here, Function.update_eq_self]

end Operations

/-! ## Sequences -/

section Sequences

variable {host : Host κ} {tracee : Tracee host} {start state : State κ} {a b : Addr}
  {operations : List Operation}

/-- One operation on the breakpoint at `a` or the one at `b`. -/
def Patches (host : Host κ) (a b : Addr) (operation : Operation) (before after : State κ) : Prop :=
  (operation.addr = a ∨ operation.addr = b) ∧ operation.Applies before ∧
    operation.run host before = .ok () after

/-- What holds of the breakpoints at `a` and `b`. -/
structure PatchesCommute (tracee : Tracee host) (a b : Addr) (state : State κ) : Prop where
  /-- An operation changes the byte at its address and the breakpoint there as
  `Patching.change` says, and no other byte or breakpoint. -/
  writes : ∀ operation after, Patches host a b operation state after →
    tracee.mem after.kernel = Function.update (tracee.mem state.kernel) operation.addr
        (operation.kind.change (tracee.cells state operation.addr)).byte ∧
      patchAt after.globals.gBreakpoints = Function.update
        (patchAt state.globals.gBreakpoints) operation.addr
          (operation.kind.change (tracee.cells state operation.addr)).patch
  /-- It completes where there is memory for it. -/
  completes : ∀ operation : Operation, operation.addr ∈ [a, b] → operation.Applies state →
    operation.Fits state.globals.gBreakpoints.length →
      ∃ after, operation.run host state = .ok () after
  /-- One on `a` and one on `b` end alike in both orders. -/
  commutes : ∀ first second : Operation, first.addr ≠ second.addr →
    first.addr ∈ [a, b] → second.addr ∈ [a, b] → first.Applies state → second.Applies state →
    ∀ after, (first.run host >>= fun _ => second.run host) state = .ok () after →
      ∃ other, (second.run host >>= fun _ => first.run host) state = .ok () other ∧
        tracee.mem other.kernel = tracee.mem after.kernel ∧
        patchAt other.globals.gBreakpoints = patchAt after.globals.gBreakpoints
  /-- Two toggles of a persistent breakpoint that is enabled undo each other. -/
  restores : ∀ addr ∈ [a, b], ∀ patch, patchAt state.globals.gBreakpoints addr = some patch →
    patch.enabled = true → patch.temp = false →
    ∃ after, (Operation.run host ⟨addr, .toggle⟩ >>= fun _ =>
        Operation.run host ⟨addr, .toggle⟩) state = .ok () after ∧
      tracee.mem after.kernel = tracee.mem state.kernel ∧
      patchAt after.globals.gBreakpoints = patchAt state.globals.gBreakpoints

theorem Tracee.cells_inj {left right : State κ} (same : tracee.cells left = tracee.cells right) :
    tracee.mem left.kernel = tracee.mem right.kernel ∧
      patchAt left.globals.gBreakpoints = patchAt right.globals.gBreakpoints :=
  ⟨funext fun addr => congrArg Cell.byte (congrFun same addr),
    funext fun addr => congrArg Cell.patch (congrFun same addr)⟩

theorem Tracee.cells_update {before after : State κ} {addr : Addr} {cell : Cell}
    (cells : tracee.cells after = Function.update (tracee.cells before) addr cell) :
    tracee.mem after.kernel = Function.update (tracee.mem before.kernel) addr cell.byte ∧
      patchAt after.globals.gBreakpoints =
        Function.update (patchAt before.globals.gBreakpoints) addr cell.patch := by
  have seen (other : Addr) : tracee.cells after other =
      Function.update (tracee.cells before) addr cell other := congrFun cells other
  constructor
  · funext other
    have byte : tracee.mem after.kernel other = _ := congrArg Cell.byte (seen other)
    rw [byte]
    by_cases here : other = addr
    · subst here
      rw [Function.update_self, Function.update_self]
    · rw [Function.update_of_ne here, Function.update_of_ne here]
      rfl
  · funext other
    have patch : patchAt after.globals.gBreakpoints other = _ := congrArg Cell.patch (seen other)
    rw [patch]
    by_cases here : other = addr
    · subst here
      rw [Function.update_self, Function.update_self]
    · rw [Function.update_of_ne here, Function.update_of_ne here]
      rfl

/-- One operation keeps every cell armed. -/
theorem patches_armed {operation : Operation} {before after : State κ}
    (armed : ∀ addr ∈ [a, b], (tracee.cells before addr).Armed)
    (taken : Patches host a b operation before after) :
    ∀ addr ∈ [a, b], (tracee.cells after addr).Armed := by
  obtain ⟨_, applies, completes⟩ := taken
  have cells := (operation.run_spec tracee applies completes).2.1
  intro addr member
  rw [cells]
  by_cases here : addr = operation.addr
  · subst here
    rw [Operation.apply_self]
    exact Patching.change_armed (armed _ member) _
  · rw [Operation.apply_of_ne here]
    exact armed addr member

/-- The breakpoints at two addresses, after any placements and toggles. -/
theorem patches_commute (tracee : Tracee host) (start : State κ) (a b : Addr)
    (transfers : ∀ addr ∈ [a, b], Transfers host addr)
    (freshA : patchAt start.globals.gBreakpoints a = none)
    (freshB : patchAt start.globals.gBreakpoints b = none) (operations : List Operation)
    (state : State κ) (runs : Run (Patches host a b) start operations state) :
    PatchesCommute tracee a b state := by
  have armed : ∀ addr ∈ [a, b], (tracee.cells state addr).Armed := by
    apply runs.invariant (fun state => ∀ addr ∈ [a, b], (tracee.cells state addr).Armed)
    · intro addr member patch present
      have absent : patchAt start.globals.gBreakpoints addr = none := by
        simp only [List.mem_cons, List.not_mem_nil, or_false] at member
        rcases member with rfl | rfl
        · exact freshA
        · exact freshB
      have found : patchAt start.globals.gBreakpoints addr = some patch := present
      rw [absent] at found
      cases found
    · intro operation before after kept taken
      exact patches_armed kept taken
  constructor
  · intro operation after taken
    obtain ⟨_, applies, completes⟩ := taken
    have cells := (operation.run_spec tracee applies completes).2.1
    exact tracee.cells_update cells
  · intro operation member applies fits
    obtain ⟨after, completes, _⟩ :=
      operation.run_fits tracee (transfers _ member) applies fits
    exact ⟨after, completes⟩
  · intro first second apart firstMember secondMember firstApplies secondApplies after completes
    obtain ⟨other, ends, same⟩ := Operation.run_comm tracee (transfers _ firstMember)
      (transfers _ secondMember) apart firstApplies secondApplies completes
    exact ⟨other, ends, Tracee.cells_inj same⟩
  · intro addr member patch present on persistent
    have byte : tracee.mem state.kernel addr = 0xCC := armed addr member patch present on
    have here : tracee.cells state addr = ⟨0xCC, some patch⟩ := by
      rw [Tracee.cells, byte, present]
    obtain ⟨after, ends, same⟩ := toggle_twice tracee (transfers addr member) here on persistent
    exact ⟨after, ends, Tracee.cells_inj same⟩

end Sequences

/-! ## Two breakpoints three bytes apart -/

def placedOnce : State Scripted :=
  (Operation.run scripted ⟨0x1000, .place 0⟩ (Scripted.start [])).state

def placedTwice : State Scripted := (Operation.run scripted ⟨0x1003, .place 0⟩ placedOnce).state

theorem placedTwice_run : Run (Patches scripted 0x1000 0x1003) (Scripted.start [])
    [⟨0x1000, .place 0⟩, ⟨0x1003, .place 0⟩] placedTwice := by
  have once : Patches scripted 0x1000 0x1003 ⟨0x1000, .place 0⟩ (Scripted.start []) placedOnce :=
    ⟨Or.inl rfl, ⟨rfl, rfl⟩, rfl⟩
  have twice : Patches scripted 0x1000 0x1003 ⟨0x1003, .place 0⟩ placedOnce placedTwice :=
    ⟨Or.inr rfl, ⟨rfl, rfl⟩, rfl⟩
  exact .tail (.single once) twice

theorem scripted_transfers (addr : Addr) : Transfers scripted addr :=
  ⟨fun _ => rfl, fun _ _ => rfl⟩

theorem placedTwice_commute : PatchesCommute scriptedTracee 0x1000 0x1003 placedTwice :=
  patches_commute scriptedTracee (Scripted.start []) 0x1000 0x1003
    (fun addr _ => scripted_transfers addr) rfl rfl [⟨0x1000, .place 0⟩, ⟨0x1003, .place 0⟩]
    placedTwice placedTwice_run

end MyDbg
