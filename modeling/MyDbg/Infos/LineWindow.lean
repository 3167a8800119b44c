import MyDbg.Infos.DwarfLines

/-!
Contract: line number information read through a window.

Owns: windows, the part of a memory that is left when some accesses are ruled
out; and that every reader of `my_dwarf.c` and `dwarf_state_machine.c` does the
same through a window, unless it makes an access that was ruled out.

Does not own: which accesses are ruled out.
-/

namespace MyDbg.Infos

open LittleEndian ProgramLogic

/-- `part` is what `allowed` accesses can read of `memory`. -/
structure Window (memory part : PartialMemory) (allowed : Access → Prop) : Prop where
  inside : ∀ addr size, allowed ⟨addr, size⟩ → readBytes part addr size = readBytes memory addr size
  outside : ∀ addr size, 0 < size → ¬ allowed ⟨addr, size⟩ → readBytes part addr size = none

/-! ## The first bytes of a mapping -/

section First

variable {base addr : Addr} {bytes : List Byte} {limit : Nat}

theorem next_offset (small : (addr - base).toNat + 1 < 2 ^ 64) :
    (addr + 1 - base).toNat = (addr - base).toNat + 1 := by
  have swap : addr + 1 - base = addr - base + 1 := by
    rw [BitVec.sub_eq_add_neg, BitVec.sub_eq_add_neg, BitVec.add_assoc, BitVec.add_comm 1,
      BitVec.add_assoc]
  rw [swap, BitVec.toNat_add, show (1 : Addr).toNat = 1 from rfl, Nat.mod_eq_of_lt small]

theorem first_inside (small : limit < 2 ^ 64) {size : Nat}
    (inside : (addr - base).toNat + size ≤ limit) :
    readBytes (mapped base (bytes.take limit)) addr size =
      readBytes (mapped base bytes) addr size := by
  induction size generalizing addr with
  | zero => rfl
  | succ size inductionHypothesis =>
      have here : mapped base (bytes.take limit) addr = mapped base bytes addr :=
        List.getElem?_take_of_lt (by omega)
      have later := next_offset (show (addr - base).toNat + 1 < 2 ^ 64 by omega)
      rw [readBytes, readBytes, here, inductionHypothesis (by omega)]

theorem first_outside (small : limit < 2 ^ 64) {size : Nat} (positive : 0 < size)
    {found : List Byte} (read : readBytes (mapped base (bytes.take limit)) addr size = some found) :
    (addr - base).toNat + size ≤ limit := by
  induction size generalizing addr found with
  | zero => exact absurd positive (Nat.lt_irrefl 0)
  | succ size inductionHypothesis =>
      simp only [readBytes, Option.bind_eq_bind, Option.bind_eq_some_iff] at read
      obtain ⟨byte, here, rest, later, _⟩ := read
      have inside : (addr - base).toNat < limit := by
        by_contra beyond
        have none : mapped base (bytes.take limit) addr = none :=
          List.getElem?_take_eq_none (Nat.le_of_not_lt beyond)
        rw [none] at here
        cases here
      cases size with
      | zero => omega
      | succ size =>
          have next := next_offset (show (addr - base).toNat + 1 < 2 ^ 64 by omega)
          have rest := inductionHypothesis (Nat.succ_pos size) later
          omega

/-- The window that shows the first bytes only. -/
theorem first_window (small : limit < 2 ^ 64) :
    Window (mapped base bytes) (mapped base (bytes.take limit))
      fun access => (access.addr - base).toNat + access.size ≤ limit where
  inside _ _ inside := first_inside small inside
  outside addr size positive forbidden := by
    cases read : readBytes (mapped base (bytes.take limit)) addr size with
    | none => rfl
    | some found => exact absurd (first_outside small positive read) forbidden

end First

/-! ## Readers -/

section Readers

variable {memory part : PartialMemory} {allowed : Access → Prop}

theorem load_restricts (window : Window memory part allowed) (addr : Addr) {size : Nat}
    (positive : 0 < size) : Restricts allowed (load memory addr size) (load part addr size) := by
  intro before
  refine ⟨[⟨addr, size⟩], ?_, ?_⟩
  · rw [load]
    cases readBytes memory addr size with
    | none => rfl
    | some bytes => rfl
  · by_cases permitted : allowed ⟨addr, size⟩
    · refine .inl ⟨by simpa using permitted, ?_⟩
      rw [load, load, window.inside addr size permitted]
    · refine .inr ⟨by simpa using permitted, ⟨addr, size⟩ :: before, ?_⟩
      rw [load, window.outside addr size positive permitted]
      rfl

theorem key_size_pos (key : MyDwKey) : 0 < key.size := by
  cases key <;> decide

theorem val_restricts (window : Window memory part allowed) (lhdr : Addr) (key : MyDwKey) :
    Restricts allowed (val memory lhdr key) (val part lhdr key) := by
  apply Restricts.bind (load_restricts window _ (by decide))
  intro version
  apply Restricts.ite
  · apply Restricts.ite
    · exact .pure 1
    · exact load_restricts window _ (key_size_pos key)
  · exact load_restricts window _ (key_size_pos key)

theorem readLeb128From_restricts (window : Window memory part allowed) (fuel shift : Nat)
    (result : Word) (ptr : Addr) :
    Restricts allowed (readLeb128From memory fuel shift result ptr)
      (readLeb128From part fuel shift result ptr) := by
  induction fuel generalizing shift result ptr with
  | zero => exact .noReturn
  | succ fuel inductionHypothesis =>
      apply Restricts.bind (load_restricts window ptr (by decide))
      intro loaded
      exact .ite (.pure _) (inductionHypothesis _ _ _)

theorem readLeb128_restricts (window : Window memory part allowed) (fuel : Nat) (ptr : Addr) :
    Restricts allowed (readLeb128 memory fuel ptr) (readLeb128 part fuel ptr) :=
  readLeb128From_restricts window fuel 0 0 ptr

theorem stringEnd_restricts (window : Window memory part allowed) (fuel : Nat) (str : Addr) :
    Restricts allowed (stringEnd memory fuel str) (stringEnd part fuel str) := by
  induction fuel generalizing str with
  | zero => exact .noReturn
  | succ fuel inductionHypothesis =>
      apply Restricts.bind (load_restricts window str (by decide))
      intro c
      exact .ite (.pure _) (inductionHypothesis _)

theorem storeDirectoriesFrom_restricts (window : Window memory part allowed) (fuel : Nat)
    (directories : List Addr) (str : Addr) :
    Restricts allowed (storeDirectoriesFrom memory fuel directories str)
      (storeDirectoriesFrom part fuel directories str) := by
  induction fuel generalizing directories str with
  | zero => exact .noReturn
  | succ fuel inductionHypothesis =>
      apply Restricts.bind (load_restricts window str (by decide))
      intro c
      apply Restricts.ite
      · exact .pure _
      · apply Restricts.bind (stringEnd_restricts window fuel str)
        intro next
        exact inductionHypothesis _ next

theorem storeFilesFrom_restricts (window : Window memory part allowed) (fuel : Nat)
    (files : List MyDwFile) (str : Addr) :
    Restricts allowed (storeFilesFrom memory fuel files str)
      (storeFilesFrom part fuel files str) := by
  induction fuel generalizing files str with
  | zero => exact .noReturn
  | succ fuel inductionHypothesis =>
      apply Restricts.bind (load_restricts window str (by decide))
      intro c
      apply Restricts.ite
      · exact .pure _
      · apply Restricts.bind (stringEnd_restricts window fuel str)
        intro ptr
        apply Restricts.bind (readLeb128_restricts window fuel ptr)
        intro index
        apply Restricts.bind (readLeb128_restricts window fuel index.2)
        intro lastModification
        apply Restricts.bind (readLeb128_restricts window fuel lastModification.2)
        intro fileSize
        exact inductionHypothesis _ fileSize.2

theorem dwarfLinesConfig_restricts (window : Window memory part allowed) (fuel : Nat)
    (lhdr : Addr) :
    Restricts allowed (dwarfLinesConfig memory fuel lhdr) (dwarfLinesConfig part fuel lhdr) := by
  have lengths : Restricts allowed (standardOpcodeLengths memory lhdr)
      (standardOpcodeLengths part lhdr) := by
    apply Restricts.bind (load_restricts window _ (by decide))
    intro version
    exact .ite (.pure _) (.pure _)
  apply Restricts.bind lengths
  intro opcodeLengths
  apply Restricts.bind (val_restricts window lhdr .opcodeBase)
  intro opcodeBase
  apply Restricts.bind (storeDirectoriesFrom_restricts window fuel [] _)
  intro directories
  apply Restricts.bind (storeFilesFrom_restricts window fuel [] directories.2)
  intro files
  exact .pure _

end Readers

/-! ## Instructions -/

section Instructions

variable {memory part : PartialMemory} {allowed : Access → Prop} {lhdr : Addr} {fuel : Nat}
  {run : LineRun}

theorem resetMachine_restricts (window : Window memory part allowed) (lhdr : Addr) :
    Restricts allowed (resetMachine memory lhdr) (resetMachine part lhdr) := by
  apply Restricts.bind (val_restricts window lhdr .defaultIsStmt)
  intro defaultIsStmt
  exact .pure _

theorem advance_restricts (window : Window memory part allowed) (sm : MyDwSm) (opAdv : Word) :
    Restricts allowed (advanceAddrAndOpIndex memory lhdr sm opAdv)
      (advanceAddrAndOpIndex part lhdr sm opAdv) := by
  apply Restricts.bind (val_restricts window lhdr .minimumInstructionLength)
  intro minimum
  apply Restricts.bind (val_restricts window lhdr .maximumOperationsPerInstruction)
  intro maximum
  apply Restricts.bind (.of_silent (checkDivisor_silent maximum))
  intro _
  exact .pure _

/-- An opcode with a number for its operand. -/
theorem number_restricts (window : Window memory part allowed)
    (next : Word × Addr → LineRun) :
    Restricts allowed (readLeb128 memory fuel run.ptr >>= fun read => pure (next read))
      (readLeb128 part fuel run.ptr >>= fun read => pure (next read)) := by
  apply Restricts.bind (readLeb128_restricts window fuel run.ptr)
  intro read
  exact .pure _

theorem extendedOpcode_restricts (window : Window memory part allowed) (opcode : Nat) :
    Restricts allowed (extendedOpcode memory lhdr fuel run opcode)
      (extendedOpcode part lhdr fuel run opcode) := by
  rcases opcode with _ | _ | _ | _ | _ | opcode
  · exact .throw _
  · apply Restricts.bind (resetMachine_restricts window lhdr)
    intro sm
    exact .pure _
  · apply Restricts.bind (load_restricts window run.ptr (by decide))
    intro address
    exact .pure _
  · exact .throw _
  · exact number_restricts window _
  · exact .throw _

theorem standardOpcode_restricts (window : Window memory part allowed) (opcode : Nat) :
    Restricts allowed (standardOpcode memory lhdr fuel run opcode)
      (standardOpcode part lhdr fuel run opcode) := by
  rcases opcode with _ | _ | _ | _ | _ | _ | _ | _ | _ | _ | _ | _ | _ | opcode
  · exact .throw _
  · exact .pure _
  · apply Restricts.bind (readLeb128_restricts window fuel run.ptr)
    intro read
    apply Restricts.bind (advance_restricts window run.sm read.1)
    intro sm
    exact .pure _
  · exact number_restricts window _
  · exact number_restricts window _
  · exact number_restricts window _
  · exact .pure _
  · exact .pure _
  · apply Restricts.bind (val_restricts window lhdr .opcodeBase)
    intro opcodeBase
    apply Restricts.bind (val_restricts window lhdr .lineRange)
    intro lineRange
    apply Restricts.bind (.of_silent (checkDivisor_silent lineRange))
    intro _
    apply Restricts.bind (advance_restricts window run.sm _)
    intro sm
    exact .pure _
  · apply Restricts.bind (load_restricts window run.ptr (by decide))
    intro delta
    exact .pure _
  · exact .pure _
  · exact .pure _
  · exact number_restricts window _
  · exact .throw _

theorem specialInstruction_restricts (window : Window memory part allowed) (opcode : Byte) :
    Restricts allowed (specialInstruction memory lhdr run opcode)
      (specialInstruction part lhdr run opcode) := by
  apply Restricts.bind (val_restricts window lhdr .opcodeBase)
  intro opcodeBase
  apply Restricts.bind (val_restricts window lhdr .lineRange)
  intro lineRange
  apply Restricts.bind (.of_silent (checkDivisor_silent lineRange))
  intro _
  apply Restricts.bind (val_restricts window lhdr .lineBase)
  intro lineBase
  apply Restricts.bind (advance_restricts window _ _)
  intro sm
  exact .pure _

theorem runInstruction_restricts (window : Window memory part allowed) (run : LineRun) :
    Restricts allowed (runInstruction memory lhdr fuel run)
      (runInstruction part lhdr fuel run) := by
  apply Restricts.bind (load_restricts window run.ptr (by decide))
  intro opcode
  apply Restricts.ite
  · apply Restricts.bind (readLeb128_restricts window fuel (run.ptr + 1))
    intro length
    apply Restricts.bind (load_restricts window length.2 (by decide))
    intro opcode
    exact extendedOpcode_restricts window opcode
  · apply Restricts.bind (val_restricts window lhdr .opcodeBase)
    intro opcodeBase
    apply Restricts.ite
    · apply Restricts.bind (load_restricts window run.ptr (by decide))
      intro opcode
      exact standardOpcode_restricts window opcode
    · exact specialInstruction_restricts window _

theorem runFrom_restricts (window : Window memory part allowed) (size : Word) (fuel : Nat)
    (i : Word) (run : LineRun) :
    Restricts allowed (runFrom memory lhdr size fuel i run)
      (runFrom part lhdr size fuel i run) := by
  induction fuel generalizing i run with
  | zero => exact .noReturn
  | succ fuel inductionHypothesis =>
      apply Restricts.ite
      · apply Restricts.bind (runInstruction_restricts window run)
        intro next
        exact inductionHypothesis _ next
      · exact .pure run

theorem runMachine_restricts (window : Window memory part allowed) (fuel : Nat) (sm : MyDwSm) :
    Restricts allowed (runMachine memory lhdr fuel sm) (runMachine part lhdr fuel sm) := by
  apply Restricts.bind (val_restricts window lhdr .headerLength)
  intro headerLength
  have length : Restricts allowed (unitLength memory lhdr) (unitLength part lhdr) := by
    apply Restricts.bind (load_restricts window lhdr (by decide))
    intro unitLength
    exact .pure _
  apply Restricts.bind length
  intro unitLength
  apply Restricts.bind (runFrom_restricts window _ fuel 0 _)
  intro run
  exact .pure _

/-- Through a window the same lines are read, or an access is ruled out. -/
theorem dwarfLines_restricts (window : Window memory part allowed) (lhdr : Addr) (fuel : Nat) :
    Restricts allowed (dwarfLines memory fuel lhdr) (dwarfLines part fuel lhdr) := by
  apply Restricts.bind (dwarfLinesConfig_restricts window fuel lhdr)
  intro lconf
  apply Restricts.bind (resetMachine_restricts window lconf.lhdr)
  intro sm
  apply Restricts.bind (runMachine_restricts window fuel sm)
  intro states
  exact .pure _

end Instructions

end MyDbg.Infos
