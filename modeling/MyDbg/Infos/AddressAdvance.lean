import MyDbg.Infos.LineReading

/-!
Contract: `address` and `op_index` as one register of two parts.

Owns: that two advances are one by the sum; that `op_index` stays below the
number of operations in every state a program reaches; and that
`DW_LNS_const_add_pc` advances as the special opcode 255 does.

Does not own: the other registers.
-/

namespace MyDbg.Infos

open LittleEndian ProgramLogic LineNumbers

/-! ## Two advances -/

/-- `sm` after an advance, by the values of the header fields. -/
def MyDwSm.advanced (sm : MyDwSm) (minimum maximum : Nat) (opAdv : Word) : MyDwSm :=
  let operations := sm.opIndex.setWidth 64 + opAdv
  { sm with
    address := sm.address + BitVec.ofNat 64 minimum * (operations / BitVec.ofNat 64 maximum)
    opIndex := (operations % BitVec.ofNat 64 maximum).setWidth 32 }

section Advance

variable {memory : PartialMemory} {lhdr : Addr} {value : MyDwKey → Nat} {sm : MyDwSm}
  {minimum maximum : Nat} {first second : Word}

theorem advance_eq (reads : HeaderReads memory lhdr value)
    (positive : 0 < value .maximumOperationsPerInstruction) (sm : MyDwSm) (opAdv : Word) :
    Returns (advanceAddrAndOpIndex memory lhdr sm opAdv)
      (sm.advanced (value .minimumInstructionLength) (value .maximumOperationsPerInstruction)
        opAdv) := by
  apply Returns.bind (reads.returns .minimumInstructionLength)
  apply Returns.bind (reads.returns .maximumOperationsPerInstruction)
  apply Returns.bind (checkDivisor_returns positive)
  exact .pure _

theorem advanced_numbers (small : minimum < 2 ^ 8) (positive : 0 < maximum)
    (bound : maximum < 2 ^ 8) (sm : MyDwSm) (opAdv : Word) :
    (sm.advanced minimum maximum opAdv).address.toNat =
        (sm.address.toNat + minimum * ((sm.opIndex.toNat + opAdv.toNat) % 2 ^ 64 / maximum)) %
          2 ^ 64 ∧
      (sm.advanced minimum maximum opAdv).opIndex.toNat =
        (sm.opIndex.toNat + opAdv.toNat) % 2 ^ 64 % maximum :=
  advance_numbers small positive bound sm opAdv

/-- The quotients add up, and the last remainder is that of the sum. -/
theorem advance_numbers_add (total more : Nat) {width : Nat} (positive : 0 < width) :
    total / width + (total % width + more) / width = (total + more) / width ∧
      (total % width + more) % width = (total + more) % width := by
  constructor
  · have split := Nat.div_add_mod total width
    have sum : total + more = (total % width + more) + width * (total / width) := by omega
    rw [sum, Nat.add_mul_div_left _ _ positive, Nat.add_comm]
  · rw [Nat.mod_add_mod]

theorem advanced_add (small : minimum < 2 ^ 8) (positive : 0 < maximum) (bound : maximum < 2 ^ 8)
    (fits : sm.opIndex.toNat + first.toNat + second.toNat < 2 ^ 64) :
    (sm.advanced minimum maximum first).advanced minimum maximum second =
      sm.advanced minimum maximum (first + second) := by
  have sum : (first + second).toNat = first.toNat + second.toNat := by
    rw [BitVec.toNat_add]
    omega
  obtain ⟨address, opIndex⟩ := advanced_numbers small positive bound sm first
  obtain ⟨address', opIndex'⟩ := advanced_numbers small positive bound
    (sm.advanced minimum maximum first) second
  obtain ⟨address'', opIndex''⟩ := advanced_numbers small positive bound sm (first + second)
  have below := Nat.mod_le (sm.opIndex.toNat + first.toNat) maximum
  have early : (sm.opIndex.toNat + first.toNat) % 2 ^ 64 = sm.opIndex.toNat + first.toNat :=
    Nat.mod_eq_of_lt (by omega)
  have late : ((sm.opIndex.toNat + first.toNat) % maximum + second.toNat) % 2 ^ 64 =
      (sm.opIndex.toNat + first.toNat) % maximum + second.toNat :=
    Nat.mod_eq_of_lt (by omega)
  obtain ⟨quotients, remainders⟩ :=
    advance_numbers_add (sm.opIndex.toNat + first.toNat) second.toNat positive
  rw [early] at address opIndex
  rw [opIndex, late] at address' opIndex'
  rw [sum, ← Nat.add_assoc, Nat.mod_eq_of_lt fits] at address'' opIndex''
  have sameAddress : ((sm.advanced minimum maximum first).advanced minimum maximum
      second).address = (sm.advanced minimum maximum (first + second)).address := by
    apply BitVec.eq_of_toNat_eq
    rw [address', address'', address, Nat.mod_add_mod, Nat.add_assoc, ← Nat.mul_add, quotients]
  have sameOpIndex : ((sm.advanced minimum maximum first).advanced minimum maximum
      second).opIndex = (sm.advanced minimum maximum (first + second)).opIndex := by
    apply BitVec.eq_of_toNat_eq
    rw [opIndex', opIndex'', remainders]
  unfold MyDwSm.advanced at *
  dsimp only at *
  rw [sameAddress, sameOpIndex]

end Advance

/-! ## The states a program reaches -/

/-- The machine between two instructions, wherever the program is. -/
inductive Reached (memory : PartialMemory) (lhdr : Addr) : LineRun → Prop
  | start {sm : MyDwSm} (ptr : Addr) (initialised : Returns (initMachine memory lhdr) sm) :
      Reached memory lhdr { sm, states := [], ptr }
  | next {run last : LineRun} {fuel : Nat} {before after : List Access}
      (reached : Reached memory lhdr run)
      (executed : runInstruction memory lhdr fuel run before = .ok last after) :
      Reached memory lhdr last

/-- `op_index` is below `maximum`, in the machine and in every row. -/
structure LineRun.Below (run : LineRun) (maximum : Nat) : Prop where
  current : run.sm.opIndex.toNat < maximum
  rows : ∀ row ∈ run.states, row.opIndex.toNat < maximum

section Instructions

variable {memory : PartialMemory} {lhdr : Addr} {value : MyDwKey → Nat} {run : LineRun}
  {fuel opcode maximum : Nat} {raised : MyException → Prop}

theorem LineRun.Below.cloned (below : run.Below maximum) : (cloneState run).Below maximum := by
  refine ⟨below.current, ?_⟩
  intro row member
  rcases List.mem_append.mp member with earlier | last
  · exact below.rows row earlier
  · rw [List.mem_singleton.mp last]
    exact below.current

/-- The instruction leaves `op_index` as it is, or sets it to something below. -/
theorem LineRun.Below.set (below : run.Below maximum) {sm : MyDwSm} {ptr : Addr}
    (opIndex : sm.opIndex.toNat < maximum) :
    LineRun.Below { run with sm, ptr } maximum :=
  ⟨opIndex, below.rows⟩

theorem advance_below (reads : HeaderReads memory lhdr value)
    (positive : 0 < value .maximumOperationsPerInstruction) (sm : MyDwSm) (opAdv : Word) :
    Ensures (advanceAddrAndOpIndex memory lhdr sm opAdv)
      (fun next => next.opIndex.toNat < value .maximumOperationsPerInstruction) raised := by
  apply (Ensures.of_returns (advance_eq reads positive sm opAdv)).mono
  rintro _ rfl
  rw [(advanced_numbers (reads.small .minimumInstructionLength) positive
    (reads.small .maximumOperationsPerInstruction) sm opAdv).2]
  exact Nat.mod_lt _ positive

/-- `DW_LNE_end_sequence` and the start of a program. -/
theorem resetMachine_below (reads : HeaderReads memory lhdr value)
    (positive : 0 < value .maximumOperationsPerInstruction) :
    Ensures (resetMachine memory lhdr)
      (fun sm => sm.opIndex.toNat < value .maximumOperationsPerInstruction) raised := by
  apply Ensures.bind (.of_returns (reads.returns .defaultIsStmt))
  intro _ _
  exact .pure positive

theorem extendedOpcode_below (reads : HeaderReads memory lhdr value)
    (positive : 0 < value .maximumOperationsPerInstruction)
    (below : run.Below (value .maximumOperationsPerInstruction)) :
    Ensures (extendedOpcode memory lhdr fuel run opcode)
      (fun next => next.Below (value .maximumOperationsPerInstruction)) fun _ => True := by
  rcases opcode with _ | _ | _ | _ | _ | opcode
  · exact .throw trivial
  · apply Ensures.bind (resetMachine_below reads positive)
    intro sm opIndex
    have ended : LineRun.Below { run with sm := { run.sm with endSequence := true } }
        (value .maximumOperationsPerInstruction) := below.set below.current
    exact .pure (ended.cloned.set opIndex)
  · apply Ensures.bind load_ensures
    intro _ _
    exact .pure (below.set positive)
  · exact .throw trivial
  · apply Ensures.bind (readLeb128_ensures fuel run.ptr)
    intro _ _
    exact .pure (below.set below.current)
  · exact .throw trivial

theorem standardOpcode_below (reads : HeaderReads memory lhdr value)
    (positive : 0 < value .maximumOperationsPerInstruction)
    (below : run.Below (value .maximumOperationsPerInstruction)) :
    Ensures (standardOpcode memory lhdr fuel run opcode)
      (fun next => next.Below (value .maximumOperationsPerInstruction)) fun _ => True := by
  have number {next : Word × Addr → Reading LineRun}
      (goesOn : ∀ read, Ensures (next read)
        (fun last => last.Below (value .maximumOperationsPerInstruction)) fun _ => True) :
      Ensures (readLeb128 memory fuel run.ptr >>= next)
        (fun last => last.Below (value .maximumOperationsPerInstruction)) fun _ => True :=
    .bind (readLeb128_ensures fuel run.ptr) fun read _ => goesOn read
  rcases opcode with _ | _ | _ | _ | _ | _ | _ | _ | _ | _ | _ | _ | _ | opcode
  · exact .throw trivial
  · exact .pure (below.cloned.set below.current)
  · apply number
    intro read
    apply Ensures.bind (advance_below reads positive run.sm read.1)
    intro sm opIndex
    exact .pure (below.set opIndex)
  · exact number fun _ => .pure (below.set below.current)
  · exact number fun _ => .pure (below.set below.current)
  · exact number fun _ => .pure (below.set below.current)
  · exact .pure (below.set below.current)
  · exact .pure (below.set below.current)
  · apply range_ensures reads
    intro _
    apply Ensures.bind (advance_below reads positive run.sm _)
    intro sm opIndex
    exact .pure (below.set opIndex)
  · apply Ensures.bind load_ensures
    intro _ _
    exact .pure (below.set positive)
  · exact .pure (below.set below.current)
  · exact .pure (below.set below.current)
  · exact number fun _ => .pure (below.set below.current)
  · exact .throw trivial

theorem specialInstruction_below (reads : HeaderReads memory lhdr value)
    (positive : 0 < value .maximumOperationsPerInstruction)
    (below : run.Below (value .maximumOperationsPerInstruction)) (opcode : Byte) :
    Ensures (specialInstruction memory lhdr run opcode)
      (fun next => next.Below (value .maximumOperationsPerInstruction)) fun _ => True := by
  apply range_ensures reads
  intro _
  apply Ensures.bind (.of_returns (reads.returns .lineBase))
  intro _ _
  apply Ensures.bind (advance_below reads positive _ _)
  intro sm opIndex
  have moved : LineRun.Below { run with sm } (value .maximumOperationsPerInstruction) :=
    below.set opIndex
  exact .pure (moved.cloned.set opIndex)

theorem runInstruction_below (reads : HeaderReads memory lhdr value)
    (positive : 0 < value .maximumOperationsPerInstruction)
    (below : run.Below (value .maximumOperationsPerInstruction)) :
    Ensures (runInstruction memory lhdr fuel run)
      (fun next => next.Below (value .maximumOperationsPerInstruction)) fun _ => True := by
  have elsewhere (ptr : Addr) :
      LineRun.Below { run with ptr } (value .maximumOperationsPerInstruction) :=
    below.set below.current
  apply Ensures.bind load_ensures
  intro loaded _
  apply Ensures.ite
  · intro _
    apply Ensures.bind (readLeb128_ensures fuel _)
    intro _ _
    apply Ensures.bind load_ensures
    intro _ _
    exact extendedOpcode_below reads positive (elsewhere _)
  · intro _
    apply Ensures.bind (.of_returns (reads.returns .opcodeBase))
    intro _ _
    apply Ensures.ite
    · intro _
      apply Ensures.bind load_ensures
      intro _ _
      exact standardOpcode_below reads positive (elsewhere _)
    · intro _
      exact specialInstruction_below reads positive (elsewhere _) _

/-- `op_index` stays below the number of operations in an instruction. -/
theorem Reached.opIndex_below (reads : HeaderReads memory lhdr value)
    (positive : 0 < value .maximumOperationsPerInstruction) (reached : Reached memory lhdr run) :
    run.Below (value .maximumOperationsPerInstruction) := by
  induction reached with
  | start ptr initialised =>
      obtain ⟨_, ends⟩ := initialised []
      have reset : Ensures _ _ fun _ => True := resetMachine_below reads positive
      exact ⟨(reset []).ok ends, by simp⟩
  | next reached executed inductionHypothesis =>
      exact (runInstruction_below reads positive inductionHypothesis _).ok executed

/-! ## `DW_LNS_const_add_pc` and special opcodes -/

theorem constAddPc_returns (reads : HeaderReads memory lhdr value)
    (positive : 0 < value .maximumOperationsPerInstruction) (range : 0 < value .lineRange)
    (fuel : Nat) (run : LineRun) :
    Returns (standardOpcode memory lhdr fuel run dwLnsConstAddPc)
      { run with
        sm := run.sm.advanced (value .minimumInstructionLength)
          (value .maximumOperationsPerInstruction)
          (BitVec.ofNat 64 ((255 - value .opcodeBase) / value .lineRange)) } := by
  apply Returns.bind (reads.returns .opcodeBase)
  apply Returns.bind (reads.returns .lineRange)
  apply Returns.bind (checkDivisor_returns range)
  apply Returns.bind (advance_eq reads positive run.sm _)
  exact .pure _

/-- The operation advance of the special opcode 255 is not cut to a byte. -/
theorem lastSpecial_opAdv {opcodeBase : Nat} (small : opcodeBase < 2 ^ 8) (lineRange : Nat) :
    (BitVec.ofNat 8 (((255 : Byte) - BitVec.ofNat 8 opcodeBase).toNat / lineRange)).setWidth 64 =
      BitVec.ofNat 64 ((255 - opcodeBase) / lineRange) := by
  have adjusted : ((255 : Byte) - BitVec.ofNat 8 opcodeBase).toNat = 255 - opcodeBase := by
    rw [BitVec.toNat_sub, BitVec.toNat_ofNat]
    simp only [BitVec.reduceToNat]
    omega
  have quotient : (255 - opcodeBase) / lineRange ≤ 255 :=
    (Nat.div_le_self _ _).trans (Nat.sub_le _ _)
  apply BitVec.eq_of_toNat_eq
  rw [adjusted, BitVec.toNat_setWidth, BitVec.toNat_ofNat, BitVec.toNat_ofNat,
    Nat.mod_eq_of_lt (show (255 - opcodeBase) / lineRange < 2 ^ 8 by omega)]

theorem lastSpecial_returns (reads : HeaderReads memory lhdr value)
    (positive : 0 < value .maximumOperationsPerInstruction) (range : 0 < value .lineRange)
    (run : LineRun) :
    ∃ next, Returns (specialInstruction memory lhdr run 255) next ∧
      next.sm.address = (run.sm.advanced (value .minimumInstructionLength)
        (value .maximumOperationsPerInstruction)
        (BitVec.ofNat 64 ((255 - value .opcodeBase) / value .lineRange))).address ∧
      next.sm.opIndex = (run.sm.advanced (value .minimumInstructionLength)
        (value .maximumOperationsPerInstruction)
        (BitVec.ofNat 64 ((255 - value .opcodeBase) / value .lineRange))).opIndex := by
  have opAdv := lastSpecial_opAdv (reads.small .opcodeBase) (value .lineRange)
  let sm : MyDwSm := { run.sm with
    line := run.sm.line + BitVec.ofInt 32 ((BitVec.ofNat 8 (value .lineBase)).toInt +
      (((255 : Byte) - BitVec.ofNat 8 (value .opcodeBase)).toNat % value .lineRange : Nat)) }
  have advance := advance_eq reads positive sm ((BitVec.ofNat 8 (((255 : Byte) -
    BitVec.ofNat 8 (value .opcodeBase)).toNat / value .lineRange)).setWidth 64)
  refine ⟨_, .bind (reads.returns .opcodeBase) (.bind (reads.returns .lineRange)
    (.bind (checkDivisor_returns range) (.bind (reads.returns .lineBase)
      (.bind advance (.pure _))))), ?_, ?_⟩
  · rw [← opAdv]
    rfl
  · rw [← opAdv]
    rfl

/-- Two advances are one by the sum, `op_index` stays below the number of
operations, and `DW_LNS_const_add_pc` advances as the special opcode 255. -/
theorem advance_additive (reads : HeaderReads memory lhdr value)
    (positive : 1 ≤ value .maximumOperationsPerInstruction) :
    (∀ (sm : MyDwSm) (first second : Word),
        sm.opIndex.toNat + first.toNat + second.toNat < 2 ^ 64 →
        ∃ last, Returns (advanceAddrAndOpIndex memory lhdr sm first >>= fun sm =>
            advanceAddrAndOpIndex memory lhdr sm second) last ∧
          Returns (advanceAddrAndOpIndex memory lhdr sm (first + second)) last) ∧
      (∀ run, Reached memory lhdr run →
        run.Below (value .maximumOperationsPerInstruction)) ∧
      (1 ≤ value .lineRange → ∀ (fuel : Nat) (run : LineRun), ∃ constant special,
        Returns (standardOpcode memory lhdr fuel run dwLnsConstAddPc) constant ∧
          Returns (specialInstruction memory lhdr run 255) special ∧
          constant.sm.address = special.sm.address ∧
          constant.sm.opIndex = special.sm.opIndex) := by
  refine ⟨?_, fun run reached => reached.opIndex_below reads positive, ?_⟩
  · intro sm first second fits
    refine ⟨_, ?_, advance_eq reads positive sm (first + second)⟩
    rw [← advanced_add (reads.small .minimumInstructionLength) positive
      (reads.small .maximumOperationsPerInstruction) fits]
    exact (advance_eq reads positive sm first).bind (advance_eq reads positive _ second)
  · intro range fuel run
    obtain ⟨special, returns, address, opIndex⟩ := lastSpecial_returns reads positive range run
    exact ⟨_, special, constAddPc_returns reads positive range fuel run, returns, address.symm,
      opIndex.symm⟩

/-- The header of the short unit. -/
theorem advance_additive_short :
    (∀ (sm : MyDwSm) (first second : Word),
        sm.opIndex.toNat + first.toNat + second.toNat < 2 ^ 64 →
        ∃ last, Returns (advanceAddrAndOpIndex shortMemory 0 sm first >>= fun sm =>
            advanceAddrAndOpIndex shortMemory 0 sm second) last ∧
          Returns (advanceAddrAndOpIndex shortMemory 0 sm (first + second)) last) ∧
      (∀ run, Reached shortMemory 0 run → run.Below 1) ∧
      (1 ≤ shortHeader.value .lineRange → ∀ (fuel : Nat) (run : LineRun), ∃ constant special,
        Returns (standardOpcode shortMemory 0 fuel run dwLnsConstAddPc) constant ∧
          Returns (specialInstruction shortMemory 0 run 255) special ∧
          constant.sm.address = special.sm.address ∧
          constant.sm.opIndex = special.sm.opIndex) :=
  advance_additive (headerReads shortUnit.stored) (by decide)

end Instructions

end MyDbg.Infos
