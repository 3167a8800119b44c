import MyDbg.Debugger.Tracee

/-!
Contract: `print_instructions`, next to `get_instruction`.

Owns: the search for the length of an instruction by longer and longer reads;
what the decoder is assumed to do with the bytes behind an instruction; and
when that search and the one read of 16 bytes come to the same length.

Does not own: the decoder, and what is printed of an instruction.
-/

namespace MyDbg

open LittleEndian ProgramLogic

variable {κ : Type}

section Commands

variable (host : Host κ)

/-- The inner loop of `print_instructions` with `left` sizes to go: those from
`16 - left` on. -/
def findInstruction (addr : Addr) : Nat → Dbg κ CsInsn
  | 0 => Program.throw .disasmException
  | left + 1 => do
      let mem ← readMemory host addr (15 - left)
      match host.csDisasm mem with
      | some insn => return insn
      | none => findInstruction addr left

/-- Returns `addr` as it is after the last instruction. `cs_open` succeeds: where not,
nothing is printed. -/
def printInstructions : Addr → Nat → Dbg κ Addr
  | addr, 0 => return addr
  | addr, count + 1 => do
      let insn ← findInstruction host addr 15
      printf (.instruction addr insn.mnemonic insn.opStr)
      printInstructions (addr + BitVec.ofNat 64 insn.size) count

end Commands

/-- A decoder of instructions of at most 15 bytes that needs these bytes and no others. -/
structure PrefixStable (csDisasm : List Byte → Option CsInsn) : Prop where
  atMost : ∀ bytes insn, csDisasm bytes = some insn → insn.size ≤ 15
  longer : ∀ bytes insn more, csDisasm bytes = some insn → bytes.take insn.size <+: more →
    ∃ same, csDisasm more = some same ∧ same.size = insn.size
  shorter : ∀ bytes insn count, csDisasm bytes = some insn → count < insn.size →
    csDisasm (bytes.take count) = none

/-- `get_instruction` and `print_instructions` of one instruction succeed together and
find the same length. -/
def Agree (host : Host κ) (addr : Addr) (state : State κ) : Prop :=
  ((∃ instr after, getInstruction host addr state = .ok instr after) ↔
      ∃ last after, printInstructions host addr 1 state = .ok last after) ∧
    ∀ instr insn after found, getInstruction host addr state = .ok instr after →
      findInstruction host addr 15 state = .ok insn found → instr.size = insn.size

section Search

variable {host : Host κ} {addr : Addr} {state : State κ} {insn other : CsInsn}
  {bytes more : List Byte} {size left : Nat}

theorem readMemory_ok (reads : readBytes (host.procMem state.kernel) addr size = some bytes) :
    readMemory host addr size state = .ok bytes state := by
  simp only [readMemory, reads]

theorem readMemory_throw (refused : readBytes (host.procMem state.kernel) addr size = none) :
    readMemory host addr size state = .throw .memoryException state := by
  simp only [readMemory, refused]

/-- What is read first is the beginning of what is read. -/
theorem readBytes_take (reads : readBytes (host.procMem state.kernel) addr size = some bytes)
    {count : Nat} (atMost : count ≤ size) :
    readBytes (host.procMem state.kernel) addr count = some (bytes.take count) := by
  obtain ⟨length, holds⟩ := readBytes_holds reads
  rw [← List.take_append_drop count bytes, holds_append] at holds
  have early := readBytes_eq holds.1
  rwa [List.length_take_of_le (by omega)] at early

/-- Of two pieces of code from one place on, both with an instruction, it is the same one. -/
theorem PrefixStable.size_unique (stable : PrefixStable host.csDisasm) (start : bytes <+: more)
    (decodes : host.csDisasm bytes = some insn) (decodes' : host.csDisasm more = some other) :
    insn.size = other.size := by
  obtain ⟨same, again, size⟩ := stable.longer bytes insn more decodes
    ((List.take_prefix _ _).trans start)
  obtain rfl := Option.some.inj (again.symm.trans decodes')
  exact size.symm

/-- One turn of the search. -/
theorem findInstruction_some
    (reads : readBytes (host.procMem state.kernel) addr (15 - left) = some bytes)
    (decodes : host.csDisasm bytes = some insn) :
    findInstruction host addr (left + 1) state = .ok insn state := by
  rw [findInstruction, Program.bind_ok (readMemory_ok reads), decodes]
  rfl

theorem findInstruction_none
    (reads : readBytes (host.procMem state.kernel) addr (15 - left) = some bytes)
    (fails : host.csDisasm bytes = none) :
    findInstruction host addr (left + 1) state = findInstruction host addr left state := by
  rw [findInstruction, Program.bind_ok (readMemory_ok reads), fails]

/-- The search succeeds if some piece it will try can be read and decoded. -/
theorem findInstruction_finds (within : left ≤ 15) (early : 16 - left ≤ size) (late : size ≤ 15)
    (reads : readBytes (host.procMem state.kernel) addr size = some bytes)
    (decodes : host.csDisasm bytes = some insn) :
    ∃ found, findInstruction host addr left state = .ok found state := by
  induction left with
  | zero => omega
  | succ left inductionHypothesis =>
      have now : readBytes _ addr (15 - left) = some (bytes.take (15 - left)) :=
        readBytes_take reads (by omega)
      cases decoded : host.csDisasm (bytes.take (15 - left)) with
      | some found => exact ⟨found, findInstruction_some now decoded⟩
      | none =>
          rw [findInstruction_none now decoded]
          refine inductionHypothesis (by omega) ?_
          by_contra last
          have same : 15 - left = size := by omega
          have whole := (readBytes_holds reads).1
          rw [same, List.take_of_length_le (by omega), decodes] at decoded
          cases decoded

/-- What the search finds was read and decoded. -/
theorem findInstruction_found {after : State κ} (within : left ≤ 15)
    (found : findInstruction host addr left state = .ok insn after) :
    ∃ size bytes, 1 ≤ size ∧ size ≤ 15 ∧
      readBytes (host.procMem state.kernel) addr size = some bytes ∧
        host.csDisasm bytes = some insn := by
  induction left with
  | zero => cases found
  | succ left inductionHypothesis =>
      cases reads : readBytes (host.procMem state.kernel) addr (15 - left) with
      | none =>
          rw [findInstruction, Program.bind_throw (readMemory_throw reads)] at found
          cases found
      | some bytes =>
          cases decoded : host.csDisasm bytes with
          | none =>
              rw [findInstruction_none reads decoded] at found
              exact inductionHypothesis (by omega) found
          | some other =>
              rw [findInstruction_some reads decoded] at found
              obtain rfl := (Outcome.ok.inj found).1
              exact ⟨15 - left, bytes, by omega, by omega, reads, decoded⟩

theorem printInstructions_ok :
    (∃ last after, printInstructions host addr 1 state = .ok last after) ↔
      ∃ insn after, findInstruction host addr 15 state = .ok insn after := by
  rw [printInstructions]
  constructor
  · rintro ⟨last, after, prints⟩
    cases found : findInstruction host addr 15 state with
    | ok insn middle => exact ⟨insn, middle, rfl⟩
    | throw raised middle =>
        rw [Program.bind_throw found] at prints
        cases prints
    | fault middle =>
        rw [Program.bind_apply, found] at prints
        cases prints
    | noReturn middle =>
        rw [Program.bind_apply, found] at prints
        cases prints
  · rintro ⟨insn, after, found⟩
    rw [Program.bind_ok found]
    exact ⟨_, _, rfl⟩

theorem getInstruction_ok {instr : MyInstr} :
    (∃ after, getInstruction host addr state = .ok instr after) ↔
      ∃ bytes insn, readBytes (host.procMem state.kernel) addr 16 = some bytes ∧
        host.csDisasm bytes = some insn ∧
          instr = ⟨insn.mnemonic ++ insn.opStr ++ ['\n'], insn.size⟩ := by
  unfold getInstruction
  cases reads : readBytes (host.procMem state.kernel) addr 16 with
  | none =>
      rw [Program.bind_throw (readMemory_throw reads)]
      simp
  | some bytes =>
      rw [Program.bind_ok (readMemory_ok reads)]
      cases decoded : host.csDisasm bytes with
      | none => simp [Program.throw, decoded]
      | some insn => simp [decoded, eq_comm]

theorem getInstruction_refused (refused : readBytes (host.procMem state.kernel) addr 16 = none) :
    ¬ ∃ instr after, getInstruction host addr state = .ok instr after := by
  rintro ⟨instr, gets⟩
  obtain ⟨bytes, insn, reads, _⟩ := getInstruction_ok.mp gets
  rw [refused] at reads
  cases reads

/-- The search finds something exactly if it can read and decode something. -/
theorem findInstruction_ok :
    (∃ insn after, findInstruction host addr 15 state = .ok insn after) ↔
      ∃ size bytes insn, 1 ≤ size ∧ size ≤ 15 ∧
        readBytes (host.procMem state.kernel) addr size = some bytes ∧
          host.csDisasm bytes = some insn := by
  constructor
  · rintro ⟨insn, after, found⟩
    obtain ⟨size, bytes, early, late, reads, decodes⟩ := findInstruction_found (Nat.le_refl _) found
    exact ⟨size, bytes, insn, early, late, reads, decodes⟩
  · rintro ⟨size, bytes, insn, early, late, reads, decodes⟩
    obtain ⟨found, finds⟩ := findInstruction_finds (Nat.le_refl _) early late reads decodes
    exact ⟨found, state, finds⟩

/-- Where 16 bytes can be read both see the same instruction. -/
theorem agree_whole (stable : PrefixStable host.csDisasm)
    (reads : readBytes (host.procMem state.kernel) addr 16 = some bytes) :
    Agree host addr state := by
  unfold Agree
  rw [printInstructions_ok, findInstruction_ok]
  refine ⟨⟨?_, ?_⟩, ?_⟩
  · rintro ⟨instr, gets⟩
    obtain ⟨bytes, insn, reads, decodes, rfl⟩ := getInstruction_ok.mp gets
    -- a first byte is read even if the instruction has none
    have atMost := stable.atMost bytes insn decodes
    have enough : max 1 insn.size ≤ 16 := by omega
    obtain ⟨same, again, _⟩ := stable.longer bytes insn (bytes.take (max 1 insn.size)) decodes
      (List.take_prefix_take_left (Nat.le_max_right 1 insn.size))
    exact ⟨max 1 insn.size, bytes.take (max 1 insn.size), same, Nat.le_max_left _ _, by omega,
      readBytes_take reads enough, again⟩
  · rintro ⟨size, piece, insn, _, late, readsPiece, decodes⟩
    have whole := readBytes_take reads (show size ≤ 16 by omega)
    obtain rfl := Option.some.inj (readsPiece.symm.trans whole)
    obtain ⟨same, again, _⟩ := stable.longer _ insn bytes decodes
      ((List.take_prefix _ _).trans (List.take_prefix _ _))
    obtain ⟨after, gets⟩ := getInstruction_ok.mpr ⟨bytes, same, reads, again, rfl⟩
    exact ⟨_, after, gets⟩
  · intro instr insn after found gets finds
    obtain ⟨whole, other, readsWhole, decodes, rfl⟩ := getInstruction_ok.mp ⟨after, gets⟩
    obtain ⟨size, piece, _, late, readsPiece, decodes'⟩ :=
      findInstruction_found (Nat.le_refl _) finds
    have start := readBytes_take readsWhole (show size ≤ 16 by omega)
    obtain rfl := Option.some.inj (readsPiece.symm.trans start)
    exact (stable.size_unique (List.take_prefix _ _) decodes' decodes).symm

/-- The lengths agree exactly if 16 bytes can be read, or what can be read is no
instruction anyway. -/
theorem lengths_agree_iff (host : Host κ) (addr : Addr) (state : State κ)
    (stable : PrefixStable host.csDisasm) :
    Agree host addr state ↔
      (readBytes (host.procMem state.kernel) addr 16).isSome ∨
        ∀ size bytes, 1 ≤ size → size ≤ 15 →
          readBytes (host.procMem state.kernel) addr size = some bytes →
            host.csDisasm bytes = none := by
  cases reads : readBytes (host.procMem state.kernel) addr 16 with
  | some bytes => exact iff_of_true (agree_whole stable reads) (.inl rfl)
  | none =>
      have refused := getInstruction_refused reads
      simp only [Option.isSome_none, Bool.false_eq_true, false_or]
      constructor
      · intro agree size bytes early late readsPiece
        cases decodes : host.csDisasm bytes with
        | none => rfl
        | some insn =>
            have finds := findInstruction_ok.mpr
              ⟨size, bytes, insn, early, late, readsPiece, decodes⟩
            exact absurd (agree.1.mpr (printInstructions_ok.mpr finds)) refused
      · intro undecoded
        have finds : ¬ ∃ insn after, findInstruction host addr 15 state = .ok insn after := by
          rintro finds
          obtain ⟨size, bytes, insn, early, late, readsPiece, decodes⟩ :=
            findInstruction_ok.mp finds
          rw [undecoded size bytes early late readsPiece] at decodes
          cases decodes
        refine ⟨iff_of_false refused (mt printInstructions_ok.mp finds), ?_⟩
        intro instr insn after found gets
        exact absurd ⟨instr, after, gets⟩ refused

/-! ## The end of a mapping -/

/-- A decoder that takes every byte for an instruction. -/
def oneByte : List Byte → Option CsInsn
  | [] => none
  | _ :: _ => some { mnemonic := ['n', 'o', 'p'], opStr := [], size := 1 }

theorem oneByte_stable : PrefixStable oneByte where
  atMost bytes insn decodes := by
    cases bytes with
    | nil => cases decodes
    | cons byte rest =>
        obtain rfl := Option.some.inj decodes
        exact Nat.one_le_ofNat
  longer bytes insn more decodes start := by
    cases bytes with
    | nil => cases decodes
    | cons byte rest =>
        obtain rfl := Option.some.inj decodes
        cases more with
        | nil => simp at start
        | cons first others => exact ⟨_, rfl, rfl⟩
  shorter bytes insn count decodes less := by
    cases bytes with
    | nil => cases decodes
    | cons byte rest =>
        obtain rfl := Option.some.inj decodes
        obtain rfl : count = 0 := Nat.lt_one_iff.mp less
        rfl

/-- Only the bytes below 16 are mapped. -/
def sixteenMapped : Host Scripted :=
  { scripted with
    csDisasm := oneByte
    procMem := fun _ addr => if addr.toNat < 16 then some 0x90 else none }

theorem lengths_agree_mapped : Agree sixteenMapped 0 (Scripted.start []) :=
  (lengths_agree_iff sixteenMapped 0 (Scripted.start []) oneByte_stable).mpr (.inl (by decide))

/-- The last byte of the mapping is an instruction for `print_instructions` only. -/
theorem last_instruction_differs :
    PrefixStable sixteenMapped.csDisasm ∧ ¬ Agree sixteenMapped 15 (Scripted.start []) := by
  refine ⟨oneByte_stable, fun agree => ?_⟩
  have refused : readBytes (sixteenMapped.procMem (Scripted.start []).kernel) 15 16 = none := by
    decide
  exact getInstruction_refused refused (agree.1.mpr ⟨_, _, rfl⟩)

end Search

end MyDbg
