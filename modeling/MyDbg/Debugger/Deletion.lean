import MyDbg.Debugger.Upkeep

/-!
Contract: what deleting a breakpoint does to the program.

Owns: `Saved`, that every byte of the code and every byte saved from it is the
original one or `0xCC`; `Freed`, that an address without breakpoints keeps its
byte; and exactly when `break_del` restores the program.

Does not own: where the `int3` bytes are meanwhile.
-/

namespace MyDbg

open LittleEndian ProgramLogic Transition

/-! ## Bytes of the code -/

/-- The original byte or an `int3`. -/
def Expected (orig : Memory) (addr : Addr) (byte : Byte) : Prop :=
  byte = orig addr ∨ byte = 0xCC

/-- What the code bytes are, in memory and where they are saved. -/
structure Saved (orig : Memory) (code : Set Addr) (mem : Memory) (breakpoints : List MyBp) :
    Prop where
  byte : ∀ addr ∈ code, Expected orig addr (mem addr)
  word : ∀ bp ∈ breakpoints, bp.isSyscall = false → bp.addr ∈ code →
    Expected orig bp.addr (lowByte bp.word)

/-- A breakpoint for code. -/
def IsCode (breakpoints : List MyBp) (index : Nat) : Prop :=
  ∀ bp ∈ breakpoints[index]?, bp.isSyscall = false

section Saved

variable {orig : Memory} {code : Set Addr}

theorem expected_update {mem : Memory} {target addr : Addr} {byte : Byte}
    (written : target ∈ code → Expected orig target byte)
    (kept : Expected orig addr (mem addr)) (member : addr ∈ code) :
    Expected orig addr (Function.update mem target byte addr) := by
  by_cases here : addr = target
  · subst here
    rw [Function.update_self]
    exact written member
  · rwa [Function.update_of_ne here]

theorem saved_upkeep : Upkeep code (Saved orig code) IsCode where
  runs mem after breakpoints same saved := by
    refine ⟨fun addr member => ?_, saved.word⟩
    rw [same addr member]
    exact saved.byte addr member
  found mem breakpoints addr index _ first := by
    obtain ⟨bp, at', hits, _⟩ := getBreakpoint_eq_some.mp first
    intro other found
    obtain rfl := Option.some.inj (at'.symm.trans found)
    exact (MyBp.hits_iff.mp hits).2.2.2
  toggle mem breakpoints index bp found isCode saved := by
    refine ⟨fun addr member => expected_update (fun here => ?_) (saved.byte addr member) member,
      fun other member => ?_⟩
    · unfold MyBp.toggledByte
      split
      · exact saved.word bp (List.mem_of_getElem? found) (isCode bp found) here
      · exact .inr rfl
    · rcases List.mem_or_eq_of_mem_set member with old | rfl
      · exact saved.word other old
      · exact saved.word bp (List.mem_of_getElem? found)
  stays breakpoints index other bp found isCode := by
    intro entry stored
    by_cases here : other = index
    · subst here
      rw [List.getElem?_set_self (List.getElem?_eq_some_iff.mp found).1] at stored
      obtain rfl := Option.some.inj stored
      exact isCode bp found
    · rw [List.getElem?_set_ne here] at stored
      exact isCode entry stored

theorem saved_edits : Upkeep.Edits (Saved orig code) where
  place mem breakpoints addr flags isCode saved := by
    refine ⟨fun other member => expected_update (fun _ => .inr rfl) (saved.byte other member)
      member, fun bp member => ?_⟩
    rcases List.mem_append.mp member with old | new
    · exact saved.word bp old
    · obtain rfl := List.mem_singleton.mp new
      intro _ inside
      have byte := saved.byte addr inside
      rwa [← lowByte_peek mem addr] at byte
  placeSyscall mem breakpoints bp isSyscall saved := by
    refine ⟨saved.byte, fun other member isCode => ?_⟩
    rcases List.mem_append.mp member with old | new
    · exact saved.word other old isCode
    · obtain rfl := List.mem_singleton.mp new
      rw [isSyscall] at isCode
      cases isCode
  delete mem breakpoints index bp found saved := by
    refine ⟨saved.byte, fun other member => ?_⟩
    rcases List.mem_or_eq_of_mem_set member with old | rfl
    · exact saved.word other old
    · exact saved.word bp (List.mem_of_getElem? found)

end Saved

/-! ## An address without breakpoints -/

/-- A breakpoint after the first `count` is at `addr`. -/
def PlacedLater (count : Nat) (addr : Addr) (breakpoints : List MyBp) : Prop :=
  ∃ bp ∈ breakpoints.drop count, bp.addr = addr

/-- Unless one was placed there later, no breakpoint is armed at `addr` and it
holds `byte`. -/
def Freed (count : Nat) (addr : Addr) (byte : Byte) (mem : Memory) (breakpoints : List MyBp) :
    Prop :=
  count ≤ breakpoints.length ∧
    (¬ PlacedLater count addr breakpoints →
      mem addr = byte ∧ ∀ bp ∈ breakpoints, bp.hits addr = false)

/-- The breakpoint at `index` is elsewhere. -/
def Elsewhere (count : Nat) (addr : Addr) (breakpoints : List MyBp) (index : Nat) : Prop :=
  ¬ PlacedLater count addr breakpoints → ∀ bp ∈ breakpoints[index]?, bp.addr ≠ addr

section Freed

variable {code : Set Addr} {count : Nat} {addr : Addr} {byte : Byte}

theorem placedLater_iff {breakpoints : List MyBp} :
    PlacedLater count addr breakpoints ↔ addr ∈ (breakpoints.map MyBp.addr).drop count := by
  simp [PlacedLater, ← List.map_drop]

/-- Changing an entry but not its address. -/
theorem placedLater_set {breakpoints : List MyBp} {index : Nat} {bp : MyBp} (other : MyBp)
    (found : breakpoints[index]? = some bp) (same : other.addr = bp.addr) :
    PlacedLater count addr (breakpoints.set index other) ↔
      PlacedLater count addr breakpoints := by
  obtain ⟨bound, rfl⟩ := List.getElem?_eq_some_iff.mp found
  have addrs : (breakpoints.set index other).map MyBp.addr = breakpoints.map MyBp.addr := by
    rw [List.map_set, same, ← List.getElem_map MyBp.addr (h := by simpa using bound),
      List.set_getElem_self]
  rw [placedLater_iff, placedLater_iff, addrs]

theorem freed_upkeep (inside : addr ∈ code) :
    Upkeep code (Freed count addr byte) (Elsewhere count addr) where
  runs mem after breakpoints same freed := by
    refine ⟨freed.1, fun none => ?_⟩
    rw [same addr inside]
    exact freed.2 none
  found mem breakpoints target index freed first none := by
    obtain ⟨bp, at', hits, _⟩ := getBreakpoint_eq_some.mp first
    rintro other found rfl
    obtain rfl := Option.some.inj (at'.symm.trans found)
    have missed := (freed.2 none).2 bp (List.mem_of_getElem? at')
    obtain rfl := (MyBp.hits_iff.mp hits).1
    rw [hits] at missed
    cases missed
  toggle mem breakpoints index bp found elsewhere freed := by
    refine ⟨by simpa using freed.1, fun none => ?_⟩
    rw [placedLater_set bp.toggled found rfl] at none
    obtain ⟨clear, missed⟩ := freed.2 none
    have apart := elsewhere none bp found
    refine ⟨by rwa [Function.update_of_ne apart.symm], fun other member => ?_⟩
    rcases List.mem_or_eq_of_mem_set member with old | rfl
    · exact missed other old
    · rw [MyBp.toggled_hits apart]
      exact missed bp (List.mem_of_getElem? found)
  stays breakpoints index other bp found elsewhere none := by
    rw [placedLater_set bp.toggled found rfl] at none
    intro entry stored
    by_cases here : other = index
    · subst here
      rw [List.getElem?_set_self (List.getElem?_eq_some_iff.mp found).1] at stored
      obtain rfl := Option.some.inj stored
      exact elsewhere none bp found
    · rw [List.getElem?_set_ne here] at stored
      exact elsewhere none entry stored

theorem placedLater_append {breakpoints : List MyBp} {bp : MyBp}
    (room : count ≤ breakpoints.length) :
    PlacedLater count addr (breakpoints ++ [bp]) ↔
      PlacedLater count addr breakpoints ∨ bp.addr = addr := by
  unfold PlacedLater
  rw [List.drop_append_of_le_length room]
  simp [or_and_right, exists_or]

theorem freed_edits : Upkeep.Edits (Freed count addr byte) where
  place mem breakpoints target flags isCode freed := by
    refine ⟨by simpa using Nat.le_succ_of_le freed.1, fun none => ?_⟩
    rw [placedLater_append freed.1, not_or] at none
    have apart : target ≠ addr := none.2
    obtain ⟨clear, missed⟩ := freed.2 none.1
    refine ⟨by rwa [Function.update_of_ne apart.symm], fun other member => ?_⟩
    rcases List.mem_append.mp member with old | new
    · exact missed other old
    · obtain rfl := List.mem_singleton.mp new
      simp [MyBp.hits, MyBp.placed, apart]
  placeSyscall mem breakpoints bp isSyscall freed := by
    refine ⟨by simpa using Nat.le_succ_of_le freed.1, fun none => ?_⟩
    rw [placedLater_append freed.1, not_or] at none
    obtain ⟨clear, missed⟩ := freed.2 none.1
    refine ⟨clear, fun other member => ?_⟩
    rcases List.mem_append.mp member with old | new
    · exact missed other old
    · obtain rfl := List.mem_singleton.mp new
      simp [MyBp.hits, isSyscall]
  delete mem breakpoints index bp found freed := by
    refine ⟨by simpa using freed.1, fun none => ?_⟩
    rw [placedLater_set { bp with deleted := true } found rfl] at none
    obtain ⟨clear, missed⟩ := freed.2 none
    refine ⟨clear, fun other member => ?_⟩
    rcases List.mem_or_eq_of_mem_set member with old | rfl
    · exact missed other old
    · simp [MyBp.hits]

end Freed

/-! ## Deleting -/

variable {κ : Type} {host : Host κ}

/-- Control came back with the byte at `addr` restored and every other one as
it was, and no resumption finds another byte there until a breakpoint is
placed there again. -/
def Restores (tracee : Tracee host) (orig : Memory) (addr : Addr) (before : State κ) :
    Outcome MyException (State κ) Unit → Prop
  | .ok () after =>
      tracee.mem after.kernel addr = orig addr ∧
        (∀ other, other ≠ addr → tracee.mem after.kernel other = tracee.mem before.kernel other) ∧
        ∀ last new, Reaches host after last → last.trace = new ++ after.trace →
          ∀ entry ∈ new, ¬ PlacedLater after.globals.gBreakpoints.length addr
              entry.globals.gBreakpoints →
            tracee.mem entry.kernel addr = orig addr
  | _ => False

section Deleting

variable {tracee : Tracee host} {kernel : κ} {lines : List Line} {before : State κ} {nb : Nat}
  {bp : MyBp}

/-- At every prompt the code holds original bytes and `int3`. -/
theorem saved_session (session : Session host (State.start kernel) lines before) :
    Saved (tracee.mem kernel) tracee.code (tracee.mem before.kernel)
      before.globals.gBreakpoints := by
  refine (saved_upkeep.session saved_edits ?_ session).now
  exact ⟨fun _ _ => .inl rfl, fun _ member => by cases member⟩

/-- No breakpoint is armed where the only one was deleted. -/
theorem hits_deleted {breakpoints : List MyBp} {index : Nat} {addr : Addr}
    (found : breakpoints[index]? = some bp)
    (alone : Alone breakpoints index addr) :
    ∀ entry ∈ breakpoints.set index { bp with deleted := true }, entry.hits addr = false := by
  intro entry member
  obtain ⟨position, stored⟩ := List.mem_iff_getElem?.mp member
  by_cases here : index = position
  · subst here
    rw [List.getElem?_set_self (List.getElem?_eq_some_iff.mp found).1] at stored
    obtain rfl := Option.some.inj stored
    simp [MyBp.hits]
  · rw [List.getElem?_set_ne here] at stored
    exact alone position (Ne.symm here) entry stored

/-- `break_del` of a code breakpoint restores the program if and only if its
saved word is an index into `g_syscalls` and there is no `int3` to remove. -/
theorem restores_iff (tracee : Tracee host)
    (session : Session host (State.start kernel) lines before)
    (accepted : acceptedId before.globals.gBreakpoints nb = some bp)
    (inside : bp.addr ∈ tracee.code)
    (alone : Alone before.globals.gBreakpoints (nb - 1) bp.addr) (depth : Nat) :
    Restores tracee (tracee.mem kernel) bp.addr before
        (exec host depth (.breakDel nb) before) ↔
      bp.word.toNat < before.globals.gSyscalls.length ∧
        (tracee.mem before.kernel bp.addr = 0xCC → tracee.mem kernel bp.addr = 0xCC) := by
  have ends : exec host depth (.breakDel nb) before = _ := cmdBreakDel_accepted accepted
  have found := (acceptedId_eq_some.mp accepted).2.1
  rw [ends]
  by_cases room : bp.word.toNat < before.globals.gSyscalls.length
  · rw [if_pos room]
    constructor
    · rintro ⟨restored, _⟩
      exact ⟨room, fun trap => restored.symm.trans trap⟩
    · rintro ⟨_, clear⟩
      have byte : tracee.mem before.kernel bp.addr = tracee.mem kernel bp.addr := by
        rcases (saved_session session).byte bp.addr inside with original | trap
        · exact original
        · exact trap.trans (clear trap).symm
      refine ⟨byte, fun _ _ => rfl, fun last new reaches split entry member none => ?_⟩
      have start : Freed (before.globals.gBreakpoints.set (nb - 1)
          { bp with deleted := true }).length bp.addr (tracee.mem kernel bp.addr)
          (tracee.mem before.kernel)
          (before.globals.gBreakpoints.set (nb - 1) { bp with deleted := true }) :=
        ⟨le_rfl, fun _ => ⟨byte, hits_deleted found alone⟩⟩
      obtain ⟨same, split', held⟩ := (freed_upkeep inside).reaches freed_edits start reaches
      obtain rfl : new = same := List.append_cancel_right (split.symm.trans split')
      exact ((held entry member).2 none).1
  · rw [if_neg room]
    exact ⟨fun lost => lost.elim, fun both => absurd both.1 room⟩

end Deleting

/-- A temporary breakpoint that was hit before it is deleted. -/
theorem restores_hit :
    ∃ last, Session scripted (zeros [⟨.plainTrap, 0x11⟩])
        [⟨.breaks 1, 0, .normal⟩, ⟨.tbreak 0x10, 0, .normal⟩, ⟨.continue, 1, .normal⟩] last ∧
      Restores scriptedTracee (fun _ => 0) 0x10 last (exec scripted 0 (.breakDel 2) last) := by
  have computed : (replay scripted (fun _ _ _ => true) (zeros [⟨.plainTrap, 0x11⟩])
      [⟨.breaks 1, 0, .normal⟩, ⟨.tbreak 0x10, 0, .normal⟩, ⟨.continue, 1, .normal⟩]).map
        (fun last => (acceptedId last.globals.gBreakpoints 2,
          decide (Alone last.globals.gBreakpoints 1 0x10 ∧ last.globals.gSyscalls.length = 1),
          last.kernel.mem 0x10)) =
      some (some ⟨2, myBpTemp, 0x10, 0, false, false⟩, true, 0) := by
    decide +kernel
  obtain ⟨last, replayed, values⟩ := Option.map_eq_some_iff.mp computed
  obtain ⟨accepted, values⟩ := Prod.mk.inj values
  obtain ⟨tables, byte⟩ := Prod.mk.inj values
  obtain ⟨alone, length⟩ := of_decide_eq_true tables
  have session := session_replay replayed
  refine ⟨last, session, (restores_iff scriptedTracee session accepted trivial alone 0).mpr ?_⟩
  refine ⟨?_, fun trap => ?_⟩
  · rw [length]
    decide
  · have clash : (0 : Byte) = 0xCC := byte.symm.trans trap
    exact absurd clash (by decide)

/-- Deleting an armed breakpoint leaves its `int3` behind. -/
theorem break_del_leaves_int3 :
    ∃ last after bp, Session scripted (zeros [])
        [⟨.breaks 1, 0, .normal⟩, ⟨.break 0x10, 0, .normal⟩] last ∧
      acceptedId last.globals.gBreakpoints 2 = some bp ∧ bp.isSyscall = false ∧
      Alone last.globals.gBreakpoints 1 bp.addr ∧
      Prompt scripted ⟨.breakDel 2, 0, .normal⟩ last after ∧
      scriptedTracee.mem after.kernel bp.addr = 0xCC ∧
      scriptedTracee.mem (zeros []).kernel bp.addr = 0 := by
  have computed : ((replay scripted (fun _ _ _ => true) (zeros [])
      [⟨.breaks 1, 0, .normal⟩, ⟨.break 0x10, 0, .normal⟩]).bind fun last =>
        (Line.next scripted last ⟨.breakDel 2, 0, .normal⟩).map fun after =>
          (acceptedId last.globals.gBreakpoints 2,
            decide (Alone last.globals.gBreakpoints 1 0x10), after.kernel.mem 0x10)) =
      some (some ⟨2, 0, 0x10, 0, true, false⟩, true, 0xCC) := by
    decide +kernel
  obtain ⟨last, replayed, computed⟩ := Option.bind_eq_some_iff.mp computed
  obtain ⟨after, deletes, values⟩ := Option.map_eq_some_iff.mp computed
  obtain ⟨accepted, values⟩ := Prod.mk.inj values
  obtain ⟨alone, byte⟩ := Prod.mk.inj values
  exact ⟨last, after, _, session_replay replayed, accepted, rfl, of_decide_eq_true alone,
    Line.next_eq_some.mp deletes, byte, rfl⟩

end MyDbg
