import MyDbg.Debugger.Tracee

/-!
Contract: the table of watched syscalls and the breakpoints it belongs to.

Owns: `Linked`, how `g_syscalls` and the syscall breakpoints refer to each
other; that placements keep it and deletions do when the index they write to
is their own, or already free; and which deletions that is.

Does not own: the stops at which the table is read.
-/

namespace MyDbg

open LittleEndian ProgramLogic Transition

variable {κ : Type} {host : Host κ}

/-- The entry of `g_syscalls` that belongs to a syscall breakpoint for `syscall`. -/
def MyBp.tableEntry (bp : MyBp) (syscall : BitVec 32) : BitVec 32 :=
  if bp.deleted then -1 else syscall

/-- Every syscall breakpoint has an entry of its own, and every entry that is
not `-1` belongs to one that is not deleted. -/
structure Linked (globals : Globals) : Prop where
  entry : ∀ bp ∈ globals.gBreakpoints, bp.isSyscall = true → ∃ syscall : BitVec 32,
    bp.addr = syscall.signExtend 64 ∧
      globals.gSyscalls[bp.word.toNat]? = some (bp.tableEntry syscall)
  owner : ∀ (index : Nat) syscall, globals.gSyscalls[index]? = some syscall → syscall ≠ -1 →
    ∃ bp ∈ globals.gBreakpoints, bp.isSyscall = true ∧ bp.deleted = false ∧
      bp.addr = syscall.signExtend 64 ∧ bp.word.toNat = index
  apart : ∀ (left right : Nat) bp other, globals.gBreakpoints[left]? = some bp →
    globals.gBreakpoints[right]? = some other → bp.isSyscall = true → other.isSyscall = true →
    bp.word = other.word → left = right
  room : globals.gSyscalls.length < 2 ^ 61

/-- What `in_syscalls` answers is what the breakpoints say. -/
def Consistent (globals : Globals) : Prop :=
  ∀ syscall, syscall ≠ -1 →
    (inSyscalls globals.gSyscalls syscall = true ↔
      ∃ bp ∈ globals.gBreakpoints, bp.isSyscall = true ∧ bp.deleted = false ∧
        bp.addr = syscall.signExtend 64)

theorem signExtend_inj {left right : BitVec 32}
    (same : (left.signExtend 64 : BitVec 64) = right.signExtend 64) : left = right := by
  have narrow (value : BitVec 32) : (value.signExtend 64).setWidth 32 = value := by
    apply BitVec.eq_of_getLsbD_eq
    intro position bound
    simp [BitVec.getLsbD_signExtend, bound]
    omega
  rw [← narrow left, same, narrow right]

theorem inSyscalls_iff {syscalls : List (BitVec 32)} {syscall : BitVec 32}
    (proper : syscall ≠ -1) : inSyscalls syscalls syscall = true ↔ syscall ∈ syscalls := by
  rw [inSyscalls, if_neg proper]
  simp

theorem Linked.consistent {globals : Globals} (linked : Linked globals) : Consistent globals := by
  intro syscall proper
  rw [inSyscalls_iff proper]
  constructor
  · intro member
    obtain ⟨index, found⟩ := List.mem_iff_getElem?.mp member
    obtain ⟨bp, placed, isSyscall, live, addr, _⟩ := linked.owner index syscall found proper
    exact ⟨bp, placed, isSyscall, live, addr⟩
  · rintro ⟨bp, placed, isSyscall, live, addr⟩
    obtain ⟨other, same, found⟩ := linked.entry bp placed isSyscall
    obtain rfl : other = syscall := signExtend_inj (same.symm.trans addr)
    rw [MyBp.tableEntry, if_neg (by simp [live])] at found
    exact List.mem_of_getElem? found

section Tables

variable {globals : Globals}

/-- A code breakpoint has no entry. -/
theorem Linked.append_code (linked : Linked globals) {bp : MyBp} (isCode : bp.isSyscall = false) :
    Linked { globals with gBreakpoints := globals.gBreakpoints ++ [bp] } where
  entry other member marked := by
    rcases List.mem_append.mp member with old | new
    · exact linked.entry other old marked
    · obtain rfl := List.mem_singleton.mp new
      rw [isCode] at marked
      cases marked
  owner index syscall found proper := by
    obtain ⟨other, member, rest⟩ := linked.owner index syscall found proper
    exact ⟨other, List.mem_append_left _ member, rest⟩
  apart left right first second atLeft atRight marked marked' same := by
    have inside (position : Nat) (entry : MyBp) (marked : entry.isSyscall = true)
        (found : (globals.gBreakpoints ++ [bp])[position]? = some entry) :
        globals.gBreakpoints[position]? = some entry := by
      rw [List.getElem?_append] at found
      split at found
      · exact found
      · obtain rfl := List.mem_singleton.mp (List.mem_of_getElem? found)
        rw [isCode] at marked
        cases marked
    exact linked.apart left right first second (inside left first marked atLeft)
      (inside right second marked' atRight) marked marked' same
  room := linked.room

/-- A syscall breakpoint gets the entry that was just added. -/
theorem Linked.append_syscall (linked : Linked globals) {bp : MyBp} {syscall : BitVec 32}
    (room : globals.gSyscalls.length + 1 < 2 ^ 61) (isSyscall : bp.isSyscall = true)
    (live : bp.deleted = false) (addr : bp.addr = syscall.signExtend 64)
    (word : bp.word.toNat = globals.gSyscalls.length) :
    Linked { globals with
      gBreakpoints := globals.gBreakpoints ++ [bp]
      gSyscalls := globals.gSyscalls ++ [syscall] } where
  entry other member marked := by
    rcases List.mem_append.mp member with old | new
    · obtain ⟨value, same, found⟩ := linked.entry other old marked
      refine ⟨value, same, ?_⟩
      rw [List.getElem?_append_left (List.getElem?_eq_some_iff.mp found).1, found]
    · obtain rfl := List.mem_singleton.mp new
      refine ⟨syscall, addr, ?_⟩
      simp [word, MyBp.tableEntry, live]
  owner index value found proper := by
    rw [List.getElem?_append] at found
    split at found
    · obtain ⟨other, member, rest⟩ := linked.owner index value found proper
      exact ⟨other, List.mem_append_left _ member, rest⟩
    · next beyond =>
        have bound := (List.getElem?_eq_some_iff.mp found).1
        rw [List.length_singleton] at bound
        obtain rfl := List.mem_singleton.mp (List.mem_of_getElem? found)
        refine ⟨bp, by simp, isSyscall, live, addr, ?_⟩
        omega
  apart left right first second atLeft atRight marked marked' same := by
    -- an old breakpoint has an entry below the one just added
    have inside (position : Nat) (entry : MyBp) (marked : entry.isSyscall = true)
        (found : (globals.gBreakpoints ++ [bp])[position]? = some entry) :
        (globals.gBreakpoints[position]? = some entry ∧
          entry.word.toNat < globals.gSyscalls.length) ∨
        (position = globals.gBreakpoints.length ∧
          entry.word.toNat = globals.gSyscalls.length) := by
      rw [List.getElem?_append] at found
      split at found
      · obtain ⟨_, _, stored⟩ := linked.entry entry (List.mem_of_getElem? found) marked
        exact .inl ⟨found, (List.getElem?_eq_some_iff.mp stored).1⟩
      · have bound := (List.getElem?_eq_some_iff.mp found).1
        rw [List.length_singleton] at bound
        obtain rfl := List.mem_singleton.mp (List.mem_of_getElem? found)
        exact .inr ⟨by omega, word⟩
    rcases inside left first marked atLeft with ⟨found, below⟩ | ⟨atEnd, equal⟩ <;>
      rcases inside right second marked' atRight with ⟨found', below'⟩ | ⟨atEnd', equal'⟩
    · exact linked.apart left right first second found found' marked marked' same
    · rw [same] at below
      omega
    · rw [same] at equal
      omega
    · rw [atEnd, atEnd']
  room := by simpa using room

/-- Marking a breakpoint deleted leaves everything else about it alone. -/
theorem getElem?_delete {breakpoints : List MyBp} {index : Nat} {bp : MyBp}
    (found : breakpoints[index]? = some bp) {position : Nat} {entry : MyBp}
    (stored : (breakpoints.set index { bp with deleted := true })[position]? = some entry) :
    (position ≠ index ∧ breakpoints[position]? = some entry) ∨
      (position = index ∧ entry = { bp with deleted := true }) := by
  by_cases here : position = index
  · subst here
    rw [List.getElem?_set_self (List.getElem?_eq_some_iff.mp found).1] at stored
    exact .inr ⟨rfl, (Option.some.inj stored).symm⟩
  · rw [List.getElem?_set_ne (Ne.symm here)] at stored
    exact .inl ⟨here, stored⟩

theorem apart_delete (linked : Linked globals) {index : Nat} {bp : MyBp}
    (found : globals.gBreakpoints[index]? = some bp) (left right : Nat) (first second : MyBp)
    (atLeft : (globals.gBreakpoints.set index { bp with deleted := true })[left]? = some first)
    (atRight : (globals.gBreakpoints.set index { bp with deleted := true })[right]? = some second)
    (marked : first.isSyscall = true) (marked' : second.isSyscall = true)
    (same : first.word = second.word) : left = right := by
  rcases getElem?_delete found atLeft with ⟨_, stored⟩ | ⟨rfl, rfl⟩ <;>
    rcases getElem?_delete found atRight with ⟨_, stored'⟩ | ⟨rfl, rfl⟩
  · exact linked.apart left right first second stored stored' marked marked' same
  · exact linked.apart left right first bp stored found marked marked' same
  · exact linked.apart left right bp second found stored' marked marked' same
  · rfl

/-- Deleting a code breakpoint. -/
theorem Linked.delete_code (linked : Linked globals) {index : Nat} {bp : MyBp}
    (found : globals.gBreakpoints[index]? = some bp) (isCode : bp.isSyscall = false) :
    Linked { globals with
      gBreakpoints := globals.gBreakpoints.set index { bp with deleted := true } } where
  entry other member marked := by
    obtain ⟨position, stored⟩ := List.mem_iff_getElem?.mp member
    rcases getElem?_delete found stored with ⟨_, old⟩ | ⟨_, rfl⟩
    · exact linked.entry other (List.mem_of_getElem? old) marked
    · have code : bp.isSyscall = true := marked
      rw [isCode] at code
      cases code
  owner position syscall stored proper := by
    obtain ⟨other, member, marked, rest⟩ := linked.owner position syscall stored proper
    obtain ⟨place, old⟩ := List.mem_iff_getElem?.mp member
    have elsewhere : index ≠ place := by
      rintro rfl
      obtain rfl := Option.some.inj (found.symm.trans old)
      rw [isCode] at marked
      cases marked
    refine ⟨other, List.mem_of_getElem? (i := place) ?_, marked, rest⟩
    rw [List.getElem?_set_ne elsewhere, old]
  apart := apart_delete linked found
  room := linked.room

/-- Deleting a syscall breakpoint with its entry. -/
theorem Linked.delete_syscall (linked : Linked globals) {index : Nat} {bp : MyBp}
    (found : globals.gBreakpoints[index]? = some bp) (isSyscall : bp.isSyscall = true) :
    Linked { globals with
      gBreakpoints := globals.gBreakpoints.set index { bp with deleted := true }
      gSyscalls := globals.gSyscalls.set bp.word.toNat (-1) } where
  entry other member marked := by
    obtain ⟨position, stored⟩ := List.mem_iff_getElem?.mp member
    rcases getElem?_delete found stored with ⟨elsewhere, old⟩ | ⟨_, rfl⟩
    · obtain ⟨value, same, entry⟩ := linked.entry other (List.mem_of_getElem? old) marked
      refine ⟨value, same, ?_⟩
      have distinct : bp.word.toNat ≠ other.word.toNat := fun equal =>
        elsewhere (linked.apart position index other bp old found marked isSyscall
          (BitVec.eq_of_toNat_eq equal.symm))
      rw [List.getElem?_set_ne distinct, entry]
    · obtain ⟨value, same, entry⟩ := linked.entry bp (List.mem_of_getElem? found) isSyscall
      refine ⟨value, same, ?_⟩
      exact List.getElem?_set_self (List.getElem?_eq_some_iff.mp entry).1
  owner position syscall stored proper := by
    have elsewhere : bp.word.toNat ≠ position := by
      rintro rfl
      have bound := (List.getElem?_eq_some_iff.mp stored).1
      rw [List.length_set] at bound
      rw [List.getElem?_set_self bound] at stored
      exact proper (Option.some.inj stored).symm
    rw [List.getElem?_set_ne elsewhere] at stored
    obtain ⟨other, member, marked, live, addr, word⟩ := linked.owner position syscall stored proper
    obtain ⟨place, old⟩ := List.mem_iff_getElem?.mp member
    have apart : index ≠ place := by
      rintro rfl
      obtain rfl := Option.some.inj (found.symm.trans old)
      exact elsewhere word
    refine ⟨other, List.mem_of_getElem? (i := place) ?_, marked, live, addr, word⟩
    rw [List.getElem?_set_ne apart, old]
  apart := apart_delete linked found
  room := by simpa using linked.room

end Tables

/-! ## Commands -/

/-- The commands that place and delete breakpoints. -/
def Command.edits : Command → Bool
  | .break _ | .tbreak _ | .breakf _ | .breaks _ | .breakDel _ => true
  | _ => false

/-- `break_del` of `nb` writes an entry of its own, or one that is free. -/
def FreeEntry (globals : Globals) (nb : Nat) : Prop :=
  ∀ bp ∈ acceptedId globals.gBreakpoints nb, bp.isSyscall = false →
    globals.gSyscalls[bp.word.toNat]? = some (-1)

instance (globals : Globals) (nb : Nat) : Decidable (FreeEntry globals nb) :=
  inferInstanceAs (Decidable (∀ bp ∈ acceptedId globals.gBreakpoints nb, bp.isSyscall = false →
    globals.gSyscalls[bp.word.toNat]? = some (-1)))

/-- The condition on a command. -/
def Command.Fits (globals : Globals) : Command → Prop
  | .breakDel nb => FreeEntry globals nb
  | _ => True

instance (globals : Globals) (command : Command) : Decidable (command.Fits globals) :=
  match command with
  | .breakDel nb => inferInstanceAs (Decidable (FreeEntry globals nb))
  | .break _ | .tbreak _ | .breakf _ | .breakl _ | .breaks _ | .stepInstr | .nextInstr
  | .finish | .continue => isTrue trivial

/-- The tables are linked at the next prompt and every write was inside. -/
def Tables {α : Type} : Post MyException (State κ) α where
  ok _ state := Linked state.globals
  throw _ state := Linked state.globals
  fault _ := False
  noReturn _ := True

section Commands

variable {state : State κ}

theorem appendBreakpoint_tables {addr : Addr} {flags : MyBpFlags} {word : Word}
    (linked : Linked { state.globals with
      gBreakpoints := state.globals.gBreakpoints ++
        [.placed state.globals.gBreakpoints addr flags word] }) :
    wp (appendBreakpoint addr flags word) Tables state := by
  unfold wp
  rw [appendBreakpoint_apply]
  split
  · exact linked
  · trivial

theorem placeCode_tables {flags : MyBpFlags} (isCode : flags &&& myBpSyscall = 0) (addr : Addr)
    (linked : Linked state.globals) : wp (placeBreakpoint host addr flags) Tables state := by
  unfold placeBreakpoint
  rw [if_pos isCode]
  simp only [wp_bind, wp_myPtrace]
  refine ⟨fun peeked _ => ⟨fun poked _ => ?_, fun _ => linked⟩, fun _ => linked⟩
  refine appendBreakpoint_tables (linked.append_code ?_)
  simp [MyBp.placed, MyBp.isSyscall, isCode]

theorem addSyscallBreak_tables (syscall : BitVec 32) (linked : Linked state.globals) :
    wp (addSyscallBreak host syscall) Tables state := by
  have room := linked.room
  unfold addSyscallBreak
  simp only [wp_bind, wp_getGlobals, wp_myRealloc, wp_modifyGlobals, wp_pure]
  refine ⟨fun fits => ?_, fun _ => trivial⟩
  unfold placeBreakpoint
  rw [if_neg (by decide)]
  simp only [wp_bind, wp_getGlobals, State.withGlobals_globals]
  refine wp_mono (appendBreakpoint_tables ?_)
    ⟨fun _ _ kept => kept, fun _ _ kept => kept, fun _ kept => kept, fun _ kept => kept⟩
  refine linked.append_syscall (by omega)
    (by simp [MyBp.placed, MyBp.isSyscall, myBpSyscall]) rfl rfl ?_
  simp only [MyBp.placed, List.length_append, List.length_singleton]
  rw [ofNat_succ_sub_one, BitVec.toNat_ofNat, Nat.mod_eq_of_lt (by omega)]

theorem cmdBreakDel_tables {nb : Nat} (linked : Linked state.globals)
    (free : FreeEntry state.globals nb) : wp (cmdBreakDel nb) Tables state := by
  cases accepted : acceptedId state.globals.gBreakpoints nb with
  | none =>
      obtain ⟨message, _, ends⟩ := cmdBreakDel_refused accepted
      unfold wp
      rw [ends]
      exact linked
  | some bp =>
      obtain ⟨_, found, _⟩ := acceptedId_eq_some.mp accepted
      unfold wp
      rw [cmdBreakDel_accepted accepted]
      cases kind : bp.isSyscall with
      | false =>
          have entry := free bp accepted kind
          obtain ⟨bound, same⟩ := List.getElem?_eq_some_iff.mp entry
          rw [if_pos bound, ← same, List.set_getElem_self]
          exact linked.delete_code found kind
      | true =>
          obtain ⟨_, _, entry⟩ := linked.entry bp (List.mem_of_getElem? found) kind
          rw [if_pos (List.getElem?_eq_some_iff.mp entry).1]
          exact linked.delete_syscall found kind

theorem exec_tables (depth : Nat) {command : Command} (edits : command.edits = true)
    (linked : Linked state.globals) (fits : command.Fits state.globals) :
    wp (exec host depth command) Tables state := by
  have place (addr : Addr) (flags : MyBpFlags) (isCode : flags &&& myBpSyscall = 0) :
      wp (placeBreakpoint host addr flags >>= fun nb => printf (.breakpointPlaced nb addr))
        Tables state := by
    rw [wp_bind]
    exact wp_mono (placeCode_tables isCode addr linked)
      ⟨fun _ _ kept => kept, fun _ _ kept => kept, fun _ kept => kept, fun _ kept => kept⟩
  cases command with
  | «break» addr => exact place addr 0 rfl
  | tbreak addr => exact place addr myBpTemp rfl
  | breakf addr =>
      unfold exec cmdBreakf
      rw [wp_ite]
      exact ⟨fun _ => linked, fun _ => place addr 0 rfl⟩
  | breaks syscall =>
      unfold exec cmdBreaks
      rw [wp_bind]
      exact wp_mono (addSyscallBreak_tables syscall linked)
        ⟨fun _ _ kept => kept, fun _ _ kept => kept, fun _ kept => kept, fun _ kept => kept⟩
  | breakDel nb => exact cmdBreakDel_tables linked fits
  | _ => cases edits

end Commands

/-! ## Sessions -/

/-- A command of the claim that meets its condition. -/
def FittingPrompt (host : Host κ) (line : Line) (before after : State κ) : Prop :=
  Prompt host line before after ∧ line.command.edits = true ∧ line.command.Fits before.globals

theorem linked_start (kernel : κ) : Linked (State.start kernel).globals where
  entry bp member := by cases member
  owner index syscall found := by cases found
  apart left right bp other found := by cases found
  room := Nat.two_pow_pos 61

theorem linked_run {kernel : κ} {lines : List Line} {last : State κ}
    (run : Run (FittingPrompt host) (State.start kernel) lines last) : Linked last.globals := by
  refine run.invariant (fun state => Linked state.globals) (linked_start kernel) ?_
  rintro line before after linked ⟨prompt, edits, fits⟩
  have kept : wp (exec host line.depth line.command) Tables before :=
    exec_tables line.depth edits linked fits
  unfold Prompt at prompt
  cases back : line.back with
  | normal => rw [back] at prompt; exact kept.ok prompt
  | raised raised => rw [back] at prompt; exact kept.throw prompt

/-- The outcome is not undefined behaviour. -/
def Defined {α : Type} : Outcome MyException (State κ) α → Prop
  | .fault _ => False
  | _ => True

instance {α : Type} (outcome : Outcome MyException (State κ) α) : Decidable (Defined outcome) :=
  match outcome with
  | .fault _ => isFalse id
  | .ok _ _ | .throw _ _ | .noReturn _ => isTrue trivial

theorem defined_of_tables {α : Type} {program : Dbg κ α} {state : State κ}
    (tables : wp program Tables state) : Defined (program state) := by
  unfold wp at tables
  cases outcome : program state with
  | fault after => rw [outcome] at tables; exact tables
  | _ => trivial

/-- In a run in which every deletion of a code breakpoint writes a free entry,
`g_syscalls` is what the syscall breakpoints say; the next command writes
inside the table; and a deletion is defined and leaves the table to the
syscall breakpoints exactly where it writes a free entry. -/
theorem syscalls_consistent {kernel : κ} {lines : List Line} {last : State κ}
    (run : Run (FittingPrompt host) (State.start kernel) lines last) :
    Consistent last.globals ∧
      (∀ depth command, command.edits = true → command.Fits last.globals →
        Defined (exec host depth command last)) ∧
      ∀ depth nb bp, acceptedId last.globals.gBreakpoints nb = some bp →
        ((Defined (exec host depth (.breakDel nb) last) ∧
            (bp.isSyscall = false →
              (exec host depth (.breakDel nb) last).state.globals.gSyscalls =
                last.globals.gSyscalls)) ↔
          FreeEntry last.globals nb) := by
  have linked := linked_run run
  refine ⟨linked.consistent, fun depth command edits fits =>
    defined_of_tables (exec_tables depth edits linked fits), fun depth nb bp accepted => ?_⟩
  have ends : exec host depth (.breakDel nb) last = _ := cmdBreakDel_accepted accepted
  constructor
  · rintro ⟨isDefined, unchanged⟩ other accepted' isCode
    obtain rfl := Option.some.inj (accepted.symm.trans accepted')
    have same := unchanged isCode
    rw [ends] at isDefined same
    by_cases inside : bp.word.toNat < last.globals.gSyscalls.length
    · rw [if_pos inside] at same
      have written : (last.globals.gSyscalls.set bp.word.toNat (-1))[bp.word.toNat]? =
          some (-1) := List.getElem?_set_self inside
      have kept : last.globals.gSyscalls.set bp.word.toNat (-1) = last.globals.gSyscalls := same
      rwa [kept] at written
    · rw [if_neg inside] at isDefined
      exact isDefined.elim
  · intro free
    refine ⟨defined_of_tables (exec_tables depth rfl linked free), fun isCode => ?_⟩
    obtain ⟨bound, same⟩ := List.getElem?_eq_some_iff.mp (free bp accepted isCode)
    rw [ends, if_pos bound, ← same, List.set_getElem_self]
    rfl

/-- A syscall breakpoint deleted next to a code breakpoint. -/
theorem syscalls_consistent_breaks :
    ∃ last, Session scripted (Scripted.start [])
        [⟨.breaks 1, 0, .normal⟩, ⟨.break 0x10, 0, .normal⟩, ⟨.breakDel 1, 0, .normal⟩] last ∧
      Consistent last.globals := by
  have comes : (replay scripted (fun line before _ =>
      line.command.edits && decide (line.command.Fits before.globals)) (Scripted.start [])
        [⟨.breaks 1, 0, .normal⟩, ⟨.break 0x10, 0, .normal⟩,
          ⟨.breakDel 1, 0, .normal⟩]).isSome = true := by
    decide +kernel
  obtain ⟨last, replayed⟩ := Option.isSome_iff_exists.mp comes
  have run : Run (FittingPrompt scripted) (Scripted.start [])
      [⟨.breaks 1, 0, .normal⟩, ⟨.break 0x10, 0, .normal⟩, ⟨.breakDel 1, 0, .normal⟩] last := by
    refine run_replay (fun line before after prompt passed => ?_) replayed
    rw [Bool.and_eq_true, decide_eq_true_iff] at passed
    exact ⟨prompt, passed⟩
  exact ⟨last, run.mono fun _ _ _ fitting => fitting.1, (syscalls_consistent run).1⟩

/-- Deleting the first code breakpoint writes through the NULL table. -/
theorem break_del_undefined :
    ∃ last, Session scripted (Scripted.start []) [⟨.break 0x400526, 0, .normal⟩] last ∧
      (acceptedId last.globals.gBreakpoints 1).isSome = true ∧
      ¬ Defined (exec scripted 0 (.breakDel 1) last) := by
  have computed : (replay scripted (fun _ _ _ => true) (Scripted.start [])
      [⟨.break 0x400526, 0, .normal⟩]).map (fun last =>
        ((acceptedId last.globals.gBreakpoints 1).isSome,
          decide (Defined (exec scripted 0 (.breakDel 1) last)))) = some (true, false) := by
    decide +kernel
  obtain ⟨last, replayed, values⟩ := Option.map_eq_some_iff.mp computed
  obtain ⟨accepted, undefined⟩ := Prod.mk.inj values
  exact ⟨last, session_replay replayed, accepted, of_decide_eq_false undefined⟩

end MyDbg
