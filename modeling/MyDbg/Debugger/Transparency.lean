import MyDbg.Debugger.Machine
import MyDbg.Debugger.Tracee
import MyDbg.Lib.Evaluation

/-!
Contract: persistent breakpoints are transparent.

Owns: the debugger on a deterministic machine, evaluated without its trace;
`Debugger`, what `step_instr` and `continue` are for in terms of the program
alone; and that the former refines the latter in every session.

Does not own: temporary breakpoints, syscall breakpoints and signals.
-/

namespace MyDbg

open LittleEndian ProgramLogic Transition

variable {χ : Type} {machine : Machine χ} {budget : Nat}

/-! ## Evaluating the debugger -/

/-- What is not the trace. -/
def State.live {κ : Type} (state : State κ) : Globals × κ := (state.globals, state.kernel)

/-- `program` ends in `outcome`, whatever is in the trace. -/
abbrev Ends {κ α : Type} (program : Dbg κ α) (globals : Globals) (kernel : κ)
    (outcome : Outcome MyException (Globals × κ) α) : Prop :=
  Evaluates State.live program (globals, kernel) outcome

section Primitives

variable {κ : Type} {host : Host κ} {globals : Globals} {kernel after : κ}

theorem ends_getGlobals : Ends getGlobals globals kernel (.ok globals (globals, kernel)) :=
  Evaluates.gets Prod.fst fun _ => rfl

theorem ends_note (event : Event) : Ends (note event) globals kernel (.ok () (globals, kernel)) :=
  Evaluates.modify id fun _ => rfl

theorem ends_modifyGlobals (update : Globals → Globals) :
    Ends (modifyGlobals update) globals kernel (.ok () (update globals, kernel)) :=
  Evaluates.modify (fun live => (update live.1, live.2)) fun _ => rfl

theorem ends_myPtrace {request : Request} {reply : Reply}
    (accepted : host.ptrace request kernel = (some reply, after)) :
    Ends (myPtrace host request) globals kernel (.ok reply (globals, after)) := by
  rintro state seen
  obtain ⟨rfl, rfl⟩ := Prod.mk.inj seen
  simp only [myPtrace, accepted]
  simp only [Outcome.map, State.live, State.afterPtrace_globals, State.afterPtrace_kernel, accepted]

theorem ends_myPtrace_refused {request : Request}
    (refused : host.ptrace request kernel = (none, after)) :
    Ends (myPtrace host request) globals kernel (.throw .ptraceException (globals, after)) := by
  rintro state seen
  obtain ⟨rfl, rfl⟩ := Prod.mk.inj seen
  simp only [myPtrace, refused]
  simp only [Outcome.map, State.live, State.afterPtrace_globals, State.afterPtrace_kernel, refused]

theorem ends_myWait {wstatus : WStatus} (returned : host.waitpid kernel = .status wstatus after) :
    Ends (myWait host) globals kernel (.ok wstatus (globals, after)) := by
  rintro state seen
  obtain ⟨rfl, rfl⟩ := Prod.mk.inj seen
  simp only [myWait, returned]
  rfl

theorem ends_myWait_blocked (blocked : host.waitpid kernel = .blocked) :
    Ends (myWait host) globals kernel (.noReturn (globals, kernel)) := by
  rintro state seen
  obtain ⟨rfl, rfl⟩ := Prod.mk.inj seen
  simp only [myWait, blocked]
  rfl

theorem ends_breakpointAt {index : Nat} {bp : MyBp}
    (found : globals.gBreakpoints[index]? = some bp) :
    Ends (breakpointAt index) globals kernel (.ok bp (globals, kernel)) := by
  rintro state seen
  obtain ⟨rfl, rfl⟩ := Prod.mk.inj seen
  rw [breakpointAt_apply found]
  rfl

end Primitives

/-- The globals after toggling the breakpoint `bp` at `index`. -/
def Globals.toggled (globals : Globals) (index : Nat) (bp : MyBp) : Globals :=
  { globals with gBreakpoints := globals.gBreakpoints.set index bp.toggled }

/-! ## Requests that are answered -/

section Answered

variable {κ : Type} {host : Host κ} {globals : Globals} {kernel middle after : κ}
  {reply other : Reply} {index : Nat} {bp : MyBp}

theorem ends_getRegister_of (answered : host.ptrace .getregs kernel = (some reply, after))
    (reg : MyReg) :
    Ends (getRegister host reg) globals kernel (.ok (reply.regs reg) (globals, after)) :=
  (ends_myPtrace answered).bind (.pure _)

theorem ends_setRegister_of {reg : MyReg} {value : Word}
    (read : host.ptrace .getregs kernel = (some reply, middle))
    (written : host.ptrace (.setregs (Function.update reply.regs reg value)) middle =
      (some other, after)) :
    Ends (setRegister host reg value) globals kernel (.ok () (globals, after)) :=
  (ends_myPtrace read).bind ((ends_myPtrace written).bind (.pure _))

theorem ends_placeBreakpoint_of {addr : Addr} {flags : MyBpFlags}
    (isCode : flags &&& myBpSyscall = 0)
    (peeked : host.ptrace (.peekdata addr) kernel = (some reply, middle))
    (poked : host.ptrace (.pokedata addr (withLowByte reply.ret 0xCC)) middle =
      (some other, after)) {outcome : Outcome MyException (Globals × κ) Nat}
    (rest : Ends (appendBreakpoint addr flags reply.ret) globals after outcome) :
    Ends (placeBreakpoint host addr flags) globals kernel outcome := by
  rw [placeBreakpoint, if_pos isCode]
  exact (ends_myPtrace peeked).bind ((ends_myPtrace poked).bind rest)

theorem ends_toggle_of (found : globals.gBreakpoints[index]? = some bp)
    (switches : bp.enabled = true ∨ bp.isTemp = false)
    (peeked : host.ptrace (.peekdata bp.addr) kernel = (some reply, middle))
    (poked : host.ptrace (.pokedata bp.addr (bp.toggledWord reply.ret)) middle =
      (some other, after)) :
    Ends (toggleBreakpoint host index) globals kernel
      (.ok () (globals.toggled index bp, after)) := by
  refine (ends_note _).bind ((ends_breakpointAt found).bind ?_)
  have taken : (!bp.enabled && bp.isTemp) = false := by
    rcases switches with on | persistent
    · simp [on]
    · simp [persistent]
  rw [taken, if_neg Bool.false_ne_true]
  have stored : Ends (storeBreakpoint index bp.toggled) globals after
      (.ok () (globals.toggled index bp, after)) := ends_modifyGlobals _
  exact (ends_myPtrace peeked).bind ((ends_myPtrace poked).bind stored)

/-- A temporary breakpoint that is off stays off. -/
theorem ends_toggle_spent (found : globals.gBreakpoints[index]? = some bp)
    (off : bp.enabled = false) (temp : bp.isTemp = true) :
    Ends (toggleBreakpoint host index) globals kernel (.ok () (globals, kernel)) := by
  refine (ends_note _).bind ((ends_breakpointAt found).bind ?_)
  rw [off, temp, Bool.not_false, Bool.and_self, if_pos rfl]
  exact .pure ()

theorem ends_appendBreakpoint {addr : Addr} {flags : MyBpFlags} {word : Word}
    (fits : (globals.gBreakpoints.length + 1) * sizeofMyBp < 2 ^ 63) :
    Ends (appendBreakpoint addr flags word) globals kernel
      (.ok (globals.gBreakpoints.length + 1) ({ globals with
        gBreakpoints := globals.gBreakpoints ++ [.placed globals.gBreakpoints addr flags word] },
        kernel)) := by
  have realloc : Ends (myRealloc ((globals.gBreakpoints.length + 1) * sizeofMyBp)) globals kernel
      (.ok () (globals, kernel)) := by
    unfold myRealloc
    rw [if_pos fits]
    exact .pure ()
  exact ends_getGlobals.bind (realloc.bind ((ends_modifyGlobals _).bind (.pure _)))

theorem ends_appendBreakpoint_exhausted {addr : Addr} {flags : MyBpFlags} {word : Word}
    (exhausted : ¬ (globals.gBreakpoints.length + 1) * sizeofMyBp < 2 ^ 63) :
    Ends (appendBreakpoint addr flags word) globals kernel (.noReturn (globals, kernel)) := by
  have realloc : Ends (myRealloc ((globals.gBreakpoints.length + 1) * sizeofMyBp)) globals kernel
      (.noReturn (globals, kernel)) := by
    unfold myRealloc
    rw [if_neg exhausted]
    exact .noReturn
  exact ends_getGlobals.bind realloc.bind_noReturn

end Answered

/-! ## Requests to the machine -/

section Requests

variable {globals : Globals} {kernel : Traced χ} {index : Nat} {bp : MyBp}

theorem ends_getRegister (stopped : kernel.life = .stopped) (reg : MyReg) :
    Ends (getRegister (machine.host budget) reg) globals kernel
      (.ok (machine.regs kernel.cpu reg) (globals, kernel)) := by
  have accepted : (machine.host budget).ptrace .getregs kernel =
      (some ⟨0, machine.regs kernel.cpu⟩, kernel) := by
    simp only [Machine.host, stopped]
  exact ends_getRegister_of accepted reg

theorem ends_getRegister_gone (gone : kernel.life = .gone) (reg : MyReg) :
    Ends (getRegister (machine.host budget) reg) globals kernel
      (.throw .ptraceException (globals, kernel)) := by
  have refused : (machine.host budget).ptrace .getregs kernel = (none, kernel) := by
    simp only [Machine.host, gone]
  exact (ends_myPtrace_refused refused).bind_throw

theorem ends_setRip (stopped : kernel.life = .stopped) (addr : Addr) :
    Ends (setRegister (machine.host budget) .rip addr) globals kernel
      (.ok () (globals, { kernel with cpu := machine.jump addr kernel.cpu })) := by
  have read : (machine.host budget).ptrace .getregs kernel =
      (some ⟨0, machine.regs kernel.cpu⟩, kernel) := by
    simp only [Machine.host, stopped]
  have written : (machine.host budget).ptrace
      (.setregs (Function.update (machine.regs kernel.cpu) .rip addr)) kernel =
        (some ⟨0, Function.update (machine.regs kernel.cpu) .rip addr⟩,
          { kernel with cpu := machine.jump addr kernel.cpu }) := by
    simp only [Machine.host, stopped, Machine.jump]
  exact ends_setRegister_of read written

theorem ends_toggle (stopped : kernel.life = .stopped)
    (found : globals.gBreakpoints[index]? = some bp) (persistent : bp.isTemp = false) :
    Ends (toggleBreakpoint (machine.host budget) index) globals kernel
      (.ok () (globals.toggled index bp,
        { kernel with mem := Function.update kernel.mem bp.addr bp.toggledByte })) := by
  have peeked : (machine.host budget).ptrace (.peekdata bp.addr) kernel =
      (some ⟨peek kernel.mem bp.addr, machine.regs kernel.cpu⟩, kernel) := by
    simp only [Machine.host, stopped]
  have poked : (machine.host budget).ptrace
      (.pokedata bp.addr (bp.toggledWord (peek kernel.mem bp.addr))) kernel =
        (some ⟨0, machine.regs kernel.cpu⟩,
          { kernel with mem := Function.update kernel.mem bp.addr bp.toggledByte }) := by
    simp only [Machine.host, stopped, poke_toggledWord]
  exact ends_toggle_of found (.inr persistent) peeked poked

theorem ends_toggle_gone (gone : kernel.life = .gone)
    (found : globals.gBreakpoints[index]? = some bp) (persistent : bp.isTemp = false) :
    Ends (toggleBreakpoint (machine.host budget) index) globals kernel
      (.throw .ptraceException (globals, kernel)) := by
  have refused : (machine.host budget).ptrace (.peekdata bp.addr) kernel = (none, kernel) := by
    simp only [Machine.host, gone]
  refine (ends_note _).bind ((ends_breakpointAt found).bind ?_)
  rw [persistent, Bool.and_false, if_neg Bool.false_ne_true]
  exact (ends_myPtrace_refused refused).bind_throw

end Requests

/-! ## Persistent breakpoints -/

/-- Enabled breakpoints with no flags at different instruction starts, each
with the byte that was there. -/
structure Table (code : Code machine) (breakpoints : List MyBp) : Prop where
  persistent : ∀ bp ∈ breakpoints, bp.flags = 0
  on : ∀ bp ∈ breakpoints, bp.enabled = true ∧ bp.deleted = false
  placed : ∀ bp ∈ breakpoints, bp.addr ∈ code.starts ∧ lowByte bp.word = code.orig bp.addr
  distinct : (breakpoints.map MyBp.addr).Nodup

section Tables

variable {code : Code machine} {breakpoints : List MyBp} {index : Nat} {bp : MyBp} {addr : Addr}

theorem Table.isTemp (table : Table code breakpoints) (member : bp ∈ breakpoints) :
    bp.isTemp = false := by
  unfold MyBp.isTemp
  rw [table.persistent bp member]
  rfl

theorem Table.isInternal (table : Table code breakpoints) (member : bp ∈ breakpoints) :
    bp.isInternal = false := by
  unfold MyBp.isInternal
  rw [table.persistent bp member]
  rfl

theorem Table.isSyscall (table : Table code breakpoints) (member : bp ∈ breakpoints) :
    bp.isSyscall = false := by
  unfold MyBp.isSyscall
  rw [table.persistent bp member]
  rfl

/-- A breakpoint hits exactly its address. -/
theorem Table.hits (table : Table code breakpoints) (member : bp ∈ breakpoints) :
    bp.hits addr = true ↔ bp.addr = addr := by
  rw [MyBp.hits_iff]
  have on := table.on bp member
  simp [on.1, on.2, table.isSyscall member]

theorem Table.armed (table : Table code breakpoints) :
    isBreakpoint breakpoints addr = true ↔ addr ∈ breakpoints.map MyBp.addr := by
  rw [isBreakpoint_iff, List.mem_map]
  constructor
  · rintro ⟨bp, member, hit⟩
    exact ⟨bp, member, (table.hits member).mp hit⟩
  · rintro ⟨bp, member, same⟩
    exact ⟨bp, member, (table.hits member).mpr same⟩

theorem Table.within (table : Table code breakpoints) :
    ∀ addr, isBreakpoint breakpoints addr = true → addr ∈ code.starts := by
  intro addr armed
  obtain ⟨bp, member, rfl⟩ := List.mem_map.mp (table.armed.mp armed)
  exact (table.placed bp member).1

theorem Table.found (table : Table code breakpoints)
    (first : getBreakpoint breakpoints addr = some index) :
    ∃ bp, breakpoints[index]? = some bp ∧ bp.addr = addr := by
  obtain ⟨bp, found, hit, _⟩ := getBreakpoint_eq_some.mp first
  exact ⟨bp, found, (table.hits (List.mem_of_getElem? found)).mp hit⟩

/-- Toggling off disarms the address of the breakpoint and no other. -/
theorem Table.disarmed (table : Table code breakpoints) (found : breakpoints[index]? = some bp) :
    isBreakpoint (breakpoints.set index bp.toggled) addr =
      (isBreakpoint breakpoints addr && addr != bp.addr) := by
  have member := List.mem_of_getElem? found
  by_cases same : addr = bp.addr
  · subst same
    rw [bne_self_eq_false, Bool.and_false, Bool.eq_false_iff]
    intro armed
    obtain ⟨other, among, hit⟩ := isBreakpoint_iff.mp armed
    obtain ⟨position, at'⟩ := List.mem_iff_getElem?.mp among
    rw [List.getElem?_set] at at'
    split at at'
    · next equal =>
        have toggled : other = bp.toggled := by
          split at at'
          · exact (Option.some.inj at').symm
          · cases at'
        rw [toggled, MyBp.toggled_hits_off (table.on bp member).1] at hit
        cases hit
    · next apart =>
        have address := (table.hits (List.mem_of_getElem? at')).mp hit
        have inside := (List.getElem?_eq_some_iff.mp found).1
        refine apart ((List.getElem?_inj (by simpa using inside) table.distinct).mp ?_)
        rw [List.getElem?_map, List.getElem?_map, found, at', Option.map_some, Option.map_some,
          address]
  · have differs : (addr != bp.addr) = true := by simpa using same
    rw [differs, Bool.and_true, isBreakpoint, isBreakpoint,
      getBreakpoint_set found (MyBp.toggled_hits fun equal => same equal.symm)]

end Tables

/-! ## Where the debugger stands -/

/-- At a prompt, after `count` instructions. -/
structure Halted (code : Code machine) (first : χ × Memory) (count : Nat) (globals : Globals)
    (kernel : Traced χ) : Prop where
  table : Table code globals.gBreakpoints
  untraced : globals.gSyscalls = []
  silent : globals.gSignum = 0
  goes : globals.gQuit = false
  stopped : kernel.life = .stopped
  at' : At machine first (isBreakpoint globals.gBreakpoints) count kernel

/-- The program has ended and the debugger is about to quit. -/
structure Finished (machine : Machine χ) (first : χ × Memory) (count : Nat) (globals : Globals)
    (kernel : Traced χ) : Prop where
  past : Over machine first count kernel
  quits : globals.gQuit = true

section Steps

variable {code : Code machine} {first : χ × Memory} {count : Nat} {globals : Globals}
  {kernel : Traced χ} {armed : Addr → Bool} {continues : Dbg (Traced χ) Unit}

theorem Globals.unchanged (silent : globals.gSignum = 0) :
    { globals with gSignum := 0 } = globals := by
  rw [← silent]

theorem ends_waitStop {κ : Type} {host : Host κ} {kernel after : κ} {step : Bool}
    {wstatus : WStatus} {stopsig : BitVec 8} {outcome : Outcome MyException (Globals × κ) AfterStop}
    (returned : host.waitpid kernel = .status wstatus after)
    (status : wstatus.wstopsig = some stopsig)
    (handled : Ends (handleStop host step stopsig) globals after outcome) :
    Ends (waitStop host step) globals kernel outcome := by
  refine (ends_myWait returned).bind ?_
  rw [status]
  exact handled

theorem ends_waitStop_exited {κ : Type} {host : Host κ} {kernel after : κ} (step : Bool)
    {status : BitVec 8} (returned : host.waitpid kernel = .status (.exited status) after) :
    Ends (waitStop host step) globals kernel
      (.ok (.returns false) ({ globals with gQuit := true }, after)) :=
  (ends_myWait returned).bind ((ends_note _).bind ((ends_modifyGlobals _).bind (.pure _)))

theorem ends_waitProgram {κ : Type} {host : Host κ} {kernel : κ} {continues : Dbg κ Unit}
    {step result : Bool} {after : Globals × κ}
    (stops : Ends (waitStop host step) globals kernel (.ok (.returns result) after)) :
    Ends (waitProgram host continues step) globals kernel (.ok result after) :=
  stops.bind (.pure _)

/-- The trap of a finished single step. -/
theorem ends_stepTrap {κ : Type} {host : Host κ} {kernel : κ} :
    Ends (handleStop host true 5) globals kernel
      (.ok (.returns true) ({ globals with gSignum := 0 }, kernel)) := by
  refine (ends_modifyGlobals _).bind (ends_getGlobals.bind ?_)
  rw [if_pos
    (show (true && ((5 &&& 0x7F : BitVec 8).setWidth 64 : Word) == sigtrap) = true by decide)]
  exact (ends_modifyGlobals _).bind (.pure _)

/-- A single step away from the armed addresses. -/
theorem ends_stepOnce (runs : code.Runs first) (at' : At machine first armed count kernel)
    (within : ∀ addr, armed addr = true → addr ∈ code.starts)
    (clear : armed (machine.rip kernel.cpu) = false) (stopped : kernel.life = .stopped)
    (silent : globals.gSignum = 0) :
    (∃ after, Ends (stepOnce (machine.host budget) continues) globals kernel
        (.ok true (globals, after)) ∧ after.life = .stopped ∧
          At machine first armed (count + 1) after) ∨
      ∃ after, Ends (stepOnce (machine.host budget) continues) globals kernel
        (.ok false ({ globals with gQuit := true }, after)) ∧
          Over machine first (count + 1) after := by
  have resumed : (machine.host budget).ptrace (.singlestep globals.gSignum) kernel =
      (some ⟨0, machine.regs kernel.cpu⟩, { kernel with life := .running true 0 }) := by
    simp only [Machine.host, stopped, silent]
  have step {outcome : Outcome MyException (Globals × Traced χ) Bool}
      (waits : Ends (waitProgram (machine.host budget) continues true) globals
        { kernel with life := .running true 0 } outcome) :
      Ends (stepOnce (machine.host budget) continues) globals kernel outcome := by
    refine ends_getGlobals.bind ((ends_myPtrace resumed).bind ((ends_modifyGlobals _).bind ?_))
    rw [Globals.unchanged silent]
    exact waits
  have running : At machine first armed count { kernel with life := .running true 0 } :=
    ⟨at'.alive, at'.retired⟩
  rcases tick_plain runs within running clear with
    ⟨after, ticked, _, later⟩ | ⟨status, after, ticked, past⟩
  · left
    have returned : (machine.host budget).waitpid { kernel with life := .running true 0 } =
        .status .plainTrap { after with life := .stopped } := by
      simp only [Machine.host, Machine.wait, ticked]
      rfl
    refine ⟨{ after with life := .stopped }, step (ends_waitProgram ?_), rfl,
      ⟨later.alive, later.retired⟩⟩
    have trap : Ends (waitStop (machine.host budget) true) globals
        { kernel with life := .running true 0 } _ := ends_waitStop returned rfl ends_stepTrap
    rwa [Globals.unchanged silent] at trap
  · right
    have returned : (machine.host budget).waitpid { kernel with life := .running true 0 } =
        .status (.exited status) after := by
      simp only [Machine.host, Machine.wait, ticked]
      rfl
    exact ⟨after, step (ends_waitProgram (ends_waitStop_exited true returned)), past⟩

/-- Memory with one `int3` less. -/
theorem patch_disarmed {breakpoints : List MyBp} {index : Nat} {bp : MyBp} {mem : Memory}
    (table : Table code breakpoints) (found : breakpoints[index]? = some bp)
    (byte : lowByte bp.word = mem bp.addr) :
    Function.update (patch (isBreakpoint breakpoints) mem) bp.addr bp.toggledByte =
      patch (isBreakpoint (breakpoints.set index bp.toggled)) mem := by
  have on := (table.on bp (List.mem_of_getElem? found)).1
  funext addr
  by_cases same : addr = bp.addr
  · subst same
    simp [patch, table.disarmed found, MyBp.toggledByte, on, byte]
  · simp [patch, table.disarmed found, same]

/-- And with that `int3` again. -/
theorem patch_rearmed {breakpoints : List MyBp} {index : Nat} {bp : MyBp} {mem : Memory}
    (table : Table code breakpoints) (found : breakpoints[index]? = some bp) :
    Function.update (patch (isBreakpoint (breakpoints.set index bp.toggled)) mem) bp.addr
        bp.toggled.toggledByte = patch (isBreakpoint breakpoints) mem := by
  have member := List.mem_of_getElem? found
  have on := (table.on bp member).1
  funext addr
  by_cases same : addr = bp.addr
  · subst same
    have armed : isBreakpoint breakpoints bp.addr = true :=
      table.armed.mpr (List.mem_map_of_mem member)
    simp [patch, MyBp.toggledByte, on, armed]
  · simp [patch, table.disarmed found, same]

theorem toggled_toggled (bp : MyBp) : bp.toggled.toggled = bp := by
  cases bp
  simp [MyBp.toggled]

theorem Globals.toggled_toggled {index : Nat} {bp : MyBp}
    (found : globals.gBreakpoints[index]? = some bp) :
    (globals.toggled index bp).toggled index bp.toggled = globals := by
  obtain ⟨bound, rfl⟩ := List.getElem?_eq_some_iff.mp found
  simp only [Globals.toggled, MyDbg.toggled_toggled, List.set_set, List.set_getElem_self]

/-- What is left after a single step with nothing to put back. -/
theorem ends_singleStep_clear {result : Bool} {after : Globals × Traced χ}
    (stopped : kernel.life = .stopped)
    (clear : getBreakpoint globals.gBreakpoints (machine.rip kernel.cpu) = none)
    (steps : Ends (stepOnce (machine.host budget) continues) globals kernel (.ok result after)) :
    Ends (singleStep (machine.host budget) continues) globals kernel (.ok result after) := by
  refine (ends_getRegister stopped .rip).bind (ends_getGlobals.bind ?_)
  rw [show machine.regs kernel.cpu .rip = machine.rip kernel.cpu from rfl, clear]
  exact Evaluates.bind (.pure ()) (steps.bind (Evaluates.bind (.pure ()) (.pure result)))

/-- A single step over a breakpoint: `steps` without it, `restores` puts it back. -/
theorem ends_singleStep_armed {index : Nat} {bp : MyBp}
    {outcome : Outcome MyException (Globals × Traced χ) Bool} {result : Bool}
    {middle : Globals × Traced χ} (stopped : kernel.life = .stopped)
    (first : getBreakpoint globals.gBreakpoints (machine.rip kernel.cpu) = some index)
    (found : globals.gBreakpoints[index]? = some bp) (persistent : bp.isTemp = false)
    (steps : Ends (stepOnce (machine.host budget) continues)
      (globals.toggled index bp)
      { kernel with mem := Function.update kernel.mem bp.addr bp.toggledByte } (.ok result middle))
    (restores : Evaluates State.live
      (do toggleBreakpoint (machine.host budget) index; return result) middle outcome) :
    Ends (singleStep (machine.host budget) continues) globals kernel outcome := by
  refine (ends_getRegister stopped .rip).bind (ends_getGlobals.bind ?_)
  rw [show machine.regs kernel.cpu .rip = machine.rip kernel.cpu from rfl, first]
  exact (ends_toggle stopped found persistent).bind (steps.bind restores)

/-- The tracee with the breakpoint at RIP toggled off. -/
theorem Halted.disarmed {index : Nat} {bp : MyBp} (runs : code.Runs first)
    (halted : Halted code first count globals kernel)
    (found : globals.gBreakpoints[index]? = some bp) :
    At machine first (isBreakpoint (globals.gBreakpoints.set index bp.toggled)) count
      { kernel with mem := Function.update kernel.mem bp.addr bp.toggledByte } := by
  obtain ⟨mem, alive, patched⟩ := halted.at'.alive
  have placed := halted.table.placed bp (List.mem_of_getElem? found)
  have byte : lowByte bp.word = mem bp.addr := by
    rw [placed.2, plain_code runs alive _ (code.start_mem placed.1)]
  refine ⟨⟨mem, alive, ?_⟩, halted.at'.retired⟩
  rw [patched]
  exact patch_disarmed halted.table found byte

/-- A single step retires one instruction. After the last one, putting a
breakpoint back fails. -/
theorem ends_singleStep (runs : code.Runs first) (halted : Halted code first count globals kernel) :
    (∃ after, Ends (singleStep (machine.host budget) continues) globals kernel
        (.ok true (globals, after)) ∧ Halted code first (count + 1) globals after) ∨
      ∃ last after, Finished machine first (count + 1) last after ∧
        (Ends (singleStep (machine.host budget) continues) globals kernel
            (.ok false (last, after)) ∨
          Ends (singleStep (machine.host budget) continues) globals kernel
            (.throw .ptraceException (last, after))) := by
  have table := halted.table
  have stopped := halted.stopped
  cases here : getBreakpoint globals.gBreakpoints (machine.rip kernel.cpu) with
  | none =>
      have clear : isBreakpoint globals.gBreakpoints (machine.rip kernel.cpu) = false := by
        rw [isBreakpoint, here]
        rfl
      rcases ends_stepOnce runs halted.at' table.within clear stopped halted.silent with
        ⟨after, steps, life, later⟩ | ⟨after, steps, past⟩
      · left
        exact ⟨after, ends_singleStep_clear stopped here steps, table, halted.untraced,
          halted.silent, halted.goes, life, later⟩
      · right
        exact ⟨_, after, ⟨past, rfl⟩, .inl (ends_singleStep_clear stopped here steps)⟩
  | some index =>
      obtain ⟨bp, found, address⟩ := table.found here
      have persistent := table.isTemp (List.mem_of_getElem? found)
      have bound := (List.getElem?_eq_some_iff.mp found).1
      have within (addr : Addr)
          (armed : isBreakpoint (globals.gBreakpoints.set index bp.toggled) addr = true) :
          addr ∈ code.starts := by
        rw [table.disarmed found, Bool.and_eq_true] at armed
        exact table.within addr armed.1
      have clear : isBreakpoint (globals.gBreakpoints.set index bp.toggled)
          (machine.rip kernel.cpu) = false := by
        rw [table.disarmed found, address, bne_self_eq_false, Bool.and_false]
      have still : (globals.toggled index bp).gBreakpoints[index]? = some bp.toggled := by
        simp [Globals.toggled, bound]
      have silent : (globals.toggled index bp).gSignum = 0 := halted.silent
      rcases ends_stepOnce runs (halted.disarmed runs found) within clear stopped silent with
        ⟨after, steps, life, later⟩ | ⟨after, steps, past⟩
      · left
        have restores : Ends (toggleBreakpoint (machine.host budget) index)
            (globals.toggled index bp) after _ := ends_toggle life still persistent
        rw [Globals.toggled_toggled found] at restores
        obtain ⟨mem, alive, patched⟩ := later.alive
        refine ⟨_, ends_singleStep_armed stopped here found persistent steps
          (restores.bind (.pure true)), table, halted.untraced, halted.silent, halted.goes, life,
          ⟨mem, alive, ?_⟩, later.retired⟩
        rw [patched]
        exact patch_rearmed table found
      · right
        have fails : Ends (toggleBreakpoint (machine.host budget) index)
            { globals.toggled index bp with gQuit := true } after _ :=
          ends_toggle_gone past.gone still persistent
        exact ⟨_, after, ⟨past, rfl⟩,
          .inr (ends_singleStep_armed stopped here found persistent steps fails.bind_throw)⟩

/-! ## Continuing -/

theorem ends_hitBreakpoint (globals : Globals) {index : Nat} {bp : MyBp}
    (stopped : kernel.life = .stopped)
    (found : globals.gBreakpoints[index]? = some bp) (persistent : bp.isTemp = false)
    (shown : bp.isInternal = false) (trap : globals.gSignum = sigtrap) (addr : Addr) :
    Ends (hitBreakpoint (machine.host budget) index addr) globals kernel
      (.ok () ({ globals with gSignum := 0 },
        { kernel with cpu := machine.jump addr kernel.cpu })) := by
  refine (ends_breakpointAt found).bind ?_
  rw [persistent, shown]
  refine Evaluates.bind (.pure ()) ((ends_note _).bind ((ends_setRip stopped addr).bind ?_))
  have cleared : Ends (modifyGlobals fun globals =>
      if globals.gSignum = sigtrap then { globals with gSignum := 0 } else globals) globals
        { kernel with cpu := machine.jump addr kernel.cpu } _ := ends_modifyGlobals _
  rwa [if_pos trap] at cleared

/-- The trap of an `int3` of the debugger's: RIP goes back to the breakpoint. -/
theorem ends_trap (table : Table code globals.gBreakpoints) (silent : globals.gSignum = 0)
    (armed : isBreakpoint globals.gBreakpoints (machine.rip kernel.cpu) = true) :
    Ends (handleStop (machine.host budget) false 5) globals
      { kernel with cpu := machine.jump (machine.rip kernel.cpu + 1) kernel.cpu, life := .stopped }
      (.ok (.returns false) (globals, { kernel with life := .stopped })) := by
  obtain ⟨index, first⟩ := Option.isSome_iff_exists.mp armed
  obtain ⟨bp, found, address⟩ := table.found first
  have member := List.mem_of_getElem? found
  have back : machine.regs (machine.jump (machine.rip kernel.cpu + 1) kernel.cpu) .rip - 1 =
      machine.rip kernel.cpu := by
    change machine.rip _ - 1 = _
    rw [machine.rip_jump, BitVec.add_sub_cancel]
  have hits : Ends (hitBreakpoint (machine.host budget) index (machine.rip kernel.cpu))
      { globals with gSignum := sigtrap } { kernel with
        cpu := machine.jump (machine.rip kernel.cpu + 1) kernel.cpu, life := .stopped } _ :=
    ends_hitBreakpoint { globals with gSignum := sigtrap } rfl found (table.isTemp member)
      (table.isInternal member) rfl _
  rw [machine.jump_back] at hits
  have reports : Ends reportSignal globals { kernel with life := .stopped }
      (.ok (.returns false) (globals, { kernel with life := .stopped })) := by
    refine ends_getGlobals.bind ?_
    rw [silent]
    exact Evaluates.bind (.pure ()) (.pure _)
  refine (ends_modifyGlobals _).bind (ends_getGlobals.bind ?_)
  rw [Bool.false_and, if_neg Bool.false_ne_true]
  refine (ends_getRegister rfl .rip).bind (ends_getGlobals.bind ?_)
  simp only [back, first]
  refine hits.bind ?_
  rw [Globals.unchanged silent, finishStop, if_neg (by decide)]
  exact reports

/-- A continuation stops after `last` instructions: at the first breakpoint
reached after at least one of them, or because the program has ended. -/
structure Stops (machine : Machine χ) (first : χ × Memory) (armed : Addr → Bool)
    (count last : Nat) : Prop where
  later : count < last
  passes : ∀ passed, count < passed → passed < last → RunsOn machine first armed passed
  stops : ¬ RunsOn machine first armed last

/-- Where a command leaves the debugger, having retired `count` instructions in all. -/
def Stands (code : Code machine) (first : χ × Memory) (breakpoints : List MyBp) (count : Nat)
    (globals : Globals) (kernel : Traced χ) : Prop :=
  (Halted code first count globals kernel ∧ globals.gBreakpoints = breakpoints) ∨
    Finished machine first count globals kernel

theorem Over.stops (past : Over machine first count kernel) :
    ¬ RunsOn machine first armed count := by
  rintro ⟨cpu, mem, alive, _⟩
  rw [past.ended] at alive
  cases alive

theorem At.stops (at' : At machine first armed count kernel)
    (isArmed : armed (machine.rip kernel.cpu) = true) : ¬ RunsOn machine first armed count := by
  rintro ⟨cpu, mem, alive, clear⟩
  obtain ⟨_, same, _⟩ := at'.alive
  obtain ⟨rfl, rfl⟩ := Prod.mk.inj (Option.some.inj (alive.symm.trans same))
  rw [isArmed] at clear
  cases clear

/-- What `program` does from here: it comes back, by an exception only after the
program has ended, or it never comes back, for the reason given. -/
def Comes (program : Dbg (Traced χ) Unit) (globals : Globals) (kernel : Traced χ)
    (stands : Globals → Traced χ → Prop) (blocked : Prop) : Prop :=
  (∃ last after, stands last after ∧
    (Ends program globals kernel (.ok () (last, after)) ∨
      after.life = .gone ∧ Ends program globals kernel (.throw .ptraceException (last, after)))) ∨
  (blocked ∧ ∃ live, Ends program globals kernel (.noReturn live))

/-- The resumption, from an address with or without a breakpoint. -/
theorem comes_resumeExecution (runs : code.Runs first)
    (halted : Halted code first count globals kernel) :
    Comes (resumeExecution (machine.host budget) continues) globals kernel
      (fun last after => ∃ reached, count ≤ reached ∧
        (∀ passed, count ≤ passed → passed < reached →
          RunsOn machine first (isBreakpoint globals.gBreakpoints) passed) ∧
        ¬ RunsOn machine first (isBreakpoint globals.gBreakpoints) reached ∧
        Stands code first globals.gBreakpoints reached last after)
      (∀ passed, count ≤ passed → passed < count + budget →
        RunsOn machine first (isBreakpoint globals.gBreakpoints) passed) := by
  have stopped := halted.stopped
  have resumed : (machine.host budget).ptrace (.cont globals.gSignum) kernel =
      (some ⟨0, machine.regs kernel.cpu⟩, { kernel with life := .running false 0 }) := by
    simp only [Machine.host, stopped, halted.silent]
  have resume {outcome : Outcome MyException (Globals × Traced χ) Unit}
      (waits : Ends (do let _ ← waitProgram (machine.host budget) continues false; return ())
        globals { kernel with life := .running false 0 } outcome) :
      Ends (resumeExecution (machine.host budget) continues) globals kernel outcome := by
    refine ends_getGlobals.bind ?_
    rw [if_neg (not_not_intro halted.untraced)]
    refine (ends_myPtrace resumed).bind ((ends_modifyGlobals _).bind ?_)
    rw [Globals.unchanged halted.silent]
    exact waits
  have ends := run_ends runs halted.table.within budget
    (⟨halted.at'.alive, halted.at'.retired⟩ : At machine first (isBreakpoint globals.gBreakpoints)
      count { kernel with life := .running false 0 })
  have waited : (machine.host budget).waitpid { kernel with life := .running false 0 } =
      machine.run budget { kernel with life := .running false 0 } := by
    simp only [Machine.host, Machine.wait]
    rfl
  cases result : machine.run budget { kernel with life := .running false 0 } with
  | blocked =>
      rw [result] at ends waited
      exact .inr ⟨ends, _,
        resume ((ends_myWait_blocked waited).bind_noReturn.bind_noReturn.bind_noReturn)⟩
  | failed after => rw [result] at ends; exact ends.elim
  | status wstatus after =>
      rw [result] at ends waited
      obtain ⟨reached, beyond, passes, how⟩ := ends
      rcases how with ⟨hit, at', isArmed, rfl, rfl⟩ | ⟨status, rfl, less, past⟩
      · have trap : Ends (handleStop (machine.host budget) false 5) globals _ _ :=
          ends_trap halted.table halted.silent isArmed
        refine .inl ⟨globals, { hit with life := .stopped }, ⟨reached, beyond, passes,
          at'.stops isArmed, .inl ⟨?_, rfl⟩⟩, .inl ?_⟩
        · exact ⟨halted.table, halted.untraced, halted.silent, halted.goes, rfl, at'.alive,
            at'.retired⟩
        · exact resume ((ends_waitProgram (ends_waitStop waited rfl trap)).bind (.pure ()))
      · refine .inl ⟨{ globals with gQuit := true }, after, ⟨reached, beyond, passes, past.stops,
          .inr ⟨past, rfl⟩⟩, .inl ?_⟩
        exact resume ((ends_waitProgram (ends_waitStop_exited false waited)).bind (.pure ()))

/-- What `continue` may do from `count` on. -/
abbrev Continues (machine : Machine χ) (code : Code machine) (first : χ × Memory) (budget : Nat)
    (count : Nat) (program : Dbg (Traced χ) Unit) (globals : Globals) (kernel : Traced χ) : Prop :=
  Comes program globals kernel
    (fun last after => ∃ reached,
      Stops machine first (isBreakpoint globals.gBreakpoints) count reached ∧
        Stands code first globals.gBreakpoints reached last after)
    (∀ passed, count < passed → passed < count + budget →
      RunsOn machine first (isBreakpoint globals.gBreakpoints) passed)

theorem comes_continueExecution (runs : code.Runs first) (depth : Nat)
    (halted : Halted code first count globals kernel) :
    Continues machine code first budget count (continueExecution (machine.host budget) (depth + 1))
      globals kernel := by
  have start {outcome : Outcome MyException (Globals × Traced χ) Unit}
      (rest : Ends (if isBreakpoint globals.gBreakpoints (machine.rip kernel.cpu) then do
          let stepped ← singleStep (machine.host budget)
            (continueExecution (machine.host budget) depth)
          if stepped then
            resumeExecution (machine.host budget) (continueExecution (machine.host budget) depth)
          else return ()
        else resumeExecution (machine.host budget) (continueExecution (machine.host budget) depth))
        globals kernel outcome) :
      Ends (continueExecution (machine.host budget) (depth + 1)) globals kernel outcome :=
    (ends_getRegister halted.stopped .rip).bind (ends_getGlobals.bind rest)
  cases isArmed : isBreakpoint globals.gBreakpoints (machine.rip kernel.cpu) with
  | false =>
      have passes := halted.at'.passes isArmed
      rw [isArmed] at start
      rcases comes_resumeExecution runs halted with
        ⟨last, after, ⟨reached, beyond, passing, stops, stands⟩, how⟩ | ⟨blocked, live, ends⟩
      · have later : count < reached := by
          rcases Nat.eq_or_lt_of_le beyond with rfl | less
          · exact absurd passes stops
          · exact less
        refine .inl ⟨last, after,
          ⟨reached, ⟨later, fun passed above below => ?_, stops⟩, stands⟩, ?_⟩
        · exact passing passed above.le below
        · rcases how with ends | ⟨gone, ends⟩
          · exact .inl (start ends)
          · exact .inr ⟨gone, start ends⟩
      · exact .inr ⟨fun passed above below => blocked passed above.le below, live, start ends⟩
  | true =>
      rw [isArmed] at start
      rcases ends_singleStep runs halted with ⟨after, steps, next⟩ | ⟨last, after, finished, how⟩
      · rcases comes_resumeExecution runs next with
          ⟨last, after, ⟨reached, beyond, passing, stops, stands⟩, how⟩ | ⟨blocked, live, ends⟩
        · refine .inl ⟨last, after,
            ⟨reached, ⟨by omega, fun passed above below => ?_, stops⟩, stands⟩, ?_⟩
          · exact passing passed (by omega) below
          · rcases how with ends | ⟨gone, ends⟩
            · exact .inl (start (steps.bind ends))
            · exact .inr ⟨gone, start (steps.bind ends)⟩
        · exact .inr ⟨fun passed above below => blocked passed (by omega) (by omega), live,
            start (steps.bind ends)⟩
      · refine .inl ⟨last, after, ⟨count + 1, ⟨by omega, fun passed above below => by omega,
          finished.past.stops⟩, .inr finished⟩, ?_⟩
        rcases how with steps | steps
        · exact .inl (start (steps.bind (.pure ())))
        · exact .inr ⟨finished.past.gone, start steps.bind_throw⟩

theorem comes_cmdContinue (runs : code.Runs first) (depth : Nat)
    (halted : Halted code first count globals kernel) :
    Continues machine code first budget count (cmdContinue (machine.host budget) (depth + 1))
      globals kernel := by
  rcases comes_continueExecution runs depth halted with
    ⟨last, after, stands, ends | ⟨gone, ends⟩⟩ | ⟨blocked, live, ends⟩
  · exact .inl ⟨last, after, stands, .inl ((ends_note _).bind ends)⟩
  · exact .inl ⟨last, after, stands, .inr ⟨gone, (ends_note _).bind ends⟩⟩
  · exact .inr ⟨blocked, live, (ends_note _).bind ends⟩

theorem comes_cmdStepInstr (runs : code.Runs first) (depth : Nat)
    (halted : Halted code first count globals kernel) :
    Comes (cmdStepInstr (machine.host budget) depth) globals kernel
      (Stands code first globals.gBreakpoints (count + 1)) False := by
  rcases ends_singleStep runs halted with
    ⟨after, steps, next⟩ | ⟨last, after, finished, steps | steps⟩
  · exact .inl ⟨globals, after, .inl ⟨next, rfl⟩,
      .inl (steps.bind ((ends_getRegister next.stopped .rip).bind (ends_note _)))⟩
  · exact .inl ⟨last, after, .inr finished, .inr ⟨finished.past.gone,
      steps.bind (ends_getRegister_gone finished.past.gone .rip).bind_throw⟩⟩
  · exact .inl ⟨last, after, .inr finished, .inr ⟨finished.past.gone, steps.bind_throw⟩⟩

/-! ## Placing -/

theorem Table.append {breakpoints : List MyBp} {addr : Addr} {word : Word}
    (table : Table code breakpoints) (isStart : addr ∈ code.starts)
    (new : addr ∉ breakpoints.map MyBp.addr) (byte : lowByte word = code.orig addr) :
    Table code (breakpoints ++ [.placed breakpoints addr 0 word]) := by
  refine ⟨fun bp member => ?_, fun bp member => ?_, fun bp member => ?_, ?_⟩
  · rcases List.mem_append.mp member with old | last
    · exact table.persistent bp old
    · rw [List.mem_singleton.mp last]
      rfl
  · rcases List.mem_append.mp member with old | last
    · exact table.on bp old
    · rw [List.mem_singleton.mp last]
      exact ⟨rfl, rfl⟩
  · rcases List.mem_append.mp member with old | last
    · exact table.placed bp old
    · rw [List.mem_singleton.mp last]
      exact ⟨isStart, byte⟩
  · rw [List.map_append, List.nodup_append]
    refine ⟨table.distinct, by simp, fun old member added last => ?_⟩
    have equal : added = addr := List.mem_singleton.mp last
    rw [equal]
    exact fun same => new (same ▸ member)

/-- Memory with one `int3` more. -/
theorem patch_placed {breakpoints : List MyBp} {addr : Addr} {word : Word} {mem : Memory}
    (table : Table code breakpoints)
    (longer : Table code (breakpoints ++ [.placed breakpoints addr 0 word])) :
    Function.update (patch (isBreakpoint breakpoints) mem) addr 0xCC =
      patch (isBreakpoint (breakpoints ++ [.placed breakpoints addr 0 word])) mem := by
  funext other
  have armed : isBreakpoint (breakpoints ++ [.placed breakpoints addr 0 word]) other = true ↔
      isBreakpoint breakpoints other = true ∨ other = addr := by
    rw [longer.armed, table.armed, List.map_append, List.mem_append, List.map_singleton,
      List.mem_singleton]
    rfl
  by_cases same : other = addr
  · rw [same, Function.update_self, patch, if_pos (same ▸ armed.mpr (.inr same))]
  · have unchanged : isBreakpoint (breakpoints ++ [.placed breakpoints addr 0 word]) other =
        isBreakpoint breakpoints other := by
      rw [Bool.eq_iff_iff, armed]
      simp [same]
    rw [Function.update_of_ne same, patch, patch, unchanged]

theorem comes_cmdBreak (runs : code.Runs first) {addr : Addr}
    (halted : Halted code first count globals kernel) (isStart : addr ∈ code.starts)
    (new : addr ∉ globals.gBreakpoints.map MyBp.addr) :
    Comes (cmdBreak (machine.host budget) addr) globals kernel
      (fun last after => Halted code first count last after ∧
        last.gBreakpoints.map MyBp.addr = globals.gBreakpoints.map MyBp.addr ++ [addr])
      (¬ (globals.gBreakpoints.length + 1) * sizeofMyBp < 2 ^ 63) := by
  have place {outcome : Outcome MyException (Globals × Traced χ) Nat}
      (rest : Ends (appendBreakpoint addr 0 (peek kernel.mem addr)) globals
        { kernel with mem := Function.update kernel.mem addr 0xCC } outcome) :
      Ends (placeBreakpoint (machine.host budget) addr 0) globals kernel outcome := by
    have peeked : (machine.host budget).ptrace (.peekdata addr) kernel =
        (some ⟨peek kernel.mem addr, machine.regs kernel.cpu⟩, kernel) := by
      simp only [Machine.host, halted.stopped]
    have poked : (machine.host budget).ptrace
        (.pokedata addr (withLowByte (peek kernel.mem addr) 0xCC)) kernel =
          (some ⟨0, machine.regs kernel.cpu⟩,
            { kernel with mem := Function.update kernel.mem addr 0xCC }) := by
      simp only [Machine.host, halted.stopped, poke_withLowByte]
      rfl
    exact ends_placeBreakpoint_of (by decide) peeked poked rest
  by_cases fits : (globals.gBreakpoints.length + 1) * sizeofMyBp < 2 ^ 63
  · obtain ⟨mem, alive, patched⟩ := halted.at'.alive
    have byte : lowByte (peek kernel.mem addr) = code.orig addr := by
      have clear : isBreakpoint globals.gBreakpoints addr = false := by
        rw [Bool.eq_false_iff, Ne, halted.table.armed]
        exact new
      rw [lowByte_peek, patched, patch, clear, if_neg Bool.false_ne_true,
        plain_code runs alive _ (code.start_mem isStart)]
    have longer := halted.table.append isStart new byte
    have comes : Ends (cmdBreak (machine.host budget) addr) globals kernel _ :=
      (place (ends_appendBreakpoint fits)).bind (ends_note _)
    refine .inl ⟨_, _, ?_, .inl comes⟩
    refine ⟨⟨longer, halted.untraced, halted.silent, halted.goes, halted.stopped,
      ⟨mem, alive, ?_⟩, halted.at'.retired⟩, ?_⟩
    · exact (congrArg (Function.update · addr 0xCC) patched).trans
        (patch_placed halted.table longer)
    · rw [List.map_append]
      rfl
  · have blocks : Ends (cmdBreak (machine.host budget) addr) globals kernel _ :=
      (place (ends_appendBreakpoint_exhausted fits)).bind_noReturn
    exact .inr ⟨fits, _, blocks⟩

end Steps

/-! ## Sessions -/

/-- The debugger as its user sees it: breakpoints, and how many instructions of
the program have been retired. -/
structure Debugger where
  breakpoints : List Addr
  count : Nat

/-- What the commands are for, in terms of the program alone. -/
inductive Debugger.Step (machine : Machine χ) (first : χ × Memory) :
    Command → Debugger → Debugger → Prop where
  | place {debugger : Debugger} (addr : Addr) :
      Step machine first (.break addr) debugger
        { debugger with breakpoints := debugger.breakpoints ++ [addr] }
  | step {debugger : Debugger} (alive : (machine.plain first debugger.count).isSome) :
      Step machine first .stepInstr debugger { debugger with count := debugger.count + 1 }
  | continue {debugger : Debugger} {last : Nat}
      (alive : (machine.plain first debugger.count).isSome)
      (stops : Stops machine first (fun addr => decide (addr ∈ debugger.breakpoints))
        debugger.count last) :
      Step machine first .continue debugger { debugger with count := last }

/-- A command of the session, while the debugger has not quit. A breakpoint goes
to an instruction start that has none yet. -/
def PersistentPrompt (code : Code machine) (budget : Nat) (line : Line)
    (before after : State (Traced χ)) : Prop :=
  Prompt (machine.host budget) line before after ∧ before.globals.gQuit = false ∧
    match line.command with
    | .break addr =>
        addr ∈ code.starts ∧ addr ∉ before.globals.gBreakpoints.map MyBp.addr
    | .stepInstr => True
    | .continue => True
    | _ => False

/-- The tracee with nothing executed yet. -/
def Traced.start (first : χ × Memory) : Traced χ where
  cpu := first.1
  mem := first.2
  life := .stopped
  retired := []

/-- The state of the debugger and the tracee agrees with the user's. -/
def Agrees (code : Code machine) (first : χ × Memory) (debugger : Debugger)
    (state : State (Traced χ)) : Prop :=
  (Halted code first debugger.count state.globals state.kernel ∧
      state.globals.gBreakpoints.map MyBp.addr = debugger.breakpoints) ∨
    Finished machine first debugger.count state.globals state.kernel

section Sessions

variable {code : Code machine} {first : χ × Memory} {debugger : Debugger}
  {before after : State (Traced χ)} {line : Line}

theorem Comes.wp {program : Dbg (Traced χ) Unit} {stands : Globals → Traced χ → Prop}
    {blocked : Prop} (comes : Comes program before.globals before.kernel stands blocked) :
    wp program ⟨fun _ after => stands after.globals after.kernel,
      fun _ after => stands after.globals after.kernel, fun _ => False,
      fun _ => blocked⟩ before := by
  have seen {outcome : Outcome MyException (Globals × Traced χ) Unit}
      (ends : Ends program before.globals before.kernel outcome) :
      (program before).map State.live = outcome := ends before rfl
  unfold ProgramLogic.wp
  cases result : program before with
  | ok value after =>
      rw [result] at seen
      rcases comes with ⟨globals, kernel, standing, ends | ⟨_, ends⟩⟩ | ⟨_, live, ends⟩
      · obtain ⟨rfl, rfl⟩ := Prod.mk.inj (Outcome.ok.inj (seen ends)).2
        exact standing
      · cases seen ends
      · cases seen ends
  | throw raised after =>
      rw [result] at seen
      rcases comes with ⟨globals, kernel, standing, ends | ⟨_, ends⟩⟩ | ⟨_, live, ends⟩
      · cases seen ends
      · obtain ⟨rfl, rfl⟩ := Prod.mk.inj (Outcome.throw.inj (seen ends)).2
        exact standing
      · cases seen ends
  | fault after =>
      rw [result] at seen
      rcases comes with ⟨globals, kernel, standing, ends | ⟨_, ends⟩⟩ | ⟨_, live, ends⟩ <;>
        cases seen ends
  | noReturn after =>
      rcases comes with ⟨globals, kernel, standing, ends | ⟨_, ends⟩⟩ | ⟨blocked, live, ends⟩
      · rw [result] at seen
        cases seen ends
      · rw [result] at seen
        cases seen ends
      · exact blocked

/-- A command that comes back to the prompt came back as predicted. -/
theorem Comes.prompt {stands : Globals → Traced χ → Prop} {blocked : Prop}
    (prompt : Prompt (machine.host budget) line before after)
    (comes : Comes (exec (machine.host budget) line.depth line.command) before.globals before.kernel
      stands blocked) :
    stands after.globals after.kernel := by
  have proved := comes.wp
  unfold Prompt at prompt
  cases back : line.back with
  | normal =>
      rw [back] at prompt
      exact proved.ok prompt
  | raised raised =>
      rw [back] at prompt
      exact proved.throw prompt

theorem Table.isBreakpoint {breakpoints : List MyBp} (table : Table code breakpoints) :
    isBreakpoint breakpoints = fun addr => decide (addr ∈ breakpoints.map MyBp.addr) := by
  funext addr
  rw [Bool.eq_iff_iff, table.armed, decide_eq_true_iff]

/-- A command does to the debugger and the tracee what it is for. -/
theorem Agrees.step (runs : code.Runs first) (agrees : Agrees code first debugger before)
    (taken : PersistentPrompt code budget line before after) :
    ∃ next, Debugger.Step machine first line.command debugger next ∧
      Agrees code first next after := by
  obtain ⟨prompt, goes, allowed⟩ := taken
  obtain ⟨halted, addresses⟩ | finished := agrees
  swap
  · rw [finished.quits] at goes
    cases goes
  have alive : (machine.plain first debugger.count).isSome := by
    obtain ⟨mem, alive, _⟩ := halted.at'.alive
    rw [alive]
    rfl
  have stands {count : Nat} (standing : Stands code first before.globals.gBreakpoints count
      after.globals after.kernel) :
      Agrees code first { debugger with count := count } after := by
    rcases standing with ⟨later, same⟩ | finished
    · exact .inl ⟨later, same ▸ addresses⟩
    · exact .inr finished
  obtain ⟨command, depth, back⟩ := line
  cases command with
  | «break» addr =>
      have placed := Comes.prompt prompt (comes_cmdBreak runs halted allowed.1 allowed.2)
      exact ⟨_, .place addr, .inl ⟨placed.1, placed.2.trans (addresses ▸ rfl)⟩⟩
  | stepInstr =>
      have stepped := Comes.prompt prompt (comes_cmdStepInstr runs depth halted)
      exact ⟨_, .step alive, stands stepped⟩
  | «continue» =>
      cases depth with
      | zero =>
          unfold Prompt at prompt
          cases back <;> cases prompt
      | succ depth =>
          obtain ⟨reached, stops, standing⟩ :=
            Comes.prompt prompt (comes_cmdContinue runs depth halted)
          rw [halted.table.isBreakpoint, addresses] at stops
          exact ⟨_, .continue alive stops, stands standing⟩
  | tbreak addr => exact allowed.elim
  | breakf addr => exact allowed.elim
  | breakl addr => exact allowed.elim
  | breaks syscall => exact allowed.elim
  | breakDel nb => exact allowed.elim
  | nextInstr => exact allowed.elim
  | finish => exact allowed.elim

/-- What can be seen at a prompt: the instructions retired are those the program
alone retires, and the tracee is where the program alone is after them. -/
def Shows (machine : Machine χ) (first : χ × Memory) (debugger : Debugger)
    (state : State (Traced χ)) : Prop :=
  state.kernel.retired = machine.plainRetired first debugger.count ∧
    match machine.plain first debugger.count with
    | some (cpu, mem) =>
        state.globals.gQuit = false ∧ state.kernel.life = .stopped ∧ state.kernel.cpu = cpu ∧
          state.kernel.mem = patch (fun addr => decide (addr ∈ debugger.breakpoints)) mem
    | none => state.globals.gQuit = true ∧ state.kernel.life = .gone

theorem Agrees.shows (agrees : Agrees code first debugger before) :
    Shows machine first debugger before := by
  rcases agrees with ⟨halted, addresses⟩ | finished
  · obtain ⟨mem, alive, patched⟩ := halted.at'.alive
    refine ⟨halted.at'.retired, ?_⟩
    rw [alive, ← addresses, ← halted.table.isBreakpoint]
    exact ⟨halted.goes, halted.stopped, rfl, patched⟩
  · refine ⟨finished.past.retired, ?_⟩
    rw [finished.past.ended]
    exact ⟨finished.quits, finished.past.gone⟩

/-- A step always comes back. A continuation does unless the program neither
ends nor reaches a breakpoint while the kernel runs it. -/
def Responds (machine : Machine χ) (first : χ × Memory) (budget : Nat) (debugger : Debugger)
    (state : State (Traced χ)) : Prop :=
  ∀ depth,
    wp (exec (machine.host budget) depth .stepInstr)
      ⟨fun _ _ => True, fun _ _ => True, fun _ => False, fun _ => False⟩ state ∧
    wp (exec (machine.host budget) (depth + 1) .continue)
      ⟨fun _ _ => True, fun _ _ => True, fun _ => False,
        fun _ => ∀ passed, debugger.count < passed → passed < debugger.count + budget →
        RunsOn machine first (fun addr => decide (addr ∈ debugger.breakpoints)) passed⟩ state

theorem Agrees.responds (runs : code.Runs first) (agrees : Agrees code first debugger before)
    (goes : before.globals.gQuit = false) : Responds machine first budget debugger before := by
  obtain ⟨halted, addresses⟩ | finished := agrees
  swap
  · rw [finished.quits] at goes
    cases goes
  intro depth
  constructor
  · exact wp_mono (comes_cmdStepInstr runs depth halted).wp
      ⟨fun _ _ _ => trivial, fun _ _ _ => trivial, fun _ fault => fault, fun _ blocked => blocked⟩
  · refine wp_mono (comes_cmdContinue runs depth halted).wp
      ⟨fun _ _ _ => trivial, fun _ _ _ => trivial, fun _ fault => fault, fun _ blocked => ?_⟩
    rwa [halted.table.isBreakpoint, addresses] at blocked

/-- Whatever is placed, stepped and continued, the debugger does what it is for:
with each `step_instr` one instruction more has been retired, each `continue`
stops where the program alone first gets to a breakpoint or ends, and the
instructions retired are the original ones. -/
theorem persistent_transparent (runs : code.Runs first) {lines : List Line}
    {last : State (Traced χ)}
    (session : Run (PersistentPrompt code budget) (State.start (Traced.start first)) lines last) :
    ∃ debugger, Run (Debugger.Step machine first) ⟨[], 0⟩ (lines.map Line.command) debugger ∧
      Shows machine first debugger last ∧
      (last.globals.gQuit = false → Responds machine first budget debugger last) := by
  have refined : ∃ debugger, Run (Debugger.Step machine first) ⟨[], 0⟩ (lines.map Line.command)
      debugger ∧ Agrees code first debugger last := by
    induction session with
    | refl =>
        have table : Table code [] := ⟨nofun, nofun, nofun, List.nodup_nil⟩
        refine ⟨_, .refl, .inl ⟨⟨table, rfl, rfl, rfl, rfl, ⟨first.2, rfl, ?_⟩, rfl⟩, rfl⟩⟩
        funext addr
        rfl
    | tail _ taken inductionHypothesis =>
        obtain ⟨debugger, run, agrees⟩ := inductionHypothesis
        obtain ⟨next, step, later⟩ := agrees.step runs taken
        refine ⟨next, ?_, later⟩
        rw [List.map_append]
        exact run.tail step
  obtain ⟨debugger, run, agrees⟩ := refined
  exact ⟨debugger, run, agrees.shows, agrees.responds runs⟩

end Sessions

/-! ## A program of one-byte instructions -/

/-- `nop` goes on and everything else ends the program. -/
def sled : Machine UserRegs where
  regs := id
  setRegs values _ := values
  exec regs mem :=
    if mem (regs .rip) = 0x90 then .next (Function.update regs .rip (regs .rip + 1)) mem
    else .exit 1
  size _ := 1
  regs_setRegs _ _ := rfl
  setRegs_regs _ := rfl
  setRegs_setRegs _ _ _ := rfl

theorem sled_fetch (regs : UserRegs) (left right : Memory) :
    sled.fetch regs left = sled.fetch regs right ↔ left (regs .rip) = right (regs .rip) := by
  simp [Machine.fetch, Machine.rip, sled, bytesAt]

/-- A memory full of `nop`. -/
def sledCode : Code sled where
  starts := Set.univ
  orig _ := 0x90
  bytes := Set.univ
  mem_bytes addr := ⟨fun _ => ⟨addr, trivial, 0, Nat.one_pos, by simp⟩, fun _ => trivial⟩
  size_pos _ _ := Nat.one_pos
  apart left _ right _ i small j less same := by
    obtain rfl : i = 0 := Nat.lt_one_iff.mp small
    obtain rfl : j = 0 := Nat.lt_one_iff.mp less
    simpa using same
  no_int3 _ _ := by decide
  reads regs left right _ fetched read _ := by
    rw [sled_fetch] at fetched read
    simp [sled, fetched, read, Execution.Agrees]
  writes regs mem after memory _ _ executed := by
    intro addr _
    simp only [sled] at executed
    split at executed
    · cases executed
      rfl
    · cases executed

def sledFirst : UserRegs × Memory := (fun reg => if reg = .rip then 0x10 else 0, fun _ => 0x90)

def persistentLine (line : Line) (before : State (Traced UserRegs)) : Bool :=
  !before.globals.gQuit &&
    match line.command with
    | .break addr => decide (addr ∉ before.globals.gBreakpoints.map MyBp.addr)
    | .stepInstr => true
    | .continue => true
    | _ => false

theorem persistentLine_prompt {budget : Nat} {line : Line} {before after : State (Traced UserRegs)}
    (prompt : Prompt (sled.host budget) line before after)
    (passed : persistentLine line before = true) :
    PersistentPrompt sledCode budget line before after := by
  obtain ⟨command, depth, back⟩ := line
  unfold persistentLine at passed
  rw [Bool.and_eq_true, Bool.not_eq_true'] at passed
  refine ⟨prompt, passed.1, ?_⟩
  cases command with
  | «break» addr => exact ⟨trivial, of_decide_eq_true passed.2⟩
  | stepInstr => trivial
  | «continue» => trivial
  | _ => cases passed.2

/-- Two breakpoints side by side: continue to one, to the other, and step. -/
def adjacentLines : List Line :=
  [⟨.break 0x12, 1, .normal⟩, ⟨.break 0x13, 1, .normal⟩, ⟨.continue, 1, .normal⟩,
    ⟨.continue, 1, .normal⟩, ⟨.stepInstr, 1, .normal⟩]

theorem persistent_transparent_adjacent :
    ∃ last, Session (sled.host 8) (State.start (Traced.start sledFirst)) adjacentLines last ∧
      ∃ debugger, Shows sled sledFirst debugger last := by
  have comes : (replay (sled.host 8) (fun line before _ => persistentLine line before)
      (State.start (Traced.start sledFirst)) adjacentLines).isSome = true := by
    decide +kernel
  obtain ⟨last, replayed⟩ := Option.isSome_iff_exists.mp comes
  have session : Run (PersistentPrompt sledCode 8) (State.start (Traced.start sledFirst))
      adjacentLines last :=
    run_replay (fun _ _ _ prompt passed => persistentLine_prompt prompt passed) replayed
  have runs : sledCode.Runs sledFirst := ⟨fun _ _ => rfl, fun _ _ _ _ => Set.mem_univ _⟩
  obtain ⟨debugger, _, shows, _⟩ := persistent_transparent runs session
  exact ⟨last, session.mono fun _ _ _ taken => taken.1, debugger, shows⟩

end MyDbg
