import MyDbg.Debugger.Parity
import MyDbg.Debugger.Transparency

/-!
Contract: a tracee with system calls and faults, one instruction at a time.

Owns: `Processor`; `Processor.host`, the kernel that runs it under any of the three
resumptions; `Processor.path`, what the tracee does by itself where chosen `int3`
stand for the instructions they replace; and the evaluation of what the debugger
asks of such a kernel.

Does not own: signals from outside, and what any instruction does.
-/

namespace MyDbg

open LittleEndian ProgramLogic Transition

variable {χ : Type}

/-! ## The processor -/

/-- What executing one instruction leads to. A system call stops twice if it is
traced: at its entry, and when it has done its work. -/
inductive Effect (χ : Type) where
  | next (cpu : χ) (mem : Memory)
  | syscall (entered : χ) (work : χ → Memory → χ × Memory)
  | fault (signal : BitVec 7)
  | exit (status : BitVec 8)

/-- `exec` executes the instruction at RIP, which is no `int3`. -/
structure Processor (χ : Type) where
  regs : χ → UserRegs
  setRegs : UserRegs → χ → χ
  exec : χ → Memory → Effect χ
  regs_setRegs : ∀ values cpu, regs (setRegs values cpu) = values

inductive Activity (χ : Type) where
  | stopped
  | entered (work : χ → Memory → χ × Memory)
  | running (by' : Resumption) (data : Word)
  | leaving (work : χ → Memory → χ × Memory) (by' : Resumption) (data : Word)
  | gone

/-- The tracee as the kernel has it. -/
structure Thread (χ : Type) where
  cpu : χ
  mem : Memory
  activity : Activity χ

/-- What a stopped tracee does when it is resumed. -/
def Activity.resumed : Activity χ → Option (Resumption → Word → Activity χ)
  | .stopped => some .running
  | .entered work => some (.leaving work)
  | _ => none

namespace Processor

variable (processor : Processor χ)

def rip (cpu : χ) : Addr := processor.regs cpu .rip

def rsp (cpu : χ) : Word := processor.regs cpu .rsp

def jump (addr : Addr) (cpu : χ) : χ :=
  processor.setRegs (Function.update (processor.regs cpu) .rip addr) cpu

@[simp] theorem regs_jump (addr : Addr) (cpu : χ) :
    processor.regs (processor.jump addr cpu) =
      Function.update (processor.regs cpu) .rip addr :=
  processor.regs_setRegs _ cpu

@[simp] theorem rip_jump (addr : Addr) (cpu : χ) :
    processor.rip (processor.jump addr cpu) = addr := by
  simp [rip]

@[simp] theorem rsp_jump (addr : Addr) (cpu : χ) :
    processor.rsp (processor.jump addr cpu) = processor.rsp cpu := by
  simp [rsp]

/-- Run until something happens, for so many instructions at most. -/
def run (by' : Resumption) : Nat → χ → Memory → WaitResult (Thread χ)
  | 0, _, _ => .blocked
  | budget + 1, cpu, mem =>
      if mem (processor.rip cpu) = 0xCC then
        .status .plainTrap ⟨processor.jump (processor.rip cpu + 1) cpu, mem, .stopped⟩
      else
        match processor.exec cpu mem, by' with
        | .next cpu mem, .singlestep => .status .plainTrap ⟨cpu, mem, .stopped⟩
        | .next cpu mem, by' => run by' budget cpu mem
        | .syscall entered work, .cont =>
            run by' budget (work entered mem).1 (work entered mem).2
        | .syscall entered work, .syscall => .status .syscallStop ⟨entered, mem, .entered work⟩
        | .syscall entered work, .singlestep =>
            .status .plainTrap ⟨(work entered mem).1, (work entered mem).2, .stopped⟩
        | .fault signal, _ => .status (.stopped signal) ⟨cpu, mem, .stopped⟩
        | .exit status, _ => .status (.exited status) ⟨cpu, mem, .gone⟩

/-- A signal passed on kills the tracee. -/
def wait (budget : Nat) (thread : Thread χ) : WaitResult (Thread χ) :=
  match thread.activity with
  | .stopped | .entered _ => .blocked
  | .gone => .failed thread
  | .running by' data =>
      if data ≠ 0 then
        .status (.signaled (data.setWidth 7)) { thread with activity := .gone }
      else
        processor.run by' budget thread.cpu thread.mem
  | .leaving work by' data =>
      if data ≠ 0 then
        .status (.signaled (data.setWidth 7)) { thread with activity := .gone }
      else
        match by', work thread.cpu thread.mem with
        | .cont, (cpu, mem) => processor.run .cont budget cpu mem
        | .syscall, (cpu, mem) => .status .syscallStop ⟨cpu, mem, .stopped⟩
        | .singlestep, (cpu, mem) => .status .plainTrap ⟨cpu, mem, .stopped⟩

/-- The answer to a request while the tracee is stopped. -/
def answer (thread : Thread χ) (resumed : Resumption → Word → Activity χ) :
    Request → Option Reply × Thread χ
  | .peekdata addr => (some ⟨peek thread.mem addr, processor.regs thread.cpu⟩, thread)
  | .pokedata addr data =>
      (some ⟨0, processor.regs thread.cpu⟩, { thread with mem := poke thread.mem addr data })
  | .getregs => (some ⟨0, processor.regs thread.cpu⟩, thread)
  | .setregs regs => (some ⟨0, regs⟩, { thread with cpu := processor.setRegs regs thread.cpu })
  | .cont data =>
      (some ⟨0, processor.regs thread.cpu⟩, { thread with activity := resumed .cont data })
  | .syscall data =>
      (some ⟨0, processor.regs thread.cpu⟩, { thread with activity := resumed .syscall data })
  | .singlestep data =>
      (some ⟨0, processor.regs thread.cpu⟩, { thread with activity := resumed .singlestep data })

/-- The kernel, with a disassembler and an unwinder. -/
def host (budget : Nat) (csDisasm : List Byte → Option CsInsn)
    (unwindCaller : Thread χ → Option Addr) : Host (Thread χ) where
  ptrace request thread :=
    match thread.activity.resumed with
    | some resumed => processor.answer thread resumed request
    | none => (none, thread)
  waitpid := processor.wait budget
  procMem thread addr := some (thread.mem addr)
  csDisasm := csDisasm
  unwindCaller := unwindCaller
  syscallNumbers := []

/-! ## What the tracee does by itself -/

/-- One instruction, unless it faults or is the last. -/
def after (cpu : χ) (mem : Memory) : Option (χ × Memory) :=
  match processor.exec cpu mem with
  | .next cpu mem => some (cpu, mem)
  | .syscall entered work => some (work entered mem)
  | .fault _ => none
  | .exit _ => none

/-- One instruction, where the `int3` at `hidden` stands for one that starts with `byte`. -/
def pass (hidden : Addr) (byte : Byte) (cpu : χ) (mem : Memory) : Option (χ × Memory) :=
  if mem (processor.rip cpu) = 0xCC then
    if processor.rip cpu = hidden ∧ byte ≠ 0xCC then do
      let (cpu, mem) ← processor.after cpu (Function.update mem hidden byte)
      return (cpu, Function.update mem hidden 0xCC)
    else
      none
  else
    processor.after cpu mem

/-- The state after so many instructions. -/
def path (hidden : Addr) (byte : Byte) (first : χ × Memory) : Nat → Option (χ × Memory)
  | 0 => some first
  | count + 1 => do
      let (cpu, mem) ← path hidden byte first count
      processor.pass hidden byte cpu mem

end Processor

/-! ## Evaluating requests -/

section Requests

variable {processor : Processor χ} {budget : Nat} {csDisasm : List Byte → Option CsInsn}
  {unwindCaller : Thread χ → Option Addr} {globals : Globals} {thread : Thread χ}
  {resumed : Resumption → Word → Activity χ} {index : Nat} {bp : MyBp}

theorem host_answers (held : thread.activity.resumed = some resumed) (request : Request) :
    (processor.host budget csDisasm unwindCaller).ptrace request thread =
      processor.answer thread resumed request := by
  simp only [Processor.host, held]

theorem ends_read (held : thread.activity.resumed = some resumed) (reg : MyReg) :
    Ends (getRegister (processor.host budget csDisasm unwindCaller) reg) globals thread
      (.ok (processor.regs thread.cpu reg) (globals, thread)) :=
  ends_getRegister_of (host_answers held .getregs) reg

theorem ends_rewind (held : thread.activity.resumed = some resumed) (addr : Addr) :
    Ends (setRegister (processor.host budget csDisasm unwindCaller) .rip addr) globals thread
      (.ok () (globals, { thread with cpu := processor.jump addr thread.cpu })) :=
  ends_setRegister_of (host_answers held .getregs)
    (host_answers held (.setregs (Function.update (processor.regs thread.cpu) .rip addr)))

theorem ends_switch (held : thread.activity.resumed = some resumed)
    (found : globals.gBreakpoints[index]? = some bp)
    (switches : bp.enabled = true ∨ bp.isTemp = false) :
    Ends (toggleBreakpoint (processor.host budget csDisasm unwindCaller) index) globals thread
      (.ok () (globals.toggled index bp,
        { thread with mem := Function.update thread.mem bp.addr bp.toggledByte })) := by
  have poked : (processor.host budget csDisasm unwindCaller).ptrace
      (.pokedata bp.addr (bp.toggledWord (peek thread.mem bp.addr))) thread =
        (some ⟨0, processor.regs thread.cpu⟩,
          { thread with mem := Function.update thread.mem bp.addr bp.toggledByte }) := by
    rw [host_answers held, Processor.answer, poke_toggledWord]
  exact ends_toggle_of found switches (host_answers held (.peekdata bp.addr)) poked

theorem ends_place (held : thread.activity.resumed = some resumed) {addr : Addr}
    {flags : MyBpFlags} (isCode : flags &&& myBpSyscall = 0)
    (fits : (globals.gBreakpoints.length + 1) * sizeofMyBp < 2 ^ 63) :
    Ends (placeBreakpoint (processor.host budget csDisasm unwindCaller) addr flags) globals thread
      (.ok (globals.gBreakpoints.length + 1) ({ globals with
          gBreakpoints := globals.gBreakpoints ++
            [.placed globals.gBreakpoints addr flags (peek thread.mem addr)] },
        { thread with mem := Function.update thread.mem addr 0xCC })) := by
  have poked : (processor.host budget csDisasm unwindCaller).ptrace
      (.pokedata addr (withLowByte (peek thread.mem addr) 0xCC)) thread =
        (some ⟨0, processor.regs thread.cpu⟩,
          { thread with mem := Function.update thread.mem addr 0xCC }) := by
    rw [host_answers held, Processor.answer, poke_withLowByte]
    rfl
  exact ends_placeBreakpoint_of isCode (host_answers held (.peekdata addr)) poked
    (ends_appendBreakpoint fits)

end Requests

/-! ## Stops -/

section Stops

variable {processor : Processor χ} {budget : Nat} {csDisasm : List Byte → Option CsInsn}
  {unwindCaller : Thread χ → Option Addr} {globals : Globals} {thread : Thread χ}
  {resumed : Resumption → Word → Activity χ} {index : Nat} {bp : MyBp} {cpu : χ} {mem : Memory}

theorem ends_silent {κ : Type} {kernel : κ} (silent : globals.gSignum = 0) :
    Ends reportSignal globals kernel (.ok (.returns false) (globals, kernel)) := by
  refine ends_getGlobals.bind ?_
  rw [silent]
  exact Evaluates.bind (.pure ()) (.pure _)

theorem ends_ownHit (globals : Globals) (found : globals.gBreakpoints[index]? = some bp)
    (enabled : bp.enabled = true) (temp : bp.isTemp = true) (internal : bp.isInternal = true)
    (trap : globals.gSignum = sigtrap) (addr : Addr) :
    Ends (hitBreakpoint (processor.host budget csDisasm unwindCaller) index addr) globals
      ⟨cpu, mem, .stopped⟩ (.ok () ({ globals.toggled index bp with gSignum := 0 },
        ⟨processor.jump addr cpu, Function.update mem bp.addr bp.toggledByte, .stopped⟩)) := by
  refine (ends_breakpointAt found).bind ?_
  rw [temp, internal]
  refine (ends_switch rfl found (.inl enabled)).bind (Evaluates.bind (.pure ()) ?_)
  refine (ends_rewind rfl addr).bind ?_
  have cleared : Ends (modifyGlobals fun globals =>
      if globals.gSignum = sigtrap then { globals with gSignum := 0 } else globals)
        (globals.toggled index bp) (⟨processor.jump addr cpu, Function.update mem bp.addr
          bp.toggledByte, .stopped⟩ : Thread χ) _ := ends_modifyGlobals _
  rwa [if_pos (show (globals.toggled index bp).gSignum = sigtrap from trap)] at cleared

/-- The trap of a temporary breakpoint that is not to be reported: it is switched off,
and RIP goes back to it. -/
theorem ends_ownTrap (hit : getBreakpoint globals.gBreakpoints (processor.rip cpu) = some index)
    (found : globals.gBreakpoints[index]? = some bp) (temp : bp.isTemp = true)
    (internal : bp.isInternal = true) :
    Ends (handleStop (processor.host budget csDisasm unwindCaller) false 5) globals
      ⟨processor.jump (processor.rip cpu + 1) cpu, mem, .stopped⟩
      (.ok (.returns false) ({ globals.toggled index bp with gSignum := 0 },
        ⟨processor.jump (processor.rip cpu) (processor.jump (processor.rip cpu + 1) cpu),
          Function.update mem bp.addr bp.toggledByte, .stopped⟩)) := by
  obtain ⟨other, there, hits, _⟩ := getBreakpoint_eq_some.mp hit
  obtain rfl := Option.some.inj (there.symm.trans found)
  have enabled : other.enabled = true := (MyBp.hits_iff.mp hits).2.1
  refine (ends_modifyGlobals _).bind (ends_getGlobals.bind ?_)
  rw [Bool.false_and, if_neg Bool.false_ne_true]
  refine (ends_read rfl .rip).bind (ends_getGlobals.bind ?_)
  have back : processor.regs (processor.jump (processor.rip cpu + 1) cpu) .rip - 1 =
      processor.rip cpu := by
    rw [Processor.regs_jump, Function.update_self, BitVec.add_sub_cancel]
  simp only [back, hit]
  refine (ends_ownHit { globals with gSignum := sigtrap } found enabled temp internal rfl _).bind ?_
  rw [finishStop, if_neg (by decide)]
  exact ends_silent rfl

/-- A system call that is not watched, away from any breakpoint. -/
theorem ends_passSyscall (thread : Thread χ) (held : thread.activity.resumed = some resumed)
    (away : getBreakpoint globals.gBreakpoints (processor.rip thread.cpu - 1) = none)
    (unwatched : inSyscalls globals.gSyscalls
      ((processor.regs thread.cpu .origRax).setWidth 32) = false) :
    Ends (handleStop (processor.host budget csDisasm unwindCaller) false (5 ||| 0x80)) globals
      thread (.ok .continues ({ globals with
        gSignum := 0, gSyscallEntry := !globals.gSyscallEntry }, thread)) := by
  refine (ends_modifyGlobals _).bind (ends_getGlobals.bind ?_)
  rw [Bool.false_and, if_neg Bool.false_ne_true]
  refine (ends_read held .rip).bind (ends_getGlobals.bind ?_)
  rw [show processor.regs thread.cpu .rip = processor.rip thread.cpu from rfl, away]
  refine Evaluates.bind (.pure ()) ?_
  rw [finishStop, if_pos (by decide)]
  have handled : Ends (handleSyscallStop (processor.host budget csDisasm unwindCaller) false)
      { globals with gSignum := sigtrap } thread (.ok .continues ({ globals with
        gSignum := 0, gSyscallEntry := !globals.gSyscallEntry }, thread)) := by
    refine (ends_modifyGlobals _).bind ((ends_read held .origRax).bind ?_)
    refine (ends_modifyGlobals _).bind (ends_getGlobals.bind ?_)
    rw [unwatched, Bool.false_and, if_neg Bool.false_ne_true]
    exact .pure _
  exact handled.bind (.pure _)

end Stops

/-! ## Runs without a stop -/

/-- A stop in a system call with these registers goes by: no breakpoint is near and the
call is not watched. -/
structure Passable (processor : Processor χ) (globals : Globals) (cpu : χ) : Prop where
  here : getBreakpoint globals.gBreakpoints (processor.rip cpu) = none
  before : getBreakpoint globals.gBreakpoints (processor.rip cpu - 1) = none
  unwatched : inSyscalls globals.gSyscalls ((processor.regs cpu .origRax).setWidth 32) = false

/-- The instruction is no system call, or one whose two stops go by, if they are
asked for. -/
def GoesBy (processor : Processor χ) (globals : Globals) (cpu : χ) (mem : Memory) : Prop :=
  globals.gSyscalls ≠ [] → ∀ entered work, processor.exec cpu mem = .syscall entered work →
    Passable processor globals entered ∧ Passable processor globals (work entered mem).1

/-- So many instructions, of which none is an `int3` or stops the debugger. -/
inductive Goes (processor : Processor χ) (globals : Globals) :
    χ → Memory → Nat → χ × Memory → Prop where
  | refl (cpu : χ) (mem : Memory) : Goes processor globals cpu mem 0 (cpu, mem)
  | step {cpu after : χ} {mem memory : Memory} {count : Nat} {last : χ × Memory} :
      mem (processor.rip cpu) ≠ 0xCC → GoesBy processor globals cpu mem →
      processor.after cpu mem = some (after, memory) →
      Goes processor globals after memory count last →
        Goes processor globals cpu mem (count + 1) last

section Goes

variable {processor : Processor χ} {globals : Globals} {cpu : χ} {mem : Memory} {count : Nat}
  {last : χ × Memory}

/-- The globals matter for their tables only. -/
theorem Goes.congr {other : Globals} (goes : Goes processor globals cpu mem count last)
    (breakpoints : other.gBreakpoints = globals.gBreakpoints)
    (syscalls : other.gSyscalls = globals.gSyscalls) :
    Goes processor other cpu mem count last := by
  induction goes with
  | refl cpu mem => exact .refl cpu mem
  | step clear goesBy executed _ inductionHypothesis =>
      refine .step clear ?_ executed inductionHypothesis
      have passable {cpu : χ} (passable : Passable processor globals cpu) :
          Passable processor other cpu := by
        obtain ⟨here, before, unwatched⟩ := passable
        exact ⟨breakpoints ▸ here, breakpoints ▸ before, syscalls ▸ unwatched⟩
      intro asked entered work isSyscall
      obtain ⟨entry, exit'⟩ := goesBy (syscalls ▸ asked) entered work isSyscall
      exact ⟨passable entry, passable exit'⟩

theorem run_trap (processor : Processor χ) (by' : Resumption) (budget : Nat)
    (trap : mem (processor.rip cpu) = 0xCC) :
    processor.run by' (budget + 1) cpu mem =
      .status .plainTrap ⟨processor.jump (processor.rip cpu + 1) cpu, mem, .stopped⟩ := by
  unfold Processor.run
  rw [if_pos trap]

/-- What does not stop the tracee is executed on the way. -/
theorem run_after {by' : Resumption} {budget : Nat} {after : χ} {memory : Memory}
    (continues : by' ≠ .singlestep) (clear : mem (processor.rip cpu) ≠ 0xCC)
    (executed : processor.after cpu mem = some (after, memory))
    (untraced : by' = .cont ∨ ∀ entered work, processor.exec cpu mem ≠ .syscall entered work) :
    processor.run by' (budget + 1) cpu mem = processor.run by' budget after memory := by
  unfold Processor.after at executed
  rw [Processor.run.eq_def]
  simp only [if_neg clear]
  cases effect : processor.exec cpu mem with
  | next =>
      simp only [effect, Option.some.injEq, Prod.mk.injEq] at executed
      obtain ⟨rfl, rfl⟩ := executed
      cases by' with
      | singlestep => exact absurd rfl continues
      | cont | syscall => rfl
  | syscall entered work =>
      simp only [effect, Option.some.injEq] at executed
      obtain rfl | other := untraced
      · simp only [executed]
      · exact absurd effect (other entered work)
  | fault | exit => simp [effect] at executed

theorem run_syscall {budget : Nat} {entered : χ} {work : χ → Memory → χ × Memory}
    (clear : mem (processor.rip cpu) ≠ 0xCC)
    (effect : processor.exec cpu mem = .syscall entered work) :
    processor.run .syscall (budget + 1) cpu mem =
      .status .syscallStop ⟨entered, mem, .entered work⟩ := by
  unfold Processor.run
  rw [if_neg clear, effect]

/-- How a run along such instructions up to an `int3` ends. -/
theorem run_goes {by' : Resumption} {budget : Nat} (continues : by' ≠ .singlestep)
    (asked : by' = .syscall → globals.gSyscalls ≠ [])
    (goes : Goes processor globals cpu mem count last) (enough : count < budget)
    (trap : last.2 (processor.rip last.1) = 0xCC) :
    processor.run by' budget cpu mem =
        .status .plainTrap ⟨processor.jump (processor.rip last.1 + 1) last.1, last.2, .stopped⟩ ∨
      by' = .syscall ∧ ∃ entered work memory rest, rest < count ∧
        processor.run by' budget cpu mem =
          .status .syscallStop ⟨entered, memory, .entered work⟩ ∧
        Passable processor globals entered ∧
        Passable processor globals (work entered memory).1 ∧
        Goes processor globals (work entered memory).1 (work entered memory).2 rest last := by
  induction goes generalizing budget with
  | refl cpu mem =>
      left
      obtain ⟨budget, rfl⟩ := Nat.exists_eq_succ_of_ne_zero (Nat.ne_of_gt enough)
      exact run_trap processor by' budget trap
  | @step cpu after mem memory count last clear goesBy executed goes inductionHypothesis =>
      obtain ⟨budget, rfl⟩ := Nat.exists_eq_succ_of_ne_zero (Nat.ne_zero_of_lt enough)
      have less : count < budget := Nat.lt_of_succ_lt_succ enough
      by_cases untraced :
          by' = .cont ∨ ∀ entered work, processor.exec cpu mem ≠ .syscall entered work
      · rw [run_after continues clear executed untraced]
        obtain trapped | ⟨traced, entered, work, memory', rest, fewer, stops⟩ :=
          inductionHypothesis less trap
        · exact .inl trapped
        · exact .inr ⟨traced, entered, work, memory', rest, Nat.lt_succ_of_lt fewer, stops⟩
      · -- the entry of a traced system call
        right
        have traced : by' = .syscall := by
          cases by' with
          | cont => exact absurd (.inl rfl) untraced
          | syscall => rfl
          | singlestep => exact absurd rfl continues
        subst traced
        obtain ⟨entered, work, effect⟩ : ∃ entered work,
            processor.exec cpu mem = .syscall entered work := by
          simpa using untraced
        have worked : work entered mem = (after, memory) := by
          simpa [Processor.after, effect] using executed
        obtain ⟨entry, leaving⟩ := goesBy (asked rfl) entered work effect
        refine ⟨rfl, entered, work, mem, count, Nat.lt_succ_self count,
          run_syscall clear effect, entry, leaving, ?_⟩
        rw [worked]
        exact goes

end Goes

end MyDbg
