import MyDbg.Debugger.Processor

/-!
Contract: `next_instr` over a call.

Owns: that a tracee resumed towards the next `int3` gets there, whatever system
calls it makes on the way; what it means that a tracee stands on a call and that
the call returns; and when `next_instr` comes back in the frame of the caller.

Does not own: calls that do not return.
-/

namespace MyDbg

open LittleEndian ProgramLogic

variable {χ : Type} {processor : Processor χ} {budget : Nat}
  {csDisasm : List Byte → Option CsInsn} {unwindCaller : Thread χ → Option Addr}
  {globals : Globals} {cpu : χ} {mem : Memory}

/-! ## Resuming up to a breakpoint -/

section Resuming

variable {resumed : Resumption → Word → Activity χ} {thread after : Thread χ}
  {last : χ × Memory} {count depth index : Nat} {bp : MyBp}

/-- How `continue_execution` resumes the tracee. -/
def Globals.resumption (globals : Globals) : Resumption :=
  if globals.gSyscalls ≠ [] then .syscall else .cont

theorem Globals.resumption_continues (globals : Globals) :
    globals.resumption ≠ .singlestep := by
  unfold Globals.resumption
  split <;> simp

theorem Globals.resumption_asks (traced : globals.resumption = .syscall) :
    globals.gSyscalls ≠ [] := by
  unfold Globals.resumption at traced
  split at traced
  · assumption
  · cases traced

/-- The tracee is resumed without a signal. -/
theorem ends_resumed (held : thread.activity.resumed = some resumed)
    (silent : globals.gSignum = 0) {continues : Dbg (Thread χ) Unit} {result : Bool}
    {outcome : Globals × Thread χ}
    (waits : Ends (waitProgram (processor.host budget csDisasm unwindCaller) continues false)
      globals { thread with activity := resumed globals.resumption 0 } (.ok result outcome)) :
    Ends (resumeExecution (processor.host budget csDisasm unwindCaller) continues) globals thread
      (.ok () outcome) := by
  have accepted : (processor.host budget csDisasm unwindCaller).ptrace
      (if globals.gSyscalls ≠ [] then .syscall globals.gSignum else .cont globals.gSignum)
        thread = (some ⟨0, processor.regs thread.cpu⟩,
          { thread with activity := resumed globals.resumption 0 }) := by
    rw [host_answers held, silent, Globals.resumption]
    split <;> rfl
  refine ends_getGlobals.bind ((ends_myPtrace accepted).bind ((ends_modifyGlobals _).bind ?_))
  rw [Globals.unchanged silent]
  exact waits.bind (.pure _)

/-- Away from the breakpoints the tracee is just resumed. -/
theorem ends_continue (globals : Globals) (thread : Thread χ)
    (held : thread.activity.resumed = some resumed)
    (clear : getBreakpoint globals.gBreakpoints (processor.rip thread.cpu) = none)
    {outcome : Outcome MyException (Globals × Thread χ) Unit}
    (resumes : Ends (resumeExecution (processor.host budget csDisasm unwindCaller)
      (continueExecution (processor.host budget csDisasm unwindCaller) depth)) globals thread
        outcome) :
    Ends (continueExecution (processor.host budget csDisasm unwindCaller) (depth + 1)) globals
      thread outcome := by
  refine (ends_read held .rip).bind (ends_getGlobals.bind ?_)
  have away : isBreakpoint globals.gBreakpoints (processor.regs thread.cpu .rip) = false := by
    simp [isBreakpoint, show getBreakpoint _ (processor.regs thread.cpu .rip) = none from clear]
  rw [away, if_neg Bool.false_ne_true]
  exact resumes

/-- A stop in a system call leads straight to the next resumption. -/
theorem ends_pastSyscall (globals : Globals) (thread stopped : Thread χ)
    {next : Resumption → Word → Activity χ}
    (held : thread.activity.resumed = some resumed) (rests : stopped.activity.resumed = some next)
    (silent : globals.gSignum = 0)
    (stops : processor.wait budget { thread with activity := resumed globals.resumption 0 } =
      .status .syscallStop stopped)
    (passable : Passable processor globals stopped.cpu) {outcome : Globals × Thread χ}
    (resumes : Ends (resumeExecution (processor.host budget csDisasm unwindCaller)
      (continueExecution (processor.host budget csDisasm unwindCaller) depth))
        { globals with gSyscallEntry := !globals.gSyscallEntry } stopped (.ok () outcome)) :
    Ends (resumeExecution (processor.host budget csDisasm unwindCaller)
      (continueExecution (processor.host budget csDisasm unwindCaller) (depth + 1))) globals thread
        (.ok () outcome) := by
  have passes : Ends (waitStop (processor.host budget csDisasm unwindCaller) false) globals
      { thread with activity := resumed globals.resumption 0 } _ :=
    ends_waitStop stops rfl (ends_passSyscall stopped rests passable.before passable.unwatched)
  have same : { globals with gSignum := 0, gSyscallEntry := !globals.gSyscallEntry } =
      { globals with gSyscallEntry := !globals.gSyscallEntry } := by
    rw [← silent]
  rw [same] at passes
  have continued := ends_continue { globals with gSyscallEntry := !globals.gSyscallEntry } stopped
    rests passable.here resumes
  have goesOn : Ends (waitProgram (processor.host budget csDisasm unwindCaller)
      (continueExecution (processor.host budget csDisasm unwindCaller) (depth + 1)) false) globals
        { thread with activity := resumed globals.resumption 0 } (.ok false outcome) :=
    passes.bind (continued.bind (.pure false))
  exact ends_resumed held silent goesOn

/-- What is left when the temporary breakpoint at `index` has stopped the tracee. -/
def Globals.sprung (globals : Globals) (index : Nat) (bp : MyBp) (entry : Bool) : Globals :=
  { globals.toggled index bp with gSignum := 0, gSyscallEntry := entry }

/-- Resumed before instructions that stop nothing, the tracee gets to the `int3` after
them, and stays there if it is that of the internal temporary breakpoint. -/
theorem ends_goes (globals : Globals) (depth : Nat)
    (goes : Goes processor globals cpu mem count last)
    (trap : last.2 (processor.rip last.1) = 0xCC) (enough : count < budget)
    (deep : 2 * count ≤ depth) (silent : globals.gSignum = 0)
    (hit : getBreakpoint globals.gBreakpoints (processor.rip last.1) = some index)
    (found : globals.gBreakpoints[index]? = some bp) (temp : bp.isTemp = true)
    (internal : bp.isInternal = true) :
    ∃ entry, Ends (resumeExecution (processor.host budget csDisasm unwindCaller)
      (continueExecution (processor.host budget csDisasm unwindCaller) depth)) globals
      ⟨cpu, mem, .stopped⟩ (.ok () (globals.sprung index bp entry,
        ⟨processor.jump (processor.rip last.1) (processor.jump (processor.rip last.1 + 1) last.1),
          Function.update last.2 bp.addr bp.toggledByte, .stopped⟩)) := by
  induction count using Nat.strong_induction_on generalizing globals cpu mem depth with
  | h count inductionHypothesis =>
      have held : (Activity.stopped : Activity χ).resumed = some .running := rfl
      have waits (by' : Resumption) : processor.wait budget ⟨cpu, mem, .running by' 0⟩ =
          processor.run by' budget cpu mem := rfl
      rcases run_goes globals.resumption_continues globals.resumption_asks goes enough trap with
        trapped | ⟨traced, entered, work, memory, rest, fewer, stops, entry, leaving, goes⟩
      · have waited : Ends (waitStop (processor.host budget csDisasm unwindCaller) false) globals
            ⟨cpu, mem, .running globals.resumption 0⟩ _ :=
          ends_waitStop ((waits _).trans trapped) (rfl : WStatus.plainTrap.wstopsig = some 5)
            (ends_ownTrap hit found temp internal)
        exact ⟨globals.gSyscallEntry, ends_resumed held silent (ends_waitProgram waited)⟩
      · -- two stops: the system call is entered and left
        obtain ⟨depth, rfl⟩ : ∃ less, depth = less + 1 + 1 := ⟨depth - 2, by omega⟩
        obtain ⟨last, resumes⟩ := inductionHypothesis rest fewer
          { globals with gSyscallEntry := !!globals.gSyscallEntry } depth
          (goes.congr rfl rfl) (by omega) (by omega) silent hit found
        have entering : processor.wait budget ⟨cpu, mem, .running globals.resumption 0⟩ =
            .status .syscallStop ⟨entered, memory, .entered work⟩ := (waits _).trans stops
        have leaves : processor.wait budget ⟨entered, memory, .leaving work globals.resumption 0⟩ =
            .status .syscallStop ⟨(work entered memory).1, (work entered memory).2, .stopped⟩ := by
          rw [traced]
          rfl
        have left := ends_pastSyscall { globals with gSyscallEntry := !globals.gSyscallEntry }
          ⟨entered, memory, .entered work⟩ ⟨_, _, .stopped⟩ rfl held silent leaves
          ⟨leaving.here, leaving.before, leaving.unwatched⟩ resumes
        exact ⟨last, ends_pastSyscall globals ⟨cpu, mem, .stopped⟩ ⟨_, _, .entered work⟩ held rfl
          silent entering entry left⟩

end Resuming

/-! ## The instruction at RIP -/

/-- So many bytes from `addr` on. -/
def codeAt (mem : Memory) (addr : Addr) : Nat → List Byte
  | 0 => []
  | size + 1 => mem addr :: codeAt mem (addr + 1) size

theorem readBytes_codeAt (mem : Memory) (addr : Addr) (size : Nat) :
    readBytes (fun addr => some (mem addr)) addr size = some (codeAt mem addr size) := by
  induction size generalizing addr with
  | zero => rfl
  | succ size inductionHypothesis =>
      rw [readBytes, inductionHypothesis]
      rfl

/-- The text that `get_instruction` makes of an instruction. -/
def CsInsn.text (insn : CsInsn) : List Char := insn.mnemonic ++ insn.opStr ++ ['\n']

def CsInsn.isCall (insn : CsInsn) : Bool := startsWith insn.text ['c', 'a', 'l', 'l']

/-- What is to be executed at `addr`: the `int3` of a breakpoint there stands for
another byte. -/
def uncovered (breakpoints : List MyBp) (mem : Memory) (addr : Addr) : Memory :=
  match getBreakpoint breakpoints addr >>= (breakpoints[·]?) with
  | some bp => Function.update mem bp.addr bp.toggledByte
  | none => mem

section Instruction

variable {thread : Thread χ} {resumed next : Resumption → Word → Activity χ} {insn : CsInsn}
  {index : Nat} {bp : MyBp} {addr : Addr}

theorem uncovered_none (clear : getBreakpoint globals.gBreakpoints addr = none) :
    uncovered globals.gBreakpoints mem addr = mem := by
  simp [uncovered, clear]

theorem uncovered_some (hit : getBreakpoint globals.gBreakpoints addr = some index)
    (found : globals.gBreakpoints[index]? = some bp) :
    uncovered globals.gBreakpoints mem addr = Function.update mem bp.addr bp.toggledByte := by
  simp [uncovered, hit, found]

theorem ends_readMemory (addr : Addr) (size : Nat) :
    Ends (readMemory (processor.host budget csDisasm unwindCaller) addr size) globals thread
      (.ok (codeAt thread.mem addr size) (globals, thread)) := by
  intro state seen
  have kernel : state.kernel = thread := congrArg Prod.snd seen
  simp only [readMemory, Processor.host, readBytes_codeAt, kernel]
  rw [← seen]
  rfl

theorem ends_getInstruction {addr : Addr}
    (decoded : csDisasm (codeAt thread.mem addr 16) = some insn) :
    Ends (getInstruction (processor.host budget csDisasm unwindCaller) addr) globals thread
      (.ok ⟨insn.text, insn.size⟩ (globals, thread)) := by
  refine (ends_readMemory addr 16).bind ?_
  simp only [Processor.host, decoded]
  exact .pure _

theorem ends_getInstruction_none {addr : Addr}
    (undecoded : csDisasm (codeAt thread.mem addr 16) = none) :
    Ends (getInstruction (processor.host budget csDisasm unwindCaller) addr) globals thread
      (.throw .disasmException (globals, thread)) := by
  refine (ends_readMemory addr 16).bind ?_
  simp only [Processor.host, undecoded]
  exact .throw _

/-- `next_instr`, but for how it runs the tracee. -/
theorem ends_nextInstr {depth : Nat} {after : Globals × Thread χ}
    (held : thread.activity.resumed = some resumed)
    (decoded : csDisasm (codeAt thread.mem (processor.rip thread.cpu) 16) = some insn)
    (runs : Ends (runNext (processor.host budget csDisasm unwindCaller) depth insn.isCall
      (processor.rip thread.cpu + BitVec.ofNat 64 insn.size)) globals thread (.ok () after))
    (rests : after.2.activity.resumed = some next) :
    Ends (cmdNextInstr (processor.host budget csDisasm unwindCaller) depth) globals thread
      (.ok () after) := by
  have current : Ends (getCurrentInstruction (processor.host budget csDisasm unwindCaller)) globals
      thread (.ok ⟨insn.text, insn.size⟩ (globals, thread)) :=
    (ends_read held .rip).bind (ends_getInstruction decoded)
  refine (ends_read held .rip).bind (current.bind (runs.bind (ends_getGlobals.bind ?_)))
  split
  · exact .pure ()
  · exact (ends_read rests .rip).bind (ends_note _)

theorem ends_nextInstr_undecoded {depth : Nat} (held : thread.activity.resumed = some resumed)
    (undecoded : csDisasm (codeAt thread.mem (processor.rip thread.cpu) 16) = none) :
    Ends (cmdNextInstr (processor.host budget csDisasm unwindCaller) depth) globals thread
      (.throw .disasmException (globals, thread)) := by
  have current : Ends (getCurrentInstruction (processor.host budget csDisasm unwindCaller)) globals
      thread (.throw .disasmException (globals, thread)) :=
    (ends_read held .rip).bind (ends_getInstruction_none undecoded)
  exact (ends_read held .rip).bind current.bind_throw

end Instruction

/-! ## Running to the instruction after a call -/

/-- The breakpoint that `next_instr` places after a call. -/
def Globals.awaited (globals : Globals) (addr : Addr) (word : Word) : MyBp :=
  .placed globals.gBreakpoints addr (myBpTemp ||| myBpInternal) word

def Globals.awaiting (globals : Globals) (addr : Addr) (word : Word) : Globals :=
  { globals with gBreakpoints := globals.gBreakpoints ++ [globals.awaited addr word] }

section Awaiting

variable {addr other : Addr} {word : Word} {last : χ × Memory} {count depth : Nat}

theorem awaiting_found : (globals.awaiting addr word).gBreakpoints[globals.gBreakpoints.length]? =
    some (globals.awaited addr word) := by
  simp [Globals.awaiting]

theorem awaited_temp : (globals.awaited addr word).isTemp = true := by
  simp [Globals.awaited, MyBp.placed, MyBp.isTemp, myBpTemp, myBpInternal]

theorem awaited_internal : (globals.awaited addr word).isInternal = true := by
  simp [Globals.awaited, MyBp.placed, MyBp.isInternal, myBpTemp, myBpInternal]

theorem awaited_hits : (globals.awaited addr word).hits other = (addr == other) := by
  simp [Globals.awaited, MyBp.hits, MyBp.placed, MyBp.isSyscall, myBpTemp, myBpInternal,
    myBpSyscall]

theorem awaiting_hit (free : getBreakpoint globals.gBreakpoints addr = none) :
    getBreakpoint (globals.awaiting addr word).gBreakpoints addr =
      some globals.gBreakpoints.length := by
  rw [Globals.awaiting, getBreakpoint_append, free, awaited_hits, beq_self_eq_true]
  rfl

theorem awaiting_elsewhere (apart : addr ≠ other) :
    getBreakpoint (globals.awaiting addr word).gBreakpoints other =
      getBreakpoint globals.gBreakpoints other := by
  rw [Globals.awaiting, getBreakpoint_append, awaited_hits, beq_false_of_ne apart]
  simp

/-- The `int3` after the call is the next stop, in whatever frame it is met. -/
theorem ends_runOver (csDisasm : List Byte → Option CsInsn)
    (unwindCaller : Thread χ → Option Addr)
    (clear : getBreakpoint globals.gBreakpoints (processor.rip cpu) = none)
    (free : getBreakpoint globals.gBreakpoints addr = none) (apart : addr ≠ processor.rip cpu)
    (fits : (globals.gBreakpoints.length + 1) * sizeofMyBp < 2 ^ 63)
    (goes : Goes processor (globals.awaiting addr (peek mem addr)) cpu
      (Function.update mem addr 0xCC) count last)
    (there : processor.rip last.1 = addr) (trap : last.2 addr = 0xCC) (enough : count < budget)
    (deep : 2 * count < depth) (silent : globals.gSignum = 0) :
    ∃ after, Ends (runNext (processor.host budget csDisasm unwindCaller) depth true addr) globals
      ⟨cpu, mem, .stopped⟩ (.ok () after) ∧ after.2.activity = .stopped ∧
        processor.rip after.2.cpu = addr ∧ processor.rsp after.2.cpu = processor.rsp last.1 := by
  obtain ⟨depth, rfl⟩ := Nat.exists_eq_succ_of_ne_zero (Nat.ne_zero_of_lt deep)
  have placed : Ends (placeBreakpoint (processor.host budget csDisasm unwindCaller) addr
      (myBpTemp ||| myBpInternal)) globals ⟨cpu, mem, .stopped⟩
      (.ok (globals.gBreakpoints.length + 1) (globals.awaiting addr (peek mem addr),
        ⟨cpu, Function.update mem addr 0xCC, .stopped⟩)) := ends_place rfl (by decide) fits
  subst there
  obtain ⟨entry, resumes⟩ := ends_goes (globals.awaiting _ _) depth goes trap enough (by omega)
    silent (awaiting_hit free) awaiting_found awaited_temp awaited_internal
  have continued := ends_continue (globals.awaiting _ _)
    ⟨cpu, Function.update mem (processor.rip last.1) 0xCC, .stopped⟩ rfl
    ((awaiting_elsewhere apart).trans clear) resumes
  exact ⟨_, placed.bind continued, rfl, by simp, by simp⟩

end Awaiting

/-! ## Stepping into a call -/

section Into

variable {called : χ} {memory : Memory} {index : Nat} {bp : MyBp}

/-- One instruction that is no system call. -/
theorem ends_stepNext (continues : Dbg (Thread χ) Unit) (silent : globals.gSignum = 0)
    (clear : mem (processor.rip cpu) ≠ 0xCC)
    (executed : processor.exec cpu mem = .next called memory) (enough : 0 < budget) :
    Ends (stepOnce (processor.host budget csDisasm unwindCaller) continues) globals
      ⟨cpu, mem, .stopped⟩ (.ok true (globals, ⟨called, memory, .stopped⟩)) := by
  obtain ⟨budget, rfl⟩ := Nat.exists_eq_succ_of_ne_zero (Nat.ne_zero_of_lt enough)
  have stops : processor.wait (budget + 1) ⟨cpu, mem, .running .singlestep 0⟩ =
      .status .plainTrap ⟨called, memory, .stopped⟩ := by
    show processor.run .singlestep (budget + 1) cpu mem = _
    unfold Processor.run
    rw [if_neg clear, executed]
  have waited : Ends (waitStop (processor.host (budget + 1) csDisasm unwindCaller) true) globals
      ⟨cpu, mem, .running .singlestep 0⟩ _ :=
    ends_waitStop stops (rfl : WStatus.plainTrap.wstopsig = some 5) ends_stepTrap
  rw [Globals.unchanged silent] at waited
  have accepted : (processor.host (budget + 1) csDisasm unwindCaller).ptrace
      (.singlestep globals.gSignum) ⟨cpu, mem, .stopped⟩ =
        (some ⟨0, processor.regs cpu⟩, ⟨cpu, mem, .running .singlestep 0⟩) := by
    rw [silent]
    rfl
  refine ends_getGlobals.bind ((ends_myPtrace accepted).bind ((ends_modifyGlobals _).bind ?_))
  rw [Globals.unchanged silent]
  exact ends_waitProgram waited

/-- Putting a breakpoint back, or leaving a spent one alone. -/
theorem ends_restore (processor : Processor χ) (budget : Nat)
    (csDisasm : List Byte → Option CsInsn) (unwindCaller : Thread χ → Option Addr) (cpu : χ)
    (mem : Memory) (off : bp.enabled = false)
    (found : globals.gBreakpoints[index]? = some bp) :
    ∃ after, Ends (toggleBreakpoint (processor.host budget csDisasm unwindCaller) index) globals
      ⟨cpu, mem, .stopped⟩ (.ok () after) ∧ after.2.cpu = cpu ∧ after.2.activity = .stopped := by
  cases temp : bp.isTemp with
  | true => exact ⟨_, ends_toggle_spent found off temp, rfl, rfl⟩
  | false => exact ⟨_, ends_switch rfl found (.inr temp), rfl, rfl⟩

/-- A step from a breakpoint executes the instruction it covers. -/
theorem ends_stepInto (csDisasm : List Byte → Option CsInsn)
    (unwindCaller : Thread χ → Option Addr) (depth : Nat) (addr : Addr)
    (hit : getBreakpoint globals.gBreakpoints (processor.rip cpu) = some index)
    (found : globals.gBreakpoints[index]? = some bp) (silent : globals.gSignum = 0)
    (clear : Function.update mem bp.addr bp.toggledByte (processor.rip cpu) ≠ 0xCC)
    (executed : processor.exec cpu (Function.update mem bp.addr bp.toggledByte) =
      .next called memory) (enough : 0 < budget) :
    ∃ after, Ends (runNext (processor.host budget csDisasm unwindCaller) depth false addr) globals
      ⟨cpu, mem, .stopped⟩ (.ok () after) ∧ after.2.cpu = called ∧
        after.2.activity = .stopped := by
  obtain ⟨other, there, hits, _⟩ := getBreakpoint_eq_some.mp hit
  obtain rfl := Option.some.inj (there.symm.trans found)
  have enabled : other.enabled = true := (MyBp.hits_iff.mp hits).2.1
  have stored : (globals.toggled index other).gBreakpoints[index]? = some other.toggled := by
    have inside := (List.getElem?_eq_some_iff.mp found).1
    simp [Globals.toggled, inside]
  obtain ⟨after, restores, same, rests⟩ := ends_restore processor budget csDisasm unwindCaller
    called memory (by simp [enabled]) stored
  have lifts : Ends (toggleBreakpoint (processor.host budget csDisasm unwindCaller) index) globals
      ⟨cpu, mem, .stopped⟩ _ := ends_switch rfl found (.inl enabled)
  have steps : Ends (stepOnce (processor.host budget csDisasm unwindCaller)
      (continueExecution (processor.host budget csDisasm unwindCaller) depth))
      (globals.toggled index other)
      ⟨cpu, Function.update mem other.addr other.toggledByte, .stopped⟩ _ :=
    ends_stepNext _ silent clear executed enough
  refine ⟨after, ?_, same, rests⟩
  have single : Ends (singleStep (processor.host budget csDisasm unwindCaller)
      (continueExecution (processor.host budget csDisasm unwindCaller) depth)) globals
        ⟨cpu, mem, .stopped⟩ (.ok true after) := by
    refine (ends_read rfl .rip).bind (ends_getGlobals.bind ?_)
    rw [show processor.regs _ .rip = processor.rip cpu from rfl, hit]
    exact lifts.bind (steps.bind (restores.bind (.pure true)))
  exact single.bind (.pure ())

end Into

/-! ## A call and its return -/

/-- The tracee has stopped on a call of `size` bytes, which a breakpoint may cover. -/
structure OnCall (processor : Processor χ) (csDisasm : List Byte → Option CsInsn)
    (globals : Globals) (thread : Thread χ) (size : Nat) : Prop where
  stopped : thread.activity = .stopped
  silent : globals.gSignum = 0
  fits : (globals.gBreakpoints.length + 1) * sizeofMyBp < 2 ^ 63
  /-- A breakpoint that is on is in memory. -/
  patched : isBreakpoint globals.gBreakpoints (processor.rip thread.cpu) = true →
    thread.mem (processor.rip thread.cpu) = 0xCC
  decoded : ∃ insn, csDisasm (codeAt (uncovered globals.gBreakpoints thread.mem
    (processor.rip thread.cpu)) (processor.rip thread.cpu) 16) = some insn ∧
      insn.isCall = true ∧ insn.size = size
  small : 0 < size ∧ size ≤ 15
  /-- It pushes the return address. -/
  pushes : ∃ called memory, processor.exec thread.cpu (uncovered globals.gBreakpoints thread.mem
    (processor.rip thread.cpu)) = .next called memory ∧
      processor.rsp called = processor.rsp thread.cpu - 8

/-- The tracee after so many instructions, the first of which is the call; the `int3` at
`next`, where the debugger expects the return, is passed. -/
def callPath (processor : Processor χ) (globals : Globals) (thread : Thread χ) (next : Addr) :
    Nat → Option (χ × Memory) :=
  let mem := uncovered globals.gBreakpoints thread.mem (processor.rip thread.cpu)
  processor.path next (mem next) (thread.cpu, Function.update mem next 0xCC)

/-- The tracee is about to execute the `int3` at `next`. -/
def Meets (processor : Processor χ) (next : Addr) (now : χ × Memory) : Prop :=
  processor.rip now.1 = next ∧ now.2 next = 0xCC

instance (processor : Processor χ) (next : Addr) (now : χ × Memory) :
    Decidable (Meets processor next now) :=
  inferInstanceAs (Decidable (_ ∧ _))

/-- The call returns to `next` after `back` instructions: the stack pointer is then, for
the first time there, what it was before the call. Nothing else stops the tracee before. -/
structure CallReturns (processor : Processor χ) (globals : Globals) (thread : Thread χ)
    (next : Addr) (back : Nat) : Prop where
  free : isBreakpoint globals.gBreakpoints next = false
  quiet : ∀ count < back, ∀ now ∈ callPath processor globals thread next count,
    now.2 (processor.rip now.1) ≠ 0xCC →
      GoesBy processor (globals.awaiting next (peek thread.mem next)) now.1 now.2
  returned : ∃ now ∈ callPath processor globals thread next back, Meets processor next now ∧
    processor.rsp now.1 = processor.rsp thread.cpu
  first : ∀ count < back, ∀ now ∈ callPath processor globals thread next count,
    Meets processor next now → processor.rsp now.1 ≠ processor.rsp thread.cpu

section Paths

variable {first last : χ × Memory} {count back size depth : Nat} {next : Addr} {byte : Byte}
  {thread : Thread χ}

theorem Goes.snoc {after : χ × Memory} (goes : Goes processor globals cpu mem count last)
    (clear : last.2 (processor.rip last.1) ≠ 0xCC) (goesBy : GoesBy processor globals last.1 last.2)
    (executed : processor.after last.1 last.2 = some after) :
    Goes processor globals cpu mem (count + 1) after := by
  induction goes with
  | refl cpu mem => exact .step clear goesBy executed (.refl _ _)
  | step free passes steps _ inductionHypothesis =>
      exact .step free passes steps (inductionHypothesis clear goesBy executed)

/-- Up to the first meeting with the `int3` at `next`, it makes no difference. -/
theorem path_goes (at' : processor.path next byte first count = some last)
    (unmet : ∀ earlier < count, ∀ now ∈ processor.path next byte first earlier,
      ¬ Meets processor next now)
    (quiet : ∀ earlier < count, ∀ now ∈ processor.path next byte first earlier,
      now.2 (processor.rip now.1) ≠ 0xCC → GoesBy processor globals now.1 now.2) :
    Goes processor globals first.1 first.2 count last := by
  induction count generalizing last with
  | zero =>
      obtain rfl := Option.some.inj at'
      exact .refl _ _
  | succ count inductionHypothesis =>
      obtain ⟨previous, there, passed⟩ := Option.bind_eq_some_iff.mp at'
      have goes := inductionHypothesis there (fun earlier less => unmet earlier (by omega))
        (fun earlier less => quiet earlier (by omega))
      have passes : processor.pass next byte previous.1 previous.2 = some last := passed
      unfold Processor.pass at passes
      have clear : previous.2 (processor.rip previous.1) ≠ 0xCC := by
        intro trap
        have elsewhere : ¬ (processor.rip previous.1 = next ∧ byte ≠ 0xCC) := fun at'' =>
          unmet count (by omega) previous there ⟨at''.1, at''.1 ▸ trap⟩
        rw [if_pos trap, if_neg elsewhere] at passes
        cases passes
      rw [if_neg clear] at passes
      exact goes.snoc clear (quiet count (by omega) previous there clear) passes

/-- The first meeting. -/
theorem CallReturns.meeting (returns : CallReturns processor globals thread next back) :
    ∃ count ≤ back, ∃ now ∈ callPath processor globals thread next count,
      Meets processor next now ∧ ∀ earlier < count,
        ∀ now ∈ callPath processor globals thread next earlier, ¬ Meets processor next now := by
  classical
  have met : ∃ count, ∃ now ∈ callPath processor globals thread next count,
      Meets processor next now := by
    obtain ⟨now, at', meets, _⟩ := returns.returned
    exact ⟨back, now, at', meets⟩
  obtain ⟨now, at', meets⟩ := Nat.find_spec met
  refine ⟨Nat.find met, ?_, now, at', meets, fun earlier less now there meets => ?_⟩
  · obtain ⟨now, at', meets, _⟩ := returns.returned
    exact Nat.find_min' met ⟨now, at', meets⟩
  · exact Nat.find_min met less ⟨now, there, meets⟩

/-- Only with its own frame is the first meeting the return. -/
theorem CallReturns.meeting_iff (returns : CallReturns processor globals thread next back)
    {now : χ × Memory} (early : count ≤ back)
    (there : now ∈ callPath processor globals thread next count)
    (meets : Meets processor next now)
    (unmet : ∀ earlier < count, ∀ now ∈ callPath processor globals thread next earlier,
      ¬ Meets processor next now) :
    processor.rsp now.1 = processor.rsp thread.cpu ↔
      ∀ earlier < back, ∀ now ∈ callPath processor globals thread next earlier,
        ¬ Meets processor next now := by
  constructor
  · intro home
    have last : count = back := by
      by_contra other
      exact returns.first count (by omega) now there meets home
    exact last ▸ unmet
  · intro none
    have last : count = back := by
      by_contra other
      exact none count (by omega) now there meets
    subst last
    obtain ⟨final, at', _, home⟩ := returns.returned
    obtain rfl := Option.some.inj (there.symm.trans at')
    exact home

end Paths

/-! ## `next_instr` on a call -/

/-- The address behind the instruction at RIP. -/
def behind (processor : Processor χ) (cpu : χ) (size : Nat) : Addr :=
  processor.rip cpu + BitVec.ofNat 64 size

section OnCall

variable {size back count depth : Nat} {now : χ × Memory}

theorem OnCall.apart (onCall : OnCall processor csDisasm globals ⟨cpu, mem, .stopped⟩ size) :
    behind processor cpu size ≠ processor.rip cpu := by
  obtain ⟨positive, small⟩ := onCall.small
  exact add_ofNat_ne (processor.rip cpu) positive (by omega)

/-- No call starts with the byte of `int3`. -/
theorem OnCall.clear (onCall : OnCall processor csDisasm globals ⟨cpu, mem, .stopped⟩ size)
    (int3 : ∀ bytes insn, csDisasm (0xCC :: bytes) = some insn → insn.isCall = false) :
    uncovered globals.gBreakpoints mem (processor.rip cpu) (processor.rip cpu) ≠ 0xCC := by
  obtain ⟨insn, decoded, call, _⟩ := onCall.decoded
  intro trap
  rw [codeAt, trap] at decoded
  rw [int3 _ insn decoded] at call
  cases call

/-- With no breakpoint on the call, the next stop is the first meeting. -/
theorem OnCall.over (unwindCaller : Thread χ → Option Addr)
    (onCall : OnCall processor csDisasm globals ⟨cpu, mem, .stopped⟩ size)
    (returns : CallReturns processor globals ⟨cpu, mem, .stopped⟩ (behind processor cpu size) back)
    (bare : isBreakpoint globals.gBreakpoints (processor.rip cpu) = false) (early : count ≤ back)
    (there : now ∈ callPath processor globals ⟨cpu, mem, .stopped⟩
      (behind processor cpu size) count)
    (meets : Meets processor (behind processor cpu size) now)
    (unmet : ∀ earlier < count, ∀ now ∈ callPath processor globals ⟨cpu, mem, .stopped⟩
      (behind processor cpu size) earlier, ¬ Meets processor (behind processor cpu size) now)
    (enough : back < budget) (deep : 2 * back < depth) :
    ∃ after, Ends (cmdNextInstr (processor.host budget csDisasm unwindCaller) depth) globals
      ⟨cpu, mem, .stopped⟩ (.ok () after) ∧
        processor.rip after.2.cpu = behind processor cpu size ∧
          processor.rsp after.2.cpu = processor.rsp now.1 := by
  have clear : getBreakpoint globals.gBreakpoints (processor.rip cpu) = none := by
    simpa [isBreakpoint] using bare
  have free : getBreakpoint globals.gBreakpoints (behind processor cpu size) = none := by
    simpa [isBreakpoint] using returns.free
  have apart := onCall.apart
  obtain ⟨insn, decoded, call, rfl⟩ := onCall.decoded
  have same : uncovered globals.gBreakpoints mem (processor.rip cpu) = mem := uncovered_none clear
  rw [same] at decoded
  have goes : Goes processor (globals.awaiting (behind processor cpu insn.size)
      (peek mem (behind processor cpu insn.size))) cpu
        (Function.update mem (behind processor cpu insn.size) 0xCC) count now := by
    unfold callPath at there unmet
    rw [same] at there unmet
    refine path_goes there unmet fun earlier less => ?_
    have quiet := returns.quiet earlier (by omega)
    unfold callPath at quiet
    rwa [same] at quiet
  have fewer : count < budget := by omega
  have deeper : 2 * count < depth := by omega
  obtain ⟨after, runs, rests, home, frame⟩ := ends_runOver csDisasm unwindCaller clear free apart
    onCall.fits goes meets.1 meets.2 fewer deeper onCall.silent
  refine ⟨after, ends_nextInstr rfl decoded ?_ (by rw [rests]; rfl), home, frame⟩
  rw [call]
  exact runs

/-- A breakpoint on the call hides it from the disassembler, and the step goes into the
function called. -/
theorem OnCall.into (unwindCaller : Thread χ → Option Addr) (depth : Nat)
    (onCall : OnCall processor csDisasm globals ⟨cpu, mem, .stopped⟩ size)
    (int3 : ∀ bytes insn, csDisasm (0xCC :: bytes) = some insn → insn.isCall = false)
    (covered : isBreakpoint globals.gBreakpoints (processor.rip cpu) = true)
    (enough : 0 < budget) :
    Ends (cmdNextInstr (processor.host budget csDisasm unwindCaller) depth) globals
        ⟨cpu, mem, .stopped⟩ (.throw .disasmException (globals, ⟨cpu, mem, .stopped⟩)) ∨
      ∃ after, Ends (cmdNextInstr (processor.host budget csDisasm unwindCaller) depth) globals
        ⟨cpu, mem, .stopped⟩ (.ok () after) ∧
          processor.rsp after.2.cpu = processor.rsp cpu - 8 := by
  obtain ⟨index, hit⟩ := Option.isSome_iff_exists.mp covered
  obtain ⟨bp, found, _⟩ := getBreakpoint_eq_some.mp hit
  have lifted : uncovered globals.gBreakpoints mem (processor.rip cpu) =
      Function.update mem bp.addr bp.toggledByte := uncovered_some hit found
  have clear := onCall.clear int3
  obtain ⟨called, memory, executed, pushed⟩ := onCall.pushes
  rw [lifted] at clear executed
  have trap : mem (processor.rip cpu) = 0xCC := onCall.patched covered
  cases decoded : csDisasm (codeAt mem (processor.rip cpu) 16) with
  | none => exact .inl (ends_nextInstr_undecoded rfl decoded)
  | some insn =>
      right
      have noCall : insn.isCall = false := by
        rw [codeAt, trap] at decoded
        exact int3 _ insn decoded
      obtain ⟨after, runs, same, rests⟩ := ends_stepInto csDisasm unwindCaller depth
        (behind processor cpu insn.size) hit found onCall.silent clear executed enough
      refine ⟨after, ends_nextInstr rfl decoded ?_ (by rw [rests]; rfl), by rw [same, pushed]⟩
      rw [noCall]
      exact runs

end OnCall

/-! ## A recursive function -/

theorem writtenRegs (values : UserRegs) (_ : UserRegs) : id values = values := rfl

/-- `jrcxz`, `dec rcx`, `call`, `ret`, and everything else ends the program. -/
def countdown : Processor UserRegs where
  regs := id
  setRegs values _ := values
  exec regs mem :=
    let go (size : Word) (regs : UserRegs) := Function.update regs .rip (regs .rip + size)
    let opcode := mem (regs .rip)
    if opcode = 0xE3 then
      let offset := (mem (regs .rip + 1)).signExtend 64
      .next (go (if regs .rcx = 0 then offset + 2 else 2) regs) mem
    else if opcode = 0x48 then
      .next (go 3 (Function.update regs .rcx (regs .rcx - 1))) mem
    else if opcode = 0xE8 then
      let offset := ((peek mem (regs .rip + 1)).setWidth 32).signExtend 64
      .next (go (offset + 5) (Function.update regs .rsp (regs .rsp - 8)))
        (poke mem (regs .rsp - 8) (regs .rip + 5))
    else if opcode = 0xC3 then
      .next (Function.update (Function.update regs .rip (peek mem (regs .rsp))) .rsp
        (regs .rsp + 8)) mem
    else
      .exit 1
  regs_setRegs := writtenRegs

/-- `call` and `int3` are enough to disassemble. -/
def callDisasm : List Byte → Option CsInsn
  | 0xE8 :: _ => some ⟨['c', 'a', 'l', 'l', ' '], ['f'], 5⟩
  | 0xCC :: _ => some ⟨['i', 'n', 't', '3', ' '], [], 1⟩
  | _ => none

theorem callDisasm_int3 (bytes : List Byte) (insn : CsInsn)
    (decoded : callDisasm (0xCC :: bytes) = some insn) : insn.isCall = false := by
  obtain rfl := Option.some.inj decoded
  decide

/-- The function at `0x10` calls itself until RCX is zero; it is called at `0x20` too. -/
def countdownCode : List Byte :=
  [0xE3, 8, 0x48, 0xFF, 0xC9, 0xE8, 0xF6, 0xFF, 0xFF, 0xFF, 0xC3, 0, 0, 0, 0, 0,
    0xE8, 0xEB, 0xFF, 0xFF, 0xFF, 0xC3]

/-- Stopped at `addr` with 1 in RCX. -/
def countdownState (addr : Addr) : State (Thread UserRegs) :=
  State.start ⟨fun
    | .rip => addr
    | .rsp => 0x1000
    | .rcx => 1
    | _ => 0, fun addr => countdownCode.getD (addr - 0x10).toNat 0, .stopped⟩

theorem countdownState_onCall {addr : Addr} (at' : addr = 0x15 ∨ addr = 0x20) :
    OnCall countdown callDisasm (countdownState addr).globals (countdownState addr).kernel 5 where
  stopped := rfl
  silent := rfl
  fits := show (0 + 1) * sizeofMyBp < 2 ^ 63 by decide
  patched := nofun
  decoded := by
    rcases at' with rfl | rfl
    · exact ⟨⟨['c', 'a', 'l', 'l', ' '], ['f'], 5⟩, rfl, rfl, rfl⟩
    · exact ⟨⟨['c', 'a', 'l', 'l', ' '], ['f'], 5⟩, rfl, rfl, rfl⟩
  small := by decide
  pushes := by
    rcases at' with rfl | rfl
    · exact ⟨_, _, rfl, rfl⟩
    · exact ⟨_, _, rfl, rfl⟩

/-- Both calls return after seven instructions. -/
theorem countdownState_returns {addr : Addr} (at' : addr = 0x15 ∨ addr = 0x20) :
    CallReturns countdown (countdownState addr).globals (countdownState addr).kernel
      (behind countdown (countdownState addr).kernel.cpu 5) 7 where
  free := rfl
  quiet _ _ _ _ _ asked := absurd rfl asked
  returned := by
    rcases at' with rfl | rfl
    · exact ⟨_, rfl, by decide +kernel⟩
    · exact ⟨_, rfl, by decide +kernel⟩
  first := by
    rcases at' with rfl | rfl
    · decide +kernel
    · decide +kernel

end MyDbg
