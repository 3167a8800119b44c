import MyDbg.Debugger.MainRuns
import MyDbg.Lib.Progress

/-!
Contract: when the debugger does not come back.

Owns: what can keep the debugger from going on; that nothing else does, however often
`wait_program` and `continue_execution` call each other, unless the tracee makes
syscalls nobody watches for ever; and that the bound on these calls does not matter.

Does not own: what the tracee does, and how the input ends.
-/

namespace MyDbg

open LittleEndian ProgramLogic

variable {κ : Type} {host : Host κ} {bound : Nat}

/-! ## Progress -/

def Event.isSyscallStop : Event → Bool
  | .waited .syscallStop => true
  | _ => false

/-- The syscall-stops so far. -/
def State.syscallStops (state : State κ) : Nat :=
  state.trace.countP fun entry => entry.event.isSyscallStop

/-- `realloc` refuses the next entry of a table. -/
def Globals.Exhausted (globals : Globals) : Prop :=
  2 ^ 63 ≤ (globals.gBreakpoints.length + 1) * sizeofMyBp ∨
    2 ^ 63 ≤ 4 * (globals.gSyscalls.length + 1)

/-- The tracee does not stop, or there is no memory. -/
def Stuck (host : Host κ) (state : State κ) : Prop :=
  host.waitpid state.kernel = .blocked ∨ state.globals.Exhausted

/-- A function of the debugger only loses control where it is stuck, or after so many
syscall-stops. -/
abbrev Proceeds {α : Type} (host : Host κ) (bound : Nat) (program : Dbg κ α) : Prop :=
  Progresses State.syscallStops (Stuck host) bound program

namespace Proceeds

theorem note {event : Event} : Proceeds host bound (note event : Dbg κ Unit) := by
  refine Progresses.modify fun state => ?_
  exact List.Sublist.countP_le (List.sublist_cons_self _ _)

theorem printf (message : Message) : Proceeds host bound (printf message : Dbg κ Unit) := note

theorem modifyGlobals (update : Globals → Globals) :
    Proceeds host bound (modifyGlobals update : Dbg κ Unit) :=
  Progresses.modify fun _ => Nat.le_refl _

theorem myPtrace (request : Request) : Proceeds host bound (myPtrace host request) := by
  intro before
  rw [wp_myPtrace]
  have grown : before.syscallStops ≤ (before.afterPtrace host request).syscallStops :=
    List.Sublist.countP_le (List.sublist_cons_self _ _)
  exact ⟨fun _ _ => grown, fun _ => grown⟩

theorem getRegister (reg : MyReg) : Proceeds host bound (getRegister host reg) :=
  Progresses.bind (myPtrace .getregs) fun _ => .pure _

theorem setRegister (reg : MyReg) (value : Word) :
    Proceeds host bound (setRegister host reg value) :=
  Progresses.bind (myPtrace .getregs) fun _ => Progresses.bind (myPtrace _) fun _ => .pure _

theorem readMemory (addr : Addr) (size : Nat) :
    Proceeds host bound (readMemory host addr size) := by
  intro before
  unfold wp MyDbg.readMemory
  cases readBytes (host.procMem before.kernel) addr size <;> exact Nat.le_refl _

theorem getInstruction (addr : Addr) : Proceeds host bound (getInstruction host addr) := by
  refine Progresses.bind (readMemory addr 16) fun mem => ?_
  cases host.csDisasm mem with
  | some insn => exact .pure _
  | none => exact .throw _

theorem getCurrentInstruction : Proceeds host bound (getCurrentInstruction host) :=
  Progresses.bind (getRegister _) fun addr => getInstruction addr

theorem getFinishAddress : Proceeds host bound (getFinishAddress host) := by
  refine Progresses.bind (.gets _) fun caller => ?_
  cases caller with
  | some ip => exact Progresses.bind (getInstruction ip) fun _ => .pure _
  | none => exact .throw _

/-! ### Breakpoints -/

theorem breakpointAt (index : Nat) : Proceeds host bound (breakpointAt index : Dbg κ MyBp) := by
  refine Progresses.bind (.gets _) fun globals => ?_
  cases globals.gBreakpoints[index]? with
  | some bp => exact .pure bp
  | none => exact .fault

theorem toggleBreakpoint (index : Nat) : Proceeds host bound (toggleBreakpoint host index) := by
  refine Progresses.bind note fun _ => Progresses.bind (breakpointAt index) fun bp => ?_
  refine Progresses.ite (.pure ()) (Progresses.bind (myPtrace _) fun reply => ?_)
  exact Progresses.bind (myPtrace _) fun _ => modifyGlobals _

theorem appendBreakpoint (addr : Addr) (flags : MyBpFlags) (word : Word) :
    Proceeds host bound (appendBreakpoint addr flags word : Dbg κ Nat) := by
  intro before
  unfold MyDbg.appendBreakpoint
  rw [wp_bind, wp_getGlobals]
  change wp (myRealloc _ >>= _) _ before
  rw [wp_bind, wp_myRealloc]
  refine ⟨fun _ => Nat.le_refl _, fun refused => .inl (.inr (.inl ?_))⟩
  exact Nat.le_of_not_lt refused

theorem placeBreakpoint (addr : Addr) (flags : MyBpFlags) :
    Proceeds host bound (placeBreakpoint host addr flags) := by
  refine Progresses.ite (Progresses.bind (myPtrace _) fun reply => ?_)
    (Progresses.bind (.gets _) fun _ => appendBreakpoint _ _ _)
  exact Progresses.bind (myPtrace _) fun _ => appendBreakpoint _ _ _

theorem addSyscallBreak (syscall : BitVec 32) :
    Proceeds host bound (addSyscallBreak host syscall) := by
  have rest : Proceeds host bound (do
      MyDbg.modifyGlobals fun globals =>
        { globals with gSyscalls := globals.gSyscalls ++ [syscall] }
      let _ ← MyDbg.placeBreakpoint host (syscall.signExtend 64) myBpSyscall
      return ()) :=
    Progresses.bind (modifyGlobals _) fun _ =>
      Progresses.bind (placeBreakpoint _ _) fun _ => .pure _
  intro before
  unfold MyDbg.addSyscallBreak
  rw [wp_bind, wp_getGlobals]
  change wp (myRealloc _ >>= _) _ before
  rw [wp_bind, wp_myRealloc]
  refine ⟨fun _ => rest before, fun refused => .inl (.inr (.inr ?_))⟩
  exact Nat.le_of_not_lt refused

theorem storeSyscall (index : Nat) (value : BitVec 32) :
    Proceeds host bound (storeSyscall index value : Dbg κ Unit) :=
  Progresses.bind (.gets _) fun _ => Progresses.ite (modifyGlobals _) .fault

/-! ### Stops -/

theorem hitBreakpoint (index : Nat) (addr : Addr) :
    Proceeds host bound (hitBreakpoint host index addr) := by
  refine Progresses.bind (breakpointAt index) fun bp => ?_
  refine Progresses.bind (.when _ (toggleBreakpoint index)) fun _ => ?_
  refine Progresses.bind (.when _ (printf _)) fun _ => ?_
  exact Progresses.bind (setRegister _ _) fun _ => modifyGlobals _

theorem reportSignal : Proceeds host bound (reportSignal : Dbg κ AfterStop) :=
  Progresses.bind (.gets _) fun _ => Progresses.bind (.when _ (printf _)) fun _ => .pure _

theorem handleSyscallStop (isBp : Bool) : Proceeds host bound (handleSyscallStop host isBp) := by
  refine Progresses.bind (modifyGlobals _) fun _ => Progresses.bind (getRegister _) fun _ => ?_
  refine Progresses.bind (modifyGlobals _) fun _ => Progresses.bind (.gets _) fun _ => ?_
  refine Progresses.ite (Progresses.bind (printf _) fun _ => .pure _) ?_
  exact Progresses.ite (.pure _) (.pure _)

theorem finishStop (stopsig : BitVec 8) (isBp : Bool) :
    Proceeds host bound (finishStop host stopsig isBp) := by
  refine Progresses.ite (Progresses.bind (handleSyscallStop isBp) fun next => ?_) reportSignal
  cases next with
  | returns result => exact reportSignal
  | continues => exact .pure _

theorem handleStop (step : Bool) (stopsig : BitVec 8) :
    Proceeds host bound (handleStop host step stopsig) := by
  refine Progresses.bind (modifyGlobals _) fun _ => Progresses.bind (.gets _) fun _ => ?_
  refine Progresses.ite (Progresses.bind (modifyGlobals _) fun _ => .pure _) ?_
  refine Progresses.bind (getRegister _) fun rip => Progresses.bind (.gets _) fun globals => ?_
  exact Progresses.bind (.forSome _ fun index => hitBreakpoint index _) fun _ => finishStop _ _

theorem handleEnd (wstatus : WStatus) :
    Proceeds host bound (handleEnd wstatus : Dbg κ AfterStop) :=
  Progresses.bind (printf _) fun _ => Progresses.bind (modifyGlobals _) fun _ => .pure _

end Proceeds

/-! ## Running the tracee -/

theorem reportSignal_returns (state : State κ) :
    wp (reportSignal : Dbg κ AfterStop) Returning state := by
  simp only [reportSignal, wp_bind, wp_getGlobals]
  exact wp_any (fun _ _ => ⟨false, rfl⟩) (fun _ _ => trivial) (fun _ => trivial) fun _ => trivial

/-- Only a syscall-stop is passed over. -/
theorem handleStop_returns {stopsig : BitVec 8} (plain : stopsig &&& 0x80 = 0) (step : Bool)
    (state : State κ) : wp (handleStop host step stopsig) Returning state := by
  simp only [handleStop, wp_bind, wp_modifyGlobals, wp_getGlobals, wp_ite]
  refine ⟨fun _ => ⟨true, rfl⟩, fun _ => ?_⟩
  refine wp_any (fun rip stopped => ?_) (fun _ _ => trivial) (fun _ => trivial) fun _ => trivial
  refine wp_any (fun _ tested => ?_) (fun _ _ => trivial) (fun _ => trivial) fun _ => trivial
  simp only [finishStop, ne_eq, plain, not_true_eq_false, if_false]
  exact reportSignal_returns tested

/-- One stop, which is a syscall-stop where it is passed over. -/
def Stopping (host : Host κ) (bound : Nat) (before : State κ) :
    Post MyException (State κ) AfterStop where
  ok next after := before.syscallStops ≤ after.syscallStops ∧
    (next = .continues → before.syscallStops + 1 ≤ after.syscallStops)
  throw _ after := before.syscallStops ≤ after.syscallStops
  fault _ := True
  noReturn after := Stuck host after ∨ before.syscallStops + bound ≤ after.syscallStops

theorem stoppedBy_syscallStops (state : State κ) (kernel : κ) :
    (state.stoppedBy .syscallStop kernel).syscallStops = state.syscallStops + 1 := by
  unfold State.syscallStops
  rw [State.stoppedBy_trace, List.countP_cons_of_pos rfl]

theorem stoppedBy_grows (state : State κ) (wstatus : WStatus) (kernel : κ) :
    state.syscallStops ≤ (state.stoppedBy wstatus kernel).syscallStops :=
  List.Sublist.countP_le (List.sublist_cons_self _ _)

theorem waitStop_stopping (step : Bool) (before : State κ) :
    wp (waitStop host step) (Stopping host bound before) before := by
  apply wp_waitStop
  · intro blocked
    exact .inl (.inl blocked)
  · intro kernel _
    exact Nat.le_refl _
  · intro wstatus kernel stopsig _ status
    by_cases plain : stopsig &&& 0x80 = 0
    · have proceeds : Proceeds host bound (handleStop host step stopsig) :=
        Proceeds.handleStop step stopsig
      refine wp_mono (wp_and (proceeds.later (stoppedBy_grows before wstatus kernel))
        (handleStop_returns plain step _))
        ⟨?_, fun _ _ both => both.1, fun _ _ => trivial, fun _ both => both.1⟩
      rintro next after ⟨grown, result, rfl⟩
      exact ⟨grown, nofun⟩
    · have marked : wstatus = .syscallStop := by
        cases wstatus with
        | stopped signal =>
            obtain rfl : signal.setWidth 8 = stopsig := Option.some.inj status
            exact absurd (stopsig_plain signal) plain
        | syscallStop => rfl
        | exited => cases status
        | signaled => cases status
        | other => cases status
      subst marked
      have proceeds : Proceeds host bound (handleStop host step stopsig) :=
        Proceeds.handleStop step stopsig
      refine wp_mono (proceeds (before.stoppedBy .syscallStop kernel))
        ⟨fun next after grown => ?_, fun _ after grown => ?_, fun _ _ => trivial,
          fun after lost => ?_⟩
      · rw [stoppedBy_syscallStops] at grown
        exact ⟨by omega, fun _ => grown⟩
      · rw [stoppedBy_syscallStops] at grown
        change before.syscallStops ≤ after.syscallStops
        omega
      · rw [stoppedBy_syscallStops] at lost
        exact lost.imp_right fun far => by omega
  · intro wstatus kernel _ _
    have proceeds : Proceeds host bound (handleEnd wstatus : Dbg κ AfterStop) :=
      Proceeds.handleEnd wstatus
    have returns : wp (handleEnd wstatus : Dbg κ AfterStop) Returning
        (before.stoppedBy wstatus kernel) := ⟨false, rfl⟩
    refine wp_mono (wp_and (proceeds.later (stoppedBy_grows before wstatus kernel)) returns)
      ⟨?_, fun _ _ both => both.1, fun _ _ => trivial, fun _ both => both.1⟩
    rintro next after ⟨grown, result, rfl⟩
    exact ⟨grown, nofun⟩

namespace Proceeds

theorem waitProgram {continues : Dbg κ Unit} (step : Bool)
    (continued : Proceeds host bound continues) :
    Proceeds host (bound + 1) (waitProgram host continues step) := by
  intro before
  unfold MyDbg.waitProgram
  rw [wp_bind]
  refine wp_mono (waitStop_stopping step before)
    ⟨fun next middle grown => ?_, fun _ _ grown => grown, fun _ _ => trivial, fun _ lost => lost⟩
  obtain ⟨grown, more⟩ := grown
  cases next with
  | returns result => exact grown
  | continues =>
      have counted := more rfl
      change wp (continues >>= fun _ => pure false) _ middle
      rw [wp_bind]
      refine wp_mono (continued middle)
        ⟨fun _ after later => ?_, fun _ after later => ?_, fun _ _ => trivial,
          fun after lost => ?_⟩
      · change before.syscallStops ≤ after.syscallStops
        omega
      · change before.syscallStops ≤ after.syscallStops
        omega
      · exact lost.imp_right fun far => by omega

theorem stepOnce : Proceeds host bound (stepOnce host (pure ())) := by
  refine Progresses.bind (.gets _) fun _ => Progresses.bind (myPtrace _) fun _ => ?_
  refine Progresses.bind (modifyGlobals _) fun _ => ?_
  have waits : Proceeds host (bound + 1) (MyDbg.waitProgram host (pure ()) true) :=
    waitProgram true (.pure ())
  exact waits.mono (Nat.le_succ bound)

/-- A single step never gets to `continue_execution`. -/
theorem singleStep (continues : Dbg κ Unit) :
    Proceeds host bound (singleStep host continues) := by
  rw [singleStep_eq]
  refine Progresses.bind (getRegister _) fun addr => Progresses.bind (.gets _) fun globals => ?_
  refine Progresses.bind (.forSome _ fun index => toggleBreakpoint index) fun _ => ?_
  refine Progresses.bind stepOnce fun ret => ?_
  exact Progresses.bind (.forSome _ fun index => toggleBreakpoint index) fun _ => .pure _

theorem resumeExecution {continues : Dbg κ Unit} (continued : Proceeds host bound continues) :
    Proceeds host (bound + 1) (resumeExecution host continues) := by
  refine Progresses.bind (.gets _) fun _ => Progresses.bind (myPtrace _) fun _ => ?_
  refine Progresses.bind (modifyGlobals _) fun _ => ?_
  exact Progresses.bind (waitProgram false continued) fun _ => .pure _

/-- Each nested call is behind a syscall-stop. -/
theorem continueExecution (depth : Nat) :
    Proceeds host depth (continueExecution host depth) := by
  induction depth with
  | zero => exact fun _ => .inr (Nat.le_refl _)
  | succ depth inductionHypothesis =>
      have resumes := resumeExecution inductionHypothesis
      refine Progresses.bind (getRegister _) fun addr => Progresses.bind (.gets _) fun globals => ?_
      refine Progresses.ite (Progresses.bind (singleStep _) fun stepped => ?_) resumes
      exact Progresses.ite resumes (.pure _)

end Proceeds

/-! ### A deeper recursion -/

theorem waitProgram_deepens {less more : Dbg κ Unit} (step : Bool)
    (deepens : Deepens State.syscallStops bound less more) :
    Deepens State.syscallStops (bound + 1) (waitProgram host less step)
      (waitProgram host more step) := by
  intro before
  have stopping : wp (waitStop host step) (Stopping host bound before) before :=
    waitStop_stopping step before
  unfold waitProgram
  rw [Program.bind_apply, Program.bind_apply]
  cases outcome : waitStop host step before with
  | ok next middle =>
      cases next with
      | returns result => exact .inl rfl
      | continues =>
          have counted := (stopping.ok outcome).2 rfl
          change (more >>= fun _ => pure false) middle = (less >>= fun _ => pure false) middle ∨ _
          rw [Program.bind_apply, Program.bind_apply]
          rcases deepens middle with same | ⟨after, lost, far⟩
          · rw [same]
            exact .inl rfl
          · refine .inr ⟨after, ?_, by omega⟩
            change (less >>= fun _ => pure false) middle = _
            rw [Program.bind_apply, lost]
  | throw raised after => exact .inl rfl
  | fault after => exact .inl rfl
  | noReturn after => exact .inl rfl

/-- What comes before the recursion is the same. -/
theorem deepens_behind (host : Host κ) {α β : Type} {first : Dbg κ β} {less more : β → Dbg κ α}
    (proceeds : Proceeds host bound first)
    (deepens : ∀ value, Deepens State.syscallStops bound (less value) (more value)) :
    Deepens State.syscallStops bound (first >>= less) (first >>= more) :=
  .bind (.refl first) proceeds deepens

theorem resumeExecution_deepens {less more : Dbg κ Unit} (proceeds : Proceeds host bound less)
    (deepens : Deepens State.syscallStops bound less more) :
    Deepens State.syscallStops (bound + 1) (resumeExecution host less)
      (resumeExecution host more) := by
  refine deepens_behind host (.gets _) fun globals => ?_
  refine deepens_behind host (.myPtrace _) fun _ => deepens_behind host (.modifyGlobals _) ?_
  intro _
  exact .bind (waitProgram_deepens false deepens) (Proceeds.waitProgram false proceeds) fun _ =>
    .refl _

/-- More nested calls change nothing before as many syscall-stops. -/
theorem continueExecution_deepens (depth more : Nat) :
    Deepens State.syscallStops depth (continueExecution host depth)
      (continueExecution host (depth + more)) := by
  induction depth with
  | zero => exact fun before => .inr ⟨before, rfl, Nat.le_refl _⟩
  | succ depth inductionHypothesis =>
      rw [Nat.add_right_comm]
      have resumes := resumeExecution_deepens (Proceeds.continueExecution depth)
        inductionHypothesis
      refine deepens_behind host (.getRegister _) fun addr =>
        deepens_behind host (.gets _) fun globals => .ite ?_ resumes
      rw [singleStep_eq, singleStep_eq (continueExecution host (depth + more))]
      exact deepens_behind host (.singleStep _) fun stepped => .ite resumes (.refl _)

/-! ## Commands -/

namespace Proceeds

theorem cmdBreak (addr : Addr) : Proceeds host bound (cmdBreak host addr) :=
  Progresses.bind (placeBreakpoint _ _) fun _ => printf _

theorem cmdTbreak (addr : Addr) : Proceeds host bound (cmdTbreak host addr) :=
  Progresses.bind (placeBreakpoint _ _) fun _ => printf _

theorem cmdBreakf (addr : Addr) : Proceeds host bound (cmdBreakf host addr) :=
  Progresses.ite (printf _) (Progresses.bind (placeBreakpoint _ _) fun _ => printf _)

theorem cmdBreakl (addr : Addr) : Proceeds host bound (cmdBreakl host addr) :=
  Progresses.bind (placeBreakpoint _ _) fun _ => printf _

theorem cmdBreaks (syscall : BitVec 32) : Proceeds host bound (cmdBreaks host syscall) :=
  Progresses.bind (addSyscallBreak _) fun _ => printf _

theorem cmdBreakDel (nb : Nat) : Proceeds host bound (cmdBreakDel nb : Dbg κ Unit) := by
  refine Progresses.bind (.gets _) fun globals => Progresses.ite (printf _) ?_
  refine Progresses.bind (breakpointAt _) fun bp => Progresses.ite (printf _) ?_
  refine Progresses.bind (modifyGlobals _) fun _ => ?_
  exact Progresses.bind (storeSyscall _ _) fun _ => printf _

/-- RIP is printed. -/
theorem stepped (overCall : Bool) : Proceeds host bound (do
    let rip ← MyDbg.getRegister host .rip
    MyDbg.printf (.stepped overCall rip)) :=
  Progresses.bind (getRegister _) fun _ => printf _

theorem cmdStepInstr (depth : Nat) : Proceeds host bound (cmdStepInstr host depth) :=
  Progresses.bind (singleStep _) fun _ => stepped false

theorem runNext (depth : Nat) (overCall : Bool) (next : Addr) :
    Proceeds host depth (runNext host depth overCall next) := by
  refine Progresses.ite ?_ (Progresses.bind (singleStep _) fun _ => .pure _)
  exact Progresses.bind (placeBreakpoint _ _) fun _ => continueExecution depth

theorem cmdNextInstr (depth : Nat) : Proceeds host depth (cmdNextInstr host depth) := by
  refine Progresses.bind (getRegister _) fun rip => ?_
  refine Progresses.bind getCurrentInstruction fun instr => ?_
  refine Progresses.bind (runNext depth _ _) fun _ => Progresses.bind (.gets _) fun globals => ?_
  exact Progresses.ite (.pure _) (stepped _)

theorem cmdFinish (depth : Nat) : Proceeds host depth (cmdFinish host depth) := by
  refine Progresses.bind getFinishAddress fun addr => ?_
  refine Progresses.bind (placeBreakpoint _ _) fun _ => ?_
  exact Progresses.bind (continueExecution depth) fun _ => printf _

theorem cmdContinue (depth : Nat) : Proceeds host depth (cmdContinue host depth) :=
  Progresses.bind (printf _) fun _ => continueExecution depth

/-! ### Arguments -/

theorem getRegisterFromName (reg : List Char) :
    Proceeds host bound (getRegisterFromName host reg) := by
  unfold MyDbg.getRegisterFromName
  cases registerNamed reg with
  | some reg => exact getRegister reg
  | none => exact Progresses.bind (printf _) fun _ => .throw _

theorem refuse (exDepth : Nat) (message : Message) :
    Proceeds host bound (refuse exDepth message) :=
  Progresses.bind (.when _ (printf _)) fun _ => .throw _

theorem readAddress (exDepth : Nat) (str : List Char) :
    Proceeds host bound (readAddress host exDepth str) := by
  refine Progresses.ite (getRegisterFromName _) ?_
  cases acceptedAddress str with
  | some addr => exact .pure _
  | none => exact refuse exDepth _

theorem readSize (exDepth : Nat) (str : List Char) :
    Proceeds host bound (readSize host exDepth str) := by
  refine Progresses.ite (readAddress _ _) ?_
  cases acceptedSize str with
  | some size => exact .pure _
  | none => exact refuse exDepth _

theorem syscallNum (syscall : List Char) : Proceeds host bound (syscallNum host syscall) := by
  unfold MyDbg.syscallNum
  cases syscallNumbered host syscall with
  | some ret => exact Progresses.ite (.throw _) (.pure _)
  | none => exact .throw _

theorem nameSyscall (arg : List Char) : Proceeds host bound (nameSyscall host arg) := by
  refine Progresses.attempt (syscallNum arg) (fun _ => .pure _) fun ex => ?_
  exact Progresses.ite (Progresses.bind (printf _) fun _ => .pure _) (.pure _)

theorem resolveSyscall (exDepth : Nat) (arg : List Char) :
    Proceeds host bound (resolveSyscall host exDepth arg) := by
  refine Progresses.attempt (readSize _ arg) (fun _ => .pure _) fun ex => ?_
  exact Progresses.ite (nameSyscall arg) (.pure _)

theorem cmdBreaksArgv (exDepth : Nat) (argv : List (List Char)) :
    Proceeds host bound (cmdBreaksArgv host exDepth argv) := by
  unfold MyDbg.cmdBreaksArgv
  split
  · exact Progresses.bind (resolveSyscall _ _) fun resolved =>
      Progresses.ite (cmdBreaks _) (.throw _)
  · exact printf _

theorem findInstruction (addr : Addr) (left : Nat) :
    Proceeds host bound (findInstruction host addr left) := by
  induction left with
  | zero => exact .throw _
  | succ left inductionHypothesis =>
      refine Progresses.bind (readMemory addr _) fun mem => ?_
      cases host.csDisasm mem with
      | some insn => exact .pure _
      | none => exact inductionHypothesis

theorem printInstructions (addr : Addr) (count : Nat) :
    Proceeds host bound (printInstructions host addr count) := by
  induction count generalizing addr with
  | zero => exact .pure _
  | succ count inductionHypothesis =>
      refine Progresses.bind (findInstruction addr 15) fun insn => ?_
      exact Progresses.bind (printf _) fun _ => inductionHypothesis _

theorem cmdExamine (exDepth : Nat) (argv : List (List Char)) :
    Proceeds host bound (cmdExamine host exDepth argv) := by
  unfold MyDbg.cmdExamine
  split
  · split
    · refine Progresses.ite (Progresses.bind (readSize _ _) fun size => ?_) (.pure _)
      exact Progresses.bind (readAddress _ _) fun addr => Progresses.ite (.pure _) (.pure _)
    · exact .pure _
  · exact .pure _

theorem cmdAttach (exDepth : Nat) (gPid : Attach.Pid) (argv : List (List Char)) :
    Proceeds host bound (Attach.cmdAttach host exDepth gPid argv) := by
  refine Progresses.ite (.pure _) ?_
  split
  · exact Progresses.bind (readSize _ _) fun pid => Progresses.ite (.pure _) (.pure _)
  · exact .pure _

end Proceeds

/-! ### A deeper recursion in the commands that run the tracee -/

section Deeper

variable (depth more : Nat)

theorem cmdStepInstr_deeper : cmdStepInstr host (depth + more) = cmdStepInstr host depth := by
  unfold cmdStepInstr
  rw [singleStep_eq, singleStep_eq (continueExecution host depth)]

theorem runNext_deepens (overCall : Bool) (next : Addr) :
    Deepens State.syscallStops depth (runNext host depth overCall next)
      (runNext host (depth + more) overCall next) := by
  refine .ite (deepens_behind host (.placeBreakpoint _ _) fun _ => ?_) ?_
  · exact continueExecution_deepens depth more
  · rw [singleStep_eq, singleStep_eq (continueExecution host (depth + more))]
    exact .refl _

theorem cmdNextInstr_deepens :
    Deepens State.syscallStops depth (cmdNextInstr host depth)
      (cmdNextInstr host (depth + more)) := by
  refine deepens_behind host (.getRegister _) fun rip =>
    deepens_behind host .getCurrentInstruction fun instr => ?_
  exact .bind (runNext_deepens depth more _ _) (Proceeds.runNext depth _ _) fun _ => .refl _

theorem cmdFinish_deepens :
    Deepens State.syscallStops depth (cmdFinish host depth) (cmdFinish host (depth + more)) := by
  refine deepens_behind host .getFinishAddress fun addr =>
    deepens_behind host (.placeBreakpoint _ _) fun _ => ?_
  exact .bind (continueExecution_deepens depth more) (Proceeds.continueExecution depth) fun _ =>
    .refl _

theorem cmdContinue_deepens :
    Deepens State.syscallStops depth (cmdContinue host depth) (cmdContinue host (depth + more)) :=
  deepens_behind host (.printf _) fun _ => continueExecution_deepens depth more

end Deeper

/-! ## The loop of `main` -/

namespace Main

open Attach (PtraceKernel Unwinder)

/-- What keeps the debugger from going on, or ends it. -/
inductive Lost (world : World κ) (console : Console κ) : Prop where
  | stuck : Stuck world.host console.state → Lost world console
  /-- The process to be attached does not stop. -/
  | attaching : world.kernel.waitpid console.gPid console.state.kernel = .blocked →
      Lost world console
  /-- libunwind has no memory. -/
  | unwinding : world.unwinder.createsAddrSpace = true → world.unwinder.createsInfo = false →
      Lost world console
  /-- What only looks something up or shows it does not come back. -/
  | looking (function : Function) (kernel : κ) :
      world.Strays function kernel console.state.kernel → Lost world console
  /-- The tracee is gone, and the debugger exits. -/
  | gone : world.errno console.state.kernel = esrch → console.gPid ≠ 0 → Lost world console

/-- The syscall-stops so far. -/
def Console.syscallStops (console : Console κ) : Nat := console.state.syscallStops

abbrev Advances {α : Type} (world : World κ) (bound : Nat) (program : Cmd κ α) : Prop :=
  Progresses Console.syscallStops (Lost world) bound program

variable {world : World κ} {cmds : List (MyCmd Registration)} {α : Type}

namespace Advances

theorem dbg {program : Dbg κ α} (proceeds : Proceeds world.host bound program) :
    Advances world bound (dbg program) :=
  proceeds.zoom (fun _ => rfl) fun _ _ stuck => .stuck stuck

/-- A part of the state without the trace. -/
theorem aside {τ : Type} {part : Part (Console κ) τ} {program : Program MyException τ α}
    (keeps : ∀ console after, (part.set console after).syscallStops = console.syscallStops)
    (loses : ∀ console after, program (part.get console) = .noReturn after →
      Lost world (part.set console after)) : Advances world bound (zoom part program) := by
  intro before
  have kept (after : τ) : before.syscallStops ≤ (part.set before after).syscallStops := by
    rw [keeps]
  rw [wp_zoom]
  unfold wp
  cases outcome : program (part.get before) with
  | ok value after => exact kept after
  | throw raised after => exact kept after
  | fault after => trivial
  | noReturn after => exact .inl (loses before after outcome)

theorem look {program : Program MyException κ α} (function : Function)
    (strays : ∀ before after, (program before).LostIn after → world.Strays function before after) :
    Advances world bound (look program) :=
  aside (fun _ _ => rfl) fun _ _ outcome => .looking function _ (strays _ _ (.inr outcome))

theorem tell (notice : Notice) : Advances world bound (tell notice : Cmd κ Unit) :=
  Progresses.modify fun _ => Nat.le_refl _

theorem tellAll (notices : List Notice) : Advances world bound (tellAll notices : Cmd κ Unit) := by
  induction notices with
  | nil => exact .pure ()
  | cons notice rest inductionHypothesis =>
      exact Progresses.bind (tell notice) fun _ => inductionHypothesis

theorem warnLookup (name : List Char) (lookup : Lookup Registration) :
    Advances world bound (warnLookup name lookup : Cmd κ Unit) := by
  cases lookup with
  | found cmd => exact .pure ()
  | ambiguous => exact tell _
  | notFound => exact tell _

theorem printHelp (cmd : Option (MyCmd Registration)) :
    Advances world bound (printHelp cmd : Cmd κ Unit) :=
  .forSome cmd fun _ => tell _

theorem helpFor (names : List (List Char)) :
    Advances world bound (helpFor cmds names : Cmd κ Unit) := by
  induction names with
  | nil => exact .pure ()
  | cons name rest inductionHypothesis =>
      exact Progresses.bind (warnLookup name _) fun _ =>
        Progresses.bind (printHelp _) fun _ => inductionHypothesis

theorem helpAll : Advances world bound (helpAll cmds : Cmd κ Unit) := by
  induction cmds with
  | nil => exact .pure ()
  | cons cmd rest inductionHypothesis =>
      exact Progresses.bind (printHelp _) fun _ => inductionHypothesis

theorem cmdHelp (argv : List (List Char)) :
    Advances world bound (cmdHelp cmds argv : Cmd κ Unit) := by
  unfold Main.cmdHelp
  split
  · exact helpFor _
  · exact helpAll

end Advances

/-! ### Attaching -/

section Attaching

variable (kernel : PtraceKernel κ) (unwinder : Unwinder)

/-- What keeps `attach_process` from going on. -/
def Unattached (globals : Attach.Globals κ) : Prop :=
  kernel.waitpid globals.gPid globals.kernel = .blocked ∨
    unwinder.createsAddrSpace = true ∧ unwinder.createsInfo = false

/-- Nothing else does. -/
abbrev Attaches {α : Type} (program : Attach.Dbg κ α) : Prop :=
  Progresses (fun _ => 0) (Unattached kernel unwinder) 1 program

theorem attaches_myPtrace (request addr data : Word) :
    Attaches kernel unwinder (Attach.myPtrace kernel request addr data) :=
  Progresses.bind (.gets _) fun _ => Progresses.bind (.gets _) fun _ =>
    Progresses.bind (.modify fun _ => Nat.le_refl _) fun _ =>
      Progresses.ite (.throw _) (.pure _)

theorem attaches_myWait : Attaches kernel unwinder (Attach.myWait kernel) := by
  intro before
  unfold wp Attach.myWait
  simp only [Program.bind_apply, Program.gets]
  cases waits : kernel.waitpid before.gPid before.kernel with
  | blocked => exact .inl (.inl waits)
  | failed after => exact Nat.le_refl _
  | status wstatus after => exact Nat.le_refl _

theorem attaches_initLibunwind : Attaches kernel unwinder (Attach.initLibunwind unwinder) := by
  refine Progresses.bind (.modify fun _ => Nat.le_refl _) fun _ => ?_
  by_cases space : unwinder.createsAddrSpace = true
  · rw [if_pos space]
    by_cases info : unwinder.createsInfo = true
    · rw [if_pos info]
      exact .modify fun _ => Nat.le_refl _
    · rw [if_neg info]
      exact fun _ => .inl (.inr ⟨space, Bool.eq_false_iff.mpr info⟩)
  · rw [if_neg space]
    exact .pure ()

theorem attaches_attachProcess (pid : Attach.Pid) :
    Attaches kernel unwinder (Attach.attachProcess kernel unwinder pid) := by
  have requests : Attaches kernel unwinder (Attach.requestAttach kernel) :=
    Progresses.bind (attaches_myPtrace kernel unwinder _ _ _) fun _ =>
      Progresses.bind (attaches_myWait kernel unwinder) fun _ =>
        Progresses.bind (.when _ (.throw _)) fun _ =>
          Progresses.bind (attaches_myPtrace kernel unwinder _ _ _) fun _ => .pure _
  refine Progresses.bind (.modify fun _ => Nat.le_refl _) fun _ => ?_
  refine Progresses.bind (.attempt requests (fun _ => .pure _) fun _ =>
    .ite (.pure _) (.throw _)) fun myEx => ?_
  refine Progresses.ite (Progresses.bind (.modify fun _ => Nat.le_refl _) fun _ => .throw _) ?_
  exact attaches_initLibunwind kernel unwinder

end Attaching

namespace Advances

theorem cmdAttach (argv : List (List Char)) : Advances world bound (cmdAttach world argv) := by
  refine Progresses.bind (.gets _) fun gPid => ?_
  refine Progresses.bind (dbg (Proceeds.cmdAttach _ _ _)) fun attachment => ?_
  cases attachment with
  | process pid =>
      refine aside (fun _ _ => rfl) fun console after outcome => ?_
      have attaches := attaches_attachProcess world.kernel world.unwinder pid
        (Console.attachPart.get console)
      unfold wp at attaches
      rw [outcome] at attaches
      rcases attaches with (blocked | ⟨space, info⟩) | impossible
      · exact .attaching blocked
      · exact .unwinding space info
      · exact absurd impossible (Nat.not_succ_le_zero 0)
  | alreadyAttached => exact tell _
  | noProcessId => exact tell _
  | invalidProcessId => exact tell _

theorem call (depth : Nat) (function : Function) (args : List (List Char)) :
    Advances world depth (call world cmds depth function args) := by
  have address (text : List Char) : Advances world depth
      (Main.dbg (readAddress world.host exDepth text)) := dbg (Proceeds.readAddress _ text)
  have size (text : List Char) : Advances world depth
      (Main.dbg (readSize world.host exDepth text)) := dbg (Proceeds.readSize _ text)
  cases function with
  | help => exact cmdHelp args
  | quit => exact Progresses.modify fun _ => Nat.le_refl _
  | attach => exact cmdAttach args
  | «break» =>
      change Advances world depth (cmdBreak world args)
      unfold cmdBreak
      split
      · exact Progresses.bind (address _) fun addr => dbg (Proceeds.cmdBreak addr)
      · exact tell _
  | tbreak =>
      change Advances world depth (cmdTbreak world args)
      unfold cmdTbreak
      split
      · exact Progresses.bind (address _) fun addr => dbg (Proceeds.cmdTbreak addr)
      · exact tell _
  | breakf =>
      change Advances world depth (cmdBreakf world args)
      unfold cmdBreakf
      split
      · exact Progresses.bind (look .breakf fun _ _ lost => Exists.intro _ lost) fun addr =>
          dbg (Proceeds.cmdBreakf addr)
      · exact tell _
  | breakl =>
      change Advances world depth (cmdBreakl world args)
      unfold cmdBreakl
      split
      · refine Progresses.bind (size _) fun line => ?_
        have strays {file : List Char} (before after : κ)
            (lost : (world.getLineAddress file line before).LostIn after) :
            world.Strays .breakl before after := ⟨file, line, lost⟩
        exact Progresses.bind (look .breakl strays) fun addr => dbg (Proceeds.cmdBreakl addr)
      · exact tell _
  | breaks => exact dbg (Proceeds.cmdBreaksArgv _ _)
  | breakDel =>
      change Advances world depth (cmdBreakDel world args)
      unfold cmdBreakDel
      split
      · exact Progresses.bind (size _) fun nb => dbg (Proceeds.cmdBreakDel _)
      · exact tell _
  | breakList => exact Progresses.bind (.gets _) fun _ => tellAll _
  | stepInstr => exact dbg (Proceeds.cmdStepInstr depth)
  | nextInstr => exact dbg (Proceeds.cmdNextInstr depth)
  | finish => exact dbg (Proceeds.cmdFinish depth)
  | «continue» => exact dbg (Proceeds.cmdContinue depth)
  | examine =>
      refine Progresses.bind (dbg (Proceeds.cmdExamine _ args)) fun examination => ?_
      cases examination with
      | memory format addr size => exact look .examine fun _ _ lost => ⟨format, addr, size, lost⟩
      | missingArguments => exact tell _
      | invalidFormat => exact tell _
      | nullSize => exact tell _
  | disassemble =>
      change Advances world depth (cmdDisassemble world args)
      unfold cmdDisassemble
      split
      · refine Progresses.bind (address _) fun addr => Progresses.bind (size _) fun count => ?_
        refine Progresses.ite ?_ (tell _)
        exact Progresses.bind (dbg (Proceeds.printInstructions _ _)) fun _ => .pure _
      · exact tell _
  | infoRegs => exact Progresses.bind (dbg (Proceeds.myPtrace _)) fun _ => tellAll _
  | infoMemory => exact look .infoMemory fun _ _ lost => lost
  | list => exact look .list fun _ _ lost => lost
  | backtrace => exact look .backtrace fun _ _ lost => lost

theorem report (name : List Char) (raised : MyException) :
    Advances world bound (report world name raised) := by
  have prints (text : String) : Advances world bound (warnx text : Cmd κ Unit) := tell _
  cases raised with
  | ptraceException =>
      intro before
      change wp (Program.gets id >>= _) _ before
      rw [wp_bind, wp_gets]
      refine (wp_ite _ _ _).mpr ?_
      exact ⟨fun gone => .inl (.gone gone.1 gone.2), fun _ => prints "ptrace error" before⟩
  | syscallException => exact .pure ()
  | waitException => exact prints _
  | scanfException => exact prints _
  | printfException => exact prints _
  | ioException => exact prints _
  | memoryException => exact prints _
  | elfException => exact prints _
  | disasmException => exact prints _
  | unwindException => exact prints _
  | dwarfException => exact prints _
  | «exception» => exact prints _
  | none => exact prints _

theorem runFound (depth : Nat) (cmd : MyCmd Registration) (args : List (List Char)) :
    Advances world depth (runFound world cmds depth cmd args) := by
  refine Progresses.bind (.gets _) fun gPid => Progresses.ite (tell _) ?_
  exact .attempt (call depth _ args) (fun _ => .pure _) fun raised => report _ raised

theorem runLine (depth : Nat) (tokens : List (List Char)) :
    Advances world depth (runLine world cmds depth tokens) := by
  cases tokens with
  | nil => exact .pure ()
  | cons name rest =>
      exact Progresses.bind (warnLookup name _) fun _ => .forSome _ fun cmd =>
        runFound depth cmd _

theorem mainLoop (depth : Nat) (input : List (List (List Char))) :
    Advances world depth (mainLoop world cmds depth input) := by
  induction input with
  | nil => exact .pure ()
  | cons tokens input inductionHypothesis =>
      refine Progresses.bind (.gets _) fun gQuit => Progresses.ite (.pure _) ?_
      exact Progresses.bind (runLine depth tokens) fun _ => inductionHypothesis

end Advances

/-! ### A deeper recursion in the loop of `main` -/

section Deeper

variable (depth more : Nat)

theorem call_deepens (function : Function) (args : List (List Char)) :
    Deepens Console.syscallStops depth (call world cmds depth function args)
      (call world cmds (depth + more) function args) := by
  cases function with
  | stepInstr =>
      change Deepens _ _ (dbg (cmdStepInstr _ depth)) (dbg (cmdStepInstr _ (depth + more)))
      rw [cmdStepInstr_deeper]
      exact .refl _
  | nextInstr => exact .zoom (cmdNextInstr_deepens depth more) fun _ => rfl
  | finish => exact .zoom (cmdFinish_deepens depth more) fun _ => rfl
  | «continue» => exact .zoom (cmdContinue_deepens depth more) fun _ => rfl
  | _ => exact .refl _

theorem runFound_deepens (cmd : MyCmd Registration) (args : List (List Char)) :
    Deepens Console.syscallStops depth (runFound world cmds depth cmd args)
      (runFound world cmds (depth + more) cmd args) := by
  have reads : Advances world depth (Program.gets Console.gPid) := .gets _
  exact .bind (.refl _) reads fun gPid => .ite (.refl _) (.attempt (call_deepens depth more _ args))

theorem runLine_deepens (tokens : List (List Char)) :
    Deepens Console.syscallStops depth (runLine world cmds depth tokens)
      (runLine world cmds (depth + more) tokens) := by
  cases tokens with
  | nil => exact .refl _
  | cons name rest =>
      have warns : Advances world depth (warnLookup name (getCommand cmds name)) :=
        Advances.warnLookup name _
      refine .bind (.refl _) warns fun _ => ?_
      cases (getCommand cmds name).command with
      | some cmd => exact runFound_deepens depth more cmd _
      | none => exact .refl _

theorem mainLoop_deepens (input : List (List (List Char))) :
    Deepens Console.syscallStops depth (mainLoop world cmds depth input)
      (mainLoop world cmds (depth + more) input) := by
  have reads : Advances world depth
      (Program.gets fun console => console.state.globals.gQuit) := .gets _
  induction input with
  | nil => exact .refl _
  | cons tokens input inductionHypothesis =>
      have runs : Advances world depth (runLine world cmds depth tokens) :=
        Advances.runLine depth tokens
      refine .bind (.refl _) reads fun gQuit => .ite (.refl _) ?_
      exact .bind (runLine_deepens depth more tokens) runs fun _ => inductionHypothesis

end Deeper

/-- From `depth` on, the bound on the calls does not matter, and only what is lost does not
come back. -/
structure Settles (world : World κ) (cmds : List (MyCmd Registration))
    (input : List (List (List Char))) (before : Console κ) (depth : Nat) : Prop where
  lost : ∀ after, mainLoop world cmds depth input before = .noReturn after → Lost world after
  deeper : ∀ more, depth ≤ more →
    mainLoop world cmds more input before = mainLoop world cmds depth input before

/-- The tracee makes syscalls nobody watches for ever. -/
def SyscallsForever (world : World κ) (cmds : List (MyCmd Registration))
    (input : List (List (List Char))) (before : Console κ) : Prop :=
  ∀ depth, ∃ after, mainLoop world cmds depth input before = .noReturn after ∧
    before.syscallStops + depth ≤ after.syscallStops

end Main

end MyDbg
