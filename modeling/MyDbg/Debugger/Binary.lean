import MyDbg.Debugger.Breakpoints

/-!
Contract: `binary.c` without the start of the tracee.

Owns: `wait_program`, `single_step` and `continue_execution`. The first calls
the last and the last calls the first two; a number of nested calls bounds the
recursion, and a call beyond it counts as one that never returns.

Does not own: the commands, or what the tracee does between two stops.
-/

namespace MyDbg

open LittleEndian ProgramLogic

variable {κ : Type} (host : Host κ)

/-- What `wait_program` has left to do once a stop is handled. The call of
`continue_execution` is the last thing it does. -/
inductive AfterStop where
  | returns (result : Bool)
  | continues
deriving DecidableEq

/-- The breakpoint at `addr` was hit. -/
def hitBreakpoint (index : Nat) (addr : Addr) : Dbg κ Unit := do
  let bp ← breakpointAt index
  Program.when bp.isTemp (toggleBreakpoint host index)
  Program.when (!bp.isInternal) (printf (.breakpointHit bp.id addr))
  setRegister host .rip addr
  modifyGlobals fun globals =>
    if globals.gSignum = sigtrap then { globals with gSignum := 0 } else globals

/-- A stop marked with `0x80`; `isBp` tells whether a breakpoint was hit too. -/
def handleSyscallStop (isBp : Bool) : Dbg κ AfterStop := do
  modifyGlobals fun globals => { globals with gSignum := 0 }
  let origRax ← getRegister host .origRax
  let syscall : BitVec 32 := origRax.setWidth 32
  modifyGlobals fun globals => { globals with gSyscallEntry := !globals.gSyscallEntry }
  let globals ← getGlobals
  if inSyscalls globals.gSyscalls syscall && globals.gSyscallEntry then
    printf (.syscallCatched (syscallName host syscall) syscall)
    return .returns false
  else if !isBp then
    return .continues
  else
    return .returns false

/-- The tail of a stop: tell the user about a signal. -/
def reportSignal : Dbg κ AfterStop := do
  let globals ← getGlobals
  Program.when (globals.gSignum != 0) (printf (.interrupted globals.gSignum))
  return .returns false

/-- What follows the breakpoint test. -/
def finishStop (stopsig : BitVec 8) (isBp : Bool) : Dbg κ AfterStop := do
  if stopsig &&& 0x80 ≠ 0 then
    match ← handleSyscallStop host isBp with
    | .continues => return .continues
    | .returns _ => reportSignal
  else
    reportSignal

/-- A stop whose `WSTOPSIG` is `stopsig`. -/
def handleStop (step : Bool) (stopsig : BitVec 8) : Dbg κ AfterStop := do
  modifyGlobals fun globals => { globals with gSignum := (stopsig &&& 0x7F).setWidth 64 }
  let globals ← getGlobals
  if step && globals.gSignum == sigtrap then
    modifyGlobals fun globals => { globals with gSignum := 0 }
    return .returns true
  else
    let rip ← getRegister host .rip
    let addr := rip - 1
    let globals ← getGlobals
    -- `is_breakpoint(addr)` is the test that `get_breakpoint(addr)` is not NULL
    let bp := getBreakpoint globals.gBreakpoints addr
    Program.forSome bp (hitBreakpoint host · addr)
    finishStop host stopsig bp.isSome

/-- The tracee is gone. -/
def handleEnd (wstatus : WStatus) : Dbg κ AfterStop := do
  printf (match wstatus with
    | .exited code => .exited code
    | .signaled signal => .terminated signal
    | _ => .somethingWentWrong)
  modifyGlobals fun globals => { globals with gQuit := true }
  return .returns false

/-- `wait_program` up to its call of `continue_execution`. -/
def waitStop (step : Bool) : Dbg κ AfterStop := do
  let wstatus ← myWait host
  match wstatus.wstopsig with
  | some stopsig => handleStop host step stopsig
  | none => handleEnd wstatus

def waitProgram (continueExecution : Dbg κ Unit) (step : Bool) : Dbg κ Bool := do
  match ← waitStop host step with
  | .returns result => return result
  | .continues =>
      continueExecution
      return false

/-- The resumption in the middle of `single_step`. -/
def stepOnce (continueExecution : Dbg κ Unit) : Dbg κ Bool := do
  let globals ← getGlobals
  let _ ← myPtrace host (.singlestep globals.gSignum)
  modifyGlobals fun globals => { globals with gSignum := 0 }
  waitProgram host continueExecution true

def singleStep (continueExecution : Dbg κ Unit) : Dbg κ Bool := do
  let addr ← getRegister host .rip
  let globals ← getGlobals
  let bp := getBreakpoint globals.gBreakpoints addr
  Program.forSome bp (toggleBreakpoint host)
  let ret ← stepOnce host continueExecution
  Program.forSome bp (toggleBreakpoint host)
  return ret

/-- The resumption at the end of `continue_execution`. -/
def resumeExecution (continueExecution : Dbg κ Unit) : Dbg κ Unit := do
  let globals ← getGlobals
  let _ ← myPtrace host
    (if globals.gSyscalls ≠ [] then .syscall globals.gSignum else .cont globals.gSignum)
  modifyGlobals fun globals => { globals with gSignum := 0 }
  let _ ← waitProgram host continueExecution false
  return ()

def continueExecution : Nat → Dbg κ Unit
  | 0 => Program.noReturn
  | depth + 1 => do
      let addr ← getRegister host .rip
      let globals ← getGlobals
      if isBreakpoint globals.gBreakpoints addr then
        let stepped ← singleStep host (continueExecution depth)
        if stepped then
          resumeExecution host (continueExecution depth)
        else
          return ()
      else
        resumeExecution host (continueExecution depth)

/-! ## Stops -/

section Stops

variable {host}

/-- The state in which a stop is handled. -/
def State.stoppedBy (state : State κ) (wstatus : WStatus) (kernel : κ) : State κ :=
  { state with kernel := kernel }.record (.waited wstatus)

@[simp] theorem State.stoppedBy_globals (state : State κ) (wstatus : WStatus) (kernel : κ) :
    (state.stoppedBy wstatus kernel).globals = state.globals := rfl

@[simp] theorem State.stoppedBy_kernel (state : State κ) (wstatus : WStatus) (kernel : κ) :
    (state.stoppedBy wstatus kernel).kernel = kernel := rfl

@[simp] theorem State.stoppedBy_trace (state : State κ) (wstatus : WStatus) (kernel : κ) :
    (state.stoppedBy wstatus kernel).trace =
      ⟨.waited wstatus, state.globals, kernel⟩ :: state.trace := rfl

theorem wp_waitStop {post : Post MyException (State κ) AfterStop} {state : State κ}
    (step : Bool) (blocked : host.waitpid state.kernel = .blocked → post.noReturn state)
    (failed : ∀ kernel, host.waitpid state.kernel = .failed kernel →
      post.throw .waitException { state with kernel := kernel })
    (stopped : ∀ wstatus kernel stopsig, host.waitpid state.kernel = .status wstatus kernel →
      wstatus.wstopsig = some stopsig →
      wp (handleStop host step stopsig) post (state.stoppedBy wstatus kernel))
    (ended : ∀ wstatus kernel, host.waitpid state.kernel = .status wstatus kernel →
      wstatus.wstopsig = none → wp (handleEnd wstatus) post (state.stoppedBy wstatus kernel)) :
    wp (waitStop host step) post state := by
  unfold waitStop
  rw [wp_bind, wp_myWait]
  refine ⟨blocked, failed, fun wstatus kernel returned => ?_⟩
  change wp (match wstatus.wstopsig with
    | some stopsig => handleStop host step stopsig
    | none => handleEnd wstatus) _ _
  cases status : wstatus.wstopsig with
  | some stopsig => exact stopped wstatus kernel stopsig returned status
  | none => exact ended wstatus kernel returned status

theorem waitStop_stopped {state : State κ} {wstatus : WStatus} {kernel : κ} {stopsig : BitVec 8}
    (stopped : host.waitpid state.kernel = .status wstatus kernel)
    (status : wstatus.wstopsig = some stopsig) (step : Bool) :
    waitStop host step state = handleStop host step stopsig (state.stoppedBy wstatus kernel) := by
  have waits : myWait host state = .ok wstatus (state.stoppedBy wstatus kernel) := by
    simp only [myWait, stopped]
    rfl
  unfold waitStop
  rw [Program.bind_ok waits]
  simp only [status]

/-- Every stop with the mark of a syscall-stop is a SIGTRAP. -/
theorem marked_sigtrap {wstatus : WStatus} {stopsig : BitVec 8}
    (status : wstatus.wstopsig = some stopsig) (marked : stopsig &&& 0x80 ≠ 0) :
    ((stopsig &&& 0x7F).setWidth 64 : Word) = sigtrap := by
  cases wstatus with
  | stopped signal =>
      obtain rfl : signal.setWidth 8 = stopsig := Option.some.inj status
      exact absurd (stopsig_plain signal) marked
  | syscallStop =>
      obtain rfl : (5 ||| 0x80 : BitVec 8) = stopsig := Option.some.inj status
      rfl
  | exited code => cases status
  | signaled signal => cases status
  | other => cases status

/-- The outcome `next` of a stop is a return. -/
def Returning : Post MyException (State κ) AfterStop where
  ok next _ := ∃ result, next = .returns result
  throw _ _ := True
  fault _ := True
  noReturn _ := True

/-- The stop that ends a single step is never followed by a resumption. -/
theorem waitStop_step (state : State κ) : wp (waitStop host true) Returning state := by
  refine wp_waitStop true (fun _ => trivial) (fun _ _ => trivial)
    (fun wstatus kernel stopsig _ status => ?_) fun _ _ _ _ => ⟨false, rfl⟩
  simp only [handleStop, wp_bind, wp_modifyGlobals, wp_getGlobals, wp_ite]
  refine ⟨fun _ => ⟨true, rfl⟩, fun notTrap => ?_⟩
  have plain : ¬ stopsig &&& 0x80 ≠ 0 := fun marked =>
    notTrap (by simpa using marked_sigtrap status marked)
  refine wp_any (fun rip stopped => ?_) (fun _ _ => trivial) (fun _ => trivial) fun _ => trivial
  refine wp_any (fun _ tested => ?_) (fun _ _ => trivial) (fun _ => trivial) fun _ => trivial
  simp only [finishStop, if_neg plain, reportSignal, wp_bind, wp_getGlobals]
  exact wp_any (fun _ reported => ⟨false, rfl⟩) (fun _ _ => trivial) (fun _ => trivial)
    fun _ => trivial

/-- So `single_step` never gets to `continue_execution`. -/
theorem waitProgram_step (continues : Dbg κ Unit) :
    waitProgram host continues true = waitProgram host (pure ()) true := by
  funext state
  have returning : wp (waitStop host true) Returning state := waitStop_step state
  unfold waitProgram
  rw [Program.bind_apply, Program.bind_apply]
  cases outcome : waitStop host true state with
  | ok next after =>
      obtain ⟨result, rfl⟩ := returning.ok outcome
      rfl
  | throw raised after => rfl
  | fault after => rfl
  | noReturn after => rfl

theorem singleStep_eq (continues : Dbg κ Unit) :
    singleStep host continues = singleStep host (pure ()) := by
  unfold singleStep stepOnce
  rw [waitProgram_step]

/-! ## Single steps -/

/-- `single_step` from the breakpoint at an index, once RIP is read. -/
def stepFrom (host : Host κ) (index : Nat) : Dbg κ Bool := do
  toggleBreakpoint host index
  let ret ← stepOnce host (pure ())
  toggleBreakpoint host index
  return ret

variable {state : State κ} {reply : Reply} {index : Nat}

theorem singleStep_unread (refused : (host.ptrace .getregs state.kernel).1 = none) :
    singleStep host (pure ()) state =
      .throw .ptraceException (state.afterPtrace host .getregs) := by
  unfold singleStep
  rw [Program.bind_apply, getRegister_refused .rip refused]

theorem singleStep_hit (answered : (host.ptrace .getregs state.kernel).1 = some reply)
    (hit : getBreakpoint state.globals.gBreakpoints (reply.regs .rip) = some index) :
    singleStep host (pure ()) state = stepFrom host index (state.afterPtrace host .getregs) := by
  unfold singleStep
  rw [Program.bind_ok (getRegister_answered .rip answered),
    Program.bind_ok (rfl : getGlobals _ = _), State.afterPtrace_globals, hit]
  rfl

theorem singleStep_miss (answered : (host.ptrace .getregs state.kernel).1 = some reply)
    (miss : getBreakpoint state.globals.gBreakpoints (reply.regs .rip) = none) :
    singleStep host (pure ()) state =
      stepOnce host (pure ()) (state.afterPtrace host .getregs) := by
  unfold singleStep
  rw [Program.bind_ok (getRegister_answered .rip answered),
    Program.bind_ok (rfl : getGlobals _ = _), State.afterPtrace_globals, miss]
  show (stepOnce host (pure ()) >>= fun ret => pure ret) _ = _
  rw [Program.bind_apply]
  cases stepOnce host (pure ()) (state.afterPtrace host .getregs) <;> rfl

end Stops

end MyDbg
