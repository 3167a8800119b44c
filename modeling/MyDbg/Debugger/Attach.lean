import MyDbg.Debugger.Host
import MyDbg.Exceptions.Basic
import MyDbg.Lib.Program

/-!
Contract: attaching to a running process.

Owns: `attach_process`, with `my_ptrace` and `my_wait` as it uses them and the
modules it sets up; the kernel, which may answer every step in any way; and
exactly when a process is attached as a whole or left alone.

Does not own: the command line, and what is done with an attached process.
-/

namespace MyDbg.Attach

open LittleEndian ProgramLogic

abbrev Pid := BitVec 32

/-- 0 where no error occurred. -/
abbrev Errno := BitVec 32

def eio : Errno := 5

def ptraceAttach : Word := 16

def ptraceSetoptions : Word := 0x4200

/-- The numbers of `enum __ptrace_request`. -/
def ptraceRequests : List Word :=
  [0, 1, 2, 3, 4, 5, 6, 7, 8, 9, 12, 13, 14, 15, ptraceAttach, 17, 18, 19, 24, 25, 26, 30, 31,
    32, 33, ptraceSetoptions, 0x4201, 0x4202, 0x4203, 0x4204, 0x4205, 0x4206, 0x4207, 0x4208,
    0x4209, 0x420a, 0x420b, 0x420c, 0x420d, 0x420e, 0x420f, 0x4210, 0x4211]

def ptraceOTracesysgood : Word := 1

def ptraceOExitkill : Word := 0x100000

def gOptions : Word := ptraceOExitkill ||| ptraceOTracesysgood

def sigstop : BitVec 8 := 19

/-! ## The kernel -/

structure PtraceAnswer (κ : Type) where
  ret : Word
  errno : Errno
  kernel : κ

/-- What a debugger asks the kernel for. `Traced`, `Stopped` and `options` tell what it
has made of a process. -/
structure PtraceKernel (κ : Type) where
  ptrace (request : Word) (pid : Pid) (addr data : Word) (kernel : κ) : PtraceAnswer κ
  waitpid : Pid → κ → WaitResult κ
  Traced : κ → Pid → Prop
  Stopped : κ → Pid → Prop
  options : κ → Pid → Word
  rejects : ∀ request, request ∉ ptraceRequests → ∀ pid addr data kernel,
    ptrace request pid addr data kernel = ⟨-1, eio, kernel⟩
  /-- Only a tracee is stopped by its debugger. -/
  traced_of_stopped : ∀ kernel pid, Stopped kernel pid → Traced kernel pid
  /-- Only of a tracee a stop is reported. -/
  traced_of_reported : ∀ pid kernel wstatus after, waitpid pid kernel = .status wstatus after →
    wstatus.wstopsig ≠ none → Traced after pid

/-- What libunwind can allocate. -/
structure Unwinder where
  createsAddrSpace : Bool
  createsInfo : Bool

structure Globals (κ : Type) where
  gPid : Pid
  addrSpace : Bool
  info : Option Pid
  kernel : κ

/-! ## The code -/

section Code

variable {κ : Type} (kernel : PtraceKernel κ) (unwinder : Unwinder)

abbrev Dbg (κ : Type) := Program MyException (Globals κ)

def myPtrace (request addr data : Word) : Dbg κ Word := do
  let gPid ← Program.gets Globals.gPid
  let before ← Program.gets Globals.kernel
  let answer := kernel.ptrace request gPid addr data before
  Program.modify fun globals => { globals with kernel := answer.kernel }
  if answer.errno ≠ 0 then Program.throw .ptraceException else return answer.ret

def myWait : Dbg κ WStatus := do
  let gPid ← Program.gets Globals.gPid
  let before ← Program.gets Globals.kernel
  match kernel.waitpid gPid before with
  | .blocked => Program.noReturn
  | .failed after => do
      Program.modify fun globals => { globals with kernel := after }
      Program.throw .waitException
  | .status wstatus after => do
      Program.modify fun globals => { globals with kernel := after }
      return wstatus

/-- Without memory for `info`, the program exits. -/
def initLibunwind : Dbg κ Unit := do
  Program.modify fun globals => { globals with addrSpace := unwinder.createsAddrSpace }
  if unwinder.createsAddrSpace then
    if unwinder.createsInfo then
      Program.modify fun globals => { globals with info := some globals.gPid }
    else
      Program.noReturn
  else
    return ()

def setupModules : Dbg κ Unit := initLibunwind unwinder

/-- What `attach_process` tries. -/
def requestAttach : Dbg κ Unit := do
  let _ ← myPtrace kernel ptraceAttach 0 0
  let wstatus ← myWait kernel
  Program.when (wstatus.wstopsig ≠ some sigstop) (Program.throw .waitException)
  let _ ← myPtrace kernel ptraceOExitkill 0 gOptions
  return ()

def attachProcess (pid : Pid) : Dbg κ Unit := do
  Program.modify fun globals => { globals with gPid := pid }
  let myEx ← (requestAttach kernel).attempt (fun _ => pure .none)
    (fun ex => if ex = .ptraceException ∨ ex = .waitException then pure ex
      else Program.throw ex)
  if myEx ≠ .none then
    Program.modify fun globals => { globals with gPid := 0 }
    Program.throw myEx
  else
    setupModules unwinder

end Code

/-! ## All or nothing -/

section Attach

variable {κ : Type} (kernel : PtraceKernel κ) (unwinder : Unwinder) (pid : Pid)
  (before : Globals κ)

/-- `pid` is attached. -/
def Attached (after : Globals κ) : Prop :=
  after.gPid = pid ∧ kernel.Traced after.kernel pid ∧
    kernel.options after.kernel pid &&& gOptions = gOptions

/-- `pid` is left alone. -/
def LeftAlone (after : Globals κ) : Prop :=
  after.gPid = 0 ∧ ¬ kernel.Traced after.kernel pid ∧ ¬ kernel.Stopped after.kernel pid

/-- The kernel's answer to `PTRACE_ATTACH`. -/
def answer : PtraceAnswer κ := kernel.ptrace ptraceAttach pid 0 0 before.kernel

/-- The kernel accepts each request, and the process stops as it is to. -/
def Accepts : Prop :=
  (answer kernel pid before).errno = 0 ∧ ∃ stopped,
    kernel.waitpid pid (answer kernel pid before).kernel = .status (.stopped 19) stopped ∧
      (kernel.ptrace ptraceSetoptions pid 0 gOptions stopped).errno = 0

/-- The process is attached or left alone, and attached if the kernel allows it. -/
def AllOrNothing : Prop :=
  wp (attachProcess kernel unwinder pid)
      { ok := fun _ => Attached kernel pid
        throw := fun _ => LeftAlone kernel pid
        fault := fun _ => False
        noReturn := fun _ => False } before ∧
    (Accepts kernel pid before →
      wp (attachProcess kernel unwinder pid)
        { ok := fun _ => Attached kernel pid
          throw := fun _ _ => False
          fault := fun _ => False
          noReturn := fun _ => False } before)

/-- The condition: the request is refused, or the wait for the process comes back
without it. -/
def Escapes : Prop :=
  if (answer kernel pid before).errno ≠ 0 then
    ¬ kernel.Traced (answer kernel pid before).kernel pid
  else
    match kernel.waitpid pid (answer kernel pid before).kernel with
    | .blocked => False
    | .failed after => ¬ kernel.Traced after pid
    | .status _ after => ¬ kernel.Traced after pid

/-! ## How it ends -/

variable {kernel unwinder pid before}

theorem attachProcess_raises {raised : MyException} {after : Globals κ}
    (caught : raised = .ptraceException ∨ raised = .waitException)
    (raises : requestAttach kernel { before with gPid := pid } = .throw raised after) :
    attachProcess kernel unwinder pid before = .throw raised { after with gPid := 0 } := by
  have some : raised ≠ .none := by
    rcases caught with rfl | rfl
    · decide
    · decide
  have handled : ((requestAttach kernel).attempt (fun _ => pure .none)
      (fun ex => if ex = .ptraceException ∨ ex = .waitException then pure ex
        else Program.throw ex)) { before with gPid := pid } = .ok raised after := by
    rw [Program.attempt_apply, raises]
    dsimp only
    rw [if_pos caught]
    rfl
  unfold attachProcess
  refine (Program.bind_ok rfl).trans ((Program.bind_ok handled).trans ?_)
  rw [if_pos some]
  rfl

theorem attachProcess_blocks {after : Globals κ}
    (blocks : requestAttach kernel { before with gPid := pid } = .noReturn after) :
    attachProcess kernel unwinder pid before = .noReturn after := by
  unfold attachProcess
  refine (Program.bind_ok rfl).trans ?_
  rw [Program.bind_apply, Program.attempt_apply, blocks]

theorem myPtrace_refused {request addr data : Word} {globals : Globals κ}
    (refused : (kernel.ptrace request globals.gPid addr data globals.kernel).errno ≠ 0) :
    myPtrace kernel request addr data globals = .throw .ptraceException
      { globals with
        kernel := (kernel.ptrace request globals.gPid addr data globals.kernel).kernel } := by
  change (if _ then Program.throw _ else pure _) _ = _
  rw [if_pos refused]
  rfl

theorem myPtrace_accepted {request addr data : Word} {globals : Globals κ}
    (accepted : (kernel.ptrace request globals.gPid addr data globals.kernel).errno = 0) :
    myPtrace kernel request addr data globals =
      .ok (kernel.ptrace request globals.gPid addr data globals.kernel).ret
        { globals with
          kernel := (kernel.ptrace request globals.gPid addr data globals.kernel).kernel } := by
  change (if _ then Program.throw _ else pure _) _ = _
  rw [if_neg (not_not.mpr accepted)]
  rfl

/-- Options are asked for by a number that is no request. -/
theorem myPtrace_exitkill (globals : Globals κ) :
    myPtrace kernel ptraceOExitkill 0 gOptions globals = .throw .ptraceException globals := by
  have rejected : kernel.ptrace ptraceOExitkill globals.gPid 0 gOptions globals.kernel =
      ⟨-1, eio, globals.kernel⟩ :=
    kernel.rejects ptraceOExitkill (by decide) globals.gPid 0 gOptions globals.kernel
  have refused : (kernel.ptrace ptraceOExitkill globals.gPid 0 gOptions globals.kernel).errno ≠
      0 := by
    rw [rejected]
    exact (by decide : eio ≠ 0)
  rw [myPtrace_refused refused, rejected]

theorem myWait_blocked {globals : Globals κ}
    (waits : kernel.waitpid globals.gPid globals.kernel = .blocked) :
    myWait kernel globals = .noReturn globals := by
  refine (Program.bind_ok rfl).trans ((Program.bind_ok rfl).trans ?_)
  rw [waits]
  rfl

theorem myWait_failed {globals : Globals κ} {after : κ}
    (waits : kernel.waitpid globals.gPid globals.kernel = .failed after) :
    myWait kernel globals = .throw .waitException { globals with kernel := after } := by
  refine (Program.bind_ok rfl).trans ((Program.bind_ok rfl).trans ?_)
  rw [waits]
  rfl

theorem myWait_status {globals : Globals κ} {wstatus : WStatus} {after : κ}
    (waits : kernel.waitpid globals.gPid globals.kernel = .status wstatus after) :
    myWait kernel globals = .ok wstatus { globals with kernel := after } := by
  refine (Program.bind_ok rfl).trans ((Program.bind_ok rfl).trans ?_)
  rw [waits]
  rfl

/-- The globals when an answer of the kernel has come. -/
def during (pid : Pid) (before : Globals κ) (after : κ) : Globals κ :=
  { before with gPid := pid, kernel := after }

theorem requestAttach_refused (refused : (answer kernel pid before).errno ≠ 0) :
    requestAttach kernel { before with gPid := pid } =
      .throw .ptraceException (during pid before (answer kernel pid before).kernel) := by
  have raises : myPtrace kernel ptraceAttach 0 0 { before with gPid := pid } = _ :=
    myPtrace_refused refused
  exact Program.bind_throw raises

section Accepted

variable (accepted : (answer kernel pid before).errno = 0)

include accepted

/-- The rest of the requests, once the first is accepted. -/
theorem requestAttach_accepted :
    requestAttach kernel { before with gPid := pid } = (do
      let wstatus ← myWait kernel
      Program.when (wstatus.wstopsig ≠ some sigstop) (Program.throw .waitException)
      let _ ← myPtrace kernel ptraceOExitkill 0 gOptions
      return ()) (during pid before (answer kernel pid before).kernel) := by
  have ends : myPtrace kernel ptraceAttach 0 0 { before with gPid := pid } = _ :=
    myPtrace_accepted accepted
  exact Program.bind_ok ends

theorem requestAttach_blocked
    (waits : kernel.waitpid pid (answer kernel pid before).kernel = .blocked) :
    requestAttach kernel { before with gPid := pid } =
      .noReturn (during pid before (answer kernel pid before).kernel) := by
  have wait : myWait kernel (during pid before (answer kernel pid before).kernel) = _ :=
    myWait_blocked waits
  rw [requestAttach_accepted accepted, Program.bind_apply, wait]

theorem requestAttach_failed {after : κ}
    (waits : kernel.waitpid pid (answer kernel pid before).kernel = .failed after) :
    requestAttach kernel { before with gPid := pid } =
      .throw .waitException (during pid before after) := by
  have wait : myWait kernel (during pid before (answer kernel pid before).kernel) = _ :=
    myWait_failed waits
  rw [requestAttach_accepted accepted]
  exact Program.bind_throw wait

/-- Whatever the wait reports, an exception follows. -/
theorem requestAttach_status {wstatus : WStatus} {after : κ}
    (waits : kernel.waitpid pid (answer kernel pid before).kernel = .status wstatus after) :
    ∃ raised, (raised = .ptraceException ∨ raised = .waitException) ∧
      requestAttach kernel { before with gPid := pid } =
        .throw raised (during pid before after) := by
  have wait : myWait kernel (during pid before (answer kernel pid before).kernel) =
      .ok wstatus (during pid before after) :=
    myWait_status waits
  rw [requestAttach_accepted accepted, Program.bind_ok wait]
  by_cases stop : wstatus.wstopsig = some sigstop
  · refine ⟨.ptraceException, .inl rfl, ?_⟩
    have goesOn : (Program.when (decide (wstatus.wstopsig ≠ some sigstop))
        (Program.throw .waitException) : Dbg κ Unit) = pure () := by
      rw [decide_eq_false (not_not.mpr stop)]
      rfl
    rw [goesOn]
    exact (Program.bind_ok rfl).trans (Program.bind_throw (myPtrace_exitkill _))
  · refine ⟨.waitException, .inr rfl, ?_⟩
    rw [decide_eq_true stop]
    rfl

end Accepted

/-- After an exception, the kernel is as its last answer left it. -/
theorem allOrNothing_of_raises {raised : MyException} {after : κ}
    (caught : raised = .ptraceException ∨ raised = .waitException)
    (raises : requestAttach kernel { before with gPid := pid } =
      .throw raised (during pid before after))
    (kept : Accepts kernel pid before → kernel.Traced after pid) :
    AllOrNothing kernel unwinder pid before ↔ ¬ kernel.Traced after pid := by
  have ends : attachProcess kernel unwinder pid before =
      .throw raised { during pid before after with gPid := 0 } :=
    attachProcess_raises caught raises
  unfold AllOrNothing wp
  rw [ends]
  constructor
  · rintro ⟨⟨_, free, _⟩, _⟩
    exact free
  · intro free
    have notStopped : ¬ kernel.Stopped after pid :=
      fun stopped => free (kernel.traced_of_stopped after pid stopped)
    exact ⟨⟨rfl, free, notStopped⟩, fun accepts => absurd (kept accepts) free⟩

/-- Attaching is all or nothing exactly if it comes to nothing. -/
theorem attachProcess_iff (kernel : PtraceKernel κ) (unwinder : Unwinder) (pid : Pid)
    (before : Globals κ) :
    AllOrNothing kernel unwinder pid before ↔ Escapes kernel pid before := by
  unfold Escapes
  by_cases accepted : (answer kernel pid before).errno = 0
  · rw [if_neg (not_not.mpr accepted)]
    cases waits : kernel.waitpid pid (answer kernel pid before).kernel with
    | blocked =>
        have ends : attachProcess kernel unwinder pid before = .noReturn _ :=
          attachProcess_blocks (requestAttach_blocked accepted waits)
        refine iff_of_false ?_ not_false
        rintro ⟨returns, _⟩
        unfold wp at returns
        rw [ends] at returns
        exact returns
    | failed after =>
        refine allOrNothing_of_raises (.inr rfl) (requestAttach_failed accepted waits) ?_
        rintro ⟨_, stopped, reported, _⟩
        rw [waits] at reported
        cases reported
    | status wstatus after =>
        obtain ⟨raised, caught, raises⟩ := requestAttach_status accepted waits
        refine allOrNothing_of_raises caught raises ?_
        rintro ⟨_, stopped, reported, _⟩
        rw [waits] at reported
        obtain ⟨rfl, rfl⟩ := WaitResult.status.inj reported
        exact kernel.traced_of_reported pid _ _ _ waits nofun
  · rw [if_pos accepted]
    refine allOrNothing_of_raises (.inl rfl) (requestAttach_refused accepted) ?_
    rintro ⟨none, _⟩
    exact absurd none accepted

end Attach

/-! ## A kernel that refuses nothing -/

/-- There is one process; the state is the options it is traced with. -/
def obedient : PtraceKernel (Option Word) where
  ptrace request _ _ data options :=
    if request ∉ ptraceRequests then ⟨-1, eio, options⟩
    else if request = ptraceAttach then ⟨0, 0, some 0⟩
    else if request = ptraceSetoptions then ⟨0, 0, options.map fun _ => data⟩
    else ⟨0, 0, options⟩
  waitpid _ options :=
    match options with
    | some options => .status (.stopped 19) (some options)
    | none => .failed none
  Traced options _ := options.isSome
  Stopped options _ := options.isSome
  options options _ := options.getD 0
  rejects _ unknown _ _ _ _ := if_pos unknown
  traced_of_stopped _ _ stopped := stopped
  traced_of_reported _ options _ _ waits _ := by
    cases options with
    | some options =>
        obtain ⟨_, rfl⟩ := WaitResult.status.inj waits
        rfl
    | none => cases waits

/-- The process stays a tracee of which the debugger knows nothing. -/
theorem attachProcess_obedient : ¬ ∀ (κ : Type) (kernel : PtraceKernel κ)
    (unwinder : Unwinder) (pid : Pid) (before : Globals κ),
      AllOrNothing kernel unwinder pid before := by
  intro all
  have both := all _ obedient ⟨true, true⟩ 42 ⟨0, false, none, none⟩
  have ends : attachProcess obedient ⟨true, true⟩ 42 ⟨0, false, none, none⟩ =
      .throw .ptraceException ⟨0, false, none, some 0⟩ := rfl
  unfold AllOrNothing wp at both
  rw [ends] at both
  exact both.1.2.1 rfl

end MyDbg.Attach
