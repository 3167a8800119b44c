import MyDbg.Debugger.Host
import MyDbg.Exceptions.Basic
import MyDbg.Lib.Program

/-!
Contract: the debugger's global variables and its calls to the kernel.

Owns: the globals of `breakpoints.c`, `syscalls.c` and `binary.c`; the trace,
which keeps what was requested, awaited and printed together with the globals
and the kernel at that moment; `my_ptrace`, `my_wait`, `my_realloc` and the
register accessors of `registers.c`.

Does not own: the functions built from them. The trace is read by no
definition that models a source function.
-/

namespace MyDbg

open LittleEndian ProgramLogic

/-! ## Breakpoints -/

/-- `enum my_bp_flags`, a set of bits. -/
abbrev MyBpFlags := BitVec 32

def myBpTemp : MyBpFlags := 1

def myBpInternal : MyBpFlags := 2

def myBpSyscall : MyBpFlags := 4

/-- `struct my_bp`. For a syscall breakpoint `addr` is the syscall number and
`word` an index into `g_syscalls`; otherwise `word` is the saved memory. -/
structure MyBp where
  id : Nat
  flags : MyBpFlags
  addr : Addr
  word : Word
  enabled : Bool
  deleted : Bool
deriving DecidableEq, Repr

namespace MyBp

/-- `bp->flags & MY_BP_TEMP`. -/
def isTemp (bp : MyBp) : Bool := bp.flags &&& myBpTemp != 0

/-- `bp->flags & MY_BP_INTERNAL`. -/
def isInternal (bp : MyBp) : Bool := bp.flags &&& myBpInternal != 0

/-- `bp->flags & MY_BP_SYSCALL`. -/
def isSyscall (bp : MyBp) : Bool := bp.flags &&& myBpSyscall != 0

end MyBp

/-! ## Globals -/

structure Globals where
  /-- `g_breakpoints`; `g_bp_len` is its length. -/
  gBreakpoints : List MyBp
  /-- `g_syscalls`, NULL when empty; `g_syscalls_nb` is its length. -/
  gSyscalls : List (BitVec 32)
  gSignum : Word
  gSyscallEntry : Bool
  gQuit : Bool

/-- The globals when the debugger starts. -/
def Globals.init : Globals where
  gBreakpoints := []
  gSyscalls := []
  gSignum := 0
  gSyscallEntry := false
  gQuit := false

/-! ## Trace -/

/-- What is printed, with the values printed. -/
inductive Message where
  | breakpointHit (id : Nat) (addr : Addr)
  | syscallCatched (name : Option String) (syscall : BitVec 32)
  | interrupted (signum : Word)
  | exited (code : BitVec 8)
  | terminated (signal : BitVec 7)
  | somethingWentWrong
  | breakpointPlaced (id : Nat) (addr : Addr)
  | linePlaced (addr : Addr)
  | syscallPlaced (name : Option String) (syscall : BitVec 32)
  | symbolNotFound
  | invalidId
  | alreadyDeleted (id : Nat)
  | deleted (id : Nat)
  | continuing
  | stepped (call : Bool) (addr : Addr)
  | continuedTo (addr : Addr)
  | unknownRegister (reg : List Char)
  | invalidAddress
  | invalidNumber
  | noSyscall
  | unknownSyscall (syscall : List Char)
  | instruction (addr : Addr) (mnemonic opStr : List Char)
deriving DecidableEq, Repr

/-- The report of a watched syscall. -/
def Message.catches : Message → Bool
  | .syscallCatched _ _ => true
  | _ => false

inductive Event where
  /-- A ptrace request, and whether the kernel accepted it. -/
  | ptrace (request : Request) (accepted : Bool)
  | waited (wstatus : WStatus)
  /-- `toggle_breakpoint` called on the breakpoint at an index. -/
  | toggle (index : Nat)
  | output (message : Message)

/-- An event with the globals and the kernel when it happened: before the
request for a request, after the wait for a wait. -/
structure Entry (κ : Type) where
  event : Event
  globals : Globals
  kernel : κ

structure State (κ : Type) where
  globals : Globals
  kernel : κ
  /-- Newest first. -/
  trace : List (Entry κ)

/-- A function of the debugger. -/
abbrev Dbg (κ : Type) := Program MyException (State κ)

variable {κ : Type}

namespace State

def withGlobals (state : State κ) (globals : Globals) : State κ :=
  { state with globals := globals }

/-- Add an event that happens now. -/
def record (state : State κ) (event : Event) : State κ :=
  { state with trace := ⟨event, state.globals, state.kernel⟩ :: state.trace }

@[simp] theorem record_globals (state : State κ) (event : Event) :
    (state.record event).globals = state.globals := rfl

@[simp] theorem record_kernel (state : State κ) (event : Event) :
    (state.record event).kernel = state.kernel := rfl

@[simp] theorem record_trace (state : State κ) (event : Event) :
    (state.record event).trace = ⟨event, state.globals, state.kernel⟩ :: state.trace := rfl

@[simp] theorem withGlobals_globals (state : State κ) (globals : Globals) :
    (state.withGlobals globals).globals = globals := rfl

@[simp] theorem withGlobals_kernel (state : State κ) (globals : Globals) :
    (state.withGlobals globals).kernel = state.kernel := rfl

@[simp] theorem withGlobals_trace (state : State κ) (globals : Globals) :
    (state.withGlobals globals).trace = state.trace := rfl

end State

/-- Read the globals. -/
def getGlobals : Dbg κ Globals := Program.gets State.globals

/-- Assign to globals. -/
def modifyGlobals (update : Globals → Globals) : Dbg κ Unit :=
  Program.modify fun state => state.withGlobals (update state.globals)

/-- Note an event. -/
def note (event : Event) : Dbg κ Unit := Program.modify fun state => state.record event

/-- Print. -/
def printf (message : Message) : Dbg κ Unit := note (.output message)

/-- `my_realloc`: `realloc` refuses sizes above PTRDIFF_MAX, and then
`memory_exhausted` exits the debugger. -/
def myRealloc (size : Nat) : Dbg κ Unit :=
  if size < 2 ^ 63 then pure () else Program.noReturn

/-! ## Kernel calls -/

section Kernel

variable (host : Host κ)

/-- The state after a ptrace request: the kernel moved on and the request is in
the trace, with the kernel it was issued to. -/
def State.afterPtrace (state : State κ) (request : Request) : State κ :=
  { state.record (.ptrace request (host.ptrace request state.kernel).1.isSome) with
    kernel := (host.ptrace request state.kernel).2 }

/-- `my_ptrace`. -/
def myPtrace (request : Request) : Dbg κ Reply := fun state =>
  match (host.ptrace request state.kernel).1 with
  | some reply => .ok reply (state.afterPtrace host request)
  | none => .throw .ptraceException (state.afterPtrace host request)

/-- `my_wait`. -/
def myWait : Dbg κ WStatus := fun state =>
  match host.waitpid state.kernel with
  | .blocked => .noReturn state
  | .failed kernel => .throw .waitException { state with kernel := kernel }
  | .status wstatus kernel =>
      .ok wstatus ({ state with kernel := kernel }.record (.waited wstatus))

/-- `get_register`. -/
def getRegister (reg : MyReg) : Dbg κ Word := do
  let reply ← myPtrace host .getregs
  return reply.regs reg

/-- `set_register`. -/
def setRegister (reg : MyReg) (value : Word) : Dbg κ Unit := do
  let reply ← myPtrace host .getregs
  let _ ← myPtrace host (.setregs (Function.update reply.regs reg value))
  return ()

end Kernel

/-! ## Weakest preconditions of the primitives -/

section Rules

variable {host : Host κ} {state : State κ}

@[simp] theorem State.afterPtrace_globals (request : Request) :
    (state.afterPtrace host request).globals = state.globals := rfl

@[simp] theorem State.afterPtrace_kernel (request : Request) :
    (state.afterPtrace host request).kernel = (host.ptrace request state.kernel).2 := rfl

@[simp] theorem State.afterPtrace_trace (request : Request) :
    (state.afterPtrace host request).trace =
      ⟨.ptrace request (host.ptrace request state.kernel).1.isSome, state.globals,
        state.kernel⟩ :: state.trace := rfl

@[simp] theorem wp_getGlobals {post : Post MyException (State κ) Globals} :
    wp getGlobals post state ↔ post.ok state.globals state := Iff.rfl

@[simp] theorem wp_modifyGlobals {post : Post MyException (State κ) Unit}
    (update : Globals → Globals) :
    wp (modifyGlobals update) post state ↔
      post.ok () (state.withGlobals (update state.globals)) := Iff.rfl

@[simp] theorem wp_note {post : Post MyException (State κ) Unit} (event : Event) :
    wp (note event) post state ↔ post.ok () (state.record event) := Iff.rfl

@[simp] theorem wp_printf {post : Post MyException (State κ) Unit} (message : Message) :
    wp (printf message) post state ↔ post.ok () (state.record (.output message)) := Iff.rfl

theorem wp_myRealloc {post : Post MyException (State κ) Unit} (size : Nat) :
    wp (myRealloc size) post state ↔
      (size < 2 ^ 63 → post.ok () state) ∧ (¬ size < 2 ^ 63 → post.noReturn state) := by
  unfold myRealloc
  rw [wp_ite]
  simp

/-- A request either succeeds or raises, and is in the trace either way. -/
theorem wp_myPtrace {post : Post MyException (State κ) Reply} (request : Request) :
    wp (myPtrace host request) post state ↔
      (∀ reply, (host.ptrace request state.kernel).1 = some reply →
        post.ok reply (state.afterPtrace host request)) ∧
      ((host.ptrace request state.kernel).1 = none →
        post.throw .ptraceException (state.afterPtrace host request)) := by
  unfold wp myPtrace
  cases (host.ptrace request state.kernel).1 <;> simp [Post.Holds]

theorem getRegister_answered {reply : Reply} (reg : MyReg)
    (answered : (host.ptrace .getregs state.kernel).1 = some reply) :
    getRegister host reg state = .ok (reply.regs reg) (state.afterPtrace host .getregs) := by
  unfold getRegister
  rw [Program.bind_apply, myPtrace, answered]
  rfl

theorem getRegister_refused (reg : MyReg)
    (refused : (host.ptrace .getregs state.kernel).1 = none) :
    getRegister host reg state = .throw .ptraceException (state.afterPtrace host .getregs) := by
  unfold getRegister
  rw [Program.bind_apply, myPtrace, refused]

theorem wp_getRegister {post : Post MyException (State κ) Word} (reg : MyReg) :
    wp (getRegister host reg) post state ↔
      (∀ reply, (host.ptrace .getregs state.kernel).1 = some reply →
        post.ok (reply.regs reg) (state.afterPtrace host .getregs)) ∧
      ((host.ptrace .getregs state.kernel).1 = none →
        post.throw .ptraceException (state.afterPtrace host .getregs)) := by
  unfold getRegister
  rw [wp_bind, wp_myPtrace]
  rfl

/-- A wait blocks, raises, or returns a status. -/
theorem wp_myWait {post : Post MyException (State κ) WStatus} :
    wp (myWait host) post state ↔
      (host.waitpid state.kernel = .blocked → post.noReturn state) ∧
      (∀ kernel, host.waitpid state.kernel = .failed kernel →
        post.throw .waitException { state with kernel := kernel }) ∧
      (∀ wstatus kernel, host.waitpid state.kernel = .status wstatus kernel →
        post.ok wstatus ({ state with kernel := kernel }.record (.waited wstatus))) := by
  unfold wp myWait
  cases host.waitpid state.kernel <;> simp [Post.Holds]

end Rules

end MyDbg
