import MyDbg.Lib.LittleEndian

/-!
Contract: what the debugger calls outside its own sources.

Owns: the ptrace requests and wait statuses it uses, and `Host`, the kernel
with the tracee and the libraries behind one interface whose state is
arbitrary. Every call may fail, and a failure may change the state too.

Does not own: any law about them; a result names the laws it needs.
-/

namespace MyDbg

open LittleEndian

/-- `enum my_reg`. -/
inductive MyReg where
  | rip | rsp | rbp | eflags | origRax
  | rax | rbx | rcx | rdx | rdi | rsi
  | r8 | r9 | r10 | r11 | r12 | r13 | r14 | r15
  | cs | ds | es | fs | gs | ss | fsBase | gsBase
deriving DecidableEq, Repr

/-- The registers of `struct user_regs_struct` that `enum my_reg` names. -/
abbrev UserRegs := MyReg → Word

/-- The requests passed to `ptrace`, each with the arguments it uses. -/
inductive Request where
  | peekdata (addr : Addr)
  | pokedata (addr : Addr) (data : Word)
  | getregs
  | setregs (regs : UserRegs)
  | cont (data : Word)
  | syscall (data : Word)
  | singlestep (data : Word)

/-- The signal a request resumes the tracee with, if it resumes it. -/
def Request.resumes : Request → Option Word
  | .cont data => some data
  | .syscall data => some data
  | .singlestep data => some data
  | _ => none

/-- The value `ptrace` returns and the registers it stores. -/
structure Reply where
  ret : Word
  regs : UserRegs

/-- What `waitpid` stores in `*wstatus`. Signal numbers are below 128; under
`PTRACE_O_TRACESYSGOOD` bit `0x80` is set on the SIGTRAP of a syscall-stop only. -/
inductive WStatus where
  | stopped (signal : BitVec 7)
  | syscallStop
  | exited (status : BitVec 8)
  | signaled (signal : BitVec 7)
  | other
deriving DecidableEq, Repr

def sigtrap : Word := 5

/-- `WSTOPSIG`, when `WIFSTOPPED`. -/
def WStatus.wstopsig : WStatus → Option (BitVec 8)
  | .stopped signal => some (signal.setWidth 8)
  | .syscallStop => some (5 ||| 0x80)
  | _ => none

/-- A plain SIGTRAP: the trap of an `int3`, of a finished single step, or sent
from outside. -/
def WStatus.plainTrap : WStatus := .stopped 5

/-- The signal number `wait_program` takes out of a stop. -/
theorem stopsig_signal (signal : BitVec 7) :
    ((signal.setWidth 8 &&& (0x7F : BitVec 8)).setWidth 64 : Word) = signal.setWidth 64 := by
  revert signal
  decide

theorem stopsig_plain (signal : BitVec 7) : signal.setWidth 8 &&& (0x80 : BitVec 8) = 0 := by
  revert signal
  decide

theorem signal_eq_sigtrap (signal : BitVec 7) :
    (signal.setWidth 64 : Word) = sigtrap ↔ signal = 5 := by
  revert signal
  decide

inductive WaitResult (κ : Type) where
  | blocked
  | failed (kernel : κ)
  | status (wstatus : WStatus) (kernel : κ)

/-- The first instruction `cs_disasm` finds. -/
structure CsInsn where
  mnemonic : List Char
  opStr : List Char
  size : Nat

/-- The kernel with the tracee (state `κ`), capstone, libunwind and the system
call numbers of the system's headers. -/
structure Host (κ : Type) where
  /-- `none` is a request that sets `errno`. -/
  ptrace : Request → κ → Option Reply × κ
  waitpid : κ → WaitResult κ
  /-- `/proc/<pid>/mem`; `none` where nothing is mapped. -/
  procMem : κ → Addr → Option Byte
  csDisasm : List Byte → Option CsInsn
  /-- The instruction pointer of the caller's frame. -/
  unwindCaller : κ → Option Addr
  /-- `CASES_SYSCALL` in order, with the numbers of `<sys/syscall.h>`. -/
  syscallNumbers : List (String × BitVec 32)

end MyDbg
