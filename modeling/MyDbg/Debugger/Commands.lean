import MyDbg.Debugger.Binary
import MyDbg.Lib.Transition

/-!
Contract: the commands that place, delete and run into breakpoints.

Owns: `cmd_break`, `cmd_tbreak`, `cmd_breakf`, `cmd_breakl`, `cmd_breaks`,
`cmd_break_del`, `cmd_step_instr`, `cmd_next_instr`, `cmd_finish` and
`cmd_continue` after their arguments are parsed; `read_memory`,
`get_instruction` and `get_finish_address`, which they call; and the runs of a
debugging session, one command after the other.

Does not own: parsing, and the lookups behind `breakf` and `breakl`, whose
result is the command's argument here.
-/

namespace MyDbg

open LittleEndian ProgramLogic Transition

variable {κ : Type}

/-! ## Reading instructions -/

/-- `read_memory`: `pread` reads less than asked where a byte is not mapped. -/
def readMemory (host : Host κ) (addr : Addr) (size : Nat) : Dbg κ (List Byte) := fun state =>
  match readBytes (host.procMem state.kernel) addr size with
  | some bytes => .ok bytes state
  | none => .throw .memoryException state

/-- `struct my_instr`. -/
structure MyInstr where
  str : List Char
  size : Nat

/-- `cs_open` succeeds, and there is memory for the text: where not, `DisasmException` or
`MemoryException` is raised as well. -/
def getInstruction (host : Host κ) (addr : Addr) : Dbg κ MyInstr := do
  let mem ← readMemory host addr 16
  match host.csDisasm mem with
  | some insn => return { str := insn.mnemonic ++ insn.opStr ++ ['\n'], size := insn.size }
  | none => Program.throw .disasmException

def getCurrentInstruction (host : Host κ) : Dbg κ MyInstr := do
  let addr ← getRegister host .rip
  getInstruction host addr

/-- `get_finish_address`, with what libunwind answers. -/
def getFinishAddress (host : Host κ) : Dbg κ Addr := do
  let caller ← Program.gets fun state => host.unwindCaller state.kernel
  match caller with
  | some ip =>
      let instr ← getInstruction host ip
      return ip + BitVec.ofNat 64 instr.size
  | none => Program.throw .unwindException

/-- `starts_with`. -/
def startsWith (haystack needle : List Char) : Bool :=
  if haystack.length < needle.length then false
  else haystack.take needle.length == needle

/-! ## Commands -/

inductive Command where
  | break (addr : Addr)
  | tbreak (addr : Addr)
  /-- NULL when the symbol is not found. -/
  | breakf (addr : Addr)
  | breakl (addr : Addr)
  | breaks (syscall : BitVec 32)
  | breakDel (id : Nat)
  | stepInstr
  | nextInstr
  | finish
  | continue
deriving DecidableEq, Repr

def Command.deletes : Command → Bool
  | .breakDel _ => true
  | _ => false

section Commands

variable (host : Host κ)

def cmdBreak (addr : Addr) : Dbg κ Unit := do
  let nb ← placeBreakpoint host addr 0
  printf (.breakpointPlaced nb addr)

def cmdTbreak (addr : Addr) : Dbg κ Unit := do
  let nb ← placeBreakpoint host addr myBpTemp
  printf (.breakpointPlaced nb addr)

def cmdBreakf (addr : Addr) : Dbg κ Unit :=
  if addr = 0 then
    printf .symbolNotFound
  else do
    let nb ← placeBreakpoint host addr 0
    printf (.breakpointPlaced nb addr)

def cmdBreakl (addr : Addr) : Dbg κ Unit := do
  let _ ← placeBreakpoint host addr (myBpTemp ||| myBpInternal)
  printf (.linePlaced addr)

def cmdBreaks (syscall : BitVec 32) : Dbg κ Unit := do
  addSyscallBreak host syscall
  printf (.syscallPlaced (syscallName host syscall) syscall)

/-- The breakpoint `break_del` accepts an ID for. -/
def acceptedId (breakpoints : List MyBp) (nb : Nat) : Option MyBp :=
  if nb = 0 ∨ breakpoints.length < nb then none
  else breakpoints[nb - 1]?.filter (!·.deleted)

def cmdBreakDel (nb : Nat) : Dbg κ Unit := do
  let globals ← getGlobals
  if nb = 0 ∨ globals.gBreakpoints.length < nb then
    printf .invalidId
  else
    let bp ← breakpointAt (nb - 1)
    if bp.deleted then
      printf (.alreadyDeleted nb)
    else
      storeBreakpoint (nb - 1) { bp with deleted := true }
      storeSyscall bp.word.toNat (-1)
      printf (.deleted nb)

def cmdStepInstr (depth : Nat) : Dbg κ Unit := do
  let _ ← singleStep host (continueExecution host depth)
  let rip ← getRegister host .rip
  printf (.stepped false rip)

/-- The two ways `cmd_next_instr` runs the tracee: over a call to the
instruction at `next`, or by one instruction. -/
def runNext (depth : Nat) (overCall : Bool) (next : Addr) : Dbg κ Unit :=
  if overCall then do
    let _ ← placeBreakpoint host next (myBpTemp ||| myBpInternal)
    continueExecution host depth
  else do
    let _ ← singleStep host (continueExecution host depth)
    return ()

def cmdNextInstr (depth : Nat) : Dbg κ Unit := do
  let rip ← getRegister host .rip
  let instr ← getCurrentInstruction host
  let overCall := startsWith instr.str ['c', 'a', 'l', 'l']
  runNext host depth overCall (rip + BitVec.ofNat 64 instr.size)
  let globals ← getGlobals
  if globals.gQuit then
    return ()
  else
    let rip ← getRegister host .rip
    printf (.stepped overCall rip)

def cmdFinish (depth : Nat) : Dbg κ Unit := do
  let addr ← getFinishAddress host
  let _ ← placeBreakpoint host addr (myBpTemp ||| myBpInternal)
  continueExecution host depth
  printf (.continuedTo addr)

def cmdContinue (depth : Nat) : Dbg κ Unit := do
  printf .continuing
  continueExecution host depth

/-- Run one command; `depth` bounds the nested calls of `continue_execution`. -/
def exec (depth : Nat) : Command → Dbg κ Unit
  | .break addr => cmdBreak host addr
  | .tbreak addr => cmdTbreak host addr
  | .breakf addr => cmdBreakf host addr
  | .breakl addr => cmdBreakl host addr
  | .breaks syscall => cmdBreaks host syscall
  | .breakDel nb => cmdBreakDel nb
  | .stepInstr => cmdStepInstr host depth
  | .nextInstr => cmdNextInstr host depth
  | .finish => cmdFinish host depth
  | .continue => cmdContinue host depth

end Commands

/-! ## Sessions -/

/-- How a command gets back to the prompt. -/
inductive Return where
  | normal
  | raised (raised : MyException)
deriving DecidableEq, Repr

/-- One line of a session: the command, the recursion it was given and how it
came back to the prompt. -/
structure Line where
  command : Command
  depth : Nat
  back : Return

/-- The command of `line` leads from one prompt to the next. -/
def Prompt (host : Host κ) (line : Line) (before after : State κ) : Prop :=
  match line.back with
  | .normal => exec host line.depth line.command before = .ok () after
  | .raised raised => exec host line.depth line.command before = .throw raised after

/-- A session: the prompts reached from one state by any commands. -/
abbrev Session (host : Host κ) : State κ → List Line → State κ → Prop :=
  Run (Prompt host)

/-- The debugger attached to a stopped tracee, before the first command. -/
def State.start (kernel : κ) : State κ where
  globals := Globals.init
  kernel := kernel
  trace := []

/-- What happened since `before`. -/
def State.newEntries (before after : State κ) : List (Entry κ) :=
  after.trace.take (after.trace.length - before.trace.length)

theorem newEntries_eq {before after : State κ} {new : List (Entry κ)}
    (split : after.trace = new ++ before.trace) : before.newEntries after = new := by
  simp [State.newEntries, split]

/-- The prompt that `line` leads to, if it comes back as it says. -/
def Line.next (host : Host κ) (before : State κ) (line : Line) : Option (State κ) :=
  match exec host line.depth line.command before, line.back with
  | .ok _ after, .normal => some after
  | .throw raised after, .raised expected => if raised = expected then some after else none
  | _, _ => none

theorem Line.next_eq_some {host : Host κ} {before after : State κ} {line : Line} :
    line.next host before = some after ↔ Prompt host line before after := by
  unfold Line.next Prompt
  cases back : line.back with
  | normal => cases exec host line.depth line.command before <;> simp
  | raised expected => cases exec host line.depth line.command before <;> simp

/-- Run lines that all pass `check`. -/
def replay (host : Host κ) (check : Line → State κ → State κ → Bool) (first : State κ) :
    List Line → Option (State κ)
  | [] => some first
  | line :: rest => do
      let after ← line.next host first
      if check line first after then replay host check after rest else none

theorem run_replay {host : Host κ} {check : Line → State κ → State κ → Bool}
    {step : Line → State κ → State κ → Prop}
    (checked : ∀ line before after, Prompt host line before after →
      check line before after = true → step line before after)
    {lines : List Line} {first last : State κ}
    (replayed : replay host check first lines = some last) : Run step first lines last := by
  induction lines generalizing first with
  | nil =>
      obtain rfl := Option.some.inj replayed
      exact .refl
  | cons line rest inductionHypothesis =>
      obtain ⟨after, next, replayed⟩ := Option.bind_eq_some_iff.mp replayed
      split at replayed
      · next passed =>
          have taken := checked line first after (Line.next_eq_some.mp next) passed
          exact (Run.single taken).trans (inductionHypothesis replayed)
      · cases replayed

theorem session_replay {host : Host κ} {lines : List Line} {first last : State κ}
    (replayed : replay host (fun _ _ _ => true) first lines = some last) :
    Session host first lines last :=
  run_replay (fun _ _ _ prompt _ => prompt) replayed

end MyDbg
