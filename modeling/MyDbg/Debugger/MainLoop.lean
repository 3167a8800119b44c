import MyDbg.Debugger.AttachCommand
import MyDbg.Debugger.Breaks
import MyDbg.Debugger.CommandTable
import MyDbg.Debugger.Disassembly
import MyDbg.Debugger.Examine

/-!
Contract: the debugger from its input lines on.

Owns: the commands from their arguments on, and the table they are registered in;
`run_command` with its clauses; and the loop of `main`.

Does not own: how a line is read and split; the start of a program; temporary
memory; and the functions that look something up or show it without touching the
debugger's own state.
-/

namespace MyDbg.Main

open LittleEndian ProgramLogic
open Attach (Pid Errno PtraceKernel Unwinder Attachment)

/-! ## State -/

/-- What is behind the commands. A function that only looks something up or shows it
may end in any way and may leave the kernel in any state. -/
structure World (κ : Type) where
  host : Host κ
  kernel : PtraceKernel κ
  unwinder : Unwinder
  /-- `errno`, as the last call that failed left it. -/
  errno : κ → Errno
  getAddress : List Char → Program MyException κ Addr
  getLineAddress : List Char → Word → Program MyException κ Addr
  printLine : Program MyException κ Unit
  printBacktrace : Program MyException κ Unit
  infoMemory : Program MyException κ Unit
  examineMemory : Char → Addr → Word → Program MyException κ Unit

/-- The last column of `break_list`. -/
inductive What where
  | syscall (name : Option String) (syscall : BitVec 32)
  | address (addr : Addr)
deriving DecidableEq

/-- A row of `break_list`. -/
structure Row where
  id : Nat
  isSyscall : Bool
  temporary : Bool
  enabled : Bool
  what : What
deriving DecidableEq

/-- What the commands print beside the messages of the trace. -/
inductive Notice where
  | warning (text : String)
  | help (usage description : String)
  | breakpoint (row : Row)
  | register (name : List Char) (value : Word)

structure Console (κ : Type) where
  state : State κ
  gPid : Pid
  addrSpace : Bool
  info : Option Pid
  /-- Newest first; nothing reads it. -/
  notices : List Notice

abbrev Cmd (κ : Type) := Program MyException (Console κ)

variable {κ : Type}

namespace Console

def statePart : Part (Console κ) (State κ) where
  get := Console.state
  set console state := { console with state := state }
  get_set _ _ := rfl
  set_set _ _ _ := rfl

def kernelPart : Part (Console κ) κ where
  get console := console.state.kernel
  set console kernel := { console with state := { console.state with kernel := kernel } }
  get_set _ _ := rfl
  set_set _ _ _ := rfl

def attachPart : Part (Console κ) (Attach.Globals κ) where
  get console := ⟨console.gPid, console.addrSpace, console.info, console.state.kernel⟩
  set console globals :=
    { console with
      state := { console.state with kernel := globals.kernel }
      gPid := globals.gPid
      addrSpace := globals.addrSpace
      info := globals.info }
  get_set _ _ := rfl
  set_set _ _ _ := rfl

end Console

def dbg {α : Type} (program : Dbg κ α) : Cmd κ α := zoom Console.statePart program

def look {α : Type} (program : Program MyException κ α) : Cmd κ α :=
  zoom Console.kernelPart program

def tell (notice : Notice) : Cmd κ Unit :=
  Program.modify fun console => { console with notices := notice :: console.notices }

/-- `warnx`, and `warn` without what it adds. -/
def warnx (text : String) : Cmd κ Unit := tell (.warning text)

def tellAll : List Notice → Cmd κ Unit
  | [] => pure ()
  | notice :: rest => do
      tell notice
      tellAll rest

/-! ## Commands -/

/-- The functions that are registered. -/
inductive Function where
  | help | quit | attach
  | break | tbreak | breakf | breakl | breaks | breakDel | breakList
  | stepInstr | nextInstr | finish | continue
  | examine | disassemble | infoRegs | infoMemory | list | backtrace
deriving DecidableEq

/-- `enum my_cmd_type`. -/
inductive MyCmdType where
  | noProgramRequired
  | programRequired
deriving DecidableEq

/-- The rest of `struct my_cmd`. -/
structure Registration where
  type : MyCmdType
  description : String
  function : Function
  usage : String

/-- `register_command_with_alias`, and `register_command` where there is none. -/
def registerCommand (name : List Char) («alias» : Option (List Char)) (type : MyCmdType)
    (function : Function) (description usage : String) : MyCmd Registration :=
  ⟨name, «alias», ⟨type, description, function, usage⟩⟩

/-- The commands that are registered. The linker may lay them out in another order. -/
def registered : List (MyCmd Registration) :=
  [registerCommand ['h', 'e', 'l', 'p'] none
      .noProgramRequired .help
      "Display this help message, or specified commands help"
      "help [command ...]",
    registerCommand ['q', 'u', 'i', 't'] none
      .noProgramRequired .quit
      "Exit my-dbg"
      "quit",
    registerCommand ['a', 't', 't', 'a', 'c', 'h'] none
      .noProgramRequired .attach
      "Attach process identified by the given process ID"
      "attach <pid>",
    registerCommand ['b', 'r', 'e', 'a', 'k'] (some ['b'])
      .programRequired .break
      "Set a breakpoint at specified addresses"
      "break <address>",
    registerCommand ['t', 'b', 'r', 'e', 'a', 'k'] none
      .programRequired .tbreak
      "Set a temporary breakpoint at specified addresses"
      "tbreak <address>",
    registerCommand ['b', 'r', 'e', 'a', 'k', 'f'] (some ['b', 'f'])
      .programRequired .breakf
      "Set a breakpoint at specified function"
      "breakf <function>",
    registerCommand ['b', 'r', 'e', 'a', 'k', 'l'] (some ['b', 'l'])
      .programRequired .breakl
      "Ends current function"
      "breakl",
    registerCommand ['b', 'r', 'e', 'a', 'k', 's'] (some ['b', 's'])
      .programRequired .breaks
      "Set a breakpoint on specified syscall"
      "breaks <syscall | syscall number>",
    registerCommand ['b', 'r', 'e', 'a', 'k', '_', 'd', 'e', 'l'] none
      .programRequired .breakDel
      "Delete a breakpoint"
      "break_del <ID>",
    registerCommand ['b', 'r', 'e', 'a', 'k', '_', 'l', 'i', 's', 't'] none
      .programRequired .breakList
      "List breakpoints"
      "break_list",
    registerCommand ['s', 't', 'e', 'p', '_', 'i', 'n', 's', 't', 'r'] none
      .programRequired .stepInstr
      "Step one instruction exactly"
      "step_instr",
    registerCommand ['n', 'e', 'x', 't', '_', 'i', 'n', 's', 't', 'r'] none
      .programRequired .nextInstr
      "Step one instruction, but proceed through calls"
      "next_instr",
    registerCommand ['f', 'i', 'n', 'i', 's', 'h'] none
      .programRequired .finish
      "Ends current function"
      "finish",
    registerCommand ['c', 'o', 'n', 't', 'i', 'n', 'u', 'e'] none
      .programRequired .continue
      "Continue program execution"
      "continue",
    registerCommand ['e', 'x', 'a', 'm', 'i', 'n', 'e'] none
      .programRequired .examine
      "Examine memory at given address"
      "examine <format> <size> <start_addr>",
    registerCommand ['d', 'i', 's', 'a', 's', 's', 'e', 'm', 'b', 'l', 'e'] none
      .programRequired .disassemble
      "Disassemble N instructions at specified address"
      "disassemble <address> <N>",
    registerCommand ['i', 'n', 'f', 'o', '_', 'r', 'e', 'g', 's'] none
      .programRequired .infoRegs
      "Display registers"
      "info_regs",
    registerCommand ['i', 'n', 'f', 'o', '_', 'm', 'e', 'm', 'o', 'r', 'y'] none
      .programRequired .infoMemory
      "Display mapped memory regions"
      "info_memory",
    registerCommand ['l', 'i', 's', 't'] none
      .programRequired .list
      "Print current source code line"
      "list",
    registerCommand ['b', 'a', 'c', 'k', 't', 'r', 'a', 'c', 'e'] (some ['b', 't'])
      .programRequired .backtrace
      "Print backtrace"
      "backtrace"]

section Commands

variable (world : World κ)

/-- The depth of the exception stack in a command. -/
def exDepth : Nat := 1

def cmdBreak (argv : List (List Char)) : Cmd κ Unit :=
  match argv with
  | _ :: addrText :: _ => do
      let addr ← dbg (readAddress world.host exDepth addrText)
      dbg (MyDbg.cmdBreak world.host addr)
  | _ => warnx "No address specified"

def cmdTbreak (argv : List (List Char)) : Cmd κ Unit :=
  match argv with
  | _ :: addrText :: _ => do
      let addr ← dbg (readAddress world.host exDepth addrText)
      dbg (MyDbg.cmdTbreak world.host addr)
  | _ => warnx "No address specified"

def cmdBreakf (argv : List (List Char)) : Cmd κ Unit :=
  match argv with
  | _ :: name :: _ => do
      let addr ← look (world.getAddress name)
      dbg (MyDbg.cmdBreakf world.host addr)
  | _ => warnx "No function specified"

def cmdBreakl (argv : List (List Char)) : Cmd κ Unit :=
  match argv with
  | _ :: lineText :: file :: _ => do
      let line ← dbg (readSize world.host exDepth lineText)
      let addr ← look (world.getLineAddress file line)
      dbg (MyDbg.cmdBreakl world.host addr)
  | _ => warnx "Missing arguments"

def cmdBreakDel (argv : List (List Char)) : Cmd κ Unit :=
  match argv with
  | _ :: idText :: _ => do
      let nb ← dbg (readSize world.host exDepth idText)
      dbg (MyDbg.cmdBreakDel nb.toNat)
  | _ => warnx "No ID specified"

/-- A breakpoint as `break_list` shows it. -/
def rowOf (host : Host κ) (bp : MyBp) : Row where
  id := bp.id
  isSyscall := bp.isSyscall
  temporary := bp.isTemp
  enabled := bp.enabled
  what :=
    if bp.isSyscall then .syscall (syscallName host (bp.addr.setWidth 32)) (bp.addr.setWidth 32)
    else .address bp.addr

/-- The rows of `break_list`. -/
def breakRows (host : Host κ) : List MyBp → List Row
  | [] => []
  | bp :: rest =>
      if bp.isInternal || bp.deleted then breakRows host rest
      else rowOf host bp :: breakRows host rest

def cmdBreakList : Cmd κ Unit := do
  let breakpoints ← Program.gets fun console => console.state.globals.gBreakpoints
  tellAll ((breakRows world.host breakpoints).map .breakpoint)

def cmdExamine (argv : List (List Char)) : Cmd κ Unit := do
  match ← dbg (MyDbg.cmdExamine world.host exDepth argv) with
  | .missingArguments => warnx "Missing arguments"
  | .invalidFormat => warnx "Invalid format argument\nValid formats: x, d, i and s"
  | .nullSize => warnx "Nothing to examine (null size)"
  | .memory format addr size => look (world.examineMemory format addr size)

def cmdDisassemble (argv : List (List Char)) : Cmd κ Unit :=
  match argv with
  | _ :: addrText :: countText :: _ => do
      let addr ← dbg (readAddress world.host exDepth addrText)
      let count ← dbg (readSize world.host exDepth countText)
      if count ≠ 0 then do
        let _ ← dbg (printInstructions world.host addr count.toNat)
        return ()
      else
        warnx "Nothing to disassemble (null size)"
  | _ => warnx "Missing arguments"

/-- `print_registers`. -/
def printRegisters (regs : UserRegs) : Cmd κ Unit :=
  tellAll (registerNames.map fun (name, reg) => .register name (regs reg))

def cmdInfoRegs : Cmd κ Unit := do
  let reply ← dbg (myPtrace world.host .getregs)
  printRegisters reply.regs

def cmdAttach (argv : List (List Char)) : Cmd κ Unit := do
  let gPid ← Program.gets Console.gPid
  match ← dbg (Attach.cmdAttach world.host exDepth gPid argv) with
  | .alreadyAttached => warnx "A process is already attached"
  | .noProcessId => warnx "No process ID specified"
  | .invalidProcessId => warnx "Invalid process ID specified"
  | .process pid => zoom Console.attachPart (Attach.attachProcess world.kernel world.unwinder pid)

def cmdQuit : Cmd κ Unit := dbg (modifyGlobals fun globals => { globals with gQuit := true })

/-! ## `help` -/

/-- What `get_command` prints where it returns NULL. -/
def warnLookup (name : List Char) : Lookup Registration → Cmd κ Unit
  | .found _ => pure ()
  | .ambiguous => warnx (String.ofList name ++ ": ambigious command name")
  | .notFound => warnx (String.ofList name ++ ": command not found")

def printHelp (cmd : Option (MyCmd Registration)) : Cmd κ Unit :=
  Program.forSome cmd fun cmd => tell (.help cmd.rest.usage cmd.rest.description)

def helpFor (cmds : List (MyCmd Registration)) : List (List Char) → Cmd κ Unit
  | [] => pure ()
  | name :: rest => do
      warnLookup name (getCommand cmds name)
      printHelp (getCommand cmds name).command
      helpFor cmds rest

def helpAll : List (MyCmd Registration) → Cmd κ Unit
  | [] => pure ()
  | cmd :: rest => do
      printHelp (some cmd)
      helpAll rest

def cmdHelp (cmds : List (MyCmd Registration)) (argv : List (List Char)) : Cmd κ Unit :=
  match argv with
  | _ :: name :: names => helpFor cmds (name :: names)
  | _ => helpAll cmds

/-! ## Running a command -/

variable (cmds : List (MyCmd Registration)) (depth : Nat)

/-- `(cmd->function)(array_length(args), args)`. -/
def call (function : Function) (args : List (List Char)) : Cmd κ Unit :=
  match function with
  | .help => cmdHelp cmds args
  | .quit => cmdQuit
  | .attach => cmdAttach world args
  | .break => cmdBreak world args
  | .tbreak => cmdTbreak world args
  | .breakf => cmdBreakf world args
  | .breakl => cmdBreakl world args
  | .breaks => dbg (cmdBreaksArgv world.host exDepth args)
  | .breakDel => cmdBreakDel world args
  | .breakList => cmdBreakList world
  | .stepInstr => dbg (cmdStepInstr world.host depth)
  | .nextInstr => dbg (cmdNextInstr world.host depth)
  | .finish => dbg (cmdFinish world.host depth)
  | .continue => dbg (cmdContinue world.host depth)
  | .examine => cmdExamine world args
  | .disassemble => cmdDisassemble world args
  | .infoRegs => cmdInfoRegs world
  | .infoMemory => look world.infoMemory
  | .list => look world.printLine
  | .backtrace => look world.printBacktrace

def esrch : Errno := 3

/-- `ptrace_error`: a tracee that is gone ends the debugger. -/
def ptraceError : Cmd κ Unit := do
  let console ← Program.gets id
  if world.errno console.state.kernel = esrch ∧ console.gPid ≠ 0 then Program.noReturn
  else warnx "ptrace error"

/-- The clauses of `run_command`. There is none for `SyscallException`. -/
def report (name : List Char) : MyException → Cmd κ Unit
  | .ptraceException => ptraceError world
  | .waitException => warnx "wait error"
  | .scanfException => warnx "sscanf error"
  | .printfException => warnx "printf error"
  | .ioException => warnx "IO error"
  | .memoryException => warnx "Memory error"
  | .elfException => warnx "ELF error"
  | .disasmException => warnx "Dissasemble failed"
  | .unwindException => warnx "Unwind failed"
  | .dwarfException => warnx "DWARF error"
  | .syscallException => pure ()
  -- `longjmp` with 0 makes `setjmp` return 1
  | .exception | .none =>
      warnx ("An error occured while trying to execute command " ++ String.ofList name)

/-- `run_command` with the command found. -/
def runFound (cmd : MyCmd Registration) (args : List (List Char)) : Cmd κ Unit := do
  let gPid ← Program.gets Console.gPid
  if gPid = 0 ∧ cmd.rest.type = .programRequired then
    warnx "This command requires a running program to be executed"
  else
    (call world cmds depth cmd.rest.function args).attempt pure (report world cmd.name)

def runCommand (name : List Char) (args : List (List Char)) : Cmd κ Unit := do
  warnLookup name (getCommand cmds name)
  Program.forSome (getCommand cmds name).command fun cmd => runFound world cmds depth cmd args

/-- The body of the loop of `main`, with the words of one line. -/
def runLine (tokens : List (List Char)) : Cmd κ Unit :=
  match tokens with
  | [] => pure ()
  | name :: rest => runCommand world cmds depth name (name :: rest)

/-- The loop of `main`; `prompt` returns NULL where there is no more input. -/
def mainLoop : List (List (List Char)) → Cmd κ Unit
  | [] => pure ()
  | tokens :: input => do
      let gQuit ← Program.gets fun console => console.state.globals.gQuit
      if gQuit then
        return ()
      else
        runLine world cmds depth tokens
        mainLoop input

end Commands

end MyDbg.Main
