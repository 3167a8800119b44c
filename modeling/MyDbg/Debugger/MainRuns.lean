import Mathlib.Logic.Relation
import MyDbg.Debugger.MainLoop

/-!
Contract: the loop of `main` as a session with interludes.

Owns: what the commands do to the debugger's state by looking something up or
printing (`Interlude`); what becomes of a line of input: one command of a session, one
attach or one `quit`, behind interludes, or a refusal; where the debugger is lost in a
line; that the loop takes one line after the other and lets no exception out; and that
no process is touched before one is attached.

Does not own: what the commands of a session do.
-/

namespace MyDbg.Main

open LittleEndian ProgramLogic Transition Relation

variable {κ : Type}

/-! ## Interludes -/

/-- The function behind a command of a session. -/
def functionOf : Command → Function
  | .break _ => .break
  | .tbreak _ => .tbreak
  | .breakf _ => .breakf
  | .breakl _ => .breakl
  | .breaks _ => .breaks
  | .breakDel _ => .breakDel
  | .stepInstr => .stepInstr
  | .nextInstr => .nextInstr
  | .finish => .finish
  | .continue => .continue

/-- What is printed about arguments, and by `disassemble`. -/
def isAside : Message → Bool
  | .unknownRegister _ => true
  | .invalidAddress => true
  | .invalidNumber => true
  | .noSyscall => true
  | .unknownSyscall _ => true
  | .instruction _ _ _ => true
  | _ => false

/-- What looking something up and printing do to the debugger's state. -/
inductive Interlude (host : Host κ) : State κ → State κ → Prop where
  | reads (state : State κ) : Interlude host state (state.afterPtrace host .getregs)
  | prints (state : State κ) (message : Message) (aside : isAside message = true) :
      Interlude host state (state.record (.output message))
  | looks (state : State κ) (kernel : κ) : Interlude host state { state with kernel := kernel }

abbrev Interludes (host : Host κ) : State κ → State κ → Prop := ReflTransGen (Interlude host)

/-- `program` comes back, and was interludes. -/
abbrev Quiet {α : Type} (host : Host κ) (program : Dbg κ α) : Prop :=
  Completes (Interludes host) program

section Quiet

variable {host : Host κ} {α β : Type}

theorem Quiet.bind {program : Dbg κ α} {next : α → Dbg κ β} (first : Quiet host program)
    (second : ∀ value, Quiet host (next value)) : Quiet host (program >>= next) :=
  Completes.bind .trans first second

theorem Quiet.pure (value : α) : Quiet host (Pure.pure value : Dbg κ α) :=
  Completes.pure (fun _ => .refl) value

theorem Quiet.throw (raised : MyException) : Quiet host (Program.throw raised : Dbg κ α) :=
  Completes.throw (fun _ => .refl) raised

theorem quiet_getregs : Quiet host (myPtrace host .getregs) := by
  intro state
  rw [wp_myPtrace]
  exact ⟨fun _ _ => .single (.reads state), fun _ => .single (.reads state)⟩

theorem quiet_printf {message : Message} (aside : isAside message = true) :
    Quiet host (printf message : Dbg κ Unit) := fun state => .single (.prints state message aside)

theorem quiet_getRegister (reg : MyReg) : Quiet host (getRegister host reg) :=
  quiet_getregs.bind fun _ => Quiet.pure _

theorem quiet_readMemory (addr : Addr) (size : Nat) : Quiet host (readMemory host addr size) := by
  intro state
  unfold wp readMemory
  cases readBytes (host.procMem state.kernel) addr size with
  | some mem => exact .refl
  | none => exact .refl

theorem quiet_getRegisterFromName (reg : List Char) :
    Quiet host (getRegisterFromName host reg) := by
  unfold getRegisterFromName
  cases registerNamed reg with
  | some reg => exact quiet_getRegister reg
  | none => exact (quiet_printf rfl).bind fun _ => Quiet.throw _

theorem quiet_refuse (exDepth : Nat) {message : Message} (aside : isAside message = true) :
    Quiet host (refuse exDepth message) :=
  Quiet.bind (Completes.ite (quiet_printf aside) (Quiet.pure _)) fun _ => Quiet.throw _

theorem quiet_readAddress (exDepth : Nat) (str : List Char) :
    Quiet host (readAddress host exDepth str) := by
  unfold readAddress
  refine Completes.ite (quiet_getRegisterFromName _) ?_
  cases acceptedAddress str with
  | some addr => exact Quiet.pure _
  | none => exact quiet_refuse exDepth rfl

theorem quiet_readSize (exDepth : Nat) (str : List Char) :
    Quiet host (readSize host exDepth str) := by
  unfold readSize
  refine Completes.ite (quiet_readAddress _ _) ?_
  cases acceptedSize str with
  | some size => exact Quiet.pure _
  | none => exact quiet_refuse exDepth rfl

theorem quiet_syscallNum (syscall : List Char) : Quiet host (syscallNum host syscall) := by
  unfold syscallNum
  cases syscallNumbered host syscall with
  | some ret => exact Completes.ite (Quiet.throw _) (Quiet.pure _)
  | none => exact Quiet.throw _

theorem quiet_nameSyscall (arg : List Char) : Quiet host (nameSyscall host arg) := by
  refine Completes.attempt .trans (quiet_syscallNum arg) (fun _ => Quiet.pure _) fun ex => ?_
  exact Completes.ite ((quiet_printf rfl).bind fun _ => Quiet.pure _) (Quiet.pure _)

theorem quiet_resolveSyscall (exDepth : Nat) (arg : List Char) :
    Quiet host (resolveSyscall host exDepth arg) := by
  refine Completes.attempt .trans (quiet_readSize _ arg) (fun _ => Quiet.pure _) fun ex => ?_
  exact Completes.ite (quiet_nameSyscall arg) (Quiet.pure _)

theorem quiet_findInstruction (addr : Addr) (left : Nat) :
    Quiet host (findInstruction host addr left) := by
  induction left with
  | zero => exact Quiet.throw _
  | succ left inductionHypothesis =>
      refine (quiet_readMemory addr _).bind fun mem => ?_
      cases host.csDisasm mem with
      | some insn => exact Quiet.pure _
      | none => exact inductionHypothesis

theorem quiet_printInstructions (addr : Addr) (count : Nat) :
    Quiet host (printInstructions host addr count) := by
  induction count generalizing addr with
  | zero => exact Quiet.pure _
  | succ count inductionHypothesis =>
      refine (quiet_findInstruction addr 15).bind fun insn => ?_
      exact (quiet_printf rfl).bind fun _ => inductionHypothesis _

theorem quiet_cmdExamine (argv : List (List Char)) :
    Quiet host (MyDbg.cmdExamine host exDepth argv) := by
  unfold MyDbg.cmdExamine
  split
  · split
    · refine Completes.ite ((quiet_readSize _ _).bind fun size => ?_) (Quiet.pure _)
      exact (quiet_readAddress _ _).bind fun addr => Completes.ite (Quiet.pure _) (Quiet.pure _)
    · exact Quiet.pure _
  · exact Quiet.pure _

end Quiet

/-! ## Commands -/

/-- The functions that run the commands of a session. -/
def inSession (function : Function) : Bool :=
  [Function.break, .tbreak, .breakf, .breakl, .breaks, .breakDel, .stepInstr, .nextInstr, .finish,
    .continue].contains function

/-- The functions that only look something up or show it. -/
def Function.shows (function : Function) : Bool :=
  [Function.help, .breakList, .examine, .disassemble, .infoRegs, .infoMemory, .list,
    .backtrace].contains function

/-- The words a command needs behind its name before it does what it is there for. -/
def Function.words : Function → Nat
  | .attach | .break | .tbreak | .breakf | .breaks | .breakDel => 1
  | .breakl => 2
  | _ => 0

/-- A function that looks something up or shows it does not come back. -/
def World.Strays (world : World κ) (function : Function) (before after : κ) : Prop :=
  match function with
  | .breakf => ∃ name, (world.getAddress name before).LostIn after
  | .breakl => ∃ file line, (world.getLineAddress file line before).LostIn after
  | .examine => ∃ format addr size, (world.examineMemory format addr size before).LostIn after
  | .infoMemory => (world.infoMemory before).LostIn after
  | .list => (world.printLine before).LostIn after
  | .backtrace => (world.printBacktrace before).LostIn after
  | _ => False

/-- The debugger has the same process, if any, and libunwind the same address space. -/
structure SameProcess (before after : Console κ) : Prop where
  gPid : after.gPid = before.gPid
  addrSpace : after.addrSpace = before.addrSpace
  info : after.info = before.info

/-- A command, or a part of one, that was interludes. -/
structure Passes (host : Host κ) (before after : Console κ) : Prop
    extends SameProcess before after where
  state : Interludes host before.state after.state

/-- A process is attached, or tried to be. -/
structure Attached (world : World κ) (pid : Attach.Pid) (before after : Console κ) : Prop where
  detached : before.gPid = 0
  globals : Console.attachPart.get after =
    (Attach.attachProcess world.kernel world.unwinder pid (Console.attachPart.get before)).state
  state : after.state = { before.state with kernel := after.state.kernel }

/-- The command of a session that a line asks for: how the words behind the name are read,
if there are enough of them. -/
def asked (world : World κ) : Function → List (List Char) → Option (Cmd κ Command)
  | .break, _ :: addrText :: _ => some do
      let addr ← dbg (readAddress world.host exDepth addrText)
      return .break addr
  | .tbreak, _ :: addrText :: _ => some do
      let addr ← dbg (readAddress world.host exDepth addrText)
      return .tbreak addr
  | .breakf, _ :: name :: _ => some do
      let addr ← look (world.getAddress name)
      return .breakf addr
  | .breakl, _ :: lineText :: file :: _ => some do
      let line ← dbg (readSize world.host exDepth lineText)
      let addr ← look (world.getLineAddress file line)
      return .breakl addr
  | .breaks, _ :: arg :: _ => some do
      let resolved ← dbg (resolveSyscall world.host exDepth arg)
      if resolved.2 = .none then return .breaks resolved.1 else Program.throw resolved.2
  | .breakDel, _ :: idText :: _ => some do
      let nb ← dbg (readSize world.host exDepth idText)
      return .breakDel nb.toNat
  | .stepInstr, _ => some (pure .stepInstr)
  | .nextInstr, _ => some (pure .nextInstr)
  | .finish, _ => some (pure .finish)
  | .continue, _ => some (pure .continue)
  | _, _ => none

/-- The number behind `attach` is read. -/
def ReadsPid (host : Host κ) (args : List (List Char)) (before : State κ) (size : Word)
    (after : State κ) : Prop :=
  ∃ pidText, args[1]? = some pidText ∧ readSize host exDepth pidText before = .ok size after

/-- Why `attach` does nothing: a process is attached already, none is named, or its number
is out of range. -/
def Declines (host : Host κ) (args : List (List Char)) (before : Console κ) : Prop :=
  before.gPid ≠ 0 ∨ args.length ≤ 1 ∨ ∃ size after, ReadsPid host args before.state size after ∧
    Attach.pidLimit ≤ size

/-- How a call that ended so comes back. -/
def CameBack {σ : Type} (back : Return) : Outcome MyException σ Unit → Prop
  | .ok _ _ => back = .normal
  | .throw raised _ => back = .raised raised
  | _ => False

/-- What a command was that came back. A command of a session does what its words ask for,
unless there are too few of them or reading them raises an exception. -/
inductive Acts (world : World κ) (depth : Nat) (function : Function) (args : List (List Char))
    (back : Return) (before after : Console κ) : Prop where
  | shows (passes : Passes world.host before after) (shows : function.shows = true)
  | lacks (passes : Passes world.host before after) (normal : back = .normal)
      (short : args.length ≤ function.words)
  | refuses (reading : Cmd κ Command) (raised : MyException)
      (words : asked world function args = some reading) (thrown : back = .raised raised)
      (raises : reading before = .throw raised after) (passes : Passes world.host before after)
  | runs (middle : Console κ) (reading : Cmd κ Command) (command : Command)
      (words : asked world function args = some reading)
      (reads : reading before = .ok command middle) (passes : Passes world.host before middle)
      (same : functionOf command = function)
      (prompt : Prompt world.host ⟨command, depth, back⟩ middle.state after.state)
      (kept : SameProcess middle after)
  | attaches (middle : Console κ) (size : Word) (passes : Passes world.host before middle)
      (same : function = .attach) (reads : ReadsPid world.host args before.state size middle.state)
      (inRange : size < Attach.pidLimit)
      (attaches : Attached world (size.setWidth 32) middle after)
      (returned : CameBack back (Attach.attachProcess world.kernel world.unwinder
        (size.setWidth 32) (Console.attachPart.get middle)))
  | declines (passes : Passes world.host before after) (same : function = .attach)
      (normal : back = .normal) (declines : Declines world.host args before)
  | objects (pidText : List Char) (raised : MyException) (passes : Passes world.host before after)
      (same : function = .attach) (second : args[1]? = some pidText)
      (thrown : back = .raised raised)
      (raises : readSize world.host exDepth pidText before.state = .throw raised after.state)
  | quits (same : function = .quit) (normal : back = .normal)
      (state : after.state = before.state.withGlobals { before.state.globals with gQuit := true })
      (kept : SameProcess before after)

/-- Where in a command the debugger is lost. -/
inductive Strands (world : World κ) (depth : Nat) (function : Function)
    (args : List (List Char)) (before after : Console κ) : Prop where
  | session (middle : Console κ) (reading : Cmd κ Command) (command : Command)
      (words : asked world function args = some reading)
      (reads : reading before = .ok command middle) (passes : Passes world.host before middle)
      (same : functionOf command = function)
      (lost : (exec world.host depth command middle.state).LostIn after.state)
      (kept : SameProcess middle after)
  | attaches (middle : Console κ) (size : Word) (passes : Passes world.host before middle)
      (same : function = .attach) (reads : ReadsPid world.host args before.state size middle.state)
      (inRange : size < Attach.pidLimit)
      (attaches : Attached world (size.setWidth 32) middle after)
      (lost : (Attach.attachProcess world.kernel world.unwinder (size.setWidth 32)
        (Console.attachPart.get middle)).LostIn (Console.attachPart.get after))
  | looks (middle : Console κ) (passes : Passes world.host before middle)
      (strays : world.Strays function middle.state.kernel after.state.kernel)
      (left : Passes world.host middle after)

/-- How the outcome of a command is told. -/
def Acting {α : Type} (world : World κ) (depth : Nat) (function : Function)
    (args : List (List Char)) (before : Console κ) : Post MyException (Console κ) α where
  ok _ := Acts world depth function args .normal before
  throw raised := Acts world depth function args (.raised raised) before
  fault := Strands world depth function args before
  noReturn := Strands world depth function args before

/-- How the words of a command are read. -/
def Reading (world : World κ) (depth : Nat) (function : Function) (args : List (List Char))
    (before : Console κ) : Post MyException (Console κ) Command where
  ok command after := functionOf command = function ∧ Passes world.host before after
  throw _ after := Passes world.host before after
  fault := Strands world depth function args before
  noReturn := Strands world depth function args before

section Commands

variable {host : Host κ} {world : World κ} {depth : Nat} {function : Function}
  {args : List (List Char)} {back : Return} {α β : Type} {before middle after : Console κ}

theorem inSession_functionOf (command : Command) : inSession (functionOf command) = true := by
  cases command <;> rfl

theorem SameProcess.trans (early : SameProcess before middle) (late : SameProcess middle after) :
    SameProcess before after :=
  ⟨late.gPid.trans early.gPid, late.addrSpace.trans early.addrSpace, late.info.trans early.info⟩

theorem Passes.refl (console : Console κ) : Passes host console console :=
  ⟨⟨rfl, rfl, rfl⟩, .refl⟩

theorem Passes.trans (early : Passes host before middle) (late : Passes host middle after) :
    Passes host before after :=
  ⟨early.toSameProcess.trans late.toSameProcess, early.state.trans late.state⟩

theorem passes_dbg {program : Dbg κ α} (quiet : Quiet host program) :
    Completes (Passes host) (dbg program) :=
  Completes.zoom quiet fun _ _ interludes => ⟨⟨rfl, rfl, rfl⟩, interludes⟩

/-- Whatever becomes of the kernel, looking is an interlude. -/
theorem passes_looks (console : Console κ) (kernel : κ) :
    Passes host console (Console.kernelPart.set console kernel) :=
  ⟨⟨rfl, rfl, rfl⟩, .single (.looks console.state kernel)⟩

theorem passes_tell (notice : Notice) : Completes (Passes host) (tell notice : Cmd κ Unit) :=
  fun _ => ⟨⟨rfl, rfl, rfl⟩, .refl⟩

theorem passes_pure (value : α) : Completes (Passes host) (pure value : Cmd κ α) :=
  Completes.pure .refl value

theorem passes_bind {program : Cmd κ α} {next : α → Cmd κ β}
    (first : Completes (Passes host) program)
    (second : ∀ value, Completes (Passes host) (next value)) :
    Completes (Passes host) (program >>= next) :=
  Completes.bind .trans first second

theorem passes_tellAll (notices : List Notice) :
    Completes (Passes host) (tellAll notices : Cmd κ Unit) := by
  induction notices with
  | nil => exact passes_pure ()
  | cons notice rest inductionHypothesis =>
      exact passes_bind (passes_tell notice) fun _ => inductionHypothesis

theorem passes_warnLookup (name : List Char) (lookup : Lookup Registration) :
    Completes (Passes host) (warnLookup name lookup : Cmd κ Unit) := by
  cases lookup with
  | found cmd => exact passes_pure ()
  | ambiguous => exact passes_tell _
  | notFound => exact passes_tell _

theorem passes_printHelp (cmd : Option (MyCmd Registration)) :
    Completes (Passes host) (printHelp cmd : Cmd κ Unit) := by
  cases cmd with
  | some cmd => exact passes_tell _
  | none => exact passes_pure ()

theorem passes_helpFor (cmds : List (MyCmd Registration)) (names : List (List Char)) :
    Completes (Passes host) (helpFor cmds names : Cmd κ Unit) := by
  induction names with
  | nil => exact passes_pure ()
  | cons name rest inductionHypothesis =>
      exact passes_bind (passes_warnLookup name _) fun _ =>
        passes_bind (passes_printHelp _) fun _ => inductionHypothesis

theorem passes_helpAll (cmds : List (MyCmd Registration)) :
    Completes (Passes host) (helpAll cmds : Cmd κ Unit) := by
  induction cmds with
  | nil => exact passes_pure ()
  | cons cmd rest inductionHypothesis =>
      exact passes_bind (passes_printHelp _) fun _ => inductionHypothesis

theorem passes_cmdHelp (cmds : List (MyCmd Registration)) (argv : List (List Char)) :
    Completes (Passes host) (cmdHelp cmds argv : Cmd κ Unit) := by
  unfold cmdHelp
  split
  · exact passes_helpFor cmds _
  · exact passes_helpAll cmds

/-- Nothing but looking and showing. -/
theorem acting_shows {program : Cmd κ α} (shows : function.shows = true)
    (passes : Completes (Passes world.host) program) :
    wp program (Acting world depth function args before) before :=
  wp_mono (passes before)
    ⟨fun _ _ passes => .shows passes shows, fun _ _ passes => .shows passes shows,
      fun _ => False.elim, fun _ => False.elim⟩

/-- A lookup either passes or strays. -/
theorem wp_look {program : Program MyException κ α} (passes : Passes world.host before middle)
    (strays : ∀ before after, (program before).LostIn after → world.Strays function before after) :
    wp (look program)
      { ok := fun _ => Passes world.host before
        throw := fun _ => Passes world.host before
        fault := Strands world depth function args before
        noReturn := Strands world depth function args before } middle := by
  have looked (kernel : κ) : Passes world.host middle (Console.kernelPart.set middle kernel) :=
    passes_looks middle kernel
  unfold look
  rw [wp_zoom]
  unfold wp
  cases outcome : program (Console.kernelPart.get middle) with
  | ok value kernel => exact passes.trans (looked kernel)
  | throw raised kernel => exact passes.trans (looked kernel)
  | fault kernel => exact .looks middle passes (strays _ _ (.inl outcome)) (looked kernel)
  | noReturn kernel => exact .looks middle passes (strays _ _ (.inr outcome)) (looked kernel)

/-- A function that is over when it has looked. -/
theorem acting_lookLast {program : Program MyException κ α} (shows : function.shows = true)
    (passes : Passes world.host before middle)
    (strays : ∀ before after, (program before).LostIn after → world.Strays function before after) :
    wp (look program) (Acting world depth function args before) middle :=
  wp_mono (wp_look passes strays)
    ⟨fun _ _ passes => .shows passes shows, fun _ _ passes => .shows passes shows,
      fun _ strands => strands, fun _ strands => strands⟩

/-! ### Words -/

theorem reading_pure {command : Command} (same : functionOf command = function)
    (passes : Passes world.host before middle) :
    wp (pure command : Cmd κ Command) (Reading world depth function args before) middle :=
  ⟨same, passes⟩

/-- What is read quietly. -/
theorem reading_dbg {program : Dbg κ α} {next : α → Cmd κ Command}
    (quiet : Quiet world.host program)
    (rest : ∀ value middle, Passes world.host before middle →
      wp (next value) (Reading world depth function args before) middle) :
    wp (dbg program >>= next) (Reading world depth function args before) before := by
  rw [wp_bind]
  exact wp_mono (passes_dbg quiet before)
    ⟨rest, fun _ _ passes => passes, fun _ => False.elim, fun _ => False.elim⟩

/-- What is looked up. -/
theorem reading_look {program : Program MyException κ α} {next : α → Cmd κ Command}
    (passes : Passes world.host before middle)
    (strays : ∀ before after, (program before).LostIn after → world.Strays function before after)
    (rest : ∀ value middle, Passes world.host before middle →
      wp (next value) (Reading world depth function args before) middle) :
    wp (look program >>= next) (Reading world depth function args before) middle := by
  rw [wp_bind]
  exact wp_mono (wp_look passes strays)
    ⟨rest, fun _ _ passes => passes, fun _ strands => strands, fun _ strands => strands⟩

/-- The words of a command are read by interludes. -/
theorem asked_reads {reading : Cmd κ Command} (words : asked world function args = some reading) :
    wp reading (Reading world depth function args before) before := by
  have address (text : List Char) : Quiet world.host (readAddress world.host exDepth text) :=
    quiet_readAddress _ text
  have size (text : List Char) : Quiet world.host (readSize world.host exDepth text) :=
    quiet_readSize _ text
  unfold asked at words
  split at words
  · obtain rfl := Option.some.inj words
    exact reading_dbg (address _) fun _ _ passes => reading_pure rfl passes
  · obtain rfl := Option.some.inj words
    exact reading_dbg (address _) fun _ _ passes => reading_pure rfl passes
  · obtain rfl := Option.some.inj words
    exact reading_look (.refl before) (fun _ _ lost => Exists.intro _ lost)
      fun _ _ passes => reading_pure rfl passes
  · obtain rfl := Option.some.inj words
    refine reading_dbg (size _) fun line middle passes => ?_
    exact reading_look passes (fun _ _ lost => Exists.intro _ (Exists.intro _ lost))
      fun _ _ passes => reading_pure rfl passes
  · obtain rfl := Option.some.inj words
    refine reading_dbg (quiet_resolveSyscall _ _) fun resolved middle passes => ?_
    rw [wp_ite]
    exact ⟨fun _ => reading_pure rfl passes, fun _ => passes⟩
  · obtain rfl := Option.some.inj words
    exact reading_dbg (size _) fun _ _ passes => reading_pure rfl passes
  · obtain rfl := Option.some.inj words
    exact reading_pure rfl (.refl before)
  · obtain rfl := Option.some.inj words
    exact reading_pure rfl (.refl before)
  · obtain rfl := Option.some.inj words
    exact reading_pure rfl (.refl before)
  · obtain rfl := Option.some.inj words
    exact reading_pure rfl (.refl before)
  · cases words

/-- What is read is done. -/
theorem acting_asked {reading : Cmd κ Command} (words : asked world function args = some reading) :
    wp (reading >>= fun command => dbg (exec world.host depth command))
      (Acting world depth function args before) before := by
  have reads : wp reading (Reading world depth function args before) before := asked_reads words
  rw [wp_bind]
  unfold wp at reads ⊢
  cases outcome : reading before with
  | ok command middle =>
      rw [outcome] at reads
      obtain ⟨same, passes⟩ := reads
      have kept (after : State κ) : SameProcess middle { middle with state := after } :=
        ⟨rfl, rfl, rfl⟩
      change wp (dbg (exec world.host depth command)) (Acting world depth function args before)
        middle
      unfold dbg
      rw [wp_zoom]
      unfold wp
      cases ends : exec world.host depth command (Console.statePart.get middle) with
      | ok value after =>
          exact .runs middle reading command words outcome passes same ends (kept after)
      | throw raised after =>
          exact .runs middle reading command words outcome passes same ends (kept after)
      | fault after =>
          exact .session middle reading command words outcome passes same (.inl ends) (kept after)
      | noReturn after =>
          exact .session middle reading command words outcome passes same (.inr ends) (kept after)
  | throw raised after =>
      rw [outcome] at reads
      exact .refuses reading raised words rfl outcome reads
  | fault after =>
      rw [outcome] at reads
      exact reads
  | noReturn after =>
      rw [outcome] at reads
      exact reads

/-- What a single value tells is done. -/
theorem acting_value {program : Cmd κ α} (command : α → Command)
    (words : asked world function args =
      some (program >>= fun value => pure (command value))) :
    wp (program >>= fun value => dbg (exec world.host depth (command value)))
      (Acting world depth function args before) before := by
  have acting : wp _ (Acting world depth function args before) before := acting_asked words
  rw [Program.bind_assoc] at acting
  exact acting

/-- Too few words. -/
theorem acting_warnx (text : String) (short : args.length ≤ function.words) :
    wp (warnx text : Cmd κ Unit) (Acting world depth function args before) before :=
  .lacks ⟨⟨rfl, rfl, rfl⟩, .refl⟩ rfl short

theorem length_le_one {words : List (List Char)}
    (few : ∀ name word rest, words = name :: word :: rest → False) : words.length ≤ 1 := by
  match words with
  | [] => exact Nat.zero_le 1
  | [_] => exact Nat.le_refl 1
  | name :: word :: rest => exact (few name word rest rfl).elim

theorem length_le_two {words : List (List Char)}
    (few : ∀ name first second rest, words = name :: first :: second :: rest → False) :
    words.length ≤ 2 := by
  match words with
  | [] => exact Nat.zero_le 2
  | [_] => exact Nat.le_succ 1
  | [_, _] => exact Nat.le_refl 2
  | name :: first :: second :: rest => exact (few name first second rest rfl).elim

/-- `breaks` reads its word, too, before it places anything. -/
theorem cmdBreaksArgv_asked (depth : Nat) (name arg : List Char) (rest : List (List Char)) :
    dbg (cmdBreaksArgv world.host exDepth (name :: arg :: rest)) =
      ((dbg (resolveSyscall world.host exDepth arg) >>= fun resolved =>
        if resolved.2 = .none then pure (.breaks resolved.1) else Program.throw resolved.2) >>=
          fun command => dbg (exec world.host depth command)) := by
  change zoom Console.statePart (resolveSyscall world.host exDepth arg >>= fun resolved =>
    if resolved.2 = .none then cmdBreaks world.host resolved.1 else Program.throw resolved.2) = _
  rw [zoom_bind, Program.bind_assoc]
  refine congrArg (zoom Console.statePart (resolveSyscall world.host exDepth arg) >>= ·)
    (funext fun resolved => ?_)
  by_cases none : resolved.2 = .none
  · rw [if_pos none, if_pos none]
    rfl
  · rw [if_neg none, if_neg none]
    rfl

/-- `attach` names a process, or does nothing for a reason. -/
theorem wp_cmdAttach (args : List (List Char)) (before : Console κ) :
    wp (Attach.cmdAttach host exDepth before.gPid args)
      { ok := fun attachment after => Interludes host before.state after ∧
          match attachment with
          | .process pid => before.gPid = 0 ∧ ∃ size, ReadsPid host args before.state size after ∧
              size < Attach.pidLimit ∧ pid = size.setWidth 32
          | _ => Declines host args before
        throw := fun raised after => Interludes host before.state after ∧
          ∃ pidText, args[1]? = some pidText ∧
            readSize host exDepth pidText before.state = .throw raised after
        fault := fun _ => False
        noReturn := fun _ => False } before.state := by
  unfold Attach.cmdAttach
  by_cases attached : before.gPid ≠ 0
  · rw [if_pos attached]
    exact ⟨.refl, .inl attached⟩
  · have detached : before.gPid = 0 := not_not.mp attached
    rw [if_neg attached]
    split
    · rename_i command pidText others
      have quiet : Quiet host (readSize host exDepth pidText) := quiet_readSize exDepth pidText
      have reads := quiet before.state
      rw [wp_bind]
      unfold wp at reads ⊢
      cases outcome : readSize host exDepth pidText before.state with
      | ok size after =>
          rw [outcome] at reads
          by_cases large : Attach.pidLimit ≤ size
          · simp only [Post.Holds, if_pos large]
            exact ⟨reads, .inr (.inr ⟨size, after, ⟨pidText, rfl, outcome⟩, large⟩)⟩
          · simp only [Post.Holds, if_neg large]
            exact ⟨reads, detached, size, ⟨pidText, rfl, outcome⟩, BitVec.not_le.mp large, rfl⟩
      | throw raised after =>
          rw [outcome] at reads
          exact ⟨reads, pidText, rfl, outcome⟩
      | fault after =>
          rw [outcome] at reads
          exact reads
      | noReturn after =>
          rw [outcome] at reads
          exact reads
    · exact ⟨.refl, .inr (.inl (length_le_one ‹_›))⟩

theorem acting_attachProcess {size : Word} (passes : Passes world.host before middle)
    (detached : before.gPid = 0) (reads : ReadsPid world.host args before.state size middle.state)
    (inRange : size < Attach.pidLimit) :
    wp (zoom Console.attachPart (Attach.attachProcess world.kernel world.unwinder
        (size.setWidth 32)))
      (Acting world depth .attach args before) middle := by
  have none : middle.gPid = 0 := passes.gPid.trans detached
  rw [wp_zoom]
  unfold wp
  cases outcome : Attach.attachProcess world.kernel world.unwinder (size.setWidth 32)
      (Console.attachPart.get middle) with
  | ok value after =>
      refine .attaches middle size passes rfl reads inRange
        ⟨none, (congrArg Outcome.state outcome).symm, rfl⟩ ?_
      rw [outcome]
      rfl
  | throw raised after =>
      refine .attaches middle size passes rfl reads inRange
        ⟨none, (congrArg Outcome.state outcome).symm, rfl⟩ ?_
      rw [outcome]
      rfl
  | fault after =>
      exact .attaches middle size passes rfl reads inRange
        ⟨none, (congrArg Outcome.state outcome).symm, rfl⟩ (.inl outcome)
  | noReturn after =>
      exact .attaches middle size passes rfl reads inRange
        ⟨none, (congrArg Outcome.state outcome).symm, rfl⟩ (.inr outcome)

/-- Only where no process is attached one is tried to be. -/
theorem acting_cmdAttach (args : List (List Char)) :
    wp (cmdAttach world args) (Acting world depth .attach args before) before := by
  unfold cmdAttach
  rw [wp_bind, wp_gets]
  change wp (zoom Console.statePart (Attach.cmdAttach world.host exDepth before.gPid args) >>= _)
    _ before
  rw [wp_bind, wp_zoom]
  refine wp_mono (wp_cmdAttach args before)
    ⟨fun attachment after answered => ?_, fun raised after objected => ?_,
      fun _ => False.elim, fun _ => False.elim⟩
  · obtain ⟨interludes, known⟩ := answered
    have passes : Passes world.host before (Console.statePart.set before after) :=
      ⟨⟨rfl, rfl, rfl⟩, interludes⟩
    have warns (text : String) (declines : Declines world.host args before) :
        wp (warnx text : Cmd κ Unit) (Acting world depth .attach args before)
          (Console.statePart.set before after) :=
      .declines (passes.trans ⟨⟨rfl, rfl, rfl⟩, .refl⟩) rfl rfl declines
    cases attachment with
    | process pid =>
        obtain ⟨detached, size, reads, inRange, rfl⟩ := known
        exact acting_attachProcess passes detached reads inRange
    | alreadyAttached => exact warns _ known
    | noProcessId => exact warns _ known
    | invalidProcessId => exact warns _ known
  · obtain ⟨interludes, pidText, second, raises⟩ := objected
    exact .objects pidText raised ⟨⟨rfl, rfl, rfl⟩, interludes⟩ rfl second rfl raises

/-- Every function is interludes, with what it is there for behind them. -/
theorem call_acting (world : World κ) (cmds : List (MyCmd Registration)) {function : Function}
    (args : List (List Char)) :
    wp (call world cmds depth function args) (Acting world depth function args before)
      before := by
  have asks {reading : Cmd κ Command} (words : asked world function args = some reading) :
      wp (reading >>= fun command => dbg (exec world.host depth command))
        (Acting world depth function args before) before := acting_asked words
  cases function with
  | help => exact acting_shows rfl (passes_cmdHelp cmds args)
  | quit =>
      change wp (dbg (modifyGlobals fun globals => { globals with gQuit := true })) _ _
      unfold dbg
      rw [wp_zoom, wp_modifyGlobals]
      exact .quits rfl rfl rfl ⟨rfl, rfl, rfl⟩
  | attach => exact acting_cmdAttach args
  | «break» =>
      change wp (cmdBreak world args) _ _
      unfold cmdBreak
      split
      · exact acting_value .break rfl
      · exact acting_warnx _ (length_le_one ‹_›)
  | tbreak =>
      change wp (cmdTbreak world args) _ _
      unfold cmdTbreak
      split
      · exact acting_value .tbreak rfl
      · exact acting_warnx _ (length_le_one ‹_›)
  | breakf =>
      change wp (cmdBreakf world args) _ _
      unfold cmdBreakf
      split
      · exact acting_value .breakf rfl
      · exact acting_warnx _ (length_le_one ‹_›)
  | breakl =>
      change wp (cmdBreakl world args) _ _
      unfold cmdBreakl
      split
      · have acting := asks rfl
        rw [Program.bind_assoc] at acting
        simp only [Program.bind_assoc] at acting
        exact acting
      · exact acting_warnx _ (length_le_two ‹_›)
  | breaks =>
      change wp (dbg (cmdBreaksArgv world.host exDepth args)) _ _
      match args with
      | name :: arg :: rest =>
          rw [cmdBreaksArgv_asked depth]
          exact asks rfl
      | [] => exact .lacks ⟨⟨rfl, rfl, rfl⟩, .single (.prints _ _ rfl)⟩ rfl (Nat.zero_le 1)
      | [_] => exact .lacks ⟨⟨rfl, rfl, rfl⟩, .single (.prints _ _ rfl)⟩ rfl (Nat.le_refl 1)
  | breakDel =>
      change wp (cmdBreakDel world args) _ _
      unfold cmdBreakDel
      split
      · exact acting_value (fun nb : Word => .breakDel nb.toNat) rfl
      · exact acting_warnx _ (length_le_one ‹_›)
  | breakList =>
      exact acting_shows rfl
        (passes_bind (Completes.gets .refl _) fun _ => passes_tellAll _)
  | stepInstr => exact asks rfl
  | nextInstr => exact asks rfl
  | finish => exact asks rfl
  | «continue» => exact asks rfl
  | examine =>
      change wp (dbg (MyDbg.cmdExamine world.host exDepth args) >>= _) _ _
      rw [wp_bind]
      refine wp_mono (passes_dbg (quiet_cmdExamine args) before)
        ⟨fun examination middle passes => ?_, fun _ _ passes => .shows passes rfl,
          fun _ => False.elim, fun _ => False.elim⟩
      cases examination with
      | memory format addr size =>
          exact acting_lookLast rfl passes fun _ _ lost => ⟨format, addr, size, lost⟩
      | _ => exact .shows (passes.trans ⟨⟨rfl, rfl, rfl⟩, .refl⟩) rfl
  | disassemble =>
      change wp (cmdDisassemble world args) _ _
      unfold cmdDisassemble
      refine acting_shows rfl ?_
      split
      · refine passes_bind (passes_dbg (quiet_readAddress _ _)) fun addr =>
          passes_bind (passes_dbg (quiet_readSize _ _)) fun count => ?_
        refine Completes.ite ?_ (passes_tell _)
        exact passes_bind (passes_dbg (quiet_printInstructions _ _)) fun _ => passes_pure ()
      · exact passes_tell _
  | infoRegs =>
      exact acting_shows rfl
        (passes_bind (passes_dbg quiet_getregs) fun _ => passes_tellAll _)
  | infoMemory => exact acting_lookLast rfl (.refl before) fun _ _ lost => lost
  | list => exact acting_lookLast rfl (.refl before) fun _ _ lost => lost
  | backtrace => exact acting_lookLast rfl (.refl before) fun _ _ lost => lost

end Commands

/-! ## Lines -/

/-- The debugger has warned of something, and done nothing else. -/
def Console.warned (console : Console κ) (text : String) : Console κ :=
  { console with notices := .warning text :: console.notices }

/-- The command a line names. -/
def Names (cmds : List (MyCmd Registration)) (tokens : List (List Char))
    (cmd : MyCmd Registration) : Prop :=
  ∃ name, tokens.head? = some name ∧ (getCommand cmds name).command = some cmd

/-- The command a line selects, if it may be run. -/
structure Selects (cmds : List (MyCmd Registration)) (gPid : Attach.Pid)
    (tokens : List (List Char)) (cmd : MyCmd Registration) : Prop where
  found : Names cmds tokens cmd
  attached : cmd.rest.type = .programRequired → gPid ≠ 0

/-- What the clauses of `run_command` make of a command that came back. -/
def Reports (world : World κ) (name : List Char) (back : Return) (middle after : Console κ) :
    Prop :=
  match back with
  | .normal => after = middle
  | .raised raised => report world name raised middle = .ok () after ∧
      (after = middle ∨ ∃ text, after = middle.warned text)

/-- What becomes of a line that comes back. -/
inductive Does (world : World κ) (cmds : List (MyCmd Registration)) (depth : Nat)
    (tokens : List (List Char)) (before after : Console κ) : Prop where
  | empty (blank : tokens = []) (same : after = before)
  | unknown (name : List Char) (first : tokens.head? = some name)
      (missing : (getCommand cmds name).command = none) (text : String)
      (warned : after = before.warned text)
  | refused (cmd : MyCmd Registration) (found : Names cmds tokens cmd)
      (required : cmd.rest.type = .programRequired) (detached : before.gPid = 0)
      (warned : after =
        before.warned "This command requires a running program to be executed")
  | runs (cmd : MyCmd Registration) (selects : Selects cmds before.gPid tokens cmd)
      (back : Return) (middle : Console κ)
      (acts : Acts world depth cmd.rest.function tokens back before middle)
      (reports : Reports world cmd.name back middle after)

/-- The debugger is lost in a command, or exits behind one because the tracee is gone. -/
inductive Sinks (world : World κ) (cmds : List (MyCmd Registration)) (depth : Nat)
    (tokens : List (List Char)) (before after : Console κ) : Prop where
  | strands (cmd : MyCmd Registration) (selects : Selects cmds before.gPid tokens cmd)
      (strands : Strands world depth cmd.rest.function tokens before after)
  | exits (cmd : MyCmd Registration) (selects : Selects cmds before.gPid tokens cmd)
      (acts : Acts world depth cmd.rest.function tokens (.raised .ptraceException) before after)
      (gone : world.errno after.state.kernel = esrch) (attached : after.gPid ≠ 0)

/-- One line of the input, taken before `g_quit` is set. -/
structure Turn (world : World κ) (cmds : List (MyCmd Registration)) (depth : Nat)
    (tokens : List (List Char)) (before after : Console κ) : Prop where
  running : before.state.globals.gQuit = false
  does : Does world cmds depth tokens before after

/-- The line in which the debugger was lost. -/
structure LastTurn (world : World κ) (cmds : List (MyCmd Registration)) (depth : Nat)
    (tokens : List (List Char)) (before after : Console κ) : Prop where
  running : before.state.globals.gQuit = false
  sinks : Sinks world cmds depth tokens before after

section Lines

variable {world : World κ} {cmds : List (MyCmd Registration)} {depth : Nat}
  {function : Function} {tokens : List (List Char)} {back : Return}
  {before middle after : Console κ}

/-- A clause warns at most once, or ends the debugger because the tracee is gone. -/
theorem report_warns (name : List Char) (raised : MyException) (console : Console κ) :
    wp (report world name raised)
      { ok := fun _ after => after = console ∨ ∃ text, after = console.warned text
        throw := fun _ _ => False
        fault := fun _ => False
        noReturn := fun after => after = console ∧ raised = .ptraceException ∧
          world.errno console.state.kernel = esrch ∧ console.gPid ≠ 0 } console := by
  cases raised with
  | ptraceException =>
      change wp (ptraceError world) _ _
      unfold ptraceError
      rw [wp_bind]
      exact (wp_ite _ _ _).mpr ⟨fun gone => ⟨rfl, rfl, gone⟩, fun _ => .inr ⟨_, rfl⟩⟩
  | syscallException => exact .inl rfl
  | _ => exact .inr ⟨_, rfl⟩

theorem report_reports (name : List Char) (raised : MyException) (console : Console κ) :
    wp (report world name raised)
      { ok := fun _ => Reports world name (.raised raised) console
        throw := fun _ _ => False
        fault := fun _ => False
        noReturn := fun after => after = console ∧ raised = .ptraceException ∧
          world.errno console.state.kernel = esrch ∧ console.gPid ≠ 0 } console := by
  have warns : wp (report world name raised) _ console := report_warns name raised console
  unfold wp at warns ⊢
  cases outcome : report world name raised console with
  | ok value after => rw [outcome] at warns; exact ⟨outcome, warns⟩
  | throw other after => rw [outcome] at warns; exact warns
  | fault after => rw [outcome] at warns; exact warns
  | noReturn after => rw [outcome] at warns; exact warns

theorem Reports.notices {name : List Char} (reports : Reports world name back middle after) :
    ∃ notices, after = { middle with notices := notices } := by
  cases back with
  | normal => exact ⟨middle.notices, reports⟩
  | raised raised =>
      rcases reports.2 with same | ⟨text, warned⟩
      · exact ⟨middle.notices, same⟩
      · exact ⟨_, warned⟩

/-- A line, however it ends. -/
def Taking (world : World κ) (cmds : List (MyCmd Registration)) (depth : Nat)
    (tokens : List (List Char)) (before : Console κ) : Post MyException (Console κ) Unit where
  ok _ := Does world cmds depth tokens before
  throw _ _ := False
  fault := Sinks world cmds depth tokens before
  noReturn := Sinks world cmds depth tokens before

theorem runFound_takes {cmd : MyCmd Registration} (found : Names cmds tokens cmd) :
    wp (runFound world cmds depth cmd tokens) (Taking world cmds depth tokens before) before := by
  unfold runFound
  rw [wp_bind]
  change wp (if before.gPid = 0 ∧ cmd.rest.type = .programRequired then _ else _) _ _
  by_cases refused : before.gPid = 0 ∧ cmd.rest.type = .programRequired
  · rw [if_pos refused]
    exact .refused cmd found refused.2 refused.1 rfl
  · have selects : Selects cmds before.gPid tokens cmd :=
      ⟨found, fun required detached => refused ⟨detached, required⟩⟩
    rw [if_neg refused, wp_attempt]
    refine wp_mono (call_acting world cmds tokens)
      ⟨fun _ after acts => ?_, fun raised middle acts => ?_,
        fun _ strands => .strands cmd selects strands,
        fun _ strands => .strands cmd selects strands⟩
    · exact .runs cmd selects .normal after acts rfl
    · refine wp_mono (report_reports cmd.name raised middle)
        ⟨fun _ after reports => ?_, fun _ _ impossible => impossible,
          fun _ impossible => impossible.elim, ?_⟩
      · exact .runs cmd selects (.raised raised) middle acts reports
      · rintro _ ⟨rfl, rfl, gone, attached⟩
        exact .exits cmd selects acts gone attached

theorem runLine_takes (tokens : List (List Char)) :
    wp (runLine world cmds depth tokens) (Taking world cmds depth tokens before) before := by
  cases tokens with
  | nil => exact .empty rfl rfl
  | cons name rest =>
      change wp (runCommand world cmds depth name (name :: rest)) _ _
      unfold runCommand
      cases lookup : getCommand cmds name with
      | found cmd => exact runFound_takes ⟨name, rfl, by rw [lookup]; rfl⟩
      | ambiguous => exact .unknown name rfl (by rw [lookup]; rfl) _ rfl
      | notFound => exact .unknown name rfl (by rw [lookup]; rfl) _ rfl

end Lines

/-! ## The loop -/

/-- The input was taken up to its end or to `g_quit`. -/
def Finishes (world : World κ) (cmds : List (MyCmd Registration)) (depth : Nat)
    (input : List (List (List Char))) (before after : Console κ) : Prop :=
  ∃ lines rest, input = lines ++ rest ∧ Run (Turn world cmds depth) before lines after ∧
    (rest = [] ∨ after.state.globals.gQuit = true)

/-- The debugger was lost in one of the lines. -/
def Loses (world : World κ) (cmds : List (MyCmd Registration)) (depth : Nat)
    (input : List (List (List Char))) (before after : Console κ) : Prop :=
  ∃ lines tokens rest prompt, input = lines ++ tokens :: rest ∧
    Run (Turn world cmds depth) before lines prompt ∧
      LastTurn world cmds depth tokens prompt after

section Loop

variable {world : World κ} {cmds : List (MyCmd Registration)} {depth : Nat}
  {input : List (List (List Char))} {tokens : List (List Char)} {before middle after : Console κ}

theorem Finishes.cons (turn : Turn world cmds depth tokens before middle)
    (finishes : Finishes world cmds depth input middle after) :
    Finishes world cmds depth (tokens :: input) before after := by
  obtain ⟨lines, rest, rfl, run, ends⟩ := finishes
  exact ⟨tokens :: lines, rest, rfl, (Run.single turn).trans run, ends⟩

theorem Loses.cons (turn : Turn world cmds depth tokens before middle)
    (loses : Loses world cmds depth input middle after) :
    Loses world cmds depth (tokens :: input) before after := by
  obtain ⟨lines, last, rest, prompt, rfl, run, lastTurn⟩ := loses
  exact ⟨tokens :: lines, last, rest, prompt, rfl, (Run.single turn).trans run, lastTurn⟩

theorem mainLoop_takes (world : World κ) (cmds : List (MyCmd Registration)) (depth : Nat)
    (input : List (List (List Char))) (before : Console κ) :
    wp (mainLoop world cmds depth input)
      { ok := fun _ => Finishes world cmds depth input before
        throw := fun _ _ => False
        fault := Loses world cmds depth input before
        noReturn := Loses world cmds depth input before } before := by
  induction input generalizing before with
  | nil => exact ⟨[], [], rfl, .refl, .inl rfl⟩
  | cons tokens input inductionHypothesis =>
      unfold mainLoop
      rw [wp_bind, wp_gets]
      change wp (if before.state.globals.gQuit = true then _ else _) _ _
      by_cases quit : before.state.globals.gQuit = true
      · rw [if_pos quit]
        exact ⟨[], tokens :: input, rfl, .refl, .inr quit⟩
      · have running := Bool.eq_false_iff.mpr quit
        have lost (after : Console κ) (sinks : Sinks world cmds depth tokens before after) :
            Loses world cmds depth (tokens :: input) before after :=
          ⟨[], tokens, input, before, rfl, .refl, running, sinks⟩
        rw [if_neg quit, wp_bind]
        refine wp_mono (runLine_takes tokens)
          ⟨fun _ middle does => ?_, fun _ _ impossible => impossible, lost, lost⟩
        have turn : Turn world cmds depth tokens before middle := ⟨running, does⟩
        exact wp_mono (inductionHypothesis middle)
          ⟨fun _ _ => .cons turn, fun _ _ impossible => impossible, fun _ => .cons turn,
            fun _ => .cons turn⟩

end Loop

/-! ## Before a process is attached -/

/-- Registers are asked for, and arguments are complained about. -/
def IsAside : Event → Prop
  | .ptrace request _ => request = .getregs
  | .output message => isAside message = true
  | _ => False

/-- Nothing but `g_quit` has changed, and nothing but registers was asked for. -/
structure Untouched (before after : State κ) : Prop where
  globals : after.globals = { before.globals with gQuit := after.globals.gQuit }
  trace : ∃ new, after.trace = new ++ before.trace ∧ ∀ entry ∈ new, IsAside entry.event

/-- An attached process stays attached, and before that nothing is touched. -/
structure Sheltered (before after : Console κ) : Prop where
  attached : before.gPid ≠ 0 → after.gPid = before.gPid
  detached : after.gPid = 0 → Untouched before.state after.state

section Shelter

variable {host : Host κ} {world : World κ} {cmds : List (MyCmd Registration)} {depth : Nat}
  {function : Function} {back : Return} {pid : Attach.Pid} {input : List (List (List Char))}
  {tokens args : List (List Char)} {before middle after : Console κ}

theorem Untouched.refl (state : State κ) : Untouched state state :=
  ⟨rfl, [], rfl, fun _ member => by cases member⟩

theorem Untouched.trans {first second third : State κ} (early : Untouched first second)
    (late : Untouched second third) : Untouched first third where
  globals := by
    rw [late.globals, early.globals]
  trace := by
    obtain ⟨old, split, asides⟩ := early.trace
    obtain ⟨new, splits, others⟩ := late.trace
    exact ⟨new ++ old, by rw [splits, split, List.append_assoc],
      fun entry member => (List.mem_append.mp member).elim (others entry) (asides entry)⟩

theorem Interlude.untouched {first second : State κ} (interlude : Interlude host first second) :
    Untouched first second := by
  cases interlude with
  | reads =>
      exact ⟨rfl, [_], rfl, fun entry member => by rw [List.mem_singleton.mp member]; rfl⟩
  | prints message aside =>
      exact ⟨rfl, [_], rfl, fun entry member => by rw [List.mem_singleton.mp member]; exact aside⟩
  | looks kernel => exact ⟨rfl, [], rfl, fun _ member => by cases member⟩

theorem Interludes.untouched {first second : State κ} (interludes : Interludes host first second) :
    Untouched first second := by
  induction interludes with
  | refl => exact .refl first
  | tail _ interlude inductionHypothesis => exact inductionHypothesis.trans interlude.untouched

theorem Sheltered.refl (console : Console κ) : Sheltered console console :=
  ⟨fun _ => rfl, fun _ => .refl _⟩

theorem Sheltered.trans (early : Sheltered before middle) (late : Sheltered middle after) :
    Sheltered before after where
  attached attached := by
    have kept := early.attached attached
    rw [late.attached (kept ▸ attached), kept]
  detached detached := by
    have still : middle.gPid = 0 := by
      by_contra attached
      exact attached ((late.attached attached).symm.trans detached)
    exact (early.detached still).trans (late.detached detached)

theorem Passes.sheltered (passes : Passes host before after) : Sheltered before after :=
  ⟨fun _ => passes.gPid, fun _ => Interludes.untouched passes.state⟩

/-- Attaching changes nothing of the debugger's own state. -/
theorem Attached.sheltered (attaches : Attached world pid before after) :
    Sheltered before after where
  attached attached := absurd attaches.detached attached
  detached _ := by
    rw [attaches.state]
    exact ⟨rfl, [], rfl, fun _ member => by cases member⟩

/-- A process that is there stays, whatever is done to it. -/
theorem SameProcess.sheltered (same : SameProcess before after) (attached : before.gPid ≠ 0) :
    Sheltered before after :=
  ⟨fun _ => same.gPid, fun detached => absurd (same.gPid.symm.trans detached) attached⟩

theorem Acts.sheltered (acts : Acts world depth function args back before after)
    (attached : inSession function = true → before.gPid ≠ 0) : Sheltered before after := by
  cases acts with
  | shows passes => exact passes.sheltered
  | lacks passes => exact passes.sheltered
  | refuses _ _ _ _ _ passes => exact passes.sheltered
  | runs middle _ command _ _ passes same _ kept =>
      have there := attached (same ▸ inSession_functionOf command)
      exact passes.sheltered.trans (kept.sheltered (passes.gPid ▸ there))
  | attaches middle _ passes _ _ _ attaches => exact passes.sheltered.trans attaches.sheltered
  | declines passes => exact passes.sheltered
  | objects _ _ passes => exact passes.sheltered
  | quits _ _ state kept =>
      refine ⟨fun _ => kept.gPid, fun _ => ?_⟩
      rw [state]
      exact ⟨rfl, [], rfl, fun _ member => by cases member⟩

theorem Strands.sheltered (strands : Strands world depth function args before after)
    (attached : inSession function = true → before.gPid ≠ 0) : Sheltered before after := by
  cases strands with
  | session middle _ command _ _ passes same _ kept =>
      have there := attached (same ▸ inSession_functionOf command)
      exact passes.sheltered.trans (kept.sheltered (passes.gPid ▸ there))
  | attaches middle _ passes _ _ _ attaches => exact passes.sheltered.trans attaches.sheltered
  | looks middle passes _ left => exact passes.sheltered.trans left.sheltered

theorem Reports.sheltered {name : List Char} (reports : Reports world name back middle after) :
    Sheltered middle after := by
  obtain ⟨notices, rfl⟩ := reports.notices
  exact ⟨fun _ => rfl, fun _ => .refl _⟩

/-- What is found is in the table. -/
theorem getCommand_mem {φ : Type} {table : List (MyCmd φ)} {name : List Char} {cmd : MyCmd φ}
    (found : (getCommand table name).command = some cmd) : cmd ∈ table := by
  unfold getCommand at found
  cases exact : findExact name table with
  | some first =>
      rw [exact] at found
      obtain rfl := Option.some.inj found
      rw [findExact_eq_find] at exact
      exact List.mem_of_find?_eq_some exact
  | none =>
      rw [exact, findPrefix_eq_classify] at found
      cases starts : table.filter fun cmd => startsWith cmd.name name with
      | nil =>
          simp [starts, classify, Lookup.command] at found
      | cons first rest =>
          cases rest with
          | nil =>
              simp [starts, classify, Lookup.command] at found
              subst found
              exact List.mem_of_mem_filter (starts ▸ List.mem_singleton_self _)
          | cons second others => simp [starts, classify, Lookup.command] at found

theorem registered_required : ∀ cmd ∈ registered, inSession cmd.rest.function = true →
    cmd.rest.type = .programRequired := by
  decide

/-- A command of a session is not run without a process. -/
theorem Selects.session {gPid : Attach.Pid} {cmd : MyCmd Registration}
    (perm : cmds.Perm registered) (selects : Selects cmds gPid tokens cmd)
    (session : inSession cmd.rest.function = true) : gPid ≠ 0 := by
  obtain ⟨name, _, found⟩ := selects.found
  have member : cmd ∈ registered := perm.mem_iff.mp (getCommand_mem found)
  exact selects.attached (registered_required cmd member session)

theorem Does.sheltered (perm : cmds.Perm registered)
    (does : Does world cmds depth tokens before after) : Sheltered before after := by
  cases does with
  | empty _ same =>
      rw [same]
      exact .refl before
  | unknown name _ _ text warned =>
      rw [warned]
      exact ⟨fun _ => rfl, fun _ => .refl _⟩
  | refused cmd _ _ _ warned =>
      rw [warned]
      exact ⟨fun _ => rfl, fun _ => .refl _⟩
  | runs cmd selects back middle acts reports =>
      exact (acts.sheltered (selects.session perm)).trans reports.sheltered

theorem Sinks.sheltered (perm : cmds.Perm registered)
    (sinks : Sinks world cmds depth tokens before after) : Sheltered before after := by
  cases sinks with
  | strands cmd selects strands => exact strands.sheltered (selects.session perm)
  | exits cmd selects acts => exact acts.sheltered (selects.session perm)

theorem run_sheltered (perm : cmds.Perm registered)
    (run : Run (Turn world cmds depth) before input after) : Sheltered before after := by
  refine Run.invariant (Sheltered before) (.refl before) (fun tokens middle after held turn => ?_)
    run
  exact held.trans (turn.does.sheltered perm)

theorem Finishes.sheltered (perm : cmds.Perm registered)
    (finishes : Finishes world cmds depth input before after) : Sheltered before after := by
  obtain ⟨_, _, _, run, _⟩ := finishes
  exact run_sheltered perm run

theorem Loses.sheltered (perm : cmds.Perm registered)
    (loses : Loses world cmds depth input before after) : Sheltered before after := by
  obtain ⟨_, _, _, _, _, run, turn⟩ := loses
  exact (run_sheltered perm run).trans (turn.sinks.sheltered perm)

end Shelter

/-- The loop of `main` takes one line of its input after the other, up to the end or to
`g_quit`. A line whose first word selects a command does what that command is there for,
behind interludes, unless it has too few words, one of them is refused, or the command
needs a process and there is none. No exception comes out of the loop, and the debugger
is lost only in a command, or where the tracee is gone; a process that is attached stays
so, and before there is one nothing but registers is asked for and no breakpoint or
watched syscall changes. -/
theorem main_refines (world : World κ) {cmds : List (MyCmd Registration)}
    (perm : cmds.Perm registered) (depth : Nat) (input : List (List (List Char))) :
    Triple (fun _ => True) (mainLoop world cmds depth input) fun before =>
      { ok := fun _ after => Finishes world cmds depth input before after ∧
          Sheltered before after
        throw := fun _ _ => False
        fault := fun after => Loses world cmds depth input before after ∧
          Sheltered before after
        noReturn := fun after => Loses world cmds depth input before after ∧
          Sheltered before after } where
  holds before _ := wp_mono (mainLoop_takes world cmds depth input before)
    ⟨fun _ _ finishes => ⟨finishes, finishes.sheltered perm⟩, fun _ _ impossible => impossible,
      fun _ loses => ⟨loses, loses.sheltered perm⟩, fun _ loses => ⟨loses, loses.sheltered perm⟩⟩

/-- No process can be attached, and nothing is shown. -/
def scriptedWorld : World Scripted where
  host := scripted
  kernel :=
    { ptrace := fun _ _ _ _ kernel => ⟨-1, Attach.eio, kernel⟩
      waitpid := fun _ kernel => .failed kernel
      Traced := fun _ _ => False
      Stopped := fun _ _ => False
      options := fun _ _ => 0
      rejects := fun _ _ _ _ _ _ => rfl
      traced_of_stopped := fun _ _ stopped => stopped
      traced_of_reported := fun _ _ _ _ waits _ => by cases waits }
  unwinder := ⟨true, true⟩
  errno _ := esrch
  getAddress _ := pure 0
  getLineAddress _ _ := Program.throw .dwarfException
  printLine := Program.throw .dwarfException
  printBacktrace := pure ()
  infoMemory := pure ()
  examineMemory _ _ _ := pure ()

/-- `break 0x10`, `continue`, `quit`. -/
def breakAndQuit : List (List (List Char)) :=
  [[['b', 'r', 'e', 'a', 'k'], ['0', 'x', '1', '0']], [['c']], [['q']]]

/-- Attached to process 7, which exits, with no breakpoint yet. -/
def attachedOnce : Console Scripted :=
  ⟨Scripted.start [⟨.exited 0, 0⟩], 7, false, none, []⟩

theorem main_refines_quit :
    Triple (fun _ => True) (mainLoop scriptedWorld registered.reverse 1 breakAndQuit) fun before =>
      { ok := fun _ after => Finishes scriptedWorld registered.reverse 1 breakAndQuit before after ∧
          Sheltered before after
        throw := fun _ _ => False
        fault := fun after => Loses scriptedWorld registered.reverse 1 breakAndQuit before after ∧
          Sheltered before after
        noReturn := fun after =>
          Loses scriptedWorld registered.reverse 1 breakAndQuit before after ∧
            Sheltered before after } :=
  main_refines scriptedWorld registered.reverse_perm 1 breakAndQuit

end MyDbg.Main
