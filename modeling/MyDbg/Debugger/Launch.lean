import MyDbg.Debugger.Attach
import MyDbg.Lib.Resumption
import MyDbg.Lib.Transition

/-!
Contract: the start of a program under the debugger.

Owns: `setup_binary`, which after `fork` two processes run; the kernel between them
and whoever else sends signals; and the protocol of each side, which `setup_binary`
keeps to.

Does not own: what the two processes achieve in a run.
-/

namespace MyDbg.Launch

open Resumptions Resumption
open Attach (Pid gOptions ptraceOExitkill)
open LittleEndian (Word)

/-! ## The code -/

/-- What `setup_binary` calls. `exit` is called through `err` and `errx`. -/
inductive Call where
  | fork
  | traceme
  /-- `execv`, or `execvp` where the file is searched for. -/
  | exec (search : Bool) (argv : List (List Char))
  | waitpid (pid : Pid)
  | setoptions (pid : Pid) (options : Word)
  | exit (status : BitVec 8) (message : String)

abbrev Answer : Call → Type
  | .fork => Pid
  | .traceme => Word
  | .exec _ _ => BitVec 32
  | .waitpid _ => Pid × WStatus
  | .setoptions _ _ => Word
  | .exit _ _ => Empty

abbrev Code (α : Type) := Resumption Call Answer α

def err {α : Type} (message : String) : Code α := .call (.exit 1 message) nofun

def errx {α : Type} (message : String) : Code α := .call (.exit 1 message) nofun

/-- `argv[0]`. -/
def file (argv : List (List Char)) : List Char := argv.headD []

/-- The branch of the new process. -/
def asTracee (argv : List (List Char)) : Code Unit := do
  let traceme ← perform .traceme
  when (traceme = -1) (err "ptrace failed")
  let execv ← perform (.exec false argv)
  when (execv = -1) do
    let execvp ← perform (.exec true argv)
    when (execvp = -1) (err (String.ofList (file argv)))

/-- What follows the branch. -/
def asTracer (gPid : Pid) : Code Pid := do
  let (waitpid, wstatus) ← (perform (Call.waitpid gPid) : Code (Pid × WStatus))
  when (waitpid = -1) (err "waitpid failed")
  when (wstatus.wstopsig ≠ some 5)
    (errx "An error occured while trying to debug program, exiting")
  let setoptions ← perform (.setoptions gPid gOptions)
  when (setoptions = -1) (err "ptrace failed")
  return gPid

def setupBinary (argv : List (List Char)) : Code Pid := do
  let gPid ← perform .fork
  when (gPid = -1) (err "fork failed")
  when (gPid = 0) (asTracee argv)
  asTracer gPid

/-! ## The kernel -/

/-- What the names of programs stand for. -/
structure Files (ι : Type) where
  direct : List Char → Option ι
  search : List Char → Option ι

namespace Files

variable {ι : Type} (files : Files ι)

def find (search : Bool) : List Char → Option ι :=
  if search then files.search else files.direct

/-- The program that is executed if nothing else fails. -/
def program (name : List Char) : Option ι := (files.direct name).or (files.search name)

end Files

inductive Life where
  | running
  /-- By job control, which no wait of the debugger reports. -/
  | paused
  /-- As a tracee. -/
  | stopped (signal : BitVec 7)
  | exited (status : BitVec 8)
  | signaled (signal : BitVec 7)
deriving DecidableEq

/-- What is reported of a process that has ended. -/
def Life.ending : Life → Option WStatus
  | .exited status => some (.exited status)
  | .signaled signal => some (.signaled signal)
  | _ => none

/-- The new process. -/
structure Child (ι : Type) where
  pid : Pid
  /-- What is left to do for `setup_binary`, until another program is executed. -/
  code : Code Pid
  image : Option ι
  /-- By the debugger. -/
  traced : Bool
  options : Word
  life : Life
  /-- The debugger was told how it lives. -/
  reported : Bool
  /-- The program has executed an instruction. -/
  started : Bool

inductive Debugger where
  | running (code : Code Pid)
  | exited (status : BitVec 8) (message : String)
  | killed

def Debugger.isRunning : Debugger → Bool
  | .running _ => true
  | _ => false

structure Machine (ι : Type) where
  debugger : Debugger
  child : Option (Child ι)

/-- Who takes a step, and whether a call fails that did not have to. -/
inductive Label where
  | call
  | failure
  | program
  | signal (signal : BitVec 7)
deriving DecidableEq

def sigkill : BitVec 7 := 9

def sigcont : BitVec 7 := 18

def sigstop : BitVec 7 := 19

/-- SIGSTOP, SIGTSTP, SIGTTIN and SIGTTOU stop a process that is not traced. -/
def jobStops : List (BitVec 7) := [sigstop, 20, 21, 22]

/-- SIGCHLD, SIGCONT, SIGURG and SIGWINCH are ignored where nobody asks for them. -/
def ignoredSignals : List (BitVec 7) := [17, sigcont, 23, 28]

namespace Child

variable {ι : Type} (child : Child ι)

/-- After `fork`. -/
def forked (pid : Pid) (code : Code Pid) : Child ι :=
  ⟨pid, code, none, false, 0, .running, false, false⟩

/-- A tracee is stopped before the first instruction of the program. -/
def executes (image : ι) : Child ι :=
  { child with
    image := some image
    life := if child.traced then .stopped 5 else .running
    reported := false }

/-- A process without its tracer. -/
def release : Child ι :=
  if child.traced = false ∨ child.life.ending ≠ none then { child with traced := false }
  else if child.options &&& ptraceOExitkill = ptraceOExitkill then
    { child with traced := false, life := .signaled sigkill }
  else { child with traced := false, life := .running }

end Child

section Steps

variable {ι : Type}

/-- The steps of the debugger. -/
inductive DebuggerStep : Label → Machine ι → Machine ι → Prop where
  | forkFails {next child} :
      DebuggerStep .failure ⟨.running (.call .fork next), child⟩ ⟨.running (next (-1)), child⟩
  | fork {next pid} : pid ≠ 0 → pid ≠ -1 →
      DebuggerStep .call ⟨.running (.call .fork next), none⟩
        ⟨.running (next pid), some (.forked pid (next 0))⟩
  | waitFails {pid child wstatus} {next : Answer (.waitpid pid) → Code Pid} :
      DebuggerStep .failure ⟨.running (.call (.waitpid pid) next), child⟩
        ⟨.running (next (-1, wstatus)), child⟩
  | waitStopped {child : Child ι} {next : Answer (.waitpid child.pid) → Code Pid} {signal} :
      child.traced → child.life = .stopped signal → child.reported = false →
        DebuggerStep .call ⟨.running (.call (.waitpid child.pid) next), some child⟩
          ⟨.running (next (child.pid, .stopped signal)), some { child with reported := true }⟩
  | waitEnded {child : Child ι} {next : Answer (.waitpid child.pid) → Code Pid} {wstatus} :
      child.life.ending = some wstatus → child.reported = false →
        DebuggerStep .call ⟨.running (.call (.waitpid child.pid) next), some child⟩
          ⟨.running (next (child.pid, wstatus)), some { child with reported := true }⟩
  | setoptionsFails {pid options child} {next : Answer (.setoptions pid options) → Code Pid} :
      DebuggerStep .failure ⟨.running (.call (.setoptions pid options) next), child⟩
        ⟨.running (next (-1)), child⟩
  | setoptions {child : Child ι} {options signal}
      {next : Answer (.setoptions child.pid options) → Code Pid} :
      child.traced → child.life = .stopped signal →
        DebuggerStep .call ⟨.running (.call (.setoptions child.pid options) next), some child⟩
          ⟨.running (next 0), some { child with options := options }⟩
  | exits {status message child} {next : Answer (.exit status message) → Code Pid} :
      DebuggerStep .call ⟨.running (.call (.exit status message) next), child⟩
        ⟨.exited status message, child.map .release⟩
  | killed {code child signal} :
      DebuggerStep (.signal signal) ⟨.running code, child⟩ ⟨.killed, child.map .release⟩

variable (files : Files ι)

/-- The steps of the new process, with or without the debugger as its parent. -/
inductive ChildStep (parent : Bool) : Label → Child ι → Child ι → Prop where
  | tracemeFails {child next} : child.image = none → child.life = .running →
      child.code = .call .traceme next →
        ChildStep parent .failure child { child with code := next (-1) }
  | traceme {child next} : child.image = none → child.life = .running →
      child.code = .call .traceme next →
        ChildStep parent .call child { child with code := next 0, traced := parent }
  | execFails {child search argv next} : child.image = none → child.life = .running →
      child.code = .call (.exec search argv) next →
        ChildStep parent .failure child { child with code := next (-1) }
  | execMissing {child search argv next} : child.image = none → child.life = .running →
      child.code = .call (.exec search argv) next → files.find search (file argv) = none →
        ChildStep parent .call child { child with code := next (-1) }
  | exec {child search argv next image} : child.image = none → child.life = .running →
      child.code = .call (.exec search argv) next → files.find search (file argv) = some image →
        ChildStep parent .call child (child.executes image)
  | exits {child status message next} : child.image = none → child.life = .running →
      child.code = .call (.exit status message) next →
        ChildStep parent .call child
          { child with life := .exited status, reported := false }
  | runs {child} : child.image ≠ none → child.life = .running →
      ChildStep parent .program child { child with started := true }
  | ends {child life} : child.image ≠ none → child.life = .running → child.started →
      life.ending ≠ none →
        ChildStep parent .program child { child with life := life, reported := false }
  | stops {child signal} : signal ≠ sigkill → child.traced → child.life = .running →
      ChildStep parent (.signal signal) child
        { child with life := .stopped signal, reported := false }
  | terminates {child signal} : ¬ child.traced → child.life = .running →
      signal ∉ jobStops → signal ∉ ignoredSignals →
        ChildStep parent (.signal signal) child
          { child with life := .signaled signal, reported := false }
  | pauses {child signal} : ¬ child.traced → child.life = .running → signal ∈ jobStops →
      ChildStep parent (.signal signal) child { child with life := .paused }
  | resumes {child} : child.life = .paused →
      ChildStep parent (.signal sigcont) child { child with life := .running }
  /-- The signal is ignored: whoever started the debugger may have asked for that. -/
  | ignores {child signal} : ¬ child.traced → signal ≠ sigkill → signal ≠ sigstop →
      (signal = sigcont → child.life ≠ .paused) →
        ChildStep parent (.signal signal) child child
  | kills {child} : child.life.ending = none →
      ChildStep parent (.signal sigkill) child
        { child with life := .signaled sigkill, reported := false }

/-- One process or the other takes a step. -/
inductive Step : Label → Machine ι → Machine ι → Prop where
  | debugger {label before after} : DebuggerStep label before after → Step label before after
  | child {label debugger before after} : ChildStep files debugger.isRunning label before after →
      Step label ⟨debugger, some before⟩ ⟨debugger, some after⟩

/-- Nothing has happened. -/
def start (argv : List (List Char)) : Machine ι := ⟨.running (setupBinary argv), none⟩

end Steps

/-! ## The protocol -/

/-- The process ends with a message. -/
inductive Exits (message : String) : Code Pid → Prop where
  | exit {next} : Exits message (.call (.exit 1 message) next)

/-- What is left for the new process, which is traced or not. -/
inductive Tracee (argv : List (List Char)) : Bool → Code Pid → Prop where
  | exiting {traced message code} : Exits message code → Tracee argv traced code
  | searches {next} : Exits (String.ofList (file argv)) (next (-1)) →
      Tracee argv true (.call (.exec true argv) next)
  | executes {next} : Tracee argv true (next (-1)) →
      (∃ rest, next (-1) = .call (.exec true argv) rest) →
        Tracee argv true (.call (.exec false argv) next)
  | traceme {next} : Exits "ptrace failed" (next (-1)) → Tracee argv true (next 0) →
      (∃ rest, next 0 = .call (.exec false argv) rest) →
        Tracee argv false (.call .traceme next)

/-- What is left for the debugger after the stop. -/
inductive Sets (pid : Pid) : Code Pid → Prop where
  | setoptions {next} : Exits "ptrace failed" (next (-1)) → next 0 = .ret pid →
      Sets pid (.call (.setoptions pid gOptions) next)

/-- What is left for the debugger before the stop. -/
inductive Waits (pid : Pid) : Code Pid → Prop where
  | waitpid {next : Answer (.waitpid pid) → Code Pid} :
      (∀ wstatus, Exits "waitpid failed" (next (-1, wstatus))) →
      (∀ wstatus, wstatus ≠ .stopped 5 →
        Exits "An error occured while trying to debug program, exiting" (next (pid, wstatus))) →
      Sets pid (next (pid, .stopped 5)) → Waits pid (.call (.waitpid pid) next)

/-- What is left for the debugger at first. -/
inductive Forks (argv : List (List Char)) : Code Pid → Prop where
  | fork {next} : Exits "fork failed" (next (-1)) → Tracee argv false (next 0) →
      (∃ rest, next 0 = .call .traceme rest) →
        (∀ pid, pid ≠ 0 → pid ≠ -1 → Waits pid (next pid)) → Forks argv (.call .fork next)

theorem stopsig_five {wstatus : WStatus} : wstatus.wstopsig = some 5 ↔ wstatus = .stopped 5 := by
  cases wstatus with
  | stopped signal =>
      simp only [WStatus.wstopsig, Option.some.injEq, WStatus.stopped.injEq]
      revert signal
      decide
  | syscallStop => decide
  | exited => simp [WStatus.wstopsig]
  | signaled => simp [WStatus.wstopsig]
  | other => simp [WStatus.wstopsig]

theorem ending_not_stopped {life : Life} {wstatus : WStatus} (ended : life.ending = some wstatus) :
    wstatus ≠ .stopped 5 := by
  rintro rfl
  cases life with
  | running => cases ended
  | paused => cases ended
  | stopped => cases ended
  | exited => cases ended
  | signaled => cases ended

theorem asTracer_waits {pid : Pid} (known : pid ≠ -1) : Waits pid (asTracer pid) := by
  refine .waitpid ?_ ?_ ?_
  · intro wstatus
    change Exits _ (when ((-1 : Pid) = -1) _ >>= _)
    rw [when_pos rfl]
    exact .exit
  · intro wstatus otherwise
    change Exits _ (when (pid = -1) _ >>= fun _ => when (wstatus.wstopsig ≠ some 5) _ >>= _)
    rw [when_neg known]
    change Exits _ (when (wstatus.wstopsig ≠ some 5) _ >>= _)
    have notFive : wstatus.wstopsig ≠ some 5 := fun five => otherwise (stopsig_five.mp five)
    rw [when_pos notFive]
    exact .exit
  · change Sets pid (when (pid = -1) _ >>= fun _ => when (_ ≠ some (5 : BitVec 8)) _ >>= _)
    rw [when_neg known]
    change Sets pid (when (_ ≠ some (5 : BitVec 8)) _ >>= _)
    rw [when_neg fun five => five (stopsig_five.mpr rfl)]
    exact .setoptions .exit rfl

theorem asTracee_traced (argv : List (List Char)) (rest : Unit → Code Pid) :
    Tracee argv false (asTracee argv >>= rest) := by
  have searches : Exits (String.ofList (file argv))
      ((when ((-1 : BitVec 32) = -1) (err (String.ofList (file argv)))) >>= rest) := by
    rw [when_pos rfl]
    exact .exit
  exact .traceme .exit (.executes (.searches searches) ⟨_, rfl⟩) ⟨_, rfl⟩

theorem setupBinary_forks (argv : List (List Char)) : Forks argv (setupBinary argv) := by
  refine .fork .exit (asTracee_traced argv _) ⟨_, rfl⟩ ?_
  intro pid parent known
  change Waits pid (when (pid = -1) _ >>= fun _ => when (pid = 0) _ >>= fun _ => asTracer pid)
  rw [when_neg known]
  change Waits pid (when (pid = 0) _ >>= fun _ => asTracer pid)
  rw [when_neg parent]
  exact asTracer_waits known

end MyDbg.Launch
