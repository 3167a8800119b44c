import MyDbg.Debugger.Launch

/-!
Contract: what becomes of the start of a program, whoever is faster.

Owns: what holds of the two processes between any two steps; how many of their calls
are left; that one of them can always go on; and that the debugger ends up with its
program, or without one.

Does not own: the steps, and the protocol each process keeps to.
-/

namespace MyDbg.Launch

open Resumptions Resumption Transition
open Attach (Pid gOptions ptraceOExitkill)
open LittleEndian (Word)

/-! ## Invariants -/

section Invariants

variable {ι : Type} (files : Files ι) (argv : List (List Char)) (honest : Prop)

namespace Child

variable (child : Child ι)

/-- Whatever becomes of the debugger. -/
structure Sound : Prop where
  pid : child.pid ≠ 0 ∧ child.pid ≠ -1
  code : child.image = none → ∃ traced, Tracee argv traced child.code
  found : ∀ image, child.image = some image → ∃ search, files.find search (file argv) = some image

/-- While the debugger is its parent. -/
structure Held : Prop where
  sound : child.Sound files argv
  started : child.started = false
  code : child.image = none → Tracee argv child.traced child.code
  image : child.image ≠ none → child.traced ∧ child.life ≠ .running
  stopped : ∀ signal, child.life = .stopped signal → child.traced
  paused : child.life = .paused → ¬ child.traced
  /-- The trap of `exec` is the only one. -/
  trap : honest → child.life = .stopped 5 → child.image ≠ none

/-- The debugger has seen the trap. -/
structure Caught : Prop where
  traced : child.traced
  life : child.life = .stopped 5 ∨ child.life = .signaled sigkill
  image : honest → child.image ≠ none

end Child

/-- What holds between any two steps. -/
inductive Valid : Machine ι → Prop where
  | starting {code} : Forks argv code → Valid ⟨.running code, none⟩
  | alone {message code} : Exits message code → Valid ⟨.running code, none⟩
  | waiting {code child} : Waits child.pid code → child.Held files argv honest →
      child.reported = false → Valid ⟨.running code, some child⟩
  | setting {code child} : Sets child.pid code → child.Held files argv honest →
      child.Caught honest → Valid ⟨.running code, some child⟩
  | launched {child} : child.Held files argv honest → child.Caught honest →
      child.options = gOptions → Valid ⟨.running (.ret child.pid), some child⟩
  | failing {message code child} : Exits message code → child.Held files argv honest →
      Valid ⟨.running code, some child⟩
  | exited {message child} : (∀ left, child = some left → left.Sound files argv) →
      Valid ⟨.exited 1 message, child⟩
  | killed {child} : (∀ left, child = some left → left.Sound files argv) →
      Valid ⟨.killed, child⟩

end Invariants

/-! ## The new process -/

section ChildSteps

variable {ι : Type} {files : Files ι} {argv : List (List Char)} {honest : Prop} {parent : Bool}
  {label : Label} {before after : Child ι}

theorem ChildStep.pid_eq (step : ChildStep files parent label before after) :
    after.pid = before.pid := by
  cases step <;> rfl

theorem ChildStep.options_eq (step : ChildStep files parent label before after) :
    after.options = before.options := by
  cases step <;> rfl

theorem ChildStep.unreported (step : ChildStep files parent label before after)
    (unreported : before.reported = false) : after.reported = false := by
  cases step <;> first | exact unreported | rfl

theorem Tracee.traceme_next {traced : Bool} {next : Word → Code Pid}
    (tracee : Tracee argv traced (.call .traceme next)) :
    Exits "ptrace failed" (next (-1)) ∧ Tracee argv true (next 0) := by
  cases tracee with
  | exiting exits => cases exits
  | traceme fails goesOn _ => exact ⟨fails, goesOn⟩

theorem Tracee.traceme_goesOn {traced : Bool} {next : Word → Code Pid}
    (tracee : Tracee argv traced (.call .traceme next)) :
    ∃ rest, next 0 = .call (.exec false argv) rest := by
  cases tracee with
  | exiting exits => cases exits
  | traceme _ _ goesOn => exact goesOn

theorem Tracee.exec_goesOn {traced : Bool} {args : List (List Char)}
    {next : BitVec 32 → Code Pid} (tracee : Tracee argv traced (.call (.exec false args) next)) :
    ∃ rest, next (-1) = .call (.exec true argv) rest := by
  cases tracee with
  | exiting exits => cases exits
  | executes _ goesOn => exact goesOn

theorem Tracee.exit_status {traced : Bool} {status : BitVec 8} {message : String}
    {next : Answer (.exit status message) → Code Pid}
    (tracee : Tracee argv traced (.call (.exit status message) next)) : status = 1 := by
  cases tracee with
  | exiting exits =>
      cases exits
      rfl

theorem Tracee.exec_next {traced search : Bool} {args : List (List Char)}
    {next : BitVec 32 → Code Pid} (tracee : Tracee argv traced (.call (.exec search args) next)) :
    traced = true ∧ args = argv ∧ Tracee argv true (next (-1)) := by
  cases tracee with
  | exiting exits => cases exits
  | searches fails => exact ⟨rfl, rfl, .exiting fails⟩
  | executes goesOn _ => exact ⟨rfl, rfl, goesOn⟩

theorem ChildStep.sound (step : ChildStep files parent label before after)
    (sound : before.Sound files argv) : after.Sound files argv := by
  cases step with
  | tracemeFails own _ left =>
      refine ⟨sound.pid, fun _ => ?_, sound.found⟩
      obtain ⟨traced, tracee⟩ := sound.code own
      rw [left] at tracee
      exact ⟨false, .exiting tracee.traceme_next.1⟩
  | traceme own _ left =>
      refine ⟨sound.pid, fun _ => ?_, sound.found⟩
      obtain ⟨traced, tracee⟩ := sound.code own
      rw [left] at tracee
      exact ⟨true, tracee.traceme_next.2⟩
  | execFails own _ left =>
      refine ⟨sound.pid, fun _ => ?_, sound.found⟩
      obtain ⟨traced, tracee⟩ := sound.code own
      rw [left] at tracee
      exact ⟨true, tracee.exec_next.2.2⟩
  | execMissing own _ left _ =>
      refine ⟨sound.pid, fun _ => ?_, sound.found⟩
      obtain ⟨traced, tracee⟩ := sound.code own
      rw [left] at tracee
      exact ⟨true, tracee.exec_next.2.2⟩
  | exec own _ left found =>
      refine ⟨sound.pid, fun noImage => absurd noImage (Option.some_ne_none _), ?_⟩
      obtain ⟨traced, tracee⟩ := sound.code own
      rw [left] at tracee
      intro executed same
      cases same
      rw [← tracee.exec_next.2.1]
      exact ⟨_, found⟩
  | exits => exact ⟨sound.pid, sound.code, sound.found⟩
  | runs => exact ⟨sound.pid, sound.code, sound.found⟩
  | ends => exact ⟨sound.pid, sound.code, sound.found⟩
  | stops => exact ⟨sound.pid, sound.code, sound.found⟩
  | terminates => exact ⟨sound.pid, sound.code, sound.found⟩
  | pauses => exact ⟨sound.pid, sound.code, sound.found⟩
  | resumes => exact ⟨sound.pid, sound.code, sound.found⟩
  | ignores => exact sound
  | kills => exact ⟨sound.pid, sound.code, sound.found⟩

theorem ChildStep.held (step : ChildStep files true label before after)
    (held : before.Held files argv honest) (fair : honest → label ≠ .signal 5) :
    after.Held files argv honest := by
  have sound := step.sound held.sound
  cases step with
  | tracemeFails own runs left =>
      have tracee := held.code own
      rw [left] at tracee
      exact ⟨sound, held.started, fun _ => .exiting tracee.traceme_next.1, held.image,
        held.stopped, held.paused, held.trap⟩
  | traceme own runs left =>
      have tracee := held.code own
      rw [left] at tracee
      exact ⟨sound, held.started, fun _ => tracee.traceme_next.2,
        fun image => absurd own image, fun _ _ => rfl,
        fun paused => Life.noConfusion (runs.symm.trans paused), held.trap⟩
  | execFails own runs left =>
      have tracee := held.code own
      rw [left] at tracee
      have goesOn := tracee.exec_next.2.2
      rw [← tracee.exec_next.1] at goesOn
      exact ⟨sound, held.started, fun _ => goesOn, held.image, held.stopped, held.paused,
        held.trap⟩
  | execMissing own runs left _ =>
      have tracee := held.code own
      rw [left] at tracee
      have goesOn := tracee.exec_next.2.2
      rw [← tracee.exec_next.1] at goesOn
      exact ⟨sound, held.started, fun _ => goesOn, held.image, held.stopped, held.paused,
        held.trap⟩
  | exec own runs left found =>
      have tracee := held.code own
      rw [left] at tracee
      have traced : before.traced = true := tracee.exec_next.1
      have stops : (if before.traced then Life.stopped 5 else .running) = .stopped 5 :=
        if_pos traced
      refine ⟨sound, held.started, fun noImage => absurd noImage (Option.some_ne_none _),
        fun _ => ⟨traced, ?_⟩, fun _ _ => traced, fun paused => ?_,
        fun _ _ => Option.some_ne_none _⟩
      · change (if before.traced then Life.stopped 5 else .running) ≠ .running
        rw [stops]
        exact Life.noConfusion
      · cases stops.symm.trans paused
  | exits own runs left =>
      exact ⟨sound, held.started, held.code, fun image => absurd own image,
        fun _ stopped => Life.noConfusion stopped, fun paused => Life.noConfusion paused,
        fun _ stopped => Life.noConfusion stopped⟩
  | runs image running => exact absurd running (held.image image).2
  | ends image running _ _ => exact absurd running (held.image image).2
  | stops _ traced running =>
      have own : before.image = none := by
        by_contra image
        exact (held.image image).2 running
      refine ⟨sound, held.started, held.code, fun image => absurd own image, fun _ _ => traced,
        fun paused => Life.noConfusion paused, ?_⟩
      intro honesty trap
      exact absurd (congrArg Label.signal (Life.stopped.inj trap)) (fair honesty)
  | terminates untraced running _ _ =>
      refine ⟨sound, held.started, held.code, ?_, fun _ stopped => Life.noConfusion stopped,
        fun paused => Life.noConfusion paused, fun _ stopped => Life.noConfusion stopped⟩
      intro image
      exact absurd (held.image image).1 untraced
  | pauses untraced running _ =>
      refine ⟨sound, held.started, held.code, ?_, fun _ stopped => Life.noConfusion stopped,
        fun _ => untraced, fun _ stopped => Life.noConfusion stopped⟩
      intro image
      exact absurd (held.image image).1 untraced
  | resumes paused =>
      have untraced := held.paused paused
      refine ⟨sound, held.started, held.code, ?_, fun _ stopped => Life.noConfusion stopped,
        fun paused => Life.noConfusion paused, fun _ stopped => Life.noConfusion stopped⟩
      intro image
      exact absurd (held.image image).1 untraced
  | ignores => exact held
  | kills =>
      exact ⟨sound, held.started, held.code,
        fun image => ⟨(held.image image).1, Life.noConfusion⟩,
        fun _ stopped => Life.noConfusion stopped, fun paused => Life.noConfusion paused,
        fun _ stopped => Life.noConfusion stopped⟩

theorem ChildStep.caught (step : ChildStep files true label before after)
    (caught : before.Caught honest) : after.Caught honest := by
  have still : before.life ≠ .running ∧ before.life ≠ .paused := by
    rcases caught.life with life | life
    all_goals
      rw [life]
      exact ⟨Life.noConfusion, Life.noConfusion⟩
  cases step with
  | tracemeFails _ running => exact absurd running still.1
  | traceme _ running => exact absurd running still.1
  | execFails _ running => exact absurd running still.1
  | execMissing _ running => exact absurd running still.1
  | exec _ running => exact absurd running still.1
  | exits _ running => exact absurd running still.1
  | runs _ running => exact absurd running still.1
  | ends _ running => exact absurd running still.1
  | stops _ _ running => exact absurd running still.1
  | terminates _ running => exact absurd running still.1
  | pauses _ running => exact absurd running still.1
  | resumes paused => exact absurd paused still.2
  | ignores => exact caught
  | kills => exact ⟨caught.traced, .inr rfl, caught.image⟩

end ChildSteps

/-! ## The debugger -/

section DebuggerSteps

variable {ι : Type} {files : Files ι} {argv : List (List Char)} {honest : Prop}
  {label : Label} {before after : Machine ι}

theorem Child.Sound.release {child : Child ι} (sound : child.Sound files argv) :
    child.release.Sound files argv := by
  unfold Child.release
  split
  · exact ⟨sound.pid, sound.code, sound.found⟩
  · split
    · exact ⟨sound.pid, sound.code, sound.found⟩
    · exact ⟨sound.pid, sound.code, sound.found⟩

theorem Child.Sound.released {child : Option (Child ι)}
    (sound : ∀ left, child = some left → left.Sound files argv) :
    ∀ left, child.map Child.release = some left → left.Sound files argv := by
  intro left released
  obtain ⟨given, there, rfl⟩ := Option.map_eq_some_iff.mp released
  exact (sound given there).release

theorem Child.Held.report {child : Child ι} {reported : Bool}
    (held : child.Held files argv honest) :
    ({ child with reported := reported } : Child ι).Held files argv honest :=
  ⟨⟨held.sound.pid, held.sound.code, held.sound.found⟩, held.started, held.code, held.image,
    held.stopped, held.paused, held.trap⟩

theorem Child.Held.setOptions {child : Child ι} {options : Word}
    (held : child.Held files argv honest) :
    ({ child with options := options } : Child ι).Held files argv honest :=
  ⟨⟨held.sound.pid, held.sound.code, held.sound.found⟩, held.started, held.code, held.image,
    held.stopped, held.paused, held.trap⟩

theorem Valid.sound (valid : Valid files argv honest before) :
    ∀ left, before.child = some left → left.Sound files argv := by
  cases valid with
  | starting => exact nofun
  | alone => exact nofun
  | waiting _ held _ =>
      intro left same
      cases same
      exact held.sound
  | setting _ held _ =>
      intro left same
      cases same
      exact held.sound
  | launched held _ _ =>
      intro left same
      cases same
      exact held.sound
  | failing _ held =>
      intro left same
      cases same
      exact held.sound
  | exited sound => exact sound
  | killed sound => exact sound

/-! ### What is called tells how far the debugger is -/

theorem Valid.forks {child : Option (Child ι)} {next : Pid → Code Pid}
    (valid : Valid files argv honest ⟨.running (.call .fork next), child⟩) :
    child = none ∧ Forks argv (.call .fork next) := by
  cases valid with
  | starting forks => exact ⟨rfl, forks⟩
  | alone exits => cases exits
  | waiting waits => cases waits
  | setting sets => cases sets
  | failing exits => cases exits

theorem Valid.waits {child : Option (Child ι)} {pid : Pid}
    {next : Answer (.waitpid pid) → Code Pid}
    (valid : Valid files argv honest ⟨.running (.call (.waitpid pid) next), child⟩) :
    ∃ left, child = some left ∧ Waits left.pid (.call (.waitpid pid) next) ∧
      left.Held files argv honest ∧ left.reported = false := by
  cases valid with
  | starting forks => cases forks
  | alone exits => cases exits
  | waiting waits held unreported => exact ⟨_, rfl, waits, held, unreported⟩
  | setting sets => cases sets
  | failing exits => cases exits

theorem Valid.sets {child : Option (Child ι)} {pid : Pid} {options : Word}
    {next : Answer (.setoptions pid options) → Code Pid}
    (valid : Valid files argv honest ⟨.running (.call (.setoptions pid options) next), child⟩) :
    ∃ left, child = some left ∧ Sets left.pid (.call (.setoptions pid options) next) ∧
      left.Held files argv honest ∧ left.Caught honest := by
  cases valid with
  | starting forks => cases forks
  | alone exits => cases exits
  | waiting waits => cases waits
  | setting sets held caught => exact ⟨_, rfl, sets, held, caught⟩
  | failing exits => cases exits

theorem Valid.exits {child : Option (Child ι)} {status : BitVec 8} {message : String}
    {next : Answer (.exit status message) → Code Pid}
    (valid : Valid files argv honest ⟨.running (.call (.exit status message) next), child⟩) :
    status = 1 := by
  cases valid with
  | starting forks => cases forks
  | alone exits =>
      cases exits
      rfl
  | waiting waits => cases waits
  | setting sets => cases sets
  | failing exits =>
      cases exits
      rfl

theorem Valid.returns {child : Option (Child ι)} {pid : Pid}
    (valid : Valid files argv honest ⟨.running (.ret pid), child⟩) :
    ∃ left, child = some left ∧ left.pid = pid ∧ left.Held files argv honest ∧
      left.Caught honest ∧ left.options = gOptions := by
  cases valid with
  | starting forks => cases forks
  | alone exits => cases exits
  | waiting waits => cases waits
  | setting sets => cases sets
  | launched held caught set => exact ⟨_, rfl, rfl, held, caught, set⟩
  | failing exits => cases exits

/-! ### Its steps -/

theorem Child.held_forked {pid : Pid} {code : Code Pid} (parent : pid ≠ 0) (known : pid ≠ -1)
    (tracee : Tracee argv false code) :
    (Child.forked pid code : Child ι).Held files argv honest where
  sound := ⟨⟨parent, known⟩, fun _ => ⟨false, tracee⟩, fun _ => nofun⟩
  started := rfl
  code _ := tracee
  image executed := absurd rfl executed
  stopped _ := nofun
  paused := nofun
  trap _ := nofun

theorem Waits.stopped {pid : Pid} {next : Answer (.waitpid pid) → Code Pid} {signal : BitVec 7}
    (waits : Waits pid (.call (.waitpid pid) next)) (other : signal ≠ 5) :
    Exits "An error occured while trying to debug program, exiting"
      (next (pid, .stopped signal)) := by
  cases waits with
  | waitpid _ fails _ => exact fails _ fun same => other (WStatus.stopped.inj same)

theorem Waits.ended {pid : Pid} {next : Answer (.waitpid pid) → Code Pid} {life : Life}
    {wstatus : WStatus} (waits : Waits pid (.call (.waitpid pid) next))
    (ended : life.ending = some wstatus) :
    Exits "An error occured while trying to debug program, exiting" (next (pid, wstatus)) := by
  cases waits with
  | waitpid _ fails _ => exact fails _ (ending_not_stopped ended)

theorem Waits.trapped {pid : Pid} {next : Answer (.waitpid pid) → Code Pid}
    (waits : Waits pid (.call (.waitpid pid) next)) : Sets pid (next (pid, .stopped 5)) := by
  cases waits with
  | waitpid _ _ trap => exact trap

theorem Waits.fails {pid own : Pid} {next : Answer (.waitpid own) → Code Pid}
    (waits : Waits pid (.call (.waitpid own) next)) (wstatus : WStatus) :
    Exits "waitpid failed" (next (-1, wstatus)) := by
  cases waits with
  | waitpid fails _ _ => exact fails wstatus

theorem Sets.fails {pid own : Pid} {options : Word}
    {next : Answer (.setoptions own options) → Code Pid}
    (sets : Sets pid (.call (.setoptions own options) next)) :
    Exits "ptrace failed" (next (-1)) := by
  cases sets with
  | setoptions fails _ => exact fails

theorem Sets.returns {pid own : Pid} {options : Word}
    {next : Answer (.setoptions own options) → Code Pid}
    (sets : Sets pid (.call (.setoptions own options) next)) :
    next 0 = .ret pid ∧ options = gOptions := by
  cases sets with
  | setoptions _ returns => exact ⟨returns, rfl⟩

theorem DebuggerStep.valid (step : DebuggerStep label before after)
    (valid : Valid files argv honest before) : Valid files argv honest after := by
  have sound := valid.sound
  cases step with
  | forkFails =>
      obtain ⟨rfl, forks⟩ := valid.forks
      cases forks with
      | fork fails _ _ _ => exact .alone fails
  | fork parent known =>
      cases valid.forks.2 with
      | fork _ tracee _ tracer =>
          exact .waiting (tracer _ parent known) (Child.held_forked parent known tracee) rfl
  | waitFails =>
      obtain ⟨left, rfl, waits, held, _⟩ := valid.waits
      exact .failing (waits.fails _) held
  | @waitStopped child next signal traced life _ =>
      obtain ⟨_, ⟨⟩, waits, held, _⟩ := valid.waits
      by_cases five : signal = 5
      · rw [five] at life ⊢
        exact .setting waits.trapped held.report
          ⟨traced, .inl life, fun honesty => held.trap honesty life⟩
      · exact .failing (waits.stopped five) held.report
  | waitEnded life _ =>
      obtain ⟨_, ⟨⟩, waits, held, _⟩ := valid.waits
      exact .failing (waits.ended life) held.report
  | setoptionsFails =>
      obtain ⟨left, rfl, sets, held, _⟩ := valid.sets
      exact .failing sets.fails held
  | @setoptions child options _ next traced life =>
      obtain ⟨_, ⟨⟩, sets, held, caught⟩ := valid.sets
      obtain ⟨returns, set⟩ := sets.returns
      rw [returns]
      have optioned : ({ child with options := options } : Child ι).Held files argv honest :=
        held.setOptions
      exact .launched optioned ⟨caught.traced, caught.life, caught.image⟩ set
  | exits =>
      rw [valid.exits]
      exact .exited (Child.Sound.released sound)
  | killed => exact .killed (Child.Sound.released sound)

theorem ChildStep.valid {debugger : Debugger} {before after : Child ι}
    (step : ChildStep files debugger.isRunning label before after)
    (fair : honest → label ≠ .signal 5)
    (valid : Valid files argv honest ⟨debugger, some before⟩) :
    Valid files argv honest ⟨debugger, some after⟩ := by
  have pid := step.pid_eq
  have options := step.options_eq
  cases valid with
  | waiting waits held unreported =>
      rw [← pid] at waits
      exact .waiting waits (step.held held fair) (step.unreported unreported)
  | setting sets held caught =>
      rw [← pid] at sets
      exact .setting sets (step.held held fair) (step.caught caught)
  | launched held caught set =>
      rw [← pid]
      rw [← options] at set
      exact .launched (step.held held fair) (step.caught caught) set
  | failing exits held => exact .failing exits (step.held held fair)
  | exited sound =>
      refine .exited ?_
      rintro left ⟨⟩
      exact step.sound (sound _ rfl)
  | killed sound =>
      refine .killed ?_
      rintro left ⟨⟩
      exact step.sound (sound _ rfl)

theorem Step.valid (step : Step files label before after) (fair : honest → label ≠ .signal 5)
    (valid : Valid files argv honest before) : Valid files argv honest after := by
  cases step with
  | debugger step => exact step.valid valid
  | child step => exact step.valid fair valid

end DebuggerSteps

/-! ## How far it is to the end -/

section Rank

variable {ι : Type} {files : Files ι} {argv : List (List Char)} {honest : Prop} {label : Label}

/-- The calls before a process has ended or runs another program. -/
def callsLeft : Code Pid → Nat
  | .ret _ => 0
  | .call .fork _ => 8
  | .call .traceme _ => 4
  | .call (.exec search _) _ => if search then 2 else 3
  | .call (.waitpid _) _ => 3
  | .call (.setoptions _ _) _ => 2
  | .call (.exit _ _) _ => 1

def Child.rank (child : Child ι) : Nat :=
  if child.image = none ∧ child.life.ending = none then callsLeft child.code else 0

def Debugger.rank : Debugger → Nat
  | .running code => callsLeft code
  | _ => 0

def Machine.rank (machine : Machine ι) : Nat :=
  machine.debugger.rank + machine.child.elim 0 Child.rank

/-- The calls of the two processes. -/
def Label.own : Label → Bool
  | .call => true
  | .failure => true
  | _ => false

theorem Exits.callsLeft {message : String} {code : Code Pid} (exits : Exits message code) :
    callsLeft code = 1 := by
  cases exits
  rfl

theorem Sets.callsLeft {pid : Pid} {code : Code Pid} (sets : Sets pid code) :
    callsLeft code = 2 := by
  cases sets
  rfl

theorem Waits.callsLeft {pid : Pid} {code : Code Pid} (waits : Waits pid code) :
    callsLeft code = 3 := by
  cases waits
  rfl

theorem Tracee.traceme_left {traced : Bool} {next : Word → Code Pid}
    (tracee : Tracee argv traced (.call .traceme next)) :
    Launch.callsLeft (next (-1)) = 1 ∧ Launch.callsLeft (next 0) = 3 := by
  cases tracee with
  | exiting exits => cases exits
  | traceme fails _ goesOn =>
      obtain ⟨rest, same⟩ := goesOn
      rw [same]
      exact ⟨fails.callsLeft, rfl⟩

theorem Tracee.callsLeft_le {traced : Bool} {code : Code Pid} (tracee : Tracee argv traced code) :
    Launch.callsLeft code ≤ 4 := by
  cases tracee with
  | exiting exits =>
      rw [exits.callsLeft]
      decide
  | searches => exact (by decide : 2 ≤ 4)
  | executes => exact (by decide : 3 ≤ 4)
  | traceme => exact Nat.le_refl 4

theorem Tracee.exec_left {traced search : Bool} {args : List (List Char)}
    {next : BitVec 32 → Code Pid} (tracee : Tracee argv traced (.call (.exec search args) next)) :
    Launch.callsLeft (next (-1)) + 1 = Launch.callsLeft (.call (.exec search args) next) := by
  cases tracee with
  | exiting exits => cases exits
  | searches fails =>
      rw [fails.callsLeft]
      rfl
  | executes _ goesOn =>
      obtain ⟨rest, same⟩ := goesOn
      rw [same]
      rfl

theorem Child.rank_running {child : Child ι} (own : child.image = none)
    (running : child.life = .running) : child.rank = callsLeft child.code := by
  refine if_pos ⟨own, ?_⟩
  rw [running]
  rfl

theorem Child.rank_le_calls (child : Child ι) : child.rank ≤ callsLeft child.code := by
  unfold Child.rank
  split
  · exact Nat.le_refl _
  · exact Nat.zero_le _

theorem Child.rank_executing {child : Child ι} (image : child.image ≠ none) : child.rank = 0 :=
  if_neg fun both => image both.1

theorem Child.rank_ended {child : Child ι} (ended : child.life.ending ≠ none) : child.rank = 0 :=
  if_neg fun both => ended both.2

/-- What else happens to a process does not give it calls. -/
theorem Child.rank_le {before after : Child ι} (image : after.image = before.image)
    (code : after.code = before.code)
    (life : before.life.ending = none ∨ after.life = before.life) :
    after.rank ≤ before.rank := by
  unfold Child.rank
  rw [image, code]
  by_cases both : before.image = none ∧ after.life.ending = none
  · have live : before.life.ending = none := by
      rcases life with life | life
      · exact life
      · rw [← life]
        exact both.2
    rw [if_pos both, if_pos ⟨both.1, live⟩]
  · rw [if_neg both]
    exact Nat.zero_le _

theorem ChildStep.rank {parent : Bool} {before after : Child ι}
    (step : ChildStep files parent label before after) (sound : before.Sound files argv) :
    after.rank + (if label.own then 1 else 0) ≤ before.rank := by
  cases step with
  | tracemeFails own running left =>
      obtain ⟨traced, tracee⟩ := sound.code own
      rw [left] at tracee
      rw [Child.rank_running own running, left]
      have afterwards := tracee.traceme_left.1
      refine Nat.le_trans (Nat.add_le_add_right (Child.rank_le_calls _) _) ?_
      change callsLeft _ + 1 ≤ 4
      rw [afterwards]
      decide
  | traceme own running left =>
      obtain ⟨traced, tracee⟩ := sound.code own
      rw [left] at tracee
      rw [Child.rank_running own running, left]
      have afterwards := tracee.traceme_left.2
      refine Nat.le_trans (Nat.add_le_add_right (Child.rank_le_calls _) _) ?_
      change callsLeft _ + 1 ≤ 4
      rw [afterwards]
  | execFails own running left =>
      obtain ⟨traced, tracee⟩ := sound.code own
      rw [left] at tracee
      rw [Child.rank_running own running, left, ← tracee.exec_left]
      exact Nat.add_le_add_right (Child.rank_le_calls _) _
  | execMissing own running left _ =>
      obtain ⟨traced, tracee⟩ := sound.code own
      rw [left] at tracee
      rw [Child.rank_running own running, left, ← tracee.exec_left]
      exact Nat.add_le_add_right (Child.rank_le_calls _) _
  | exec own running left _ =>
      obtain ⟨traced, tracee⟩ := sound.code own
      rw [left] at tracee
      rw [Child.rank_running own running, left, ← tracee.exec_left,
        Child.rank_executing (Option.some_ne_none _)]
      exact Nat.add_le_add_right (Nat.zero_le _) _
  | exits own running left =>
      rw [Child.rank_running own running, left]
      have ended : ∀ status, (Life.exited status).ending ≠ none := fun _ => Option.some_ne_none _
      exact Nat.add_le_add_right (Nat.le_of_eq (Child.rank_ended (ended _))) _
  | runs _ running =>
      have live : before.life.ending = none := congrArg Life.ending running
      exact Child.rank_le rfl rfl (.inl live)
  | ends _ running _ _ =>
      have live : before.life.ending = none := congrArg Life.ending running
      exact Child.rank_le rfl rfl (.inl live)
  | stops _ _ running =>
      have live : before.life.ending = none := congrArg Life.ending running
      exact Child.rank_le rfl rfl (.inl live)
  | terminates _ running _ _ =>
      have live : before.life.ending = none := congrArg Life.ending running
      exact Child.rank_le rfl rfl (.inl live)
  | pauses _ running _ =>
      have live : before.life.ending = none := congrArg Life.ending running
      exact Child.rank_le rfl rfl (.inl live)
  | resumes paused =>
      have live : before.life.ending = none := congrArg Life.ending paused
      exact Child.rank_le rfl rfl (.inl live)
  | ignores => exact Nat.le_refl _
  | kills live => exact Child.rank_le rfl rfl (.inl live)

theorem Child.rank_release (child : Child ι) : child.release.rank ≤ child.rank := by
  unfold Child.release
  by_cases left : child.traced = false ∨ child.life.ending ≠ none
  · rw [if_pos left]
    exact Child.rank_le rfl rfl (.inr rfl)
  · have live : child.life.ending = none := by
      by_contra ended
      exact left (.inr ended)
    rw [if_neg left]
    split
    · exact Child.rank_le rfl rfl (.inl live)
    · exact Child.rank_le rfl rfl (.inl live)

theorem Machine.rank_released (child : Option (Child ι)) :
    (child.map Child.release).elim 0 Child.rank ≤ child.elim 0 Child.rank := by
  cases child with
  | none => exact Nat.le_refl _
  | some child => exact child.rank_release

theorem DebuggerStep.rank {before after : Machine ι} (step : DebuggerStep label before after)
    (valid : Valid files argv honest before) :
    after.rank + (if label.own then 1 else 0) ≤ before.rank := by
  cases step with
  | forkFails =>
      obtain ⟨rfl, forks⟩ := valid.forks
      cases forks with
      | fork fails _ _ _ =>
          change callsLeft _ + 0 + 1 ≤ 8 + 0
          rw [fails.callsLeft]
          decide
  | @fork next pid parent known =>
      cases valid.forks.2 with
      | fork _ tracee _ tracer =>
          have forked : Child.rank (Child.forked pid _ : Child ι) ≤ 4 :=
            Nat.le_trans (Child.rank_le_calls _) tracee.callsLeft_le
          change callsLeft _ + Child.rank _ + 1 ≤ 8 + 0
          rw [(tracer pid parent known).callsLeft]
          omega
  | waitFails =>
      obtain ⟨left, rfl, waits, _, _⟩ := valid.waits
      change callsLeft _ + left.rank + 1 ≤ 3 + left.rank
      rw [(waits.fails _).callsLeft]
      omega
  | @waitStopped child next signal _ _ _ =>
      obtain ⟨_, ⟨⟩, waits, _, _⟩ := valid.waits
      change callsLeft _ + child.rank + 1 ≤ 3 + child.rank
      by_cases five : signal = 5
      · rw [five, waits.trapped.callsLeft]
        omega
      · rw [(waits.stopped five).callsLeft]
        omega
  | @waitEnded child next wstatus life _ =>
      obtain ⟨_, ⟨⟩, waits, _, _⟩ := valid.waits
      change callsLeft _ + child.rank + 1 ≤ 3 + child.rank
      rw [(waits.ended life).callsLeft]
      omega
  | setoptionsFails =>
      obtain ⟨left, rfl, sets, _, _⟩ := valid.sets
      change callsLeft _ + left.rank + 1 ≤ 2 + left.rank
      rw [sets.fails.callsLeft]
      omega
  | @setoptions child options _ next _ _ =>
      obtain ⟨_, ⟨⟩, sets, _, _⟩ := valid.sets
      change callsLeft _ + child.rank + 1 ≤ 2 + child.rank
      rw [sets.returns.1]
      change 0 + child.rank + 1 ≤ 2 + child.rank
      omega
  | @exits status message child next =>
      have released := Machine.rank_released child
      change 0 + (child.map Child.release).elim 0 Child.rank + 1 ≤ 1 + child.elim 0 Child.rank
      omega
  | @killed code child signal =>
      have released := Machine.rank_released child
      change 0 + (child.map Child.release).elim 0 Child.rank + 0 ≤
        callsLeft code + child.elim 0 Child.rank
      omega

theorem Step.rank {before after : Machine ι} (step : Step files label before after)
    (valid : Valid files argv honest before) :
    after.rank + (if label.own then 1 else 0) ≤ before.rank := by
  cases step with
  | debugger step => exact step.rank valid
  | @child debugger before after step =>
      have less := step.rank (valid.sound before rfl)
      change debugger.rank + after.rank + _ ≤ debugger.rank + before.rank
      omega

end Rank

/-! ## Nobody waits for nothing -/

section Moves

variable {ι : Type} {files : Files ι} {argv : List (List Char)} {honest : Prop}

/-- `setup_binary` has returned, or the debugger has ended. -/
def Debugger.Finished : Debugger → Prop
  | .running code => ∃ pid, code = .ret pid
  | _ => True

/-- The new process was stopped before it was traced. -/
def Machine.Paused (machine : Machine ι) : Prop :=
  ∃ child, machine.child = some child ∧ child.life = .paused

theorem Child.Held.moves {child : Child ι} (held : child.Held files argv honest)
    (running : child.life = .running) :
    ∃ after, ChildStep files true .call child after := by
  have own : child.image = none := by
    by_contra image
    exact (held.image image).2 running
  have tracee := held.code own
  generalize left : child.code = code at tracee
  generalize child.traced = traced at tracee
  cases tracee with
  | exiting exits =>
      cases exits
      exact ⟨_, .exits own running left⟩
  | searches =>
      cases found : files.find true (file argv) with
      | none => exact ⟨_, .execMissing own running left found⟩
      | some image => exact ⟨_, .exec own running left found⟩
  | executes =>
      cases found : files.find false (file argv) with
      | none => exact ⟨_, .execMissing own running left found⟩
      | some image => exact ⟨_, .exec own running left found⟩
  | traceme => exact ⟨_, .traceme own running left⟩

theorem Valid.moves {machine : Machine ι} (valid : Valid files argv honest machine)
    (unfinished : ¬ machine.debugger.Finished) (unpaused : ¬ machine.Paused) :
    (∃ after, Step files .call machine after) ∨
      ∃ child, machine.child = some child ∧ child.life = .signaled sigkill ∧
        ∃ after, Step files .failure machine after := by
  cases valid with
  | starting forks =>
      cases forks
      have one : (1 : Pid) ≠ 0 ∧ (1 : Pid) ≠ -1 := by decide
      exact .inl ⟨_, .debugger (.fork one.1 one.2)⟩
  | alone exits =>
      cases exits
      exact .inl ⟨_, .debugger .exits⟩
  | @waiting code child waits held unreported =>
      left
      cases waits
      cases life : child.life with
      | running =>
          obtain ⟨after, step⟩ := held.moves life
          exact ⟨_, .child step⟩
      | paused => exact absurd ⟨child, rfl, life⟩ unpaused
      | stopped signal =>
          exact ⟨_, .debugger (.waitStopped (held.stopped signal life) life unreported)⟩
      | exited status =>
          exact ⟨_, .debugger (.waitEnded (congrArg Life.ending life) unreported)⟩
      | signaled signal =>
          exact ⟨_, .debugger (.waitEnded (congrArg Life.ending life) unreported)⟩
  | @setting code child sets held caught =>
      cases sets
      rcases caught.life with life | life
      · exact .inl ⟨_, .debugger (.setoptions caught.traced life)⟩
      · exact .inr ⟨child, rfl, life, _, .debugger .setoptionsFails⟩
  | launched => exact absurd ⟨_, rfl⟩ unfinished
  | failing exits =>
      cases exits
      exact .inl ⟨_, .debugger .exits⟩
  | exited => exact absurd trivial unfinished
  | killed => exact absurd trivial unfinished

end Moves

theorem Valid.held {machine : Machine ι} (valid : Valid files argv honest machine)
    (alive : machine.debugger.isRunning = true) :
    ∀ child, machine.child = some child → child.Held files argv honest := by
  cases valid with
  | starting => exact nofun
  | alone => exact nofun
  | waiting _ held _ =>
      rintro child ⟨⟩
      exact held
  | setting _ held _ =>
      rintro child ⟨⟩
      exact held
  | launched held _ _ =>
      rintro child ⟨⟩
      exact held
  | failing _ held =>
      rintro child ⟨⟩
      exact held
  | exited => cases alive
  | killed => cases alive

/-! ## Undisturbed -/

section Quiet

variable {ι : Type} (files : Files ι) (argv : List (List Char))

/-- A process nothing has failed for. -/
structure Child.Quiet (child : Child ι) : Prop where
  searches : ∀ args next, child.code = .call (.exec true args) next →
    files.direct (file argv) = none
  exits : ∀ status message next, child.code = .call (.exit status message) next →
    files.program (file argv) = none
  life : child.life = .running ∧ child.image = none ∨
    child.life = .stopped 5 ∧ child.image ≠ none ∧ child.image = files.program (file argv) ∨
    child.life = .exited 1 ∧ files.program (file argv) = none

structure Machine.Quiet (machine : Machine ι) : Prop where
  child : ∀ child, machine.child = some child → child.Quiet files argv
  failing : ∀ status message next,
    machine.debugger = .running (.call (.exit status message) next) →
      ∃ child, machine.child = some child ∧ child.life = .exited 1
  exited : ∀ status message, machine.debugger = .exited status message →
    ∃ child, machine.child = some child ∧ child.life = .exited 1
  alive : machine.debugger ≠ .killed

variable {files argv} {honest : Prop}

theorem ChildStep.quiet {before after : Child ι} (step : ChildStep files true .call before after)
    (held : before.Held files argv honest) (quiet : before.Quiet files argv) :
    after.Quiet files argv := by
  cases step with
  | traceme own running left =>
      have tracee := held.code own
      rw [left] at tracee
      obtain ⟨rest, goesOn⟩ := tracee.traceme_goesOn
      refine ⟨?_, ?_, .inl ⟨running, own⟩⟩
      · intro args next here
        cases here.symm.trans goesOn
      · intro status message next here
        cases here.symm.trans goesOn
  | @execMissing _ search args next own running left missing =>
      have tracee := held.code own
      rw [left] at tracee
      have same := tracee.exec_next.2.1
      rw [same] at missing left tracee
      refine ⟨?_, ?_, .inl ⟨running, own⟩⟩
      · intro args next here
        cases search with
        | false => exact missing
        | true => exact quiet.searches _ _ left
      · intro status message next here
        cases search with
        | false =>
            obtain ⟨rest, goesOn⟩ := tracee.exec_goesOn
            cases here.symm.trans goesOn
        | true =>
            have direct := quiet.searches _ _ left
            unfold Files.program
            rw [direct]
            exact missing
  | @exec _ search args next image own running left found =>
      have tracee := held.code own
      rw [left] at tracee
      have traced : before.traced = true := tracee.exec_next.1
      rw [tracee.exec_next.2.1] at found
      refine ⟨quiet.searches, quiet.exits, .inr (.inl ⟨if_pos traced, Option.some_ne_none _, ?_⟩)⟩
      change some image = (files.direct (file argv)).or (files.search (file argv))
      cases search with
      | false => rw [show files.direct (file argv) = some image from found, Option.some_or]
      | true =>
          rw [quiet.searches _ _ left, Option.none_or]
          exact found.symm
  | exits own running left =>
      have tracee := held.code own
      rw [left] at tracee
      have missing := quiet.exits _ _ _ left
      rw [tracee.exit_status]
      exact ⟨quiet.searches, quiet.exits, .inr (.inr ⟨rfl, missing⟩)⟩

theorem Child.quiet_forked {pid : Pid} {rest : Word → Code Pid} :
    (Child.forked pid (.call .traceme rest) : Child ι).Quiet files argv where
  searches _ _ := nofun
  exits _ _ _ := nofun
  life := .inl ⟨rfl, rfl⟩

theorem Child.Quiet.unchanged {before after : Child ι} (quiet : before.Quiet files argv)
    (code : after.code = before.code) (image : after.image = before.image)
    (life : after.life = before.life) : after.Quiet files argv := by
  refine ⟨?_, ?_, ?_⟩
  · rw [code]
    exact quiet.searches
  · rw [code]
    exact quiet.exits
  · rw [life, image]
    exact quiet.life

theorem Child.release_exited {child : Child ι} (exited : child.life = .exited 1) :
    child.release = { child with traced := false } := by
  refine if_pos (.inr ?_)
  rw [exited]
  exact Option.some_ne_none _

theorem Child.Quiet.executed {child : Child ι} (quiet : child.Quiet files argv)
    (stopped : child.life = .stopped 5) :
    child.image ≠ none ∧ child.image = files.program (file argv) := by
  rcases quiet.life with ⟨life, _⟩ | ⟨_, executed⟩ | ⟨life, _⟩
  · cases stopped.symm.trans life
  · exact executed
  · cases stopped.symm.trans life

theorem Child.Quiet.missing {child : Child ι} (quiet : child.Quiet files argv)
    (exited : child.life = .exited 1) : files.program (file argv) = none := by
  rcases quiet.life with ⟨life, _⟩ | ⟨life, _⟩ | ⟨_, missing⟩
  · cases exited.symm.trans life
  · cases exited.symm.trans life
  · exact missing

theorem Child.Quiet.ending {child : Child ι} {wstatus : WStatus} (quiet : child.Quiet files argv)
    (ended : child.life.ending = some wstatus) : child.life = .exited 1 := by
  rcases quiet.life with ⟨life, _⟩ | ⟨life, _⟩ | ⟨life, _⟩
  · rw [life] at ended
    cases ended
  · rw [life] at ended
    cases ended
  · exact life

theorem Child.Quiet.stopped {child : Child ι} {signal : BitVec 7} (quiet : child.Quiet files argv)
    (stopped : child.life = .stopped signal) : signal = 5 := by
  rcases quiet.life with ⟨life, _⟩ | ⟨life, _⟩ | ⟨life, _⟩
  · rw [stopped] at life
    cases life
  · rw [stopped] at life
    exact Life.stopped.inj life
  · rw [stopped] at life
    cases life

theorem DebuggerStep.quiet {before after : Machine ι} (step : DebuggerStep .call before after)
    (valid : Valid files argv honest before) (quiet : before.Quiet files argv) :
    after.Quiet files argv := by
  cases step with
  | fork parent known =>
      cases valid.forks.2 with
      | fork _ _ goesOn tracer =>
          obtain ⟨rest, goesOn⟩ := goesOn
          have waits := tracer _ parent known
          refine ⟨?_, ?_, fun _ _ => nofun, nofun⟩
          · rintro child ⟨⟩
            rw [goesOn]
            exact Child.quiet_forked
          · intro status message next here
            rw [Debugger.running.inj here] at waits
            cases waits
  | @waitStopped child next signal traced life unreported =>
      have own := quiet.child child rfl
      obtain ⟨_, ⟨⟩, waits, _, _⟩ := valid.waits
      have trap := waits.trapped
      refine ⟨?_, ?_, fun _ _ => nofun, nofun⟩
      · rintro reported ⟨⟩
        exact own.unchanged rfl rfl rfl
      · intro status message next here
        rw [← own.stopped life, Debugger.running.inj here] at trap
        cases trap
  | @waitEnded child next wstatus life _ =>
      have own := quiet.child child rfl
      refine ⟨?_, fun _ _ _ _ => ⟨_, rfl, own.ending life⟩, fun _ _ => nofun, nofun⟩
      rintro reported ⟨⟩
      exact own.unchanged rfl rfl rfl
  | @setoptions child options signal next traced life =>
      have own := quiet.child child rfl
      obtain ⟨_, ⟨⟩, sets, _, _⟩ := valid.sets
      refine ⟨?_, ?_, fun _ _ => nofun, nofun⟩
      · rintro optioned ⟨⟩
        exact own.unchanged rfl rfl rfl
      · intro status message next here
        rw [sets.returns.1] at here
        cases here
  | exits =>
      obtain ⟨child, there, exited⟩ := quiet.failing _ _ _ rfl
      cases there
      have own := quiet.child child rfl
      have released := Child.release_exited exited
      refine ⟨?_, fun _ _ _ => nofun, fun _ _ _ => ⟨_, rfl, ?_⟩, nofun⟩
      · rintro left ⟨⟩
        rw [released]
        exact own.unchanged rfl rfl rfl
      · rw [released]
        exact exited

theorem ChildStep.running {parent : Bool} {before after : Child ι}
    (step : ChildStep files parent .call before after) : before.life = .running := by
  cases step with
  | traceme _ running => exact running
  | execMissing _ running => exact running
  | exec _ running => exact running
  | exits _ running => exact running

theorem Step.quiet {before after : Machine ι} (step : Step files .call before after)
    (valid : Valid files argv honest before) (quiet : before.Quiet files argv) :
    after.Quiet files argv := by
  cases step with
  | debugger step => exact step.quiet valid quiet
  | @child debugger before after step =>
      have own := quiet.child before rfl
      have running := step.running
      have lives : ¬ ∃ child, some before = some child ∧ child.life = .exited 1 := by
        rintro ⟨child, ⟨⟩, exited⟩
        rw [running] at exited
        cases exited
      have alive : debugger.isRunning = true := by
        cases debugger with
        | running => rfl
        | exited status message => exact absurd (quiet.exited status message rfl) lives
        | killed => exact absurd rfl quiet.alive
      rw [alive] at step
      refine ⟨?_, ?_, ?_, quiet.alive⟩
      · rintro child ⟨⟩
        exact step.quiet (valid.held alive before rfl) own
      · intro status message next here
        exact absurd (quiet.failing status message next here) lives
      · intro status message here
        exact absurd (quiet.exited status message here) lives

end Quiet

/-! ## The result -/

section Result

variable {ι : Type} (files : Files ι) (argv : List (List Char))

/-- The debugger has its program: traced, with its options set, and stopped before its
first instruction unless somebody has killed it. -/
structure Launched (labels : List Label) (pid : Pid) (child : Child ι) : Prop where
  pid : child.pid = pid ∧ pid ≠ 0 ∧ pid ≠ -1
  traced : child.traced
  options : child.options = gOptions
  life : child.life = .stopped 5 ∨ child.life = .signaled sigkill
  started : child.started = false
  /-- The stop is that of `exec`, unless a SIGTRAP came from elsewhere. -/
  image : .signal 5 ∉ labels → ∃ search image,
    files.find search (file argv) = some image ∧ child.image = some image

/-- What holds after any steps of anybody. -/
structure Safe (labels : List Label) (machine : Machine ι) : Prop where
  launched : ∀ pid, machine.debugger = .running (.ret pid) →
    ∃ child, machine.child = some child ∧ Launched files argv labels pid child
  /-- The new process does not return from `setup_binary`. -/
  once : ∀ child, machine.child = some child → child.image = none → ∀ pid, child.code ≠ .ret pid
  /-- Nothing of the program is executed behind the debugger's back. -/
  held : machine.debugger.isRunning → ∀ child, machine.child = some child → child.started = false
  failed : ∀ status message, machine.debugger = .exited status message → status = 1

/-- How it ends if only the calls of the two processes happen. -/
structure Succeeds (machine : Machine ι) : Prop where
  found : ∀ image, files.program (file argv) = some image → ∃ pid child,
    machine.debugger = .running (.ret pid) ∧ machine.child = some child ∧
      child.life = .stopped 5 ∧ child.image = some image
  missing : files.program (file argv) = none → ∃ message child,
    machine.debugger = .exited 1 message ∧ machine.child = some child ∧ child.life = .exited 1

/-- What `setup_binary` does, whatever the order of the steps. -/
structure Launches : Prop where
  safe : ∀ labels machine, Run (Step files) (start argv) labels machine →
    Safe files argv labels machine
  /-- The two processes never wait for each other. -/
  goesOn : ∀ labels machine, Run (Step files) (start argv) labels machine →
    ¬ machine.debugger.Finished → ¬ machine.Paused →
      ∃ label after, label.own ∧ Step files label machine after
  /-- Only a signal from outside keeps the new process back, until another lets it go on. -/
  paused : ∀ labels machine, Run (Step files) (start argv) labels machine → machine.Paused →
    (∃ signal ∈ jobStops, .signal signal ∈ labels) ∧
      ∃ after, Step files (.signal sigcont) machine after ∧ ¬ after.Paused
  bounded : ∀ labels machine, Run (Step files) (start argv) labels machine →
    labels.countP Label.own ≤ 8
  succeeds : ∀ labels machine, Run (Step files) (start argv) labels machine →
    (∀ label ∈ labels, label = .call) → machine.debugger.Finished →
      Succeeds files argv machine

variable {files argv} {honest : Prop} {labels : List Label} {machine : Machine ι}

theorem run_valid (run : Run (Step files) (start argv) labels machine)
    (fair : honest → .signal 5 ∉ labels) : Valid files argv honest machine := by
  have each : ∀ label ∈ labels, honest → label ≠ .signal 5 := by
    rintro label member honesty rfl
    exact fair honesty member
  refine (run.restrict each).invariant _ (.starting (setupBinary_forks argv)) ?_
  intro label before after valid step
  exact step.2.valid step.1 valid

theorem run_quiet (run : Run (Step files) (start argv) labels machine)
    (calls : ∀ label ∈ labels, label = .call) : machine.Quiet files argv := by
  have start : Valid files argv True (start argv) ∧ (start argv).Quiet files argv :=
    ⟨.starting (setupBinary_forks argv), nofun, nofun, nofun, nofun⟩
  refine ((run.restrict calls).invariant (fun machine => Valid files argv True machine ∧
    machine.Quiet files argv) start ?_).2
  rintro label before after ⟨valid, quiet⟩ ⟨rfl, step⟩
  exact ⟨step.valid (fun _ => nofun) valid, step.quiet valid quiet⟩

theorem Child.Sound.once {child : Child ι} (sound : child.Sound files argv)
    (own : child.image = none) (pid : Pid) : child.code ≠ .ret pid := by
  obtain ⟨traced, tracee⟩ := sound.code own
  intro returned
  rw [returned] at tracee
  cases tracee with
  | exiting exits => cases exits

theorem Valid.launched_child {pid : Pid} {child : Option (Child ι)}
    (valid : Valid files argv (.signal 5 ∉ labels) ⟨.running (.ret pid), child⟩) :
    ∃ left, child = some left ∧ Launched files argv labels pid left := by
  obtain ⟨left, there, rfl, held, caught, options⟩ := valid.returns
  refine ⟨left, there, ⟨rfl, held.sound.pid⟩, caught.traced, options, caught.life, held.started, ?_⟩
  intro honesty
  obtain ⟨image, executed⟩ := Option.ne_none_iff_exists'.mp (caught.image honesty)
  obtain ⟨search, found⟩ := held.sound.found image executed
  exact ⟨search, image, found, executed⟩

theorem run_safe (run : Run (Step files) (start argv) labels machine) :
    Safe files argv labels machine := by
  have valid := run_valid run fun honesty : .signal 5 ∉ labels => honesty
  refine ⟨?_, ?_, ?_, ?_⟩
  · intro pid returned
    obtain ⟨debugger, child⟩ := machine
    change debugger = _ at returned
    rw [returned] at valid
    exact valid.launched_child
  · intro child there own
    exact (valid.sound child there).once own
  · intro alive child there
    exact (valid.held alive child there).started
  · intro status message exited
    cases valid with
    | exited =>
        cases exited
        rfl
    | starting => cases exited
    | alone => cases exited
    | waiting => cases exited
    | setting => cases exited
    | launched => cases exited
    | failing => cases exited
    | killed => cases exited

theorem run_succeeds (run : Run (Step files) (start argv) labels machine)
    (calls : ∀ label ∈ labels, label = .call) (finished : machine.debugger.Finished) :
    Succeeds files argv machine := by
  have quiet := run_quiet run calls
  have valid := run_valid run fun _ : True => fun member => nomatch calls _ member
  obtain ⟨debugger, child⟩ := machine
  cases debugger with
  | running code =>
      obtain ⟨pid, rfl⟩ := finished
      obtain ⟨left, rfl, _, _, caught, _⟩ := valid.returns
      have own := quiet.child left rfl
      have stopped : left.life = .stopped 5 := by
        rcases caught.life with life | life
        · exact life
        · cases (own.ending (congrArg Life.ending life)).symm.trans life
      obtain ⟨executed, same⟩ := own.executed stopped
      refine ⟨?_, fun missing => absurd (same.trans missing) executed⟩
      intro image program
      exact ⟨pid, left, rfl, rfl, stopped, same.trans program⟩
  | exited status message =>
      obtain ⟨left, there, exited⟩ := quiet.exited _ _ rfl
      have missing := (quiet.child left there).missing exited
      refine ⟨?_, fun _ => ⟨message, left, ?_, there, exited⟩⟩
      · intro image program
        cases missing.symm.trans program
      · rw [(run_safe run).failed status message rfl]
  | killed => exact absurd rfl quiet.alive

theorem run_bounded (run : Run (Step files) (start argv) labels machine) :
    labels.countP Label.own ≤ 8 := by
  have bound := run.count_le Label.own Machine.rank (Valid files argv False)
    (.starting (setupBinary_forks argv))
    (fun label before after valid step => step.valid nofun valid)
    (fun label before after valid step => step.rank valid)
  change _ + _ ≤ 8 at bound
  omega

theorem Child.release_paused {child : Child ι} (paused : child.release.life = .paused) :
    child.life = .paused := by
  unfold Child.release at paused
  split at paused
  · exact paused
  · split at paused
    · cases paused
    · cases paused

theorem DebuggerStep.unpaused {label : Label} {before after : Machine ι}
    (step : DebuggerStep label before after) (paused : after.Paused) : before.Paused := by
  have released {child : Option (Child ι)}
      (left : ∃ left, child.map Child.release = some left ∧ left.life = .paused) :
      ∃ own, child = some own ∧ own.life = .paused := by
    obtain ⟨left, there, life⟩ := left
    obtain ⟨own, here, rfl⟩ := Option.map_eq_some_iff.mp there
    exact ⟨own, here, Child.release_paused life⟩
  cases step with
  | forkFails => exact paused
  | fork =>
      obtain ⟨_, ⟨⟩, life⟩ := paused
      cases life
  | waitFails => exact paused
  | waitStopped =>
      obtain ⟨_, ⟨⟩, life⟩ := paused
      exact ⟨_, rfl, life⟩
  | waitEnded =>
      obtain ⟨_, ⟨⟩, life⟩ := paused
      exact ⟨_, rfl, life⟩
  | setoptionsFails => exact paused
  | setoptions =>
      obtain ⟨_, ⟨⟩, life⟩ := paused
      exact ⟨_, rfl, life⟩
  | exits => exact released paused
  | killed => exact released paused

theorem ChildStep.unpaused {parent : Bool} {label : Label} {before after : Child ι}
    (step : ChildStep files parent label before after)
    (other : ∀ signal ∈ jobStops, label ≠ .signal signal) (paused : after.life = .paused) :
    before.life = .paused := by
  cases step with
  | tracemeFails => exact paused
  | traceme => exact paused
  | execFails => exact paused
  | execMissing => exact paused
  | exec =>
      change (if before.traced then Life.stopped 5 else .running) = .paused at paused
      split at paused
      · cases paused
      · cases paused
  | exits => cases paused
  | runs => exact paused
  | @ends _ life _ _ _ ended =>
      change life = .paused at paused
      rw [paused] at ended
      exact absurd rfl ended
  | stops => cases paused
  | terminates => cases paused
  | pauses _ _ stops => exact absurd rfl (other _ stops)
  | resumes => cases paused
  | ignores => exact paused
  | kills => cases paused

/-- Nothing but job control pauses the new process. -/
theorem Step.unpaused {label : Label} {before after : Machine ι}
    (step : Step files label before after)
    (other : ∀ signal ∈ jobStops, label ≠ .signal signal) (paused : after.Paused) :
    before.Paused := by
  cases step with
  | debugger step => exact step.unpaused paused
  | child step =>
      obtain ⟨_, ⟨⟩, life⟩ := paused
      exact ⟨_, rfl, step.unpaused other life⟩

theorem run_paused (run : Run (Step files) (start argv) labels machine)
    (paused : machine.Paused) : ∃ signal ∈ jobStops, .signal signal ∈ labels := by
  by_contra none
  have each : ∀ label ∈ labels, ∀ signal ∈ jobStops, label ≠ .signal signal := by
    rintro label member signal stops rfl
    exact none ⟨signal, stops, member⟩
  refine (run.restrict each).invariant (fun machine => ¬ machine.Paused) nofun ?_ paused
  exact fun label before after unpaused step paused => unpaused (step.2.unpaused step.1 paused)

/-- SIGCONT lets it go on. -/
theorem Machine.Paused.resumes (paused : machine.Paused) :
    ∃ after, Step files (.signal sigcont) machine after ∧ ¬ after.Paused := by
  obtain ⟨debugger, child⟩ := machine
  obtain ⟨child, rfl, life⟩ := paused
  refine ⟨_, .child (.resumes life), ?_⟩
  rintro ⟨resumed, ⟨⟩, still⟩
  cases still

end Result

end MyDbg.Launch
