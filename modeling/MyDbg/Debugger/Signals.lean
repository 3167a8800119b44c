import MyDbg.Debugger.Rules
import MyDbg.Debugger.Tracee

/-!
Contract: signals reach the tracee once, in order, and no trap of the
debugger's own making does.

Owns: `Due`, the signals that may be passed on after a stop; `Forwarded`, that
every resumption of a trace passes on what its last stop calls for; and that
stepping and continuing keep the trace forwarded.

Does not own: what the tracee does with a signal.
-/

namespace MyDbg

open LittleEndian ProgramLogic Transition

variable {κ : Type} (host : Host κ)

/-- Every ptrace request is accepted and every wait returns a status or blocks. -/
structure CallsSucceed : Prop where
  ptrace : ∀ request kernel, (host.ptrace request kernel).1.isSome
  waitpid : ∀ kernel after, host.waitpid kernel ≠ .failed after

/-! ## Reading a trace -/

/-- The tracee was last resumed by PTRACE_SINGLESTEP. -/
def SteppedLast : List (Entry κ) → Prop
  | [] => False
  | entry :: older =>
      match entry.event with
      | .ptrace (.singlestep _) _ => True
      | .ptrace (.cont _) _ => False
      | .ptrace (.syscall _) _ => False
      | _ => SteppedLast older

/-- The tracee runs: it was resumed and has not stopped since. -/
def Running : List (Entry κ) → Prop
  | [] => False
  | entry :: older =>
      match entry.event with
      | .ptrace request _ => request.resumes.isSome ∨ Running older
      | .waited _ => False
      | _ => Running older

/-- The stop `entry` is at the byte after an armed breakpoint. -/
def AfterArmed (entry : Entry κ) : Prop :=
  ∃ reply, (host.ptrace .getregs entry.kernel).1 = some reply ∧
    isBreakpoint entry.globals.gBreakpoints (reply.regs .rip - 1)

/-- `data` may be passed on after the stop `entry` with status `wstatus`: the
signal of a signal stop, nothing after a syscall-stop, and after a SIGTRAP
nothing, or SIGTRAP itself when neither a single step nor an armed breakpoint
accounts for it. -/
def Due (entry : Entry κ) (older : List (Entry κ)) : WStatus → Word → Prop
  | .stopped signal, data =>
      if signal = 5 then
        data = 0 ∨ (data = sigtrap ∧ ¬ SteppedLast older ∧ ¬ AfterArmed host entry)
      else
        data = signal.setWidth 64
  | _, data => data = 0

/-- `data` may be passed on by a resumption that follows this trace. Once a
resumption has passed a signal on, none is left to pass on. -/
def Injects : List (Entry κ) → Word → Prop
  | [], data => data = 0
  | entry :: older, data =>
      match entry.event with
      | .waited wstatus => Due host entry older wstatus data
      | .ptrace request _ =>
          match request.resumes with
          | some _ => data = 0
          | none => Injects older data
      | _ => Injects older data

/-- Every resumption passes on what is due, and stops and resumptions alternate. -/
def Forwarded : List (Entry κ) → Prop
  | [] => True
  | entry :: older =>
      Forwarded older ∧
        match entry.event with
        | .waited _ => Running older
        | .ptrace request _ => ∀ data ∈ request.resumes, Injects host older data
        | _ => True

section Trace

variable {host} {event : Event} {globals : Globals} {kernel : κ} {older : List (Entry κ)}
  {data : Word}

theorem injects_quiet (quiet : event.Quiet) :
    Injects host (⟨event, globals, kernel⟩ :: older) data ↔ Injects host older data := by
  cases event with
  | ptrace request accepted =>
      have none : request.resumes = none := quiet
      simp only [Injects, none]
  | waited wstatus => exact quiet.elim
  | toggle index => rfl
  | output message => rfl

theorem forwarded_quiet (quiet : event.Quiet) :
    Forwarded host (⟨event, globals, kernel⟩ :: older) ↔ Forwarded host older := by
  cases event with
  | ptrace request accepted =>
      have none : request.resumes = none := quiet
      simp [Forwarded, none]
  | waited wstatus => exact quiet.elim
  | toggle index => simp [Forwarded]
  | output message => simp [Forwarded]

end Trace

/-- Between two calls: what was passed on was due, and so is what
`g_signum` holds. -/
def SignalInvariant (state : State κ) : Prop :=
  Forwarded host state.trace ∧ Injects host state.trace state.globals.gSignum

/-- While a stop with status `wstatus` is handled and `g_signum` is `signum`. -/
structure Handling (entry : Entry κ) (older : List (Entry κ)) (wstatus : WStatus)
    (signum : Word) (state : State κ) : Prop where
  forwarded : Forwarded host state.trace
  due : ∀ data, Injects host state.trace data ↔ Due host entry older wstatus data
  held : state.globals.gSignum = signum

variable {host}

theorem signalInvariant_stable : Stable host (SignalInvariant host) := by
  refine Stable.of_quiet (fun state request quiet holds => ?_) (fun state event quiet holds => ?_)
    fun _ _ _ _ holds => holds
  · have silent : (Event.ptrace request (host.ptrace request state.kernel).1.isSome).Quiet := quiet
    exact ⟨(forwarded_quiet silent).mpr holds.1, (injects_quiet silent).mpr holds.2⟩
  · exact ⟨(forwarded_quiet quiet).mpr holds.1, (injects_quiet quiet).mpr holds.2⟩

theorem handling_stable (entry : Entry κ) (older : List (Entry κ)) (wstatus : WStatus)
    (signum : Word) : Stable host (Handling host entry older wstatus signum) := by
  refine Stable.of_quiet (fun state request quiet holds => ?_) (fun state event quiet holds => ?_)
    fun _ _ _ _ holds => ⟨holds.forwarded, holds.due, holds.held⟩
  · have silent : (Event.ptrace request (host.ptrace request state.kernel).1.isSome).Quiet := quiet
    refine ⟨(forwarded_quiet silent).mpr holds.forwarded, fun data => ?_, holds.held⟩
    rw [← holds.due data]
    exact injects_quiet silent
  · refine ⟨(forwarded_quiet quiet).mpr holds.forwarded, fun data => ?_, holds.held⟩
    rw [← holds.due data]
    exact injects_quiet quiet

theorem Handling.printed {entry : Entry κ} {older : List (Entry κ)} {wstatus : WStatus}
    {signum : Word} {state : State κ} (handling : Handling host entry older wstatus signum state)
    (message : Message) :
    Handling host entry older wstatus signum (state.record (.output message)) := by
  have quiet : (Event.output message).Quiet := trivial
  refine ⟨(forwarded_quiet quiet).mpr handling.forwarded, fun data => ?_, handling.held⟩
  rw [← handling.due data]
  exact injects_quiet quiet

theorem SignalInvariant.printed {state : State κ} (holds : SignalInvariant host state)
    (message : Message) : SignalInvariant host (state.record (.output message)) := by
  have quiet : (Event.output message).Quiet := trivial
  exact ⟨(forwarded_quiet quiet).mpr holds.1, (injects_quiet quiet).mpr holds.2⟩

/-! ## Calls that cannot fail -/

namespace CallsSucceed

variable (succeed : CallsSucceed host)

include succeed

theorem notRefused {request : Request} {kernel : κ} :
    (host.ptrace request kernel).1 ≠ none := by
  intro refused
  have answered := succeed.ptrace request kernel
  rw [refused] at answered
  cases answered

theorem myPtrace (request : Request) : NeverRaises (myPtrace host request) := by
  intro before
  rw [wp_myPtrace]
  exact ⟨fun _ _ => trivial, fun refused => (succeed.notRefused refused).elim⟩

theorem getRegister (reg : MyReg) : NeverRaises (getRegister host reg) :=
  (succeed.myPtrace _).bind fun _ => .pure _

theorem setRegister (reg : MyReg) (value : Word) : NeverRaises (setRegister host reg value) :=
  (succeed.myPtrace _).bind fun _ => (succeed.myPtrace _).bind fun _ => .pure _

omit succeed in
theorem breakpointAt (index : Nat) : NeverRaises (breakpointAt index : Dbg κ MyBp) := by
  refine NeverRaises.bind (.gets _) fun globals => ?_
  cases globals.gBreakpoints[index]? with
  | some bp => exact .pure bp
  | none => exact .fault

theorem toggleBreakpoint (index : Nat) : NeverRaises (toggleBreakpoint host index) := by
  refine NeverRaises.bind (.modify _) fun _ => (breakpointAt index).bind fun bp => ?_
  refine NeverRaises.ite (.pure _) ?_
  exact (succeed.myPtrace _).bind fun _ => (succeed.myPtrace _).bind fun _ => .modify _

end CallsSucceed

/-- Every outcome leaves a forwarded trace, and only a return gives `holds`. -/
def Passing (host : Host κ) {α : Type} (holds : State κ → Prop) : Post MyException (State κ) α where
  ok _ := holds
  throw _ _ := False
  fault state := Forwarded host state.trace
  noReturn state := Forwarded host state.trace

/-! ## One stop -/

section Stop

variable {entry : Entry κ} {older : List (Entry κ)} {wstatus : WStatus} {signum : Word}
  {state : State κ}

/-- A breakpoint hit takes a SIGTRAP, and nothing else, out of `g_signum`. -/
theorem hitBreakpoint_signal (succeed : CallsSucceed host) (index : Nat) (addr : Addr)
    (handling : Handling host entry older wstatus signum state) :
    wp (hitBreakpoint host index addr)
      (Passing host
        (Handling host entry older wstatus (if signum = sigtrap then 0 else signum))) state := by
  have stable : Stable host (Handling host entry older wstatus signum) :=
    handling_stable entry older wstatus signum
  unfold hitBreakpoint
  refine (CallsSucceed.breakpointAt index).wp_bind (Calm.breakpointAt index) handling
    (fun bp found handling => ?_) (fun _ kept => kept.forwarded) (fun _ kept => kept.forwarded)
  refine (NeverRaises.when _ (succeed.toggleBreakpoint index)).wp_bind
    (.when _ (stable.toggleBreakpoint index)) handling
    (fun _ toggled handling => ?_) (fun _ kept => kept.forwarded) (fun _ kept => kept.forwarded)
  refine (NeverRaises.when _ (.modify _)).wp_bind (.when _ (stable.printf _ rfl)) handling
    (fun _ printed handling => ?_) (fun _ kept => kept.forwarded) (fun _ kept => kept.forwarded)
  refine (succeed.setRegister _ _).wp_bind (stable.setRegister _ _) handling
    (fun _ rewound handling => ?_) (fun _ kept => kept.forwarded) (fun _ kept => kept.forwarded)
  rw [wp_modifyGlobals, handling.held]
  by_cases trap : signum = sigtrap
  · simp only [if_pos trap]
    exact ⟨handling.forwarded, handling.due, rfl⟩
  · simp only [if_neg trap]
    exact ⟨handling.forwarded, handling.due, handling.held⟩

/-- Whatever is due after a stop may stay in `g_signum`. -/
theorem Handling.signalInvariant (handling : Handling host entry older wstatus signum state)
    (isDue : Due host entry older wstatus signum) : SignalInvariant host state := by
  refine ⟨handling.forwarded, ?_⟩
  rw [handling.held, handling.due]
  exact isDue

theorem handleSyscallStop_signal (succeed : CallsSucceed host) (isBp : Bool)
    (handling : Handling host entry older wstatus signum state) :
    wp (handleSyscallStop host isBp) (Passing host (Handling host entry older wstatus 0))
      state := by
  have stable : Stable host (Handling host entry older wstatus 0) :=
    handling_stable entry older wstatus 0
  have cleared : Handling host entry older wstatus 0
      (state.withGlobals { state.globals with gSignum := 0 }) :=
    ⟨handling.forwarded, handling.due, rfl⟩
  unfold handleSyscallStop
  rw [wp_bind, wp_modifyGlobals]
  refine (succeed.getRegister _).wp_bind (stable.getRegister _) cleared
    (fun origRax read handling => ?_) (fun _ kept => kept.forwarded) (fun _ kept => kept.forwarded)
  have toggled : Handling host entry older wstatus 0
      (read.withGlobals { read.globals with gSyscallEntry := !read.globals.gSyscallEntry }) :=
    ⟨handling.forwarded, handling.due, handling.held⟩
  simp only [wp_bind, wp_modifyGlobals, wp_getGlobals, wp_ite, wp_printf, wp_pure]
  exact ⟨fun _ => toggled.printed _,
    fun _ => ⟨fun _ => toggled, fun _ => toggled⟩⟩

theorem reportSignal_signal (holds : SignalInvariant host state) :
    wp reportSignal (Passing host (SignalInvariant host)) state := by
  unfold reportSignal
  simp only [wp_bind, wp_getGlobals, wp_when, wp_printf, wp_pure]
  exact ⟨fun _ => holds.printed _, fun _ => holds⟩

/-- After a breakpoint test, what is left of a SIGTRAP belongs to nobody. -/
theorem due_signal {signal : BitVec 7} (hit : Bool)
    (continued : signal = 5 → ¬ SteppedLast older)
    (missed : hit = false → ¬ AfterArmed host entry) :
    Due host entry older (.stopped signal)
      (if hit ∧ (signal.setWidth 64 : Word) = sigtrap then 0 else signal.setWidth 64) := by
  by_cases trap : signal = 5
  · have isTrap : (signal.setWidth 64 : Word) = sigtrap := (signal_eq_sigtrap signal).mpr trap
    simp only [Due, if_pos trap]
    cases hit with
    | true => left; simp [isTrap]
    | false => right; simpa [isTrap] using ⟨continued trap, missed rfl⟩
  · have notTrap : (signal.setWidth 64 : Word) ≠ sigtrap :=
      fun equal => trap ((signal_eq_sigtrap signal).mp equal)
    have same : (if hit ∧ (signal.setWidth 64 : Word) = sigtrap then 0 else signal.setWidth 64)
        = (signal.setWidth 64 : Word) := if_neg fun both => notTrap both.2
    simp only [Due, if_neg trap]
    exact same

theorem forSome_hitBreakpoint_signal (succeed : CallsSucceed host) (bp : Option Nat) (addr : Addr)
    (handling : Handling host entry older wstatus signum state) :
    wp (Program.forSome bp (hitBreakpoint host · addr))
      (Passing host (Handling host entry older wstatus
        (if bp.isSome ∧ signum = sigtrap then 0 else signum))) state := by
  cases bp with
  | none => simpa [Passing] using handling
  | some index => simpa using hitBreakpoint_signal succeed index addr handling

theorem finishStop_signal (succeed : CallsSucceed host) (isBp : Bool) {stopsig : BitVec 8}
    (handling : Handling host entry older wstatus signum state)
    (status : wstatus.wstopsig = some stopsig)
    (isDue : ∀ signal, wstatus = .stopped signal → Due host entry older wstatus signum) :
    wp (finishStop host stopsig isBp) (Passing host (SignalInvariant host)) state := by
  unfold finishStop
  rw [wp_ite]
  cases wstatus with
  | stopped signal =>
      obtain rfl : signal.setWidth 8 = stopsig := Option.some.inj status
      refine ⟨fun marked => absurd (stopsig_plain signal) marked, fun _ => ?_⟩
      exact reportSignal_signal (handling.signalInvariant (isDue signal rfl))
  | syscallStop =>
      obtain rfl : (5 ||| 0x80 : BitVec 8) = stopsig := Option.some.inj status
      refine ⟨fun _ => ?_, fun plain => absurd (by decide) plain⟩
      rw [wp_bind]
      refine wp_mono (handleSyscallStop_signal succeed isBp handling)
        ⟨fun next after kept => ?_, fun _ _ raised => raised, fun _ kept => kept,
          fun _ kept => kept⟩
      have settled := kept.signalInvariant (rfl : (0 : Word) = 0)
      cases next with
      | continues => exact settled
      | returns result => exact reportSignal_signal settled
  | exited code => cases status
  | signaled signal => cases status
  | other => cases status

theorem handleStop_signal (succeed : CallsSucceed host) (step : Bool) {stopsig : BitVec 8}
    (handling : Handling host entry older wstatus signum state)
    (sameKernel : entry.kernel = state.kernel)
    (sameGlobals : entry.globals = state.globals)
    (status : wstatus.wstopsig = some stopsig)
    (continued : step = false → ¬ SteppedLast older) :
    wp (handleStop host step stopsig) (Passing host (SignalInvariant host)) state := by
  have read (value : Word) : Handling host entry older wstatus value
      (state.withGlobals { state.globals with gSignum := value }) :=
    ⟨handling.forwarded, handling.due, rfl⟩
  have number (signal : BitVec 7) (isSignal : wstatus = .stopped signal) :
      ((stopsig &&& 0x7F).setWidth 64 : Word) = signal.setWidth 64 := by
    subst isSignal
    obtain rfl : signal.setWidth 8 = stopsig := Option.some.inj status
    exact stopsig_signal signal
  unfold handleStop
  simp only [wp_bind, wp_modifyGlobals, wp_getGlobals, wp_ite, Bool.and_eq_true, beq_iff_eq]
  refine ⟨fun finished => ?_, fun notStep => ?_⟩
  · -- a finished single step
    refine (read 0).signalInvariant ?_
    cases wstatus with
    | stopped signal =>
        have trap : signal = 5 := by
          rw [← signal_eq_sigtrap, ← number signal rfl]
          exact finished.2
        simp [Due, trap]
    | syscallStop => rfl
    | exited code => rfl
    | signaled signal => rfl
    | other => rfl
  · have stable : Stable host
        (Handling host entry older wstatus ((stopsig &&& 0x7F).setWidth 64)) :=
      handling_stable entry older wstatus _
    rw [wp_getRegister]
    refine ⟨fun reply answered => ?_, fun refused => (succeed.notRefused refused).elim⟩
    have tested := stable.calm _ .getregs trivial (read _)
    refine wp_mono (forSome_hitBreakpoint_signal succeed _ _ tested)
      ⟨fun _ after kept => ?_, fun _ _ raised => raised, fun _ kept => kept, fun _ kept => kept⟩
    refine finishStop_signal succeed _ kept status fun signal isSignal => ?_
    subst isSignal
    rw [number signal rfl]
    refine due_signal _ (fun trap => continued ?_) fun missed armed => ?_
    · by_contra stepping
      refine notStep ⟨by simpa using stepping, ?_⟩
      exact (number signal rfl).trans ((signal_eq_sigtrap signal).mpr trap)
    · obtain ⟨other, same, hit⟩ := armed
      rw [sameKernel] at same
      obtain rfl : reply = other := Option.some.inj (answered.symm.trans same)
      rw [sameGlobals, isBreakpoint] at hit
      rw [State.afterPtrace_globals, State.withGlobals_globals] at missed
      rw [missed] at hit
      cases hit

/-- A stop that ends a wait begins a new entry of the trace. -/
theorem waitStop_signal (succeed : CallsSucceed host) (step : Bool)
    (holds : SignalInvariant host state) (running : Running state.trace)
    (continued : step = false → ¬ SteppedLast state.trace)
    (spent : state.globals.gSignum = 0) :
    wp (waitStop host step) (Passing host (SignalInvariant host)) state := by
  refine wp_waitStop step (fun _ => holds.1) (fun kernel failed => succeed.waitpid _ _ failed)
    (fun wstatus kernel stopsig _ status => ?_) fun wstatus kernel _ status => ?_
  · exact handleStop_signal succeed step ⟨⟨holds.1, running⟩, fun _ => Iff.rfl, rfl⟩ rfl rfl status
      continued
  · have silent : Due host ⟨.waited wstatus, state.globals, kernel⟩ state.trace wstatus 0 := by
      cases wstatus with
      | stopped signal => cases status
      | syscallStop => cases status
      | exited code => rfl
      | signaled signal => rfl
      | other => rfl
    have ended : SignalInvariant host (state.stoppedBy wstatus kernel) := by
      refine ⟨⟨holds.1, running⟩, ?_⟩
      rw [State.stoppedBy_globals, spent]
      exact silent
    simp only [handleEnd, wp_bind, wp_printf, wp_modifyGlobals, wp_pure]
    exact ended.printed _

end Stop

/-! ## Resuming -/

/-- A program that raises nothing and keeps the trace forwarded. -/
def Passes {α : Type} (host : Host κ) (program : Dbg κ α) : Prop :=
  ∀ before, SignalInvariant host before →
    wp program (Passing host (SignalInvariant host)) before

namespace Passes

variable {α β : Type} {program : Dbg κ α}

theorem of_stable (raises : NeverRaises program)
    (preserves : Preserves (SignalInvariant host) program) : Passes host program := by
  intro before holds
  have quiet := raises before
  have kept := preserves.wp holds
  unfold wp at quiet kept ⊢
  cases outcome : program before with
  | ok value after => rw [outcome] at kept; exact kept
  | throw raised after => rw [outcome] at quiet; exact quiet.elim
  | fault after => rw [outcome] at kept; exact kept.1
  | noReturn after => rw [outcome] at kept; exact kept.1

theorem pure (value : α) : Passes host (Pure.pure value : Dbg κ α) := fun _ holds => holds

theorem bind {next : α → Dbg κ β} (first : Passes host program)
    (second : ∀ value, Passes host (next value)) : Passes host (program >>= next) := by
  intro before holds
  rw [wp_bind]
  exact wp_mono (first before holds)
    ⟨fun value after kept => second value after kept, fun _ _ raised => raised,
      fun _ kept => kept, fun _ kept => kept⟩

theorem keeps (passes : Passes host program) :
    Keeps (SignalInvariant host) (SignalInvariant host)
      (fun state => Forwarded host state.trace) program :=
  fun before holds => wp_mono (passes before holds)
    ⟨fun _ _ kept => kept, fun _ _ raised => raised.elim, fun _ kept => kept, fun _ kept => kept⟩

end Passes

section Resume

variable {state : State κ} {request : Request} {data : Word}

/-- The state in which `wait_program` is called. -/
theorem resumed (holds : SignalInvariant host state)
    (resumes : request.resumes = some state.globals.gSignum) :
    SignalInvariant host ((state.afterPtrace host request).withGlobals
      { state.globals with gSignum := 0 }) := by
  refine ⟨⟨holds.1, ?_⟩, ?_⟩
  · intro data member
    obtain rfl : state.globals.gSignum = data := Option.some.inj (resumes.symm.trans member)
    exact holds.2
  · simp [Injects, resumes]

theorem running_resumed (resumes : request.resumes = some data) :
    Running (state.afterPtrace host request).trace :=
  .inl (by rw [resumes]; rfl)

variable {continues : Dbg κ Unit}

/-- The signal of the last stop goes to the resumption and `g_signum` is
cleared before the next stop is awaited. -/
theorem waitProgram_signal (succeed : CallsSucceed host) (step : Bool)
    (holds : SignalInvariant host state)
    (resumes : request.resumes = some state.globals.gSignum)
    (kind : step = false → ¬ SteppedLast (state.afterPtrace host request).trace)
    (continued : Passes host continues) :
    wp (waitProgram host continues step) (Passing host (SignalInvariant host))
      ((state.afterPtrace host request).withGlobals { state.globals with gSignum := 0 }) := by
  unfold waitProgram
  rw [wp_bind]
  refine wp_mono (waitStop_signal succeed step (resumed holds resumes)
      (running_resumed resumes) kind rfl)
    ⟨fun next settled kept => ?_, fun _ _ raised => raised, fun _ kept => kept,
      fun _ kept => kept⟩
  cases next with
  | returns result => exact kept
  | continues => exact (continued.bind fun _ => Passes.pure false) settled kept

theorem singleStep_signal (succeed : CallsSucceed host) (continued : Passes host continues) :
    Passes host (singleStep host continues) := by
  have toggle (bp : Option Nat) : Passes host (Program.forSome bp (toggleBreakpoint host)) :=
    .of_stable (.forSome bp succeed.toggleBreakpoint)
      (.forSome bp signalInvariant_stable.toggleBreakpoint)
  have step : Passes host (stepOnce host continues) := by
    intro state holds
    unfold stepOnce
    simp only [wp_bind, wp_getGlobals, wp_myPtrace, wp_modifyGlobals]
    have resumes : (Request.singlestep state.globals.gSignum).resumes =
        some state.globals.gSignum := rfl
    exact ⟨fun reply _ => waitProgram_signal succeed true holds resumes (by simp) continued,
      fun refused => (succeed.notRefused refused).elim⟩
  refine Passes.bind (.of_stable (succeed.getRegister _) (signalInvariant_stable.getRegister _))
    fun addr => Passes.bind (.of_stable (.gets _) (.gets _)) fun globals => ?_
  exact (toggle _).bind fun _ => step.bind fun ret => (toggle _).bind fun _ => .pure ret

theorem resumeExecution_signal (succeed : CallsSucceed host) (continued : Passes host continues) :
    Passes host (resumeExecution host continues) := by
  intro state holds
  unfold resumeExecution
  simp only [wp_bind, wp_getGlobals, wp_myPtrace, wp_modifyGlobals]
  refine ⟨fun reply _ => ?_, fun refused => (succeed.notRefused refused).elim⟩
  refine wp_mono (waitProgram_signal succeed false holds ?_ (fun _ => ?_) continued)
    ⟨fun result after kept => kept, fun _ _ raised => raised, fun _ kept => kept,
      fun _ kept => kept⟩
  · split <;> rfl
  · split <;> exact id

theorem continueExecution_signal (succeed : CallsSucceed host) (depth : Nat) :
    Passes host (continueExecution host depth) := by
  induction depth with
  | zero => exact fun _ holds => holds.1
  | succ depth inductionHypothesis =>
      have resumes := resumeExecution_signal succeed inductionHypothesis
      have steps := singleStep_signal succeed inductionHypothesis
      refine Passes.bind (.of_stable (succeed.getRegister _)
        (signalInvariant_stable.getRegister _)) fun addr => ?_
      refine Passes.bind (.of_stable (.gets _) (.gets _)) fun globals => ?_
      cases armed : isBreakpoint globals.gBreakpoints addr with
      | true =>
          simp only [if_pos]
          refine steps.bind fun stepped => ?_
          cases stepped with
          | true => simpa using resumes
          | false => exact .pure ()
      | false => simpa using resumes

end Resume

/-! ## Sessions -/

/-- Signals are forwarded exactly once and in order, whatever the commands,
the breakpoints and the stops, also by a command that never comes back. -/
theorem signals_forwarded (succeed : CallsSucceed host) {first last : State κ} {lines : List Line}
    (fresh : first.trace = []) (idle : first.globals.gSignum = 0)
    (session : Session host first lines last) :
    Forwarded host last.trace ∧
      ∀ depth command, Forwarded host (exec host depth command last).state.trace := by
  have keeps (depth : Nat) (command : Command) :
      Keeps (SignalInvariant host) (SignalInvariant host) (fun state => Forwarded host state.trace)
        (exec host depth command) :=
    signalInvariant_stable.exec (fun _ holds => holds) (fun _ holds => holds.1)
      (fun depth => (singleStep_signal succeed (continueExecution_signal succeed depth)).keeps)
      (fun depth => (continueExecution_signal succeed depth).keeps) depth command
  have start : SignalInvariant host first := by
    unfold SignalInvariant
    rw [fresh, idle]
    exact ⟨trivial, rfl⟩
  have holds : SignalInvariant host last :=
    session.keeps (fun line _ => keeps line.depth line.command) start
      fun _ _ => trivial
  refine ⟨holds.1, fun depth command => ?_⟩
  have kept := keeps depth command last holds
  unfold wp at kept
  cases outcome : exec host depth command last with
  | ok value after => rw [outcome] at kept; exact kept.1
  | throw raised after => rw [outcome] at kept; exact kept.1
  | fault after => rw [outcome] at kept; exact kept
  | noReturn after => rw [outcome] at kept; exact kept

theorem scripted_succeeds : CallsSucceed scripted where
  ptrace request kernel := by cases request <;> rfl
  waitpid kernel after := by
    obtain ⟨mem, regs, stops⟩ := kernel
    cases stops <;> simp [scripted]

/-- SIGUSR1 while continuing to a breakpoint. -/
theorem signals_forwarded_usr1 :
    ∃ last, Session scripted (Scripted.start [⟨.stopped 10, 0x20⟩, ⟨.plainTrap, 0x11⟩])
        [⟨.break 0x10, 1, .normal⟩, ⟨.continue, 1, .normal⟩, ⟨.continue, 1, .normal⟩] last ∧
      Forwarded scripted last.trace := by
  have comes : (replay scripted (fun _ _ _ => true)
      (Scripted.start [⟨.stopped 10, 0x20⟩, ⟨.plainTrap, 0x11⟩])
      [⟨.break 0x10, 1, .normal⟩, ⟨.continue, 1, .normal⟩,
        ⟨.continue, 1, .normal⟩]).isSome = true := by
    decide +kernel
  obtain ⟨last, replayed⟩ := Option.isSome_iff_exists.mp comes
  have session := session_replay replayed
  exact ⟨last, session, (signals_forwarded scripted_succeeds rfl rfl session).1⟩

end MyDbg
