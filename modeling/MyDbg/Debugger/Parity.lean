import MyDbg.Debugger.Rules
import MyDbg.Debugger.Tracee

/-!
Contract: the bit that tells syscall entries from syscall exits.

Owns: `SyscallStops`, how the kernel reports a syscall to its tracer; that
`g_syscall_entry` follows it as long as no single step is made from an
entry-stop; and what follows for the reports of watched syscalls.

Does not own: the numbers and names of syscalls.
-/

namespace MyDbg

open LittleEndian ProgramLogic Transition

variable {κ : Type} {host : Host κ}

/-! ## Syscall-stops -/

inductive Resumption where
  | cont
  | syscall
  | singlestep
deriving DecidableEq

def Request.resumption : Request → Option Resumption
  | .cont _ => some .cont
  | .syscall _ => some .syscall
  | .singlestep _ => some .singlestep
  | _ => none

/-- `entry` tells whether the tracee is stopped at, or was resumed from, the
entry of a syscall. -/
inductive Phase where
  | stopped (entry : Bool)
  | running (by' : Resumption) (entry : Bool)
  | ended
deriving DecidableEq

/-- PTRACE_SYSCALL alone stops at a syscall, at its entry and then at its exit. -/
def Phase.Next (by' : Resumption) (entry : Bool) : WStatus → Phase → Prop
  | .syscallStop, next => by' = .syscall ∧ next = .stopped (!entry)
  | .stopped _, next => (entry = true → by' ≠ .syscall) ∧ next = .stopped false
  | _, next => next = .ended

/-- The phases of a tracee. -/
structure SyscallStops (host : Host κ) extends Registers host where
  phase : κ → Phase
  accepted : ∀ request kernel by', request.resumption = some by' →
    (host.ptrace request kernel).1.isSome → ∃ entry, phase kernel = .stopped entry ∧
      phase (host.ptrace request kernel).2 = .running by' entry
  refused : ∀ request kernel, (host.ptrace request kernel).1 = none →
    phase (host.ptrace request kernel).2 = phase kernel
  calm : ∀ request kernel, request.resumption = none →
    phase (host.ptrace request kernel).2 = phase kernel
  failed : ∀ kernel after, host.waitpid kernel = .failed after → phase after = phase kernel
  status : ∀ kernel wstatus after, host.waitpid kernel = .status wstatus after →
    ∃ by' entry, phase kernel = .running by' entry ∧ Phase.Next by' entry wstatus (phase after)

/-! ## Traces -/

section Trace

variable (stops : SyscallStops host)

/-- No single step from an entry-stop. -/
def Tame (entry : Entry κ) : Prop :=
  match entry.event with
  | .ptrace (.singlestep _) _ => stops.phase entry.kernel ≠ .stopped true
  | _ => True

/-- The status of the last stop. -/
def lastStop : List (Entry κ) → Option WStatus
  | [] => none
  | entry :: older =>
      match entry.event with
      | .waited wstatus => some wstatus
      | _ => lastStop older

/-- A syscall-stop at the entry of a watched syscall. -/
def WatchedEntry (entry : Entry κ) : Prop :=
  stops.phase entry.kernel = .stopped true ∧
    inSyscalls entry.globals.gSyscalls ((stops.regs entry.kernel .origRax).setWidth 32) = true

/-- The last stop was at the entry of a watched syscall and was not reported. -/
def Unreported : List (Entry κ) → Prop
  | [] => False
  | entry :: older =>
      match entry.event with
      | .waited .syscallStop => WatchedEntry stops entry
      | .waited _ => False
      | .output (.syscallCatched _ _) => False
      | _ => Unreported older

/-- Toggling makes `g_syscall_entry` 1 at entry-stops and 0 at exit-stops, only
entry-stops are reported, and no watched one is passed by. -/
def Reports : List (Entry κ) → Prop
  | [] => True
  | entry :: older =>
      Reports older ∧
        match entry.event with
        | .waited .syscallStop =>
            stops.phase entry.kernel = .stopped (!entry.globals.gSyscallEntry)
        | .output (.syscallCatched _ _) => stops.phase entry.kernel = .stopped true
        | .ptrace request _ => request.resumption.isSome → ¬ Unreported stops older
        | _ => True

/-- `g_syscall_entry` agrees with the phase, and an entry-stop can only be left
by PTRACE_SYSCALL or a single step. -/
def InStep (globals : Globals) : Phase → Prop
  | .stopped entry =>
      globals.gSyscallEntry = entry ∧ (entry = true → globals.gSyscalls ≠ [])
  | .running by' entry =>
      globals.gSyscallEntry = entry ∧ (entry = true → by' = .syscall) ∧
        (by' = .syscall → globals.gSyscalls ≠ [])
  | .ended => True

/-- A settled state. -/
structure Settled (state : State κ) : Prop where
  inStep : InStep state.globals (stops.phase state.kernel)
  reports : Reports stops state.trace
  reported : ¬ Unreported stops state.trace

/-- What holds between two calls, of a tame trace. -/
def ParityInvariant (base : List (Entry κ)) (state : State κ) : Prop :=
  ∃ new, state.trace = new ++ base ∧
    ((∀ entry ∈ state.trace, Tame stops entry) → Settled stops state)

/-- What holds after an exception: unless it was raised while a syscall-stop
was handled, the state is settled. -/
def ParityRaised (base : List (Entry κ)) (state : State κ) : Prop :=
  ∃ new, state.trace = new ++ base ∧
    ((∀ entry ∈ state.trace, Tame stops entry) →
      Reports stops state.trace ∧ (lastStop new ≠ some .syscallStop → Settled stops state))

/-- What holds where control is lost. -/
def ParityLost (state : State κ) : Prop :=
  (∀ entry ∈ state.trace, Tame stops entry) → Reports stops state.trace

end Trace

section Rules

variable {stops : SyscallStops host} {base : List (Entry κ)} {state before after : State κ}

theorem ParityInvariant.raised (invariant : ParityInvariant stops base state) :
    ParityRaised stops base state := by
  obtain ⟨new, split, settled⟩ := invariant
  exact ⟨new, split, fun tame => ⟨(settled tame).reports, fun _ => settled tame⟩⟩

theorem ParityInvariant.lost (invariant : ParityInvariant stops base state) :
    ParityLost stops state := by
  obtain ⟨new, split, settled⟩ := invariant
  exact fun tame => (settled tame).reports

/-- Events other than resumptions, stops and reports of syscalls. -/
def Event.Plain : Event → Prop
  | .ptrace request _ => request.resumption = none
  | .waited _ => False
  | .toggle _ => True
  | .output message => message.catches = false

variable {entry : Entry κ} {older : List (Entry κ)}

theorem unreported_plain (plain : entry.event.Plain) :
    Unreported stops (entry :: older) ↔ Unreported stops older := by
  obtain ⟨event, globals, kernel⟩ := entry
  cases event with
  | ptrace request accepted => rfl
  | waited wstatus => exact plain.elim
  | toggle index => rfl
  | output message =>
      cases message with
      | syscallCatched name syscall => cases plain
      | _ => rfl

theorem reports_plain (plain : entry.event.Plain) :
    Reports stops (entry :: older) ↔ Reports stops older := by
  obtain ⟨event, globals, kernel⟩ := entry
  cases event with
  | ptrace request accepted =>
      have none : request.resumption = none := plain
      simp [Reports, none]
  | waited wstatus => exact plain.elim
  | toggle index => simp [Reports]
  | output message =>
      cases message with
      | syscallCatched name syscall => cases plain
      | _ => simp [Reports]

/-- An event that leaves the tracee where it is. -/
theorem ParityInvariant.step (invariant : ParityInvariant stops base before)
    (grows : after.trace = entry :: before.trace) (plain : entry.event.Plain)
    (phase : stops.phase after.kernel = stops.phase before.kernel)
    (globals : after.globals = before.globals) : ParityInvariant stops base after := by
  obtain ⟨new, split, settled⟩ := invariant
  refine ⟨entry :: new, by rw [grows, split, List.cons_append], fun tame => ?_⟩
  rw [grows] at tame
  have before := settled fun other member => tame other (List.mem_cons_of_mem _ member)
  refine ⟨?_, ?_, ?_⟩
  · rw [phase, globals]
    exact before.inStep
  · rw [grows]
    exact (reports_plain plain).mpr before.reports
  · rw [grows]
    exact fun unreported => before.reported ((unreported_plain plain).mp unreported)

/-- Assignments `InStep` does not look at. -/
theorem ParityInvariant.assign (invariant : ParityInvariant stops base before)
    {globals : Globals} (entry : globals.gSyscallEntry = before.globals.gSyscallEntry)
    (syscalls : before.globals.gSyscalls.length ≤ globals.gSyscalls.length) :
    ParityInvariant stops base (before.withGlobals globals) := by
  obtain ⟨new, split, settled⟩ := invariant
  refine ⟨new, split, fun tame => ⟨?_, (settled tame).reports, (settled tame).reported⟩⟩
  have watched : before.globals.gSyscalls ≠ [] → globals.gSyscalls ≠ [] := by
    intro some none
    rw [none, List.length_nil, Nat.le_zero, List.length_eq_zero_iff] at syscalls
    exact some syscalls
  have inStep := (settled tame).inStep
  rw [State.withGlobals_kernel]
  cases phase : stops.phase before.kernel with
  | stopped atEntry =>
      rw [phase] at inStep
      exact ⟨entry.trans inStep.1, fun isEntry => watched (inStep.2 isEntry)⟩
  | running by' atEntry =>
      rw [phase] at inStep
      exact ⟨entry.trans inStep.1, inStep.2.1, fun traced => watched (inStep.2.2 traced)⟩
  | ended => trivial

theorem parity_stable (base : List (Entry κ)) : Stable host (ParityInvariant stops base) where
  calm state request calm invariant := by
    have none : request.resumption = none := by
      cases request <;> first | rfl | exact calm.elim
    exact invariant.step rfl none (stops.calm request _ none) rfl
  printed state message other invariant := invariant.step rfl other rfl rfl
  poked state addr data invariant := invariant.step rfl rfl (stops.calm _ _ rfl) rfl
  toggled state index invariant := invariant.step rfl trivial rfl rfl
  tables state breakpoints syscalls grows invariant := invariant.assign rfl grows

/-! ## Stops -/

/-- A syscall-stop with `origRax` whose toggle is still to come. -/
structure Pending (stops : SyscallStops host) (origRax : Word) (state : State κ) : Prop where
  reports : Reports stops state.trace
  phase : stops.phase state.kernel = .stopped (!state.globals.gSyscallEntry)
  traced : state.globals.gSyscalls ≠ []
  watched : Unreported stops state.trace →
    inSyscalls state.globals.gSyscalls (origRax.setWidth 32) = true ∧
      state.globals.gSyscallEntry = false

/-- What holds while a syscall-stop is handled. -/
structure ParityPending (stops : SyscallStops host) (origRax : Word) (base : List (Entry κ))
    (state : State κ) : Prop where
  since : ∃ new, state.trace = new ++ base ∧ lastStop new = some .syscallStop
  regs : stops.regs state.kernel .origRax = origRax
  pending : (∀ entry ∈ state.trace, Tame stops entry) → Pending stops origRax state

section Stops

variable {origRax : Word}

theorem lastStop_plain {new : List (Entry κ)} (plain : entry.event.Plain) :
    lastStop (entry :: new) = lastStop new := by
  obtain ⟨event, globals, kernel⟩ := entry
  cases event with
  | waited wstatus => exact plain.elim
  | _ => rfl

theorem ParityPending.raised (pending : ParityPending stops origRax base state) :
    ParityRaised stops base state := by
  obtain ⟨new, split, last⟩ := pending.since
  exact ⟨new, split, fun tame => ⟨(pending.pending tame).reports, fun other => absurd last other⟩⟩

theorem ParityPending.lost (pending : ParityPending stops origRax base state) :
    ParityLost stops state := fun tame => (pending.pending tame).reports

theorem ParityPending.step (pending : ParityPending stops origRax base before)
    (grows : after.trace = entry :: before.trace) (plain : entry.event.Plain)
    (phase : stops.phase after.kernel = stops.phase before.kernel)
    (regs : stops.regs after.kernel .origRax = stops.regs before.kernel .origRax)
    (globals : after.globals = before.globals) : ParityPending stops origRax base after := by
  obtain ⟨new, split, last⟩ := pending.since
  refine ⟨⟨entry :: new, by rw [grows, split, List.cons_append], ?_⟩, regs.trans pending.regs,
    fun tame => ?_⟩
  · rw [lastStop_plain plain, last]
  · rw [grows] at tame
    have held := pending.pending fun other member => tame other (List.mem_cons_of_mem _ member)
    refine ⟨?_, ?_, ?_, ?_⟩
    · rw [grows]
      exact (reports_plain plain).mpr held.reports
    · rw [phase, globals]
      exact held.phase
    · rw [globals]
      exact held.traced
    · rw [grows, globals, unreported_plain plain]
      exact held.watched

/-- An event after which the exception is raised. -/
theorem ParityPending.refused (pending : ParityPending stops origRax base before)
    (grows : after.trace = entry :: before.trace) (plain : entry.event.Plain) :
    ParityRaised stops base after := by
  obtain ⟨new, split, last⟩ := pending.since
  refine ⟨entry :: new, by rw [grows, split, List.cons_append], fun tame => ⟨?_, fun other => ?_⟩⟩
  · rw [grows] at tame ⊢
    have held := pending.pending fun other member => tame other (List.mem_cons_of_mem _ member)
    exact (reports_plain plain).mpr held.reports
  · rw [lastStop_plain plain] at other
    exact absurd last other

theorem ParityPending.assign (pending : ParityPending stops origRax base before)
    {globals : Globals} (entry : globals.gSyscallEntry = before.globals.gSyscallEntry)
    (syscalls : globals.gSyscalls = before.globals.gSyscalls) :
    ParityPending stops origRax base (before.withGlobals globals) := by
  refine ⟨pending.since, pending.regs, fun tame => ?_⟩
  have held := pending.pending tame
  refine ⟨held.reports, ?_, ?_, ?_⟩
  · rw [State.withGlobals_globals, entry]
    exact held.phase
  · rw [State.withGlobals_globals, syscalls]
    exact held.traced
  · rw [State.withGlobals_globals, entry, syscalls]
    exact held.watched

/-- `program` keeps a syscall-stop pending. -/
abbrev KeepsPending (stops : SyscallStops host) (origRax : Word) (base : List (Entry κ))
    {α : Type} (program : Dbg κ α) : Prop :=
  Keeps (ParityPending stops origRax base) (ParityRaised stops base) (ParityLost stops) program

theorem pending_modifyGlobals {update : Globals → Globals}
    (entry : ∀ globals, (update globals).gSyscallEntry = globals.gSyscallEntry)
    (syscalls : ∀ globals, (update globals).gSyscalls = globals.gSyscalls) :
    KeepsPending stops origRax base (modifyGlobals update) :=
  fun state pending => pending.assign (entry state.globals) (syscalls state.globals)

theorem resumption_eq_none {request : Request} :
    request.resumption = none ↔ request.resumes = none := by
  cases request <;> simp [Request.resumption, Request.resumes]

/-- A request that leaves the registers alone. -/
theorem ParityPending.request {request : Request} (pending : ParityPending stops origRax base state)
    (none : request.resumes = none) (keeps : ∀ values, request ≠ .setregs values) :
    ParityPending stops origRax base (state.afterPtrace host request) := by
  have resumes : request.resumption = Option.none := resumption_eq_none.mpr none
  refine pending.step rfl resumes (stops.calm request _ resumes) ?_ rfl
  rw [State.afterPtrace_kernel, stops.regs_ptrace request _ none keeps]

theorem pending_ptrace {request : Request} (none : request.resumes = none)
    (keeps : ∀ values, request ≠ .setregs values) :
    KeepsPending stops origRax base (myPtrace host request) := by
  intro state pending
  have after := pending.request none keeps
  rw [wp_myPtrace]
  exact ⟨fun _ _ => after, fun _ => after.raised⟩

theorem pending_breakpointAt (index : Nat) :
    KeepsPending stops origRax base (breakpointAt index) :=
  .of_preserves (fun _ pending => pending.raised) (fun _ pending => pending.lost)
    (Calm.breakpointAt index)

theorem pending_getRegister (reg : MyReg) :
    KeepsPending stops origRax base (getRegister host reg) :=
  (pending_ptrace rfl (by simp)).bind fun _ => .pure _

theorem pending_setRip (addr : Addr) :
    KeepsPending stops origRax base (setRegister host .rip addr) := by
  intro state pending
  have read : ParityPending stops origRax base (state.afterPtrace host .getregs) :=
    pending.request rfl (by simp)
  unfold setRegister
  simp only [wp_bind, wp_myPtrace, wp_pure]
  refine ⟨fun reply answered => ?_, fun _ => read.raised⟩
  have values : reply.regs .origRax = origRax := by
    rw [stops.getregs _ _ answered, pending.regs]
  refine ⟨fun _ accepted => ?_, fun _ => read.refused rfl rfl⟩
  refine read.step rfl rfl (stops.calm _ _ rfl) ?_ rfl
  rw [State.afterPtrace_kernel, stops.setregs _ _ (Option.isSome_of_eq_some accepted), read.regs]
  exact (Function.update_of_ne (by simp) _ _).trans values

theorem pending_toggleBreakpoint (index : Nat) :
    KeepsPending stops origRax base (toggleBreakpoint host index) := by
  unfold toggleBreakpoint
  refine Keeps.bind (fun state pending => pending.step rfl trivial rfl rfl rfl) fun _ => ?_
  refine Keeps.bind (pending_breakpointAt index) fun bp => Keeps.ite (.pure ()) ?_
  refine Keeps.bind (pending_ptrace rfl (by simp)) fun reply => ?_
  refine Keeps.bind (pending_ptrace rfl (by simp)) fun _ => ?_
  exact pending_modifyGlobals (fun _ => rfl) fun _ => rfl

theorem pending_hitBreakpoint (index : Nat) (addr : Addr) :
    KeepsPending stops origRax base (hitBreakpoint host index addr) := by
  unfold hitBreakpoint
  refine Keeps.bind (pending_breakpointAt index) fun bp => ?_
  refine Keeps.bind (.ite (pending_toggleBreakpoint index) (.pure ())) fun _ => ?_
  refine Keeps.bind (.ite (fun state pending => ?_) (.pure ())) fun _ => ?_
  · exact pending.step rfl rfl rfl rfl rfl
  refine (pending_setRip addr).bind fun _ =>
    pending_modifyGlobals (fun globals => ?_) fun globals => ?_
  · split <;> rfl
  · split <;> rfl

/-- The toggle brings `g_syscall_entry` in step, and then only a report is missing. -/
theorem Pending.toggle (pending : Pending stops origRax state) :
    InStep { state.globals with gSyscallEntry := !state.globals.gSyscallEntry }
      (stops.phase state.kernel) := by
  rw [pending.phase]
  exact ⟨rfl, fun _ => pending.traced⟩

theorem ParityPending.catched (pending : ParityPending stops origRax base state)
    (entry : state.globals.gSyscallEntry = false) (name : Option String) (syscall : BitVec 32) :
    ParityInvariant stops base ((state.withGlobals { state.globals with
      gSyscallEntry := !state.globals.gSyscallEntry }).record
        (.output (.syscallCatched name syscall))) := by
  obtain ⟨new, split, _⟩ := pending.since
  refine ⟨_ :: new, by rw [State.record_trace, State.withGlobals_trace, split, List.cons_append],
    fun tame => ?_⟩
  have held := pending.pending fun other member => tame other (List.mem_cons_of_mem _ member)
  refine ⟨held.toggle, ⟨held.reports, ?_⟩, id⟩
  change stops.phase state.kernel = .stopped true
  rw [held.phase, entry]
  rfl

theorem ParityPending.passed (pending : ParityPending stops origRax base state)
    (unwatched : ¬ (inSyscalls state.globals.gSyscalls (origRax.setWidth 32) = true ∧
      state.globals.gSyscallEntry = false)) :
    ParityInvariant stops base (state.withGlobals { state.globals with
      gSyscallEntry := !state.globals.gSyscallEntry }) := by
  obtain ⟨new, split, _⟩ := pending.since
  refine ⟨new, split, fun tame => ?_⟩
  have held := pending.pending tame
  exact ⟨held.toggle, held.reports, fun unreported => unwatched (held.watched unreported)⟩

/-- What a program leaves that settles the state. -/
abbrev Settling {α : Type} (stops : SyscallStops host) (base : List (Entry κ)) :
    Post MyException (State κ) α where
  ok _ := ParityInvariant stops base
  throw _ := ParityRaised stops base
  fault := ParityLost stops
  noReturn := ParityLost stops

theorem handleSyscallStop_parity (isBp : Bool) (pending : ParityPending stops origRax base state) :
    wp (handleSyscallStop host isBp) (Settling stops base) state := by
  unfold handleSyscallStop
  rw [wp_bind, wp_modifyGlobals]
  change wp (getRegister host .origRax >>= _) _ _
  rw [wp_bind, wp_getRegister]
  have cleared : ParityPending stops origRax base
      (state.withGlobals { state.globals with gSignum := 0 }) := pending.assign rfl rfl
  have read : ParityPending stops origRax base (State.afterPtrace host _ .getregs) :=
    cleared.request rfl (by simp)
  refine ⟨fun reply answered => ?_, fun _ => read.raised⟩
  obtain rfl : reply.regs .origRax = origRax := by
    rw [stops.getregs _ _ answered, cleared.regs]
  generalize (state.withGlobals _).afterPtrace host .getregs = middle at read
  simp only [wp_bind, wp_modifyGlobals, wp_getGlobals, wp_ite, wp_printf, wp_pure,
    State.withGlobals_globals, Bool.and_eq_true, Bool.not_eq_true']
  constructor
  · intro watched
    exact read.catched watched.2 _ _
  · intro unwatched
    exact ⟨fun _ => read.passed unwatched, fun _ => read.passed unwatched⟩

end Stops

/-! ## One stop -/

/-- `program` keeps the parity. -/
abbrev KeepsParity (stops : SyscallStops host) (base : List (Entry κ)) {α : Type}
    (program : Dbg κ α) : Prop :=
  Keeps (ParityInvariant stops base) (ParityRaised stops base) (ParityLost stops) program

theorem parity_keeps {α : Type} {program : Dbg κ α}
    (preserves : Preserves (ParityInvariant stops base) program) :
    KeepsParity stops base program :=
  .of_preserves (fun _ invariant => invariant.raised) (fun _ invariant => invariant.lost) preserves

theorem parity_modifyGlobals (update : Globals → Globals)
    (entry : ∀ globals, (update globals).gSyscallEntry = globals.gSyscallEntry)
    (syscalls : ∀ globals, (update globals).gSyscalls = globals.gSyscalls) :
    Preserves (ParityInvariant stops base) (modifyGlobals update) :=
  .of_wp fun state invariant =>
    invariant.assign (entry state.globals) (by rw [syscalls])

theorem hitBreakpoint_parity (index : Nat) (addr : Addr) :
    Preserves (ParityInvariant stops base) (hitBreakpoint host index addr) := by
  have stable : Stable host (ParityInvariant stops base) := parity_stable base
  refine (Calm.breakpointAt index).bind fun bp => ?_
  refine (Preserves.when _ (stable.toggleBreakpoint index)).bind fun _ => ?_
  refine (Preserves.when _ (stable.printf _ rfl)).bind fun _ => ?_
  refine (stable.setRegister _ _).bind fun _ =>
    parity_modifyGlobals _ (fun globals => ?_) fun globals => ?_
  · split <;> rfl
  · split <;> rfl

theorem reportSignal_parity :
    Preserves (ParityInvariant stops base) (reportSignal : Dbg κ AfterStop) := by
  have stable : Stable host (ParityInvariant stops base) := parity_stable base
  refine Preserves.bind (.gets _) fun globals => ?_
  exact (Preserves.when _ (stable.printf _ rfl)).bind fun _ => .pure _

/-- A stop that is not marked. -/
theorem handleStop_plain (step : Bool) {stopsig : BitVec 8} (plain : ¬ stopsig &&& 0x80 ≠ 0) :
    Preserves (ParityInvariant stops base) (handleStop host step stopsig) := by
  have stable : Stable host (ParityInvariant stops base) := parity_stable base
  refine Preserves.bind (parity_modifyGlobals _ (fun _ => rfl) fun _ => rfl) fun _ => ?_
  refine Preserves.bind (.gets _) fun globals => Preserves.ite ?_ ?_
  · exact Preserves.bind (parity_modifyGlobals _ (fun _ => rfl) fun _ => rfl) fun _ => .pure _
  refine (stable.getRegister _).bind fun rip => Preserves.bind (.gets _) fun globals => ?_
  refine (Preserves.forSome _ fun index => hitBreakpoint_parity index _).bind fun _ => ?_
  unfold finishStop
  rw [if_neg plain]
  exact reportSignal_parity

variable {origRax : Word}

/-- A marked stop, which no single step ends with. -/
theorem handleStop_marked {stopsig : BitVec 8} (marked : stopsig &&& 0x80 ≠ 0)
    (pending : ParityPending stops origRax base state) :
    wp (handleStop host false stopsig) (Settling stops base) state := by
  have read : ParityPending stops origRax base (state.withGlobals
      { state.globals with gSignum := (stopsig &&& 0x7F).setWidth 64 }) := pending.assign rfl rfl
  unfold handleStop
  simp only [wp_bind, wp_modifyGlobals, wp_getGlobals, Bool.false_and, if_neg Bool.false_ne_true]
  refine wp_mono (pending_getRegister .rip _ read)
    ⟨fun rip after kept => ?_, fun _ _ raised => raised, fun _ lost => lost, fun _ lost => lost⟩
  have hits : KeepsPending stops origRax base
      (Program.forSome (getBreakpoint after.globals.gBreakpoints (rip - 1))
        (hitBreakpoint host · (rip - 1))) := by
    cases getBreakpoint after.globals.gBreakpoints (rip - 1) with
    | none => exact .pure ()
    | some index => exact pending_hitBreakpoint index _
  refine wp_mono (hits after kept)
    ⟨fun _ after kept => ?_, fun _ _ raised => raised, fun _ lost => lost, fun _ lost => lost⟩
  simp only [finishStop, if_pos marked, wp_bind]
  refine wp_mono (handleSyscallStop_parity _ kept)
    ⟨fun next after settled => ?_, fun _ _ raised => raised, fun _ lost => lost, fun _ lost => lost⟩
  cases next with
  | continues => exact settled
  | returns result => exact parity_keeps reportSignal_parity after settled

theorem handleEnd_parity (wstatus : WStatus) :
    Preserves (ParityInvariant stops base) (handleEnd wstatus : Dbg κ AfterStop) := by
  refine Preserves.bind ((parity_stable base).printf _ ?_) fun _ => ?_
  · cases wstatus <;> rfl
  · exact Preserves.bind (parity_modifyGlobals _ (fun _ => rfl) fun _ => rfl) fun _ => .pure _

/-- Only PTRACE_SYSCALL leaves an entry-stop, and it leads to the exit-stop. -/
theorem InStep.next {globals : Globals} {by' : Resumption} {entry : Bool} {wstatus : WStatus}
    {next : Phase} (inStep : InStep globals (.running by' entry))
    (follows : Phase.Next by' entry wstatus next) (other : wstatus ≠ .syscallStop) :
    InStep globals next := by
  cases wstatus with
  | stopped signal =>
      obtain ⟨notTraced, rfl⟩ := follows
      cases entry with
      | true => exact absurd (inStep.2.1 rfl) (notTraced rfl)
      | false => exact ⟨inStep.1, nofun⟩
  | syscallStop => exact absurd rfl other
  | exited code => obtain rfl := follows; trivial
  | signaled signal => obtain rfl := follows; trivial
  | other => obtain rfl := follows; trivial

variable {wstatus : WStatus} {kernel : κ}

theorem ParityInvariant.waited (invariant : ParityInvariant stops base state)
    (returned : host.waitpid state.kernel = .status wstatus kernel)
    (other : wstatus ≠ .syscallStop) :
    ParityInvariant stops base (state.stoppedBy wstatus kernel) := by
  obtain ⟨new, split, settled⟩ := invariant
  obtain ⟨by', atEntry, running, next⟩ := stops.status _ _ _ returned
  refine ⟨_ :: new, by rw [State.stoppedBy_trace, split, List.cons_append], fun tame => ?_⟩
  have held := settled fun entry member => tame entry (List.mem_cons_of_mem _ member)
  have inStep := held.inStep
  rw [running] at inStep
  have reported : Reports stops (state.stoppedBy wstatus kernel).trace ∧
      ¬ Unreported stops (state.stoppedBy wstatus kernel).trace := by
    cases wstatus with
    | syscallStop => exact absurd rfl other
    | _ => exact ⟨⟨held.reports, trivial⟩, id⟩
  exact ⟨inStep.next next other, reported.1, reported.2⟩

theorem ParityInvariant.marked (invariant : ParityInvariant stops base state)
    (returned : host.waitpid state.kernel = .status .syscallStop kernel) :
    ParityPending stops (stops.regs kernel .origRax) base
      (state.stoppedBy .syscallStop kernel) := by
  obtain ⟨new, split, settled⟩ := invariant
  obtain ⟨by', atEntry, running, traced, next⟩ := stops.status _ _ _ returned
  refine ⟨⟨_ :: new, by rw [State.stoppedBy_trace, split, List.cons_append], rfl⟩, rfl,
    fun tame => ?_⟩
  have held := settled fun entry member => tame entry (List.mem_cons_of_mem _ member)
  have inStep := held.inStep
  rw [running] at inStep
  have phase : stops.phase kernel = .stopped (!state.globals.gSyscallEntry) := by
    rw [next, inStep.1]
  refine ⟨⟨held.reports, phase⟩, phase, inStep.2.2 traced, fun watched => ⟨watched.2, ?_⟩⟩
  have atEntry : stops.phase kernel = .stopped true := watched.1
  rw [phase] at atEntry
  simpa using atEntry

/-- How the tracee was resumed tells the kind of stop. -/
theorem waitStop_parity (step : Bool) (invariant : ParityInvariant stops base state)
    (stepping : step = true → ∃ entry, stops.phase state.kernel = .running .singlestep entry) :
    wp (waitStop host step) (Settling stops base) state := by
  refine wp_waitStop step (fun _ => invariant.lost) (fun kernel failed => ?_)
    (fun wstatus kernel stopsig returned status => ?_) fun wstatus kernel returned status => ?_
  · obtain ⟨new, split, settled⟩ := invariant
    refine ParityInvariant.raised ⟨new, split, fun tame => ?_⟩
    have held := settled tame
    refine ⟨?_, held.reports, held.reported⟩
    rw [stops.failed _ _ failed]
    exact held.inStep
  · by_cases marked : wstatus = .syscallStop
    · subst marked
      obtain rfl : (5 ||| 0x80 : BitVec 8) = stopsig := Option.some.inj status
      cases step with
      | true =>
          obtain ⟨_, single⟩ := stepping rfl
          obtain ⟨by', atEntry, running, traced, _⟩ := stops.status _ _ _ returned
          rw [running, traced] at single
          cases single
      | false => exact handleStop_marked (by decide) (invariant.marked returned)
    · have plain : ¬ stopsig &&& 0x80 ≠ 0 := by
        cases wstatus with
        | stopped signal =>
            obtain rfl : signal.setWidth 8 = stopsig := Option.some.inj status
            exact not_not_intro (stopsig_plain signal)
        | syscallStop => exact absurd rfl marked
        | _ => cases status
      exact parity_keeps (handleStop_plain step plain) _ (invariant.waited returned marked)
  · have other : wstatus ≠ .syscallStop := by
      rintro rfl
      cases status
    exact parity_keeps (handleEnd_parity wstatus) _ (invariant.waited returned other)

/-! ## Resuming -/

variable {request : Request} {by' : Resumption}

/-- A resumption that takes the tracee out of an entry-stop only with PTRACE_SYSCALL. -/
theorem ParityInvariant.resume (invariant : ParityInvariant stops base state)
    (resumes : request.resumption = some by')
    (takes : ∀ entry, Tame stops ⟨.ptrace request (host.ptrace request state.kernel).1.isSome,
        state.globals, state.kernel⟩ → stops.phase state.kernel = .stopped entry →
      InStep state.globals (.stopped entry) → InStep state.globals (.running by' entry)) :
    ParityInvariant stops base (state.afterPtrace host request) := by
  obtain ⟨new, split, settled⟩ := invariant
  refine ⟨_ :: new, by rw [State.afterPtrace_trace, split, List.cons_append], fun tame => ?_⟩
  have held := settled fun entry member => tame entry (List.mem_cons_of_mem _ member)
  refine ⟨?_, ⟨held.reports, fun _ => held.reported⟩, held.reported⟩
  rw [State.afterPtrace_kernel, State.afterPtrace_globals]
  cases answer : (host.ptrace request state.kernel).1 with
  | none =>
      rw [stops.refused _ _ answer]
      exact held.inStep
  | some reply =>
      obtain ⟨entry, stopped, running⟩ := stops.accepted request state.kernel by' resumes
        (by rw [answer]; rfl)
      have inStep := held.inStep
      rw [stopped] at inStep
      rw [running]
      exact takes entry (tame _ List.mem_cons_self) stopped inStep

variable {continues : Dbg κ Unit}

theorem waitProgram_parity (step : Bool) (continued : KeepsParity stops base continues)
    (invariant : ParityInvariant stops base state)
    (stepping : step = true → ∃ entry, stops.phase state.kernel = .running .singlestep entry) :
    wp (waitProgram host continues step) (Settling stops base) state := by
  unfold waitProgram
  rw [wp_bind]
  refine wp_mono (waitStop_parity step invariant stepping)
    ⟨fun next after settled => ?_, fun _ _ raised => raised, fun _ lost => lost, fun _ lost => lost⟩
  cases next with
  | returns result => exact settled
  | continues => exact (continued.bind fun _ => .pure false) after settled

theorem stepOnce_parity (continued : KeepsParity stops base continues) :
    KeepsParity stops base (stepOnce host continues) := by
  intro state invariant
  unfold stepOnce
  simp only [wp_bind, wp_getGlobals, wp_myPtrace, wp_modifyGlobals]
  have resumed : ParityInvariant stops base
      (state.afterPtrace host (.singlestep state.globals.gSignum)) := by
    refine invariant.resume rfl fun entry tame stopped inStep => ?_
    cases entry with
    | true => exact absurd stopped tame
    | false =>
        refine ⟨inStep.1, ?_, ?_⟩
        · intro atEntry
          cases atEntry
        · intro resumesSyscall
          cases resumesSyscall
  refine ⟨fun reply answer => ?_, fun _ => resumed.raised⟩
  refine waitProgram_parity true continued (resumed.assign rfl le_rfl) fun _ => ?_
  obtain ⟨entry, _, running⟩ := stops.accepted (.singlestep state.globals.gSignum) state.kernel
    .singlestep rfl (by rw [answer]; rfl)
  exact ⟨entry, running⟩

theorem singleStep_parity (continued : KeepsParity stops base continues) :
    KeepsParity stops base (singleStep host continues) := by
  have stable : Stable host (ParityInvariant stops base) := parity_stable base
  have toggle (bp : Option Nat) :
      KeepsParity stops base (Program.forSome bp (toggleBreakpoint host)) :=
    parity_keeps (.forSome bp stable.toggleBreakpoint)
  refine Keeps.bind (parity_keeps (stable.getRegister _)) fun addr =>
    Keeps.bind (.gets _) fun globals => ?_
  exact (toggle _).bind fun _ => (stepOnce_parity continued).bind fun ret =>
    (toggle _).bind fun _ => .pure ret

theorem resumeExecution_parity (continued : KeepsParity stops base continues) :
    KeepsParity stops base (resumeExecution host continues) := by
  intro state invariant
  unfold resumeExecution
  simp only [wp_bind, wp_getGlobals, wp_myPtrace, wp_modifyGlobals]
  have resumed : ParityInvariant stops base (state.afterPtrace host
      (if state.globals.gSyscalls ≠ [] then .syscall state.globals.gSignum
        else .cont state.globals.gSignum)) := by
    split
    · next traced =>
        exact invariant.resume rfl fun entry _ _ inStep => ⟨inStep.1, fun _ => rfl, fun _ => traced⟩
    · next untraced =>
        refine invariant.resume rfl fun entry _ _ inStep =>
          ⟨inStep.1, fun atEntry => absurd (inStep.2 atEntry) untraced, ?_⟩
        intro resumesSyscall
        cases resumesSyscall
  refine ⟨fun reply _ => ?_, fun _ => resumed.raised⟩
  have continues (stepping : false = true) : False := Bool.false_ne_true stepping
  exact wp_mono (waitProgram_parity false continued (resumed.assign rfl le_rfl)
      fun stepping => (continues stepping).elim)
    ⟨fun _ _ kept => kept, fun _ _ raised => raised, fun _ lost => lost, fun _ lost => lost⟩

theorem continueExecution_parity (depth : Nat) :
    KeepsParity stops base (continueExecution host depth) := by
  have stable : Stable host (ParityInvariant stops base) := parity_stable base
  induction depth with
  | zero => exact fun _ invariant => invariant.lost
  | succ depth inductionHypothesis =>
      have resumes := resumeExecution_parity inductionHypothesis
      refine Keeps.bind (parity_keeps (stable.getRegister _)) fun addr => ?_
      refine Keeps.bind (.gets _) fun globals => Keeps.ite ?_ resumes
      exact (singleStep_parity inductionHypothesis).bind fun stepped => Keeps.ite resumes (.pure ())

theorem exec_parity (depth : Nat) (command : Command) :
    KeepsParity stops base (exec host depth command) :=
  (parity_stable base).exec (fun _ invariant => invariant.raised)
    (fun _ invariant => invariant.lost)
    (fun depth => singleStep_parity (continueExecution_parity depth))
    continueExecution_parity depth command

end Rules

/-! ## Sessions -/

/-- A command that, where it raises, does not leave a syscall-stop unhandled. -/
def UnbrokenPrompt (host : Host κ) (line : Line) (before after : State κ) : Prop :=
  Prompt host line before after ∧
    (line.back ≠ .normal → lastStop (before.newEntries after) ≠ some .syscallStop)

/-- A prompt reached by a tame trace is settled. -/
def Even (stops : SyscallStops host) (state : State κ) : Prop :=
  (∀ entry ∈ state.trace, Tame stops entry) → Settled stops state

section Sessions

variable {stops : SyscallStops host} {before after : State κ}

theorem Even.invariant (even : Even stops before) :
    ParityInvariant stops before.trace before := ⟨[], rfl, even⟩

theorem Even.prompt {line : Line} (even : Even stops before)
    (unbroken : UnbrokenPrompt host line before after) : Even stops after := by
  have keeps := exec_parity line.depth line.command before even.invariant
  obtain ⟨prompt, whole⟩ := unbroken
  unfold Prompt at prompt
  cases back : line.back with
  | normal =>
      rw [back] at prompt
      obtain ⟨_, _, settled⟩ := keeps.ok prompt
      exact settled
  | raised raised =>
      rw [back] at prompt whole
      obtain ⟨new, split, settled⟩ := keeps.throw prompt
      rw [newEntries_eq split] at whole
      exact fun tame => (settled tame).2 (whole nofun)

/-- As long as no single step is made from an entry-stop and no command breaks
off at a syscall-stop, `g_syscall_entry` tells entries from exits, also in a
command that never comes back. -/
theorem syscall_parity (stops : SyscallStops host) {kernel : κ} {lines : List Line}
    {last : State κ} (stopped : stops.phase kernel = .stopped false)
    (run : Run (UnbrokenPrompt host) (State.start kernel) lines last)
    (tame : ∀ entry ∈ last.trace, Tame stops entry) :
    (Reports stops last.trace ∧ ¬ Unreported stops last.trace) ∧
      ∀ depth command,
        (∀ entry ∈ (exec host depth command last).state.trace, Tame stops entry) →
          Reports stops (exec host depth command last).state.trace := by
  have start : Even stops (State.start kernel) := by
    refine fun _ => ⟨?_, trivial, id⟩
    change InStep Globals.init (stops.phase kernel)
    rw [stopped]
    exact ⟨rfl, nofun⟩
  have even : Even stops last :=
    run.invariant (Even stops) start fun _ _ _ even unbroken => even.prompt unbroken
  refine ⟨⟨(even tame).reports, (even tame).reported⟩, fun depth command tame => ?_⟩
  have kept := exec_parity depth command last even.invariant
  unfold wp at kept
  cases outcome : exec host depth command last with
  | ok value after =>
      rw [outcome] at kept tame
      exact kept.lost tame
  | throw raised after =>
      rw [outcome] at kept tame
      obtain ⟨_, _, settled⟩ := kept
      exact (settled tame).1
  | fault after =>
      rw [outcome] at kept tame
      exact kept tame
  | noReturn after =>
      rw [outcome] at kept tame
      exact kept tame

end Sessions

/-! ## A tracee that makes one syscall after the other -/

structure Looping where
  regs : UserRegs
  phase : Phase

/-- At the instruction before the first syscall, `write`. -/
def Looping.start : State Looping :=
  State.start { regs := fun reg => if reg = .origRax then 1 else 0x400000, phase := .stopped false }

def looping : Host Looping where
  ptrace request kernel :=
    match request.resumption, kernel.phase with
    | some by', .stopped entry =>
        (some ⟨0, kernel.regs⟩, { kernel with phase := .running by' entry })
    | some _, _ => (none, kernel)
    | none, _ =>
        match request with
        | .setregs regs => (some ⟨0, regs⟩, { kernel with regs := regs })
        | _ => (some ⟨0, kernel.regs⟩, kernel)
  waitpid kernel :=
    match kernel.phase with
    | .running .syscall entry => .status .syscallStop { kernel with phase := .stopped (!entry) }
    | .running .singlestep _ => .status .plainTrap { kernel with phase := .stopped false }
    | _ => .blocked
  procMem _ _ := none
  csDisasm _ := none
  unwindCaller _ := none
  syscallNumbers := [("SYS_write", 1)]

def loopingStops : SyscallStops looping where
  regs := Looping.regs
  phase := Looping.phase
  getregs kernel reply answered := by
    obtain rfl := Option.some.inj answered
    rfl
  setregs values kernel _ := rfl
  regs_ptrace request kernel quiet keeps := by
    cases request with
    | setregs values => exact absurd rfl (keeps values)
    | peekdata addr => rfl
    | pokedata addr data => rfl
    | getregs => rfl
    | _ => cases quiet
  accepted request kernel by' resumes accepted := by
    obtain ⟨regs, phase⟩ := kernel
    simp only [looping, resumes] at accepted ⊢
    cases phase with
    | stopped entry => exact ⟨entry, rfl, rfl⟩
    | running by' entry => cases accepted
    | ended => cases accepted
  refused request kernel refused := by
    obtain ⟨regs, phase⟩ := kernel
    cases request <;> cases phase <;> first | rfl | cases refused
  calm request kernel quiet := by
    cases request <;> first | rfl | cases quiet
  failed kernel after failed := by
    obtain ⟨regs, phase⟩ := kernel
    rcases phase with _ | ⟨_ | _, _⟩ | _ <;> cases failed
  status kernel wstatus after returned := by
    obtain ⟨regs, phase⟩ := kernel
    rcases phase with _ | ⟨_ | _ | _, entry⟩ | _
    all_goals cases returned
    · exact ⟨.syscall, entry, rfl, rfl, rfl⟩
    · exact ⟨.singlestep, entry, rfl, nofun, rfl⟩

instance (stops : SyscallStops host) (entry : Entry κ) : Decidable (Tame stops entry) :=
  match entry with
  | ⟨.ptrace (.singlestep _) _, _, kernel⟩ =>
      inferInstanceAs (Decidable (stops.phase kernel ≠ .stopped true))
  | ⟨.ptrace (.peekdata _) _, _, _⟩ => .isTrue trivial
  | ⟨.ptrace (.pokedata _ _) _, _, _⟩ => .isTrue trivial
  | ⟨.ptrace .getregs _, _, _⟩ => .isTrue trivial
  | ⟨.ptrace (.setregs _) _, _, _⟩ => .isTrue trivial
  | ⟨.ptrace (.cont _) _, _, _⟩ => .isTrue trivial
  | ⟨.ptrace (.syscall _) _, _, _⟩ => .isTrue trivial
  | ⟨.waited _, _, _⟩ => .isTrue trivial
  | ⟨.toggle _, _, _⟩ => .isTrue trivial
  | ⟨.output _, _, _⟩ => .isTrue trivial

/-- The second `continue` gets from the first report to the second. -/
theorem syscall_parity_twice :
    ∃ last, Session looping Looping.start
        [⟨.breaks 1, 1, .normal⟩, ⟨.continue, 1, .normal⟩, ⟨.continue, 2, .normal⟩] last ∧
      Reports loopingStops last.trace := by
  have comes : (replay looping (fun line _ _ => decide (line.back = .normal)) Looping.start
      [⟨.breaks 1, 1, .normal⟩, ⟨.continue, 1, .normal⟩, ⟨.continue, 2, .normal⟩]).map
        (fun last => decide (∀ entry ∈ last.trace, Tame loopingStops entry)) = some true := by
    decide +kernel
  obtain ⟨last, replayed, tame⟩ := Option.map_eq_some_iff.mp comes
  have run : Run (UnbrokenPrompt looping) Looping.start _ last :=
    run_replay (fun _ _ _ prompt normal =>
      ⟨prompt, fun raised => absurd (of_decide_eq_true normal) raised⟩) replayed
  exact ⟨last, run.mono fun _ _ _ unbroken => unbroken.1,
    (syscall_parity loopingStops rfl run (of_decide_eq_true tame)).1.1⟩

/-- Printing the report of a syscall. -/
def Event.catches : Event → Bool
  | .output message => message.catches
  | _ => false

theorem Reports.catched {stops : SyscallStops host} {trace : List (Entry κ)}
    (reports : Reports stops trace) {entry : Entry κ} (member : entry ∈ trace)
    (catches : entry.event.catches = true) : stops.phase entry.kernel = .stopped true := by
  induction trace with
  | nil => cases member
  | cons latest older inductionHypothesis =>
      rcases List.mem_cons.mp member with rfl | earlier
      · obtain ⟨event, globals, kernel⟩ := entry
        have latest := reports.2
        cases event with
        | output message =>
            cases message with
            | syscallCatched name syscall => exact latest
            | _ => cases catches
        | _ => cases catches
      · exact inductionHypothesis reports.1 earlier

/-- A single step from the reported entry-stop inverts the next report. -/
theorem syscall_exit_reported :
    ∃ last, Session looping Looping.start
        [⟨.breaks 1, 1, .normal⟩, ⟨.continue, 1, .normal⟩, ⟨.stepInstr, 1, .normal⟩,
          ⟨.continue, 2, .normal⟩] last ∧
      (∃ entry ∈ last.trace, entry.event.catches = true ∧
        loopingStops.phase entry.kernel = .stopped false) ∧
      ¬ Reports loopingStops last.trace := by
  have computed : (replay looping (fun _ _ _ => true) Looping.start
      [⟨.breaks 1, 1, .normal⟩, ⟨.continue, 1, .normal⟩, ⟨.stepInstr, 1, .normal⟩,
        ⟨.continue, 2, .normal⟩]).map (fun last => decide (∃ entry ∈ last.trace,
          entry.event.catches = true ∧ loopingStops.phase entry.kernel = .stopped false)) =
      some true := by
    decide +kernel
  obtain ⟨last, replayed, reported⟩ := Option.map_eq_some_iff.mp computed
  obtain ⟨entry, member, catches, atExit⟩ := of_decide_eq_true reported
  refine ⟨last, session_replay replayed, ⟨entry, member, catches, atExit⟩, fun reports => ?_⟩
  have atEntry := reports.catched member catches
  rw [atExit] at atEntry
  cases atEntry

end MyDbg
