import MyDbg.Debugger.Rules
import MyDbg.Debugger.Tracee

/-!
Contract: which stops rewind RIP.

Owns: `LeftAlone`, a stop after which RIP and the breakpoints are as the stop
found them and no hit was reported; `LeavesAlone`, a call of `wait_program` that ends so
or goes on from there with `continue_execution`; and exactly which stops other than a
plain SIGTRAP it leaves alone.

Does not own: the plain SIGTRAP.
-/

namespace MyDbg

open LittleEndian ProgramLogic

variable {κ : Type} {host : Host κ}

/-- The report of a breakpoint. -/
def Event.reportsHit : Event → Bool
  | .output (.breakpointHit _ _) => true
  | _ => false

/-- Handling the stop `kernel` found in `before` changed neither RIP nor a
breakpoint and reported no hit. -/
structure LeftAlone (tracee : Tracee host) (kernel : κ) (before after : State κ) : Prop where
  rip : tracee.regs after.kernel .rip = tracee.regs kernel .rip
  breakpoints : after.globals.gBreakpoints = before.globals.gBreakpoints
  silent : ∃ new, after.trace = new ++ before.trace ∧
    ∀ entry ∈ new, entry.event.reportsHit = false

/-- `invariant` survives what `wait_program` does besides handling a hit. -/
structure Passive (host : Host κ) (invariant : State κ → Prop) : Prop where
  read : ∀ state, invariant state → invariant (state.afterPtrace host .getregs)
  printed : ∀ state message, (Event.output message).reportsHit = false → invariant state →
    invariant (state.record (.output message))
  assigned : ∀ state globals, globals.gBreakpoints = state.globals.gBreakpoints →
    invariant state → invariant (state.withGlobals globals)

namespace Passive

variable {invariant : State κ → Prop} (passive : Passive host invariant)

include passive

theorem getRegister (reg : MyReg) : Preserves invariant (getRegister host reg) := by
  refine Preserves.of_wp fun state holds => ?_
  rw [wp_getRegister]
  exact ⟨fun _ _ => passive.read state holds, fun _ => passive.read state holds⟩

theorem printf {message : Message} (noHit : (Event.output message).reportsHit = false) :
    Preserves invariant (printf message) :=
  Preserves.of_wp fun state holds => passive.printed state message noHit holds

theorem modifyGlobals {update : Globals → Globals}
    (same : ∀ globals, (update globals).gBreakpoints = globals.gBreakpoints) :
    Preserves invariant (modifyGlobals update) :=
  Preserves.of_wp fun state holds => passive.assigned state _ (same state.globals) holds

theorem handleSyscallStop (isBp : Bool) : Preserves invariant (handleSyscallStop host isBp) := by
  refine Preserves.bind (passive.modifyGlobals fun _ => rfl) fun _ => ?_
  refine (passive.getRegister _).bind fun origRax => ?_
  refine Preserves.bind (passive.modifyGlobals fun _ => rfl) fun _ => ?_
  refine Preserves.bind (.gets _) fun globals => ?_
  refine Preserves.ite ((passive.printf rfl).bind fun _ => .pure _) ?_
  exact Preserves.ite (.pure _) (.pure _)

theorem reportSignal : Preserves invariant (reportSignal : Dbg κ AfterStop) :=
  Preserves.bind (.gets _) fun _ =>
    (Preserves.when _ (passive.printf rfl)).bind fun _ => .pure _

theorem finishStop (stopsig : BitVec 8) (isBp : Bool) :
    Preserves invariant (finishStop host stopsig isBp) := by
  refine Preserves.ite ((passive.handleSyscallStop isBp).bind fun next => ?_)
    passive.reportSignal
  cases next with
  | returns result => exact passive.reportSignal
  | continues => exact .pure _

end Passive

section Stops

variable {tracee : Tracee host} {kernel : κ} {before state : State κ} {stopsig : BitVec 8}

theorem ripIs_passive {registers : Registers host} (rip : Addr) :
    Passive host (fun state => registers.regs state.kernel .rip = rip) where
  read state holds := by
    rw [State.afterPtrace_kernel, registers.regs_ptrace .getregs _ rfl (by simp), holds]
  printed _ _ _ holds := holds
  assigned _ _ _ holds := holds

theorem LeftAlone.grows {entry : Entry κ} {after : State κ}
    (alone : LeftAlone tracee kernel before state) (grows : after.trace = entry :: state.trace)
    (noHit : entry.event.reportsHit = false)
    (rip : tracee.regs after.kernel .rip = tracee.regs kernel .rip)
    (same : after.globals.gBreakpoints = state.globals.gBreakpoints) :
    LeftAlone tracee kernel before after := by
  obtain ⟨new, split, silent⟩ := alone.silent
  exact ⟨rip, same.trans alone.breakpoints, entry :: new, by rw [grows, split, List.cons_append],
    List.forall_mem_cons.mpr ⟨noHit, silent⟩⟩

theorem leftAlone_passive : Passive host (LeftAlone tracee kernel before) where
  read state alone := alone.grows rfl rfl ((ripIs_passive _).read state alone.rip) rfl
  printed _ _ noHit alone := alone.grows rfl noHit alone.rip rfl
  assigned _ _ same alone := ⟨alone.rip, same.trans alone.breakpoints, alone.silent⟩

theorem leftAlone_stopped (wstatus : WStatus) :
    LeftAlone tracee kernel before (before.stoppedBy wstatus kernel) :=
  ⟨rfl, rfl, [⟨.waited wstatus, before.globals, kernel⟩], rfl, by simp [Event.reportsHit]⟩

/-- The stop is handled, and was left alone. -/
def SparesStop (tracee : Tracee host) (kernel : κ) (before : State κ) {α : Type} :
    Post MyException (State κ) α where
  ok _ := LeftAlone tracee kernel before
  throw _ := LeftAlone tracee kernel before
  fault _ := False
  noReturn _ := False

/-- The stop is handled, and was not left alone. -/
def DisturbsStop (tracee : Tracee host) (kernel : κ) (before : State κ) {α : Type} :
    Post MyException (State κ) α where
  ok _ after := ¬ LeftAlone tracee kernel before after
  throw _ after := ¬ LeftAlone tracee kernel before after
  fault _ := True
  noReturn _ := True

/-- What follows the breakpoint test comes back. -/
theorem finishStop_ends (isBp : Bool) (state : State κ) :
    wp (finishStop host stopsig isBp)
      ⟨fun _ _ => True, fun _ _ => True, fun _ => False, fun _ => False⟩ state := by
  have reports (state : State κ) : wp (reportSignal : Dbg κ AfterStop)
      ⟨fun _ _ => True, fun _ _ => True, fun _ => False, fun _ => False⟩ state := by
    unfold reportSignal
    simp [wp_when]
  unfold finishStop
  rw [wp_ite]
  refine ⟨fun _ => ?_, fun _ => reports state⟩
  rw [wp_bind]
  unfold handleSyscallStop
  simp only [wp_bind, wp_modifyGlobals, wp_getRegister, wp_getGlobals, wp_ite, wp_printf,
    wp_pure]
  refine ⟨fun reply _ => ⟨fun _ => reports _, fun _ => ⟨fun _ => trivial, fun _ => reports _⟩⟩,
    fun _ => trivial⟩

theorem sparesStop_finishStop (isBp : Bool) (alone : LeftAlone tracee kernel before state) :
    wp (finishStop host stopsig isBp) (SparesStop tracee kernel before) state :=
  wp_mono (wp_and ((leftAlone_passive.finishStop stopsig isBp).wp alone)
    (finishStop_ends isBp state))
    ⟨fun _ _ both => both.1, fun _ _ both => both.1, fun _ both => both.2, fun _ both => both.2⟩

/-! ### Hits -/

/-- One of the two requests that set RIP to `addr` is refused, and RIP stays. -/
def RewindFails (registers : Registers host) (addr : Addr) (kernel : κ) : Prop :=
  (host.ptrace .getregs kernel).1 = none ∨
    ∃ reply ∈ (host.ptrace .getregs kernel).1, ∀ request,
      request = .setregs (Function.update reply.regs .rip addr) →
      (host.ptrace request (host.ptrace .getregs kernel).2).1 = none ∧
        registers.regs (host.ptrace request (host.ptrace .getregs kernel).2).2 .rip =
          registers.regs kernel .rip

/-- A hit of `bp` does something: a temporary breakpoint is disarmed, the hit of one that
is not internal is reported, and RIP is rewound. -/
def HitShows (registers : Registers host) (bp : MyBp) (kernel : κ) : Prop :=
  if bp.isTemp then ¬ DisarmFails host bp kernel
  else bp.isInternal = true → ¬ RewindFails registers bp.addr kernel

/-- The breakpoints have changed, or a hit was reported. -/
def Marked (before state : State κ) : Prop :=
  state.globals.gBreakpoints ≠ before.globals.gBreakpoints ∨
    ∃ new, state.trace = new ++ before.trace ∧
      ∃ entry ∈ new, entry.event.reportsHit = true

theorem Marked.disturbed (marked : Marked before state) :
    ¬ LeftAlone tracee kernel before state := by
  intro alone
  rcases marked with changed | ⟨new, split, entry, member, reported⟩
  · exact changed alone.breakpoints
  · obtain ⟨same, split', silent⟩ := alone.silent
    obtain rfl := List.append_cancel_right (split.symm.trans split')
    rw [silent entry member] at reported
    cases reported

/-- Events do not take it back. -/
theorem Marked.grows {entry : Entry κ} {after : State κ} (marked : Marked before state)
    (grows : after.trace = entry :: state.trace)
    (same : after.globals.gBreakpoints = state.globals.gBreakpoints) : Marked before after := by
  rcases marked with changed | ⟨new, split, shown, member, reported⟩
  · exact .inl (by rwa [same])
  · exact .inr ⟨entry :: new, by rw [grows, split, List.cons_append], shown,
      List.mem_cons_of_mem _ member, reported⟩

theorem marked_passive : Passive host (Marked before) where
  read _ marked := marked.grows rfl rfl
  printed _ _ _ marked := marked.grows rfl rfl
  assigned state globals same marked := by
    rcases marked with changed | reported
    · exact .inl (by rwa [State.withGlobals_globals, same])
    · exact .inr reported

/-- What follows the test for a temporary breakpoint. -/
theorem marked_rewind (addr : Addr) (marked : Marked before state) :
    wp (do
      setRegister host .rip addr
      modifyGlobals fun globals =>
        if globals.gSignum = sigtrap then { globals with gSignum := 0 } else globals)
      (Post.always (Marked before)) state := by
  have set : Preserves (Marked before) (setRegister host .rip addr) := by
    refine Preserves.bind (.of_wp fun state marked => ?_) fun reply => Preserves.bind (.of_wp
      fun state marked => ?_) fun _ => .pure _
    · rw [wp_myPtrace]
      exact ⟨fun _ _ => marked.grows rfl rfl, fun _ => marked.grows rfl rfl⟩
    · rw [wp_myPtrace]
      exact ⟨fun _ _ => marked.grows rfl rfl, fun _ => marked.grows rfl rfl⟩
  have passive : Passive host (Marked before) := marked_passive
  have cleared : Preserves (Marked before) (modifyGlobals fun globals : Globals =>
      if globals.gSignum = sigtrap then { globals with gSignum := 0 } else globals) :=
    passive.modifyGlobals fun globals => by split <;> rfl
  exact (Preserves.bind set fun _ => cleared).wp marked

section Hits

variable {index : Nat} {bp : MyBp}

/-- A hit that shows. -/
theorem hitBreakpoint_disturbs (before : State κ)
    (first : getBreakpoint state.globals.gBreakpoints bp.addr = some index)
    (found : state.globals.gBreakpoints[index]? = some bp)
    (table : state.globals.gBreakpoints = before.globals.gBreakpoints)
    (since : ∃ new, state.trace = new ++ before.trace)
    (rip : tracee.regs state.kernel .rip = tracee.regs kernel .rip)
    (shows : HitShows tracee.toRegisters bp state.kernel) :
    wp (hitBreakpoint host index bp.addr)
      ⟨fun _ after => Marked before after ∨ tracee.regs after.kernel .rip = bp.addr,
        fun _ after => Marked before after ∨
          tracee.regs after.kernel .rip ≠ tracee.regs kernel .rip,
        fun _ => True, fun _ => True⟩ state := by
  obtain ⟨other, there, hits, _⟩ := getBreakpoint_eq_some.mp first
  obtain rfl := Option.some.inj (found.symm.trans there)
  have on := (MyBp.hits_iff.mp hits).2.1
  have finish {middle : State κ} (marked : Marked before middle) :
      wp (do
        setRegister host .rip bp.addr
        modifyGlobals fun globals =>
          if globals.gSignum = sigtrap then { globals with gSignum := 0 } else globals)
        ⟨fun _ after => Marked before after ∨ tracee.regs after.kernel .rip = bp.addr,
          fun _ after => Marked before after ∨
            tracee.regs after.kernel .rip ≠ tracee.regs kernel .rip,
          fun _ => True, fun _ => True⟩ middle :=
    wp_mono (marked_rewind bp.addr marked)
      ⟨fun _ _ kept => .inl kept, fun _ _ kept => .inl kept, fun _ _ => trivial,
        fun _ _ => trivial⟩
  unfold hitBreakpoint
  rw [wp_bind_ok (breakpointAt_apply found), wp_bind, wp_when]
  unfold HitShows at shows
  constructor
  · intro temp
    rw [if_pos temp] at shows
    refine wp_toggleBreakpoint_on tracee found (.inl on) (fun fails => absurd fails shows)
      fun _ middle _ => ?_
    have marked : Marked before (middle.withGlobals { state.globals with
        gBreakpoints := state.globals.gBreakpoints.set index bp.toggled }) := by
      refine .inl fun same => ?_
      have inside := (List.getElem?_eq_some_iff.mp found).1
      have switched : (state.globals.gBreakpoints.set index bp.toggled)[index]? =
          some bp.toggled := List.getElem?_set_self inside
      change state.globals.gBreakpoints.set index bp.toggled = before.globals.gBreakpoints at same
      rw [same, ← table, found] at switched
      have clash := congrArg MyBp.enabled (Option.some.inj switched)
      rw [MyBp.toggled_enabled, on] at clash
      cases clash
    change wp (Program.when (!bp.isInternal) (printf (.breakpointHit bp.id bp.addr)) >>= _) _ _
    rw [wp_bind, wp_when]
    exact ⟨fun _ => finish (marked.grows rfl rfl), fun _ => finish marked⟩
  · intro persistent
    rw [if_neg (by simp [persistent])] at shows
    change wp (Program.when (!bp.isInternal) (printf (.breakpointHit bp.id bp.addr)) >>= _) _ _
    rw [wp_bind, wp_when]
    constructor
    · intro _
      obtain ⟨new, split⟩ := since
      have shown : (state.record (.output (.breakpointHit bp.id bp.addr))).trace =
          ⟨.output (.breakpointHit bp.id bp.addr), state.globals, state.kernel⟩ :: new ++
            before.trace := by
        rw [State.record_trace, split, List.cons_append]
      exact finish (.inr ⟨_, shown, _, List.mem_cons_self, rfl⟩)
    · intro hidden
      have fits := shows (by simpa using hidden)
      unfold setRegister
      simp only [wp_bind, wp_myPtrace, wp_pure, wp_modifyGlobals]
      refine ⟨fun reply answered => ⟨fun written accepted => .inr ?_, fun refused => ?_⟩,
        fun refused => ?_⟩
      · change tracee.regs (host.ptrace _ _).2 .rip = bp.addr
        rw [tracee.setregs _ _ (Option.isSome_of_mem accepted), Function.update_self]
      · refine .inr fun stays => fits (.inr ⟨reply, answered, fun request same => ?_⟩)
        subst same
        exact ⟨refused, stays.trans rip.symm⟩
      · exact absurd (.inl refused) fits

/-- A hit that does not. -/
theorem hitBreakpoint_spares (alone : LeftAlone tracee kernel before state)
    (first : getBreakpoint state.globals.gBreakpoints bp.addr = some index)
    (found : state.globals.gBreakpoints[index]? = some bp)
    (hides : ¬ HitShows tracee.toRegisters bp state.kernel) :
    wp (hitBreakpoint host index bp.addr)
      ⟨fun _ _ => False, fun _ => LeftAlone tracee kernel before, fun _ => False,
        fun _ => False⟩ state := by
  obtain ⟨other, there, hits, _⟩ := getBreakpoint_eq_some.mp first
  obtain rfl := Option.some.inj (found.symm.trans there)
  have on := (MyBp.hits_iff.mp hits).2.1
  unfold hitBreakpoint
  rw [wp_bind_ok (breakpointAt_apply found), wp_bind, wp_when]
  unfold HitShows at hides
  constructor
  · intro temp
    rw [if_pos temp, not_not] at hides
    refine wp_toggleBreakpoint_on tracee found (.inl on) (fun _ after unwritten => ?_)
      fun fits => absurd hides fits
    have noted : LeftAlone tracee kernel before (state.record (.toggle index)) :=
      alone.grows rfl rfl alone.rip rfl
    have rip : tracee.regs after.kernel .rip = tracee.regs kernel .rip := by
      rw [unwritten.regs]
      exact alone.rip
    have table : after.globals.gBreakpoints = before.globals.gBreakpoints := by
      rw [unwritten.globals]
      exact alone.breakpoints
    obtain ⟨new, split, silent⟩ := noted.silent
    rcases unwritten.trace with grows | ⟨word, middle, _, grows⟩
    · refine ⟨rip, table, _ :: new, by rw [grows, split, List.cons_append], ?_⟩
      exact List.forall_mem_cons.mpr ⟨rfl, silent⟩
    · refine ⟨rip, table, _ :: _ :: new, by rw [grows, split]; rfl, ?_⟩
      exact List.forall_mem_cons.mpr ⟨rfl, List.forall_mem_cons.mpr ⟨rfl, silent⟩⟩
  · intro persistent
    rw [if_neg (by simp [persistent]), Classical.not_imp, not_not] at hides
    obtain ⟨hidden, fails⟩ := hides
    change wp (Program.when (!bp.isInternal) (printf (.breakpointHit bp.id bp.addr)) >>= _) _ _
    rw [wp_bind, wp_when]
    refine ⟨fun shown => ?_, fun _ => ?_⟩
    · rw [hidden] at shown
      cases shown
    · unfold setRegister
      simp only [wp_bind, wp_myPtrace, wp_pure, wp_modifyGlobals]
      have asked := leftAlone_passive.read state alone
      refine ⟨fun reply answered => ⟨fun written accepted => ?_, fun refused => ?_⟩, fun _ => asked⟩
      · rcases fails with unread | ⟨other, same, unset⟩
        · rw [answered] at unread
          cases unread
        · obtain rfl := Option.some.inj (answered.symm.trans same)
          have clash := (unset _ rfl).1.symm.trans accepted
          cases clash
      · rcases fails with unread | ⟨other, same, unset⟩
        · rw [answered] at unread
          cases unread
        · obtain rfl := Option.some.inj (answered.symm.trans same)
          exact asked.grows rfl rfl ((unset _ rfl).2.trans alone.rip) rfl

end Hits

/-! ### Stops -/

/-- A stop at `kernel` with `wstatus` is taken for the hit of an armed breakpoint at the
byte before RIP. -/
def TakenForHit (registers : Registers host) (step : Bool) (wstatus : WStatus) (kernel : κ)
    (breakpoints : List MyBp) : Prop :=
  ¬ (step = true ∧ wstatus = .syscallStop) ∧ (host.ptrace .getregs kernel).1.isSome ∧
    ∃ index bp, getBreakpoint breakpoints (registers.regs kernel .rip - 1) = some index ∧
      breakpoints[index]? = some bp ∧ HitShows registers bp (host.ptrace .getregs kernel).2

section Handling

variable {step : Bool} {wstatus : WStatus}

/-- The mark of a syscall-stop, for a stop that is not a plain SIGTRAP. -/
theorem isSyscallStop (status : wstatus.wstopsig = some stopsig) (notTrap : wstatus ≠ .plainTrap) :
    wstatus = .syscallStop ↔ ((stopsig &&& 0x7F).setWidth 64 : Word) = sigtrap := by
  cases wstatus with
  | stopped signal =>
      obtain rfl : signal.setWidth 8 = stopsig := Option.some.inj status
      refine ⟨fun equal => (by cases equal), fun trap => absurd ?_ notTrap⟩
      rw [stopsig_signal, signal_eq_sigtrap] at trap
      rw [trap, WStatus.plainTrap]
  | syscallStop =>
      obtain rfl : (5 ||| 0x80 : BitVec 8) = stopsig := Option.some.inj status
      exact ⟨fun _ => rfl, fun _ => rfl⟩
  | exited code => cases status
  | signaled signal => cases status
  | other => cases status

/-- RIP is read and the breakpoint test made, where the stop does not end a single step. -/
theorem wp_handleStop {post : Post MyException (State κ) AfterStop}
    (trapped : step = true ∧ ((stopsig &&& 0x7F).setWidth 64 : Word) = sigtrap →
      post.ok (.returns true) (state.withGlobals { state.globals with gSignum := 0 }))
    (unread : (host.ptrace .getregs state.kernel).1 = none → ∀ asked, asked =
      (state.withGlobals { state.globals with
        gSignum := (stopsig &&& 0x7F).setWidth 64 }).afterPtrace host .getregs →
      post.throw .ptraceException asked)
    (read : ¬ (step = true ∧ ((stopsig &&& 0x7F).setWidth 64 : Word) = sigtrap) →
      ∀ reply, (host.ptrace .getregs state.kernel).1 = some reply → ∀ asked, asked =
        (state.withGlobals { state.globals with
          gSignum := (stopsig &&& 0x7F).setWidth 64 }).afterPtrace host .getregs →
        wp (Program.forSome (getBreakpoint state.globals.gBreakpoints (reply.regs .rip - 1))
            (hitBreakpoint host · (reply.regs .rip - 1)))
          { ok := fun _ after => wp (finishStop host stopsig
              (getBreakpoint state.globals.gBreakpoints (reply.regs .rip - 1)).isSome) post after
            throw := post.throw
            fault := post.fault
            noReturn := post.noReturn } asked) :
    wp (handleStop host step stopsig) post state := by
  simp only [handleStop, wp_bind, wp_modifyGlobals, wp_getGlobals, wp_ite, Bool.and_eq_true,
    beq_iff_eq, wp_pure]
  refine ⟨trapped, fun notStep => ?_⟩
  rw [wp_getRegister]
  exact ⟨fun reply answered => read notStep reply answered _ rfl, fun refused =>
    unread refused _ rfl⟩

/-- Where it was read, RIP and the table are as the stop found them. -/
theorem asked_alone (alone : LeftAlone tracee kernel before state) (value : Word) :
    LeftAlone tracee kernel before
      ((state.withGlobals { state.globals with gSignum := value }).afterPtrace host .getregs) :=
  leftAlone_passive.read _
    (leftAlone_passive.assigned state { state.globals with gSignum := value } rfl alone)

/-- A stop that is not taken for a hit is left alone. -/
theorem handleStop_spares (status : wstatus.wstopsig = some stopsig)
    (notTrap : wstatus ≠ .plainTrap)
    (missed : ¬ TakenForHit tracee.toRegisters step wstatus kernel before.globals.gBreakpoints) :
    wp (handleStop host step stopsig) (SparesStop tracee kernel before)
      (before.stoppedBy wstatus kernel) := by
  have alone : LeftAlone tracee kernel before (before.stoppedBy wstatus kernel) :=
    leftAlone_stopped wstatus
  refine wp_handleStop (fun _ => ?_) (fun _ asked same => ?_)
    fun notStep reply answered asked same => ?_
  · exact leftAlone_passive.assigned _
      { (before.stoppedBy wstatus kernel).globals with gSignum := 0 } rfl alone
  · rw [same]
    exact asked_alone alone _
  · subst same
    have asked := asked_alone alone ((stopsig &&& 0x7F).setWidth 64)
    have regs : reply.regs = tracee.regs kernel := tracee.getregs _ reply answered
    rw [regs]
    change wp (Program.forSome (getBreakpoint before.globals.gBreakpoints
      (tracee.regs kernel .rip - 1)) _) _ _
    cases first : getBreakpoint before.globals.gBreakpoints (tracee.regs kernel .rip - 1) with
    | none =>
        rw [wp_forSome_none]
        change wp (finishStop host stopsig (getBreakpoint before.globals.gBreakpoints
          (tracee.regs kernel .rip - 1)).isSome) _ _
        rw [first]
        exact sparesStop_finishStop _ asked
    | some index =>
        obtain ⟨bp, found, hits, _⟩ := getBreakpoint_eq_some.mp first
        obtain ⟨here, _⟩ := MyBp.hits_iff.mp hits
        rw [wp_forSome_some, ← here]
        rw [← here] at first
        have hides : ¬ HitShows tracee.toRegisters bp (host.ptrace .getregs kernel).2 := by
          intro shows
          refine missed ⟨fun both => notStep ⟨both.1, (isSyscallStop status notTrap).mp both.2⟩,
            Option.isSome_of_mem answered, index, bp, ?_, found, shows⟩
          rw [← here]
          exact first
        exact wp_mono (hitBreakpoint_spares asked first found hides)
          ⟨fun _ _ impossible => impossible.elim, fun _ _ kept => kept,
            fun _ impossible => impossible, fun _ impossible => impossible⟩

/-- A stop that is taken for one is not. -/
theorem handleStop_disturbs (status : wstatus.wstopsig = some stopsig)
    (notTrap : wstatus ≠ .plainTrap)
    (taken : TakenForHit tracee.toRegisters step wstatus kernel before.globals.gBreakpoints) :
    wp (handleStop host step stopsig) (DisturbsStop tracee kernel before)
      (before.stoppedBy wstatus kernel) := by
  obtain ⟨notStep, answers, index, bp, first, found, shows⟩ := taken
  refine wp_handleStop (fun stepped => ?_) (fun refused _ _ => ?_)
    fun _ reply answered asked same => ?_
  · exact absurd ⟨stepped.1, (isSyscallStop status notTrap).mpr stepped.2⟩ notStep
  · change (host.ptrace .getregs kernel).1 = none at refused
    rw [refused] at answers
    cases answers
  · subst same
    have regs : reply.regs = tracee.regs kernel := tracee.getregs _ reply answered
    obtain ⟨other, there, hits, _⟩ := getBreakpoint_eq_some.mp first
    obtain rfl := Option.some.inj (found.symm.trans there)
    obtain ⟨here, _⟩ := MyBp.hits_iff.mp hits
    rw [regs]
    change wp (Program.forSome (getBreakpoint before.globals.gBreakpoints
      (tracee.regs kernel .rip - 1)) _) _ _
    rw [first, wp_forSome_some, ← here]
    rw [← here] at first
    have since : ∃ new, (((before.stoppedBy wstatus kernel).withGlobals
        { (before.stoppedBy wstatus kernel).globals with
          gSignum := (stopsig &&& 0x7F).setWidth 64 }).afterPtrace host .getregs).trace =
        new ++ before.trace := ⟨[_, _], rfl⟩
    have rip : tracee.regs (host.ptrace .getregs kernel).2 .rip = tracee.regs kernel .rip := by
      rw [tracee.regs_ptrace .getregs _ rfl (by simp)]
    refine wp_mono (hitBreakpoint_disturbs before first found rfl since rip shows)
      ⟨fun _ after done => ?_, fun _ after done => ?_, fun _ _ => trivial, fun _ _ => trivial⟩
    rotate_left
    · rcases done with marked | moved
      · exact marked.disturbed
      · exact fun alone => moved alone.rip
    rcases done with marked | rewound
    · exact wp_mono ((marked_passive.finishStop stopsig _).wp marked)
        ⟨fun _ _ kept => kept.disturbed, fun _ _ kept => kept.disturbed, fun _ _ => trivial,
          fun _ _ => trivial⟩
    · have moved (last : State κ) (there : tracee.regs last.kernel .rip = bp.addr) :
          ¬ LeftAlone tracee kernel before last := by
        intro alone
        have stays : tracee.regs kernel .rip - 1 = tracee.regs kernel .rip :=
          here.symm.trans (there.symm.trans alone.rip)
        exact absurd stays (by bv_omega)
      exact wp_mono (((ripIs_passive bp.addr).finishStop stopsig _).wp rewound)
        ⟨fun _ last there => moved last there, fun _ last there => moved last there,
          fun _ _ => trivial, fun _ _ => trivial⟩

/-! ### `wait_program` -/

/-- Whatever `continue_execution` does, `wait_program` has handled its stop at `middle`:
it returns or raises there, or goes on from there with `continue_execution`. -/
inductive HandledAt (host : Host κ) (step : Bool) (before middle : State κ) : Prop where
  | returns (ret : Bool) : (∀ continues, waitProgram host continues step before = .ok ret middle) →
      HandledAt host step before middle
  | raises (raised : MyException) :
      (∀ continues, waitProgram host continues step before = .throw raised middle) →
      HandledAt host step before middle
  | goesOn : (∀ continues, waitProgram host continues step before =
        (continues >>= fun _ => pure false) middle) →
      HandledAt host step before middle

/-- `wait_program` leaves the stop it finds alone. -/
def LeavesAlone (tracee : Tracee host) (step : Bool) (kernel : κ) (before : State κ) : Prop :=
  ∃ middle, HandledAt host step before middle ∧ LeftAlone tracee kernel before middle

/-- Where a stop is handled, `waitStop` ends. -/
theorem handledAt_iff {middle : State κ} :
    HandledAt host step before middle ↔
      (∃ next, waitStop host step before = .ok next middle) ∨
        ∃ raised, waitStop host step before = .throw raised middle := by
  cases outcome : waitStop host step before with
  | ok next after =>
      cases next with
      | returns result =>
          have ends (continues : Dbg κ Unit) :
              waitProgram host continues step before = .ok result after := by
            rw [waitProgram, Program.bind_ok outcome]
            rfl
          constructor
          · rintro (⟨ret, same⟩ | ⟨raised, same⟩ | same)
            · obtain ⟨_, rfl⟩ := Outcome.ok.inj ((ends (pure ())).symm.trans (same _))
              exact .inl ⟨_, rfl⟩
            · cases (ends (pure ())).symm.trans (same _)
            · cases (ends Program.fault).symm.trans (same _)
          · rintro (⟨_, same⟩ | ⟨_, same⟩)
            · obtain ⟨_, rfl⟩ := Outcome.ok.inj same
              exact .returns result ends
            · cases same
      | continues =>
          have ends (continues : Dbg κ Unit) : waitProgram host continues step before =
              (continues >>= fun _ => pure false) after := by
            rw [waitProgram, Program.bind_ok outcome]
          constructor
          · rintro (⟨ret, same⟩ | ⟨raised, same⟩ | same)
            · cases (ends Program.fault).symm.trans (same _)
            · cases (ends Program.fault).symm.trans (same _)
            · obtain ⟨_, rfl⟩ := Outcome.ok.inj ((ends (pure ())).symm.trans (same _))
              exact .inl ⟨_, rfl⟩
          · rintro (⟨_, same⟩ | ⟨_, same⟩)
            · obtain ⟨_, rfl⟩ := Outcome.ok.inj same
              exact .goesOn ends
            · cases same
  | throw raised after =>
      have ends (continues : Dbg κ Unit) :
          waitProgram host continues step before = .throw raised after := by
        rw [waitProgram, Program.bind_throw outcome]
      constructor
      · rintro (⟨ret, same⟩ | ⟨other, same⟩ | same)
        · cases (ends (pure ())).symm.trans (same _)
        · obtain ⟨_, rfl⟩ := Outcome.throw.inj ((ends (pure ())).symm.trans (same _))
          exact .inr ⟨_, rfl⟩
        · cases (ends (pure ())).symm.trans (same _)
      · rintro (⟨_, same⟩ | ⟨_, same⟩)
        · cases same
        · obtain ⟨_, rfl⟩ := Outcome.throw.inj same
          exact .raises raised ends
  | fault after =>
      have ends (continues : Dbg κ Unit) :
          waitProgram host continues step before = .fault after := by
        rw [waitProgram, Program.bind_apply, outcome]
      constructor
      · rintro (⟨ret, same⟩ | ⟨other, same⟩ | same)
        · cases (ends (pure ())).symm.trans (same _)
        · cases (ends (pure ())).symm.trans (same _)
        · cases (ends (pure ())).symm.trans (same _)
      · rintro (⟨_, same⟩ | ⟨_, same⟩)
        · cases same
        · cases same
  | noReturn after =>
      have ends (continues : Dbg κ Unit) :
          waitProgram host continues step before = .noReturn after := by
        rw [waitProgram, Program.bind_apply, outcome]
      constructor
      · rintro (⟨ret, same⟩ | ⟨other, same⟩ | same)
        · cases (ends (pure ())).symm.trans (same _)
        · cases (ends (pure ())).symm.trans (same _)
        · cases (ends (pure ())).symm.trans (same _)
      · rintro (⟨_, same⟩ | ⟨_, same⟩)
        · cases same
        · cases same

/-- `wait_program` leaves a stop other than a plain SIGTRAP alone if and only if it is not
taken for the hit of a breakpoint. -/
theorem leftAlone_iff (tracee : Tracee host)
    (stopped : host.waitpid before.kernel = .status wstatus kernel)
    (stops : wstatus.wstopsig.isSome) (notTrap : wstatus ≠ .plainTrap) :
    LeavesAlone tracee step kernel before ↔
      ¬ TakenForHit tracee.toRegisters step wstatus kernel before.globals.gBreakpoints := by
  obtain ⟨stopsig, status⟩ := Option.isSome_iff_exists.mp stops
  have handles := waitStop_stopped stopped status step
  constructor
  · rintro ⟨middle, handled, alone⟩ taken
    have disturbs := handleStop_disturbs status notTrap taken
    unfold wp at disturbs
    rw [← handles] at disturbs
    rcases handledAt_iff.mp handled with ⟨next, ends⟩ | ⟨raised, ends⟩
    · rw [ends] at disturbs
      exact disturbs alone
    · rw [ends] at disturbs
      exact disturbs alone
  · intro missed
    have spares := handleStop_spares status notTrap missed
    unfold wp at spares
    rw [← handles] at spares
    cases outcome : waitStop host step before with
    | ok next after =>
        rw [outcome] at spares
        exact ⟨after, handledAt_iff.mpr (.inl ⟨next, outcome⟩), spares⟩
    | throw raised after =>
        rw [outcome] at spares
        exact ⟨after, handledAt_iff.mpr (.inr ⟨raised, outcome⟩), spares⟩
    | fault after => rw [outcome] at spares; exact spares.elim
    | noReturn after => rw [outcome] at spares; exact spares.elim

end Handling

end Stops

/-- An armed breakpoint and SIGUSR1 at `rip`. -/
def armedUsr1 (rip : Addr) : State Scripted :=
  (Scripted.start [⟨.stopped 10, rip⟩]).withGlobals
    { Globals.init with gBreakpoints := [.placed [] 0x10 0 0x90] }

theorem leftAlone_usr1 :
    LeavesAlone scriptedTracee false
      { mem := fun _ => 0x90, regs := Function.update (fun _ => 0) .rip 0x20, stops := [] }
      (armedUsr1 0x20) := by
  refine (leftAlone_iff scriptedTracee rfl rfl (by decide)).mpr ?_
  rintro ⟨_, _, index, _, first, _⟩
  have none : getBreakpoint (armedUsr1 0x20).globals.gBreakpoints (0x20 - 1) = Option.none := by
    decide
  cases none.symm.trans first

/-- SIGUSR1 one byte behind a temporary breakpoint takes it for a hit. -/
theorem usr1_rewinds :
    ∃ last, Session scripted (Scripted.start [⟨.stopped 10, 0x11⟩])
        [⟨.tbreak 0x10, 1, .normal⟩, ⟨.continue, 1, .normal⟩] last ∧
      scriptedTracee.regs last.kernel .rip = 0x10 ∧
      last.globals.gBreakpoints.map MyBp.enabled = [false] ∧
      ∃ entry ∈ last.trace, entry.event.reportsHit = true := by
  have computed : (replay scripted (fun _ _ _ => true) (Scripted.start [⟨.stopped 10, 0x11⟩])
      [⟨.tbreak 0x10, 1, .normal⟩, ⟨.continue, 1, .normal⟩]).map (fun last =>
        (last.kernel.regs .rip, last.globals.gBreakpoints.map MyBp.enabled,
          decide (∃ entry ∈ last.trace, entry.event.reportsHit = true))) =
      some (0x10, [false], true) := by
    decide +kernel
  obtain ⟨last, replayed, values⟩ := Option.map_eq_some_iff.mp computed
  obtain ⟨rip, values⟩ := Prod.mk.inj values
  obtain ⟨enabled, reported⟩ := Prod.mk.inj values
  exact ⟨last, session_replay replayed, rip, enabled, of_decide_eq_true reported⟩

end MyDbg
