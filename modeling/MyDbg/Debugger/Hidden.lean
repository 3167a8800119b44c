import MyDbg.Debugger.Temporary

/-!
Contract: what becomes of the breakpoint that `next_instr` and `finish` place.

Owns: `Met`, that a stop or a single step found that breakpoint; `Watched` and
`Left`, what is known of it while the command runs and when it comes back; and
that the breakpoint is off, and its byte restored, exactly when it was met.

Does not own: where the two commands place it.
-/

namespace MyDbg

open LittleEndian ProgramLogic Transition

variable {κ : Type} {host : Host κ}

/-- A stop that was handled found the breakpoint at `index` one byte before RIP, or
a single step found it at RIP. -/
def Met (registers : Registers host) (index : Nat) : List (Entry κ) → Prop
  | [] => False
  | entry :: older =>
      Met registers index older ∨
        match entry.event with
        | .waited wstatus => Handled wstatus older ∧ getBreakpoint entry.globals.gBreakpoints
            (registers.regs entry.kernel .rip - 1) = some index
        | .toggle other => other = index ∧ getBreakpoint entry.globals.gBreakpoints
            (registers.regs entry.kernel .rip) = some index
        | _ => False

section Hidden

variable (tracee : Tracee host) (base : State κ) (addr : Addr)

/-- The breakpoint that is hidden at `addr`. -/
def hiddenBp : MyBp :=
  .placed base.globals.gBreakpoints addr (myBpTemp ||| myBpInternal)
    (peek (tracee.mem base.kernel) addr)

/-- The place of the hidden breakpoint: the first one that was free. -/
def hiddenPlace : Nat := base.globals.gBreakpoints.length

structure StillArmed (new : List (Entry κ)) (state : State κ) : Prop where
  found : HasBreakpoint (hiddenPlace base) (hiddenBp tracee base addr) state
  unmet : ¬ Met tracee.toRegisters (hiddenPlace base) new

/-- The hidden breakpoint is off, and no other one is armed in its place. -/
structure Cleared (new : List (Entry κ)) (state : State κ) : Prop where
  found : HasBreakpoint (hiddenPlace base) (hiddenBp tracee base addr).toggled state
  met : Met tracee.toRegisters (hiddenPlace base) new
  unarmed : getBreakpoint state.globals.gBreakpoints addr = none
  restored : tracee.mem state.kernel addr = tracee.mem base.kernel addr

/-- While the command that began at `base` runs. -/
structure Watched (state : State κ) : Prop where
  last : state.globals.gBreakpoints.length = hiddenPlace base + 1
  since : ∃ new, state.trace = new ++ base.trace ∧
    (StillArmed tracee base addr new state ∨ Cleared tracee base addr new state)

/-- The hidden breakpoint is off; the byte is what it was, or that of another
breakpoint. -/
structure Gone (new : List (Entry κ)) (state : State κ) : Prop where
  found : HasBreakpoint (hiddenPlace base) (hiddenBp tracee base addr).toggled state
  met : Met tracee.toRegisters (hiddenPlace base) new
  gone : tracee.mem state.kernel addr = tracee.mem base.kernel addr ∨
    isBreakpoint state.globals.gBreakpoints addr = true

/-- When the command that began at `base` comes back. -/
def Left (state : State κ) : Prop :=
  ∃ new, state.trace = new ++ base.trace ∧
    (StillArmed tracee base addr new state ∨ Gone tracee base addr new state)

variable {tracee base addr} {state after : State κ} {index : Nat} {place : Addr}
  {new extra : List (Entry κ)}

@[simp] theorem hiddenBp_addr : (hiddenBp tracee base addr).addr = addr := rfl

@[simp] theorem hiddenBp_enabled : (hiddenBp tracee base addr).enabled = true := rfl

@[simp] theorem hiddenBp_isTemp : (hiddenBp tracee base addr).isTemp = true := by
  show (myBpTemp ||| myBpInternal) &&& myBpTemp != 0
  decide

@[simp] theorem hiddenBp_isInternal : (hiddenBp tracee base addr).isInternal = true := by
  show (myBpTemp ||| myBpInternal) &&& myBpInternal != 0
  decide

theorem hiddenBp_hits : (hiddenBp tracee base addr).hits addr = true := by
  have isCode : (hiddenBp tracee base addr).isSyscall = false := by
    change ((myBpTemp ||| myBpInternal) &&& myBpSyscall != 0) = false
    decide
  exact MyBp.hits_iff.mpr ⟨rfl, rfl, rfl, isCode⟩

theorem hiddenBp_toggledByte :
    (hiddenBp tracee base addr).toggledByte = tracee.mem base.kernel addr :=
  lowByte_peek _ _

theorem Watched.left (watched : Watched tracee base addr state) :
    Left tracee base addr state := by
  obtain ⟨new, split, armed | cleared⟩ := watched.since
  · exact ⟨new, split, Or.inl armed⟩
  · exact ⟨new, split, Or.inr ⟨cleared.found, cleared.met, Or.inl cleared.restored⟩⟩

/-- What happens does not meet the hidden breakpoint and arms none at its address. -/
theorem Watched.moves (watched : Watched tracee base addr state)
    (trace : after.trace = extra ++ state.trace)
    (unmet : ∀ new, state.trace = new ++ base.trace →
      (Met tracee.toRegisters (hiddenPlace base) (extra ++ new) ↔
        Met tracee.toRegisters (hiddenPlace base) new))
    (length : after.globals.gBreakpoints.length = state.globals.gBreakpoints.length)
    (kept : after.globals.gBreakpoints[hiddenPlace base]? =
      state.globals.gBreakpoints[hiddenPlace base]?)
    (cleared : getBreakpoint state.globals.gBreakpoints addr = none →
      getBreakpoint after.globals.gBreakpoints addr = none ∧
        tracee.mem after.kernel addr = tracee.mem state.kernel addr) :
    Watched tracee base addr after := by
  refine ⟨length.trans watched.last, ?_⟩
  obtain ⟨new, split, was⟩ := watched.since
  refine ⟨extra ++ new, by rw [trace, split, List.append_assoc], ?_⟩
  rcases was with armed | off
  · left
    exact ⟨kept.trans armed.found, fun met => armed.unmet ((unmet new split).mp met)⟩
  · right
    obtain ⟨unarmed, same⟩ := cleared off.unarmed
    exact ⟨kept.trans off.found, (unmet new split).mpr off.met, unarmed, same.trans off.restored⟩

theorem Watched.prints (watched : Watched tracee base addr state) (message : Message) :
    Watched tracee base addr (state.record (.output message)) := by
  have happens : (state.record (.output message)).trace =
      [⟨.output message, state.globals, state.kernel⟩] ++ state.trace := rfl
  apply watched.moves happens
  · intro new _
    simp [Met]
  · rfl
  · rfl
  · intro unarmed
    exact ⟨unarmed, rfl⟩

theorem watched_placid : Placid host (Watched tracee base addr) where
  request state request reads watched := by
    have happens : (state.afterPtrace host request).trace =
        [⟨.ptrace request (host.ptrace request state.kernel).1.isSome, state.globals,
          state.kernel⟩] ++ state.trace := rfl
    apply watched.moves happens
    · intro new _
      simp [Met]
    · rfl
    · rfl
    · intro unarmed
      refine ⟨unarmed, ?_⟩
      rw [State.afterPtrace_kernel, tracee.mem_ptrace _ _ reads]
  printed _ message _ watched := watched.prints message
  globals state globals same watched := by
    have happens : (state.withGlobals globals).trace = [] ++ state.trace := rfl
    apply watched.moves happens
    · intro new _
      exact Iff.rfl
    · rw [State.withGlobals_globals, same]
    · rw [State.withGlobals_globals, same]
    · intro unarmed
      rw [State.withGlobals_globals, same]
      exact ⟨unarmed, rfl⟩

/-! ## Toggling -/

/-- The toggle of another breakpoint does not meet the hidden one. -/
theorem Written.unmet {middle : State κ} {byte : Byte}
    (written : Written tracee place byte (state.record (.toggle index)) middle)
    (apart : index ≠ hiddenPlace base) :
    ∃ extra, middle.trace = extra ++ state.trace ∧ ∀ new,
      Met tracee.toRegisters (hiddenPlace base) (extra ++ new) ↔
        Met tracee.toRegisters (hiddenPlace base) new := by
  obtain ⟨word, kernel, _, trace⟩ := written.trace
  have happens : middle.trace = [_, _, _] ++ state.trace := trace
  refine ⟨_, happens, ?_⟩
  intro new
  simp [Met, apart]

/-- Another breakpoint is switched, which is not at the address if nothing else is armed there. -/
theorem Watched.switched {other : MyBp} {middle : State κ}
    (watched : Watched tracee base addr state)
    (found : state.globals.gBreakpoints[index]? = some other) (apart : index ≠ hiddenPlace base)
    (written : Written tracee other.addr other.toggledByte (state.record (.toggle index)) middle)
    (elsewhere : getBreakpoint state.globals.gBreakpoints addr = none → other.addr ≠ addr) :
    Watched tracee base addr (middle.withGlobals { state.globals with
      gBreakpoints := state.globals.gBreakpoints.set index other.toggled }) := by
  obtain ⟨extra, happens, unmet⟩ := written.unmet apart
  refine watched.moves happens (fun new _ => unmet new) ?_ ?_ ?_
  · exact List.length_set
  · exact List.getElem?_set_ne apart
  · intro unarmed
    have other := elsewhere unarmed
    constructor
    · rw [State.withGlobals_globals, getBreakpoint_set found (MyBp.toggled_hits other)]
      exact unarmed
    · rw [State.withGlobals_kernel, written.mem, Function.update_of_ne (Ne.symm other)]
      rfl

/-- Another breakpoint that was found is toggled off. -/
theorem watched_toggleOther {other : MyBp} (watched : Watched tracee base addr state)
    (found : state.globals.gBreakpoints[index]? = some other) (hits : other.hits place = true)
    (apart : index ≠ hiddenPlace base) :
    wp (toggleBreakpoint host index)
      (.onReturn fun _ after => Watched tracee base addr after ∧
        HasBreakpoint index other.toggled after ∧
          after.globals.gBreakpoints[hiddenPlace base]? =
            state.globals.gBreakpoints[hiddenPlace base]?) state := by
  obtain ⟨there, enabled, live, isCode⟩ := MyBp.hits_iff.mp hits
  have inside := (List.getElem?_eq_some_iff.mp found).1
  refine wp_toggleBreakpoint_on tracee found (.inl enabled) (fun _ _ _ => trivial)
    fun _ middle written => ?_
  refine ⟨watched.switched found apart written ?_, List.getElem?_set_self inside,
    List.getElem?_set_ne apart⟩
  rintro unarmed rfl
  have misses := getBreakpoint_eq_none.mp unarmed other (List.mem_of_getElem? found)
  rw [MyBp.hits_iff.mpr ⟨rfl, enabled, live, isCode⟩] at misses
  cases misses

/-- The hidden breakpoint is toggled off where it was met. -/
theorem watched_toggleHidden (last : state.globals.gBreakpoints.length = hiddenPlace base + 1)
    (split : state.trace = new ++ base.trace)
    (first : getBreakpoint state.globals.gBreakpoints addr = some (hiddenPlace base))
    (found : HasBreakpoint (hiddenPlace base) (hiddenBp tracee base addr) state)
    (met : Met tracee.toRegisters (hiddenPlace base)
      (⟨.toggle (hiddenPlace base), state.globals, state.kernel⟩ :: new)) :
    wp (toggleBreakpoint host (hiddenPlace base))
      (.onReturn fun _ after => Watched tracee base addr after ∧
        HasBreakpoint (hiddenPlace base) (hiddenBp tracee base addr).toggled after) state := by
  have inside := (List.getElem?_eq_some_iff.mp found).1
  refine wp_toggleBreakpoint_on tracee found (.inl rfl) (fun _ _ _ => trivial)
    fun _ middle written => ?_
  obtain ⟨word, kernel, _, trace⟩ := written.trace
  have off : (state.globals.gBreakpoints.set (hiddenPlace base)
      (hiddenBp tracee base addr).toggled)[hiddenPlace base]? =
        some (hiddenBp tracee base addr).toggled := List.getElem?_set_self inside
  refine ⟨⟨by simpa using last, ?_⟩, off⟩
  refine ⟨_ :: _ :: _ :: new,
    by rw [State.withGlobals_trace, trace, State.record_trace, split]; rfl,
    Or.inr ⟨off, Or.inl (Or.inl met), ?_, ?_⟩⟩
  · rw [getBreakpoint_eq_none]
    intro bp member
    obtain ⟨position, there⟩ := List.mem_iff_getElem?.mp member
    rcases Nat.lt_trichotomy position (hiddenPlace base) with before | rfl | behind
    · rw [State.withGlobals_globals, List.getElem?_set_ne (by omega)] at there
      obtain ⟨_, _, _, earlier⟩ := getBreakpoint_eq_some.mp first
      exact earlier position before bp there
    · obtain rfl := Option.some.inj (off.symm.trans there)
      exact MyBp.toggled_hits_off rfl addr
    · have bound := (List.getElem?_eq_some_iff.mp there).1
      rw [State.withGlobals_globals, List.length_set, last] at bound
      omega
  · rw [State.withGlobals_kernel, written.mem, hiddenBp_addr, Function.update_self,
      hiddenBp_toggledByte]

/-! ## Stops -/

/-- The hidden breakpoint was met and is about to be toggled. -/
structure Found (tracee : Tracee host) (base : State κ) (addr : Addr) (state : State κ) :
    Prop where
  last : state.globals.gBreakpoints.length = hiddenPlace base + 1
  found : HasBreakpoint (hiddenPlace base) (hiddenBp tracee base addr) state
  since : ∃ new, state.trace = new ++ base.trace ∧ Met tracee.toRegisters (hiddenPlace base) new

theorem watched_hitBreakpoint
    (first : getBreakpoint state.globals.gBreakpoints place = some index)
    (other : index ≠ hiddenPlace base → Watched tracee base addr state)
    (own : index = hiddenPlace base → Found tracee base addr state) :
    wp (hitBreakpoint host index place) (.onReturn fun _ => Watched tracee base addr) state := by
  obtain ⟨bp, found, hits, _⟩ := getBreakpoint_eq_some.mp first
  have placid : Placid host (Watched tracee base addr) := watched_placid
  have report : Preserves (Watched tracee base addr)
      (printf (.breakpointHit bp.id place) : Dbg κ Unit) :=
    Preserves.of_wp fun _ watched => watched.prints _
  have rest : Preserves (Watched tracee base addr) (do
      Program.when (!bp.isInternal) (printf (.breakpointHit bp.id place))
      setRegister host .rip place
      modifyGlobals fun globals =>
        if globals.gSignum = sigtrap then { globals with gSignum := 0 } else globals) :=
    Preserves.bind (.when _ report) fun _ => placid.rewind place
  unfold hitBreakpoint
  rw [wp_bind_ok (breakpointAt_apply found), wp_bind, wp_when]
  by_cases same : index = hiddenPlace base
  · subst same
    obtain ⟨last, here, new, split, met⟩ := own rfl
    obtain rfl := Option.some.inj (found.symm.trans here)
    obtain rfl : addr = place := (MyBp.hits_iff.mp hits).1
    constructor
    · intro _
      exact wp_onReturn (watched_toggleHidden last split first here (Or.inl met))
        fun _ _ kept => Keeps.of_returns rest _ kept.1
    · intro persistent
      rw [hiddenBp_isTemp] at persistent
      cases persistent
  · constructor
    · intro _
      exact wp_onReturn (watched_toggleOther (other same) found hits same)
        fun _ _ kept => Keeps.of_returns rest _ kept.1
    · intro _
      exact Keeps.of_returns rest _ (other same)

section Handled

variable {looked : State κ} {wstatus : WStatus} {kernel : κ} {entry : Entry κ}

/-- A stop somewhere else. -/
theorem Watched.unhit (code : addr ∈ tracee.code) (watched : Watched tracee base addr state)
    (stops : host.waitpid state.kernel = .status wstatus kernel)
    (trace : looked.trace = entry :: ⟨.waited wstatus, state.globals, kernel⟩ :: state.trace)
    (quiet : ∀ past, Met tracee.toRegisters (hiddenPlace base) (entry :: past) ↔
      Met tracee.toRegisters (hiddenPlace base) past)
    (same : looked.globals.gBreakpoints = state.globals.gBreakpoints)
    (bytes : tracee.mem looked.kernel = tracee.mem kernel)
    (misses : getBreakpoint state.globals.gBreakpoints (tracee.regs kernel .rip - 1) ≠
      some (hiddenPlace base)) :
    Watched tracee base addr looked := by
  have happens : looked.trace =
      [entry, ⟨.waited wstatus, state.globals, kernel⟩] ++ state.trace := trace
  apply watched.moves happens
  · intro new _
    change Met tracee.toRegisters (hiddenPlace base) (entry :: _) ↔ _
    rw [quiet]
    constructor
    · rintro (met | ⟨_, first⟩)
      · exact met
      · exact absurd first misses
    · exact Or.inl
  · rw [same]
  · rw [same]
  · intro unarmed
    rw [same, bytes]
    exact ⟨unarmed, tracee.status _ _ _ stops addr code⟩

/-- A stop at the hidden breakpoint, which is armed as it was found. -/
theorem Watched.meets (watched : Watched tracee base addr state)
    (trace : looked.trace = entry :: ⟨.waited wstatus, state.globals, kernel⟩ :: state.trace)
    (quiet : ∀ past, Met tracee.toRegisters (hiddenPlace base) (entry :: past) ↔
      Met tracee.toRegisters (hiddenPlace base) past)
    (same : looked.globals.gBreakpoints = state.globals.gBreakpoints)
    (handled : ∀ new, state.trace = new ++ base.trace → Handled wstatus new)
    (first : getBreakpoint state.globals.gBreakpoints (tracee.regs kernel .rip - 1) =
      some (hiddenPlace base)) :
    Found tracee base addr looked := by
  obtain ⟨new, split, was⟩ := watched.since
  obtain ⟨bp, found, hits, _⟩ := getBreakpoint_eq_some.mp first
  have met : Met tracee.toRegisters (hiddenPlace base)
      (entry :: ⟨.waited wstatus, state.globals, kernel⟩ :: new) := by
    rw [quiet]
    exact Or.inr ⟨handled new split, first⟩
  refine ⟨by rw [same]; exact watched.last, ?_, _, by rw [trace, split]; rfl, met⟩
  rcases was with armed | cleared
  · unfold HasBreakpoint
    rw [same]
    exact armed.found
  · obtain rfl := Option.some.inj (found.symm.trans cleared.found)
    rw [MyBp.toggled_hits_off rfl] at hits
    cases hits

end Handled

/-- The tracee stopped at `kernel`, where it had `wstatus`, and its RIP was read. -/
theorem watched_handled (looked : State κ) {wstatus : WStatus} {kernel : κ} {entry : Entry κ}
    (stopsig : BitVec 8) (code : addr ∈ tracee.code) (watched : Watched tracee base addr state)
    (stops : host.waitpid state.kernel = .status wstatus kernel)
    (trace : looked.trace = entry :: ⟨.waited wstatus, state.globals, kernel⟩ :: state.trace)
    (quiet : ∀ past, Met tracee.toRegisters (hiddenPlace base) (entry :: past) ↔
      Met tracee.toRegisters (hiddenPlace base) past)
    (same : looked.globals.gBreakpoints = state.globals.gBreakpoints)
    (bytes : tracee.mem looked.kernel = tracee.mem kernel)
    (handled : ∀ new, state.trace = new ++ base.trace → Handled wstatus new)
    (behind : tracee.regs kernel .rip - 1 = place) :
    wp (do
        Program.forSome (getBreakpoint looked.globals.gBreakpoints place)
          (hitBreakpoint host · place)
        finishStop host stopsig (getBreakpoint looked.globals.gBreakpoints place).isSome)
      (.onReturn fun _ => Watched tracee base addr) looked := by
  have placid : Placid host (Watched tracee base addr) := watched_placid
  subst behind
  rw [wp_bind]
  cases first : getBreakpoint looked.globals.gBreakpoints (tracee.regs kernel .rip - 1) with
  | none =>
      have unhit : Watched tracee base addr looked := by
        apply watched.unhit code stops trace quiet same bytes
        rw [← same, first]
        exact (Option.some_ne_none _).symm
      exact Keeps.of_returns (placid.finishStop stopsig _) _ unhit
  | some index =>
      refine wp_onReturn (watched_hitBreakpoint first ?_ ?_)
        fun _ _ kept => Keeps.of_returns (placid.finishStop stopsig _) _ kept
      · intro apart
        apply watched.unhit code stops trace quiet same bytes
        rw [← same, first]
        exact fun equal => apart (Option.some.inj equal)
      · rintro rfl
        rw [same] at first
        exact watched.meets trace quiet same handled first

/-- A stop for which `wait_program` looks for no breakpoint. -/
theorem Watched.ignored (code : addr ∈ tracee.code) (watched : Watched tracee base addr state)
    {wstatus : WStatus} {kernel : κ} (stops : host.waitpid state.kernel = .status wstatus kernel)
    (ignored : ∀ new, state.trace = new ++ base.trace → ¬ Handled wstatus new) :
    Watched tracee base addr (state.stoppedBy wstatus kernel) := by
  have happens : (state.stoppedBy wstatus kernel).trace =
      [⟨.waited wstatus, state.globals, kernel⟩] ++ state.trace := rfl
  apply watched.moves happens
  · intro new split
    simp [Met, ignored new split]
  · rfl
  · rfl
  · intro unarmed
    exact ⟨unarmed, tracee.status _ _ _ stops addr code⟩

theorem watched_waitStop (step : Bool) (code : addr ∈ tracee.code)
    (watched : Watched tracee base addr state)
    (resumed : ∀ new, state.trace = new ++ base.trace → (SteppedLast new ↔ step = true)) :
    wp (waitStop host step) (.onReturn fun _ => Watched tracee base addr) state := by
  have placid : Placid host (Watched tracee base addr) := watched_placid
  apply wp_waitStop
  · intro _
    trivial
  · intro _ _
    trivial
  · intro wstatus kernel stopsig stops status
    unfold handleStop
    simp only [wp_modifyGlobals, wp_getGlobals, wp_bind, wp_ite]
    constructor
    · intro trapped
      have ignored (new : List (Entry κ)) (split : state.trace = new ++ base.trace) :
          ¬ Handled wstatus new :=
        unhandled_of_trapped status (resumed new split).mpr trapped
      exact placid.globals _ _ rfl (placid.globals _ _ rfl (watched.ignored code stops ignored))
    · intro notTrap
      have handled (new : List (Entry κ)) (split : state.trace = new ++ base.trace) :
          Handled wstatus new :=
        handled_of_untrapped status (resumed new split).mp notTrap
      rw [wp_getRegister]
      refine ⟨?_, fun _ => trivial⟩
      intro reply answered
      have behind : tracee.regs kernel .rip - 1 = reply.regs .rip - 1 := by
        rw [tracee.getregs kernel reply answered]
      have finished := watched_handled
        (((state.stoppedBy wstatus kernel).withGlobals { state.globals with
          gSignum := (stopsig &&& 0x7F).setWidth 64 }).afterPtrace host .getregs)
        stopsig code watched stops rfl (fun past => by simp [Met]) rfl
        (tracee.mem_ptrace _ _ (by simp)) handled behind
      rw [wp_bind] at finished
      exact finished
  · intro wstatus kernel stops status
    have ignored (new : List (Entry κ)) (_ : state.trace = new ++ base.trace) :
        ¬ Handled wstatus new := by
      intro handled
      have none := handled.1
      rw [status] at none
      cases none
    exact Keeps.of_returns (placid.handleEnd wstatus) _ (watched.ignored code stops ignored)

/-- The end of a stop never returns true. -/
theorem finishStop_false (stopsig : BitVec 8) (isBp : Bool) :
    wp (finishStop host stopsig isBp) (.onReturn fun next _ => next ≠ .returns true) state := by
  have reports (state : State κ) : wp (reportSignal : Dbg κ AfterStop)
      (.onReturn fun next _ => next ≠ .returns true) state := by
    unfold reportSignal
    simp only [wp_bind, wp_getGlobals]
    exact wp_any (fun _ _ => by simp) (fun _ _ => trivial) (fun _ => trivial) fun _ => trivial
  unfold finishStop
  rw [wp_ite]
  constructor
  · intro _
    rw [wp_bind]
    refine wp_any (fun next after => ?_) (fun _ _ => trivial) (fun _ => trivial) fun _ => trivial
    cases next with
    | returns result => exact reports after
    | continues => simp
  · intro _
    exact reports state

/-- A single step that ended with its trap changed no breakpoint. -/
theorem waitStop_true (step : Bool) :
    wp (waitStop host step) (.onReturn fun next after => next = .returns true →
      after.globals.gBreakpoints = state.globals.gBreakpoints) state := by
  apply wp_waitStop
  · intro _
    trivial
  · intro _ _
    trivial
  · intro wstatus kernel stopsig _ _
    unfold handleStop
    simp only [wp_modifyGlobals, wp_getGlobals, wp_bind, wp_ite]
    constructor
    · intro _ _
      rfl
    · intro _
      rw [wp_getRegister]
      refine ⟨fun reply _ => ?_, fun _ => trivial⟩
      refine wp_any (fun _ after => ?_) (fun _ _ => trivial) (fun _ => trivial) fun _ => trivial
      exact wp_onReturn (finishStop_false stopsig _) fun _ _ other returned => absurd returned other
  · intro wstatus kernel _ _
    unfold handleEnd
    simp only [wp_bind, wp_printf, wp_modifyGlobals, wp_pure]
    intro returned
    cases returned

/-! ## Resumptions -/

/-- The tracee is resumed, and its next stop is handled. -/
theorem watched_resumed {request : Request} {step : Bool} (code : addr ∈ tracee.code)
    (watched : Watched tracee base addr state)
    (reads : ∀ place data, request ≠ .pokedata place data)
    (kind : ∀ past, SteppedLast (⟨.ptrace request (host.ptrace request state.kernel).1.isSome,
      state.globals, state.kernel⟩ :: past) ↔ step = true) :
    wp (waitStop host step)
      (.onReturn fun next after => Watched tracee base addr after ∧ (next = .returns true →
        after.globals.gBreakpoints = state.globals.gBreakpoints))
      ((state.afterPtrace host request).withGlobals { state.globals with gSignum := 0 }) := by
  have placid : Placid host (Watched tracee base addr) := watched_placid
  obtain ⟨old, since, _⟩ := watched.since
  have resumed : Watched tracee base addr
      ((state.afterPtrace host request).withGlobals { state.globals with gSignum := 0 }) :=
    placid.globals _ _ rfl (placid.request _ _ reads watched)
  refine wp_onReturn (wp_and (watched_waitStop step code resumed ?_) (waitStop_true step))
    fun _ _ kept => kept
  intro new split
  rw [State.withGlobals_trace, State.afterPtrace_trace, since, ← List.cons_append] at split
  obtain rfl := List.append_cancel_right split
  exact kind old

theorem watched_stepOnce (code : addr ∈ tracee.code) (watched : Watched tracee base addr state) :
    wp (stepOnce host (pure ()))
      (.onReturn fun ret after => Watched tracee base addr after ∧ (ret = true →
        after.globals.gBreakpoints = state.globals.gBreakpoints)) state := by
  unfold stepOnce waitProgram
  simp only [wp_bind, wp_getGlobals, wp_myPtrace, wp_modifyGlobals]
  refine ⟨fun _ _ => ?_, fun _ => trivial⟩
  refine wp_onReturn (watched_resumed code watched (by simp)
    fun _ => ⟨fun _ => rfl, fun _ => trivial⟩)
    fun next _ kept => ?_
  cases next with
  | returns result =>
      refine ⟨kept.1, ?_⟩
      rintro rfl
      exact kept.2 rfl
  | continues =>
      refine ⟨kept.1, ?_⟩
      intro returned
      cases returned

theorem Watched.isTemp {bp : MyBp} (watched : Watched tracee base addr state)
    (found : HasBreakpoint (hiddenPlace base) bp state) : bp.isTemp = true := by
  obtain ⟨_, _, armed | cleared⟩ := watched.since
  · rw [← Option.some.inj (armed.found.symm.trans found), hiddenBp_isTemp]
  · rw [← Option.some.inj (cleared.found.symm.trans found), MyBp.toggled_isTemp, hiddenBp_isTemp]

/-- A breakpoint that is off is not met when it is looked at. -/
theorem watched_recordToggle {other : MyBp} (watched : Watched tracee base addr state)
    (found : HasBreakpoint index other state) (off : other.enabled = false) :
    Watched tracee base addr (state.record (.toggle index)) := by
  have happens : (state.record (.toggle index)).trace =
      [⟨.toggle index, state.globals, state.kernel⟩] ++ state.trace := rfl
  apply watched.moves happens
  · intro new _
    constructor
    · rintro (met | ⟨rfl, first⟩)
      · exact met
      · obtain ⟨bp, there, hits, _⟩ := getBreakpoint_eq_some.mp first
        obtain rfl := Option.some.inj (found.symm.trans there)
        rw [(MyBp.hits_iff.mp hits).2.1] at off
        cases off
    · exact Or.inl
  · rfl
  · rfl
  · intro unarmed
    exact ⟨unarmed, rfl⟩

/-- The second toggle of a single step. A breakpoint that it enables where the hidden
one is armed or not at all is only enabled before the command comes back. -/
theorem watched_toggleBack {other : MyBp} {ret : Bool} (watched : Watched tracee base addr state)
    (found : HasBreakpoint index other state) (off : other.enabled = false)
    (live : other.deleted = false) (isCode : other.isSyscall = false)
    (safe : other.isTemp = false → ret = true → other.addr = addr →
      HasBreakpoint (hiddenPlace base) (hiddenBp tracee base addr) state) :
    wp (toggleBreakpoint host index)
      (.onReturn fun _ after => (ret = true → Watched tracee base addr after) ∧
        Left tracee base addr after) state := by
  by_cases temp : other.isTemp = true
  · have noted := watched_recordToggle watched found off
    unfold wp
    rw [toggleBreakpoint_off found off temp]
    exact ⟨fun _ => noted, noted.left⟩
  · have persistent : other.isTemp = false := Bool.eq_false_iff.mpr temp
    have apart : index ≠ hiddenPlace base := by
      rintro rfl
      exact temp (watched.isTemp found)
    refine wp_toggleBreakpoint_on tracee found (.inr persistent) (fun _ _ _ => trivial)
      fun _ middle written => ?_
    by_cases alone : getBreakpoint state.globals.gBreakpoints addr = none ∧ other.addr = addr
    · obtain ⟨unarmed, there⟩ := alone
      obtain ⟨new, split, armed | cleared⟩ := watched.since
      · have misses := getBreakpoint_eq_none.mp unarmed _ (List.mem_of_getElem? armed.found)
        rw [hiddenBp_hits] at misses
        cases misses
      · obtain ⟨extra, happens, unmet⟩ := written.unmet apart
        have inside := (List.getElem?_eq_some_iff.mp found).1
        have on : (state.globals.gBreakpoints.set index other.toggled)[index]? =
            some other.toggled := List.getElem?_set_self inside
        have enabled : other.toggled.enabled = true := by
          rw [MyBp.toggled_enabled, off]
          rfl
        have kept : (state.globals.gBreakpoints.set index other.toggled)[hiddenPlace base]? =
            state.globals.gBreakpoints[hiddenPlace base]? := List.getElem?_set_ne apart
        have armed :
            isBreakpoint (state.globals.gBreakpoints.set index other.toggled) addr = true :=
          isBreakpoint_iff.mpr ⟨other.toggled, List.mem_of_getElem? on,
            MyBp.hits_iff.mpr ⟨there, enabled, live, isCode⟩⟩
        refine ⟨?_, extra ++ new, ?_, Or.inr ⟨kept.trans cleared.found,
          (unmet new).mpr cleared.met, Or.inr armed⟩⟩
        · intro stepped
          have both := Option.some.inj ((safe persistent stepped there).symm.trans cleared.found)
          have clash := congrArg MyBp.enabled both
          cases clash
        · rw [State.withGlobals_trace, happens, split, List.append_assoc]
    · have switched := watched.switched found apart written fun unarmed there =>
        alone ⟨unarmed, there⟩
      exact ⟨fun _ => switched, switched.left⟩

/-- The step and the second toggle, from where the first toggle returned. -/
theorem watched_stepBack {other : MyBp} (code : addr ∈ tracee.code)
    (watched : Watched tracee base addr state) (here : HasBreakpoint index other state)
    (off : other.enabled = false) (live : other.deleted = false)
    (isCode : other.isSyscall = false)
    (safe : other.isTemp = false → other.addr = addr →
      HasBreakpoint (hiddenPlace base) (hiddenBp tracee base addr) state) :
    wp (stepOnce host (pure ()))
      (.onReturn fun ret after => wp (toggleBreakpoint host index)
        (.onReturn fun _ after => (ret = true → Watched tracee base addr after) ∧
          Left tracee base addr after) after) state := by
  refine wp_onReturn (wp_and (watched_stepOnce code watched) ((stepOnce_disabled off).wp here))
    fun ret after stepped => ?_
  obtain ⟨⟨watched, unchanged⟩, there⟩ := stepped
  apply watched_toggleBack watched there off live isCode
  intro persistent returned same
  unfold HasBreakpoint
  rw [unchanged returned]
  exact safe persistent same

/-- A single step that ends with its trap leaves the hidden breakpoint watched. -/
theorem watched_singleStep (code : addr ∈ tracee.code) (watched : Watched tracee base addr state)
    (continues : Dbg κ Unit) :
    wp (singleStep host continues)
      (.onReturn fun ret after => (ret = true → Watched tracee base addr after) ∧
        Left tracee base addr after) state := by
  have placid : Placid host (Watched tracee base addr) := watched_placid
  rw [singleStep_eq]
  unfold singleStep
  rw [wp_bind, wp_getRegister]
  refine ⟨?_, fun _ => trivial⟩
  intro reply answered
  have looked : Watched tracee base addr (state.afterPtrace host .getregs) :=
    placid.request _ _ (by simp) watched
  have rip : tracee.regs (state.afterPtrace host .getregs).kernel .rip = reply.regs .rip := by
    rw [State.afterPtrace_kernel, tracee.regs_ptrace _ _ rfl (by simp),
      tracee.getregs _ _ answered]
  simp only [wp_bind, wp_getGlobals]
  cases first : getBreakpoint (state.afterPtrace host .getregs).globals.gBreakpoints
      (reply.regs .rip) with
  | none =>
      rw [wp_forSome_none]
      exact wp_onReturn (watched_stepOnce code looked)
        fun _ _ kept => ⟨fun _ => kept.1, kept.1.left⟩
  | some index =>
      obtain ⟨bp, found, hits, _⟩ := getBreakpoint_eq_some.mp first
      obtain ⟨place, enabled, live, isCode⟩ := MyBp.hits_iff.mp hits
      have off : bp.toggled.enabled = false := by
        rw [MyBp.toggled_enabled, enabled]
        rfl
      have steps {middle : State κ} (kept : Watched tracee base addr middle)
          (here : HasBreakpoint index bp.toggled middle)
          (safe : bp.isTemp = false → bp.addr = addr →
            HasBreakpoint (hiddenPlace base) (hiddenBp tracee base addr) middle) :=
        watched_stepBack code kept here off live isCode safe
      rw [wp_forSome_some]
      by_cases own : index = hiddenPlace base
      · subst own
        obtain ⟨new, split, armed | cleared⟩ := looked.since
        · obtain rfl := Option.some.inj (found.symm.trans armed.found)
          obtain rfl : addr = reply.regs .rip := place
          refine wp_onReturn (watched_toggleHidden looked.last split first armed.found
              (Or.inr ⟨rfl, by rw [rip]; exact first⟩))
            fun _ middle kept => steps kept.1 kept.2 ?_
          intro persistent
          rw [hiddenBp_isTemp] at persistent
          cases persistent
        · obtain rfl := Option.some.inj (found.symm.trans cleared.found)
          cases enabled
      · refine wp_onReturn (watched_toggleOther looked found hits own)
          fun _ middle kept => steps kept.1 kept.2.1 ?_
        intro _ same
        obtain ⟨_, _, armed | cleared⟩ := looked.since
        · exact kept.2.2.trans armed.found
        · rw [same] at place
          rw [← place, cleared.unarmed] at first
          cases first

theorem watched_continueExecution (code : addr ∈ tracee.code) (depth : Nat)
    (watched : Watched tracee base addr state) :
    wp (continueExecution host depth) (.onReturn fun _ => Left tracee base addr) state := by
  have placid : Placid host (Watched tracee base addr) := watched_placid
  induction depth generalizing state with
  | zero => trivial
  | succ depth inductionHypothesis =>
      have resumes {state : State κ} (watched : Watched tracee base addr state) :
          wp (resumeExecution host (continueExecution host depth))
            (.onReturn fun _ => Left tracee base addr) state := by
        unfold resumeExecution waitProgram
        simp only [wp_bind, wp_getGlobals, wp_myPtrace, wp_modifyGlobals]
        refine ⟨fun _ _ => ?_, fun _ => trivial⟩
        refine wp_onReturn (watched_resumed code watched ?_ ?_) fun next after kept => ?_
        · intro place data
          split
          · simp
          · simp
        · intro past
          split
          · exact ⟨False.elim, by simp⟩
          · exact ⟨False.elim, by simp⟩
        · cases next with
          | returns result => exact kept.1.left
          | continues =>
              change wp (continueExecution host depth >>= fun _ => pure false) _ _
              rw [wp_bind]
              exact wp_onReturn (inductionHypothesis kept.1) fun _ _ left => left
      unfold continueExecution
      rw [wp_bind]
      refine wp_onReturn (Keeps.of_returns (placid.getRegister .rip) _ watched)
        fun rip looked watched => ?_
      simp only [wp_bind, wp_getGlobals, wp_ite]
      constructor
      · intro _
        refine wp_onReturn (watched_singleStep code watched _) fun ret after kept => ?_
        exact ⟨fun stepped => resumes (kept.1 stepped), fun _ => kept.2⟩
      · intro _
        exact resumes watched

theorem left_placid : Placid host (Left tracee base addr) where
  request state request reads left := by
    obtain ⟨new, split, was⟩ := left
    refine ⟨⟨.ptrace request (host.ptrace request state.kernel).1.isSome, state.globals,
      state.kernel⟩ :: new, by rw [State.afterPtrace_trace, split]; rfl, ?_⟩
    rcases was with armed | gone
    · exact Or.inl ⟨armed.found, by simpa [Met] using armed.unmet⟩
    · refine Or.inr ⟨gone.found, Or.inl gone.met, ?_⟩
      rw [State.afterPtrace_kernel, tracee.mem_ptrace _ _ reads]
      exact gone.gone
  printed state message _ left := by
    obtain ⟨new, split, was⟩ := left
    refine ⟨⟨.output message, state.globals, state.kernel⟩ :: new,
      by rw [State.record_trace, split]; rfl, ?_⟩
    rcases was with armed | gone
    · exact Or.inl ⟨armed.found, by simpa [Met] using armed.unmet⟩
    · exact Or.inr ⟨gone.found, Or.inl gone.met, gone.gone⟩
  globals state globals same left := by
    obtain ⟨new, split, was⟩ := left
    refine ⟨new, split, ?_⟩
    rcases was with armed | gone
    · refine Or.inl ⟨?_, armed.unmet⟩
      unfold HasBreakpoint
      rw [State.withGlobals_globals, same]
      exact armed.found
    · refine Or.inr ⟨?_, gone.met, ?_⟩
      · unfold HasBreakpoint
        rw [State.withGlobals_globals, same]
        exact gone.found
      · rw [State.withGlobals_globals, same]
        exact gone.gone

/-- Before the command places a breakpoint. -/
structure Untouched (tracee : Tracee host) (base state : State κ) : Prop where
  table : state.globals.gBreakpoints = base.globals.gBreakpoints
  mem : tracee.mem state.kernel = tracee.mem base.kernel
  since : ∃ new, state.trace = new ++ base.trace ∧
    ∀ index, ¬ Met tracee.toRegisters index new

theorem untouched_placid : Placid host (Untouched tracee base) where
  request state request reads untouched := by
    obtain ⟨new, split, unmet⟩ := untouched.since
    refine ⟨untouched.table, (tracee.mem_ptrace _ _ reads).trans untouched.mem,
      ⟨.ptrace request (host.ptrace request state.kernel).1.isSome, state.globals,
        state.kernel⟩ :: new, by rw [State.afterPtrace_trace, split]; rfl, ?_⟩
    intro index
    simpa [Met] using unmet index
  printed state message _ untouched := by
    obtain ⟨new, split, unmet⟩ := untouched.since
    refine ⟨untouched.table, untouched.mem, ⟨.output message, state.globals, state.kernel⟩ :: new,
      by rw [State.record_trace, split]; rfl, ?_⟩
    intro index
    simpa [Met] using unmet index
  globals state globals same untouched :=
    ⟨same.trans untouched.table, untouched.mem, untouched.since⟩

theorem watched_placeBreakpoint (untouched : Untouched tracee base state) :
    wp (placeBreakpoint host addr (myBpTemp ||| myBpInternal))
      (.onReturn fun _ => Watched tracee base addr) state := by
  have isCode : (myBpTemp ||| myBpInternal) &&& myBpSyscall = 0 := by decide
  refine wp_placeBreakpoint_code tracee isCode addr (fun _ _ _ => trivial)
    fun _ middle written same => ?_
  obtain ⟨word, kernel, _, trace⟩ := written.trace
  obtain ⟨new, split, unmet⟩ := untouched.since
  unfold wp
  rw [appendBreakpoint_apply]
  split
  · have found : (middle.globals.gBreakpoints ++ [MyBp.placed middle.globals.gBreakpoints addr
        (myBpTemp ||| myBpInternal) (peek (tracee.mem state.kernel) addr)])[hiddenPlace base]? =
          some (hiddenBp tracee base addr) := by
      rw [same, untouched.table, untouched.mem]
      exact List.getElem?_concat_length
    have happens : middle.trace = [⟨.ptrace (.pokedata addr word) true, state.globals, kernel⟩,
        ⟨.ptrace (.peekdata addr) true, state.globals, state.kernel⟩] ++ new ++ base.trace := by
      rw [trace, split]
      rfl
    refine ⟨?_, _, happens, Or.inl ⟨found, ?_⟩⟩
    · rw [State.withGlobals_globals, List.length_append, same, untouched.table]
      rfl
    · simpa [Met] using unmet (hiddenPlace base)
  · trivial

/-! ## Addresses -/

/-- Where the breakpoints are. -/
def Addresses (addrs : List Addr) (state : State κ) : Prop :=
  state.globals.gBreakpoints.map MyBp.addr = addrs

theorem addresses_lasting (addrs : List Addr) : Lasting (Addresses addrs : State κ → Prop) where
  event _ _ _ same := same
  kernel _ _ same := same
  globals state globals table same := by
    unfold Addresses
    rw [State.withGlobals_globals, table]
    exact same

theorem addresses_toggleBreakpoint (addrs : List Addr) (index : Nat) :
    Preserves (Addresses addrs) (toggleBreakpoint host index) := by
  apply Preserves.of_wp
  intro state same
  cases found : state.globals.gBreakpoints[index]? with
  | none =>
      unfold wp
      rw [toggleBreakpoint_missing found]
      exact same
  | some bp =>
      apply wp_toggleBreakpoint found
      · intro _ _
        exact same
      · intro _
        exact same
      · rintro _ word poked rfl
        refine ⟨same, ?_⟩
        change (state.globals.gBreakpoints.set index bp.toggled).map MyBp.addr = addrs
        rw [List.map_set, MyBp.toggled_addr, ← same]
        apply List.ext_getElem?
        intro position
        by_cases here : index = position
        · subst here
          rw [List.getElem?_set_self (by simpa using (List.getElem?_eq_some_iff.mp found).1),
            List.getElem?_map, found]
          rfl
        · exact List.getElem?_set_ne here

theorem addresses_waitStop (addrs : List Addr) (step : Bool) :
    Preserves (Addresses addrs) (waitStop host step) := by
  have lasting : Lasting (Addresses addrs : State κ → Prop) := addresses_lasting addrs
  have placid : Placid host (Addresses addrs) := lasting.placid
  have hit (index : Nat) (place : Addr) :
      Preserves (Addresses addrs) (hitBreakpoint host index place) := by
    refine (Calm.breakpointAt index).bind fun bp => ?_
    refine Preserves.bind (.when _ (addresses_toggleBreakpoint addrs index)) fun _ => ?_
    refine Preserves.bind (.when _ (.of_wp fun _ same => same)) fun _ => ?_
    exact placid.rewind place
  exact lasting.waitStop (fun _ _ _ same _ => (hit _ _).wp same) step

theorem addresses_singleStep (addrs : List Addr) (continues : Dbg κ Unit) :
    Preserves (Addresses addrs) (singleStep host continues) := by
  have lasting : Lasting (Addresses addrs : State κ → Prop) := addresses_lasting addrs
  have placid : Placid host (Addresses addrs) := lasting.placid
  rw [singleStep_eq]
  refine (placid.getRegister _).bind fun _ => Preserves.bind (.gets _) fun _ => ?_
  refine Preserves.bind (.forSome _ (addresses_toggleBreakpoint addrs)) fun _ => ?_
  refine Preserves.bind ?_ fun _ =>
    Preserves.bind (.forSome _ (addresses_toggleBreakpoint addrs)) fun _ => .pure _
  refine Preserves.bind (.gets _) fun _ => (lasting.myPtrace _).bind fun _ => ?_
  refine Preserves.bind (placid.modifyGlobals fun _ => rfl) fun _ => ?_
  refine (addresses_waitStop addrs true).bind fun next => ?_
  cases next with
  | returns result => exact .pure result
  | continues => exact Preserves.bind (.pure _) fun _ => .pure false

theorem addresses_continueExecution (addrs : List Addr) (depth : Nat) :
    Preserves (Addresses addrs) (continueExecution host depth) := by
  have lasting : Lasting (Addresses addrs : State κ → Prop) := addresses_lasting addrs
  have placid : Placid host (Addresses addrs) := lasting.placid
  induction depth with
  | zero => exact .noReturn
  | succ depth inductionHypothesis =>
      have resumes : Preserves (Addresses addrs)
          (resumeExecution host (continueExecution host depth)) := by
        refine Preserves.bind (.gets _) fun _ => (lasting.myPtrace _).bind fun _ => ?_
        refine Preserves.bind (placid.modifyGlobals fun _ => rfl) fun _ => ?_
        refine Preserves.bind ?_ fun _ => .pure _
        refine (addresses_waitStop addrs false).bind fun next => ?_
        cases next with
        | returns result => exact .pure result
        | continues => exact inductionHypothesis.bind fun _ => .pure false
      refine (placid.getRegister _).bind fun _ => Preserves.bind (.gets _) fun _ => ?_
      apply Preserves.ite
      · exact (addresses_singleStep addrs _).bind fun _ => Preserves.ite resumes (.pure _)
      · exact resumes

/-! ## Commands -/

/-- Where the command placed a breakpoint at an address of the code, it is left as it
should be. -/
def Hides (tracee : Tracee host) (base after : State κ) : Prop :=
  ∀ bp, after.globals.gBreakpoints[hiddenPlace base]? = some bp → bp.addr ∈ tracee.code →
    Left tracee base bp.addr after

theorem hides_placid : Placid host (Hides tracee base) where
  request state request reads hides bp found code :=
    left_placid.request state request reads (hides bp found code)
  printed state message plain hides bp found code :=
    left_placid.printed state message plain (hides bp found code)
  globals state globals same hides := by
    unfold Hides
    rw [State.withGlobals_globals, same]
    intro bp found code
    exact left_placid.globals state globals same (hides bp found code)

/-- The command runs on from its placement. -/
theorem hides_runs (depth : Nat) (untouched : Untouched tracee base state) :
    wp (placeBreakpoint host addr (myBpTemp ||| myBpInternal) >>= fun _ =>
        continueExecution host depth)
      (.onReturn fun _ => Hides tracee base) state := by
  rw [wp_bind]
  refine wp_onReturn (watched_placeBreakpoint untouched) fun _ placed watched => ?_
  have there : (placed.globals.gBreakpoints.map MyBp.addr)[hiddenPlace base]? = some addr := by
    obtain ⟨_, _, armed | cleared⟩ := watched.since
    · rw [List.getElem?_map, armed.found]
      rfl
    · rw [List.getElem?_map, cleared.found]
      rfl
  have addresses : Addresses (placed.globals.gBreakpoints.map MyBp.addr) placed := rfl
  have preserves : Preserves (Addresses (placed.globals.gBreakpoints.map MyBp.addr))
      (continueExecution host depth) := addresses_continueExecution _ depth
  have kept := preserves.wp addresses
  have place {after : State κ} {bp : MyBp}
      (same : Addresses (placed.globals.gBreakpoints.map MyBp.addr) after)
      (found : after.globals.gBreakpoints[hiddenPlace base]? = some bp) : bp.addr = addr := by
    apply Option.some.inj
    rw [← there, ← same, List.getElem?_map, found]
    rfl
  change wp (continueExecution host depth) _ placed
  by_cases code : addr ∈ tracee.code
  · refine wp_onReturn (wp_and (watched_continueExecution code depth watched) kept)
      fun _ after kept => ?_
    intro bp found _
    rw [place kept.2 found]
    exact kept.1
  · refine wp_onReturn kept fun _ after same => ?_
    intro bp found inside
    rw [place same found] at inside
    exact absurd inside code

/-- A single step places nothing. -/
theorem hides_steps (untouched : Untouched tracee base state) (continues : Dbg κ Unit) :
    wp (singleStep host continues) (.onReturn fun _ => Hides tracee base) state := by
  have addresses : Addresses (base.globals.gBreakpoints.map MyBp.addr) state := by
    unfold Addresses
    rw [untouched.table]
  refine wp_onReturn ((addresses_singleStep _ continues).wp addresses) fun _ after same => ?_
  intro bp found
  have inside := (List.getElem?_eq_some_iff.mp found).1
  have length := congrArg List.length same
  rw [List.length_map, List.length_map] at length
  rw [length] at inside
  exact absurd inside (Nat.lt_irrefl _)

theorem hides_cmdNextInstr (depth : Nat) (untouched : Untouched tracee base state) :
    wp (cmdNextInstr host depth) (.onReturn fun _ => Hides tracee base) state := by
  have before : Placid host (Untouched tracee base) := untouched_placid
  have placid : Placid host (Hides tracee base) := hides_placid
  unfold cmdNextInstr
  rw [wp_bind]
  refine wp_onReturn (Keeps.of_returns (before.getRegister .rip) _ untouched)
    fun rip _ untouched => ?_
  change wp (getCurrentInstruction host >>= _) _ _
  rw [wp_bind]
  refine wp_onReturn (Keeps.of_returns before.getCurrentInstruction _ untouched)
    fun instr read untouched => ?_
  have tells (overCall : Bool) : Preserves (Hides tracee base) (do
      let globals ← getGlobals
      if globals.gQuit then
        return ()
      else
        let rip ← getRegister host .rip
        printf (.stepped overCall rip)) :=
    Preserves.bind (.gets _) fun _ => Preserves.ite (.pure _) <|
      (placid.getRegister _).bind fun _ => placid.printf trivial
  have runs (overCall : Bool) (next : Addr) : wp (runNext host depth overCall next)
      (.onReturn fun _ => Hides tracee base) read := by
    unfold runNext
    rw [wp_ite]
    constructor
    · intro _
      exact hides_runs depth untouched
    · intro _
      rw [wp_bind]
      exact wp_onReturn (hides_steps untouched _) fun _ _ hides => hides
  change wp (runNext host depth _ _ >>= _) _ read
  rw [wp_bind]
  exact wp_onReturn (runs _ _) fun _ _ hides => Keeps.of_returns (tells _) _ hides

theorem hides_cmdFinish (depth : Nat) (untouched : Untouched tracee base state) :
    wp (cmdFinish host depth) (.onReturn fun _ => Hides tracee base) state := by
  have placid : Placid host (Hides tracee base) := hides_placid
  have tells (addr : Addr) : Preserves (Hides tracee base) (printf (.continuedTo addr)) :=
    placid.printf trivial
  unfold cmdFinish
  rw [wp_bind]
  refine wp_onReturn (Keeps.of_returns Calm.getFinishAddress _ untouched)
    fun addr read untouched => ?_
  have runs : wp (placeBreakpoint host addr (myBpTemp ||| myBpInternal) >>= fun _ =>
        continueExecution host depth) _ read := hides_runs depth untouched
  rw [wp_bind] at runs
  change wp (placeBreakpoint host addr (myBpTemp ||| myBpInternal) >>= fun _ =>
    continueExecution host depth >>= fun _ => printf (.continuedTo addr)) _ read
  simp only [wp_bind]
  refine wp_onReturn runs fun _ _ continued => wp_onReturn continued fun _ _ hides => ?_
  exact Keeps.of_returns (tells addr) _ hides

variable {command : Command} {depth : Nat} {bp : MyBp}

/-- When `next_instr` or `finish` comes back, the breakpoint it placed is off, and its
byte is what it was or that of another breakpoint, exactly if it was met. -/
theorem hidden_removed_iff (hides : command = .nextInstr ∨ command = .finish)
    (ends : exec host depth command base = .ok () after)
    (found : after.globals.gBreakpoints[hiddenPlace base]? = some bp)
    (code : bp.addr ∈ tracee.code) :
    bp.flags = myBpTemp ||| myBpInternal ∧
      ((bp.enabled = false ∧ (tracee.mem after.kernel bp.addr = tracee.mem base.kernel bp.addr ∨
          isBreakpoint after.globals.gBreakpoints bp.addr = true)) ↔
        Met tracee.toRegisters (hiddenPlace base) (base.newEntries after)) := by
  have untouched : Untouched tracee base base := ⟨rfl, rfl, [], rfl, fun _ => id⟩
  have hidden : Hides tracee base after := by
    rcases hides with rfl | rfl
    · exact (hides_cmdNextInstr depth untouched).ok ends
    · exact (hides_cmdFinish depth untouched).ok ends
  obtain ⟨new, split, armed | gone⟩ := hidden bp found code
  · rw [newEntries_eq split]
    have same := Option.some.inj (found.symm.trans armed.found)
    refine ⟨by rw [same]; rfl, ?_, fun met => absurd met armed.unmet⟩
    rintro ⟨off, _⟩
    rw [same] at off
    cases off
  · rw [newEntries_eq split]
    have same := Option.some.inj (found.symm.trans gone.found)
    refine ⟨by rw [same]; rfl, fun _ => gone.met, fun _ => ⟨by rw [same]; rfl, gone.gone⟩⟩

end Hidden

/-! ## Runs that can be computed -/

instance (registers : Registers host) (index : Nat) : DecidablePred (Met registers index) :=
  decideMet
where
  decideMet : (trace : List (Entry κ)) → Decidable (Met registers index trace)
    | [] => isFalse id
    | ⟨.waited wstatus, globals, kernel⟩ :: older =>
        have := decideMet older
        inferInstanceAs (Decidable (Met registers index older ∨ (Handled wstatus older ∧
          getBreakpoint globals.gBreakpoints (registers.regs kernel .rip - 1) = some index)))
    | ⟨.toggle other, globals, kernel⟩ :: older =>
        have := decideMet older
        inferInstanceAs (Decidable (Met registers index older ∨ (other = index ∧
          getBreakpoint globals.gBreakpoints (registers.regs kernel .rip) = some index)))
    | ⟨.ptrace _ _, _, _⟩ :: older | ⟨.output _, _, _⟩ :: older =>
        have := decideMet older
        inferInstanceAs (Decidable (Met registers index older ∨ False))

/-- A tracee all of whose instructions are calls of five bytes. -/
def calling : Host Scripted where
  ptrace := scripted.ptrace
  waitpid := scripted.waitpid
  procMem := scripted.procMem
  csDisasm _ := some { mnemonic := ['c', 'a', 'l', 'l'], opStr := [], size := 5 }
  unwindCaller := scripted.unwindCaller
  syscallNumbers := scripted.syscallNumbers

def callingTracee : Tracee calling where
  mem := Scripted.mem
  regs := Scripted.regs
  code := Set.univ
  peekdata := scriptedTracee.peekdata
  pokedata := scriptedTracee.pokedata
  mem_ptrace := scriptedTracee.mem_ptrace
  refused := scriptedTracee.refused
  getregs := scriptedTracee.getregs
  setregs := scriptedTracee.setregs
  regs_ptrace := scriptedTracee.regs_ptrace
  failed := scriptedTracee.failed
  status := scriptedTracee.status

/-- The call returns. -/
theorem hidden_removed_returning :
    ∃ after bp, exec calling 1 .nextInstr (Scripted.start [⟨.plainTrap, 6⟩]) = .ok () after ∧
      after.globals.gBreakpoints[0]? = some bp ∧ bp.addr = 5 ∧ bp.enabled = false ∧
      (callingTracee.mem after.kernel bp.addr = 0x90 ∨
        isBreakpoint after.globals.gBreakpoints bp.addr = true) := by
  have computed : ((Line.next calling (Scripted.start [⟨.plainTrap, 6⟩])
      ⟨.nextInstr, 1, .normal⟩).bind fun after =>
        after.globals.gBreakpoints[0]?.map fun bp => (bp.addr,
          decide (Met callingTracee.toRegisters 0
            ((Scripted.start [⟨.plainTrap, 6⟩]).newEntries after)))) = some (5, true) := by
    decide +kernel
  obtain ⟨after, steps, computed⟩ := Option.bind_eq_some_iff.mp computed
  obtain ⟨bp, found, values⟩ := Option.map_eq_some_iff.mp computed
  obtain ⟨place, met⟩ := Prod.mk.inj values
  have ends : exec calling 1 .nextInstr (Scripted.start [⟨.plainTrap, 6⟩]) = .ok () after :=
    Line.next_eq_some.mp steps
  have removed := (@hidden_removed_iff _ calling callingTracee _ _ _ _ _ (Or.inl rfl) ends found
    trivial).2.mpr (of_decide_eq_true met)
  exact ⟨after, bp, ends, found, place, removed⟩

/-- A signal stops the tracee in the called function. -/
theorem hidden_stays :
    ∃ after bp, exec calling 1 .nextInstr (Scripted.start [⟨.stopped 10, 0x40⟩]) = .ok () after ∧
      after.globals.gBreakpoints[0]? = some bp ∧
      bp.flags = myBpTemp ||| myBpInternal ∧ bp.enabled = true ∧
      callingTracee.mem after.kernel bp.addr = 0xCC ∧ after.globals.gQuit = false := by
  have computed : ((Line.next calling (Scripted.start [⟨.stopped 10, 0x40⟩])
      ⟨.nextInstr, 1, .normal⟩).bind fun after =>
        after.globals.gBreakpoints[0]?.map fun bp => decide (
          bp.flags = myBpTemp ||| myBpInternal ∧ bp.enabled = true ∧
            callingTracee.mem after.kernel bp.addr = 0xCC ∧ after.globals.gQuit = false)) =
      some true := by
    decide +kernel
  obtain ⟨after, steps, computed⟩ := Option.bind_eq_some_iff.mp computed
  obtain ⟨bp, found, values⟩ := Option.map_eq_some_iff.mp computed
  exact ⟨after, bp, Line.next_eq_some.mp steps, found, of_decide_eq_true values⟩

end MyDbg
