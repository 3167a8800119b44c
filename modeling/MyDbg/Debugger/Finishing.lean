import MyDbg.Debugger.CallStepping
import MyDbg.Debugger.Rewind
import MyDbg.Debugger.Steady

/-!
Contract: where `finish` stops.

Owns: `StopsAt`, that a command ends with the tracee stopped at an address and for
no other reason than a breakpoint; that a run of the tracee does not end so at an
address where no breakpoint is armed; and that `finish` does not arm one where the
function returns to.

Does not own: whether the unwinder and the disassembler are right.
-/

namespace MyDbg

open LittleEndian ProgramLogic

variable {κ : Type} {host : Host κ}

/-! ## Stopping at an address -/

/-- The report of a stop that is not the hit of a breakpoint, or of the end. -/
def Event.announces : Event → Bool
  | .output (.syscallCatched _ _) => true
  | .output (.interrupted _) => true
  | .output (.exited _) => true
  | .output (.terminated _) => true
  | .output .somethingWentWrong => true
  | _ => false

/-- The command that led from `before` to `after` has stopped the tracee at `addr`, and
neither a signal nor a watched syscall nor its end has. -/
structure StopsAt (registers : Registers host) (addr : Addr) (before after : State κ) : Prop where
  rip : registers.regs after.kernel .rip = addr
  unannounced : ∀ entry ∈ before.newEntries after, entry.event.announces = false

/-- Another reason was reported since `base`. -/
def Announced (base : List (Entry κ)) (state : State κ) : Prop :=
  ∃ new, state.trace = new ++ base ∧ ∃ entry ∈ new, entry.event.announces = true

/-- The breakpoints have the addresses `addrs`, and none is armed at `avoided`. -/
structure Avoids (base : List (Entry κ)) (addrs : List Addr) (avoided : Addr) (state : State κ) :
    Prop where
  since : ∃ new, state.trace = new ++ base
  addrs : state.globals.gBreakpoints.map MyBp.addr = addrs
  away : isBreakpoint state.globals.gBreakpoints avoided = false

def RestsElsewhere (registers : Registers host) (base : List (Entry κ)) (avoided : Addr)
    (state : State κ) : Prop :=
  Announced base state ∨ registers.regs state.kernel .rip ≠ avoided

section Avoids

variable {registers : Registers host} {base : List (Entry κ)} {addrs : List Addr}
  {avoided addr : Addr} {state : State κ} {index : Nat} {bp : MyBp}

theorem announced_permanent : Permanent (Announced base : State κ → Prop) where
  event state event announced := by
    obtain ⟨new, split, entry, member, announces⟩ := announced
    exact ⟨_ :: new, congrArg (List.cons _) split, entry, List.mem_cons_of_mem _ member, announces⟩
  kernel _ _ announced := announced
  globals _ _ announced := announced

theorem Avoids.moves {after : State κ} (avoids : Avoids base addrs avoided state)
    (grows : ∃ more, after.trace = more ++ state.trace)
    (same : after.globals.gBreakpoints = state.globals.gBreakpoints) :
    Avoids base addrs avoided after := by
  obtain ⟨more, grows⟩ := grows
  obtain ⟨new, split⟩ := avoids.since
  refine ⟨⟨more ++ new, by rw [grows, split, List.append_assoc]⟩, ?_, ?_⟩
  · rw [same, avoids.addrs]
  · rw [same, avoids.away]

theorem Avoids.record (avoids : Avoids base addrs avoided state) (event : Event) :
    Avoids base addrs avoided (state.record event) :=
  avoids.moves ⟨[_], rfl⟩ rfl

theorem Avoids.announces (avoids : Avoids base addrs avoided state) {event : Event}
    (announces : event.announces = true) : Announced base (state.record event) := by
  obtain ⟨new, split⟩ := avoids.since
  exact ⟨_ :: new, congrArg (List.cons _) split, _, List.mem_cons_self, announces⟩

theorem avoids_lasting : Lasting (Avoids base addrs avoided : State κ → Prop) where
  event _ event _ avoids := avoids.record event
  kernel _ _ avoids := avoids.moves ⟨[], rfl⟩ rfl
  globals _ _ same avoids := avoids.moves ⟨[], rfl⟩ same

/-- A breakpoint that is found is not at the address where none is armed. -/
theorem Avoids.found (avoids : Avoids base addrs avoided state)
    (first : getBreakpoint state.globals.gBreakpoints addr = some index) :
    addr ≠ avoided ∧ addrs[index]? = some addr := by
  obtain ⟨bp, found, hits, _⟩ := getBreakpoint_eq_some.mp first
  constructor
  · rintro rfl
    have armed := isBreakpoint_iff.mpr ⟨bp, List.mem_of_getElem? found, hits⟩
    rw [avoids.away] at armed
    cases armed
  · rw [← avoids.addrs, List.getElem?_map, found, Option.map_some, (MyBp.hits_iff.mp hits).1]

/-- Switching a breakpoint that has another address. -/
theorem Avoids.toggled (avoids : Avoids base addrs avoided state)
    (found : state.globals.gBreakpoints[index]? = some bp) (apart : bp.addr ≠ avoided) :
    Avoids base addrs avoided (state.withGlobals { state.globals with
      gBreakpoints := state.globals.gBreakpoints.set index bp.toggled }) := by
  refine ⟨avoids.since, ?_, ?_⟩
  · show (state.globals.gBreakpoints.set index bp.toggled).map MyBp.addr = addrs
    rw [List.map_set, MyBp.toggled_addr, ← avoids.addrs]
    apply List.ext_getElem?
    intro position
    rw [List.getElem?_set]
    split
    · next same =>
        subst same
        obtain ⟨inside, rfl⟩ := List.getElem?_eq_some_iff.mp found
        simp [inside]
    · rfl
  · show isBreakpoint (state.globals.gBreakpoints.set index bp.toggled) avoided = false
    have away := avoids.away
    rwa [isBreakpoint, getBreakpoint_set found (MyBp.toggled_hits apart)]

theorem toggleBreakpoint_avoids (apart : addr ≠ avoided) (at' : addrs[index]? = some addr) :
    Preserves (Avoids base addrs avoided) (toggleBreakpoint host index) := by
  apply Preserves.of_wp
  intro state avoids
  obtain ⟨bp, found, rfl⟩ : ∃ bp, state.globals.gBreakpoints[index]? = some bp ∧
      bp.addr = addr := by
    rw [← avoids.addrs, List.getElem?_map] at at'
    exact Option.map_eq_some_iff.mp at'
  have noted := avoids.record (.toggle index)
  have peeked : Avoids base addrs avoided
      ((state.record (.toggle index)).afterPtrace host (.peekdata bp.addr)) :=
    avoids_lasting.afterPtrace _ noted
  apply wp_toggleBreakpoint found
  · intro _ _
    exact noted
  · intro _
    exact peeked
  · rintro _ word _ rfl
    have poked : Avoids base addrs avoided (((state.record (.toggle index)).afterPtrace host
        (.peekdata bp.addr)).afterPtrace host (.pokedata bp.addr word)) :=
      avoids_lasting.afterPtrace _ peeked
    exact ⟨poked, poked.toggled found apart⟩

theorem hitBreakpoint_avoids (avoids : Avoids base addrs avoided state)
    (first : getBreakpoint state.globals.gBreakpoints addr = some index) :
    wp (hitBreakpoint host index addr) (Post.always (Avoids base addrs avoided)) state := by
  have placid : Placid host (Avoids base addrs avoided) := avoids_lasting.placid
  obtain ⟨apart, at'⟩ := avoids.found first
  have kept : Preserves (Avoids base addrs avoided) (hitBreakpoint host index addr) := by
    refine (Calm.breakpointAt index).bind fun bp => ?_
    refine (Preserves.when _ (toggleBreakpoint_avoids apart at')).bind fun _ => ?_
    refine (Preserves.when _ (.of_wp fun _ avoids => avoids.record _)).bind fun _ => ?_
    exact placid.rewind addr
  exact kept.wp avoids

theorem avoids_waitStop (step : Bool) :
    Preserves (Avoids base addrs avoided) (waitStop host step) :=
  avoids_lasting.waitStop (fun _ _ _ avoids first => hitBreakpoint_avoids avoids first) step

end Avoids

/-! ## Where a stop leaves RIP -/

section Stops

variable {registers : Registers host} {base : List (Entry κ)} {addrs : List Addr}
  {avoided addr : Addr} {state : State κ} {index : Nat} {stopsig : BitVec 8}

theorem setRegister_rip (state : State κ) (addr : Addr) :
    wp (setRegister host .rip addr)
      (.onReturn fun _ after => registers.regs after.kernel .rip = addr) state := by
  unfold setRegister
  simp only [wp_bind, wp_myPtrace, wp_pure]
  refine ⟨fun reply _ => ⟨fun written accepted => ?_, fun _ => trivial⟩, fun _ => trivial⟩
  show registers.regs (host.ptrace _ _).2 .rip = addr
  rw [registers.setregs _ _ (Option.isSome_of_mem accepted), Function.update_self]

/-- A hit leaves RIP at the breakpoint. -/
theorem hitBreakpoint_rip (state : State κ) (index : Nat) (addr : Addr) :
    wp (hitBreakpoint host index addr)
      (.onReturn fun _ after => registers.regs after.kernel .rip = addr) state := by
  unfold hitBreakpoint
  apply wp_bind_last
  intro bp found
  apply wp_bind_last
  intro _ toggled
  apply wp_bind_last
  intro _ printed
  rw [wp_bind]
  exact setRegister_rip printed addr

theorem handleSyscallStop_missed (avoids : Avoids base addrs avoided state) :
    wp (handleSyscallStop host false)
      (.onReturn fun next after => next = .continues ∨ Announced base after) state := by
  simp only [handleSyscallStop, wp_bind, wp_modifyGlobals, wp_getGlobals, wp_ite, wp_printf,
    wp_pure]
  rw [wp_getRegister]
  constructor
  · intro reply _
    constructor
    · intro _
      right
      apply Avoids.announces
      · exact avoids.moves ⟨[_], rfl⟩ rfl
      · rfl
    · intro _
      exact ⟨fun _ => .inl trivial, fun isBp => absurd rfl isBp⟩
  · intro _
    trivial

/-- Away from a breakpoint, a stop goes by or is reported. -/
theorem finishStop_missed (avoids : Avoids base addrs avoided state)
    (signal : state.globals.gSignum ≠ 0) :
    wp (finishStop host stopsig false)
      (.onReturn fun next after => next = .continues ∨ Announced base after) state := by
  have permanent : Permanent (Announced base : State κ → Prop) := announced_permanent
  unfold finishStop
  rw [wp_ite]
  constructor
  · intro _
    rw [wp_bind]
    apply wp_onReturn (handleSyscallStop_missed avoids)
    intro next after outcome
    cases next with
    | continues => exact .inl rfl
    | returns result =>
        have announced : Announced base after := outcome.resolve_left (by simp)
        have kept : Preserves (Announced base) (reportSignal : Dbg κ AfterStop) :=
          (permanent.lasting.placid : Placid host _).reportSignal
        exact wp_onReturn (kept.wp announced) fun _ _ announced => .inr announced
  · intro _
    simp only [reportSignal, wp_bind, wp_getGlobals, wp_when, wp_printf, wp_pure]
    constructor
    · intro _
      exact .inr (avoids.announces rfl)
    · intro silent
      exact absurd (by simpa using silent) signal

/-- Any stop leaves RIP elsewhere, unless it goes by or ends a single step. -/
theorem handleStop_elsewhere (avoids : Avoids base addrs avoided state) (step : Bool)
    (signal : stopsig &&& 0x7F ≠ 0) :
    wp (handleStop host step stopsig) (.onReturn fun next after =>
      (step = true ∧ next = .returns true) ∨ next = .continues ∨
        RestsElsewhere registers base avoided after) state := by
  simp only [handleStop, wp_bind, wp_modifyGlobals, wp_getGlobals, wp_ite, Bool.and_eq_true,
    wp_pure]
  constructor
  · intro stepped
    exact .inl ⟨stepped.1, trivial⟩
  · intro _
    rw [wp_getRegister]
    constructor
    · intro reply _
      simp only [State.afterPtrace_globals, State.withGlobals_globals]
      cases first : getBreakpoint state.globals.gBreakpoints (reply.regs .rip - 1) with
      | none =>
          have nonzero : ((stopsig &&& 0x7F).setWidth 64 : Word) ≠ 0 := by
            bv_omega
          rw [wp_forSome_none]
          have read : Avoids base addrs avoided ((state.withGlobals { state.globals with
              gSignum := (stopsig &&& 0x7F).setWidth 64 }).afterPtrace host .getregs) :=
            avoids.moves ⟨[_], rfl⟩ rfl
          apply wp_onReturn (finishStop_missed read nonzero)
          intro next after outcome
          exact .inr (outcome.imp_right .inl)
      | some index =>
          have apart := (avoids.found first).1
          apply wp_onReturn (hitBreakpoint_rip _ index (reply.regs .rip - 1))
          intro _ middle here
          have passive : Passive host fun state =>
              registers.regs state.kernel .rip = reply.regs .rip - 1 := ripIs_passive _
          exact wp_onReturn ((passive.finishStop stopsig _).wp here) fun _ _ there =>
            .inr (.inr (.inr (there.trans_ne apart)))
    · intro _
      trivial

theorem handleEnd_elsewhere (avoids : Avoids base addrs avoided state) (wstatus : WStatus) :
    wp (handleEnd wstatus) (.onReturn fun _ after => RestsElsewhere registers base avoided after)
      state := by
  simp only [handleEnd, wp_bind, wp_printf, wp_modifyGlobals, wp_pure]
  left
  apply announced_permanent.globals
  apply avoids.announces
  cases wstatus <;> rfl

end Stops

/-! ## Running -/

theorem signal_eq_zero (signal : BitVec 7) :
    signal.setWidth 8 &&& (0x7F : BitVec 8) = 0 → signal = 0 := by
  revert signal
  decide

/-- No signal has the number 0. -/
def SignalsNumbered (host : Host κ) : Prop :=
  ∀ kernel after, host.waitpid kernel ≠ .status (.stopped 0) after

section Running

variable {registers : Registers host} {base : List (Entry κ)} {addrs : List Addr}
  {avoided addr : Addr} {state : State κ} {index : Nat} {continues : Dbg κ Unit}

theorem SignalsNumbered.signal (numbered : SignalsNumbered host) {kernel after : κ}
    {wstatus : WStatus} {stopsig : BitVec 8}
    (returned : host.waitpid kernel = .status wstatus after)
    (status : wstatus.wstopsig = some stopsig) : stopsig &&& 0x7F ≠ 0 := by
  cases wstatus with
  | stopped signal =>
      obtain rfl : signal.setWidth 8 = stopsig := Option.some.inj status
      intro zero
      rw [signal_eq_zero signal zero] at returned
      exact numbered kernel after returned
  | syscallStop =>
      obtain rfl : (5 ||| 0x80 : BitVec 8) = stopsig := Option.some.inj status
      decide
  | exited code => cases status
  | signaled signal => cases status
  | other => cases status

variable (registers) in
/-- The invariant of a run, and that it has not ended where it should not. -/
structure Arrived (base : List (Entry κ)) (addrs : List Addr) (avoided : Addr) (state : State κ) :
    Prop where
  avoids : Avoids base addrs avoided state
  elsewhere : RestsElsewhere registers base avoided state

variable (numbered : SignalsNumbered host)

include numbered

theorem waitStop_elsewhere (avoids : Avoids base addrs avoided state) (step : Bool) :
    wp (waitStop host step) (.onReturn fun next after =>
      (step = true ∧ next = .returns true) ∨ next = .continues ∨
        RestsElsewhere registers base avoided after) state := by
  apply wp_waitStop
  · exact fun _ => trivial
  · exact fun _ _ => trivial
  · intro wstatus kernel stopsig returned status
    apply handleStop_elsewhere
    · exact avoids.moves ⟨[_], rfl⟩ rfl
    · exact numbered.signal returned status
  · intro wstatus kernel _ _
    have stopped : Avoids base addrs avoided (state.stoppedBy wstatus kernel) :=
      avoids.moves ⟨[_], rfl⟩ rfl
    exact wp_onReturn (handleEnd_elsewhere stopped wstatus) fun _ _ elsewhere =>
      .inr (.inr elsewhere)

theorem waitProgram_elsewhere (avoids : Avoids base addrs avoided state) (step : Bool)
    (continued : ∀ state, Avoids base addrs avoided state →
      wp continues (.onReturn fun _ => Arrived registers base addrs avoided) state) :
    wp (waitProgram host continues step) (.onReturn fun result after =>
      Avoids base addrs avoided after ∧
        ((step = true ∧ result = true) ∨ RestsElsewhere registers base avoided after)) state := by
  unfold waitProgram
  rw [wp_bind]
  apply wp_onReturn (wp_and ((avoids_waitStop step).wp avoids)
    (waitStop_elsewhere numbered avoids step))
  intro next after outcome
  obtain ⟨avoids, outcome⟩ := outcome
  cases next with
  | returns result =>
      refine ⟨avoids, ?_⟩
      rcases outcome with ⟨stepped, returned⟩ | goesOn | elsewhere
      · exact .inl ⟨stepped, AfterStop.returns.inj returned⟩
      · cases goesOn
      · exact .inr elsewhere
  | continues =>
      rw [wp_bind]
      exact wp_onReturn (continued after avoids) fun _ _ arrived =>
        ⟨arrived.avoids, .inr arrived.elsewhere⟩

theorem stepOnce_elsewhere (avoids : Avoids base addrs avoided state)
    (continued : ∀ state, Avoids base addrs avoided state →
      wp continues (.onReturn fun _ => Arrived registers base addrs avoided) state) :
    wp (stepOnce host continues) (.onReturn fun result after => Avoids base addrs avoided after ∧
      (result = true ∨ RestsElsewhere registers base avoided after)) state := by
  simp only [stepOnce, wp_bind, wp_getGlobals, wp_modifyGlobals, wp_myPtrace]
  constructor
  · intro reply _
    apply wp_onReturn (waitProgram_elsewhere numbered ?_ true continued)
    · intro result after outcome
      exact ⟨outcome.1, outcome.2.imp_left And.right⟩
    · exact avoids.moves ⟨[_], rfl⟩ rfl
  · intro _
    trivial

theorem resumeExecution_arrives (avoids : Avoids base addrs avoided state)
    (continued : ∀ state, Avoids base addrs avoided state →
      wp continues (.onReturn fun _ => Arrived registers base addrs avoided) state) :
    wp (resumeExecution host continues) (.onReturn fun _ => Arrived registers base addrs avoided)
      state := by
  simp only [resumeExecution, wp_bind, wp_getGlobals, wp_modifyGlobals, wp_myPtrace, wp_pure]
  constructor
  · intro reply _
    apply wp_onReturn (waitProgram_elsewhere numbered ?_ false continued)
    · intro result after outcome
      exact ⟨outcome.1, outcome.2.resolve_left (by simp)⟩
    · exact avoids.moves ⟨[_], rfl⟩ rfl
  · intro _
    trivial

omit numbered in
/-- A toggle does not move RIP. -/
theorem toggleBreakpoint_elsewhere (index : Nat) :
    Preserves (RestsElsewhere registers base avoided) (toggleBreakpoint host index) := by
  have permanent : Permanent (Announced base : State κ → Prop) := announced_permanent
  have request (request : Request) (calm : request.resumes = none)
      (reads : ∀ values, request ≠ .setregs values) :
      Preserves (RestsElsewhere registers base avoided) (myPtrace host request) := by
    apply Preserves.of_wp
    intro state elsewhere
    have kept : RestsElsewhere registers base avoided (state.afterPtrace host request) := by
      refine elsewhere.imp (permanent.asked state request) fun other => ?_
      rw [State.afterPtrace_kernel, registers.regs_ptrace request _ calm reads]
      exact other
    rw [wp_myPtrace]
    exact ⟨fun _ _ => kept, fun _ => kept⟩
  refine Preserves.bind (.of_wp fun state elsewhere => ?_) fun _ => ?_
  · exact elsewhere.imp (permanent.event state _) id
  · refine (Calm.breakpointAt index).bind fun bp => Preserves.ite (.pure _) ?_
    refine (request (.peekdata _) rfl (by simp)).bind fun _ => ?_
    refine (request (.pokedata _ _) rfl (by simp)).bind fun _ => .of_wp fun state elsewhere => ?_
    exact elsewhere.imp (permanent.globals state _) id

theorem singleStep_elsewhere (avoids : Avoids base addrs avoided state)
    (continued : ∀ state, Avoids base addrs avoided state →
      wp continues (.onReturn fun _ => Arrived registers base addrs avoided) state) :
    wp (singleStep host continues) (.onReturn fun ret after => Avoids base addrs avoided after ∧
      (ret = true ∨ RestsElsewhere registers base avoided after)) state := by
  unfold singleStep
  rw [wp_bind, wp_getRegister]
  constructor
  · intro reply _
    show wp (getGlobals >>= _) _ _
    rw [wp_bind_ok (rfl : getGlobals _ = _), State.afterPtrace_globals]
    have read : Avoids base addrs avoided (state.afterPtrace host .getregs) :=
      avoids.moves ⟨[_], rfl⟩ rfl
    cases first : getBreakpoint state.globals.gBreakpoints (reply.regs .rip) with
    | none =>
        simp only [wp_bind, wp_forSome_none, wp_pure]
        exact stepOnce_elsewhere numbered read continued
    | some index =>
        obtain ⟨apart, at'⟩ := read.found first
        have toggles : Preserves (Avoids base addrs avoided) (toggleBreakpoint host index) :=
          toggleBreakpoint_avoids apart at'
        simp only [wp_bind, wp_forSome_some, wp_pure]
        apply wp_onReturn (toggles.wp read)
        intro _ lifted avoids
        apply wp_onReturn (stepOnce_elsewhere numbered avoids continued)
        intro ret stepped outcome
        obtain ⟨avoids, outcome⟩ := outcome
        rcases outcome with finished | elsewhere
        · exact wp_onReturn (toggles.wp avoids) fun _ _ kept => ⟨kept, .inl finished⟩
        · exact wp_onReturn (wp_and (toggles.wp avoids)
            ((toggleBreakpoint_elsewhere index).wp elsewhere)) fun _ _ kept =>
              ⟨kept.1, .inr kept.2⟩
  · intro _
    trivial

/-- However the tracee runs, it does not come to rest where no breakpoint is armed. -/
theorem continueExecution_arrives (depth : Nat) (avoids : Avoids base addrs avoided state) :
    wp (continueExecution host depth) (.onReturn fun _ => Arrived registers base addrs avoided)
      state := by
  induction depth generalizing state with
  | zero => trivial
  | succ depth inductionHypothesis =>
      have continued : ∀ state, Avoids base addrs avoided state →
          wp (continueExecution host depth)
            (.onReturn fun _ => Arrived registers base addrs avoided) state :=
        fun _ avoids => inductionHypothesis avoids
      unfold continueExecution
      rw [wp_bind, wp_getRegister]
      constructor
      · intro reply _
        show wp (getGlobals >>= _) _ _
        have read : Avoids base addrs avoided (state.afterPtrace host .getregs) :=
          avoids.moves ⟨[_], rfl⟩ rfl
        rw [wp_bind_ok (rfl : getGlobals _ = _), wp_ite]
        constructor
        · intro _
          rw [wp_bind]
          apply wp_onReturn (singleStep_elsewhere numbered read continued)
          intro stepped after outcome
          obtain ⟨avoids, outcome⟩ := outcome
          cases stepped with
          | true => exact resumeExecution_arrives numbered avoids continued
          | false => exact ⟨avoids, outcome.resolve_left (by simp)⟩
        · intro _
          exact resumeExecution_arrives numbered read continued
      · intro _
        trivial

end Running

/-! ## `finish` -/

section Finish

variable {registers : Registers host} {base : List (Entry κ)} {addrs : List Addr}
  {avoided caller addr : Addr} {state before : State κ}

theorem wp_getInstruction (addr : Addr) :
    wp (getInstruction host addr) (.onReturn fun instr after => after = state ∧
      ∃ bytes insn, host.csDisasm bytes = some insn ∧ instr.size = insn.size) state := by
  unfold getInstruction
  cases read : readBytes (host.procMem state.kernel) addr 16 with
  | none =>
      have raises : readMemory host addr 16 state = .throw .memoryException state := by
        simp only [readMemory, read]
      unfold wp
      rw [Program.bind_throw raises]
      trivial
  | some bytes =>
      have returned : readMemory host addr 16 state = .ok bytes state := by
        simp only [readMemory, read]
      rw [wp_bind_ok returned]
      cases decoded : host.csDisasm bytes with
      | none => trivial
      | some insn => exact ⟨rfl, bytes, insn, decoded, rfl⟩

theorem wp_getFinishAddress (returns : host.unwindCaller state.kernel = some caller) :
    wp (getFinishAddress host) (.onReturn fun addr after => after = state ∧
      ∃ bytes insn, host.csDisasm bytes = some insn ∧ addr = caller + BitVec.ofNat 64 insn.size)
        state := by
  unfold getFinishAddress
  rw [wp_bind, wp_gets, returns]
  show wp (getInstruction host caller >>= _) _ _
  rw [wp_bind]
  apply wp_onReturn (wp_getInstruction caller)
  rintro instr after ⟨same, bytes, insn, decoded, size⟩
  exact ⟨same, bytes, insn, decoded, by rw [size]⟩

theorem placeBreakpoint_avoids (avoids : Avoids base addrs avoided state)
    (apart : addr ≠ avoided) {flags : MyBpFlags} (isCode : flags &&& myBpSyscall = 0) :
    wp (placeBreakpoint host addr flags)
      (.onReturn fun _ => Avoids base (addrs ++ [addr]) avoided) state := by
  have append (word : Word) (state : State κ) (avoids : Avoids base addrs avoided state) :
      wp (appendBreakpoint addr flags word : Dbg κ Nat)
        (.onReturn fun _ => Avoids base (addrs ++ [addr]) avoided) state := by
    unfold wp
    rw [appendBreakpoint_apply]
    split
    · refine ⟨avoids.since, ?_, ?_⟩
      · simp [avoids.addrs, MyBp.placed]
      · have misses : (MyBp.placed state.globals.gBreakpoints addr flags word).hits avoided =
            false := by
          simp [MyBp.hits, MyBp.placed, apart]
        have away := avoids.away
        rw [isBreakpoint] at away
        simp only [State.withGlobals_globals, isBreakpoint, getBreakpoint_append, misses]
        simpa using away
    · trivial
  unfold placeBreakpoint
  rw [if_pos isCode]
  simp only [wp_bind, wp_myPtrace]
  refine ⟨fun reply _ => ⟨fun other _ => ?_, fun _ => trivial⟩, fun _ => trivial⟩
  exact append reply.ret _ (avoids.moves ⟨[_, _], rfl⟩ rfl)

theorem cmdFinish_arrives (registers : Registers host) (numbered : SignalsNumbered host)
    (depth : Nat) (returns : host.unwindCaller before.kernel = some caller)
    (sized : ∀ bytes insn, host.csDisasm bytes = some insn → 0 < insn.size ∧ insn.size ≤ 15)
    (bare : isBreakpoint before.globals.gBreakpoints caller = false) :
    wp (cmdFinish host depth)
      (.onReturn fun _ => RestsElsewhere registers before.trace caller) before := by
  generalize isBase : before.trace = base
  have start : Avoids base (before.globals.gBreakpoints.map MyBp.addr) caller before :=
    ⟨⟨[], isBase⟩, rfl, bare⟩
  unfold cmdFinish
  rw [wp_bind]
  apply wp_onReturn (wp_getFinishAddress returns)
  rintro _ looked ⟨same, bytes, insn, decoded, rfl⟩
  rw [← same] at start
  obtain ⟨positive, small⟩ := sized bytes insn decoded
  rw [wp_bind]
  apply wp_onReturn (placeBreakpoint_avoids start (add_ofNat_ne caller positive (by omega)) rfl)
  intro _ placed avoids
  rw [wp_bind]
  have runs : wp (continueExecution host depth) (.onReturn fun _ =>
      Arrived registers base _ caller) placed :=
    continueExecution_arrives numbered depth avoids
  apply wp_onReturn runs
  intro _ arrived outcome
  exact outcome.elsewhere.imp (announced_permanent.event _ _) id

/-- `finish` never stops where the function returns to: its breakpoint is behind the
instruction there. -/
theorem finish_misses_caller (registers : Registers host) (numbered : SignalsNumbered host)
    (depth : Nat) (returns : host.unwindCaller before.kernel = some caller)
    (sized : ∀ bytes insn, host.csDisasm bytes = some insn → 0 < insn.size ∧ insn.size ≤ 15)
    (bare : isBreakpoint before.globals.gBreakpoints caller = false) :
    ¬ ∃ after, exec host depth .finish before = .ok () after ∧
      StopsAt registers caller before after := by
  rintro ⟨after, comes, stops⟩
  have elsewhere : RestsElsewhere registers before.trace caller after :=
    (cmdFinish_arrives registers numbered depth returns sized bare).ok comes
  rcases elsewhere with ⟨new, split, entry, member, announces⟩ | other
  · have silent := stops.unannounced
    rw [newEntries_eq split] at silent
    rw [silent entry member] at announces
    cases announces
  · exact other stops.rip

end Finish

/-! ## A caller that goes on with a jump -/

section Processors

variable {χ : Type} (processor : Processor χ) (budget : Nat)
  (csDisasm : List Byte → Option CsInsn) (unwindCaller : Thread χ → Option Addr)

def Processor.registers : Registers (processor.host budget csDisasm unwindCaller) where
  regs thread := processor.regs thread.cpu
  getregs thread reply answered := by
    simp only [Processor.host] at answered
    cases held : thread.activity.resumed with
    | none => simp [held] at answered
    | some resumed =>
        rw [held] at answered
        obtain rfl := Option.some.inj answered
        rfl
  setregs values thread accepted := by
    simp only [Processor.host] at accepted ⊢
    cases held : thread.activity.resumed with
    | none => simp [held] at accepted
    | some resumed => exact processor.regs_setRegs values thread.cpu
  regs_ptrace request thread calm reads := by
    simp only [Processor.host]
    cases held : thread.activity.resumed with
    | none => rfl
    | some resumed =>
        cases request with
        | setregs values => exact absurd rfl (reads values)
        | cont data | syscall data | singlestep data => cases calm
        | peekdata | pokedata | getregs => rfl

variable {processor} in
theorem run_numbered (faults : ∀ cpu mem, processor.exec cpu mem ≠ .fault 0) (by' : Resumption)
    (budget : Nat) (cpu : χ) (mem : Memory) (after : Thread χ) :
    processor.run by' budget cpu mem ≠ .status (.stopped 0) after := by
  induction budget generalizing cpu mem with
  | zero => simp [Processor.run]
  | succ budget inductionHypothesis =>
      by_cases trap : mem (processor.rip cpu) = 0xCC
      · rw [run_trap processor by' budget trap]
        simp [WStatus.plainTrap]
      · rw [Processor.run.eq_def]
        simp only [if_neg trap]
        cases effect : processor.exec cpu mem with
        | next cpu mem =>
            cases by' with
            | cont | syscall => exact inductionHypothesis cpu mem
            | singlestep => simp [WStatus.plainTrap]
        | syscall entered work =>
            cases by' with
            | cont => exact inductionHypothesis _ _
            | syscall | singlestep => simp [WStatus.plainTrap]
        | fault signal =>
            intro same
            cases same
            exact faults cpu mem effect
        | exit => simp

variable {processor budget csDisasm unwindCaller} in
theorem host_numbered (faults : ∀ cpu mem, processor.exec cpu mem ≠ .fault 0) :
    SignalsNumbered (processor.host budget csDisasm unwindCaller) := by
  intro thread after
  show processor.wait budget thread ≠ _
  obtain ⟨cpu, mem, activity⟩ := thread
  cases activity with
  | stopped | entered | gone => simp [Processor.wait]
  | running by' data =>
      by_cases signals : data ≠ 0
      · simp only [Processor.wait, if_pos signals]
        simp
      · simp only [Processor.wait, if_neg signals]
        exact run_numbered faults by' budget cpu mem after
  | leaving work by' data =>
      by_cases signals : data ≠ 0
      · simp only [Processor.wait, if_pos signals]
        simp
      · simp only [Processor.wait, if_neg signals]
        cases by' with
        | cont => exact run_numbered faults .cont budget _ _ after
        | syscall | singlestep => simp [WStatus.plainTrap]

end Processors

/-- `ret`, `jmp`, and everything else ends the program. -/
def returning : Processor UserRegs where
  regs := id
  setRegs values _ := values
  exec regs mem :=
    if mem (regs .rip) = 0xC3 then
      .next (Function.update (Function.update regs .rip (peek mem (regs .rsp))) .rsp
        (regs .rsp + 8)) mem
    else if mem (regs .rip) = 0xEB then
      .next (Function.update regs .rip
        (regs .rip + 2 + (mem (regs .rip + 1)).signExtend 64)) mem
    else
      .exit 0
  regs_setRegs := writtenRegs

theorem returning_faults (regs : UserRegs) (mem : Memory) : returning.exec regs mem ≠ .fault 0 := by
  simp only [returning]
  split
  · simp
  · split <;> simp

def jumpDisasm : List Byte → Option CsInsn
  | 0xEB :: _ => some ⟨['j', 'm', 'p', ' '], ['0', 'x', '1', 'a'], 2⟩
  | _ => none

theorem jumpDisasm_sized (bytes : List Byte) (insn : CsInsn)
    (decoded : jumpDisasm bytes = some insn) : 0 < insn.size ∧ insn.size ≤ 15 := by
  unfold jumpDisasm at decoded
  split at decoded
  · obtain rfl := Option.some.inj decoded
    decide
  · cases decoded

/-- The return address of a function without a frame is on top of the stack. -/
def topOfStack (thread : Thread UserRegs) : Option Addr :=
  some (peek thread.mem (returning.rsp thread.cpu))

/-- At the `ret` of a function that was called before a jump from `0x15` to `0x1a`. -/
def returningState : State (Thread UserRegs) :=
  State.start ⟨fun
    | .rip => 0x20
    | .rsp => 0x1000
    | _ => 0, fun
    | 0x15 => 0xEB
    | 0x16 => 3
    | 0x20 => 0xC3
    | 0x1000 => 0x15
    | _ => 0, .stopped⟩

/-- The jump is executed before the breakpoint behind it is met, and the program ends. -/
theorem finish_runs_away :
    (returning.host 8 jumpDisasm topOfStack).unwindCaller returningState.kernel = some 0x15 ∧
      (∃ now ∈ returning.path 0x17 0 (returningState.kernel.cpu,
          Function.update returningState.kernel.mem 0x17 0xCC) 1, returning.rip now.1 = 0x15) ∧
      ∃ after, exec (returning.host 8 jumpDisasm topOfStack) 2 .finish returningState =
          .ok () after ∧ after.globals.gQuit = true ∧
        ¬ StopsAt (returning.registers 8 jumpDisasm topOfStack) 0x15 returningState after := by
  refine ⟨by decide +kernel, ⟨_, rfl, by decide +kernel⟩, ?_⟩
  have computed : ((⟨.finish, 2, .normal⟩ : Line).next
      (returning.host 8 jumpDisasm topOfStack) returningState).map
        (fun after => (after.globals.gQuit, returning.rip after.kernel.cpu)) =
          some (true, 0x1a) := by
    decide +kernel
  obtain ⟨after, next, values⟩ := Option.map_eq_some_iff.mp computed
  obtain ⟨quit, rip⟩ := Prod.mk.inj values
  refine ⟨after, Line.next_eq_some.mp next, quit, fun stops => ?_⟩
  have here : returning.rip after.kernel.cpu = 0x15 := stops.rip
  rw [rip] at here
  cases here

theorem finish_misses_jump :
    ¬ ∃ after, exec (returning.host 8 jumpDisasm topOfStack) 2 .finish returningState =
        .ok () after ∧
      StopsAt (returning.registers 8 jumpDisasm topOfStack) 0x15 returningState after :=
  finish_misses_caller _ (host_numbered returning_faults) 2 (by decide +kernel)
    jumpDisasm_sized rfl

end MyDbg
