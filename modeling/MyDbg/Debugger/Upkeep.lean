import MyDbg.Debugger.Rules
import MyDbg.Debugger.Tracee

/-!
Contract: rules for invariants about the memory and the breakpoints.

Owns: `Upkeep`, what such an invariant has to survive, and from it that it
holds at every event of every session.

Does not own: any particular invariant.
-/

namespace MyDbg

open LittleEndian ProgramLogic Transition

variable {κ : Type} {host : Host κ}

/-- `holds` survives everything the debugger and the tracee do, where the
breakpoint at `index` may be toggled if `may` says so. -/
structure Upkeep (code : Set Addr) (holds : Memory → List MyBp → Prop)
    (may : List MyBp → Nat → Prop) : Prop where
  runs : ∀ mem after breakpoints, (∀ addr ∈ code, after addr = mem addr) →
    holds mem breakpoints → holds after breakpoints
  found : ∀ mem breakpoints addr index, holds mem breakpoints →
    getBreakpoint breakpoints addr = some index → may breakpoints index
  toggle : ∀ mem breakpoints index bp, breakpoints[index]? = some bp → may breakpoints index →
    holds mem breakpoints →
    holds (Function.update mem bp.addr bp.toggledByte) (breakpoints.set index bp.toggled)
  stays : ∀ breakpoints index other bp, breakpoints[other]? = some bp → may breakpoints index →
    may (breakpoints.set other bp.toggled) index

/-- `holds` also survives placements and deletions. -/
structure Upkeep.Edits (holds : Memory → List MyBp → Prop) : Prop where
  place : ∀ mem breakpoints addr flags, flags &&& myBpSyscall = 0 → holds mem breakpoints →
    holds (Function.update mem addr 0xCC)
      (breakpoints ++ [.placed breakpoints addr flags (peek mem addr)])
  placeSyscall : ∀ mem breakpoints bp, bp.isSyscall = true → holds mem breakpoints →
    holds mem (breakpoints ++ [bp])
  delete : ∀ mem breakpoints index bp, breakpoints[index]? = some bp → holds mem breakpoints →
    holds mem (breakpoints.set index { bp with deleted := true })

/-- `holds` was true at every event since `base`. -/
def HeldSince (tracee : Tracee host) (holds : Memory → List MyBp → Prop) (base : List (Entry κ))
    (state : State κ) : Prop :=
  ∃ new, state.trace = new ++ base ∧
    ∀ entry ∈ new, holds (tracee.mem entry.kernel) entry.globals.gBreakpoints

/-- `now` is true, and `holds` was at every event since `base`. -/
structure Holding (tracee : Tracee host) (holds now : Memory → List MyBp → Prop)
    (base : List (Entry κ)) (state : State κ) : Prop where
  now : now (tracee.mem state.kernel) state.globals.gBreakpoints
  since : HeldSince tracee holds base state

section Holding

variable {tracee : Tracee host} {holds now : Memory → List MyBp → Prop}
  {may : List MyBp → Nat → Prop} {base : List (Entry κ)} {state before after : State κ}

theorem HeldSince.grows {entry : Entry κ} (since : HeldSince tracee holds base before)
    (grows : after.trace = entry :: before.trace)
    (held : holds (tracee.mem entry.kernel) entry.globals.gBreakpoints) :
    HeldSince tracee holds base after := by
  obtain ⟨new, split, older⟩ := since
  exact ⟨entry :: new, by rw [grows, split, List.cons_append],
    List.forall_mem_cons.mpr ⟨held, older⟩⟩

theorem holding_modifyGlobals {update : Globals → Globals}
    (same : ∀ globals, (update globals).gBreakpoints = globals.gBreakpoints) :
    Preserves (Holding tracee holds now base) (modifyGlobals update) := by
  refine Preserves.of_wp fun state holding => ⟨?_, holding.since⟩
  change now _ (update state.globals).gBreakpoints
  rw [same]
  exact holding.now

section Implies

variable (implies : ∀ mem breakpoints, now mem breakpoints → holds mem breakpoints)

include implies

theorem holding_ptrace {request : Request} (notPoke : ∀ addr data, request ≠ .pokedata addr data)
    (holding : Holding tracee holds now base state) :
    Holding tracee holds now base (state.afterPtrace host request) := by
  refine ⟨?_, holding.since.grows rfl (implies _ _ holding.now)⟩
  rw [State.afterPtrace_kernel, tracee.mem_ptrace request _ notPoke]
  exact holding.now

theorem holding_calm : Calm host (Holding tracee holds now base) where
  calm state request calm holding := by
    refine holding_ptrace implies ?_ holding
    rintro addr data rfl
    exact calm
  printed _ _ _ holding := ⟨holding.now, holding.since.grows rfl (implies _ _ holding.now)⟩

theorem holding_printf (message : Message) :
    Preserves (Holding tracee holds now base) (printf message : Dbg κ Unit) :=
  Preserves.of_wp fun _ holding =>
    ⟨holding.now, holding.since.grows rfl (implies _ _ holding.now)⟩

theorem holding_resume {request : Request} {data : Word} (resumes : request.resumes = some data) :
    Preserves (Holding tracee holds now base) (myPtrace host request) := by
  refine Preserves.of_wp fun state holding => ?_
  have notPoke : ∀ addr data, request ≠ .pokedata addr data := by
    rintro addr value rfl
    cases resumes
  have after := holding_ptrace implies notPoke holding
  rw [wp_myPtrace]
  exact ⟨fun _ _ => after, fun _ => after⟩

/-- The events of a byte written by PEEKDATA and POKEDATA. -/
theorem HeldSince.written {addr : Addr} {byte : Byte}
    (held : now (tracee.mem before.kernel) before.globals.gBreakpoints)
    (since : HeldSince tracee holds base before)
    (written : Written tracee addr byte before after) : HeldSince tracee holds base after := by
  obtain ⟨word, middle, same, grows⟩ := written.trace
  have peeked : HeldSince tracee holds base
      { before with trace := ⟨.ptrace (.peekdata addr) true, before.globals, before.kernel⟩ ::
          before.trace } :=
    since.grows rfl (implies _ _ held)
  refine peeked.grows grows ?_
  rw [same]
  exact implies _ _ held

/-- A write that was refused. -/
theorem Holding.unwritten {addr : Addr} (holding : Holding tracee holds now base before)
    (unwritten : Unwritten tracee addr before after) : Holding tracee holds now base after := by
  have held : holds (tracee.mem before.kernel) before.globals.gBreakpoints :=
    implies _ _ holding.now
  refine ⟨?_, ?_⟩
  · rw [unwritten.mem, unwritten.globals]
    exact holding.now
  · rcases unwritten.trace with grows | ⟨word, middle, same, grows⟩
    · exact holding.since.grows grows held
    · have peeked : HeldSince tracee holds base
          { before with trace := ⟨.ptrace (.peekdata addr) true, before.globals,
              before.kernel⟩ :: before.trace } := holding.since.grows rfl held
      refine peeked.grows grows ?_
      rw [same]
      exact held

variable (upkeep : Upkeep tracee.code now may)

include upkeep

theorem holding_waited {wstatus : WStatus} {kernel : κ}
    (holding : Holding tracee holds now base state)
    (returned : host.waitpid state.kernel = .status wstatus kernel) :
    Holding tracee holds now base (state.stoppedBy wstatus kernel) := by
  have held := upkeep.runs _ _ _ (tracee.status state.kernel wstatus kernel returned) holding.now
  exact ⟨held, holding.since.grows rfl (implies _ _ held)⟩

theorem toggleBreakpoint_holding {index : Nat} (holding : Holding tracee holds now base state)
    (allowed : may state.globals.gBreakpoints index) :
    wp (toggleBreakpoint host index) (Post.always (Holding tracee holds now base)) state := by
  have noted : Holding tracee holds now base (state.record (.toggle index)) :=
    ⟨holding.now, holding.since.grows rfl (implies _ _ holding.now)⟩
  cases found : state.globals.gBreakpoints[index]? with
  | none =>
      unfold wp
      rw [toggleBreakpoint_missing found]
      exact noted
  | some bp =>
      by_cases switches : bp.enabled = true ∨ bp.isTemp = false
      · refine wp_toggleBreakpoint_on tracee found switches
          (fun _ after unwritten => noted.unwritten implies unwritten) fun _ middle written => ?_
        have since := HeldSince.written implies noted.now noted.since written
        refine ⟨?_, since⟩
        change now (tracee.mem middle.kernel) (state.globals.gBreakpoints.set index bp.toggled)
        rw [written.mem]
        exact upkeep.toggle _ _ index bp found allowed holding.now
      · rw [not_or, Bool.not_eq_true, Bool.not_eq_false] at switches
        unfold wp
        rw [toggleBreakpoint_off found switches.1 switches.2]
        exact noted

/-- The hit of the first breakpoint at `addr`. -/
theorem hitBreakpoint_holding {index : Nat} {addr : Addr}
    (holding : Holding tracee holds now base state)
    (first : getBreakpoint state.globals.gBreakpoints addr = some index) :
    wp (hitBreakpoint host index addr) (Post.always (Holding tracee holds now base)) state := by
  obtain ⟨bp, found, _⟩ := getBreakpoint_eq_some.mp first
  have calm : Calm host (Holding tracee holds now base) := holding_calm implies
  have rest : Preserves (Holding tracee holds now base) (do
      Program.when (!bp.isInternal) (printf (.breakpointHit bp.id addr))
      setRegister host .rip addr
      modifyGlobals fun globals =>
        if globals.gSignum = sigtrap then { globals with gSignum := 0 } else globals) := by
    refine Preserves.bind (.when _ (holding_printf implies _)) fun _ => ?_
    refine (calm.setRegister _ _).bind fun _ => holding_modifyGlobals fun globals => ?_
    split <;> rfl
  unfold hitBreakpoint wp
  rw [Program.bind_ok (breakpointAt_apply found)]
  change wp _ _ _
  rw [wp_bind, wp_when]
  refine ⟨fun _ => ?_, fun _ => rest.wp holding⟩
  exact wp_mono (toggleBreakpoint_holding implies upkeep holding
      (upkeep.found _ _ _ _ holding.now first))
    ⟨fun _ _ kept => rest.wp kept, fun _ _ kept => kept, fun _ kept => kept, fun _ kept => kept⟩

omit upkeep in
theorem holding_finishStop (stopsig : BitVec 8) (isBp : Bool) :
    Preserves (Holding tracee holds now base) (finishStop host stopsig isBp) := by
  have calm : Calm host (Holding tracee holds now base) := holding_calm implies
  have report : Preserves (Holding tracee holds now base) (reportSignal : Dbg κ AfterStop) :=
    Preserves.bind (.gets _) fun _ =>
      Preserves.bind (.when _ (holding_printf implies _)) fun _ => .pure _
  refine Preserves.ite (Preserves.bind ?_ fun next => ?_) report
  · refine Preserves.bind (holding_modifyGlobals fun _ => rfl) fun _ => ?_
    refine (calm.getRegister _).bind fun origRax => ?_
    refine Preserves.bind (holding_modifyGlobals fun _ => rfl) fun _ => ?_
    refine Preserves.bind (.gets _) fun globals => ?_
    refine Preserves.ite (Preserves.bind (holding_printf implies _) fun _ => .pure _) ?_
    exact Preserves.ite (.pure _) (.pure _)
  · cases next with
    | returns result => exact report
    | continues => exact .pure _

theorem holding_handleStop (step : Bool) (stopsig : BitVec 8) :
    Preserves (Holding tracee holds now base) (handleStop host step stopsig) := by
  have calm : Calm host (Holding tracee holds now base) := holding_calm implies
  refine Preserves.bind (holding_modifyGlobals fun _ => rfl) fun _ => ?_
  refine Preserves.bind (.gets _) fun globals => ?_
  refine Preserves.ite (Preserves.bind (holding_modifyGlobals fun _ => rfl) fun _ => .pure _) ?_
  refine (calm.getRegister _).bind fun rip => ?_
  refine Preserves.of_wp fun state holding => ?_
  simp only [wp_bind, wp_getGlobals]
  cases first : getBreakpoint state.globals.gBreakpoints (rip - 1) with
  | none => exact (holding_finishStop implies stopsig _).wp holding
  | some index =>
      exact wp_mono (hitBreakpoint_holding implies upkeep holding first)
        ⟨fun _ _ kept => (holding_finishStop implies stopsig _).wp kept, fun _ _ kept => kept,
          fun _ kept => kept, fun _ kept => kept⟩

theorem holding_waitStop (step : Bool) :
    Preserves (Holding tracee holds now base) (waitStop host step) := by
  have calm : Calm host (Holding tracee holds now base) := holding_calm implies
  refine Preserves.of_wp fun state holding => ?_
  refine wp_waitStop step (fun _ => holding) (fun kernel failed => ?_)
    (fun wstatus kernel stopsig returned _ => ?_) fun wstatus kernel returned _ => ?_
  · exact ⟨upkeep.runs _ _ _ (tracee.failed state.kernel kernel failed) holding.now,
      holding.since⟩
  · exact (holding_handleStop implies upkeep step stopsig).wp
      (holding_waited implies upkeep holding returned)
  · have ended : Preserves (Holding tracee holds now base)
        (handleEnd wstatus : Dbg κ AfterStop) :=
      (holding_printf implies _).bind fun _ =>
        Preserves.bind (holding_modifyGlobals fun _ => rfl) fun _ => .pure _
    exact ended.wp (holding_waited implies upkeep holding returned)

theorem holding_waitProgram {continues : Dbg κ Unit} (step : Bool)
    (continued : Preserves (Holding tracee holds now base) continues) :
    Preserves (Holding tracee holds now base) (waitProgram host continues step) := by
  refine (holding_waitStop implies upkeep step).bind fun next => ?_
  cases next with
  | returns result => exact .pure result
  | continues => exact continued.bind fun _ => .pure false

end Implies

/-! ## Resuming -/

/-- While the breakpoint at `index` is to be toggled again. -/
theorem Upkeep.awaiting {code : Set Addr} (upkeep : Upkeep code now may) (index : Nat) :
    Upkeep code (fun mem breakpoints => now mem breakpoints ∧ may breakpoints index) may where
  runs mem after breakpoints same holds := ⟨upkeep.runs mem after breakpoints same holds.1, holds.2⟩
  found mem breakpoints addr other holds := upkeep.found mem breakpoints addr other holds.1
  toggle mem breakpoints other bp found allowed holds :=
    ⟨upkeep.toggle mem breakpoints other bp found allowed holds.1,
      upkeep.stays breakpoints index other bp found holds.2⟩
  stays := upkeep.stays

theorem holding_stepOnce (implies : ∀ mem breakpoints, now mem breakpoints → holds mem breakpoints)
    (upkeep : Upkeep tracee.code now may) :
    Preserves (Holding tracee holds now base) (stepOnce host (pure ())) := by
  refine Preserves.bind (.gets _) fun globals => ?_
  refine (holding_resume implies rfl).bind fun _ => ?_
  refine Preserves.bind (holding_modifyGlobals fun _ => rfl) fun _ => ?_
  exact holding_waitProgram implies upkeep true (.pure ())

variable (upkeep : Upkeep tracee.code holds may)

include upkeep

theorem holding_singleStep (continues : Dbg κ Unit) :
    Preserves (Holding tracee holds holds base) (singleStep host continues) := by
  have same : ∀ mem breakpoints, holds mem breakpoints → holds mem breakpoints :=
    fun _ _ held => held
  rw [singleStep_eq]
  refine ((holding_calm same).getRegister _).bind fun addr => ?_
  refine Preserves.of_wp fun state holding => ?_
  simp only [wp_bind, wp_getGlobals]
  cases first : getBreakpoint state.globals.gBreakpoints addr with
  | none => exact (holding_stepOnce same upkeep).wp holding
  | some index =>
      have allowed := upkeep.found _ _ _ _ holding.now first
      have forget : ∀ mem breakpoints, holds mem breakpoints ∧ may breakpoints index →
          holds mem breakpoints := fun _ _ held => held.1
      have off := toggleBreakpoint_holding forget (upkeep.awaiting index)
        ⟨⟨holding.now, allowed⟩, holding.since⟩ allowed
      refine wp_mono off ⟨fun _ middle kept => ?_, fun _ _ kept => ⟨kept.now.1, kept.since⟩,
        fun _ kept => ⟨kept.now.1, kept.since⟩, fun _ kept => ⟨kept.now.1, kept.since⟩⟩
      refine wp_mono ((holding_stepOnce forget (upkeep.awaiting index)).wp kept)
        ⟨fun ret stopped kept => ?_, fun _ _ kept => ⟨kept.now.1, kept.since⟩,
          fun _ kept => ⟨kept.now.1, kept.since⟩, fun _ kept => ⟨kept.now.1, kept.since⟩⟩
      exact wp_mono (toggleBreakpoint_holding same upkeep ⟨kept.now.1, kept.since⟩ kept.now.2)
        ⟨fun _ _ kept => kept, fun _ _ kept => kept, fun _ kept => kept, fun _ kept => kept⟩

theorem holding_resumeExecution {continues : Dbg κ Unit}
    (continued : Preserves (Holding tracee holds holds base) continues) :
    Preserves (Holding tracee holds holds base) (resumeExecution host continues) := by
  have same : ∀ mem breakpoints, holds mem breakpoints → holds mem breakpoints :=
    fun _ _ held => held
  refine Preserves.bind (.gets _) fun globals => Preserves.bind ?_ fun _ =>
    Preserves.bind (holding_modifyGlobals fun _ => rfl) fun _ =>
      (holding_waitProgram same upkeep false continued).bind fun _ => .pure ()
  split
  · exact holding_resume same rfl
  · exact holding_resume same rfl

theorem holding_continueExecution (depth : Nat) :
    Preserves (Holding tracee holds holds base) (continueExecution host depth) := by
  have same : ∀ mem breakpoints, holds mem breakpoints → holds mem breakpoints :=
    fun _ _ held => held
  induction depth with
  | zero => exact .noReturn
  | succ depth inductionHypothesis =>
      have resumes := holding_resumeExecution upkeep inductionHypothesis
      refine ((holding_calm same).getRegister _).bind fun addr => Preserves.bind (.gets _)
        fun globals => ?_
      refine Preserves.ite ((holding_singleStep upkeep _).bind fun stepped => ?_) resumes
      exact Preserves.ite resumes (.pure ())

/-! ## Commands -/

variable (edits : Upkeep.Edits holds)

include edits

omit upkeep in
theorem holding_placeBreakpoint (addr : Addr) (flags : MyBpFlags) :
    Keeps (Holding tracee holds holds base) (Holding tracee holds holds base)
      (HeldSince tracee holds base)
      (placeBreakpoint host addr flags) := by
  have same : ∀ mem breakpoints, holds mem breakpoints → holds mem breakpoints :=
    fun _ _ held => held
  intro state holding
  by_cases isCode : flags &&& myBpSyscall = 0
  · refine wp_placeBreakpoint_code tracee isCode addr
      (fun _ after unwritten => holding.unwritten same unwritten) fun _ middle written globals => ?_
    have since := HeldSince.written same holding.now holding.since written
    unfold wp
    rw [appendBreakpoint_apply, globals]
    split
    · refine ⟨?_, since⟩
      change holds (tracee.mem middle.kernel) _
      rw [written.mem]
      exact edits.place _ _ addr flags isCode holding.now
    · exact since
  · unfold wp placeBreakpoint
    rw [if_neg isCode, Program.bind_ok (rfl : getGlobals state = .ok state.globals state),
      appendBreakpoint_apply]
    split
    · refine ⟨edits.placeSyscall _ _ _ ?_ holding.now, holding.since⟩
      simpa [MyBp.placed, MyBp.isSyscall] using isCode
    · exact holding.since

omit upkeep in
theorem holding_cmdBreakDel (nb : Nat) :
    Keeps (Holding tracee holds holds base) (Holding tracee holds holds base)
      (HeldSince tracee holds base)
      (cmdBreakDel nb : Dbg κ Unit) := by
  intro state holding
  unfold wp
  cases accepted : acceptedId state.globals.gBreakpoints nb with
  | none =>
      obtain ⟨message, _, ends⟩ := cmdBreakDel_refused accepted
      rw [ends]
      exact ⟨holding.now, holding.since.grows rfl holding.now⟩
  | some bp =>
      have deleted := edits.delete _ _ (nb - 1) bp (acceptedId_eq_some.mp accepted).2.1 holding.now
      rw [cmdBreakDel_accepted accepted]
      split
      · exact ⟨deleted, holding.since.grows rfl deleted⟩
      · exact holding.since

/-- Every command keeps `holds`, and it is true at every event on the way. -/
theorem holding_exec (depth : Nat) (command : Command) :
    Keeps (Holding tracee holds holds base) (Holding tracee holds holds base)
      (HeldSince tracee holds base)
      (exec host depth command) := by
  have same : ∀ mem breakpoints, holds mem breakpoints → holds mem breakpoints :=
    fun _ _ held => held
  have calm : Calm host (Holding tracee holds holds base) := holding_calm same
  have weaker :
      ∀ state, Holding tracee holds holds base state → HeldSince tracee holds base state :=
    fun _ holding => holding.since
  have same' : ∀ state, Holding tracee holds holds base state →
      Holding tracee holds holds base state := fun _ holding => holding
  have print (message : Message) : Keeps (Holding tracee holds holds base)
      (Holding tracee holds holds base) (HeldSince tracee holds base)
      (printf message : Dbg κ Unit) :=
    .of_preserves same' weaker (holding_printf same message)
  have read (reg : MyReg) : Keeps (Holding tracee holds holds base)
      (Holding tracee holds holds base) (HeldSince tracee holds base) (getRegister host reg) :=
    .of_preserves same' weaker (calm.getRegister reg)
  have step : Keeps (Holding tracee holds holds base) (Holding tracee holds holds base)
      (HeldSince tracee holds base)
      (singleStep host (continueExecution host depth)) :=
    .of_preserves same' weaker (holding_singleStep upkeep _)
  have continues : Keeps (Holding tracee holds holds base) (Holding tracee holds holds base)
      (HeldSince tracee holds base)
      (continueExecution host depth) :=
    .of_preserves same' weaker (holding_continueExecution upkeep depth)
  have place (addr : Addr) (flags : MyBpFlags) (message : Nat → Message) :
      Keeps (Holding tracee holds holds base) (Holding tracee holds holds base)
      (HeldSince tracee holds base)
        (placeBreakpoint host addr flags >>= fun nb => printf (message nb)) :=
    (holding_placeBreakpoint edits addr flags).bind fun nb => print (message nb)
  cases command with
  | «break» addr => exact place addr 0 _
  | tbreak addr => exact place addr myBpTemp _
  | breakf addr => exact Keeps.ite (print _) (place addr 0 _)
  | breakl addr => exact place addr _ fun _ => .linePlaced addr
  | breaks syscall =>
      refine Keeps.bind ?_ fun _ => print _
      refine Keeps.bind (.gets _) fun globals => ?_
      refine Keeps.bind (.of_preserves same' weaker (Calm.myRealloc _)) fun _ => ?_
      refine Keeps.bind (.of_preserves same' weaker (holding_modifyGlobals fun _ => rfl))
        fun _ => ?_
      exact (holding_placeBreakpoint edits _ _).bind fun _ => .pure ()
  | breakDel nb => exact holding_cmdBreakDel edits nb
  | stepInstr => exact step.bind fun _ => (read _).bind fun _ => print _
  | nextInstr =>
      refine (read _).bind fun rip => ?_
      refine Keeps.bind (.of_preserves same' weaker calm.getCurrentInstruction) fun instr => ?_
      refine Keeps.bind (Keeps.ite ?_ ?_) fun _ => Keeps.bind (.gets _) fun _ => ?_
      · exact (holding_placeBreakpoint edits _ _).bind fun _ => continues
      · exact step.bind fun _ => .pure ()
      · exact Keeps.ite (.pure ()) ((read _).bind fun _ => print _)
  | finish =>
      refine Keeps.bind (.of_preserves same' weaker Calm.getFinishAddress) fun addr => ?_
      exact (holding_placeBreakpoint edits _ _).bind fun _ => continues.bind fun _ => print _
  | «continue» => exact (print _).bind fun _ => continues

end Holding

/-! ## Sessions -/

/-- The states in which the commands given in `first` and after it end. -/
def Reaches (host : Host κ) (first last : State κ) : Prop :=
  ∃ lines prompt, Session host first lines prompt ∧
    (last = prompt ∨ ∃ depth command, last = (exec host depth command prompt).state)

/-- An invariant with upkeep holds at every prompt and at every event. -/
theorem Upkeep.session {tracee : Tracee host} {holds : Memory → List MyBp → Prop}
    {may : List MyBp → Nat → Prop} {first last : State κ} {lines : List Line}
    (upkeep : Upkeep tracee.code holds may) (edits : Upkeep.Edits holds)
    (start : holds (tracee.mem first.kernel) first.globals.gBreakpoints)
    (session : Session host first lines last) :
    Holding tracee holds holds first.trace last := by
  refine session.keeps (fun line _ => holding_exec upkeep edits line.depth line.command) ?_
    fun _ _ => trivial
  exact ⟨start, [], rfl, fun _ member => by cases member⟩

theorem Upkeep.reaches {tracee : Tracee host} {holds : Memory → List MyBp → Prop}
    {may : List MyBp → Nat → Prop} {first last : State κ}
    (upkeep : Upkeep tracee.code holds may) (edits : Upkeep.Edits holds)
    (start : holds (tracee.mem first.kernel) first.globals.gBreakpoints)
    (reaches : Reaches host first last) : HeldSince tracee holds first.trace last := by
  obtain ⟨lines, prompt, session, rfl | ⟨depth, command, rfl⟩⟩ := reaches
  · exact (upkeep.session edits start session).since
  · have keeps := holding_exec upkeep edits depth command prompt
      (upkeep.session edits start session)
    unfold wp at keeps
    cases outcome : exec host depth command prompt with
    | ok value after => rw [outcome] at keeps; exact keeps.since
    | throw raised after => rw [outcome] at keeps; exact keeps.since
    | fault after => rw [outcome] at keeps; exact keeps
    | noReturn after => rw [outcome] at keeps; exact keeps

end MyDbg
