import MyDbg.Debugger.MainRuns
import MyDbg.Debugger.Steady

/-!
Contract: rules for invariants that look at every request and every message.

Owns: `Attentive`, what such an invariant has to survive, and from it that the
functions which run the tracee keep it; which of the commands are left to show;
and that what every command keeps holds whenever `main` is back at its prompt.

Does not own: any particular invariant.
-/

namespace MyDbg

open LittleEndian ProgramLogic Transition

variable {κ : Type} {host : Host κ} {invariant raised lost : State κ → Prop}

/-- Messages that neither place nor delete a breakpoint. -/
def Message.inert : Message → Bool
  | .breakpointPlaced _ _ => false
  | .deleted _ => false
  | _ => true

/-! ## Live breakpoints -/

/-- The breakpoint at `index` is at `addr` in the code, and was not deleted. -/
def LiveAt (index : Nat) (addr : Addr) (state : State κ) : Prop :=
  ∃ bp, state.globals.gBreakpoints[index]? = some bp ∧ bp.addr = addr ∧ bp.deleted = false ∧
    bp.isSyscall = false

theorem liveAt_found {state : State κ} {index : Nat} {addr : Addr}
    (found : getBreakpoint state.globals.gBreakpoints addr = some index) :
    LiveAt index addr state := by
  obtain ⟨bp, here, hit, _⟩ := getBreakpoint_eq_some.mp found
  obtain ⟨same, _, live, code⟩ := MyBp.hits_iff.mp hit
  exact ⟨bp, here, same, live, code⟩

/-- A toggle leaves breakpoints where they are. -/
theorem liveAt_toggle {index : Nat} {addr : Addr} (other : Nat) :
    Preserves (LiveAt index addr : State κ → Prop) (toggleBreakpoint host other) := by
  apply Preserves.of_wp
  intro state live
  cases found : state.globals.gBreakpoints[other]? with
  | none =>
      unfold wp
      rw [toggleBreakpoint_missing found]
      exact live
  | some toggled =>
      refine wp_toggleBreakpoint found (fun _ _ => live) (fun _ => live) ?_
      rintro _ word poked rfl
      refine ⟨live, ?_⟩
      obtain ⟨bp, here, same, alive, code⟩ := live
      by_cases equal : other = index
      · subst equal
        obtain rfl := Option.some.inj (here.symm.trans found)
        have inside := (List.getElem?_eq_some_iff.mp found).1
        exact ⟨bp.toggled, List.getElem?_set_self inside, same, alive, code⟩
      · exact ⟨bp, (List.getElem?_set_ne equal).trans here, same, alive, code⟩

/-- The parts of a hit. RIP is set to where the breakpoint is. -/
theorem wp_hitBreakpoint {state : State κ} {index : Nat} {addr : Addr} (holds : invariant state)
    (found : getBreakpoint state.globals.gBreakpoints addr = some index)
    (toggles : ∀ state, invariant state → LiveAt index addr state →
      wp (toggleBreakpoint host index) (Post.always invariant) state)
    (reports : ∀ state id, invariant state →
      invariant (state.record (.output (.breakpointHit id addr))))
    (rewinds : ∀ state, invariant state → LiveAt index addr state →
      wp (setRegister host .rip addr) (Post.always invariant) state)
    (globals : ∀ state globals, globals.gBreakpoints = state.globals.gBreakpoints →
      invariant state → invariant (state.withGlobals globals)) :
    wp (hitBreakpoint host index addr) (Post.always invariant) state := by
  have live := liveAt_found found
  obtain ⟨bp, here, _⟩ := getBreakpoint_eq_some.mp found
  have rest (middle : State κ) (holds : invariant middle) (live : LiveAt index addr middle) :
      wp (do
        Program.when (!bp.isInternal) (printf (.breakpointHit bp.id addr))
        setRegister host .rip addr
        modifyGlobals fun globals =>
          if globals.gSignum = sigtrap then { globals with gSignum := 0 } else globals)
        (Post.always invariant) middle := by
    have last (state : State κ) (holds : invariant state) (live : LiveAt index addr state) :
        wp (do
          setRegister host .rip addr
          modifyGlobals fun globals =>
            if globals.gSignum = sigtrap then { globals with gSignum := 0 } else globals)
          (Post.always invariant) state := by
      rw [wp_bind]
      refine wp_mono (rewinds state holds live)
        ⟨fun _ after holds => ?_, fun _ _ kept => kept, fun _ kept => kept, fun _ kept => kept⟩
      refine globals after _ ?_ holds
      dsimp only
      split <;> rfl
    rw [wp_bind, wp_when]
    exact ⟨fun _ => last _ (reports middle bp.id holds) live, fun _ => last middle holds live⟩
  unfold hitBreakpoint
  rw [wp_bind_ok (breakpointAt_apply here), wp_bind, wp_when]
  refine ⟨fun _ => ?_, fun _ => rest state holds live⟩
  exact wp_mono (wp_and (toggles state holds live) ((liveAt_toggle index).wp live))
    ⟨fun _ middle kept => rest middle kept.1 kept.2, fun _ _ kept => kept.1, fun _ kept => kept.1,
      fun _ kept => kept.1⟩

/-! ## Attentive invariants -/

/-- `invariant` survives requests for the registers, resumptions, stops and what is
printed; and it survives the toggles of live breakpoints and hits as wholes. -/
structure Attentive (host : Host κ) (invariant : State κ → Prop) : Prop where
  reads : ∀ state, invariant state → invariant (state.afterPtrace host .getregs)
  resumes : ∀ state request data, Request.resumes request = some data → invariant state →
    invariant (state.afterPtrace host request)
  kernel : ∀ state kernel, invariant state → invariant { state with kernel := kernel }
  waited : ∀ state wstatus, invariant state → invariant (state.record (.waited wstatus))
  printed : ∀ state message, message.inert = true → invariant state →
    invariant (state.record (.output message))
  globals : ∀ state globals, globals.gBreakpoints = state.globals.gBreakpoints →
    invariant state → invariant (state.withGlobals globals)
  toggles : ∀ state index addr, invariant state → LiveAt index addr state →
    wp (toggleBreakpoint host index) (Post.always invariant) state
  hits : ∀ state addr index, invariant state →
    getBreakpoint state.globals.gBreakpoints addr = some index →
    wp (hitBreakpoint host index addr) (Post.always invariant) state

theorem liveAt_attentive (index : Nat) (addr : Addr) :
    Attentive host (LiveAt index addr : State κ → Prop) where
  reads _ live := live
  resumes _ _ _ _ live := live
  kernel _ _ live := live
  waited _ _ live := live
  printed _ _ _ live := live
  globals state globals same live := by
    unfold LiveAt
    rw [State.withGlobals_globals, same]
    exact live
  toggles state other _ live _ := (liveAt_toggle other).wp live
  hits state addr' other live found := by
    refine wp_hitBreakpoint live found (fun _ live _ => (liveAt_toggle other).wp live)
      (fun _ _ live => live) (fun state live _ => ?_) fun state globals same live => ?_
    · unfold setRegister
      simp only [wp_bind, wp_myPtrace]
      exact ⟨fun _ _ => ⟨fun _ _ => live, fun _ => live⟩, fun _ => live⟩
    · unfold LiveAt
      rw [State.withGlobals_globals, same]
      exact live

namespace Attentive

theorem and {other : State κ → Prop} (left : Attentive host invariant)
    (right : Attentive host other) :
    Attentive host fun state => invariant state ∧ other state where
  reads state holds := ⟨left.reads state holds.1, right.reads state holds.2⟩
  resumes state request data resumes holds :=
    ⟨left.resumes state request data resumes holds.1,
      right.resumes state request data resumes holds.2⟩
  kernel state kernel holds := ⟨left.kernel state kernel holds.1, right.kernel state kernel holds.2⟩
  waited state wstatus holds :=
    ⟨left.waited state wstatus holds.1, right.waited state wstatus holds.2⟩
  printed state message inert holds :=
    ⟨left.printed state message inert holds.1, right.printed state message inert holds.2⟩
  globals state globals same holds :=
    ⟨left.globals state globals same holds.1, right.globals state globals same holds.2⟩
  toggles state index addr holds live :=
    wp_and (left.toggles state index addr holds.1 live)
      (right.toggles state index addr holds.2 live)
  hits state addr index holds found :=
    wp_and (left.hits state addr index holds.1 found) (right.hits state addr index holds.2 found)

variable (attentive : Attentive host invariant)

include attentive

theorem getregs : Preserves invariant (myPtrace host .getregs) := by
  apply Preserves.of_wp
  intro state holds
  rw [wp_myPtrace]
  exact ⟨fun _ _ => attentive.reads state holds, fun _ => attentive.reads state holds⟩

theorem getRegister (reg : MyReg) : Preserves invariant (getRegister host reg) :=
  Preserves.bind attentive.getregs fun _ => .pure _

theorem resume {request : Request} {data : Word} (resumes : request.resumes = some data) :
    Preserves invariant (myPtrace host request) := by
  apply Preserves.of_wp
  intro state holds
  have after := attentive.resumes state request data resumes holds
  rw [wp_myPtrace]
  exact ⟨fun _ _ => after, fun _ => after⟩

theorem printf {message : Message} (inert : message.inert = true) :
    Preserves invariant (printf message : Dbg κ Unit) :=
  Preserves.of_wp fun state holds => attentive.printed state message inert holds

theorem modifyGlobals {update : Globals → Globals}
    (same : ∀ globals, (update globals).gBreakpoints = globals.gBreakpoints) :
    Preserves invariant (modifyGlobals update : Dbg κ Unit) :=
  Preserves.of_wp fun state holds => attentive.globals state _ (same _) holds

theorem getCurrentInstruction : Preserves invariant (getCurrentInstruction host) :=
  (attentive.getRegister _).bind fun _ => Calm.getInstruction _

/-! ## Stops -/

theorem reportSignal : Preserves invariant (reportSignal : Dbg κ AfterStop) :=
  Preserves.bind (.gets _) fun _ =>
    Preserves.bind (.when _ (attentive.printf rfl)) fun _ => .pure _

theorem finishStop (stopsig : BitVec 8) (isBp : Bool) :
    Preserves invariant (finishStop host stopsig isBp) := by
  refine Preserves.ite (Preserves.bind ?_ fun next => ?_) attentive.reportSignal
  · refine Preserves.bind (attentive.modifyGlobals fun _ => rfl) fun _ => ?_
    refine (attentive.getRegister _).bind fun _ => ?_
    refine Preserves.bind (attentive.modifyGlobals fun _ => rfl) fun _ => ?_
    refine Preserves.bind (.gets _) fun _ => ?_
    apply Preserves.ite
    · exact Preserves.bind (attentive.printf rfl) fun _ => .pure _
    · exact Preserves.ite (.pure _) (.pure _)
  · cases next with
    | returns result => exact attentive.reportSignal
    | continues => exact .pure _

theorem handleStop (step : Bool) (stopsig : BitVec 8) :
    Preserves invariant (handleStop host step stopsig) := by
  refine Preserves.bind (attentive.modifyGlobals fun _ => rfl) fun _ => ?_
  refine Preserves.bind (.gets _) fun _ => Preserves.ite ?_ ?_
  · exact Preserves.bind (attentive.modifyGlobals fun _ => rfl) fun _ => .pure _
  · refine (attentive.getRegister _).bind fun rip => Preserves.of_wp ?_
    intro state holds
    simp only [wp_bind, wp_getGlobals]
    cases found : getBreakpoint state.globals.gBreakpoints (rip - 1) with
    | none => exact (attentive.finishStop stopsig _).wp holds
    | some index =>
        exact wp_mono (attentive.hits state _ index holds found)
          ⟨fun _ _ kept => (attentive.finishStop stopsig _).wp kept, fun _ _ kept => kept,
            fun _ kept => kept, fun _ kept => kept⟩

theorem handleEnd (wstatus : WStatus) :
    Preserves invariant (handleEnd wstatus : Dbg κ AfterStop) := by
  refine Preserves.bind (attentive.printf ?_) fun _ =>
    Preserves.bind (attentive.modifyGlobals fun _ => rfl) fun _ => .pure _
  cases wstatus <;> rfl

theorem waitStop (step : Bool) : Preserves invariant (waitStop host step) := by
  apply Preserves.of_wp
  intro state holds
  apply wp_waitStop
  · intro _
    exact holds
  · intro kernel _
    exact attentive.kernel state kernel holds
  · intro wstatus kernel stopsig _ _
    exact (attentive.handleStop step stopsig).wp
      (attentive.waited _ wstatus (attentive.kernel state kernel holds))
  · intro wstatus kernel _ _
    exact (attentive.handleEnd wstatus).wp
      (attentive.waited _ wstatus (attentive.kernel state kernel holds))

theorem waitProgram {continues : Dbg κ Unit} (step : Bool)
    (continued : Preserves invariant continues) :
    Preserves invariant (waitProgram host continues step) := by
  refine (attentive.waitStop step).bind fun next => ?_
  cases next with
  | returns result => exact .pure result
  | continues => exact continued.bind fun _ => .pure _

/-! ## Running the tracee -/

theorem stepOnce : Preserves invariant (stepOnce host (pure ())) := by
  refine Preserves.bind (.gets _) fun _ => (attentive.resume rfl).bind fun _ => ?_
  refine Preserves.bind (attentive.modifyGlobals fun _ => rfl) fun _ => ?_
  exact attentive.waitProgram true (.pure ())

/-- The breakpoint stepped from is still there when it is toggled again. -/
theorem singleStep (continues : Dbg κ Unit) :
    Preserves invariant (singleStep host continues) := by
  rw [singleStep_eq]
  refine (attentive.getRegister _).bind fun addr => Preserves.of_wp fun state holds => ?_
  simp only [wp_bind, wp_getGlobals]
  cases found : getBreakpoint state.globals.gBreakpoints addr with
  | none => exact attentive.stepOnce.wp holds
  | some index =>
      have live := liveAt_found found
      have both := attentive.and (liveAt_attentive index addr)
      refine wp_mono
        (wp_and (attentive.toggles state index addr holds live) ((liveAt_toggle index).wp live))
        ⟨fun _ middle kept => ?_, fun _ _ kept => kept.1, fun _ kept => kept.1,
          fun _ kept => kept.1⟩
      refine wp_mono (both.stepOnce.wp kept)
        ⟨fun ret stopped kept => ?_, fun _ _ kept => kept.1, fun _ kept => kept.1,
          fun _ kept => kept.1⟩
      exact wp_mono (attentive.toggles stopped index addr kept.1 kept.2)
        ⟨fun _ _ kept => kept, fun _ _ kept => kept, fun _ kept => kept, fun _ kept => kept⟩

theorem resumeExecution {continues : Dbg κ Unit} (continued : Preserves invariant continues) :
    Preserves invariant (resumeExecution host continues) := by
  refine Preserves.bind (.gets _) fun _ => Preserves.bind ?_ fun _ => ?_
  · split
    · exact attentive.resume rfl
    · exact attentive.resume rfl
  · refine Preserves.bind (attentive.modifyGlobals fun _ => rfl) fun _ => ?_
    exact (attentive.waitProgram false continued).bind fun _ => .pure _

theorem continueExecution (depth : Nat) :
    Preserves invariant (continueExecution host depth) := by
  induction depth with
  | zero => exact .noReturn
  | succ depth inductionHypothesis =>
      have resumes := attentive.resumeExecution inductionHypothesis
      refine (attentive.getRegister _).bind fun addr => Preserves.bind (.gets _) fun globals => ?_
      refine Preserves.ite ((attentive.singleStep _).bind fun stepped => ?_) resumes
      exact Preserves.ite resumes (.pure _)

end Attentive

/-- What is left to show of the commands that place and delete breakpoints. -/
structure Attentive.Edits (host : Host κ) (invariant lost : State κ → Prop) : Prop where
  loses : ∀ state, invariant state → lost state
  /-- `break`, `tbreak` and `breakf`. -/
  announced : ∀ addr flags, flags = 0 ∨ flags = myBpTemp →
    Keeps invariant invariant lost (do
      let nb ← placeBreakpoint host addr flags
      MyDbg.printf (.breakpointPlaced nb addr))
  hidden : ∀ addr, Keeps invariant invariant lost
    (placeBreakpoint host addr (myBpTemp ||| myBpInternal))
  watched : ∀ syscall, Keeps invariant invariant lost (addSyscallBreak host syscall)
  deleted : ∀ nb, Keeps invariant invariant lost (cmdBreakDel nb : Dbg κ Unit)

/-- Every command keeps the invariant. -/
theorem Attentive.exec (attentive : Attentive host invariant)
    (edits : Attentive.Edits host invariant lost) (depth : Nat) (command : Command) :
    Keeps invariant invariant lost (exec host depth command) := by
  have keep {α : Type} {program : Dbg κ α} (kept : Preserves invariant program) :
      Keeps invariant invariant lost program :=
    .of_preserves (fun _ holds => holds) edits.loses kept
  have print {message : Message} (inert : message.inert = true) :
      Keeps invariant invariant lost (MyDbg.printf message : Dbg κ Unit) :=
    keep (attentive.printf inert)
  have stepped (overCall : Bool) : Keeps invariant invariant lost (do
      let rip ← MyDbg.getRegister host .rip
      MyDbg.printf (.stepped overCall rip)) :=
    (keep (attentive.getRegister _)).bind fun _ => print rfl
  cases command with
  | «break» addr => exact edits.announced addr 0 (.inl rfl)
  | tbreak addr => exact edits.announced addr myBpTemp (.inr rfl)
  | breakf addr => exact Keeps.ite (print rfl) (edits.announced addr 0 (.inl rfl))
  | breakl addr => exact (edits.hidden addr).bind fun _ => print rfl
  | breaks syscall => exact (edits.watched syscall).bind fun _ => print rfl
  | breakDel nb => exact edits.deleted nb
  | stepInstr => exact (keep (attentive.singleStep _)).bind fun _ => stepped false
  | nextInstr =>
      refine (keep (attentive.getRegister _)).bind fun rip => ?_
      refine (keep attentive.getCurrentInstruction).bind fun instr => ?_
      refine Keeps.bind (Keeps.ite ?_ ?_) fun _ => Keeps.bind (.gets _) fun _ => ?_
      · exact (edits.hidden _).bind fun _ => keep (attentive.continueExecution depth)
      · exact (keep (attentive.singleStep _)).bind fun _ => .pure _
      · exact Keeps.ite (.pure _) (stepped _)
  | finish =>
      refine (keep Calm.getFinishAddress).bind fun addr => (edits.hidden addr).bind fun _ => ?_
      exact (keep (attentive.continueExecution depth)).bind fun _ => print rfl
  | «continue» => exact (print rfl).bind fun _ => keep (attentive.continueExecution depth)

/-! ## The loop of `main` -/

section Main

open Main

variable {cmds : List (MyCmd Registration)} {depth : Nat} {input : List (List (List Char))}
  {tokens : List (List Char)} {before after : Console κ}

theorem Attentive.interludes (attentive : Attentive host invariant) {first last : State κ}
    (interludes : Interludes host first last) (holds : invariant first) : invariant last := by
  induction interludes with
  | refl => exact holds
  | tail _ interlude inductionHypothesis =>
      cases interlude with
      | reads => exact attentive.reads _ inductionHypothesis
      | prints message aside =>
          refine attentive.printed _ message ?_ inductionHypothesis
          cases message <;> first | rfl | cases aside
      | looks kernel => exact attentive.kernel _ kernel inductionHypothesis

theorem Attentive.attaches (attentive : Attentive host invariant) {world : World κ}
    {pid : Attach.Pid} (attaches : Attached world pid before after)
    (holds : invariant before.state) : invariant after.state := by
  rw [attaches.state]
  exact attentive.kernel before.state after.state.kernel holds

theorem Attentive.acts {world : World κ} (attentive : Attentive world.host invariant)
    (edits : Attentive.Edits world.host invariant lost) {function : Function}
    {args : List (List Char)} {back : Return}
    (acts : Acts world depth function args back before after) (holds : invariant before.state) :
    invariant after.state := by
  cases acts with
  | shows passes => exact attentive.interludes passes.state holds
  | lacks passes => exact attentive.interludes passes.state holds
  | refuses _ _ _ _ _ passes => exact attentive.interludes passes.state holds
  | runs middle _ command _ _ passes _ prompt _ =>
      have kept := attentive.exec edits depth command _ (attentive.interludes passes.state holds)
      cases back with
      | normal => exact kept.ok prompt
      | raised raised => exact kept.throw prompt
  | attaches middle _ passes _ _ _ attaches =>
      exact attentive.attaches attaches (attentive.interludes passes.state holds)
  | declines passes => exact attentive.interludes passes.state holds
  | objects _ _ passes => exact attentive.interludes passes.state holds
  | quits _ _ state _ =>
      rw [state]
      exact attentive.globals _ _ rfl holds

theorem Attentive.strands {world : World κ} (attentive : Attentive world.host invariant)
    (edits : Attentive.Edits world.host invariant lost) {function : Function}
    {args : List (List Char)} (strands : Strands world depth function args before after)
    (holds : invariant before.state) :
    lost after.state := by
  cases strands with
  | session middle _ command _ _ passes _ stranded _ =>
      have kept := attentive.exec edits depth command _ (attentive.interludes passes.state holds)
      unfold wp at kept
      rcases stranded with outcome | outcome
      · rw [outcome] at kept
        exact kept
      · rw [outcome] at kept
        exact kept
  | attaches middle _ passes _ _ _ attaches _ =>
      exact edits.loses _ (attentive.attaches attaches (attentive.interludes passes.state holds))
  | looks middle passes _ left =>
      exact edits.loses _
        (attentive.interludes left.state (attentive.interludes passes.state holds))

theorem Attentive.does {world : World κ} (attentive : Attentive world.host invariant)
    (edits : Attentive.Edits world.host invariant lost)
    (does : Does world cmds depth tokens before after) (holds : invariant before.state) :
    invariant after.state := by
  cases does with
  | empty _ same => exact same ▸ holds
  | unknown name _ _ text warned => exact warned ▸ holds
  | refused cmd _ _ _ warned => exact warned ▸ holds
  | runs cmd selects back middle acts reports =>
      obtain ⟨notices, rfl⟩ := reports.notices
      exact (attentive.acts edits acts holds : invariant middle.state)

theorem Attentive.turns {world : World κ} (attentive : Attentive world.host invariant)
    (edits : Attentive.Edits world.host invariant lost)
    (run : Run (Turn world cmds depth) before input after) (holds : invariant before.state) :
    invariant after.state := by
  refine Run.invariant (fun console => invariant console.state) holds
    (fun tokens before after held turn => ?_) run
  exact attentive.does edits turn.does held

/-- An attentive invariant holds wherever `main` ends, and what is weaker than it where
the debugger is lost. -/
theorem Attentive.main (attentive : Attentive host invariant) (world : World κ)
    (same : world.host = host) (edits : Attentive.Edits host invariant lost)
    (holds : invariant before.state) :
    wp (mainLoop world cmds depth input)
      { ok := fun _ after => invariant after.state
        throw := fun _ _ => False
        fault := fun after => lost after.state
        noReturn := fun after => lost after.state } before := by
  subst same
  have loses (after : Console κ) (loses : Loses world cmds depth input before after) :
      lost after.state := by
    obtain ⟨_, _, _, prompt, _, run, turn⟩ := loses
    have there := attentive.turns edits run holds
    cases turn.sinks with
    | strands cmd _ strands => exact attentive.strands edits strands there
    | exits cmd _ acts => exact edits.loses _ (attentive.acts edits acts there)
  refine wp_mono (mainLoop_takes world cmds depth input before)
    ⟨fun _ after finishes => ?_, fun _ _ impossible => impossible, loses, loses⟩
  obtain ⟨_, _, _, run, _⟩ := finishes
  exact attentive.turns edits run holds

end Main

end MyDbg
