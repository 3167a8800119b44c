import MyDbg.Debugger.Upkeep

/-!
Contract: rules for invariants about the breakpoint list and the trace.

Owns: `Placid`, what an invariant has to survive for every function to keep it
that neither writes memory nor waits; `Lasting` and `Steady`, what one that does
not look at the kernel has to survive, and from it that every function keeps it
that toggles no breakpoint; `Permanent`, which survives all of them; what commands
that come back normally make of an invariant; and that nothing but its own toggle
changes a disabled breakpoint.

Does not own: any law of the kernel.
-/

namespace MyDbg

open LittleEndian ProgramLogic Transition

variable {κ : Type} {host : Host κ} {invariant : State κ → Prop}

/-- Events that say nothing about a breakpoint. -/
def Event.Idle : Event → Prop
  | .output (.breakpointHit _ _) => False
  | .output (.deleted _) => False
  | _ => True

/-- `invariant` survives what neither writes memory nor waits nor changes the
breakpoints. -/
structure Placid (host : Host κ) (invariant : State κ → Prop) : Prop where
  request : ∀ state request, (∀ addr data, request ≠ .pokedata addr data) → invariant state →
    invariant (state.afterPtrace host request)
  printed : ∀ state message, Event.Idle (.output message) → invariant state →
    invariant (state.record (.output message))
  globals : ∀ state globals, globals.gBreakpoints = state.globals.gBreakpoints →
    invariant state → invariant (state.withGlobals globals)

namespace Placid

variable (placid : Placid host invariant)

include placid

theorem myPtrace (request : Request) (reads : ∀ addr data, request ≠ .pokedata addr data) :
    Preserves invariant (myPtrace host request) := by
  apply Preserves.of_wp
  intro state holds
  rw [wp_myPtrace]
  exact ⟨fun _ _ => placid.request state request reads holds,
    fun _ => placid.request state request reads holds⟩

theorem printf {message : Message} (idle : Event.Idle (.output message)) :
    Preserves invariant (printf message : Dbg κ Unit) := by
  apply Preserves.of_wp
  intro state holds
  exact placid.printed state _ idle holds

theorem modifyGlobals {update : Globals → Globals}
    (same : ∀ globals, (update globals).gBreakpoints = globals.gBreakpoints) :
    Preserves invariant (modifyGlobals update : Dbg κ Unit) := by
  apply Preserves.of_wp
  intro state holds
  exact placid.globals state _ (same _) holds

theorem getRegister (reg : MyReg) : Preserves invariant (getRegister host reg) :=
  Preserves.bind (placid.myPtrace .getregs nofun) fun _ => .pure _

theorem setRegister (reg : MyReg) (value : Word) :
    Preserves invariant (setRegister host reg value) :=
  Preserves.bind (placid.myPtrace .getregs nofun) fun _ =>
    Preserves.bind (placid.myPtrace (.setregs _) nofun) fun _ => .pure _

theorem getCurrentInstruction : Preserves invariant (getCurrentInstruction host) :=
  (placid.getRegister _).bind fun _ => Calm.getInstruction _

/-! ## Stops -/

theorem reportSignal : Preserves invariant (reportSignal : Dbg κ AfterStop) :=
  Preserves.bind (.gets _) fun _ =>
    Preserves.bind (.when _ (placid.printf trivial)) fun _ => .pure _

theorem finishStop (stopsig : BitVec 8) (isBp : Bool) :
    Preserves invariant (finishStop host stopsig isBp) := by
  refine Preserves.ite (Preserves.bind ?_ fun next => ?_) placid.reportSignal
  · refine Preserves.bind (placid.modifyGlobals fun _ => rfl) fun _ => ?_
    refine (placid.getRegister _).bind fun _ => ?_
    refine Preserves.bind (placid.modifyGlobals fun _ => rfl) fun _ => ?_
    refine Preserves.bind (.gets _) fun _ => ?_
    apply Preserves.ite
    · exact Preserves.bind (placid.printf trivial) fun _ => .pure _
    · exact Preserves.ite (.pure _) (.pure _)
  · cases next with
    | returns result => exact placid.reportSignal
    | continues => exact .pure _

theorem handleEnd (wstatus : WStatus) :
    Preserves invariant (handleEnd wstatus : Dbg κ AfterStop) := by
  refine Preserves.bind (placid.printf ?_) fun _ =>
    Preserves.bind (placid.modifyGlobals fun _ => rfl) fun _ => .pure _
  cases wstatus <;> trivial

/-- What follows the toggle of a hit. -/
theorem rewind (addr : Addr) : Preserves invariant (do
    MyDbg.setRegister host .rip addr
    MyDbg.modifyGlobals fun globals =>
      if globals.gSignum = sigtrap then { globals with gSignum := 0 } else globals) := by
  refine (placid.setRegister _ _).bind fun _ => placid.modifyGlobals ?_
  intro globals
  split <;> rfl

end Placid

/-- `invariant` survives idle events, and looks at no more than the breakpoints and
the trace. -/
structure Lasting (invariant : State κ → Prop) : Prop where
  event : ∀ state event, Event.Idle event → invariant state → invariant (state.record event)
  kernel : ∀ state kernel, invariant state → invariant { state with kernel := kernel }
  globals : ∀ state globals, globals.gBreakpoints = state.globals.gBreakpoints →
    invariant state → invariant (state.withGlobals globals)

namespace Lasting

variable (lasting : Lasting invariant)

include lasting

theorem afterPtrace {state : State κ} (request : Request) (holds : invariant state) :
    invariant (state.afterPtrace host request) :=
  lasting.kernel _ _ (lasting.event state _ trivial holds)

theorem placid : Placid host invariant where
  request _ request _ := lasting.afterPtrace request
  printed state message := lasting.event state (.output message)
  globals := lasting.globals

theorem myPtrace (request : Request) : Preserves invariant (myPtrace host request) := by
  apply Preserves.of_wp
  intro state holds
  rw [wp_myPtrace]
  exact ⟨fun _ _ => lasting.afterPtrace request holds, fun _ => lasting.afterPtrace request holds⟩

theorem stopped {state : State κ} (wstatus : WStatus) (kernel : κ) (holds : invariant state) :
    invariant (state.stoppedBy wstatus kernel) :=
  lasting.event _ _ trivial (lasting.kernel state kernel holds)

/-- An invariant that the hits of breakpoints keep. -/
theorem waitStop (hit : ∀ state addr index, invariant state →
      getBreakpoint state.globals.gBreakpoints addr = some index →
      wp (hitBreakpoint host index addr) (Post.always invariant) state) (step : Bool) :
    Preserves invariant (waitStop host step) := by
  have placid : Placid host invariant := lasting.placid
  apply Preserves.of_wp
  intro state holds
  apply wp_waitStop
  · intro _
    exact holds
  · intro kernel _
    exact lasting.kernel state kernel holds
  · intro wstatus kernel stopsig _ _
    have handled : Preserves invariant (handleStop host step stopsig) := by
      refine Preserves.bind (placid.modifyGlobals fun _ => rfl) fun _ => ?_
      refine Preserves.bind (.gets _) fun _ => Preserves.ite ?_ ?_
      · exact Preserves.bind (placid.modifyGlobals fun _ => rfl) fun _ => .pure _
      · refine (placid.getRegister _).bind fun rip => Preserves.of_wp ?_
        intro state holds
        simp only [wp_bind, wp_getGlobals]
        cases found : getBreakpoint state.globals.gBreakpoints (rip - 1) with
        | none => exact (placid.finishStop stopsig _).wp holds
        | some index =>
            exact wp_mono (hit state _ index holds found)
              ⟨fun _ _ kept => (placid.finishStop stopsig _).wp kept, fun _ _ kept => kept,
                fun _ kept => kept, fun _ kept => kept⟩
    exact handled.wp (lasting.stopped wstatus kernel holds)
  · intro wstatus kernel _ _
    exact (placid.handleEnd wstatus).wp (lasting.stopped wstatus kernel holds)

end Lasting

/-- `invariant` survives placements too. -/
structure Steady (invariant : State κ → Prop) : Prop extends Lasting invariant where
  placed : ∀ state addr flags word, invariant state → invariant (state.withGlobals
    { state.globals with gBreakpoints :=
        state.globals.gBreakpoints ++ [.placed state.globals.gBreakpoints addr flags word] })

namespace Steady

variable (steady : Steady invariant)

include steady

theorem appendBreakpoint (addr : Addr) (flags : MyBpFlags) (word : Word) :
    Preserves invariant (appendBreakpoint addr flags word : Dbg κ Nat) := by
  apply Preserves.of_wp
  intro state holds
  unfold wp
  rw [appendBreakpoint_apply]
  split
  · exact steady.placed state addr flags word holds
  · exact holds

theorem placeBreakpoint (addr : Addr) (flags : MyBpFlags) :
    Preserves invariant (placeBreakpoint host addr flags) := by
  apply Preserves.ite
  · refine (steady.myPtrace _).bind fun _ => (steady.myPtrace _).bind fun _ => ?_
    exact steady.appendBreakpoint addr flags _
  · exact Preserves.bind (.gets _) fun _ => steady.appendBreakpoint addr flags _

theorem addSyscallBreak (syscall : BitVec 32) :
    Preserves invariant (addSyscallBreak host syscall) := by
  have placid : Placid host invariant := steady.placid
  refine Preserves.bind (.gets _) fun _ => (Calm.myRealloc _).bind fun _ => ?_
  refine Preserves.bind (placid.modifyGlobals fun _ => rfl) fun _ => ?_
  exact (steady.placeBreakpoint _ _).bind fun _ => .pure _

/-! ## Commands -/

/-- Every command keeps what single steps, continuations and deletions keep. -/
theorem exec {raised lost : State κ → Prop} (raises : ∀ state, invariant state → raised state)
    (loses : ∀ state, invariant state → lost state)
    (step : ∀ depth, Keeps invariant raised lost (singleStep host (continueExecution host depth)))
    (continues : ∀ depth, Keeps invariant raised lost (continueExecution host depth))
    (deletes : ∀ nb, Keeps invariant raised lost (cmdBreakDel nb : Dbg κ Unit)) (depth : Nat)
    (command : Command) : Keeps invariant raised lost (exec host depth command) := by
  have placid : Placid host invariant := steady.placid
  have print {message : Message} (idle : Event.Idle (.output message)) :
      Keeps invariant raised lost (MyDbg.printf message : Dbg κ Unit) :=
    .of_preserves raises loses (placid.printf idle)
  have place (addr : Addr) (flags : MyBpFlags) :
      Keeps invariant raised lost (MyDbg.placeBreakpoint host addr flags) :=
    .of_preserves raises loses (steady.placeBreakpoint addr flags)
  have read (reg : MyReg) : Keeps invariant raised lost (MyDbg.getRegister host reg) :=
    .of_preserves raises loses (placid.getRegister reg)
  have stepped (overCall : Bool) : Keeps invariant raised lost (do
      let rip ← MyDbg.getRegister host .rip
      MyDbg.printf (.stepped overCall rip)) := (read _).bind fun _ => print trivial
  cases command with
  | «break» addr => exact (place addr 0).bind fun _ => print trivial
  | tbreak addr => exact (place addr myBpTemp).bind fun _ => print trivial
  | breakf addr => exact Keeps.ite (print trivial) ((place addr 0).bind fun _ => print trivial)
  | breakl addr => exact (place addr _).bind fun _ => print trivial
  | breaks syscall =>
      exact Keeps.bind (.of_preserves raises loses (steady.addSyscallBreak syscall)) fun _ =>
        print trivial
  | breakDel nb => exact deletes nb
  | stepInstr => exact (step depth).bind fun _ => stepped false
  | nextInstr =>
      refine (read _).bind fun rip => ?_
      refine Keeps.bind (.of_preserves raises loses placid.getCurrentInstruction) fun instr => ?_
      refine Keeps.bind (Keeps.ite ?_ ?_) fun _ => Keeps.bind (.gets _) fun _ => ?_
      · exact (place _ _).bind fun _ => continues depth
      · exact (step depth).bind fun _ => .pure _
      · exact Keeps.ite (.pure _) (stepped _)
  | finish =>
      refine Keeps.bind (.of_preserves raises loses Calm.getFinishAddress) fun addr => ?_
      exact (place _ _).bind fun _ => (continues depth).bind fun _ => print trivial
  | «continue» => exact Keeps.bind (print trivial) fun _ => continues depth

end Steady

/-- `invariant` survives whatever happens. -/
structure Permanent (invariant : State κ → Prop) : Prop where
  event : ∀ state event, invariant state → invariant (state.record event)
  kernel : ∀ state kernel, invariant state → invariant { state with kernel := kernel }
  globals : ∀ state globals, invariant state → invariant (state.withGlobals globals)

namespace Permanent

variable (permanent : Permanent invariant)

include permanent

theorem asked (state : State κ) (request : Request) (holds : invariant state) :
    invariant (state.afterPtrace host request) :=
  permanent.kernel _ _ (permanent.event state _ holds)

theorem lasting : Lasting invariant where
  event state event _ := permanent.event state event
  kernel := permanent.kernel
  globals state globals _ := permanent.globals state globals

theorem stable : Stable host invariant :=
  Stable.of_quiet (fun state request _ => permanent.asked state request)
    (fun state event _ => permanent.event state event)
    fun state _ _ _ => permanent.globals state _

theorem printf (message : Message) : Preserves invariant (printf message : Dbg κ Unit) :=
  Preserves.of_wp fun state holds => permanent.event state (.output message) holds

theorem hitBreakpoint (index : Nat) (addr : Addr) :
    Preserves invariant (hitBreakpoint host index addr) := by
  have stable : Stable host invariant := permanent.stable
  refine (Calm.breakpointAt index).bind fun bp => ?_
  refine (Preserves.when _ (stable.toggleBreakpoint index)).bind fun _ => ?_
  refine (Preserves.when _ (permanent.printf _)).bind fun _ => ?_
  exact permanent.lasting.placid.rewind addr

theorem waitProgram {continues : Dbg κ Unit} (step : Bool)
    (continued : Preserves invariant continues) :
    Preserves invariant (waitProgram host continues step) := by
  refine Preserves.bind (permanent.lasting.waitStop ?_ step) fun next => ?_
  · intro state addr index holds _
    exact (permanent.hitBreakpoint index addr).wp holds
  · cases next with
    | returns result => exact .pure result
    | continues => exact continued.bind fun _ => .pure _

theorem singleStep {continues : Dbg κ Unit} (continued : Preserves invariant continues) :
    Preserves invariant (singleStep host continues) := by
  have stable : Stable host invariant := permanent.stable
  have toggles (bp : Option Nat) :
      Preserves invariant (Program.forSome bp (toggleBreakpoint host)) :=
    .forSome bp fun index => stable.toggleBreakpoint index
  refine (stable.getRegister _).bind fun addr => Preserves.bind (.gets _) fun globals => ?_
  refine (toggles _).bind fun _ => Preserves.bind ?_ fun ret => (toggles _).bind fun _ => .pure ret
  refine Preserves.bind (.gets _) fun _ => (permanent.lasting.myPtrace _).bind fun _ => ?_
  refine Preserves.bind (.of_wp fun state holds => permanent.globals state _ holds) fun _ => ?_
  exact permanent.waitProgram true continued

theorem resumeExecution {continues : Dbg κ Unit} (continued : Preserves invariant continues) :
    Preserves invariant (resumeExecution host continues) := by
  refine Preserves.bind (.gets _) fun _ => (permanent.lasting.myPtrace _).bind fun _ => ?_
  refine Preserves.bind (.of_wp fun state holds => permanent.globals state _ holds) fun _ => ?_
  exact (permanent.waitProgram false continued).bind fun _ => .pure _

theorem continueExecution (depth : Nat) :
    Preserves invariant (continueExecution host depth) := by
  have stable : Stable host invariant := permanent.stable
  induction depth with
  | zero => exact .noReturn
  | succ depth inductionHypothesis =>
      refine (stable.getRegister _).bind fun addr => Preserves.bind (.gets _) fun globals => ?_
      apply Preserves.ite
      · refine (permanent.singleStep inductionHypothesis).bind fun stepped => ?_
        exact Preserves.ite (permanent.resumeExecution inductionHypothesis) (.pure _)
      · exact permanent.resumeExecution inductionHypothesis

end Permanent

/-- What holds at the end of a session whose commands all come back normally. -/
theorem Session.returns {raised lost : State κ → Prop} {first last : State κ} {lines : List Line}
    (kept : ∀ depth command, Keeps invariant raised lost (exec host depth command))
    (start : invariant first) (session : Session host first lines last)
    (normal : ∀ line ∈ lines, line.back = .normal) : invariant last := by
  induction session with
  | refl => exact start
  | @tail labels middle last line _ prompt inductionHypothesis =>
      have before := inductionHypothesis fun line member => normal line (by simp [member])
      have back := normal line (by simp)
      unfold Prompt at prompt
      rw [back] at prompt
      exact (kept line.depth line.command _ before).ok prompt

/-! ## Disabled breakpoints -/

section Disabled

variable {state : State κ} {index : Nat} {bp : MyBp}

/-- What the place `index` of the list holds. -/
def HasBreakpoint (index : Nat) (bp : MyBp) (state : State κ) : Prop :=
  state.globals.gBreakpoints[index]? = some bp

theorem hasBreakpoint_steady : Steady (HasBreakpoint index bp : State κ → Prop) where
  event _ _ _ found := found
  kernel _ _ found := found
  globals state globals same found := by
    unfold HasBreakpoint
    rw [State.withGlobals_globals, same]
    exact found
  placed state addr flags word found := by
    have inside := (List.getElem?_eq_some_iff.mp found).1
    exact (List.getElem?_append_left inside).trans found

/-- Another breakpoint is toggled. -/
theorem toggleBreakpoint_other {other : Nat} (apart : other ≠ index)
    (found : HasBreakpoint index bp state) :
    wp (toggleBreakpoint host other) (Post.always (HasBreakpoint index bp)) state := by
  cases there : state.globals.gBreakpoints[other]? with
  | none =>
      unfold wp
      rw [toggleBreakpoint_missing there]
      exact found
  | some toggled =>
      apply wp_toggleBreakpoint there
      · intro _ _
        exact found
      · intro _
        exact found
      · rintro _ word poked rfl
        exact ⟨found, (List.getElem?_set_ne apart).trans found⟩

/-- The breakpoint that is hit is another one. -/
theorem hitBreakpoint_disabled {hit : Nat} {addr : Addr} (disabled : bp.enabled = false)
    (found : HasBreakpoint index bp state)
    (first : getBreakpoint state.globals.gBreakpoints addr = some hit) :
    wp (hitBreakpoint host hit addr) (Post.always (HasBreakpoint index bp)) state := by
  have placid : Placid host (HasBreakpoint index bp) := hasBreakpoint_steady.placid
  obtain ⟨other, there, hits, _⟩ := getBreakpoint_eq_some.mp first
  have apart : hit ≠ index := by
    rintro rfl
    obtain rfl := Option.some.inj (there.symm.trans found)
    rw [(MyBp.hits_iff.mp hits).2.1] at disabled
    cases disabled
  have report (id : Nat) : Preserves (HasBreakpoint index bp)
      (printf (.breakpointHit id addr) : Dbg κ Unit) := Preserves.of_wp fun _ found => found
  have rest : Preserves (HasBreakpoint index bp) (do
      Program.when (!other.isInternal) (printf (.breakpointHit other.id addr))
      setRegister host .rip addr
      modifyGlobals fun globals =>
        if globals.gSignum = sigtrap then { globals with gSignum := 0 } else globals) :=
    Preserves.bind (.when _ (report _)) fun _ => placid.rewind addr
  unfold hitBreakpoint
  rw [wp_bind_ok (breakpointAt_apply there), wp_bind, wp_when]
  constructor
  · intro _
    exact wp_mono (toggleBreakpoint_other apart found)
      ⟨fun _ _ kept => rest.wp kept, fun _ _ kept => kept, fun _ kept => kept, fun _ kept => kept⟩
  · intro _
    exact rest.wp found

theorem stepOnce_disabled (disabled : bp.enabled = false) :
    Preserves (HasBreakpoint index bp) (stepOnce host (pure ())) := by
  have steady : Steady (HasBreakpoint index bp : State κ → Prop) := hasBreakpoint_steady
  have placid : Placid host (HasBreakpoint index bp) := steady.placid
  refine Preserves.bind (.gets _) fun _ => (steady.myPtrace _).bind fun _ => ?_
  refine Preserves.bind (placid.modifyGlobals fun _ => rfl) fun _ => ?_
  refine (steady.waitStop (fun _ _ _ found first =>
    hitBreakpoint_disabled disabled found first) true).bind fun next => ?_
  cases next with
  | returns result => exact .pure result
  | continues => exact Preserves.bind (.pure _) fun _ => .pure _

end Disabled

end MyDbg
