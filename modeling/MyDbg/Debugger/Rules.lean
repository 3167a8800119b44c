import MyDbg.Debugger.Commands

/-!
Contract: rules for invariants that do not look at the breakpoints.

Owns: `Stable`, what such an invariant has to survive, and from it that every
function which neither resumes the tracee nor waits for it keeps the
invariant; and the rule that turns the invariants of the three functions that
do into an invariant of every session.

Does not own: any particular invariant.
-/

namespace MyDbg

open LittleEndian ProgramLogic Transition

variable {κ : Type} {host : Host κ} {invariant : State κ → Prop}

/-- Requests that neither resume the tracee nor write its memory. -/
def Request.Calm : Request → Prop
  | .peekdata _ => True
  | .getregs => True
  | .setregs _ => True
  | _ => False

/-- Events other than a resumption and a stop. -/
def Event.Quiet : Event → Prop
  | .ptrace request _ => request.resumes = none
  | .waited _ => False
  | .toggle _ => True
  | .output _ => True

/-- `invariant` survives calm requests and what is printed, syscall reports
excepted. -/
structure Calm (host : Host κ) (invariant : State κ → Prop) : Prop where
  calm : ∀ state request, Request.Calm request → invariant state →
    invariant (state.afterPtrace host request)
  printed : ∀ state message, message.catches = false → invariant state →
    invariant (state.record (.output message))

/-- `invariant` survives everything that leaves the tracee stopped. -/
structure Stable (host : Host κ) (invariant : State κ → Prop) : Prop
    extends Calm host invariant where
  poked : ∀ state addr data, invariant state →
    invariant (state.afterPtrace host (.pokedata addr data))
  toggled : ∀ state index, invariant state → invariant (state.record (.toggle index))
  tables : ∀ state breakpoints (syscalls : List (BitVec 32)),
    state.globals.gSyscalls.length ≤ syscalls.length → invariant state →
    invariant (state.withGlobals
      { state.globals with gBreakpoints := breakpoints, gSyscalls := syscalls })

/-- A quiet event is a calm or a poking request, a toggle or an output. -/
theorem Stable.of_quiet
    (requests : ∀ state request, request.resumes = none → invariant state →
      invariant (state.afterPtrace host request))
    (record : ∀ state event, Event.Quiet event → invariant state → invariant (state.record event))
    (tables : ∀ state breakpoints (syscalls : List (BitVec 32)),
      state.globals.gSyscalls.length ≤ syscalls.length → invariant state →
      invariant (state.withGlobals
        { state.globals with gBreakpoints := breakpoints, gSyscalls := syscalls })) :
    Stable host invariant where
  calm state request calm holds := by
    refine requests state _ ?_ holds
    cases request <;> first | rfl | exact calm.elim
  printed state message _ := record state (.output message) trivial
  poked state addr data := requests state (.pokedata addr data) rfl
  toggled state index := record state (.toggle index) trivial
  tables := tables

namespace Calm

variable (rules : Calm host invariant)

include rules

theorem myPtrace (request : Request) (calm : request.Calm) :
    Preserves invariant (myPtrace host request) := by
  apply Preserves.of_wp
  intro state holds
  rw [wp_myPtrace]
  exact ⟨fun _ _ => rules.calm state request calm holds,
    fun _ => rules.calm state request calm holds⟩

theorem printf (message : Message) (other : message.catches = false) :
    Preserves invariant (printf message) := by
  apply Preserves.of_wp
  intro state holds
  exact rules.printed state message other holds

theorem getRegister (reg : MyReg) : Preserves invariant (getRegister host reg) :=
  (rules.myPtrace .getregs trivial).bind fun _ => .pure _

theorem setRegister (reg : MyReg) (value : Word) :
    Preserves invariant (setRegister host reg value) :=
  (rules.myPtrace .getregs trivial).bind fun reply =>
    (rules.myPtrace (.setregs (Function.update reply.regs reg value)) trivial).bind fun _ =>
      .pure _

omit rules in
theorem readMemory (addr : Addr) (size : Nat) :
    Preserves invariant (readMemory host addr size) := by
  apply Preserves.of_wp
  intro state holds
  unfold wp MyDbg.readMemory
  split <;> exact holds

omit rules in
theorem getInstruction (addr : Addr) : Preserves invariant (getInstruction host addr) := by
  refine (readMemory addr 16).bind fun mem => ?_
  cases host.csDisasm mem with
  | some insn => exact .pure _
  | none => exact .throw _

theorem getCurrentInstruction : Preserves invariant (getCurrentInstruction host) :=
  (rules.getRegister _).bind fun addr => getInstruction addr

omit rules in
theorem getFinishAddress : Preserves invariant (getFinishAddress host) := by
  refine Preserves.bind (.gets _) fun caller => ?_
  cases caller with
  | some ip => exact (getInstruction ip).bind fun _ => .pure _
  | none => exact .throw _

omit rules in
theorem breakpointAt (index : Nat) : Preserves invariant (breakpointAt index : Dbg κ MyBp) := by
  refine Preserves.bind (.gets _) fun globals => ?_
  cases globals.gBreakpoints[index]? with
  | some bp => exact .pure bp
  | none => exact .fault

omit rules in
theorem myRealloc (size : Nat) : Preserves invariant (myRealloc size : Dbg κ Unit) :=
  Preserves.ite (.pure ()) .noReturn

end Calm

namespace Stable

variable (stable : Stable host invariant)

include stable

theorem pokedata (addr : Addr) (data : Word) :
    Preserves invariant (MyDbg.myPtrace host (.pokedata addr data)) := by
  apply Preserves.of_wp
  intro state holds
  rw [wp_myPtrace]
  exact ⟨fun _ _ => stable.poked state addr data holds,
    fun _ => stable.poked state addr data holds⟩

theorem storeBreakpoint (index : Nat) (bp : MyBp) :
    Preserves invariant (storeBreakpoint index bp : Dbg κ Unit) := by
  apply Preserves.of_wp
  intro state holds
  exact stable.tables state _ _ le_rfl holds

theorem toggleBreakpoint (index : Nat) : Preserves invariant (toggleBreakpoint host index) := by
  refine Preserves.bind (.of_wp fun state holds => stable.toggled state index holds) fun _ => ?_
  refine (Calm.breakpointAt index).bind fun bp => Preserves.ite (.pure _) ?_
  refine (stable.myPtrace (.peekdata _) trivial).bind fun _ =>
    (stable.pokedata _ _).bind fun _ => ?_
  exact stable.storeBreakpoint index _

theorem appendBreakpoint (addr : Addr) (flags : MyBpFlags) (word : Word) :
    Preserves invariant (appendBreakpoint addr flags word : Dbg κ Nat) := by
  refine Preserves.bind (.gets _) fun _ => (Calm.myRealloc _).bind fun _ => ?_
  refine Preserves.bind (.of_wp fun state holds => ?_) fun _ => .pure _
  exact stable.tables state _ _ le_rfl holds

theorem placeBreakpoint (addr : Addr) (flags : MyBpFlags) :
    Preserves invariant (placeBreakpoint host addr flags) := by
  refine Preserves.ite ?_ ?_
  · refine (stable.myPtrace (.peekdata _) trivial).bind fun _ =>
      (stable.pokedata _ _).bind fun _ => ?_
    exact stable.appendBreakpoint addr flags _
  · exact Preserves.bind (.gets _) fun _ => stable.appendBreakpoint addr flags _

theorem modifyTables {update : Globals → Globals}
    (same : ∀ globals, ∃ breakpoints syscalls, globals.gSyscalls.length ≤ syscalls.length ∧
      update globals = { globals with gBreakpoints := breakpoints, gSyscalls := syscalls }) :
    Preserves invariant (modifyGlobals update : Dbg κ Unit) := by
  apply Preserves.of_wp
  intro state holds
  rw [wp_modifyGlobals]
  obtain ⟨breakpoints, syscalls, grows, equal⟩ := same state.globals
  rw [equal]
  exact stable.tables state breakpoints syscalls grows holds

theorem addSyscallBreak (syscall : BitVec 32) :
    Preserves invariant (addSyscallBreak host syscall) := by
  refine Preserves.bind (.gets _) fun _ => (Calm.myRealloc _).bind fun _ => ?_
  refine Preserves.bind (stable.modifyTables fun globals => ⟨_, _, ?_, rfl⟩) fun _ => ?_
  · simp
  exact (stable.placeBreakpoint _ _).bind fun _ => .pure _

theorem storeSyscall (index : Nat) (value : BitVec 32) :
    Preserves invariant (storeSyscall index value : Dbg κ Unit) := by
  refine Preserves.bind (.gets _) fun _ => Preserves.ite ?_ .fault
  exact stable.modifyTables fun globals => ⟨_, _, by simp, rfl⟩

theorem cmdBreakDel (nb : Nat) : Preserves invariant (cmdBreakDel nb : Dbg κ Unit) := by
  refine Preserves.bind (.gets _) fun _ => Preserves.ite (stable.printf _ rfl) ?_
  refine (Calm.breakpointAt _).bind fun bp => Preserves.ite (stable.printf _ rfl) ?_
  exact (stable.storeBreakpoint _ _).bind fun _ => (stable.storeSyscall _ _).bind fun _ =>
    stable.printf _ rfl

/-! ## The commands that run the tracee -/

variable {raised lost : State κ → Prop} (raises : ∀ state, invariant state → raised state)
  (loses : ∀ state, invariant state → lost state)
  (step : ∀ depth, Keeps invariant raised lost (singleStep host (continueExecution host depth)))
  (continues : ∀ depth, Keeps invariant raised lost (continueExecution host depth))

include raises loses step in
theorem cmdStepInstr (depth : Nat) : Keeps invariant raised lost (cmdStepInstr host depth) :=
  (step depth).bind fun _ => .of_preserves raises loses <|
    (stable.getRegister _).bind fun _ => stable.printf _ rfl

include raises loses continues in
theorem cmdContinue (depth : Nat) : Keeps invariant raised lost (cmdContinue host depth) :=
  (Keeps.of_preserves raises loses (stable.printf _ rfl)).bind fun _ => continues depth

include raises loses continues in
theorem cmdFinish (depth : Nat) : Keeps invariant raised lost (cmdFinish host depth) := by
  refine Keeps.bind (.of_preserves raises loses Calm.getFinishAddress) fun _ => ?_
  refine Keeps.bind (.of_preserves raises loses (stable.placeBreakpoint _ _)) fun _ => ?_
  exact (continues depth).bind fun _ => .of_preserves raises loses (stable.printf _ rfl)

include raises loses step continues in
theorem cmdNextInstr (depth : Nat) : Keeps invariant raised lost (cmdNextInstr host depth) := by
  refine Keeps.bind (.of_preserves raises loses (stable.getRegister _)) fun rip => ?_
  refine Keeps.bind (.of_preserves raises loses stable.getCurrentInstruction) fun instr => ?_
  refine Keeps.bind ?_ fun _ => .of_preserves raises loses ?_
  · refine Keeps.ite ?_ ((step depth).bind fun _ => .pure ())
    exact Keeps.bind (.of_preserves raises loses (stable.placeBreakpoint _ _))
      fun _ => continues depth
  · exact Preserves.bind (.gets _) fun _ => Preserves.ite (.pure ()) <|
      (stable.getRegister _).bind fun _ => stable.printf _ rfl

include raises loses step continues in
/-- Every command keeps what single steps and continuations keep. -/
theorem exec (depth : Nat) (command : Command) :
    Keeps invariant raised lost (exec host depth command) := by
  have place (addr : Addr) (flags : MyBpFlags) (message : Nat → Message)
      (other : ∀ nb, (message nb).catches = false) :
      Keeps invariant raised lost (MyDbg.placeBreakpoint host addr flags >>= fun nb =>
        MyDbg.printf (message nb)) :=
    .of_preserves raises loses ((stable.placeBreakpoint _ _).bind fun nb =>
      stable.printf (message nb) (other nb))
  cases command with
  | «break» addr => exact place addr 0 _ fun _ => rfl
  | tbreak addr => exact place addr myBpTemp _ fun _ => rfl
  | breakf addr =>
      exact Keeps.ite (.of_preserves raises loses (stable.printf _ rfl))
        (place addr 0 _ fun _ => rfl)
  | breakl addr => exact place addr _ (fun _ => .linePlaced addr) fun _ => rfl
  | breaks syscall =>
      exact .of_preserves raises loses
        ((stable.addSyscallBreak _).bind fun _ => stable.printf _ rfl)
  | breakDel nb => exact .of_preserves raises loses (stable.cmdBreakDel nb)
  | stepInstr => exact stable.cmdStepInstr raises loses step depth
  | nextInstr => exact stable.cmdNextInstr raises loses step continues depth
  | finish => exact stable.cmdFinish raises loses continues depth
  | «continue» => exact stable.cmdContinue raises loses continues depth

end Stable

/-! ## Sessions -/

/-- What every allowed command keeps holds at every prompt. -/
theorem Session.keeps {lost : State κ → Prop} {allowed : Line → Prop} {first last : State κ}
    {lines : List Line} (kept : ∀ line, allowed line →
      Keeps invariant invariant lost (exec host line.depth line.command))
    (start : invariant first) (session : Session host first lines last)
    (within : ∀ line ∈ lines, allowed line) : invariant last := by
  induction session with
  | refl => exact start
  | @tail labels middle last line _ prompt inductionHypothesis =>
      have before := inductionHypothesis fun line member => within line (by simp [member])
      have keeps := kept line (within line (by simp)) _ before
      unfold Prompt at prompt
      cases back : line.back with
      | normal => rw [back] at prompt; exact keeps.ok prompt
      | raised raised => rw [back] at prompt; exact keeps.throw prompt

end MyDbg
