import MyDbg.Debugger.Steady

/-!
Contract: a single step from a breakpoint in which a call to the kernel fails.

Owns: `StaysArmed`, that a breakpoint is enabled and its int3 in memory; and that it
is still armed when the exception leaves `single_step` if and only if
the call that failed is one of those up to the end of the first toggle.

Does not own: what a handler of the exception does.
-/

namespace MyDbg

open LittleEndian ProgramLogic

variable {κ : Type} {host : Host κ}

/-- The breakpoint is enabled and its int3 is in the tracee. -/
def StaysArmed (tracee : FaultyTracee host) (index : Nat) (state : State κ) : Prop :=
  ∃ bp, HasBreakpoint index bp state ∧ bp.enabled = true ∧
    tracee.mem state.kernel bp.addr = 0xCC

/-- The request that reads RIP fails, or one of those that disarm `bp`. -/
def FailsEarly (host : Host κ) (bp : MyBp) (kernel : κ) : Prop :=
  (host.ptrace .getregs kernel).1 = none ∨
    DisarmFails host bp (host.ptrace .getregs kernel).2

section Failure

variable (tracee : FaultyTracee host) {state before : State κ} {index : Nat} {bp : MyBp}

theorem StaysArmed.of_same {tracee : FaultyTracee host} (armed : StaysArmed tracee index before)
    (globals : state.globals = before.globals)
    (mem : tracee.mem state.kernel = tracee.mem before.kernel) : StaysArmed tracee index state := by
  obtain ⟨bp, found, enabled, byte⟩ := armed
  refine ⟨bp, ?_, enabled, ?_⟩
  · show state.globals.gBreakpoints[index]? = some bp
    rw [globals]
    exact found
  · rw [mem]
    exact byte

theorem StaysArmed.enabled {tracee : FaultyTracee host} (armed : StaysArmed tracee index state)
    (found : HasBreakpoint index bp state) : bp.enabled = true := by
  obtain ⟨other, there, enabled, _⟩ := armed
  obtain rfl := Option.some.inj (there.symm.trans found)
  exact enabled

theorem StaysArmed.not_disabled {tracee : FaultyTracee host} (found : HasBreakpoint index bp state)
    (disabled : bp.enabled = false) : ¬ StaysArmed tracee index state := by
  intro armed
  have enabled := armed.enabled found
  rw [disabled] at enabled
  cases enabled

/-- The breakpoint is armed where an exception leaves, or is not, as `expected`
says; elsewhere nothing is asked. -/
def ArmedIff (tracee : FaultyTracee host) (index : Nat) (expected : Prop) (α : Type) :
    Post MyException (State κ) α where
  ok _ _ := True
  throw _ state := StaysArmed tracee index state ↔ expected
  fault _ := True
  noReturn _ := True

/-- A request that writes nothing, or that is refused, leaves the breakpoint armed. -/
theorem StaysArmed.asked {tracee : FaultyTracee host} (armed : StaysArmed tracee index state)
    {request : Request} (reads : ∀ addr data, request ≠ .pokedata addr data) :
    StaysArmed tracee index (state.afterPtrace host request) :=
  armed.of_same rfl (tracee.mem_ptrace request state.kernel reads)

theorem StaysArmed.refused {tracee : FaultyTracee host} (armed : StaysArmed tracee index state)
    {addr : Addr} {data : Word}
    (refused : (host.ptrace (.pokedata addr data) state.kernel).1 = none) :
    StaysArmed tracee index (state.afterPtrace host (.pokedata addr data)) :=
  armed.of_same rfl (tracee.refused addr data state.kernel refused)

/-- Once the breakpoint is switched off, no failure finds it armed. -/
theorem afterToggle_disarmed {expected : Prop} (unexpected : ¬ expected)
    (found : HasBreakpoint index bp.toggled state) (enabled : bp.enabled = true) :
    wp (do let result ← stepOnce host (pure ())
           toggleBreakpoint host index
           return result)
      (ArmedIff tracee index expected Bool) state := by
  have off : bp.toggled.enabled = false := by simp [enabled]
  have disarmed {after : State κ} (found : HasBreakpoint index bp.toggled after) :
      StaysArmed tracee index after ↔ expected :=
    iff_of_false (StaysArmed.not_disabled found off) unexpected
  rw [wp_bind]
  apply wp_mono ((stepOnce_disabled off).wp found)
  refine ⟨?_, fun _ _ kept => disarmed kept, fun _ _ => trivial, fun _ _ => trivial⟩
  intro result after kept
  show wp (toggleBreakpoint host index >>= _) _ _
  rw [wp_bind]
  apply wp_toggleBreakpoint kept
  · intro _ _
    trivial
  · intro _
    exact disarmed kept
  · intro _ word poked isPoked
    subst isPoked
    exact ⟨disarmed kept, trivial⟩

/-- The requests of the first toggle decide. -/
theorem stepFrom_armed (found : HasBreakpoint index bp state)
    (armed : StaysArmed tracee index state) :
    wp (stepFrom host index)
      (ArmedIff tracee index (DisarmFails host bp state.kernel) Bool) state := by
  have enabled : bp.enabled = true := armed.enabled found
  have peeked : StaysArmed tracee index (state.afterPtrace host (.peekdata bp.addr)) :=
    armed.asked nofun
  unfold stepFrom
  rw [wp_bind]
  apply wp_toggleBreakpoint_requests found rfl
  · intro off
    rw [enabled] at off
    cases off
  · intro _ unread
    exact iff_of_true peeked (.inl unread)
  · intro _ reply read
    constructor
    · intro unwritten
      exact iff_of_true (peeked.refused unwritten) (.inr ⟨reply, read, unwritten⟩)
    · intro written
      apply afterToggle_disarmed tracee _ _ enabled
      · intro fails
        cases fails with
        | inl unread =>
            rw [unread] at read
            cases read
        | inr refused =>
            obtain ⟨other, answered, unwritten⟩ := refused
            obtain rfl := Option.some.inj (read.symm.trans answered)
            have refused : (host.ptrace (.pokedata bp.addr (bp.toggledWord reply.ret))
                (state.afterPtrace host (.peekdata bp.addr)).kernel).1.isSome = false := by
              simpa using unwritten
            exact absurd written (by simpa using refused)
      · have inside := (List.getElem?_eq_some_iff.mp found).1
        exact List.getElem?_set_self inside

/-- The breakpoint at RIP is still armed when an exception leaves `single_step`
exactly if the failure came before it was disarmed. -/
theorem singleStep_armed_iff (depth : Nat) {raised : MyException} {after : State κ}
    (hit : getBreakpoint state.globals.gBreakpoints (tracee.regs state.kernel .rip) = some index)
    (found : HasBreakpoint index bp state) (armed : StaysArmed tracee index state)
    (fails : singleStep host (continueExecution host depth) state = .throw raised after) :
    StaysArmed tracee index after ↔ FailsEarly host bp state.kernel := by
  have looked : StaysArmed tracee index (state.afterPtrace host .getregs) := armed.asked nofun
  rw [singleStep_eq] at fails
  cases answer : (host.ptrace .getregs state.kernel).1 with
  | none =>
      rw [singleStep_unread answer] at fails
      cases fails
      exact iff_of_true looked (.inl answer)
  | some reply =>
      have located : getBreakpoint state.globals.gBreakpoints (reply.regs .rip) = some index := by
        rw [tracee.getregs state.kernel reply answer]
        exact hit
      rw [singleStep_hit answer located] at fails
      have early : FailsEarly host bp state.kernel ↔
          DisarmFails host bp (state.afterPtrace host .getregs).kernel := by
        simp [FailsEarly, answer]
      have there : HasBreakpoint index bp (state.afterPtrace host .getregs) := found
      rw [early]
      exact (stepFrom_armed tracee there looked).throw fails

end Failure

/-! ## A kernel that refuses requests -/

/-- The scripted tracee, behind a kernel that refuses some requests. -/
def refusing (refuses : Request → Bool) : Host Scripted where
  ptrace request kernel :=
    if refuses request then (none, kernel) else scripted.ptrace request kernel
  waitpid := scripted.waitpid
  procMem := scripted.procMem
  csDisasm := scripted.csDisasm
  unwindCaller := scripted.unwindCaller
  syscallNumbers := []

section Refusing

variable {refuses : Request → Bool} {request : Request} {kernel : Scripted}

theorem refusing_refused (refused : refuses request = true) :
    (refusing refuses).ptrace request kernel = (none, kernel) := if_pos refused

theorem refusing_accepted (accepted : refuses request = false) :
    (refusing refuses).ptrace request kernel = scripted.ptrace request kernel :=
  if_neg (by simp [accepted])

end Refusing

def refusingTracee (refuses : Request → Bool) : FaultyTracee (refusing refuses) where
  regs := Scripted.regs
  mem := Scripted.mem
  getregs kernel reply answered := by
    cases refused : refuses .getregs with
    | true =>
        rw [refusing_refused refused] at answered
        cases answered
    | false =>
        rw [refusing_accepted refused] at answered
        exact scriptedTracee.getregs kernel reply answered
  setregs values kernel answered := by
    cases refused : refuses (.setregs values) with
    | true =>
        rw [refusing_refused refused] at answered
        cases answered
    | false =>
        rw [refusing_accepted refused] at answered ⊢
        exact scriptedTracee.setregs values kernel answered
  regs_ptrace request kernel pauses keeps := by
    cases refused : refuses request with
    | true => rw [refusing_refused refused]
    | false =>
        rw [refusing_accepted refused]
        exact scriptedTracee.regs_ptrace request kernel pauses keeps
  mem_ptrace request kernel reads := by
    cases refused : refuses request with
    | true => rw [refusing_refused refused]
    | false =>
        rw [refusing_accepted refused]
        exact scriptedTracee.mem_ptrace request kernel reads
  refused addr data kernel failed := by
    cases refused : refuses (.pokedata addr data) with
    | true => rw [refusing_refused refused]
    | false =>
        rw [refusing_accepted refused] at failed
        cases failed

/-- Stopped at 0x10. -/
def stoppedAt10 : State Scripted :=
  State.start { mem := fun _ => 0x90, regs := fun _ => 0x10, stops := [] }

/-- Stopped at 0x10, on a breakpoint. -/
def armedAt10 : State Scripted where
  globals := { Globals.init with gBreakpoints := [.placed [] 0x10 0 0x90] }
  kernel := { mem := fun _ => 0xCC, regs := fun _ => 0x10, stops := [] }
  trace := []

theorem armedAt10_armed (refuses : Request → Bool) :
    StaysArmed (refusingTracee refuses) 0 armedAt10 :=
  ⟨.placed [] 0x10 0 0x90, rfl, rfl, rfl⟩

/-- RIP cannot be read. -/
theorem singleStep_armed_unread :
    StaysArmed (refusingTracee fun _ => true) 0
      (armedAt10.afterPtrace (refusing fun _ => true) .getregs) := by
  have found : HasBreakpoint 0 (.placed [] 0x10 0 0x90) armedAt10 := rfl
  have stays := singleStep_armed_iff (refusingTracee fun _ => true) 0 (by decide) found
    (armedAt10_armed _) rfl
  exact stays.mpr (.inl rfl)

def Request.steps : Request → Bool
  | .singlestep _ => true
  | _ => false

/-- The kernel refuses to step from a breakpoint, and the breakpoint stays disarmed. -/
theorem singleStep_disarms :
    ∃ before after,
      Session (refusing Request.steps) stoppedAt10 [⟨.break 0x10, 0, .normal⟩] before ∧
      before.globals.gBreakpoints = [.placed [] 0x10 0 (peek (fun _ => 0x90) 0x10)] ∧
      before.kernel.regs .rip = 0x10 ∧ before.kernel.mem 0x10 = 0xCC ∧
      singleStep (refusing Request.steps) (continueExecution (refusing Request.steps) 0) before =
        .throw .ptraceException after ∧
      ¬ StaysArmed (refusingTracee Request.steps) 0 after := by
  have computed : ((replay (refusing Request.steps) (fun _ _ _ => true) stoppedAt10
      [⟨.break 0x10, 0, .normal⟩]).bind fun before =>
        match singleStep (refusing Request.steps) (pure ()) before with
        | .throw raised after => some (before.globals.gBreakpoints, before.kernel.regs .rip,
            before.kernel.mem 0x10, raised, after.globals.gBreakpoints.map MyBp.enabled)
        | _ => none) =
      some ([.placed [] 0x10 0 (peek (fun _ => 0x90) 0x10)], 0x10, 0xCC, .ptraceException,
        [false]) := by
    decide +kernel
  obtain ⟨before, replayed, computed⟩ := Option.bind_eq_some_iff.mp computed
  cases ends : singleStep (refusing Request.steps) (pure ()) before with
  | throw raised after =>
      rw [ends] at computed
      obtain ⟨placed, rest⟩ := Prod.mk.inj (Option.some.inj computed)
      obtain ⟨rip, rest⟩ := Prod.mk.inj rest
      obtain ⟨byte, rest⟩ := Prod.mk.inj rest
      obtain ⟨rfl, enabled⟩ := Prod.mk.inj rest
      refine ⟨before, after, session_replay replayed, placed, rip, byte, ?_, ?_⟩
      · rw [singleStep_eq]
        exact ends
      · intro armed
        obtain ⟨bp, found, on, _⟩ := armed
        have switched : (after.globals.gBreakpoints.map MyBp.enabled)[0]? = some bp.enabled := by
          rw [List.getElem?_map]
          exact congrArg _ found
        rw [enabled, on] at switched
        cases switched
  | ok value after => rw [ends] at computed; cases computed
  | fault after => rw [ends] at computed; cases computed
  | noReturn after => rw [ends] at computed; cases computed

end MyDbg
