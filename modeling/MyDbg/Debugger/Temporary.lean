import MyDbg.Debugger.Signals
import MyDbg.Debugger.Steady

/-!
Contract: what becomes of an enabled breakpoint while commands come back
normally.

Owns: `TrappedOn`, that the tracee ran into the int3 of a breakpoint;
`SparesTemporary`, that no single step and no other stop meets a temporary
breakpoint; and that under this condition a breakpoint is only disabled if it
is temporary and the tracee ran into it.

Does not own: the int3 itself, and commands that break off with an exception.
-/

namespace MyDbg

open LittleEndian ProgramLogic Transition

variable {κ : Type} {host : Host κ} (registers : Registers host) (mem : κ → Memory)

/-! ## Reading a trace -/

/-- The tracee executed the int3 of the enabled breakpoint at `index` and stopped
on it. -/
def TrappedOn (index : Nat) : List (Entry κ) → Prop
  | [] => False
  | entry :: older =>
      TrappedOn index older ∨
        match entry.event with
        | .waited wstatus => wstatus = .plainTrap ∧ ¬ SteppedLast older ∧
            ∃ bp ∈ entry.globals.gBreakpoints[index]?, bp.enabled = true ∧
              registers.regs entry.kernel .rip - 1 = bp.addr ∧ mem entry.kernel bp.addr = 0xCC
        | _ => False

/-- `wait_program` looks for a breakpoint at a stop, unless the stop ends a single
step. -/
def Handled (wstatus : WStatus) (older : List (Entry κ)) : Prop :=
  wstatus.wstopsig.isSome ∧
    (SteppedLast older → wstatus ≠ .plainTrap ∧ wstatus ≠ .syscallStop)

/-- No breakpoint is toggled off at RIP that is temporary, and one that is found
behind a stop was run into. -/
def SparesTemporary : List (Entry κ) → Prop
  | [] => True
  | entry :: older =>
      SparesTemporary older ∧
        match entry.event with
        | .toggle index => ∀ bp ∈ entry.globals.gBreakpoints[index]?, bp.isTemp = true →
            bp.enabled = true → registers.regs entry.kernel .rip ≠ bp.addr
        | .waited wstatus => Handled wstatus older →
            ∀ index ∈ getBreakpoint entry.globals.gBreakpoints
                (registers.regs entry.kernel .rip - 1),
              ∀ bp ∈ entry.globals.gBreakpoints[index]?, bp.isTemp = true →
                wstatus = .plainTrap ∧ mem entry.kernel bp.addr = 0xCC
        | _ => True

/-- Since `base`, where the condition was met, breakpoints that were enabled still
are, or are temporary and were run into; but for the one at `pending`, which is
to be enabled again. -/
def Spared (base : State κ) (pending : Option Nat) (state : State κ) : Prop :=
  ∃ new, state.trace = new ++ base.trace ∧ (SparesTemporary registers mem new →
    ∀ index bp, base.globals.gBreakpoints[index]? = some bp → bp.enabled = true →
      ∃ now, state.globals.gBreakpoints[index]? = some now ∧ now.flags = bp.flags ∧
        (now.enabled = true ∨ pending = some index ∨
          (bp.isTemp = true ∧ TrappedOn registers mem index new)))

section Spared

variable {registers mem} {base state after : State κ} {pending before : Option Nat} {index : Nat}
  {bp : MyBp} {entry : Entry κ} {past : List (Entry κ)}

theorem stopped_sigtrap {wstatus : WStatus} {stopsig : BitVec 8}
    (status : wstatus.wstopsig = some stopsig) :
    ((stopsig &&& 0x7F).setWidth 64 : Word) = sigtrap ↔
      wstatus = .plainTrap ∨ wstatus = .syscallStop := by
  cases wstatus with
  | stopped signal =>
      obtain rfl : signal.setWidth 8 = stopsig := Option.some.inj status
      rw [stopsig_signal, signal_eq_sigtrap]
      simp [WStatus.plainTrap]
  | syscallStop =>
      obtain rfl : (5 ||| 0x80 : BitVec 8) = stopsig := Option.some.inj status
      simp [sigtrap]
  | exited code => cases status
  | signaled signal => cases status
  | other => cases status

/-- Where `handle_stop` does not return at once, it looks for a breakpoint. -/
theorem handled_of_untrapped {wstatus : WStatus} {stopsig : BitVec 8} {step : Bool}
    (status : wstatus.wstopsig = some stopsig) (stepping : SteppedLast past → step = true)
    (notTrap : ¬ (step && ((stopsig &&& 0x7F).setWidth 64 : Word) == sigtrap) = true) :
    Handled wstatus past := by
  refine ⟨by rw [status]; rfl, ?_⟩
  intro stepped
  rw [← not_or, ← stopped_sigtrap status]
  intro trap
  apply notTrap
  rw [stepping stepped]
  simpa using trap

theorem unhandled_of_trapped {wstatus : WStatus} {stopsig : BitVec 8} {step : Bool}
    (status : wstatus.wstopsig = some stopsig) (stepped : step = true → SteppedLast past)
    (trapped : (step && ((stopsig &&& 0x7F).setWidth 64 : Word) == sigtrap) = true) :
    ¬ Handled wstatus past := by
  intro handled
  obtain ⟨stepping, trap⟩ := Bool.and_eq_true_iff.mp trapped
  obtain ⟨notPlain, notSyscall⟩ := handled.2 (stepped stepping)
  cases (stopped_sigtrap status).mp (by simpa using trap) with
  | inl plain => exact notPlain plain
  | inr syscall => exact notSyscall syscall

/-- Whatever happens leaves what was spared so far as it is. -/
theorem Spared.happens (spared : Spared registers mem base pending state)
    (trace : after.trace = entry :: state.trace)
    (same : after.globals.gBreakpoints = state.globals.gBreakpoints) :
    Spared registers mem base pending after := by
  obtain ⟨new, split, kept⟩ := spared
  refine ⟨entry :: new, by rw [trace, split, List.cons_append], ?_⟩
  intro spares index bp found enabled
  obtain ⟨now, here, flags, reason⟩ := kept spares.1 index bp found enabled
  refine ⟨now, by rw [same, here], flags, ?_⟩
  rcases reason with still | waits | ⟨temp, trapped⟩
  · exact Or.inl still
  · exact Or.inr (Or.inl waits)
  · exact Or.inr (Or.inr ⟨temp, Or.inl trapped⟩)

/-- The breakpoints change in a way that keeps flags and disables none that counts. -/
theorem Spared.moves (spared : Spared registers mem base before state)
    (trace : after.trace = state.trace)
    (kept : ∀ new, state.trace = new ++ base.trace → SparesTemporary registers mem new →
      ∀ index now, state.globals.gBreakpoints[index]? = some now →
        ∃ next, after.globals.gBreakpoints[index]? = some next ∧ next.flags = now.flags ∧
          (now.enabled = true ∨ before = some index → next.enabled = true ∨
            pending = some index ∨ (now.isTemp = true ∧ TrappedOn registers mem index new))) :
    Spared registers mem base pending after := by
  obtain ⟨new, split, held⟩ := spared
  refine ⟨new, by rw [trace, split], ?_⟩
  intro spares index bp found enabled
  obtain ⟨now, here, flags, reason⟩ := held spares index bp found enabled
  obtain ⟨next, there, same, goes⟩ := kept new split spares index now here
  have temp : now.isTemp = bp.isTemp := by
    unfold MyBp.isTemp
    rw [flags]
  refine ⟨next, there, same.trans flags, ?_⟩
  rw [← temp]
  rcases reason with still | waits | trapped
  · exact goes (Or.inl still)
  · exact goes (Or.inr waits)
  · rw [← temp] at trapped
    exact Or.inr (Or.inr trapped)

theorem spared_steady : Steady (Spared registers mem base pending) where
  event _ _ _ spared := spared.happens rfl rfl
  kernel _ _ spared := spared
  globals _ _ same spared := by
    obtain ⟨new, split, kept⟩ := spared
    refine ⟨new, split, ?_⟩
    rw [State.withGlobals_globals, same]
    exact kept
  placed state addr flags word spared := by
    have appended := State.withGlobals_trace state { state.globals with gBreakpoints :=
      state.globals.gBreakpoints ++ [.placed state.globals.gBreakpoints addr flags word] }
    apply spared.moves appended
    intro new _ _ index now found
    have inside := (List.getElem?_eq_some_iff.mp found).1
    refine ⟨now, (List.getElem?_append_left inside).trans found, rfl, ?_⟩
    intro reason
    rcases reason with still | waits
    · exact Or.inl still
    · exact Or.inr (Or.inl waits)

/-! ## Toggling -/

/-- A breakpoint is toggled off after the tracee ran into it, or to be toggled on
again. -/
theorem spared_toggle (spared : Spared registers mem base before state)
    (found : state.globals.gBreakpoints[index]? = some bp) (enabled : bp.enabled = true)
    (others : ∀ other, before = some other → pending = some other)
    (reason : ∀ new, state.trace = new ++ base.trace →
      SparesTemporary registers mem (⟨.toggle index, state.globals, state.kernel⟩ :: new) →
        pending = some index ∨ (bp.isTemp = true ∧ TrappedOn registers mem index new)) :
    wp (toggleBreakpoint host index)
      (.onReturn fun _ after => Spared registers mem base pending after ∧
        HasBreakpoint index bp.toggled after) state := by
  have inside := (List.getElem?_eq_some_iff.mp found).1
  have earlier : ∃ old, state.trace = old ++ base.trace := spared.imp fun _ kept => kept.1
  obtain ⟨old, oldSplit⟩ := earlier
  apply wp_toggleBreakpoint found
  · intro disabled _
    rw [enabled] at disabled
    cases disabled
  · intro _
    trivial
  · rintro _ word poked rfl
    refine ⟨trivial, ?_, List.getElem?_set_self inside⟩
    have noted : Spared registers mem base before (state.record (.toggle index)) :=
      spared.happens rfl rfl
    have requested : Spared registers mem base before
        (((state.record (.toggle index)).afterPtrace host (.peekdata bp.addr)).afterPtrace host
          (.pokedata bp.addr word)) :=
      spared_steady.afterPtrace _ (spared_steady.afterPtrace _ noted)
    apply requested.moves (State.withGlobals_trace _ _)
    intro new split spares position now here
    by_cases same : index = position
    · subst same
      obtain rfl := Option.some.inj (found.symm.trans here)
      refine ⟨bp.toggled, List.getElem?_set_self inside, rfl, ?_⟩
      intro _
      rw [State.afterPtrace_trace, State.afterPtrace_trace, State.record_trace, oldSplit,
        ← List.cons_append, ← List.cons_append, ← List.cons_append] at split
      obtain rfl := List.append_cancel_right split
      rcases reason old oldSplit spares.1.1 with waits | ⟨temp, trapped⟩
      · exact Or.inr (Or.inl waits)
      · exact Or.inr (Or.inr ⟨temp, Or.inl (Or.inl (Or.inl trapped))⟩)
    · refine ⟨now, (List.getElem?_set_ne same).trans here, rfl, ?_⟩
      intro was
      rcases was with still | waits
      · exact Or.inl still
      · exact Or.inr (Or.inl (others _ waits))

/-- The hit of a breakpoint that the tracee ran into if it is temporary. -/
theorem spared_hitBreakpoint {addr : Addr} (spared : Spared registers mem base pending state)
    (first : getBreakpoint state.globals.gBreakpoints addr = some index)
    (trapped : ∀ new, state.trace = new ++ base.trace → SparesTemporary registers mem new →
      ∀ bp ∈ state.globals.gBreakpoints[index]?, bp.isTemp = true →
        TrappedOn registers mem index new) :
    wp (hitBreakpoint host index addr)
      (.onReturn fun _ => Spared registers mem base pending) state := by
  obtain ⟨bp, found, hits, _⟩ := getBreakpoint_eq_some.mp first
  have enabled := (MyBp.hits_iff.mp hits).2.1
  have placid : Placid host (Spared registers mem base pending) := spared_steady.placid
  have report : Preserves (Spared registers mem base pending)
      (printf (.breakpointHit bp.id addr) : Dbg κ Unit) :=
    Preserves.of_wp fun _ spared => spared.happens rfl rfl
  have rest : Preserves (Spared registers mem base pending) (do
      Program.when (!bp.isInternal) (printf (.breakpointHit bp.id addr))
      setRegister host .rip addr
      modifyGlobals fun globals =>
        if globals.gSignum = sigtrap then { globals with gSignum := 0 } else globals) :=
    Preserves.bind (.when _ report) fun _ => placid.rewind addr
  unfold hitBreakpoint
  rw [wp_bind_ok (breakpointAt_apply found), wp_bind, wp_when]
  constructor
  · intro temp
    have reason (new : List (Entry κ)) (split : state.trace = new ++ base.trace)
        (spares : SparesTemporary registers mem
          (⟨.toggle index, state.globals, state.kernel⟩ :: new)) :
        pending = some index ∨ (bp.isTemp = true ∧ TrappedOn registers mem index new) :=
      Or.inr ⟨temp, trapped new split spares.1 bp found temp⟩
    exact wp_onReturn (spared_toggle spared found enabled (fun _ same => same) reason)
      fun _ _ kept => Keeps.of_returns rest _ kept.1
  · intro _
    exact Keeps.of_returns rest _ spared

/-! ## Stops -/

/-- The breakpoint behind a stop that is handled was run into. -/
theorem trappedOn_stop {wstatus : WStatus} {globals : Globals} {kernel : κ}
    (handled : Handled wstatus past)
    (spares : SparesTemporary registers mem (⟨.waited wstatus, globals, kernel⟩ :: past))
    (first : getBreakpoint globals.gBreakpoints (registers.regs kernel .rip - 1) = some index)
    (found : globals.gBreakpoints[index]? = some bp) (temp : bp.isTemp = true) :
    TrappedOn registers mem index (⟨.waited wstatus, globals, kernel⟩ :: past) := by
  obtain ⟨other, there, hits, _⟩ := getBreakpoint_eq_some.mp first
  obtain rfl := Option.some.inj (there.symm.trans found)
  obtain ⟨place, enabled, _⟩ := MyBp.hits_iff.mp hits
  obtain ⟨trap, int3⟩ := spares.2 handled index first other found temp
  right
  refine ⟨trap, ?_, other, found, enabled, place.symm, int3⟩
  intro stepped
  exact (handled.2 stepped).1 trap

/-- The tracee stopped at `kernel`, and its RIP was read. -/
theorem spared_handled {looked : State κ} {wstatus : WStatus} {kernel : κ} {addr : Addr}
    (stopsig : BitVec 8) (spared : Spared registers mem base pending looked)
    (trace : looked.trace = entry :: ⟨.waited wstatus, state.globals, kernel⟩ :: state.trace)
    (same : looked.globals.gBreakpoints = state.globals.gBreakpoints)
    (since : state.trace = past ++ base.trace) (handled : Handled wstatus past)
    (place : registers.regs kernel .rip - 1 = addr) :
    wp (do
        Program.forSome (getBreakpoint looked.globals.gBreakpoints addr)
          (hitBreakpoint host · addr)
        finishStop host stopsig (getBreakpoint looked.globals.gBreakpoints addr).isSome)
      (.onReturn fun _ => Spared registers mem base pending) looked := by
  have placid : Placid host (Spared registers mem base pending) := spared_steady.placid
  rw [wp_bind]
  cases first : getBreakpoint looked.globals.gBreakpoints addr with
  | none => exact Keeps.of_returns (placid.finishStop stopsig _) _ spared
  | some index =>
      refine wp_onReturn (spared_hitBreakpoint spared first ?_) fun _ _ kept => ?_
      · intro new split spares bp found temp
        rw [trace, since, ← List.cons_append, ← List.cons_append] at split
        obtain rfl := List.append_cancel_right split
        rw [same] at first found
        rw [← place] at first
        left
        exact trappedOn_stop handled spares.1 first found temp
      · exact Keeps.of_returns (placid.finishStop stopsig _) _ kept

/-- A stop after a resumption in the trace. -/
theorem spared_waitStop (step : Bool) (spared : Spared registers mem base pending state)
    (resumed : ∀ new, state.trace = new ++ base.trace → SteppedLast new → step = true) :
    wp (waitStop host step) (.onReturn fun _ => Spared registers mem base pending) state := by
  have steady : Steady (Spared registers mem base pending : State κ → Prop) := spared_steady
  have placid : Placid host (Spared registers mem base pending) := steady.placid
  have earlier : ∃ old, state.trace = old ++ base.trace := spared.imp fun _ kept => kept.1
  obtain ⟨old, since⟩ := earlier
  apply wp_waitStop
  · intro _
    trivial
  · intro _ _
    trivial
  · intro wstatus kernel stopsig _ status
    have stopped : Spared registers mem base pending (state.stoppedBy wstatus kernel) :=
      steady.stopped wstatus kernel spared
    have noted : Spared registers mem base pending ((state.stoppedBy wstatus kernel).withGlobals
        { state.globals with gSignum := (stopsig &&& 0x7F).setWidth 64 }) :=
      steady.globals _ _ rfl stopped
    unfold handleStop
    simp only [wp_modifyGlobals, wp_getGlobals, wp_bind, wp_ite]
    constructor
    · intro _
      exact steady.globals _ _ rfl noted
    · intro notTrap
      have handled : Handled wstatus old :=
        handled_of_untrapped status (resumed old since) notTrap
      rw [wp_getRegister]
      refine ⟨?_, fun _ => trivial⟩
      intro reply answered
      have place : registers.regs kernel .rip - 1 = reply.regs .rip - 1 := by
        rw [registers.getregs kernel reply answered]
      have looked : Spared registers mem base pending
          (((state.stoppedBy wstatus kernel).withGlobals { state.globals with
            gSignum := (stopsig &&& 0x7F).setWidth 64 }).afterPtrace host .getregs) :=
        steady.afterPtrace .getregs noted
      have finished := spared_handled stopsig looked rfl rfl since handled place
      rw [wp_bind] at finished
      exact finished
  · intro wstatus kernel _ _
    exact Keeps.of_returns (placid.handleEnd wstatus) _ (steady.stopped wstatus kernel spared)

/-! ## Resumptions -/

variable (registers mem base pending) in
/-- A program that spares breakpoints where it returns. -/
abbrev Spares {α : Type} (program : Dbg κ α) : Prop :=
  Keeps (Spared registers mem base pending) (fun _ => True) (fun _ => True) program

theorem spared_waitProgram {continues : Dbg κ Unit} {request : Request} {step : Bool}
    (spared : Spared registers mem base pending state)
    (kind : ∀ past, SteppedLast (⟨.ptrace request (host.ptrace request state.kernel).1.isSome,
      state.globals, state.kernel⟩ :: past) → step = true)
    (continued : Spares registers mem base pending continues) :
    wp (waitProgram host continues step) (.onReturn fun _ => Spared registers mem base pending)
      ((state.afterPtrace host request).withGlobals { state.globals with gSignum := 0 }) := by
  have steady : Steady (Spared registers mem base pending : State κ → Prop) := spared_steady
  have earlier : ∃ old, state.trace = old ++ base.trace := spared.imp fun _ kept => kept.1
  obtain ⟨old, since⟩ := earlier
  have resumed : Spared registers mem base pending
      ((state.afterPtrace host request).withGlobals { state.globals with gSignum := 0 }) :=
    steady.globals _ _ rfl (steady.afterPtrace request spared)
  unfold waitProgram
  rw [wp_bind]
  refine wp_onReturn (spared_waitStop step resumed ?_) fun next _ kept => ?_
  · intro new split
    rw [State.withGlobals_trace, State.afterPtrace_trace, since, ← List.cons_append] at split
    obtain rfl := List.append_cancel_right split
    exact kind old
  · cases next with
    | returns result => exact kept
    | continues => exact continued.bind (fun _ => Keeps.pure false) _ kept

theorem spared_stepOnce : Spares registers mem base pending (stepOnce host (pure ())) := by
  intro state spared
  unfold stepOnce
  simp only [wp_bind, wp_getGlobals, wp_myPtrace, wp_modifyGlobals]
  refine ⟨fun _ _ => ?_, fun _ => trivial⟩
  exact spared_waitProgram spared (fun _ _ => rfl) (.pure ())

/-- What is toggled back on after a single step: nothing that is temporary. -/
def MyBp.backOn (bp : MyBp) (index : Nat) : Option Nat := if bp.isTemp then none else some index

theorem spared_toggleBack (spared : Spared registers mem base (bp.backOn index) state)
    (found : HasBreakpoint index bp state) (off : bp.enabled = false) :
    wp (toggleBreakpoint host index) (.onReturn fun _ => Spared registers mem base none) state := by
  have noted : Spared registers mem base (bp.backOn index) (state.record (.toggle index)) :=
    spared.happens rfl rfl
  apply wp_toggleBreakpoint found
  · intro _ temp
    unfold MyBp.backOn at noted
    rw [if_pos temp] at noted
    exact noted
  · intro _
    trivial
  · rintro switches word poked rfl
    refine ⟨trivial, ?_⟩
    have requested : Spared registers mem base (bp.backOn index)
        (((state.record (.toggle index)).afterPtrace host (.peekdata bp.addr)).afterPtrace host
          (.pokedata bp.addr word)) :=
      spared_steady.afterPtrace _ (spared_steady.afterPtrace _ noted)
    apply requested.moves (State.withGlobals_trace _ _)
    intro new _ _ position now here
    have inside := (List.getElem?_eq_some_iff.mp found).1
    by_cases same : index = position
    · subst same
      obtain rfl := Option.some.inj (found.symm.trans here)
      refine ⟨bp.toggled, List.getElem?_set_self inside, rfl, ?_⟩
      intro _
      left
      rw [MyBp.toggled_enabled, off]
      rfl
    · refine ⟨now, (List.getElem?_set_ne same).trans here, rfl, ?_⟩
      intro was
      rcases was with still | waits
      · exact Or.inl still
      · unfold MyBp.backOn at waits
        split at waits
        · cases waits
        · exact absurd (Option.some.inj waits) same

/-- The breakpoint at RIP is toggled off and on again, unless it is temporary. -/
theorem spared_singleStep (continues : Dbg κ Unit) :
    Spares registers mem base none (singleStep host continues) := by
  intro state spared
  rw [singleStep_eq]
  unfold singleStep
  rw [wp_bind, wp_getRegister]
  refine ⟨?_, fun _ => trivial⟩
  intro reply answered
  have looked : Spared registers mem base none (state.afterPtrace host .getregs) :=
    spared_steady.afterPtrace _ spared
  simp only [wp_bind, wp_getGlobals]
  cases first : getBreakpoint (state.afterPtrace host .getregs).globals.gBreakpoints
      (reply.regs .rip) with
  | none =>
      rw [wp_forSome_none]
      exact wp_onReturn (spared_stepOnce _ looked) fun _ _ kept => kept
  | some index =>
      obtain ⟨bp, found, hits, _⟩ := getBreakpoint_eq_some.mp first
      obtain ⟨place, enabled, _⟩ := MyBp.hits_iff.mp hits
      have rip : registers.regs (state.afterPtrace host .getregs).kernel .rip = bp.addr := by
        rw [State.afterPtrace_kernel, registers.regs_ptrace _ _ rfl (by simp),
          ← registers.getregs _ _ answered, place]
      have off : bp.toggled.enabled = false := by
        rw [MyBp.toggled_enabled, enabled]
        rfl
      -- The second toggle finds the breakpoint as the first one left it.
      have steps : Keeps (fun state => Spared registers mem base (bp.toggled.backOn index) state ∧
            HasBreakpoint index bp.toggled state) (fun _ => True) (fun _ => True)
          (stepOnce host (pure ())) :=
        spared_stepOnce.and (stepOnce_disabled off)
      rw [wp_forSome_some]
      refine wp_onReturn (spared_toggle looked found enabled (by simp) ?_)
        fun _ toggled kept => wp_onReturn (steps toggled kept)
          fun _ _ kept => spared_toggleBack kept.1 kept.2 off
      intro new _ spares
      left
      apply if_neg
      intro temp
      exact spares.2 bp found temp enabled rip

theorem spared_continueExecution (depth : Nat) :
    Spares registers mem base none (continueExecution host depth) := by
  have placid : Placid host (Spared registers mem base none) := spared_steady.placid
  induction depth with
  | zero => exact fun _ _ => trivial
  | succ depth inductionHypothesis =>
      have resumes : Spares registers mem base none
          (resumeExecution host (continueExecution host depth)) := by
        intro state spared
        unfold resumeExecution
        simp only [wp_bind, wp_getGlobals, wp_myPtrace, wp_modifyGlobals]
        refine ⟨fun _ _ => ?_, fun _ => trivial⟩
        refine spared_waitProgram spared ?_ inductionHypothesis
        intro past
        split
        · exact False.elim
        · exact False.elim
      refine Keeps.bind (.of_returns (placid.getRegister _)) fun _ =>
        Keeps.bind (.gets _) fun _ => ?_
      apply Keeps.ite
      · exact (spared_singleStep _).bind fun _ => Keeps.ite resumes (.pure _)
      · exact resumes

theorem spared_cmdBreakDel (nb : Nat) :
    Spares registers mem base pending (cmdBreakDel nb : Dbg κ Unit) := by
  intro state spared
  unfold wp
  cases accepted : acceptedId state.globals.gBreakpoints nb with
  | none =>
      obtain ⟨message, _, ends⟩ := cmdBreakDel_refused accepted
      rw [ends]
      exact spared.happens rfl rfl
  | some bp =>
      obtain ⟨_, found, _⟩ := acceptedId_eq_some.mp accepted
      have inside := (List.getElem?_eq_some_iff.mp found).1
      rw [cmdBreakDel_accepted accepted]
      split
      · have stored : Spared registers mem base pending (state.withGlobals { state.globals with
            gBreakpoints := state.globals.gBreakpoints.set (nb - 1) { bp with deleted := true }
            gSyscalls := state.globals.gSyscalls.set bp.word.toNat (-1) }) := by
          apply spared.moves (State.withGlobals_trace _ _)
          intro new _ _ position now here
          by_cases same : nb - 1 = position
          · subst same
            obtain rfl := Option.some.inj (found.symm.trans here)
            exact ⟨{ bp with deleted := true }, List.getElem?_set_self inside, rfl,
              fun was => was.imp_right Or.inl⟩
          · exact ⟨now, (List.getElem?_set_ne same).trans here, rfl,
              fun was => was.imp_right Or.inl⟩
        exact stored.happens rfl rfl
      · trivial

variable {first last : State κ} {lines : List Line} {now : MyBp}

/-- While commands come back normally and spare temporary breakpoints, an enabled
breakpoint is only disabled if it is temporary and the tracee ran into it. -/
theorem consumed_by_hits (session : Session host first lines last)
    (normal : ∀ line ∈ lines, line.back = .normal)
    (spares : SparesTemporary registers mem (first.newEntries last))
    (found : first.globals.gBreakpoints[index]? = some bp) (enabled : bp.enabled = true)
    (here : last.globals.gBreakpoints[index]? = some now) (disabled : now.enabled = false) :
    bp.isTemp = true ∧ TrappedOn registers mem index (first.newEntries last) := by
  have start : Spared registers mem first none first :=
    ⟨[], rfl, fun _ index bp found enabled => ⟨bp, found, rfl, Or.inl enabled⟩⟩
  have kept (depth : Nat) (command : Command) :
      Spares registers mem first none (exec host depth command) :=
    spared_steady.exec (fun _ _ => trivial) (fun _ _ => trivial) (fun _ => spared_singleStep _)
      spared_continueExecution spared_cmdBreakDel depth command
  obtain ⟨new, split, held⟩ := session.returns kept start normal
  rw [newEntries_eq split] at spares ⊢
  obtain ⟨same, there, _, reason⟩ := held spares index bp found enabled
  obtain rfl := Option.some.inj (there.symm.trans here)
  rcases reason with still | waits | trapped
  · rw [disabled] at still
    cases still
  · cases waits
  · exact trapped

end Spared

/-! ## Runs that can be computed -/

instance : DecidablePred (SteppedLast : List (Entry κ) → Prop) := decideStepped
where
  decideStepped : (trace : List (Entry κ)) → Decidable (SteppedLast trace)
    | [] => isFalse id
    | ⟨.ptrace (.singlestep _) _, _, _⟩ :: _ => isTrue trivial
    | ⟨.ptrace (.cont _) _, _, _⟩ :: _ => isFalse id
    | ⟨.ptrace (.syscall _) _, _, _⟩ :: _ => isFalse id
    | ⟨.ptrace (.peekdata _) _, _, _⟩ :: older => decideStepped older
    | ⟨.ptrace (.pokedata _ _) _, _, _⟩ :: older => decideStepped older
    | ⟨.ptrace .getregs _, _, _⟩ :: older => decideStepped older
    | ⟨.ptrace (.setregs _) _, _, _⟩ :: older => decideStepped older
    | ⟨.waited _, _, _⟩ :: older => decideStepped older
    | ⟨.toggle _, _, _⟩ :: older => decideStepped older
    | ⟨.output _, _, _⟩ :: older => decideStepped older

instance (wstatus : WStatus) (older : List (Entry κ)) : Decidable (Handled wstatus older) :=
  inferInstanceAs (Decidable (_ ∧ _))

instance (index : Nat) : DecidablePred (TrappedOn registers mem index) := decideTrapped
where
  decideTrapped : (trace : List (Entry κ)) → Decidable (TrappedOn registers mem index trace)
    | [] => isFalse id
    | ⟨.waited wstatus, globals, kernel⟩ :: older =>
        have := decideTrapped older
        inferInstanceAs (Decidable (TrappedOn registers mem index older ∨
          wstatus = .plainTrap ∧ ¬ SteppedLast older ∧
            ∃ bp ∈ globals.gBreakpoints[index]?, bp.enabled = true ∧
              registers.regs kernel .rip - 1 = bp.addr ∧ mem kernel bp.addr = 0xCC))
    | ⟨.ptrace _ _, _, _⟩ :: older | ⟨.toggle _, _, _⟩ :: older | ⟨.output _, _, _⟩ :: older =>
        have := decideTrapped older
        inferInstanceAs (Decidable (TrappedOn registers mem index older ∨ False))

instance : DecidablePred (SparesTemporary registers mem) := decideSpares
where
  decideSpares : (trace : List (Entry κ)) → Decidable (SparesTemporary registers mem trace)
    | [] => isTrue trivial
    | ⟨.toggle index, globals, kernel⟩ :: older =>
        have := decideSpares older
        inferInstanceAs (Decidable (SparesTemporary registers mem older ∧
          ∀ bp ∈ globals.gBreakpoints[index]?, bp.isTemp = true → bp.enabled = true →
            registers.regs kernel .rip ≠ bp.addr))
    | ⟨.waited wstatus, globals, kernel⟩ :: older =>
        have := decideSpares older
        inferInstanceAs (Decidable (SparesTemporary registers mem older ∧
          (Handled wstatus older → ∀ index ∈ getBreakpoint globals.gBreakpoints
              (registers.regs kernel .rip - 1),
            ∀ bp ∈ globals.gBreakpoints[index]?, bp.isTemp = true →
              wstatus = .plainTrap ∧ mem kernel bp.addr = 0xCC)))
    | ⟨.ptrace _ _, _, _⟩ :: older | ⟨.output _, _, _⟩ :: older =>
        have := decideSpares older
        inferInstanceAs (Decidable (SparesTemporary registers mem older ∧ True))

/-- A temporary breakpoint that is hit. -/
theorem consumed_by_hits_once :
    ∃ first last, Session scripted first [⟨.continue, 1, .normal⟩] last ∧
      TrappedOn scriptedTracee.toRegisters Scripted.mem 0 (first.newEntries last) := by
  have computed : ((replay scripted (fun _ _ _ => true) (Scripted.start [⟨.plainTrap, 0x11⟩])
      [⟨.tbreak 0x10, 1, .normal⟩]).bind fun first =>
        (Line.next scripted first ⟨.continue, 1, .normal⟩).bind fun last =>
          first.globals.gBreakpoints[0]?.bind fun bp =>
            last.globals.gBreakpoints[0]?.map fun now =>
              (bp.enabled, now.enabled,
                decide (SparesTemporary scriptedTracee.toRegisters Scripted.mem
                  (first.newEntries last)))) = some (true, false, true) := by
    decide +kernel
  obtain ⟨first, _, computed⟩ := Option.bind_eq_some_iff.mp computed
  obtain ⟨last, continues, computed⟩ := Option.bind_eq_some_iff.mp computed
  obtain ⟨bp, found, computed⟩ := Option.bind_eq_some_iff.mp computed
  obtain ⟨now, here, values⟩ := Option.map_eq_some_iff.mp computed
  obtain ⟨enabled, values⟩ := Prod.mk.inj values
  obtain ⟨disabled, spares⟩ := Prod.mk.inj values
  have session : Session scripted first [⟨.continue, 1, .normal⟩] last :=
    Run.single (Line.next_eq_some.mp continues)
  exact ⟨first, last, session, (consumed_by_hits session (by simp) (of_decide_eq_true spares)
    found enabled here disabled).2⟩

/-- A single step from a temporary breakpoint disables it. -/
theorem consumed_by_step :
    ∃ first last, Session scripted (Scripted.start [⟨.plainTrap, 1⟩])
        [⟨.tbreak 0, 1, .normal⟩] first ∧
      Prompt scripted ⟨.stepInstr, 1, .normal⟩ first last ∧
      (∃ bp ∈ first.globals.gBreakpoints[0]?, bp.enabled = true) ∧
      (∃ now ∈ last.globals.gBreakpoints[0]?, now.enabled = false) ∧
      ¬ TrappedOn scriptedTracee.toRegisters Scripted.mem 0 (first.newEntries last) := by
  have computed : ((replay scripted (fun _ _ _ => true) (Scripted.start [⟨.plainTrap, 1⟩])
      [⟨.tbreak 0, 1, .normal⟩]).bind fun first =>
        (Line.next scripted first ⟨.stepInstr, 1, .normal⟩).map fun last =>
          decide ((∃ bp ∈ first.globals.gBreakpoints[0]?, bp.enabled = true) ∧
            (∃ now ∈ last.globals.gBreakpoints[0]?, now.enabled = false) ∧
            ¬ TrappedOn scriptedTracee.toRegisters Scripted.mem 0 (first.newEntries last))) =
      some true := by
    decide +kernel
  obtain ⟨first, replayed, computed⟩ := Option.bind_eq_some_iff.mp computed
  obtain ⟨last, steps, values⟩ := Option.map_eq_some_iff.mp computed
  exact ⟨first, last, session_replay replayed, Line.next_eq_some.mp steps,
    of_decide_eq_true values⟩

end MyDbg
