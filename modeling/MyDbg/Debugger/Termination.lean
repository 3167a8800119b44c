import MyDbg.Debugger.Steady

/-!
Contract: what the debugger still does once the tracee is gone.

Owns: `Punctual`, that no request is made once `g_quit` is set; `EndsFreely`, that
the tracee is never found gone after a step from a persistent breakpoint; and that
a command which runs the tracee is punctual if and only if it ends freely, or is a
`step_instr` that does not see the end at all.

Does not own: what the kernel answers to a request that comes too late.
-/

namespace MyDbg

open LittleEndian ProgramLogic Transition

variable {κ : Type} {host : Host κ}

/-! ## Reading a trace -/

/-- A ptrace request. -/
def Event.asks : Event → Bool
  | .ptrace _ _ => true
  | _ => false

/-- A wait that finds the tracee gone. -/
def Event.ends : Event → Bool
  | .waited wstatus => wstatus.wstopsig.isNone
  | _ => false

/-- No request is made once `g_quit` is set. -/
def Punctual (entries : List (Entry κ)) : Prop :=
  ∀ entry ∈ entries, entry.event.asks = true → entry.globals.gQuit = false

/-- The tracee is never found gone. -/
def Endless (entries : List (Entry κ)) : Prop := ∀ entry ∈ entries, entry.event.ends = false

/-- The last thing that was done is a toggle of `bp`, with both its requests. -/
def Switched (bp : MyBp) : List (Entry κ) → Prop
  | ⟨.ptrace (.pokedata _ _) _, _, _⟩ :: ⟨.ptrace (.peekdata _) _, _, _⟩ ::
      ⟨.toggle index, globals, _⟩ :: _ => globals.gBreakpoints[index]? = some bp
  | _ => False

/-- The last thing that was done is a single step from the breakpoint `bp`. -/
def SteppedFrom (bp : MyBp) : List (Entry κ) → Prop
  | ⟨.ptrace (.singlestep _) _, _, _⟩ :: older => Switched bp older
  | _ => False

/-- The tracee is never found gone after a step from a persistent breakpoint. -/
def EndsFreely : List (Entry κ) → Prop
  | [] => True
  | entry :: older =>
      (entry.event.ends = true → ∀ bp, SteppedFrom bp older → bp.isTemp = true) ∧
        EndsFreely older

section Entries

variable {entry : Entry κ} {older base : List (Entry κ)} {bp : MyBp}

theorem punctual_cons : Punctual (entry :: older) ↔
    (entry.event.asks = true → entry.globals.gQuit = false) ∧ Punctual older :=
  List.forall_mem_cons

theorem endless_cons :
    Endless (entry :: older) ↔ entry.event.ends = false ∧ Endless older :=
  List.forall_mem_cons

theorem Switched.append (switched : Switched bp older) (base : List (Entry κ)) :
    Switched bp (older ++ base) := by
  unfold Switched at switched
  split at switched
  · exact switched
  · exact switched.elim

theorem SteppedFrom.append (stepped : SteppedFrom bp older) (base : List (Entry κ)) :
    SteppedFrom bp (older ++ base) := by
  unfold SteppedFrom at stepped
  split at stepped
  · exact Switched.append stepped base
  · exact stepped.elim

/-- It is one breakpoint at most. -/
theorem SteppedFrom.unique {other : MyBp} (stepped : SteppedFrom bp older)
    (again : SteppedFrom other older) : other = bp := by
  unfold SteppedFrom Switched at stepped again
  split at stepped
  · split at stepped
    · exact Option.some.inj (again.symm.trans stepped)
    · exact stepped.elim
  · exact stepped.elim

theorem Endless.endsFreely (endless : Endless older) : EndsFreely older := by
  induction older with
  | nil => trivial
  | cons entry older inductionHypothesis =>
      obtain ⟨lives, endless⟩ := endless_cons.mp endless
      refine ⟨?_, inductionHypothesis endless⟩
      intro ends
      rw [lives] at ends
      cases ends

end Entries

/-! ## The phases of a command -/

/-- `holds` is true of what happened since `base`. -/
def Since (base : List (Entry κ)) (holds : List (Entry κ) → Prop) (state : State κ) : Prop :=
  ∃ new, state.trace = new ++ base ∧ holds new

/-- The tracee is there. -/
structure Alive (base : List (Entry κ)) (state : State κ) : Prop where
  quit : state.globals.gQuit = false
  since : Since base (fun new => Punctual new ∧ Endless new) state

/-- The tracee was found gone, and nothing is left to switch on. -/
structure Exited (base : List (Entry κ)) (state : State κ) : Prop where
  quit : state.globals.gQuit = true
  since : Since base (fun new => Punctual new ∧ EndsFreely new ∧ ¬ Endless new) state

/-- The tracee was found gone after a step from a persistent breakpoint. -/
structure Doomed (base : List (Entry κ)) (state : State κ) : Prop where
  quit : state.globals.gQuit = true
  since : Since base (fun new => ¬ EndsFreely new) state

/-- A request came too late. -/
def Belated (base : List (Entry κ)) (state : State κ) : Prop :=
  Since base (fun new => ¬ Punctual new ∧ ¬ EndsFreely new) state

section Phases

variable {base : List (Entry κ)} {state after : State κ} {entry : Entry κ}

theorem Since.grows {holds now : List (Entry κ) → Prop} (since : Since base holds state)
    (grows : after.trace = entry :: state.trace) (kept : ∀ new, holds new → now (entry :: new)) :
    Since base now after := by
  obtain ⟨new, split, held⟩ := since
  exact ⟨entry :: new, by rw [grows, split, List.cons_append], kept new held⟩

theorem belated_permanent : Permanent (Belated base : State κ → Prop) where
  event state event belated := by
    refine Since.grows belated rfl fun new late => ⟨?_, ?_⟩
    · intro punctual
      exact late.1 (punctual_cons.mp punctual).2
    · intro free
      exact late.2 free.2
  kernel _ _ belated := belated
  globals _ _ belated := belated

theorem Alive.happens (alive : Alive base state) (grows : after.trace = entry :: state.trace)
    (now : entry.globals = state.globals) (lives : entry.event.ends = false)
    (quit : after.globals.gQuit = false) : Alive base after := by
  refine ⟨quit, alive.since.grows grows ?_⟩
  intro new held
  obtain ⟨punctual, endless⟩ := held
  refine ⟨punctual_cons.mpr ⟨?_, punctual⟩, endless_cons.mpr ⟨lives, endless⟩⟩
  intro _
  rw [now]
  exact alive.quit

theorem Alive.asked (alive : Alive base state) (host : Host κ) (request : Request) :
    Alive base (state.afterPtrace host request) :=
  alive.happens rfl rfl rfl alive.quit

theorem Alive.moves (alive : Alive base state) (trace : after.trace = state.trace)
    (quit : after.globals.gQuit = state.globals.gQuit) : Alive base after := by
  refine ⟨quit.trans alive.quit, ?_⟩
  unfold Since
  rw [trace]
  exact alive.since

theorem alive_stable : Stable host (Alive base) :=
  Stable.of_quiet (fun _ request _ alive => alive.asked host request)
    (fun _ event quiet alive => by
      refine alive.happens rfl rfl ?_ alive.quit
      cases event with
      | waited wstatus => exact quiet.elim
      | _ => rfl)
    fun _ _ _ _ alive => alive.moves rfl rfl

theorem alive_printf (message : Message) :
    Preserves (Alive base) (printf message : Dbg κ Unit) :=
  Preserves.of_wp fun _ alive => alive.happens rfl rfl rfl alive.quit

theorem alive_modifyGlobals {update : Globals → Globals}
    (same : ∀ globals, (update globals).gQuit = globals.gQuit) :
    Preserves (Alive base) (modifyGlobals update : Dbg κ Unit) :=
  Preserves.of_wp fun _ alive => alive.moves rfl (same _)

theorem alive_reportSignal : Preserves (Alive base) (reportSignal : Dbg κ AfterStop) :=
  Preserves.bind (.gets _) fun _ =>
    Preserves.bind (.when _ (alive_printf _)) fun _ => .pure _

theorem alive_finishStop (stopsig : BitVec 8) (isBp : Bool) :
    Preserves (Alive base) (finishStop host stopsig isBp) := by
  refine Preserves.ite (Preserves.bind ?_ fun next => ?_) alive_reportSignal
  · refine Preserves.bind (alive_modifyGlobals fun _ => rfl) fun _ => ?_
    refine (alive_stable.getRegister _).bind fun _ => ?_
    refine Preserves.bind (alive_modifyGlobals fun _ => rfl) fun _ => ?_
    refine Preserves.bind (.gets _) fun _ => Preserves.ite ?_ (Preserves.ite (.pure _) (.pure _))
    exact Preserves.bind (alive_printf _) fun _ => .pure _
  · cases next with
    | returns result => exact alive_reportSignal
    | continues => exact .pure _

theorem alive_hitBreakpoint (index : Nat) (addr : Addr) :
    Preserves (Alive base) (hitBreakpoint host index addr) := by
  refine (Calm.breakpointAt index).bind fun bp => ?_
  refine (Preserves.when _ (alive_stable.toggleBreakpoint index)).bind fun _ => ?_
  refine (Preserves.when _ (alive_printf _)).bind fun _ => ?_
  refine (alive_stable.setRegister _ _).bind fun _ => alive_modifyGlobals ?_
  intro globals
  split <;> rfl

theorem alive_handleStop (step : Bool) (stopsig : BitVec 8) :
    Preserves (Alive base) (handleStop host step stopsig) := by
  refine Preserves.bind (alive_modifyGlobals fun _ => rfl) fun _ => ?_
  refine Preserves.bind (.gets _) fun _ => Preserves.ite ?_ ?_
  · exact Preserves.bind (alive_modifyGlobals fun _ => rfl) fun _ => .pure _
  · refine (alive_stable.getRegister _).bind fun rip => Preserves.bind (.gets _) fun globals => ?_
    refine Preserves.bind (.forSome _ fun index => alive_hitBreakpoint index _) fun _ => ?_
    exact alive_finishStop stopsig _

/-! ## The end -/

/-- The wait that follows `before` finds the tracee gone. -/
structure EndSeen (before after : State κ) : Prop where
  quit : after.globals.gQuit = true
  trace : ∃ printed waited, printed.event.asks = false ∧ printed.event.ends = false ∧
    waited.event.ends = true ∧ after.trace = printed :: waited :: before.trace

theorem waited_asks (ends : entry.event.ends = true) : entry.event.asks = false := by
  obtain ⟨event, globals, kernel⟩ := entry
  cases event with
  | waited wstatus => rfl
  | ptrace request accepted => cases ends
  | toggle index => cases ends
  | output message => cases ends

theorem Alive.ended {base : List (Entry κ)} (alive : Alive base state)
    (seen : EndSeen state after) :
    after.globals.gQuit = true ∧ ∃ new, state.trace = new ++ base ∧ Since base (fun now =>
      Punctual now ∧ ¬ Endless now ∧
        (EndsFreely now ↔ ∀ bp, SteppedFrom bp new → bp.isTemp = true)) after := by
  obtain ⟨new, split, punctual, endless⟩ := alive.since
  obtain ⟨printed, waited, silent, open', ends, grows⟩ := seen.trace
  refine ⟨seen.quit, new, split, printed :: waited :: new, by simp [grows, split], ?_, ?_, ?_⟩
  · rw [punctual_cons, punctual_cons]
    simp [silent, waited_asks ends, punctual]
  · simp [endless_cons, ends]
  · simp [EndsFreely, open', ends, endless.endsFreely]

/-- The tracee ends without having been stepped from a persistent breakpoint. -/
theorem Alive.gone (alive : Alive base state) (seen : EndSeen state after)
    (free : ∀ bp, SteppedFrom bp state.trace → bp.isTemp = true) : Exited base after := by
  obtain ⟨quit, new, split, now, grows, punctual, found, iff⟩ := alive.ended seen
  refine ⟨quit, now, grows, punctual, iff.mpr ?_, found⟩
  intro bp stepped
  apply free
  rw [split]
  exact stepped.append base

theorem Alive.doomed {bp : MyBp} (alive : Alive base state) (seen : EndSeen state after)
    (stepped : Since base (SteppedFrom bp) state) (persistent : bp.isTemp = false) :
    Doomed base after := by
  obtain ⟨quit, new, split, now, grows, _, _, iff⟩ := alive.ended seen
  obtain ⟨same, splitToo, stepped⟩ := stepped
  obtain rfl : new = same := List.append_cancel_right (split.symm.trans splitToo)
  refine ⟨quit, now, grows, ?_⟩
  intro free
  have temp := iff.mp free bp stepped
  rw [persistent] at temp
  cases temp

/-- The next request comes too late. -/
theorem Doomed.asked (doomed : Doomed base state) (request : Request) :
    Belated base (state.afterPtrace host request) := by
  refine doomed.since.grows rfl fun new unfree => ⟨?_, fun free => unfree free.2⟩
  intro punctual
  have late : state.globals.gQuit = false := (punctual_cons.mp punctual).1 rfl
  rw [doomed.quit] at late
  cases late

/-- A wait, from a state in which the tracee is there. -/
theorem waitProgram_alive {continues : Dbg κ Unit} {post : Post MyException (State κ) Bool}
    (step : Bool) (alive : Alive base state)
    (returned : ∀ result after, Alive base after → post.ok result after)
    (continued : ∀ after, Alive base after →
      wp continues ⟨fun _ => post.ok false, post.throw, post.fault, post.noReturn⟩ after)
    (ended : ∀ after, EndSeen state after → post.ok false after)
    (raised : ∀ raised after, Alive base after → post.throw raised after)
    (fault : ∀ after, Alive base after → post.fault after)
    (noReturn : ∀ after, Alive base after → post.noReturn after) :
    wp (waitProgram host continues step) post state := by
  unfold waitProgram
  rw [wp_bind]
  apply wp_waitStop
  · intro _
    exact noReturn state alive
  · intro kernel _
    exact raised _ _ (alive.moves rfl rfl)
  · intro wstatus kernel stopsig _ status
    have stopped : Alive base (state.stoppedBy wstatus kernel) :=
      alive.happens rfl rfl (by simp [Event.ends, status]) alive.quit
    apply wp_mono ((alive_handleStop step stopsig).wp stopped)
    refine ⟨?_, raised, fault, noReturn⟩
    intro next after alive
    cases next with
    | returns result => exact returned result after alive
    | continues =>
        show wp (continues >>= _) _ _
        rw [wp_bind]
        exact continued after alive
  · intro wstatus kernel _ status
    exact ended _ ⟨rfl, _, _, rfl, rfl, by simp [Event.ends, status], rfl⟩

end Phases

/-! ## Stepping and continuing -/

/-- Where nothing follows that could come too late. -/
def Quiet (base : List (Entry κ)) (state : State κ) : Prop := Alive base state ∨ Belated base state

/-- `done` tells of a value whether the caller may return. -/
def Concluding (base : List (Entry κ)) {α : Type} (done : α → Prop) :
    Post MyException (State κ) α where
  ok value state := Quiet base state ∨ Exited base state ∧ done value
  throw _ := Quiet base
  fault := Quiet base
  noReturn := Quiet base

section Running

variable {base : List (Entry κ)} {state : State κ} {bp : MyBp} {index : Nat}

theorem Concluding.of_alive {α : Type} {done : α → Prop} {program : Dbg κ α}
    (alive : Alive base state) (preserves : Preserves (Alive base) program) :
    wp program (Concluding base done) state :=
  wp_mono (preserves.wp alive) ⟨fun _ _ kept => .inl (.inl kept), fun _ _ kept => .inl kept,
    fun _ kept => .inl kept, fun _ kept => .inl kept⟩

theorem Concluding.of_belated {α : Type} {done : α → Prop} {program : Dbg κ α}
    (belated : Belated base state) (preserves : Preserves (Belated base) program) :
    wp program (Concluding base done) state :=
  wp_mono (preserves.wp belated) ⟨fun _ _ kept => .inl (.inr kept), fun _ _ kept => .inr kept,
    fun _ kept => .inr kept, fun _ kept => .inr kept⟩

theorem Alive.bind {α β : Type} {done : β → Prop} {first : Dbg κ α} {next : α → Dbg κ β}
    (alive : Alive base state) (preserves : Preserves (Alive base) first)
    (rest : ∀ value after, Alive base after → wp (next value) (Concluding base done) after) :
    wp (first >>= next) (Concluding base done) state := by
  rw [wp_bind]
  exact wp_mono (preserves.wp alive)
    ⟨rest, fun _ _ kept => .inl kept, fun _ kept => .inl kept, fun _ kept => .inl kept⟩

/-- What follows has to be looked at only where the tracee is there, or was found gone. -/
theorem Concluding.bind {α β : Type} {done : α → Prop} {doneToo : β → Prop} {first : Dbg κ α}
    {next : α → Dbg κ β} (starts : wp first (Concluding base done) state)
    (alive : ∀ value after, Alive base after → wp (next value) (Concluding base doneToo) after)
    (gone : ∀ value after, Exited base after → done value →
      wp (next value) (Concluding base doneToo) after)
    (belated : ∀ value, Preserves (Belated base) (next value)) :
    wp (first >>= next) (Concluding base doneToo) state := by
  rw [wp_bind]
  apply wp_mono starts
  refine ⟨?_, fun _ _ quiet => quiet, fun _ quiet => quiet, fun _ quiet => quiet⟩
  intro value after ending
  rcases ending with (here | late) | ⟨ended, isDone⟩
  · exact alive value after here
  · exact Concluding.of_belated late (belated value)
  · exact gone value after ended isDone

theorem stepOnce_alive {post : Post MyException (State κ) Bool} (alive : Alive base state)
    (returned : ∀ result after, Alive base after → post.ok result after)
    (ended : ∀ stepped after data accepted globals kernel, Alive base stepped →
      stepped.trace = ⟨.ptrace (.singlestep data) accepted, globals, kernel⟩ :: state.trace →
      EndSeen stepped after → post.ok false after)
    (raised : ∀ raised after, Alive base after → post.throw raised after)
    (fault : ∀ after, Alive base after → post.fault after)
    (noReturn : ∀ after, Alive base after → post.noReturn after) :
    wp (stepOnce host (pure ())) post state := by
  unfold stepOnce
  rw [wp_bind, wp_getGlobals]
  show wp (myPtrace host _ >>= _) _ _
  rw [wp_bind, wp_myPtrace]
  have asked := alive.asked host (.singlestep state.globals.gSignum)
  constructor
  · intro reply _
    have stepped : Alive base ((state.afterPtrace host
        (.singlestep state.globals.gSignum)).withGlobals { state.globals with gSignum := 0 }) :=
      asked.moves rfl rfl
    apply waitProgram_alive true stepped returned _ _ raised fault noReturn
    · intro after alive
      exact returned false after alive
    · intro after seen
      exact ended _ after _ _ _ _ stepped rfl seen
  · intro _
    exact raised _ _ asked

/-- The toggle after a step from a temporary breakpoint makes no request. -/
theorem toggleBack_temporary {done : Unit → Prop} (found : HasBreakpoint index bp state)
    (off : bp.enabled = false) (temp : bp.isTemp = true) (gone : Exited base state)
    (isDone : done ()) :
    wp (toggleBreakpoint host index) (Concluding base done) state := by
  unfold wp
  rw [toggleBreakpoint_off found off temp]
  refine .inr ⟨⟨gone.quit, gone.since.grows rfl ?_⟩, isDone⟩
  intro new held
  obtain ⟨punctual, free, ends⟩ := held
  refine ⟨punctual_cons.mpr ⟨by simp [Event.asks], punctual⟩, ⟨by simp [Event.ends], free⟩, ?_⟩
  intro endless
  exact ends (endless_cons.mp endless).2

/-- The toggle after a step from a persistent breakpoint makes one at once. -/
theorem toggleBack_persistent {done : Unit → Prop} (found : HasBreakpoint index bp state)
    (persistent : bp.isTemp = false) (doomed : Doomed base state) :
    wp (toggleBreakpoint host index) (Concluding base done) state := by
  have noted : Doomed base (state.record (.toggle index)) :=
    ⟨doomed.quit, doomed.since.grows rfl fun new unfree free => unfree free.2⟩
  have late (request : Request) : Belated base
      ((state.record (.toggle index)).afterPtrace host request) := noted.asked request
  apply wp_toggleBreakpoint found
  · intro _ temp
    rw [persistent] at temp
    cases temp
  · intro _
    exact .inr (late _)
  · intro _ word poked isPoked
    subst isPoked
    have later : Belated base (((state.record (.toggle index)).afterPtrace host
        (.peekdata bp.addr)).afterPtrace host (.pokedata bp.addr word)) :=
      belated_permanent.asked _ _ (late _)
    exact ⟨.inr later, .inl (.inr (belated_permanent.globals _ _ later))⟩

/-- The step and the toggle after it, from a breakpoint that was switched off. -/
theorem stepFrom_rest (alive : Alive base state) (off : Since base (Switched bp) state)
    (enabled : bp.enabled = true) (found : HasBreakpoint index bp.toggled state) :
    wp (do let ret ← stepOnce host (pure ())
           toggleBreakpoint host index
           return ret)
      (Concluding base (· = false)) state := by
  have disabled : bp.toggled.enabled = false := by simp [enabled]
  have back {ret : Bool} {after : State κ}
      (toggles : wp (toggleBreakpoint host index) (Concluding base fun _ => ret = false) after) :
      wp (toggleBreakpoint host index >>= fun _ => pure ret)
        (Concluding base (· = false)) after := by
    rw [wp_bind]
    exact toggles
  have alike {ret : Bool} {after : State κ} (alive : Alive base after) :
      wp (toggleBreakpoint host index) (Concluding base fun _ => ret = false) after :=
    Concluding.of_alive alive (alive_stable.toggleBreakpoint index)
  have steps : wp (stepOnce host (pure ())) ⟨fun ret after => HasBreakpoint index bp.toggled after →
      wp (toggleBreakpoint host index) (Concluding base fun _ => ret = false) after,
      fun _ => Quiet base, Quiet base, Quiet base⟩ state := by
    apply stepOnce_alive alive
    · intro ret after alive _
      exact alike alive
    · intro stepped after data accepted globals kernel alive grows seen found
      have resumed : Since base (SteppedFrom bp) stepped :=
        off.grows grows fun new off => off
      cases temp : bp.isTemp with
      | true =>
          have gone : Exited base after := by
            apply alive.gone seen
            intro other from'
            obtain ⟨new, split, stepped⟩ := resumed
            rw [split] at from'
            rw [(stepped.append base).unique from']
            exact temp
          exact toggleBack_temporary found disabled temp gone rfl
      | false => exact toggleBack_persistent found temp (alive.doomed seen resumed temp)
    · exact fun _ _ alive => .inl alive
    · exact fun _ alive => .inl alive
    · exact fun _ alive => .inl alive
  rw [wp_bind]
  exact wp_mono (wp_and steps ((stepOnce_disabled disabled).wp found))
    ⟨fun ret after kept => back (kept.1 kept.2), fun _ _ kept => kept.1, fun _ kept => kept.1,
      fun _ kept => kept.1⟩

theorem stepFrom_concluding (alive : Alive base state) (found : HasBreakpoint index bp state)
    (enabled : bp.enabled = true) :
    wp (stepFrom host index) (Concluding base (· = false)) state := by
  have noted : Alive base (state.record (.toggle index)) := alive.happens rfl rfl rfl alive.quit
  have peeked := noted.asked host (.peekdata bp.addr)
  unfold stepFrom
  rw [wp_bind]
  apply wp_toggleBreakpoint found
  · intro off
    rw [enabled] at off
    cases off
  · intro _
    exact .inl peeked
  · intro _ word poked isPoked
    subst isPoked
    have written := peeked.asked host (.pokedata bp.addr word)
    refine ⟨.inl written, stepFrom_rest (written.moves rfl rfl) ?_ enabled ?_⟩
    · obtain ⟨new, split, _⟩ := alive.since
      refine ⟨_ :: _ :: _ :: new,
        congrArg (List.cons _) (congrArg (List.cons _) (congrArg (List.cons _) split)), ?_⟩
      exact found
    · exact List.getElem?_set_self (List.getElem?_eq_some_iff.mp found).1

theorem singleStep_concluding (continues : Dbg κ Unit) (alive : Alive base state) :
    wp (singleStep host continues) (Concluding base (· = false)) state := by
  rw [singleStep_eq]
  have asked := alive.asked host .getregs
  cases answer : (host.ptrace .getregs state.kernel).1 with
  | none =>
      unfold wp
      rw [singleStep_unread answer]
      exact .inl asked
  | some reply =>
      cases hit : getBreakpoint state.globals.gBreakpoints (reply.regs .rip) with
      | some index =>
          obtain ⟨bp, found, hits, _⟩ := getBreakpoint_eq_some.mp hit
          unfold wp
          rw [singleStep_hit answer hit]
          exact stepFrom_concluding asked found (MyBp.hits_iff.mp hits).2.1
      | none =>
          unfold wp
          rw [singleStep_miss answer hit]
          apply stepOnce_alive asked
          · exact fun _ _ alive => .inl (.inl alive)
          · intro stepped after data accepted globals kernel alive grows seen
            refine .inr ⟨alive.gone seen ?_, rfl⟩
            rw [grows]
            intro bp stepped
            exact stepped.elim
          · exact fun _ _ alive => .inl alive
          · exact fun _ alive => .inl alive
          · exact fun _ alive => .inl alive

/-- Neither PTRACE_CONT nor PTRACE_SYSCALL is a single step. -/
theorem resumption_steps {request : Request} {accepted : Bool} {globals resumed : Globals}
    {kernel : κ} {older : List (Entry κ)}
    (resumes : request = if globals.gSyscalls ≠ [] then .syscall globals.gSignum
      else .cont globals.gSignum) :
    ¬ SteppedFrom bp (⟨.ptrace request accepted, resumed, kernel⟩ :: older) := by
  intro stepped
  split at resumes
  · subst resumes
    exact stepped
  · subst resumes
    exact stepped

theorem resumeExecution_concluding {continues : Dbg κ Unit} (alive : Alive base state)
    (continued : ∀ state, Alive base state → wp continues (Concluding base fun _ => True) state) :
    wp (resumeExecution host continues) (Concluding base fun _ => True) state := by
  unfold resumeExecution
  rw [wp_bind_ok (rfl : getGlobals state = .ok state.globals state)]
  generalize isRequest : (if state.globals.gSyscalls ≠ [] then
    Request.syscall state.globals.gSignum else Request.cont state.globals.gSignum) = request
  rw [wp_bind, wp_myPtrace]
  constructor
  · intro reply _
    show wp (waitProgram host continues false >>= _) _ _
    rw [wp_bind]
    have resumed : Alive base ((state.afterPtrace host request).withGlobals
        { state.globals with gSignum := 0 }) := (alive.asked host request).moves rfl rfl
    apply waitProgram_alive false resumed
    · exact fun _ _ alive => .inl (.inl alive)
    · exact continued
    · intro after seen
      refine .inr ⟨resumed.gone seen ?_, trivial⟩
      intro bp stepped
      exact (resumption_steps isRequest.symm stepped).elim
    · exact fun _ _ alive => .inl alive
    · exact fun _ alive => .inl alive
    · exact fun _ alive => .inl alive
  · intro _
    exact .inl (alive.asked host request)

theorem continueExecution_concluding (depth : Nat) (alive : Alive base state) :
    wp (continueExecution host depth) (Concluding base fun _ => True) state := by
  induction depth generalizing state with
  | zero => exact .inl alive
  | succ depth inductionHypothesis =>
      unfold continueExecution
      rw [wp_bind, wp_getRegister]
      constructor
      · intro reply _
        have looked := alive.asked host .getregs
        show wp (getGlobals >>= _) _ _
        rw [wp_bind_ok (rfl : getGlobals _ = _), wp_ite]
        constructor
        · intro _
          apply Concluding.bind (singleStep_concluding _ looked)
          · intro stepped after alive
            cases stepped with
            | true =>
                exact resumeExecution_concluding alive fun _ alive => inductionHypothesis alive
            | false => exact .inl (.inl alive)
          · intro stepped after gone stays
            subst stays
            exact .inr ⟨gone, trivial⟩
          · have permanent : Permanent (Belated base : State κ → Prop) := belated_permanent
            intro stepped
            exact .ite (permanent.resumeExecution (permanent.continueExecution depth)) (.pure _)
        · intro _
          exact resumeExecution_concluding looked fun state alive => inductionHypothesis alive
      · intro _
        exact .inl (alive.asked host .getregs)

end Running

/-! ## Commands -/

/-- The commands that run the tracee. -/
def Command.resumes : Command → Bool
  | .stepInstr | .nextInstr | .finish | .continue => true
  | _ => false

/-- How the tracee may end during a command: not in a `step_instr`, which goes on to
read RIP, and not in a step from a persistent breakpoint, which is to be switched on
again. -/
def MayEnd (command : Command) (entries : List (Entry κ)) : Prop :=
  EndsFreely entries ∧ (command = .stepInstr → Endless entries)

/-- Once `g_quit` is set no request is made, and the command ends without raising. -/
def EndsQuietly (before : State κ) (outcome : Outcome MyException (State κ) Unit) : Prop :=
  Punctual (before.newEntries outcome.state) ∧
    (outcome.state.globals.gQuit = true → ∀ raised after, outcome ≠ .throw raised after)

section Commands

variable {before : State κ}

theorem Alive.start (live : before.globals.gQuit = false) : Alive before.trace before :=
  ⟨live, [], rfl, by simp [Punctual], by simp [Endless]⟩

theorem Quiet.endsQuietly {outcome : Outcome MyException (State κ) Unit}
    (quiet : Quiet before.trace outcome.state) :
    EndsQuietly before outcome ↔ EndsFreely (before.newEntries outcome.state) := by
  cases quiet with
  | inl alive =>
      obtain ⟨new, split, punctual, endless⟩ := alive.since
      rw [EndsQuietly, newEntries_eq split]
      refine iff_of_true ⟨punctual, ?_⟩ endless.endsFreely
      intro quit
      rw [alive.quit] at quit
      cases quit
  | inr belated =>
      obtain ⟨new, split, late, unfree⟩ := belated
      rw [EndsQuietly, newEntries_eq split]
      exact iff_of_false (fun quiet => late quiet.1) unfree

/-- A command that ends as `Concluding` says ends quietly if the tracee ended freely. -/
theorem endsQuietly_of_concluding {outcome : Outcome MyException (State κ) Unit}
    (ending : (Concluding before.trace fun _ => True).Holds outcome) :
    EndsQuietly before outcome ↔ EndsFreely (before.newEntries outcome.state) := by
  cases outcome with
  | ok value after =>
      rcases ending with quiet | ⟨gone, _⟩
      · exact Quiet.endsQuietly quiet
      · obtain ⟨new, split, punctual, free, _⟩ := gone.since
        rw [EndsQuietly, Outcome.state_ok, newEntries_eq split]
        exact iff_of_true ⟨punctual, by simp⟩ free
  | throw raised after => exact Quiet.endsQuietly ending
  | fault after => exact Quiet.endsQuietly ending
  | noReturn after => exact Quiet.endsQuietly ending

/-- The tracee was found gone, and a request came too late. -/
def Overdue (base : List (Entry κ)) (state : State κ) : Prop :=
  Since base (fun new => ¬ Punctual new ∧ ¬ Endless new) state

theorem overdue_permanent {base : List (Entry κ)} :
    Permanent (Overdue base : State κ → Prop) where
  event state event overdue := by
    refine Since.grows overdue rfl fun new late => ⟨?_, ?_⟩
    · intro punctual
      exact late.1 (punctual_cons.mp punctual).2
    · intro endless
      exact late.2 (endless_cons.mp endless).2
  kernel _ _ overdue := overdue
  globals _ _ overdue := overdue

section Reports

variable {base : List (Entry κ)} {state : State κ}

theorem Belated.overdue (belated : Belated base state) : Overdue base state := by
  obtain ⟨new, split, late, unfree⟩ := belated
  exact ⟨new, split, late, fun endless => unfree endless.endsFreely⟩

theorem Exited.asked (gone : Exited base state) (request : Request) :
    Overdue base (state.afterPtrace host request) := by
  refine gone.since.grows rfl fun new held => ⟨?_, ?_⟩
  · intro punctual
    have late : state.globals.gQuit = false := (punctual_cons.mp punctual).1 rfl
    rw [gone.quit] at late
    cases late
  · intro endless
    exact held.2.2 (endless_cons.mp endless).2

/-- Where a command may be that reads RIP in the end. -/
def Reported (base : List (Entry κ)) (state : State κ) : Prop :=
  Alive base state ∨ Overdue base state

theorem Quiet.reported (quiet : Quiet base state) : Reported base state := by
  cases quiet with
  | inl alive => exact .inl alive
  | inr belated => exact .inr belated.overdue

/-- RIP is read and printed whether the tracee is there or not. -/
theorem report_concluding {done : Bool → Prop} {result : Bool}
    (ending : (Concluding base done).ok result state) :
    wp (do let rip ← getRegister host .rip
           printf (.stepped false rip)) (Post.always (Reported base)) state := by
  have overdue {program : Dbg κ Unit} {state : State κ}
      (preserves : Preserves (Overdue base) program)
      (late : Overdue base state) : wp program (Post.always (Reported base)) state :=
    wp_mono (preserves.wp late) ⟨fun _ _ kept => .inr kept, fun _ _ kept => .inr kept,
      fun _ kept => .inr kept, fun _ kept => .inr kept⟩
  have permanent : Permanent (Overdue base : State κ → Prop) := overdue_permanent
  rcases ending with (alive | belated) | ⟨gone, _⟩
  · have keeps : Preserves (Alive base) (do
        let rip ← getRegister host .rip
        printf (.stepped false rip)) :=
      (alive_stable.getRegister _).bind fun rip => alive_printf _
    exact wp_mono (keeps.wp alive) ⟨fun _ _ kept => .inl kept, fun _ _ kept => .inl kept,
      fun _ kept => .inl kept, fun _ kept => .inl kept⟩
  · apply overdue _ belated.overdue
    exact (permanent.stable.getRegister _).bind fun rip => permanent.printf _
  · rw [wp_bind, wp_getRegister]
    constructor
    · intro reply _
      exact overdue (permanent.printf _) (gone.asked _)
    · intro _
      exact .inr (gone.asked _)

end Reports

theorem cmdStepInstr_reported (depth : Nat) (live : before.globals.gQuit = false) :
    Reported before.trace (cmdStepInstr host depth before).state := by
  have always : wp (cmdStepInstr host depth) (Post.always (Reported before.trace)) before := by
    unfold cmdStepInstr
    rw [wp_bind]
    exact wp_mono (singleStep_concluding _ (Alive.start live))
      ⟨fun _ _ ending => report_concluding ending, fun _ _ quiet => quiet.reported,
        fun _ quiet => quiet.reported, fun _ quiet => quiet.reported⟩
  unfold wp at always
  rwa [Post.always_holds] at always

theorem cmdStepInstr_quiet (depth : Nat) (live : before.globals.gQuit = false) :
    EndsQuietly before (cmdStepInstr host depth before) ↔
      Endless (before.newEntries (cmdStepInstr host depth before).state) := by
  have reported : Reported before.trace (cmdStepInstr host depth before).state :=
    cmdStepInstr_reported depth live
  cases reported with
  | inl alive =>
      obtain ⟨new, split, punctual, endless⟩ := alive.since
      rw [EndsQuietly, newEntries_eq split]
      refine iff_of_true ⟨punctual, ?_⟩ endless
      intro quit
      rw [alive.quit] at quit
      cases quit
  | inr late =>
      obtain ⟨new, split, late, ends⟩ := late
      rw [EndsQuietly, newEntries_eq split]
      exact iff_of_false (fun quiet => late quiet.1) ends

section Resuming

variable {base : List (Entry κ)} {state : State κ}

theorem placed_continued (depth : Nat) (addr : Addr) (flags : MyBpFlags)
    (alive : Alive base state) :
    wp (do let _ ← placeBreakpoint host addr flags
           continueExecution host depth) (Concluding base fun _ => True) state :=
  alive.bind (alive_stable.placeBreakpoint addr flags) fun _ _ alive =>
    continueExecution_concluding depth alive

theorem runNext_concluding (depth : Nat) (overCall : Bool) (next : Addr)
    (alive : Alive base state) :
    wp (runNext host depth overCall next) (Concluding base fun _ => True) state := by
  cases overCall with
  | true => exact placed_continued depth next _ alive
  | false =>
      apply Concluding.bind (singleStep_concluding _ alive)
      · exact fun _ _ alive => .inl (.inl alive)
      · exact fun _ _ gone _ => .inr ⟨gone, trivial⟩
      · exact fun _ => .pure _

theorem cmdNextInstr_concluding (depth : Nat) (alive : Alive base state) :
    wp (cmdNextInstr host depth) (Concluding base fun _ => True) state := by
  unfold cmdNextInstr
  apply alive.bind (alive_stable.getRegister _)
  intro rip looked alive
  apply alive.bind alive_stable.getCurrentInstruction
  intro instr read alive
  apply Concluding.bind (runNext_concluding depth _ _ alive)
  · intro _ after alive
    have report : Preserves (Alive base) (do
        let rip ← getRegister host .rip
        printf (.stepped (startsWith instr.str ['c', 'a', 'l', 'l']) rip)) :=
      (alive_stable.getRegister _).bind fun _ => alive_printf _
    exact Concluding.of_alive alive (Preserves.bind (.gets _) fun _ => .ite (.pure _) report)
  · intro _ after gone _
    rw [wp_bind, wp_getGlobals]
    show wp (if after.globals.gQuit = true then pure () else _) _ _
    rw [if_pos gone.quit]
    exact .inr ⟨gone, trivial⟩
  · intro _
    have permanent : Permanent (Belated base : State κ → Prop) := belated_permanent
    refine Preserves.bind (.gets _) fun _ => .ite (.pure _) ?_
    exact (permanent.stable.getRegister _).bind fun _ => permanent.printf _

theorem cmdFinish_concluding (depth : Nat) (alive : Alive base state) :
    wp (cmdFinish host depth) (Concluding base fun _ => True) state := by
  unfold cmdFinish
  apply alive.bind Calm.getFinishAddress
  intro addr read alive
  apply alive.bind (alive_stable.placeBreakpoint addr _)
  intro _ placed alive
  apply Concluding.bind (continueExecution_concluding depth alive)
  · intro _ after alive
    exact Concluding.of_alive alive (alive_printf _)
  · intro _ after gone _
    refine .inr ⟨⟨gone.quit, gone.since.grows rfl ?_⟩, trivial⟩
    intro new held
    refine ⟨punctual_cons.mpr ⟨by simp [Event.asks], held.1⟩,
      ⟨by simp [Event.ends], held.2.1⟩, ?_⟩
    intro endless
    exact held.2.2 (endless_cons.mp endless).2
  · exact fun _ => belated_permanent.printf _

end Resuming

/-- The commands but `step_instr`, from the tracee being there. -/
theorem exec_concluding (depth : Nat) (command : Command) (resumes : command.resumes = true)
    (other : command ≠ .stepInstr) (live : before.globals.gQuit = false) :
    wp (exec host depth command) (Concluding before.trace fun _ => True) before := by
  have alive : Alive before.trace before := Alive.start live
  cases command with
  | nextInstr => exact cmdNextInstr_concluding depth alive
  | finish => exact cmdFinish_concluding depth alive
  | «continue» =>
      exact alive.bind (alive_printf _) fun _ _ alive => continueExecution_concluding depth alive
  | stepInstr => exact absurd rfl other
  | _ => cases resumes

/-- A command that runs the tracee ends quietly exactly if the tracee ended, if it did,
where it may. -/
theorem exec_quiet_iff (depth : Nat) (command : Command) (resumes : command.resumes = true)
    (live : before.globals.gQuit = false) :
    EndsQuietly before (exec host depth command before) ↔
      MayEnd command (before.newEntries (exec host depth command before).state) := by
  by_cases step : command = .stepInstr
  · subst step
    rw [show exec host depth .stepInstr = cmdStepInstr host depth from rfl,
      cmdStepInstr_quiet depth live]
    constructor
    · intro endless
      exact ⟨endless.endsFreely, fun _ => endless⟩
    · intro mayEnd
      exact mayEnd.2 rfl
  · rw [endsQuietly_of_concluding (exec_concluding depth command resumes step live)]
    constructor
    · intro free
      exact ⟨free, fun steps => absurd steps step⟩
    · intro mayEnd
      exact mayEnd.1

end Commands

/-! ## Runs -/

/-- The loop of the debugger runs a command that resumes the tracee. -/
def Resumed (host : Host κ) (line : Line) (before after : State κ) : Prop :=
  line.command.resumes = true ∧ before.globals.gQuit = false ∧ Prompt host line before after

theorem Prompt.state {line : Line} {before after : State κ}
    (prompt : Prompt host line before after) :
    (exec host line.depth line.command before).state = after := by
  unfold Prompt at prompt
  split at prompt
  · rw [prompt, Outcome.state_ok]
  · rw [prompt, Outcome.state_throw]

theorem resumed_quiet_iff {line : Line} {before after : State κ}
    (resumed : Resumed host line before after) :
    EndsQuietly before (exec host line.depth line.command before) ↔
      MayEnd line.command (before.newEntries after) := by
  obtain ⟨resumes, live, prompt⟩ := resumed
  rw [exec_quiet_iff line.depth line.command resumes live, Prompt.state prompt]

/-- Every command of a run ends quietly exactly if the tracee ends, where it does, where
it may; and so does a command after it, which need not come back. -/
theorem runs_end_quietly (host : Host κ) (first last : State κ) (lines : List Line) :
    (Run (fun line before after => Resumed host line before after ∧
          EndsQuietly before (exec host line.depth line.command before)) first lines last ↔
      Run (fun line before after => Resumed host line before after ∧
          MayEnd line.command (before.newEntries after)) first lines last) ∧
    ∀ depth command, Command.resumes command = true → last.globals.gQuit = false →
      (EndsQuietly last (exec host depth command last) ↔
        MayEnd command (last.newEntries (exec host depth command last).state)) := by
  refine ⟨⟨?_, ?_⟩, fun depth command resumes live => exec_quiet_iff depth command resumes live⟩
  · intro run
    exact run.mono fun line before after step =>
      ⟨step.1, (resumed_quiet_iff step.1).mp step.2⟩
  · intro run
    exact run.mono fun line before after step =>
      ⟨step.1, (resumed_quiet_iff step.1).mpr step.2⟩

/-! ## A tracee that exits -/

/-- The scripted tracee, gone when it has made its stops: no request is accepted then. -/
def mortal : Host Scripted where
  ptrace request kernel :=
    if kernel.stops.isEmpty then (none, kernel) else scripted.ptrace request kernel
  waitpid := scripted.waitpid
  procMem := scripted.procMem
  csDisasm := scripted.csDisasm
  unwindCaller := scripted.unwindCaller
  syscallNumbers := []

/-- Stopped at 0x10; it exits when it is resumed. -/
def lastInstruction : State Scripted :=
  State.start { mem := fun _ => 0x90, regs := fun _ => 0x10, stops := [⟨.exited 0, 0x10⟩] }

def Event.singleSteps : Event → Bool
  | .ptrace (.singlestep _) _ => true
  | _ => false

/-- Without a single step there is no step from a breakpoint. -/
theorem endsFreely_unstepped {entries : List (Entry κ)}
    (unstepped : ∀ entry ∈ entries, entry.event.singleSteps = false) : EndsFreely entries := by
  induction entries with
  | nil => trivial
  | cons entry older inductionHypothesis =>
      obtain ⟨_, unstepped⟩ := List.forall_mem_cons.mp unstepped
      refine ⟨?_, inductionHypothesis unstepped⟩
      intro _ bp stepped
      unfold SteppedFrom at stepped
      split at stepped
      · exact absurd (unstepped _ List.mem_cons_self) (by simp [Event.singleSteps])
      · exact stepped.elim

/-- The tracee exits while it is continued, not on a breakpoint. -/
theorem continue_ends_quietly :
    ∃ after, Run (fun line before after => Resumed mortal line before after ∧
          EndsQuietly before (exec mortal line.depth line.command before))
        lastInstruction [⟨.continue, 1, .normal⟩] after ∧
      EndsQuietly lastInstruction (exec mortal 1 .continue lastInstruction) := by
  have mayEnd : MayEnd .continue (lastInstruction.newEntries
      (exec mortal 1 .continue lastInstruction).state) :=
    ⟨endsFreely_unstepped (by decide), nofun⟩
  have quiet := ((runs_end_quietly mortal lastInstruction lastInstruction []).2 1 .continue rfl
    rfl).mpr mayEnd
  have continues : exec mortal 1 .continue lastInstruction =
    .ok () (exec mortal 1 .continue lastInstruction).state := rfl
  have resumed : Resumed mortal ⟨.continue, 1, .normal⟩ lastInstruction
      (exec mortal 1 .continue lastInstruction).state := ⟨rfl, rfl, continues⟩
  exact ⟨_, (runs_end_quietly mortal lastInstruction _ _).1.mpr (Run.single ⟨resumed, mayEnd⟩),
    quiet⟩

/-- The tracee exits at an instruction with a breakpoint, and `single_step` wants to
switch the breakpoint on again. -/
theorem continue_asks_late :
    ∃ before after, Session mortal lastInstruction [⟨.break 0x10, 0, .normal⟩] before ∧
      before.globals.gQuit = false ∧
      exec mortal 1 .continue before = .throw .ptraceException after ∧
      after.globals.gQuit = true ∧ ¬ EndsQuietly before (exec mortal 1 .continue before) := by
  let before := (exec mortal 0 (.break 0x10) lastInstruction).state
  let after := (exec mortal 1 .continue before).state
  have placed : Prompt mortal ⟨.break 0x10, 0, .normal⟩ lastInstruction before := rfl
  have raises : exec mortal 1 .continue before = .throw .ptraceException after := rfl
  have quit : after.globals.gQuit = true := rfl
  refine ⟨before, after, Run.single placed, rfl, raises, quit, ?_⟩
  intro quiet
  rw [raises] at quiet
  exact quiet.2 quit _ _ rfl

/-- `step_instr` reads RIP of a tracee that is gone. -/
theorem stepInstr_asks_late :
    ∃ after, Prompt mortal ⟨.stepInstr, 1, .raised .ptraceException⟩ lastInstruction after ∧
      after.globals.gQuit = true :=
  ⟨(exec mortal 1 .stepInstr lastInstruction).state, rfl, rfl⟩

end MyDbg
