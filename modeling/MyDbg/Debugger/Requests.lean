import MyDbg.Debugger.Attentive

/-!
Contract: the requests that write to a tracee.

Owns: what the debugger has just read when it writes memory or registers, and what
it may write then (`Justified`); and that every request of every run of `main`,
however it ends, is justified.

Does not own: what the kernel makes of a request.
-/

namespace MyDbg

open LittleEndian ProgramLogic Main

variable {κ : Type} {host : Host κ} {entry : Entry κ} {trace older : List (Entry κ)}

/-! ## Justified requests -/

/-- The last event before `entry` is `request`, answered by `reply`, and nothing has
changed since. -/
def Answered (host : Host κ) (request : Request) (reply : Reply) (entry : Entry κ)
    (older : List (Entry κ)) : Prop :=
  ∃ before rest, older = ⟨.ptrace request true, entry.globals, before⟩ :: rest ∧
    host.ptrace request before = (some reply, entry.kernel)

/-- A live breakpoint in the code. -/
def MyBp.InCode (bp : MyBp) (addr : Addr) : Prop :=
  bp.addr = addr ∧ bp.deleted = false ∧ bp.isSyscall = false

/-- The word at `addr` has just been read. All of it is written back but the low byte:
that is an `int3`, or the byte saved by an enabled breakpoint there. -/
def Rewrites (host : Host κ) (addr : Addr) (data : Word) (entry : Entry κ)
    (older : List (Entry κ)) : Prop :=
  ∃ reply low, Answered host (.peekdata addr) reply entry older ∧
    data = withLowByte reply.ret low ∧
      (low = 0xCC ∨ ∃ bp ∈ entry.globals.gBreakpoints,
        bp.InCode addr ∧ bp.enabled = true ∧ low = bp.word)

/-- The registers have just been read. All are written back but RIP, which is set to a
breakpoint. -/
def Rewinds (host : Host κ) (regs : UserRegs) (entry : Entry κ) (older : List (Entry κ)) : Prop :=
  ∃ reply addr, Answered host .getregs reply entry older ∧
    regs = Function.update reply.regs .rip addr ∧
      ∃ bp ∈ entry.globals.gBreakpoints, bp.InCode addr

/-- What comes before a request that writes. -/
def Justified (host : Host κ) (entry : Entry κ) (older : List (Entry κ)) : Prop :=
  match entry.event with
  | .ptrace (.pokedata addr data) _ => Rewrites host addr data entry older
  | .ptrace (.setregs regs) _ => Rewinds host regs entry older
  | _ => True

/-- Every request is justified by what came before it. -/
def Disciplined (host : Host κ) (trace : List (Entry κ)) : Prop :=
  ∀ newer entry older, trace = newer ++ entry :: older → Justified host entry older

theorem disciplined_cons :
    Disciplined host (entry :: trace) ↔ Justified host entry trace ∧ Disciplined host trace := by
  constructor
  · intro disciplined
    refine ⟨disciplined [] entry trace rfl, fun newer request older split => ?_⟩
    exact disciplined (entry :: newer) request older (by rw [split]; rfl)
  · rintro ⟨justified, disciplined⟩ newer request older split
    cases newer with
    | nil =>
        obtain ⟨rfl, rfl⟩ := List.cons.inj split
        exact justified
    | cons first newer => exact disciplined newer request older (List.cons.inj split).2

/-! ## Requests -/

section Requests

variable {state : State κ} {reply : Reply}

/-- A request that is answered is what the next one is justified by. -/
theorem answered_last {request : Request}
    (answered : (host.ptrace request state.kernel).1 = some reply) (event : Event) :
    Answered host request reply ⟨event, state.globals, (host.ptrace request state.kernel).2⟩
      (state.afterPtrace host request).trace := by
  refine ⟨state.kernel, state.trace, ?_, Prod.ext answered rfl⟩
  rw [State.afterPtrace_trace, answered]
  rfl

theorem disciplined_reads {request : Request} (reads : ∀ addr data, request ≠ .pokedata addr data)
    (keeps : ∀ regs, request ≠ .setregs regs) (disciplined : Disciplined host state.trace) :
    Disciplined host (state.afterPtrace host request).trace := by
  refine disciplined_cons.mpr ⟨?_, disciplined⟩
  cases request with
  | pokedata addr data => exact absurd rfl (reads addr data)
  | setregs regs => exact absurd rfl (keeps regs)
  | _ => trivial

/-- The word at `addr` is read and written back with another low byte. -/
theorem disciplined_repoke {addr : Addr} {low : Word} (disciplined : Disciplined host state.trace)
    (answered : (host.ptrace (.peekdata addr) state.kernel).1 = some reply)
    (allowed : low = 0xCC ∨ ∃ bp ∈ state.globals.gBreakpoints,
      bp.InCode addr ∧ bp.enabled = true ∧ low = bp.word) :
    Disciplined host ((state.afterPtrace host (.peekdata addr)).afterPtrace host
      (.pokedata addr (withLowByte reply.ret low))).trace :=
  disciplined_cons.mpr ⟨⟨reply, low, answered_last answered _, rfl, allowed⟩,
    disciplined_reads nofun nofun disciplined⟩

theorem disciplined_toggle {index : Nat} {addr : Addr} (disciplined : Disciplined host state.trace)
    (live : LiveAt index addr state) :
    wp (toggleBreakpoint host index)
      (Post.always fun after => Disciplined host after.trace) state := by
  obtain ⟨bp, found, here, alive, code⟩ := live
  have noted : Disciplined host (state.record (.toggle index)).trace :=
    disciplined_cons.mpr ⟨trivial, disciplined⟩
  refine wp_toggleBreakpoint_requests found rfl (fun _ _ => noted)
    (fun _ _ => disciplined_reads nofun nofun noted) fun _ reply answered => ?_
  have allowed : (if bp.enabled then bp.word else 0xCC) = 0xCC ∨
      ∃ other ∈ state.globals.gBreakpoints, other.InCode bp.addr ∧ other.enabled = true ∧
        (if bp.enabled then bp.word else 0xCC) = other.word := by
    by_cases enabled : bp.enabled = true
    · rw [if_pos enabled]
      exact .inr ⟨bp, List.mem_of_getElem? found, ⟨rfl, alive, code⟩, enabled, rfl⟩
    · rw [if_neg enabled]
      exact .inl rfl
  have poked := disciplined_repoke noted answered allowed
  exact ⟨fun _ => poked, fun _ => poked⟩

theorem disciplined_rewind {index : Nat} {addr : Addr} (disciplined : Disciplined host state.trace)
    (live : LiveAt index addr state) :
    wp (setRegister host .rip addr)
      (Post.always fun after => Disciplined host after.trace) state := by
  obtain ⟨bp, found, here, alive, code⟩ := live
  have read : Disciplined host (state.afterPtrace host .getregs).trace :=
    disciplined_reads nofun nofun disciplined
  unfold setRegister
  rw [wp_bind, wp_myPtrace]
  refine ⟨fun reply answered => ?_, fun _ => read⟩
  have written : Disciplined host ((state.afterPtrace host .getregs).afterPtrace host
      (.setregs (Function.update reply.regs .rip addr))).trace :=
    disciplined_cons.mpr ⟨⟨reply, addr, answered_last answered _, rfl, bp,
      List.mem_of_getElem? found, here, alive, code⟩, read⟩
  change wp (myPtrace host (.setregs (Function.update reply.regs .rip addr)) >>= _) _ _
  rw [wp_bind, wp_myPtrace]
  exact ⟨fun _ _ => written, fun _ => written⟩

end Requests

/-! ## Runs -/

theorem disciplined_attentive :
    Attentive host fun state => Disciplined host state.trace where
  reads _ := disciplined_reads nofun nofun
  resumes _ request _ resumes := by
    refine disciplined_reads ?_ ?_
    · rintro addr data rfl
      cases resumes
    · rintro regs rfl
      cases resumes
  kernel _ _ disciplined := disciplined
  waited _ _ disciplined := disciplined_cons.mpr ⟨trivial, disciplined⟩
  printed _ _ _ disciplined := disciplined_cons.mpr ⟨trivial, disciplined⟩
  globals _ _ _ disciplined := disciplined
  toggles _ _ _ disciplined live := disciplined_toggle disciplined live
  hits _ _ _ disciplined found := wp_hitBreakpoint disciplined found
    (fun _ disciplined live => disciplined_toggle disciplined live)
    (fun _ _ disciplined => disciplined_cons.mpr ⟨trivial, disciplined⟩)
    (fun _ disciplined live => disciplined_rewind disciplined live)
    fun _ _ _ disciplined => disciplined

theorem disciplined_append (addr : Addr) (flags : MyBpFlags) (word : Word) :
    Preserves (fun state : State κ => Disciplined host state.trace)
      (appendBreakpoint addr flags word) := by
  apply Preserves.of_wp
  intro state disciplined
  unfold wp
  rw [appendBreakpoint_apply]
  split
  · exact disciplined
  · exact disciplined

theorem disciplined_place (addr : Addr) (flags : MyBpFlags) :
    Preserves (fun state : State κ => Disciplined host state.trace)
      (placeBreakpoint host addr flags) := by
  refine Preserves.ite (Preserves.of_wp fun state disciplined => ?_)
    (Preserves.bind (.gets _) fun _ => disciplined_append addr flags _)
  rw [wp_bind, wp_myPtrace]
  refine ⟨fun reply answered => ?_, fun _ => disciplined_reads nofun nofun disciplined⟩
  have written := disciplined_repoke disciplined answered (.inl rfl)
  change wp (myPtrace host (.pokedata addr (withLowByte reply.ret 0xCC)) >>= _) _ _
  rw [wp_bind, wp_myPtrace]
  exact ⟨fun _ _ => (disciplined_append addr flags _).wp written, fun _ => written⟩

theorem disciplined_printf (message : Message) :
    Preserves (fun state : State κ => Disciplined host state.trace) (printf message) :=
  Preserves.of_wp fun _ disciplined => disciplined_cons.mpr ⟨trivial, disciplined⟩

theorem disciplined_modifyGlobals (update : Globals → Globals) :
    Preserves (fun state : State κ => Disciplined host state.trace) (modifyGlobals update) :=
  Preserves.of_wp fun _ disciplined => disciplined

theorem disciplined_cmdBreakDel (nb : Nat) :
    Preserves (fun state : State κ => Disciplined host state.trace) (cmdBreakDel nb) := by
  refine Preserves.bind (.gets _) fun globals => Preserves.ite (disciplined_printf _) ?_
  refine (Calm.breakpointAt _).bind fun bp => Preserves.ite (disciplined_printf _) ?_
  refine (disciplined_modifyGlobals _).bind fun _ => Preserves.bind ?_ fun _ => disciplined_printf _
  exact Preserves.bind (.gets _) fun _ => Preserves.ite (disciplined_modifyGlobals _) .fault

theorem disciplined_edits : Attentive.Edits host
    (fun state => Disciplined host state.trace) fun state => Disciplined host state.trace := by
  have keeps {α : Type} {program : Dbg κ α}
      (kept : Preserves (fun state => Disciplined host state.trace) program) :
      Keeps (fun state => Disciplined host state.trace) (fun state => Disciplined host state.trace)
        (fun state => Disciplined host state.trace) program :=
    .of_preserves (fun _ held => held) (fun _ held => held) kept
  refine ⟨fun _ held => held, fun addr flags _ => ?_, fun addr => ?_, fun syscall => ?_,
    fun nb => ?_⟩
  · exact keeps ((disciplined_place addr flags).bind fun _ => disciplined_printf _)
  · exact keeps (disciplined_place addr _)
  · refine keeps (Preserves.bind (.gets _) fun _ => (Calm.myRealloc _).bind fun _ => ?_)
    refine (disciplined_modifyGlobals _).bind fun _ => ?_
    exact (disciplined_place _ _).bind fun _ => .pure _
  · exact keeps (disciplined_cmdBreakDel nb)

/-- In every run of `main`, however it ends, the debugger writes to the tracee only what
it has just read: a word but for its low byte, which becomes an `int3` or the byte
saved by an enabled breakpoint there, or the registers but for RIP, which becomes
the address of a live breakpoint. -/
theorem requests_justified (world : World κ) (cmds : List (MyCmd Registration)) (depth : Nat)
    (input : List (List (List Char))) :
    Triple (fun before : Console κ => before.state.trace = []) (mainLoop world cmds depth input)
      fun _ =>
        { ok := fun _ after => Disciplined world.host after.state.trace
          throw := fun _ _ => False
          fault := fun after => Disciplined world.host after.state.trace
          noReturn := fun after => Disciplined world.host after.state.trace } where
  holds before fresh := by
    have start : Disciplined world.host before.state.trace := by
      rw [fresh]
      intro newer entry older split
      simp at split
    exact disciplined_attentive.main world rfl disciplined_edits start

theorem requests_justified_break :
    wp (mainLoop scriptedWorld registered.reverse 1 breakAndQuit)
      { ok := fun _ after => Disciplined scripted after.state.trace
        throw := fun _ _ => False
        fault := fun after => Disciplined scripted after.state.trace
        noReturn := fun after => Disciplined scripted after.state.trace } attachedOnce :=
  (requests_justified scriptedWorld registered.reverse 1 breakAndQuit).holds attachedOnce rfl

end MyDbg
