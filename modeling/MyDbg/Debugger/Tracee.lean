import MyDbg.Debugger.Commands

/-!
Contract: a tracee whose memory and registers the requests read and write.

Owns: `Tracee`, the laws of ptrace that the memory of the tracee obeys; what
`toggle_breakpoint` and `place_breakpoint` do to it, where their requests succeed and
where one is refused; and `scripted`, a tracee that stops where it is told to.

Does not own: which requests succeed.
-/

namespace MyDbg

open LittleEndian ProgramLogic

variable {κ : Type}

/-- A tracee whose registers GETREGS and SETREGS read and write. -/
structure Registers (host : Host κ) where
  regs : κ → UserRegs
  getregs : ∀ kernel reply, (host.ptrace .getregs kernel).1 = some reply →
    reply.regs = regs kernel
  setregs : ∀ values kernel, (host.ptrace (.setregs values) kernel).1.isSome →
    regs (host.ptrace (.setregs values) kernel).2 = values
  regs_ptrace : ∀ request kernel, request.resumes = none → (∀ values, request ≠ .setregs values) →
    regs (host.ptrace request kernel).2 = regs kernel

/-- A tracee some of whose requests may be refused. -/
structure FaultyTracee (host : Host κ) extends Registers host where
  mem : κ → Memory
  /-- No request but POKEDATA writes memory. -/
  mem_ptrace : ∀ request kernel, (∀ addr data, request ≠ .pokedata addr data) →
    mem (host.ptrace request kernel).2 = mem kernel
  refused : ∀ addr data kernel, (host.ptrace (.pokedata addr data) kernel).1 = none →
    mem (host.ptrace (.pokedata addr data) kernel).2 = mem kernel

/-- The requests that succeed transfer words of its memory, and it does not modify the
bytes at `code` itself. -/
structure Tracee (host : Host κ) extends FaultyTracee host where
  code : Set Addr
  peekdata : ∀ addr kernel reply, (host.ptrace (.peekdata addr) kernel).1 = some reply →
    reply.ret = peek (mem kernel) addr
  pokedata : ∀ addr data kernel, (host.ptrace (.pokedata addr data) kernel).1.isSome →
    mem (host.ptrace (.pokedata addr data) kernel).2 = poke (mem kernel) addr data
  failed : ∀ kernel after, host.waitpid kernel = .failed after →
    ∀ addr ∈ code, mem after addr = mem kernel addr
  status : ∀ kernel wstatus after, host.waitpid kernel = .status wstatus after →
    ∀ addr ∈ code, mem after addr = mem kernel addr

/-! ## Toggling and placing -/

section Effects

variable {host : Host κ}

/-- `byte` is written at `addr` with PEEKDATA and POKEDATA. -/
structure Written (tracee : Tracee host) (addr : Addr) (byte : Byte) (before after : State κ) :
    Prop where
  mem : tracee.mem after.kernel = Function.update (tracee.mem before.kernel) addr byte
  regs : tracee.regs after.kernel = tracee.regs before.kernel
  trace : ∃ word middle, tracee.mem middle = tracee.mem before.kernel ∧ after.trace =
    ⟨.ptrace (.pokedata addr word) true, before.globals, middle⟩ ::
      ⟨.ptrace (.peekdata addr) true, before.globals, before.kernel⟩ :: before.trace

/-- One of the two requests is refused, and nothing is written. -/
structure Unwritten (tracee : Tracee host) (addr : Addr) (before after : State κ) : Prop where
  globals : after.globals = before.globals
  mem : tracee.mem after.kernel = tracee.mem before.kernel
  regs : tracee.regs after.kernel = tracee.regs before.kernel
  trace : after.trace =
      ⟨.ptrace (.peekdata addr) false, before.globals, before.kernel⟩ :: before.trace ∨
    ∃ word middle, tracee.mem middle = tracee.mem before.kernel ∧ after.trace =
      ⟨.ptrace (.pokedata addr word) false, before.globals, middle⟩ ::
        ⟨.ptrace (.peekdata addr) true, before.globals, before.kernel⟩ :: before.trace

/-- One of the requests that write the low byte of `source` at `addr` is refused. -/
def WriteFails (host : Host κ) (addr : Addr) (source : Word) (kernel : κ) : Prop :=
  (host.ptrace (.peekdata addr) kernel).1 = none ∨
    ∃ reply ∈ (host.ptrace (.peekdata addr) kernel).1,
      (host.ptrace (.pokedata addr (withLowByte reply.ret source))
        (host.ptrace (.peekdata addr) kernel).2).1 = none

variable (tracee : Tracee host) {state : State κ}

/-- The byte is written, unless a request is refused. -/
theorem wp_peekPoke {α : Type} {post : Post MyException (State κ) α} (addr : Addr) (source : Word)
    (next : Word → Dbg κ α)
    (unwritten : WriteFails host addr source state.kernel →
      ∀ after, Unwritten tracee addr state after → post.throw .ptraceException after)
    (written : ¬ WriteFails host addr source state.kernel →
      ∀ middle, Written tracee addr (lowByte source) state middle →
        middle.globals = state.globals →
          wp (next (peek (tracee.mem state.kernel) addr)) post middle) :
    wp (do
      let reply ← myPtrace host (.peekdata addr)
      let _ ← myPtrace host (.pokedata addr (withLowByte reply.ret source))
      next reply.ret) post state := by
  have sameMem : tracee.mem (host.ptrace (.peekdata addr) state.kernel).2 =
      tracee.mem state.kernel := tracee.mem_ptrace _ _ (by simp)
  have sameRegs : tracee.regs (host.ptrace (.peekdata addr) state.kernel).2 =
      tracee.regs state.kernel := tracee.regs_ptrace _ _ rfl (by simp)
  rw [wp_bind, wp_myPtrace]
  constructor
  · intro reply answered
    have value := tracee.peekdata addr state.kernel reply answered
    have regs (word : Word) : tracee.regs (host.ptrace (.pokedata addr word)
        (host.ptrace (.peekdata addr) state.kernel).2).2 = tracee.regs state.kernel :=
      (tracee.regs_ptrace _ _ rfl (by simp)).trans sameRegs
    change wp (myPtrace host (.pokedata addr (withLowByte reply.ret source)) >>= _) _ _
    rw [wp_bind, wp_myPtrace]
    constructor
    · intro poked accepted
      have accepts := Option.isSome_of_mem accepted
      have fits : ¬ WriteFails host addr source state.kernel := by
        rintro (unread | ⟨other, same, refused⟩)
        · rw [answered] at unread
          cases unread
        · obtain rfl := Option.some.inj (answered.symm.trans same)
          exact absurd (refused.symm.trans accepted) nofun
      have bytes := tracee.pokedata _ _ _ accepts
      rw [State.afterPtrace_kernel, sameMem, value, poke_withLowByte, ← value] at bytes
      have trace : ((state.afterPtrace host (.peekdata addr)).afterPtrace host
          (.pokedata addr (withLowByte reply.ret source))).trace =
            ⟨.ptrace (.pokedata addr (withLowByte reply.ret source)) true, state.globals,
              (host.ptrace (.peekdata addr) state.kernel).2⟩ ::
            ⟨.ptrace (.peekdata addr) true, state.globals, state.kernel⟩ :: state.trace := by
        rw [State.afterPtrace_trace, accepts, State.afterPtrace_trace, answered]
        rfl
      have ends := written fits _ ⟨bytes, regs (withLowByte reply.ret source), _, _, sameMem,
        trace⟩ rfl
      rw [← value] at ends
      exact ends
    · intro refused
      refine unwritten (.inr ⟨reply, answered, refused⟩) _ ⟨rfl, ?_, regs _, .inr ?_⟩
      · exact (tracee.refused _ _ _ refused).trans sameMem
      · refine ⟨withLowByte reply.ret source, (host.ptrace (.peekdata addr) state.kernel).2,
          sameMem, ?_⟩
        rw [State.afterPtrace_trace, State.afterPtrace_trace, refused, answered]
        rfl
  · intro unread
    refine unwritten (.inl unread) _ ⟨rfl, sameMem, sameRegs, .inl ?_⟩
    rw [State.afterPtrace_trace, unread]
    rfl

/-- What `toggle_breakpoint` does to a breakpoint it does not leave alone. -/
def MyBp.toggled (bp : MyBp) : MyBp := { bp with enabled := !bp.enabled }

section Toggled

variable (bp : MyBp)

@[simp] theorem MyBp.toggled_addr : bp.toggled.addr = bp.addr := rfl

@[simp] theorem MyBp.toggled_word : bp.toggled.word = bp.word := rfl

@[simp] theorem MyBp.toggled_enabled : bp.toggled.enabled = !bp.enabled := rfl

@[simp] theorem MyBp.toggled_deleted : bp.toggled.deleted = bp.deleted := rfl

@[simp] theorem MyBp.toggled_isTemp : bp.toggled.isTemp = bp.isTemp := rfl

@[simp] theorem MyBp.toggled_isSyscall : bp.toggled.isSyscall = bp.isSyscall := rfl

theorem MyBp.toggled_hits {bp : MyBp} {addr : Addr} (elsewhere : bp.addr ≠ addr) :
    bp.toggled.hits addr = bp.hits addr := by
  have differs : (bp.addr == addr) = false := beq_false_of_ne elsewhere
  simp only [MyBp.hits, MyBp.toggled_addr, differs, Bool.false_and]

theorem MyBp.toggled_hits_off {bp : MyBp} (on : bp.enabled = true) (addr : Addr) :
    bp.toggled.hits addr = false := by
  simp only [MyBp.hits, MyBp.toggled_enabled, on, Bool.not_true, Bool.and_false, Bool.false_and]

end Toggled

/-- The byte `toggle_breakpoint` writes. -/
def MyBp.toggledByte (bp : MyBp) : Byte := if bp.enabled then lowByte bp.word else 0xCC

theorem toggleBreakpoint_off {index : Nat} {bp : MyBp}
    (found : state.globals.gBreakpoints[index]? = some bp) (off : bp.enabled = false)
    (temp : bp.isTemp = true) :
    toggleBreakpoint host index state = .ok () (state.record (.toggle index)) := by
  have read : breakpointAt index (state.record (.toggle index)) =
      .ok bp (state.record (.toggle index)) := breakpointAt_apply found
  unfold toggleBreakpoint
  rw [Program.bind_ok (rfl : note (.toggle index) state = _), Program.bind_ok read]
  simp only [off, temp, Bool.not_false, Bool.and_self, if_pos, Program.pure_apply]

/-- The word `toggle_breakpoint` writes in place of `word`. -/
def MyBp.toggledWord (bp : MyBp) (word : Word) : Word :=
  withLowByte word (if bp.enabled then bp.word else 0xCC)

/-- One of the two requests that disarm `bp` fails. -/
def DisarmFails (host : Host κ) (bp : MyBp) (kernel : κ) : Prop :=
  (host.ptrace (.peekdata bp.addr) kernel).1 = none ∨
    ∃ reply ∈ (host.ptrace (.peekdata bp.addr) kernel).1,
      (host.ptrace (.pokedata bp.addr (bp.toggledWord reply.ret))
        (host.ptrace (.peekdata bp.addr) kernel).2).1 = none

/-- A toggle that is not left out switches the breakpoint, unless a request is refused. -/
theorem wp_toggleBreakpoint_on {index : Nat} {bp : MyBp}
    {post : Post MyException (State κ) Unit}
    (found : state.globals.gBreakpoints[index]? = some bp)
    (switches : bp.enabled = true ∨ bp.isTemp = false)
    (unwritten : DisarmFails host bp state.kernel →
      ∀ after, Unwritten tracee bp.addr (state.record (.toggle index)) after →
        post.throw .ptraceException after)
    (written : ¬ DisarmFails host bp state.kernel →
      ∀ middle, Written tracee bp.addr bp.toggledByte (state.record (.toggle index)) middle →
        post.ok () (middle.withGlobals { state.globals with
          gBreakpoints := state.globals.gBreakpoints.set index bp.toggled })) :
    wp (toggleBreakpoint host index) post state := by
  have read : breakpointAt index (state.record (.toggle index)) =
      .ok bp (state.record (.toggle index)) := breakpointAt_apply found
  have taken : (!bp.enabled && bp.isTemp) = false := by
    rcases switches with on | persistent
    · simp [on]
    · simp [persistent]
  have byte : lowByte (if bp.enabled then bp.word else 0xCC) = bp.toggledByte := by
    unfold MyBp.toggledByte
    split <;> rfl
  unfold toggleBreakpoint
  rw [wp_bind_ok (rfl : note (.toggle index) state = _), wp_bind_ok read, taken,
    if_neg Bool.false_ne_true]
  refine wp_peekPoke tracee bp.addr (if bp.enabled then bp.word else 0xCC)
    (fun _ => storeBreakpoint index bp.toggled) unwritten fun fits middle made same => ?_
  rw [byte] at made
  rw [State.record_globals] at same
  have switched := written fits middle made
  change post.ok () (middle.withGlobals { middle.globals with
    gBreakpoints := middle.globals.gBreakpoints.set index bp.toggled })
  rw [same]
  exact switched

theorem poke_toggledWord (mem : Memory) (bp : MyBp) :
    poke mem bp.addr (bp.toggledWord (peek mem bp.addr)) =
      Function.update mem bp.addr bp.toggledByte := by
  unfold MyBp.toggledWord MyBp.toggledByte
  rw [poke_withLowByte]
  split <;> rfl

/-- The requests of a toggle, one after the other. -/
theorem wp_toggleBreakpoint_requests {index : Nat} {bp : MyBp}
    {post : Post MyException (State κ) Unit} {peeked : State κ}
    (found : state.globals.gBreakpoints[index]? = some bp)
    (isPeeked : peeked = (state.record (.toggle index)).afterPtrace host (.peekdata bp.addr))
    (spent : bp.enabled = false → bp.isTemp = true → post.ok () (state.record (.toggle index)))
    (unread : bp.enabled = true ∨ bp.isTemp = false →
      (host.ptrace (.peekdata bp.addr) state.kernel).1 = none →
        post.throw .ptraceException peeked)
    (read : bp.enabled = true ∨ bp.isTemp = false → ∀ reply,
      (host.ptrace (.peekdata bp.addr) state.kernel).1 = some reply →
        ((host.ptrace (.pokedata bp.addr (bp.toggledWord reply.ret)) peeked.kernel).1 = none →
          post.throw .ptraceException
            (peeked.afterPtrace host (.pokedata bp.addr (bp.toggledWord reply.ret)))) ∧
        ((host.ptrace (.pokedata bp.addr (bp.toggledWord reply.ret)) peeked.kernel).1.isSome →
          post.ok () ((peeked.afterPtrace host
            (.pokedata bp.addr (bp.toggledWord reply.ret))).withGlobals { state.globals with
              gBreakpoints := state.globals.gBreakpoints.set index bp.toggled }))) :
    wp (toggleBreakpoint host index) post state := by
  subst isPeeked
  have entry : breakpointAt index (state.record (.toggle index)) =
      .ok bp (state.record (.toggle index)) := breakpointAt_apply found
  unfold toggleBreakpoint
  rw [wp_bind_ok (rfl : note (.toggle index) state = _), wp_bind_ok entry, wp_ite]
  constructor
  · intro off
    rw [Bool.and_eq_true, Bool.not_eq_true'] at off
    exact spent off.1 off.2
  · intro switches
    rw [Bool.and_eq_true, Bool.not_eq_true', not_and_or, Bool.not_eq_false,
      Bool.not_eq_true] at switches
    rw [wp_bind, wp_myPtrace]
    refine ⟨?_, unread switches⟩
    intro reply answered
    obtain ⟨refused, accepted⟩ := read switches reply answered
    show wp (myPtrace host (.pokedata bp.addr (bp.toggledWord reply.ret)) >>= _) _ _
    rw [wp_bind, wp_myPtrace]
    refine ⟨?_, refused⟩
    intro other poked
    exact accepted (Option.isSome_of_mem poked)

/-- What `toggle_breakpoint` can do, whatever the kernel answers: nothing to a
disabled temporary breakpoint; to another one nothing if a request fails, and
else switch it. -/
theorem wp_toggleBreakpoint {index : Nat} {bp : MyBp} {post : Post MyException (State κ) Unit}
    (found : state.globals.gBreakpoints[index]? = some bp)
    (spent : bp.enabled = false → bp.isTemp = true → post.ok () (state.record (.toggle index)))
    (unread : bp.enabled = true ∨ bp.isTemp = false → post.throw .ptraceException
      ((state.record (.toggle index)).afterPtrace host (.peekdata bp.addr)))
    (written : bp.enabled = true ∨ bp.isTemp = false → ∀ word poked,
      poked = ((state.record (.toggle index)).afterPtrace host (.peekdata bp.addr)).afterPtrace host
        (.pokedata bp.addr word) →
      post.throw .ptraceException poked ∧
        post.ok () (poked.withGlobals { state.globals with
          gBreakpoints := state.globals.gBreakpoints.set index bp.toggled })) :
    wp (toggleBreakpoint host index) post state := by
  apply wp_toggleBreakpoint_requests found rfl spent
  · intro switches _
    exact unread switches
  · intro switches reply _
    obtain ⟨refused, accepted⟩ := written switches _ _ rfl
    exact ⟨fun _ => refused, fun _ => accepted⟩

/-- The index is not one of a breakpoint. -/
theorem toggleBreakpoint_missing {index : Nat}
    (missing : state.globals.gBreakpoints[index]? = none) :
    toggleBreakpoint host index state = .fault (state.record (.toggle index)) := by
  have unread : breakpointAt index (state.record (.toggle index)) =
      .fault (state.record (.toggle index)) := by
    simp only [breakpointAt, Program.bind_apply, getGlobals, Program.gets, State.record_globals,
      missing]
    rfl
  unfold toggleBreakpoint
  rw [Program.bind_ok (rfl : note (.toggle index) state = _), Program.bind_apply, unread]

/-- The entry a placement appends. -/
def MyBp.placed (breakpoints : List MyBp) (addr : Addr) (flags : MyBpFlags) (word : Word) :
    MyBp where
  id := breakpoints.length + 1
  flags := flags
  addr := addr
  word := word
  enabled := true
  deleted := false

theorem appendBreakpoint_apply (addr : Addr) (flags : MyBpFlags) (word : Word) :
    appendBreakpoint addr flags word state =
      if (state.globals.gBreakpoints.length + 1) * sizeofMyBp < 2 ^ 63 then
        .ok (state.globals.gBreakpoints.length + 1) (state.withGlobals { state.globals with
          gBreakpoints := state.globals.gBreakpoints ++
            [.placed state.globals.gBreakpoints addr flags word] })
      else
        .noReturn state := by
  unfold appendBreakpoint
  rw [Program.bind_ok (rfl : getGlobals state = .ok state.globals state), Program.bind_apply]
  by_cases fits : (state.globals.gBreakpoints.length + 1) * sizeofMyBp < 2 ^ 63
  · simp only [myRealloc, if_pos fits]
    rfl
  · simp only [myRealloc, if_neg fits]
    rfl

/-- A breakpoint in the code is appended once its int3 is written. -/
theorem wp_placeBreakpoint_code {flags : MyBpFlags} {post : Post MyException (State κ) Nat}
    (isCode : flags &&& myBpSyscall = 0) (addr : Addr)
    (unwritten : WriteFails host addr 0xCC state.kernel →
      ∀ after, Unwritten tracee addr state after → post.throw .ptraceException after)
    (written : ¬ WriteFails host addr 0xCC state.kernel →
      ∀ middle, Written tracee addr 0xCC state middle → middle.globals = state.globals →
        wp (appendBreakpoint addr flags (peek (tracee.mem state.kernel) addr)) post middle) :
    wp (placeBreakpoint host addr flags) post state := by
  unfold placeBreakpoint
  rw [if_pos isCode]
  exact wp_peekPoke tracee addr 0xCC (appendBreakpoint addr flags) unwritten written

end Effects

/-! ## Deleting -/

section Delete

variable {state : State κ} {nb : Nat} {bp : MyBp}

theorem acceptedId_eq_some {breakpoints : List MyBp} :
    acceptedId breakpoints nb = some bp ↔
      nb ≠ 0 ∧ breakpoints[nb - 1]? = some bp ∧ bp.deleted = false := by
  unfold acceptedId
  split
  · next outside =>
      constructor
      · rintro ⟨⟩
      · rintro ⟨positive, found, _⟩
        have bound := (List.getElem?_eq_some_iff.mp found).1
        omega
  · next inside =>
      rw [not_or] at inside
      simp [Option.filter_eq_some_iff, inside.1]

theorem cmdBreakDel_refused (refused : acceptedId state.globals.gBreakpoints nb = none) :
    ∃ message, (message = .invalidId ∨ message = .alreadyDeleted nb) ∧
      cmdBreakDel nb state = .ok () (state.record (.output message)) := by
  unfold acceptedId at refused
  unfold cmdBreakDel
  rw [Program.bind_ok (rfl : getGlobals state = .ok state.globals state)]
  split at refused
  · next outside =>
      rw [if_pos outside]
      exact ⟨_, Or.inl rfl, rfl⟩
  · next inside =>
      rw [if_neg inside]
      rw [not_or] at inside
      obtain ⟨bp, found⟩ : ∃ bp, state.globals.gBreakpoints[nb - 1]? = some bp :=
        ⟨_, List.getElem?_eq_getElem (by omega)⟩
      have deleted : bp.deleted = true := by
        simpa [found] using refused
      rw [Program.bind_ok (breakpointAt_apply found), if_pos deleted]
      exact ⟨_, Or.inr rfl, rfl⟩

/-- Where the index is outside `g_syscalls` the write is undefined. -/
theorem cmdBreakDel_accepted (accepted : acceptedId state.globals.gBreakpoints nb = some bp) :
    cmdBreakDel nb state =
      if bp.word.toNat < state.globals.gSyscalls.length then
        .ok () ((state.withGlobals { state.globals with
          gBreakpoints := state.globals.gBreakpoints.set (nb - 1) { bp with deleted := true }
          gSyscalls := state.globals.gSyscalls.set bp.word.toNat (-1) }).record
            (.output (.deleted nb)))
      else
        .fault (state.withGlobals { state.globals with
          gBreakpoints :=
            state.globals.gBreakpoints.set (nb - 1) { bp with deleted := true } }) := by
  obtain ⟨positive, found, live⟩ := acceptedId_eq_some.mp accepted
  have bound := (List.getElem?_eq_some_iff.mp found).1
  unfold cmdBreakDel
  rw [Program.bind_ok (rfl : getGlobals state = .ok state.globals state), if_neg (by omega),
    Program.bind_ok (breakpointAt_apply found), if_neg (by simp [live]),
    Program.bind_ok (rfl : storeBreakpoint (nb - 1) { bp with deleted := true } state = _)]
  unfold storeSyscall
  by_cases inside : bp.word.toNat < state.globals.gSyscalls.length
  · simp only [Program.bind_apply, getGlobals, Program.gets, State.withGlobals_globals,
      if_pos inside]
    rfl
  · simp only [Program.bind_apply, getGlobals, Program.gets, State.withGlobals_globals,
      if_neg inside]
    rfl

end Delete

/-! ## A tracee that stops where it is told to -/

/-- A stop with the RIP it happens at. -/
structure Stop where
  wstatus : WStatus
  rip : Addr

structure Scripted where
  mem : Memory
  regs : UserRegs
  stops : List Stop

/-- A memory of one-byte instructions, about to make the stops of a script. -/
def Scripted.start (stops : List Stop) : State Scripted :=
  State.start { mem := fun _ => 0x90, regs := fun _ => 0, stops := stops }

/-- One-byte zero instructions, so that a saved word is a small index. -/
def zeros (stops : List Stop) : State Scripted :=
  State.start { mem := fun _ => 0, regs := fun _ => 0, stops := stops }

/-- Every request succeeds, and a wait takes the next stop. -/
def scripted : Host Scripted where
  ptrace request kernel :=
    match request with
    | .peekdata addr => (some ⟨peek kernel.mem addr, kernel.regs⟩, kernel)
    | .pokedata addr data =>
        (some ⟨0, kernel.regs⟩, { kernel with mem := poke kernel.mem addr data })
    | .setregs regs => (some ⟨0, regs⟩, { kernel with regs := regs })
    | _ => (some ⟨0, kernel.regs⟩, kernel)
  waitpid kernel :=
    match kernel.stops with
    | [] => .blocked
    | stop :: rest =>
        .status stop.wstatus
          { kernel with regs := Function.update kernel.regs .rip stop.rip, stops := rest }
  procMem kernel addr := some (kernel.mem addr)
  csDisasm _ := some { mnemonic := ['n', 'o', 'p'], opStr := [], size := 1 }
  unwindCaller _ := none
  syscallNumbers := []

/-- It is a tracee none of whose memory changes by itself. -/
def scriptedTracee : Tracee scripted where
  mem := Scripted.mem
  regs := Scripted.regs
  code := Set.univ
  peekdata addr kernel reply answered := by
    obtain rfl := Option.some.inj answered
    rfl
  pokedata addr data kernel _ := rfl
  refused addr data kernel refused := by cases refused
  mem_ptrace request kernel notPoke := by
    cases request with
    | pokedata addr data => exact absurd rfl (notPoke addr data)
    | _ => rfl
  getregs kernel reply answered := by
    obtain rfl := Option.some.inj answered
    rfl
  setregs values kernel _ := rfl
  regs_ptrace request kernel _ keeps := by
    cases request with
    | setregs values => exact absurd rfl (keeps values)
    | _ => rfl
  failed kernel after failed := by
    obtain ⟨mem, regs, stops⟩ := kernel
    cases stops <;> cases failed
  status kernel wstatus after returned addr _ := by
    obtain ⟨mem, regs, stops⟩ := kernel
    cases stops with
    | nil => cases returned
    | cons stop rest => cases returned; rfl

end MyDbg
