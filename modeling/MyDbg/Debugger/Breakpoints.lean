import MyDbg.Debugger.State

/-!
Contract: `breakpoints.c` and `syscalls.c`.

Owns: `get_breakpoint`, `toggle_breakpoint`, `place_breakpoint`,
`in_syscalls`, `add_syscall_break` and `syscall_name`. A pointer into
`g_breakpoints` is an index; dereferencing one outside the array, or writing
outside `g_syscalls`, is undefined behaviour.

Does not own: when they are called.
-/

namespace MyDbg

open LittleEndian ProgramLogic

variable {κ : Type}

/-- The test `get_breakpoint` makes of one entry. -/
def MyBp.hits (bp : MyBp) (addr : Addr) : Bool :=
  bp.addr == addr && bp.enabled && !bp.deleted && !bp.isSyscall

def getBreakpoint (breakpoints : List MyBp) (addr : Addr) : Option Nat :=
  breakpoints.findIdx? (·.hits addr)

def isBreakpoint (breakpoints : List MyBp) (addr : Addr) : Bool :=
  (getBreakpoint breakpoints addr).isSome

/-- `g_breakpoints + index`, dereferenced. -/
def breakpointAt (index : Nat) : Dbg κ MyBp := do
  let globals ← getGlobals
  match globals.gBreakpoints[index]? with
  | some bp => return bp
  | none => Program.fault

def storeBreakpoint (index : Nat) (bp : MyBp) : Dbg κ Unit :=
  modifyGlobals fun globals =>
    { globals with gBreakpoints := globals.gBreakpoints.set index bp }

def toggleBreakpoint (host : Host κ) (index : Nat) : Dbg κ Unit := do
  note (.toggle index)
  let bp ← breakpointAt index
  if !bp.enabled && bp.isTemp then
    return ()
  else
    let reply ← myPtrace host (.peekdata bp.addr)
    let word := withLowByte reply.ret (if bp.enabled then bp.word else 0xCC)
    let _ ← myPtrace host (.pokedata bp.addr word)
    storeBreakpoint index { bp with enabled := !bp.enabled }

/-- `sizeof(struct my_bp)`. -/
def sizeofMyBp : Nat := 40

/-- The entry a placement appends. -/
def appendBreakpoint (addr : Addr) (flags : MyBpFlags) (word : Word) : Dbg κ Nat := do
  let globals ← getGlobals
  let len := globals.gBreakpoints.length + 1
  myRealloc (len * sizeofMyBp)
  modifyGlobals fun globals =>
    { globals with
      gBreakpoints := globals.gBreakpoints ++
        [{ id := len, flags := flags, addr := addr, word := word, enabled := true,
           deleted := false }] }
  return len

def placeBreakpoint (host : Host κ) (addr : Addr) (flags : MyBpFlags) : Dbg κ Nat := do
  if flags &&& myBpSyscall = 0 then
    let reply ← myPtrace host (.peekdata addr)
    let _ ← myPtrace host (.pokedata addr (withLowByte reply.ret 0xCC))
    appendBreakpoint addr flags reply.ret
  else
    let globals ← getGlobals
    appendBreakpoint addr flags (BitVec.ofNat 64 globals.gSyscalls.length - 1)

def inSyscalls (syscalls : List (BitVec 32)) (syscall : BitVec 32) : Bool :=
  if syscall = -1 then false else syscalls.any (syscall == ·)

def addSyscallBreak (host : Host κ) (syscall : BitVec 32) : Dbg κ Unit := do
  let globals ← getGlobals
  myRealloc (4 * (globals.gSyscalls.length + 1))
  modifyGlobals fun globals => { globals with gSyscalls := globals.gSyscalls ++ [syscall] }
  -- `(void *) (uintptr_t) syscall` extends the sign
  let _ ← placeBreakpoint host (syscall.signExtend 64) myBpSyscall
  return ()

/-- `g_syscalls[index] = value`. -/
def storeSyscall (index : Nat) (value : BitVec 32) : Dbg κ Unit := do
  let globals ← getGlobals
  if index < globals.gSyscalls.length then
    modifyGlobals fun globals => { globals with gSyscalls := globals.gSyscalls.set index value }
  else
    Program.fault

/-- The name found by `syscall_name`; `none` where it throws SyscallException. -/
def syscallName (host : Host κ) (syscall : BitVec 32) : Option String :=
  if syscall = -1 then none
  else (host.syscallNumbers.find? fun entry => entry.2 == syscall).map Prod.fst

/-- The index of the last entry, from the number of entries. -/
theorem ofNat_succ_sub_one (count : Nat) :
    (BitVec.ofNat 64 (count + 1) - 1 : Word) = BitVec.ofNat 64 count := by
  apply BitVec.eq_of_toNat_eq
  simp
  omega

theorem breakpointAt_apply {state : State κ} {index : Nat} {bp : MyBp}
    (found : state.globals.gBreakpoints[index]? = some bp) :
    breakpointAt index state = .ok bp state := by
  simp only [breakpointAt, Program.bind_apply, getGlobals, Program.gets, found,
    Program.pure_apply]

/-! ## Looking a breakpoint up -/

section Lookup

variable {breakpoints : List MyBp} {addr : Addr} {index : Nat} {bp other : MyBp}

theorem MyBp.hits_iff :
    bp.hits addr = true ↔
      bp.addr = addr ∧ bp.enabled = true ∧ bp.deleted = false ∧ bp.isSyscall = false := by
  simp [MyBp.hits, and_assoc]

theorem getBreakpoint_eq_none :
    getBreakpoint breakpoints addr = none ↔ ∀ bp ∈ breakpoints, bp.hits addr = false :=
  List.findIdx?_eq_none_iff

/-- The breakpoint found is the first one that hits. -/
theorem getBreakpoint_eq_some :
    getBreakpoint breakpoints addr = some index ↔
      ∃ bp, breakpoints[index]? = some bp ∧ bp.hits addr = true ∧
        ∀ earlier < index, ∀ bp ∈ breakpoints[earlier]?, bp.hits addr = false := by
  unfold getBreakpoint
  rw [List.findIdx?_eq_some_iff_getElem]
  constructor
  · rintro ⟨bound, hit, first⟩
    refine ⟨breakpoints[index], by simp [bound], hit, fun earlier less bp member => ?_⟩
    obtain ⟨inside, rfl⟩ := List.getElem?_eq_some_iff.mp member
    simpa using first earlier less
  · rintro ⟨bp, found, hit, first⟩
    obtain ⟨bound, rfl⟩ := List.getElem?_eq_some_iff.mp found
    refine ⟨bound, hit, fun earlier less => ?_⟩
    simp [first earlier less breakpoints[earlier] (by simp [less.trans bound])]

theorem isBreakpoint_iff :
    isBreakpoint breakpoints addr = true ↔ ∃ bp ∈ breakpoints, bp.hits addr = true := by
  unfold isBreakpoint
  cases found : getBreakpoint breakpoints addr with
  | none =>
      have misses := getBreakpoint_eq_none.mp found
      simpa using misses
  | some index =>
      obtain ⟨bp, at', hit, _⟩ := getBreakpoint_eq_some.mp found
      simpa using ⟨bp, List.mem_of_getElem? at', hit⟩

theorem getBreakpoint_append :
    getBreakpoint (breakpoints ++ [bp]) addr =
      (getBreakpoint breakpoints addr).or
        (if bp.hits addr then some breakpoints.length else none) := by
  unfold getBreakpoint
  rw [List.findIdx?_append, List.findIdx?_singleton]
  cases bp.hits addr <;> simp

/-- Changing an entry in a way `get_breakpoint` does not see. -/
theorem getBreakpoint_set (found : breakpoints[index]? = some bp)
    (same : other.hits addr = bp.hits addr) :
    getBreakpoint (breakpoints.set index other) addr = getBreakpoint breakpoints addr := by
  have byHits (entries : List MyBp) :
      getBreakpoint entries addr = (entries.map (·.hits addr)).findIdx? id := by
    rw [List.findIdx?_map]
    rfl
  rw [byHits, byHits, List.map_set, same]
  congr 1
  apply List.ext_getElem?
  intro position
  rw [List.getElem?_set]
  split
  · next equal =>
      subst equal
      obtain ⟨bound, rfl⟩ := List.getElem?_eq_some_iff.mp found
      simp [bound]
  · rfl

end Lookup

/-- Only the breakpoint at `index` can be enabled at `addr`. -/
def Alone (breakpoints : List MyBp) (index : Nat) (addr : Addr) : Prop :=
  ∀ other, other ≠ index → ∀ bp ∈ breakpoints[other]?, bp.hits addr = false

instance (breakpoints : List MyBp) (index : Nat) (addr : Addr) :
    Decidable (Alone breakpoints index addr) :=
  decidable_of_iff (∀ other < breakpoints.length, other ≠ index →
      ∀ bp ∈ breakpoints[other]?, bp.hits addr = false) <| by
    constructor
    · intro inside other apart bp member
      exact inside other (List.getElem?_eq_some_iff.mp member).1 apart bp member
    · exact fun alone other _ apart bp member => alone other apart bp member

end MyDbg
