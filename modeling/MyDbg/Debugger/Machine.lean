import MyDbg.Debugger.Host

/-!
Contract: a deterministic machine, alone and under ptrace.

Owns: `Machine`, one instruction at a time; `Machine.plain`, its run without a
debugger; `Machine.host`, the kernel that runs it with `int3`, single steps and
continuations; `Code`, a program that leaves its own code alone; and that
`int3` written over other instructions does not change what the next one does.

Does not own: the debugger.
-/

namespace MyDbg

open LittleEndian

variable {χ : Type}

/-! ## The machine alone -/

/-- What executing one instruction leads to. -/
inductive Execution (χ : Type) where
  | next (cpu : χ) (mem : Memory)
  | exit (status : BitVec 8)

/-- `exec` executes the instruction at RIP, of `size` bytes, which is no `int3`. -/
structure Machine (χ : Type) where
  regs : χ → UserRegs
  setRegs : UserRegs → χ → χ
  exec : χ → Memory → Execution χ
  size : Addr → Nat
  regs_setRegs : ∀ values cpu, regs (setRegs values cpu) = values
  setRegs_regs : ∀ cpu, setRegs (regs cpu) cpu = cpu
  setRegs_setRegs : ∀ later earlier cpu, setRegs later (setRegs earlier cpu) = setRegs later cpu

/-- An instruction by its address and its bytes. -/
abbrev Instruction := Addr × List Byte

namespace Machine

variable (machine : Machine χ)

def rip (cpu : χ) : Addr := machine.regs cpu .rip

def jump (addr : Addr) (cpu : χ) : χ :=
  machine.setRegs (Function.update (machine.regs cpu) .rip addr) cpu

@[simp] theorem rip_jump (addr : Addr) (cpu : χ) : machine.rip (machine.jump addr cpu) = addr := by
  simp [rip, jump, machine.regs_setRegs]

/-- Going on by one and back again. -/
theorem jump_back (addr : Addr) (cpu : χ) :
    machine.jump (machine.rip cpu) (machine.jump addr cpu) = cpu := by
  unfold jump
  rw [machine.regs_setRegs, machine.setRegs_setRegs, Function.update_idem]
  calc
    machine.setRegs (Function.update (machine.regs cpu) .rip (machine.rip cpu)) cpu
        = machine.setRegs (machine.regs cpu) cpu := by rw [rip, Function.update_eq_self]
    _ = cpu := machine.setRegs_regs cpu

/-- The instruction at RIP. -/
def fetch (cpu : χ) (mem : Memory) : Instruction :=
  (machine.rip cpu, bytesAt mem (machine.rip cpu) (machine.size (machine.rip cpu)))

/-- The state after so many instructions without a debugger, unless the program
has ended by then. -/
def plain (first : χ × Memory) : Nat → Option (χ × Memory)
  | 0 => some first
  | count + 1 => do
      let (cpu, mem) ← plain first count
      match machine.exec cpu mem with
      | .next cpu mem => some (cpu, mem)
      | .exit _ => none

/-- The first instructions executed without a debugger, newest first. -/
def plainRetired (first : χ × Memory) : Nat → List Instruction
  | 0 => []
  | count + 1 =>
      match machine.plain first count with
      | some (cpu, mem) => machine.fetch cpu mem :: plainRetired first count
      | none => plainRetired first count

end Machine

/-! ## The machine under ptrace -/

inductive Life where
  | stopped
  /-- Resumed with a signal, for one instruction or until something happens. -/
  | running (single : Bool) (data : Word)
  | gone
deriving DecidableEq

structure Traced (χ : Type) where
  cpu : χ
  mem : Memory
  life : Life
  /-- The instructions executed so far, newest first. -/
  retired : List Instruction

namespace Machine

variable (machine : Machine χ)

/-- `int3` traps behind itself. -/
def tick (kernel : Traced χ) : Option WStatus × Traced χ :=
  if kernel.mem (machine.rip kernel.cpu) = 0xCC then
    (some .plainTrap,
      { kernel with
        cpu := machine.jump (machine.rip kernel.cpu + 1) kernel.cpu
        life := .stopped })
  else
    let retired := machine.fetch kernel.cpu kernel.mem :: kernel.retired
    match machine.exec kernel.cpu kernel.mem with
    | .next cpu mem => (none, { kernel with cpu := cpu, mem := mem, retired := retired })
    | .exit status => (some (.exited status), { kernel with life := .gone, retired := retired })

/-- Run until a trap or the end, for so many instructions at most. -/
def run : Nat → Traced χ → WaitResult (Traced χ)
  | 0, _ => .blocked
  | budget + 1, kernel =>
      match machine.tick kernel with
      | (some wstatus, after) => .status wstatus after
      | (none, after) => run budget after

/-- A signal passed on kills the tracee. -/
def wait (budget : Nat) (kernel : Traced χ) : WaitResult (Traced χ) :=
  match kernel.life with
  | .stopped => .blocked
  | .gone => .failed kernel
  | .running single data =>
      if data ≠ 0 then
        .status (.signaled (data.setWidth 7)) { kernel with life := .gone }
      else if single then
        match machine.tick kernel with
        | (some wstatus, after) => .status wstatus after
        | (none, after) => .status .plainTrap { after with life := .stopped }
      else
        machine.run budget kernel

/-- The kernel. Requests to a tracee that is not stopped fail, and so does
PTRACE_SYSCALL, because syscall-stops are left out. -/
def host (budget : Nat) : Host (Traced χ) where
  ptrace request kernel :=
    match kernel.life, request with
    | .stopped, .peekdata addr => (some ⟨peek kernel.mem addr, machine.regs kernel.cpu⟩, kernel)
    | .stopped, .pokedata addr data =>
        (some ⟨0, machine.regs kernel.cpu⟩, { kernel with mem := poke kernel.mem addr data })
    | .stopped, .getregs => (some ⟨0, machine.regs kernel.cpu⟩, kernel)
    | .stopped, .setregs regs =>
        (some ⟨0, regs⟩, { kernel with cpu := machine.setRegs regs kernel.cpu })
    | .stopped, .cont data =>
        (some ⟨0, machine.regs kernel.cpu⟩, { kernel with life := .running false data })
    | .stopped, .singlestep data =>
        (some ⟨0, machine.regs kernel.cpu⟩, { kernel with life := .running true data })
    | _, _ => (none, kernel)
  waitpid := machine.wait budget
  procMem kernel addr := some (kernel.mem addr)
  csDisasm _ := none
  unwindCaller _ := none
  syscallNumbers := []

end Machine

/-! ## Programs -/

/-- The same outcome but for the memory at `code`. -/
def Execution.Agrees (code : Set Addr) : Execution χ → Execution χ → Prop
  | .next cpu mem, .next other memory => cpu = other ∧ ∀ addr ∉ code, mem addr = memory addr
  | .exit status, .exit other => status = other
  | _, _ => False

/-- A program whose instructions start at `starts`, do not overlap, are no
`int3`, and neither read nor write the code. What other instructions would do
is left open. -/
structure Code (machine : Machine χ) where
  starts : Set Addr
  orig : Memory
  bytes : Set Addr
  mem_bytes : ∀ addr, addr ∈ bytes ↔
    ∃ start ∈ starts, ∃ offset < machine.size start, addr = start + BitVec.ofNat 64 offset
  size_pos : ∀ start ∈ starts, 0 < machine.size start
  apart : ∀ left ∈ starts, ∀ right ∈ starts, ∀ i < machine.size left, ∀ j < machine.size right,
    left + BitVec.ofNat 64 i = right + BitVec.ofNat 64 j → left = right
  no_int3 : ∀ start ∈ starts, orig start ≠ 0xCC
  reads : ∀ cpu left right, machine.rip cpu ∈ starts →
    machine.fetch cpu left = machine.fetch cpu orig →
    machine.fetch cpu right = machine.fetch cpu orig →
    (∀ addr ∉ bytes, left addr = right addr) →
    Execution.Agrees bytes (machine.exec cpu left) (machine.exec cpu right)
  writes : ∀ cpu mem after memory, machine.rip cpu ∈ starts →
    machine.fetch cpu mem = machine.fetch cpu orig →
    machine.exec cpu mem = .next after memory → ∀ addr ∈ bytes, memory addr = mem addr

/-- The program is loaded and runs along its instructions. -/
structure Code.Runs {machine : Machine χ} (code : Code machine) (first : χ × Memory) : Prop where
  loaded : ∀ addr ∈ code.bytes, first.2 addr = code.orig addr
  along : ∀ count cpu mem, machine.plain first count = some (cpu, mem) →
    machine.rip cpu ∈ code.starts

/-- Memory with `int3` at the armed addresses. -/
def patch (armed : Addr → Bool) (mem : Memory) : Memory :=
  fun addr => if armed addr then 0xCC else mem addr

section Programs

variable {machine : Machine χ} {code : Code machine} {first : χ × Memory} {count : Nat}
  {cpu : χ} {mem : Memory} {armed : Addr → Bool}

theorem Code.start_mem (code : Code machine) {start : Addr} (isStart : start ∈ code.starts) :
    start ∈ code.bytes :=
  (code.mem_bytes start).mpr ⟨start, isStart, 0, code.size_pos start isStart, by simp⟩

theorem Code.inside (code : Code machine) {start : Addr} (isStart : start ∈ code.starts)
    {offset : Nat} (small : offset < machine.size start) :
    start + BitVec.ofNat 64 offset ∈ code.bytes :=
  (code.mem_bytes _).mpr ⟨start, isStart, offset, small, rfl⟩

theorem fetch_congr {left right : Memory} (same : ∀ offset < machine.size (machine.rip cpu),
      left (machine.rip cpu + BitVec.ofNat 64 offset) =
        right (machine.rip cpu + BitVec.ofNat 64 offset)) :
    machine.fetch cpu left = machine.fetch cpu right := by
  unfold Machine.fetch
  rw [bytesAt_congr same]

/-- Memory that holds the code holds the instruction at RIP. -/
theorem fetch_code (isStart : machine.rip cpu ∈ code.starts)
    (same : ∀ addr ∈ code.bytes, mem addr = code.orig addr) :
    machine.fetch cpu mem = machine.fetch cpu code.orig := by
  apply fetch_congr
  intro offset small
  exact same _ (code.inside isStart small)

/-- An `int3` at another start is not in the bytes of the instruction at RIP. -/
theorem fetch_patch (isStart : machine.rip cpu ∈ code.starts)
    (within : ∀ addr, armed addr = true → addr ∈ code.starts)
    (clear : armed (machine.rip cpu) = false) :
    machine.fetch cpu (patch armed mem) = machine.fetch cpu mem := by
  apply fetch_congr
  intro offset small
  have outside : armed (machine.rip cpu + BitVec.ofNat 64 offset) = false := by
    by_contra trapped
    have isArmed : armed (machine.rip cpu + BitVec.ofNat 64 offset) = true := by simpa using trapped
    have other := within _ isArmed
    have same : machine.rip cpu = machine.rip cpu + BitVec.ofNat 64 offset :=
      code.apart _ isStart _ other offset small 0 (code.size_pos _ other) (by simp)
    rw [← same, clear] at isArmed
    cases isArmed
  simp [patch, outside]

/-- The program never changes its code. -/
theorem plain_code (runs : code.Runs first) (alive : machine.plain first count = some (cpu, mem)) :
    ∀ addr ∈ code.bytes, mem addr = code.orig addr := by
  induction count generalizing cpu mem with
  | zero =>
      obtain rfl : first = (cpu, mem) := Option.some.inj alive
      exact runs.loaded
  | succ count inductionHypothesis =>
      obtain ⟨⟨before, memory⟩, earlier, executed⟩ := Option.bind_eq_some_iff.mp alive
      have held := inductionHypothesis earlier
      have isStart := runs.along count before memory earlier
      cases outcome : machine.exec before memory with
      | exit status => simp [outcome] at executed
      | next after written =>
          simp only [outcome, Option.some.injEq, Prod.mk.injEq] at executed
          obtain ⟨rfl, rfl⟩ := executed
          intro addr inside
          have kept := code.writes before memory _ _ isStart (fetch_code isStart held) outcome
          rw [kept addr inside, held addr inside]

/-- `int3` at other instructions changes nothing but themselves. -/
theorem exec_patch (runs : code.Runs first) (alive : machine.plain first count = some (cpu, mem))
    (within : ∀ addr, armed addr = true → addr ∈ code.starts)
    (clear : armed (machine.rip cpu) = false) :
    machine.exec cpu (patch armed mem) =
      match machine.exec cpu mem with
      | .next after memory => .next after (patch armed memory)
      | .exit status => .exit status := by
  have isStart := runs.along count cpu mem alive
  have held := plain_code runs alive
  have fetched : machine.fetch cpu mem = machine.fetch cpu code.orig := fetch_code isStart held
  have patched : machine.fetch cpu (patch armed mem) = machine.fetch cpu code.orig := by
    rw [fetch_patch isStart within clear, fetched]
  have elsewhere (addr : Addr) (outside : addr ∉ code.bytes) (memory : Memory) :
      patch armed memory addr = memory addr := by
    unfold patch
    split
    · next isArmed => exact absurd (code.start_mem (within addr isArmed)) outside
    · rfl
  have agrees := code.reads cpu (patch armed mem) mem isStart patched fetched
    fun addr outside => elsewhere addr outside mem
  cases plainly : machine.exec cpu mem with
  | exit status =>
      cases traced : machine.exec cpu (patch armed mem) with
      | exit other =>
          rw [plainly, traced] at agrees
          obtain rfl : other = status := agrees
          rfl
      | next after memory => rw [plainly, traced] at agrees; exact agrees.elim
  | next after memory =>
      cases traced : machine.exec cpu (patch armed mem) with
      | exit other => rw [plainly, traced] at agrees; exact agrees.elim
      | next other written =>
          rw [plainly, traced] at agrees
          obtain ⟨rfl, data⟩ := agrees
          have same : written = patch armed memory := by
            funext addr
            by_cases inside : addr ∈ code.bytes
            · calc
                written addr = patch armed mem addr :=
                  code.writes cpu _ _ _ isStart patched traced addr inside
                _ = patch armed memory addr := by
                  unfold patch
                  rw [code.writes cpu mem _ _ isStart fetched plainly addr inside]
            · rw [elsewhere addr inside memory]
              exact data addr inside
          rw [same]

/-! ## Where the traced program is -/

/-- The tracee is where the program alone is after `count` instructions, but
for the `int3` at the armed addresses. -/
structure At (machine : Machine χ) (first : χ × Memory) (armed : Addr → Bool) (count : Nat)
    (kernel : Traced χ) : Prop where
  alive : ∃ mem, machine.plain first count = some (kernel.cpu, mem) ∧ kernel.mem = patch armed mem
  retired : kernel.retired = machine.plainRetired first count

/-- The program has ended with its last instruction. -/
structure Over (machine : Machine χ) (first : χ × Memory) (count : Nat) (kernel : Traced χ) :
    Prop where
  ended : machine.plain first count = none
  gone : kernel.life = .gone
  retired : kernel.retired = machine.plainRetired first count

/-- The program goes on after `count` instructions, at an address that is not armed. -/
def RunsOn (machine : Machine χ) (first : χ × Memory) (armed : Addr → Bool) (count : Nat) : Prop :=
  ∃ cpu mem, machine.plain first count = some (cpu, mem) ∧ armed (machine.rip cpu) = false

variable {kernel : Traced χ}

theorem tick_armed (isArmed : armed (machine.rip kernel.cpu) = true)
    (at' : At machine first armed count kernel) :
    machine.tick kernel = (some .plainTrap, { kernel with
      cpu := machine.jump (machine.rip kernel.cpu + 1) kernel.cpu, life := .stopped }) := by
  obtain ⟨mem, _, patched⟩ := at'.alive
  have trap : kernel.mem (machine.rip kernel.cpu) = 0xCC := by rw [patched, patch, if_pos isArmed]
  unfold Machine.tick
  rw [if_pos trap]

/-- Away from the `int3` the tracee executes what the program alone does. -/
theorem tick_plain (runs : code.Runs first)
    (within : ∀ addr, armed addr = true → addr ∈ code.starts)
    (at' : At machine first armed count kernel) (clear : armed (machine.rip kernel.cpu) = false) :
    (∃ after, machine.tick kernel = (none, after) ∧ after.life = kernel.life ∧
        At machine first armed (count + 1) after) ∨
      ∃ status after, machine.tick kernel = (some (.exited status), after) ∧
        Over machine first (count + 1) after := by
  obtain ⟨⟨mem, alive, patched⟩, retired⟩ := at'
  have isStart := runs.along count _ mem alive
  have notTrap : kernel.mem (machine.rip kernel.cpu) ≠ 0xCC := by
    rw [patched, patch, clear, if_neg Bool.false_ne_true,
      plain_code runs alive _ (code.start_mem isStart)]
    exact code.no_int3 _ isStart
  have executed := exec_patch runs alive within clear
  have fetched : machine.fetch kernel.cpu kernel.mem = machine.fetch kernel.cpu mem := by
    rw [patched, fetch_patch isStart within clear]
  rw [← patched] at executed
  have longer : machine.fetch kernel.cpu kernel.mem :: kernel.retired =
      machine.plainRetired first (count + 1) := by
    simp only [Machine.plainRetired, alive, fetched, retired]
  unfold Machine.tick
  rw [if_neg notTrap]
  cases plainly : machine.exec kernel.cpu mem with
  | next cpu memory =>
      left
      simp only [executed, plainly, longer]
      refine ⟨_, rfl, rfl, ⟨memory, ?_, rfl⟩, rfl⟩
      simp [Machine.plain, alive, plainly]
  | exit status =>
      right
      simp only [executed, plainly, longer]
      refine ⟨status, _, rfl, ?_, rfl, rfl⟩
      simp [Machine.plain, alive, plainly]

/-- How a run ends that starts after `count` instructions. -/
def RunEnds (machine : Machine χ) (first : χ × Memory) (armed : Addr → Bool)
    (budget count : Nat) : WaitResult (Traced χ) → Prop
  | .blocked => ∀ passed, count ≤ passed → passed < count + budget →
      RunsOn machine first armed passed
  | .failed _ => False
  | .status wstatus after => ∃ last, count ≤ last ∧
      (∀ passed, count ≤ passed → passed < last → RunsOn machine first armed passed) ∧
      ((∃ kernel, At machine first armed last kernel ∧ armed (machine.rip kernel.cpu) = true ∧
          wstatus = .plainTrap ∧ after = { kernel with
            cpu := machine.jump (machine.rip kernel.cpu + 1) kernel.cpu, life := .stopped }) ∨
        ∃ status, wstatus = .exited status ∧ count < last ∧ Over machine first last after)

theorem At.passes (at' : At machine first armed count kernel)
    (clear : armed (machine.rip kernel.cpu) = false) : RunsOn machine first armed count := by
  obtain ⟨mem, alive, _⟩ := at'.alive
  exact ⟨kernel.cpu, mem, alive, clear⟩

/-- One instruction more in front of a run. -/
theorem RunEnds.cons {budget : Nat} {result : WaitResult (Traced χ)}
    (passes : RunsOn machine first armed count)
    (ends : RunEnds machine first armed budget (count + 1) result) :
    RunEnds machine first armed (budget + 1) count result := by
  have extend (last : Nat)
      (later : ∀ passed, count + 1 ≤ passed → passed < last → RunsOn machine first armed passed)
      (passed : Nat) (after : count ≤ passed) (before : passed < last) :
      RunsOn machine first armed passed := by
    rcases Nat.eq_or_lt_of_le after with rfl | beyond
    · exact passes
    · exact later passed beyond before
  cases result with
  | blocked =>
      intro passed after before
      exact extend (count + 1 + budget) ends passed after (by omega)
  | failed after => exact ends
  | status wstatus after =>
      obtain ⟨last, beyond, later, how⟩ := ends
      refine ⟨last, by omega, extend last later, ?_⟩
      rcases how with trapped | ⟨status, exited, less, past⟩
      · exact .inl trapped
      · exact .inr ⟨status, exited, by omega, past⟩

/-- The run stops at the first armed address or at the end of the program. -/
theorem run_ends (runs : code.Runs first) (within : ∀ addr, armed addr = true → addr ∈ code.starts)
    (budget : Nat) (at' : At machine first armed count kernel) :
    RunEnds machine first armed budget count (machine.run budget kernel) := by
  induction budget generalizing count kernel with
  | zero =>
      intro passed after before
      omega
  | succ budget inductionHypothesis =>
      cases isArmed : armed (machine.rip kernel.cpu) with
      | true =>
          rw [Machine.run, tick_armed isArmed at']
          exact ⟨count, le_rfl, fun passed after before => by omega,
            .inl ⟨kernel, at', isArmed, rfl, rfl⟩⟩
      | false =>
          have passes := at'.passes isArmed
          rcases tick_plain runs within at' isArmed with
            ⟨after, ticked, _, later⟩ | ⟨status, after, ticked, past⟩
          · rw [Machine.run, ticked]
            exact (inductionHypothesis later).cons passes
          · rw [Machine.run, ticked]
            refine ⟨count + 1, by omega, fun passed from' below => ?_,
              .inr ⟨status, rfl, by omega, past⟩⟩
            obtain rfl : passed = count := by omega
            exact passes

end Programs

end MyDbg
