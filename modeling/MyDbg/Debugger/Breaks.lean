import MyDbg.Debugger.FormatUtils

/-!
Contract: `cmd_breaks` from its arguments on.

Owns: `syscall_num`; the number or name `breaks` takes from its argument, with
the exceptions that go missing on the way; what the argument stands for; and
when the command watches exactly that.

Does not own: what is printed of the number, and the stops at which the
syscall is reported.
-/

namespace MyDbg

open LittleEndian ProgramLogic Numerals

variable {κ : Type}

section Commands

variable (host : Host κ)

/-- The number of the first syscall with this name. -/
def syscallNumbered (syscall : List Char) : Option (BitVec 32) :=
  (host.syscallNumbers.find? fun entry => strcmp syscall entry.1.toList = 0).map Prod.snd

def syscallNum (syscall : List Char) : Dbg κ (BitVec 32) :=
  match syscallNumbered host syscall with
  | some ret => if ret = -1 then Program.throw .syscallException else return ret
  | none => Program.throw .syscallException

/-- The handler of `Exception`: `syscall` and `my_ex` when it is done. -/
def nameSyscall (arg : List Char) : Dbg κ (BitVec 32 × MyException) :=
  (syscallNum host arg).attempt (fun syscall => return (syscall, .none)) fun ex =>
    if ex = .syscallException then do
      printf (.unknownSyscall arg)
      return (0, ex)
    else
      return (0, .none)

/-- `syscall` and `my_ex` behind the first `etry`. An exception without a clause
leaves them as they were. -/
def resolveSyscall (exDepth : Nat) (arg : List Char) : Dbg κ (BitVec 32 × MyException) :=
  (readSize host (exDepth + 1) arg).attempt
    (fun size => return (size.setWidth 32, .none)) fun ex =>
      if ex = .exception then nameSyscall host arg else return (0, .none)

def cmdBreaksArgv (exDepth : Nat) (argv : List (List Char)) : Dbg κ Unit :=
  match argv with
  | _ :: arg :: _ => do
      let (syscall, myEx) ← resolveSyscall host exDepth arg
      if myEx = .none then cmdBreaks host syscall else Program.throw myEx
  | _ => printf .noSyscall

end Commands

/-! ## What an argument stands for -/

/-- The number `read_size` reads off a text that is no placeholder. -/
def acceptedNumber (arg : List Char) : Option Word :=
  if startsWith arg ['0', 'x'] then acceptedAddress arg else acceptedSize arg

/-- How an argument is read: as a number, as the placeholder of a register, or as a name. -/
inductive Argument where
  | number (size : Word)
  | register (reg : MyReg)
  | name
deriving DecidableEq

def Argument.of (arg : List Char) : Argument :=
  if startsWith arg ['%'] then
    match registerNamed (arg.drop 1) with
    | some reg => .register reg
    | none => .name
  else
    match acceptedNumber arg with
    | some size => .number size
    | none => .name

/-- The value of a number or of a register that can be read. -/
def Argument.value (host : Host κ) (kernel : κ) : Argument → Option Word
  | .number size => some size
  | .register reg => (host.ptrace .getregs kernel).1.map fun reply => reply.regs reg
  | .name => none

/-- `INT_MAX` and below. -/
def FitsInt (size : Word) : Prop := size.toNat < 2 ^ 31

instance (size : Word) : Decidable (FitsInt size) :=
  inferInstanceAs (Decidable (size.toNat < 2 ^ 31))

/-- The syscall an argument stands for. -/
def denotedSyscall (host : Host κ) (kernel : κ) (arg : List Char) : Option (BitVec 32) :=
  match Argument.of arg with
  | .name => (syscallNumbered host arg).filter (· ≠ -1)
  | argument => ((argument.value host kernel).filter (FitsInt ·)).map (·.setWidth 32)

/-- The watched syscalls and the breakpoints, with one more for `syscall`. -/
def Adds (syscall : BitVec 32) (before after : Globals) : Prop :=
  after.gSyscalls = before.gSyscalls ++ [syscall] ∧
    ∃ bp, after.gBreakpoints = before.gBreakpoints ++ [bp] ∧ bp.isSyscall = true ∧
      bp.enabled = true ∧ bp.deleted = false ∧ bp.addr = syscall.signExtend 64 ∧
      bp.word = BitVec.ofNat 64 before.gSyscalls.length

def Unchanged (before after : Globals) : Prop :=
  after.gSyscalls = before.gSyscalls ∧ after.gBreakpoints = before.gBreakpoints

/-- Room for one more watched syscall. -/
def HasRoom (globals : Globals) : Prop := 4 * (globals.gSyscalls.length + 1) < 2 ^ 63

instance (globals : Globals) : Decidable (HasRoom globals) :=
  inferInstanceAs (Decidable (4 * (globals.gSyscalls.length + 1) < 2 ^ 63))

/-- One of the two tables cannot grow, and `my_realloc` exits the debugger. -/
def LacksRoom (globals : Globals) : Prop :=
  ¬ HasRoom globals ∨ ¬ (globals.gBreakpoints.length + 1) * sizeofMyBp < 2 ^ 63

/-- The command returns with a breakpoint more, unless a table cannot grow. -/
abbrev Added (syscall : BitVec 32) (before : Globals) : Post MyException (State κ) Unit where
  ok _ after := Adds syscall before after.globals
  throw _ _ := False
  fault _ := False
  noReturn _ := LacksRoom before

/-- The command comes back and leaves the tables as they were, and so it does where it
exits because a table cannot grow. -/
abbrev Ignored (before : Globals) : Post MyException (State κ) Unit where
  ok _ after := Unchanged before after.globals
  throw _ after := Unchanged before after.globals
  fault _ := False
  noReturn after := LacksRoom before ∧ Unchanged before after.globals

/-- `breaks` watches the syscall its argument stands for, unless memory is exhausted,
and leaves the tables alone if it stands for none. -/
def Resolves (host : Host κ) (exDepth : Nat) (name arg : List Char) (state : State κ) : Prop :=
  match denotedSyscall host state.kernel arg with
  | some syscall =>
      wp (cmdBreaksArgv host exDepth [name, arg]) (Added syscall state.globals) state
  | none => wp (cmdBreaksArgv host exDepth [name, arg]) (Ignored state.globals) state

/-- The argument is a number or a register that does not fit in an `int`, or a
register that cannot be read. -/
def Misled (host : Host κ) (kernel : κ) (arg : List Char) : Prop :=
  Argument.of arg ≠ .name ∧
    ∀ size ∈ (Argument.of arg).value host kernel, ¬ FitsInt size

section Reading

variable {host : Host κ} {exDepth : Nat} {state : State κ} {arg : List Char} {size : Word}

theorem text_plain (text : startsWith arg ['%'] = false) : arg.head? ≠ some '%' := by
  rw [ne_eq, ← startsWith_cons, text]
  exact Bool.false_ne_true

/-- A text that is no placeholder is read to its number. -/
theorem readSize_number (text : startsWith arg ['%'] = false)
    (number : acceptedNumber arg = some size) :
    readSize host exDepth arg state = .ok size state := by
  unfold acceptedNumber at number
  by_cases prefixed : startsWith arg ['0', 'x'] = true
  · rw [if_pos prefixed] at number
    rw [readSize_hexadecimal prefixed, readAddress_accepted (text_plain text) number]
  · rw [if_neg prefixed] at number
    rw [Bool.not_eq_true] at prefixed
    exact readSize_accepted (text_plain text) prefixed number

theorem readSize_text (text : startsWith arg ['%'] = false) (refused : acceptedNumber arg = none) :
    Refused (readSize host exDepth arg state) state := by
  unfold acceptedNumber at refused
  by_cases prefixed : startsWith arg ['0', 'x'] = true
  · rw [if_pos prefixed] at refused
    rw [readSize_hexadecimal prefixed]
    exact readAddress_refused (text_plain text) refused
  · rw [if_neg prefixed] at refused
    rw [Bool.not_eq_true] at prefixed
    exact readSize_refused (text_plain text) prefixed refused

theorem readSize_placeholder (placeholder : startsWith arg ['%'] = true) :
    readSize host exDepth arg = getRegisterFromName host (arg.drop 1) := by
  rw [readSize, readAddress, placeholder, Bool.or_true, if_pos rfl, if_pos rfl]

/-- What `read_size` does with each kind of argument. -/
inductive Reads (host : Host κ) (state : State κ) :
    Argument → Outcome MyException (State κ) Word → Prop where
  | number (size : Word) : Reads host state (.number size) (.ok size state)
  | register (reg : MyReg) : Reads host state (.register reg) (getRegister host reg state)
  | name {outcome : Outcome MyException (State κ) Word} (refused : Refused outcome state) :
      Reads host state .name outcome

theorem readSize_reads (host : Host κ) (exDepth : Nat) (state : State κ) (arg : List Char) :
    Reads host state (.of arg) (readSize host exDepth arg state) := by
  unfold Argument.of
  cases placeholder : startsWith arg ['%'] with
  | true =>
      rw [if_pos rfl, readSize_placeholder placeholder, getRegisterFromName]
      cases registerNamed (arg.drop 1) with
      | some reg => exact .register reg
      | none => exact .name ⟨state.record (.output _), rfl, rfl, rfl⟩
  | false =>
      rw [if_neg Bool.false_ne_true]
      cases number : acceptedNumber arg with
      | some size =>
          rw [readSize_number placeholder number]
          exact .number size
      | none => exact .name (readSize_text placeholder number)

end Reading

/-! ## The command -/

section Command

variable {host : Host κ} {exDepth : Nat} {state : State κ} {name arg : List Char}
  {syscall : BitVec 32}

theorem syscallNum_known (known : (syscallNumbered host arg).filter (· ≠ -1) = some syscall) :
    syscallNum host arg state = .ok syscall state := by
  obtain ⟨found, proper⟩ := Option.filter_eq_some_iff.mp known
  rw [decide_eq_true_eq] at proper
  unfold syscallNum
  rw [found]
  simp only [if_neg proper]
  rfl

theorem syscallNum_unknown (unknown : (syscallNumbered host arg).filter (· ≠ -1) = none) :
    syscallNum host arg state = .throw .syscallException state := by
  unfold syscallNum
  cases found : syscallNumbered host arg with
  | none => rfl
  | some ret =>
      have undefined : ret = -1 := by simpa [found, Option.filter] using unknown
      simp only [if_pos undefined]
      rfl

theorem nameSyscall_known (known : (syscallNumbered host arg).filter (· ≠ -1) = some syscall) :
    nameSyscall host arg state = .ok (syscall, .none) state := by
  rw [nameSyscall, Program.attempt_apply, syscallNum_known known]
  rfl

theorem nameSyscall_unknown (unknown : (syscallNumbered host arg).filter (· ≠ -1) = none) :
    nameSyscall host arg state =
      .ok (0, .syscallException) (state.record (.output (.unknownSyscall arg))) := by
  rw [nameSyscall, Program.attempt_apply, syscallNum_unknown unknown]
  rfl

/-- A number that is read is cut to an `int`. -/
theorem resolve_ok {size : Word} {after : State κ}
    (reads : readSize host (exDepth + 1) arg state = .ok size after) :
    resolveSyscall host exDepth arg state = .ok (size.setWidth 32, .none) after := by
  rw [resolveSyscall, Program.attempt_apply, reads]
  rfl

theorem resolve_named {after : State κ}
    (raises : readSize host (exDepth + 1) arg state = .throw .exception after) :
    resolveSyscall host exDepth arg state = nameSyscall host arg after := by
  rw [resolveSyscall, Program.attempt_apply, raises]
  rfl

/-- The first `try` has no clause for a failing request: syscall 0 is left. -/
theorem resolve_swallows {after : State κ}
    (raises : readSize host (exDepth + 1) arg state = .throw .ptraceException after) :
    resolveSyscall host exDepth arg state = .ok (0, .none) after := by
  rw [resolveSyscall, Program.attempt_apply, raises]
  rfl

theorem cmdBreaksArgv_ok {after : State κ}
    (resolved : resolveSyscall host exDepth arg state = .ok (syscall, .none) after) :
    cmdBreaksArgv host exDepth [name, arg] state = cmdBreaks host syscall after := by
  rw [cmdBreaksArgv, Program.bind_ok resolved]
  rfl

theorem cmdBreaksArgv_throw {ex : MyException} {after : State κ} (raised : ex ≠ .none)
    (resolved : resolveSyscall host exDepth arg state = .ok (syscall, ex) after) :
    cmdBreaksArgv host exDepth [name, arg] state = .throw ex after := by
  rw [cmdBreaksArgv, Program.bind_ok resolved]
  simp only [if_neg raised]
  rfl

theorem addSyscallBreak_full (full : ¬ HasRoom state.globals) :
    addSyscallBreak host syscall state = .noReturn state := by
  unfold HasRoom at full
  rw [addSyscallBreak, Program.bind_ok (rfl : getGlobals state = .ok state.globals state),
    Program.bind_apply, myRealloc, if_neg full]
  rfl

theorem addSyscallBreak_adds (room : HasRoom state.globals) :
    wp (addSyscallBreak host syscall)
      { ok := fun _ after => Adds syscall state.globals after.globals
        throw := fun _ _ => False
        fault := fun _ => False
        noReturn := fun after => LacksRoom state.globals ∧
          after.globals.gSyscalls = state.globals.gSyscalls ++ [syscall] } state := by
  unfold LacksRoom
  unfold HasRoom at *
  unfold addSyscallBreak
  simp only [wp_bind, wp_getGlobals, wp_myRealloc, wp_modifyGlobals, wp_pure]
  refine ⟨fun _ => ?_, fun full => absurd room full⟩
  unfold placeBreakpoint
  rw [if_neg (by decide)]
  simp only [wp_bind, wp_getGlobals, State.withGlobals_globals]
  unfold wp
  rw [appendBreakpoint_apply]
  split
  · refine ⟨rfl, _, rfl, ?_, rfl, rfl, rfl, ?_⟩
    · simp [MyBp.placed, MyBp.isSyscall, myBpSyscall]
    · simp only [MyBp.placed, List.length_append, List.length_singleton]
      exact ofNat_succ_sub_one _
  · next full => exact ⟨.inr full, rfl⟩

theorem cmdBreaks_adds : wp (cmdBreaks host syscall) (Added syscall state.globals) state := by
  unfold cmdBreaks
  rw [wp_bind]
  by_cases room : HasRoom state.globals
  · exact wp_mono (addSyscallBreak_adds room)
      ⟨fun _ _ adds => adds, fun _ _ raised => raised, fun _ undefined => undefined,
        fun _ exits => exits.1⟩
  · unfold wp
    rw [addSyscallBreak_full room]
    exact .inl room

/-- Where there is room, the table of watched syscalls grows. -/
theorem cmdBreaks_grows (room : HasRoom state.globals) :
    wp (cmdBreaks host syscall)
      (.always fun after => after.globals.gSyscalls = state.globals.gSyscalls ++ [syscall])
      state := by
  unfold cmdBreaks
  rw [wp_bind]
  exact wp_mono (addSyscallBreak_adds room)
    ⟨fun _ _ adds => adds.1, fun _ _ raised => raised.elim, fun _ undefined => undefined.elim,
      fun _ exits => exits.2⟩

theorem cmdBreaks_full (full : ¬ HasRoom state.globals) :
    cmdBreaks host syscall state = .noReturn state := by
  rw [cmdBreaks, Program.bind_apply, addSyscallBreak_full full]

section Watches

variable {after : State κ} (same : after.globals = state.globals)
  (watches : cmdBreaksArgv host exDepth [name, arg] state = cmdBreaks host syscall after)

include same watches

theorem watches_adds :
    wp (cmdBreaksArgv host exDepth [name, arg]) (Added syscall state.globals) state := by
  unfold wp
  rw [watches, ← same]
  exact cmdBreaks_adds

/-- A syscall that is watched is in the table, unless the debugger exits. -/
theorem watches_unchanged_iff :
    wp (cmdBreaksArgv host exDepth [name, arg]) (Ignored state.globals) state ↔
      ¬ HasRoom state.globals := by
  unfold wp
  rw [watches, ← same]
  by_cases room : HasRoom after.globals
  · have grows : wp (cmdBreaks host syscall) _ after := cmdBreaks_grows room
    refine iff_of_false (fun ignored => ?_) (not_not.mpr room)
    have unchanged : wp (cmdBreaks host syscall)
        (.always fun last => Unchanged after.globals last.globals) after :=
      wp_mono ignored ⟨fun _ _ kept => kept, fun _ _ kept => kept, fun _ no => no.elim,
        fun _ exits => exits.2⟩
    unfold wp at grows unchanged
    rw [Post.always_holds] at grows unchanged
    have kept := unchanged.1
    rw [grows] at kept
    simp at kept
  · rw [cmdBreaks_full room]
    exact iff_of_true ⟨.inl room, rfl, rfl⟩ room

end Watches

theorem resolves_some (denoted : denotedSyscall host state.kernel arg = some syscall) :
    Resolves host exDepth name arg state ↔
      wp (cmdBreaksArgv host exDepth [name, arg]) (Added syscall state.globals) state := by
  rw [Resolves, denoted]

theorem resolves_none (denoted : denotedSyscall host state.kernel arg = none) :
    Resolves host exDepth name arg state ↔
      wp (cmdBreaksArgv host exDepth [name, arg]) (Ignored state.globals) state := by
  rw [Resolves, denoted]

/-- An argument with a value is watched as that value, where it fits. -/
theorem resolves_value {argument : Argument} {size : Word} {after : State κ}
    (kind : Argument.of arg = argument) (valued : argument ≠ .name)
    (value : argument.value host state.kernel = some size)
    (same : after.globals = state.globals)
    (reads : readSize host (exDepth + 1) arg state = .ok size after) :
    Resolves host exDepth name arg state ↔
      ¬ Misled host state.kernel arg ∨ ¬ HasRoom state.globals := by
  have watches : cmdBreaksArgv host exDepth [name, arg] state =
      cmdBreaks host (size.setWidth 32) after := cmdBreaksArgv_ok (resolve_ok reads)
  have denoted : denotedSyscall host state.kernel arg =
      ((some size).filter (FitsInt ·)).map (·.setWidth 32) := by
    rw [denotedSyscall, kind, ← value]
    cases argument with
    | name => exact absurd rfl valued
    | number size => rfl
    | register reg => rfl
  have misled : Misled host state.kernel arg ↔ ¬ FitsInt size := by
    rw [Misled, kind, value]
    simp [valued]
  by_cases fits : FitsInt size
  · rw [Option.filter_some_pos (by simpa using fits)] at denoted
    rw [resolves_some denoted]
    exact iff_of_true (watches_adds same watches) (.inl (mt misled.mp (not_not.mpr fits)))
  · rw [Option.filter_some_neg (by simpa using fits)] at denoted
    rw [resolves_none denoted, watches_unchanged_iff same watches]
    exact (or_iff_right (not_not.mpr (misled.mpr fits))).symm

/-- A register that cannot be read leaves syscall 0. -/
theorem resolves_refused {reg : MyReg} (kind : Argument.of arg = .register reg)
    (answer : (host.ptrace .getregs state.kernel).1 = none)
    (outcome : readSize host (exDepth + 1) arg state =
      .throw .ptraceException (state.afterPtrace host .getregs)) :
    Resolves host exDepth name arg state ↔
      ¬ Misled host state.kernel arg ∨ ¬ HasRoom state.globals := by
  have same : (state.afterPtrace host .getregs).globals = state.globals := rfl
  have value : (Argument.register reg).value host state.kernel = none := by
    rw [Argument.value, answer, Option.map_none]
  have denoted : denotedSyscall host state.kernel arg = none := by
    rw [denotedSyscall, kind]
    simp only [value, Option.filter_none, Option.map_none]
  have misled : Misled host state.kernel arg := by
    rw [Misled, kind, value]
    exact ⟨fun other => (by cases other), fun _ none => (by cases none)⟩
  rw [resolves_none denoted,
    watches_unchanged_iff same (cmdBreaksArgv_ok (resolve_swallows outcome))]
  exact (or_iff_right (not_not.mpr misled)).symm

/-- A name is looked up in the table of syscalls. -/
theorem resolves_name (kind : Argument.of arg = .name)
    (refused : Refused (readSize host (exDepth + 1) arg state) state) :
    Resolves host exDepth name arg state := by
  obtain ⟨after, same, _, outcome⟩ := refused
  have named := resolve_named outcome
  cases known : (syscallNumbered host arg).filter (· ≠ -1) with
  | some syscall =>
      have denoted : denotedSyscall host state.kernel arg = some syscall := by
        rw [denotedSyscall, kind, ← known]
      rw [nameSyscall_known known] at named
      rw [resolves_some denoted]
      exact watches_adds same (cmdBreaksArgv_ok named)
  | none =>
      have denoted : denotedSyscall host state.kernel arg = none := by
        rw [denotedSyscall, kind, ← known]
      rw [nameSyscall_unknown known] at named
      rw [resolves_none denoted]
      unfold wp
      rw [cmdBreaksArgv_throw (fun other => by cases other) named]
      exact ⟨congrArg Globals.gSyscalls same, congrArg Globals.gBreakpoints same⟩

/-- `breaks` watches what its argument stands for, or nothing, exactly if the argument
is not a number or register that an `int` cannot hold, or a register that cannot
be read. -/
theorem breaks_resolves_iff (host : Host κ) (exDepth : Nat) (name arg : List Char)
    (state : State κ) :
    Resolves host exDepth name arg state ↔
      ¬ Misled host state.kernel arg ∨ ¬ HasRoom state.globals := by
  have reads := readSize_reads host (exDepth + 1) state arg
  generalize outcome : readSize host (exDepth + 1) arg state = read at reads
  cases kind : Argument.of arg with
  | number size =>
      rw [kind] at reads
      cases reads
      exact resolves_value kind (fun other => by cases other) rfl rfl outcome
  | register reg =>
      rw [kind] at reads
      cases reads
      cases answer : (host.ptrace .getregs state.kernel).1 with
      | some reply =>
          rw [getRegister_answered reg answer] at outcome
          have same : (state.afterPtrace host .getregs).globals = state.globals := rfl
          have value : (Argument.register reg).value host state.kernel = some (reply.regs reg) := by
            rw [Argument.value, answer, Option.map_some]
          exact resolves_value kind (fun other => by cases other) value same outcome
      | none =>
          rw [getRegister_refused reg answer] at outcome
          exact resolves_refused kind answer outcome
  | name =>
      rw [kind] at reads
      cases reads with
      | name refused =>
          have regular : ¬ Misled host state.kernel arg := fun misled => misled.1 kind
          exact iff_of_true (resolves_name kind (outcome ▸ refused)) (.inl regular)

/-- A tracee whose registers cannot be read. -/
def unreadable : Host Scripted := { scripted with ptrace := fun _ kernel => (none, kernel) }

/-- `breaks 4294967296` watches syscall 0, and so does `breaks %rax` when the
registers cannot be read. -/
theorem breaks_narrows :
    ¬ Resolves scripted 1 ['b', 's'] ['4', '2', '9', '4', '9', '6', '7', '2', '9', '6']
        (Scripted.start []) ∧
      ¬ Resolves unreadable 1 ['b', 's'] ['%', 'r', 'a', 'x'] (Scripted.start []) := by
  have added : ([0] : List (BitVec 32)) ≠ [] := List.cons_ne_nil _ _
  have number : denotedSyscall scripted (Scripted.start []).kernel
      ['4', '2', '9', '4', '9', '6', '7', '2', '9', '6'] = none := by decide
  have register : denotedSyscall unreadable (Scripted.start []).kernel ['%', 'r', 'a', 'x'] =
      none := by decide
  rw [resolves_none number, resolves_none register]
  exact ⟨fun unchanged => added unchanged.1, fun unchanged => added unchanged.1⟩

end Command

end MyDbg
