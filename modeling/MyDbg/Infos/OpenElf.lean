import MyDbg.Exceptions.Basic
import MyDbg.Lib.LittleEndian
import MyDbg.Lib.Program

/-!
Contract: opening and closing the executable of the tracee.

Owns: `open_elf` and `close_elf`; the two `try` statements that `get_address`,
`print_line` and `get_line_address` share; a record of what was opened, mapped
and released; and when everything is released.

Does not own: what is looked up in the executable, which may return or raise
anything here but opens and maps it no second time. Locals keep their values
when an exception is caught.
-/

namespace MyDbg.Infos

open LittleEndian ProgramLogic

/-- A file descriptor. -/
abbrev Fd := Nat

/-- `struct my_elf`. -/
structure MyElf where
  size : Nat
  elf : Addr
  fd : Fd
  header : Addr
  sHeaders : Addr

/-- What is called outside of `open_elf` and `close_elf`. The first three return in the
debugger or raise; system calls answer `none` or `false` where they fail. -/
structure ExeHost (κ : Type) where
  tmpMalloc : Program MyException κ Unit
  getProcPath : Program MyException κ Unit
  getRegister : Program MyException κ Addr
  stat : κ → Option Nat × κ
  openExe : κ → Option Fd × κ
  mmap : Nat → Fd → κ → Option Addr × κ
  munmap : Addr → Nat → κ → Bool × κ
  close : Fd → κ → Bool × κ
  /-- The `Elf64_Ehdr` at an address that was mapped. -/
  header : κ → Addr → List Byte
  getAddressInternal : List Byte → MyElf → Program MyException κ Addr
  printLineAtAddr : MyElf → Addr → Program MyException κ Unit
  getLineAddressInternal : MyElf → List Byte → BitVec 32 → Program MyException κ Addr

/-- What was acquired, and the calls that release it. -/
inductive Call where
  | opened (fd : Fd)
  | mapped (elf : Addr) (size : Nat)
  | munmap (elf : Addr) (size : Nat)
  | close (fd : Fd)
deriving DecidableEq

structure Session (κ : Type) where
  kernel : κ
  /-- Newest first; nothing reads them. -/
  calls : List Call
  /-- The local `my_elf` of the function. -/
  myElf : Option MyElf

abbrev Exe (κ : Type) := Program MyException (Session κ)

/-- The session when a function is called. -/
def Session.start {κ : Type} (kernel : κ) : Session κ where
  kernel := kernel
  calls := []
  myElf := none

def sizeofElf64Ehdr : Nat := 64

/-- `ELFMAG0` to `ELFMAG3`. -/
def elfMagic : List Byte := [0x7f, 0x45, 0x4c, 0x46]

section Functions

variable {κ α : Type}

/-- A call that leaves the executable alone. -/
def outside (program : Program MyException κ α) : Exe κ α := fun session =>
  match program session.kernel with
  | .ok value kernel => .ok value { session with kernel := kernel }
  | .throw ex kernel => .throw ex { session with kernel := kernel }
  | .fault kernel => .fault { session with kernel := kernel }
  | .noReturn kernel => .noReturn { session with kernel := kernel }

def system (call : κ → α × κ) : Exe κ α := fun session =>
  .ok (call session.kernel).1 { session with kernel := (call session.kernel).2 }

def record (call : Call) : Exe κ Unit :=
  Program.modify fun session => { session with calls := call :: session.calls }

/-- An exception where a system call failed. -/
def answered (answer : Option α) : Exe κ α :=
  match answer with
  | some value => pure value
  | none => Program.throw .ioException

variable (host : ExeHost κ)

/-- With `file_size`. -/
def elfSize : Exe κ Nat := do
  outside host.getProcPath
  let answer ← system host.stat
  let size ← answered answer
  if size < sizeofElf64Ehdr then Program.throw .elfException else return size

/-- `open_elf_exe`, up to the `open`. -/
def openFile : Exe κ Fd := do
  outside host.getProcPath
  let answer ← system host.openExe
  let fd ← answered answer
  record (.opened fd)
  return fd

/-- `open_elf_exe`, from the `mmap` on. -/
def mapFile (size : Nat) (fd : Fd) : Exe κ Addr := do
  let answer ← system (host.mmap size fd)
  let elf ← answered answer
  record (.mapped elf size)
  return elf

def checkHeaderIntegrity (header : List Byte) : Exe κ Unit :=
  if header.take 4 = elfMagic then return () else Program.throw .elfException

/-- `e_shoff` is at offset 40. -/
def elfSectionsHeader (elf : Addr) (header : List Byte) : Addr :=
  elf + BitVec.ofNat 64 (leNatAt header 40 8)

def openElf : Exe κ MyElf := do
  outside host.tmpMalloc
  let size ← elfSize host
  let fd ← openFile host
  let elf ← mapFile host size fd
  let header ← Program.gets fun session => host.header session.kernel elf
  checkHeaderIntegrity header
  return { size, elf, fd, header := elf, sHeaders := elfSectionsHeader elf header }

def closeElf (myElf : Option MyElf) : Exe κ Unit :=
  match myElf with
  | none => return ()
  | some myElf => do
      record (.munmap myElf.elf myElf.size)
      let unmapped ← system (host.munmap myElf.elf myElf.size)
      record (.close myElf.fd)
      let closed ← system (host.close myElf.fd)
      if unmapped ∧ closed then return () else Program.throw .ioException

/-- The body of the first `try`. -/
def openBody (body : MyElf → Program MyException κ α) : Exe κ α := do
  let elf ← openElf host
  Program.modify fun session => { session with myElf := some elf }
  outside (body elf)

/-- `my_ex` is `None` in the first case only. -/
def afterClose (result : Except MyException α) (ex : MyException) : Except MyException α :=
  match result with
  | .ok value => if ex = .ioException then .error ex else .ok value
  | .error first => .error first

/-- The second `try`, and the `throw` behind it. -/
def closeBehind (result : Except MyException α) : Exe κ α := do
  let myElf ← Program.gets Session.myElf
  let result ← Program.attempt (closeElf host myElf) (fun _ => pure result)
    fun ex => pure (afterClose result ex)
  match result with
  | .ok value => return value
  | .error ex => Program.throw ex

/-- `SAFE_DWARF(Code)`; `get_address` has the same two statements. -/
def safeDwarf (body : MyElf → Program MyException κ α) : Exe κ α :=
  Program.attempt (openBody host body) (fun value => closeBehind host (.ok value))
    fun ex => closeBehind host (.error ex)

def getAddress (function : List Byte) : Exe κ Addr :=
  safeDwarf host (host.getAddressInternal function)

def printLine : Exe κ Unit := do
  let addr ← outside host.getRegister
  safeDwarf host fun elf => host.printLineAtAddr elf addr

def getLineAddress (file : List Byte) (line : BitVec 32) : Exe κ Addr :=
  safeDwarf host fun elf => host.getLineAddressInternal elf file line

end Functions

/-! ## What is asked of them -/

/-- Each descriptor is closed and each mapping unmapped as often as it was acquired. -/
def Released (calls : List Call) : Prop :=
  (∀ fd, calls.count (.close fd) = calls.count (.opened fd)) ∧
    ∀ elf size, calls.count (.munmap elf size) = calls.count (.mapped elf size)

/-- `run` releases the executable however it comes back, raises what `tried`, the body of
its first `try`, raised, and an exception of `close_elf` only if that raised none. -/
structure Handled {κ α : Type} (host : ExeHost κ) (run tried : Exe κ α) (kernel : κ) : Prop where
  released : wp run
    { ok := fun _ after => Released after.calls
      throw := fun _ after => Released after.calls
      fault := fun _ => True
      noReturn := fun _ => True } (.start kernel)
  first : ∀ ex middle, tried (.start kernel) = .throw ex middle →
    ∃ after, run (.start kernel) = .throw ex after
  second : ∀ ex after, run (.start kernel) = .throw ex after →
    (∃ middle, tried (.start kernel) = .throw ex middle) ∨
      ∃ value middle, tried (.start kernel) = .ok value middle ∧ ex = .ioException ∧
        closeElf host middle.myElf middle = .throw ex after

/-- The calls in front of `mmap` are answered, and `fd` is opened. -/
inductive Opens {κ : Type} (host : ExeHost κ) (kernel : κ) (size : Nat) (fd : Fd)
    (opened : κ) : Prop
  | intro {allocated named sized again : κ}
      (tmpMalloc : host.tmpMalloc kernel = .ok () allocated)
      (getProcPath : host.getProcPath allocated = .ok () named)
      (stat : host.stat named = (some size, sized))
      (large : sizeofElf64Ehdr ≤ size)
      (getProcPath' : host.getProcPath sized = .ok () again)
      (openExe : host.openExe again = (some fd, opened))

/-- `mmap` fails, or maps what is no ELF file. -/
def MappingFails {κ : Type} (host : ExeHost κ) (size : Nat) (fd : Fd) (opened : κ) : Prop :=
  ∀ elf mapped, host.mmap size fd opened = (some elf, mapped) →
    (host.header mapped elf).take 4 ≠ elfMagic

/-- The executable is opened, but then is not mapped or not accepted. -/
def FailsBehindOpen {κ : Type} (host : ExeHost κ) (kernel : κ) : Prop :=
  ∃ size fd opened, Opens host kernel size fd opened ∧ MappingFails host size fd opened

section Steps

variable {κ α β : Type} {host : ExeHost κ} {kernel opened : κ} {size : Nat} {fd : Fd}
  {session : Session κ}

theorem outside_ok {program : Program MyException κ α} {value : α} {after : κ}
    (ends : program session.kernel = .ok value after) :
    outside program session = .ok value { session with kernel := after } := by
  simp only [outside, ends]

theorem wp_outside (program : Program MyException κ α) (post : Post MyException (Session κ) α) :
    wp (outside program) post session ↔
      wp program
        { ok := fun value kernel => post.ok value { session with kernel := kernel }
          throw := fun ex kernel => post.throw ex { session with kernel := kernel }
          fault := fun kernel => post.fault { session with kernel := kernel }
          noReturn := fun kernel => post.noReturn { session with kernel := kernel } }
        session.kernel := by
  unfold wp outside
  cases program session.kernel <;> rfl

theorem system_ok (call : κ → α × κ) {value : α} {after : κ}
    (answers : call session.kernel = (value, after)) :
    system call session = .ok value { session with kernel := after } := by
  simp only [system, answers]

/-- `open_elf` behind the `open`. -/
def behindOpen (host : ExeHost κ) (size : Nat) (fd : Fd) : Exe κ MyElf := do
  let elf ← mapFile host size fd
  let header ← Program.gets fun session => host.header session.kernel elf
  checkHeaderIntegrity header
  return { size, elf, fd, header := elf, sHeaders := elfSectionsHeader elf header }

theorem openElf_opens (opens : Opens host kernel size fd opened) :
    openElf host (.start kernel) =
      behindOpen host size fd { kernel := opened, calls := [.opened fd], myElf := none } := by
  obtain @⟨allocated, named, sized, again, tmpMalloc, getProcPath, stat, large, getProcPath',
    openExe⟩ := opens
  have sizes : elfSize host (.start allocated) = .ok size (.start sized) := by
    unfold elfSize
    rw [Program.bind_ok (outside_ok getProcPath), Program.bind_ok (system_ok _ stat)]
    change (if size < sizeofElf64Ehdr then _ else _ : Exe κ Nat) _ = _
    rw [if_neg (Nat.not_lt.mpr large)]
    rfl
  have file : openFile host (.start sized) =
      .ok fd { kernel := opened, calls := [.opened fd], myElf := none } := by
    unfold openFile
    rw [Program.bind_ok (outside_ok getProcPath'), Program.bind_ok (system_ok _ openExe)]
    rfl
  unfold openElf
  rw [Program.bind_ok (outside_ok tmpMalloc)]
  change (elfSize host >>= _) (.start allocated) = _
  rw [Program.bind_ok sizes, Program.bind_ok file]
  rfl

/-- Nothing was acquired where an exception is raised. -/
abbrev Untouched (ok : α → Session κ → Prop) : Post MyException (Session κ) α where
  ok := ok
  throw _ after := after.calls = [] ∧ after.myElf = none
  fault _ := True
  noReturn _ := True

theorem untouched_outside {program : Program MyException κ β} {next : β → Exe κ α}
    {ok : α → Session κ → Prop}
    (rest : ∀ value after, program kernel = .ok value after →
      wp (next value) (Untouched ok) (.start after)) :
    wp (outside program >>= next) (Untouched ok) (.start kernel) := by
  rw [wp_bind, wp_outside]
  unfold wp
  cases ends : program (Session.start kernel).kernel with
  | ok value after => exact rest value after ends
  | throw ex after => exact ⟨rfl, rfl⟩
  | fault after => trivial
  | noReturn after => trivial

theorem untouched_answered {call : κ → Option β × κ} {next : β → Exe κ α}
    {ok : α → Session κ → Prop}
    (rest : ∀ value after, call kernel = (some value, after) →
      wp (next value) (Untouched ok) (.start after)) :
    wp (system call >>= fun answer => answered answer >>= next) (Untouched ok)
      (.start kernel) := by
  cases answers : call kernel with
  | mk answer after =>
      have called : system call (Session.start kernel) = .ok answer (.start after) :=
        system_ok call answers
      rw [wp_bind_ok called]
      cases answer with
      | none => exact ⟨rfl, rfl⟩
      | some value => exact rest value after answers

theorem elfSize_untouched :
    wp (elfSize host)
      (Untouched fun size after => ∃ named sized, after = .start sized ∧
        host.getProcPath kernel = .ok () named ∧ host.stat named = (some size, sized) ∧
          sizeofElf64Ehdr ≤ size) (.start kernel) := by
  unfold elfSize
  apply untouched_outside
  intro _ named getProcPath
  apply untouched_answered
  intro size sized stat
  rw [wp_ite]
  constructor
  · intro _
    exact ⟨rfl, rfl⟩
  · intro large
    exact ⟨named, sized, rfl, getProcPath, stat, Nat.le_of_not_lt large⟩

/-- Without an open descriptor `open_elf` has nothing to release. -/
theorem openElf_untouched (never : ∀ size fd opened, ¬ Opens host kernel size fd opened) :
    wp (openElf host) (Untouched fun _ _ => False) (.start kernel) := by
  unfold openElf
  apply untouched_outside
  intro _ allocated tmpMalloc
  rw [wp_bind]
  refine wp_mono elfSize_untouched
    ⟨fun size _ sizes => ?_, fun _ _ kept => kept, fun _ _ => trivial, fun _ _ => trivial⟩
  obtain ⟨named, sized, rfl, getProcPath, stat, large⟩ := sizes
  change wp (openFile host >>= _) _ _
  rw [wp_bind]
  unfold openFile
  apply untouched_outside
  intro _ again getProcPath'
  apply untouched_answered
  intro fd opened openExe
  exact (never size fd opened ⟨tmpMalloc, getProcPath, stat, large, getProcPath', openExe⟩).elim

theorem mapFile_refused {mapped : κ} (refused : host.mmap size fd session.kernel = (none, mapped)) :
    mapFile host size fd session = .throw .ioException { session with kernel := mapped } := by
  unfold mapFile
  rw [Program.bind_ok (system_ok _ refused)]
  rfl

theorem mapFile_mapped {elf : Addr} {mapped : κ}
    (maps : host.mmap size fd session.kernel = (some elf, mapped)) :
    mapFile host size fd session =
      .ok elf { session with kernel := mapped, calls := .mapped elf size :: session.calls } := by
  unfold mapFile
  rw [Program.bind_ok (system_ok _ maps)]
  rfl

theorem gets_ok {read : Session κ → β} {next : β → Exe κ α} :
    (Program.gets read >>= next) session = next (read session) session := rfl

/-- Where the mapping fails, what was acquired is left to nobody. -/
theorem behindOpen_fails (fails : MappingFails host size fd opened) :
    ∃ ex after, behindOpen host size fd { kernel := opened, calls := [.opened fd], myElf := none } =
      .throw ex after ∧ after.myElf = none ∧
        (after.calls = [.opened fd] ∨ ∃ elf, after.calls = [.mapped elf size, .opened fd]) := by
  unfold behindOpen
  cases answers : host.mmap size fd opened with
  | mk answer mapped =>
      cases answer with
      | none =>
          rw [Program.bind_throw (mapFile_refused answers)]
          exact ⟨.ioException, { kernel := mapped, calls := [.opened fd], myElf := none }, rfl, rfl,
            .inl rfl⟩
      | some elf =>
          have rejects (session : Session κ) :
              checkHeaderIntegrity (host.header mapped elf) session =
                .throw .elfException session := by
            unfold checkHeaderIntegrity
            rw [if_neg (fails elf mapped answers)]
            rfl
          rw [Program.bind_ok (mapFile_mapped answers), gets_ok, Program.bind_throw (rejects _)]
          exact ⟨.elfException,
            { kernel := mapped, calls := [.mapped elf size, .opened fd], myElf := none }, rfl, rfl,
            .inr ⟨elf, rfl⟩⟩

/-- Otherwise the caller gets a handle of what was acquired. -/
theorem behindOpen_succeeds (succeeds : ¬ MappingFails host size fd opened) :
    ∃ myElf after, behindOpen host size fd
        { kernel := opened, calls := [.opened fd], myElf := none } = .ok myElf after ∧
      after.calls = [.mapped myElf.elf myElf.size, .opened myElf.fd] := by
  unfold MappingFails at succeeds
  push Not at succeeds
  obtain ⟨elf, mapped, maps, accepted⟩ := succeeds
  have accepts (session : Session κ) :
      checkHeaderIntegrity (host.header mapped elf) session = .ok () session := by
    unfold checkHeaderIntegrity
    rw [if_pos accepted]
    rfl
  unfold behindOpen
  rw [Program.bind_ok (mapFile_mapped maps), gets_ok, Program.bind_ok (accepts _)]
  exact ⟨_, _, rfl, rfl⟩

/-! ## The two statements -/

/-- What `close_elf` calls. -/
def releases : Option MyElf → List Call
  | none => []
  | some myElf => [.close myElf.fd, .munmap myElf.elf myElf.size]

/-- What `close_elf` is about to call releases what was acquired. -/
def Accounted (session : Session κ) : Prop := Released (releases session.myElf ++ session.calls)

/-- A handle is released by one `munmap` and one `close`, also where these fail. -/
theorem closeElf_cases (host : ExeHost κ) (myElf : Option MyElf) (session : Session κ) :
    ∃ after : Session κ, after.calls = releases myElf ++ session.calls ∧
      (closeElf host myElf session = .ok () after ∨
        closeElf host myElf session = .throw .ioException after) := by
  cases myElf with
  | none => exact ⟨session, rfl, .inl rfl⟩
  | some myElf =>
      let middle := (host.munmap myElf.elf myElf.size session.kernel).2
      let after : Session κ := { session with
        kernel := (host.close myElf.fd middle).2
        calls := .close myElf.fd :: .munmap myElf.elf myElf.size :: session.calls }
      have runs : closeElf host (some myElf) session =
          (if (host.munmap myElf.elf myElf.size session.kernel).1 ∧
              (host.close myElf.fd middle).1 then pure () else Program.throw .ioException) after :=
        rfl
      refine ⟨after, rfl, ?_⟩
      rw [runs]
      split
      · exact .inl rfl
      · exact .inr rfl

theorem closeBehind_error (host : ExeHost κ) (ex : MyException) (session : Session κ) :
    ∃ after, closeBehind host (.error ex : Except MyException α) session = .throw ex after ∧
      after.calls = releases session.myElf ++ session.calls := by
  obtain ⟨after, calls, closes⟩ := closeElf_cases host session.myElf session
  refine ⟨after, ?_, calls⟩
  unfold closeBehind
  rw [gets_ok, Program.bind_apply, Program.attempt_apply]
  rcases closes with closes | closes
  · rw [closes]
    rfl
  · rw [closes]
    rfl

theorem closeBehind_ok (host : ExeHost κ) (value : α) (session : Session κ) :
    ∃ after, after.calls = releases session.myElf ++ session.calls ∧
      (closeBehind host (.ok value) session = .ok value after ∨
        closeBehind host (.ok value) session = .throw .ioException after ∧
          closeElf host session.myElf session = .throw .ioException after) := by
  obtain ⟨after, calls, closes⟩ := closeElf_cases host session.myElf session
  refine ⟨after, calls, ?_⟩
  unfold closeBehind
  rw [gets_ok, Program.bind_apply, Program.attempt_apply]
  rcases closes with closes | closes
  · rw [closes]
    exact .inl rfl
  · rw [closes]
    exact .inr ⟨rfl, rfl⟩

theorem accounted_untouched (calls : session.calls = []) (myElf : session.myElf = none) :
    Accounted session := by
  unfold Accounted
  rw [calls, myElf]
  exact ⟨fun _ => rfl, fun _ _ => rfl⟩

theorem accounted_acquired {myElf : MyElf}
    (calls : session.calls = [.mapped myElf.elf myElf.size, .opened myElf.fd])
    (handle : session.myElf = some myElf) : Accounted session := by
  unfold Accounted
  rw [calls, handle]
  constructor
  · intro fd
    by_cases same : myElf.fd = fd <;> simp [releases, same]
  · intro elf size
    by_cases same : myElf.elf = elf ∧ myElf.size = size <;> simp [releases, same]

/-- However the body ends, everything acquired is accounted for. -/
theorem openBody_accounted (body : MyElf → Program MyException κ α)
    (succeeds : ¬ FailsBehindOpen host kernel) :
    wp (openBody host body)
      { ok := fun _ => Accounted
        throw := fun _ => Accounted
        fault := fun _ => True
        noReturn := fun _ => True } (.start kernel) := by
  unfold openBody
  by_cases opens : ∃ size fd opened, Opens host kernel size fd opened
  · obtain ⟨size, fd, opened, opens⟩ := opens
    have maps : ¬ MappingFails host size fd opened :=
      fun fails => succeeds ⟨size, fd, opened, opens, fails⟩
    obtain ⟨myElf, after, ends, calls⟩ := behindOpen_succeeds maps
    rw [← openElf_opens opens] at ends
    rw [wp_bind_ok ends]
    change wp (outside (body myElf)) _ { after with myElf := some myElf }
    rw [wp_outside]
    exact wp_any (fun _ _ => accounted_acquired calls rfl)
      (fun _ _ => accounted_acquired calls rfl) (fun _ => trivial) fun _ => trivial
  · push Not at opens
    rw [wp_bind]
    exact wp_mono (openElf_untouched opens)
      ⟨fun _ _ no => no.elim, fun _ _ kept => accounted_untouched kept.1 kept.2,
        fun _ _ => trivial, fun _ _ => trivial⟩

/-- What was opened is not accounted for where the mapping fails. -/
theorem openBody_leaks (body : MyElf → Program MyException κ α)
    (fails : FailsBehindOpen host kernel) :
    ∃ ex after, openBody host body (.start kernel) = .throw ex after ∧ ¬ Accounted after := by
  obtain ⟨size, fd, opened, opens, fails⟩ := fails
  obtain ⟨ex, after, ends, handle, calls⟩ := behindOpen_fails fails
  rw [← openElf_opens opens] at ends
  refine ⟨ex, after, Program.bind_throw ends, ?_⟩
  intro accounted
  have closed := accounted.1 fd
  rw [handle] at closed
  rcases calls with calls | ⟨elf, calls⟩
  · rw [calls] at closed
    simp [releases] at closed
  · rw [calls] at closed
    simp [releases] at closed

theorem safeDwarf_ok {body : MyElf → Program MyException κ α} {value : α} {middle : Session κ}
    (tried : openBody host body session = .ok value middle) :
    safeDwarf host body session = closeBehind host (.ok value) middle := by
  unfold safeDwarf
  rw [Program.attempt_apply, tried]

theorem safeDwarf_throw {body : MyElf → Program MyException κ α} {ex : MyException}
    {middle : Session κ} (tried : openBody host body session = .throw ex middle) :
    safeDwarf host body session = closeBehind host (.error ex) middle := by
  unfold safeDwarf
  rw [Program.attempt_apply, tried]

/-- An exception of the body is kept, and only without one can `close_elf` raise its own. -/
theorem safeDwarf_raises {body : MyElf → Program MyException κ α} {ex : MyException}
    {after : Session κ} (raises : safeDwarf host body session = .throw ex after) :
    (∃ middle, openBody host body session = .throw ex middle) ∨
      ∃ value middle, openBody host body session = .ok value middle ∧ ex = .ioException ∧
        closeElf host middle.myElf middle = .throw ex after := by
  cases tried : openBody host body session with
  | ok value middle =>
      rw [safeDwarf_ok tried] at raises
      obtain ⟨last, _, ends | ⟨ends, closes⟩⟩ := closeBehind_ok host value middle
      · rw [ends] at raises
        cases raises
      · rw [ends] at raises
        obtain ⟨rfl, rfl⟩ := Outcome.throw.inj raises
        exact .inr ⟨value, middle, rfl, rfl, closes⟩
  | throw first middle =>
      rw [safeDwarf_throw tried] at raises
      obtain ⟨last, ends, _⟩ := closeBehind_error (α := α) host first middle
      rw [ends] at raises
      obtain ⟨rfl, rfl⟩ := Outcome.throw.inj raises
      exact .inl ⟨middle, rfl⟩
  | fault middle =>
      unfold safeDwarf at raises
      rw [Program.attempt_apply, tried] at raises
      cases raises
  | noReturn middle =>
      unfold safeDwarf at raises
      rw [Program.attempt_apply, tried] at raises
      cases raises

/-- Whatever the body did, `close_elf` releases the handle and the exception is kept. -/
theorem safeDwarf_handled (body : MyElf → Program MyException κ α)
    (succeeds : ¬ FailsBehindOpen host kernel) :
    Handled host (safeDwarf host body) (openBody host body) kernel where
  released := by
    unfold safeDwarf
    rw [wp_attempt]
    refine wp_mono (openBody_accounted body succeeds)
      ⟨fun value middle accounted => ?_, fun ex middle accounted => ?_, fun _ _ => trivial,
        fun _ _ => trivial⟩
    · obtain ⟨after, calls, ends⟩ := closeBehind_ok host value middle
      have released : Released after.calls := by
        rw [calls]
        exact accounted
      change wp (closeBehind host (.ok value)) _ middle
      unfold wp
      rcases ends with ends | ⟨ends, _⟩
      · rw [ends]
        exact released
      · rw [ends]
        exact released
    · obtain ⟨after, ends, calls⟩ := closeBehind_error (α := α) host ex middle
      have released : Released after.calls := by
        rw [calls]
        exact accounted
      change wp (closeBehind host (.error ex)) _ middle
      unfold wp
      rw [ends]
      exact released
  first ex middle tried := by
    obtain ⟨after, ends, _⟩ := closeBehind_error (α := α) host ex middle
    exact ⟨after, (safeDwarf_throw tried).trans ends⟩
  second _ _ raises := safeDwarf_raises raises

theorem safeDwarf_iff (host : ExeHost κ) (body : MyElf → Program MyException κ α) (kernel : κ) :
    Handled host (safeDwarf host body) (openBody host body) kernel ↔
      ¬ FailsBehindOpen host kernel := by
  constructor
  · intro handled fails
    obtain ⟨ex, middle, raises, leaks⟩ := openBody_leaks body fails
    obtain ⟨after, ends, calls⟩ := closeBehind_error (α := α) host ex middle
    have runs : safeDwarf host body (.start kernel) = .throw ex after := by
      unfold safeDwarf
      rw [Program.attempt_apply, raises]
      exact ends
    have released := handled.released.throw runs
    change Released after.calls at released
    rw [calls] at released
    exact leaks released
  · exact safeDwarf_handled body

/-- Only what was run matters. -/
theorem Handled.congr {run tried other attempted : Exe κ α} {later : κ}
    (runs : run (.start kernel) = other (.start later))
    (tries : tried (.start kernel) = attempted (.start later)) :
    Handled host run tried kernel ↔ Handled host other attempted later := by
  constructor
  · intro handled
    have released := handled.released
    unfold wp at released
    rw [runs] at released
    exact ⟨released, tries ▸ runs ▸ handled.first, tries ▸ runs ▸ handled.second⟩
  · intro handled
    have released := handled.released
    unfold wp at released
    rw [← runs] at released
    exact ⟨released, tries ▸ runs ▸ handled.first, tries ▸ runs ▸ handled.second⟩

/-- An exception in front of the `try` is passed on. -/
theorem handled_throw {run tried : Exe κ α} {ex : MyException} {later : κ}
    (runs : run (.start kernel) = .throw ex (.start later))
    (tries : tried (.start kernel) = .throw ex (.start later)) : Handled host run tried kernel where
  released := by
    unfold wp
    rw [runs]
    exact ⟨fun _ => rfl, fun _ _ => rfl⟩
  first ex middle raises := ⟨middle, runs.trans (tries.symm.trans raises)⟩
  second ex middle raises := .inl ⟨middle, tries.trans (runs.symm.trans raises)⟩

/-- Control does not come back. -/
abbrev LosesControl {ε τ γ : Type} (program : Program ε τ γ) (before : τ) : Prop :=
  wp program ⟨fun _ _ => False, fun _ _ => False, fun _ => True, fun _ => True⟩ before

/-- Nothing is asked then. -/
theorem handled_lost {run tried : Exe κ α} (runs : LosesControl run (.start kernel))
    (tries : LosesControl tried (.start kernel)) : Handled host run tried kernel where
  released := wp_mono runs ⟨fun _ _ no => no.elim, fun _ _ no => no.elim, fun _ _ => trivial,
    fun _ _ => trivial⟩
  first _ _ raises := (tries.throw raises).elim
  second _ _ raises := (runs.throw raises).elim

theorem losesControl_outside {program : Program MyException κ β}
    (stuck : LosesControl program kernel) (next : β → Exe κ α) :
    LosesControl (outside program >>= next) (.start kernel) := by
  unfold LosesControl
  rw [wp_bind, wp_outside]
  exact wp_mono stuck
    ⟨fun _ _ no => no.elim, fun _ _ no => no, fun _ lost => lost, fun _ lost => lost⟩

theorem LosesControl.handled {program : Program MyException κ β}
    (stuck : LosesControl program kernel) (run tried : β → Exe κ α) :
    Handled host (outside program >>= run) (outside program >>= tried) kernel :=
  handled_lost (losesControl_outside stuck run) (losesControl_outside stuck tried)

/-- What runs in front of the `try` has nothing to release. -/
theorem handled_outside {program : Program MyException κ β} {run tried : β → Exe κ α} :
    Handled host (outside program >>= run) (outside program >>= tried) kernel ↔
      ∀ value after, program kernel = .ok value after →
        Handled host (run value) (tried value) after := by
  cases ends : program kernel with
  | ok value after =>
      have passed : outside program (.start kernel) = .ok value (.start after) := outside_ok ends
      rw [Handled.congr (Program.bind_ok passed) (Program.bind_ok passed)]
      constructor
      · rintro handled _ _ ⟨⟩
        exact handled
      · intro handled
        exact handled value after rfl
  | throw ex after =>
      have raised : outside program (.start kernel) = .throw ex (.start after) := by
        simp only [outside, Session.start, ends]
      refine iff_of_true (handled_throw (Program.bind_throw raised) (Program.bind_throw raised)) ?_
      rintro _ _ ⟨⟩
  | fault after =>
      have stuck : LosesControl program kernel := by
        unfold LosesControl wp
        rw [ends]
        trivial
      exact iff_of_true (stuck.handled run tried) nofun
  | noReturn after =>
      have stuck : LosesControl program kernel := by
        unfold LosesControl wp
        rw [ends]
        trivial
      exact iff_of_true (stuck.handled run tried) nofun

/-- The executable is released unless it was opened and `open_elf` fails after all. -/
theorem executable_released_iff (host : ExeHost κ) (function file : List Byte) (line : BitVec 32)
    (kernel : κ) :
    (Handled host (getAddress host function) (openBody host (host.getAddressInternal function))
        kernel ↔ ¬ FailsBehindOpen host kernel) ∧
      (Handled host (printLine host) (do
          let addr ← outside host.getRegister
          openBody host fun elf => host.printLineAtAddr elf addr) kernel ↔
        ∀ addr after, host.getRegister kernel = .ok addr after → ¬ FailsBehindOpen host after) ∧
      (Handled host (getLineAddress host file line)
          (openBody host fun elf => host.getLineAddressInternal elf file line) kernel ↔
        ¬ FailsBehindOpen host kernel) := by
  refine ⟨safeDwarf_iff host _ kernel, ?_, safeDwarf_iff host _ kernel⟩
  unfold printLine
  rw [handled_outside]
  simp only [safeDwarf_iff]

end Steps

/-! ## An executable that cannot be mapped -/

/-- `mmap` finds no room; everything else succeeds. -/
def noRoom : ExeHost Unit where
  tmpMalloc := pure ()
  getProcPath := pure ()
  getRegister := pure 0
  stat := fun kernel => (some 4096, kernel)
  openExe := fun kernel => (some 3, kernel)
  mmap := fun _ _ kernel => (none, kernel)
  munmap := fun _ _ kernel => (true, kernel)
  close := fun _ kernel => (true, kernel)
  header := fun _ _ => elfMagic ++ List.replicate 60 0
  getAddressInternal := fun _ _ => pure 0
  printLineAtAddr := fun _ _ => pure ()
  getLineAddressInternal := fun _ _ _ => pure 0

/-- The descriptor is still open when `IOException` is raised. -/
theorem noRoom_leaks :
    getAddress noRoom [] (.start ()) =
        .throw .ioException { kernel := (), calls := [.opened 3], myElf := none } ∧
      ¬ Handled noRoom (getAddress noRoom [])
        (openBody noRoom (noRoom.getAddressInternal [])) () := by
  have runs : getAddress noRoom [] (.start ()) =
      .throw .ioException { kernel := (), calls := [.opened 3], myElf := none } := rfl
  refine ⟨runs, fun handled => ?_⟩
  have closed := (handled.released.throw runs).1 3
  revert closed
  decide

end MyDbg.Infos
