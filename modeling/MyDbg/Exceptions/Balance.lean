import MyDbg.Exceptions.Propagation
import Mathlib.Data.List.Nodup

/-!
Contract: the list of environments over whole programs.

Owns: programs of functions that call each other, with statements that leave a
`try` by `goto` or `return` behind their own `delete_env`; the environments as
objects of their own, so that one already removed can be told from one that is
active; what a program means where every exception ends all statements up to the
innermost `try`; and that environments are put on and taken off in balance, and
exceptions arrive as they should.

Does not own: the clause an exception selects, which is the one of
`Clauses.arm`.
-/

namespace MyDbg.Exceptions

open ProgramLogic

/-! ## Programs -/

/-- Statements over data `σ` that call functions named in `φ`. -/
inductive Code (σ φ : Type) where
  | act (update : MyException → σ → σ)
  | throw (which : MyException → σ → Thrown)
  | seq (first second : Code σ φ)
  | ite (condition : MyException → σ → Bool) (yes no : Code σ φ)
  | call (function : φ)
  /-- `final` is the block of `finally`. -/
  | tryCatch (body : Code σ φ) (clauses : List (Caught × Code σ φ)) (final : Option (Code σ φ))
  /-- `delete_env()` for each of the innermost `levels` statements of the function,
  then `goto` behind the last of them. -/
  | leave (levels : Nat)
  /-- `delete_env()` for each statement of the function around it, then `return`. -/
  | return

variable {σ φ : Type}

/-- `break` leads out of the loop and into `default`, if there is one. -/
def closeWith (final : Option (Code σ φ)) (stmt : Code σ φ) : Code σ φ :=
  match final with
  | some block => .seq stmt block
  | none => stmt

/-- What the `switch` runs for an exception. -/
def armOf (clauses : List (Caught × Code σ φ)) (final : Option (Code σ φ)) (thrown : Thrown) :
    Option (Code σ φ) :=
  match clauses.find? fun clause => clause.1.has thrown with
  | some clause => some (closeWith final clause.2)
  | none => final

/-! ## Machines -/

/-- A call of `throw_exception`: the environments of the statements whose `etry` was not
reached, innermost first; those removed before; and where it jumped to, if anywhere. -/
structure Throw where
  active : List Nat
  removed : List Nat
  target : Option Nat

/-- An environment is a number, another one for every execution of a `try`. -/
structure Machine (σ : Type) where
  data : σ
  list : List Nat
  next : Nat
  /-- Newest first; no statement reads them. -/
  removed : List Nat
  throws : List Throw

/-- The machine when the program starts. -/
def Machine.init (data : σ) : Machine σ where
  data := data
  list := []
  next := 0
  removed := []
  throws := []

/-- `ex_depth`. -/
def Machine.exDepth (machine : Machine σ) : Nat := machine.list.length

/-- Ways out of a statement other than its end. A `goto` counts the statements of the
function it has yet to leave. -/
inductive Way where
  | longjmp (env : Nat) (thrown : Thrown)
  | errx (thrown : Thrown)
  | goto (levels : Nat)
  | return
deriving DecidableEq

abbrev Machinery (σ : Type) := Program Way (Machine σ)

def newEnv : Machinery σ Nat := fun machine =>
  .ok machine.next { machine with list := machine.next :: machine.list, next := machine.next + 1 }

/-- `list` is not checked for NULL. -/
def deleteEnv : Machinery σ Unit := fun machine =>
  match machine.list with
  | [] => .fault machine
  | env :: rest => .ok () { machine with list := rest, removed := env :: machine.removed }

def deleteEnvs : Nat → Machinery σ Unit
  | 0 => pure ()
  | levels + 1 => do
      deleteEnv
      deleteEnvs levels

/-- Note a call of `throw_exception`. -/
def Machine.noting (machine : Machine σ) (active : List Nat) : Machine σ :=
  { machine with throws := ⟨active, machine.removed, machine.list.head?⟩ :: machine.throws }

/-- `active` is only noted down. -/
def throwException (active : List Nat) (thrown : Thrown) : Machinery σ Unit := fun machine =>
  match machine.list with
  | [] => .throw (.errx thrown) (machine.noting active)
  | env :: _ => .throw (.longjmp env thrown) (machine.noting active)

/-- `setjmp` returns once more whenever there is a jump to `env`. -/
def setjmp (env : Nat) (switch : Thrown → Machinery σ Unit) :
    Nat → Machinery σ Unit → Machinery σ Unit
  | 0, _ => Program.noReturn
  | fuel + 1, program =>
      Program.attempt program pure fun way =>
        match way with
        | .longjmp target thrown =>
            if target = env then setjmp env switch fuel (switch thrown)
            else Program.throw (.longjmp target thrown)
        | other => Program.throw other

/-- A `goto` arrives behind the statement it leaves last. -/
def land : Way → Machinery σ Unit
  | .goto 0 => pure ()
  | .goto (levels + 1) => Program.throw (.goto levels)
  | other => Program.throw other

/-- `fuel` bounds the nesting, the calls and the number of jumps to one statement;
`active` are the environments of the statements around this one in any function, and
`inside` counts those of its own function. -/
def Code.run (bodies : φ → Code σ φ) :
    Nat → List Nat → Nat → MyException → Code σ φ → Machinery σ Unit
  | 0, _, _, _, _ => Program.noReturn
  | _ + 1, _, _, ex, .act update =>
      Program.modify fun machine => { machine with data := update ex machine.data }
  | _ + 1, active, _, ex, .throw which => do
      let data ← Program.gets Machine.data
      throwException active (which ex data)
  | fuel + 1, active, inside, ex, .seq first second => do
      Code.run bodies fuel active inside ex first
      Code.run bodies fuel active inside ex second
  | fuel + 1, active, inside, ex, .ite condition yes no => do
      let data ← Program.gets Machine.data
      if condition ex data then Code.run bodies fuel active inside ex yes
      else Code.run bodies fuel active inside ex no
  | fuel + 1, active, _, _, .call function =>
      (Code.run bodies fuel active 0 .none (bodies function)).attempt pure fun way =>
        if way = .return then pure () else Program.throw way
  | fuel + 1, active, inside, _, .tryCatch body clauses final =>
      (do
        let env ← newEnv
        setjmp env
          (fun thrown =>
            match armOf clauses final thrown with
            | some stmt => Code.run bodies fuel (env :: active) (inside + 1) thrown.1 stmt
            | none => pure ())
          fuel (Code.run bodies fuel (env :: active) (inside + 1) .none (closeWith final body))
        deleteEnv).attempt pure land
  | _ + 1, _, inside, _, .leave levels => do
      deleteEnvs (min levels inside)
      if min levels inside = 0 then pure () else Program.throw (.goto (min levels inside - 1))
  | _ + 1, _, inside, _, .return => do
      deleteEnvs inside
      Program.throw .return

/-! ## What a program means -/

/-- Ways out of a statement, where an exception goes to the `try` around it. -/
inductive Ending where
  | raised (thrown : Thrown)
  | goto (levels : Nat)
  | return

/-- A meaning has no list of environments. -/
abbrev Meaning (σ : Type) := Program Ending σ

/-- A `try` gets every exception that leaves its body or one of its clauses. -/
def catching (switch : Thrown → Meaning σ Unit) : Nat → Meaning σ Unit → Meaning σ Unit
  | 0, _ => Program.noReturn
  | fuel + 1, program =>
      Program.attempt program pure fun ending =>
        match ending with
        | .raised thrown => catching switch fuel (switch thrown)
        | other => Program.throw other

def landing : Ending → Meaning σ Unit
  | .goto 0 => pure ()
  | .goto (levels + 1) => Program.throw (.goto levels)
  | other => Program.throw other

/-- Each `throw` ends all statements up to the innermost `try` around it, across calls. -/
def Code.eval (bodies : φ → Code σ φ) : Nat → Nat → MyException → Code σ φ → Meaning σ Unit
  | 0, _, _, _ => Program.noReturn
  | _ + 1, _, ex, .act update => Program.modify (update ex)
  | _ + 1, _, ex, .throw which => do
      let data ← Program.gets id
      Program.throw (.raised (which ex data))
  | fuel + 1, inside, ex, .seq first second => do
      Code.eval bodies fuel inside ex first
      Code.eval bodies fuel inside ex second
  | fuel + 1, inside, ex, .ite condition yes no => do
      let data ← Program.gets id
      if condition ex data then Code.eval bodies fuel inside ex yes
      else Code.eval bodies fuel inside ex no
  | fuel + 1, _, _, .call function =>
      (Code.eval bodies fuel 0 .none (bodies function)).attempt pure fun ending =>
        match ending with
        | .return => pure ()
        | other => Program.throw other
  | fuel + 1, inside, _, .tryCatch body clauses final =>
      (catching
        (fun thrown =>
          match armOf clauses final thrown with
          | some stmt => Code.eval bodies fuel (inside + 1) thrown.1 stmt
          | none => pure ())
        fuel (Code.eval bodies fuel (inside + 1) .none (closeWith final body))).attempt pure landing
  | _ + 1, inside, _, .leave levels =>
      if min levels inside = 0 then pure () else Program.throw (.goto (min levels inside - 1))
  | _ + 1, _, _, .return => Program.throw .return

def Way.ending : Way → Ending
  | .longjmp _ thrown => .raised thrown
  | .errx thrown => .raised thrown
  | .goto levels => .goto levels
  | .return => .return

/-- What can be seen of an outcome without the list of environments. -/
def seen : Outcome Way (Machine σ) Unit → Outcome Ending σ Unit
  | .ok _ after => .ok () after.data
  | .throw way after => .throw way.ending after.data
  | .fault after => .fault after.data
  | .noReturn after => .noReturn after.data

/-! ## Balance -/

/-- The exception went to the innermost active statement, whose environment was not
removed; to none if there was none. -/
structure Throw.Right (throw : Throw) : Prop where
  target : throw.target = throw.active.head?
  live : ∀ env ∈ throw.target, env ∉ throw.removed

/-- The environments are different ones, and so far every exception went right. -/
structure Machine.Sane (machine : Machine σ) : Prop where
  nodup : (machine.list ++ machine.removed).Nodup
  older : ∀ env ∈ machine.list ++ machine.removed, env < machine.next
  throws : ∀ throw ∈ machine.throws, throw.Right

/-- The list of environments where a statement is left. -/
def Way.Leaves (active : List Nat) (inside : Nat) (list : List Nat) : Way → Prop
  | .longjmp env _ => list = active ∧ active.head? = some env
  | .errx _ => list = active ∧ active = []
  | .goto levels => levels < inside ∧ list = active.drop (levels + 1)
  | .return => list = active.drop inside

/-- A statement leaves the environments it found, or those of the statements it does
not leave. -/
def Settles (active : List Nat) (inside : Nat) : Post Way (Machine σ) Unit where
  ok _ after := after.list = active ∧ after.Sane
  throw way after := way.Leaves active inside after.list ∧ after.Sane
  fault _ := False
  noReturn after := after.Sane

section Balance

variable {bodies : φ → Code σ φ} {active : List Nat} {inside env fuel : Nat}
  {machine : Machine σ}

theorem sane_init (data : σ) : (Machine.init data).Sane where
  nodup := List.nodup_nil
  older env member := by cases member
  throws throw member := by cases member

theorem newEnv_settles (sane : machine.Sane) :
    wp (newEnv : Machinery σ Nat)
      { ok := fun env after => after.list = env :: machine.list ∧ after.Sane
        throw := fun _ _ => False
        fault := fun _ => False
        noReturn := fun _ => False } machine := by
  refine ⟨rfl, ?_, ?_, sane.throws⟩
  · have fresh : machine.next ∉ machine.list ++ machine.removed :=
      fun member => Nat.lt_irrefl _ (sane.older _ member)
    exact List.nodup_cons.mpr ⟨fresh, sane.nodup⟩
  · intro env member
    rcases List.mem_cons.mp member with rfl | old
    · exact Nat.lt_succ_self _
    · exact Nat.lt_succ_of_lt (sane.older env old)

theorem deleteEnv_settles {rest : List Nat} (found : machine.list = env :: rest)
    (sane : machine.Sane) :
    wp (deleteEnv : Machinery σ Unit)
      { ok := fun _ after => after.list = rest ∧ after.Sane
        throw := fun _ _ => False
        fault := fun _ => False
        noReturn := fun _ => False } machine := by
  have moved : (rest ++ env :: machine.removed).Perm (machine.list ++ machine.removed) := by
    rw [found]
    exact List.perm_middle
  unfold wp deleteEnv
  rw [found]
  refine ⟨rfl, moved.nodup_iff.mpr sane.nodup, fun other member => ?_, sane.throws⟩
  exact sane.older other (moved.mem_iff.mp member)

theorem deleteEnvs_settles {levels : Nat} (within : levels ≤ machine.list.length)
    (sane : machine.Sane) :
    wp (deleteEnvs levels : Machinery σ Unit)
      { ok := fun _ after => after.list = machine.list.drop levels ∧ after.Sane
        throw := fun _ _ => False
        fault := fun _ => False
        noReturn := fun _ => False } machine := by
  induction levels generalizing machine with
  | zero => exact ⟨rfl, sane⟩
  | succ levels inductionHypothesis =>
      cases found : machine.list with
      | nil => simp [found] at within
      | cons env rest =>
          rw [deleteEnvs, wp_bind]
          refine wp_mono (deleteEnv_settles found sane)
            ⟨fun _ after deleted => ?_, fun _ _ never => never, fun _ never => never,
              fun _ never => never⟩
          obtain ⟨same, kept⟩ := deleted
          rw [found, List.length_cons] at within
          have left : wp (deleteEnvs levels) _ after :=
            inductionHypothesis (by rw [same]; omega) kept
          rw [same] at left
          exact left

/-- What is first in the list was not removed. -/
theorem noting_sane (same : machine.list = active) (sane : machine.Sane) :
    (machine.noting active).Sane where
  nodup := sane.nodup
  older := sane.older
  throws throw member := by
    rcases List.mem_cons.mp member with rfl | old
    · refine ⟨congrArg List.head? same, fun env first removed => ?_⟩
      have apart := List.disjoint_of_nodup_append sane.nodup
      exact apart (List.mem_of_mem_head? first) removed
    · exact sane.throws throw old

/-- An exception goes to the first environment of the list. -/
theorem throwException_settles (thrown : Thrown) (same : machine.list = active)
    (sane : machine.Sane) :
    wp (throwException active thrown) (Settles active inside) machine := by
  have noted := noting_sane same sane
  unfold wp throwException
  cases active with
  | nil =>
      rw [same]
      exact ⟨⟨same, rfl⟩, noted⟩
  | cons env rest =>
      rw [same]
      exact ⟨⟨same, rfl⟩, noted⟩

/-- A statement that was jumped to ends, or is left on purpose. -/
def Returns (env : Nat) (active : List Nat) (inside : Nat) : Post Way (Machine σ) Unit where
  ok _ after := after.list = env :: active ∧ after.Sane
  throw way after :=
    ((∃ levels, way = .goto levels) ∨ way = .return) ∧
      way.Leaves (env :: active) (inside + 1) after.list ∧ after.Sane
  fault _ := False
  noReturn after := after.Sane

theorem setjmp_settles {switch : Thrown → Machinery σ Unit} {program : Machinery σ Unit}
    (jumps : ∀ thrown (machine : Machine σ), machine.list = env :: active → machine.Sane →
      wp (switch thrown) (Settles (env :: active) (inside + 1)) machine)
    (sane : machine.Sane)
    (starts : wp program (Settles (env :: active) (inside + 1)) machine) :
    wp (setjmp env switch fuel program) (Returns env active inside) machine := by
  induction fuel generalizing program machine with
  | zero => exact sane
  | succ fuel inductionHypothesis =>
      rw [setjmp, wp_attempt]
      refine wp_mono starts ⟨fun _ _ kept => kept, fun way after left => ?_,
        fun _ never => never, fun _ kept => kept⟩
      obtain ⟨leaves, kept⟩ := left
      cases way with
      | longjmp target thrown =>
          obtain ⟨same, first⟩ := leaves
          obtain rfl : env = target := Option.some.inj first
          show wp (if env = env then setjmp env switch fuel (switch thrown)
            else Program.throw (.longjmp env thrown)) (Returns env active inside) after
          rw [if_pos rfl]
          exact inductionHypothesis kept (jumps thrown after same kept)
      | errx thrown => exact absurd leaves.2 (List.cons_ne_nil _ _)
      | goto levels => exact ⟨.inl ⟨levels, rfl⟩, leaves, kept⟩
      | «return» => exact ⟨.inr rfl, leaves, kept⟩

/-- A `try` statement takes its environment off again, however it is left. -/
theorem tryCatch_settles {switch : Nat → Thrown → Machinery σ Unit}
    {program : Nat → Machinery σ Unit} (same : machine.list = active) (sane : machine.Sane)
    (jumps : ∀ env thrown (machine : Machine σ), machine.list = env :: active → machine.Sane →
      wp (switch env thrown) (Settles (env :: active) (inside + 1)) machine)
    (starts : ∀ env (machine : Machine σ), machine.list = env :: active → machine.Sane →
      wp (program env) (Settles (env :: active) (inside + 1)) machine) :
    wp ((do
        let env ← newEnv
        setjmp env (switch env) fuel (program env)
        deleteEnv).attempt pure land) (Settles active inside) machine := by
  rw [wp_attempt]
  simp only [wp_bind]
  refine wp_mono (newEnv_settles sane) ⟨fun env entered added => ?_, fun _ _ never => never.elim,
    fun _ never => never.elim, fun _ never => never.elim⟩
  obtain ⟨top, kept⟩ := added
  rw [same] at top
  refine wp_mono (setjmp_settles (jumps env) kept (starts env entered top kept))
    ⟨fun _ ended ends => ?_, fun way left leaves => ?_, fun _ never => never, fun _ lost => lost⟩
  · exact wp_mono (deleteEnv_settles ends.1 ends.2) ⟨fun _ _ deleted => deleted,
      fun _ _ never => never.elim, fun _ never => never.elim, fun _ never => never.elim⟩
  · obtain ⟨⟨levels, rfl⟩ | rfl, leaves, kept⟩ := leaves
    · obtain ⟨within, list⟩ := leaves
      cases levels with
      | zero => exact ⟨list, kept⟩
      | succ levels => exact ⟨⟨Nat.lt_of_succ_lt_succ within, list⟩, kept⟩
    · exact ⟨leaves, kept⟩

/-- A function puts back the environments it was called with. -/
theorem call_settles {program : Machinery σ Unit}
    (runs : wp program (Settles active 0) machine) :
    wp (program.attempt pure fun way => if way = .return then pure () else Program.throw way)
      (Settles active inside) machine := by
  rw [wp_attempt]
  refine wp_mono runs ⟨fun _ _ kept => kept, fun way after left => ?_, fun _ never => never,
    fun _ kept => kept⟩
  obtain ⟨leaves, kept⟩ := left
  by_cases returns : way = .return
  · subst returns
    exact ⟨leaves, kept⟩
  · show wp (if way = .return then pure () else Program.throw way) (Settles active inside) after
    rw [if_neg returns]
    refine ⟨?_, kept⟩
    cases way with
    | longjmp env thrown => exact leaves
    | errx thrown => exact leaves
    | goto levels => exact absurd leaves.1 (Nat.not_lt_zero levels)
    | «return» => exact absurd rfl returns

/-- A jump deletes the environments of the statements it leaves. -/
theorem leave_settles (bodies : φ → Code σ φ) (fuel levels : Nat) (ex : MyException)
    (same : machine.list = active) (sane : machine.Sane) (within : inside ≤ active.length) :
    wp ((Code.leave levels).run bodies (fuel + 1) active inside ex) (Settles active inside)
      machine := by
  rw [Code.run, wp_bind]
  have atMost : min levels inside ≤ machine.list.length := by rw [same]; omega
  refine wp_mono (deleteEnvs_settles atMost sane) ⟨fun _ after left => ?_,
    fun _ _ never => never.elim, fun _ never => never, fun _ never => never.elim⟩
  obtain ⟨list, kept⟩ := left
  rw [same] at list
  by_cases none : min levels inside = 0
  · simp only [if_pos none]
    rw [none] at list
    exact ⟨list, kept⟩
  · simp only [if_neg none]
    refine ⟨⟨by omega, ?_⟩, kept⟩
    rw [Nat.sub_add_cancel (Nat.pos_of_ne_zero none), list]

theorem return_settles (bodies : φ → Code σ φ) (fuel : Nat) (ex : MyException)
    (same : machine.list = active) (sane : machine.Sane) (within : inside ≤ active.length) :
    wp (Code.«return».run bodies (fuel + 1) active inside ex) (Settles active inside)
      machine := by
  rw [Code.run, wp_bind]
  have atMost : inside ≤ machine.list.length := by rw [same]; exact within
  refine wp_mono (deleteEnvs_settles atMost sane) ⟨fun _ after left => ?_,
    fun _ _ never => never.elim, fun _ never => never, fun _ never => never.elim⟩
  rw [same] at left
  exact left

theorem arm_settles {run : Code σ φ → Machinery σ Unit} {clauses : List (Caught × Code σ φ)}
    {final : Option (Code σ φ)} {thrown : Thrown} (same : machine.list = active)
    (sane : machine.Sane) (runs : ∀ stmt, wp (run stmt) (Settles active inside) machine) :
    wp (match armOf clauses final thrown with
      | some stmt => run stmt
      | none => pure ()) (Settles active inside) machine := by
  cases armOf clauses final thrown with
  | none => exact ⟨same, sane⟩
  | some stmt => exact runs stmt

/-- Every statement leaves the environments it found, or those of the statements it
does not leave. -/
theorem run_settles (bodies : φ → Code σ φ) (fuel : Nat) (active : List Nat) (inside : Nat)
    (ex : MyException) (stmt : Code σ φ) (machine : Machine σ) (same : machine.list = active)
    (sane : machine.Sane) (within : inside ≤ active.length) :
    wp (stmt.run bodies fuel active inside ex) (Settles active inside) machine := by
  induction fuel generalizing active inside ex stmt machine with
  | zero => exact sane
  | succ fuel inductionHypothesis =>
      cases stmt with
      | act update => exact ⟨same, sane.nodup, sane.older, sane.throws⟩
      | throw which => exact throwException_settles _ same sane
      | seq first second =>
          rw [Code.run, wp_bind]
          exact wp_mono (inductionHypothesis active inside ex first machine same sane within)
            ⟨fun _ after kept =>
                inductionHypothesis active inside ex second after kept.1 kept.2 within,
              fun _ _ left => left, fun _ never => never, fun _ kept => kept⟩
      | ite condition yes no =>
          rw [Code.run]
          simp only [wp_bind, wp_gets, wp_ite]
          exact ⟨fun _ => inductionHypothesis active inside ex yes machine same sane within,
            fun _ => inductionHypothesis active inside ex no machine same sane within⟩
      | call function =>
          rw [Code.run]
          exact call_settles (inductionHypothesis active 0 .none (bodies function) machine same sane
            (Nat.zero_le _))
      | tryCatch body clauses final =>
          have deeper {env : Nat} : inside + 1 ≤ (env :: active).length := Nat.succ_le_succ within
          rw [Code.run]
          exact tryCatch_settles same sane
            (fun env thrown entered top kept => arm_settles top kept fun stmt =>
              inductionHypothesis (env :: active) (inside + 1) thrown.1 stmt entered top kept
                deeper)
            fun env entered top kept =>
              inductionHypothesis (env :: active) (inside + 1) .none _ entered top kept deeper
      | leave levels => exact leave_settles bodies fuel levels ex same sane within
      | «return» => exact return_settles bodies fuel ex same sane within

/-! ### Exceptions arrive -/

/-- From this machine on, `program` does what `meaning` says. -/
def Follows (program : Machinery σ Unit) (meaning : Meaning σ Unit) (machine : Machine σ) : Prop :=
  seen (program machine) = meaning machine.data

/-- Statements in a row; behind the first of them the list is the one it found. -/
theorem follows_bind {first second : Machinery σ Unit} {before after : Meaning σ Unit}
    (settles : wp first (Settles active inside) machine) (follows : Follows first before machine)
    (rest : ∀ middle : Machine σ, middle.list = active → middle.Sane →
      Follows second after middle) :
    Follows (first >>= fun _ => second) (before >>= fun _ => after) machine := by
  unfold Follows wp at *
  cases outcome : first machine with
  | ok value middle =>
      rw [outcome] at settles follows
      rw [Program.bind_ok outcome, Program.bind_ok follows.symm]
      exact rest middle settles.1 settles.2
  | throw way middle =>
      rw [outcome] at follows
      rw [Program.bind_throw outcome, Program.bind_throw follows.symm]
      rfl
  | fault middle =>
      rw [outcome] at follows
      rw [Program.bind_apply, Program.bind_apply, outcome, ← follows]
      rfl
  | noReturn middle =>
      rw [outcome] at follows
      rw [Program.bind_apply, Program.bind_apply, outcome, ← follows]
      rfl

/-- Ways out are dealt with alike. -/
theorem follows_attempt {program : Machinery σ Unit} {meaning : Meaning σ Unit}
    {post : Post Way (Machine σ) Unit} {handles : Way → Machinery σ Unit}
    {handled : Ending → Meaning σ Unit} (proved : wp program post machine)
    (follows : Follows program meaning machine)
    (ways : ∀ way after, post.throw way after → Follows (handles way) (handled way.ending) after) :
    Follows (program.attempt pure handles) (meaning.attempt pure handled) machine := by
  unfold Follows wp at *
  rw [Program.attempt_apply, Program.attempt_apply, ← follows]
  cases outcome : program machine with
  | ok value after => rfl
  | throw way after =>
      rw [outcome] at proved
      exact ways way after proved
  | fault after => rfl
  | noReturn after => rfl

/-- A jump to the environment of a statement arrives there. -/
theorem follows_setjmp {switch : Thrown → Machinery σ Unit} {program : Machinery σ Unit}
    {switched : Thrown → Meaning σ Unit} {meaning : Meaning σ Unit}
    (settles : ∀ thrown (machine : Machine σ), machine.list = env :: active → machine.Sane →
      wp (switch thrown) (Settles (env :: active) (inside + 1)) machine)
    (jumps : ∀ thrown (machine : Machine σ), machine.list = env :: active → machine.Sane →
      Follows (switch thrown) (switched thrown) machine)
    (starts : wp program (Settles (env :: active) (inside + 1)) machine)
    (follows : Follows program meaning machine) :
    Follows (setjmp env switch fuel program) (catching switched fuel meaning) machine := by
  induction fuel generalizing program meaning machine with
  | zero => rfl
  | succ fuel inductionHypothesis =>
      rw [setjmp, catching]
      refine follows_attempt starts follows fun way after left => ?_
      obtain ⟨leaves, kept⟩ := left
      cases way with
      | longjmp target thrown =>
          obtain ⟨same, first⟩ := leaves
          obtain rfl : env = target := Option.some.inj first
          show Follows (if env = env then setjmp env switch fuel (switch thrown)
            else Program.throw (.longjmp env thrown))
            (catching switched fuel (switched thrown)) after
          rw [if_pos rfl]
          exact inductionHypothesis (settles thrown after same kept) (jumps thrown after same kept)
      | errx thrown => exact absurd leaves.2 (List.cons_ne_nil _ _)
      | goto levels => rfl
      | «return» => rfl

theorem follows_land (way : Way) : Follows (land way) (landing way.ending) machine := by
  cases way with
  | longjmp env thrown => rfl
  | errx thrown => rfl
  | goto levels => cases levels <;> rfl
  | «return» => rfl

/-- Deleting environments cannot be seen. -/
theorem deleteEnvs_unseen {levels : Nat} (within : levels ≤ machine.list.length) :
    ∃ after : Machine σ, deleteEnvs levels machine = .ok () after ∧ after.data = machine.data := by
  induction levels generalizing machine with
  | zero => exact ⟨machine, rfl, rfl⟩
  | succ levels inductionHypothesis =>
      cases found : machine.list with
      | nil => simp [found] at within
      | cons env rest =>
          have deletes : deleteEnv machine =
              .ok () { machine with list := rest, removed := env :: machine.removed } := by
            unfold deleteEnv
            rw [found]
          rw [found, List.length_cons] at within
          obtain ⟨after, ends, same⟩ := @inductionHypothesis
            { machine with list := rest, removed := env :: machine.removed }
            (Nat.le_of_succ_le_succ within)
          refine ⟨after, ?_, same⟩
          rw [deleteEnvs, Program.bind_ok deletes]
          exact ends

/-- What a `try` statement adds to its parts cannot be seen. -/
theorem follows_tryCatch {switch : Nat → Thrown → Machinery σ Unit}
    {program : Nat → Machinery σ Unit} {switched : Thrown → Meaning σ Unit}
    {meaning : Meaning σ Unit} (same : machine.list = active) (sane : machine.Sane)
    (settles : ∀ env thrown (machine : Machine σ), machine.list = env :: active → machine.Sane →
      wp (switch env thrown) (Settles (env :: active) (inside + 1)) machine)
    (jumps : ∀ env thrown (machine : Machine σ), machine.list = env :: active → machine.Sane →
      Follows (switch env thrown) (switched thrown) machine)
    (starts : ∀ env (machine : Machine σ), machine.list = env :: active → machine.Sane →
      wp (program env) (Settles (env :: active) (inside + 1)) machine ∧
        Follows (program env) meaning machine) :
    Follows ((do
        let env ← newEnv
        setjmp env (switch env) fuel (program env)
        deleteEnv).attempt pure land) ((catching switched fuel meaning).attempt pure landing)
      machine := by
  obtain ⟨entered, enters, unseen⟩ : ∃ entered : Machine σ,
      newEnv machine = .ok machine.next entered ∧ entered.data = machine.data := ⟨_, rfl, rfl⟩
  have added := newEnv_settles sane
  unfold wp at added
  rw [enters] at added
  obtain ⟨top, kept⟩ := added
  rw [same] at top
  obtain ⟨begins, follows⟩ := starts machine.next entered top kept
  have ends : wp (setjmp machine.next (switch machine.next) fuel (program machine.next))
      (Returns machine.next active inside) entered :=
    setjmp_settles (settles machine.next) kept begins
  have arrives : Follows _ (catching switched fuel meaning) entered :=
    follows_setjmp (settles machine.next) (jumps machine.next) begins follows
  unfold Follows wp at *
  rw [Program.attempt_apply, Program.attempt_apply, Program.bind_ok enters, ← unseen, ← arrives,
    Program.bind_apply]
  cases outcome : setjmp machine.next (switch machine.next) fuel (program machine.next) entered with
  | ok value after =>
      rw [outcome] at ends
      have deletes : deleteEnv after =
          .ok () { after with list := active, removed := machine.next :: after.removed } := by
        unfold deleteEnv
        rw [ends.1]
      simp only [deletes]
      rfl
  | throw way after => exact follows_land way
  | fault after => rfl
  | noReturn after => rfl

/-- Every statement does what it means: whoever throws, the innermost `try` gets the
exception. -/
theorem run_follows (bodies : φ → Code σ φ) (fuel : Nat) (active : List Nat) (inside : Nat)
    (ex : MyException) (stmt : Code σ φ) (machine : Machine σ) (same : machine.list = active)
    (sane : machine.Sane) (within : inside ≤ active.length) :
    Follows (stmt.run bodies fuel active inside ex) (stmt.eval bodies fuel inside ex) machine := by
  induction fuel generalizing active inside ex stmt machine with
  | zero => rfl
  | succ fuel inductionHypothesis =>
      cases stmt with
      | act update => rfl
      | throw which =>
          change seen (throwException active (which ex machine.data) machine) = _
          unfold throwException
          cases machine.list <;> rfl
      | seq first second =>
          exact follows_bind
            (run_settles bodies fuel active inside ex first machine same sane within)
            (inductionHypothesis active inside ex first machine same sane within)
            fun middle top kept =>
              inductionHypothesis active inside ex second middle top kept within
      | ite condition yes no =>
          change seen ((if condition ex machine.data then Code.run bodies fuel active inside ex yes
              else Code.run bodies fuel active inside ex no) machine) =
            (if condition ex machine.data then Code.eval bodies fuel inside ex yes
              else Code.eval bodies fuel inside ex no) machine.data
          by_cases holds : condition ex machine.data = true
          · rw [if_pos holds, if_pos holds]
            exact inductionHypothesis active inside ex yes machine same sane within
          · rw [if_neg holds, if_neg holds]
            exact inductionHypothesis active inside ex no machine same sane within
      | call function =>
          refine follows_attempt (run_settles bodies fuel active 0 .none (bodies function) machine
            same sane (Nat.zero_le _)) (inductionHypothesis active 0 .none (bodies function) machine
            same sane (Nat.zero_le _)) fun way after _ => ?_
          cases way <;> rfl
      | tryCatch body clauses final =>
          have deeper {env : Nat} : inside + 1 ≤ (env :: active).length := Nat.succ_le_succ within
          rw [Code.run, Code.eval]
          refine follows_tryCatch same sane
            (fun env thrown entered top kept => arm_settles top kept fun stmt =>
              run_settles bodies fuel (env :: active) (inside + 1) thrown.1 stmt entered top kept
                deeper)
            (fun env thrown entered top kept => ?_) fun env entered top kept =>
              ⟨run_settles bodies fuel (env :: active) (inside + 1) .none _ entered top kept deeper,
                inductionHypothesis (env :: active) (inside + 1) .none _ entered top kept deeper⟩
          cases armOf clauses final thrown with
          | none => rfl
          | some stmt =>
              exact inductionHypothesis (env :: active) (inside + 1) thrown.1 stmt entered top kept
                deeper
      | leave levels =>
          have atMost : min levels inside ≤ machine.list.length := by rw [same]; omega
          obtain ⟨after, ends, unseen⟩ := deleteEnvs_unseen atMost
          unfold Follows
          rw [Code.run, Program.bind_ok ends, Code.eval]
          by_cases none : min levels inside = 0
          · rw [if_pos none, if_pos none, ← unseen]
            rfl
          · rw [if_neg none, if_neg none, ← unseen]
            rfl
      | «return» =>
          have atMost : inside ≤ machine.list.length := by rw [same]; exact within
          obtain ⟨after, ends, unseen⟩ := deleteEnvs_unseen atMost
          unfold Follows
          rw [Code.run, Program.bind_ok ends, Code.eval, ← unseen]
          rfl

theorem settles_sane {outcome : Outcome Way (Machine σ) Unit}
    (settles : (Settles active inside).Holds outcome) : outcome.state.Sane := by
  cases outcome with
  | ok value after => exact settles.2
  | throw way after => exact settles.2
  | fault after => exact settles.elim
  | noReturn after => exact settles

/-- A statement run with the environments of the statements around it in the list never
calls `delete_env` on an empty list. If it ends, `ex_depth` is what it was; if an
exception leaves it, too, and the exception goes to the innermost of them; if it is left
by `goto` or `return`, the environments of the statements left are gone. What it does is
what it means, each exception ending all statements up to the innermost active one, which
gets it; and of every call of `throw_exception`, whether the statement ends or not, the
environment jumped to is that statement's, and none already removed. -/
theorem stack_balanced (bodies : φ → Code σ φ) (fuel inside : Nat) (ex : MyException)
    (stmt : Code σ φ) (machine : Machine σ) (sane : machine.Sane)
    (within : inside ≤ machine.exDepth) :
    (∀ after, stmt.run bodies fuel machine.list inside ex machine ≠ .fault after) ∧
      (∀ after, stmt.run bodies fuel machine.list inside ex machine = .ok () after →
        after.exDepth = machine.exDepth) ∧
      (∀ env thrown after,
        stmt.run bodies fuel machine.list inside ex machine = .throw (.longjmp env thrown) after →
          after.exDepth = machine.exDepth ∧ machine.list.head? = some env) ∧
      (∀ levels after,
        stmt.run bodies fuel machine.list inside ex machine = .throw (.goto levels) after →
          levels < inside ∧ after.exDepth + (levels + 1) = machine.exDepth) ∧
      (∀ after, stmt.run bodies fuel machine.list inside ex machine = .throw .return after →
        after.exDepth + inside = machine.exDepth) ∧
      seen (stmt.run bodies fuel machine.list inside ex machine) =
        stmt.eval bodies fuel inside ex machine.data ∧
      ∀ throw ∈ (stmt.run bodies fuel machine.list inside ex machine).state.throws,
        throw.target = throw.active.head? ∧ ∀ env ∈ throw.target, env ∉ throw.removed := by
  have settles := run_settles bodies fuel machine.list inside ex stmt machine rfl sane within
  have follows := run_follows bodies fuel machine.list inside ex stmt machine rfl sane within
  unfold wp at settles
  unfold Machine.exDepth at within ⊢
  refine ⟨fun after ends => ?_, fun after ends => ?_, fun env thrown after ends => ?_,
    fun levels after ends => ?_, fun after ends => ?_, follows, fun throw member => ?_⟩
  · rw [ends] at settles
    exact settles.elim
  · rw [ends] at settles
    exact congrArg List.length settles.1
  · rw [ends] at settles
    exact ⟨congrArg List.length settles.1.1, settles.1.2⟩
  · rw [ends] at settles
    obtain ⟨below, list⟩ := settles.1
    rw [list, List.length_drop]
    exact ⟨below, by omega⟩
  · rw [ends] at settles
    have list : after.list = machine.list.drop inside := settles.1
    rw [list, List.length_drop]
    omega
  · have right := (settles_sane settles).throws throw member
    exact ⟨right.target, right.live⟩

/-! ## A function that raises in a clause -/

/-- `handled` throws in a clause of its own `try`; `main` calls it and returns from within. -/
def nested : Bool → Code Nat Bool
  | true => .tryCatch (.seq (.call false) .return)
      [(.one ptraceEx, .act fun _ data => data + 100)] none
  | false => .tryCatch (.throw fun _ _ => memoryEx)
      [(.one memoryEx, .seq (.act fun _ data => data + 10) (.throw fun _ _ => ptraceEx))]
      (some (.act fun _ data => data + 1))

theorem stack_balanced_nested : ∃ after,
    (Code.call true).run nested 12 [] 0 .none (Machine.init 0) = .ok () after ∧
      after.data = 11 ∧ after.exDepth = 0 ∧
        (Code.call true).eval nested 12 0 .none 0 = .ok () 11 := by
  obtain ⟨after, ends, data⟩ : ∃ after,
      (Code.call true).run nested 12 [] 0 .none (Machine.init 0) = .ok () after ∧
        after.data = 11 := ⟨_, rfl, rfl⟩
  obtain ⟨_, settles, _, _, _, follows, _⟩ := stack_balanced nested 12 0 .none (.call true)
    (Machine.init 0) (sane_init 0) (Nat.le_refl 0)
  have means : seen ((Code.call true).run nested 12 [] 0 .none (Machine.init 0)) =
    (Code.call true).eval nested 12 0 .none 0 := follows
  rw [ends, seen, data] at means
  exact ⟨after, ends, data, settles after ends, means.symm⟩

end Balance

end MyDbg.Exceptions
