import MyDbg.Exceptions.Basic
import MyDbg.Lib.Program
import Mathlib.Data.List.Infix

/-!
Contract: what the macros of `exceptions.h` do.

Owns: statements built with `try`, `catch`, `finally`, `etry` and `throw`; the
list of environments; and `Stmt.run`, which runs a statement as the macros
expand, with `setjmp`, `switch` and `longjmp`.

Does not own: statements that leave a `try` by `return` or `goto`.
-/

namespace MyDbg

open ProgramLogic

/-- An exception to throw. `None` is none: its clause would be a second `case 0`. -/
abbrev Thrown := { ex : MyException // ex ≠ .none }

/-- The exceptions of one clause, `catch (x)` or `catch (x, y)`. -/
inductive Caught where
  | one (ex : Thrown)
  | two (first second : Thrown)

def Caught.has : Caught → Thrown → Bool
  | .one ex, thrown => thrown == ex
  | .two first second, thrown => thrown == first || thrown == second

mutual

/-- Statements over data `σ`, which can also see the `ex` of the innermost `try`. -/
inductive Stmt (σ : Type) where
  | act (update : MyException → σ → σ)
  | throw (which : MyException → σ → Thrown)
  | seq (first second : Stmt σ)
  | ite (condition : MyException → σ → Bool) (yes no : Stmt σ)
  | tryCatch (body : Stmt σ) (clauses : Clauses σ)

/-- What follows the body of a `try`. -/
inductive Clauses (σ : Type) where
  | etry
  | finally (block : Stmt σ)
  | catch (exs : Caught) (handler : Stmt σ) (rest : Clauses σ)

end

variable {σ : Type}

/-- The block of `finally`, the `default` of the `switch`. -/
def Clauses.final : Clauses σ → Option (Stmt σ)
  | .etry => none
  | .finally block => some block
  | .catch _ _ rest => rest.final

/-- The handler whose `case` an exception selects. -/
def Clauses.find (thrown : Thrown) : Clauses σ → Option (Stmt σ)
  | .etry => none
  | .finally _ => none
  | .catch exs handler rest => if exs.has thrown then some handler else rest.find thrown

/-- `break` leads out of the loop and into `default`, if there is one. -/
def Clauses.close (clauses : Clauses σ) (stmt : Stmt σ) : Stmt σ :=
  match clauses.final with
  | some block => .seq stmt block
  | none => stmt

/-- What the `switch` runs for an exception. -/
def Clauses.arm (clauses : Clauses σ) (thrown : Thrown) : Option (Stmt σ) :=
  match clauses.find thrown with
  | some handler => some (clauses.close handler)
  | none => clauses.final

/-! ## Running -/

/-- How a `try` statement, told apart from those around it by its nesting depth,
reacted to an exception: it entered a clause, or went on behind its `etry`. -/
inductive Reaction where
  | handled (depth : Nat) (thrown : Thrown)
  | fell (depth : Nat) (thrown : Thrown)
deriving DecidableEq

def Reaction.depth : Reaction → Nat
  | .handled depth _ => depth
  | .fell depth _ => depth

structure Process (σ : Type) where
  data : σ
  /-- `list`. An environment is the depth of the statement whose `ex_buf__` it is. -/
  list : List Nat
  /-- Newest first; no statement reads it. -/
  log : List Reaction

/-- Ways out of a statement other than its end. -/
inductive Exit where
  | longjmp (env : Nat) (thrown : Thrown)
  | errx (thrown : Thrown)
deriving DecidableEq

/-- Statements as the macros expand. -/
abbrev Expanded (σ : Type) := Program Exit (Process σ)

def newEnv (env : Nat) : Expanded σ Unit :=
  Program.modify fun process => { process with list := env :: process.list }

/-- `list` is not checked for NULL. -/
def deleteEnv : Expanded σ Unit := fun process =>
  match process.list with
  | [] => .fault process
  | _ :: rest => .ok () { process with list := rest }

def throwException (thrown : Thrown) : Expanded σ Unit := fun process =>
  match process.list with
  | [] => .throw (.errx thrown) process
  | env :: _ => .throw (.longjmp env thrown) process

def react (reaction : Reaction) : Expanded σ Unit :=
  Program.modify fun process => { process with log := reaction :: process.log }

/-- `setjmp` returns once more whenever there is a jump to `env`. -/
def setjmp (env : Nat) (switch : Thrown → Expanded σ Unit) :
    Nat → Expanded σ Unit → Expanded σ Unit
  | 0, _ => Program.noReturn
  | fuel + 1, program =>
      Program.attempt program pure fun exit =>
        match exit with
        | .longjmp target thrown =>
            if target = env then setjmp env switch fuel (switch thrown)
            else Program.throw (.longjmp target thrown)
        | .errx thrown => Program.throw (.errx thrown)

/-- The `switch` for an exception, with `run` for the statements in it. -/
def Clauses.switch (clauses : Clauses σ) (depth : Nat)
    (run : MyException → Stmt σ → Expanded σ Unit) (thrown : Thrown) : Expanded σ Unit :=
  match clauses.arm thrown with
  | some stmt => do
      react (.handled depth thrown)
      run thrown.1 stmt
  | none => react (.fell depth thrown)

/-- `fuel` bounds the nesting and the number of jumps to one statement. -/
def Stmt.run : Nat → Nat → MyException → Stmt σ → Expanded σ Unit
  | 0, _, _, _ => Program.noReturn
  | _ + 1, _, ex, .act update =>
      Program.modify fun process => { process with data := update ex process.data }
  | _ + 1, _, ex, .throw which => do
      let data ← Program.gets Process.data
      throwException (which ex data)
  | fuel + 1, depth, ex, .seq first second => do
      Stmt.run fuel depth ex first
      Stmt.run fuel depth ex second
  | fuel + 1, depth, ex, .ite condition yes no => do
      let data ← Program.gets Process.data
      if condition ex data then Stmt.run fuel depth ex yes else Stmt.run fuel depth ex no
  | fuel + 1, depth, _, .tryCatch body clauses => do
      newEnv depth
      setjmp depth (clauses.switch depth fun ex stmt => Stmt.run fuel (depth + 1) ex stmt) fuel
        (Stmt.run fuel (depth + 1) .none (clauses.close body))
      deleteEnv

/-! ## Fuel -/

section Fuel

variable {env fuel : Nat} {switch later : Thrown → Expanded σ Unit}
  {program other : Expanded σ Unit} {before after : Process σ} {thrown : Thrown}

theorem setjmp_ok (ends : program before = .ok () after) :
    setjmp env switch (fuel + 1) program before = .ok () after := by
  rw [setjmp, Program.attempt_apply, ends]
  rfl

theorem setjmp_jump (jumps : program before = .throw (.longjmp env thrown) after) :
    setjmp env switch (fuel + 1) program before = setjmp env switch fuel (switch thrown) after := by
  rw [setjmp, Program.attempt_apply, jumps]
  simp only [if_true]

/-- Only a program that ends can be left. -/
theorem setjmp_ended (ended : (setjmp env switch fuel program before).Ended) :
    (program before).Ended := by
  cases fuel with
  | zero => exact absurd rfl (ended before)
  | succ fuel =>
      intro stuck same
      rw [setjmp, Program.attempt_apply, same] at ended
      exact ended stuck rfl

theorem setjmp_approximates (jumps : ∀ thrown, Approximates (switch thrown) (later thrown))
    (starts : Approximates program other) :
    Approximates (setjmp env switch fuel program) (setjmp env later (fuel + 1) other) := by
  induction fuel generalizing program other with
  | zero => exact .noReturn
  | succ fuel inductionHypothesis =>
      rw [setjmp, setjmp]
      refine starts.attempt (fun _ => .refl _) fun exit => ?_
      cases exit with
      | longjmp target thrown => exact .ite (inductionHypothesis (jumps thrown)) (.refl _)
      | errx thrown => exact .refl _

theorem switch_approximates {clauses : Clauses σ} {depth : Nat}
    {run ran : MyException → Stmt σ → Expanded σ Unit}
    (runs : ∀ ex stmt, Approximates (run ex stmt) (ran ex stmt)) (thrown : Thrown) :
    Approximates (clauses.switch depth run thrown) (clauses.switch depth ran thrown) := by
  unfold Clauses.switch
  cases clauses.arm thrown with
  | some stmt => exact (Approximates.refl _).bind fun _ => runs thrown.1 stmt
  | none => exact .refl _

theorem run_approximates_succ (fuel depth : Nat) (ex : MyException) (stmt : Stmt σ) :
    Approximates (stmt.run fuel depth ex) (stmt.run (fuel + 1) depth ex) := by
  induction fuel generalizing depth ex stmt with
  | zero => exact .noReturn
  | succ fuel inductionHypothesis =>
      cases stmt with
      | act update => exact .refl _
      | throw which => exact .refl _
      | seq first second =>
          rw [Stmt.run, Stmt.run]
          exact (inductionHypothesis depth ex first).bind fun _ =>
            inductionHypothesis depth ex second
      | ite condition yes no =>
          rw [Stmt.run, Stmt.run]
          refine (Approximates.refl _).bind fun data => ?_
          exact .ite (inductionHypothesis depth ex yes) (inductionHypothesis depth ex no)
      | tryCatch body clauses =>
          rw [Stmt.run, Stmt.run]
          refine (Approximates.refl _).bind fun _ => Approximates.bind ?_ fun _ => .refl _
          exact setjmp_approximates (switch_approximates fun ex stmt =>
            inductionHypothesis (depth + 1) ex stmt) (inductionHypothesis _ _ _)

/-- More fuel changes nothing about what ends. -/
theorem run_approximates {fuel more : Nat} (enough : fuel ≤ more) (depth : Nat) (ex : MyException)
    (stmt : Stmt σ) : Approximates (stmt.run fuel depth ex) (stmt.run more depth ex) := by
  induction enough with
  | refl => exact .refl _
  | step _ inductionHypothesis =>
      exact inductionHypothesis.trans (run_approximates_succ _ depth ex stmt)

/-- A run that ends does not depend on the fuel it ends with. -/
theorem run_determined {stmt : Stmt σ} {depth more : Nat} {ex : MyException}
    (ended : (stmt.run fuel depth ex before).Ended)
    (other : (stmt.run more depth ex before).Ended) :
    stmt.run fuel depth ex before = stmt.run more depth ex before := by
  have early := run_approximates (Nat.le_max_left fuel more) depth ex stmt _ ended
  have late := run_approximates (Nat.le_max_right fuel more) depth ex stmt _ other
  exact early.symm.trans late

end Fuel

/-! ## The log grows -/

/-- What has happened stays in the log. -/
def Grows (before after : Process σ) : Prop := before.log <:+ after.log

section Grows

theorem Grows.refl (process : Process σ) : Grows process process := List.suffix_rfl

theorem Grows.trans {a b c : Process σ} (early : Grows a b) (late : Grows b c) : Grows a c :=
  List.IsSuffix.trans early late

theorem grows_throwException (thrown : Thrown) :
    Frame Grows (throwException thrown : Expanded σ Unit) := by
  intro process
  unfold throwException
  cases process.list <;> exact .refl _

theorem grows_deleteEnv : Frame Grows (deleteEnv : Expanded σ Unit) := by
  intro process
  unfold deleteEnv
  cases process.list <;> exact .refl _

theorem grows_react (reaction : Reaction) : Frame Grows (react reaction : Expanded σ Unit) :=
  fun _ => List.suffix_cons _ _

theorem grows_setjmp {env fuel : Nat} {switch : Thrown → Expanded σ Unit}
    {program : Expanded σ Unit} (jumps : ∀ thrown, Frame Grows (switch thrown))
    (starts : Frame Grows program) : Frame Grows (setjmp env switch fuel program) := by
  induction fuel generalizing program with
  | zero => exact Frame.noReturn Grows.refl
  | succ fuel inductionHypothesis =>
      rw [setjmp]
      refine starts.attempt Grows.trans (fun _ => Frame.pure Grows.refl _) fun exit => ?_
      cases exit with
      | longjmp target thrown =>
          exact .ite (inductionHypothesis (jumps thrown)) (.throw Grows.refl _)
      | errx thrown => exact .throw Grows.refl _

theorem grows_switch {clauses : Clauses σ} {depth : Nat}
    {run : MyException → Stmt σ → Expanded σ Unit} (runs : ∀ ex stmt, Frame Grows (run ex stmt))
    (thrown : Thrown) : Frame Grows (clauses.switch depth run thrown) := by
  unfold Clauses.switch
  cases clauses.arm thrown with
  | some stmt => exact .bind Grows.trans (grows_react _) fun _ => runs thrown.1 stmt
  | none => exact grows_react _

theorem grows_run (fuel depth : Nat) (ex : MyException) (stmt : Stmt σ) :
    Frame Grows (stmt.run fuel depth ex) := by
  induction fuel generalizing depth ex stmt with
  | zero => exact Frame.noReturn Grows.refl
  | succ fuel inductionHypothesis =>
      cases stmt with
      | act update => exact fun process => List.suffix_rfl
      | throw which => exact .bind Grows.trans (.gets Grows.refl _) fun _ => grows_throwException _
      | seq first second =>
          exact .bind Grows.trans (inductionHypothesis _ _ _) fun _ => inductionHypothesis _ _ _
      | ite condition yes no =>
          exact .bind Grows.trans (.gets Grows.refl _) fun _ =>
            .ite (inductionHypothesis _ _ _) (inductionHypothesis _ _ _)
      | tryCatch body clauses =>
          refine .bind Grows.trans (fun process => List.suffix_rfl) fun _ =>
            .bind Grows.trans ?_ fun _ => grows_deleteEnv
          exact grows_setjmp (grows_switch fun _ _ => inductionHypothesis _ _ _)
            (inductionHypothesis _ _ _)

end Grows

end MyDbg
