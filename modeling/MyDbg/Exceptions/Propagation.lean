import MyDbg.Exceptions.Statements
import Mathlib.Data.List.Infix

/-!
Contract: where exceptions go, and where they should.

Owns: `Stmt.intended`, structured exception handling without environments;
`Stmt.Proper`, the statements in which every exception is handled by the very
statement it is thrown in; and that these are the ones the macros run as
intended.

Does not own: the macros.
-/

namespace MyDbg

open ProgramLogic

variable {σ : Type}

/-! ## Structured exception handling -/

/-- What is left of a process without its environments. -/
structure Seen (σ : Type) where
  data : σ
  log : List Reaction

/-- Statements that raise their exceptions to the statement around them. -/
abbrev Structured (σ : Type) := Program Thrown (Seen σ)

def mark (reaction : Reaction) : Structured σ Unit :=
  Program.modify fun seen => { seen with log := reaction :: seen.log }

mutual

/-- An exception is handled by the innermost statement around it that has a
clause for it, and one thrown by a clause goes to the statements further out. -/
def Stmt.intended (depth : Nat) (ex : MyException) : Stmt σ → Structured σ Unit
  | .act update => Program.modify fun seen => { seen with data := update ex seen.data }
  | .throw which => do
      let data ← Program.gets Seen.data
      Program.throw (which ex data)
  | .seq first second => do
      first.intended depth ex
      second.intended depth ex
  | .ite condition yes no => do
      let data ← Program.gets Seen.data
      if condition ex data then yes.intended depth ex else no.intended depth ex
  | .tryCatch body clauses =>
      Program.attempt (body.intended (depth + 1) .none) (fun _ => clauses.complete depth .none)
        fun thrown => clauses.handle depth thrown

def Clauses.handle (depth : Nat) (thrown : Thrown) : Clauses σ → Structured σ Unit
  | .etry => Program.throw thrown
  | .finally block => do
      mark (.handled depth thrown)
      block.intended (depth + 1) thrown.1
  | .catch exs handler rest =>
      if exs.has thrown then do
        mark (.handled depth thrown)
        handler.intended (depth + 1) thrown.1
        rest.complete depth thrown.1
      else
        rest.handle depth thrown

def Clauses.complete (depth : Nat) (ex : MyException) : Clauses σ → Structured σ Unit
  | .etry => pure ()
  | .finally block => block.intended (depth + 1) ex
  | .catch _ _ rest => rest.complete depth ex

end

/-- The block of `finally`, where the statement has one. -/
def Clauses.finish (clauses : Clauses σ) (depth : Nat) (ex : MyException) : Structured σ Unit :=
  match clauses.final with
  | some block => block.intended (depth + 1) ex
  | none => pure ()

theorem Clauses.complete_eq (depth : Nat) (ex : MyException) :
    (clauses : Clauses σ) → clauses.complete depth ex = clauses.finish depth ex
  | .etry => rfl
  | .finally _ => rfl
  | .catch _ _ rest => rest.complete_eq depth ex

/-- Closing a statement runs the `finally` block after it. -/
theorem Clauses.close_intended (clauses : Clauses σ) (depth : Nat) (ex : MyException)
    (stmt : Stmt σ) :
    (clauses.close stmt).intended (depth + 1) ex =
      (do stmt.intended (depth + 1) ex; clauses.finish depth ex) := by
  unfold Clauses.close Clauses.finish
  cases clauses.final with
  | some block => rw [Stmt.intended]
  | none =>
      funext seen
      rw [Program.bind_apply]
      cases stmt.intended (depth + 1) ex seen <;> rfl

/-- What a statement does with an exception from its body. -/
def Clauses.respond (clauses : Clauses σ) (depth : Nat) (thrown : Thrown) : Structured σ Unit :=
  match clauses.arm thrown with
  | some stmt => do
      mark (.handled depth thrown)
      stmt.intended (depth + 1) thrown.1
  | none => Program.throw thrown

theorem Clauses.handle_eq (depth : Nat) (thrown : Thrown) :
    (clauses : Clauses σ) → clauses.handle depth thrown = clauses.respond depth thrown
  | .etry => by
      rw [Clauses.handle]
      rfl
  | .finally block => by
      rw [Clauses.handle]
      rfl
  | .catch exs handler rest => by
      rw [Clauses.handle]
      by_cases has : exs.has thrown = true
      · have arm : (Clauses.catch exs handler rest).arm thrown = some (rest.close handler) := by
          simp only [Clauses.arm, Clauses.find, has, if_true]
          rfl
        rw [if_pos has, Clauses.respond, arm, rest.complete_eq]
        simp only [rest.close_intended]
      · have arm : (Clauses.catch exs handler rest).arm thrown = rest.arm thrown := by
          simp only [Clauses.arm, Clauses.find, if_neg has]
          rfl
        rw [if_neg has, rest.handle_eq depth thrown, Clauses.respond, Clauses.respond, arm]

/-- A `try` statement by what its clauses run. -/
theorem intended_tryCatch (depth : Nat) (ex : MyException) (body : Stmt σ) (clauses : Clauses σ) :
    (Stmt.tryCatch body clauses).intended depth ex =
      Program.attempt (body.intended (depth + 1) .none) (fun _ => clauses.finish depth .none)
        fun thrown => clauses.respond depth thrown := by
  rw [Stmt.intended]
  simp only [Clauses.complete_eq, Clauses.handle_eq]

/-- Induction over statements, with the statements a `try` runs. -/
theorem Stmt.induct {motive : Stmt σ → Prop} (act : ∀ update, motive (.act update))
    (throw : ∀ which, motive (.throw which))
    (seq : ∀ first second, motive first → motive second → motive (.seq first second))
    (ite : ∀ condition yes no, motive yes → motive no → motive (.ite condition yes no))
    (tryCatch : ∀ body clauses, motive body →
      (∀ block, clauses.final = some block → motive block) → motive (Clauses.close clauses body) →
      (∀ thrown stmt, clauses.arm thrown = some stmt → motive stmt) →
      motive (.tryCatch body clauses))
    (stmt : Stmt σ) : motive stmt := by
  refine @Stmt.rec σ motive
    (fun clauses => (∀ thrown handler, clauses.find thrown = some handler → motive handler) ∧
      ∀ block, clauses.final = some block → motive block)
    act throw seq ite (fun body clauses bodyHolds clausesHold => ?_) ?_ ?_ ?_ stmt
  · have closed (inner : Stmt σ) (holds : motive inner) : motive (clauses.close inner) := by
      unfold Clauses.close
      cases final : clauses.final with
      | some block => exact seq inner block holds (clausesHold.2 block final)
      | none => exact holds
    refine tryCatch body clauses bodyHolds clausesHold.2 (closed body bodyHolds)
      fun thrown arm selected => ?_
    unfold Clauses.arm at selected
    cases found : clauses.find thrown with
    | some handler =>
        rw [found] at selected
        obtain rfl := Option.some.inj selected
        exact closed handler (clausesHold.1 thrown handler found)
    | none =>
        rw [found] at selected
        exact clausesHold.2 arm selected
  · exact ⟨nofun, nofun⟩
  · intro block holds
    refine ⟨nofun, fun other same => ?_⟩
    obtain rfl := Option.some.inj same
    exact holds
  · intro exs handler rest handlerHolds restHold
    refine ⟨fun thrown other found => ?_, restHold.2⟩
    rw [Clauses.find] at found
    split at found
    · obtain rfl := Option.some.inj found
      exact handlerHolds
    · exact restHold.1 thrown other found

/-! ## Proper statements -/

/-- In the intended run each exception that leaves the body of a `try` has a
clause in that statement, and none leaves a clause. -/
inductive Stmt.Proper : Nat → MyException → Stmt σ → Seen σ → Prop where
  | act {depth : Nat} {ex : MyException} {update : MyException → σ → σ} {seen : Seen σ} :
      Proper depth ex (.act update) seen
  | throw {depth : Nat} {ex : MyException} {which : MyException → σ → Thrown} {seen : Seen σ} :
      Proper depth ex (.throw which) seen
  | seq {depth : Nat} {ex : MyException} {first second : Stmt σ} {seen : Seen σ}
      (before : Proper depth ex first seen)
      (after : ∀ middle, first.intended depth ex seen = .ok () middle →
        Proper depth ex second middle) :
      Proper depth ex (.seq first second) seen
  | ite {depth : Nat} {ex : MyException} {condition : MyException → σ → Bool} {yes no : Stmt σ}
      {seen : Seen σ} (taken : Proper depth ex (if condition ex seen.data then yes else no) seen) :
      Proper depth ex (.ite condition yes no) seen
  | tryCatch {depth : Nat} {ex : MyException} {body : Stmt σ} {clauses : Clauses σ} {seen : Seen σ}
      (inside : Proper (depth + 1) .none (clauses.close body) seen)
      (finishes : ∀ middle, body.intended (depth + 1) .none seen = .ok () middle →
        ∃ last, clauses.finish depth .none middle = .ok () last)
      (armed : ∀ thrown middle, body.intended (depth + 1) .none seen = .throw thrown middle →
        clauses.arm thrown ≠ none)
      (proper : ∀ thrown middle stmt, body.intended (depth + 1) .none seen = .throw thrown middle →
        clauses.arm thrown = some stmt →
        Proper (depth + 1) thrown.1 stmt { middle with log := .handled depth thrown :: middle.log })
      (settles : ∀ thrown middle stmt, body.intended (depth + 1) .none seen = .throw thrown middle →
        clauses.arm thrown = some stmt →
        ∃ last, stmt.intended (depth + 1) thrown.1
          { middle with log := .handled depth thrown :: middle.log } = .ok () last) :
      Proper depth ex (.tryCatch body clauses) seen

section Proper

variable {depth fuel : Nat} {ex : MyException} {stmt body : Stmt σ} {clauses : Clauses σ}
  {seen middle last : Seen σ} {list : List Nat} {thrown : Thrown}

/-- A structured statement returns or raises. -/
def Concludes (outcome : Outcome Thrown (Seen σ) Unit) : Prop :=
  (∃ last, outcome = .ok () last) ∨ ∃ thrown last, outcome = .throw thrown last

/-- The `finally` block runs behind a body that returns. -/
theorem close_ok (returns : body.intended (depth + 1) ex seen = .ok () middle) :
    (clauses.close body).intended (depth + 1) ex seen = clauses.finish depth ex middle := by
  rw [clauses.close_intended, Program.bind_ok returns]

theorem close_throw (raises : body.intended (depth + 1) ex seen = .throw thrown middle) :
    (clauses.close body).intended (depth + 1) ex seen = .throw thrown middle := by
  rw [clauses.close_intended, Program.bind_throw raises]

theorem tryCatch_ok (returns : body.intended (depth + 1) .none seen = .ok () middle) :
    (Stmt.tryCatch body clauses).intended depth ex seen = clauses.finish depth .none middle := by
  rw [intended_tryCatch, Program.attempt_apply, returns]

theorem tryCatch_throw (raises : body.intended (depth + 1) .none seen = .throw thrown middle) :
    (Stmt.tryCatch body clauses).intended depth ex seen =
      clauses.respond depth thrown middle := by
  rw [intended_tryCatch, Program.attempt_apply, raises]

theorem respond_some (selected : clauses.arm thrown = some stmt) (seen : Seen σ) :
    clauses.respond depth thrown seen =
      stmt.intended (depth + 1) thrown.1
        { seen with log := .handled depth thrown :: seen.log } := by
  rw [Clauses.respond, selected]
  rfl

theorem respond_none (selected : clauses.arm thrown = none) (seen : Seen σ) :
    clauses.respond depth thrown seen = .throw thrown seen := by
  rw [Clauses.respond, selected]
  rfl

theorem intended_ite (condition : MyException → σ → Bool) (yes no : Stmt σ) :
    (Stmt.ite condition yes no).intended depth ex seen =
      (if condition ex seen.data then yes else no).intended depth ex seen := by
  change (if condition ex seen.data then yes.intended depth ex else no.intended depth ex) seen = _
  split <;> rfl

theorem intended_concludes (depth : Nat) (ex : MyException) (stmt : Stmt σ) (seen : Seen σ) :
    Concludes (stmt.intended depth ex seen) := by
  induction stmt using Stmt.induct generalizing depth ex seen with
  | act update => exact .inl ⟨_, rfl⟩
  | throw which => exact .inr ⟨_, _, rfl⟩
  | seq first second firstHypothesis secondHypothesis =>
      rw [Stmt.intended]
      rcases firstHypothesis depth ex seen with ⟨middle, returns⟩ | ⟨thrown, middle, raises⟩
      · rw [Program.bind_ok returns]
        exact secondHypothesis depth ex middle
      · rw [Program.bind_throw raises]
        exact .inr ⟨thrown, middle, rfl⟩
  | ite condition yes no yesHypothesis noHypothesis =>
      rw [intended_ite]
      split
      · exact yesHypothesis depth ex seen
      · exact noHypothesis depth ex seen
  | tryCatch body clauses bodyHypothesis finalHypothesis _ armHypothesis =>
      rcases bodyHypothesis (depth + 1) .none seen with ⟨middle, returns⟩ | ⟨thrown, middle, raises⟩
      · rw [tryCatch_ok returns, Clauses.finish]
        cases final : clauses.final with
        | some block => exact finalHypothesis block final _ _ _
        | none => exact .inl ⟨middle, rfl⟩
      · rw [tryCatch_throw raises]
        cases selected : clauses.arm thrown with
        | some stmt =>
            rw [respond_some selected]
            exact armHypothesis thrown stmt selected _ _ _
        | none =>
            rw [respond_none selected]
            exact .inr ⟨thrown, middle, rfl⟩

/-- The intended run keeps what is in the log. -/
theorem grows_intended (depth : Nat) (ex : MyException) (stmt : Stmt σ) :
    Frame (fun before after => before.log <:+ after.log) (stmt.intended depth ex) := by
  have refl (seen : Seen σ) : seen.log <:+ seen.log := List.suffix_rfl
  have trans {a b c : Seen σ} (early : a.log <:+ b.log) (late : b.log <:+ c.log) :
      a.log <:+ c.log := early.trans late
  induction stmt using Stmt.induct generalizing depth ex with
  | act update => exact refl
  | throw which => exact .bind trans (.gets refl _) fun _ => .throw refl _
  | seq first second firstHypothesis secondHypothesis =>
      rw [Stmt.intended]
      exact .bind trans (firstHypothesis depth ex) fun _ => secondHypothesis depth ex
  | ite condition yes no yesHypothesis noHypothesis =>
      rw [Stmt.intended]
      exact .bind trans (.gets refl _) fun _ =>
        .ite (yesHypothesis depth ex) (noHypothesis depth ex)
  | tryCatch body clauses bodyHypothesis finalHypothesis _ armHypothesis =>
      rw [intended_tryCatch]
      refine .attempt trans (bodyHypothesis _ _) (fun _ => ?_) fun thrown => ?_
      · unfold Clauses.finish
        cases final : clauses.final with
        | some block => exact finalHypothesis block final _ _
        | none => exact .pure refl _
      · unfold Clauses.respond
        cases selected : clauses.arm thrown with
        | some stmt =>
            exact .bind trans (.modify fun seen => List.suffix_cons _ _) fun _ =>
              armHypothesis thrown stmt selected _ _
        | none => exact .throw refl _

def Seen.under (list : List Nat) (seen : Seen σ) : Process σ where
  data := seen.data
  list := list
  log := seen.log

/-- An outcome in the environments of `list`: the exception jumps to the first. -/
def expand (list : List Nat) : Outcome Thrown (Seen σ) Unit → Outcome Exit (Process σ) Unit
  | .ok _ seen => .ok () (seen.under list)
  | .throw thrown seen => throwException thrown (seen.under list)
  | .fault seen => .fault (seen.under list)
  | .noReturn seen => .noReturn (seen.under list)

theorem expand_throw (list : List Nat) (thrown : Thrown) (seen : Seen σ) :
    ∃ exit, expand list (.throw thrown seen) = .throw exit (seen.under list) := by
  cases list with
  | nil => exact ⟨_, rfl⟩
  | cons env rest => exact ⟨_, rfl⟩

theorem run_ite (condition : MyException → σ → Bool) (yes no : Stmt σ) :
    (Stmt.ite condition yes no).run (fuel + 1) depth ex (seen.under list) =
      (if condition ex seen.data then yes else no).run fuel depth ex (seen.under list) := by
  change (if condition ex seen.data then yes.run fuel depth ex else no.run fuel depth ex) _ = _
  split <;> rfl

/-- A `try` statement is its `setjmp` with the environment put on and taken off. -/
theorem run_tryCatch :
    (Stmt.tryCatch body clauses).run (fuel + 1) depth ex (seen.under list) =
      (setjmp depth (clauses.switch depth fun ex stmt => stmt.run fuel (depth + 1) ex) fuel
        ((clauses.close body).run fuel (depth + 1) .none) >>= fun _ => deleteEnv)
          (seen.under (depth :: list)) := rfl

/-- The macros run a proper statement as it is intended. -/
theorem run_proper (proper : stmt.Proper depth ex seen) :
    ∃ enough, ∀ fuel, enough ≤ fuel → ∀ list,
      stmt.run fuel depth ex (seen.under list) = expand list (stmt.intended depth ex seen) := by
  induction proper with
  | act =>
      refine ⟨1, fun fuel enough list => ?_⟩
      obtain ⟨more, rfl⟩ : ∃ more, fuel = more + 1 := ⟨fuel - 1, by omega⟩
      rfl
  | throw =>
      refine ⟨1, fun fuel enough list => ?_⟩
      obtain ⟨more, rfl⟩ : ∃ more, fuel = more + 1 := ⟨fuel - 1, by omega⟩
      rfl
  | @seq depth ex first second seen before after firstHypothesis secondHypothesis =>
      obtain ⟨early, runsFirst⟩ := firstHypothesis
      rcases intended_concludes depth ex first seen with
        ⟨middle, returns⟩ | ⟨thrown, middle, raises⟩
      · obtain ⟨late, runsSecond⟩ := secondHypothesis middle returns
        refine ⟨max early late + 1, fun fuel enough list => ?_⟩
        obtain ⟨more, rfl⟩ : ∃ more, fuel = more + 1 := ⟨fuel - 1, by omega⟩
        have start := runsFirst more (by omega) list
        rw [returns] at start
        rw [Stmt.run, Program.bind_ok start, runsSecond more (by omega) list, Stmt.intended,
          Program.bind_ok returns]
      · refine ⟨early + 1, fun fuel enough list => ?_⟩
        obtain ⟨more, rfl⟩ : ∃ more, fuel = more + 1 := ⟨fuel - 1, by omega⟩
        have start := runsFirst more (by omega) list
        obtain ⟨exit, jumps⟩ := expand_throw list thrown middle
        rw [raises, jumps] at start
        rw [Stmt.run, Program.bind_throw start, Stmt.intended, Program.bind_throw raises, jumps]
  | @ite depth ex condition yes no seen taken takenHypothesis =>
      obtain ⟨early, runs⟩ := takenHypothesis
      refine ⟨early + 1, fun fuel enough list => ?_⟩
      obtain ⟨more, rfl⟩ : ∃ more, fuel = more + 1 := ⟨fuel - 1, by omega⟩
      rw [run_ite, intended_ite]
      exact runs more (by omega) list
  | @tryCatch depth ex body clauses seen inside finishes armed proper settles insideHypothesis
      properHypothesis =>
      obtain ⟨early, runsInside⟩ := insideHypothesis
      rcases intended_concludes (depth + 1) .none body seen with
        ⟨middle, returns⟩ | ⟨thrown, middle, raises⟩
      · obtain ⟨last, finished⟩ := finishes middle returns
        refine ⟨early + 2, fun fuel enough list => ?_⟩
        obtain ⟨more, rfl⟩ : ∃ more, fuel = more + 2 := ⟨fuel - 2, by omega⟩
        have start := runsInside (more + 1) (by omega) (depth :: list)
        rw [close_ok returns, finished] at start
        rw [run_tryCatch, Program.bind_ok (setjmp_ok start), tryCatch_ok returns, finished]
        rfl
      · obtain ⟨stmt, selected⟩ := Option.ne_none_iff_exists'.mp (armed thrown middle raises)
        obtain ⟨last, settled⟩ := settles thrown middle stmt raises selected
        obtain ⟨late, runsArm⟩ := properHypothesis thrown middle stmt raises selected
        refine ⟨max early late + 3, fun fuel enough list => ?_⟩
        obtain ⟨more, rfl⟩ : ∃ more, fuel = more + 3 := ⟨fuel - 3, by omega⟩
        have start := runsInside (more + 2) (by omega) (depth :: list)
        rw [close_throw raises] at start
        have arm := runsArm (more + 2) (by omega) (depth :: list)
        rw [settled] at arm
        have switched : clauses.switch depth
            (fun ex stmt => stmt.run (more + 2) (depth + 1) ex) thrown
            (middle.under (depth :: list)) = .ok () (last.under (depth :: list)) := by
          rw [Clauses.switch, selected]
          exact arm
        rw [run_tryCatch, Program.bind_ok ((setjmp_jump start).trans (setjmp_ok switched)),
          tryCatch_throw raises, respond_some selected, settled]
        rfl

/-- However much fuel a proper statement ends with. -/
theorem run_proper_ended (proper : stmt.Proper depth ex seen)
    (ended : (stmt.run fuel depth ex (seen.under list)).Ended) :
    stmt.run fuel depth ex (seen.under list) = expand list (stmt.intended depth ex seen) := by
  obtain ⟨enough, runs⟩ := run_proper proper
  have more := run_approximates (Nat.le_max_left fuel enough) depth ex stmt _ ended
  rw [← more, runs _ (Nat.le_max_right fuel enough) list]

/-! ## What they make of any other statement -/

/-- The log of a run has a reaction of a statement at `depth` or further in that
the intended run has not, and will not have when its exception goes on. -/
def Diverges (depth : Nat) (log : List Reaction) (outcome : Outcome Thrown (Seen σ) Unit) : Prop :=
  ∃ common reaction, reaction :: common <:+ log ∧ depth ≤ reaction.depth ∧
    ((∃ other, other :: common <:+ outcome.state.log ∧ other ≠ reaction) ∨
      ∃ thrown, outcome = .throw thrown { outcome.state with log := common })

variable {log later : List Reaction} {outcome : Outcome Thrown (Seen σ) Unit}

theorem Diverges.grows (diverges : Diverges depth log outcome) (grows : log <:+ later) :
    Diverges depth later outcome := by
  obtain ⟨common, reaction, logged, inner, other⟩ := diverges
  exact ⟨common, reaction, logged.trans grows, inner, other⟩

theorem Diverges.outer (diverges : Diverges (depth + 1) log outcome) :
    Diverges depth log outcome := by
  obtain ⟨common, reaction, logged, inner, other⟩ := diverges
  exact ⟨common, reaction, logged, by omega, other⟩

/-- An exception that should leave the statement, but is reacted to. -/
theorem Diverges.reacts {reaction : Reaction} (same : reaction.depth = depth)
    (logged : reaction :: seen.log <:+ log) : Diverges depth log (.throw thrown seen) :=
  ⟨seen.log, reaction, logged, same.ge, .inr ⟨thrown, rfl⟩⟩

/-- What the intended run does after a part that returned. -/
theorem Diverges.goesOn (diverges : Diverges depth log (.ok () middle))
    (grows : middle.log <:+ outcome.state.log) : Diverges depth log outcome := by
  obtain ⟨common, reaction, logged, inner, ⟨other, kept, differs⟩ | ⟨thrown, same⟩⟩ := diverges
  · exact ⟨common, reaction, logged, inner, .inl ⟨other, kept.trans grows, differs⟩⟩
  · cases same

/-- An exception that goes on to a statement further out is handled there. -/
theorem Diverges.handled (diverges : Diverges (depth + 1) log (.throw thrown middle))
    (grows : .handled depth thrown :: middle.log <:+ outcome.state.log) :
    Diverges depth log outcome := by
  obtain ⟨common, reaction, logged, inner, ⟨other, kept, differs⟩ | ⟨raised, same⟩⟩ := diverges
  · exact ⟨common, reaction, logged, by omega,
      .inl ⟨other, (kept.trans (List.suffix_cons _ _)).trans grows, differs⟩⟩
  · obtain rfl : middle.log = common := congrArg Seen.log (Outcome.throw.inj same).2
    refine ⟨_, reaction, logged, by omega, .inl ⟨_, grows, fun equal => ?_⟩⟩
    rw [← equal] at inner
    exact absurd inner (by simp [Reaction.depth])

theorem run_ended (ended : (stmt.run fuel depth ex (seen.under list)).Ended) :
    ∃ more, fuel = more + 1 := by
  cases fuel with
  | zero => exact absurd rfl (ended (seen.under list))
  | succ more => exact ⟨more, rfl⟩

theorem bind_grows {program : Expanded σ Unit} {next : Unit → Expanded σ Unit}
    (later : ∀ value, Frame Grows (next value)) (process : Process σ) :
    (program process).state.log <:+ ((program >>= next) process).state.log := by
  rw [Program.bind_apply]
  cases program process with
  | ok value after => exact later value after
  | throw exit after => exact List.suffix_rfl
  | fault after => exact List.suffix_rfl
  | noReturn after => exact List.suffix_rfl

theorem setjmp_grows {env : Nat} {switch : Thrown → Expanded σ Unit} {program : Expanded σ Unit}
    {process : Process σ} (jumps : ∀ thrown, Frame Grows (switch thrown))
    (ended : (setjmp env switch fuel program process).Ended) :
    (program process).state.log <:+ (setjmp env switch fuel program process).state.log := by
  cases fuel with
  | zero => exact absurd rfl (ended process)
  | succ fuel =>
      rw [setjmp, Program.attempt_apply]
      cases program process with
      | ok value after => exact List.suffix_rfl
      | throw exit after =>
          cases exit with
          | longjmp target thrown =>
              have frame : Frame Grows (if target = env then setjmp env switch fuel (switch thrown)
                  else Program.throw (.longjmp target thrown)) :=
                .ite (grows_setjmp jumps (jumps thrown)) (.throw Grows.refl _)
              exact frame after
          | errx thrown => exact List.suffix_rfl
      | fault after => exact List.suffix_rfl
      | noReturn after => exact List.suffix_rfl

/-- An exception that reaches its `setjmp` gets a reaction of that statement. -/
theorem setjmp_reacts {run : MyException → Stmt σ → Expanded σ Unit} {program : Expanded σ Unit}
    {before after : Process σ} (runs : ∀ ex stmt, Frame Grows (run ex stmt))
    (jumps : program before = .throw (.longjmp depth thrown) after)
    (ended : (setjmp depth (clauses.switch depth run) fuel program before).Ended) :
    ∃ reaction : Reaction, reaction.depth = depth ∧
      reaction :: after.log <:+
        (setjmp depth (clauses.switch depth run) fuel program before).state.log := by
  cases fuel with
  | zero => exact absurd rfl (ended before)
  | succ fuel =>
      rw [setjmp_jump jumps] at ended ⊢
      have grows := setjmp_grows (grows_switch runs) ended
      cases selected : clauses.arm thrown with
      | some stmt =>
          refine ⟨.handled depth thrown, rfl, List.IsSuffix.trans ?_ grows⟩
          rw [Clauses.switch, selected]
          exact runs thrown.1 stmt { after with log := .handled depth thrown :: after.log }
      | none =>
          refine ⟨.fell depth thrown, rfl, List.IsSuffix.trans ?_ grows⟩
          rw [Clauses.switch, selected]
          exact List.suffix_rfl

/-- From the body with its `finally` block to the `try` statement. -/
theorem Diverges.tryCatch
    (diverges : Diverges (depth + 1) log ((clauses.close body).intended (depth + 1) .none seen)) :
    Diverges depth log ((Stmt.tryCatch body clauses).intended depth ex seen) := by
  rcases intended_concludes (depth + 1) .none body seen with
    ⟨middle, returns⟩ | ⟨thrown, middle, raises⟩
  · rw [close_ok returns] at diverges
    rw [tryCatch_ok returns]
    exact diverges.outer
  · rw [close_throw raises] at diverges
    rw [tryCatch_throw raises]
    cases selected : clauses.arm thrown with
    | some stmt =>
        rw [respond_some selected]
        exact diverges.handled (grows_intended (depth + 1) thrown.1 stmt
          { middle with log := .handled depth thrown :: middle.log })
    | none =>
        rw [respond_none selected]
        exact diverges.outer

theorem proper_returns (inside : (clauses.close body).Proper (depth + 1) .none seen)
    (returns : body.intended (depth + 1) .none seen = .ok () middle)
    (finished : clauses.finish depth .none middle = .ok () last) :
    (Stmt.tryCatch body clauses).Proper depth ex seen := by
  have never {thrown : Thrown} {other : Seen σ}
      (raises : body.intended (depth + 1) .none seen = .throw thrown other) : False := by
    rw [returns] at raises
    cases raises
  refine .tryCatch inside (fun other same => ?_) (fun _ _ raises => (never raises).elim)
    (fun _ _ _ raises => (never raises).elim) fun _ _ _ raises => (never raises).elim
  obtain rfl := (Outcome.ok.inj (returns.symm.trans same)).2
  exact ⟨last, finished⟩

theorem proper_raises (inside : (clauses.close body).Proper (depth + 1) .none seen)
    (raises : body.intended (depth + 1) .none seen = .throw thrown middle)
    (selected : clauses.arm thrown = some stmt)
    (proper : stmt.Proper (depth + 1) thrown.1
      { middle with log := .handled depth thrown :: middle.log })
    (settled : stmt.intended (depth + 1) thrown.1
      { middle with log := .handled depth thrown :: middle.log } = .ok () last) :
    (Stmt.tryCatch body clauses).Proper depth ex seen := by
  have unique {other : Thrown} {after : Seen σ}
      (same : body.intended (depth + 1) .none seen = .throw other after) :
      thrown = other ∧ middle = after := Outcome.throw.inj (raises.symm.trans same)
  refine .tryCatch inside (fun other same => ?_) (fun other after same => ?_)
    (fun other after arm same picked => ?_) fun other after arm same picked => ?_
  · rw [raises] at same
    cases same
  · obtain ⟨rfl, rfl⟩ := unique same
    rw [selected]
    nofun
  · obtain ⟨rfl, rfl⟩ := unique same
    obtain rfl := Option.some.inj (selected.symm.trans picked)
    exact proper
  · obtain ⟨rfl, rfl⟩ := unique same
    obtain rfl := Option.some.inj (selected.symm.trans picked)
    exact ⟨last, settled⟩

/-- A run inside the `setjmp` of a `try` shows in the run of the statement. -/
theorem tryCatch_grows {logged : List Reaction}
    (inside : logged <:+ (setjmp depth (clauses.switch depth fun ex stmt =>
      stmt.run fuel (depth + 1) ex) fuel ((clauses.close body).run fuel (depth + 1) .none)
        (seen.under (depth :: list))).state.log) :
    logged <:+
      ((Stmt.tryCatch body clauses).run (fuel + 1) depth ex (seen.under list)).state.log := by
  rw [run_tryCatch]
  exact inside.trans (bind_grows (fun _ => grows_deleteEnv) _)

/-- An exception that leaves a clause comes back to the statement of the clause. -/
theorem tryCatch_diverges (raises : (clauses.close body).run fuel (depth + 1) .none
      (seen.under (depth :: list)) = .throw (.longjmp depth thrown) (middle.under (depth :: list)))
    (ended : (setjmp depth (clauses.switch depth fun ex stmt => stmt.run fuel (depth + 1) ex) fuel
      ((clauses.close body).run fuel (depth + 1) .none) (seen.under (depth :: list))).Ended) :
    Diverges depth
      ((Stmt.tryCatch body clauses).run (fuel + 1) depth ex (seen.under list)).state.log
      (.throw thrown middle) := by
  obtain ⟨reaction, same, logged⟩ := setjmp_reacts (fun _ _ => grows_run _ _ _ _) raises ended
  exact .reacts same (tryCatch_grows logged)

/-- The clause that handles an exception diverges, where all before it is proper. -/
theorem arm_diverges (inside : (clauses.close body).Proper (depth + 1) .none seen)
    (raises : body.intended (depth + 1) .none seen = .throw thrown middle)
    (selected : clauses.arm thrown = some stmt)
    (improper : ¬ (Stmt.tryCatch body clauses).Proper depth ex seen)
    (start : (clauses.close body).run (fuel + 1) (depth + 1) .none (seen.under (depth :: list)) =
      expand (depth :: list) (.throw thrown middle))
    (entered : (setjmp depth
      (clauses.switch depth fun ex stmt => stmt.run (fuel + 1) (depth + 1) ex) (fuel + 1)
      ((clauses.close body).run (fuel + 1) (depth + 1) .none)
      (seen.under (depth :: list))).Ended)
    (diverges : ¬ stmt.Proper (depth + 1) thrown.1
        { middle with log := .handled depth thrown :: middle.log } →
      (stmt.run (fuel + 1) (depth + 1) thrown.1 (Seen.under (depth :: list)
        { middle with log := .handled depth thrown :: middle.log })).Ended →
      Diverges (depth + 1) (stmt.run (fuel + 1) (depth + 1) thrown.1 (Seen.under (depth :: list)
        { middle with log := .handled depth thrown :: middle.log })).state.log
        (stmt.intended (depth + 1) thrown.1
          { middle with log := .handled depth thrown :: middle.log })) :
    Diverges depth
      ((Stmt.tryCatch body clauses).run (fuel + 1 + 1) depth ex (seen.under list)).state.log
      (stmt.intended (depth + 1) thrown.1
        { middle with log := .handled depth thrown :: middle.log }) := by
  have jumped := entered
  rw [setjmp_jump start] at jumped
  have switched : clauses.switch depth (fun ex stmt => stmt.run (fuel + 1) (depth + 1) ex)
      thrown (middle.under (depth :: list)) =
        stmt.run (fuel + 1) (depth + 1) thrown.1 (Seen.under (depth :: list)
          { middle with log := .handled depth thrown :: middle.log }) := by
    rw [Clauses.switch, selected]
    rfl
  have armEnded := setjmp_ended jumped
  rw [switched] at armEnded
  by_cases armProper : stmt.Proper (depth + 1) thrown.1
      { middle with log := .handled depth thrown :: middle.log }
  · rcases intended_concludes (depth + 1) thrown.1 stmt
      { middle with log := .handled depth thrown :: middle.log } with
      ⟨last, settled⟩ | ⟨other, last, left⟩
    · exact absurd (proper_raises inside raises selected armProper settled) improper
    · rw [run_proper_ended armProper armEnded, left] at switched
      obtain ⟨reaction, same, logged⟩ :=
        setjmp_reacts (fun _ _ => grows_run _ _ _ _) switched jumped
      rw [left]
      refine .reacts same (tryCatch_grows ?_)
      rw [setjmp_jump start]
      exact logged
  · refine ((diverges armProper armEnded).grows (tryCatch_grows ?_)).outer
    rw [setjmp_jump start, ← switched]
    exact setjmp_grows (grows_switch fun _ _ => grows_run _ _ _ _) jumped

theorem run_improper (improper : ¬ stmt.Proper depth ex seen)
    (ended : (stmt.run fuel depth ex (seen.under list)).Ended) :
    Diverges depth (stmt.run fuel depth ex (seen.under list)).state.log
      (stmt.intended depth ex seen) := by
  obtain ⟨fuel, rfl⟩ := run_ended ended
  induction stmt using Stmt.induct generalizing depth ex seen fuel list with
  | act update => exact absurd .act improper
  | throw which => exact absurd .throw improper
  | seq first second firstHypothesis secondHypothesis =>
      rw [Stmt.run] at ended ⊢
      obtain ⟨more, rfl⟩ := run_ended ended.first
      rw [Stmt.intended]
      by_cases proper : first.Proper depth ex seen
      · have start := run_proper_ended proper ended.first
        rcases intended_concludes depth ex first seen with
          ⟨middle, returns⟩ | ⟨thrown, middle, raises⟩
        · rw [returns] at start
          rw [Program.bind_ok start] at ended ⊢
          rw [Program.bind_ok returns]
          refine secondHypothesis (fun second => improper (.seq proper fun other same => ?_))
            more ended
          obtain rfl := (Outcome.ok.inj (returns.symm.trans same)).2
          exact second
        · refine absurd (.seq proper fun other same => ?_) improper
          rw [raises] at same
          cases same
      · have diverges := (firstHypothesis proper more ended.first).grows
          (bind_grows (fun _ => grows_run (more + 1) depth ex second) _)
        rcases intended_concludes depth ex first seen with
          ⟨middle, returns⟩ | ⟨thrown, middle, raises⟩
        · rw [returns] at diverges
          rw [Program.bind_ok returns]
          exact diverges.goesOn (grows_intended depth ex second middle)
        · rw [raises] at diverges
          rw [Program.bind_throw raises]
          exact diverges
  | ite condition yes no yesHypothesis noHypothesis =>
      rw [run_ite] at ended ⊢
      rw [intended_ite]
      obtain ⟨more, rfl⟩ := run_ended ended
      have other : ¬ (if condition ex seen.data then yes else no).Proper depth ex seen :=
        fun proper => improper (.ite proper)
      split at other
      · next holds =>
          rw [if_pos holds] at ended ⊢
          exact yesHypothesis other more ended
      · next fails =>
          rw [if_neg fails] at ended ⊢
          exact noHypothesis other more ended
  | tryCatch body clauses _ _ closeHypothesis armHypothesis =>
      rw [run_tryCatch] at ended
      have entered := ended.first
      have started := setjmp_ended entered
      obtain ⟨more, rfl⟩ := run_ended started
      by_cases inside : (clauses.close body).Proper (depth + 1) .none seen
      swap
      · have diverges := closeHypothesis inside more started
        exact (diverges.grows (tryCatch_grows
          (setjmp_grows (grows_switch fun _ _ => grows_run _ _ _ _) entered))).tryCatch
      have start := run_proper_ended inside started
      rcases intended_concludes (depth + 1) .none body seen with
        ⟨middle, returns⟩ | ⟨thrown, middle, raises⟩
      · have concludes := intended_concludes (depth + 1) .none (clauses.close body) seen
        rw [close_ok returns] at concludes start
        rw [tryCatch_ok returns]
        rcases concludes with ⟨last, finished⟩ | ⟨thrown, last, finished⟩
        · exact absurd (proper_returns inside returns finished) improper
        · rw [finished] at start ⊢
          exact tryCatch_diverges start entered
      · rw [close_throw raises] at start
        rw [tryCatch_throw raises]
        cases selected : clauses.arm thrown with
        | none =>
            rw [respond_none selected]
            exact tryCatch_diverges start entered
        | some stmt =>
            rw [respond_some selected]
            exact arm_diverges inside raises selected improper start entered
              (armHypothesis thrown stmt selected · more ·)

theorem expand_state (list : List Nat) (outcome : Outcome Thrown (Seen σ) Unit) :
    (expand list outcome).state.log = outcome.state.log := by
  cases outcome with
  | throw thrown seen =>
      obtain ⟨exit, same⟩ := expand_throw list thrown seen
      rw [same]
      rfl
  | _ => rfl

/-- A log that diverges is another one. -/
theorem Diverges.irrefl (diverges : Diverges depth outcome.state.log outcome) : False := by
  obtain ⟨common, reaction, logged, _, ⟨other, kept, differs⟩ | ⟨thrown, same⟩⟩ := diverges
  · have equal := List.suffix_of_suffix_length_le kept logged (by simp)
    exact differs (List.cons.inj (equal.eq_of_length (by simp))).1
  · rw [same] at logged
    have short : (reaction :: common).length ≤ common.length := logged.length_le
    rw [List.length_cons] at short
    omega

/-- Whatever encloses it, a statement does what was intended, reaction by
reaction, exactly if it is proper. -/
theorem propagates_iff (stmt : Stmt σ) (depth : Nat) (ex : MyException) (seen : Seen σ)
    (list : List Nat) :
    (∃ fuel, stmt.run fuel depth ex (seen.under list) =
        expand list (stmt.intended depth ex seen)) ↔
      stmt.Proper depth ex seen := by
  constructor
  · rintro ⟨fuel, same⟩
    by_contra improper
    have ended : (stmt.run fuel depth ex (seen.under list)).Ended := by
      rw [same]
      rcases intended_concludes depth ex stmt seen with ⟨last, ends⟩ | ⟨thrown, last, ends⟩
      · rw [ends]
        nofun
      · obtain ⟨exit, jumps⟩ := expand_throw list thrown last
        rw [ends, jumps]
        nofun
    have diverges := run_improper improper ended
    rw [same, expand_state] at diverges
    exact diverges.irrefl
  · intro proper
    obtain ⟨enough, runs⟩ := run_proper proper
    exact ⟨enough, runs enough le_rfl list⟩

end Proper

/-! ## An exception nobody has a clause for -/

def ptraceEx : Thrown := ⟨.ptraceException, by decide⟩

def memoryEx : Thrown := ⟨.memoryException, by decide⟩

/-- A `try` without a clause for what is thrown, inside one that has it. -/
def swallowing : Stmt Nat :=
  .tryCatch
    (.seq
      (.tryCatch (.throw fun _ _ => ptraceEx)
        (.catch (.one memoryEx) (.act fun _ data => data) .etry))
      (.act fun _ data => data + 1))
    (.catch (.one ptraceEx) (.act fun _ data => data + 10) .etry)

/-- The statement behind the inner `etry` is executed and the outer clause is not. -/
theorem unmatched_swallowed :
    ¬ ∃ fuel, swallowing.run fuel 0 .none (Seen.under [] ⟨0, []⟩) =
      expand [] (swallowing.intended 0 .none ⟨0, []⟩) := by
  have swallows : swallowing.run 8 0 .none (Seen.under [] ⟨0, []⟩) =
      .ok () (Seen.under [] ⟨1, [.fell 1 ptraceEx]⟩) := rfl
  have handles : expand [] (swallowing.intended 0 .none ⟨0, []⟩) =
      .ok () (Seen.under [] ⟨10, [.handled 0 ptraceEx]⟩) := rfl
  rintro ⟨fuel, same⟩
  rw [handles] at same
  have ended : (swallowing.run fuel 0 .none (Seen.under [] ⟨0, []⟩)).Ended := by
    rw [same]
    nofun
  have other : (swallowing.run 8 0 .none (Seen.under [] ⟨0, []⟩)).Ended := by
    rw [swallows]
    nofun
  have determined := run_determined ended other
  rw [same, swallows] at determined
  have data := congrArg Process.data (Outcome.ok.inj determined).2
  exact absurd data (by decide)

end MyDbg
