import MyDbg.Lib.Program
import Mathlib.Order.Filter.AtTopBot.Basic

/-!
Contract: evaluating programs on the part of the state that matters.

Owns: `Evaluates`, that a program has one outcome as far as a view of the
state shows, whatever the view hides; `Returns` and `Yields`, that it returns
one value, the latter given enough fuel; `Silent`, that it leaves the state
alone, and `YieldsWithin`, that it logs only what is allowed; `Raises`, that it
raises an exception; `GoesOnAs`, that it ends as another one does; `Ensures`,
what holds of the value or the exception it ends with; `Restricts`, that a
program is the part of another one that logs only what is allowed; and how each
is put together.

Does not own: any particular view. What a view hides is a log or other
bookkeeping the program never reads.
-/

namespace ProgramLogic

variable {ε σ τ α β : Type}

/-- The outcome as a view of the state shows it. -/
def Outcome.map (view : σ → τ) : Outcome ε σ α → Outcome ε τ α
  | .ok value state => .ok value (view state)
  | .throw exception state => .throw exception (view state)
  | .fault state => .fault (view state)
  | .noReturn state => .noReturn (view state)

/-- From every state that looks like `before`, `program` ends in a state that
looks like that of `outcome`. -/
def Evaluates (view : σ → τ) (program : Program ε σ α) (before : τ) (outcome : Outcome ε τ α) :
    Prop :=
  ∀ state, view state = before → (program state).map view = outcome

namespace Evaluates

variable {view : σ → τ} {program : Program ε σ α} {next : α → Program ε σ β} {before middle : τ}
  {value : α}

theorem pure (value : α) :
    Evaluates view (Pure.pure value : Program ε σ α) before (.ok value before) := by
  rintro state rfl
  rfl

theorem throw (exception : ε) :
    Evaluates view (Program.throw exception : Program ε σ α) before (.throw exception before) := by
  rintro state rfl
  rfl

theorem noReturn : Evaluates view (Program.noReturn : Program ε σ α) before (.noReturn before) := by
  rintro state rfl
  rfl

/-- The value read has to be in view. -/
theorem gets {read : σ → α} (seen : τ → α) (visible : ∀ state, read state = seen (view state)) :
    Evaluates view (Program.gets read : Program ε σ α) before (.ok (seen before) before) := by
  rintro state rfl
  rw [← visible]
  rfl

theorem modify {update : σ → σ} (change : τ → τ)
    (visible : ∀ state, view (update state) = change (view state)) :
    Evaluates view (Program.modify update : Program ε σ Unit) before (.ok () (change before)) := by
  rintro state rfl
  rw [← visible]
  rfl

theorem bind {outcome : Outcome ε τ β} (first : Evaluates view program before (.ok value middle))
    (second : Evaluates view (next value) middle outcome) :
    Evaluates view (program >>= next) before outcome := by
  intro state seen
  have start := first state seen
  rw [Program.bind_apply]
  cases ends : program state with
  | ok result after =>
      rw [ends] at start
      cases start
      exact second after rfl
  | throw exception after => rw [ends] at start; cases start
  | fault after => rw [ends] at start; cases start
  | noReturn after => rw [ends] at start; cases start

theorem bind_throw {exception : ε}
    (first : Evaluates view program before (.throw exception middle)) :
    Evaluates view (program >>= next) before (.throw exception middle) := by
  intro state seen
  have start := first state seen
  rw [Program.bind_apply]
  cases ends : program state with
  | throw raised after => rw [ends] at start; cases start; rfl
  | ok result after => rw [ends] at start; cases start
  | fault after => rw [ends] at start; cases start
  | noReturn after => rw [ends] at start; cases start

theorem bind_noReturn (first : Evaluates view program before (.noReturn middle)) :
    Evaluates view (program >>= next) before (.noReturn middle) := by
  intro state seen
  have start := first state seen
  rw [Program.bind_apply]
  cases ends : program state with
  | noReturn after => rw [ends] at start; cases start; rfl
  | ok result after => rw [ends] at start; cases start
  | throw exception after => rw [ends] at start; cases start
  | fault after => rw [ends] at start; cases start

theorem returned {state : σ} (evaluates : Evaluates view program (view state) (.ok value middle)) :
    ∃ after, program state = .ok value after ∧ view after = middle := by
  have shown := evaluates state rfl
  cases ends : program state with
  | ok result after =>
      rw [ends] at shown
      cases shown
      exact ⟨after, rfl, rfl⟩
  | throw exception after => rw [ends] at shown; cases shown
  | fault after => rw [ends] at shown; cases shown
  | noReturn after => rw [ends] at shown; cases shown

end Evaluates

/-! ## Programs that return, whatever the state -/

/-- From every state, `program` returns `value`. -/
def Returns (program : Program ε σ α) (value : α) : Prop :=
  ∀ before, ∃ after, program before = .ok value after

namespace Returns

variable {program : Program ε σ α} {next : α → Program ε σ β} {value other : α} {result : β}

theorem pure (value : α) : Returns (Pure.pure value : Program ε σ α) value :=
  fun before => ⟨before, rfl⟩

theorem modify (update : σ → σ) : Returns (Program.modify update : Program ε σ Unit) () :=
  fun before => ⟨update before, rfl⟩

theorem bind (first : Returns program value) (second : Returns (next value) result) :
    Returns (program >>= next) result := by
  intro before
  obtain ⟨middle, start⟩ := first before
  obtain ⟨after, ends⟩ := second middle
  exact ⟨after, (Program.bind_ok start).trans ends⟩

theorem unique [Nonempty σ] (left : Returns program value) (right : Returns program other) :
    value = other := by
  obtain ⟨before⟩ := ‹Nonempty σ›
  obtain ⟨_, ends⟩ := left before
  obtain ⟨_, same⟩ := right before
  exact (Outcome.ok.inj (ends.symm.trans same)).1

end Returns

/-- What holds one turn later. -/
theorem eventually_succ {holds : Nat → Prop}
    (later : ∀ᶠ fuel in Filter.atTop, holds (fuel + 1)) : ∀ᶠ fuel in Filter.atTop, holds fuel := by
  rw [← Filter.map_add_atTop_eq_nat 1]
  exact later

/-- With enough fuel, `program` returns `value` from every state. -/
def Yields (program : Nat → Program ε σ α) (value : α) : Prop :=
  ∃ enough, ∀ fuel, enough ≤ fuel → Returns (program fuel) value

namespace Yields

variable {program : Nat → Program ε σ α} {next : Nat → α → Program ε σ β} {value other : α}
  {result : β}

theorem of_returns {fixed : Program ε σ α} (returns : Returns fixed value) :
    Yields (fun _ => fixed) value := ⟨0, fun _ _ => returns⟩

theorem pure (value : α) : Yields (fun _ => (Pure.pure value : Program ε σ α)) value :=
  of_returns (.pure value)

theorem bind (first : Yields program value) (second : Yields (fun fuel => next fuel value) result) :
    Yields (fun fuel => program fuel >>= next fuel) result := by
  obtain ⟨early, starts⟩ := first
  obtain ⟨late, ends⟩ := second
  refine ⟨max early late, fun fuel enough => ?_⟩
  exact (starts fuel (by omega)).bind (ends fuel (by omega))

/-- One turn of a loop. -/
theorem succ {step : Nat → Program ε σ α} (turn : ∀ fuel, program (fuel + 1) = step fuel)
    (yields : Yields step value) : Yields program value := by
  obtain ⟨enough, returns⟩ := yields
  refine ⟨enough + 1, fun fuel more => ?_⟩
  obtain ⟨fuel, rfl⟩ : ∃ less, fuel = less + 1 := ⟨fuel - 1, by omega⟩
  rw [turn]
  exact returns fuel (by omega)

theorem eventually (yields : Yields program value) :
    ∀ᶠ fuel in Filter.atTop, Returns (program fuel) value :=
  Filter.eventually_atTop.mpr yields

theorem unique [Nonempty σ] (left : Yields program value) (right : Yields program other) :
    value = other := by
  obtain ⟨early, first⟩ := left
  obtain ⟨late, second⟩ := right
  exact (first (max early late) (by omega)).unique (second (max early late) (by omega))

end Yields

/-- `program` leaves the state as it is. -/
def Silent (program : Program ε σ α) : Prop := Frame Eq program

namespace Silent

variable {program other : Program ε σ α} {next : α → Program ε σ β}

theorem pure (value : α) : Silent (Pure.pure value : Program ε σ α) := fun _ => rfl

theorem fault : Silent (Program.fault : Program ε σ α) := fun _ => rfl

theorem bind (first : Silent program) (second : ∀ value, Silent (next value)) :
    Silent (program >>= next) :=
  Frame.bind (fun left right => left.trans right) first second

theorem ite {condition : Prop} [Decidable condition] (yes : Silent program)
    (no : Silent other) : Silent (if condition then program else other) :=
  Frame.ite yes no

end Silent

/-- With enough fuel, `program` returns `value` from every log, newest entry first, and
adds entries to it that are `allowed`. -/
def YieldsWithin {entry : Type} (allowed : entry → Prop)
    (program : Nat → Program ε (List entry) α) (value : α) : Prop :=
  ∃ enough, ∀ fuel, enough ≤ fuel → ∀ before, ∃ added,
    program fuel before = .ok value (added ++ before) ∧ ∀ new ∈ added, allowed new

namespace YieldsWithin

variable {entry : Type} {allowed : entry → Prop}
  {program : Nat → Program ε (List entry) α} {next : Nat → α → Program ε (List entry) β}
  {value : α} {result : β}

/-- A program that returns and logs nothing. -/
theorem of_silent {fixed : Program ε (List entry) α} (returns : Returns fixed value)
    (silent : Silent fixed) : YieldsWithin allowed (fun _ => fixed) value := by
  refine ⟨0, fun fuel _ before => ⟨[], ?_, by simp⟩⟩
  obtain ⟨after, ends⟩ := returns before
  have same := silent before
  rw [ends] at same
  show fixed before = .ok value before
  rw [ends, same]
  rfl

theorem pure (value : α) :
    YieldsWithin allowed (fun _ => (Pure.pure value : Program ε (List entry) α)) value :=
  ⟨0, fun _ _ _ => ⟨[], rfl, by simp⟩⟩

theorem log {new : entry} (permitted : allowed new) :
    YieldsWithin allowed
      (fun _ => (Program.modify (new :: ·) : Program ε (List entry) Unit)) () :=
  ⟨0, fun _ _ _ => ⟨[new], rfl, by simp [permitted]⟩⟩

theorem bind (first : YieldsWithin allowed program value)
    (second : YieldsWithin allowed (fun fuel => next fuel value) result) :
    YieldsWithin allowed (fun fuel => program fuel >>= next fuel) result := by
  obtain ⟨early, starts⟩ := first
  obtain ⟨late, ends⟩ := second
  refine ⟨max early late, fun fuel enough before => ?_⟩
  obtain ⟨old, start, oldAllowed⟩ := starts fuel (by omega) before
  obtain ⟨new, done, newAllowed⟩ := ends fuel (by omega) (old ++ before)
  refine ⟨new ++ old, ?_, ?_⟩
  · rw [List.append_assoc]
    exact (Program.bind_ok start).trans done
  · intro some member
    rcases List.mem_append.mp member with later | earlier
    · exact newAllowed some later
    · exact oldAllowed some earlier

/-- One turn of a loop. -/
theorem succ {step : Nat → Program ε (List entry) α} (turn : ∀ fuel, program (fuel + 1) = step fuel)
    (yields : YieldsWithin allowed step value) : YieldsWithin allowed program value := by
  obtain ⟨enough, returns⟩ := yields
  refine ⟨enough + 1, fun fuel more => ?_⟩
  obtain ⟨fuel, rfl⟩ : ∃ less, fuel = less + 1 := ⟨fuel - 1, by omega⟩
  rw [turn]
  exact returns fuel (by omega)

theorem yields (within : YieldsWithin allowed program value) : Yields program value := by
  obtain ⟨enough, returns⟩ := within
  refine ⟨enough, fun fuel more before => ?_⟩
  obtain ⟨added, ends, _⟩ := returns fuel more before
  exact ⟨added ++ before, ends⟩

end YieldsWithin

/-- With enough fuel, `program` raises `exception` from every state. -/
def Raises (program : Nat → Program ε σ α) (exception : ε) : Prop :=
  ∃ enough, ∀ fuel, enough ≤ fuel → ∀ before, ∃ after,
    program fuel before = .throw exception after

namespace Raises

variable {program : Nat → Program ε σ α} {next : Nat → α → Program ε σ β} {value : α}
  {exception : ε}

theorem throw (exception : ε) :
    Raises (fun _ => (Program.throw exception : Program ε σ α)) exception :=
  ⟨0, fun _ _ before => ⟨before, rfl⟩⟩

/-- The exception of the first program ends the whole. -/
theorem bind (first : Raises program exception) :
    Raises (fun fuel => program fuel >>= next fuel) exception := by
  obtain ⟨enough, raises⟩ := first
  refine ⟨enough, fun fuel more before => ?_⟩
  obtain ⟨after, ends⟩ := raises fuel more before
  exact ⟨after, Program.bind_throw ends⟩

theorem of_bind (first : Yields program value)
    (second : Raises (fun fuel => next fuel value) exception) :
    Raises (fun fuel => program fuel >>= next fuel) exception := by
  obtain ⟨early, starts⟩ := first
  obtain ⟨late, raises⟩ := second
  refine ⟨max early late, fun fuel enough before => ?_⟩
  obtain ⟨middle, start⟩ := starts fuel (by omega) before
  obtain ⟨after, ends⟩ := raises fuel (by omega) middle
  exact ⟨after, (Program.bind_ok start).trans ends⟩

theorem succ {step : Nat → Program ε σ α} (turn : ∀ fuel, program (fuel + 1) = step fuel)
    (raises : Raises step exception) : Raises program exception := by
  obtain ⟨enough, raised⟩ := raises
  refine ⟨enough + 1, fun fuel more => ?_⟩
  obtain ⟨fuel, rfl⟩ : ∃ less, fuel = less + 1 := ⟨fuel - 1, by omega⟩
  rw [turn]
  exact raised fuel (by omega)

/-- A program does not do both. -/
theorem not_yields [Nonempty σ] (raises : Raises program exception) (value : α) :
    ¬ Yields program value := by
  rintro ⟨early, returns⟩
  obtain ⟨late, raised⟩ := raises
  obtain ⟨before⟩ := ‹Nonempty σ›
  obtain ⟨_, ends⟩ := returns (max early late) (by omega) before
  obtain ⟨_, other⟩ := raised (max early late) (by omega) before
  rw [ends] at other
  cases other

end Raises

/-- With enough fuel, `program` comes to where it ends as `next` does. -/
def GoesOnAs (program next : Nat → Program ε σ α) : Prop :=
  ∃ enough used, ∀ fuel, enough ≤ fuel → ∀ before, ∃ after,
    program (fuel + used) before = next fuel after

namespace GoesOnAs

variable {program next last : Nat → Program ε σ α} {value : α} {exception : ε}

theorem refl (program : Nat → Program ε σ α) : GoesOnAs program program :=
  ⟨0, 0, fun _ _ before => ⟨before, rfl⟩⟩

theorem trans (first : GoesOnAs program next) (second : GoesOnAs next last) :
    GoesOnAs program last := by
  obtain ⟨early, used, starts⟩ := first
  obtain ⟨late, more, ends⟩ := second
  refine ⟨max early late, more + used, fun fuel enough before => ?_⟩
  obtain ⟨middle, start⟩ := starts (fuel + more) (by omega) before
  obtain ⟨after, rest⟩ := ends fuel (by omega) middle
  rw [Nat.add_assoc] at start
  exact ⟨after, start.trans rest⟩

theorem bind {first : Nat → Program ε σ β} {rest : Nat → β → Program ε σ α} {value : β}
    (yields : Yields first value) :
    GoesOnAs (fun fuel => first fuel >>= rest fuel) (fun fuel => rest fuel value) := by
  obtain ⟨enough, returns⟩ := yields
  refine ⟨enough, 0, fun fuel more before => ?_⟩
  obtain ⟨after, ends⟩ := returns fuel more before
  exact ⟨after, Program.bind_ok ends⟩

theorem succ {step : Nat → Program ε σ α} (turn : ∀ fuel, program (fuel + 1) = step fuel) :
    GoesOnAs program step :=
  ⟨0, 1, fun fuel _ before => ⟨before, congrFun (turn fuel) before⟩⟩

theorem yields (goesOn : GoesOnAs program next) (ends : Yields next value) :
    Yields program value := by
  obtain ⟨early, used, starts⟩ := goesOn
  obtain ⟨late, returns⟩ := ends
  refine ⟨max early late + used, fun fuel enough before => ?_⟩
  obtain ⟨fuel, rfl⟩ : ∃ less, fuel = less + used := ⟨fuel - used, by omega⟩
  obtain ⟨middle, start⟩ := starts fuel (by omega) before
  obtain ⟨after, rest⟩ := returns fuel (by omega) middle
  exact ⟨after, start.trans rest⟩

theorem raises (goesOn : GoesOnAs program next) (ends : Raises next exception) :
    Raises program exception := by
  obtain ⟨early, used, starts⟩ := goesOn
  obtain ⟨late, raised⟩ := ends
  refine ⟨max early late + used, fun fuel enough before => ?_⟩
  obtain ⟨fuel, rfl⟩ : ∃ less, fuel = less + used := ⟨fuel - used, by omega⟩
  obtain ⟨middle, start⟩ := starts fuel (by omega) before
  obtain ⟨after, rest⟩ := raised fuel (by omega) middle
  exact ⟨after, start.trans rest⟩

end GoesOnAs

/-! ## Programs that may end in any way -/

/-- If `program` returns, `ok` holds of the value, and if it raises, `raised` of the
exception. -/
def Ensures (program : Program ε σ α) (ok : α → Prop) (raised : ε → Prop) : Prop :=
  ∀ before, wp program ⟨fun value _ => ok value, fun exception _ => raised exception,
    fun _ => True, fun _ => True⟩ before

namespace Ensures

variable {program other : Program ε σ α} {next : α → Program ε σ β} {ok : α → Prop}
  {last : β → Prop} {raised : ε → Prop}

theorem pure {value : α} (holds : ok value) :
    Ensures (Pure.pure value : Program ε σ α) ok raised := fun _ => holds

theorem throw {exception : ε} (holds : raised exception) :
    Ensures (Program.throw exception : Program ε σ α) ok raised := fun _ => holds

theorem fault : Ensures (Program.fault : Program ε σ α) ok raised := fun _ => trivial

theorem noReturn : Ensures (Program.noReturn : Program ε σ α) ok raised := fun _ => trivial

theorem modify (update : σ → σ) :
    Ensures (Program.modify update : Program ε σ Unit) (fun _ => True) raised := fun _ => trivial

theorem bind (first : Ensures program ok raised)
    (second : ∀ value, ok value → Ensures (next value) last raised) :
    Ensures (program >>= next) last raised := by
  intro before
  rw [wp_bind]
  refine wp_mono (first before) ⟨?_, fun _ _ raises => raises, fun _ _ => trivial,
    fun _ _ => trivial⟩
  intro value middle holds
  exact second value holds middle

theorem ite {condition : Prop} [Decidable condition]
    (yes : condition → Ensures program ok raised) (no : ¬ condition → Ensures other ok raised) :
    Ensures (if condition then program else other) ok raised := by
  intro before
  rw [wp_ite]
  exact ⟨fun holds => yes holds before, fun fails => no fails before⟩

theorem consequence {weaker : α → Prop} {rarer : ε → Prop} (ensures : Ensures program ok raised)
    (implies : ∀ value, ok value → weaker value)
    (explains : ∀ exception, raised exception → rarer exception) :
    Ensures program weaker rarer := by
  intro before
  exact wp_mono (ensures before) ⟨fun value _ => implies value,
    fun exception _ => explains exception, fun _ _ => trivial, fun _ _ => trivial⟩

theorem mono {weaker : α → Prop} (ensures : Ensures program ok raised)
    (implies : ∀ value, ok value → weaker value) : Ensures program weaker raised :=
  ensures.consequence implies fun _ raises => raises

theorem of_returns {value : α} (returns : Returns program value) :
    Ensures program (fun result => result = value) raised := by
  intro before
  obtain ⟨after, ends⟩ := returns before
  unfold wp
  rw [ends]
  rfl

/-- What is ensured of every run holds of the value returned. -/
theorem yields [Nonempty σ] {program : Nat → Program ε σ α}
    (ensures : ∀ fuel, Ensures (program fuel) ok raised) {value : α}
    (yields : Yields program value) : ok value := by
  obtain ⟨enough, returns⟩ := yields
  obtain ⟨before⟩ := ‹Nonempty σ›
  obtain ⟨after, ends⟩ := returns enough (Nat.le_refl enough) before
  exact (ensures enough before).ok ends

theorem raises [Nonempty σ] {program : Nat → Program ε σ α}
    (ensures : ∀ fuel, Ensures (program fuel) ok raised) {exception : ε}
    (raises : Raises program exception) : raised exception := by
  obtain ⟨enough, thrown⟩ := raises
  obtain ⟨before⟩ := ‹Nonempty σ›
  obtain ⟨after, ends⟩ := thrown enough (Nat.le_refl enough) before
  exact (ensures enough before).throw ends

end Ensures

/-! ## A program and its part that keeps to what is allowed -/

/-- `part` does what `full` does as long as only `allowed` entries are logged, and
faults where another one is. -/
def Restricts {entry : Type} (allowed : entry → Prop)
    (full part : Program ε (List entry) α) : Prop :=
  ∀ before, ∃ added, (full before).state = added ++ before ∧
    ((∀ new ∈ added, allowed new) ∧ part before = full before ∨
      (∃ new ∈ added, ¬ allowed new) ∧ ∃ after, part before = .fault after)

namespace Restricts

variable {entry : Type} {allowed : entry → Prop} {full part : Program ε (List entry) α}
  {next rest : α → Program ε (List entry) β}

/-- A program that logs nothing is its own part. -/
theorem of_silent (silent : Silent full) : Restricts allowed full full :=
  fun before => ⟨[], (silent before).symm, .inl ⟨by simp, rfl⟩⟩

theorem pure (value : α) :
    Restricts allowed (Pure.pure value : Program ε (List entry) α) (Pure.pure value) :=
  of_silent (.pure value)

theorem throw (exception : ε) :
    Restricts allowed (Program.throw exception : Program ε (List entry) α)
      (Program.throw exception) :=
  of_silent fun _ => rfl

theorem noReturn :
    Restricts allowed (Program.noReturn : Program ε (List entry) α) Program.noReturn :=
  of_silent fun _ => rfl

/-- What a program logs stays in the log of what follows. -/
theorem bind_logged {before old : List entry} (logged : (full before).state = old ++ before)
    (grows : ∀ value middle, ∃ new, (next value middle).state = new ++ middle) :
    ∃ new, ((full >>= next) before).state = new ++ (old ++ before) := by
  rw [Program.bind_apply]
  cases ends : full before with
  | ok value middle =>
      rw [ends] at logged
      obtain rfl : middle = old ++ before := logged
      exact grows value (old ++ before)
  | throw exception after => exact ⟨[], by rwa [ends] at logged⟩
  | fault after => exact ⟨[], by rwa [ends] at logged⟩
  | noReturn after => exact ⟨[], by rwa [ends] at logged⟩

theorem bind (first : Restricts allowed full part)
    (second : ∀ value, Restricts allowed (next value) (rest value)) :
    Restricts allowed (full >>= next) (part >>= rest) := by
  intro before
  obtain ⟨old, logged, same | outside⟩ := first before
  · obtain ⟨permitted, same⟩ := same
    rw [Program.bind_apply, Program.bind_apply, same]
    cases ends : full before with
    | ok value middle =>
        rw [ends] at logged
        obtain rfl : middle = old ++ before := logged
        obtain ⟨new, later, rest⟩ := second value (old ++ before)
        refine ⟨new ++ old, by rw [later, List.append_assoc], ?_⟩
        cases rest with
        | inl inside =>
            refine .inl ⟨fun some member => ?_, inside.2⟩
            cases List.mem_append.mp member with
            | inl late => exact inside.1 some late
            | inr early => exact permitted some early
        | inr outside =>
            obtain ⟨⟨some, member, forbidden⟩, faults⟩ := outside
            exact .inr ⟨⟨some, List.mem_append_left old member, forbidden⟩, faults⟩
    | throw exception after => exact ⟨old, by rwa [ends] at logged, .inl ⟨permitted, rfl⟩⟩
    | fault after => exact ⟨old, by rwa [ends] at logged, .inl ⟨permitted, rfl⟩⟩
    | noReturn after => exact ⟨old, by rwa [ends] at logged, .inl ⟨permitted, rfl⟩⟩
  · obtain ⟨⟨some, member, forbidden⟩, after, faults⟩ := outside
    have grows (value : α) (middle : List entry) :
        ∃ new, (next value middle).state = new ++ middle := by
      obtain ⟨new, later, _⟩ := second value middle
      exact ⟨new, later⟩
    obtain ⟨new, later⟩ := bind_logged logged grows
    have faulted : (part >>= rest) before = .fault after := by
      rw [Program.bind_apply, faults]
    exact ⟨new ++ old, by rw [later, List.append_assoc],
      .inr ⟨⟨some, List.mem_append_right new member, forbidden⟩, after, faulted⟩⟩

theorem ite {condition : Prop} [Decidable condition] {other less : Program ε (List entry) α}
    (yes : Restricts allowed full part) (no : Restricts allowed other less) :
    Restricts allowed (if condition then full else other) (if condition then part else less) := by
  by_cases holds : condition
  · rwa [if_pos holds, if_pos holds]
  · rwa [if_neg holds, if_neg holds]

/-- Keeping to what is allowed is returning from the part. -/
theorem yieldsWithin_iff {full part : Nat → Program ε (List entry) α}
    (restricts : ∀ fuel, Restricts allowed (full fuel) (part fuel)) (value : α) :
    YieldsWithin allowed full value ↔ Yields part value := by
  constructor
  · intro within
    obtain ⟨enough, returns⟩ := within
    refine ⟨enough, fun fuel more before => ?_⟩
    obtain ⟨added, ends, permitted⟩ := returns fuel more before
    obtain ⟨other, logged, same | outside⟩ := restricts fuel before
    · exact ⟨added ++ before, by rw [same.2, ends]⟩
    · obtain ⟨some, member, forbidden⟩ := outside.1
      rw [ends] at logged
      have together : added = other := List.append_cancel_right logged
      exact absurd (permitted some (together ▸ member)) forbidden
  · intro yields
    obtain ⟨enough, returns⟩ := yields
    refine ⟨enough, fun fuel more before => ?_⟩
    obtain ⟨after, ends⟩ := returns fuel more before
    obtain ⟨added, logged, same | outside⟩ := restricts fuel before
    · rw [ends] at same
      rw [← same.2] at logged
      obtain rfl : after = added ++ before := logged
      exact ⟨added, same.2.symm, same.1⟩
    · obtain ⟨_, faults⟩ := outside.2
      rw [ends] at faults
      cases faults

end Restricts

end ProgramLogic
