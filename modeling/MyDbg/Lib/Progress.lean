import MyDbg.Lib.Program

/-!
Contract: programs that do not give up by themselves.

Owns: `Progresses`, that a program only loses control where it is stuck, or once a
measure of what it has done has grown by a bound; `Deepens`, that a program with more
fuel does the same until then; and how both compose.

Does not own: any particular measure.
-/

namespace ProgramLogic

variable {ε σ α β : Type}

/-- The measure never falls, and `program` only loses control where it is stuck or once
the measure has grown by `bound`. -/
def Progresses (measure : σ → Nat) (stuck : σ → Prop) (bound : Nat) (program : Program ε σ α) :
    Prop :=
  ∀ before, wp program
    { ok := fun _ after => measure before ≤ measure after
      throw := fun _ after => measure before ≤ measure after
      fault := fun _ => True
      noReturn := fun after => stuck after ∨ measure before + bound ≤ measure after } before

/-- `more` does what `less` does, unless `less` gave up after the measure had grown by
`bound`. -/
def Deepens (measure : σ → Nat) (bound : Nat) (less more : Program ε σ α) : Prop :=
  ∀ before, more before = less before ∨
    ∃ after, less before = .noReturn after ∧ measure before + bound ≤ measure after

section Rules

variable {measure : σ → Nat} {stuck : σ → Prop} {bound : Nat} {program : Program ε σ α}

namespace Progresses

theorem pure (value : α) : Progresses measure stuck bound (Pure.pure value : Program ε σ α) :=
  fun _ => Nat.le_refl _

theorem gets (read : σ → α) :
    Progresses measure stuck bound (Program.gets read : Program ε σ α) :=
  fun _ => Nat.le_refl _

theorem throw (exception : ε) :
    Progresses measure stuck bound (Program.throw exception : Program ε σ α) :=
  fun _ => Nat.le_refl _

theorem fault : Progresses measure stuck bound (Program.fault : Program ε σ α) :=
  fun _ => trivial

theorem modify {update : σ → σ} (grows : ∀ state, measure state ≤ measure (update state)) :
    Progresses measure stuck bound (Program.modify update : Program ε σ Unit) := grows

/-- What it does counts from any earlier state too. -/
theorem later (progresses : Progresses measure stuck bound program) {before middle : σ}
    (grown : measure before ≤ measure middle) :
    wp program
      { ok := fun _ after => measure before ≤ measure after
        throw := fun _ after => measure before ≤ measure after
        fault := fun _ => True
        noReturn := fun after => stuck after ∨ measure before + bound ≤ measure after } middle := by
  refine wp_mono (progresses middle)
    ⟨fun _ _ more => Nat.le_trans grown more, fun _ _ more => Nat.le_trans grown more,
      fun _ _ => trivial, fun after lost => ?_⟩
  exact lost.imp_right (Nat.le_trans (Nat.add_le_add_right grown bound))

theorem bind {next : α → Program ε σ β} (first : Progresses measure stuck bound program)
    (second : ∀ value, Progresses measure stuck bound (next value)) :
    Progresses measure stuck bound (program >>= next) := by
  intro before
  rw [wp_bind]
  exact wp_mono (first before)
    ⟨fun value _ grown => (second value).later grown, fun _ _ grown => grown,
      fun _ _ => trivial, fun _ lost => lost⟩

theorem ite {condition : Prop} [Decidable condition] {no : Program ε σ α}
    (yes : Progresses measure stuck bound program)
    (other : Progresses measure stuck bound no) :
    Progresses measure stuck bound (if condition then program else no) := by
  split
  · exact yes
  · exact other

theorem when {program : Program ε σ Unit} (condition : Bool)
    (progresses : Progresses measure stuck bound program) :
    Progresses measure stuck bound (Program.when condition program) :=
  ite progresses (pure ())

theorem forSome {program : β → Program ε σ Unit} (pointer : Option β)
    (progresses : ∀ value, Progresses measure stuck bound (program value)) :
    Progresses measure stuck bound (Program.forSome pointer program) := by
  cases pointer with
  | some value => exact progresses value
  | none => exact pure ()

theorem attempt {completes : α → Program ε σ β} {handles : ε → Program ε σ β}
    (first : Progresses measure stuck bound program)
    (returns : ∀ value, Progresses measure stuck bound (completes value))
    (raises : ∀ exception, Progresses measure stuck bound (handles exception)) :
    Progresses measure stuck bound (program.attempt completes handles) := by
  intro before
  rw [wp_attempt]
  exact wp_mono (first before)
    ⟨fun value _ grown => (returns value).later grown,
      fun raised _ grown => (raises raised).later grown, fun _ _ => trivial,
      fun _ lost => lost⟩

theorem zoom {τ : Type} {part : Part σ τ} {inner : τ → Nat} {blocked : τ → Prop}
    {program : Program ε τ α} (progresses : Progresses inner blocked bound program)
    (measures : ∀ state, inner (part.get state) = measure state)
    (sticks : ∀ state after, blocked after → stuck (part.set state after)) :
    Progresses measure stuck bound (zoom part program) := by
  intro before
  have here := measures before
  have set (after : τ) : inner after = measure (part.set before after) := by
    rw [← measures, part.get_set]
  rw [wp_zoom]
  refine wp_mono (progresses (part.get before))
    ⟨fun _ after grown => ?_, fun _ after grown => ?_, fun _ _ => trivial, fun after lost => ?_⟩
  · change measure before ≤ measure (part.set before after)
    rw [← set, ← here]
    exact grown
  · change measure before ≤ measure (part.set before after)
    rw [← set, ← here]
    exact grown
  · change stuck (part.set before after) ∨ _ ≤ measure (part.set before after)
    rw [← set, ← here]
    exact lost.imp_left (sticks before after)

theorem mono {less : Nat} (progresses : Progresses measure stuck bound program)
    (fewer : less ≤ bound) : Progresses measure stuck less program := fun before =>
  wp_mono (progresses before)
    ⟨fun _ _ grown => grown, fun _ _ grown => grown, fun _ _ => trivial,
      fun _ lost => lost.imp_right (Nat.le_trans (Nat.add_le_add_left fewer _))⟩

end Progresses

namespace Deepens

variable {less more : Program ε σ α}

theorem refl (program : Program ε σ α) : Deepens measure bound program program :=
  fun _ => .inl rfl

theorem bind {next later : α → Program ε σ β} (first : Deepens measure bound less more)
    (grows : Progresses measure stuck bound less)
    (second : ∀ value, Deepens measure bound (next value) (later value)) :
    Deepens measure bound (less >>= next) (more >>= later) := by
  intro before
  have grown := grows before
  unfold wp at grown
  rw [Program.bind_apply, Program.bind_apply]
  rcases first before with same | ⟨after, lost, far⟩
  · rw [same]
    cases outcome : less before with
    | ok value middle =>
        rw [outcome] at grown
        rcases second value middle with same | ⟨after, lost, far⟩
        · exact .inl same
        · exact .inr ⟨after, lost, Nat.le_trans (Nat.add_le_add_right grown bound) far⟩
    | throw exception after => exact .inl rfl
    | fault after => exact .inl rfl
    | noReturn after => exact .inl rfl
  · rw [lost]
    exact .inr ⟨after, rfl, far⟩

theorem attempt {completes : α → Program ε σ β} {handles : ε → Program ε σ β}
    (first : Deepens measure bound less more) :
    Deepens measure bound (less.attempt completes handles) (more.attempt completes handles) := by
  intro before
  rw [Program.attempt_apply, Program.attempt_apply]
  rcases first before with same | ⟨after, lost, far⟩
  · rw [same]
    exact .inl rfl
  · rw [lost]
    exact .inr ⟨after, rfl, far⟩

theorem ite {condition : Prop} [Decidable condition] {other rest : Program ε σ α}
    (yes : Deepens measure bound less more) (no : Deepens measure bound other rest) :
    Deepens measure bound (if condition then less else other)
      (if condition then more else rest) := by
  split
  · exact yes
  · exact no

theorem zoom {τ : Type} {part : Part σ τ} {inner : τ → Nat} {less more : Program ε τ α}
    (deepens : Deepens inner bound less more)
    (measures : ∀ state, inner (part.get state) = measure state) :
    Deepens measure bound (zoom part less) (zoom part more) := by
  intro before
  unfold ProgramLogic.zoom
  rcases deepens (part.get before) with same | ⟨after, lost, far⟩
  · rw [same]
    exact .inl rfl
  · rw [lost]
    refine .inr ⟨part.set before after, rfl, ?_⟩
    rw [← measures, ← measures, part.get_set]
    exact far

end Deepens

end Rules

end ProgramLogic
