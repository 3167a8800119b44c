/-!
Contract: runs of a labelled transition relation.

Owns: `Run`, the composition of runs, and the rule that a property kept by
every step of a run holds in the state the run ends in.

Does not own: any particular relation.
-/

namespace Transition

variable {Label State : Type}

/-- `Run step first labels last`: `labels`, oldest first, lead from `first` to
`last`. -/
inductive Run (step : Label → State → State → Prop) (first : State) :
    List Label → State → Prop where
  | refl : Run step first [] first
  | tail {labels : List Label} {middle last : State} {label : Label} :
      Run step first labels middle → step label middle last →
        Run step first (labels ++ [label]) last

namespace Run

variable {step weaker : Label → State → State → Prop} {first last : State}
  {labels : List Label}

/-- A property that holds at first and that every step keeps holds at last. -/
theorem invariant (property : State → Prop) (start : property first)
    (kept : ∀ label before after, property before → step label before after →
      property after)
    (run : Run step first labels last) : property last := by
  induction run with
  | refl => exact start
  | tail _ taken inductionHypothesis => exact kept _ _ _ inductionHypothesis taken

/-- A run of the stronger relation is a run of the weaker one. -/
theorem mono (implies : ∀ label before after, step label before after →
      weaker label before after)
    (run : Run step first labels last) : Run weaker first labels last := by
  induction run with
  | refl => exact .refl
  | tail _ taken inductionHypothesis =>
      exact .tail inductionHypothesis (implies _ _ _ taken)

/-- A run whose labels are all allowed is a run of the allowed steps. -/
theorem restrict {allowed : Label → Prop} (run : Run step first labels last)
    (each : ∀ label ∈ labels, allowed label) :
    Run (fun label before after => allowed label ∧ step label before after) first labels last := by
  induction run with
  | refl => exact .refl
  | tail _ taken inductionHypothesis =>
      have early := inductionHypothesis fun label member =>
        each label (List.mem_append_left _ member)
      exact .tail early ⟨each _ (List.mem_append_right _ (List.mem_singleton.mpr rfl)), taken⟩

/-- A measure that the counted steps decrease and no step increases bounds their number. -/
theorem count_le (counted : Label → Bool) (measure : State → Nat) (property : State → Prop)
    (start : property first)
    (kept : ∀ label before after, property before → step label before after → property after)
    (decreases : ∀ label before after, property before → step label before after →
      measure after + (if counted label then 1 else 0) ≤ measure before)
    (run : Run step first labels last) :
    labels.countP counted + measure last ≤ measure first := by
  induction run with
  | refl => simp
  | @tail labels middle last label early taken inductionHypothesis =>
      have there := early.invariant property start kept
      have less := decreases label middle last there taken
      rw [List.countP_append, List.countP_singleton]
      omega

/-- One step is a run. -/
theorem single {label : Label} (taken : step label first last) :
    Run step first [label] last := by
  simpa using Run.tail Run.refl taken

/-- Runs compose. -/
theorem trans {middle : State} {later : List Label} (early : Run step first labels middle)
    (late : Run step middle later last) : Run step first (labels ++ later) last := by
  induction late with
  | refl => simpa using early
  | tail _ taken inductionHypothesis =>
      rw [← List.append_assoc]
      exact .tail inductionHypothesis taken

end Run

end Transition
