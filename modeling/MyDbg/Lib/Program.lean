import Mathlib.Order.Defs.PartialOrder

/-!
Contract: programs with a state, exceptions, undefined behaviour and calls
that never return, and the rules for reasoning about them.

Owns: the `Outcome` of running a program, the `Program` monad, weakest
preconditions with one postcondition for each kind of outcome, triples of them
with a precondition, and the two rules every development needs on top of them:
an invariant kept by each part is kept by the whole (`Preserves`), and so is a
reflexive and transitive relation between the state before and the state after
(`Frame`); programs that come back (`Completes`); and programs that run on a
part of the state (`zoom`).

Does not own: any particular state, exception type or primitive operation.
-/

namespace ProgramLogic

variable {ε σ α β : Type}

/-- How a program can end. Every outcome keeps the state it was reached in. -/
inductive Outcome (ε σ α : Type) where
  | ok (value : α) (state : σ)
  | throw (exception : ε) (state : σ)
  /-- Undefined behaviour: nothing is promised about what happens next. -/
  | fault (state : σ)
  /-- The program never gives control back: it blocks, loops or exits. -/
  | noReturn (state : σ)

/-- The state an outcome was reached in. -/
def Outcome.state : Outcome ε σ α → σ
  | .ok _ state => state
  | .throw _ state => state
  | .fault state => state
  | .noReturn state => state

@[simp] theorem Outcome.state_ok (value : α) (state : σ) :
    (Outcome.ok value state : Outcome ε σ α).state = state := rfl

@[simp] theorem Outcome.state_throw (exception : ε) (state : σ) :
    (Outcome.throw exception state : Outcome ε σ α).state = state := rfl

@[simp] theorem Outcome.state_fault (state : σ) :
    (Outcome.fault state : Outcome ε σ α).state = state := rfl

@[simp] theorem Outcome.state_noReturn (state : σ) :
    (Outcome.noReturn state : Outcome ε σ α).state = state := rfl

/-- A program maps the state it starts in to its outcome. -/
def Program (ε σ α : Type) : Type := σ → Outcome ε σ α

namespace Program

protected def pure (value : α) : Program ε σ α := fun state => .ok value state

protected def bind (first : Program ε σ α) (next : α → Program ε σ β) : Program ε σ β :=
  fun state =>
    match first state with
    | .ok value state => next value state
    | .throw exception state => .throw exception state
    | .fault state => .fault state
    | .noReturn state => .noReturn state

instance : Monad (Program ε σ) where
  pure := Program.pure
  bind := Program.bind

/-- Read a value off the state. -/
def gets (read : σ → α) : Program ε σ α := fun state => .ok (read state) state

/-- Change the state. -/
def modify (update : σ → σ) : Program ε σ Unit := fun state => .ok () (update state)

/-- Raise an exception. -/
def throw (exception : ε) : Program ε σ α := fun state => .throw exception state

/-- Run into undefined behaviour. -/
def fault : Program ε σ α := fun state => .fault state

/-- Never give control back. -/
def noReturn : Program ε σ α := fun state => .noReturn state

/-- `if (condition) program;` -/
def when (condition : Bool) (program : Program ε σ Unit) : Program ε σ Unit :=
  if condition then program else pure ()

/-- `if (pointer) program(pointer);` -/
def forSome (pointer : Option β) (program : β → Program ε σ Unit) : Program ε σ Unit :=
  match pointer with
  | some value => program value
  | none => pure ()

/-- Run `program`, and go on with `completes` where it returns and with
`handles` where it raises. -/
def attempt (program : Program ε σ α) (completes : α → Program ε σ β)
    (handles : ε → Program ε σ β) : Program ε σ β := fun state =>
  match program state with
  | .ok value state => completes value state
  | .throw exception state => handles exception state
  | .fault state => .fault state
  | .noReturn state => .noReturn state

theorem attempt_apply (program : Program ε σ α) (completes : α → Program ε σ β)
    (handles : ε → Program ε σ β) (state : σ) :
    program.attempt completes handles state =
      match program state with
      | .ok value state => completes value state
      | .throw exception state => handles exception state
      | .fault state => .fault state
      | .noReturn state => .noReturn state := rfl

@[simp] theorem pure_apply (value : α) (state : σ) :
    (pure value : Program ε σ α) state = .ok value state := rfl

theorem bind_apply (first : Program ε σ α) (next : α → Program ε σ β) (state : σ) :
    (first >>= next) state =
      match first state with
      | .ok value state => next value state
      | .throw exception state => .throw exception state
      | .fault state => .fault state
      | .noReturn state => .noReturn state := rfl

/-- What the first program returns is passed on to the second. -/
theorem bind_assoc {γ : Type} (first : Program ε σ α) (next : α → Program ε σ β)
    (last : β → Program ε σ γ) :
    first >>= next >>= last = first >>= fun value => next value >>= last := by
  funext state
  simp only [bind_apply]
  cases first state <;> rfl

theorem bind_ok {first : Program ε σ α} {next : α → Program ε σ β} {value : α}
    {before after : σ} (ends : first before = .ok value after) :
    (first >>= next) before = next value after := by
  simp only [bind_apply, ends]

@[simp] theorem bind_throw {first : Program ε σ α} {next : α → Program ε σ β}
    {exception : ε} {before after : σ} (ends : first before = .throw exception after) :
    (first >>= next) before = .throw exception after := by
  simp only [bind_apply, ends]

end Program

/-! ## Weakest preconditions -/

/-- One postcondition for each kind of outcome. -/
structure Post (ε σ α : Type) where
  ok : α → σ → Prop
  throw : ε → σ → Prop
  fault : σ → Prop
  noReturn : σ → Prop

namespace Post

/-- The same assertion about the state, however the program ends. -/
def always (assertion : σ → Prop) : Post ε σ α where
  ok _ := assertion
  throw _ := assertion
  fault := assertion
  noReturn := assertion

/-- Nothing is asserted of the outcomes other than a return. -/
abbrev onReturn (ok : α → σ → Prop) : Post ε σ α where
  ok := ok
  throw _ _ := True
  fault _ := True
  noReturn _ := True

/-- What `post` asserts of one outcome. -/
def Holds (post : Post ε σ α) : Outcome ε σ α → Prop
  | .ok value state => post.ok value state
  | .throw exception state => post.throw exception state
  | .fault state => post.fault state
  | .noReturn state => post.noReturn state

@[simp] theorem always_holds (assertion : σ → Prop) (outcome : Outcome ε σ α) :
    (always assertion).Holds outcome ↔ assertion outcome.state := by
  cases outcome <;> rfl

/-- Pointwise implication between postconditions. -/
structure Implies (strong weak : Post ε σ α) : Prop where
  ok : ∀ value state, strong.ok value state → weak.ok value state
  throw : ∀ exception state, strong.throw exception state → weak.throw exception state
  fault : ∀ state, strong.fault state → weak.fault state
  noReturn : ∀ state, strong.noReturn state → weak.noReturn state

end Post

/-- `post` holds of the outcome of `program` started in `state`. -/
def wp (program : Program ε σ α) (post : Post ε σ α) (state : σ) : Prop :=
  post.Holds (program state)

section Rules

variable {post : Post ε σ α} {state : σ}

@[simp] theorem wp_pure (value : α) :
    wp (pure value : Program ε σ α) post state ↔ post.ok value state := Iff.rfl

@[simp] theorem wp_gets (read : σ → α) :
    wp (Program.gets read : Program ε σ α) post state ↔ post.ok (read state) state := Iff.rfl

@[simp] theorem wp_modify {post : Post ε σ Unit} (update : σ → σ) :
    wp (Program.modify update) post state ↔ post.ok () (update state) := Iff.rfl

@[simp] theorem wp_throw (exception : ε) :
    wp (Program.throw exception : Program ε σ α) post state ↔ post.throw exception state :=
  Iff.rfl

@[simp] theorem wp_fault :
    wp (Program.fault : Program ε σ α) post state ↔ post.fault state := Iff.rfl

@[simp] theorem wp_noReturn :
    wp (Program.noReturn : Program ε σ α) post state ↔ post.noReturn state := Iff.rfl

@[simp] theorem wp_bind (first : Program ε σ α) (next : α → Program ε σ β)
    (post : Post ε σ β) :
    wp (first >>= next) post state ↔
      wp first
        { ok := fun value after => wp (next value) post after
          throw := post.throw
          fault := post.fault
          noReturn := post.noReturn } state := by
  unfold wp
  rw [Program.bind_apply]
  cases first state <;> rfl

theorem wp_attempt (program : Program ε σ α) (completes : α → Program ε σ β)
    (handles : ε → Program ε σ β) (post : Post ε σ β) :
    wp (program.attempt completes handles) post state ↔
      wp program
        { ok := fun value after => wp (completes value) post after
          throw := fun exception after => wp (handles exception) post after
          fault := post.fault
          noReturn := post.noReturn } state := by
  unfold wp
  rw [Program.attempt_apply]
  cases program state <;> rfl

/-- The rest of a program whose first part is known to return. -/
theorem wp_bind_ok {first : Program ε σ α} {next : α → Program ε σ β} {post : Post ε σ β}
    {value : α} {before after : σ} (ends : first before = .ok value after) :
    wp (first >>= next) post before ↔ wp (next value) post after := by
  unfold wp
  rw [Program.bind_ok ends]

theorem wp_ite (condition : Prop) [Decidable condition] (yes no : Program ε σ α) :
    wp (if condition then yes else no) post state ↔
      (condition → wp yes post state) ∧ (¬ condition → wp no post state) := by
  split <;> simp_all

theorem wp_when {post : Post ε σ Unit} (condition : Bool) (program : Program ε σ Unit) :
    wp (Program.when condition program) post state ↔
      (condition = true → wp program post state) ∧ (condition = false → post.ok () state) := by
  cases condition <;> simp [Program.when]

@[simp] theorem wp_forSome_none {post : Post ε σ Unit} (program : β → Program ε σ Unit) :
    wp (Program.forSome none program) post state ↔ post.ok () state := Iff.rfl

@[simp] theorem wp_forSome_some {post : Post ε σ Unit} (value : β)
    (program : β → Program ε σ Unit) :
    wp (Program.forSome (some value) program) post state ↔ wp (program value) post state :=
  Iff.rfl

/-- The rule of consequence. -/
theorem wp_mono {program : Program ε σ α} {strong weak : Post ε σ α}
    (proved : wp program strong state) (implies : strong.Implies weak) :
    wp program weak state := by
  unfold wp at proved ⊢
  cases outcome : program state with
  | ok value after => rw [outcome] at proved; exact implies.ok _ _ proved
  | throw exception after => rw [outcome] at proved; exact implies.throw _ _ proved
  | fault after => rw [outcome] at proved; exact implies.fault _ proved
  | noReturn after => rw [outcome] at proved; exact implies.noReturn _ proved

theorem wp_onReturn {program : Program ε σ α} {strong : Post ε σ α} {ok : α → σ → Prop}
    {state : σ} (proved : wp program strong state)
    (implies : ∀ value after, strong.ok value after → ok value after) :
    wp program (.onReturn ok) state :=
  wp_mono proved ⟨implies, fun _ _ _ => trivial, fun _ _ => trivial, fun _ _ => trivial⟩

/-- Of an exception the same is asked, and nothing where control is lost. -/
theorem wp_concludes {program : Program ε σ α} {ok weaker : α → σ → Prop}
    {throw : ε → σ → Prop} {fault noReturn : σ → Prop} {state : σ}
    (proved : wp program ⟨ok, throw, fault, noReturn⟩ state)
    (implies : ∀ value after, ok value after → weaker value after) :
    wp program ⟨weaker, throw, fun _ => True, fun _ => True⟩ state :=
  wp_mono proved
    ⟨implies, fun _ _ raised => raised, fun _ _ => trivial, fun _ _ => trivial⟩

/-- Two postconditions hold together. -/
theorem wp_and {program : Program ε σ α} {other : Post ε σ α}
    (left : wp program post state) (right : wp program other state) :
    wp program
      { ok := fun value after => post.ok value after ∧ other.ok value after
        throw := fun exception after => post.throw exception after ∧ other.throw exception after
        fault := fun after => post.fault after ∧ other.fault after
        noReturn := fun after => post.noReturn after ∧ other.noReturn after } state := by
  unfold wp at left right ⊢
  cases outcome : program state with
  | ok value after => rw [outcome] at left right; exact ⟨left, right⟩
  | throw exception after => rw [outcome] at left right; exact ⟨left, right⟩
  | fault after => rw [outcome] at left right; exact ⟨left, right⟩
  | noReturn after => rw [outcome] at left right; exact ⟨left, right⟩

/-- A postcondition that holds everywhere is met by every program. -/
theorem wp_any {program : Program ε σ α} (ok : ∀ value after, post.ok value after)
    (throw : ∀ exception after, post.throw exception after) (fault : ∀ after, post.fault after)
    (noReturn : ∀ after, post.noReturn after) : wp program post state := by
  unfold wp
  cases program state with
  | ok value after => exact ok value after
  | throw exception after => exact throw exception after
  | fault after => exact fault after
  | noReturn after => exact noReturn after

/-- Where the rest of a program establishes a result from every state, its first part
does not matter. -/
theorem wp_bind_last {first : Program ε σ α} {next : α → Program ε σ β} {ok : β → σ → Prop}
    (last : ∀ value middle, wp (next value) (.onReturn ok) middle) :
    wp (first >>= next) (.onReturn ok) state := by
  rw [wp_bind]
  exact wp_any last (fun _ _ => trivial) (fun _ => trivial) fun _ => trivial

/-- What is proved of every outcome holds of the one that happened. -/
theorem wp.ok {program : Program ε σ α} {value : α} {after : σ}
    (proved : wp program post state) (ends : program state = .ok value after) :
    post.ok value after := by
  unfold wp at proved
  rwa [ends] at proved

theorem wp.throw {program : Program ε σ α} {exception : ε} {after : σ}
    (proved : wp program post state) (ends : program state = .throw exception after) :
    post.throw exception after := by
  unfold wp at proved
  rwa [ends] at proved

end Rules

/-- `program`, started where `pre` holds, ends as `post` tells of the state it started in. -/
structure Triple (pre : σ → Prop) (program : Program ε σ α) (post : σ → Post ε σ α) : Prop where
  holds : ∀ before, pre before → wp program (post before) before

/-! ## Relations between the state before and the state after -/

/-- However `program` ends, the state it ends in is related to the one it
started in. -/
def Frame (relation : σ → σ → Prop) (program : Program ε σ α) : Prop :=
  ∀ state, relation state (program state).state

namespace Frame

variable {relation : σ → σ → Prop} {program : Program ε σ α}

theorem wp (frame : Frame relation program) (state : σ) :
    wp program (Post.always (relation state)) state := by
  unfold ProgramLogic.wp
  rw [Post.always_holds]
  exact frame state

theorem pure (refl : ∀ state, relation state state) (value : α) :
    Frame relation (Pure.pure value : Program ε σ α) := fun state => refl state

theorem gets (refl : ∀ state, relation state state) (read : σ → α) :
    Frame relation (Program.gets read : Program ε σ α) := fun state => refl state

theorem throw (refl : ∀ state, relation state state) (exception : ε) :
    Frame relation (Program.throw exception : Program ε σ α) := fun state => refl state

theorem fault (refl : ∀ state, relation state state) :
    Frame relation (Program.fault : Program ε σ α) := fun state => refl state

theorem noReturn (refl : ∀ state, relation state state) :
    Frame relation (Program.noReturn : Program ε σ α) := fun state => refl state

theorem modify {update : σ → σ} (related : ∀ state, relation state (update state)) :
    Frame relation (Program.modify update : Program ε σ Unit) := related

theorem bind {next : α → Program ε σ β}
    (trans : ∀ {a b c}, relation a b → relation b c → relation a c)
    (first : Frame relation program) (second : ∀ value, Frame relation (next value)) :
    Frame relation (program >>= next) := by
  intro state
  have start := first state
  rw [Program.bind_apply]
  cases outcome : program state with
  | ok value middle =>
      rw [outcome] at start
      exact trans start (second value middle)
  | throw exception after => rw [outcome] at start; exact start
  | fault after => rw [outcome] at start; exact start
  | noReturn after => rw [outcome] at start; exact start

theorem attempt {completes : α → Program ε σ β} {handles : ε → Program ε σ β}
    (trans : ∀ {a b c}, relation a b → relation b c → relation a c)
    (first : Frame relation program) (returns : ∀ value, Frame relation (completes value))
    (raises : ∀ exception, Frame relation (handles exception)) :
    Frame relation (program.attempt completes handles) := by
  intro state
  have start := first state
  rw [Program.attempt_apply]
  cases outcome : program state with
  | ok value middle =>
      rw [outcome] at start
      exact trans start (returns value middle)
  | throw exception middle =>
      rw [outcome] at start
      exact trans start (raises exception middle)
  | fault after => rw [outcome] at start; exact start
  | noReturn after => rw [outcome] at start; exact start

theorem ite {condition : Prop} [Decidable condition] {no : Program ε σ α}
    (yes : Frame relation program) (other : Frame relation no) :
    Frame relation (if condition then program else no) := by
  split
  · exact yes
  · exact other

end Frame

/-! ## Programs that come back -/

/-- The program did not come back, and left `after`. -/
def Outcome.LostIn (outcome : Outcome ε σ α) (after : σ) : Prop :=
  outcome = .fault after ∨ outcome = .noReturn after

/-- `program` comes back, with the state related to the one it started in. -/
def Completes (relation : σ → σ → Prop) (program : Program ε σ α) : Prop :=
  ∀ before, wp program
    { ok := fun _ => relation before
      throw := fun _ => relation before
      fault := fun _ => False
      noReturn := fun _ => False } before

namespace Completes

variable {relation : σ → σ → Prop} {program : Program ε σ α}

theorem pure (refl : ∀ state, relation state state) (value : α) :
    Completes relation (Pure.pure value : Program ε σ α) := refl

theorem gets (refl : ∀ state, relation state state) (read : σ → α) :
    Completes relation (Program.gets read : Program ε σ α) := refl

theorem throw (refl : ∀ state, relation state state) (exception : ε) :
    Completes relation (Program.throw exception : Program ε σ α) := refl

theorem bind {next : α → Program ε σ β}
    (trans : ∀ {a b c}, relation a b → relation b c → relation a c)
    (first : Completes relation program) (second : ∀ value, Completes relation (next value)) :
    Completes relation (program >>= next) := by
  intro before
  rw [wp_bind]
  refine wp_mono (first before)
    ⟨fun value middle early => ?_, fun _ _ early => early, fun _ => False.elim,
      fun _ => False.elim⟩
  exact wp_mono (second value middle)
    ⟨fun _ _ => trans early, fun _ _ => trans early, fun _ => False.elim, fun _ => False.elim⟩

theorem attempt {completes : α → Program ε σ β} {handles : ε → Program ε σ β}
    (trans : ∀ {a b c}, relation a b → relation b c → relation a c)
    (first : Completes relation program)
    (returns : ∀ value, Completes relation (completes value))
    (raises : ∀ exception, Completes relation (handles exception)) :
    Completes relation (program.attempt completes handles) := by
  intro before
  rw [wp_attempt]
  refine wp_mono (first before)
    ⟨fun value middle early => ?_, fun exception middle early => ?_, fun _ => False.elim,
      fun _ => False.elim⟩
  · exact wp_mono (returns value middle)
      ⟨fun _ _ => trans early, fun _ _ => trans early, fun _ => False.elim, fun _ => False.elim⟩
  · exact wp_mono (raises exception middle)
      ⟨fun _ _ => trans early, fun _ _ => trans early, fun _ => False.elim, fun _ => False.elim⟩

theorem ite {condition : Prop} [Decidable condition] {no : Program ε σ α}
    (yes : Completes relation program) (other : Completes relation no) :
    Completes relation (if condition then program else no) := by
  split
  · exact yes
  · exact other

end Completes

/-! ## Invariants -/

/-- `program` keeps `invariant`, however it ends. -/
def Preserves (invariant : σ → Prop) (program : Program ε σ α) : Prop :=
  Frame (fun before after => invariant before → invariant after) program

namespace Preserves

variable {invariant : σ → Prop} {program : Program ε σ α}

theorem wp (preserves : Preserves invariant program) {state : σ} (holds : invariant state) :
    wp program (Post.always invariant) state :=
  wp_mono (Frame.wp preserves state)
    ⟨fun _ _ kept => kept holds, fun _ _ kept => kept holds,
      fun _ kept => kept holds, fun _ kept => kept holds⟩

theorem of_wp
    (proved : ∀ state, invariant state →
      ProgramLogic.wp program (Post.always invariant) state) :
    Preserves invariant program := by
  intro state holds
  have kept := proved state holds
  unfold ProgramLogic.wp at kept
  rwa [Post.always_holds] at kept

theorem pure (value : α) : Preserves invariant (Pure.pure value : Program ε σ α) :=
  Frame.pure (fun _ kept => kept) value

theorem gets (read : σ → α) : Preserves invariant (Program.gets read : Program ε σ α) :=
  Frame.gets (fun _ kept => kept) read

theorem throw (exception : ε) :
    Preserves invariant (Program.throw exception : Program ε σ α) :=
  Frame.throw (fun _ kept => kept) exception

theorem fault : Preserves invariant (Program.fault : Program ε σ α) :=
  Frame.fault (fun _ kept => kept)

theorem noReturn : Preserves invariant (Program.noReturn : Program ε σ α) :=
  Frame.noReturn (fun _ kept => kept)

theorem bind {next : α → Program ε σ β} (first : Preserves invariant program)
    (second : ∀ value, Preserves invariant (next value)) :
    Preserves invariant (program >>= next) :=
  Frame.bind (fun early late holds => late (early holds)) first second

theorem ite {condition : Prop} [Decidable condition] {no : Program ε σ α}
    (yes : Preserves invariant program) (other : Preserves invariant no) :
    Preserves invariant (if condition then program else no) :=
  Frame.ite yes other

theorem when {program : Program ε σ Unit} (condition : Bool)
    (kept : Preserves invariant program) :
    Preserves invariant (Program.when condition program) :=
  ite kept (pure ())

theorem forSome {program : β → Program ε σ Unit} (pointer : Option β)
    (kept : ∀ value, Preserves invariant (program value)) :
    Preserves invariant (Program.forSome pointer program) := by
  cases pointer with
  | some value => exact kept value
  | none => exact pure ()

end Preserves

/-! ## Invariants of the programs that come back -/

/-- `program` keeps `invariant` where it returns, and leaves `raised` where it
raises and `lost` where control is lost. -/
def Keeps (invariant raised lost : σ → Prop) (program : Program ε σ α) : Prop :=
  ∀ before, invariant before →
    wp program ⟨fun _ => invariant, fun _ => raised, lost, lost⟩ before

namespace Keeps

variable {invariant raised lost : σ → Prop} {program : Program ε σ α}

theorem of_preserves (raises : ∀ state, invariant state → raised state)
    (loses : ∀ state, invariant state → lost state) (preserves : Preserves invariant program) :
    Keeps invariant raised lost program :=
  fun _ holds => wp_mono (preserves.wp holds)
    ⟨fun _ _ kept => kept, fun _ _ kept => raises _ kept, fun _ kept => loses _ kept,
      fun _ kept => loses _ kept⟩

/-- Nothing is asked where `program` does not return. -/
theorem of_returns (preserves : Preserves invariant program) :
    Keeps invariant (fun _ => True) (fun _ => True) program :=
  of_preserves (fun _ _ => trivial) (fun _ _ => trivial) preserves

theorem pure (value : α) : Keeps invariant raised lost (Pure.pure value : Program ε σ α) :=
  fun _ holds => holds

theorem gets (read : σ → α) : Keeps invariant raised lost (Program.gets read : Program ε σ α) :=
  fun _ holds => holds

theorem bind {next : α → Program ε σ β} (first : Keeps invariant raised lost program)
    (second : ∀ value, Keeps invariant raised lost (next value)) :
    Keeps invariant raised lost (program >>= next) := by
  intro before holds
  rw [wp_bind]
  exact wp_mono (first before holds)
    ⟨fun value after kept => second value after kept, fun _ _ kept => kept,
      fun _ kept => kept, fun _ kept => kept⟩

theorem ite {condition : Prop} [Decidable condition] {no : Program ε σ α}
    (yes : Keeps invariant raised lost program) (other : Keeps invariant raised lost no) :
    Keeps invariant raised lost (if condition then program else no) := by
  split
  · exact yes
  · exact other

theorem and {other : σ → Prop} (left : Keeps invariant raised lost program)
    (right : Preserves other program) :
    Keeps (fun state => invariant state ∧ other state) raised lost program := by
  intro before holds
  exact wp_mono (wp_and (left before holds.1) (right.wp holds.2))
    ⟨fun _ _ kept => kept, fun _ _ kept => kept.1, fun _ kept => kept.1, fun _ kept => kept.1⟩

end Keeps

/-! ## Parts of a state -/

/-- A part `τ` of the states `σ`, which can be read and replaced. -/
structure Part (σ τ : Type) where
  get : σ → τ
  set : σ → τ → σ
  get_set : ∀ state part, get (set state part) = part
  set_set : ∀ state first second, set (set state first) second = set state second

/-- Run a program on a part of the state. -/
def zoom {τ : Type} (part : Part σ τ) (program : Program ε τ α) : Program ε σ α := fun state =>
  match program (part.get state) with
  | .ok value after => .ok value (part.set state after)
  | .throw exception after => .throw exception (part.set state after)
  | .fault after => .fault (part.set state after)
  | .noReturn after => .noReturn (part.set state after)

section Zoom

variable {τ : Type} {part : Part σ τ} {program : Program ε τ α}

theorem zoom_bind (next : α → Program ε τ β) :
    zoom part (program >>= next) = zoom part program >>= fun value => zoom part (next value) := by
  funext state
  simp only [zoom, Program.bind_apply]
  cases program (part.get state) with
  | ok value after => simp only [part.get_set, part.set_set]
  | throw exception after => rfl
  | fault after => rfl
  | noReturn after => rfl

theorem wp_zoom {post : Post ε σ α} {state : σ} :
    wp (zoom part program) post state ↔
      wp program
        { ok := fun value after => post.ok value (part.set state after)
          throw := fun exception after => post.throw exception (part.set state after)
          fault := fun after => post.fault (part.set state after)
          noReturn := fun after => post.noReturn (part.set state after) } (part.get state) := by
  unfold wp zoom
  cases program (part.get state) <;> rfl

/-- A relation that a change of the part brings about. -/
theorem Completes.zoom {inner : τ → τ → Prop} {relation : σ → σ → Prop}
    (completes : Completes inner program)
    (lifts : ∀ state after, inner (part.get state) after → relation state (part.set state after)) :
    Completes relation (zoom part program) := by
  intro before
  rw [wp_zoom]
  exact wp_mono (completes (part.get before))
    ⟨fun _ after => lifts before after, fun _ after => lifts before after, fun _ => False.elim,
      fun _ => False.elim⟩

end Zoom

/-! ## Programs that raise nothing -/

/-- `program` raises no exception. -/
def NeverRaises (program : Program ε σ α) : Prop :=
  ∀ before, wp program ⟨fun _ _ => True, fun _ _ => False, fun _ => True, fun _ => True⟩ before

namespace NeverRaises

variable {program : Program ε σ α}

theorem pure (value : α) : NeverRaises (Pure.pure value : Program ε σ α) := fun _ => trivial

theorem gets (read : σ → α) : NeverRaises (Program.gets read : Program ε σ α) :=
  fun _ => trivial

theorem modify (update : σ → σ) : NeverRaises (Program.modify update : Program ε σ Unit) :=
  fun _ => trivial

theorem fault : NeverRaises (Program.fault : Program ε σ α) := fun _ => trivial

theorem bind {next : α → Program ε σ β} (first : NeverRaises program)
    (second : ∀ value, NeverRaises (next value)) : NeverRaises (program >>= next) := by
  intro before
  rw [wp_bind]
  exact wp_mono (first before)
    ⟨fun value after _ => second value after, fun _ _ raised => raised,
      fun _ _ => trivial, fun _ _ => trivial⟩

theorem ite {condition : Prop} [Decidable condition] {no : Program ε σ α}
    (yes : NeverRaises program) (other : NeverRaises no) :
    NeverRaises (if condition then program else no) := by
  split
  · exact yes
  · exact other

theorem when {program : Program ε σ Unit} (condition : Bool) (quiet : NeverRaises program) :
    NeverRaises (Program.when condition program) :=
  ite quiet (pure ())

theorem forSome {program : β → Program ε σ Unit} (pointer : Option β)
    (quiet : ∀ value, NeverRaises (program value)) :
    NeverRaises (Program.forSome pointer program) := by
  cases pointer with
  | some value => exact quiet value
  | none => exact pure ()

/-- An invariant is left to the rest of the program where the first part
cannot raise. -/
theorem wp_bind {invariant : σ → Prop} {next : α → Program ε σ β} {post : Post ε σ β}
    {before : σ} (raises : NeverRaises program) (preserves : Preserves invariant program)
    (holds : invariant before)
    (rest : ∀ value after, invariant after → wp (next value) post after)
    (fault : ∀ after, invariant after → post.fault after)
    (noReturn : ∀ after, invariant after → post.noReturn after) :
    wp (program >>= next) post before := by
  have quiet := raises before
  have kept := preserves.wp holds
  rw [ProgramLogic.wp_bind]
  unfold wp at quiet kept ⊢
  cases outcome : program before with
  | ok value after => rw [outcome] at kept; exact rest value after kept
  | throw exception after => rw [outcome] at quiet; exact quiet.elim
  | fault after => rw [outcome] at kept; exact fault after kept
  | noReturn after => rw [outcome] at kept; exact noReturn after kept

end NeverRaises

/-! ## Fuel -/

/-- The program came to an end. -/
def Outcome.Ended (outcome : Outcome ε σ α) : Prop := ∀ state, outcome ≠ .noReturn state

/-- `more` ends as `less` does where `less` comes to an end. -/
def Approximates (less more : Program ε σ α) : Prop :=
  ∀ state, (less state).Ended → more state = less state

namespace Approximates

variable {less more most : Program ε σ α}

theorem refl (program : Program ε σ α) : Approximates program program := fun _ _ => rfl

theorem trans (first : Approximates less more) (second : Approximates more most) :
    Approximates less most := by
  intro state ended
  have same := first state ended
  rw [second state (same ▸ ended), same]

theorem noReturn : Approximates (Program.noReturn : Program ε σ α) more :=
  fun state ended => absurd rfl (ended state)

theorem bind {next later : α → Program ε σ β} (first : Approximates less more)
    (second : ∀ value, Approximates (next value) (later value)) :
    Approximates (less >>= next) (more >>= later) := by
  intro state ended
  rw [Program.bind_apply] at ended ⊢
  rw [Program.bind_apply]
  cases outcome : less state with
  | ok value middle =>
      rw [outcome] at ended
      rw [first state (by rw [outcome]; nofun), outcome]
      exact second value middle ended
  | throw exception after => rw [first state (by rw [outcome]; nofun), outcome]
  | fault after => rw [first state (by rw [outcome]; nofun), outcome]
  | noReturn after =>
      rw [outcome] at ended
      exact absurd rfl (ended after)

theorem attempt {completes completed : α → Program ε σ β} {handles handled : ε → Program ε σ β}
    (first : Approximates less more)
    (returns : ∀ value, Approximates (completes value) (completed value))
    (raises : ∀ exception, Approximates (handles exception) (handled exception)) :
    Approximates (less.attempt completes handles) (more.attempt completed handled) := by
  intro state ended
  rw [Program.attempt_apply] at ended ⊢
  rw [Program.attempt_apply]
  cases outcome : less state with
  | ok value middle =>
      rw [outcome] at ended
      rw [first state (by rw [outcome]; nofun), outcome]
      exact returns value middle ended
  | throw exception middle =>
      rw [outcome] at ended
      rw [first state (by rw [outcome]; nofun), outcome]
      exact raises exception middle ended
  | fault after => rw [first state (by rw [outcome]; nofun), outcome]
  | noReturn after =>
      rw [outcome] at ended
      exact absurd rfl (ended after)

theorem ite {condition : Prop} [Decidable condition] {other later : Program ε σ α}
    (yes : Approximates less more) (no : Approximates other later) :
    Approximates (if condition then less else other) (if condition then more else later) := by
  split
  · exact yes
  · exact no

end Approximates

/-- What ends began with something that ended. -/
theorem Outcome.Ended.first {program : Program ε σ α} {next : α → Program ε σ β} {state : σ}
    (ended : ((program >>= next) state).Ended) : (program state).Ended := by
  intro after stuck
  rw [Program.bind_apply, stuck] at ended
  exact ended after rfl

end ProgramLogic
