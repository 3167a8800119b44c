import Mathlib.Data.List.Infix
import Mathlib.Data.List.Perm.Basic
import MyDbg.Debugger.Commands

/-!
Contract: `get_command`, the command a word stands for.

Owns: the lookup in the table the linker assembles; which command it finds by
the names and aliases alone; and that the order of the table does not matter.

Does not own: what the commands do. `φ` is the rest of `struct my_cmd`.
-/

namespace MyDbg

variable {φ : Type}

/-- `struct my_cmd`. -/
structure MyCmd (φ : Type) where
  name : List Char
  «alias» : Option (List Char)
  rest : φ

/-- What `get_command` returns, or the warning it prints before it returns NULL. -/
inductive Lookup (φ : Type) where
  | found (cmd : MyCmd φ)
  | ambiguous
  | notFound

def Lookup.command : Lookup φ → Option (MyCmd φ)
  | .found cmd => some cmd
  | _ => none

/-- The first loop. -/
def findExact (name : List Char) : List (MyCmd φ) → Option (MyCmd φ)
  | [] => none
  | cmd :: rest =>
      if name = cmd.name then some cmd
      else if cmd.alias = some name then some cmd
      else findExact name rest

/-- The second loop, with `cmd_matched`. -/
def findPrefix (name : List Char) (cmdMatched : Option (MyCmd φ)) :
    List (MyCmd φ) → Lookup φ
  | [] =>
      match cmdMatched with
      | some cmd => .found cmd
      | none => .notFound
  | cmd :: rest =>
      if startsWith cmd.name name then
        match cmdMatched with
        | some _ => .ambiguous
        | none => findPrefix name (some cmd) rest
      else findPrefix name cmdMatched rest

def getCommand (cmds : List (MyCmd φ)) (name : List Char) : Lookup φ :=
  match findExact name cmds with
  | some cmd => .found cmd
  | none => findPrefix name none cmds

/-! ## Words and commands -/

/-- `word` is the name or the alias of `cmd`. -/
def MyCmd.Exact (cmd : MyCmd φ) (word : List Char) : Prop :=
  word = cmd.name ∨ cmd.alias = some word

instance (cmd : MyCmd φ) (word : List Char) : Decidable (cmd.Exact word) :=
  inferInstanceAs (Decidable (word = cmd.name ∨ cmd.alias = some word))

/-- No word is the name or the alias of two commands. -/
structure Distinct (cmds : List (MyCmd φ)) : Prop where
  names : (cmds.map MyCmd.name).Nodup
  aliases : (cmds.filterMap MyCmd.alias).Nodup
  apart : ∀ cmd ∈ cmds, ∀ other ∈ cmds, cmd.alias = some other.name → cmd = other

section Lookup

variable {cmds other : List (MyCmd φ)} {cmd left right : MyCmd φ} {word : List Char}

theorem startsWith_iff {haystack needle : List Char} :
    startsWith haystack needle = true ↔ needle <+: haystack := by
  unfold startsWith
  rw [List.prefix_iff_eq_take]
  by_cases short : haystack.length < needle.length
  · rw [if_pos short]
    refine iff_of_false Bool.false_ne_true fun same => ?_
    have length := congrArg List.length same
    rw [List.length_take] at length
    omega
  · rw [if_neg short, beq_iff_eq]
    exact eq_comm

theorem findExact_eq_find (cmds : List (MyCmd φ)) (word : List Char) :
    findExact word cmds = cmds.find? (·.Exact word) := by
  induction cmds with
  | nil => rfl
  | cons cmd rest inductionHypothesis =>
      rw [findExact, List.find?_cons, inductionHypothesis]
      by_cases name : word = cmd.name
      · simp [MyCmd.Exact, name]
      · by_cases named : cmd.alias = some word
        · simp [MyCmd.Exact, named]
        · simp [MyCmd.Exact, name, named]

/-- What becomes of the commands a word is a prefix of. -/
def classify : List (MyCmd φ) → Lookup φ
  | [] => .notFound
  | [cmd] => .found cmd
  | _ :: _ :: _ => .ambiguous

theorem findPrefix_eq_classify (cmdMatched : Option (MyCmd φ)) (cmds : List (MyCmd φ))
    (word : List Char) :
    findPrefix word cmdMatched cmds =
      classify (cmdMatched.toList ++ cmds.filter fun cmd => startsWith cmd.name word) := by
  induction cmds generalizing cmdMatched with
  | nil => cases cmdMatched <;> rfl
  | cons cmd rest inductionHypothesis =>
      unfold findPrefix
      by_cases starts : startsWith cmd.name word = true
      · rw [if_pos starts, List.filter_cons, if_pos starts]
        cases cmdMatched with
        | none => exact inductionHypothesis (some cmd)
        | some first => rfl
      · rw [if_neg starts, List.filter_cons, if_neg starts]
        exact inductionHypothesis cmdMatched

theorem classify_perm (perm : cmds.Perm other) : classify cmds = classify other := by
  have length := perm.length_eq
  cases cmds with
  | nil => rw [List.nil_perm.mp perm]
  | cons cmd rest =>
      cases rest with
      | nil => rw [List.singleton_perm.mp perm]
      | cons second rest =>
          cases other with
          | nil => cases length
          | cons first others =>
              cases others with
              | nil => cases length
              | cons _ _ => rfl

/-! ## Tables without clashes -/

theorem Distinct.perm (distinct : Distinct cmds) (perm : cmds.Perm other) : Distinct other where
  names := (perm.map _).nodup_iff.mp distinct.names
  aliases := (perm.filterMap _).nodup_iff.mp distinct.aliases
  apart first member second member' :=
    distinct.apart first (perm.mem_iff.mpr member) second (perm.mem_iff.mpr member')

theorem Distinct.nodup (distinct : Distinct cmds) : cmds.Nodup := distinct.names.of_map _

theorem Distinct.name_inj (distinct : Distinct cmds) (atLeft : left ∈ cmds) (atRight : right ∈ cmds)
    (same : left.name = right.name) : left = right :=
  List.inj_on_of_nodup_map distinct.names atLeft atRight same

theorem Distinct.alias_inj (distinct : Distinct cmds) (atLeft : left ∈ cmds)
    (atRight : right ∈ cmds) (leftAlias : left.alias = some word)
    (rightAlias : right.alias = some word) : left = right := by
  by_contra different
  have pairs := List.pairwise_filterMap.mp distinct.aliases
  have symmetric : Std.Symm fun (first second : MyCmd φ) => ∀ one, first.alias = some one →
      ∀ other, second.alias = some other → one ≠ other :=
    ⟨fun _ _ differ _ other _ one => (differ _ one _ other).symm⟩
  exact pairs.forall atLeft atRight different word leftAlias word rightAlias rfl

/-- A word is the name or alias of one command at most. -/
theorem Distinct.exact_inj (distinct : Distinct cmds) (atLeft : left ∈ cmds)
    (atRight : right ∈ cmds) (leftExact : left.Exact word) (rightExact : right.Exact word) :
    left = right := by
  rcases leftExact with rfl | leftAlias
  · rcases rightExact with same | rightAlias
    · exact distinct.name_inj atLeft atRight same
    · exact (distinct.apart right atRight left atLeft rightAlias).symm
  · rcases rightExact with rfl | rightAlias
    · exact distinct.apart left atLeft right atRight leftAlias
    · exact distinct.alias_inj atLeft atRight leftAlias rightAlias

theorem findExact_eq_some (distinct : Distinct cmds) :
    findExact word cmds = some cmd ↔ cmd ∈ cmds ∧ cmd.Exact word := by
  rw [findExact_eq_find]
  constructor
  · intro found
    exact ⟨List.mem_of_find?_eq_some found, by simpa using List.find?_some found⟩
  · rintro ⟨member, exact⟩
    cases found : cmds.find? (·.Exact word) with
    | none =>
        have misses := List.find?_eq_none.mp found cmd member
        exact absurd (decide_eq_true exact) misses
    | some first =>
        have hit : first.Exact word := by simpa using List.find?_some found
        rw [distinct.exact_inj (List.mem_of_find?_eq_some found) member hit exact]

theorem findExact_perm (distinct : Distinct cmds) (perm : cmds.Perm other) :
    findExact word cmds = findExact word other := by
  apply Option.ext
  intro cmd
  rw [findExact_eq_some distinct, findExact_eq_some (distinct.perm perm), perm.mem_iff]

theorem getCommand_perm (distinct : Distinct cmds) (perm : cmds.Perm other) (word : List Char) :
    getCommand cmds word = getCommand other word := by
  unfold getCommand
  rw [findExact_perm distinct perm, findPrefix_eq_classify, findPrefix_eq_classify,
    classify_perm ((perm.filter _).append_left _)]

theorem getCommand_exact (distinct : Distinct cmds) (member : cmd ∈ cmds)
    (exact : cmd.Exact word) : getCommand cmds word = .found cmd := by
  unfold getCommand
  rw [(findExact_eq_some distinct).mpr ⟨member, exact⟩]

theorem getCommand_starts (inexact : ∀ cmd ∈ cmds, ¬ cmd.Exact word) :
    getCommand cmds word = classify (cmds.filter fun cmd => startsWith cmd.name word) := by
  have missing : findExact word cmds = none := by
    rw [findExact_eq_find, List.find?_eq_none]
    simpa using inexact
  unfold getCommand
  rw [missing]
  exact findPrefix_eq_classify none cmds word

theorem classify_found (nodup : cmds.Nodup) :
    classify cmds = .found cmd ↔ cmd ∈ cmds ∧ ∀ other ∈ cmds, other = cmd := by
  cases cmds with
  | nil => simp [classify]
  | cons first rest =>
      cases rest with
      | nil => simp [classify, eq_comm]
      | cons second rest =>
          refine iff_of_false (fun found => by cases found) ?_
          rintro ⟨_, same⟩
          have apart : first ≠ second := fun equal => by
            rw [equal] at nodup
            simp at nodup
          exact apart ((same first (.head _)).trans (same second (.tail _ (.head _))).symm)

theorem classify_notFound : classify cmds = .notFound ↔ ∀ cmd, cmd ∉ cmds := by
  cases cmds with
  | nil => simp [classify]
  | cons first rest =>
      refine iff_of_false ?_ fun empty => empty first (.head _)
      cases rest <;> exact fun found => by cases found

theorem classify_ambiguous (nodup : cmds.Nodup) :
    classify cmds = .ambiguous ↔ ∃ first ∈ cmds, ∃ second ∈ cmds, first ≠ second := by
  cases cmds with
  | nil => simp [classify]
  | cons first rest =>
      cases rest with
      | nil => simp [classify]
      | cons second rest =>
          have apart : first ≠ second := fun equal => by
            rw [equal] at nodup
            simp at nodup
          exact iff_of_true rfl ⟨first, .head _, second, .tail _ (.head _), apart⟩

/-- In a table without clashes the order does not matter. The command found is the one
with the word for a name or an alias, or else the only one whose name begins with
the word; it is not found or ambiguous if there is none or more than one. -/
theorem getCommand_order (distinct : Distinct cmds) (perm : cmds.Perm other) (word : List Char) :
    getCommand cmds word = getCommand other word ∧
      (∀ cmd ∈ cmds, cmd.Exact word → getCommand cmds word = .found cmd) ∧
      ((∀ cmd ∈ cmds, ¬ cmd.Exact word) →
        (∀ cmd, getCommand cmds word = .found cmd ↔
          cmd ∈ cmds ∧ word <+: cmd.name ∧
            ∀ second ∈ cmds, word <+: second.name → second = cmd) ∧
        (getCommand cmds word = .notFound ↔ ∀ cmd ∈ cmds, ¬ word <+: cmd.name) ∧
        (getCommand cmds word = .ambiguous ↔
          ∃ first ∈ cmds, ∃ second ∈ cmds, word <+: first.name ∧ word <+: second.name ∧
            first ≠ second)) := by
  refine ⟨getCommand_perm distinct perm word, fun cmd member exact =>
    getCommand_exact distinct member exact, fun inexact => ?_⟩
  have nodup : (cmds.filter fun cmd => startsWith cmd.name word).Nodup :=
    distinct.nodup.filter _
  rw [getCommand_starts inexact]
  refine ⟨fun cmd => ?_, ?_, ?_⟩
  · rw [classify_found nodup]
    simp only [List.mem_filter, startsWith_iff, and_imp, and_assoc]
  · rw [classify_notFound]
    simp only [List.mem_filter, startsWith_iff, not_and]
  · rw [classify_ambiguous nodup]
    simp only [List.mem_filter, startsWith_iff, and_assoc]
    constructor
    · rintro ⟨first, member, starts, second, member', starts', apart⟩
      exact ⟨first, member, second, member', starts, starts', apart⟩
    · rintro ⟨first, member, second, member', starts, starts', apart⟩
      exact ⟨first, member, starts, second, member', starts', apart⟩

/-- `break` is a prefix of `breakf`. -/
def breakCmds : List (MyCmd Unit) :=
  [⟨['b', 'r', 'e', 'a', 'k', 'f'], some ['b', 'f'], ()⟩,
    ⟨['b', 'r', 'e', 'a', 'k'], some ['b'], ()⟩]

theorem distinct_breakCmds : Distinct breakCmds where
  names := by decide
  aliases := by decide
  apart cmd member other member' clash := by
    simp only [breakCmds, List.mem_cons, List.not_mem_nil, or_false] at member member'
    rcases member with rfl | rfl <;> rcases member' with rfl | rfl <;> simp at clash

theorem getCommand_order_break :
    getCommand breakCmds ['b', 'r', 'e', 'a', 'k'] =
      .found ⟨['b', 'r', 'e', 'a', 'k'], some ['b'], ()⟩ :=
  (getCommand_order distinct_breakCmds breakCmds.reverse_perm.symm
    ['b', 'r', 'e', 'a', 'k']).2.1 _ (.tail _ (.head _)) (.inl rfl)

end Lookup

end MyDbg
