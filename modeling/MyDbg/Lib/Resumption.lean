/-!
Contract: programs as the calls they make.

Owns: `Resumption`, a program that stops at each call and goes on with the answer, and
its sequencing.

Does not own: any particular calls, and who answers them.
-/

namespace Resumptions

/-- A program that returns, or makes a call and goes on with the answer. -/
inductive Resumption (Call : Type) (Answer : Call → Type) (Result : Type) where
  | ret (result : Result)
  | call (request : Call) (next : Answer request → Resumption Call Answer Result)

namespace Resumption

variable {Call : Type} {Answer : Call → Type}

def bind {Result Other : Type} :
    Resumption Call Answer Result → (Result → Resumption Call Answer Other) →
    Resumption Call Answer Other
  | .ret result, rest => rest result
  | .call request next, rest => .call request fun answer => bind (next answer) rest

instance : Monad (Resumption Call Answer) where
  pure := .ret
  bind := bind

def perform (request : Call) : Resumption Call Answer (Answer request) := .call request .ret

def when (condition : Prop) [Decidable condition] (program : Resumption Call Answer Unit) :
    Resumption Call Answer Unit :=
  if condition then program else .ret ()

theorem when_pos {condition : Prop} [Decidable condition] {program : Resumption Call Answer Unit}
    (holds : condition) : when condition program = program := if_pos holds

theorem when_neg {condition : Prop} [Decidable condition] {program : Resumption Call Answer Unit}
    (fails : ¬ condition) : when condition program = .ret () := if_neg fails

end Resumption

end Resumptions
