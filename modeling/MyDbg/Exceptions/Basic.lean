/-!
Contract: the exceptions the debugger throws.

Owns: the enumeration of `exceptions.h`.

Does not own: how `try`, `catch`, `finally` and `etry` propagate them.
-/

namespace MyDbg

/-- `enum my_exception`. -/
inductive MyException where
  | none
  | exception
  | ptraceException
  | waitException
  | scanfException
  | printfException
  | ioException
  | memoryException
  | elfException
  | syscallException
  | disasmException
  | unwindException
  | dwarfException
deriving DecidableEq, Repr

end MyDbg
