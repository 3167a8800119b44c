import MyDbg.Debugger.Attach
import MyDbg.Debugger.FormatUtils

/-!
Contract: the process that the `attach` command attaches.

Owns: `cmd_attach` down to the call of `attach_process`, with its range check;
and exactly which process IDs are still the number given when they have been
narrowed to `pid_t`.

Does not own: how the number is read, and how the process is attached.
-/

namespace MyDbg.Attach

open LittleEndian ProgramLogic

/-! ## The command -/

/-- `sizeof(pid_t)`. -/
def sizeofPidT : Nat := 4

/-- `(size_t) (1 << (sizeof(pid_t) * 8 - 1))`: an `int`, which is negative. -/
def pidLimit : Word := ((1 : BitVec 32) <<< (sizeofPidT * 8 - 1)).signExtend 64

/-- The warning of `cmd_attach`, or what it passes to `attach_process`. -/
inductive Attachment where
  | alreadyAttached
  | noProcessId
  | invalidProcessId
  | process (pid : Pid)
deriving DecidableEq

def cmdAttach {κ : Type} (host : Host κ) (exDepth : Nat) (gPid : Pid)
    (argv : List (List Char)) : MyDbg.Dbg κ Attachment :=
  if gPid ≠ 0 then return .alreadyAttached
  else
    match argv with
    | _ :: pidText :: _ => do
        let pid ← readSize host exDepth pidText
        if pidLimit ≤ pid then return .invalidProcessId
        else return .process (pid.setWidth 32)
    | _ => return .noProcessId

/-! ## The range check -/

/-- The sign is extended, and the check lets nearly everything pass. -/
theorem pidLimit_toNat : pidLimit.toNat = 2 ^ 64 - 2 ^ 31 := by decide

/-- A `pid_t` is the number it was made from if there is no more than that number in it. -/
theorem narrowed_iff (size : Word) :
    (size.setWidth 32 : Pid).toInt = size.toNat ↔ size.toNat < 2 ^ 31 := by
  have bound := size.isLt
  rw [BitVec.toInt_eq_toNat_cond, BitVec.toNat_setWidth]
  split
  · omega
  · omega

/-- The process is the one named by the number, if one is attached. -/
def AttachesNamed {κ : Type} (host : Host κ) (exDepth : Nat) (argv : List (List Char))
    (state : State κ) (size : Word) : Prop :=
  ∀ pid after, cmdAttach host exDepth 0 argv state = .ok (.process pid) after →
    pid.toInt = size.toNat

/-- Of the numbers that pass, the process named is attached for those below `2 ^ 31` only. -/
theorem cmdAttach_iff {κ : Type} (host : Host κ) (exDepth : Nat) {state middle : State κ}
    (command : List Char) {pidText : List Char} (others : List (List Char)) {size : Word}
    (read : readSize host exDepth pidText state = .ok size middle) :
    AttachesNamed host exDepth (command :: pidText :: others) state size ↔
      size.toNat < 2 ^ 31 ∨ 2 ^ 64 - 2 ^ 31 ≤ size.toNat := by
  have run : cmdAttach host exDepth 0 (command :: pidText :: others) state =
      if pidLimit ≤ size then .ok .invalidProcessId middle
      else .ok (.process (size.setWidth 32)) middle := by
    rw [cmdAttach, if_neg (not_not.mpr rfl), Program.bind_ok read]
    by_cases large : pidLimit ≤ size
    · rw [if_pos large, if_pos large]
      rfl
    · rw [if_neg large, if_neg large]
      rfl
  unfold AttachesNamed
  rw [run]
  by_cases large : pidLimit ≤ size
  · have refused : 2 ^ 64 - 2 ^ 31 ≤ size.toNat := pidLimit_toNat ▸ large
    rw [if_pos large]
    exact iff_of_true nofun (.inr refused)
  · have passes : ¬ 2 ^ 64 - 2 ^ 31 ≤ size.toNat := by
      rw [← pidLimit_toNat]
      exact large
    rw [if_neg large, or_iff_left passes, ← narrowed_iff]
    constructor
    · intro named
      exact named _ _ rfl
    · intro same pid after run
      cases run
      exact same

/-- `attach 7`. -/
theorem cmdAttach_iff_seven :
    AttachesNamed scripted 1 [['a', 't', 't', 'a', 'c', 'h'], ['7']] (Scripted.start []) 7 ↔
      (7 : Word).toNat < 2 ^ 31 ∨ 2 ^ 64 - 2 ^ 31 ≤ (7 : Word).toNat :=
  cmdAttach_iff scripted 1 _ [] rfl

/-- `attach 4294967297` attaches the process 1. -/
theorem cmdAttach_wraps :
    ¬ AttachesNamed scripted 1
      [['a', 't', 't', 'a', 'c', 'h'], ['4', '2', '9', '4', '9', '6', '7', '2', '9', '7']]
      (Scripted.start []) 4294967297 := by
  intro named
  have attached := named 1 (Scripted.start []) rfl
  revert attached
  decide

end MyDbg.Attach
