import MyDbg.Infos.GnuHashLookup

/-!
Contract: the hash of a name, read from memory.

Owns: the loop of `dl_new_hash`; and that it returns the hash with 32 bits at
every step, whatever the bytes and however long the name.

Does not own: where names are stored.
-/

namespace MyDbg.Infos

open LittleEndian ProgramLogic

/-- `*s` is a `char`, which has a sign, and `c` is not. -/
def unsignedChar (byte : Byte) : Byte := BitVec.ofInt 8 byte.toInt

/-- The loop of `dl_new_hash`. -/
def dlNewHashFrom (memory : PartialMemory) : Nat → Word → Addr → Reading Word
  | 0, _, _ => Program.noReturn
  | fuel + 1, h, s => do
      let loaded ← load memory s 1
      let c := unsignedChar (BitVec.ofNat 8 loaded)
      if c = 0 then return h &&& 0xFFFFFFFF
      else dlNewHashFrom memory fuel (h * 33 + c.setWidth 64) (s + 1)

def dlNewHashAt (memory : PartialMemory) (fuel : Nat) (s : Addr) : Reading Word :=
  dlNewHashFrom memory fuel 5381 s

section Hash

variable {memory : PartialMemory}

theorem unsignedChar_eq (byte : Byte) : unsignedChar byte = byte := BitVec.ofInt_toInt

/-- The mask keeps the 32 bits of the hash. -/
theorem mask_eq (h : Word) : h &&& 0xFFFFFFFF = (h.setWidth 32).setWidth 64 := by
  apply BitVec.eq_of_toNat_eq
  have small : h.toNat % 2 ^ 32 < 2 ^ 64 := (Nat.mod_lt _ (by decide)).trans (by decide)
  have mask : (0xFFFFFFFF : Word).toNat = 2 ^ 32 - 1 := by decide
  rw [BitVec.toNat_and, mask, Nat.and_two_pow_sub_one_eq_mod, BitVec.toNat_setWidth,
    BitVec.toNat_setWidth, Nat.mod_eq_of_lt small]

/-- Masking once at the end is wrapping around at every step. -/
theorem dlNewHash_setWidth (name : CString) : dlNewHash name = (gnuHash name).setWidth 64 := by
  rw [dlNewHash, mask_eq, setWidth_foldl]
  rfl

theorem dlNewHashFrom_yields {bytes : List Byte} (string : 0 ∉ bytes) {s : Addr}
    (stored : Holds memory s (bytes ++ [0])) (h : Word) :
    Yields (fun fuel => dlNewHashFrom memory fuel h s)
      (bytes.foldl (fun h c => h * 33 + c.setWidth 64) h &&& 0xFFFFFFFF) := by
  induction bytes generalizing s h with
  | nil =>
      apply Yields.succ fun fuel => rfl
      apply Yields.bind (.of_returns (load_byte stored.1))
      exact .pure _
  | cons byte rest inductionHypothesis =>
      have nonzero : byte ≠ 0 := fun zero => string (by simp [zero])
      have later : 0 ∉ rest := fun member => string (List.mem_cons_of_mem byte member)
      have whole : unsignedChar (BitVec.ofNat 8 byte.toNat) = byte := by
        rw [unsignedChar_eq, BitVec.ofNat_toNat, BitVec.setWidth_eq]
      apply Yields.succ fun fuel => rfl
      apply Yields.bind (.of_returns (load_byte stored.1))
      simp only [whole, if_neg nonzero]
      exact inductionHypothesis later stored.2 _

/-- `dl_new_hash` returns the hash with 32 bits of every name, wherever it is stored. -/
theorem dlNewHash_gnuHash (name : CString) :
    dlNewHash name = (gnuHash name).setWidth 64 ∧
      ∀ (memory : PartialMemory) (s : Addr), Holds memory s (name.1 ++ [0]) →
        Yields (fun fuel => dlNewHashAt memory fuel s) (dlNewHash name) :=
  ⟨dlNewHash_setWidth name, fun _ _ stored => dlNewHashFrom_yields name.2 stored 5381⟩

end Hash

/-- The first byte is negative as a `char`. -/
def accented : CString := ⟨[0xe9, 0x61], by decide⟩

theorem dlNewHash_gnuHash_accented :
    Yields (fun fuel => dlNewHashAt (fun addr => (accented.1 ++ [0])[addr.toNat]?) fuel 0)
      (dlNewHash accented) :=
  (dlNewHash_gnuHash accented).2 (fun addr => (accented.1 ++ [0])[addr.toNat]?) 0 (by decide)

end MyDbg.Infos
