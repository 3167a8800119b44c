import Mathlib.Data.List.Nodup
import Mathlib.Logic.Function.Basic

/-!
Contract: lists of pointers that own blocks of a heap.

Owns: `Owns`, that every pointer of a list is live and stands in it once;
`Gained`, that a list accounts for all that a heap has and an earlier one had
not; and what allocating, releasing, moving and writing blocks make of them.

Does not own: what a block holds, or how an address is chosen.
-/

namespace Ownership

variable {π β : Type}

/-- Every pointer in the list is live, and stands there once. -/
structure Owns (heap : π → Option β) (owned : List π) : Prop where
  live : ∀ ptr ∈ owned, (heap ptr).isSome
  once : owned.Nodup

variable {heap : π → Option β} {owned other : List π} {ptr fresh : π} {block : β}

namespace Owns

theorem nil : Owns heap ([] : List π) := ⟨nofun, List.nodup_nil⟩

theorem perm (owns : Owns heap owned) (perm : owned.Perm other) : Owns heap other :=
  ⟨fun ptr member => owns.live ptr (perm.mem_iff.mpr member), perm.nodup_iff.mp owns.once⟩

/-- A block that is no longer accounted for. -/
theorem tail (owns : Owns heap (ptr :: owned)) : Owns heap owned :=
  ⟨fun other member => owns.live other (List.mem_cons_of_mem ptr member),
    (List.nodup_cons.mp owns.once).2⟩

theorem not_mem (owns : Owns heap owned) (free : heap fresh = none) : fresh ∉ owned := by
  intro member
  have live := owns.live fresh member
  rw [free] at live
  cases live

end Owns

variable [DecidableEq π]

/-- A block at `ptr`. -/
def put (heap : π → Option β) (ptr : π) (block : β) : π → Option β :=
  Function.update heap ptr (some block)

/-- No block at `ptr`. -/
def drop (heap : π → Option β) (ptr : π) : π → Option β := Function.update heap ptr none

@[simp] theorem put_self : put heap ptr block ptr = some block := Function.update_self ..

@[simp] theorem drop_self : drop heap ptr ptr = none := Function.update_self ..

theorem put_of_ne (apart : fresh ≠ ptr) : put heap ptr block fresh = heap fresh :=
  Function.update_of_ne apart ..

theorem drop_of_ne (apart : fresh ≠ ptr) : drop heap ptr fresh = heap fresh :=
  Function.update_of_ne apart ..

theorem put_isSome (live : (heap fresh).isSome) : (put heap ptr block fresh).isSome := by
  by_cases same : fresh = ptr
  · rw [same, put_self]
    rfl
  · rw [put_of_ne same]
    exact live

namespace Owns

theorem store (owns : Owns heap owned) : Owns (put heap ptr block) owned :=
  ⟨fun other member => put_isSome (owns.live other member), owns.once⟩

theorem allocate (owns : Owns heap owned) (free : heap fresh = none) :
    Owns (put heap fresh block) (fresh :: owned) := by
  constructor
  · intro other member
    rcases List.mem_cons.mp member with rfl | before
    · rw [put_self]
      rfl
    · exact put_isSome (owns.live other before)
  · exact List.nodup_cons.mpr ⟨owns.not_mem free, owns.once⟩

theorem release (owns : Owns heap (ptr :: owned)) : Owns (drop heap ptr) owned := by
  have apart := (List.nodup_cons.mp owns.once).1
  constructor
  · intro other member
    have differs : other ≠ ptr := by
      rintro rfl
      exact apart member
    rw [drop_of_ne differs]
    exact owns.tail.live other member
  · exact owns.tail.once

/-- A block moves to another place, or stays. -/
theorem move (owns : Owns heap (ptr :: owned)) (free : fresh = ptr ∨ heap fresh = none) :
    Owns (put (drop heap ptr) fresh block) (fresh :: owned) := by
  apply owns.release.allocate
  by_cases same : fresh = ptr
  · rw [same, drop_self]
  · rw [drop_of_ne same]
    exact free.resolve_left same

end Owns

/-! ## What was gained -/

/-- `heap` is `base` with the blocks of `owned` besides. -/
structure Gained (base heap : π → Option β) (owned : List π) : Prop extends Owns heap owned where
  free : ∀ ptr ∈ owned, base ptr = none
  same : ∀ ptr, ptr ∉ owned → heap ptr = base ptr

namespace Gained

variable {base : π → Option β}

omit [DecidableEq π] in
theorem refl (heap : π → Option β) : Gained heap heap [] :=
  ⟨.nil, nofun, fun _ _ => rfl⟩

omit [DecidableEq π] in
/-- Where nothing is left, nothing has changed. -/
theorem eq (gained : Gained base heap []) : heap = base :=
  funext fun ptr => gained.same ptr List.not_mem_nil

omit [DecidableEq π] in
theorem perm (gained : Gained base heap owned) (perm : owned.Perm other) :
    Gained base heap other :=
  ⟨gained.toOwns.perm perm, fun ptr member => gained.free ptr (perm.mem_iff.mpr member),
    fun ptr outside => gained.same ptr fun member => outside (perm.mem_iff.mp member)⟩

omit [DecidableEq π] in
/-- What is free now was free then. -/
theorem base_none (gained : Gained base heap owned) (free : heap ptr = none) :
    base ptr = none := by
  rw [← gained.same ptr (gained.toOwns.not_mem free)]
  exact free

theorem allocate (gained : Gained base heap owned) (free : heap fresh = none) :
    Gained base (put heap fresh block) (fresh :: owned) := by
  refine ⟨gained.toOwns.allocate free, ?_, ?_⟩
  · intro ptr member
    rcases List.mem_cons.mp member with rfl | before
    · exact gained.base_none free
    · exact gained.free ptr before
  · intro ptr outside
    rw [List.mem_cons, not_or] at outside
    rw [put_of_ne outside.1]
    exact gained.same ptr outside.2

theorem store (gained : Gained base heap owned) (member : ptr ∈ owned) :
    Gained base (put heap ptr block) owned := by
  refine ⟨gained.toOwns.store, gained.free, ?_⟩
  intro other outside
  have apart : other ≠ ptr := by
    rintro rfl
    exact outside member
  rw [put_of_ne apart]
  exact gained.same other outside

theorem release (gained : Gained base heap (ptr :: owned)) : Gained base (drop heap ptr) owned := by
  have once := (List.nodup_cons.mp gained.once).1
  refine ⟨gained.toOwns.release, fun other member => gained.free other (.tail _ member), ?_⟩
  intro other outside
  by_cases same : other = ptr
  · rw [same, drop_self, gained.free ptr (.head _)]
  · rw [drop_of_ne same]
    apply gained.same
    rw [List.mem_cons, not_or]
    exact ⟨same, outside⟩

theorem move (gained : Gained base heap (ptr :: owned)) (free : fresh = ptr ∨ heap fresh = none) :
    Gained base (put (drop heap ptr) fresh block) (fresh :: owned) := by
  apply gained.release.allocate
  by_cases same : fresh = ptr
  · rw [same, drop_self]
  · rw [drop_of_ne same]
    exact free.resolve_left same

end Gained

end Ownership
