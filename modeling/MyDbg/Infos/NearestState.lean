import MyDbg.Infos.DwarfStateMachine
import MyDbg.Lib.Nearest

/-!
Contract: the row that is shown for an address.

Owns: `addr_dist` and `get_nearest_state`, which returns the last of the rows
with the greatest address not above the one asked for; tables made of sequences,
the rows that cover an address, and when `get_nearest_state` returns one of them
or NULL as it should.

Does not own: how the rows of a table come about.
-/

namespace MyDbg.Infos

open LittleEndian Nearest

def longMax : Word := 0x7fffffffffffffff

/-- The difference of two pointers is a signed number, and its negation wraps
around. -/
def addrDist (addr1 addr2 : Addr) : Word :=
  let diff := addr1 - addr2
  if diff.sle 0 then -diff else longMax

/-- The loop of `get_nearest_state`. -/
def nearestStateFrom (addr baseAddr : Addr) : Word → Option MyDwSm → List MyDwSm → Option MyDwSm
  | _, mySm, [] => mySm
  | dist, mySm, sm :: rest =>
      let d := addrDist (baseAddr + sm.address) addr
      if d = longMax then nearestStateFrom addr baseAddr dist mySm rest
      else if d.sle dist then nearestStateFrom addr baseAddr d (some sm) rest
      else nearestStateFrom addr baseAddr dist mySm rest

def getNearestState (states : List MyDwSm) (addr baseAddr : Addr) : Option MyDwSm :=
  nearestStateFrom addr baseAddr longMax none states

/-! ## The search -/

/-- The distance of a row that is not passed over. -/
def rowDistance (addr baseAddr : Addr) (sm : MyDwSm) : Option Int :=
  if addrDist (baseAddr + sm.address) addr = longMax then none
  else some (addrDist (baseAddr + sm.address) addr).toInt

theorem sle_longMax (d : Word) : d.sle longMax = true := by
  have bound := BitVec.toInt_lt (x := d)
  have value : longMax.toInt = 2 ^ 63 - 1 := by decide
  rw [BitVec.sle_iff_toInt_le, value]
  omega

/-- `dist` is the distance of the best row so far. -/
theorem nearestStateFrom_eq (addr baseAddr : Addr) (states : List MyDwSm) (dist : Word)
    (best : Option MyDwSm)
    (cached : (best.bind (rowDistance addr baseAddr) = none ∧ dist = longMax) ∨
      best.bind (rowDistance addr baseAddr) = some dist.toInt) :
    nearestStateFrom addr baseAddr dist best states =
      states.foldl (closer (rowDistance addr baseAddr)) best := by
  induction states generalizing dist best with
  | nil => rfl
  | cons sm rest inductionHypothesis =>
      rw [List.foldl_cons, nearestStateFrom]
      by_cases passed : addrDist (baseAddr + sm.address) addr = longMax
      · have skipped : closer (rowDistance addr baseAddr) best sm = best := by
          rw [closer, rowDistance, if_pos passed]
        rw [skipped, if_pos passed]
        exact inductionHypothesis dist best cached
      · have here : rowDistance addr baseAddr sm =
            some (addrDist (baseAddr + sm.address) addr).toInt := if_neg passed
        have taken : closer (rowDistance addr baseAddr) best sm =
            if (addrDist (baseAddr + sm.address) addr).sle dist then some sm else best := by
          unfold closer
          rw [here]
          rcases cached with ⟨nothing, rfl⟩ | least
          · rw [nothing, if_pos (sle_longMax _)]
          · rw [least]
            simp only [BitVec.sle_iff_toInt_le]
        rw [taken, if_neg passed]
        split
        · exact inductionHypothesis _ (some sm) (Or.inr here)
        · exact inductionHypothesis dist best cached

theorem getNearestState_eq (states : List MyDwSm) (addr baseAddr : Addr) :
    getNearestState states addr baseAddr = nearest (rowDistance addr baseAddr) states :=
  nearestStateFrom_eq addr baseAddr states longMax none (Or.inl ⟨rfl, rfl⟩)

/-! ## The greatest address -/

/-- `row` has the greatest of the addresses not above `addr`, and is the last row
that has it. -/
def GreatestReached (addr baseAddr : Addr) (states : List MyDwSm) (row : MyDwSm) : Prop :=
  ∃ before after, states = before ++ row :: after ∧ baseAddr + row.address ≤ addr ∧
    (∀ other ∈ before, baseAddr + other.address ≤ addr →
      baseAddr + other.address ≤ baseAddr + row.address) ∧
    (∀ other ∈ after, baseAddr + other.address ≤ addr →
      baseAddr + other.address < baseAddr + row.address)

section Greatest

variable {addr baseAddr : Addr} {states : List MyDwSm} {row : MyDwSm}

theorem addrDist_user {addr1 addr2 : Addr} (first : addr1.toNat < 2 ^ 47)
    (second : addr2.toNat < 2 ^ 47) :
    addrDist addr1 addr2 = if addr1 ≤ addr2 then addr2 - addr1 else longMax := by
  have negated : -(addr1 - addr2) = addr2 - addr1 := by
    rw [BitVec.neg_sub, BitVec.add_comm, BitVec.sub_eq_add_neg]
  have sign : (addr1 - addr2).sle 0 = true ↔ addr1 ≤ addr2 := by
    have zero : (0 : Word).toInt = 0 := by decide
    rw [BitVec.sle_iff_toInt_le, zero, BitVec.toInt_eq_toNat_cond, BitVec.toNat_sub, BitVec.le_def]
    split <;> omega
  simp only [addrDist, sign, negated]

/-- Of user-space addresses the distance is that of the numbers, and a row is passed
over exactly if it is above. -/
theorem rowDistance_user (user : addr.toNat < 2 ^ 47)
    (loaded : (baseAddr + row.address).toNat < 2 ^ 47) :
    rowDistance addr baseAddr row =
      if baseAddr + row.address ≤ addr then
        some ((addr.toNat : Int) - (baseAddr + row.address).toNat)
      else none := by
  rw [rowDistance, addrDist_user loaded user]
  by_cases reached : baseAddr + row.address ≤ addr
  · have ordered : (baseAddr + row.address).toNat ≤ addr.toNat := reached
    have distance : (addr - (baseAddr + row.address)).toInt =
        (addr.toNat : Int) - (baseAddr + row.address).toNat := by
      rw [BitVec.toInt_eq_toNat_cond, BitVec.toNat_sub]
      split <;> omega
    have finite : addr - (baseAddr + row.address) ≠ longMax := by
      intro same
      rw [same] at distance
      have value : longMax.toInt = 2 ^ 63 - 1 := by decide
      omega
    rw [if_pos reached, if_pos reached, if_neg finite, distance]
  · rw [if_neg reached, if_neg reached, if_pos rfl]

theorem rowDistance_eq_some {near : Int} (user : addr.toNat < 2 ^ 47)
    (loaded : (baseAddr + row.address).toNat < 2 ^ 47) :
    rowDistance addr baseAddr row = some near ↔
      baseAddr + row.address ≤ addr ∧
        near = (addr.toNat : Int) - (baseAddr + row.address).toNat := by
  rw [rowDistance_user user loaded]
  by_cases reached : baseAddr + row.address ≤ addr
  · rw [if_pos reached, Option.some.injEq, eq_comm]
    exact (and_iff_right reached).symm
  · rw [if_neg reached]
    exact iff_of_false nofun fun both => reached both.1

/-- The nearest row is the one with the greatest address. -/
theorem unbeaten_iff_greatest (user : addr.toNat < 2 ^ 47)
    (loaded : ∀ row ∈ states, (baseAddr + row.address).toNat < 2 ^ 47) :
    Unbeaten (rowDistance addr baseAddr) (fun _ => True) states row ↔
      GreatestReached addr baseAddr states row := by
  have distances {other : MyDwSm} {near : Int} (member : other ∈ states) :=
    @rowDistance_eq_some addr baseAddr other near user (loaded other member)
  constructor
  · rintro ⟨before, after, near, split, here, early, late⟩
    have first {other : MyDwSm} (member : other ∈ before) : other ∈ states := by
      simp [split, member]
    have last {other : MyDwSm} (member : other ∈ after) : other ∈ states := by
      simp [split, member]
    obtain ⟨reached, rfl⟩ := (distances (by simp [split])).mp here
    refine ⟨before, after, split, reached, ?_, ?_⟩
    · intro other member below
      have farther := early other member trivial _ ((distances (first member)).mpr ⟨below, rfl⟩)
      rw [BitVec.le_def]
      omega
    · intro other member below
      have farther := late other member trivial _ ((distances (last member)).mpr ⟨below, rfl⟩)
      rw [BitVec.lt_def]
      omega
  · rintro ⟨before, after, split, reached, early, late⟩
    have first {other : MyDwSm} (member : other ∈ before) : other ∈ states := by
      simp [split, member]
    have last {other : MyDwSm} (member : other ∈ after) : other ∈ states := by
      simp [split, member]
    refine ⟨before, after, _, split, (distances (by simp [split])).mpr ⟨reached, rfl⟩, ?_, ?_⟩
    · intro other member _ far there
      obtain ⟨below, rfl⟩ := (distances (first member)).mp there
      have ordered := early other member below
      rw [BitVec.le_def] at ordered
      omega
    · intro other member _ far there
      obtain ⟨below, rfl⟩ := (distances (last member)).mp there
      have ordered := late other member below
      rw [BitVec.lt_def] at ordered
      omega

/-- With user-space addresses, `get_nearest_state` returns NULL exactly if all rows
are above the address, and otherwise the last row with the greatest address. -/
theorem getNearestState_greatest (user : addr.toNat < 2 ^ 47)
    (loaded : ∀ row ∈ states, (baseAddr + row.address).toNat < 2 ^ 47) :
    (getNearestState states addr baseAddr = none ↔
        ∀ row ∈ states, addr < baseAddr + row.address) ∧
      ∀ row, getNearestState states addr baseAddr = some row ↔
        GreatestReached addr baseAddr states row := by
  rw [getNearestState_eq, nearest_eq_none]
  constructor
  · apply forall_congr'
    intro row
    apply forall_congr'
    intro member
    rw [rowDistance_user user (loaded row member)]
    by_cases reached : baseAddr + row.address ≤ addr
    · rw [if_pos reached]
      exact iff_of_false nofun (BitVec.not_lt.mpr reached)
    · rw [if_neg reached]
      exact iff_of_true rfl (BitVec.not_le.mp reached)
  · intro row
    rw [nearest_eq_some]
    exact unbeaten_iff_greatest user loaded

end Greatest

def rowAt (address : Addr) (endSequence : Bool) : MyDwSm where
  address := address
  opIndex := 0
  file := 1
  line := 1
  column := 0
  isStmt := true
  basicBlock := false
  endSequence := endSequence
  prologueEnd := false
  epilogueBegin := false
  isa := 0
  discriminator := 0

/-- The last of two rows at the address, with rows around them. -/
theorem getNearestState_greatest_tie :
    ((getNearestState [rowAt 0x20 false, rowAt 0x10 false, rowAt 0x20 true, rowAt 0x30 true]
          0x1024 0x1000 = none ↔
        ∀ row ∈ [rowAt 0x20 false, rowAt 0x10 false, rowAt 0x20 true, rowAt 0x30 true],
          (0x1024 : Addr) < 0x1000 + row.address) ∧
      ∀ row, getNearestState
          [rowAt 0x20 false, rowAt 0x10 false, rowAt 0x20 true, rowAt 0x30 true] 0x1024 0x1000 =
            some row ↔
        GreatestReached 0x1024 0x1000
          [rowAt 0x20 false, rowAt 0x10 false, rowAt 0x20 true, rowAt 0x30 true] row) :=
  getNearestState_greatest (by decide) (by decide)

/-! ## Sequences -/

/-- Rows with addresses that do not decrease, and the row that ends them. -/
structure LineSequence where
  rows : List MyDwSm
  last : MyDwSm
  inside : ∀ row ∈ rows, row.endSequence = false
  ended : last.endSequence = true
  sorted : (rows ++ [last]).Pairwise fun earlier later => earlier.address ≤ later.address

namespace LineSequence

variable (sequence : LineSequence)

def states : List MyDwSm := sequence.rows ++ [sequence.last]

def start : Addr := (sequence.rows.headD sequence.last).address

/-- The first address behind the sequence. -/
def stop : Addr := sequence.last.address

/-- `addr` lies in the range of the sequence, loaded at `baseAddr`. -/
def Contains (baseAddr addr : Addr) : Prop :=
  baseAddr.toNat + sequence.start.toNat ≤ addr.toNat ∧
    addr.toNat < baseAddr.toNat + sequence.stop.toNat

/-- `addr` lies between `row` and the first later row with a larger address. -/
def Covers (baseAddr addr : Addr) (row : MyDwSm) : Prop :=
  ∃ before after next, sequence.states = before ++ row :: after ∧ row.endSequence = false ∧
    baseAddr.toNat + row.address.toNat ≤ addr.toNat ∧
    after.find? (fun later => row.address < later.address) = some next ∧
    addr.toNat < baseAddr.toNat + next.address.toNat

end LineSequence

/-- Sequences in any order, whose ranges have no address in common. -/
structure LineTable where
  sequences : List LineSequence
  disjoint : sequences.Pairwise fun left right =>
    ∀ addr, left.Contains 0 addr → ¬ right.Contains 0 addr

namespace LineTable

variable (table : LineTable)

def states : List MyDwSm := table.sequences.flatMap LineSequence.states

def Contains (baseAddr addr : Addr) : Prop :=
  ∃ sequence ∈ table.sequences, sequence.Contains baseAddr addr

def Covers (baseAddr addr : Addr) (row : MyDwSm) : Prop :=
  ∃ sequence ∈ table.sequences, sequence.Covers baseAddr addr row

end LineTable

/-! ## What is shown -/

variable {table : LineTable} {baseAddr addr : Addr}

/-- A row that covers the address is shown if there is one, and nothing is shown
for an address that lies in no sequence. -/
structure LineShown (table : LineTable) (baseAddr addr : Addr) (shown : Option MyDwSm) : Prop where
  covered : (∃ row, table.Covers baseAddr addr row) →
    ∃ row, shown = some row ∧ table.Covers baseAddr addr row
  outside : ¬ table.Contains baseAddr addr → shown = none

/-- Of an address in a sequence: a row that covers it is beaten by no row that does
not. Of another one: every row is passed over. -/
structure Decisive (table : LineTable) (baseAddr addr : Addr) : Prop where
  covered : (∃ row, table.Covers baseAddr addr row) →
    ∃ row, table.Covers baseAddr addr row ∧
      Unbeaten (rowDistance addr baseAddr) (fun other => ¬ table.Covers baseAddr addr other)
        table.states row
  outside : ¬ table.Contains baseAddr addr →
    ∀ row ∈ table.states, addrDist (baseAddr + row.address) addr = longMax

theorem rowDistance_eq_none {row : MyDwSm} : rowDistance addr baseAddr row = none ↔
    addrDist (baseAddr + row.address) addr = longMax := by
  unfold rowDistance
  split
  · next passed => exact iff_of_true rfl passed
  · next considered => exact iff_of_false nofun considered

/-- The line shown covers the address for the tables that decide it, and for no
others. -/
theorem lineShown_iff (table : LineTable) (baseAddr addr : Addr) :
    LineShown table baseAddr addr (getNearestState table.states addr baseAddr) ↔
      Decisive table baseAddr addr := by
  have covers := @nearest_mem_iff _ _ _ (rowDistance addr baseAddr) table.states
    (table.Covers baseAddr addr)
  have misses : getNearestState table.states addr baseAddr = none ↔
      ∀ row ∈ table.states, addrDist (baseAddr + row.address) addr = longMax := by
    rw [getNearestState_eq, nearest_eq_none]
    simp only [rowDistance_eq_none]
  rw [← getNearestState_eq] at covers
  constructor
  · intro shown
    exact ⟨fun covered => covers.mp (shown.covered covered),
      fun outside => misses.mp (shown.outside outside)⟩
  · intro decisive
    exact ⟨fun covered => covers.mpr (decisive.covered covered),
      fun outside => misses.mpr (decisive.outside outside)⟩

/-! ## Two sequences that touch -/

/-- One row for the addresses from `start` on. -/
def sequenceOf (start stop : Addr) (ordered : start ≤ stop) : LineSequence where
  rows := [rowAt start false]
  last := rowAt stop true
  inside := by
    intro row member
    rw [List.mem_singleton.mp member]
    rfl
  ended := rfl
  sorted := List.pairwise_pair.mpr ordered

/-- The sequence behind stands first. -/
def touching : LineTable where
  sequences := [sequenceOf 0x20 0x30 (by decide), sequenceOf 0x10 0x20 (by decide)]
  disjoint := by
    apply List.pairwise_pair.mpr
    intro addr left right
    have low : 0 + 0x20 ≤ addr.toNat := left.1
    have high : addr.toNat < 0 + 0x20 := right.2
    omega

/-- In the first sequence the end of the other one is shown, and past the end the
end of the sequence. -/
theorem touching_misses :
    ¬ LineShown touching 0 0x24 (getNearestState touching.states 0x24 0) ∧
      ¬ LineShown touching 0 0x38 (getNearestState touching.states 0x38 0) := by
  constructor
  · intro shown
    have covers : touching.Covers 0 0x24 (rowAt 0x20 false) :=
      ⟨sequenceOf 0x20 0x30 (by decide), List.mem_cons_self, [], [rowAt 0x30 true],
        rowAt 0x30 true, rfl, rfl, by decide, rfl, by decide⟩
    obtain ⟨row, found, sequence, _, before, after, next, _, notEnd, _⟩ := shown.covered ⟨_, covers⟩
    have ends : getNearestState touching.states 0x24 0 = some (rowAt 0x20 true) := by decide
    rw [ends] at found
    obtain rfl := Option.some.inj found
    cases notEnd
  · intro shown
    have outside : ¬ touching.Contains 0 0x38 := by
      rintro ⟨sequence, member, contains⟩
      have high : (0x38 : Addr).toNat < (0 : Addr).toNat + sequence.stop.toNat := contains.2
      have early : sequence.stop.toNat ≤ 0x30 := by
        simp only [touching, List.mem_cons, List.not_mem_nil, or_false] at member
        rcases member with rfl | rfl <;> decide
      change 0x38 < 0 + _ at high
      omega
    have found : getNearestState touching.states 0x38 0 = some (rowAt 0x30 true) := by decide
    rw [shown.outside outside] at found
    cases found

end MyDbg.Infos
