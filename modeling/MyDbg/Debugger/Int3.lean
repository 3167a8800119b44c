import MyDbg.Debugger.Rules
import MyDbg.Debugger.Tracee

/-!
Contract: where the inserted `int3` bytes are.

Owns: `InPlace`, what one code address holds and what is saved for it; that
every placement, hit and single step keeps all of them in place as long as no
breakpoint is taken out from under another one at its address; and that a
single step never executes an inserted byte.

Does not own: `break_del`.
-/

namespace MyDbg

open LittleEndian ProgramLogic Transition

/-! ## One address -/

/-- `addr` holds `0xCC` where a breakpoint is enabled, with the original byte
saved in the first one, and the original byte where none is. -/
def InPlace (orig mem : Memory) (breakpoints : List MyBp) (addr : Addr) : Prop :=
  match getBreakpoint breakpoints addr with
  | none => mem addr = orig addr
  | some index => mem addr = 0xCC ∧ ∀ bp ∈ breakpoints[index]?, lowByte bp.word = orig addr

section Address

variable {orig mem : Memory} {breakpoints : List MyBp} {addr : Addr} {index : Nat} {bp : MyBp}

theorem inPlace_iff_none (none : getBreakpoint breakpoints addr = none) :
    InPlace orig mem breakpoints addr ↔ mem addr = orig addr := by
  unfold InPlace
  rw [none]

theorem inPlace_iff_some (first : getBreakpoint breakpoints addr = some index)
    (found : breakpoints[index]? = some bp) :
    InPlace orig mem breakpoints addr ↔ mem addr = 0xCC ∧ lowByte bp.word = orig addr := by
  unfold InPlace
  rw [first]
  simp [found]

/-- What is in place reads as the breakpoints promise. -/
theorem InPlace.byte (inPlace : InPlace orig mem breakpoints addr) :
    mem addr = if isBreakpoint breakpoints addr then 0xCC else orig addr := by
  cases first : getBreakpoint breakpoints addr with
  | none => simpa [isBreakpoint, first] using (inPlace_iff_none first).mp inPlace
  | some index =>
      obtain ⟨bp, found, _⟩ := getBreakpoint_eq_some.mp first
      simpa [isBreakpoint, first] using ((inPlace_iff_some first found).mp inPlace).1

/-- Toggling a breakpoint is invisible at every other address. -/
theorem inPlace_elsewhere (found : breakpoints[index]? = some bp) (elsewhere : bp.addr ≠ addr)
    (byte : Byte) :
    InPlace orig (Function.update mem bp.addr byte) (breakpoints.set index bp.toggled) addr ↔
      InPlace orig mem breakpoints addr := by
  have same : getBreakpoint (breakpoints.set index bp.toggled) addr =
      getBreakpoint breakpoints addr := getBreakpoint_set found (MyBp.toggled_hits elsewhere)
  have untouched : Function.update mem bp.addr byte addr = mem addr :=
    Function.update_of_ne elsewhere.symm _ _
  cases first : getBreakpoint breakpoints addr with
  | none => rw [inPlace_iff_none first, inPlace_iff_none (same.trans first), untouched]
  | some position =>
      obtain ⟨hit, at', hits, _⟩ := getBreakpoint_eq_some.mp first
      have apart : index ≠ position := by
        rintro rfl
        obtain rfl : bp = hit := Option.some.inj (found.symm.trans at')
        exact elsewhere (MyBp.hits_iff.mp hits).1
      have still : (breakpoints.set index bp.toggled)[position]? = some hit := by
        rw [List.getElem?_set_ne apart, at']
      rw [inPlace_iff_some first at', inPlace_iff_some (same.trans first) still, untouched]

/-- Disabling the only enabled breakpoint of an address restores its byte. -/
theorem inPlace_off (first : getBreakpoint breakpoints bp.addr = some index)
    (found : breakpoints[index]? = some bp) (alone : Alone breakpoints index bp.addr)
    (inPlace : InPlace orig mem breakpoints bp.addr) :
    InPlace orig (Function.update mem bp.addr (lowByte bp.word))
      (breakpoints.set index bp.toggled) bp.addr := by
  obtain ⟨same, at', hits, _⟩ := getBreakpoint_eq_some.mp first
  obtain rfl : bp = same := Option.some.inj (found.symm.trans at')
  have none : getBreakpoint (breakpoints.set index bp.toggled) bp.addr = none := by
    refine getBreakpoint_eq_none.mpr fun entry member => ?_
    obtain ⟨position, stored⟩ := List.mem_iff_getElem?.mp member
    by_cases equal : position = index
    · subst equal
      have off : (breakpoints.set position bp.toggled)[position]? = some bp.toggled := by
        simp [(List.getElem?_eq_some_iff.mp found).1]
      obtain rfl : bp.toggled = entry := Option.some.inj (off.symm.trans stored)
      exact MyBp.toggled_hits_off (MyBp.hits_iff.mp hits).2.1 _
    · rw [List.getElem?_set_ne (Ne.symm equal)] at stored
      exact alone position equal entry stored
  rw [inPlace_iff_none none, Function.update_self]
  exact ((inPlace_iff_some first found).mp inPlace).2

/-- Enabling a breakpoint that saved the original byte puts the `int3` back. -/
theorem inPlace_on (found : breakpoints[index]? = some bp) (off : bp.enabled = false)
    (live : bp.deleted = false) (isCode : bp.isSyscall = false)
    (earlier : ∀ before < index, ∀ other ∈ breakpoints[before]?, other.hits bp.addr = false)
    (saved : lowByte bp.word = orig bp.addr) :
    InPlace orig (Function.update mem bp.addr 0xCC) (breakpoints.set index bp.toggled)
      bp.addr := by
  have on : (breakpoints.set index bp.toggled)[index]? = some bp.toggled := by
    simp [(List.getElem?_eq_some_iff.mp found).1]
  have first : getBreakpoint (breakpoints.set index bp.toggled) bp.addr = some index := by
    refine getBreakpoint_eq_some.mpr ⟨bp.toggled, on, ?_, fun before less other member => ?_⟩
    · exact MyBp.hits_iff.mpr ⟨rfl, by simp [off], live, isCode⟩
    · rw [List.getElem?_set_ne less.ne'] at member
      exact earlier before less other member
  rw [inPlace_iff_some first on]
  exact ⟨Function.update_self _ _ _, saved⟩

/-- A placement keeps what is in place. -/
theorem inPlace_place {flags : MyBpFlags} (isCode : flags &&& myBpSyscall = 0) (target : Addr)
    (inPlace : InPlace orig mem breakpoints addr) :
    InPlace orig (Function.update mem target 0xCC)
      (breakpoints ++ [.placed breakpoints target flags (peek mem target)]) addr := by
  have hits : (MyBp.placed breakpoints target flags (peek mem target)).hits addr =
      (target == addr) := by
    simp [MyBp.hits, MyBp.placed, MyBp.isSyscall, isCode]
  cases first : getBreakpoint breakpoints addr with
  | some index =>
      obtain ⟨bp, found, _⟩ := getBreakpoint_eq_some.mp first
      have still : getBreakpoint (breakpoints ++
          [.placed breakpoints target flags (peek mem target)]) addr = some index := by
        rw [getBreakpoint_append, first]
        rfl
      have kept : (breakpoints ++
          [.placed breakpoints target flags (peek mem target)])[index]? = some bp := by
        rw [List.getElem?_append_left (List.getElem?_eq_some_iff.mp found).1, found]
      obtain ⟨armed, saved⟩ := (inPlace_iff_some first found).mp inPlace
      rw [inPlace_iff_some still kept]
      refine ⟨?_, saved⟩
      by_cases here : addr = target
      · rw [here, Function.update_self]
      · rw [Function.update_of_ne here, armed]
  | none =>
      have clear := (inPlace_iff_none first).mp inPlace
      by_cases here : addr = target
      · subst here
        have new : getBreakpoint (breakpoints ++
            [.placed breakpoints addr flags (peek mem addr)]) addr = some breakpoints.length := by
          rw [getBreakpoint_append, first, hits]
          simp
        have last : (breakpoints ++ [.placed breakpoints addr flags
            (peek mem addr)])[breakpoints.length]? =
              some (.placed breakpoints addr flags (peek mem addr)) := by
          simp
        rw [inPlace_iff_some new last, Function.update_self]
        exact ⟨rfl, (lowByte_peek mem addr).trans clear⟩
      · have absent : getBreakpoint (breakpoints ++
            [.placed breakpoints target flags (peek mem target)]) addr = none := by
          rw [getBreakpoint_append, first, hits]
          simp [Ne.symm here]
        rw [inPlace_iff_none absent, Function.update_of_ne here, clear]

/-- A syscall breakpoint is at no address. -/
theorem inPlace_append (isSyscall : bp.isSyscall = true)
    (inPlace : InPlace orig mem breakpoints addr) :
    InPlace orig mem (breakpoints ++ [bp]) addr := by
  have same : getBreakpoint (breakpoints ++ [bp]) addr = getBreakpoint breakpoints addr := by
    simp [getBreakpoint_append, MyBp.hits, isSyscall]
  cases first : getBreakpoint breakpoints addr with
  | none =>
      rw [inPlace_iff_none (same.trans first)]
      exact (inPlace_iff_none first).mp inPlace
  | some index =>
      obtain ⟨hit, found, _⟩ := getBreakpoint_eq_some.mp first
      have still : (breakpoints ++ [bp])[index]? = some hit := by
        rw [List.getElem?_append_left (List.getElem?_eq_some_iff.mp found).1, found]
      rw [inPlace_iff_some (same.trans first) still]
      exact (inPlace_iff_some first found).mp inPlace

end Address

/-! ## All code addresses -/

/-- Everything at the addresses `within` is in place. -/
def Armed (orig : Memory) (within : Set Addr) (mem : Memory) (breakpoints : List MyBp) : Prop :=
  ∀ addr ∈ within, InPlace orig mem breakpoints addr

/-- The breakpoint at `index` is off for a single step from `addr`: a temporary
one for good, any other until it is put back. -/
structure SteppingOver (orig : Memory) (code : Set Addr) (index : Nat) (addr : Addr) (bp : MyBp)
    (mem : Memory) (breakpoints : List MyBp) : Prop where
  found : breakpoints[index]? = some bp
  here : bp.addr = addr
  off : bp.enabled = false
  live : bp.deleted = false
  isCode : bp.isSyscall = false
  earlier : ∀ before < index, ∀ other ∈ breakpoints[before]?, other.hits addr = false
  saved : addr ∈ code → lowByte bp.word = orig addr
  others : Armed orig { other ∈ code | other ≠ addr } mem breakpoints
  taken : bp.isTemp = true → Armed orig code mem breakpoints

/-- What holds while `single_step` waits. -/
def Stepping (orig : Memory) (code : Set Addr) (pointer : Option Nat) (addr : Addr)
    (mem : Memory) (breakpoints : List MyBp) : Prop :=
  match pointer with
  | none => Armed orig code mem breakpoints
  | some index => ∃ bp, SteppingOver orig code index addr bp mem breakpoints

/-- What holds when `single_step` makes its request. -/
def Stepped (orig : Memory) (code : Set Addr) (pointer : Option Nat) (addr : Addr)
    (mem : Memory) (breakpoints : List MyBp) : Prop :=
  Stepping orig code pointer addr mem breakpoints ∧ (addr ∈ code → mem addr = orig addr)

/-- `holds` survives what the tracee does and the hit of a temporary breakpoint
that is alone at its address. -/
structure Robust (code : Set Addr) (holds : Memory → List MyBp → Prop) : Prop where
  runs : ∀ mem after breakpoints, (∀ addr ∈ code, after addr = mem addr) →
    holds mem breakpoints → holds after breakpoints
  taken : ∀ mem breakpoints index bp, getBreakpoint breakpoints bp.addr = some index →
    breakpoints[index]? = some bp → bp.isTemp = true → Alone breakpoints index bp.addr →
    holds mem breakpoints →
    holds (Function.update mem bp.addr (lowByte bp.word)) (breakpoints.set index bp.toggled)

section Robust

variable {orig : Memory} {code : Set Addr}

theorem inPlace_congr {mem after : Memory} {breakpoints : List MyBp} {addr : Addr}
    (same : after addr = mem addr) (inPlace : InPlace orig mem breakpoints addr) :
    InPlace orig after breakpoints addr := by
  unfold InPlace at inPlace ⊢
  rwa [same]

theorem armed_robust {within : Set Addr} (inside : within ⊆ code) :
    Robust code (Armed orig within) where
  runs mem after breakpoints same armed addr member :=
    inPlace_congr (same addr (inside member)) (armed addr member)
  taken mem breakpoints index bp first found _ alone armed addr member := by
    by_cases here : bp.addr = addr
    · subst here
      exact inPlace_off first found alone (armed _ member)
    · exact (inPlace_elsewhere found here _).mpr (armed addr member)

theorem stepping_robust (pointer : Option Nat) (addr : Addr) :
    Robust code (Stepping orig code pointer addr) := by
  cases pointer with
  | none => exact armed_robust subset_rfl
  | some index =>
      constructor
      · rintro mem after breakpoints same ⟨bp, past⟩
        refine ⟨bp, { past with others := ?_, taken := fun temp => ?_ }⟩
        · exact (armed_robust fun _ member => member.1).runs mem after breakpoints same past.others
        · exact (armed_robust subset_rfl).runs mem after breakpoints same (past.taken temp)
      · rintro mem breakpoints hit other first found temp alone ⟨bp, past⟩
        obtain ⟨same, at', hits, _⟩ := getBreakpoint_eq_some.mp first
        obtain rfl : other = same := Option.some.inj (found.symm.trans at')
        -- the one stepped over is disabled, so the one hit is another
        have apart : hit ≠ index := by
          rintro rfl
          obtain rfl : other = bp := Option.some.inj (found.symm.trans past.found)
          have on := (MyBp.hits_iff.mp hits).2.1
          rw [past.off] at on
          cases on
        refine ⟨bp, { past with
          found := (List.getElem?_set_ne apart).trans past.found
          earlier := fun before less entry member => ?_
          others := ?_
          taken := fun isTemp => ?_ }⟩
        · by_cases equal : before = hit
          · subst equal
            rw [List.getElem?_set_self (List.getElem?_eq_some_iff.mp found).1] at member
            obtain rfl : other.toggled = entry := Option.some.inj member
            exact MyBp.toggled_hits_off (MyBp.hits_iff.mp hits).2.1 addr
          · rw [List.getElem?_set_ne (Ne.symm equal)] at member
            exact past.earlier before less entry member
        · exact (armed_robust fun _ member => member.1).taken mem breakpoints hit other first found
            temp alone past.others
        · exact (armed_robust subset_rfl).taken mem breakpoints hit other first found temp alone
            (past.taken isTemp)

/-- The first toggle of `single_step`. -/
theorem steppingOver_off {mem : Memory} {breakpoints : List MyBp} {index : Nat} {bp : MyBp}
    (first : getBreakpoint breakpoints bp.addr = some index)
    (found : breakpoints[index]? = some bp) (armed : Armed orig code mem breakpoints)
    (safe : bp.isTemp = true → Alone breakpoints index bp.addr) :
    SteppingOver orig code index bp.addr bp.toggled
      (Function.update mem bp.addr (lowByte bp.word)) (breakpoints.set index bp.toggled) := by
  obtain ⟨same, at', hits, earlier⟩ := getBreakpoint_eq_some.mp first
  obtain rfl : bp = same := Option.some.inj (found.symm.trans at')
  obtain ⟨_, on, live, isCode⟩ := MyBp.hits_iff.mp hits
  refine ⟨?_, rfl, by simp [on], live, isCode, fun before less entry member => ?_,
    fun member => ?_, fun addr member => ?_, fun temp => ?_⟩
  · simp [(List.getElem?_eq_some_iff.mp found).1]
  · rw [List.getElem?_set_ne less.ne'] at member
    exact earlier before less entry member
  · exact ((inPlace_iff_some first found).mp (armed _ member)).2
  · exact (inPlace_elsewhere found (Ne.symm member.2) _).mpr (armed addr member.1)
  · exact (armed_robust subset_rfl).taken mem breakpoints index bp first found temp (safe temp)
      armed

/-- The second toggle of `single_step`. -/
theorem SteppingOver.on {mem : Memory} {breakpoints : List MyBp} {index : Nat} {addr : Addr}
    {bp : MyBp} (past : SteppingOver orig code index addr bp mem breakpoints) :
    Armed orig code (Function.update mem bp.addr 0xCC) (breakpoints.set index bp.toggled) := by
  intro other member
  by_cases here : bp.addr = other
  · have same : addr = other := past.here.symm.trans here
    subst here
    refine inPlace_on past.found past.off past.live past.isCode ?_ ?_
    · rw [past.here]
      exact past.earlier
    · rw [past.here]
      exact past.saved (same ▸ member)
  · refine (inPlace_elsewhere past.found here _).mpr (past.others other ⟨member, ?_⟩)
    rintro rfl
    exact here past.here

end Robust

/-! ## Traces -/

variable {κ : Type} {host : Host κ}

def Request.forMemory : Request → Bool
  | .peekdata _ => true
  | .pokedata _ _ => true
  | _ => false

/-- No request for memory is refused, and no enabled breakpoint is toggled while another
is enabled at its address. -/
def Exclusive (entry : Entry κ) : Prop :=
  match entry.event with
  | .toggle index => ∀ bp ∈ entry.globals.gBreakpoints[index]?, bp.enabled = true →
      Alone entry.globals.gBreakpoints index bp.addr
  | .ptrace request accepted => request.forMemory = true → accepted = true
  | _ => True

instance (entry : Entry κ) : Decidable (Exclusive entry) :=
  match entry with
  | ⟨.toggle index, globals, _⟩ =>
      inferInstanceAs (Decidable (∀ bp ∈ globals.gBreakpoints[index]?, bp.enabled = true →
        Alone globals.gBreakpoints index bp.addr))
  | ⟨.ptrace request accepted, _, _⟩ =>
      inferInstanceAs (Decidable (request.forMemory = true → accepted = true))
  | ⟨.waited _, _, _⟩ => isTrue trivial
  | ⟨.output _, _, _⟩ => isTrue trivial

/-- No request for memory is refused, and no temporary breakpoint is taken out while
another is enabled at its address. -/
def SafeToggle (entry : Entry κ) : Prop :=
  match entry.event with
  | .toggle index => ∀ bp ∈ entry.globals.gBreakpoints[index]?, bp.enabled = true →
      bp.isTemp = true → Alone entry.globals.gBreakpoints index bp.addr
  | .ptrace request accepted => request.forMemory = true → accepted = true
  | _ => True

instance (entry : Entry κ) : Decidable (SafeToggle entry) :=
  match entry with
  | ⟨.toggle index, globals, _⟩ =>
      inferInstanceAs (Decidable (∀ bp ∈ globals.gBreakpoints[index]?, bp.enabled = true →
        bp.isTemp = true → Alone globals.gBreakpoints index bp.addr))
  | ⟨.ptrace request accepted, _, _⟩ =>
      inferInstanceAs (Decidable (request.forMemory = true → accepted = true))
  | ⟨.waited _, _, _⟩ => isTrue trivial
  | ⟨.output _, _, _⟩ => isTrue trivial

theorem Exclusive.safe {entry : Entry κ} (exclusive : Exclusive entry) : SafeToggle entry := by
  unfold Exclusive at exclusive
  unfold SafeToggle
  split at exclusive
  · exact fun bp member on _ => exclusive bp member on
  · exact exclusive
  · trivial

/-- A single step finds the original byte at RIP. -/
def StepsOriginal (tracee : Tracee host) (orig : Memory) (entry : Entry κ) : Prop :=
  match entry.event with
  | .ptrace (.singlestep _) _ => tracee.regs entry.kernel .rip ∈ tracee.code →
      tracee.mem entry.kernel (tracee.regs entry.kernel .rip) =
        orig (tracee.regs entry.kernel .rip)
  | _ => True

instance (tracee : Tracee host) [DecidablePred (· ∈ tracee.code)] (orig : Memory)
    (entry : Entry κ) : Decidable (StepsOriginal tracee orig entry) :=
  match entry with
  | ⟨.ptrace (.singlestep _) _, _, kernel⟩ =>
      inferInstanceAs (Decidable (tracee.regs kernel .rip ∈ tracee.code →
        tracee.mem kernel (tracee.regs kernel .rip) = orig (tracee.regs kernel .rip)))
  | ⟨.ptrace (.peekdata _) _, _, _⟩ => isTrue trivial
  | ⟨.ptrace (.pokedata _ _) _, _, _⟩ => isTrue trivial
  | ⟨.ptrace .getregs _, _, _⟩ => isTrue trivial
  | ⟨.ptrace (.setregs _) _, _, _⟩ => isTrue trivial
  | ⟨.ptrace (.cont _) _, _, _⟩ => isTrue trivial
  | ⟨.ptrace (.syscall _) _, _, _⟩ => isTrue trivial
  | ⟨.waited _, _, _⟩ => isTrue trivial
  | ⟨.toggle _, _, _⟩ => isTrue trivial
  | ⟨.output _, _, _⟩ => isTrue trivial

/-- Since the trace was `base`: safe toggles lead to `holds` and to single
steps of original instructions, and exclusive ones leave everything in place
at any time. -/
def Kept (tracee : Tracee host) (orig : Memory) (holds : Memory → List MyBp → Prop)
    (base : List (Entry κ)) (state : State κ) : Prop :=
  ∃ new, state.trace = new ++ base ∧
    ((∀ entry ∈ new, SafeToggle entry) →
      holds (tracee.mem state.kernel) state.globals.gBreakpoints ∧
        ∀ entry ∈ new, StepsOriginal tracee orig entry) ∧
    ((∀ entry ∈ new, Exclusive entry) →
      Armed orig tracee.code (tracee.mem state.kernel) state.globals.gBreakpoints)

/-- A command that raised, or is lost. -/
abbrev Unsettled (tracee : Tracee host) (orig : Memory) :=
  Kept tracee orig fun _ _ => True

/-- What is left of `Kept` where control is lost. -/
def Lost (tracee : Tracee host) (orig : Memory) (base : List (Entry κ)) (state : State κ) : Prop :=
  ∃ new, state.trace = new ++ base ∧
    ((∀ entry ∈ new, SafeToggle entry) → ∀ entry ∈ new, StepsOriginal tracee orig entry)

theorem Lost.grows {tracee : Tracee host} {orig : Memory} {base : List (Entry κ)}
    {before after : State κ} {entry : Entry κ} (lost : Lost tracee orig base before)
    (grows : after.trace = entry :: before.trace) (steps : StepsOriginal tracee orig entry) :
    Lost tracee orig base after := by
  obtain ⟨new, split, settled⟩ := lost
  refine ⟨entry :: new, by rw [grows, split, List.cons_append], fun safe other member => ?_⟩
  rcases List.mem_cons.mp member with rfl | old
  · exact steps
  · exact settled (fun toggle earlier => safe toggle (List.mem_cons_of_mem _ earlier)) other old

/-- A breakpoint was taken out from under another one, or a request for memory refused. -/
def Unsafe (base : List (Entry κ)) (state : State κ) : Prop :=
  ∃ new, state.trace = new ++ base ∧ ∃ entry ∈ new, ¬ SafeToggle entry

section Kept

variable {tracee : Tracee host} {orig : Memory} {holds next : Memory → List MyBp → Prop}
  {base : List (Entry κ)} {before after : State κ}

/-- One event more. -/
theorem Kept.step {entry : Entry κ} (kept : Kept tracee orig holds base before)
    (grows : after.trace = entry :: before.trace)
    (settles : SafeToggle entry →
      holds (tracee.mem before.kernel) before.globals.gBreakpoints →
      next (tracee.mem after.kernel) after.globals.gBreakpoints ∧
        StepsOriginal tracee orig entry)
    (arms : Exclusive entry →
      holds (tracee.mem before.kernel) before.globals.gBreakpoints →
      Armed orig tracee.code (tracee.mem before.kernel) before.globals.gBreakpoints →
      Armed orig tracee.code (tracee.mem after.kernel) after.globals.gBreakpoints) :
    Kept tracee orig next base after := by
  obtain ⟨new, split, settled, armed⟩ := kept
  refine ⟨entry :: new, by rw [grows, split, List.cons_append], fun safe => ?_,
    fun exclusive => ?_⟩
  · have earlier := settled fun other member => safe other (List.mem_cons_of_mem _ member)
    have now := settles (safe entry List.mem_cons_self) earlier.1
    refine ⟨now.1, fun other member => ?_⟩
    rcases List.mem_cons.mp member with rfl | old
    · exact now.2
    · exact earlier.2 other old
  · have old := fun other (member : other ∈ new) => exclusive other (List.mem_cons_of_mem _ member)
    exact arms (exclusive entry List.mem_cons_self)
      (settled fun other member => (old other member).safe).1 (armed old)

/-- No event, and nothing changes that matters. -/
theorem Kept.same (kept : Kept tracee orig holds base before)
    (grows : after.trace = before.trace)
    (mem : tracee.mem after.kernel = tracee.mem before.kernel)
    (breakpoints : after.globals.gBreakpoints = before.globals.gBreakpoints) :
    Kept tracee orig holds base after := by
  unfold Kept
  rw [grows, mem, breakpoints]
  exact kept

/-- An event that is neither a toggle nor a single step. -/
theorem Kept.silent {entry : Entry κ} (kept : Kept tracee orig holds base before)
    (grows : after.trace = entry :: before.trace)
    (mem : tracee.mem after.kernel = tracee.mem before.kernel)
    (breakpoints : after.globals.gBreakpoints = before.globals.gBreakpoints)
    (steps : StepsOriginal tracee orig entry) :
    Kept tracee orig holds base after := by
  refine kept.step grows ?_ ?_
  · rw [mem, breakpoints]
    exact fun _ holds => ⟨holds, steps⟩
  · rw [mem, breakpoints]
    exact fun _ _ armed => armed

theorem Kept.mono (kept : Kept tracee orig holds base before)
    (implies : holds (tracee.mem before.kernel) before.globals.gBreakpoints →
      next (tracee.mem before.kernel) before.globals.gBreakpoints) :
    Kept tracee orig next base before := by
  obtain ⟨new, split, settled, armed⟩ := kept
  exact ⟨new, split, fun safe => ⟨implies (settled safe).1, (settled safe).2⟩, armed⟩

theorem Unsafe.kept (unsafely : Unsafe base before) : Kept tracee orig holds base before := by
  obtain ⟨new, split, entry, member, violated⟩ := unsafely
  exact ⟨new, split, fun safe => absurd (safe entry member) violated,
    fun exclusive => absurd (exclusive entry member).safe violated⟩

theorem Unsafe.grows {entry : Entry κ} (unsafely : Unsafe base before)
    (grows : after.trace = entry :: before.trace) : Unsafe base after := by
  obtain ⟨new, split, toggle, member, violated⟩ := unsafely
  exact ⟨entry :: new, by rw [grows, split, List.cons_append], toggle,
    List.mem_cons_of_mem _ member, violated⟩

theorem unsafe_stable (base : List (Entry κ)) : Stable host (Unsafe base) :=
  Stable.of_quiet (fun _ _ _ unsafely => unsafely.grows rfl)
    (fun _ _ _ unsafely => unsafely.grows rfl) fun _ _ _ _ unsafely => unsafely

/-- A refused write. -/
theorem unsafe_unwritten {addr : Addr} {new : List (Entry κ)} (split : before.trace = new ++ base)
    (unwritten : Unwritten tracee addr before after) : Unsafe base after := by
  rcases unwritten.trace with grows | ⟨word, middle, _, grows⟩
  · refine ⟨⟨.ptrace (.peekdata addr) false, before.globals, before.kernel⟩ :: new,
      by rw [grows, split, List.cons_append], _, List.mem_cons_self, fun safe => ?_⟩
    cases safe rfl
  · refine ⟨⟨.ptrace (.pokedata addr word) false, before.globals, middle⟩ ::
        ⟨.ptrace (.peekdata addr) true, before.globals, before.kernel⟩ :: new,
      by rw [grows, split, List.cons_append, List.cons_append], _, List.mem_cons_self,
      fun safe => ?_⟩
    cases safe rfl

/-- A toggle that raises. -/
theorem Kept.untoggled {index : Nat} {addr : Addr} (kept : Kept tracee orig holds base before)
    (unwritten : Unwritten tracee addr (before.record (.toggle index)) after) :
    Unsafe base after := by
  obtain ⟨new, split, _⟩ := kept
  have noted : (before.record (.toggle index)).trace =
      (⟨.toggle index, before.globals, before.kernel⟩ :: new) ++ base := by
    rw [State.record_trace, split, List.cons_append]
  exact unsafe_unwritten noted unwritten

theorem Kept.unsettled (kept : Kept tracee orig holds base before) :
    Unsettled tracee orig base before := kept.mono fun _ => trivial

theorem Unsafe.raised (unsafely : Unsafe base before) : Unsettled tracee orig base before :=
  unsafely.kept

theorem Kept.lost (kept : Kept tracee orig holds base before) : Lost tracee orig base before := by
  obtain ⟨new, split, settled, _⟩ := kept
  exact ⟨new, split, fun safe => (settled safe).2⟩

end Kept

/-! ## Functions -/

/-- `holds` after a return, and what is left of it otherwise. -/
def Settles (tracee : Tracee host) (orig : Memory) (holds : Memory → List MyBp → Prop)
    (base : List (Entry κ)) {α : Type} : Post MyException (State κ) α where
  ok _ := Kept tracee orig holds base
  throw _ := Unsettled tracee orig base
  fault := Lost tracee orig base
  noReturn := Lost tracee orig base

/-- `program` keeps `holds`. -/
def Carries (tracee : Tracee host) (orig : Memory) (holds : Memory → List MyBp → Prop) {α : Type}
    (program : Dbg κ α) : Prop :=
  ∀ base state, Kept tracee orig holds base state →
    wp program (Settles tracee orig holds base) state

section Functions

variable {tracee : Tracee host} {orig : Memory} {holds : Memory → List MyBp → Prop}
  {base : List (Entry κ)} {state : State κ}

namespace Carries

variable {α β : Type} {program : Dbg κ α}

theorem of_preserves (preserves : ∀ base, Preserves (Kept tracee orig holds base) program) :
    Carries tracee orig holds program :=
  fun base _ kept => wp_mono ((preserves base).wp kept)
    ⟨fun _ _ kept => kept, fun _ _ kept => kept.unsettled,
      fun _ kept => kept.lost, fun _ kept => kept.lost⟩

theorem pure (value : α) : Carries tracee orig holds (Pure.pure value : Dbg κ α) :=
  fun _ _ kept => kept

theorem gets (read : State κ → α) : Carries tracee orig holds (Program.gets read : Dbg κ α) :=
  fun _ _ kept => kept

theorem bind {next : α → Dbg κ β} (first : Carries tracee orig holds program)
    (second : ∀ value, Carries tracee orig holds (next value)) :
    Carries tracee orig holds (program >>= next) := by
  intro base state kept
  rw [wp_bind]
  exact wp_mono (first base state kept)
    ⟨fun value after kept => second value base after kept, fun _ _ kept => kept,
      fun _ kept => kept, fun _ kept => kept⟩

theorem ite {condition : Prop} [Decidable condition] {no : Dbg κ α}
    (yes : Carries tracee orig holds program) (other : Carries tracee orig holds no) :
    Carries tracee orig holds (if condition then program else no) := by
  split
  · exact yes
  · exact other

end Carries

theorem kept_calm (base : List (Entry κ)) : Calm host (Kept tracee orig holds base) where
  calm state request calm kept := by
    have notPoke : ∀ addr data, request ≠ .pokedata addr data := by
      rintro addr data rfl
      exact calm
    refine kept.silent rfl (tracee.mem_ptrace request _ notPoke) rfl ?_
    cases request with
    | singlestep data => exact calm.elim
    | _ => trivial
  printed _ _ _ kept := kept.silent rfl rfl rfl trivial

theorem carries_modifyGlobals {update : Globals → Globals}
    (same : ∀ globals, (update globals).gBreakpoints = globals.gBreakpoints) :
    Carries tracee orig holds (modifyGlobals update) :=
  fun _ state kept => kept.same rfl rfl (same state.globals)

theorem carries_getRegister (reg : MyReg) : Carries tracee orig holds (getRegister host reg) :=
  .of_preserves fun base => (kept_calm base).getRegister reg

theorem carries_setRegister (reg : MyReg) (value : Word) :
    Carries tracee orig holds (setRegister host reg value) :=
  .of_preserves fun base => (kept_calm base).setRegister reg value

theorem carries_printf (message : Message) :
    Carries tracee orig holds (printf message : Dbg κ Unit) :=
  fun _ _ kept => kept.silent rfl rfl rfl trivial

/-- A request that resumes the tracee, unless it is a single step, which is to
find an original instruction. -/
theorem carries_resume {request : Request} {data : Word} (resumes : request.resumes = some data)
    (kept : Kept tracee orig holds base state)
    (steps : SafeToggle (⟨.ptrace request true, state.globals, state.kernel⟩ : Entry κ) →
      holds (tracee.mem state.kernel) state.globals.gBreakpoints →
      StepsOriginal tracee orig ⟨.ptrace request true, state.globals, state.kernel⟩) :
    wp (myPtrace host request) (Settles tracee orig holds base) state := by
  have mem : tracee.mem (state.afterPtrace host request).kernel = tracee.mem state.kernel := by
    refine tracee.mem_ptrace request _ ?_
    rintro addr value rfl
    cases resumes
  have after : Kept tracee orig holds base (state.afterPtrace host request) := by
    refine kept.step rfl (fun safe holds => ?_) (fun _ _ armed => ?_)
    · rw [mem, State.afterPtrace_globals]
      refine ⟨holds, ?_⟩
      have original := steps (fun _ => rfl) holds
      unfold StepsOriginal at original ⊢
      cases request <;> exact original
    · rw [mem, State.afterPtrace_globals]
      exact armed
  rw [wp_myPtrace]
  exact ⟨fun _ _ => after, fun _ => after.unsettled⟩

theorem kept_waited (robust : Robust tracee.code holds) {wstatus : WStatus} {kernel : κ}
    (kept : Kept tracee orig holds base state)
    (returned : host.waitpid state.kernel = .status wstatus kernel) :
    Kept tracee orig holds base (state.stoppedBy wstatus kernel) := by
  have same := tracee.status state.kernel wstatus kernel returned
  refine kept.step rfl (fun _ holds => ⟨?_, trivial⟩) fun _ _ armed => ?_
  · exact robust.runs _ _ _ same holds
  · exact (armed_robust subset_rfl).runs _ _ _ same armed

theorem unsettled_failed {kernel : κ} (kept : Kept tracee orig holds base state)
    (returned : host.waitpid state.kernel = .failed kernel) :
    Unsettled tracee orig base { state with kernel := kernel } := by
  obtain ⟨new, split, settled, armed⟩ := kept
  refine ⟨new, split, fun safe => ⟨trivial, (settled safe).2⟩, fun exclusive => ?_⟩
  exact (armed_robust subset_rfl).runs _ _ _ (tracee.failed state.kernel kernel returned)
    (armed exclusive)

/-- A toggle that writes. -/
theorem kept_toggled {next : Memory → List MyBp → Prop} {index : Nat} {bp : MyBp}
    {middle : State κ} (kept : Kept tracee orig holds base state)
    (written : Written tracee bp.addr bp.toggledByte (state.record (.toggle index)) middle)
    (settles : SafeToggle (⟨.toggle index, state.globals, state.kernel⟩ : Entry κ) →
      holds (tracee.mem state.kernel) state.globals.gBreakpoints →
      next (Function.update (tracee.mem state.kernel) bp.addr bp.toggledByte)
        (state.globals.gBreakpoints.set index bp.toggled))
    (arms : Exclusive (⟨.toggle index, state.globals, state.kernel⟩ : Entry κ) →
      holds (tracee.mem state.kernel) state.globals.gBreakpoints →
      Armed orig tracee.code (tracee.mem state.kernel) state.globals.gBreakpoints →
      Armed orig tracee.code
        (Function.update (tracee.mem state.kernel) bp.addr bp.toggledByte)
        (state.globals.gBreakpoints.set index bp.toggled)) :
    Kept tracee orig next base (middle.withGlobals { state.globals with
      gBreakpoints := state.globals.gBreakpoints.set index bp.toggled }) := by
  obtain ⟨word, kernel, _, grows⟩ := written.trace
  have mem := written.mem
  rw [State.record_kernel] at mem
  have toggled : Kept tracee orig next base
      { globals := { state.globals with
          gBreakpoints := state.globals.gBreakpoints.set index bp.toggled }
        kernel := middle.kernel
        trace := ⟨.toggle index, state.globals, state.kernel⟩ :: state.trace } := by
    refine kept.step rfl (fun safe holds => ⟨?_, trivial⟩) fun exclusive holds armed => ?_
    · rw [mem]
      exact settles safe holds
    · rw [mem]
      exact arms exclusive holds armed
  have peeked : Kept tracee orig next base
      { globals := { state.globals with
          gBreakpoints := state.globals.gBreakpoints.set index bp.toggled }
        kernel := middle.kernel
        trace := ⟨.ptrace (.peekdata bp.addr) true, state.globals, state.kernel⟩ ::
          ⟨.toggle index, state.globals, state.kernel⟩ :: state.trace } :=
    toggled.silent rfl rfl rfl trivial
  exact peeked.silent grows rfl rfl trivial

/-- The hit of the first breakpoint at `addr`. -/
theorem hitBreakpoint_settles (robust : Robust tracee.code holds) {index : Nat} {addr : Addr}
    (kept : Kept tracee orig holds base state)
    (first : getBreakpoint state.globals.gBreakpoints addr = some index) :
    wp (hitBreakpoint host index addr) (Settles tracee orig holds base) state := by
  obtain ⟨bp, found, hits, _⟩ := getBreakpoint_eq_some.mp first
  obtain ⟨rfl, on, _, _⟩ := MyBp.hits_iff.mp hits
  have rest : Carries tracee orig holds (do
      Program.when (!bp.isInternal) (printf (.breakpointHit bp.id bp.addr))
      setRegister host .rip bp.addr
      modifyGlobals fun globals =>
        if globals.gSignum = sigtrap then { globals with gSignum := 0 } else globals) := by
    refine Carries.bind (Carries.ite (carries_printf _) (.pure ())) fun _ => ?_
    refine (carries_setRegister _ _).bind fun _ => carries_modifyGlobals fun globals => ?_
    split <;> rfl
  unfold hitBreakpoint
  rw [wp_bind_ok (breakpointAt_apply found), wp_bind, wp_when]
  refine ⟨fun temp => ?_, fun _ => rest base state kept⟩
  refine wp_toggleBreakpoint_on tracee found (.inl on)
    (fun _ after unwritten => (kept.untoggled unwritten).raised) fun _ middle written => ?_
  have byte : bp.toggledByte = lowByte bp.word := if_pos on
  refine rest base _ (kept_toggled kept written (fun safe holds => ?_) fun exclusive _ armed => ?_)
  · rw [byte]
    exact robust.taken _ _ _ _ first found temp (safe bp found on temp) holds
  · rw [byte]
    exact (armed_robust subset_rfl).taken _ _ _ _ first found temp (exclusive bp found on) armed

theorem carries_handleSyscallStop (isBp : Bool) :
    Carries tracee orig holds (handleSyscallStop host isBp) := by
  refine Carries.bind (carries_modifyGlobals fun _ => rfl) fun _ => ?_
  refine (carries_getRegister _).bind fun origRax => ?_
  refine Carries.bind (carries_modifyGlobals fun _ => rfl) fun _ => ?_
  refine Carries.bind (.gets _) fun globals => ?_
  refine Carries.ite ((carries_printf _).bind fun _ => .pure _) ?_
  exact Carries.ite (.pure _) (.pure _)

theorem carries_reportSignal : Carries tracee orig holds (reportSignal : Dbg κ AfterStop) := by
  refine Carries.bind (.gets _) fun globals => ?_
  exact Carries.bind (Carries.ite (carries_printf _) (.pure ())) fun _ => .pure _

theorem carries_finishStop (stopsig : BitVec 8) (isBp : Bool) :
    Carries tracee orig holds (finishStop host stopsig isBp) := by
  refine Carries.ite ((carries_handleSyscallStop isBp).bind fun next => ?_) carries_reportSignal
  cases next with
  | returns result => exact carries_reportSignal
  | continues => exact .pure _

theorem carries_handleStop (robust : Robust tracee.code holds) (step : Bool)
    (stopsig : BitVec 8) : Carries tracee orig holds (handleStop host step stopsig) := by
  refine Carries.bind (carries_modifyGlobals fun _ => rfl) fun _ => ?_
  refine Carries.bind (.gets _) fun globals => ?_
  refine Carries.ite (Carries.bind (carries_modifyGlobals fun _ => rfl) fun _ => .pure _) ?_
  refine (carries_getRegister _).bind fun rip => ?_
  intro base state kept
  simp only [wp_bind, wp_getGlobals]
  have finish (after : State κ) (kept : Kept tracee orig holds base after) :=
    @carries_finishStop _ host _ _ _ stopsig
      (getBreakpoint state.globals.gBreakpoints (rip - 1)).isSome base after kept
  cases first : getBreakpoint state.globals.gBreakpoints (rip - 1) with
  | none =>
      rw [first] at finish
      exact finish state kept
  | some index =>
      rw [first] at finish
      exact wp_mono (hitBreakpoint_settles robust kept first)
        ⟨fun _ after kept => finish after kept, fun _ _ kept => kept, fun _ kept => kept,
          fun _ kept => kept⟩

theorem carries_waitStop (robust : Robust tracee.code holds) (step : Bool) :
    Carries tracee orig holds (waitStop host step) := by
  intro base state kept
  refine wp_waitStop step (fun _ => kept.lost) (fun kernel failed => unsettled_failed kept failed)
    (fun wstatus kernel stopsig returned _ => ?_) fun wstatus kernel returned _ => ?_
  · exact carries_handleStop robust step stopsig base _ (kept_waited robust kept returned)
  · have ended : Carries tracee orig holds (handleEnd wstatus : Dbg κ AfterStop) := by
      refine Carries.bind (carries_printf _) fun _ => ?_
      exact Carries.bind (carries_modifyGlobals fun _ => rfl) fun _ => .pure _
    exact ended base _ (kept_waited robust kept returned)

theorem carries_waitProgram (robust : Robust tracee.code holds) {continues : Dbg κ Unit}
    (step : Bool) (continued : Carries tracee orig holds continues) :
    Carries tracee orig holds (waitProgram host continues step) := by
  refine (carries_waitStop robust step).bind fun next => ?_
  cases next with
  | returns result => exact .pure result
  | continues => exact continued.bind fun _ => .pure false

/-- What `single_step` has to put back, where it has. -/
theorem stepping_settled {pointer : Option Nat} {addr : Addr}
    (kept : Kept tracee orig (Stepping orig tracee.code pointer addr) base state) :
    wp (Program.forSome pointer (toggleBreakpoint host))
      (Settles tracee orig (Armed orig tracee.code) base) state := by
  cases pointer with
  | none => exact kept
  | some index =>
      obtain ⟨new, split, settled, armed⟩ := id kept
      by_cases safe : ∀ entry ∈ new, SafeToggle entry
      · obtain ⟨bp, past⟩ := (settled safe).1
        have same (other : MyBp) (found : state.globals.gBreakpoints[index]? = some other) :
            other = bp := Option.some.inj (found.symm.trans past.found)
        rw [wp_forSome_some]
        cases temp : bp.isTemp with
        | true =>
            unfold wp
            rw [toggleBreakpoint_off past.found past.off temp]
            refine kept.step rfl (fun _ holds => ⟨?_, trivial⟩) fun _ _ armed => armed
            obtain ⟨other, stepped⟩ := holds
            exact stepped.taken (same other stepped.found ▸ temp)
        | false =>
            refine wp_toggleBreakpoint_on tracee past.found (.inr temp)
              (fun _ after unwritten => (kept.untoggled unwritten).raised)
              fun _ middle written => ?_
            have byte : bp.toggledByte = 0xCC := by
              simp [MyBp.toggledByte, past.off]
            have back (holds : Stepping orig tracee.code (some index) addr
                (tracee.mem state.kernel) state.globals.gBreakpoints) :
                Armed orig tracee.code
                  (Function.update (tracee.mem state.kernel) bp.addr bp.toggledByte)
                  (state.globals.gBreakpoints.set index bp.toggled) := by
              obtain ⟨other, stepped⟩ := holds
              rw [byte, ← same other stepped.found]
              exact stepped.on
            exact kept_toggled kept written (fun _ holds => back holds) fun _ holds _ => back holds
      · have violated : Unsafe base state := by
          push Not at safe
          exact ⟨new, split, safe⟩
        have any (after : State κ) (unsafely : Unsafe base after) :
            Kept tracee orig (Armed orig tracee.code) base after := unsafely.kept
        exact wp_mono (((unsafe_stable base).toggleBreakpoint index).wp violated)
          ⟨fun _ after unsafely => any after unsafely,
            fun _ after unsafely => (any after unsafely).unsettled,
            fun after unsafely => (any after unsafely).lost,
            fun after unsafely => (any after unsafely).lost⟩

/-- The first half of `single_step`, up to its request. -/
theorem stepping_starts {addr : Addr}
    (kept : Kept tracee orig (Armed orig tracee.code) base state) :
    wp (Program.forSome (getBreakpoint state.globals.gBreakpoints addr) (toggleBreakpoint host))
      { ok := fun _ after =>
          Kept tracee orig (Stepped orig tracee.code
            (getBreakpoint state.globals.gBreakpoints addr) addr) base after ∧
          tracee.regs after.kernel = tracee.regs state.kernel
        throw := fun _ => Unsettled tracee orig base
        fault := fun _ => False
        noReturn := fun _ => False } state := by
  cases first : getBreakpoint state.globals.gBreakpoints addr with
  | none =>
      refine ⟨kept.mono fun armed => ⟨armed, fun member => ?_⟩, rfl⟩
      exact (inPlace_iff_none first).mp (armed addr member)
  | some index =>
      rw [wp_forSome_some]
      obtain ⟨bp, found, hits, _⟩ := getBreakpoint_eq_some.mp first
      obtain ⟨rfl, on, _, _⟩ := MyBp.hits_iff.mp hits
      refine wp_toggleBreakpoint_on tracee found (.inl on)
        (fun _ after unwritten => (kept.untoggled unwritten).raised) fun _ middle written => ?_
      have byte : bp.toggledByte = lowByte bp.word := if_pos on
      refine ⟨kept_toggled kept written (fun safe armed => ?_) fun exclusive _ armed => ?_,
        written.regs⟩
      · rw [byte]
        refine ⟨⟨bp.toggled, steppingOver_off first found armed (safe bp found on)⟩,
          fun member => ?_⟩
        rw [Function.update_self]
        exact ((inPlace_iff_some first found).mp (armed _ member)).2
      · rw [byte]
        intro other member
        by_cases here : bp.addr = other
        · subst here
          exact inPlace_off first found (exclusive bp found on) (armed _ member)
        · exact (inPlace_elsewhere found here _).mpr (armed other member)

theorem carries_singleStep (continues : Dbg κ Unit) :
    Carries tracee orig (Armed orig tracee.code) (singleStep host continues) := by
  rw [singleStep_eq]
  intro base state kept
  unfold singleStep
  rw [wp_bind, wp_getRegister]
  have asked := (kept_calm base).calm state .getregs trivial kept
  refine ⟨fun reply answered => ?_, fun _ => asked.unsettled⟩
  have rip : tracee.regs (state.afterPtrace host .getregs).kernel = reply.regs :=
    (tracee.regs_ptrace .getregs state.kernel rfl (by simp)).trans
      (tracee.getregs state.kernel reply answered).symm
  simp only [wp_bind, wp_getGlobals]
  refine wp_mono (stepping_starts asked)
    ⟨fun _ ready started => ?_, fun _ _ unsettled => unsettled, fun _ lost => lost.elim,
      fun _ lost => lost.elim⟩
  obtain ⟨kept, regs⟩ := started
  simp only [stepOnce, wp_bind, wp_getGlobals]
  have resumes : (Request.singlestep ready.globals.gSignum).resumes =
      some ready.globals.gSignum := rfl
  refine wp_mono (carries_resume resumes kept fun _ holds => ?_)
    ⟨fun _ resumed kept => ?_, fun _ _ kept => kept, fun _ kept => kept, fun _ kept => kept⟩
  · intro member
    rw [regs, rip] at member ⊢
    exact holds.2 member
  · have stepping : Kept tracee orig (Stepped orig tracee.code
          (getBreakpoint (state.afterPtrace host .getregs).globals.gBreakpoints (reply.regs .rip))
          (reply.regs .rip)) base resumed := kept
    have spent : Kept tracee orig (Stepping orig tracee.code
          (getBreakpoint (state.afterPtrace host .getregs).globals.gBreakpoints (reply.regs .rip))
          (reply.regs .rip)) base
        (resumed.withGlobals { resumed.globals with gSignum := 0 }) :=
      (stepping.mono fun holds => holds.1).same rfl rfl rfl
    refine wp_mono (carries_waitProgram (stepping_robust _ _) true (.pure ()) base _ spent)
      ⟨fun ret stopped kept => ?_, fun _ _ kept => kept, fun _ kept => kept, fun _ kept => kept⟩
    exact wp_mono (stepping_settled kept)
      ⟨fun _ _ kept => kept, fun _ _ kept => kept, fun _ kept => kept, fun _ kept => kept⟩

theorem carries_resumeExecution {continues : Dbg κ Unit}
    (continued : Carries tracee orig (Armed orig tracee.code) continues) :
    Carries tracee orig (Armed orig tracee.code) (resumeExecution host continues) := by
  refine Carries.bind (.gets _) fun globals => Carries.bind ?_ fun _ =>
    Carries.bind (carries_modifyGlobals fun _ => rfl) fun _ =>
      (carries_waitProgram (armed_robust subset_rfl) false continued).bind fun _ => .pure ()
  intro base state kept
  split
  · have resumes : (Request.syscall globals.gSignum).resumes = some globals.gSignum := rfl
    exact carries_resume resumes kept fun _ _ => trivial
  · have resumes : (Request.cont globals.gSignum).resumes = some globals.gSignum := rfl
    exact carries_resume resumes kept fun _ _ => trivial

theorem carries_continueExecution (depth : Nat) :
    Carries tracee orig (Armed orig tracee.code) (continueExecution host depth) := by
  induction depth with
  | zero => exact fun _ _ kept => kept.lost
  | succ depth inductionHypothesis =>
      have resumes := carries_resumeExecution inductionHypothesis
      refine (carries_getRegister _).bind fun addr => Carries.bind (.gets _) fun globals => ?_
      refine Carries.ite ((carries_singleStep _).bind fun stepped => ?_) resumes
      exact Carries.ite resumes (.pure ())

theorem carries_placeCode {flags : MyBpFlags} (isCode : flags &&& myBpSyscall = 0) (addr : Addr) :
    Carries tracee orig (Armed orig tracee.code) (placeBreakpoint host addr flags) := by
  intro base state kept
  obtain ⟨new, split, _⟩ := id kept
  refine wp_placeBreakpoint_code tracee isCode addr
    (fun _ after unwritten => Unsafe.raised (unsafe_unwritten split unwritten))
    fun _ middle written same => ?_
  obtain ⟨word, kernel, _, grows⟩ := written.trace
  unfold wp
  rw [appendBreakpoint_apply, same]
  split
  · have armed (armed : Armed orig tracee.code (tracee.mem state.kernel)
        state.globals.gBreakpoints) :
        Armed orig tracee.code (tracee.mem middle.kernel) (state.globals.gBreakpoints ++
          [.placed state.globals.gBreakpoints addr flags
            (peek (tracee.mem state.kernel) addr)]) := by
      rw [written.mem]
      exact fun other member => inPlace_place isCode addr (armed other member)
    have peeked : Kept tracee orig (Armed orig tracee.code) base
        { globals := { state.globals with
            gBreakpoints := state.globals.gBreakpoints ++
              [.placed state.globals.gBreakpoints addr flags
                (peek (tracee.mem state.kernel) addr)] }
          kernel := middle.kernel
          trace := ⟨.ptrace (.peekdata addr) true, state.globals, state.kernel⟩ :: state.trace } :=
      kept.step rfl (fun _ holds => ⟨armed holds, trivial⟩) fun _ _ holds => armed holds
    exact peeked.silent grows rfl rfl trivial
  · have peeked : Lost tracee orig base
        { middle with
          trace := ⟨.ptrace (.peekdata addr) true, state.globals, state.kernel⟩ :: state.trace } :=
      kept.lost.grows rfl trivial
    exact peeked.grows grows trivial

theorem carries_placeSyscall {flags : MyBpFlags} (isSyscall : flags &&& myBpSyscall ≠ 0)
    (addr : Addr) :
    Carries tracee orig (Armed orig tracee.code) (placeBreakpoint host addr flags) := by
  intro base state kept
  unfold wp placeBreakpoint
  rw [if_neg isSyscall, Program.bind_ok (rfl : getGlobals state = .ok state.globals state),
    appendBreakpoint_apply]
  have marked (word : Word) : (MyBp.placed state.globals.gBreakpoints addr flags word).isSyscall =
      true := by
    simpa [MyBp.placed, MyBp.isSyscall] using isSyscall
  have armed (word : Word) (armed : Armed orig tracee.code (tracee.mem state.kernel)
      state.globals.gBreakpoints) :
      Armed orig tracee.code (tracee.mem state.kernel) (state.globals.gBreakpoints ++
        [.placed state.globals.gBreakpoints addr flags word]) :=
    fun other member => inPlace_append (marked word) (armed other member)
  split
  · obtain ⟨new, split, settled, exclusive⟩ := kept
    exact ⟨new, split, fun safe => ⟨armed _ (settled safe).1, (settled safe).2⟩,
      fun alone => armed _ (exclusive alone)⟩
  · exact kept.lost

theorem carries_placeBreakpoint (addr : Addr) (flags : MyBpFlags) :
    Carries tracee orig (Armed orig tracee.code) (placeBreakpoint host addr flags) := by
  by_cases isCode : flags &&& myBpSyscall = 0
  · exact carries_placeCode isCode addr
  · exact carries_placeSyscall isCode addr

/-- Every command but `break_del` keeps everything in place. -/
theorem carries_exec (depth : Nat) {command : Command} (places : command.deletes = false) :
    Carries tracee orig (Armed orig tracee.code) (exec host depth command) := by
  have continues : Carries tracee orig (Armed orig tracee.code) (continueExecution host depth) :=
    carries_continueExecution depth
  have place (addr : Addr) (flags : MyBpFlags) (message : Nat → Message) :
      Carries tracee orig (Armed orig tracee.code) (placeBreakpoint host addr flags >>= fun nb =>
        printf (message nb)) :=
    (carries_placeBreakpoint _ _).bind fun _ => carries_printf _
  have current : Carries tracee orig (Armed orig tracee.code) (getCurrentInstruction host) :=
    .of_preserves fun base => (kept_calm base).getCurrentInstruction
  have finish : Carries tracee orig (Armed orig tracee.code) (getFinishAddress host) :=
    .of_preserves fun base => Calm.getFinishAddress
  cases command with
  | «break» addr => exact place addr 0 _
  | tbreak addr => exact place addr myBpTemp _
  | breakf addr => exact Carries.ite (carries_printf _) (place addr 0 _)
  | breakl addr => exact place addr _ fun _ => .linePlaced addr
  | breaks syscall =>
      refine Carries.bind ?_ fun _ => carries_printf _
      refine Carries.bind (.gets _) fun _ => ?_
      refine Carries.bind (.of_preserves fun base => Calm.myRealloc _) fun _ => ?_
      refine Carries.bind (carries_modifyGlobals fun _ => rfl) fun _ => ?_
      exact (carries_placeBreakpoint _ _).bind fun _ => .pure ()
  | breakDel nb => cases places
  | stepInstr =>
      exact (carries_singleStep _).bind fun _ => (carries_getRegister _).bind fun _ =>
        carries_printf _
  | nextInstr =>
      refine (carries_getRegister _).bind fun rip => current.bind fun instr => ?_
      refine Carries.bind (Carries.ite ?_ ?_) fun _ => Carries.bind (.gets _) fun _ => ?_
      · exact (carries_placeBreakpoint _ _).bind fun _ => continues
      · exact (carries_singleStep _).bind fun _ => .pure ()
      · exact Carries.ite (.pure ()) ((carries_getRegister _).bind fun _ => carries_printf _)
  | finish =>
      exact finish.bind fun addr => (carries_placeBreakpoint _ _).bind fun _ =>
        continues.bind fun _ => carries_printf _
  | «continue» => exact (carries_printf _).bind fun _ => continues

end Functions

/-! ## Sessions -/

/-- A command that takes no breakpoint out from under another one, unless it
puts it back before the next prompt. -/
def CarefulPrompt (host : Host κ) (line : Line) (before after : State κ) : Prop :=
  Prompt host line before after ∧
    ∀ entry ∈ before.newEntries after,
      SafeToggle entry ∧ (line.back ≠ .normal → Exclusive entry)

/-- At a prompt everything is in place and every single step was of an original
instruction. -/
def Sound (tracee : Tracee host) (orig : Memory) (state : State κ) : Prop :=
  Armed orig tracee.code (tracee.mem state.kernel) state.globals.gBreakpoints ∧
    ∀ entry ∈ state.trace, StepsOriginal tracee orig entry

section Sessions

variable {tracee : Tracee host} {orig : Memory} {before after : State κ}

theorem Sound.kept (sound : Sound tracee orig before) :
    Kept tracee orig (Armed orig tracee.code) before.trace before :=
  ⟨[], rfl, fun _ => ⟨sound.1, fun _ member => by cases member⟩, fun _ => sound.1⟩

theorem sound_trace {new : List (Entry κ)} (sound : Sound tracee orig before)
    (split : after.trace = new ++ before.trace)
    (armed : Armed orig tracee.code (tracee.mem after.kernel) after.globals.gBreakpoints)
    (steps : ∀ entry ∈ new, StepsOriginal tracee orig entry) : Sound tracee orig after := by
  refine ⟨armed, fun entry member => ?_⟩
  rw [split, List.mem_append] at member
  exact member.elim (steps entry) (sound.2 entry)

/-- A careful command leads from a sound prompt to a sound prompt. -/
theorem sound_prompt {line : Line} (places : line.command.deletes = false)
    (sound : Sound tracee orig before) (careful : CarefulPrompt host line before after) :
    Sound tracee orig after := by
  obtain ⟨prompt, careful⟩ := careful
  have settles := carries_exec line.depth places before.trace before sound.kept
  unfold Prompt at prompt
  cases back : line.back with
  | normal =>
      rw [back] at prompt
      obtain ⟨new, split, settled, _⟩ := settles.ok prompt
      rw [newEntries_eq split] at careful
      obtain ⟨armed, steps⟩ := settled fun entry member => (careful entry member).1
      exact sound_trace sound split armed steps
  | raised raised =>
      rw [back] at prompt
      obtain ⟨new, split, settled, armed⟩ := settles.throw prompt
      rw [newEntries_eq split] at careful
      have steps := (settled fun entry member => (careful entry member).1).2
      refine sound_trace sound split (armed fun entry member => ?_) steps
      exact (careful entry member).2 (by rw [back]; exact Return.noConfusion)

/-- However a command ends, its safe toggles are followed by single steps of
original instructions. -/
theorem sound_exec {depth : Nat} {command : Command} (sound : Sound tracee orig before)
    (places : command.deletes = false)
    (safe : ∀ entry ∈ before.newEntries (exec host depth command before).state,
      SafeToggle entry) :
    ∀ entry ∈ before.newEntries (exec host depth command before).state,
      StepsOriginal tracee orig entry := by
  have settles := carries_exec depth places before.trace before sound.kept
  have lost : Lost tracee orig before.trace (exec host depth command before).state := by
    unfold wp at settles
    cases outcome : exec host depth command before with
    | ok value after => rw [outcome] at settles; exact Kept.lost settles
    | throw raised after =>
        rw [outcome] at settles
        have unsettled : Unsettled tracee orig before.trace after := settles
        exact unsettled.lost
    | fault after => rw [outcome] at settles; exact settles
    | noReturn after => rw [outcome] at settles; exact settles
  obtain ⟨new, split, steps⟩ := lost
  rw [newEntries_eq split] at safe ⊢
  exact steps safe

/-- The `int3` bytes are where the breakpoints are, and nowhere else, at every
prompt of a careful run, and no single step executes one. -/
theorem int3_in_place (tracee : Tracee host) {kernel : κ} {lines : List Line} {last : State κ}
    (run : Run (CarefulPrompt host) (State.start kernel) lines last)
    (places : ∀ line ∈ lines, line.command.deletes = false) :
    (∀ addr ∈ tracee.code, tracee.mem last.kernel addr =
        if isBreakpoint last.globals.gBreakpoints addr then 0xCC else tracee.mem kernel addr) ∧
      (∀ entry ∈ last.trace, StepsOriginal tracee (tracee.mem kernel) entry) ∧
      ∀ depth command, command.deletes = false →
        (∀ entry ∈ last.newEntries (exec host depth command last).state, SafeToggle entry) →
        ∀ entry ∈ last.newEntries (exec host depth command last).state,
          StepsOriginal tracee (tracee.mem kernel) entry := by
  have sound : Sound tracee (tracee.mem kernel) last := by
    induction run with
    | refl => exact ⟨fun addr _ => rfl, fun _ member => by cases member⟩
    | @tail labels middle last line _ careful inductionHypothesis =>
        refine sound_prompt (places line (by simp)) (inductionHypothesis fun earlier member => ?_)
          careful
        exact places earlier (by simp [member])
  exact ⟨fun addr member => (sound.1 addr member).byte, sound.2,
    fun _ _ placing safe => sound_exec sound placing safe⟩

end Sessions

/-! ## Two breakpoints at one address -/

instance : DecidablePred (· ∈ scriptedTracee.code) := fun _ => isTrue trivial

/-- Two hits of the address, the second one by a single step. -/
def twoHits : State Scripted := Scripted.start [⟨.plainTrap, 0x11⟩, ⟨.plainTrap, 0x11⟩]

def carefulLine (line : Line) (before after : State κ) : Bool :=
  decide (∀ entry ∈ before.newEntries after,
    SafeToggle entry ∧ (line.back ≠ .normal → Exclusive entry))

theorem int3_in_place_shared :
    ∃ last, Session scripted twoHits
        [⟨.break 0x10, 1, .normal⟩, ⟨.break 0x10, 1, .normal⟩, ⟨.continue, 1, .normal⟩,
          ⟨.stepInstr, 1, .normal⟩] last ∧
      scriptedTracee.mem last.kernel 0x10 = 0xCC := by
  have armed : (replay scripted carefulLine twoHits
      [⟨.break 0x10, 1, .normal⟩, ⟨.break 0x10, 1, .normal⟩, ⟨.continue, 1, .normal⟩,
        ⟨.stepInstr, 1, .normal⟩]).map (isBreakpoint ·.globals.gBreakpoints 0x10) =
          some true := by
    decide +kernel
  obtain ⟨last, replayed, armed⟩ := Option.map_eq_some_iff.mp armed
  have run : Run (CarefulPrompt scripted) twoHits _ last :=
    run_replay (fun _ _ _ prompt passed => ⟨prompt, of_decide_eq_true passed⟩) replayed
  refine ⟨last, run.mono fun _ _ _ careful => careful.1, ?_⟩
  have inPlace := (int3_in_place scriptedTracee run (by decide)).1 0x10 trivial
  rwa [armed] at inPlace

/-- A temporary breakpoint that is hit takes the `int3` of another one with it,
and the other one brings it back for its own single step. -/
theorem int3_misplaced :
    ∃ middle last,
      Session scripted twoHits [⟨.tbreak 0x10, 1, .normal⟩, ⟨.break 0x10, 1, .normal⟩,
        ⟨.continue, 1, .normal⟩] middle ∧
      isBreakpoint middle.globals.gBreakpoints 0x10 = true ∧
      scriptedTracee.mem middle.kernel 0x10 = 0x90 ∧
      Session scripted middle [⟨.stepInstr, 1, .normal⟩] last ∧
      ∃ entry ∈ last.trace,
        ¬ StepsOriginal scriptedTracee (scriptedTracee.mem twoHits.kernel) entry := by
  have computed : ((replay scripted (fun _ _ _ => true) twoHits
      [⟨.tbreak 0x10, 1, .normal⟩, ⟨.break 0x10, 1, .normal⟩, ⟨.continue, 1, .normal⟩]).bind
        fun middle => (replay scripted (fun _ _ _ => true) middle
          [⟨.stepInstr, 1, .normal⟩]).map fun last =>
            (isBreakpoint middle.globals.gBreakpoints 0x10, middle.kernel.mem 0x10,
              decide (∃ entry ∈ last.trace, ¬ StepsOriginal scriptedTracee
                (scriptedTracee.mem twoHits.kernel) entry))) = some (true, 0x90, true) := by
    decide +kernel
  obtain ⟨middle, hits, computed⟩ := Option.bind_eq_some_iff.mp computed
  obtain ⟨last, steps, values⟩ := Option.map_eq_some_iff.mp computed
  obtain ⟨armed, values⟩ := Prod.mk.inj values
  obtain ⟨byte, trap⟩ := Prod.mk.inj values
  exact ⟨middle, last, session_replay hits, armed, byte, session_replay steps,
    of_decide_eq_true trap⟩

end MyDbg
