import MyDbg.Debugger.Attentive
import MyDbg.Debugger.History

/-!
Contract: what `break_list` shows after any run of `main`.

Owns: that every breakpoint the user was told of is in the list, and the other way
round, and the same of deletions (`Told`); and that `break_list` therefore shows
exactly the breakpoints that were announced and not deleted.

Does not own: breakpoints on syscalls, which are announced without an ID.
-/

namespace MyDbg

open LittleEndian ProgramLogic Main

variable {κ : Type} {host : Host κ}

/-! ## What was told -/

/-- The announcement of a breakpoint. -/
def Entry.Announces (entry : Entry κ) (id : Nat) (addr : Addr) : Prop :=
  entry.event = .output (.breakpointPlaced id addr)

/-- A breakpoint the user is told of. -/
def MyBp.Open (bp : MyBp) : Prop := bp.isInternal = false ∧ bp.isSyscall = false

/-- The list and what was said about it agree. -/
structure Told (breakpoints : List MyBp) (trace : List (Entry κ)) : Prop where
  numbered : Numbered breakpoints
  placed : ∀ entry ∈ trace, ∀ id addr, entry.Announces id addr →
    ∃ index bp, id = index + 1 ∧ breakpoints[index]? = some bp ∧ bp.addr = addr ∧ bp.Open
  announced : ∀ index bp, breakpoints[index]? = some bp → bp.Open →
    ∃ entry ∈ trace, entry.Announces (index + 1) bp.addr
  deleted : ∀ entry ∈ trace, ∀ id, entry.Accepts id →
    ∃ index bp, id = index + 1 ∧ breakpoints[index]? = some bp ∧ bp.deleted = true
  accepted : ∀ index bp, breakpoints[index]? = some bp → bp.deleted = true →
    ∃ entry ∈ trace, entry.Accepts (index + 1)

section Told

variable {breakpoints later : List MyBp} {trace : List (Entry κ)} {entry : Entry κ}
  {index : Nat} {bp other : MyBp} {addr : Addr}

theorem MyBp.Ages.isOpen (ages : bp.Ages other) : other.Open ↔ bp.Open := by
  unfold MyBp.Open MyBp.isInternal MyBp.isSyscall
  rw [ages.flags]

/-- The list changes, and what is new is said. -/
theorem Told.evolves (told : Told breakpoints trace) (new : List (Entry κ))
    (numbered : Numbered later) (grows : Extends breakpoints later)
    (placed : ∀ entry ∈ new, ∀ id addr, entry.Announces id addr →
      ∃ index bp, id = index + 1 ∧ later[index]? = some bp ∧ bp.addr = addr ∧ bp.Open)
    (announced : ∀ index bp, later[index]? = some bp → breakpoints[index]? = none → bp.Open →
      ∃ entry ∈ new, entry.Announces (index + 1) bp.addr)
    (deleted : ∀ entry ∈ new, ∀ id, entry.Accepts id →
      ∃ index bp, id = index + 1 ∧ later[index]? = some bp ∧ bp.deleted = true)
    (accepted : ∀ index bp, later[index]? = some bp → bp.deleted = true →
      (∃ old, breakpoints[index]? = some old ∧ old.deleted = true) ∨
        ∃ entry ∈ new, entry.Accepts (index + 1)) :
    Told later (new ++ trace) where
  numbered := numbered
  placed entry member id addr announces := by
    rcases List.mem_append.mp member with recent | before
    · exact placed entry recent id addr announces
    · obtain ⟨index, old, same, there, here, isOpen⟩ :=
        told.placed entry before id addr announces
      obtain ⟨bp, found, ages⟩ := grows index old there
      exact ⟨index, bp, same, found, ages.addr.trans here, ages.isOpen.mpr isOpen⟩
  announced index bp found isOpen := by
    cases there : breakpoints[index]? with
    | none =>
        obtain ⟨entry, member, announces⟩ := announced index bp found there isOpen
        exact ⟨entry, List.mem_append_left _ member, announces⟩
    | some old =>
        obtain ⟨now, here, ages⟩ := grows index old there
        obtain rfl := Option.some.inj (here.symm.trans found)
        obtain ⟨entry, member, announces⟩ := told.announced index old there (ages.isOpen.mp isOpen)
        exact ⟨entry, List.mem_append_right _ member, ages.addr ▸ announces⟩
  deleted entry member id accepts := by
    rcases List.mem_append.mp member with recent | before
    · exact deleted entry recent id accepts
    · obtain ⟨index, old, same, there, gone⟩ := told.deleted entry before id accepts
      obtain ⟨bp, found, ages⟩ := grows index old there
      exact ⟨index, bp, same, found, ages.deleted gone⟩
  accepted index bp found gone := by
    rcases accepted index bp found gone with ⟨old, there, before⟩ | ⟨entry, member, accepts⟩
    · obtain ⟨entry, member, accepts⟩ := told.accepted index old there before
      exact ⟨entry, List.mem_append_right _ member, accepts⟩
    · exact ⟨entry, List.mem_append_left _ member, accepts⟩

/-- Events that say nothing about breakpoints. -/
def Event.Inert : Event → Prop
  | .output message => message.inert = true
  | _ => True

theorem Told.happens (told : Told breakpoints trace) (inert : entry.event.Inert) :
    Told breakpoints (entry :: trace) := by
  refine told.evolves [entry] told.numbered (.refl _) ?_ ?_ ?_ ?_
  · intro one member id addr announces
    rw [List.mem_singleton.mp member] at announces
    rw [announces] at inert
    cases inert
  · intro index bp found missing
    rw [found] at missing
    cases missing
  · intro one member id accepts
    rw [List.mem_singleton.mp member] at accepts
    rw [accepts] at inert
    cases inert
  · exact fun index bp found gone => .inl ⟨bp, found, gone⟩

/-- A breakpoint is enabled or disabled. -/
theorem Told.toggles (told : Told breakpoints trace) (found : breakpoints[index]? = some bp)
    (switches : bp.enabled = true ∨ bp.isTemp = false) :
    Told (breakpoints.set index bp.toggled) trace := by
  refine told.evolves [] (told.numbered.set found rfl)
    (Extends.set found (MyBp.ages_toggled switches)) nofun ?_ nofun ?_
  · intro position now here missing
    have inside := (List.getElem?_eq_some_iff.mp here).1
    rw [List.length_set] at inside
    rw [List.getElem?_eq_getElem inside] at missing
    cases missing
  · intro position now here gone
    by_cases same : index = position
    · subst same
      rw [List.getElem?_set_self (List.getElem?_eq_some_iff.mp found).1] at here
      obtain rfl := Option.some.inj here
      exact .inl ⟨bp, found, gone⟩
    · rw [List.getElem?_set_ne same] at here
      exact .inl ⟨now, here, gone⟩

/-- A breakpoint is placed, and announced if the user is to be told of it. -/
theorem Told.places (told : Told breakpoints trace) (new : List (Entry κ))
    (last : bp.id = breakpoints.length + 1) (live : bp.deleted = false)
    (announces : bp.Open → ∃ entry ∈ new, entry.Announces (breakpoints.length + 1) bp.addr)
    (only : ∀ entry ∈ new, ∀ id addr, entry.Announces id addr →
      id = breakpoints.length + 1 ∧ addr = bp.addr ∧ bp.Open)
    (undeleted : ∀ entry ∈ new, ∀ id, ¬ entry.Accepts id) :
    Told (breakpoints ++ [bp]) (new ++ trace) := by
  have split {position : Nat} {now : MyBp} (here : (breakpoints ++ [bp])[position]? = some now) :
      breakpoints[position]? = some now ∨ position = breakpoints.length ∧ now = bp := by
    by_cases inside : position < breakpoints.length
    · rw [List.getElem?_append_left inside] at here
      exact .inl here
    · have bound := (List.getElem?_eq_some_iff.mp here).1
      rw [List.length_append, List.length_singleton] at bound
      have same : position = breakpoints.length := by omega
      subst same
      rw [List.getElem?_concat_length] at here
      exact .inr ⟨rfl, (Option.some.inj here).symm⟩
  refine told.evolves new (told.numbered.append last) (.append _ _) ?_ ?_ ?_ ?_
  · intro entry member id addr tells
    obtain ⟨rfl, rfl, isOpen⟩ := only entry member id addr tells
    exact ⟨_, bp, rfl, List.getElem?_concat_length, rfl, isOpen⟩
  · intro position now here missing isOpen
    rcases split here with there | ⟨rfl, rfl⟩
    · rw [there] at missing
      cases missing
    · exact announces isOpen
  · exact fun entry member id accepts => absurd accepts (undeleted entry member id)
  · intro position now here gone
    rcases split here with there | ⟨_, rfl⟩
    · exact .inl ⟨now, there, gone⟩
    · rw [live] at gone
      cases gone

/-- A breakpoint is deleted, and the user is told. -/
theorem Told.deletes (told : Told breakpoints trace) (found : breakpoints[index]? = some bp)
    (accepts : entry.Accepts (index + 1)) :
    Told (breakpoints.set index { bp with deleted := true }) (entry :: trace) := by
  have inside := (List.getElem?_eq_some_iff.mp found).1
  have ages : bp.Ages { bp with deleted := true } :=
    ⟨rfl, rfl, rfl, rfl, fun _ => rfl, fun _ disabled => disabled⟩
  refine told.evolves [entry] (told.numbered.set found rfl) (Extends.set found ages) ?_ ?_ ?_ ?_
  · intro one member id addr announces
    rw [List.mem_singleton.mp member] at announces
    cases accepts.symm.trans announces
  · intro position now here missing
    have bound := (List.getElem?_eq_some_iff.mp here).1
    rw [List.length_set] at bound
    rw [List.getElem?_eq_getElem bound] at missing
    cases missing
  · intro one member id tells
    rw [List.mem_singleton.mp member] at tells
    cases accepts.symm.trans tells
    exact ⟨index, _, rfl, List.getElem?_set_self inside, rfl⟩
  · intro position now here gone
    by_cases same : index = position
    · subst same
      exact .inr ⟨entry, List.mem_singleton_self _, accepts⟩
    · rw [List.getElem?_set_ne same] at here
      exact .inl ⟨now, here, gone⟩

end Told

/-! ## Commands -/

/-- `Told` of the list and the trace of a state. -/
def ToldIn (state : State κ) : Prop := Told state.globals.gBreakpoints state.trace

section Commands

variable {state : State κ} {index : Nat} {addr : Addr}

theorem ToldIn.request (host : Host κ) (told : ToldIn state) (request : Request) :
    ToldIn (state.afterPtrace host request) :=
  Told.happens told trivial

theorem toldIn_toggle (told : ToldIn state) (live : LiveAt index addr state) :
    wp (toggleBreakpoint host index) (Post.always ToldIn) state := by
  obtain ⟨bp, found, _⟩ := live
  have noted : ToldIn (state.record (.toggle index)) := Told.happens told trivial
  refine wp_toggleBreakpoint found (fun _ _ => noted) (fun _ => noted.request host _) ?_
  rintro switches word poked rfl
  have asked := (noted.request host (.peekdata bp.addr)).request host (.pokedata bp.addr word)
  exact ⟨asked, Told.toggles asked found switches⟩

theorem toldIn_attentive : Attentive host (ToldIn : State κ → Prop) where
  reads _ told := told.request host _
  resumes _ _ _ _ told := told.request host _
  kernel _ _ told := told
  waited _ _ told := Told.happens told trivial
  printed _ _ inert told := Told.happens told inert
  globals state globals same told := by
    unfold ToldIn
    rwa [State.withGlobals_globals, same]
  toggles _ _ _ told live := toldIn_toggle told live
  hits state addr index told found := by
    refine wp_hitBreakpoint told found (fun _ told live => toldIn_toggle told live)
      (fun _ _ told => Told.happens told rfl) (fun state told _ => ?_)
      fun state globals same told => ?_
    · unfold setRegister
      simp only [wp_bind, wp_myPtrace]
      have read := told.request host .getregs
      exact ⟨fun _ _ => ⟨fun _ _ => read.request host _, fun _ => read.request host _⟩,
        fun _ => read⟩
    · unfold ToldIn
      rwa [State.withGlobals_globals, same]

/-- The breakpoint is at the end of the list, and nothing was said of it. -/
def JustPlaced (addr : Addr) (flags : MyBpFlags) (nb : Nat) (after : State κ) : Prop :=
  ∃ (middle : State κ) (word : Word), ToldIn middle ∧
    nb = middle.globals.gBreakpoints.length + 1 ∧
      after = middle.withGlobals { middle.globals with gBreakpoints :=
        middle.globals.gBreakpoints ++ [.placed middle.globals.gBreakpoints addr flags word] }

theorem toldIn_place {flags : MyBpFlags} (told : ToldIn state) (addr : Addr) :
    wp (placeBreakpoint host addr flags)
      ⟨JustPlaced addr flags, fun _ => ToldIn, fun _ => False, ToldIn⟩ state := by
  have appends (middle : State κ) (word : Word) (told : ToldIn middle) :
      wp (appendBreakpoint addr flags word)
        ⟨JustPlaced addr flags, fun _ => ToldIn, fun _ => False, ToldIn⟩ middle := by
    unfold wp
    rw [appendBreakpoint_apply]
    split
    · exact ⟨middle, word, told, rfl, rfl⟩
    · exact told
  unfold placeBreakpoint
  rw [wp_ite]
  constructor
  · intro _
    rw [wp_bind, wp_myPtrace]
    have peeked := told.request host (.peekdata addr)
    refine ⟨fun reply _ => ?_, fun _ => peeked⟩
    change wp (myPtrace host (.pokedata addr (withLowByte reply.ret 0xCC)) >>= _) _ _
    rw [wp_bind, wp_myPtrace]
    have poked := peeked.request host (.pokedata addr (withLowByte reply.ret 0xCC))
    exact ⟨fun _ _ => appends _ _ poked, fun _ => poked⟩
  · intro _
    rw [wp_bind, wp_getGlobals]
    exact appends state _ told

/-- Nothing is said of a breakpoint the user is not to be told of. -/
theorem JustPlaced.hidden {flags : MyBpFlags} {nb : Nat} {after : State κ}
    (placed : JustPlaced addr flags nb after)
    (hidden : flags &&& myBpInternal ≠ 0 ∨ flags &&& myBpSyscall ≠ 0) : ToldIn after := by
  obtain ⟨middle, word, told, _, rfl⟩ := placed
  refine Told.places told [] rfl rfl (fun isOpen => ?_) nofun nofun
  obtain ⟨internal, syscall⟩ := isOpen
  simp only [MyBp.isInternal, MyBp.isSyscall, MyBp.placed, bne_eq_false_iff_eq] at internal syscall
  rcases hidden with flagged | flagged
  · exact absurd internal flagged
  · exact absurd syscall flagged

theorem JustPlaced.announced {flags : MyBpFlags} {nb : Nat} {after : State κ}
    (placed : JustPlaced addr flags nb after)
    (isOpen : flags &&& myBpInternal = 0 ∧ flags &&& myBpSyscall = 0) :
    ToldIn (after.record (.output (.breakpointPlaced nb addr))) := by
  obtain ⟨middle, word, told, rfl, rfl⟩ := placed
  refine Told.places told [_] rfl rfl (fun _ => ⟨_, List.mem_singleton_self _, rfl⟩) ?_ ?_
  · intro entry member id other announces
    rw [List.mem_singleton.mp member] at announces
    cases announces
    refine ⟨rfl, rfl, ?_⟩
    simpa only [MyBp.Open, MyBp.isInternal, MyBp.isSyscall, MyBp.placed, bne_eq_false_iff_eq]
      using isOpen
  · intro entry member id accepts
    rw [List.mem_singleton.mp member] at accepts
    cases accepts

/-- `break_del` is about to write outside `g_syscalls`: its breakpoint is deleted, and that
is all that has not been said. -/
def Unsaid (state : State κ) : Prop :=
  ∃ index bp, state.globals.gBreakpoints[index]? = some bp ∧ bp.deleted = true ∧
    state.globals.gSyscalls.length ≤ bp.word.toNat ∧
      ∀ entry : Entry κ, entry.Accepts (index + 1) →
        Told state.globals.gBreakpoints (entry :: state.trace)

theorem toldIn_edits : Attentive.Edits host (ToldIn : State κ → Prop)
    fun state => ToldIn state ∨ Unsaid state where
  loses _ told := .inl told
  announced addr flags allowed state told := by
    rw [wp_bind]
    refine wp_mono (toldIn_place told addr)
      ⟨fun nb after placed => ?_, fun _ _ told => told, fun _ => False.elim, fun _ => .inl⟩
    refine placed.announced ?_
    rcases allowed with rfl | rfl
    · decide
    · decide
  hidden addr state told :=
    wp_mono (toldIn_place told addr)
      ⟨fun _ _ placed => placed.hidden (.inl (by decide)), fun _ _ told => told,
        fun _ => False.elim, fun _ => .inl⟩
  watched syscall state told := by
    unfold addSyscallBreak
    simp only [wp_bind, wp_getGlobals, wp_myRealloc, wp_modifyGlobals, wp_pure]
    refine ⟨fun _ => ?_, fun _ => .inl told⟩
    have added : ToldIn (state.withGlobals
        { state.globals with gSyscalls := state.globals.gSyscalls ++ [syscall] }) := told
    exact wp_mono (toldIn_place added _)
      ⟨fun _ _ placed => placed.hidden (.inr (by decide)), fun _ _ told => told,
        fun _ => False.elim, fun _ => .inl⟩
  deleted nb state told := by
    unfold wp
    cases accepted : acceptedId state.globals.gBreakpoints nb with
    | none =>
        obtain ⟨message, refused, ends⟩ := cmdBreakDel_refused accepted
        rw [ends]
        rcases refused with rfl | rfl
        · exact Told.happens told rfl
        · exact Told.happens told rfl
    | some bp =>
        obtain ⟨positive, found, _⟩ := acceptedId_eq_some.mp accepted
        have last : nb - 1 + 1 = nb := by omega
        rw [cmdBreakDel_accepted accepted]
        by_cases room : bp.word.toNat < state.globals.gSyscalls.length
        · rw [if_pos room]
          exact Told.deletes told found (show _ = _ by rw [last])
        · rw [if_neg room]
          have inside := (List.getElem?_eq_some_iff.mp found).1
          exact .inr ⟨nb - 1, _, List.getElem?_set_self inside, rfl, Nat.le_of_not_lt room,
            fun entry accepts => Told.deletes told found accepts⟩

end Commands

/-! ## What is shown -/

/-- The rows are in the order of their IDs, none of them is of a breakpoint that was deleted,
and those with an address are the breakpoints that were announced and not deleted. -/
structure ListsOpen (rows : List Row) (trace : List (Entry κ)) : Prop where
  ascending : (rows.map Row.id).Pairwise (· < ·)
  live : ∀ row ∈ rows, ∀ entry ∈ trace, ¬ entry.Accepts row.id
  shown : ∀ id addr, (∃ row ∈ rows, row.id = id ∧ row.what = .address addr) ↔
    (∃ entry ∈ trace, entry.Announces id addr) ∧ ∀ entry ∈ trace, ¬ entry.Accepts id

section Rows

variable {breakpoints : List MyBp} {trace : List (Entry κ)}

theorem breakRows_eq (host : Host κ) (breakpoints : List MyBp) :
    breakRows host breakpoints =
      (breakpoints.filter fun bp => !(bp.isInternal || bp.deleted)).map (rowOf host) := by
  induction breakpoints with
  | nil => rfl
  | cons bp rest inductionHypothesis =>
      unfold breakRows
      by_cases skipped : (bp.isInternal || bp.deleted) = true
      · rw [if_pos skipped, List.filter_cons, if_neg (by simp [skipped])]
        exact inductionHypothesis
      · rw [if_neg skipped, List.filter_cons, if_pos (by simpa using skipped), List.map_cons,
          inductionHypothesis]

theorem mem_breakRows {row : Row} :
    row ∈ breakRows host breakpoints ↔ ∃ bp ∈ breakpoints, bp.isInternal = false ∧
      bp.deleted = false ∧ rowOf host bp = row := by
  rw [breakRows_eq]
  simp only [List.mem_map, List.mem_filter, Bool.not_eq_true', Bool.or_eq_false_iff, and_assoc]

theorem rowOf_address {bp : MyBp} {addr : Addr} :
    (rowOf host bp).what = .address addr ↔ bp.isSyscall = false ∧ bp.addr = addr := by
  unfold rowOf
  cases bp.isSyscall <;> simp

theorem Numbered.ascending (numbered : Numbered breakpoints) :
    breakpoints.Pairwise fun earlier later => earlier.id < later.id := by
  rw [List.pairwise_iff_getElem]
  intro first second inside there before
  rw [numbered first _ (List.getElem?_eq_getElem inside),
    numbered second _ (List.getElem?_eq_getElem there)]
  omega

/-- The deletion of a breakpoint that is there was not announced. -/
theorem Told.undeleted {bp : MyBp} (told : Told breakpoints trace) (listed : bp ∈ breakpoints)
    (live : bp.deleted = false) : ∀ entry ∈ trace, ¬ entry.Accepts bp.id := by
  intro entry before accepts
  obtain ⟨index, found⟩ := List.mem_iff_getElem?.mp listed
  rw [told.numbered index bp found] at accepts
  obtain ⟨other, gone, same, there, deleted⟩ := told.deleted entry before _ accepts
  obtain rfl : index = other := Nat.succ.inj same
  obtain rfl := Option.some.inj (there.symm.trans found)
  rw [live] at deleted
  cases deleted

theorem Told.lists (told : Told breakpoints trace) :
    ListsOpen (breakRows host breakpoints) trace where
  ascending := by
    rw [breakRows_eq, List.map_map, List.pairwise_map]
    exact (told.numbered.ascending.sublist List.filter_sublist)
  live row member := by
    obtain ⟨bp, listed, _, live, rfl⟩ := mem_breakRows.mp member
    exact told.undeleted listed live
  shown id addr := by
    constructor
    · rintro ⟨row, member, rfl, what⟩
      obtain ⟨bp, listed, outer, live, rfl⟩ := mem_breakRows.mp member
      obtain ⟨code, rfl⟩ := rowOf_address.mp what
      obtain ⟨index, found⟩ := List.mem_iff_getElem?.mp listed
      have announced := told.announced index bp found ⟨outer, code⟩
      rw [← told.numbered index bp found] at announced
      exact ⟨announced, told.undeleted listed live⟩
    · rintro ⟨⟨entry, member, announces⟩, undeleted⟩
      obtain ⟨index, bp, rfl, found, rfl, outer, code⟩ :=
        told.placed entry member id addr announces
      have live : bp.deleted = false := by
        by_contra gone
        obtain ⟨other, before, accepts⟩ :=
          told.accepted index bp found (Bool.not_eq_false _ ▸ gone)
        exact undeleted other before accepts
      exact ⟨rowOf host bp, mem_breakRows.mpr ⟨bp, List.mem_of_getElem? found, outer, live, rfl⟩,
        told.numbered index bp found, rowOf_address.mpr ⟨code, rfl⟩⟩

theorem tellAll_apply (notices : List Notice) (console : Console κ) :
    tellAll notices console =
      .ok () { console with notices := notices.reverse ++ console.notices } := by
  induction notices generalizing console with
  | nil => rfl
  | cons notice rest inductionHypothesis =>
      unfold tellAll
      rw [Program.bind_ok (rfl : tell notice console = _), inductionHypothesis]
      simp

theorem cmdBreakList_apply (world : World κ) (console : Console κ) :
    cmdBreakList world console =
      .ok () { console with notices :=
        ((breakRows world.host console.state.globals.gBreakpoints).map .breakpoint).reverse ++
          console.notices } := by
  unfold cmdBreakList
  rw [Program.bind_ok (rfl : Program.gets _ console = _), tellAll_apply]

end Rows

/-- `break_list` adds one row for each breakpoint with an address that was announced and not
deleted, where `unsaid` is counted as said. -/
def BreakLists (world : World κ) (unsaid : List (Entry κ)) (console : Console κ) : Prop :=
  ∃ rows : List Row,
    cmdBreakList world console =
        .ok () { console with notices := (rows.map .breakpoint).reverse ++ console.notices } ∧
      ListsOpen rows (unsaid ++ console.state.trace)

/-- The last command was a `break_del` that writes outside `g_syscalls`. -/
def DeletesOutside (world : World κ) (console : Console κ) : Prop :=
  ∃ index bp, console.state.globals.gBreakpoints[index]? = some bp ∧
    console.state.globals.gSyscalls.length ≤ bp.word.toNat ∧
      ∀ entry : Entry κ, entry.Accepts (index + 1) → BreakLists world [entry] console

theorem Told.breakLists (world : World κ) {unsaid : List (Entry κ)} {console : Console κ}
    (told : Told console.state.globals.gBreakpoints (unsaid ++ console.state.trace)) :
    BreakLists world unsaid console :=
  ⟨_, cmdBreakList_apply world console, told.lists⟩

end MyDbg
