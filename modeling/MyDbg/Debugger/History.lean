import MyDbg.Debugger.Steady

/-!
Contract: the history of the breakpoint list.

Owns: `Extends`, what can become of the list; `Chronicle`, that the events of a
trace saw it grow and that what was printed about breakpoints was so; and that
every command keeps the chronicle.

Does not own: the memory behind the breakpoints.
-/

namespace MyDbg

open LittleEndian ProgramLogic Transition

variable {κ : Type} {host : Host κ}

/-! ## Lists that grow -/

/-- What can become of a breakpoint. -/
structure MyBp.Ages (earlier later : MyBp) : Prop where
  id : later.id = earlier.id
  flags : later.flags = earlier.flags
  addr : later.addr = earlier.addr
  word : later.word = earlier.word
  deleted : earlier.deleted = true → later.deleted = true
  /-- A temporary breakpoint is not enabled again. -/
  spent : earlier.isTemp = true → earlier.enabled = false → later.enabled = false

/-- Breakpoints keep their places, and new ones come behind them. -/
def Extends (earlier later : List MyBp) : Prop :=
  ∀ (index : Nat) (bp : MyBp), earlier[index]? = some bp →
    ∃ now, later[index]? = some now ∧ bp.Ages now

def Numbered (breakpoints : List MyBp) : Prop :=
  ∀ (index : Nat) (bp : MyBp), breakpoints[index]? = some bp → bp.id = index + 1

section Tables

variable {first second third : List MyBp} {bp other : MyBp} {index : Nat}

theorem MyBp.Ages.isTemp (ages : bp.Ages other) : other.isTemp = bp.isTemp := by
  unfold MyBp.isTemp
  rw [ages.flags]

theorem MyBp.Ages.refl (bp : MyBp) : bp.Ages bp :=
  ⟨rfl, rfl, rfl, rfl, fun deleted => deleted, fun _ disabled => disabled⟩

theorem MyBp.Ages.trans {last : MyBp} (early : bp.Ages other) (late : other.Ages last) :
    bp.Ages last where
  id := late.id.trans early.id
  flags := late.flags.trans early.flags
  addr := late.addr.trans early.addr
  word := late.word.trans early.word
  deleted deleted := late.deleted (early.deleted deleted)
  spent temp disabled := late.spent (early.isTemp.trans temp) (early.spent temp disabled)

theorem Extends.refl (breakpoints : List MyBp) : Extends breakpoints breakpoints :=
  fun _ bp found => ⟨bp, found, .refl bp⟩

theorem Extends.trans (early : Extends first second) (late : Extends second third) :
    Extends first third := by
  intro index bp found
  obtain ⟨middle, there, ages⟩ := early index bp found
  obtain ⟨last, here, more⟩ := late index middle there
  exact ⟨last, here, ages.trans more⟩

theorem Extends.append (breakpoints : List MyBp) (bp : MyBp) :
    Extends breakpoints (breakpoints ++ [bp]) := by
  intro index old found
  have inside := (List.getElem?_eq_some_iff.mp found).1
  exact ⟨old, by rw [List.getElem?_append_left inside, found], .refl old⟩

theorem Extends.set (found : first[index]? = some bp) (ages : bp.Ages other) :
    Extends first (first.set index other) := by
  intro position old there
  have inside := (List.getElem?_eq_some_iff.mp there).1
  by_cases same : index = position
  · subst same
    obtain rfl := Option.some.inj (found.symm.trans there)
    exact ⟨other, by simp [inside], ages⟩
  · exact ⟨old, by rw [List.getElem?_set_ne same, there], .refl old⟩

theorem Numbered.append (numbered : Numbered first) (last : bp.id = first.length + 1) :
    Numbered (first ++ [bp]) := by
  intro index old found
  by_cases inside : index < first.length
  · rw [List.getElem?_append_left inside] at found
    exact numbered index old found
  · have bound := (List.getElem?_eq_some_iff.mp found).1
    rw [List.length_append, List.length_singleton] at bound
    have same : index = first.length := by omega
    subst same
    rw [List.getElem?_concat_length] at found
    rw [← Option.some.inj found]
    exact last

theorem Numbered.set (numbered : Numbered first) (found : first[index]? = some bp)
    (same : other.id = bp.id) : Numbered (first.set index other) := by
  intro position old there
  by_cases here : index = position
  · subst here
    have inside := (List.getElem?_eq_some_iff.mp found).1
    rw [List.getElem?_set_self inside] at there
    rw [← Option.some.inj there, same]
    exact numbered index bp found
  · rw [List.getElem?_set_ne here] at there
    exact numbered position old there

end Tables

/-! ## Chronicles -/

/-- The stop report of a breakpoint. -/
def Entry.Reports (entry : Entry κ) (id : Nat) : Prop :=
  ∃ addr, entry.event = .output (.breakpointHit id addr)

/-- `break_del` accepted an ID. -/
def Entry.Accepts (entry : Entry κ) (id : Nat) : Prop := entry.event = .output (.deleted id)

/-- What is printed about a breakpoint is so. -/
structure Entry.Truthful (entry : Entry κ) : Prop where
  reports : ∀ id, entry.Reports id → ∃ index bp, id = index + 1 ∧
    entry.globals.gBreakpoints[index]? = some bp ∧ bp.deleted = false ∧
      (bp.isTemp = true → bp.enabled = false)
  accepts : ∀ id, entry.Accepts id → ∃ index bp, id = index + 1 ∧
    entry.globals.gBreakpoints[index]? = some bp ∧ bp.deleted = true

/-- `later` comes some time after `earlier`. A temporary breakpoint that it
reports was enabled then. -/
structure Entry.Follows (earlier later : Entry κ) : Prop where
  grows : Extends earlier.globals.gBreakpoints later.globals.gBreakpoints
  unspent : ∀ index bp, later.Reports (index + 1) →
    earlier.globals.gBreakpoints[index]? = some bp → bp.isTemp = true → bp.enabled = true

/-- The list grew from `first` on, and the trace tells the truth about it. -/
structure Chronicle (first : List MyBp) (state : State κ) : Prop where
  numbered : Numbered state.globals.gBreakpoints
  since : Extends first state.globals.gBreakpoints
  now : ∀ entry ∈ state.trace, Extends entry.globals.gBreakpoints state.globals.gBreakpoints
  ordered : state.trace.Pairwise fun later earlier => earlier.Follows later
  truthful : ∀ entry ∈ state.trace, entry.Truthful

section Chronicle

variable {first : List MyBp} {state after : State κ}

theorem Chronicle.moves (chronicle : Chronicle first state) (trace : after.trace = state.trace)
    (grows : Extends state.globals.gBreakpoints after.globals.gBreakpoints)
    (numbered : Numbered after.globals.gBreakpoints) : Chronicle first after where
  numbered := numbered
  since := chronicle.since.trans grows
  now := by
    rw [trace]
    intro entry member
    exact (chronicle.now entry member).trans grows
  ordered := by
    rw [trace]
    exact chronicle.ordered
  truthful := by
    rw [trace]
    exact chronicle.truthful

theorem Chronicle.same (chronicle : Chronicle first state) (trace : after.trace = state.trace)
    (same : after.globals.gBreakpoints = state.globals.gBreakpoints) : Chronicle first after := by
  apply chronicle.moves trace
  · rw [same]
    exact .refl _
  · rw [same]
    exact chronicle.numbered

/-- An event happens. -/
theorem Chronicle.happens (chronicle : Chronicle first state) {entry : Entry κ}
    (trace : after.trace = entry :: state.trace)
    (table : entry.globals.gBreakpoints = state.globals.gBreakpoints)
    (same : after.globals.gBreakpoints = state.globals.gBreakpoints) (truthful : entry.Truthful)
    (unspent : ∀ index, entry.Reports (index + 1) → ∀ older ∈ state.trace, ∀ bp,
      older.globals.gBreakpoints[index]? = some bp → bp.isTemp = true → bp.enabled = true) :
    Chronicle first after where
  numbered := by
    rw [same]
    exact chronicle.numbered
  since := by
    rw [same]
    exact chronicle.since
  now := by
    rw [trace, same]
    intro older member
    rcases List.mem_cons.mp member with rfl | before
    · rw [table]
      exact .refl _
    · exact chronicle.now older before
  ordered := by
    rw [trace]
    apply List.pairwise_cons.mpr
    refine ⟨?_, chronicle.ordered⟩
    intro older member
    refine ⟨?_, ?_⟩
    · rw [table]
      exact chronicle.now older member
    · intro index bp reports found temp
      exact unspent index reports older member bp found temp
  truthful := by
    rw [trace]
    exact List.forall_mem_cons.mpr ⟨truthful, chronicle.truthful⟩

theorem Entry.plain_reports {entry : Entry κ} (plain : entry.event.Idle) (id : Nat) :
    ¬ entry.Reports id := by
  rintro ⟨addr, same⟩
  rw [same] at plain
  exact plain

theorem Entry.plain_truthful {entry : Entry κ} (plain : entry.event.Idle) : entry.Truthful where
  reports id reports := absurd reports (plain_reports plain id)
  accepts id accepts := by
    rw [accepts] at plain
    exact plain.elim

theorem Chronicle.record (chronicle : Chronicle first state) {event : Event}
    (plain : event.Idle) : Chronicle first (state.record event) := by
  have silent (id : Nat) : ¬ (⟨event, state.globals, state.kernel⟩ : Entry κ).Reports id :=
    Entry.plain_reports plain id
  exact chronicle.happens rfl rfl rfl (Entry.plain_truthful plain)
    fun _ reports => absurd reports (silent _)

theorem chronicle_steady : Steady (Chronicle first : State κ → Prop) where
  event _ _ plain chronicle := chronicle.record plain
  kernel _ _ chronicle := chronicle.same rfl rfl
  globals _ _ same chronicle := chronicle.same rfl same
  placed _ _ _ _ chronicle :=
    chronicle.moves rfl (Extends.append _ _) (chronicle.numbered.append rfl)

/-! ## Breakpoints -/

/-- Nothing in the trace saw the temporary breakpoint at `index` disabled. -/
def Unspent (index : Nat) (state : State κ) : Prop :=
  ∀ older ∈ state.trace, ∀ bp, older.globals.gBreakpoints[index]? = some bp →
    bp.isTemp = true → bp.enabled = true

theorem Chronicle.unspent (chronicle : Chronicle first state) {index : Nat} {bp : MyBp}
    (found : state.globals.gBreakpoints[index]? = some bp) (enabled : bp.enabled = true) :
    Unspent index state := by
  intro older member old there temp
  obtain ⟨now, here, ages⟩ := chronicle.now older member index old there
  obtain rfl := Option.some.inj (here.symm.trans found)
  by_contra disabled
  rw [ages.spent temp (Bool.eq_false_iff.mpr disabled)] at enabled
  cases enabled

theorem MyBp.ages_toggled {bp : MyBp} (switches : bp.enabled = true ∨ bp.isTemp = false) :
    bp.Ages bp.toggled := by
  refine ⟨rfl, rfl, rfl, rfl, fun deleted => deleted, ?_⟩
  intro temp disabled
  rcases switches with enabled | persistent
  · rw [enabled] at disabled
    cases disabled
  · rw [persistent] at temp
    cases temp

/-- Where it returns, an enabled breakpoint is disabled, and the events on the way
saw it enabled. -/
theorem chronicle_toggle {index : Nat} {bp : MyBp} (chronicle : Chronicle first state)
    (found : state.globals.gBreakpoints[index]? = some bp) :
    wp (toggleBreakpoint host index)
      { ok := fun _ after => Chronicle first after ∧
          (bp.enabled = true → Unspent index after ∧
            after.globals.gBreakpoints[index]? = some bp.toggled)
        throw := fun _ => Chronicle first
        fault := Chronicle first
        noReturn := Chronicle first } state := by
  have noted : Chronicle first (state.record (.toggle index)) := chronicle.record trivial
  have inside := (List.getElem?_eq_some_iff.mp found).1
  apply wp_toggleBreakpoint found
  · intro disabled _
    refine ⟨noted, ?_⟩
    intro enabled
    rw [disabled] at enabled
    cases enabled
  · intro _
    exact chronicle_steady.afterPtrace _ noted
  · rintro switches word poked rfl
    have poked : Chronicle first (((state.record (.toggle index)).afterPtrace host
        (.peekdata bp.addr)).afterPtrace host (.pokedata bp.addr word)) :=
      chronicle_steady.afterPtrace _ (chronicle_steady.afterPtrace _ noted)
    refine ⟨poked, ?_, ?_⟩
    · exact poked.moves rfl (Extends.set found (MyBp.ages_toggled switches))
        (poked.numbered.set found rfl)
    · intro enabled
      exact ⟨poked.unspent found enabled, List.getElem?_set_self inside⟩

theorem chronicle_toggleBreakpoint (index : Nat) :
    Preserves (Chronicle first) (toggleBreakpoint host index) := by
  apply Preserves.of_wp
  intro state chronicle
  cases found : state.globals.gBreakpoints[index]? with
  | some bp =>
      exact wp_mono (chronicle_toggle chronicle found)
        ⟨fun _ _ kept => kept.1, fun _ _ kept => kept, fun _ kept => kept, fun _ kept => kept⟩
  | none =>
      unfold wp
      rw [toggleBreakpoint_missing found]
      exact chronicle.record trivial

/-- The hit of a breakpoint that is found. -/
theorem chronicle_hitBreakpoint {index : Nat} {addr : Addr} (chronicle : Chronicle first state)
    (first' : getBreakpoint state.globals.gBreakpoints addr = some index) :
    wp (hitBreakpoint host index addr) (Post.always (Chronicle first)) state := by
  obtain ⟨bp, found, hit, _⟩ := getBreakpoint_eq_some.mp first'
  obtain ⟨_, enabled, live, _⟩ := MyBp.hits_iff.mp hit
  have number := chronicle.numbered index bp found
  have placid : Placid host (Chronicle first) := chronicle_steady.placid
  -- The report is made in a state that knows the breakpoint, spent if it is temporary.
  have report {now : MyBp} {middle : State κ} (kept : Chronicle first middle)
      (unspent : Unspent index middle) (here : middle.globals.gBreakpoints[index]? = some now)
      (alive : now.deleted = false) (spent : now.isTemp = true → now.enabled = false) :
      Chronicle first (middle.record (.output (.breakpointHit bp.id addr))) := by
    have named (id : Nat) (reports : (⟨.output (.breakpointHit bp.id addr), middle.globals,
        middle.kernel⟩ : Entry κ).Reports id) : id = index + 1 := by
      obtain ⟨_, same⟩ := reports
      cases same
      exact number
    refine kept.happens rfl rfl rfl ⟨?_, nofun⟩ ?_
    · intro id reports
      exact ⟨index, now, named id reports, here, alive, spent⟩
    · intro other reports
      obtain rfl : other = index := Nat.succ.inj (named _ reports)
      exact unspent
  unfold hitBreakpoint
  rw [wp_bind_ok (breakpointAt_apply found), wp_bind, wp_when]
  constructor
  · intro temp
    refine wp_mono (chronicle_toggle chronicle found)
      ⟨?_, fun _ _ kept => kept, fun _ kept => kept, fun _ kept => kept⟩
    intro _ middle kept
    obtain ⟨unspent, spent⟩ := kept.2 enabled
    change wp _ _ _
    rw [wp_bind, wp_when]
    have disabled : bp.toggled.enabled = false := by
      rw [MyBp.toggled_enabled, enabled]
      rfl
    exact ⟨fun _ => (placid.rewind addr).wp (report kept.1 unspent spent live fun _ => disabled),
      fun _ => (placid.rewind addr).wp kept.1⟩
  · intro persistent
    change wp _ _ _
    rw [wp_bind, wp_when]
    have spent (temp : bp.isTemp = true) : bp.enabled = false := by
      rw [persistent] at temp
      cases temp
    have reported := report chronicle (chronicle.unspent found enabled) found live spent
    exact ⟨fun _ => (placid.rewind addr).wp reported, fun _ => (placid.rewind addr).wp chronicle⟩

/-- A deletion is told where the write to `g_syscalls` has a place to go. -/
theorem chronicle_cmdBreakDel (nb : Nat) :
    Preserves (Chronicle first) (cmdBreakDel nb : Dbg κ Unit) := by
  apply Preserves.of_wp
  intro state chronicle
  unfold wp
  cases accepted : acceptedId state.globals.gBreakpoints nb with
  | none =>
      obtain ⟨message, refused, ends⟩ := cmdBreakDel_refused accepted
      rw [ends]
      rcases refused with rfl | rfl
      · exact chronicle.record trivial
      · exact chronicle.record trivial
  | some bp =>
      obtain ⟨positive, found, _⟩ := acceptedId_eq_some.mp accepted
      have inside := (List.getElem?_eq_some_iff.mp found).1
      have ages : bp.Ages { bp with deleted := true } :=
        ⟨rfl, rfl, rfl, rfl, fun _ => rfl, fun _ disabled => disabled⟩
      have deleted {after : State κ} (trace : after.trace = state.trace)
          (table : after.globals.gBreakpoints =
            state.globals.gBreakpoints.set (nb - 1) { bp with deleted := true }) :
          Chronicle first after := by
        apply chronicle.moves trace
        · rw [table]
          exact Extends.set found ages
        · rw [table]
          exact chronicle.numbered.set found rfl
      rw [cmdBreakDel_accepted accepted]
      split
      · have stored : Chronicle first (state.withGlobals { state.globals with
            gBreakpoints := state.globals.gBreakpoints.set (nb - 1) { bp with deleted := true }
            gSyscalls := state.globals.gSyscalls.set bp.word.toNat (-1) }) := deleted rfl rfl
        refine stored.happens rfl rfl rfl ⟨nofun, ?_⟩ nofun
        rintro id ⟨⟩
        exact ⟨nb - 1, { bp with deleted := true }, by omega, List.getElem?_set_self inside, rfl⟩
      · exact deleted rfl rfl

/-! ## Runs -/

theorem chronicle_waitProgram {continues : Dbg κ Unit} (step : Bool)
    (continued : Preserves (Chronicle first) continues) :
    Preserves (Chronicle first) (waitProgram host continues step) := by
  have waited : Preserves (Chronicle first) (waitStop host step) :=
    chronicle_steady.waitStop (fun _ _ _ chronicle found => chronicle_hitBreakpoint chronicle found)
      step
  refine waited.bind fun next => ?_
  cases next with
  | returns result => exact .pure result
  | continues => exact continued.bind fun _ => .pure false

theorem chronicle_singleStep (continues : Dbg κ Unit) :
    Preserves (Chronicle first) (singleStep host continues) := by
  have steady : Steady (Chronicle first : State κ → Prop) := chronicle_steady
  have placid : Placid host (Chronicle first) := steady.placid
  rw [singleStep_eq]
  refine (placid.getRegister _).bind fun addr => Preserves.bind (.gets _) fun globals => ?_
  refine Preserves.bind (.forSome _ chronicle_toggleBreakpoint) fun _ => ?_
  refine Preserves.bind ?_ fun _ =>
    Preserves.bind (.forSome _ chronicle_toggleBreakpoint) fun _ => .pure _
  refine Preserves.bind (.gets _) fun _ => (steady.myPtrace _).bind fun _ => ?_
  refine Preserves.bind (placid.modifyGlobals fun _ => rfl) fun _ => ?_
  exact chronicle_waitProgram true (.pure ())

theorem chronicle_continueExecution (depth : Nat) :
    Preserves (Chronicle first) (continueExecution host depth) := by
  have steady : Steady (Chronicle first : State κ → Prop) := chronicle_steady
  have placid : Placid host (Chronicle first) := steady.placid
  induction depth with
  | zero => exact .noReturn
  | succ depth inductionHypothesis =>
      have resumes : Preserves (Chronicle first)
          (resumeExecution host (continueExecution host depth)) := by
        refine Preserves.bind (.gets _) fun _ => (steady.myPtrace _).bind fun _ => ?_
        refine Preserves.bind (placid.modifyGlobals fun _ => rfl) fun _ => ?_
        exact (chronicle_waitProgram false inductionHypothesis).bind fun _ => .pure _
      refine (placid.getRegister _).bind fun _ => Preserves.bind (.gets _) fun _ => ?_
      apply Preserves.ite
      · exact (chronicle_singleStep _).bind fun _ => Preserves.ite resumes (.pure _)
      · exact resumes

/-- Every command keeps the chronicle, however it ends. -/
theorem chronicle_exec (depth : Nat) (command : Command) :
    Preserves (Chronicle first) (exec host depth command) := by
  have same : ∀ state : State κ, Chronicle first state → Chronicle first state :=
    fun _ chronicle => chronicle
  apply Preserves.of_wp
  intro state chronicle
  exact chronicle_steady.exec same same
    (fun _ => .of_preserves same same (chronicle_singleStep _))
    (fun depth => .of_preserves same same (chronicle_continueExecution depth))
    (fun nb => .of_preserves same same (chronicle_cmdBreakDel nb)) depth command state chronicle

theorem chronicle_start (kernel : κ) : Chronicle [] (State.start kernel) where
  numbered := nofun
  since := nofun
  now := nofun
  ordered := .nil
  truthful := nofun

/-- The commands of a session keep the chronicle, and so does one that does not
come back. -/
theorem chronicle_reaches {last : State κ} (chronicle : Chronicle first state)
    (reaches : Reaches host state last) : Chronicle first last := by
  obtain ⟨lines, prompt, session, ends⟩ := reaches
  have prompted : Chronicle first prompt := by
    apply Run.invariant (Chronicle first) chronicle _ session
    intro line before after kept taken
    have preserves : Preserves (Chronicle first) (exec host line.depth line.command) :=
      chronicle_exec line.depth line.command
    have always := preserves.wp kept
    unfold Prompt at taken
    cases back : line.back with
    | normal => rw [back] at taken; exact always.ok taken
    | raised raised => rw [back] at taken; exact always.throw taken
  rcases ends with rfl | ⟨depth, command, rfl⟩
  · exact prompted
  · exact chronicle_exec depth command prompt prompted

/-! ## The history of a run -/

/-- What is known of the breakpoints of a run: the list only grows, a place in it
has its ID and keeps what was placed there, what is deleted stays deleted, a
temporary breakpoint that is disabled stays so; and the stop report names a
temporary ID at most once and no ID that was deleted. -/
structure BreakpointHistory (state : State κ) : Prop where
  numbered : Numbered state.globals.gBreakpoints
  now : ∀ entry ∈ state.trace, Extends entry.globals.gBreakpoints state.globals.gBreakpoints
  ordered : state.trace.Pairwise fun later earlier =>
    Extends earlier.globals.gBreakpoints later.globals.gBreakpoints
  once : ∀ bp ∈ state.globals.gBreakpoints, bp.isTemp = true →
    state.trace.Pairwise fun later earlier => ¬ (earlier.Reports bp.id ∧ later.Reports bp.id)
  silent : ∀ id, state.trace.Pairwise fun later earlier =>
    ¬ (earlier.Accepts id ∧ later.Reports id)

theorem Chronicle.history (chronicle : Chronicle first state) : BreakpointHistory state where
  numbered := chronicle.numbered
  now := chronicle.now
  ordered := chronicle.ordered.imp fun follows => follows.grows
  once := by
    intro bp member temp
    obtain ⟨place, here⟩ := List.mem_iff_getElem?.mp member
    refine chronicle.ordered.imp_of_mem ?_
    intro later earlier _ before follows reported
    obtain ⟨reports, again⟩ := reported
    obtain ⟨index, old, number, found, _, spent⟩ :=
      (chronicle.truthful earlier before).reports bp.id reports
    obtain ⟨now, there, ages⟩ := chronicle.now earlier before index old found
    have same : place = index := by
      have id := chronicle.numbered place bp here
      omega
    subst same
    obtain rfl := Option.some.inj (there.symm.trans here)
    rw [number] at again
    have oldTemp : old.isTemp = true := ages.isTemp.symm.trans temp
    have enabled := follows.unspent place old again found oldTemp
    rw [spent oldTemp] at enabled
    cases enabled
  silent := by
    intro id
    refine chronicle.ordered.imp_of_mem ?_
    intro later earlier after before follows named
    obtain ⟨accepts, reports⟩ := named
    obtain ⟨index, old, number, found, deleted⟩ :=
      (chronicle.truthful earlier before).accepts id accepts
    obtain ⟨place, bp, same, here, live, _⟩ := (chronicle.truthful later after).reports id reports
    obtain rfl : place = index := by omega
    obtain ⟨now, there, ages⟩ := follows.grows place old found
    obtain rfl := Option.some.inj (there.symm.trans here)
    rw [ages.deleted deleted] at live
    cases live

end Chronicle

/-- Every run from the start of the debugger has this history. -/
theorem breakpoint_history {kernel : κ} {last : State κ}
    (reaches : Reaches host (State.start kernel) last) : BreakpointHistory last :=
  (chronicle_reaches (chronicle_start kernel) reaches).history

/-- A temporary breakpoint that is hit, and beside it a watched syscall and an ordinary
breakpoint, over a word 0, that are deleted. -/
theorem breakpoint_history_deleted :
    ∃ last, Reaches scripted (zeros [⟨.plainTrap, 0x11⟩, ⟨.plainTrap, 0x21⟩]) last ∧
      BreakpointHistory last := by
  have comes : (replay scripted (fun _ _ _ => true)
      (zeros [⟨.plainTrap, 0x11⟩, ⟨.plainTrap, 0x21⟩])
      [⟨.breaks 1, 1, .normal⟩, ⟨.tbreak 0x10, 1, .normal⟩, ⟨.break 0x30, 1, .normal⟩,
        ⟨.continue, 1, .normal⟩, ⟨.breakDel 1, 1, .normal⟩, ⟨.breakDel 3, 1, .normal⟩]).isSome =
      true := by
    decide +kernel
  obtain ⟨last, replayed⟩ := Option.isSome_iff_exists.mp comes
  have reaches : Reaches scripted (zeros [⟨.plainTrap, 0x11⟩, ⟨.plainTrap, 0x21⟩]) last :=
    ⟨_, last, session_replay replayed, Or.inl rfl⟩
  exact ⟨last, reaches, breakpoint_history reaches⟩

end MyDbg
