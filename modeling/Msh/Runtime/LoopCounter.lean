import Msh.Runtime.CrtPos

namespace Msh

open Function BoundedSearch SlotAssignment TransitionSystem Config

/-!
# Loop counters

`set_scav_symbol` points a scavenger's `loop_counter_loc` at the counter area
of its first slot and zeroes that area; neither `tl_swap_crts` nor
`realloc_scav` touches the symbol or the area.  The areas are those of the
scavengers' own slots, hence disjoint, as long as no step moves a scavenger
that exports the symbol.
-/

/-- `offsetof(struct primary_thread_ctx, loop_counter[pos])` -/
def offsetofCounterArea (pos : Nat) : Nat :=
  offsetofLoopCounter + loopCounterBytes * pos

/-- If the symbols have a counter, it is the one of the position. -/
def CounterAt (pos : Nat) (symbols : Option LibSymbols) : Prop :=
  ∀ lib, symbols = some lib → ∀ loc, lib.loopCounterLoc = some loc →
    loc = offsetofCounterArea pos

theorem counterAt_namedAt (ctx : CoroutineCtx) (pos : Nat)
    (lib : LibSymbols) :
    CounterAt pos (some (Tables.namedAt ctx pos lib)) := by
  rintro named isNamed loc located
  cases isNamed
  obtain ⟨_, _, rfl⟩ := Option.map_eq_some_iff.mp located
  rfl

/-- Two counter areas of one thread do not share a byte. -/
def DisjointAreas (first second : Int) : Prop :=
  first + loopCounterBytes ≤ second ∨ second + loopCounterBytes ≤ first

theorem disjointAreas_of_ne {first second : Nat} (differs : first ≠ second) :
    DisjointAreas (offsetofCounterArea first)
      (offsetofCounterArea second) := by
  unfold DisjointAreas offsetofCounterArea
  have bytes : (loopCounterBytes : Int) = 256 := rfl
  push_cast [bytes]
  omega

namespace Tables

theorem loopCounterLoc_eq (tables : Tables) (idx : Int) :
    tables.loopCounterLoc idx =
      (tables.symbols idx).bind (·.loopCounterLoc) := by
  unfold loopCounterLoc symbols
  cases (tables.scavTable idx).libHandle <;> rfl

/-- The counters that a scavenger hosted by a thread reads and writes. -/
def counters (tables : Tables) (tid : Tid) (idx : Int) :
    Option (Nat → BitVec 8) :=
  (tables.loopCounterLoc idx).map fun loc =>
    (tables.primTable tid).loopCounter (counterArea loc)

theorem counterAt_iff {tables : Tables} {pos : Nat} {idx : Int} :
    CounterAt pos (tables.symbols idx) ↔
      ∀ loc, tables.loopCounterLoc idx = some loc →
        loc = offsetofCounterArea pos := by
  rw [loopCounterLoc_eq]
  constructor
  · intro holds loc located
    obtain ⟨lib, isLib, libLocated⟩ := Option.bind_eq_some_iff.mp located
    exact holds lib isLib loc libLocated
  · intro holds lib isLib loc located
    refine holds loc ?_
    rw [isLib]
    exact located

/-- No library with loop counters is loaded for two entries of `SCAV_TABLE`. -/
def DistinctCounters (tables : Tables) : Prop :=
  ∀ first second handle, ScavIdx first → ScavIdx second →
    (tables.scavTable first).libHandle = some handle →
    (tables.scavTable second).libHandle = some handle →
    tables.loopCounterLoc first ≠ none → first = second

theorem Distinct.counters {tables : Tables} (distinct : tables.Distinct) :
    tables.DistinctCounters :=
  fun first second handle inFirst inSecond firstLoaded secondLoaded _ =>
    distinct first second handle inFirst inSecond firstLoaded secondLoaded

/-- It is a matter of the loaded libraries and of what they export. -/
theorem DistinctCounters.congr
    {before after : Tables} (distinct : before.DistinctCounters)
    (libHandle :
      ∀ idx,
        (after.scavTable idx).libHandle =
          (before.scavTable idx).libHandle)
    (exported :
      ∀ idx, after.loopCounterLoc idx = none ↔
        before.loopCounterLoc idx = none) :
    after.DistinctCounters := by
  intro first second handle inFirst inSecond
  rw [libHandle, libHandle, Ne, exported]
  exact distinct first second handle inFirst inSecond

/-- A move writes no `loop_counter_loc`. -/
theorem SlotMoved.loopCounterLoc
    {before after : Tables} {idx : Int}
    {source target : Tid} {fromPos toPos : Nat}
    (moved : SlotMoved before after idx source fromPos target toPos)
    (item : Int) :
    after.loopCounterLoc item = before.loopCounterLoc item := by
  rw [loopCounterLoc_eq, loopCounterLoc_eq]
  rcases moved.symbols.symbols_cases item with same | ⟨_, renamed⟩
  · rw [same]
  · rw [renamed]
    cases before.symbols item <;> rfl

/-- Moving a scavenger without counters keeps all counters in place. -/
theorem SlotMoved.counterAt
    {before after : Tables} {idx : Int}
    {source target : Tid} {fromPos toPos : Nat}
    (moved : SlotMoved before after idx source fromPos target toPos)
    (noCounter : before.loopCounterLoc idx = none)
    (holds : before.Everywhere CounterAt) :
    after.Everywhere CounterAt := by
  intro tid pos item held
  refine counterAt_iff.mpr fun loc located => ?_
  rw [moved.loopCounterLoc] at located
  have notMoved : item ≠ idx := by
    rintro rfl
    rw [noCounter] at located
    cases located
  have heldBefore := moved.slots.occupant_of_ne notMoved held
  exact counterAt_iff.mp (holds tid pos item heldBefore) loc located

/-- Nor does the first loop of the locked section write one. -/
theorem MoveRun.loopCounterLoc
    {target : Tid} {idxs : List Int} {before after : Tables}
    (run : MoveRun target idxs before after) (item : Int) :
    after.loopCounterLoc item = before.loopCounterLoc item := by
  induction run with
  | nil =>
      rfl
  | cons taken _ inductionHypothesis =>
      obtain ⟨_, _, _, moved⟩ := taken.slotMoved
      exact inductionHypothesis.trans (moved.loopCounterLoc item)

/-- The first loop of the locked section, moving only such scavengers. -/
theorem MoveRun.counterAt
    {target : Tid} {idxs : List Int} {before after : Tables}
    (run : MoveRun target idxs before after)
    (noCounters : ∀ idx ∈ idxs, before.loopCounterLoc idx = none)
    (holds : before.Everywhere CounterAt) :
    after.Everywhere CounterAt := by
  induction run with
  | nil =>
      exact holds
  | @cons idx rest first second third taken _ inductionHypothesis =>
      obtain ⟨_, _, _, moved⟩ := taken.slotMoved
      refine inductionHypothesis (fun item member => ?_)
        (moved.counterAt (noCounters idx List.mem_cons_self) holds)
      rw [moved.loopCounterLoc]
      exact noCounters item (List.mem_cons_of_mem idx member)

/-- Rollbacks of such scavengers; no symbol is written. -/
theorem BackRun.counterAt
    {target : Tid} {idxs : List Int} {before after : Tables}
    (run : BackRun target idxs before after)
    (noCounters : ∀ idx ∈ idxs, before.loopCounterLoc idx = none)
    (holds : before.Everywhere CounterAt) :
    after.Everywhere CounterAt := by
  induction run with
  | nil =>
      exact holds
  | @cons idx rest first second third taken _ inductionHypothesis =>
      have locs (item : Int) :
          second.loopCounterLoc item = first.loopCounterLoc item := by
        rw [loopCounterLoc_eq, taken.symbols, loopCounterLoc_eq]
      refine inductionHypothesis ?_ ?_
      · intro item member
        rw [locs]
        exact noCounters item (List.mem_cons_of_mem _ member)
      · intro tid pos item held
        by_cases isBack : item = idx
        · have noCounter := noCounters idx List.mem_cons_self
          rw [← isBack, ← locs, loopCounterLoc_eq] at noCounter
          intro lib isLib loc located
          rw [isLib, Option.bind_some, located] at noCounter
          cases noCounter
        · rw [taken.symbols]
          exact holds tid pos item (taken.occupant_of_ne isBack held)

/-- A placement exports what was exported. -/
theorem HostStep.loopCounterLoc_eq_none
    {target : Tid} {before after : Tables}
    (taken : HostStep target before after) (item : Int) :
    after.loopCounterLoc item = none ↔
      before.loopCounterLoc item = none := by
  cases taken with
  | @host idx toPos inTable idle room =>
      rw [loopCounterLoc_eq, loopCounterLoc_eq]
      rcases (hostScav_rewritten before target idx toPos).symbols_cases
          item with same | ⟨_, named⟩
      · rw [same]
      · rw [named]
        cases before.symbols item with
        | none => exact Iff.rfl
        | some lib => simp [namedAt]

/-- A placement points the counter at the slot, and no other one. -/
theorem HostStep.counterAt
    {target : Tid} {before after : Tables}
    (taken : HostStep target before after)
    (hosting : before.Hosting) (distinct : before.DistinctCounters)
    (holds : before.Everywhere CounterAt) :
    after.Everywhere CounterAt := by
  have exported := taken.loopCounterLoc_eq_none
  cases taken with
  | @host idx toPos inTable idle room =>
      have rewritten := hostScav_rewritten before target idx toPos
      have change := hostScav_placed before target idx toPos
      intro tid pos item held
      obtain ⟨isPos, atPos, notSentinel⟩ := occupant_eq_some_iff.mp held
      rw [change.idxList] at atPos
      by_cases here : tid = target ∧ pos = toPos
      · rw [if_pos here] at atPos
        obtain ⟨rfl, rfl⟩ := here
        subst item
        rw [rewritten.self]
        intro lib isNamed
        obtain ⟨old, _, rfl⟩ := Option.map_eq_some_iff.mp isNamed
        exact counterAt_namedAt _ _ old _ rfl
      · rw [if_neg here] at atPos
        have heldBefore : before.occupant (tid, pos) = some item :=
          occupant_eq_some_iff.mpr ⟨isPos, atPos, notSentinel⟩
        have differs : item ≠ idx := by
          rintro rfl
          obtain ⟨_, unplaced, _⟩ := Idle_iff.mp idle
          exact (hosting.yc_ne_none_iff inTable).mpr ⟨_, heldBefore⟩
            unplaced
        rcases rewritten.symbols_cases item with same | ⟨shared, -⟩
        · rw [same]
          exact holds tid pos item heldBefore
        · -- a library with counters is loaded for one entry only
          refine counterAt_iff.mpr fun loc located => ?_
          have counted : before.loopCounterLoc item ≠ none := by
            rw [Ne, ← exported, located]
            exact Option.some_ne_none loc
          cases loaded : (before.scavTable item).libHandle with
          | none =>
              rw [loopCounterLoc, loaded] at counted
              exact absurd rfl counted
          | some handle =>
              exact absurd
                (distinct item idx handle (hosting.inTable heldBefore)
                  inTable loaded (shared.symm.trans loaded) counted)
                differs

/-- The second loop of the locked section. -/
theorem HostRun.counterAt
    {target : Tid} {before after : Tables}
    (run : HostRun target before after)
    (hosting : before.Hosting) (distinct : before.DistinctCounters)
    (holds : before.Everywhere CounterAt) :
    after.DistinctCounters ∧ after.Everywhere CounterAt := by
  induction run with
  | refl =>
      exact ⟨distinct, holds⟩
  | tail earlier taken inductionHypothesis =>
      obtain ⟨distinctBefore, holdsBefore⟩ := inductionHypothesis
      exact ⟨distinctBefore.congr taken.libHandle
          taken.loopCounterLoc_eq_none,
        taken.counterAt
          ((LockedRun.slotRun (HostRun.locked earlier)).hosting hosting)
          distinctBefore holdsBefore⟩

/-- The first loop keeps the libraries with counters distinct. -/
theorem MoveRun.distinctCounters
    {target : Tid} {idxs : List Int} {before after : Tables}
    (run : MoveRun target idxs before after)
    (distinct : before.DistinctCounters) :
    after.DistinctCounters := by
  induction run with
  | nil =>
      exact distinct
  | cons taken _ inductionHypothesis =>
      obtain ⟨_, _, _, moved⟩ := taken.slotMoved
      exact inductionHypothesis
        (distinct.congr moved.symbols.libHandle fun item => by
          rw [moved.loopCounterLoc])

theorem BackRun.loopCounterLoc
    {target : Tid} {idxs : List Int} {before after : Tables}
    (run : BackRun target idxs before after) (item : Int) :
    after.loopCounterLoc item = before.loopCounterLoc item := by
  rw [loopCounterLoc_eq, run.symbols, loopCounterLoc_eq]

end Tables

namespace Config

/-- No scavenger with loop counters is among those that a step moves. -/
def MovesNoCounters (maxScavPerThread : Int) (config : Config)
    (action : Action) : Prop :=
  ∀ idx ∈ config.movedBy maxScavPerThread action,
    config.tables.loopCounterLoc idx = none

instance (maxScavPerThread : Int) (config : Config) (action : Action) :
    Decidable (config.MovesNoCounters maxScavPerThread action) :=
  inferInstanceAs (Decidable (∀ _ ∈ _, _))

/--
Each `loop_counter_loc` designates the area of its scavenger's position, and
the areas of two scavengers of one thread are disjoint.
-/
structure CountersPrivate (config : Config) : Prop where
  area :
    ∀ tid pos idx loc, config.HostedAt tid pos idx →
      config.tables.loopCounterLoc idx = some loc →
        loc = offsetofCounterArea pos
  disjoint :
    ∀ tid pos query idx other loc otherLoc,
      config.HostedAt tid pos idx → config.HostedAt tid query other →
      config.tables.loopCounterLoc idx = some loc →
      config.tables.loopCounterLoc other = some otherLoc →
        idx ≠ other → DisjointAreas loc otherLoc

/-- A scavenger that is moved continues with the counters it had. -/
def CountersCarried (before after : Config) : Prop :=
  ∀ idx tid pos other query values,
    before.HostedAt tid pos idx → after.HostedAt other query idx →
    (tid, pos) ≠ (other, query) →
    before.tables.counters tid idx = some values →
      after.tables.counters other idx = some values

/-- What `CountersPrivate` comes down to. -/
theorem Inv.countersPrivate
    {config : Config} (inv : config.Inv)
    (holds : config.tables.Everywhere CounterAt) :
    config.CountersPrivate := by
  have area :
      ∀ tid pos idx loc, config.HostedAt tid pos idx →
        config.tables.loopCounterLoc idx = some loc →
          loc = offsetofCounterArea pos := by
    intro tid pos idx loc hosted located
    rw [Tables.loopCounterLoc_eq] at located
    obtain ⟨lib, isLib, libLocated⟩ := Option.bind_eq_some_iff.mp located
    exact holds tid pos idx (inv.occupant_iff.mpr hosted) lib isLib loc
      libLocated
  refine ⟨area, ?_⟩
  intro tid pos query idx other loc otherLoc hosted otherHosted located
    otherLocated differs
  rw [area tid pos idx loc hosted located,
    area tid query other otherLoc otherHosted otherLocated]
  refine disjointAreas_of_ne ?_
  rintro rfl
  exact differs (hosted.2.1.symm.trans otherHosted.2.1)

/-- A scavenger that a step does not move stays at its slot. -/
theorem StepCase.occupant_of_not_moved
    {maxScavPerThread : Int} {config next : Config} {action : Action}
    (taken : StepCase maxScavPerThread config action next)
    (inv : config.Inv)
    {idx : Int} {slot slotAfter : Tid × Nat}
    (notMoved : idx ∉ config.movedBy maxScavPerThread action)
    (held : config.tables.occupant slot = some idx)
    (heldAfter : next.tables.occupant slotAfter = some idx) :
    slot = slotAfter := by
  have assignment := (taken.inv inv).hosting.assignment
  rcases taken.names inv with
    ⟨_, quiet⟩ | ⟨moved, tid, fromPos, toPos, one, slotMoved⟩ |
      ⟨_, moved, back, _, _, all, moves, backs, hosts⟩
  · exact inv.hosting.assignment.slotUnique held
      (quiet.occupant _ _ heldAfter)
  · rw [one, List.mem_singleton] at notMoved
    exact assignment.slotUnique
      (slotMoved.occupant_keeps notMoved held) heldAfter
  · rw [all, List.mem_append, not_or] at notMoved
    exact assignment.slotUnique
      (Tables.HostRun.occupant_keeps hosts
        (backs.occupant_keeps notMoved.2
          (moves.occupant_keeps notMoved.1 held)))
      heldAfter

/-- A step that moves no counters keeps every counter at its slot. -/
theorem StepCase.counters
    {maxScavPerThread : Int} {config next : Config} {action : Action}
    (taken : StepCase maxScavPerThread config action next)
    (inv : config.Inv) (distinct : config.tables.DistinctCounters)
    (holds : config.tables.Everywhere CounterAt)
    (movesNone : config.MovesNoCounters maxScavPerThread action) :
    next.tables.DistinctCounters ∧ next.tables.Everywhere CounterAt := by
  rcases taken.names inv with
    ⟨_, quiet⟩ | ⟨idx, _, _, _, one, moved⟩ |
      ⟨_, stolen, back, middle, last, all, moves, backs, hosts⟩
  · refine ⟨distinct.congr quiet.symbols.libHandle fun item => ?_,
      quiet.everywhere holds⟩
    rw [Tables.loopCounterLoc_eq, quiet.symbols.symbols_eq,
      Tables.loopCounterLoc_eq]
  · have noCounter := movesNone idx (one ▸ List.mem_singleton_self idx)
    refine ⟨distinct.congr moved.symbols.libHandle fun item => ?_,
      moved.counterAt noCounter holds⟩
    rw [moved.loopCounterLoc]
  · have lastHosting :=
      (Tables.LockedRun.slotRun backs.locked).hosting
        ((Tables.LockedRun.slotRun moves.locked).hosting inv.hosting)
    have stolenNone (idx : Int) (member : idx ∈ stolen) :
        config.tables.loopCounterLoc idx = none :=
      movesNone idx (all ▸ List.mem_append_left back member)
    have backNone (idx : Int) (member : idx ∈ back) :
        middle.loopCounterLoc idx = none := by
      rw [moves.loopCounterLoc]
      exact movesNone idx (all ▸ List.mem_append_right stolen member)
    have lastDistinct : last.DistinctCounters :=
      (moves.distinctCounters distinct).congr
        (fun item => by rw [backs.scavTable.1])
        (fun item => by rw [backs.loopCounterLoc])
    exact Tables.HostRun.counterAt hosts lastHosting lastDistinct
      (backs.counterAt backNone (moves.counterAt stolenNone holds))

/-- A step that moves no counters moves nothing that has any. -/
theorem StepCase.countersCarried
    {maxScavPerThread : Int} {config next : Config} {action : Action}
    (taken : StepCase maxScavPerThread config action next)
    (inv : config.Inv)
    (movesNone : config.MovesNoCounters maxScavPerThread action) :
    CountersCarried config next := by
  intro idx tid pos other query values hosted hostedAfter elsewhere counted
  have notMoved : idx ∉ config.movedBy maxScavPerThread action := by
    intro moved
    rw [Tables.counters, movesNone idx moved] at counted
    cases counted
  exact absurd
    (taken.occupant_of_not_moved inv notMoved
      (inv.occupant_iff.mpr hosted)
      ((taken.inv inv).occupant_iff.mpr hostedAfter))
    elsewhere

/--
From `msh_init` on, no library with loop counters being loaded twice: in a run
none of whose steps moves a scavenger with loop counters, the counters are
private in every state and every scavenger that is moved continues with the
counters it had.
-/
theorem countersPrivate_of_movesNoCounters
    {maxScavPerThread : Int} {pool : List PoolEntry} {config : Config}
    {run : List (Action × Config)}
    (initial : Initial pool config)
    (distinct : config.tables.DistinctCounters)
    (valid : FiniteRun (Step maxScavPerThread) config run)
    (movesNone : EveryStep (MovesNoCounters maxScavPerThread) config run) :
    (∀ entry ∈ run, entry.2.CountersPrivate) ∧
      EveryTransition CountersCarried config run := by
  have start :=
    (⟨initial.inv, distinct, initial.everywhere _⟩ :
      config.Inv ∧ config.tables.DistinctCounters ∧
        config.tables.Everywhere CounterAt)
  have kept :=
    valid.of_everyStep
      (fun state =>
        state.Inv ∧ state.tables.DistinctCounters ∧
          state.tables.Everywhere CounterAt)
      CountersCarried
      (fun before action after ⟨inv, distinct, holds⟩ guarded taken =>
        ⟨⟨taken.cases.inv inv,
          taken.cases.counters inv distinct holds guarded⟩,
          taken.cases.countersCarried inv guarded⟩)
      start movesNone
  exact ⟨fun entry member =>
    (kept.1 entry member).1.countersPrivate (kept.1 entry member).2.2,
    kept.2⟩

/-- Two scavengers with counters are allocated and write to them. -/
def countedTwo : List (Action × Config) :=
  (started twoScavs).trace 2
    [.allocCtx 0, .allocateScav 0, .initScavs 0, .countLoop 0 2 0 7,
      .schedNextCrt 0 40]

/-- Counters are private while two scavengers run and one finishes. -/
theorem countersPrivate_countedTwo :
    countedTwo.length = 5 ∧
      ∀ entry ∈ countedTwo, entry.2.CountersPrivate :=
  ⟨by decide +kernel,
    (countersPrivate_of_movesNoCounters (started_initial twoScavs)
      ((started_initial twoScavs).distinct (by decide)).counters
      (trace_valid 2 _ _) (by decide +kernel)).1⟩

/-- A pool of four scavengers. -/
def fourScavs : List PoolEntry :=
  [⟨0, 0, 0, [], none⟩, ⟨1, 0, 0, [], none⟩, ⟨2, 0, 0, [], none⟩,
    ⟨3, 0, 0, [], none⟩]

/--
Thread 1 hosts three scavengers and thread 0 one; both block, and thread 2
takes all four.
-/
def robbedTwo : Config :=
  startedRun 3 fourScavs
    [.allocCtx 1, .allocateScav 1, .initScavs 1,
      .allocCtx 0, .allocateScav 0, .initScavs 0,
      .enterBlockableCall 0, .enterBlockableCall 1,
      .allocCtx 2, .allocateScav 2]

/--
The scavengers that were first on their threads are now the first and the
fourth of one thread, and both count in its area 1.
-/
theorem robbedTwo_shared :
    (fourScavs.map (·.handle)).Nodup ∧
      Config.Reachable 3 fourScavs robbedTwo ∧
      robbedTwo.HostedAt 2 1 3 ∧ robbedTwo.HostedAt 2 4 0 ∧
      robbedTwo.tables.loopCounterLoc 3 = some 2836 ∧
      robbedTwo.tables.loopCounterLoc 0 = some 2836 ∧
      ¬ robbedTwo.CountersPrivate := by
  have first : robbedTwo.HostedAt 2 1 3 :=
    ⟨by decide, by decide +kernel, by decide⟩
  have fourth : robbedTwo.HostedAt 2 4 0 :=
    ⟨by decide, by decide +kernel, by decide⟩
  have firstLoc : robbedTwo.tables.loopCounterLoc 3 = some 2836 := by
    decide +kernel
  have fourthLoc : robbedTwo.tables.loopCounterLoc 0 = some 2836 := by
    decide +kernel
  refine ⟨by decide, startedRun_reachable 3 fourScavs _, first, fourth,
    firstLoc, fourthLoc, ?_⟩
  intro isPrivate
  have disjoint :=
    isPrivate.disjoint 2 1 4 3 0 2836 2836 first fourth firstLoc fourthLoc
      (by decide)
  revert disjoint
  unfold DisjointAreas
  decide

end Config

end Msh
