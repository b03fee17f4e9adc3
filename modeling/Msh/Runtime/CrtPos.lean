import Msh.Runtime.Symbols

namespace Msh

open Function BoundedSearch SlotAssignment TransitionSystem Config

/-!
# `crt_pos` and the slot it stands for

`crt_pos` is read in two places: the instrumented yield adds it to `gs`, and
`tl_sched_next_crt` divides it by the size of a yield context.  Both take it
for the byte offset that `set_scav_symbol` writes, whereas `tl_swap_crts` and
`realloc_scav` write the position itself and a rollback of `realloc_scav`
nothing.  A run keeps the two in step exactly as long as none of its steps
moves a scavenger.
-/

/-- `OffsetToSp` -/
abbrev offsetToSp : Nat := 0

/-- `OffsetToIp` -/
abbrev offsetToIp : Nat := 8

/-- `offsetof(struct primary_thread_ctx, ycs[pos])` -/
def offsetofYc (pos : Nat) : Nat :=
  sizeofYieldCtx * pos

/--
What the readers of `crt_pos` need for a scavenger at a position: the yield
stores `rsp` and the resume address in `ycs[pos]`, and the scheduler finishes
the slot `pos`, which is never the primary's.
-/
structure NamesSlot (pos : Nat) (crtPos : Int) : Prop where
  unit : crtPos = (sizeofYieldCtx : Int) * pos
  yieldSp : crtPos + offsetToSp = offsetofYc pos + offsetToSp
  yieldIp : crtPos + offsetToIp = offsetofYc pos + offsetToIp
  finishes : retCrtIdx crtPos.toNat = pos
  notPrimary : retCrtIdx crtPos.toNat ≠ 0

/-- The unit decides everything else. -/
theorem namesSlot_iff {pos : Nat} (isPos : ScavPos pos) (crtPos : Int) :
    NamesSlot pos crtPos ↔ crtPos = (sizeofYieldCtx : Int) * pos := by
  constructor
  · exact NamesSlot.unit
  · intro unit
    have index : retCrtIdx crtPos.toNat = pos := by
      have cast : crtPos.toNat = sizeofYieldCtx * pos := by
        rw [unit, ← Int.natCast_mul, Int.toNat_natCast]
      rw [cast, retCrtIdx]
      exact Nat.mul_div_cancel_left pos (by decide)
    refine ⟨unit, ?_, ?_, index, ?_⟩
    · rw [unit, offsetofYc, Int.natCast_mul]
    · rw [unit, offsetofYc, Int.natCast_mul]
    · have := isPos.1
      omega

/-- The symbols name the position, in bytes. -/
def CrtPosAt (pos : Nat) (symbols : Option LibSymbols) : Prop :=
  ∃ lib, symbols = some lib ∧
    lib.crtPos = (sizeofYieldCtx : Int) * pos

theorem crtPosAt_namedAt (ctx : CoroutineCtx) (pos : Nat)
    (lib : LibSymbols) :
    CrtPosAt pos (some (Tables.namedAt ctx pos lib)) := by
  refine ⟨_, rfl, ?_⟩
  simp only [Tables.namedAt]
  rw [Int.natCast_mul, Int.mul_comm]

/-- A position is not its own byte offset. -/
theorem not_crtPosAt_renamedTo
    {pos : Nat} (isPos : ScavPos pos) (symbols : Option LibSymbols) :
    ¬ CrtPosAt pos (symbols.map (Tables.renamedTo pos)) := by
  rintro ⟨lib, isRenamed, unit⟩
  obtain ⟨old, _, rfl⟩ := Option.map_eq_some_iff.mp isRenamed
  have lower := isPos.1
  have size : (sizeofYieldCtx : Int) = 20 := rfl
  simp only [Tables.renamedTo, size] at unit
  omega

namespace Tables

/-- A moved scavenger's symbol is out of step. -/
theorem SlotMoved.not_inStep
    {before after : Tables} {idx : Int}
    {source target : Tid} {fromPos toPos : Nat}
    (moved : SlotMoved before after idx source fromPos target toPos) :
    ¬ after.Everywhere CrtPosAt := by
  intro holds
  have named := holds target toPos idx moved.occupant_self
  rw [moved.symbols.self] at named
  exact not_crtPosAt_renamedTo moved.isPos _ named

/-- The pool loop does not put a moved scavenger's symbol right again. -/
theorem HostStep.not_inStep
    {target : Tid} {before after : Tables}
    (taken : HostStep target before after)
    (hosting : before.Hosting) (distinct : before.Distinct)
    (outOfStep : ¬ before.Everywhere CrtPosAt) :
    ¬ after.Everywhere CrtPosAt := by
  intro holds
  apply outOfStep
  intro tid pos item held
  have named := holds tid pos item (taken.occupant_keeps held)
  rwa [taken.symbols_of_held hosting distinct held] at named

/-- Some scavenger of a thread has a symbol that is out of step. -/
def OutOfStep (tables : Tables) (tid : Tid) : Prop :=
  ∃ pos idx, tables.occupant (tid, pos) = some idx ∧
    ¬ CrtPosAt pos (tables.symbols idx)

theorem OutOfStep.not_inStep
    {tables : Tables} {tid : Tid} (outOfStep : tables.OutOfStep tid) :
    ¬ tables.Everywhere CrtPosAt := by
  obtain ⟨pos, idx, held, notNamed⟩ := outOfStep
  exact fun holds => notNamed (holds tid pos idx held)

/-- A rollback does not touch the taker's scavengers. -/
theorem BackRun.outOfStep
    {target : Tid} {idxs : List Int} {before after : Tables}
    (run : BackRun target idxs before after)
    (outOfStep : before.OutOfStep target) :
    after.OutOfStep target := by
  induction run with
  | nil =>
      exact outOfStep
  | cons taken _ inductionHypothesis =>
      obtain ⟨pos, idx, held, notNamed⟩ := outOfStep
      refine inductionHypothesis ⟨pos, idx, ?_, ?_⟩
      · rwa [Tables.occupant, taken.other (.inl rfl)]
      · rwa [taken.symbols]

/-- It leaves a symbol out of step that was in step. -/
theorem BackRun.not_inStep
    {target : Tid} {idxs : List Int} {before after : Tables}
    (run : BackRun target idxs before after) (hosting : before.Hosting)
    (isBack : idxs ≠ []) (inStep : before.Everywhere CrtPosAt) :
    ¬ after.Everywhere CrtPosAt := by
  obtain ⟨tid, fromPos, toPos, idx, heldFrom, heldTo, below⟩ :=
    run.lowers hosting isBack
  intro holds
  obtain ⟨lib, isLib, unit⟩ := inStep tid fromPos idx heldFrom
  obtain ⟨libAfter, isLibAfter, unitAfter⟩ := holds tid toPos idx heldTo
  have size : (sizeofYieldCtx : Int) = 20 := rfl
  rw [run.symbols, isLib, Option.some.injEq] at isLibAfter
  rw [← isLibAfter, unit, size] at unitAfter
  omega

/-- The first loop leaves some symbol out of step if it moves anything. -/
theorem MoveRun.outOfStep
    {target : Tid} {idxs : List Int} {before after : Tables}
    (run : MoveRun target idxs before after)
    (moves : idxs ≠ []) :
    after.OutOfStep target := by
  induction run with
  | nil =>
      exact absurd rfl moves
  | @cons idx rest first second third taken restRun
      inductionHypothesis =>
      cases restRun with
      | nil =>
          obtain ⟨_, _, toPos, moved⟩ := taken.slotMoved
          refine ⟨toPos, idx, moved.occupant_self, ?_⟩
          rw [moved.symbols.self]
          exact not_crtPosAt_renamedTo moved.isPos _
      | cons =>
          exact inductionHypothesis (List.cons_ne_nil _ _)

/-- The second loop leaves it out of step. -/
theorem HostRun.not_inStep
    {target : Tid} {before after : Tables}
    (run : HostRun target before after)
    (hosting : before.Hosting) (distinct : before.Distinct)
    (outOfStep : ¬ before.Everywhere CrtPosAt) :
    ¬ after.Everywhere CrtPosAt := by
  induction run with
  | refl =>
      exact outOfStep
  | tail earlier taken inductionHypothesis =>
      exact taken.not_inStep
        ((LockedRun.slotRun (HostRun.locked earlier)).hosting hosting)
        (HostRun.distinct earlier distinct) inductionHypothesis

end Tables

namespace Config

/-- Every hosted scavenger's `crt_pos` names its slot. -/
def CrtPosInStep (config : Config) : Prop :=
  ∀ tid pos idx, config.HostedAt tid pos idx →
    ∃ lib, config.tables.symbols idx = some lib ∧
      NamesSlot pos lib.crtPos

theorem Inv.crtPosInStep_iff
    {config : Config} (inv : config.Inv) :
    config.CrtPosInStep ↔ config.tables.Everywhere CrtPosAt := by
  constructor
  · intro inStep tid pos idx held
    obtain ⟨lib, named, slot⟩ :=
      inStep tid pos idx (inv.occupant_iff.mp held)
    exact ⟨lib, named, slot.unit⟩
  · intro holds tid pos idx hosted
    have held := inv.occupant_iff.mpr hosted
    obtain ⟨lib, named, unit⟩ := holds tid pos idx held
    have isPos := (Tables.occupant_eq_some_iff.mp held).1
    exact ⟨lib, named, (namesSlot_iff isPos _).mpr unit⟩

/-- A step's effect on the loaded libraries keeps them distinct. -/
theorem StepCase.distinct
    {maxScavPerThread : Int} {config next : Config} {action : Action}
    (taken : StepCase maxScavPerThread config action next)
    (inv : config.Inv) (distinct : config.tables.Distinct) :
    next.tables.Distinct := by
  rcases taken.names inv with
    ⟨_, quiet⟩ | ⟨_, _, _, _, _, moved⟩ |
      ⟨_, _, _, _, _, _, moves, backs, hosts⟩
  · exact distinct.congr quiet.symbols.libHandle
  · exact distinct.congr moved.symbols.libHandle
  · exact Tables.HostRun.distinct hosts
      (backs.distinct (moves.distinct distinct))

/-- A locked section keeps the symbols in step exactly if it moves nothing. -/
theorem LockedMoves.inStep_iff
    {idxs : List Int} {before after : Tables}
    (locked : LockedMoves idxs before after)
    (hosting : before.Hosting) (distinct : before.Distinct)
    (inStep : before.Everywhere CrtPosAt) :
    after.Everywhere CrtPosAt ↔ idxs = [] := by
  obtain ⟨tid, moved, back, middle, last, rfl, moves, backs, hosts⟩ := locked
  have middleHosting :=
    (Tables.LockedRun.slotRun moves.locked).hosting hosting
  have lastHosting :=
    (Tables.LockedRun.slotRun backs.locked).hosting middleHosting
  have lastDistinct := backs.distinct (moves.distinct distinct)
  rw [List.append_eq_nil_iff]
  by_cases noneMoved : moved = []
  · subst noneMoved
    cases moves
    by_cases noneBack : back = []
    · subst noneBack
      cases backs
      exact iff_of_true
        (Tables.HostRun.everywhere hosts hosting distinct inStep
          crtPosAt_namedAt) ⟨rfl, rfl⟩
    · exact iff_of_false
        (Tables.HostRun.not_inStep hosts lastHosting lastDistinct
          (backs.not_inStep hosting noneBack inStep))
        fun none => noneBack none.2
  · exact iff_of_false
      (Tables.HostRun.not_inStep hosts lastHosting lastDistinct
        (backs.outOfStep (moves.outOfStep noneMoved)).not_inStep)
      fun none => noneMoved none.1

/-- After a step the symbols are in step exactly if it moved nothing. -/
theorem StepCase.inStep_iff
    {maxScavPerThread : Int} {config next : Config} {action : Action}
    (taken : StepCase maxScavPerThread config action next)
    (inv : config.Inv) (distinct : config.tables.Distinct)
    (inStep : config.tables.Everywhere CrtPosAt) :
    next.tables.Everywhere CrtPosAt ↔
      config.movedBy maxScavPerThread action = [] := by
  rcases taken.names inv with
    ⟨none, quiet⟩ | ⟨idx, _, _, _, one, moved⟩ | locked
  · exact iff_of_true (quiet.everywhere inStep) none
  · rw [one]
    exact iff_of_false moved.not_inStep (List.cons_ne_nil _ _)
  · exact locked.inStep_iff inv.hosting distinct inStep

/-- The libraries of the pool are distinct when their handles are. -/
theorem Initial.distinct
    {pool : List PoolEntry} {config : Config}
    (initial : Initial pool config)
    (nodup : (pool.map (·.handle)).Nodup) :
    config.tables.Distinct := by
  obtain ⟨tables, static, rfl⟩ := initial
  have loaded :
      ∀ idx handle, Tables.ScavIdx idx →
        ((tables.mshInit pool).scavTable idx).libHandle = some handle →
          (pool.map (·.handle))[idx.toNat]? = some handle := by
    intro idx handle inTable isLoaded
    have nonneg : ¬ idx < 0 := by
      have := inTable.1
      omega
    simp only [Tables.mshInit, nonneg, ↓reduceIte] at isLoaded
    split at isLoaded
    · next entry atEntry =>
        rw [List.getElem?_map, atEntry]
        exact isLoaded
    · cases isLoaded
  intro first second handle firstInTable secondInTable
    firstLoaded secondLoaded
  have atFirst := loaded first handle firstInTable firstLoaded
  have atSecond := loaded second handle secondInTable secondLoaded
  have sameIndex :=
    (List.getElem?_inj (List.getElem?_eq_some_iff.mp atFirst).1 nodup).mp
      (atFirst.trans atSecond.symm)
  have := firstInTable.1
  have := secondInTable.1
  omega

/-- No scavenger is hosted once `msh_init` has run. -/
theorem Initial.everywhere
    {pool : List PoolEntry} {config : Config}
    (initial : Initial pool config)
    (P : Nat → Option LibSymbols → Prop) :
    config.tables.Everywhere P := by
  obtain ⟨tables, static, rfl⟩ := initial
  intro tid pos idx held
  obtain ⟨isPos, atPos, notSentinel⟩ :=
    Tables.occupant_eq_some_iff.mp held
  have inRange := isPos.2
  simp [Tables.mshInit, PrimaryThreadCtx.initPrimTableEntry,
    inRange] at atPos
  exact absurd atPos.symm notSentinel

/--
From `msh_init` on, with distinct libraries: the symbols of all hosted
scavengers name their slots throughout a run exactly when no step of the run
moves a scavenger.
-/
theorem crtPosInStep_iff_nothingMoved
    {maxScavPerThread : Int} {pool : List PoolEntry} {config : Config}
    {run : List (Action × Config)}
    (nodup : (pool.map (·.handle)).Nodup)
    (initial : Initial pool config)
    (valid : FiniteRun (Step maxScavPerThread) config run) :
    (∀ entry ∈ run, entry.2.CrtPosInStep) ↔
      EveryStep
        (fun before action => before.movedBy maxScavPerThread action = [])
        config run := by
  refine FiniteRun.forall_states_iff_everyStep
    (fun state =>
      state.Inv ∧ state.tables.Distinct ∧
        state.tables.Everywhere CrtPosAt)
    ?_ ?_ valid ⟨initial.inv, initial.distinct nodup, initial.everywhere _⟩
  · rintro before action after ⟨inv, distinct, inStep⟩ nothingMoved taken
    exact ⟨taken.cases.inv inv, taken.cases.distinct inv distinct,
      (taken.cases.inStep_iff inv distinct inStep).mpr nothingMoved⟩
  · rintro before action after ⟨inv, distinct, inStep⟩ taken
    rw [(taken.cases.inv inv).crtPosInStep_iff]
    exact taken.cases.inStep_iff inv distinct inStep

/-- One thread allocates two scavengers. -/
def allocatedTwo : List (Action × Config) :=
  (started twoScavs).trace 2
    [.allocCtx 0, .allocateScav 0, .initScavs 0]

/-- After the allocation alone both symbols name their slots. -/
theorem crtPosInStep_allocatedTwo :
    allocatedTwo.length = 3 ∧
      ∀ entry ∈ allocatedTwo, entry.2.CrtPosInStep :=
  ⟨by decide +kernel,
    (crtPosInStep_iff_nothingMoved (by decide)
      (started_initial twoScavs) (trace_valid 2 _ _)).mpr
        (by decide +kernel)⟩

/-- The first of two scavengers finishes and the second takes its slot. -/
def packedSecond : Config :=
  startedRun 2 twoScavs
    [.allocCtx 0, .allocateScav 0, .initScavs 0, .schedNextCrt 0 20,
      .packCrts 0]

/--
Packing writes the position `1`, not its byte offset, into the symbol of the
scavenger it moves; when that scavenger returns it, the scheduler takes the
primary for finished.
-/
theorem packedSecond_outOfStep :
    (twoScavs.map (·.handle)).Nodup ∧
      Config.Reachable 2 twoScavs packedSecond ∧
      packedSecond.HostedAt 0 1 1 ∧
      (packedSecond.tables.libs 1).crtPos = 1 ∧
      retCrtIdx 1 = 0 ∧
      ¬ packedSecond.CrtPosInStep := by
  have hosted : packedSecond.HostedAt 0 1 1 :=
    ⟨by decide, by decide +kernel, by decide⟩
  have crtPos :
      (packedSecond.tables.symbols 1).map (·.crtPos) = some 1 := by
    decide +kernel
  refine ⟨by decide, startedRun_reachable 2 twoScavs _, hosted,
    by decide +kernel, by decide, ?_⟩
  intro inStep
  obtain ⟨lib, named, slot⟩ := inStep 0 1 1 hosted
  rw [named, Option.map_some, Option.some.injEq] at crtPos
  exact absurd (crtPos.symm.trans slot.unit) (by decide)

end Config

end Msh
