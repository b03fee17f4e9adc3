import Msh.Runtime.Ownership

namespace Msh

open Function BoundedSearch SlotAssignment Config

/-!
# The entries of the scavenger table that packing uses

Each call that `tl_pack_crts` makes of `tl_swap_crts` has one free position.
Its index is the sentinel, at which two of the four uses are not guarded.
-/

namespace PrimaryThreadCtx

/-- The indices of `SCAV_TABLE` that `tl_swap_crts` uses, in its order. -/
def swapAccesses (ctx : PrimaryThreadCtx) (aPos bPos : Nat) : List Int :=
  let aIdx := ctx.tlGetCrtIdxAt aPos
  let bIdx := ctx.tlGetCrtIdxAt bPos
  -- the back pointers, then the library handles
  [aIdx, bIdx] ++ (if aIdx ≠ -1 then [aIdx] else []) ++
    if bIdx ≠ -1 then [bIdx] else []

/-- Those of the call that the loop of `tl_pack_crts` makes at a position. -/
def packAccesses (ctx : PrimaryThreadCtx) (pos : Nat) : List Int :=
  if ctx.tlGetCrtIdxAt pos = -1 then
    match ctx.nextOccupied pos with
    | some nextPos => ctx.swapAccesses pos nextPos
    | none => []
  else []

/-- A free position is followed by an occupied one. -/
def HoleAt (ctx : PrimaryThreadCtx) (pos : Nat) : Prop :=
  ctx.idxList pos = -1 ∧
    ∃ later, pos < later ∧ later ≤ maxCrtPerThread ∧
      ctx.idxList later ≠ -1

/-- The accesses at a hole, and at a position that needs no packing. -/
theorem packAccesses_cases (ctx : PrimaryThreadCtx) {pos : Nat}
    (isPos : ScavPos pos) :
    (¬ ctx.HoleAt pos ∧ ctx.packAccesses pos = []) ∨
      ∃ nextPos, ctx.HoleAt pos ∧ ScavPos nextPos ∧
        ctx.idxList nextPos ≠ -1 ∧
        ctx.packAccesses pos =
          [-1, ctx.idxList nextPos, ctx.idxList nextPos] := by
  unfold packAccesses
  rw [Tables.tlGetCrtIdxAt_of_le ctx isPos.2]
  by_cases free : ctx.idxList pos = -1
  · rw [if_pos free]
    cases found : ctx.nextOccupied pos with
    | none =>
        left
        refine ⟨?_, rfl⟩
        rintro ⟨_, later, behind, inRange, held⟩
        unfold nextOccupied at found
        have searched :=
          findUp_eq_none_iff.mp found later (by omega) (by omega)
        rw [Tables.tlGetCrtIdxAt_of_le ctx inRange] at searched
        exact held (by simpa using searched)
    | some nextPos =>
        right
        unfold nextOccupied at found
        obtain ⟨held, lower, upper, _⟩ := findUp_eq_some_iff.mp found
        have inRange : nextPos ≤ maxCrtPerThread := by
          have := isPos.2
          omega
        rw [Tables.tlGetCrtIdxAt_of_le ctx inRange] at held
        have occupied : ctx.idxList nextPos ≠ -1 := by simpa using held
        refine ⟨nextPos, ⟨free, nextPos, lower, inRange, occupied⟩,
          ⟨by omega, inRange⟩, occupied, ?_⟩
        simp only [swapAccesses, Tables.tlGetCrtIdxAt_of_le ctx isPos.2,
          Tables.tlGetCrtIdxAt_of_le ctx inRange, free]
        simp [occupied]
  · rw [if_neg free]
    exact .inl ⟨fun hole => free hole.1, rfl⟩

end PrimaryThreadCtx

namespace Tables

/-- A swap leaves the entries that it does not use as they are. -/
theorem tlSwapCrts_of_notAccessed
    {tables : Tables} {tid : Tid} {aPos bPos : Nat} {idx : Int}
    (notAccessed : idx ∉ (tables.primTable tid).swapAccesses aPos bPos) :
    (tables.tlSwapCrts tid aPos bPos).scavTable idx =
      tables.scavTable idx := by
  simp only [PrimaryThreadCtx.swapAccesses, List.mem_append, List.mem_cons,
    not_or] at notAccessed
  obtain ⟨⟨⟨notA, notB, _⟩, _⟩, _⟩ := notAccessed
  simp only [tlSwapCrts]
  split <;> split <;>
    simp [updateScav_of_ne _ _ notA, updateScav_of_ne _ _ notB]

end Tables

namespace Config

/-- Only the sentinel is not an index of `SCAV_TABLE`. -/
theorem Inv.packAccesses_inTable
    {config : Config} (inv : config.Inv) {tid : Tid} {pos : Nat}
    (isPos : ScavPos pos) {idx : Int}
    (accessed : idx ∈ (config.tables.primTable tid).packAccesses pos) :
    idx = -1 ∨ Tables.ScavIdx idx := by
  rcases (config.tables.primTable tid).packAccesses_cases isPos with
    ⟨_, none⟩ | ⟨nextPos, _, isNext, held, accesses⟩
  · rw [none] at accessed
    cases accessed
  · have isIdx :=
      inv.hosting.inTable
        (Tables.occupant_eq_some_iff.mpr ⟨isNext, rfl, held⟩)
    rw [accesses] at accessed
    simp only [List.mem_cons, List.not_mem_nil, or_false, or_self]
      at accessed
    rcases accessed with isSentinel | isNextIdx
    · exact .inl isSentinel
    · rw [isNextIdx]
      exact .inr isIdx

/--
In every reachable state, an iteration of `tl_pack_crts` stays inside
`SCAV_TABLE` exactly when it makes no call of `tl_swap_crts`, that is, when
its position is not a hole.
-/
theorem packAccesses_inTable_iff
    {maxScavPerThread : Int} {pool : List PoolEntry} {config : Config}
    (reachable : Config.Reachable maxScavPerThread pool config)
    {tid : Tid} {pos : Nat}
    (isPacking : config.phase tid = .packing pos)
    (inLoop : pos ≤ maxCrtPerThread) :
    (∀ idx ∈ (config.tables.primTable tid).packAccesses pos,
        Tables.ScavIdx idx) ↔
      ¬ (config.tables.primTable tid).HoleAt pos := by
  have inv := Reachable.inv reachable
  have isPos : ScavPos pos := ⟨inv.packing tid pos isPacking, inLoop⟩
  rcases (config.tables.primTable tid).packAccesses_cases isPos with
    ⟨noHole, none⟩ | ⟨nextPos, hole, _, _, accesses⟩
  · rw [none]
    exact iff_of_true (fun _ member => nomatch member) noHole
  · rw [accesses]
    refine iff_of_false ?_ (not_not_intro hole)
    intro inTable
    exact (inTable (-1) List.mem_cons_self).ne_sentinel rfl

/-- The second of two scavengers finishes, and no hole is left. -/
def finishedLast : Config :=
  startedRun 2 twoScavs
    [.allocCtx 0, .allocateScav 0, .initScavs 0, .schedNextCrt 0 40]

theorem packAccesses_inTable_finishedLast :
    finishedLast.phase 0 = .packing 1 ∧
      ∀ idx ∈ (finishedLast.tables.primTable 0).packAccesses 1,
        Tables.ScavIdx idx := by
  have isPacking : finishedLast.phase 0 = .packing 1 := by
    decide +kernel
  have inLoop : 1 ≤ maxCrtPerThread := by
    decide
  have reachable : Config.Reachable 2 twoScavs finishedLast :=
    startedRun_reachable 2 twoScavs _
  refine ⟨isPacking,
    (packAccesses_inTable_iff reachable isPacking inLoop).mpr ?_⟩
  rintro ⟨free, _⟩
  exact absurd free (by decide +kernel)

/-- The first of two scavengers finishes, and the swap uses the sentinel. -/
theorem finishedFirst_outOfTable :
    Config.Reachable 2 twoScavs finishedFirst ∧
      finishedFirst.phase 0 = .packing 1 ∧
      (finishedFirst.tables.primTable 0).packAccesses 1 = [-1, 1, 1] ∧
      ((finishedFirst.tables.packAt 0 1).scavTable (-1)).yc =
        some (0, 2) ∧
      ¬ ∀ idx ∈ (finishedFirst.tables.primTable 0).packAccesses 1,
        Tables.ScavIdx idx := by
  have accesses :
      (finishedFirst.tables.primTable 0).packAccesses 1 = [-1, 1, 1] := by
    decide +kernel
  refine ⟨startedRun_reachable 2 twoScavs _, by decide +kernel, accesses,
    by decide +kernel, ?_⟩
  rw [accesses]
  decide

end Config

end Msh
