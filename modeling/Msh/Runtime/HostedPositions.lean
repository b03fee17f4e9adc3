import Msh.Runtime.SlotRecords

namespace Msh

open Function BoundedSearch Config

/-!
# The positions that host scavengers

`need_more_scav` counts the occupied positions of a list, `pop_back_from_list`
takes the last of them and `push_back_to_list` fills the first free one.  A
list may have free positions between occupied ones: a thread whose primary is
marked as finished no longer packs its scavengers.
-/

namespace PrimaryThreadCtx

/-- The positions at which a thread hosts scavengers, in increasing order. -/
def hostedPositions (ctx : PrimaryThreadCtx) : List Nat :=
  (List.range' 1 maxCrtPerThread).filter fun pos => ctx.idxList pos ≠ -1

variable {ctx after : PrimaryThreadCtx} {pos fromPos toPos : Nat}

theorem mem_hostedPositions :
    pos ∈ ctx.hostedPositions ↔ ScavPos pos ∧ ctx.idxList pos ≠ -1 := by
  simp only [hostedPositions, List.mem_filter, List.mem_range'_1,
    decide_eq_true_eq, ScavPos]
  omega

theorem hostedPositions_nodup : ctx.hostedPositions.Nodup :=
  hits_nodup

theorem hostedPositions_length (ctx : PrimaryThreadCtx) :
    ctx.hostedPositions.length = ctx.hostedCount :=
  List.countP_eq_length_filter.symm

/-- A thread hosts as many scavengers as it has positions, or fewer. -/
theorem hostedCount_le (ctx : PrimaryThreadCtx) :
    ctx.hostedCount ≤ maxCrtPerThread := by
  have bound : ctx.hostedCount ≤ (List.range' 1 maxCrtPerThread).length :=
    List.countP_le_length
  rwa [List.length_range'] at bound

/-- Both depend on the list's positions only. -/
theorem hostedPositions_congr
    (same : ∀ pos, ScavPos pos → after.idxList pos = ctx.idxList pos) :
    after.hostedPositions = ctx.hostedPositions := by
  refine List.filter_congr fun pos member => ?_
  rw [List.mem_range'_1] at member
  rw [same pos ⟨member.1, by omega⟩]

theorem hostedCount_congr
    (same : ∀ pos, ScavPos pos → after.idxList pos = ctx.idxList pos) :
    after.hostedCount = ctx.hostedCount := by
  rw [← hostedPositions_length, hostedPositions_congr same,
    hostedPositions_length]

/-- `pop_back_from_list` takes the last of the hosted positions. -/
theorem lastOccupied_eq (ctx : PrimaryThreadCtx) :
    lastOccupied ctx.idxList = ctx.hostedPositions.getLast? :=
  findDown_eq_getLast?

/-- It takes nothing exactly from a thread without scavengers. -/
theorem lastOccupied_eq_none_iff :
    lastOccupied ctx.idxList = none ↔ ctx.hostedCount = 0 := by
  rw [lastOccupied_eq, List.getLast?_eq_none_iff, ← hostedPositions_length,
    List.length_eq_zero_iff]

theorem lastOccupied_eq_some_iff :
    lastOccupied ctx.idxList = some pos ↔
      ScavPos pos ∧ ctx.idxList pos ≠ -1 ∧
        ∀ later, pos < later → later ≤ maxCrtPerThread →
          ctx.idxList later = -1 := by
  unfold lastOccupied
  rw [findDown_eq_some_iff]
  simp only [decide_eq_true_eq, decide_eq_false_iff_not, not_not, ScavPos]
  constructor
  · rintro ⟨held, lower, upper, free⟩
    exact ⟨⟨lower, by omega⟩, held,
      fun later after inRange => free later after (by omega)⟩
  · rintro ⟨⟨lower, upper⟩, held, free⟩
    exact ⟨held, lower, by omega,
      fun later after inRange => free later after (by omega)⟩

theorem firstFree_eq_some_iff :
    firstFree ctx.idxList = some pos ↔
      ScavPos pos ∧ ctx.idxList pos = -1 ∧
        ∀ earlier, 1 ≤ earlier → earlier < pos →
          ctx.idxList earlier ≠ -1 := by
  unfold firstFree
  rw [findUp_eq_some_iff]
  simp only [decide_eq_true_eq, decide_eq_false_iff_not, ScavPos]
  constructor
  · rintro ⟨free, lower, upper, held⟩
    exact ⟨⟨lower, by omega⟩, free, held⟩
  · rintro ⟨⟨lower, upper⟩, free, held⟩
    exact ⟨free, lower, by omega, held⟩

/-- `push_back_to_list` finds no place exactly in a full list. -/
theorem firstFree_eq_none_iff :
    firstFree ctx.idxList = none ↔ ctx.hostedCount = maxCrtPerThread := by
  have searched :
      firstFree ctx.idxList =
        findUp 1 maxCrtPerThread
          fun pos => !decide (ctx.idxList pos ≠ -1) := by
    simp [firstFree]
  rw [searched, findUp_not_eq_none_iff, ← hostedPositions_length]
  rfl

/-- The last position goes when its scavenger is taken. -/
theorem hostedPositions_pop
    (isLast : lastOccupied ctx.idxList = some fromPos)
    (popped :
      ∀ pos, after.idxList pos =
        if pos = fromPos then -1 else ctx.idxList pos) :
    after.hostedPositions = ctx.hostedPositions.dropLast := by
  refine hits_clear_last isLast fun pos => ?_
  rw [popped]
  by_cases here : pos = fromPos
  · simp [here]
  · simp [here]

theorem hostedCount_pop
    (isLast : lastOccupied ctx.idxList = some fromPos)
    (popped :
      ∀ pos, after.idxList pos =
        if pos = fromPos then -1 else ctx.idxList pos) :
    after.hostedCount + 1 = ctx.hostedCount := by
  have some : ctx.hostedCount ≠ 0 := by
    rw [Ne, ← lastOccupied_eq_none_iff, isLast]
    exact nofun
  rw [← hostedPositions_length, hostedPositions_pop isLast popped,
    List.length_dropLast, hostedPositions_length]
  omega

/-- A thread hosts one scavenger more when a free position is filled. -/
theorem hostedCount_push
    (isPos : ScavPos toPos) (free : ctx.idxList toPos = -1)
    {idx : Int} (notSentinel : idx ≠ -1)
    (pushed :
      ∀ pos, after.idxList pos =
        if pos = toPos then idx else ctx.idxList pos) :
    after.hostedCount = ctx.hostedCount + 1 := by
  rw [← hostedPositions_length, ← hostedPositions_length]
  have upper := isPos.2
  refine length_hits_set ⟨isPos.1, by omega⟩ (by simpa using free)
    fun pos => ?_
  rw [pushed]
  by_cases here : pos = toPos
  · simp [here, notSentinel]
  · simp [here]

/-- The last position is that of the count when all before it are occupied. -/
theorem hostedCount_eq_last_iff
    (isLast : lastOccupied ctx.idxList = some fromPos) :
    ctx.hostedCount = fromPos ↔
      ∀ pos, 1 ≤ pos → pos < fromPos → ctx.idxList pos ≠ -1 := by
  obtain ⟨isPos, held, free⟩ := lastOccupied_eq_some_iff.mp isLast
  have upper := isPos.2
  have upTo :
      ctx.hostedPositions =
        hits 1 fromPos fun pos => decide (ctx.idxList pos ≠ -1) := by
    have split :
        List.range' 1 maxCrtPerThread =
          List.range' 1 fromPos ++
            List.range' (1 + fromPos) (maxCrtPerThread - fromPos) := by
      rw [List.range'_append_1]
      congr 1
      omega
    have noneLater :
        (List.range' (1 + fromPos) (maxCrtPerThread - fromPos)).filter
          (fun pos => ctx.idxList pos ≠ -1) = [] := by
      refine List.filter_eq_nil_iff.mpr fun pos member => ?_
      rw [List.mem_range'_1] at member
      simpa using free pos (by omega) (by omega)
    rw [hostedPositions, split, List.filter_append, noneLater,
      List.append_nil, hits]
  rw [← hostedPositions_length, upTo, ← findUp_not_eq_none_iff,
    findUp_eq_none_iff]
  simp only [Bool.not_eq_false', decide_eq_true_eq]
  constructor
  · intro all pos lower below
    exact all pos lower (by omega)
  · intro before pos lower within
    by_cases isFrom : pos = fromPos
    · rw [isFrom]
      exact held
    · exact before pos lower (by omega)

end PrimaryThreadCtx

end Msh
