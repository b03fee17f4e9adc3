import Mathlib.Algebra.BigOperators.Ring.List
import Mathlib.Algebra.Order.BigOperators.Group.List
import Mathlib.Tactic.FieldSimp
import Mathlib.Tactic.Linarith
import Msh.Bolt.YieldDistance

/-!
# What joining makes of distances

Each addition to a joined distance is cut off to an integer, so that of every
part of the weighted mean only its integral part counts.  The joined distance
is never above all distances, and not below all of them if and only if the
mean has as much above the least distance as the fractions add up to.
-/

namespace Msh.YieldDistanceAnalysis

/-! ## Sums that are cut off -/

/-- A sum that is cut off at each addition -/
theorem toNat_foldl_addTruncated {amounts : List ℚ} {start : BitVec 64}
    (notNegative : ∀ amount ∈ amounts, 0 ≤ amount)
    (fits : start.toNat + amounts.sum < 2 ^ 64) :
    (amounts.foldl addTruncated start).toNat =
      start.toNat + (amounts.map fun amount => ⌊amount⌋₊).sum := by
  induction amounts generalizing start with
  | nil =>
      simp
  | cons amount rest inductionHypothesis =>
      have restNotNegative :
          ∀ amount ∈ rest, 0 ≤ amount := fun other member =>
        notNegative other (List.mem_cons_of_mem _ member)
      have isNotNegative := notNegative amount List.mem_cons_self
      have sumNotNegative := List.sum_nonneg restNotNegative
      rw [List.sum_cons] at fits
      have floorLe := Nat.floor_le isNotNegative
      have added :
          (addTruncated start amount).toNat = start.toNat + ⌊amount⌋₊ := by
        have isLess : start.toNat + ⌊amount⌋₊ < 2 ^ 64 := by
          have asRat : ((start.toNat + ⌊amount⌋₊ : Nat) : ℚ) < (2 ^ 64 : Nat) := by
            push_cast
            linarith
          exact_mod_cast asRat
        rw [addTruncated, BitVec.toNat_ofNat, add_comm (start.toNat : ℚ),
          Nat.floor_add_natCast isNotNegative, Nat.add_comm,
          Nat.mod_eq_of_lt isLess]
      have ofRest := @inductionHypothesis (addTruncated start amount)
        restNotNegative (by
          rw [added]
          push_cast
          linarith)
      rw [List.foldl_cons, ofRest, added, List.map_cons, List.sum_cons,
        Nat.add_assoc]

/-- The integral parts of amounts, by what is cut off -/
theorem sum_floor {amounts : List ℚ}
    (notNegative : ∀ amount ∈ amounts, 0 ≤ amount) :
    ((amounts.map fun amount => ⌊amount⌋₊).sum : ℚ) =
      amounts.sum - (amounts.map Int.fract).sum := by
  induction amounts with
  | nil =>
      simp
  | cons amount rest inductionHypothesis =>
      have ofRest := inductionHypothesis fun other member =>
        notNegative other (List.mem_cons_of_mem _ member)
      have isNotNegative := notNegative amount List.mem_cons_self
      have isFloor : ((⌊amount⌋₊ : Nat) : ℚ) = amount - Int.fract amount := by
        rw [Int.self_sub_fract, natCast_floor_eq_intCast_floor isNotNegative]
      simp only [List.map_cons, List.sum_cons, Nat.cast_add, ofRest, isFloor]
      ring

/-! ## Shares -/

section Shares

variable (weights : PredecessorWeight) (entries : List YieldDistance)

/-- The entries that are taken into account -/
def considered : List YieldDistance :=
  if entries.any (hasPredProf weights) then
    entries.filter (hasPredProf weights)
  else entries

/-- The share of an entry in the joined distance -/
def share (entry : YieldDistance) : ℚ :=
  if entries.any (hasPredProf weights) then
    (weights.get? entry.curBB).getD 0 / sumWeight weights entries
  else 1 / entries.length

/-- What each entry adds to the weighted mean -/
def parts : List ℚ :=
  (considered weights entries).map fun entry =>
    entry.distance.toNat * share weights entries entry

/-- The weighted mean of the distances -/
def weightedMean : ℚ :=
  (parts weights entries).sum

/-- The fractions that are cut off the parts -/
def cutOff : ℚ :=
  ((parts weights entries).map Int.fract).sum

end Shares

/-- All weights are positive. -/
def PositiveWeights (weights : PredecessorWeight) : Prop :=
  ∀ bb weight, weights.get? bb = some weight → 0 < weight

section Join

variable {weights : PredecessorWeight} {entries : List YieldDistance}

theorem sumWeight_eq :
    sumWeight weights entries =
      ((entries.filter (hasPredProf weights)).map fun entry =>
        (weights.get? entry.curBB).getD 0).sum := by
  unfold sumWeight
  induction entries with
  | nil =>
      rfl
  | cons entry rest inductionHypothesis =>
      cases found : weights.get? entry.curBB with
      | none =>
          have noProf : hasPredProf weights entry = false := by
            simp [hasPredProf, found]
          simp only [List.filterMap_cons, found, inductionHypothesis,
            List.filter_cons, noProf, Bool.false_eq_true, ↓reduceIte]
      | some weight =>
          have prof : hasPredProf weights entry = true := by
            simp [hasPredProf, found]
          simp only [List.filterMap_cons, found, List.sum_cons,
            inductionHypothesis, List.filter_cons, prof, ↓reduceIte,
            List.map_cons, Option.getD_some]

theorem sumWeight_pos (positive : PositiveWeights weights)
    (some : entries.any (hasPredProf weights) = true) :
    0 < sumWeight weights entries := by
  rw [sumWeight_eq]
  obtain ⟨entry, member, prof⟩ := List.any_eq_true.mp some
  apply List.sum_pos
  · intro weight isWeight
    obtain ⟨other, inFilter, rfl⟩ := List.mem_map.mp isWeight
    have ofOther := (List.mem_filter.mp inFilter).2
    obtain ⟨found, isFound⟩ := Option.isSome_iff_exists.mp ofOther
    rw [isFound]
    exact positive _ _ isFound
  · rw [Ne, List.map_eq_nil_iff]
    exact List.ne_nil_of_mem (List.mem_filter.mpr ⟨member, prof⟩)

theorem share_nonneg (positive : PositiveWeights weights)
    (entry : YieldDistance) : 0 ≤ share weights entries entry := by
  unfold share
  split
  · next some =>
      refine div_nonneg ?_ (sumWeight_pos positive some).le
      cases found : weights.get? entry.curBB with
      | none => exact le_rfl
      | some weight => exact (positive _ _ found).le
  · positivity

/-- The shares add up to one. -/
theorem sum_share (positive : PositiveWeights weights)
    (notEmpty : entries ≠ []) :
    ((considered weights entries).map (share weights entries)).sum = 1 := by
  unfold considered share
  cases some : entries.any (hasPredProf weights) with
  | true =>
      have isPositive := sumWeight_pos positive some
      simp only [↓reduceIte, div_eq_mul_inv]
      rw [List.sum_map_mul_right, ← sumWeight_eq]
      exact mul_inv_cancel₀ isPositive.ne'
  | false =>
      have length : (entries.length : ℚ) ≠ 0 := by
        exact_mod_cast List.length_eq_zero_iff.not.mpr notEmpty
      simp only [Bool.false_eq_true, ↓reduceIte, List.map_const',
        List.sum_replicate, nsmul_eq_mul]
      field_simp

theorem parts_nonneg (positive : PositiveWeights weights) :
    ∀ part ∈ parts weights entries, 0 ≤ part := by
  intro part member
  obtain ⟨entry, -, rfl⟩ := List.mem_map.mp member
  exact mul_nonneg (Nat.cast_nonneg _) (share_nonneg positive entry)

/-- A mean is not above what all are not above. -/
theorem weightedMean_le (positive : PositiveWeights weights)
    (notEmpty : entries ≠ []) {bound : ℚ}
    (atMost :
      ∀ entry ∈ considered weights entries, entry.distance.toNat ≤ bound) :
    weightedMean weights entries ≤ bound := by
  calc weightedMean weights entries
      ≤ ((considered weights entries).map fun entry =>
          bound * share weights entries entry).sum := by
        refine List.sum_le_sum fun entry member => ?_
        exact mul_le_mul_of_nonneg_right (atMost entry member)
          (share_nonneg positive entry)
    _ = bound := by
        rw [List.sum_map_mul_left]
        have shares := sum_share positive notEmpty
        rw [shares, mul_one]

/-- The distance that is appended is the sum of the parts, each cut off. -/
theorem distance_joinEntries (bb yieldPoint : Nat) :
    (joinEntries weights bb (yieldPoint, entries)).distance =
      (parts weights entries).foldl addTruncated 0 := by
  have alike (part : YieldDistance → ℚ) (items : List YieldDistance)
      (start : YieldDistance) :
      (items.foldl
          (fun joined entry =>
            ⟨entry.yieldPoint, addTruncated joined.distance (part entry),
              bb⟩) start).distance =
        (items.map part).foldl addTruncated start.distance := by
    induction items generalizing start with
    | nil => rfl
    | cons entry rest inductionHypothesis => exact inductionHypothesis _
  have weighted (sum : ℚ)
      (append : YieldDistance → YieldDistance → YieldDistance)
      (skips : ∀ joined entry, weights.get? entry.curBB = none →
        append joined entry = joined)
      (adds : ∀ joined entry weight,
        weights.get? entry.curBB = some weight →
          (append joined entry).distance =
            addTruncated joined.distance
              (entry.distance.toNat * (weight / sum)))
      (items : List YieldDistance) (start : YieldDistance) :
      (items.foldl append start).distance =
        ((items.filter (hasPredProf weights)).map fun entry =>
            entry.distance.toNat *
              ((weights.get? entry.curBB).getD 0 / sum)).foldl
          addTruncated start.distance := by
    induction items generalizing start with
    | nil => rfl
    | cons entry rest inductionHypothesis =>
        rw [List.foldl_cons, inductionHypothesis]
        cases found : weights.get? entry.curBB with
        | none => simp [hasPredProf, found, skips start entry found]
        | some weight =>
            simp [hasPredProf, found, adds start entry weight found]
  unfold joinEntries parts considered share
  cases some : entries.any (hasPredProf weights) with
  | true =>
      refine weighted _ _ ?_ ?_ entries _
      · intro joined entry found
        simp only [found]
      · intro joined entry weight found
        simp only [found]
  | false => exact alike _ entries _

/-- What is appended, as what the mean loses by the fractions cut off -/
theorem toNat_joinEntries (positive : PositiveWeights weights)
    (notEmpty : entries ≠ []) (bb yieldPoint : Nat) :
    ((joinEntries weights bb (yieldPoint, entries)).distance.toNat : ℚ) =
      weightedMean weights entries - cutOff weights entries := by
  have notNegative := @parts_nonneg weights entries positive
  have small : weightedMean weights entries ≤ 2 ^ 64 - 1 := by
    refine weightedMean_le positive notEmpty fun entry _ => ?_
    have isLess := entry.distance.isLt
    have asRat : ((entry.distance.toNat : Nat) : ℚ) ≤ (2 ^ 64 - 1 : Nat) := by
      exact_mod_cast Nat.le_sub_one_of_lt isLess
    norm_num at asRat ⊢
    exact asRat
  rw [distance_joinEntries, toNat_foldl_addTruncated notNegative (by
    have isMean : (parts weights entries).sum ≤ 2 ^ 64 - 1 := small
    simp only [BitVec.ofNat_eq_ofNat, BitVec.toNat_ofNat]
    norm_num at isMean ⊢
    linarith)]
  have floors := sum_floor notNegative
  push_cast at floors ⊢
  rw [weightedMean, cutOff, ← floors]
  simp

/-! ## The range -/

/-- A distance is at least the least and at most the greatest of some. -/
structure InRange (distances : List (BitVec 64)) (joined : BitVec 64) :
    Prop where
  atLeast :
    ∀ bound, (∀ distance ∈ distances, bound ≤ distance) → bound ≤ joined
  atMost :
    ∀ bound, (∀ distance ∈ distances, distance ≤ bound) → joined ≤ bound

/--
The fractions that are cut off add up to at most what the weighted mean is
above the least distance.
-/
def CutOffCovered (weights : PredecessorWeight)
    (entries : List YieldDistance) : Prop :=
  ∀ bound : BitVec 64,
    (∀ entry ∈ considered weights entries, bound ≤ entry.distance) →
      cutOff weights entries ≤ weightedMean weights entries - bound.toNat

/-- What is appended for a yield point is in the range of the distances. -/
theorem joinEntries_inRange_iff (positive : PositiveWeights weights)
    (notEmpty : entries ≠ []) (bb yieldPoint : Nat) :
    InRange ((considered weights entries).map (·.distance))
        (joinEntries weights bb (yieldPoint, entries)).distance ↔
      CutOffCovered weights entries := by
  have isJoined := toNat_joinEntries positive notEmpty bb yieldPoint
  have cutOffNonneg : 0 ≤ cutOff weights entries := by
    apply List.sum_nonneg
    intro fraction member
    obtain ⟨part, -, rfl⟩ := List.mem_map.mp member
    exact Int.fract_nonneg part
  have le_iff (bound : BitVec 64) :
      bound ≤ (joinEntries weights bb (yieldPoint, entries)).distance ↔
        cutOff weights entries ≤
          weightedMean weights entries - bound.toNat := by
    rw [BitVec.le_def, ← @Nat.cast_le ℚ, isJoined]
    constructor <;> intro le <;> linarith
  constructor
  · intro inRange bound below
    rw [← le_iff]
    refine inRange.atLeast bound fun distance member => ?_
    obtain ⟨entry, isEntry, rfl⟩ := List.mem_map.mp member
    exact below entry isEntry
  · intro covered
    refine ⟨fun bound below => ?_, fun bound above => ?_⟩
    · rw [le_iff]
      exact covered bound fun entry member =>
        below _ (List.mem_map_of_mem member)
    · have mean : weightedMean weights entries ≤ bound.toNat := by
        refine weightedMean_le positive notEmpty fun entry member => ?_
        exact_mod_cast above _ (List.mem_map_of_mem member)
      rw [BitVec.le_def, ← @Nat.cast_le ℚ, isJoined]
      linarith

end Join

/-- Entries are collected under their own yield points. -/
def Aggregated (aggregate : Dict Nat (List YieldDistance)) : Prop :=
  ∀ yieldPoint entries, aggregate.get? yieldPoint = some entries →
    entries ≠ [] ∧ ∀ entry ∈ entries, entry.yieldPoint = yieldPoint

/-- `doConfluence` collects entries, and changes nothing else. -/
theorem doConfluence_spec (analysis : Analysis) (stateOut stateIn : YDVector)
    (aggregated : Aggregated stateOut.aggregate) :
    (doConfluence analysis stateOut stateIn).data = stateOut.data ∧
      Aggregated (doConfluence analysis stateOut stateIn).aggregate := by
  have collected (incoming : List YieldDistance)
      (aggregate : Dict Nat (List YieldDistance))
      (before : Aggregated aggregate) :
      Aggregated
        (incoming.foldl
          (fun aggregate entry =>
            aggregate.set entry.yieldPoint
              ((aggregate.get? entry.yieldPoint).getD [] ++ [entry]))
          aggregate) := by
    induction incoming generalizing aggregate with
    | nil => exact before
    | cons entry rest inductionHypothesis =>
        refine inductionHypothesis _ fun yieldPoint entries isSet => ?_
        rw [Dict.get?_set] at isSet
        split at isSet
        · next same =>
            cases isSet
            refine ⟨by simp, fun other member => ?_⟩
            rcases List.mem_append.mp member with old | new
            · cases found : aggregate.get? entry.yieldPoint with
              | none => simp [found] at old
              | some entries =>
                  rw [found] at old
                  exact same ▸ (before _ _ found).2 other old
            · rw [List.mem_singleton.mp new, same]
        · exact before yieldPoint entries isSet
  unfold doConfluence
  cases stateOut.data.head? with
  | none => exact ⟨rfl, aggregated⟩
  | some first =>
      dsimp only
      split
      · exact ⟨rfl, aggregated⟩
      · exact ⟨rfl, collected _ _ aggregated⟩

theorem foldl_doConfluence_spec (analysis : Analysis)
    (incoming : List YDVector) (stateOut : YDVector)
    (aggregated : Aggregated stateOut.aggregate) :
    (incoming.foldl (doConfluence analysis) stateOut).data =
        stateOut.data ∧
      Aggregated
        (incoming.foldl (doConfluence analysis) stateOut).aggregate := by
  induction incoming generalizing stateOut with
  | nil => exact ⟨rfl, aggregated⟩
  | cons stateIn rest inductionHypothesis =>
      obtain ⟨sameData, nextAggregated⟩ :=
        doConfluence_spec analysis stateOut stateIn aggregated
      obtain ⟨laterData, laterAggregated⟩ :=
        inductionHypothesis _ nextAggregated
      exact ⟨laterData.trans sameData, laterAggregated⟩

/-- What is appended is for the yield point that its entries are for. -/
theorem yieldPoint_joinEntries (weights : PredecessorWeight) (bb : Nat)
    {item : Nat × List YieldDistance}
    (same : ∀ entry ∈ item.2, entry.yieldPoint = item.1) :
    (joinEntries weights bb item).yieldPoint = item.1 ∧
      (joinEntries weights bb item).curBB = bb := by
  let kept (joined : YieldDistance) : Prop :=
    joined.yieldPoint = item.1 ∧ joined.curBB = bb
  unfold joinEntries
  split
  · refine List.foldlRecOn (motive := kept) item.2 _ ⟨rfl, rfl⟩ ?_
    intro joined ofJoined entry member
    split
    · exact ofJoined
    · exact ⟨same entry member, rfl⟩
  · refine List.foldlRecOn (motive := kept) item.2 _ ⟨rfl, rfl⟩ ?_
    intro joined _ entry member
    exact ⟨same entry member, rfl⟩

/--
When the states of the predecessors have been gone over, one distance is
appended for each yield point that was collected.  It is in the range of the
distances that are taken into account if and only if the fractions that are
cut off are covered.
-/
theorem postDoConfluence_inRange_iff (analysis : Analysis)
    (start : YDVector) (incoming : List YDVector) {first : YieldDistance}
    (isFirst : start.data.head? = some first)
    (isEmpty : start.aggregate = .empty)
    (positive : PositiveWeights (analysis.weightsOf first.curBB)) :
    ∃ joined : List YieldDistance,
      (postDoConfluence analysis
          (incoming.foldl (doConfluence analysis) start)).data =
        start.data ++ joined ∧
        List.Forall₂
          (fun (item : Nat × List YieldDistance) yd =>
            yd.yieldPoint = item.1 ∧ yd.curBB = first.curBB ∧
              (InRange
                  ((considered (analysis.weightsOf first.curBB)
                    item.2).map (·.distance))
                  yd.distance ↔
                CutOffCovered (analysis.weightsOf first.curBB) item.2))
          (incoming.foldl (doConfluence analysis) start).aggregate.items
          joined := by
  obtain ⟨sameData, aggregated⟩ :=
    foldl_doConfluence_spec analysis incoming start (by
      rw [isEmpty]
      intro yieldPoint entries found
      cases found)
  refine ⟨(incoming.foldl (doConfluence analysis) start).aggregate.items.map
    (joinEntries (analysis.weightsOf first.curBB) first.curBB), ?_, ?_⟩
  · rw [postDoConfluence, sameData, isFirst]
  · rw [List.forall₂_map_right_iff, List.forall₂_same]
    intro item member
    obtain ⟨notEmpty, same⟩ :=
      aggregated item.1 item.2 (Dict.get?_eq_some_iff.mpr member)
    obtain ⟨isYieldPoint, isBB⟩ :=
      yieldPoint_joinEntries (analysis.weightsOf first.curBB) first.curBB
        same
    exact ⟨isYieldPoint, isBB,
      joinEntries_inRange_iff positive notEmpty first.curBB item.1⟩

/-- A block that is joined to -/
def joinBlock : BasicBlock := ⟨0, 1, 10, none, none, none⟩

/-- The state of a predecessor at some distance from a yield -/
def predecessorAt (distance : BitVec 64) (bb : Nat) : YDVector :=
  ⟨[⟨20, distance, bb⟩], .empty⟩

/-- Two predecessors that are equally far away -/
theorem two_inRange :
    ∃ joined : List YieldDistance,
      (postDoConfluence .empty
          ([predecessorAt 4 1, predecessorAt 4 2].foldl
            (doConfluence .empty) (getStartingStateAtBB joinBlock))).data =
        [⟨10, 0, 0⟩] ++ joined ∧
        List.Forall₂
          (fun (item : Nat × List YieldDistance) yd =>
            yd.yieldPoint = item.1 ∧ yd.curBB = 0 ∧
              (InRange
                  ((considered (Analysis.empty.weightsOf 0)
                    item.2).map (·.distance))
                  yd.distance ↔
                CutOffCovered (Analysis.empty.weightsOf 0) item.2))
          [(20, [⟨20, 4, 1⟩, ⟨20, 4, 2⟩])] joined :=
  postDoConfluence_inRange_iff .empty (getStartingStateAtBB joinBlock)
    [predecessorAt 4 1, predecessorAt 4 2] rfl rfl nofun

/-- Three predecessors at distance 1 are joined to distance 0. -/
theorem three_not_inRange :
    (postDoConfluence .empty
        ([predecessorAt 1 1, predecessorAt 1 2, predecessorAt 1 3].foldl
          (doConfluence .empty) (getStartingStateAtBB joinBlock))).data =
      [⟨10, 0, 0⟩, ⟨20, 0, 0⟩] ∧
      ¬ InRange [1, 1, 1] 0 := by
  refine ⟨by decide +kernel, fun inRange => ?_⟩
  exact absurd (inRange.atLeast 1 (by simp)) (by simp)

end Msh.YieldDistanceAnalysis
