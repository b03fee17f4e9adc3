import Mathlib.Data.List.MinMax
import Msh.Bolt.PathLatency

/-!
# The average latency in floating point

In rational arithmetic the average of the paths' latencies lies between the
smallest and the largest one.  The program's average does so where no operation
rounds, or where the exact average is far enough from the smallest latency and
from the integer after the largest one to cover the roundings.
-/

namespace Msh.BoundYieldDistanceScanner

open FloatRounding (Near)
open YieldDistanceAnalysis

/-- An exact result that the operations give as it is -/
def Arithmetic.Keeps (arithmetic : Arithmetic) (value : ℚ) : Prop :=
  arithmetic.float value = value ∧ arithmetic.double value = value

namespace LoopBody

section Conditions

variable (arithmetic : Arithmetic)
  (predecessors : BasicBlock → List BasicBlock) (ipc : Ipc)
  (latencyProfile : Dict Nat (BitVec 64))
  (predecessorProfile : PredecessorProfile)

/-- No operation rounds on the way to the probability of a path. -/
structure UnroundedAlong (path : List BasicBlock) : Prop where
  weightSums : ∀ prevBB bb, [prevBB, bb] <:+: path → ∀ weights,
    predecessorProfile.get? bb.ptr = some weights → ∀ count,
      arithmetic.Keeps ((summands predecessors weights bb).take count).sum
  shares : ∀ prevBB bb, [prevBB, bb] <:+: path →
    arithmetic.Keeps (shareOf predecessors predecessorProfile bb prevBB)
  probs : ∀ rest, rest <:+ path →
    arithmetic.Keeps (probOf .exact predecessors predecessorProfile rest)

/-- No operation rounds on the way to the average. -/
structure Unrounded (paths : List (List BasicBlock)) : Prop where
  along : ∀ path ∈ paths,
    UnroundedAlong arithmetic predecessors predecessorProfile path
  latencies : ∀ path ∈ paths,
    arithmetic.Keeps (latencyOf ipc latencyProfile path).toNat
  products : ∀ path ∈ paths,
    arithmetic.Keeps (weightedLatency .exact predecessors ipc latencyProfile
      predecessorProfile path)
  sums : ∀ count,
    arithmetic.Keeps ((paths.map (weightedLatency .exact predecessors ipc
      latencyProfile predecessorProfile)).take count).sum
  dumbShares :
    weightedSum predecessors ipc latencyProfile predecessorProfile paths = 0 →
      ∀ path ∈ paths,
        arithmetic.Keeps (dumbShare ipc latencyProfile paths path)
  dumbSums :
    weightedSum predecessors ipc latencyProfile predecessorProfile paths = 0 →
      ∀ count, arithmetic.Keeps ((paths.map fun path =>
        (dumbShare ipc latencyProfile paths path : ℚ)).take count).sum

/--
No more roundings than this many are in `Prob` of a path: for each block but
the first those of `Sum`, of the quotient and of the product.
-/
def roundings : List BasicBlock → Nat
  | [] => 0
  | [_] => 0
  | _ :: bb :: rest =>
      roundings (bb :: rest) + ((predecessors bb).length + 2)

/-- No more roundings than this many are in `AvgLatency`. -/
def averageRoundings (paths : List (List BasicBlock)) : Nat :=
  (paths.map (roundings predecessors)).foldr max 0 + 2 + paths.length

/-- The smallest normal `float` is not below the numbers on the way to the
average. -/
structure NormalNumbers (paths : List (List BasicBlock)) : Prop where
  weights : ∀ path ∈ paths, ∀ prevBB bb, [prevBB, bb] <:+: path →
    ∀ weights, predecessorProfile.get? bb.ptr = some weights →
      ∀ weight ∈ summands predecessors weights bb,
        FloatRounding.single.minNormal ≤ weight
  probs : ∀ path ∈ paths,
    probOf .exact predecessors predecessorProfile path = 0 ∨
      FloatRounding.single.minNormal ≤
        probOf .exact predecessors predecessorProfile path *
          FloatRounding.single.factor ^ averageRoundings predecessors paths

/-- The exact average is so far inside of the bounds that the roundings cannot
take it out. -/
structure RoundingsCovered (paths : List (List BasicBlock)) : Prop where
  normal : NormalNumbers predecessors predecessorProfile paths
  above : ∃ path ∈ paths, ((latencyOf ipc latencyProfile path).toNat : ℚ) ≤
    averageLatency .exact predecessors ipc latencyProfile predecessorProfile
        paths *
      FloatRounding.single.factor ^ averageRoundings predecessors paths
  below : ∃ path ∈ paths,
    averageLatency .exact predecessors ipc latencyProfile predecessorProfile
        paths <
      ((latencyOf ipc latencyProfile path).toNat + 1) *
        FloatRounding.single.factor ^ averageRoundings predecessors paths

end Conditions

variable {loop : LoopBody} {arithmetic : Arithmetic}
  {predecessors : BasicBlock → List BasicBlock} {ipc : Ipc}
  {latencyProfile : Dict Nat (BitVec 64)}
  {predecessorProfile : PredecessorProfile}
  {path : List BasicBlock} {paths : List (List BasicBlock)}

/-! ## Without roundings -/

theorem UnroundedAlong.tail {prevBB : BasicBlock}
    (unrounded : UnroundedAlong arithmetic predecessors predecessorProfile
      (prevBB :: path)) :
    UnroundedAlong arithmetic predecessors predecessorProfile path where
  weightSums prevBB bb isEdge :=
    unrounded.weightSums prevBB bb (isEdge.trans (List.infix_cons
      (List.infix_refl _)))
  shares prevBB bb isEdge :=
    unrounded.shares prevBB bb (isEdge.trans (List.infix_cons
      (List.infix_refl _)))
  probs rest isRest :=
    unrounded.probs rest (isRest.trans (List.suffix_cons _ _))

/-- A step that rounds nothing multiplies with the share. -/
theorem UnroundedAlong.probStep_eq {prevBB bb : BasicBlock} {prob : ℚ}
    (unrounded : UnroundedAlong arithmetic predecessors predecessorProfile
      (prevBB :: bb :: path))
    (keeps : arithmetic.Keeps
      (prob * shareOf predecessors predecessorProfile bb prevBB)) :
    probStep arithmetic predecessors predecessorProfile prob bb prevBB =
      prob * shareOf predecessors predecessorProfile bb prevBB := by
  have isEdge : [prevBB, bb] <:+: prevBB :: bb :: path :=
    (List.prefix_append [prevBB, bb] path).isInfix
  have share := unrounded.shares prevBB bb isEdge
  obtain ⟨isShare, isStep⟩ | ⟨isShare, isStep⟩ |
      ⟨weights, weight, isProfile, _, _, isShare, isStep⟩ :=
    @shareOf_cases predecessors predecessorProfile bb prevBB
  · rw [isShare] at share keeps ⊢
    rw [isStep, dumbStep, share.2, keeps.2, keeps.1]
  · rw [isStep, isShare, mul_zero]
  · have isSum : weightSum arithmetic predecessors weights bb =
        (summands predecessors weights bb).sum :=
      FloatRounding.roundedSum_eq_sum fun count =>
        (unrounded.weightSums prevBB bb isEdge weights isProfile count).1
    rw [isShare] at share keeps ⊢
    rw [isStep, isSum, share.1, keeps.1]

/-- A probability is the exact one where no step rounds. -/
theorem UnroundedAlong.probOf_eq
    (unrounded : UnroundedAlong arithmetic predecessors predecessorProfile
      path) :
    probOf arithmetic predecessors predecessorProfile path =
      probOf .exact predecessors predecessorProfile path := by
  induction path with
  | nil => rfl
  | cons prevBB path inductionHypothesis =>
      cases path with
      | nil => rfl
      | cons bb path =>
          have keeps := unrounded.probs _ (List.suffix_refl _)
          rw [probOf_exact_cons_cons] at keeps
          rw [probOf_cons_cons, inductionHypothesis unrounded.tail,
            unrounded.probStep_eq keeps, probOf_exact_cons_cons]

/-- A path's part of the average is the exact one where nothing rounds. -/
theorem Unrounded.weightedLatency_eq
    (unrounded : Unrounded arithmetic predecessors ipc latencyProfile
      predecessorProfile paths) :
    ∀ path ∈ paths,
      weightedLatency arithmetic predecessors ipc latencyProfile
          predecessorProfile path =
        weightedLatency .exact predecessors ipc latencyProfile
          predecessorProfile path := by
  intro path isPath
  rw [weightedLatency, (unrounded.latencies path isPath).1,
    (unrounded.along path isPath).probOf_eq]
  exact (unrounded.products path isPath).1

/-- The average is the exact one where no operation rounds. -/
theorem Unrounded.averageLatency_eq
    (unrounded : Unrounded arithmetic predecessors ipc latencyProfile
      predecessorProfile paths) :
    averageLatency arithmetic predecessors ipc latencyProfile
        predecessorProfile paths =
      averageLatency .exact predecessors ipc latencyProfile
        predecessorProfile paths := by
  have isSum : FloatRounding.roundedSum arithmetic.float
      (paths.map (weightedLatency arithmetic predecessors ipc latencyProfile
        predecessorProfile)) =
      weightedSum predecessors ipc latencyProfile predecessorProfile
        paths := by
    rw [List.map_congr_left unrounded.weightedLatency_eq]
    exact FloatRounding.roundedSum_eq_sum fun count =>
      (unrounded.sums count).1
  rw [averageLatency_exact, averageLatency, isSum]
  split
  · next isZero =>
      have isShare : ∀ path ∈ paths,
          arithmetic.float (dumbShare ipc latencyProfile paths path) =
            dumbShare ipc latencyProfile paths path :=
        fun path isPath => (unrounded.dumbShares isZero path isPath).1
      rw [List.map_congr_left isShare, FloatRounding.roundedSum_eq_sum
        fun count => (unrounded.dumbSums isZero count).1,
        Nat.cast_list_sum, List.map_map]
      rfl
  · rfl

/-! ## The distance of the rounded average -/

/-- A probability of zero stays zero. -/
theorem probStep_ieee_zero (bb prevBB : BasicBlock) :
    probStep .ieee predecessors predecessorProfile 0 bb prevBB = 0 := by
  have isZero (format : FloatRounding.Format) (value : ℚ) :
      format.round (0 * value) = 0 := by
    rw [zero_mul, FloatRounding.Format.round_zero]
  obtain ⟨-, isStep⟩ | ⟨-, isStep⟩ | ⟨weights, weight, _, _, _, -, isStep⟩ :=
    @shareOf_cases predecessors predecessorProfile bb prevBB
  · rw [isStep]
    change FloatRounding.single.round (FloatRounding.double.round _) = 0
    rw [isZero, FloatRounding.Format.round_zero]
  · exact isStep _ _
  · rw [isStep]
    exact isZero _ _

/-- A step with no share gives no probability. -/
theorem probStep_ieee_eq_zero (positive : PositiveWeights predecessorProfile)
    {bb prevBB : BasicBlock}
    (isZero : shareOf predecessors predecessorProfile bb prevBB = 0)
    (prob : ℚ) :
    probStep .ieee predecessors predecessorProfile prob bb prevBB = 0 := by
  obtain ⟨isShare, isStep⟩ | ⟨-, isStep⟩ |
      ⟨weights, weight, isProfile, hasProf, isWeight, isShare, -⟩ :=
    @shareOf_cases predecessors predecessorProfile bb prevBB
  · rw [isStep, dumbStep, ← isShare, isZero]
    change FloatRounding.single.round (FloatRounding.double.round
      (prob * FloatRounding.double.round 0)) = 0
    simp
  · exact isStep _ _
  · rw [isShare] at isZero
    exact absurd isZero (div_pos (positive _ _ isProfile _ _ isWeight)
      (sum_summands_pos (positive _ _ isProfile) hasProf)).ne'

/-- A path that the profile excludes has no probability in either arithmetic. -/
theorem probOf_ieee_eq_zero (positive : PositiveWeights predecessorProfile)
    (isZero : probOf .exact predecessors predecessorProfile path = 0) :
    probOf .ieee predecessors predecessorProfile path = 0 := by
  induction path with
  | nil => exact absurd isZero one_ne_zero
  | cons prevBB path inductionHypothesis =>
      cases path with
      | nil => exact absurd isZero one_ne_zero
      | cons bb path =>
          rw [probOf_exact_cons_cons, mul_eq_zero] at isZero
          rw [probOf_cons_cons]
          obtain ofRest | ofShare := isZero
          · rw [inductionHypothesis ofRest]
            exact probStep_ieee_zero bb prevBB
          · exact probStep_ieee_eq_zero positive ofShare _

section Near

open FloatRounding

theorem single_minNormal_le_one : single.minNormal ≤ 1 :=
  zpow_le_one_of_nonpos₀ one_le_two (by decide)

/-- The share of one of a number of predecessors, with the probability -/
theorem near_dumbStep {bb prevBB : BasicBlock} {prob prob' : ℚ} {count : Nat}
    (isPred : prevBB ∈ predecessors bb) (isLe : prob ≤ 1)
    (near : Near single count prob prob')
    (isNormal : single.minNormal ≤
      prob * (1 / (predecessors bb).length) *
        single.factor ^ (count + ((predecessors bb).length + 2))) :
    Near single (count + ((predecessors bb).length + 2))
      (prob * (1 / (predecessors bb).length))
      (dumbStep .ieee predecessors prob' bb) := by
  have isPos := List.length_pos_of_mem isPred
  have nonneg : (0 : ℚ) ≤ 1 / (predecessors bb).length := by positivity
  have isLower : prob * (1 / (predecessors bb).length) ≤
      1 / ((predecessors bb).length : ℚ) :=
    mul_le_of_le_one_left nonneg isLe
  have share : Near single 1 (1 / ((predecessors bb).length : ℚ))
      (double.round (1 / (predecessors bb).length)) :=
    (Near.refl nonneg).round double_finer
      (.inr ((Near.refl nonneg).minNormal_le isLower (Nat.zero_le _)
        isNormal))
  have product := near.mul share
  have rounded := product.round double_finer
    (.inr (product.minNormal_le (le_refl _) (by omega) isNormal))
  exact (rounded.round (Format.Finer.refl _)
    (.inr (rounded.minNormal_le (le_refl _) (by omega) isNormal))).mono
      (by omega)

/-- The share of a weight, with the probability -/
theorem near_weightStep {bb : BasicBlock} {weights : PredecessorWeight}
    {prob prob' weight : ℚ} {count : Nat}
    (normalWeights : ∀ weight ∈ summands predecessors weights bb,
      single.minNormal ≤ weight)
    (isWeight : 0 ≤ weight) (isLe : prob ≤ 1)
    (near : Near single count prob prob')
    (isNormal : single.minNormal ≤
      prob * (weight / (summands predecessors weights bb).sum) *
        single.factor ^ (count + ((predecessors bb).length + 2))) :
    Near single (count + ((predecessors bb).length + 2))
      (prob * (weight / (summands predecessors weights bb).sum))
      (single.round (prob' * single.round
        (weight / weightSum .ieee predecessors weights bb))) := by
  have isShort : (summands predecessors weights bb).length ≤
      (predecessors bb).length :=
    List.length_filterMap_le _ _
  have normalSummand : ∀ weight ∈ summands predecessors weights bb,
      single.IsNormalOrZero weight :=
    fun weight isMem => .inr (normalWeights weight isMem)
  have sum : Near single (summands predecessors weights bb).length
      (summands predecessors weights bb).sum
      (weightSum .ieee predecessors weights bb) := by
    have isNear := @near_roundedSum _ (summands predecessors weights bb) id
      id single 0
      (fun weight isMem => .refl (normalSummand weight isMem).nonneg)
      normalSummand
    rwa [List.map_id, Nat.zero_add] at isNear
  have quotient := (Near.refl isWeight).div sum
  have isLower : prob * (weight / (summands predecessors weights bb).sum) ≤
      weight / (summands predecessors weights bb).sum :=
    mul_le_of_le_one_left quotient.nonneg isLe
  have share := quotient.round (Format.Finer.refl _)
    (.inr (quotient.minNormal_le isLower (by omega) isNormal))
  have product := near.mul share
  exact (product.round (Format.Finer.refl _)
    (.inr (product.minNormal_le (le_refl _) (by omega) isNormal))).mono
      (by omega)

/-- The edges of a path, with weights at its blocks that are normal -/
structure Along (predecessors : BasicBlock → List BasicBlock)
    (predecessorProfile : PredecessorProfile) (path : List BasicBlock) :
    Prop where
  edges : path.IsChain fun prevBB bb => prevBB ∈ predecessors bb
  weights : ∀ prevBB bb, [prevBB, bb] <:+: path →
    ∀ weights, predecessorProfile.get? bb.ptr = some weights →
      ∀ weight ∈ summands predecessors weights bb, single.minNormal ≤ weight

theorem Along.tail {prevBB : BasicBlock}
    (along : Along predecessors predecessorProfile (prevBB :: path)) :
    Along predecessors predecessorProfile path where
  edges := along.edges.tail
  weights prevBB bb isEdge :=
    along.weights prevBB bb (isEdge.trans (List.infix_cons
      (List.infix_refl _)))

/-- A path has at most the whole probability. -/
theorem probOf_exact_le_one (positive : PositiveWeights predecessorProfile)
    (edges : path.IsChain fun prevBB bb => prevBB ∈ predecessors bb) :
    probOf .exact predecessors predecessorProfile path ≤ 1 := by
  induction path with
  | nil => exact le_refl 1
  | cons prevBB path inductionHypothesis =>
      cases path with
      | nil => exact le_refl 1
      | cons bb path =>
          rw [probOf_exact_cons_cons]
          exact mul_le_one₀ (inductionHypothesis edges.tail)
            (shareOf_nonneg positive bb prevBB)
            (shareOf_le_one positive (List.isChain_cons_cons.mp edges).1)

/-- A step adds the roundings of its share. -/
theorem near_probStep (positive : PositiveWeights predecessorProfile)
    {prevBB bb : BasicBlock} {prob prob' : ℚ} {count : Nat}
    (along : Along predecessors predecessorProfile (prevBB :: bb :: path))
    (isLe : prob ≤ 1) (near : Near single count prob prob')
    (isNormal : single.minNormal ≤
      prob * shareOf predecessors predecessorProfile bb prevBB *
        single.factor ^ (count + ((predecessors bb).length + 2))) :
    Near single (count + ((predecessors bb).length + 2))
      (prob * shareOf predecessors predecessorProfile bb prevBB)
      (probStep .ieee predecessors predecessorProfile prob' bb prevBB) := by
  have isPred := (List.isChain_cons_cons.mp along.edges).1
  obtain ⟨isShare, isStep⟩ | ⟨isShare, -⟩ |
      ⟨weights, weight, isProfile, _, isWeight, isShare, isStep⟩ :=
    @shareOf_cases predecessors predecessorProfile bb prevBB
  · rw [isShare] at isNormal ⊢
    rw [isStep]
    exact near_dumbStep isPred isLe near isNormal
  · rw [isShare, mul_zero, zero_mul] at isNormal
    exact absurd isNormal Format.minNormal_pos.not_ge
  · rw [isShare] at isNormal ⊢
    rw [isStep]
    exact near_weightStep
      (along.weights prevBB bb
        (List.prefix_append [prevBB, bb] path).isInfix weights isProfile)
      (positive _ _ isProfile _ _ isWeight).le isLe near isNormal

/-- The roundings of a path's probability, if it is not too small -/
theorem near_probOf (positive : PositiveWeights predecessorProfile)
    (along : Along predecessors predecessorProfile path)
    (isNormal : single.minNormal ≤
      probOf .exact predecessors predecessorProfile path *
        single.factor ^ roundings predecessors path) :
    Near single (roundings predecessors path)
      (probOf .exact predecessors predecessorProfile path)
      (probOf .ieee predecessors predecessorProfile path) := by
  induction path with
  | nil => exact .refl zero_le_one
  | cons prevBB path inductionHypothesis =>
      cases path with
      | nil => exact .refl zero_le_one
      | cons bb path =>
          rw [probOf_exact_cons_cons] at isNormal ⊢
          rw [probOf_cons_cons]
          have isLe := probOf_exact_le_one positive along.tail.edges
          have nonneg :=
            @probOf_nonneg predecessors _ positive (bb :: path)
          have isLower := mul_le_of_le_one_right nonneg
            (@shareOf_le_one predecessors _ positive bb prevBB
              (List.isChain_cons_cons.mp along.edges).1)
          refine near_probStep positive along isLe
            (inductionHypothesis along.tail ?_) isNormal
          -- What is left of the path is no less probable.
          calc single.minNormal
              ≤ _ := isNormal
            _ ≤ probOf .exact predecessors predecessorProfile (bb :: path) *
                  single.factor ^ roundings predecessors (bb :: path) :=
                mul_le_mul isLower
                  (pow_le_pow_of_le_one Format.factor_pos.le
                    Format.factor_le_one (Nat.le_add_right _ _))
                  (pow_nonneg Format.factor_pos.le _) nonneg

/-- A path's part of the average, if its probability is not too small -/
theorem near_weightedLatency (positive : PositiveWeights predecessorProfile)
    {count : Nat}
    (along : Along predecessors predecessorProfile path)
    (isLe : roundings predecessors path + 2 ≤ count)
    (isNormal : probOf .exact predecessors predecessorProfile path = 0 ∨
      single.minNormal ≤
        probOf .exact predecessors predecessorProfile path *
          single.factor ^ count) :
    Near single (roundings predecessors path + 2)
        (weightedLatency .exact predecessors ipc latencyProfile
          predecessorProfile path)
        (weightedLatency .ieee predecessors ipc latencyProfile
          predecessorProfile path) ∧
      single.IsNormalOrZero (weightedLatency .ieee predecessors ipc
        latencyProfile predecessorProfile path) := by
  change Near single _ (((latencyOf ipc latencyProfile path).toNat : ℚ) *
      probOf .exact predecessors predecessorProfile path)
      (single.round (single.round (latencyOf ipc latencyProfile path).toNat *
        probOf .ieee predecessors predecessorProfile path)) ∧
    single.IsNormalOrZero (single.round (single.round
      (latencyOf ipc latencyProfile path).toNat *
        probOf .ieee predecessors predecessorProfile path))
  obtain isZero | isNormal := isNormal
  · rw [isZero, probOf_ieee_eq_zero positive isZero, mul_zero, mul_zero,
      Format.round_zero]
    exact ⟨(Near.refl (le_refl 0)).mono (Nat.zero_le _),
      Format.isNormalOrZero_zero⟩
  obtain isZero | isPos :=
    Nat.eq_zero_or_pos (latencyOf ipc latencyProfile path).toNat
  · rw [isZero, Nat.cast_zero, Format.round_zero, zero_mul, zero_mul,
      Format.round_zero]
    exact ⟨(Near.refl (le_refl 0)).mono (Nat.zero_le _),
      Format.isNormalOrZero_zero⟩
  have isOne : (1 : ℚ) ≤ (latencyOf ipc latencyProfile path).toNat := by
    exact_mod_cast isPos
  have nonneg := @probOf_nonneg predecessors _ positive path
  have factorLe : single.factor ^ count ≤
      single.factor ^ roundings predecessors path :=
    pow_le_pow_of_le_one Format.factor_pos.le Format.factor_le_one (by omega)
  have prob := near_probOf positive along
    (isNormal.trans (mul_le_mul_of_nonneg_left factorLe nonneg))
  have latency := (Near.refl (zero_le_one.trans isOne)).round
    (Format.Finer.refl single)
    (.inr (single_minNormal_le_one.trans isOne))
  have product := latency.mul prob
  have isNormal' := product.minNormal_le
    (le_mul_of_one_le_left nonneg isOne) (by omega) isNormal
  exact ⟨(product.round (Format.Finer.refl _) (.inr isNormal')).mono
    (by omega), Format.IsNormalOrZero.round (.inr isNormal')⟩

theorem roundings_le (isPath : path ∈ paths) :
    roundings predecessors path ≤
      (paths.map (roundings predecessors)).foldr max 0 :=
  List.le_max_of_le' 0 (List.mem_map_of_mem isPath) (le_refl _)

/-- The sum of the fallback is made of integers. -/
theorem near_dumbSum :
    Near single (1 + paths.length)
      ((paths.map fun path =>
        (dumbShare ipc latencyProfile paths path : ℚ)).sum)
      (roundedSum single.round (paths.map fun path =>
        single.round (dumbShare ipc latencyProfile paths path))) := by
  have isNormal (share : Nat) : single.IsNormalOrZero share := by
    obtain rfl | isPos := Nat.eq_zero_or_pos share
    · exact .inl Nat.cast_zero
    · have isOne : (1 : ℚ) ≤ share := by exact_mod_cast isPos
      exact .inr (single_minNormal_le_one.trans isOne)
  exact near_roundedSum
    (fun path _ => (Near.refl (Nat.cast_nonneg _)).round
      (Format.Finer.refl _) (isNormal _))
    (fun path _ => (isNormal _).round)

/-- No more than the counted roundings are between the two averages. -/
theorem near_averageLatency (positive : PositiveWeights predecessorProfile)
    (isPath : ∀ path ∈ paths,
      path.IsChain fun prevBB bb => prevBB ∈ predecessors bb)
    (normal : NormalNumbers predecessors predecessorProfile paths) :
    Near single (averageRoundings predecessors paths)
      (averageLatency .exact predecessors ipc latencyProfile
        predecessorProfile paths)
      (averageLatency .ieee predecessors ipc latencyProfile
        predecessorProfile paths) := by
  have isTerm : ∀ path ∈ paths,
      Near single ((paths.map (roundings predecessors)).foldr max 0 + 2)
          (weightedLatency .exact predecessors ipc latencyProfile
            predecessorProfile path)
          (weightedLatency .ieee predecessors ipc latencyProfile
            predecessorProfile path) ∧
        single.IsNormalOrZero (weightedLatency .ieee predecessors ipc
          latencyProfile predecessorProfile path) := by
    intro path isMem
    have isLe := @roundings_le predecessors path paths isMem
    have ofPath := @near_weightedLatency predecessors ipc latencyProfile
      predecessorProfile path positive
      (averageRoundings predecessors paths)
      ⟨isPath path isMem, normal.weights path isMem⟩
      (by unfold averageRoundings; omega) (normal.probs path isMem)
    exact ⟨ofPath.1.mono (by omega), ofPath.2⟩
  have isSum := near_roundedSum (fun path isMem => (isTerm path isMem).1)
    (fun path isMem => (isTerm path isMem).2)
  rw [averageLatency_exact, averageLatency]
  change Near single _ _ (if roundedSum single.round (paths.map _) = 0 then
    roundedSum single.round (paths.map _) else _)
  by_cases isZero : weightedSum predecessors ipc latencyProfile
      predecessorProfile paths = 0
  · rw [if_pos isZero, if_pos (isSum.computed_eq_zero_iff.mpr isZero),
      Nat.cast_list_sum, List.map_map]
    exact near_dumbSum.mono (by unfold averageRoundings; omega)
  · rw [if_neg isZero, if_neg (mt isSum.computed_eq_zero_iff.mp isZero)]
    exact isSum

end Near

/-! ## The result -/

/-- A result between the smallest and the largest of the paths' latencies -/
def IsBetween (ipc : Ipc) (latencyProfile : Dict Nat (BitVec 64))
    (paths : List (List BasicBlock)) (result : Option (BitVec 64)) : Prop :=
  ∃ value, result = some value ∧
    ∃ smallest ∈ paths, ∃ largest ∈ paths,
      (∀ path ∈ paths,
        latencyOf ipc latencyProfile smallest ≤
            latencyOf ipc latencyProfile path ∧
          latencyOf ipc latencyProfile path ≤
            latencyOf ipc latencyProfile largest) ∧
      latencyOf ipc latencyProfile smallest ≤ value ∧
        value ≤ latencyOf ipc latencyProfile largest

/-- Some path is the shortest, and some path the longest. -/
theorem exists_smallest_largest (isPos : 0 < paths.length) :
    ∃ smallest ∈ paths, ∃ largest ∈ paths, ∀ path ∈ paths,
      latencyOf ipc latencyProfile smallest ≤
          latencyOf ipc latencyProfile path ∧
        latencyOf ipc latencyProfile path ≤
          latencyOf ipc latencyProfile largest := by
  have isNonempty : paths.toFinset.Nonempty := by
    obtain ⟨path, isPath⟩ := List.exists_mem_of_length_pos isPos
    exact ⟨path, List.mem_toFinset.mpr isPath⟩
  obtain ⟨smallest, isSmallest, least⟩ := paths.toFinset.exists_min_image
    (fun path => (latencyOf ipc latencyProfile path).toNat) isNonempty
  obtain ⟨largest, isLargest, most⟩ := paths.toFinset.exists_max_image
    (fun path => (latencyOf ipc latencyProfile path).toNat) isNonempty
  exact ⟨smallest, List.mem_toFinset.mp isSmallest, largest,
    List.mem_toFinset.mp isLargest, fun path isPath =>
      ⟨least path (List.mem_toFinset.mpr isPath),
        most path (List.mem_toFinset.mpr isPath)⟩⟩

/-- What is cut off is less than one. -/
theorem isBetween_toUInt64 {average : ℚ}
    (above : ∃ path ∈ paths,
      ((latencyOf ipc latencyProfile path).toNat : ℚ) ≤ average)
    (below : ∃ path ∈ paths,
      average < (latencyOf ipc latencyProfile path).toNat + 1) :
    IsBetween ipc latencyProfile paths (toUInt64 average) := by
  obtain ⟨low, isLow, above⟩ := above
  obtain ⟨high, isHigh, below⟩ := below
  obtain ⟨smallest, isSmallest, largest, isLargest, bounds⟩ :=
    @exists_smallest_largest ipc latencyProfile paths
      (List.length_pos_of_mem isLow)
  have nonneg : 0 ≤ average := (Nat.cast_nonneg _).trans above
  have floorAbove : (latencyOf ipc latencyProfile low).toNat ≤ ⌊average⌋₊ :=
    Nat.le_floor above
  have floorBelow :
      ⌊average⌋₊ < (latencyOf ipc latencyProfile high).toNat + 1 :=
    (Nat.floor_lt nonneg).mpr (by exact_mod_cast below)
  have isSmall := (latencyOf ipc latencyProfile high).isLt
  have isDefined : average < 2 ^ 64 := by
    refine (Nat.floor_lt (n := 2 ^ 64) nonneg).mp ?_ |>.trans_eq (by norm_num)
    omega
  have isSame : (BitVec.ofNat 64 ⌊average⌋₊).toNat = ⌊average⌋₊ := by
    rw [BitVec.toNat_ofNat]
    exact Nat.mod_eq_of_lt (by omega)
  refine ⟨_, if_pos isDefined, smallest, isSmallest, largest, isLargest,
    bounds, ?_, ?_⟩
  · rw [BitVec.le_def, isSame]
    exact (BitVec.le_def.mp (bounds low isLow).1).trans floorAbove
  · rw [BitVec.le_def, isSame]
    exact (Nat.le_of_lt_succ floorBelow).trans
      (BitVec.le_def.mp (bounds high isHigh).2)

/-- The result lies between the bounds where no operation rounds. -/
theorem AllPaths.isBetween_of_unrounded (all : loop.AllPaths paths)
    (positive : PositiveWeights predecessorProfile)
    (unrounded : Unrounded arithmetic loop.predecessors ipc latencyProfile
      predecessorProfile paths) :
    IsBetween ipc latencyProfile paths
      (computeAveragePathLatency arithmetic loop.predecessors ipc
        latencyProfile predecessorProfile paths) := by
  obtain ⟨smallest, isSmallest, largest, isLargest, bounds⟩ :=
    @exists_smallest_largest ipc latencyProfile paths (all.length_pos positive)
  have isAverage := all.averageLatency_bounds positive
    fun path isPath => ⟨BitVec.le_def.mp (bounds path isPath).1,
      BitVec.le_def.mp (bounds path isPath).2⟩
  rw [computeAveragePathLatency, unrounded.averageLatency_eq]
  exact isBetween_toUInt64 ⟨smallest, isSmallest, isAverage.1⟩
    ⟨largest, isLargest, isAverage.2.trans_lt (lt_add_one _)⟩

/-- The result lies between the bounds where the roundings are covered. -/
theorem AllPaths.isBetween_of_covered (all : loop.AllPaths paths)
    (positive : PositiveWeights predecessorProfile)
    (covered : RoundingsCovered loop.predecessors ipc latencyProfile
      predecessorProfile paths) :
    IsBetween ipc latencyProfile paths
      (computeAveragePathLatency .ieee loop.predecessors ipc latencyProfile
        predecessorProfile paths) := by
  have near := @near_averageLatency loop.predecessors ipc latencyProfile
    predecessorProfile paths positive
    (fun path isPath => (all.isPath path isPath).edges.imp
      fun _ _ isEdge => isEdge.2)
    covered.normal
  obtain ⟨low, isLow, above⟩ := covered.above
  obtain ⟨high, isHigh, below⟩ := covered.below
  have factorPos : 0 < FloatRounding.single.factor ^
      averageRoundings loop.predecessors paths :=
    pow_pos FloatRounding.Format.factor_pos _
  exact isBetween_toUInt64 ⟨low, isLow, above.trans near.above⟩
    ⟨high, isHigh, lt_of_mul_lt_mul_right (near.below.trans_lt below)
      factorPos.le⟩

/--
The probabilities of the paths sum to one in rational arithmetic.  The result
lies between the smallest and the largest latency of a path in rational
arithmetic, and in the program's where no operation rounds or the roundings
are covered.
-/
theorem computeAveragePathLatency_isAverage (loop : LoopBody) (ipc : Ipc)
    (latencyProfile : Dict Nat (BitVec 64))
    {predecessorProfile : PredecessorProfile}
    (positive : PositiveWeights predecessorProfile)
    {paths : List (List BasicBlock)} (all : loop.AllPaths paths) :
    (paths.map
        (probOf .exact loop.predecessors predecessorProfile)).sum = 1 ∧
      IsBetween ipc latencyProfile paths
        (computeAveragePathLatency .exact loop.predecessors ipc
          latencyProfile predecessorProfile paths) ∧
      (Unrounded .ieee loop.predecessors ipc latencyProfile
            predecessorProfile paths ∨
          RoundingsCovered loop.predecessors ipc latencyProfile
            predecessorProfile paths →
        IsBetween ipc latencyProfile paths
          (computeAveragePathLatency .ieee loop.predecessors ipc
            latencyProfile predecessorProfile paths)) := by
  have keeps (value : ℚ) : Arithmetic.exact.Keeps value := ⟨rfl, rfl⟩
  refine ⟨all.sum_probOf positive,
    all.isBetween_of_unrounded positive
      ⟨fun _ _ => ⟨fun _ _ _ _ _ _ => keeps _, fun _ _ _ => keeps _,
          fun _ _ => keeps _⟩,
        fun _ _ => keeps _, fun _ _ => keeps _, fun _ => keeps _,
        fun _ _ _ => keeps _, fun _ _ => keeps _⟩, ?_⟩
  rintro (unrounded | covered)
  · exact all.isBetween_of_unrounded positive unrounded
  · exact all.isBetween_of_covered positive covered

/-! ## A loop with two paths -/

/-- A block of the loop below -/
def diamondBlock (number : Nat) : BasicBlock where
  ptr := number
  size := 4
  firstInst := 10 * number
  beginAddr := none
  endAddr := none
  loopDepth := some 1

/-- A loop whose ways part behind the header and meet at the latch -/
def diamond : LoopBody where
  header := diamondBlock 0
  latch := diamondBlock 3
  blocks := [diamondBlock 0, diamondBlock 1, diamondBlock 2, diamondBlock 3]
  predecessors bb :=
    match bb.ptr with
    | 0 => [diamondBlock 3]
    | 3 => [diamondBlock 1, diamondBlock 2]
    | _ => [diamondBlock 0]
  latch_mem := by decide
  predecessors_mem := by decide
  reached := by decide
  rank bb := if bb.ptr = 0 then 0 else if bb.ptr = 3 then 2 else 1
  acyclic := by decide

/-- The latch has been reached once by one block, five times by the other. -/
def diamondProfile : PredecessorProfile :=
  Dict.empty.set 3 ((Dict.empty.set 1 1).set 2 5)

/-- The latencies of the two blocks that only one path has -/
def diamondLatencies (left right : BitVec 64) : Dict Nat (BitVec 64) :=
  (Dict.empty.set 1 left).set 2 right

def diamondPaths : List (List BasicBlock) :=
  [[diamondBlock 0, diamondBlock 1, diamondBlock 3],
    [diamondBlock 0, diamondBlock 2, diamondBlock 3]]

theorem diamond_allPaths : diamond.AllPaths diamondPaths :=
  allPaths_iff_perm.mpr (by decide +kernel)

theorem one_le_diamondProfile {bb : Nat} {weights : PredecessorWeight}
    (isWeights : diamondProfile.get? bb = some weights) {pred : Nat}
    {weight : ℚ} (isWeight : weights.get? pred = some weight) :
    1 ≤ weight := by
  rw [diamondProfile, Dict.get?_set] at isWeights
  split at isWeights
  · cases isWeights
    rw [Dict.get?_set, Dict.get?_set] at isWeight
    split at isWeight
    · cases isWeight
      norm_num
    · split at isWeight
      · cases isWeight
        exact le_refl 1
      · cases isWeight
  · cases isWeights

theorem diamondProfile_positive : PositiveWeights diamondProfile :=
  fun _ _ isWeights _ _ isWeight =>
    zero_lt_one.trans_le (one_le_diamondProfile isWeights isWeight)

theorem diamond_isAverage :
    (diamondPaths.map
        (probOf .exact diamond.predecessors diamondProfile)).sum = 1 ∧
      IsBetween ⟨1, by decide⟩ (diamondLatencies 2 22) diamondPaths
        (computeAveragePathLatency .ieee diamond.predecessors ⟨1, by decide⟩
          (diamondLatencies 2 22) diamondProfile diamondPaths) := by
  have isAverage := computeAveragePathLatency_isAverage diamond
    ⟨1, by decide⟩ (diamondLatencies 2 22) diamondProfile_positive
    diamond_allPaths
  refine ⟨isAverage.1, isAverage.2.2 (.inr ⟨⟨?_, ?_⟩, ?_, ?_⟩)⟩
  · intro _ _ _ _ _ weights isWeights weight isMem
    obtain ⟨pred, _, isWeight⟩ := List.mem_filterMap.mp isMem
    exact single_minNormal_le_one.trans
      (one_le_diamondProfile isWeights isWeight)
  · decide +kernel
  · decide +kernel
  · decide +kernel

/-- Both paths take 11, but the average of the shares 1/6 and 5/6 is less. -/
theorem not_isAverage :
    (∀ path ∈ diamondPaths, latencyOf ⟨1, by decide⟩
        (diamondLatencies 3 3) path = 11) ∧
      PositiveWeights diamondProfile ∧ diamond.AllPaths diamondPaths ∧
      computeAveragePathLatency .ieee diamond.predecessors ⟨1, by decide⟩
        (diamondLatencies 3 3) diamondProfile diamondPaths = some 10 ∧
      ¬ IsBetween ⟨1, by decide⟩ (diamondLatencies 3 3) diamondPaths
        (computeAveragePathLatency .ieee diamond.predecessors ⟨1, by decide⟩
          (diamondLatencies 3 3) diamondProfile diamondPaths) := by
  have isEleven : ∀ path ∈ diamondPaths, latencyOf ⟨1, by decide⟩
      (diamondLatencies 3 3) path = 11 := by
    decide +kernel
  have isTen : computeAveragePathLatency .ieee diamond.predecessors
      ⟨1, by decide⟩ (diamondLatencies 3 3) diamondProfile diamondPaths =
        some 10 := by
    decide +kernel
  refine ⟨isEleven, diamondProfile_positive, diamond_allPaths, isTen, ?_⟩
  rintro ⟨value, isValue, smallest, isSmallest, _, _, _, isLe, _⟩
  rw [isTen] at isValue
  cases isValue
  rw [isEleven smallest isSmallest] at isLe
  exact absurd isLe (by decide)

end LoopBody

end Msh.BoundYieldDistanceScanner
