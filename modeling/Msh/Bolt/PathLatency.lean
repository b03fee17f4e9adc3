import Mathlib.Algebra.BigOperators.Ring.Finset
import Mathlib.Algebra.Order.BigOperators.Group.List
import Mathlib.Algebra.Order.Field.Rat
import Mathlib.Data.Finset.Dedup
import Mathlib.Data.Finset.Max
import Mathlib.Data.Rat.Floor
import Msh.Bolt.YieldDistance
import Msh.Library.BackwardPaths
import Msh.Library.FloatRounding

/-!
# The average latency of the paths through a loop

`computeAveragePathLatency` gives each path a probability: going back from the
latch, the probability of having come from a predecessor is its share of the
predecessors' weights, where the profile has any.  The average of the paths'
latencies is cut off to an integer.  The numbers are `float`s; the definitions
take the roundings as a parameter, and the exact average is the one without.
-/

namespace Msh.BoundYieldDistanceScanner

open YieldDistanceAnalysis

/-- A loop with one latch, without inner loops, that is entered at its header -/
structure LoopBody where
  header : BasicBlock
  latch : BasicBlock
  blocks : List BasicBlock
  predecessors : BasicBlock → List BasicBlock
  latch_mem : latch ∈ blocks
  predecessors_mem : ∀ bb ∈ blocks, bb ≠ header →
    ∀ pred ∈ predecessors bb, pred ∈ blocks
  /-- Blocks of a loop are reached from its header. -/
  reached : ∀ bb ∈ blocks, bb ≠ header → predecessors bb ≠ []
  /-- Only the edge back to the header closes a cycle. -/
  rank : BasicBlock → Nat
  acyclic : ∀ bb ∈ blocks, bb ≠ header →
    ∀ pred ∈ predecessors bb, rank pred < rank bb

/-- `PredecessorProfile` -/
abbrev PredecessorProfile : Type := Dict Nat PredecessorWeight

/-- What becomes of the exact result of an operation on numbers of a type -/
structure Arithmetic where
  float : ℚ → ℚ
  double : ℚ → ℚ

/-- The arithmetic of rational numbers -/
def Arithmetic.exact : Arithmetic := ⟨id, id⟩

/-- The arithmetic of the program; no value comes near the largest number. -/
def Arithmetic.ieee : Arithmetic :=
  ⟨FloatRounding.single.round, FloatRounding.double.round⟩

/-- The conversion to `uint64_t`, which is not defined for larger values -/
def toUInt64 (value : ℚ) : Option (BitVec 64) :=
  if value < 2 ^ 64 then some (BitVec.ofNat 64 ⌊value⌋₊) else none

section Compute

variable (arithmetic : Arithmetic)
  (predecessors : BasicBlock → List BasicBlock) (ipc : Ipc)
  (latencyProfile : Dict Nat (BitVec 64))
  (predecessorProfile : PredecessorProfile)

/-- `Latency` of a path -/
def latencyOf (path : List BasicBlock) : BitVec 64 :=
  path.foldl (fun latency bb => latency + pathLatency ipc latencyProfile bb) 0

/-- `HasPredProf` -/
def hasPredProf (weights : PredecessorWeight) (bb : BasicBlock) : Bool :=
  (predecessors bb).any fun pred => (weights.get? pred.ptr).isSome

/-- What `Sum` is the sum of -/
def summands (weights : PredecessorWeight) (bb : BasicBlock) : List ℚ :=
  (predecessors bb).filterMap fun pred => weights.get? pred.ptr

/-- `Sum` -/
def weightSum (weights : PredecessorWeight) (bb : BasicBlock) : ℚ :=
  FloatRounding.roundedSum arithmetic.float (summands predecessors weights bb)

/-- `Prob *= (1.0 / BB->pred_size())`, in `double` but for the result -/
def dumbStep (prob : ℚ) (bb : BasicBlock) : ℚ :=
  arithmetic.float (arithmetic.double
    (prob * arithmetic.double (1 / (predecessors bb).length)))

/-- The body of the loop over a path; `prob` is `Prob`. -/
def probStep (prob : ℚ) (bb prevBB : BasicBlock) : ℚ :=
  match predecessorProfile.get? bb.ptr with
  | none => dumbStep arithmetic predecessors prob bb
  | some weights =>
      if hasPredProf predecessors weights bb then
        match weights.get? prevBB.ptr with
        | none => 0
        | some weight =>
            arithmetic.float (prob * arithmetic.float
              (weight / weightSum arithmetic predecessors weights bb))
      else dumbStep arithmetic predecessors prob bb

/-- The loop over a path from its end, which leaves the first block out -/
def probFrom (prob : ℚ) : List BasicBlock → ℚ
  | [] => prob
  | [_] => prob
  | bb :: prevBB :: rest =>
      probFrom
        (probStep arithmetic predecessors predecessorProfile prob bb prevBB)
        (prevBB :: rest)

/-- `Prob` of a path -/
def probOf (path : List BasicBlock) : ℚ :=
  probFrom arithmetic predecessors predecessorProfile 1 path.reverse

/-- `PathLatency[i] * PathProb[i]` -/
def weightedLatency (path : List BasicBlock) : ℚ :=
  arithmetic.float
    (arithmetic.float (latencyOf ipc latencyProfile path).toNat *
      probOf arithmetic predecessors predecessorProfile path)

/-- `PathLatency[i] / PathLatency.size()`, a division of integers -/
def dumbShare (paths : List (List BasicBlock)) (path : List BasicBlock) : Nat :=
  (latencyOf ipc latencyProfile path).toNat / paths.length

/-- `AvgLatency` at the end -/
def averageLatency (paths : List (List BasicBlock)) : ℚ :=
  let avgLatency := FloatRounding.roundedSum arithmetic.float
    (paths.map (weightedLatency arithmetic predecessors ipc latencyProfile
      predecessorProfile))
  if avgLatency = 0 then
    -- fall back to dumb average
    FloatRounding.roundedSum arithmetic.float
      (paths.map fun path =>
        arithmetic.float (dumbShare ipc latencyProfile paths path))
  else avgLatency

/-- `computeAveragePathLatency` -/
def computeAveragePathLatency (paths : List (List BasicBlock)) :
    Option (BitVec 64) :=
  toUInt64 (averageLatency arithmetic predecessors ipc latencyProfile
    predecessorProfile paths)

end Compute

namespace LoopBody

variable (loop : LoopBody)

/-- The blocks of the loop, entered at the header -/
def region : BackwardPaths BasicBlock where
  start := loop.header
  inside bb := bb ∈ loop.blocks
  predecessors := loop.predecessors
  rank := loop.rank
  predecessors_inside := loop.predecessors_mem
  rank_lt := loop.acyclic

/-- A path from the header to the latch along the edges of the loop -/
structure IsPath (path : List BasicBlock) : Prop where
  starts : path.head? = some loop.header
  ends : path.getLast? = some loop.latch
  edges : path.IsChain fun pred bb =>
    bb ≠ loop.header ∧ pred ∈ loop.predecessors bb

/-- The number of choices of edges along a path -/
def choices : List BasicBlock → Nat
  | [] => 1
  | [_] => 1
  | pred :: bb :: rest =>
      (loop.predecessors bb).count pred * choices (bb :: rest)

/-- All paths from the header to the latch, once for each choice of edges -/
structure AllPaths (paths : List (List BasicBlock)) : Prop where
  isPath : ∀ path ∈ paths, loop.IsPath path
  count : ∀ path, loop.IsPath path → paths.count path = loop.choices path

variable {loop}

theorem isPath_iff {path : List BasicBlock} :
    loop.IsPath path ↔
      path.reverse.head? = some loop.latch ∧
        loop.region.IsPath path.reverse := by
  constructor
  · intro isPath
    refine ⟨by rw [List.head?_reverse]; exact isPath.ends, ?_, ?_⟩
    · rw [List.getLast?_reverse]
      exact isPath.starts
    · rw [List.isChain_reverse]
      exact isPath.edges
  · rintro ⟨isHead, isPath⟩
    refine ⟨?_, ?_, ?_⟩
    · rw [← List.getLast?_reverse]
      exact isPath.ends
    · rw [← List.head?_reverse]
      exact isHead
    · have edges := isPath.edges
      rw [List.isChain_reverse] at edges
      exact edges

theorem choices_append (path : List BasicBlock) (pred bb : BasicBlock) :
    loop.choices (path ++ [pred, bb]) =
      loop.choices (path ++ [pred]) * (loop.predecessors bb).count pred := by
  induction path with
  | nil => simp [choices]
  | cons first path inductionHypothesis =>
      cases path with
      | nil => simp [choices]
      | cons second path =>
          simp only [List.cons_append, choices] at inductionHypothesis ⊢
          rw [inductionHypothesis, Nat.mul_assoc]

/-- Choices are the same from both ends. -/
theorem choices_reverse (path : List BasicBlock) :
    loop.region.choices path = loop.choices path.reverse := by
  induction path with
  | nil => rfl
  | cons bb path inductionHypothesis =>
      cases path with
      | nil => rfl
      | cons pred path =>
          have isLast : (bb :: pred :: path).reverse =
              path.reverse ++ [pred, bb] := by
            simp
          rw [BackwardPaths.choices, inductionHypothesis, isLast,
            choices_append, List.reverse_cons, Nat.mul_comm]
          rfl

instance (path : List BasicBlock) : Decidable (loop.IsPath path) :=
  decidable_of_iff _ isPath_iff.symm

/--
The paths that are found from the latch back are the paths through the body,
with their counts.
-/
theorem count_pathsTo_latch (path : List BasicBlock) :
    (loop.region.pathsTo (loop.rank loop.latch + 1) loop.latch).count
        path.reverse =
      if loop.IsPath path then loop.choices path else 0 := by
  have isFound :
      (loop.region.pathsTo (loop.rank loop.latch + 1) loop.latch).count
          path.reverse =
        if path.reverse.head? = some loop.latch ∧
            loop.region.IsPath path.reverse then
          loop.region.choices path.reverse
        else 0 :=
    BackwardPaths.count_pathsTo loop.latch_mem (Nat.lt_succ_self _) _
  rw [isFound, choices_reverse, List.reverse_reverse]
  simp only [isPath_iff]

theorem count_map_reverse (paths : List (List BasicBlock))
    (path : List BasicBlock) :
    (paths.map List.reverse).count path.reverse = paths.count path :=
  List.count_map_of_injective paths _ List.reverse_injective path

/-- All paths are those that are found from the latch back. -/
theorem allPaths_iff_perm {paths : List (List BasicBlock)} :
    loop.AllPaths paths ↔
      (paths.map List.reverse).Perm
        (loop.region.pathsTo (loop.rank loop.latch + 1) loop.latch) := by
  constructor
  · intro all
    refine List.perm_iff_count.mpr fun reversed => ?_
    rw [← List.reverse_reverse reversed, count_map_reverse,
      count_pathsTo_latch]
    split
    · next isPath => exact all.count _ isPath
    · next notPath =>
        exact List.count_eq_zero.mpr fun isMem =>
          notPath (all.isPath _ isMem)
  · intro isPerm
    have isCount (path : List BasicBlock) : paths.count path =
        if loop.IsPath path then loop.choices path else 0 := by
      rw [← count_map_reverse, isPerm.count_eq, count_pathsTo_latch]
    constructor
    · intro path isMem
      by_contra notPath
      have isZero := isCount path
      rw [if_neg notPath] at isZero
      exact List.count_eq_zero.mp isZero isMem
    · intro path isPath
      rw [isCount, if_pos isPath]

/-! ## Probabilities -/

section Step

variable {arithmetic : Arithmetic}
  {predecessors : BasicBlock → List BasicBlock}
  {predecessorProfile : PredecessorProfile}

/-- The block furthest back comes last. -/
theorem probFrom_append (prob : ℚ) (later : List BasicBlock)
    (bb prevBB : BasicBlock) :
    probFrom arithmetic predecessors predecessorProfile prob
        (later ++ [bb, prevBB]) =
      probStep arithmetic predecessors predecessorProfile
        (probFrom arithmetic predecessors predecessorProfile prob
          (later ++ [bb])) bb prevBB := by
  induction later generalizing prob with
  | nil => rfl
  | cons last later inductionHypothesis =>
      cases later with
      | nil => rfl
      | cons before later => exact inductionHypothesis _

/-- The loop comes to the first edge of a path last. -/
theorem probOf_cons_cons (prevBB bb : BasicBlock) (path : List BasicBlock) :
    probOf arithmetic predecessors predecessorProfile (prevBB :: bb :: path) =
      probStep arithmetic predecessors predecessorProfile
        (probOf arithmetic predecessors predecessorProfile (bb :: path))
        bb prevBB := by
  unfold probOf
  rw [List.reverse_cons, List.reverse_cons, List.append_assoc]
  exact probFrom_append 1 path.reverse bb prevBB

end Step

section Probability

variable {predecessors : BasicBlock → List BasicBlock}
  {predecessorProfile : PredecessorProfile}

/-- The probability of having come to a block from a predecessor -/
def shareOf (predecessors : BasicBlock → List BasicBlock)
    (predecessorProfile : PredecessorProfile) (bb prevBB : BasicBlock) : ℚ :=
  probStep .exact predecessors predecessorProfile 1 bb prevBB

theorem dumbStep_exact (prob : ℚ) (bb : BasicBlock) :
    dumbStep .exact predecessors prob bb =
      prob * (1 / (predecessors bb).length) := rfl

@[simp] theorem weightSum_exact (weights : PredecessorWeight)
    (bb : BasicBlock) :
    weightSum .exact predecessors weights bb =
      (summands predecessors weights bb).sum :=
  FloatRounding.roundedSum_id

/-- In rational arithmetic a step multiplies with the share. -/
theorem probStep_exact (prob : ℚ) (bb prevBB : BasicBlock) :
    probStep .exact predecessors predecessorProfile prob bb prevBB =
      prob * shareOf predecessors predecessorProfile bb prevBB := by
  unfold shareOf probStep
  simp only [dumbStep_exact, one_mul]
  cases predecessorProfile.get? bb.ptr with
  | none => rfl
  | some weights =>
      dsimp only
      split
      · cases weights.get? prevBB.ptr with
        | none => exact (mul_zero prob).symm
        | some weight => rfl
      · rfl

/-- A path's probability is the product of the shares along it. -/
theorem probFrom_exact (prob : ℚ) (path : List BasicBlock) :
    probFrom .exact predecessors predecessorProfile prob path =
      prob * BackwardPaths.weightAlong
        (shareOf predecessors predecessorProfile) path := by
  induction path generalizing prob with
  | nil => exact (mul_one prob).symm
  | cons bb path inductionHypothesis =>
      cases path with
      | nil => exact (mul_one prob).symm
      | cons prevBB path =>
          rw [probFrom, inductionHypothesis, probStep_exact,
            BackwardPaths.weightAlong, mul_assoc]

/-- All weights of a predecessor profile are positive. -/
def PositiveWeights (predecessorProfile : PredecessorProfile) : Prop :=
  ∀ bb weights, predecessorProfile.get? bb = some weights →
    ∀ pred weight, weights.get? pred = some weight → 0 < weight

theorem mem_summands {weights : PredecessorWeight} {bb pred : BasicBlock}
    {weight : ℚ} (isPred : pred ∈ predecessors bb)
    (isWeight : weights.get? pred.ptr = some weight) :
    weight ∈ summands predecessors weights bb :=
  List.mem_filterMap.mpr ⟨pred, isPred, isWeight⟩

/-- Positive weights have positive summands. -/
theorem summands_pos {weights : PredecessorWeight} {bb : BasicBlock}
    (positive : ∀ pred weight, weights.get? pred = some weight → 0 < weight) :
    ∀ weight ∈ summands predecessors weights bb, 0 < weight := by
  intro weight isMem
  obtain ⟨pred, _, isWeight⟩ := List.mem_filterMap.mp isMem
  exact positive _ _ isWeight

/-- A weight is no larger than the sum that it is in. -/
theorem le_sum_summands {weights : PredecessorWeight} {bb : BasicBlock}
    (positive : ∀ pred weight, weights.get? pred = some weight → 0 < weight)
    {weight : ℚ} (isMem : weight ∈ summands predecessors weights bb) :
    weight ≤ (summands predecessors weights bb).sum :=
  List.single_le_sum
    (fun other isOther => (summands_pos positive other isOther).le) _ isMem

/-- With a profile of a predecessor, the sum of the weights is positive. -/
theorem sum_summands_pos {weights : PredecessorWeight} {bb : BasicBlock}
    (positive : ∀ pred weight, weights.get? pred = some weight → 0 < weight)
    (hasProf : hasPredProf predecessors weights bb = true) :
    0 < (summands predecessors weights bb).sum := by
  obtain ⟨pred, isPred, isSome⟩ := List.any_eq_true.mp hasProf
  obtain ⟨weight, isWeight⟩ := Option.isSome_iff_exists.mp isSome
  exact (positive _ _ isWeight).trans_le
    (le_sum_summands positive (mem_summands isPred isWeight))

/-- What the three cases of a share are -/
theorem shareOf_cases (bb prevBB : BasicBlock) :
    (shareOf predecessors predecessorProfile bb prevBB =
        1 / (predecessors bb).length ∧
      ∀ arithmetic prob,
        probStep arithmetic predecessors predecessorProfile prob bb prevBB =
          dumbStep arithmetic predecessors prob bb) ∨
    (shareOf predecessors predecessorProfile bb prevBB = 0 ∧
      ∀ arithmetic prob,
        probStep arithmetic predecessors predecessorProfile prob bb prevBB =
          0) ∨
    ∃ weights weight, predecessorProfile.get? bb.ptr = some weights ∧
      hasPredProf predecessors weights bb = true ∧
      weights.get? prevBB.ptr = some weight ∧
      shareOf predecessors predecessorProfile bb prevBB =
        weight / (summands predecessors weights bb).sum ∧
      ∀ arithmetic prob,
        probStep arithmetic predecessors predecessorProfile prob bb prevBB =
          arithmetic.float (prob * arithmetic.float
            (weight / weightSum arithmetic predecessors weights bb)) := by
  unfold shareOf probStep
  cases isProfile : predecessorProfile.get? bb.ptr with
  | none => exact .inl ⟨by rw [dumbStep_exact, one_mul], fun _ _ => rfl⟩
  | some weights =>
      dsimp only
      by_cases hasProf : hasPredProf predecessors weights bb = true
      · simp only [if_pos hasProf]
        cases isWeight : weights.get? prevBB.ptr with
        | none => exact .inr (.inl ⟨rfl, fun _ _ => rfl⟩)
        | some weight =>
            refine .inr (.inr ⟨weights, weight, rfl, hasProf, isWeight, ?_,
              fun _ _ => rfl⟩)
            change 1 * (weight / weightSum .exact predecessors weights bb) = _
            rw [one_mul, weightSum_exact]
      · refine .inl ⟨?_, fun _ _ => if_neg hasProf⟩
        rw [if_neg hasProf, dumbStep_exact, one_mul]

/-- A predecessor without a weight adds nothing. -/
theorem sum_summands (weights : PredecessorWeight) (bb : BasicBlock) :
    (summands predecessors weights bb).sum =
      ((predecessors bb).map fun pred =>
        (weights.get? pred.ptr).getD 0).sum := by
  unfold summands
  induction predecessors bb with
  | nil => rfl
  | cons pred preds inductionHypothesis =>
      rw [List.filterMap_cons, List.map_cons, List.sum_cons,
        ← inductionHypothesis]
      cases weights.get? pred.ptr with
      | none => exact (zero_add _).symm
      | some weight => exact List.sum_cons

/-- The shares of a block's predecessors sum to one. -/
theorem sum_shareOf (positive : PositiveWeights predecessorProfile)
    {bb : BasicBlock} (reached : predecessors bb ≠ []) :
    ((predecessors bb).map
      (shareOf predecessors predecessorProfile bb)).sum = 1 := by
  have isDumb :
      ((predecessors bb).map fun _ =>
        1 * (1 / ((predecessors bb).length : ℚ))).sum = 1 := by
    have isLength : ((predecessors bb).length : ℚ) ≠ 0 := by
      simpa using reached
    rw [List.map_const', List.sum_replicate, nsmul_eq_mul, one_mul,
      mul_one_div_cancel isLength]
  unfold shareOf probStep
  simp only [dumbStep_exact]
  cases isProfile : predecessorProfile.get? bb.ptr with
  | none => exact isDumb
  | some weights =>
      dsimp only
      by_cases hasProf : hasPredProf predecessors weights bb = true
      · have isPositive :=
          sum_summands_pos (positive bb.ptr weights isProfile) hasProf
        have isShare : ∀ pred ∈ predecessors bb,
            (if hasPredProf predecessors weights bb = true then
              match weights.get? pred.ptr with
              | none => 0
              | some weight =>
                  Arithmetic.exact.float (1 * Arithmetic.exact.float
                    (weight / weightSum .exact predecessors weights bb))
            else 1 * (1 / ((predecessors bb).length : ℚ))) =
              (weights.get? pred.ptr).getD 0 *
                (summands predecessors weights bb).sum⁻¹ := by
          intro pred _
          rw [if_pos hasProf]
          cases weights.get? pred.ptr with
          | none => exact (zero_mul _).symm
          | some weight =>
              change 1 * (weight / _) = weight * _
              rw [one_mul, div_eq_mul_inv, weightSum_exact]
        rw [List.map_congr_left isShare, List.sum_map_mul_right,
          ← sum_summands]
        exact mul_inv_cancel₀ isPositive.ne'
      · simp only [if_neg hasProf]
        exact isDumb

theorem shareOf_nonneg (positive : PositiveWeights predecessorProfile)
    (bb prevBB : BasicBlock) :
    0 ≤ shareOf predecessors predecessorProfile bb prevBB := by
  obtain ⟨isDumb, -⟩ | ⟨isMissing, -⟩ |
      ⟨weights, weight, isProfile, hasProf, isWeight, isShare, -⟩ :=
    @shareOf_cases predecessors predecessorProfile bb prevBB
  · rw [isDumb]
    positivity
  · exact isMissing.ge
  · rw [isShare]
    exact div_nonneg (positive _ _ isProfile _ _ isWeight).le
      (sum_summands_pos (positive _ _ isProfile) hasProf).le

/-- The share of a predecessor is at most the whole. -/
theorem shareOf_le_one (positive : PositiveWeights predecessorProfile)
    {bb prevBB : BasicBlock} (isPred : prevBB ∈ predecessors bb) :
    shareOf predecessors predecessorProfile bb prevBB ≤ 1 := by
  obtain ⟨isDumb, -⟩ | ⟨isMissing, -⟩ |
      ⟨weights, weight, isProfile, hasProf, isWeight, isShare, -⟩ :=
    @shareOf_cases predecessors predecessorProfile bb prevBB
  · have isLength : (1 : ℚ) ≤ (predecessors bb).length := by
      exact_mod_cast List.length_pos_of_mem isPred
    rw [isDumb]
    exact (div_le_one (zero_lt_one.trans_le isLength)).mpr isLength
  · rw [isMissing]
    exact zero_le_one
  · rw [isShare]
    exact (div_le_one
      (sum_summands_pos (positive _ _ isProfile) hasProf)).mpr
        (le_sum_summands (positive _ _ isProfile)
          (mem_summands isPred isWeight))

theorem probOf_exact_cons_cons (prevBB bb : BasicBlock)
    (path : List BasicBlock) :
    probOf .exact predecessors predecessorProfile (prevBB :: bb :: path) =
      probOf .exact predecessors predecessorProfile (bb :: path) *
        shareOf predecessors predecessorProfile bb prevBB := by
  rw [probOf_cons_cons, probStep_exact]

theorem probOf_nonneg (positive : PositiveWeights predecessorProfile)
    (path : List BasicBlock) :
    0 ≤ probOf .exact predecessors predecessorProfile path := by
  induction path with
  | nil => exact zero_le_one
  | cons prevBB path inductionHypothesis =>
      cases path with
      | nil => exact zero_le_one
      | cons bb path =>
          rw [probOf_exact_cons_cons]
          exact mul_nonneg inductionHypothesis
            (shareOf_nonneg positive bb prevBB)

end Probability

/-- The probabilities of all paths sum to one. -/
theorem AllPaths.sum_probOf {paths : List (List BasicBlock)}
    (all : loop.AllPaths paths) {predecessorProfile : PredecessorProfile}
    (positive : PositiveWeights predecessorProfile) :
    (paths.map (probOf .exact loop.predecessors predecessorProfile)).sum =
      1 := by
  have isProduct :
      paths.map (probOf .exact loop.predecessors predecessorProfile) =
        (paths.map List.reverse).map (BackwardPaths.weightAlong
          (shareOf loop.predecessors predecessorProfile)) := by
    rw [List.map_map]
    refine List.map_congr_left fun path _ => ?_
    rw [probOf, probFrom_exact, one_mul, Function.comp_apply]
  rw [isProduct, ((allPaths_iff_perm.mp all).map _).sum_eq]
  refine BackwardPaths.sum_weightAlong ?_ loop.latch_mem (Nat.lt_succ_self _)
  intro bb isInside notHeader
  exact sum_shareOf positive (loop.reached bb isInside notHeader)

/-! ## The average -/

section Average

variable {Item : Type} {items : List Item} {value weight : Item → ℚ}

/-- A weighted mean is not less than a bound of the values. -/
theorem le_sum_mul (nonneg : ∀ item ∈ items, 0 ≤ weight item)
    (isOne : (items.map weight).sum = 1) {least : ℚ}
    (isLeast : ∀ item ∈ items, least ≤ value item) :
    least ≤ (items.map fun item => value item * weight item).sum :=
  calc least = least * (items.map weight).sum := by rw [isOne, mul_one]
    _ = (items.map fun item => least * weight item).sum :=
      (List.sum_map_mul_left _ _ _).symm
    _ ≤ (items.map fun item => value item * weight item).sum :=
      List.sum_le_sum fun item isItem =>
        mul_le_mul_of_nonneg_right (isLeast item isItem) (nonneg item isItem)

/-- A weighted mean lies below the largest value. -/
theorem sum_mul_le (nonneg : ∀ item ∈ items, 0 ≤ weight item)
    (isOne : (items.map weight).sum = 1) {most : ℚ}
    (isMost : ∀ item ∈ items, value item ≤ most) :
    (items.map fun item => value item * weight item).sum ≤ most :=
  calc (items.map fun item => value item * weight item).sum
      ≤ (items.map fun item => most * weight item).sum :=
        List.sum_le_sum fun item isItem =>
          mul_le_mul_of_nonneg_right (isMost item isItem) (nonneg item isItem)
    _ = most * (items.map weight).sum := List.sum_map_mul_left _ _ _
    _ = most := by rw [isOne, mul_one]

end Average

/-- Shares of numbers that are cut off sum to no more than the largest one. -/
theorem sum_div_length_le {Item : Type} (items : List Item)
    (value : Item → Nat) {most : Nat}
    (isMost : ∀ item ∈ items, value item ≤ most) (parts : Nat) :
    (items.map fun item => value item / parts).sum * parts ≤
      items.length * most := by
  induction items with
  | nil => simp
  | cons item items inductionHypothesis =>
      rw [List.forall_mem_cons] at isMost
      have isRest := inductionHypothesis isMost.2
      have isFirst := (Nat.div_mul_le_self (value item) parts).trans isMost.1
      rw [List.map_cons, List.sum_cons, List.length_cons, Nat.add_mul,
        Nat.succ_mul]
      omega

section Result

variable {paths : List (List BasicBlock)} {ipc : Ipc}
  {latencyProfile : Dict Nat (BitVec 64)}
  {predecessorProfile : PredecessorProfile}

/-- There is a path. -/
theorem AllPaths.length_pos (all : loop.AllPaths paths)
    (positive : PositiveWeights predecessorProfile) : 0 < paths.length := by
  refine List.length_pos_iff.mpr ?_
  rintro rfl
  exact zero_ne_one (all.sum_probOf positive)

/-- The average in rational arithmetic, before the fallback -/
def weightedSum (predecessors : BasicBlock → List BasicBlock) (ipc : Ipc)
    (latencyProfile : Dict Nat (BitVec 64))
    (predecessorProfile : PredecessorProfile)
    (paths : List (List BasicBlock)) : ℚ :=
  (paths.map (weightedLatency .exact predecessors ipc latencyProfile
    predecessorProfile)).sum

/-- The average in rational arithmetic -/
theorem averageLatency_exact (predecessors : BasicBlock → List BasicBlock) :
    averageLatency .exact predecessors ipc latencyProfile predecessorProfile
        paths =
      if weightedSum predecessors ipc latencyProfile predecessorProfile
          paths = 0 then
        (((paths.map (dumbShare ipc latencyProfile paths)).sum : Nat) : ℚ)
      else weightedSum predecessors ipc latencyProfile predecessorProfile
        paths := by
  have isSum (values : List ℚ) :
      FloatRounding.roundedSum Arithmetic.exact.float values = values.sum :=
    FloatRounding.roundedSum_id
  rw [averageLatency, isSum, isSum, Nat.cast_list_sum, List.map_map]
  rfl

/-- The exact average lies between bounds of the paths' latencies. -/
theorem AllPaths.averageLatency_bounds (all : loop.AllPaths paths)
    (positive : PositiveWeights predecessorProfile) {least most : Nat}
    (bounds : ∀ path ∈ paths,
      least ≤ (latencyOf ipc latencyProfile path).toNat ∧
        (latencyOf ipc latencyProfile path).toNat ≤ most) :
    least ≤ averageLatency .exact loop.predecessors ipc latencyProfile
        predecessorProfile paths ∧
      averageLatency .exact loop.predecessors ipc latencyProfile
        predecessorProfile paths ≤ most := by
  have isOne := all.sum_probOf positive
  have nonneg : ∀ path ∈ paths,
      0 ≤ probOf .exact loop.predecessors predecessorProfile path :=
    fun path _ => probOf_nonneg positive path
  have isLeast : ∀ path ∈ paths,
      (least : ℚ) ≤ (latencyOf ipc latencyProfile path).toNat :=
    fun path isPath => Nat.cast_le.mpr (bounds path isPath).1
  have isMost : ∀ path ∈ paths,
      ((latencyOf ipc latencyProfile path).toNat : ℚ) ≤ most :=
    fun path isPath => Nat.cast_le.mpr (bounds path isPath).2
  have atLeast : (least : ℚ) ≤ weightedSum loop.predecessors ipc
      latencyProfile predecessorProfile paths :=
    le_sum_mul nonneg isOne isLeast
  have atMost : weightedSum loop.predecessors ipc latencyProfile
      predecessorProfile paths ≤ most :=
    sum_mul_le nonneg isOne isMost
  rw [averageLatency_exact]
  split
  · next isZero =>
      rw [isZero] at atLeast
      have isSum := sum_div_length_le paths
        (fun path => (latencyOf ipc latencyProfile path).toNat)
        (fun path isPath => (bounds path isPath).2) paths.length
      rw [Nat.mul_comm] at isSum
      exact ⟨atLeast.trans (Nat.cast_nonneg _), Nat.cast_le.mpr
        (Nat.le_of_mul_le_mul_left isSum (all.length_pos positive))⟩
  · exact ⟨atLeast, atMost⟩

end Result

end LoopBody

end Msh.BoundYieldDistanceScanner
