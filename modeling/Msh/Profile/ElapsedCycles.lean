import Msh.Profile.SplitTrace

namespace Msh

namespace LoadProb

/-!
# Which branch has the cycles of a block

The cycles of a branch are those since the branch before it, which is the next
one in the line.  They have passed between the destination of the older branch
and the source of the newer one; `create_control_flow_tuples` counts the
cycles of the older branch for that block instead.  Which pairs of branches
enclose a block is said by the ranges of the symbol map alone.
-/

/-- Adjacent branches of the lines, the newer one of each pair first -/
def tracePairs {Average : Type} (conversions : Conversions Average)
    (lines : List String) : List (Branch × Branch) :=
  lines.flatMap fun line =>
    adjacent ((readLine conversions line).getD [])

/-- The older branch jumped to the begin of a block, and the newer one left
from its end, both in the block's object. -/
def Encloses (symbolMap : SymbolMap) (block : Block)
    (pair : Branch × Branch) : Prop :=
  symbolMap.Locates (block.1, block.2.1) pair.2.dst ∧
    symbolMap.Locates (block.1, block.2.2) pair.1.src

instance (symbolMap : SymbolMap) (block : Block) (pair : Branch × Branch) :
    Decidable (Encloses symbolMap block pair) :=
  inferInstanceAs (Decidable (_ ∧ _))

/-- The pairs that enclose a block -/
def blockPairs (symbolMap : SymbolMap) (block : Block)
    (pairs : List (Branch × Branch)) : List (Branch × Branch) :=
  pairs.filter fun pair => Encloses symbolMap block pair

/-- The mean of some cycles, if there are any -/
def meanCycles {Average : Type} (conversions : Conversions Average)
    (cycles : List Int) : Option Average :=
  if cycles = [] then none
  else conversions.trueDiv cycles.sum cycles.length

/-- The latencies are, for each block, the mean of the cycles that some branch
of the pairs around it has. -/
def IsMeanOf {Average : Type} (conversions : Conversions Average)
    (symbolMap : SymbolMap) (cycles : Branch × Branch → Int)
    (pairs : List (Branch × Branch)) (lat : Dict Block Average) : Prop :=
  ∀ block, lat.get? block =
    meanCycles conversions ((blockPairs symbolMap block pairs).map cycles)

/-- Two sums are equal, or so large that Python rounds their quotients by a
number to the same value. -/
def SameQuotient {Average : Type} (conversions : Conversions Average)
    (first second : Int) (cnt : Nat) : Prop :=
  conversions.trueDiv first cnt = conversions.trueDiv second cnt

/-- No address at an end of a block lies in the ranges of two symbols. -/
def InOneRangeEach (symbolMap : SymbolMap)
    (pairs : List (Branch × Branch)) : Prop :=
  ∀ pair ∈ pairs,
    symbolMap.InOneRange pair.2.dst ∧ symbolMap.InOneRange pair.1.src

/-- The two branches that a sample was located between -/
def BlockSample.pair (sample : BlockSample) : Branch × Branch :=
  (sample.newer, sample.older)

section Located

variable {symbolMap : SymbolMap}

/-- The lookups locate a pair at the block that it encloses. -/
theorem localizeAddress_eq_some_iff {block : Block}
    {pair : Branch × Branch}
    (begins : symbolMap.InOneRange pair.2.dst)
    (ends : symbolMap.InOneRange pair.1.src)
    (lastMatch : LastMatch symbolMap) :
    (localizeAddress lastMatch pair.2.dst pair.1.src false).1 =
        some block ↔
      Encloses symbolMap block pair := by
  let between := (symbolMapLookup lastMatch pair.2.dst).2
  have ofBegin (place : Place) :=
    @lookup_eq_some_iff symbolMap _ begins lastMatch place
  have ofEnd (place : Place) :=
    @lookup_eq_some_iff symbolMap _ ends between place
  obtain ⟨object, beginOffset, endOffset⟩ := block
  rw [Encloses, ← ofBegin, ← ofEnd]
  unfold localizeAddress
  dsimp only
  generalize (symbolMapLookup lastMatch pair.2.dst).1 = first
  generalize (symbolMapLookup between pair.1.src).1 = second
  obtain ⟨firstName, firstOffset⟩ := first
  obtain ⟨secondName, secondOffset⟩ := second
  cases firstName with
  | none => simp
  | some firstName =>
      cases secondName with
      | none => simp
      | some secondName =>
          by_cases sameObject : firstName = secondName
          · subst sameObject
            simp only [ne_eq, not_true_eq_false, Bool.false_eq_true,
              not_false_eq_true, and_true, if_false, Option.some.injEq,
              Prod.mk.injEq]
            constructor
            · rintro ⟨rfl, rfl, rfl⟩
              exact ⟨⟨rfl, rfl⟩, rfl, rfl⟩
            · rintro ⟨⟨rfl, rfl⟩, _, rfl⟩
              exact ⟨rfl, rfl, rfl⟩
          · simp only [ne_eq, sameObject, not_false_eq_true,
              Bool.false_eq_true, and_self, if_true, reduceCtorEq,
              Prod.mk.injEq, Option.some.injEq, false_iff]
            rintro ⟨⟨rfl, _⟩, rfl, _⟩
            exact sameObject rfl

/-- The samples of a block are the pairs that enclose it. -/
theorem locatePairs_pairs {pairs : List (Branch × Branch)}
    (single : InOneRangeEach symbolMap pairs)
    (lastMatch : LastMatch symbolMap) (block : Block) :
    ((locatePairs lastMatch pairs).1.filter (·.block = block)).map
        BlockSample.pair =
      blockPairs symbolMap block pairs := by
  induction pairs generalizing lastMatch with
  | nil =>
      rfl
  | cons pair pairs inductionHypothesis =>
      have here := single pair List.mem_cons_self
      have later (lastMatch : LastMatch symbolMap) :=
        inductionHypothesis
          (fun other member => single other (List.mem_cons_of_mem _ member))
          lastMatch
      have isBlock :=
        @localizeAddress_eq_some_iff symbolMap block pair here.1 here.2
          lastMatch
      obtain ⟨newer, older⟩ := pair
      unfold locatePairs blockPairs
      cases isFound :
          localizeAddress lastMatch older.dst newer.src false with
      | mk found lastMatch =>
          rw [isFound] at isBlock
          cases found with
          | none =>
              have notHere :
                  ¬ Encloses symbolMap block (newer, older) :=
                fun encloses => Option.some_ne_none _
                  (isBlock.mpr encloses).symm
              rw [List.filter_cons_of_neg (by simpa using notHere)]
              exact later lastMatch
          | some found =>
              rw [Option.some_inj] at isBlock
              by_cases isHere : found = block
              · rw [List.filter_cons_of_pos (by simpa using isHere),
                  List.filter_cons_of_pos
                    (by simpa using isBlock.mp isHere),
                  List.map_cons]
                exact congrArg _ (later lastMatch)
              · have notHere :
                    ¬ Encloses symbolMap block (newer, older) :=
                  mt isBlock.mpr isHere
                rw [List.filter_cons_of_neg (by simpa using isHere),
                  List.filter_cons_of_neg (by simpa using notHere)]
                exact later lastMatch

variable {Average : Type} {conversions : Conversions Average}

/-- The samples of a block that a worker has in its lines -/
theorem locateLines_pairs (isScavProfile : Int)
    (lastMatch : LastMatch symbolMap) {lines : List String}
    (single :
      InOneRangeEach symbolMap (tracePairs conversions lines))
    (block : Block) :
    ((locateLines conversions isScavProfile lastMatch lines).1.filter
        (·.block = block)).map BlockSample.pair =
      lines.flatMap fun line =>
        blockPairs symbolMap block
          (adjacent ((readLine conversions line).getD [])) := by
  induction lines generalizing lastMatch with
  | nil =>
      rfl
  | cons line rest inductionHypothesis =>
      have here :=
        @locatePairs_pairs symbolMap
          (adjacent ((readLine conversions line).getD []))
          (fun pair member => single pair (List.mem_append_left _ member))
          lastMatch block
      have later (lastMatch : LastMatch symbolMap) :=
        inductionHypothesis lastMatch
          fun pair member => single pair (List.mem_append_right _ member)
      unfold locateLines
      rw [List.flatMap_cons]
      by_cases isScav : isScavProfile = 1
      · simp only [if_pos isScav]
        rw [List.filter_append, List.map_append, here, later]
      · simp only [if_neg isScav]
        rw [List.filter_append, List.map_append, here, later]

/-- The samples of a block that all workers have -/
theorem traceSamples_pairs (isScavProfile : Int)
    (lastMatches : Nat → LastMatch symbolMap) {numCores : Nat}
    (positive : 0 < numCores) {lines : List String}
    (single :
      InOneRangeEach symbolMap (tracePairs conversions lines))
    (block : Block) :
    (((traceSamples conversions isScavProfile lastMatches numCores
        lines).1.filter (·.block = block)).map BlockSample.pair).Perm
      (blockPairs symbolMap block (tracePairs conversions lines)) := by
  have located (core : Nat) :=
    @locateLines_pairs symbolMap _ conversions isScavProfile
      (lastMatches core) (stridedSlice lines core numCores)
      (fun pair member => by
        obtain ⟨line, inSlice, isPair⟩ := List.mem_flatMap.mp member
        exact single pair (List.mem_flatMap.mpr
          ⟨line, StridedSlice.mem_of_mem inSlice, isPair⟩))
      block
  rw [traceSamples, List.filter_flatMap, List.map_flatMap,
    List.flatMap_congr fun core _ => located core]
  refine (StridedSlice.flatMap_perm _ lines positive).trans (.of_eq ?_)
  rw [blockPairs, tracePairs, List.filter_flatMap]
  rfl

/-- Without a scavenger profile no branch is located for its places. -/
theorem locateLines_snd {isScavProfile : Int} (notScav : isScavProfile ≠ 1)
    (lastMatch : LastMatch symbolMap) (lines : List String) :
    (locateLines conversions isScavProfile lastMatch lines).2 = [] := by
  induction lines generalizing lastMatch with
  | nil =>
      rfl
  | cons line rest inductionHypothesis =>
      unfold locateLines
      simp only [if_neg notScav]
      exact inductionHypothesis _

end Located

section Process

variable {Average : Type} {conversions : Conversions Average}
  {symbolMap : SymbolMap}

/-- The order of the cycles does not matter for their mean. -/
theorem meanCycles_perm {first second : List Int}
    (same : first.Perm second) :
    meanCycles conversions first = meanCycles conversions second := by
  have bothEmpty : first = [] ↔ second = [] := by
    rw [← List.length_eq_zero_iff, same.length_eq, List.length_eq_zero_iff]
  simp only [meanCycles, bothEmpty, same.sum_eq, same.length_eq]

/-- The latencies are the means of the older branches' cycles. -/
theorem processLbr_isMeanOf_older
    {isScavProfile : Int} (isScav : isScavProfile ≠ 0)
    (lastMatches : Nat → LastMatch symbolMap) {numCores : Nat}
    (positive : 0 < numCores) {lines : List String}
    (single :
      InOneRangeEach symbolMap (tracePairs conversions lines))
    {profile : Profile Average}
    (isProfile :
      processLbr conversions isScavProfile lastMatches numCores lines =
        some profile) :
    IsMeanOf conversions symbolMap (·.2.cycles)
      (tracePairs conversions lines) profile.lat := by
  have wellFormed : ∀ line ∈ lines, (readLine conversions line).isSome := by
    by_contra malformed
    rw [processLbr_of_malformed positive (by simpa using malformed)]
      at isProfile
    cases isProfile
  obtain ⟨totals, tallies, isAveraged⟩ :=
    processLbr_of_wellFormed isScavProfile lastMatches numCores wellFormed
  rw [isAveraged] at isProfile
  have counts := tallies.averaged_counts (fun notScav => by
    rw [traceSamples]
    exact List.flatMap_eq_nil_iff.mpr fun core _ =>
      locateLines_snd notScav _ _) isProfile
  intro block
  -- the samples of the block have the older cycles of the pairs around it
  have cycles :=
    (traceSamples_pairs isScavProfile lastMatches positive single
      block).map (·.2.cycles)
  rw [counts.lat block, ← meanCycles_perm cycles, meanCycles]
  generalize (traceSamples conversions isScavProfile lastMatches numCores
    lines).1 = samples
  simp only [isScav, false_or, List.forall_mem_map, List.filter_map,
    List.countP_eq_length_filter, List.map_map, List.map_eq_nil_iff,
    List.filter_eq_nil_iff, List.length_map, decide_eq_true_eq]
  rfl

end Process

/-- A block that took four cycles once and nine the other time -/
def evenTrace : List String :=
  ["420/480/P/-/-/9 43f/410/P/-/-/4 720/430/P/-/-/4",
    "420/480/P/-/-/4 43f/410/P/-/-/9"]

/-- A branch from 420 nine cycles after one to 410 -/
def slowTrace : List String :=
  ["420/480/P/-/-/9 43f/410/P/-/-/4"]

end LoadProb

end Msh
