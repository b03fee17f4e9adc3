import Msh.Profile.SplitTrace

namespace Msh

namespace LoadProb

/-!
# Which places the predecessor counts name

`__localize_address` returns one object for two addresses, which is the
object of the source.  `create_predecessor_profile` allows the two to lie in
different objects, and then names the destination by the source's object.  A
line on which a single branch is recorded is not read at all.
-/

section Branches

variable {Average : Type} (conversions : Conversions Average)

/-- The branches recorded on a line, as far as they are to be counted -/
def lineBranches (line : String) : List Branch :=
  (((splitSpace line).mapM (branchOfToken conversions)).getD []).take
    lbrSubsampleSize

/-- The branches recorded in a trace -/
def recordedBranches (lines : List String) : List Branch :=
  lines.flatMap (lineBranches conversions)

/-- Those that stand alone on their line -/
def loneBranches (lines : List String) : List Branch :=
  recordedBranches conversions
    (lines.filter fun line => (splitSpace line).length = 1)

/-- The branches of a trace that are counted -/
def countedBranches (lines : List String) : List Branch :=
  lines.flatMap fun line => (readLine conversions line).getD []

/-- The branches that are not counted are those that stand alone. -/
theorem countP_recordedBranches (test : Branch → Bool)
    (lines : List String) :
    (recordedBranches conversions lines).countP test =
      (countedBranches conversions lines).countP test +
        (loneBranches conversions lines).countP test := by
  induction lines with
  | nil =>
      rfl
  | cons line rest inductionHypothesis =>
      simp only [loneBranches, recordedBranches, countedBranches]
        at inductionHypothesis ⊢
      rw [List.flatMap_cons, List.flatMap_cons, List.countP_append,
        List.countP_append, inductionHypothesis]
      by_cases alone : (splitSpace line).length = 1
      · have notRead : readLine conversions line = some [] := by
          simp [readLine, alone]
        rw [List.filter_cons_of_pos (by simpa using alone), notRead,
          List.flatMap_cons, List.countP_append]
        simp only [Option.getD_some, List.countP_nil]
        omega
      · have isRead : (readLine conversions line).getD [] =
            lineBranches conversions line := by
          unfold readLine lineBranches
          by_cases short : (splitSpace line).length < 2
          · have noTokens : splitSpace line = [] :=
              List.length_eq_zero_iff.mp (by omega)
            rw [noTokens]
            rfl
          · simp only [if_neg short]
            cases (splitSpace line).mapM (branchOfToken conversions) with
            | none => rfl
            | some branches => rfl
        rw [List.filter_cons_of_neg (by simpa using alone), isRead]
        omega

end Branches

/-- The number of branches from a place to a place -/
def branchesBetween (symbolMap : SymbolMap) (branches : List Branch)
    (src dst : Place) : Nat :=
  branches.countP fun branch =>
    symbolMap.Locates src branch.src ∧ symbolMap.Locates dst branch.dst

/-- `pred_dict` has the branches between two places, and nothing else. -/
def CountsBranches (symbolMap : SymbolMap) (branches : List Branch)
    (pred : Dict Place (Dict Place Nat)) : Prop :=
  ∀ src dst count,
    (pred.get? dst).bind (·.get? src) = some count ↔
      0 < count ∧ branchesBetween symbolMap branches src dst = count

/-- No branch goes from one object to another. -/
def StaysInObject (symbolMap : SymbolMap) (branch : Branch) : Prop :=
  ∀ first ∈ symbolMap.items, ∀ second ∈ symbolMap.items,
    first.2.Contains branch.src → second.2.Contains branch.dst →
      first.1 = second.1

/-- Both ends of a branch lie in objects. -/
def InObjects (symbolMap : SymbolMap) (branch : Branch) : Prop :=
  (∃ item ∈ symbolMap.items, item.2.Contains branch.src) ∧
    ∃ item ∈ symbolMap.items, item.2.Contains branch.dst

instance (symbolMap : SymbolMap) (branch : Branch) :
    Decidable (InObjects symbolMap branch) :=
  inferInstanceAs (Decidable (_ ∧ _))

instance (symbolMap : SymbolMap) (branch : Branch) :
    Decidable (StaysInObject symbolMap branch) :=
  inferInstanceAs
    (Decidable (∀ first ∈ symbolMap.items, ∀ second ∈ symbolMap.items, _))

section Places

variable {symbolMap : SymbolMap} (disjoint : symbolMap.Disjoint)

theorem StaysInObject.same_object {branch : Branch} {src dst : Place}
    (stays : StaysInObject symbolMap branch)
    (ofSrc : symbolMap.Locates src branch.src)
    (ofDst : symbolMap.Locates dst branch.dst) : src.1 = dst.1 := by
  obtain ⟨first, isFirst, srcName, srcContains, _⟩ := ofSrc
  obtain ⟨second, isSecond, dstName, dstContains, _⟩ := ofDst
  rw [← srcName, ← dstName]
  exact stays first isFirst second isSecond srcContains dstContains

/-- The places between which a branch in objects goes -/
theorem InObjects.locates {branch : Branch}
    (inObjects : InObjects symbolMap branch) :
    ∃ src dst, symbolMap.Locates src branch.src ∧
      symbolMap.Locates dst branch.dst := by
  obtain ⟨⟨first, isFirst, srcContains⟩, second, isSecond, dstContains⟩ :=
    inObjects
  exact ⟨(first.1, branch.src - first.2.objectStart),
    (second.1, branch.dst - second.2.objectStart),
    ⟨first, isFirst, rfl, srcContains, rfl⟩,
    ⟨second, isSecond, rfl, dstContains, rfl⟩⟩

theorem InObjects.of_locates {branch : Branch} {src dst : Place}
    (ofSrc : symbolMap.Locates src branch.src)
    (ofDst : symbolMap.Locates dst branch.dst) :
    InObjects symbolMap branch := by
  obtain ⟨first, isFirst, _, srcContains, _⟩ := ofSrc
  obtain ⟨second, isSecond, _, dstContains, _⟩ := ofDst
  exact ⟨⟨first, isFirst, srcContains⟩, second, isSecond, dstContains⟩

include disjoint in
/-- A located branch leads to its place in the object of its source. -/
theorem blockAt_eq_some_iff {branch : Branch} {src : Place} {offset : Int} :
    blockAt symbolMap branch.src branch.dst true =
        some (src.1, src.2, offset) ↔
      symbolMap.Locates src branch.src ∧
        ∃ name, symbolMap.Locates (name, offset) branch.dst := by
  let between := (symbolMapLookup (none : LastMatch symbolMap) branch.src).2
  have ofSrc (place : Place) :=
    @lookup_eq_some_iff symbolMap _ (disjoint.inOneRange branch.src) none
      place
  have ofDst (place : Place) :=
    @lookup_eq_some_iff symbolMap _ (disjoint.inOneRange branch.dst)
      between place
  simp only [← ofSrc, ← ofDst]
  unfold blockAt localizeAddress
  dsimp only
  generalize (symbolMapLookup (none : LastMatch symbolMap) branch.src).1 =
    first
  generalize (symbolMapLookup between branch.dst).1 = second
  obtain ⟨firstName, firstOffset⟩ := first
  obtain ⟨secondName, secondOffset⟩ := second
  cases firstName with
  | none => simp
  | some firstName =>
      cases secondName with
      | none => simp
      | some secondName => simp [Prod.ext_iff, and_assoc]

/-- The samples of a list of branches, in order -/
theorem predecessorSamples_flatMap {Item : Type} (items : List Item)
    (branches : Item → List Branch) :
    (items.flatMap fun item => predecessorSamples symbolMap (branches item)) =
      predecessorSamples symbolMap (items.flatMap branches) := by
  rw [predecessorSamples, List.filterMap_flatMap, List.map_flatMap]
  rfl

/-- A sample names both places by the source's object. -/
theorem count_predecessorSamples (branches : List Branch)
    (src dst : Place) :
    (predecessorSamples symbolMap branches).count (src, dst) =
      branches.countP fun branch =>
        blockAt symbolMap branch.src branch.dst true =
            some (src.1, src.2, dst.2) ∧ src.1 = dst.1 := by
  rw [predecessorSamples, List.count_eq_countP, List.countP_map,
    List.countP_filterMap]
  refine List.countP_congr fun branch _ => ?_
  cases blockAt symbolMap branch.src branch.dst true with
  | none => simp
  | some triple =>
      obtain ⟨object, srcOffset, dstOffset⟩ := triple
      simp only [Option.map_some, Option.getD_some, Function.comp_apply,
        beq_iff_eq, Prod.ext_iff, Option.some.injEq, decide_eq_true_eq]
      constructor
      · rintro ⟨⟨rfl, rfl⟩, isObject, rfl⟩
        exact ⟨⟨rfl, rfl, rfl⟩, isObject⟩
      · rintro ⟨⟨rfl, rfl, rfl⟩, isObject⟩
        exact ⟨⟨rfl, rfl⟩, isObject, rfl⟩

include disjoint in
/-- Where branches stay in their objects, samples name the right places. -/
theorem countP_blockAt {branches : List Branch}
    (stays : ∀ branch ∈ branches, StaysInObject symbolMap branch)
    (src dst : Place) :
    (branches.countP fun branch =>
        blockAt symbolMap branch.src branch.dst true =
            some (src.1, src.2, dst.2) ∧ src.1 = dst.1) =
      branchesBetween symbolMap branches src dst := by
  refine List.countP_congr fun branch isBranch => ?_
  rw [decide_eq_true_eq, decide_eq_true_eq, blockAt_eq_some_iff disjoint]
  constructor
  · rintro ⟨⟨ofSrc, name, ofDst⟩, isObject⟩
    have isName : src.1 = name :=
      (stays branch isBranch).same_object ofSrc ofDst
    rw [← isName, isObject] at ofDst
    exact ⟨ofSrc, ofDst⟩
  · rintro ⟨ofSrc, ofDst⟩
    exact ⟨⟨ofSrc, dst.1, ofDst⟩,
      (stays branch isBranch).same_object ofSrc ofDst⟩

theorem branchesBetween_pos {branches : List Branch} {branch : Branch}
    {src dst : Place} (isBranch : branch ∈ branches)
    (ofSrc : symbolMap.Locates src branch.src)
    (ofDst : symbolMap.Locates dst branch.dst) :
    0 < branchesBetween symbolMap branches src dst :=
  List.countP_pos_iff.mpr ⟨branch, isBranch, decide_eq_true ⟨ofSrc, ofDst⟩⟩

/-- A profile that counts the branches has the count for each two places. -/
theorem CountsBranches.getD {branches : List Branch}
    {pred : Dict Place (Dict Place Nat)}
    (counts : CountsBranches symbolMap branches pred) (src dst : Place) :
    ((pred.get? dst).bind (·.get? src)).getD 0 =
      branchesBetween symbolMap branches src dst := by
  cases isEntry : (pred.get? dst).bind (·.get? src) with
  | some count => exact ((counts src dst count).mp isEntry).2.symm
  | none =>
      by_contra notZero
      have missing := (counts src dst _).mpr
        ⟨Nat.pos_of_ne_zero (Ne.symm notZero), rfl⟩
      rw [isEntry] at missing
      cases missing

/-- Where no entry is for places of two objects, no branch that is counted
leaves its object. -/
theorem CountsBranches.staysInObject {branches : List Branch}
    {pred : Dict Place (Dict Place Nat)}
    (counts : CountsBranches symbolMap branches pred)
    (oneObject : ∀ src dst : Place, src.1 ≠ dst.1 →
      (pred.get? dst).bind (·.get? src) = none) :
    ∀ branch ∈ branches, StaysInObject symbolMap branch := by
  intro branch isBranch first isFirst second isSecond srcContains dstContains
  by_contra isCrossing
  let src : Place := (first.1, branch.src - first.2.objectStart)
  let dst : Place := (second.1, branch.dst - second.2.objectStart)
  have ofSrc : symbolMap.Locates src branch.src :=
    ⟨first, isFirst, rfl, srcContains, rfl⟩
  have ofDst : symbolMap.Locates dst branch.dst :=
    ⟨second, isSecond, rfl, dstContains, rfl⟩
  have isEntry := (counts src dst _).mpr
    ⟨branchesBetween_pos isBranch ofSrc ofDst, rfl⟩
  rw [oneObject src dst isCrossing] at isEntry
  cases isEntry

include disjoint in
/-- The samples name the right places when and only when no recorded branch
leads to another object and all branches between objects are counted. -/
theorem countsBranches_iff {counted lone recorded : List Branch}
    (together : ∀ test : Branch → Bool,
      recorded.countP test = counted.countP test + lone.countP test)
    {pred : Dict Place (Dict Place Nat)}
    (isTally :
      pred.tally sourceTally =
        ((predItems (predecessorSamples symbolMap counted)).map fun item =>
          Dict.single sourceTally item.1 item.2).sum) :
    CountsBranches symbolMap recorded pred ↔
      (∀ branch ∈ recorded, StaysInObject symbolMap branch) ∧
        ∀ branch ∈ lone, ¬ InObjects symbolMap branch := by
  have isCount (src dst : Place) := predecessors_get? isTally src dst
  simp only [count_predecessorSamples] at isCount
  have split (src dst : Place) :
      branchesBetween symbolMap recorded src dst =
        branchesBetween symbolMap counted src dst +
          branchesBetween symbolMap lone src dst :=
    together _
  have isRecorded : ∀ branch ∈ counted, branch ∈ recorded := by
    intro branch isCounted
    have one := together (· = branch)
    have positive : 0 < counted.countP (· = branch) :=
      List.countP_pos_iff.mpr ⟨branch, isCounted, decide_eq_true rfl⟩
    obtain ⟨other, isOther, isSame⟩ :=
      List.countP_pos_iff.mp (by omega : 0 < recorded.countP (· = branch))
    exact of_decide_eq_true isSame ▸ isOther
  have named (stays : ∀ branch ∈ recorded, StaysInObject symbolMap branch)
      (src dst : Place) :=
    countP_blockAt disjoint
      (fun branch isCounted => stays branch (isRecorded branch isCounted))
      src dst
  constructor
  · intro counts
    have stays := counts.staysInObject fun src dst isCrossing => by
      rw [isCount, if_pos]
      exact List.countP_eq_zero.mpr fun _ _ isSample =>
        isCrossing (of_decide_eq_true isSample).2
    refine ⟨stays, fun branch isLone inObjects => ?_⟩
    obtain ⟨src, dst, ofSrc, ofDst⟩ := inObjects.locates
    have isPositive := branchesBetween_pos isLone ofSrc ofDst
    have isTotal := counts.getD src dst
    rw [isCount, named stays, split] at isTotal
    split at isTotal
    · rw [Option.getD_none] at isTotal
      omega
    · rw [Option.getD_some] at isTotal
      omega
  · rintro ⟨stays, noLone⟩ src dst count
    have noneLone : branchesBetween symbolMap lone src dst = 0 :=
      List.countP_eq_zero.mpr fun branch isLone isBetween =>
        noLone branch isLone
          (.of_locates (of_decide_eq_true isBetween).1
            (of_decide_eq_true isBetween).2)
    rw [isCount, named stays, split, noneLone, Nat.add_zero]
    split
    · next isZero =>
        rw [isZero]
        constructor
        · rintro ⟨⟩
        · rintro ⟨isPositive, rfl⟩
          cases isPositive
    · next notZero =>
        rw [Option.some_inj]
        constructor
        · rintro rfl
          exact ⟨Nat.pos_of_ne_zero notZero, rfl⟩
        · exact fun both => both.2

end Places

section Process

variable {Average : Type} {conversions : Conversions Average}
  {symbolMap : SymbolMap}

/--
The predecessor profile counts, for two places, the branches recorded from one
to the other when and only when none of them leads to another object and none
inside the objects stands alone on its line.
-/
theorem processLbr_predecessors_iff (disjoint : symbolMap.Disjoint)
    (lastMatches : Nat → LastMatch symbolMap) {numCores : Nat}
    (positive : 0 < numCores) {lines : List String}
    {profile : Profile Average}
    (isProfile :
      processLbr conversions 1 lastMatches numCores lines = some profile) :
    CountsBranches symbolMap (recordedBranches conversions lines)
        profile.pred ↔
      (∀ branch ∈ recordedBranches conversions lines,
          StaysInObject symbolMap branch) ∧
        ∀ branch ∈ loneBranches conversions lines,
          ¬ InObjects symbolMap branch := by
  have wellFormed : ∀ line ∈ lines, (readLine conversions line).isSome := by
    by_contra malformed
    rw [processLbr_of_malformed positive (by simpa using malformed)]
      at isProfile
    cases isProfile
  obtain ⟨totals, workerTallies, isAveraged⟩ :=
    processLbr_of_wellFormed 1 lastMatches numCores wellFormed
  obtain ⟨sameBlocks, samePredecessors⟩ :=
    traceSamples_perm disjoint conversions 1 lastMatches positive lines
  have isTally := (workerTallies.perm sameBlocks samePredecessors).pred
  rw [isAveraged, averaged, if_neg (by decide), Option.map_eq_some_iff]
    at isProfile
  obtain ⟨lat, _, rfl⟩ := isProfile
  refine countsBranches_iff disjoint
    (fun test => countP_recordedBranches conversions test lines) ?_
  rw [isTally, countedBranches, ← predecessorSamples_flatMap]
  rfl

end Process

/-- A trace whose branches stay in their objects, with one that stands alone
and leaves them -/
def innerTrace : List String :=
  ["420/480/P/-/-/9 43f/410/P/-/-/4", "710/720/P/-/-/6 720/710/P/-/-/2",
    "420/300/P/-/-/5"]

theorem innerTrace_predecessors :
    ∃ profile,
      processLbr plainConversions 1
          (fun _ => (none : LastMatch twoSymbols)) 56 innerTrace =
        some profile ∧
      CountsBranches twoSymbols
        (recordedBranches plainConversions innerTrace) profile.pred := by
  obtain ⟨profile, isProfile⟩ : ∃ profile,
      processLbr plainConversions 1
          (fun _ => (none : LastMatch twoSymbols)) 56 innerTrace =
        some profile :=
    Option.isSome_iff_exists.mp (by decide +kernel)
  refine ⟨profile, isProfile, ?_⟩
  exact (processLbr_predecessors_iff twoSymbols_disjoint _ (by decide)
    isProfile).mpr (by decide +kernel)

/-- A call from the application to the library, and another branch -/
def callTrace : List String :=
  ["420/720/P/-/-/9 43f/410/P/-/-/4"]

/-- The call is counted as a branch inside the application. -/
theorem callTrace_not_predecessors :
    ∃ profile,
      processLbr plainConversions 1
          (fun _ => (none : LastMatch twoSymbols)) 56 callTrace =
        some profile ∧
      (profile.pred.get? ("app", 0x20)).bind (·.get? ("app", 0x20)) =
        some 1 ∧
      ¬ CountsBranches twoSymbols
        (recordedBranches plainConversions callTrace) profile.pred := by
  obtain ⟨profile, isProfile⟩ : ∃ profile,
      processLbr plainConversions 1
          (fun _ => (none : LastMatch twoSymbols)) 56 callTrace =
        some profile :=
    Option.isSome_iff_exists.mp (by decide +kernel)
  have isOne : (processLbr plainConversions 1
      (fun _ => (none : LastMatch twoSymbols)) 56 callTrace).bind
        (fun profile =>
          (profile.pred.get? ("app", 0x20)).bind (·.get? ("app", 0x20))) =
      some 1 := by
    decide +kernel
  rw [isProfile, Option.bind_some] at isOne
  refine ⟨profile, isProfile, isOne, ?_⟩
  intro counts
  exact absurd ((counts _ _ _).mp isOne).2 (by decide +kernel)

end LoadProb

end Msh
