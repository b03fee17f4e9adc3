import Msh.Profile.TraceSamples

namespace Msh

namespace LoadProb

/-!
# A profile does not depend on how its trace is split

Where the ranges of the symbol map are disjoint, an address lies in one of them
at most, and `last_match` makes a lookup faster but never changes what it
finds.  Each line then contributes certain samples, whoever handles it, and
the slices of the workers have the samples of the trace in another order.
-/

namespace SymbolMap

/-- No address lies in the ranges of two symbols. -/
def Disjoint (symbolMap : SymbolMap) : Prop :=
  symbolMap.items.Pairwise fun first second =>
    ∀ addr, ¬ (first.2.Contains addr ∧ second.2.Contains addr)

variable {symbolMap : SymbolMap}

/-- An address lies in the range of one symbol. -/
theorem Disjoint.unique
    (disjoint : symbolMap.Disjoint)
    {first second : String × SymbolRange} {addr : Int}
    (ofFirst : first ∈ symbolMap.items)
    (ofSecond : second ∈ symbolMap.items)
    (inFirst : first.2.Contains addr)
    (inSecond : second.2.Contains addr) :
    first = second := by
  by_contra different
  have symmetric :
      Std.Symm fun first second : String × SymbolRange =>
        ∀ addr, ¬ (first.2.Contains addr ∧ second.2.Contains addr) :=
    ⟨fun _ _ apart addr both => apart addr both.symm⟩
  exact
    disjoint.forall ofFirst ofSecond different addr ⟨inFirst, inSecond⟩

/-- An address lies in the range of one symbol at most. -/
def InOneRange (symbolMap : SymbolMap) (addr : Int) : Prop :=
  ∀ first ∈ symbolMap.items, ∀ second ∈ symbolMap.items,
    first.2.Contains addr → second.2.Contains addr → first = second

instance (addr : Int) : Decidable (symbolMap.InOneRange addr) :=
  inferInstanceAs
    (Decidable (∀ first ∈ symbolMap.items, ∀ second ∈ symbolMap.items, _))

theorem Disjoint.inOneRange (disjoint : symbolMap.Disjoint) (addr : Int) :
    symbolMap.InOneRange addr :=
  fun _ ofFirst _ ofSecond inFirst inSecond =>
    disjoint.unique ofFirst ofSecond inFirst inSecond

/-- A place is where an address lies. -/
def Locates (symbolMap : SymbolMap) (place : Place) (addr : Int) : Prop :=
  ∃ item ∈ symbolMap.items, item.1 = place.1 ∧ item.2.Contains addr ∧
    addr - item.2.objectStart = place.2

instance (place : Place) (addr : Int) :
    Decidable (symbolMap.Locates place addr) :=
  inferInstanceAs (Decidable (∃ item ∈ symbolMap.items, _))

end SymbolMap

section Lookup

variable {symbolMap : SymbolMap}

/-- What a lookup finds does not depend on `last_match`. -/
theorem lookup_of_inOneRange {addr : Int}
    (single : symbolMap.InOneRange addr)
    (lastMatch : LastMatch symbolMap) :
    (symbolMapLookup lastMatch addr).1 =
      (symbolMapLookup (none : LastMatch symbolMap) addr).1 := by
  cases lastMatch with
  | none =>
      rfl
  | some last =>
      simp only [symbolMapLookup]
      by_cases hit : last.1.2.Contains addr
      · rw [if_pos hit]
        cases found : symbolMap.items.attach.find? fun item =>
            item.1.2.Contains addr with
        | none =>
            have missed :=
              List.find?_eq_none.mp found last (List.mem_attach _ last)
            simp [hit] at missed
        | some item =>
            have contains := List.find?_some found
            rw [decide_eq_true_eq] at contains
            have same : last = item :=
              Subtype.ext (single _ last.2 _ item.2 hit contains)
            rw [same]
      · rw [if_neg hit]
        cases symbolMap.items.attach.find? fun item =>
            item.1.2.Contains addr with
        | none => rfl
        | some item => rfl

/-- What a search returns is where the address lies. -/
theorem locates_of_lookup {addr : Int} {name : String} {offset : Int}
    (isFound :
      (symbolMapLookup (none : LastMatch symbolMap) addr).1 =
        (some name, offset)) :
    symbolMap.Locates (name, offset) addr := by
  unfold symbolMapLookup at isFound
  dsimp only at isFound
  cases isItem : symbolMap.items.attach.find? fun item =>
      item.1.2.Contains addr with
  | none =>
      rw [isItem] at isFound
      cases isFound
  | some item =>
      rw [isItem] at isFound
      cases isFound
      have contains := List.find?_some isItem
      exact ⟨item.1, item.2, rfl, of_decide_eq_true contains, rfl⟩

/-- A lookup returns the place where the address lies. -/
theorem lookup_eq_some_iff {addr : Int}
    (single : symbolMap.InOneRange addr)
    {lastMatch : LastMatch symbolMap} {place : Place} :
    (symbolMapLookup lastMatch addr).1 = (some place.1, place.2) ↔
      symbolMap.Locates place addr := by
  rw [lookup_of_inOneRange single]
  constructor
  · exact locates_of_lookup
  · rintro ⟨item, isItem, isName, contains, isOffset⟩
    unfold symbolMapLookup
    dsimp only
    cases isFound : symbolMap.items.attach.find? fun item =>
        item.1.2.Contains addr with
    | none =>
        have missed :=
          List.find?_eq_none.mp isFound ⟨item, isItem⟩ (List.mem_attach _ _)
        exact absurd contains (by simpa using missed)
    | some found =>
        have isHit := List.find?_some isFound
        rw [decide_eq_true_eq] at isHit
        have isSame := single _ found.2 _ isItem isHit contains
        dsimp only
        rw [isSame, isName, isOffset]

variable (disjoint : symbolMap.Disjoint)

include disjoint

theorem symbolMapLookup_fst
    (lastMatch : LastMatch symbolMap) (addr : Int) :
    (symbolMapLookup lastMatch addr).1 =
      (symbolMapLookup (none : LastMatch symbolMap) addr).1 :=
  lookup_of_inOneRange (disjoint.inOneRange addr) lastMatch

/-- What a pair of addresses is translated to does not depend on it either. -/
theorem localizeAddress_fst
    (lastMatch : LastMatch symbolMap) (srcPc dstPc : Int)
    (allowDiffObj : Bool) :
    (localizeAddress lastMatch srcPc dstPc allowDiffObj).1 =
      (localizeAddress (none : LastMatch symbolMap) srcPc dstPc
        allowDiffObj).1 := by
  have ofSrc := symbolMapLookup_fst disjoint lastMatch srcPc
  have ofDst :=
    symbolMapLookup_fst disjoint (symbolMapLookup lastMatch srcPc).2 dstPc
  have ofDstAlone :=
    symbolMapLookup_fst disjoint
      (symbolMapLookup (none : LastMatch symbolMap) srcPc).2 dstPc
  simp only [localizeAddress, ofSrc, ofDst, ofDstAlone]
  split
  · split <;> rfl
  · rfl

end Lookup

/-! ## What a line contributes -/

section Samples

variable (symbolMap : SymbolMap)

/-- The block between two addresses, looked up without `last_match` -/
def blockAt (srcPc dstPc : Int) (allowDiffObj : Bool) : Option Block :=
  (localizeAddress (none : LastMatch symbolMap) srcPc dstPc
    allowDiffObj).1

/-- The executions of blocks, with their cycles, between branches -/
def blockSamplesFrom (src : Option Int) : List Branch → List (Block × Int)
  | [] => []
  | branch :: rest =>
      let later := blockSamplesFrom (some branch.src) rest
      match src with
      | none => later
      | some src =>
          match blockAt symbolMap branch.dst src false with
          | none => later
          | some triple => (triple, branch.cycles) :: later

/-- The source and the destination of each branch -/
def predecessorSamples (branches : List Branch) : List (Place × Place) :=
  (branches.filterMap fun branch =>
    blockAt symbolMap branch.src branch.dst true).map fun triple =>
      ((triple.1, triple.2.1), (triple.1, triple.2.2))

variable {Average : Type} (conversions : Conversions Average)

/-- The block samples of a line -/
def lineBlocks (line : String) : List (Block × Int) :=
  blockSamplesFrom symbolMap none
    ((readLine conversions line).getD [])

/-- The predecessor samples of a line -/
def linePredecessors (isScavProfile : Int) (line : String) :
    List (Place × Place) :=
  if isScavProfile = 1 then
    predecessorSamples symbolMap ((readLine conversions line).getD [])
  else []

end Samples

section Located

variable {symbolMap : SymbolMap} (disjoint : symbolMap.Disjoint)

include disjoint

/-- A worker locates the block samples of a list. -/
theorem locatePairs_fst
    (newer : Branch) (lastMatch : LastMatch symbolMap)
    (branches : List Branch) :
    (locatePairs lastMatch (adjacent (newer :: branches))).1.map
        BlockSample.counted =
      blockSamplesFrom symbolMap (some newer.src) branches := by
  induction branches generalizing newer lastMatch with
  | nil =>
      rfl
  | cons older rest inductionHypothesis =>
      have isNext : adjacent (newer :: older :: rest) =
          (newer, older) :: adjacent (older :: rest) :=
        rfl
      have found :=
        localizeAddress_fst disjoint lastMatch older.dst newer.src false
      rw [isNext]
      unfold locatePairs blockSamplesFrom
      simp only [blockAt, ← found]
      cases localizeAddress lastMatch older.dst newer.src false with
      | mk triple lastMatch =>
          cases triple with
          | none => exact inductionHypothesis older lastMatch
          | some triple =>
              exact congrArg _ (inductionHypothesis older lastMatch)

/-- A worker locates the predecessors of a list. -/
theorem locateBranches_fst
    (lastMatch : LastMatch symbolMap) (branches : List Branch) :
    (locateBranches lastMatch branches).1 =
      predecessorSamples symbolMap branches := by
  induction branches generalizing lastMatch with
  | nil =>
      rfl
  | cons branch rest inductionHypothesis =>
      have found :=
        localizeAddress_fst disjoint lastMatch branch.src branch.dst true
      have here : blockAt symbolMap branch.src branch.dst true =
          (localizeAddress lastMatch branch.src branch.dst true).1 :=
        found.symm
      unfold locateBranches predecessorSamples
      rw [List.filterMap_cons, here]
      cases localizeAddress lastMatch branch.src branch.dst true with
      | mk triple lastMatch =>
          cases triple with
          | none => exact inductionHypothesis lastMatch
          | some triple => exact congrArg _ (inductionHypothesis lastMatch)

variable {Average : Type} (conversions : Conversions Average)

/-- A worker locates the samples of its lines. -/
theorem locateLines_eq
    (isScavProfile : Int) (lastMatch : LastMatch symbolMap)
    (lines : List String) :
    (locateLines conversions isScavProfile lastMatch lines).1.map
          BlockSample.counted =
        lines.flatMap (lineBlocks symbolMap conversions) ∧
      (locateLines conversions isScavProfile lastMatch lines).2 =
        lines.flatMap
          (linePredecessors symbolMap conversions isScavProfile) := by
  induction lines generalizing lastMatch with
  | nil =>
      exact ⟨rfl, rfl⟩
  | cons line rest inductionHypothesis =>
      have isBlocks (lastMatch : LastMatch symbolMap) :
          (locatePairs lastMatch
              (adjacent ((readLine conversions line).getD []))).1.map
                BlockSample.counted =
            lineBlocks symbolMap conversions line := by
        rw [lineBlocks]
        cases (readLine conversions line).getD [] with
        | nil => rfl
        | cons newer branches =>
            exact locatePairs_fst disjoint newer lastMatch branches
      unfold locateLines
      rw [List.flatMap_cons, List.flatMap_cons, linePredecessors]
      by_cases isScav : isScavProfile = 1
      · simp only [if_pos isScav]
        rw [isScav] at inductionHypothesis ⊢
        rw [List.map_append, isBlocks, locateBranches_fst disjoint,
          (inductionHypothesis _).1, (inductionHypothesis _).2]
        exact ⟨rfl, rfl⟩
      · simp only [if_neg isScav]
        rw [List.map_append, isBlocks, (inductionHypothesis _).1,
          (inductionHypothesis _).2]
        exact ⟨rfl, rfl⟩

/-- The samples of all workers are those of the lines. -/
theorem traceSamples_perm
    (isScavProfile : Int) (lastMatches : Nat → LastMatch symbolMap)
    {numCores : Nat} (positive : 0 < numCores) (lines : List String) :
    ((traceSamples conversions isScavProfile lastMatches numCores
            lines).1.map BlockSample.counted).Perm
        (lines.flatMap (lineBlocks symbolMap conversions)) ∧
      (traceSamples conversions isScavProfile lastMatches numCores
            lines).2.Perm
        (lines.flatMap
          (linePredecessors symbolMap conversions isScavProfile)) := by
  have located (core : Nat) :=
    locateLines_eq disjoint conversions isScavProfile (lastMatches core)
      (stridedSlice lines core numCores)
  constructor
  · rw [traceSamples, List.map_flatMap,
      List.flatMap_congr fun core _ => (located core).1]
    exact StridedSlice.flatMap_perm _ lines positive
  · rw [traceSamples, List.flatMap_congr fun core _ => (located core).2]
    exact StridedSlice.flatMap_perm _ lines positive

end Located

/-! ## The profile of a trace -/

/-- Two profiles are equal as maps. -/
structure Profile.Same
    {Average : Type} (first second : Profile Average) : Prop where
  cf : ∀ triple, first.cf.get? triple = second.cf.get? triple
  lat : ∀ triple, first.lat.get? triple = second.lat.get? triple
  pred :
    ∀ dst,
      (first.pred.get? dst).map Dict.get? =
        (second.pred.get? dst).map Dict.get?

namespace Tallies

/-- Tallies do not depend on the order of the samples. -/
theorem perm {dicts : SubDicts} {blocks blocks' : List (Block × Int)}
    {predecessors predecessors' : List (Place × Place)}
    (tallies : Tallies dicts blocks predecessors)
    (sameBlocks : blocks.Perm blocks')
    (samePredecessors : predecessors.Perm predecessors') :
    Tallies dicts blocks' predecessors' := by
  constructor
  · rw [tallies.cf]
    exact ((sameBlocks.map _).map _).sum_eq
  · rw [tallies.lat]
    exact ((sameBlocks.map _).map _).sum_eq
  · rw [tallies.pred]
    exact ((samePredecessors.map _).map _).sum_eq

variable
  {Average : Type} {conversions : Conversions Average}
  {isScavProfile : Int} {totals others : SubDicts}
  {blocks : List (Block × Int)} {predecessors : List (Place × Place)}

/-- Dictionaries with the same samples give the same profile. -/
theorem averaged_same
    (tallies : Tallies totals blocks predecessors)
    (otherTallies : Tallies others blocks predecessors) :
    Option.Rel Profile.Same
      (averaged conversions isScavProfile totals)
      (averaged conversions isScavProfile others) := by
  have sameCf (triple : Block) :
      totals.cf.get? triple = others.cf.get? triple := by
    have same :=
      Dict.tally_eq_iff.mp (tallies.cf.trans otherTallies.cf.symm) triple
    simpa using same
  have sameLat (triple : Block) :
      totals.lat.get? triple = others.lat.get? triple := by
    have same :=
      Dict.tally_eq_iff.mp
        (tallies.lat.trans otherTallies.lat.symm) triple
    simpa using same
  have samePred (dst : Place) :
      (totals.pred.get? dst).map Dict.get? =
        (others.pred.get? dst).map Dict.get? := by
    have same :=
      Dict.tally_eq_iff.mp
        (tallies.pred.trans otherTallies.pred.symm) dst
    cases here : totals.pred.get? dst with
    | none =>
        rw [here, Option.map_none, eq_comm, Option.map_eq_none_iff] at same
        rw [same]
    | some sources =>
        rw [here, Option.map_some, eq_comm, Option.map_eq_some_iff] at same
        obtain ⟨others, isOther, sameTally⟩ := same
        rw [isOther, Option.map_some, Option.map_some, Option.some_inj]
        funext src
        simpa using (Dict.tally_eq_iff.mp sameTally src).symm
  unfold averaged
  split
  · exact .some ⟨sameCf, fun _ => rfl, fun _ => rfl⟩
  · have sameAverages :=
      Dict.mapValues?_rel
        (fun value : Int × Nat => conversions.trueDiv value.1 value.2)
        sameLat
    generalize
      totals.lat.mapValues? _ = average,
      others.lat.mapValues? _ = otherAverage at sameAverages ⊢
    cases sameAverages with
    | some sameAverage => exact .some ⟨sameCf, sameAverage, samePred⟩
    | none => exact .none

end Tallies

section Process

variable
  {Average : Type} {conversions : Conversions Average}
  {symbolMap : SymbolMap} (disjoint : symbolMap.Disjoint)

include disjoint

/--
However many workers share the trace and whatever their `last_match` is, the
profile is that of one worker, and has each sample once.
-/
theorem processLbr_splitIndependent
    (isScavProfile : Int) (lastMatches : Nat → LastMatch symbolMap)
    (lastMatch : LastMatch symbolMap)
    {numCores : Nat} (positive : 0 < numCores) (lines : List String) :
    Option.Rel Profile.Same
        (processLbr conversions isScavProfile lastMatches numCores lines)
        (processLbr conversions isScavProfile (fun _ => lastMatch) 1
          lines) ∧
      ∀ profile,
        processLbr conversions isScavProfile lastMatches numCores lines =
          some profile →
        profile.Counts conversions isScavProfile
          (lines.flatMap (lineBlocks symbolMap conversions))
          (lines.flatMap
            (linePredecessors symbolMap conversions isScavProfile)) := by
  by_cases wellFormed :
      ∀ line ∈ lines, (readLine conversions line).isSome
  · obtain ⟨totals, workerTallies, split⟩ :=
      processLbr_of_wellFormed isScavProfile lastMatches numCores wellFormed
    obtain ⟨wholeTotals, wholeWorkerTallies, whole⟩ :=
      processLbr_of_wellFormed isScavProfile (fun _ => lastMatch) 1
        wellFormed
    obtain ⟨sameBlocks, samePredecessors⟩ :=
      traceSamples_perm disjoint conversions isScavProfile lastMatches
        positive lines
    obtain ⟨wholeBlocks, wholePredecessors⟩ :=
      traceSamples_perm disjoint conversions isScavProfile
        (fun _ => lastMatch) Nat.one_pos lines
    have tallies := workerTallies.perm sameBlocks samePredecessors
    have wholeTallies :=
      wholeWorkerTallies.perm wholeBlocks wholePredecessors
    rw [split, whole]
    exact ⟨tallies.averaged_same wholeTallies,
      fun profile => tallies.averaged_counts (by
        intro notProfiled
        simp [linePredecessors, notProfiled])⟩
  · have malformed :
        ∃ line ∈ lines, readLine conversions line = none := by
      simpa using wellFormed
    rw [processLbr_of_malformed positive malformed,
      processLbr_of_malformed Nat.one_pos malformed]
    exact ⟨.none, nofun⟩

end Process

/-- Two objects with one symbol each -/
def twoSymbols : SymbolMap where
  items := [("app", ⟨0x400, 0x410, 0x4ff⟩), ("lib", ⟨0x700, 0x700, 0x7ff⟩)]
  nodup := by decide

theorem twoSymbols_disjoint : twoSymbols.Disjoint := by
  simp only [SymbolMap.Disjoint, twoSymbols, SymbolRange.Contains,
    List.pairwise_cons, List.mem_cons, List.not_mem_nil, or_false,
    forall_eq, false_imp_iff, implies_true, List.Pairwise.nil, and_true]
  omega

/-- A trace of two samples, an empty line and a line with one more -/
def shortTrace : List String :=
  ["420/480/P/-/-/9 43f/410/P/-/-/4 720/430/P/-/-/6",
    "", "43f/410/P/-/-/4 43f/410/M/-/-/8"]

theorem processLbr_splitIndependent_twoWorkers :
    Option.Rel Profile.Same
        (processLbr plainConversions 1
          (fun _ => (none : LastMatch twoSymbols)) 2 shortTrace)
        (processLbr plainConversions 1
          (fun _ => (none : LastMatch twoSymbols)) 1 shortTrace) ∧
      (processLbr plainConversions 1
          (fun _ => (none : LastMatch twoSymbols)) 2 shortTrace).isSome :=
  ⟨(processLbr_splitIndependent twoSymbols_disjoint 1 _ _ (by decide)
      shortTrace).1,
    by decide +kernel⟩

end LoadProb

end Msh
