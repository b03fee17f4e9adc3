import Msh.Profile.PredecessorPlaces

namespace Msh

namespace LoadProb

/-!
# Executions and misses of a load

`compute_prob` estimates for each address of a list how often it was executed,
from the blocks that were sampled around it, and how often it missed the
cache, from summaries which count the samples of each program counter.  The
summaries give absolute addresses; the counts are kept under the place of the
address.
-/

/-- The arithmetic of Python's floating-point numbers -/
structure Arithmetic (Number : Type) extends Conversions Number where
  /-- `number * integer`, unless it raises `OverflowError` -/
  mul : Number → Int → Option Number

/-- What a `LOAD_PROB` line is printed from; a count may be the integer 0. -/
structure LoadLine (Number : Type) where
  objName : String
  addr : Int
  l2MissCnt : Option Number
  l3MissCnt : Option Number
  execCnt : Number

/-- The place that a line is about -/
def LoadLine.place {Number : Type} (load : LoadLine Number) : Place :=
  (load.objName, load.addr)

section Computation

variable {Number : Type} (arithmetic : Arithmetic Number)
  (samplingRateInCnt : Int)

/-- `sample_to_approx_total` -/
def sampleToApproxTotal (execCnt : Int) (scale : Nat) : Option Number :=
  (arithmetic.trueDiv execCnt scale).bind
    (arithmetic.mul · samplingRateInCnt)

/-- The program counter and the sample count of a summary line -/
def readSummary (line : String) : Option (Int × Int) := do
  let tokens := splitSpace line
  let pc ← arithmetic.int (strip (← tokens[0]?)) 16
  let sampleCnt ← arithmetic.int (strip (← tokens[1]?)) 10
  return (pc, sampleCnt)

/-- The program counters and the sample counts of a summary -/
def summaryEntries (lines : List String) : List (Int × Int) :=
  lines.filterMap (readSummary arithmetic)

/-- The loop of `create_cm_dict`, and `last_match` after it -/
def createCmDict {symbolMap : SymbolMap} (dic : Dict Place Number)
    (lastMatch : LastMatch symbolMap) :
    List String → Option (Dict Place Number × LastMatch symbolMap)
  | [] => some (dic, lastMatch)
  | line :: rest =>
      match readSummary arithmetic line with
      | none => none
      | some (pc, sampleCnt) =>
          let found := symbolMapLookup lastMatch pc
          match found.1.1 with
          | none => createCmDict dic found.2 rest
          | some objName =>
              match sampleToApproxTotal arithmetic samplingRateInCnt
                  sampleCnt 1 with
              | none => none
              | some total =>
                  createCmDict (dic.set (objName, found.1.2) total)
                    found.2 rest

/-- The object and the address of a line of the address list -/
def readAddress (line : String) : Option Place := do
  let tokens := splitSpace line
  let objName := strip (← tokens[0]?)
  let addr ← arithmetic.int (strip (← tokens[1]?)) 16
  return (objName, addr)

/-- Does the block of a control-flow tuple include a place? -/
def includesPlace (place : Place) (block : Block) : Bool :=
  block.1 = place.1 ∧ block.2.1 ≤ place.2 ∧ place.2 ≤ block.2.2

/-- "Loop through all control flow tuples to find the ones that include the
given address" -/
def sampleCntOf (cf : Dict Block Nat) (place : Place) : Nat :=
  cf.items.foldl
    (fun sampleCnt item =>
      if includesPlace place item.1 then sampleCnt + item.2 else sampleCnt)
    0

/-- What `compute_prob` prints for a place -/
def loadLine (cf : Dict Block Nat) (l2m l3m : Dict Place Number)
    (place : Place) : Option (LoadLine Number) :=
  (sampleToApproxTotal arithmetic samplingRateInCnt (sampleCntOf cf place)
    lbrSubsampleSize).map fun execCnt =>
      ⟨place.1, place.2, l2m.get? place, l3m.get? place, execCnt⟩

/-- `compute_prob` -/
def computeProb (cf : Dict Block Nat) (l2m l3m : Dict Place Number)
    (lines : List String) : Option (List (LoadLine Number)) :=
  lines.mapM fun line =>
    (readAddress arithmetic line).bind
      (loadLine arithmetic samplingRateInCnt cf l2m l3m)

/-- The lines of the four files that `run` is called with -/
structure TraceFiles where
  lbrTrace : List String
  l2Summary : List String
  l3Summary : List String
  addrList : List String

/--
`run`: the profile, and what `compute_prob` prints.  The workers look up the
addresses of the trace, so that `last_match` is `None` before the first
summary is read.
-/
def run (isScavProfile : Int) {symbolMap : SymbolMap}
    (lastMatches : Nat → LastMatch symbolMap) (numCores : Nat)
    (files : TraceFiles) :
    Option (Profile Number × List (LoadLine Number)) := do
  let profile ←
    processLbr arithmetic.toConversions isScavProfile lastMatches numCores
      files.lbrTrace
  let l2m ←
    createCmDict arithmetic samplingRateInCnt Dict.empty
      (none : LastMatch symbolMap) files.l2Summary
  let l3m ←
    createCmDict arithmetic samplingRateInCnt Dict.empty l2m.2
      files.l3Summary
  let loads ←
    computeProb arithmetic samplingRateInCnt profile.cf l2m.1 l3m.1
      files.addrList
  return (profile, loads)

end Computation

/-! ## Executions -/

/-- The loop over the control-flow tuples adds up the counts of those around
the place. -/
theorem sampleCntOf_eq (cf : Dict Block Nat) (place : Place) :
    sampleCntOf cf place =
      ((cf.items.filter (includesPlace place ·.1)).map (·.2)).sum := by
  have added : ∀ (items : List (Block × Nat)) (start : Nat),
      items.foldl
          (fun sampleCnt item =>
            if includesPlace place item.1 then sampleCnt + item.2
            else sampleCnt)
          start =
        start +
          ((items.filter (includesPlace place ·.1)).map (·.2)).sum := by
    intro items
    induction items with
    | nil => exact fun start => rfl
    | cons item items inductionHypothesis =>
        intro start
        rw [List.foldl_cons, inductionHypothesis, List.filter_cons]
        by_cases includes : includesPlace place item.1 = true
        · rw [if_pos includes, if_pos includes, List.map_cons,
            List.sum_cons, Nat.add_assoc]
        · rw [if_neg includes, if_neg includes]
  rw [sampleCntOf, added, Nat.zero_add]

/-- The control-flow tuples count the blocks that were sampled. -/
theorem counts_of_tally {cf : Dict Block Nat} {samples : List (Block × Int)}
    (isTally :
      cf.tally id =
        ((countItems samples).map fun item =>
          Dict.single id item.1 item.2).sum) :
    cf.Counts (samples.map (·.1)) := by
  intro block
  have counted := Dict.get?_of_tally isTally block
  have isNone :
      (countItems samples).filter (·.1 = block) = [] ↔
        block ∉ samples.map (·.1) := by
    rw [countItems, List.filter_eq_nil_iff, List.forall_mem_map,
      List.mem_map]
    simp only [decide_eq_true_eq, not_exists, not_and]
  have total : samples.countP (fun sample => sample.1 = block) =
      (samples.map (·.1)).countP fun other => other = block := by
    rw [List.countP_map]
    rfl
  simp only [Option.map_id, id_eq, isNone, countItems_sum, total] at counted
  by_cases isKey : block ∈ samples.map (·.1)
  · rw [counted, if_neg (not_not.mpr isKey), if_pos isKey]
  · rw [counted, if_pos isKey, if_neg isKey]

section Runs

variable {Number : Type} {arithmetic : Arithmetic Number}
  {samplingRateInCnt : Int} {symbolMap : SymbolMap}

/-- The blocks of a profile count those that the workers have located. -/
theorem processLbr_counts_blocks
    {isScavProfile : Int} {lastMatches : Nat → LastMatch symbolMap}
    {numCores : Nat} (positive : 0 < numCores) {lines : List String}
    {profile : Profile Number}
    (isProfile :
      processLbr arithmetic.toConversions isScavProfile lastMatches numCores
          lines =
        some profile) :
    profile.cf.Counts
      ((traceSamples arithmetic.toConversions isScavProfile lastMatches
        numCores lines).1.map (·.block)) := by
  have wellFormed : ∀ line ∈ lines,
      (readLine arithmetic.toConversions line).isSome := by
    intro line member
    cases isRead : readLine arithmetic.toConversions line with
    | some branches => rfl
    | none =>
        rw [processLbr_of_malformed positive ⟨line, member, isRead⟩]
          at isProfile
        cases isProfile
  obtain ⟨totals, tallies, averages⟩ :=
    processLbr_of_wellFormed isScavProfile lastMatches numCores wellFormed
  have sameCf : profile.cf = totals.cf := by
    rw [averages, averaged] at isProfile
    split at isProfile
    · cases isProfile
      rfl
    · obtain ⟨lat, _, rfl⟩ := Option.map_eq_some_iff.mp isProfile
      rfl
  have counts := counts_of_tally tallies.cf
  rw [List.map_map] at counts
  rw [sameCf]
  exact counts

/-! ## Misses -/

/-- A line of a summary, with the place of its program counter -/
structure MissSample where
  place : Place
  pc : Int
  sampleCnt : Int
  deriving DecidableEq

/-- The lines of a summary whose program counters have places -/
def locateMisses (lastMatch : LastMatch symbolMap) :
    List (Int × Int) → List MissSample
  | [] => []
  | (pc, sampleCnt) :: rest =>
      let found := symbolMapLookup lastMatch pc
      match found.1.1 with
      | none => locateMisses found.2 rest
      | some objName =>
          ⟨(objName, found.1.2), pc, sampleCnt⟩ :: locateMisses found.2 rest

/-- `last_match` after the lookups of some program counters -/
def lastMatchAfter (lastMatch : LastMatch symbolMap) :
    List (Int × Int) → LastMatch symbolMap
  | [] => lastMatch
  | (pc, _) :: rest => lastMatchAfter (symbolMapLookup lastMatch pc).2 rest

/-- What a lookup returns is where the address lies, whatever was found
before. -/
theorem locates_of_symbolMapLookup
    {lastMatch : LastMatch symbolMap} {addr : Int} {name : String}
    (isFound : (symbolMapLookup lastMatch addr).1.1 = some name) :
    symbolMap.Locates (name, (symbolMapLookup lastMatch addr).1.2) addr := by
  have plain : ∀ {result : Option String × Int},
      (symbolMapLookup (none : LastMatch symbolMap) addr).1 = result →
      result.1 = some name → symbolMap.Locates (name, result.2) addr := by
    intro result isResult isName
    refine locates_of_lookup ?_
    rw [isResult, ← isName]
  cases lastMatch with
  | none => exact plain rfl isFound
  | some last =>
      by_cases hit : last.1.2.Contains addr
      · simp only [symbolMapLookup, if_pos hit, Option.some.injEq]
          at isFound ⊢
        exact ⟨last.1, last.2, isFound, hit, rfl⟩
      · have searched :
            (symbolMapLookup (some last : LastMatch symbolMap) addr).1 =
              (symbolMapLookup (none : LastMatch symbolMap) addr).1 := by
          simp only [symbolMapLookup, if_neg hit]
          cases symbolMap.items.attach.find? fun item =>
              item.1.2.Contains addr with
          | none => rfl
          | some item => rfl
        rw [searched] at isFound ⊢
        exact plain rfl isFound

/-- Only one address has a given place. -/
theorem SymbolMap.Locates.addr_unique
    {place : Place} {first second : Int}
    (ofFirst : symbolMap.Locates place first)
    (ofSecond : symbolMap.Locates place second) : first = second := by
  obtain ⟨item, isItem, itemName, _, itemOffset⟩ := ofFirst
  obtain ⟨other, isOther, otherName, _, otherOffset⟩ := ofSecond
  have same : item = other :=
    List.inj_on_of_nodup_map symbolMap.nodup isItem isOther
      (itemName.trans otherName.symm)
  subst same
  omega

theorem mem_locateMisses {lastMatch : LastMatch symbolMap}
    {entries : List (Int × Int)} {sample : MissSample}
    (member : sample ∈ locateMisses lastMatch entries) :
    symbolMap.Locates sample.place sample.pc ∧
      (sample.pc, sample.sampleCnt) ∈ entries := by
  induction entries generalizing lastMatch with
  | nil => cases member
  | cons entry entries inductionHypothesis =>
      rw [locateMisses] at member
      split at member
      · obtain ⟨locates, inRest⟩ := inductionHypothesis member
        exact ⟨locates, List.mem_cons_of_mem entry inRest⟩
      · next objName isFound =>
          rcases List.mem_cons.mp member with rfl | inRest
          · exact
              ⟨locates_of_symbolMapLookup isFound, List.mem_cons_self⟩
          · obtain ⟨locates, inRest⟩ := inductionHypothesis inRest
            exact ⟨locates, List.mem_cons_of_mem entry inRest⟩

/-- No two lines of a summary with different program counters have the same
place. -/
theorem locateMisses_place_injective {lastMatch : LastMatch symbolMap}
    {entries : List (Int × Int)} (distinct : (entries.map (·.1)).Nodup)
    {first second : MissSample}
    (isFirst : first ∈ locateMisses lastMatch entries)
    (isSecond : second ∈ locateMisses lastMatch entries)
    (samePlace : first.place = second.place) : first = second := by
  obtain ⟨locatesFirst, inFirst⟩ := mem_locateMisses isFirst
  obtain ⟨locatesSecond, inSecond⟩ := mem_locateMisses isSecond
  rw [samePlace] at locatesFirst
  have samePc := locatesFirst.addr_unique locatesSecond
  have sameEntry :=
    List.inj_on_of_nodup_map distinct inFirst inSecond samePc
  cases first
  cases second
  simp only [Prod.mk.injEq] at sameEntry
  simp only [MissSample.mk.injEq]
  exact ⟨samePlace, sameEntry⟩

/-- The last of the samples of a place -/
def lastSample (samples : List MissSample) (place : Place) :
    Option MissSample :=
  samples.reverse.find? (·.place = place)

theorem lastSample_cons (sample : MissSample) (samples : List MissSample)
    (place : Place) :
    lastSample (sample :: samples) place =
      (lastSample samples place).or
        (if sample.place = place then some sample else none) := by
  rw [lastSample, List.reverse_cons, List.find?_append, lastSample]
  by_cases here : sample.place = place
  · simp only [here, List.find?_cons, decide_true, if_true]
  · simp only [here, List.find?_cons, decide_false, List.find?_nil, if_false]

theorem of_lastSample {samples : List MissSample} {place : Place}
    {sample : MissSample} (isLast : lastSample samples place = some sample) :
    sample ∈ samples ∧ sample.place = place := by
  unfold lastSample at isLast
  have here := List.find?_some isLast
  rw [decide_eq_true_eq] at here
  exact ⟨List.mem_reverse.mp (List.mem_of_find?_eq_some isLast), here⟩

/-- Where the place of a sample is that of no other, it is the last one. -/
theorem lastSample_of_injective {samples : List MissSample}
    (injective : ∀ first ∈ samples, ∀ second ∈ samples,
      first.place = second.place → first = second)
    {sample : MissSample} (member : sample ∈ samples) :
    lastSample samples sample.place = some sample := by
  cases isLast : lastSample samples sample.place with
  | none =>
      unfold lastSample at isLast
      have missed :=
        List.find?_eq_none.mp isLast sample (List.mem_reverse.mpr member)
      exact absurd (decide_eq_true rfl) missed
  | some last =>
      obtain ⟨isMember, isHere⟩ := of_lastSample isLast
      rw [injective last isMember sample member isHere]

/-- A dictionary holds the last sample of each place, over some values that
were there before. -/
def HoldsLast (arithmetic : Arithmetic Number) (samplingRateInCnt : Int)
    (samples : List MissSample) (before after : Dict Place Number) : Prop :=
  ∀ place,
    (lastSample samples place = none →
      after.get? place = before.get? place) ∧
    ∀ sample, lastSample samples place = some sample →
      ∃ total,
        sampleToApproxTotal arithmetic samplingRateInCnt sample.sampleCnt 1 =
            some total ∧
          after.get? place = some total

theorem HoldsLast.cons {sample : MissSample} {samples : List MissSample}
    {before after : Dict Place Number} {total : Number}
    (isTotal :
      sampleToApproxTotal arithmetic samplingRateInCnt sample.sampleCnt 1 =
        some total)
    (holds :
      HoldsLast arithmetic samplingRateInCnt samples
        (before.set sample.place total) after) :
    HoldsLast arithmetic samplingRateInCnt (sample :: samples) before
      after := by
  intro place
  obtain ⟨kept, replaced⟩ := holds place
  rw [lastSample_cons]
  cases later : lastSample samples place with
  | some other =>
      refine ⟨?_, ?_⟩
      · intro isNone
        cases isNone
      · rintro last isLast
        cases isLast
        exact replaced other later
  | none =>
      rw [Option.none_or]
      have isKept := kept later
      rw [Dict.get?_set] at isKept
      by_cases here : sample.place = place
      · rw [if_pos here]
        rw [if_pos here.symm] at isKept
        refine ⟨?_, ?_⟩
        · intro isNone
          cases isNone
        · rintro last isLast
          cases isLast
          exact ⟨total, isTotal, isKept⟩
      · rw [if_neg here]
        rw [if_neg (Ne.symm here)] at isKept
        refine ⟨fun _ => isKept, ?_⟩
        rintro last isLast
        cases isLast

/-- What `create_cm_dict` keeps is the last sample of each place. -/
theorem createCmDict_holdsLast
    {dic result : Dict Place Number} {lastMatch last : LastMatch symbolMap}
    {lines : List String}
    (isResult :
      createCmDict arithmetic samplingRateInCnt dic lastMatch lines =
        some (result, last)) :
    last = lastMatchAfter lastMatch (summaryEntries arithmetic lines) ∧
      HoldsLast arithmetic samplingRateInCnt
        (locateMisses lastMatch (summaryEntries arithmetic lines)) dic
        result := by
  induction lines generalizing dic lastMatch with
  | nil =>
      cases isResult
      refine ⟨rfl, fun place => ⟨fun _ => rfl, ?_⟩⟩
      intro sample isLast
      cases isLast
  | cons line lines inductionHypothesis =>
      rw [createCmDict] at isResult
      cases isRead : readSummary arithmetic line with
      | none =>
          rw [isRead] at isResult
          cases isResult
      | some entry =>
          obtain ⟨pc, sampleCnt⟩ := entry
          rw [summaryEntries, List.filterMap_cons_some isRead]
          simp only [isRead] at isResult
          cases isFound : (symbolMapLookup lastMatch pc).1.1 with
          | none =>
              simp only [isFound] at isResult
              obtain ⟨isLast, holds⟩ := inductionHypothesis isResult
              refine ⟨isLast, ?_⟩
              simp only [locateMisses, isFound]
              exact holds
          | some objName =>
              cases isTotal : sampleToApproxTotal arithmetic
                  samplingRateInCnt sampleCnt 1 with
              | none =>
                  simp only [isFound, isTotal] at isResult
                  cases isResult
              | some total =>
                  simp only [isFound, isTotal] at isResult
                  obtain ⟨isLast, holds⟩ := inductionHypothesis isResult
                  refine ⟨isLast, ?_⟩
                  simp only [locateMisses, isFound]
                  exact HoldsLast.cons isTotal holds

/-! ## The lines of the address list -/

/-- A count of misses is that of the sample of its place. -/
structure IsMissCnt (arithmetic : Arithmetic Number)
    (samplingRateInCnt : Int) (samples : List MissSample) (place : Place)
    (missCnt : Option Number) : Prop where
  sampled :
    ∀ sample ∈ samples, sample.place = place →
      missCnt.isSome ∧
        sampleToApproxTotal arithmetic samplingRateInCnt sample.sampleCnt 1 =
          missCnt
  notSampled : (∀ sample ∈ samples, sample.place ≠ place) → missCnt = none

theorem HoldsLast.isMissCnt {samples : List MissSample}
    {dic : Dict Place Number}
    (injective : ∀ first ∈ samples, ∀ second ∈ samples,
      first.place = second.place → first = second)
    (holds :
      HoldsLast arithmetic samplingRateInCnt samples Dict.empty dic)
    (place : Place) :
    IsMissCnt arithmetic samplingRateInCnt samples place
      (dic.get? place) := by
  obtain ⟨kept, replaced⟩ := holds place
  constructor
  · rintro sample member rfl
    have isLast := lastSample_of_injective injective member
    obtain ⟨total, isTotal, isValue⟩ := replaced sample isLast
    rw [isValue, isTotal]
    exact ⟨rfl, rfl⟩
  · intro missed
    refine kept (List.find?_eq_none.mpr fun sample member => ?_)
    have elsewhere := missed sample (List.mem_reverse.mp member)
    exact fun here => elsewhere (of_decide_eq_true here)

/-- The estimates for a place agree with the samples. -/
structure LoadLine.Estimates (arithmetic : Arithmetic Number)
    (samplingRateInCnt : Int) (blocks : List BlockSample)
    (l2Misses l3Misses : List MissSample) (load : LoadLine Number) :
    Prop where
  execCnt :
    sampleToApproxTotal arithmetic samplingRateInCnt
        (blocks.countP fun sample => includesPlace load.place sample.block)
        lbrSubsampleSize =
      some load.execCnt
  l2MissCnt :
    IsMissCnt arithmetic samplingRateInCnt l2Misses load.place
      load.l2MissCnt
  l3MissCnt :
    IsMissCnt arithmetic samplingRateInCnt l3Misses load.place
      load.l3MissCnt

theorem mem_computeProb {cf : Dict Block Nat} {l2m l3m : Dict Place Number}
    {lines : List String} {loads : List (LoadLine Number)}
    (isComputed :
      computeProb arithmetic samplingRateInCnt cf l2m l3m lines =
        some loads) :
    lines.mapM (readAddress arithmetic) =
        some (loads.map LoadLine.place) ∧
      ∀ load ∈ loads,
        loadLine arithmetic samplingRateInCnt cf l2m l3m load.place =
          some load := by
  induction lines generalizing loads with
  | nil =>
      cases isComputed
      refine ⟨rfl, fun load member => ?_⟩
      cases member
  | cons line lines inductionHypothesis =>
      rw [computeProb, List.mapM_cons, Option.bind_eq_bind] at isComputed
      obtain ⟨load, isLoad, isComputed⟩ :=
        Option.bind_eq_some_iff.mp isComputed
      obtain ⟨rest, isRest, isCons⟩ := Option.bind_eq_some_iff.mp isComputed
      cases isCons
      obtain ⟨place, isPlace, isLoad⟩ := Option.bind_eq_some_iff.mp isLoad
      obtain ⟨readRest, restLoads⟩ := inductionHypothesis isRest
      have samePlace : load.place = place := by
        obtain ⟨_, _, rfl⟩ := Option.map_eq_some_iff.mp isLoad
        rfl
      refine ⟨?_, ?_⟩
      · rw [List.mapM_cons, isPlace, readRest, List.map_cons, samePlace]
        rfl
      · intro other member
        rcases List.mem_cons.mp member with rfl | inRest
        · rw [samePlace]
          exact isLoad
        · exact restLoads other inRest

/--
Each line of the address list is printed with the number of located blocks
around its place, and with the count of the one summary line whose program
counter has this place.
-/
theorem run_estimates
    {isScavProfile : Int} {lastMatches : Nat → LastMatch symbolMap}
    {numCores : Nat} (positive : 0 < numCores) {files : TraceFiles}
    (l2Distinct :
      ((summaryEntries arithmetic files.l2Summary).map (·.1)).Nodup)
    (l3Distinct :
      ((summaryEntries arithmetic files.l3Summary).map (·.1)).Nodup)
    {profile : Profile Number} {loads : List (LoadLine Number)}
    (ran :
      run arithmetic samplingRateInCnt isScavProfile lastMatches numCores
          files =
        some (profile, loads)) :
    files.addrList.mapM (readAddress arithmetic) =
        some (loads.map LoadLine.place) ∧
      ∀ load ∈ loads,
        load.Estimates arithmetic samplingRateInCnt
          (traceSamples arithmetic.toConversions isScavProfile lastMatches
            numCores files.lbrTrace).1
          (locateMisses (none : LastMatch symbolMap)
            (summaryEntries arithmetic files.l2Summary))
          (locateMisses
            (lastMatchAfter (none : LastMatch symbolMap)
              (summaryEntries arithmetic files.l2Summary))
            (summaryEntries arithmetic files.l3Summary)) := by
  obtain ⟨traced, isTraced, ran⟩ := Option.bind_eq_some_iff.mp ran
  obtain ⟨⟨l2m, l2Last⟩, isL2, ran⟩ := Option.bind_eq_some_iff.mp ran
  obtain ⟨⟨l3m, l3Last⟩, isL3, ran⟩ := Option.bind_eq_some_iff.mp ran
  obtain ⟨printed, isPrinted, ran⟩ := Option.bind_eq_some_iff.mp ran
  cases ran
  obtain ⟨rfl, l2Holds⟩ := createCmDict_holdsLast isL2
  obtain ⟨_, l3Holds⟩ := createCmDict_holdsLast isL3
  obtain ⟨addresses, lines⟩ := mem_computeProb isPrinted
  have counts := processLbr_counts_blocks positive isTraced
  refine ⟨addresses, fun load member => ?_⟩
  obtain ⟨execCnt, isExecCnt, isLoad⟩ :=
    Option.map_eq_some_iff.mp (lines load member)
  have counted := counts.sum_filter (includesPlace load.place)
  rw [List.countP_map, ← sampleCntOf_eq] at counted
  rw [← isLoad]
  refine ⟨?_, ?_, ?_⟩
  · rw [counted] at isExecCnt
    exact isExecCnt
  · exact l2Holds.isMissCnt
      (fun _ isFirst _ isSecond =>
        locateMisses_place_injective l2Distinct isFirst isSecond) _
  · exact l3Holds.isMissCnt
      (fun _ isFirst _ isSecond =>
        locateMisses_place_injective l3Distinct isFirst isSecond) _

end Runs

/-- Conversions of unsigned numerals and exact arithmetic -/
def plainArithmetic : Arithmetic Rat where
  toConversions := plainConversions
  mul number integer := some (number * integer)

/-- A trace with summaries, of which one counts an address of no symbol -/
def shortFiles : TraceFiles where
  lbrTrace := shortTrace
  l2Summary := ["43f 3", "9999 5", "720 2"]
  l3Summary := ["43f 1"]
  addrList := ["app 3f", "lib 20"]

theorem run_estimates_shortFiles :
    ∃ result,
      run plainArithmetic 1024 1 (fun _ => (none : LastMatch twoSymbols)) 2
          shortFiles =
        some result ∧
      shortFiles.addrList.mapM (readAddress plainArithmetic) =
        some (result.2.map LoadLine.place) ∧
      ∀ load ∈ result.2,
        load.Estimates plainArithmetic 1024
          (traceSamples plainConversions 1
            (fun _ => (none : LastMatch twoSymbols)) 2
            shortFiles.lbrTrace).1
          (locateMisses (none : LastMatch twoSymbols)
            (summaryEntries plainArithmetic shortFiles.l2Summary))
          (locateMisses
            (lastMatchAfter (none : LastMatch twoSymbols)
              (summaryEntries plainArithmetic shortFiles.l2Summary))
            (summaryEntries plainArithmetic shortFiles.l3Summary)) := by
  obtain ⟨result, ran⟩ :=
    Option.isSome_iff_exists.mp
      (show (run plainArithmetic 1024 1
        (fun _ => (none : LastMatch twoSymbols)) 2 shortFiles).isSome by
          decide +kernel)
  exact
    ⟨result, ran,
      run_estimates (by decide) (by decide +kernel) (by decide +kernel) ran⟩

end LoadProb

end Msh
