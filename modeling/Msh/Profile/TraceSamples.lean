import Msh.Profile.LoadProb

namespace Msh

namespace LoadProb

/-!
# The samples of a trace

The lookups of a worker locate some blocks between adjacent branches and some
branches between two places.  The worker's dictionaries are the tallies of
these samples, and aggregating the dictionaries of all workers adds up the
tallies.
-/

section Samples

variable {symbolMap : SymbolMap} {Average : Type}
  (conversions : Conversions Average)

/-- The branches of a line that are counted, unless it is malformed -/
def readLine (line : String) : Option (List Branch) :=
  let tokens := splitSpace line
  if tokens.length < 2 then some []
  else
    (tokens.mapM (branchOfToken conversions)).map
      (·.take lbrSubsampleSize)

/-- Adjacent branches of a line, the newer one first -/
def adjacent (branches : List Branch) : List (Branch × Branch) :=
  branches.zip branches.tail

/-- A block that a worker has located between two adjacent branches -/
structure BlockSample where
  block : Block
  newer : Branch
  older : Branch
  deriving DecidableEq

/-- The block and the cycles that are counted for it -/
def BlockSample.counted (sample : BlockSample) : Block × Int :=
  (sample.block, sample.older.cycles)

/-- The blocks that are located between pairs of branches, and `last_match`
after them -/
def locatePairs (lastMatch : LastMatch symbolMap) :
    List (Branch × Branch) → List BlockSample × LastMatch symbolMap
  | [] => ([], lastMatch)
  | (newer, older) :: pairs =>
      match localizeAddress lastMatch older.dst newer.src false with
      | (none, lastMatch) => locatePairs lastMatch pairs
      | (some block, lastMatch) =>
          let later := locatePairs lastMatch pairs
          (⟨block, newer, older⟩ :: later.1, later.2)

/-- The places that are located for branches, and `last_match` after them -/
def locateBranches (lastMatch : LastMatch symbolMap) :
    List Branch → List (Place × Place) × LastMatch symbolMap
  | [] => ([], lastMatch)
  | branch :: rest =>
      match localizeAddress lastMatch branch.src branch.dst true with
      | (none, lastMatch) => locateBranches lastMatch rest
      | (some triple, lastMatch) =>
          let later := locateBranches lastMatch rest
          (((triple.1, triple.2.1), (triple.1, triple.2.2)) :: later.1,
            later.2)

/-- The samples of a worker -/
def locateLines (isScavProfile : Int) (lastMatch : LastMatch symbolMap) :
    List String → List BlockSample × List (Place × Place)
  | [] => ([], [])
  | line :: rest =>
      let branches := (readLine conversions line).getD []
      let blocks := locatePairs lastMatch (adjacent branches)
      if isScavProfile = 1 then
        let places := locateBranches blocks.2 branches
        let later := locateLines isScavProfile places.2 rest
        (blocks.1 ++ later.1, places.1 ++ later.2)
      else
        let later := locateLines isScavProfile blocks.2 rest
        (blocks.1 ++ later.1, later.2)

end Samples

/-- The counts of block samples -/
def countItems (samples : List (Block × Int)) : List (Block × Nat) :=
  samples.map fun sample => (sample.1, 1)

/-- The cycles of block samples, each counted once -/
def latItems (samples : List (Block × Int)) :
    List (Block × (Int × Nat)) :=
  samples.map fun sample => (sample.1, (sample.2, 1))

/-- For each destination, a dictionary with one source -/
def predItems (samples : List (Place × Place)) :
    List (Place × Dict Place Nat) :=
  samples.map fun sample => (sample.2, Dict.empty.set sample.1 1)

/-- What a nested dictionary measures: the tally of its counts -/
def sourceTally (sources : Dict Place Nat) : Place → WithZero Nat :=
  sources.tally id

/-- Combine two sums of cycles. -/
def addLat (old value : Int × Nat) : Int × Nat :=
  (old.1 + value.1, old.2 + value.2)

theorem sourceTally_addCounts (old value : Dict Place Nat) :
    sourceTally (addCounts old value) =
      sourceTally old + sourceTally value :=
  Dict.tally_merge (fun _ _ => rfl) old value

/-- Dictionaries that are the tallies of some samples -/
structure Tallies
    (dicts : SubDicts) (blocks : List (Block × Int))
    (predecessors : List (Place × Place)) : Prop where
  cf :
    dicts.cf.tally id =
      ((countItems blocks).map fun item =>
        Dict.single id item.1 item.2).sum
  lat :
    dicts.lat.tally id =
      ((latItems blocks).map fun item =>
        Dict.single id item.1 item.2).sum
  pred :
    dicts.pred.tally sourceTally =
      ((predItems predecessors).map fun item =>
        Dict.single sourceTally item.1 item.2).sum

/-- The dictionaries of a worker and the samples it has read so far -/
structure Accounts
    (dicts : SubDicts) (blocks : List (Block × Int))
    (predecessors : List (Place × Place)) : Prop
    extends Tallies dicts blocks predecessors where
  /-- `sub_cf_dict` and `sub_lat_dict` have the same keys. -/
  inSync :
    ∀ triple, dicts.cf.get? triple = none ↔ dicts.lat.get? triple = none

namespace Accounts

variable
  {dicts : SubDicts} {blocks : List (Block × Int)}
  {predecessors : List (Place × Place)}

/-- One more execution of a block is one more sample. -/
theorem countBlock
    (accounts : Accounts dicts blocks predecessors)
    (triple : Block) (cycles : Int) :
    ∃ counted, dicts.countBlock triple cycles = some counted ∧
      Accounts counted (blocks ++ [(triple, cycles)]) predecessors := by
  have taken :
      dicts.countBlock triple cycles =
        some { dicts with
          cf := dicts.cf.combineAt (· + ·) triple 1
          lat := dicts.lat.combineAt addLat triple (cycles, 1) } := by
    have inSync := accounts.inSync triple
    unfold SubDicts.countBlock Dict.combineAt
    cases counted : dicts.cf.get? triple with
    | none =>
        rw [inSync.mp counted]
    | some count =>
        cases timed : dicts.lat.get? triple with
        | none =>
            rw [inSync.mpr timed] at counted
            cases counted
        | some lat =>
            rfl
  refine ⟨_, taken, ⟨?_, ?_, accounts.pred⟩, ?_⟩
  · rw [Dict.tally_combineAt (fun _ _ => rfl), accounts.cf]
    simp [countItems]
  · rw [Dict.tally_combineAt (fun _ _ => rfl), accounts.lat]
    simp [latItems]
  · intro query
    simp only [Dict.get?_combineAt]
    split
    · simp
    · exact accounts.inSync query

/-- One more branch to a place is one more sample. -/
theorem countPredecessor
    (accounts : Accounts dicts blocks predecessors) (src dst : Place) :
    Accounts (dicts.countPredecessor src dst) blocks
      (predecessors ++ [(src, dst)]) := by
  have counted :
      dicts.countPredecessor src dst =
        { dicts with
          pred :=
            dicts.pred.combineAt addCounts dst
              (Dict.empty.set src 1) } := by
    unfold SubDicts.countPredecessor Dict.combineAt
    cases dicts.pred.get? dst with
    | none =>
        rfl
    | some sources =>
        have merged :
            addCounts sources (Dict.empty.set src 1) =
              sources.combineAt (· + ·) src 1 :=
          rfl
        simp only [merged, Dict.combineAt]
        cases sources.get? src with
        | none => rfl
        | some count => rfl
  rw [counted]
  refine ⟨⟨accounts.cf, accounts.lat, ?_⟩, accounts.inSync⟩
  rw [Dict.tally_combineAt sourceTally_addCounts, accounts.pred]
  simp [predItems]

variable {symbolMap : SymbolMap}

/-- `create_control_flow_tuples` counts the blocks it locates. -/
theorem controlFlowTuplesFrom
    (accounts : Accounts dicts blocks predecessors)
    (newer : Branch) (lastMatch : LastMatch symbolMap)
    (branches : List Branch) :
    ∃ counted,
      dicts.controlFlowTuplesFrom (some newer.src) lastMatch branches =
          some
            (counted,
              (locatePairs lastMatch (adjacent (newer :: branches))).2) ∧
        Accounts counted
          (blocks ++
            (locatePairs lastMatch (adjacent (newer :: branches))).1.map
              BlockSample.counted)
          predecessors := by
  induction branches generalizing newer dicts blocks lastMatch with
  | nil =>
      refine ⟨dicts, rfl, ?_⟩
      rw [adjacent, List.tail_cons, List.zip_nil_right, locatePairs,
        List.map_nil, List.append_nil]
      exact accounts
  | cons older rest inductionHypothesis =>
      have isNext : adjacent (newer :: older :: rest) =
          (newer, older) :: adjacent (older :: rest) :=
        rfl
      rw [isNext]
      unfold SubDicts.controlFlowTuplesFrom locatePairs
      dsimp only
      cases localizeAddress lastMatch older.dst newer.src false with
      | mk triple lastMatch =>
          cases triple with
          | none => exact inductionHypothesis accounts older lastMatch
          | some triple =>
              obtain ⟨counted, taken, nextAccounts⟩ :=
                accounts.countBlock triple older.cycles
              simp only [taken]
              obtain ⟨last, ran, lastAccounts⟩ :=
                inductionHypothesis nextAccounts older lastMatch
              refine ⟨last, ran, ?_⟩
              rw [List.append_assoc] at lastAccounts
              exact lastAccounts

theorem createControlFlowTuples
    (accounts : Accounts dicts blocks predecessors)
    (lastMatch : LastMatch symbolMap) (branches : List Branch) :
    ∃ counted,
      dicts.createControlFlowTuples lastMatch branches =
          some (counted, (locatePairs lastMatch (adjacent branches)).2) ∧
        Accounts counted
          (blocks ++
            (locatePairs lastMatch (adjacent branches)).1.map
              BlockSample.counted)
          predecessors := by
  cases branches with
  | nil => exact ⟨dicts, rfl, (List.append_nil blocks).symm ▸ accounts⟩
  | cons newer branches =>
      exact accounts.controlFlowTuplesFrom newer lastMatch branches

/-- `create_predecessor_profile` counts the branches it locates. -/
theorem createPredecessorProfile
    (accounts : Accounts dicts blocks predecessors)
    (lastMatch : LastMatch symbolMap) (branches : List Branch) :
    (dicts.createPredecessorProfile lastMatch branches).2 =
        (locateBranches lastMatch branches).2 ∧
      Accounts (dicts.createPredecessorProfile lastMatch branches).1 blocks
        (predecessors ++ (locateBranches lastMatch branches).1) := by
  induction branches generalizing dicts predecessors lastMatch with
  | nil =>
      refine ⟨rfl, ?_⟩
      rw [SubDicts.createPredecessorProfile, locateBranches, List.append_nil]
      exact accounts
  | cons branch rest inductionHypothesis =>
      unfold SubDicts.createPredecessorProfile locateBranches
      cases localizeAddress lastMatch branch.src branch.dst true with
      | mk triple lastMatch =>
          cases triple with
          | none => exact inductionHypothesis accounts lastMatch
          | some triple =>
              obtain ⟨isLast, counted⟩ := inductionHypothesis
                (accounts.countPredecessor (triple.1, triple.2.1)
                  (triple.1, triple.2.2)) lastMatch
              rw [List.append_assoc] at counted
              exact ⟨isLast, counted⟩

end Accounts

/-! ## A worker and all of them -/

section Process

variable
  {Average : Type} {conversions : Conversions Average}
  {symbolMap : SymbolMap}

/-- A worker whose lines are well formed counts all of its samples. -/
theorem Accounts.subProcessLines
    {dicts : SubDicts} {blocks : List (Block × Int)}
    {predecessors : List (Place × Place)}
    (accounts : Accounts dicts blocks predecessors)
    (isScavProfile : Int) (lastMatch : LastMatch symbolMap)
    {lines : List String}
    (wellFormed :
      ∀ line ∈ lines, (readLine conversions line).isSome) :
    ∃ result,
      subProcessLines conversions isScavProfile dicts lastMatch lines =
          some result ∧
        Accounts result
          (blocks ++
            (locateLines conversions isScavProfile lastMatch lines).1.map
              BlockSample.counted)
          (predecessors ++
            (locateLines conversions isScavProfile lastMatch
              lines).2) := by
  induction lines generalizing dicts blocks predecessors lastMatch with
  | nil =>
      refine ⟨dicts, rfl, ?_⟩
      rw [locateLines, List.map_nil, List.append_nil, List.append_nil]
      exact accounts
  | cons line rest inductionHypothesis =>
      have readable := wellFormed line List.mem_cons_self
      have restFormed :
          ∀ line ∈ rest, (readLine conversions line).isSome :=
        fun line member => wellFormed line (List.mem_cons_of_mem _ member)
      unfold LoadProb.subProcessLines locateLines
      unfold readLine at readable ⊢
      by_cases short : (splitSpace line).length < 2
      · simp only [short, ↓reduceIte, Option.getD_some]
        have noSamples : locatePairs lastMatch (adjacent []) =
            ([], lastMatch) :=
          rfl
        rw [noSamples, locateBranches]
        simp only [List.nil_append, ite_self]
        exact inductionHypothesis accounts lastMatch restFormed
      · simp only [short, ↓reduceIte] at readable ⊢
        cases parsed :
            (splitSpace line).mapM (branchOfToken conversions) with
        | none =>
            rw [parsed] at readable
            cases readable
        | some branches =>
            simp only [Option.map_some, Option.getD_some]
            obtain ⟨counted, created, nextAccounts⟩ :=
              accounts.createControlFlowTuples lastMatch
                (branches.take lbrSubsampleSize)
            simp only [created]
            by_cases isScav : isScavProfile = 1
            · simp only [isScav, ↓reduceIte]
              obtain ⟨isLast, both⟩ :=
                nextAccounts.createPredecessorProfile
                  (locatePairs lastMatch
                    (adjacent (branches.take lbrSubsampleSize))).2
                  (branches.take lbrSubsampleSize)
              rw [isScav] at inductionHypothesis
              rw [isLast, List.map_append, ← List.append_assoc,
                ← List.append_assoc]
              exact inductionHypothesis both _ restFormed
            · simp only [isScav, ↓reduceIte]
              rw [List.map_append, ← List.append_assoc]
              exact inductionHypothesis nextAccounts _ restFormed

/-- A worker with a malformed line fails. -/
theorem subProcessLines_eq_none
    {isScavProfile : Int} {dicts : SubDicts}
    {lastMatch : LastMatch symbolMap} {lines : List String}
    (malformed :
      ∃ line ∈ lines, readLine conversions line = none) :
    subProcessLines conversions isScavProfile dicts lastMatch lines =
      none := by
  induction lines generalizing dicts lastMatch with
  | nil =>
      simp at malformed
  | cons line rest inductionHypothesis =>
      rw [List.exists_mem_cons_iff] at malformed
      unfold LoadProb.subProcessLines
      unfold readLine at malformed
      by_cases short : (splitSpace line).length < 2
      · simp only [short, ↓reduceIte, reduceCtorEq, false_or]
          at malformed ⊢
        exact inductionHypothesis malformed
      · simp only [short, ↓reduceIte, Option.map_eq_none_iff]
          at malformed ⊢
        cases parsed :
            (splitSpace line).mapM (branchOfToken conversions) with
        | none =>
            rfl
        | some branches =>
            simp only [parsed, reduceCtorEq, false_or] at malformed
            have restFails {dicts : SubDicts}
                {lastMatch : LastMatch symbolMap} :
                subProcessLines conversions isScavProfile dicts lastMatch
                    rest =
                  none :=
              inductionHypothesis malformed
            simp only [restFails, ite_self]
            split <;> rfl

/-- What the dictionaries of all workers merge to -/
def merged (subDicts : List SubDicts) : SubDicts where
  cf := (subDicts.map (·.cf)).foldl addCounts Dict.empty
  lat := (subDicts.map (·.lat)).foldl (Dict.merge addLat) Dict.empty
  pred :=
    (subDicts.map (·.pred)).foldl (Dict.merge addCounts) Dict.empty

/-- The profile that the merged dictionaries give -/
def averaged
    (conversions : Conversions Average) (isScavProfile : Int)
    (totals : SubDicts) : Option (Profile Average) :=
  if isScavProfile = 0 then some ⟨totals.cf, Dict.empty, Dict.empty⟩
  else
    (totals.lat.mapValues? fun value =>
      conversions.trueDiv value.1 value.2).map fun lat =>
        ⟨totals.cf, lat, totals.pred⟩

theorem aggregateSubDicts_eq
    (isScavProfile : Int) (subDicts : List SubDicts) :
    aggregateSubDicts conversions isScavProfile subDicts =
      averaged conversions isScavProfile (merged subDicts) := by
  unfold aggregateSubDicts averaged
  split
  · rfl
  · cases isMapped :
        (merged subDicts).lat.mapValues? fun value =>
          conversions.trueDiv value.1 value.2 with
    | none =>
        unfold merged addLat at isMapped
        dsimp only at isMapped
        simp only [isMapped, Option.map_none]
    | some lat =>
        unfold merged addLat at isMapped
        dsimp only at isMapped
        simp only [isMapped, Option.map_some]
        rfl

/-- What the workers' dictionaries merge to adds up their items. -/
theorem tally_workers
    {Key Value Total : Type} [DecidableEq Key] [AddCommSemigroup Total]
    {measure : Value → Total} {combine : Value → Value → Value}
    (adds : ∀ old value,
      measure (combine old value) = measure old + measure value)
    {values : Nat → List (Key × Value)} {part : Nat → Dict Key Value}
    (isPart : ∀ core,
      (part core).tally measure =
        ((values core).map fun item =>
          Dict.single measure item.1 item.2).sum)
    (cores : List Nat) :
    ((cores.map part).foldl (Dict.merge combine) Dict.empty).tally measure =
      ((cores.flatMap values).map
        fun item => Dict.single measure item.1 item.2).sum := by
  rw [Dict.tally_foldl_merge adds, Dict.tally_empty, zero_add,
    List.map_map, Dict.sum_single_flatMap]
  exact congrArg List.sum (List.map_congr_left fun core _ => isPart core)

/-- The dictionaries of all workers add up the samples. -/
theorem tallies_merged {results : Nat → SubDicts}
    {blocks : Nat → List (Block × Int)}
    {predecessors : Nat → List (Place × Place)}
    (tallies : ∀ core,
      Tallies (results core) (blocks core) (predecessors core))
    (cores : List Nat) :
    Tallies (merged (cores.map results)) (cores.flatMap blocks)
      (cores.flatMap predecessors) := by
  constructor
  · simp only [merged]
    rw [List.map_map, countItems, List.map_flatMap]
    exact tally_workers (fun _ _ => rfl) (fun core => (tallies core).cf) cores
  · simp only [merged]
    rw [List.map_map, latItems, List.map_flatMap]
    exact tally_workers (fun _ _ => rfl) (fun core => (tallies core).lat) cores
  · simp only [merged]
    rw [List.map_map, predItems, List.map_flatMap]
    exact tally_workers sourceTally_addCounts
      (fun core => (tallies core).pred) cores

/-- The samples of all workers -/
def traceSamples (conversions : Conversions Average) (isScavProfile : Int)
    (lastMatches : Nat → LastMatch symbolMap) (numCores : Nat)
    (lines : List String) : List BlockSample × List (Place × Place) :=
  let located := fun core =>
    locateLines conversions isScavProfile (lastMatches core)
      (stridedSlice lines core numCores)
  ((List.range numCores).flatMap fun core => (located core).1,
    (List.range numCores).flatMap fun core => (located core).2)

/-- What `process_lbr` makes of a trace whose lines are well formed -/
theorem processLbr_of_wellFormed
    (isScavProfile : Int) (lastMatches : Nat → LastMatch symbolMap)
    (numCores : Nat) {lines : List String}
    (wellFormed :
      ∀ line ∈ lines, (readLine conversions line).isSome) :
    ∃ totals,
      Tallies totals
          ((traceSamples conversions isScavProfile lastMatches numCores
            lines).1.map BlockSample.counted)
          (traceSamples conversions isScavProfile lastMatches numCores
            lines).2 ∧
        processLbr conversions isScavProfile lastMatches numCores lines =
          averaged conversions isScavProfile totals := by
  have worked (core : Nat) :
      ∃ result,
        subProcessLbr conversions isScavProfile (lastMatches core)
            (stridedSlice lines core numCores) =
          some result ∧
        Accounts result
          ((locateLines conversions isScavProfile (lastMatches core)
            (stridedSlice lines core numCores)).1.map BlockSample.counted)
          (locateLines conversions isScavProfile (lastMatches core)
            (stridedSlice lines core numCores)).2 := by
    have started : Accounts ⟨Dict.empty, Dict.empty, Dict.empty⟩ [] [] :=
      ⟨⟨rfl, rfl, rfl⟩, by simp⟩
    refine started.subProcessLines isScavProfile (lastMatches core) ?_
    intro line member
    exact wellFormed line (StridedSlice.mem_of_mem member)
  choose results ran accounts using worked
  have mapped :
      ((List.range numCores).mapM fun core =>
          subProcessLbr conversions isScavProfile (lastMatches core)
            (stridedSlice lines core numCores)) =
        some ((List.range numCores).map results) := by
    simp only [ran]
    exact List.mapM_pure
  refine ⟨merged ((List.range numCores).map results), ?_, ?_⟩
  · rw [traceSamples, List.map_flatMap]
    exact tallies_merged (fun core => (accounts core).toTallies) _
  · rw [processLbr, mapped]
    exact aggregateSubDicts_eq isScavProfile _

/-- One failure is enough for the whole list to fail. -/
theorem mapM_eq_none
    {Item Image : Type} {image? : Item → Option Image}
    {items : List Item} {item : Item}
    (member : item ∈ items) (fails : image? item = none) :
    items.mapM image? = none := by
  induction items with
  | nil =>
      cases member
  | cons first rest inductionHypothesis =>
      rw [List.mapM_cons]
      cases isImage : image? first with
      | none =>
          rfl
      | some image =>
          have inRest : item ∈ rest := by
            rcases List.mem_cons.mp member with rfl | inRest
            · rw [fails] at isImage
              cases isImage
            · exact inRest
          rw [inductionHypothesis inRest]
          rfl

/-- A malformed line ends the script, whoever reads it. -/
theorem processLbr_of_malformed
    {isScavProfile : Int} {lastMatches : Nat → LastMatch symbolMap}
    {numCores : Nat} (positive : 0 < numCores) {lines : List String}
    (malformed :
      ∃ line ∈ lines, readLine conversions line = none) :
    processLbr conversions isScavProfile lastMatches numCores lines =
      none := by
  obtain ⟨line, member, unreadable⟩ := malformed
  obtain ⟨core, isCore, inSlice⟩ :=
    (StridedSlice.mem_iff positive).mpr member
  have fails :
      subProcessLbr conversions isScavProfile (lastMatches core)
          (stridedSlice lines core numCores) =
        none :=
    subProcessLines_eq_none ⟨line, inSlice, unreadable⟩
  rw [processLbr, mapM_eq_none (List.mem_range.mpr isCore) fails]

end Process

/-! ## The profile of a trace -/

/-- A profile has each sample once. -/
structure Profile.Counts
    {Average : Type} (conversions : Conversions Average)
    (isScavProfile : Int) (blocks : List (Block × Int))
    (predecessors : List (Place × Place))
    (profile : Profile Average) : Prop where
  cf :
    ∀ triple,
      (profile.cf.get? triple).getD 0 =
        blocks.countP fun sample => sample.1 = triple
  lat :
    ∀ triple,
      profile.lat.get? triple =
        if isScavProfile = 0 ∨ ∀ sample ∈ blocks, sample.1 ≠ triple then
          none
        else
          conversions.trueDiv
            ((blocks.filter (·.1 = triple)).map (·.2)).sum
            (blocks.countP fun sample => sample.1 = triple)
  pred :
    ∀ src dst,
      ((profile.pred.get? dst).bind (·.get? src)).getD 0 =
        predecessors.count (src, dst)

theorem countItems_sum (blocks : List (Block × Int)) (triple : Block) :
    (((countItems blocks).filter (·.1 = triple)).map (·.2)).sum =
      blocks.countP fun sample => sample.1 = triple := by
  induction blocks with
  | nil =>
      rfl
  | cons sample rest inductionHypothesis =>
      unfold countItems at inductionHypothesis ⊢
      by_cases here : sample.1 = triple
      · simp [here, inductionHypothesis, Nat.add_comm]
      · simp [here, inductionHypothesis]

theorem latItems_sum (blocks : List (Block × Int)) (triple : Block) :
    (((latItems blocks).filter (·.1 = triple)).map (·.2)).sum =
      (((blocks.filter (·.1 = triple)).map (·.2)).sum,
        blocks.countP fun sample => sample.1 = triple) := by
  induction blocks with
  | nil =>
      rfl
  | cons sample rest inductionHypothesis =>
      unfold latItems at inductionHypothesis ⊢
      by_cases here : sample.1 = triple
      · simp [here, inductionHypothesis, Nat.add_comm]
      · simp [here, inductionHypothesis]

/-- The counts of sources among some predecessors -/
def sourceItems (samples : List (Place × Place)) : List (Place × Nat) :=
  samples.map fun sample => (sample.1, 1)

theorem sourceItems_sum
    (samples : List (Place × Place)) (src : Place) :
    (((sourceItems samples).filter (·.1 = src)).map (·.2)).sum =
      samples.countP fun sample => sample.1 = src := by
  induction samples with
  | nil =>
      rfl
  | cons sample rest inductionHypothesis =>
      unfold sourceItems at inductionHypothesis ⊢
      by_cases here : sample.1 = src
      · simp [here, inductionHypothesis, Nat.add_comm]
      · simp [here, inductionHypothesis]

/-- The sources of one destination -/
theorem predItems_filter
    (predecessors : List (Place × Place)) (dst : Place) :
    ((predItems predecessors).filter (·.1 = dst)) =
      predItems (predecessors.filter (·.2 = dst)) := by
  unfold predItems
  rw [List.filter_map]
  rfl

theorem sourceTally_predItems (samples : List (Place × Place)) :
    ((predItems samples).map fun item => sourceTally item.2).sum =
      ((sourceItems samples).map fun item =>
        Dict.single id item.1 item.2).sum := by
  have one (src : Place) :
      sourceTally (Dict.empty.set src 1) = Dict.single id src 1 := by
    funext query
    unfold sourceTally Dict.tally Dict.single
    rw [Dict.get?_set]
    by_cases here : query = src
    · simp [here]
    · simp [here]
  simp [predItems, sourceItems, one, Function.comp_def]

/-- The counts of a dictionary that tallies predecessors -/
theorem predecessors_get?
    {pred : Dict Place (Dict Place Nat)}
    {predecessors : List (Place × Place)}
    (isTally :
      pred.tally sourceTally =
        ((predItems predecessors).map fun item =>
          Dict.single sourceTally item.1 item.2).sum)
    (src dst : Place) :
    (pred.get? dst).bind (·.get? src) =
      if predecessors.count (src, dst) = 0 then none
      else some (predecessors.count (src, dst)) := by
  have ofDst := Dict.get?_of_tally isTally dst
  rw [predItems_filter, sourceTally_predItems] at ofDst
  have both :
      (predecessors.filter (·.2 = dst)).countP
          (fun sample => sample.1 = src) =
        predecessors.count (src, dst) := by
    rw [List.countP_filter, List.count_eq_countP]
    refine List.countP_congr ?_
    simp [Prod.ext_iff]
  rw [← both]
  cases isPresent : pred.get? dst with
  | none =>
      rw [isPresent] at ofDst
      have noSamples : predecessors.filter (·.2 = dst) = [] := by
        by_contra someSamples
        simp [predItems, someSamples] at ofDst
      rw [noSamples]
      rfl
  | some sources =>
      rw [isPresent, Option.map_some] at ofDst
      split at ofDst
      · cases ofDst
      · have ofSrc := Dict.get?_of_tally (Option.some.inj ofDst) src
        rw [Option.map_id, id_eq] at ofSrc
        simp only [id_eq] at ofSrc
        rw [Option.bind_some, ofSrc, sourceItems_sum]
        have isNone :
            (sourceItems (predecessors.filter (·.2 = dst))).filter
                (·.1 = src) = [] ↔
              (predecessors.filter (·.2 = dst)).countP
                (fun sample => sample.1 = src) = 0 := by
          rw [List.countP_eq_zero, sourceItems, List.filter_eq_nil_iff,
            List.forall_mem_map]
        simp only [isNone]

theorem predecessors_count
    {pred : Dict Place (Dict Place Nat)}
    {predecessors : List (Place × Place)}
    (isTally :
      pred.tally sourceTally =
        ((predItems predecessors).map fun item =>
          Dict.single sourceTally item.1 item.2).sum)
    (src dst : Place) :
    ((pred.get? dst).bind (·.get? src)).getD 0 =
      predecessors.count (src, dst) := by
  rw [predecessors_get? isTally]
  split
  · next isZero => exact isZero.symm
  · rfl

namespace Tallies

variable
  {Average : Type} {conversions : Conversions Average}
  {isScavProfile : Int} {totals : SubDicts}
  {blocks : List (Block × Int)} {predecessors : List (Place × Place)}

/-- Dictionaries that tally the samples give a profile that counts them. -/
theorem averaged_counts
    (tallies : Tallies totals blocks predecessors)
    (onlyProfiled : isScavProfile ≠ 1 → predecessors = [])
    {profile : Profile Average}
    (isProfile :
      averaged conversions isScavProfile totals = some profile) :
    profile.Counts conversions isScavProfile blocks predecessors := by
  have counts (triple : Block) :
      (totals.cf.get? triple).getD 0 =
        blocks.countP fun sample => sample.1 = triple := by
    rw [Dict.getD_of_tally tallies.cf, countItems_sum]
  unfold averaged at isProfile
  split at isProfile
  · next noScav =>
      cases isProfile
      refine ⟨counts, ?_, ?_⟩
      · intro triple
        rw [if_pos (.inl noScav)]
        rfl
      · rw [onlyProfiled (by omega)]
        intro src dst
        rfl
  · next scav =>
      rw [Option.map_eq_some_iff] at isProfile
      obtain ⟨lat, isLat, rfl⟩ := isProfile
      obtain ⟨rfl, -⟩ := (Dict.mapValues?_eq_some_iff _).mp isLat
      refine ⟨counts, ?_, predecessors_count tallies.pred⟩
      intro triple
      have timed := Dict.get?_of_tally tallies.lat triple
      have noSamples :
          (latItems blocks).filter (·.1 = triple) = [] ↔
            ∀ sample ∈ blocks, sample.1 ≠ triple := by
        rw [latItems, List.filter_eq_nil_iff, List.forall_mem_map]
        simp only [decide_eq_true_eq, ne_eq]
      simp only [Option.map_id, id_eq, latItems_sum, noSamples] at timed
      simp only [Dict.get?_filterMapValues, timed, scav, false_or]
      split <;> rfl

end Tallies

/-- The value of a digit -/
def digit? (char : Char) : Option Int :=
  if '0' ≤ char ∧ char ≤ '9' then some (char.toNat - '0'.toNat : Nat)
  else if 'a' ≤ char ∧ char ≤ 'f' then
    some (char.toNat - 'a'.toNat + 10 : Nat)
  else none

/-- Conversions of unsigned numerals without a prefix, and exact division -/
def plainConversions : Conversions Rat where
  int text base :=
    if text = "" then none
    else
      text.toList.foldl
        (fun value char =>
          value.bind fun value =>
            (digit? char).map fun digit => value * base + digit)
        (some 0)
  trueDiv sum cnt := if cnt = 0 then none else some (sum / cnt)

end LoadProb

end Msh
