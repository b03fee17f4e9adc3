import Mathlib.Data.List.MinMax
import Msh.Bolt.YieldDistance

/-!
# The latency that a block is given

While it grows distances, the analysis takes a block's latency from its size
if the profile has one, and from the profile if that has none.  The latency
of a path is looked up the other way round.  So the two agree with each other
and with the profile only where the latencies happen to be the same.
-/

namespace Msh.YieldDistanceAnalysis

/-! ## What is asked of a latency -/

/-- An entry of the profile is for a block. -/
def LatProfEntry.IsFor (entry : LatProfEntry) (bb : BasicBlock) : Prop :=
  bb.beginAddr = some entry.begin ∧ bb.endAddr = some entry.stop

/-- A latency that the profile gives a block, or its size if there is none -/
def Profiled (ipc : Ipc) (lv : List LatProfEntry) (bb : BasicBlock)
    (amount : BitVec 64) : Prop :=
  (∃ entry ∈ lv, entry.IsFor bb ∧ entry.lat = amount) ∨
    (∀ entry ∈ lv, ¬ entry.IsFor bb) ∧ amount = bb.dumbLatency ipc

/-- The same latency grows distances, starts them again and is a path's. -/
structure UsesLatency (ipc : Ipc) (cycleTh : BitVec 64) (bb : BasicBlock)
    (analysis : Analysis) (cur : List YieldDistance) (final : Analysis)
    (amount : BitVec 64) : Prop where
  grows :
    (growDistances ipc bb analysis.latencyProfile cur).2 =
      cur.map fun entry =>
        ⟨entry.yieldPoint, entry.distance + amount, bb.ptr⟩
  restarts :
    (¬ ∀ entry ∈ (growDistances ipc bb analysis.latencyProfile cur).2,
      entry.distance ≤ cycleTh) →
        (computeNext ipc cycleTh bb analysis cur).2 =
          [⟨bb.firstInst, amount, bb.ptr⟩]
  path : pathLatency ipc final.latencyProfile bb = amount

/-- The inputs of the analysis of a function -/
structure Input where
  ipc : Ipc
  cycleTh : BitVec 64
  lv : List LatProfEntry
  pv : List PredProfEntry
  func : BinaryFunction

namespace Input

variable (input : Input)

/-- A block by where it is in memory -/
def block? (ptr : Nat) : Option BasicBlock :=
  input.func.blocks.find? (·.ptr == ptr)

/-- The block that a call of `computeNext` is for -/
def blockOf (cur : List YieldDistance) : Option BasicBlock :=
  cur.head?.bind fun first => input.block? first.curBB

/-- What a call of `computeNext` makes of the analysis -/
def call (analysis : Analysis) (cur : List YieldDistance) : Analysis :=
  match input.blockOf cur with
  | none => analysis
  | some bb => (computeNext input.ipc input.cycleTh bb analysis cur).1

/-- The analysis before the first block -/
def start : Analysis :=
  preflight input.ipc input.lv input.pv input.func

/-- The analysis after some calls -/
def after (calls : List (List YieldDistance)) : Analysis :=
  calls.foldl input.call input.start

/-- A profile was given. -/
def hasProfile : Bool :=
  !(input.lv.isEmpty || input.pv.isEmpty)

/-- A first one of the shortest entries that begin at an address -/
def shortest (begin : BitVec 64) : Option LatProfEntry :=
  (input.lv.filter (·.begin = begin)).argmin (·.stop.toNat)

/--
Of the entries that begin where a block does, only the shortest one is looked
at: if it is for the block, its latency is the block's size.  A block without
addresses has no size.
-/
def ShortestAgrees (bb : BasicBlock) : Prop :=
  match bb.beginAddr, bb.endAddr with
  | some beginAddr, some endAddr =>
      ∀ entry, input.shortest beginAddr = some entry →
        entry.stop = endAddr → entry.lat = bb.dumbLatency input.ipc
  | _, _ => bb.dumbLatency input.ipc = 0

/-- The latencies that are used for a block are those of the profile. -/
def LatencyAgrees (bb : BasicBlock) (cur : List YieldDistance) : Prop :=
  if input.hasProfile then
    Profiled input.ipc input.lv bb (bb.dumbLatency input.ipc) ∧
      input.ShortestAgrees bb
  else
    Profiled input.ipc input.lv bb 0 ∧
      (bb.dumbLatency input.ipc = 0 ∨
        ∃ entry, cur = [entry] ∧ entry.distance ≤ input.cycleTh)

/-- What the map of the profile has for an address -/
theorem get?_latencyProfileTmpMap (lv : List LatProfEntry)
    (begin : BitVec 64) :
    (latencyProfileTmpMap lv).get? begin =
      (lv.filter (·.begin = begin)).argmin (·.stop.toNat) := by
  induction lv using List.reverseRecOn with
  | nil => rfl
  | append_singleton lv entry inductionHypothesis =>
      have isFirst (noOld : (latencyProfileTmpMap lv).get? entry.begin = none) :
          latencyProfileTmpMap (lv ++ [entry]) =
            (latencyProfileTmpMap lv).set entry.begin entry := by
        rw [latencyProfileTmpMap, List.foldl_append, ← latencyProfileTmpMap,
          List.foldl_cons, List.foldl_nil, noOld]
      have isLater {old : LatProfEntry}
          (isOld : (latencyProfileTmpMap lv).get? entry.begin = some old) :
          latencyProfileTmpMap (lv ++ [entry]) =
            if entry.stop < old.stop then
              (latencyProfileTmpMap lv).set entry.begin entry
            else latencyProfileTmpMap lv := by
        rw [latencyProfileTmpMap, List.foldl_append, ← latencyProfileTmpMap,
          List.foldl_cons, List.foldl_nil, isOld]
      rw [List.filter_append]
      by_cases isHere : entry.begin = begin
      · subst isHere
        rw [List.filter_cons_of_pos (by simp), List.filter_nil,
          List.argmin_concat, ← inductionHypothesis]
        cases found : (latencyProfileTmpMap lv).get? entry.begin with
        | none => rw [isFirst found, Dict.get?_set, if_pos rfl]
        | some old =>
            rw [isLater found]
            simp only [BitVec.lt_def]
            split
            · rw [Dict.get?_set, if_pos rfl]
            · exact found
      · have isOther (entries : Dict (BitVec 64) LatProfEntry) :
            (entries.set entry.begin entry).get? begin =
              entries.get? begin := by
          rw [Dict.get?_set, if_neg (Ne.symm isHere)]
        rw [List.filter_cons_of_neg (by simpa using isHere),
          List.filter_nil, List.append_nil, ← inductionHypothesis]
        cases found : (latencyProfileTmpMap lv).get? entry.begin with
        | none => rw [isFirst found, isOther]
        | some old =>
            rw [isLater found]
            split
            · exact isOther _
            · rfl

/-- What `preflight` stores is the block's size where the entry agrees. -/
theorem shortestAgrees_iff {bb : BasicBlock} :
    input.ShortestAgrees bb ↔
      preflightLatency input.ipc input.lv bb = bb.dumbLatency input.ipc := by
  unfold ShortestAgrees preflightLatency shortest
  cases bb.beginAddr with
  | none => exact eq_comm
  | some beginAddr =>
      cases bb.endAddr with
      | none => exact eq_comm
      | some endAddr =>
          dsimp only
          rw [get?_latencyProfileTmpMap]
          cases (input.lv.filter (·.begin = beginAddr)).argmin
              (·.stop.toNat) with
          | none => exact iff_of_true nofun rfl
          | some entry =>
              dsimp only
              constructor
              · intro agrees
                split
                · next isStop => exact agrees entry rfl isStop
                · rfl
              · rintro isDumb _ ⟨rfl⟩ isStop
                rwa [if_pos isStop] at isDumb

end Input

/-! ## One block -/

section Block

variable {ipc : Ipc} {bb : BasicBlock} {profile : Dict Nat (BitVec 64)}

/-- With a latency in the profile, distances grow by the block's size. -/
theorem growDistances_of_some {latency : BitVec 64}
    (found : profile.get? bb.ptr = some latency)
    (cur : List YieldDistance) :
    growDistances ipc bb profile cur =
      (profile, cur.map fun entry =>
        ⟨entry.yieldPoint, entry.distance + bb.dumbLatency ipc, bb.ptr⟩) := by
  induction cur with
  | nil =>
      rfl
  | cons entry rest inductionHypothesis =>
      simp only [growDistances, found, inductionHypothesis, List.map_cons]

/-- Without one, the first distance does not grow. -/
theorem growDistances_of_none (absent : profile.get? bb.ptr = none)
    (entry : YieldDistance) (rest : List YieldDistance) :
    growDistances ipc bb profile (entry :: rest) =
      (profile.set bb.ptr 0,
        ⟨entry.yieldPoint, entry.distance + 0, bb.ptr⟩ ::
          rest.map fun entry =>
            ⟨entry.yieldPoint, entry.distance + bb.dumbLatency ipc,
              bb.ptr⟩) := by
  have inserted : (profile.set bb.ptr 0).get? bb.ptr = some 0 := by
    rw [Dict.get?_set, if_pos rfl]
  simp only [growDistances, absent, growDistances_of_some inserted]

/-- The profile has a latency for a block that has been gone through. -/
theorem growDistances_fst (entry : YieldDistance)
    (rest : List YieldDistance) :
    (growDistances ipc bb profile (entry :: rest)).1 =
      if (profile.get? bb.ptr).isSome then profile
      else profile.set bb.ptr 0 := by
  cases found : profile.get? bb.ptr with
  | none => rw [growDistances_of_none found]; rfl
  | some latency => rw [growDistances_of_some found]; rfl

/-- Growing by two amounts is the same only if they are. -/
theorem map_add_inj {amount other : BitVec 64} {cur : List YieldDistance}
    (notEmpty : cur ≠ [])
    (same :
      (cur.map fun entry =>
        (⟨entry.yieldPoint, entry.distance + amount, bb.ptr⟩ :
          YieldDistance)) =
        cur.map fun entry =>
          ⟨entry.yieldPoint, entry.distance + other, bb.ptr⟩) :
    amount = other := by
  cases cur with
  | nil =>
      exact absurd rfl notEmpty
  | cons entry rest =>
      have heads := (List.cons.inj same).1
      have distances := congrArg YieldDistance.distance heads
      exact (BitVec.add_right_inj _).mp distances

variable {cycleTh : BitVec 64} {analysis : Analysis}

/-- What a first visit stores and returns -/
theorem computeNext_of_unvisited (entry : YieldDistance)
    (rest : List YieldDistance)
    (unvisited : analysis.visitCount.get? bb.ptr = none) :
    (computeNext ipc cycleTh bb analysis (entry :: rest)).1.latencyProfile =
        (growDistances ipc bb analysis.latencyProfile (entry :: rest)).1 ∧
      (computeNext ipc cycleTh bb analysis (entry :: rest)).1.visitCount =
        analysis.visitCount.set bb.ptr 1 ∧
      (computeNext ipc cycleTh bb analysis (entry :: rest)).2 =
        if (growDistances ipc bb analysis.latencyProfile
            (entry :: rest)).2.all (·.distance ≤ cycleTh) then
          (growDistances ipc bb analysis.latencyProfile (entry :: rest)).2
        else [⟨bb.firstInst, bb.dumbLatency ipc, bb.ptr⟩] := by
  obtain ⟨latency, inserted⟩ : ∃ latency,
      (growDistances ipc bb analysis.latencyProfile
        (entry :: rest)).1.get? bb.ptr = some latency := by
    rw [growDistances_fst]
    cases found : analysis.latencyProfile.get? bb.ptr with
    | none => exact ⟨0, by simp [Dict.get?_set]⟩
    | some latency => exact ⟨latency, by simpa using found⟩
  unfold computeNext restartDistance
  simp only [unvisited, Option.isSome_none, Bool.false_eq_true, ↓reduceIte,
    inserted]
  split <;> exact ⟨rfl, rfl, rfl⟩

/-- With a latency in the profile, one amount is used if it is the size's. -/
theorem usesLatency_iff_of_some {final : Analysis}
    {latency amount : BitVec 64} {entry : YieldDistance}
    {rest : List YieldDistance}
    (unvisited : analysis.visitCount.get? bb.ptr = none)
    (found : analysis.latencyProfile.get? bb.ptr = some latency)
    (atEnd : final.latencyProfile.get? bb.ptr = some latency) :
    UsesLatency ipc cycleTh bb analysis (entry :: rest) final amount ↔
      amount = bb.dumbLatency ipc ∧ latency = bb.dumbLatency ipc := by
  have path : pathLatency ipc final.latencyProfile bb = latency := by
    rw [pathLatency, atEnd]
  have grown := @growDistances_of_some ipc bb _ _ found (entry :: rest)
  obtain ⟨-, -, output⟩ :=
    @computeNext_of_unvisited ipc bb cycleTh analysis entry rest unvisited
  constructor
  · intro uses
    have sameAmount :=
      map_add_inj (List.cons_ne_nil entry rest)
        ((congrArg Prod.snd grown).symm.trans uses.grows)
    exact ⟨sameAmount.symm, path.symm.trans (uses.path.trans sameAmount.symm)⟩
  · rintro ⟨rfl, isLatency⟩
    refine ⟨congrArg Prod.snd grown, fun above => ?_, path.trans isLatency⟩
    rw [output, if_neg]
    simpa using above

/-- Without one, the amount used is zero, where the size does not count. -/
theorem usesLatency_iff_of_none {final : Analysis} {amount : BitVec 64}
    {entry : YieldDistance} {rest : List YieldDistance}
    (unvisited : analysis.visitCount.get? bb.ptr = none)
    (absent : analysis.latencyProfile.get? bb.ptr = none)
    (atEnd : final.latencyProfile.get? bb.ptr = some 0) :
    UsesLatency ipc cycleTh bb analysis (entry :: rest) final amount ↔
      amount = 0 ∧
        (bb.dumbLatency ipc = 0 ∨ rest = [] ∧ entry.distance ≤ cycleTh) := by
  have path : pathLatency ipc final.latencyProfile bb = 0 := by
    rw [pathLatency, atEnd]
  have grown := @growDistances_of_none ipc bb _ absent entry rest
  obtain ⟨-, -, output⟩ :=
    @computeNext_of_unvisited ipc bb cycleTh analysis entry rest unvisited
  constructor
  · intro uses
    have isZero : amount = 0 := uses.path.symm.trans path
    subst isZero
    refine ⟨rfl, ?_⟩
    by_cases zero : bb.dumbLatency ipc = 0
    · exact .inl zero
    · right
      have grows := (congrArg Prod.snd grown).symm.trans uses.grows
      have isLast : rest = [] := by
        by_contra more
        exact zero (map_add_inj more (List.cons.inj grows).2)
      refine ⟨isLast, ?_⟩
      by_contra above
      have restarts := uses.restarts (by
        rw [grown, isLast]
        simpa using above)
      rw [output, grown, isLast, if_neg (by simpa using above)] at restarts
      exact zero (congrArg YieldDistance.distance (List.cons.inj restarts).1)
  · rintro ⟨rfl, zero | ⟨rfl, within⟩⟩
    · refine ⟨?_, fun above => ?_, path⟩
      · rw [grown, zero, List.map_cons]
      · rw [output, if_neg, zero]
        simpa using above
    · refine ⟨congrArg Prod.snd grown, fun above => ?_, path⟩
      rw [grown] at above
      exact absurd (by simpa using within) above

end Block

/-! ## Runs -/

namespace Input

variable {input : Input}

/-- What the profile says before the first block -/
theorem start_latencyProfile {bb : BasicBlock}
    (member : bb ∈ input.func.blocks) :
    input.start.latencyProfile.get? bb.ptr =
      if input.hasProfile then
        some (preflightLatency input.ipc input.lv bb)
      else none := by
  unfold start preflight hasProfile
  cases input.lv.isEmpty || input.pv.isEmpty with
  | true => rfl
  | false =>
      exact Dict.get?_foldl_set input.func.distinct member .empty

/-- What a call does to the profile and to the visits -/
theorem call_cases (analysis : Analysis) (cur : List YieldDistance) :
    input.call analysis cur = analysis ∨
      ∃ bb ∈ input.func.blocks,
        analysis.visitCount.get? bb.ptr = none ∧
          (input.call analysis cur).visitCount =
            analysis.visitCount.set bb.ptr 1 ∧
          (input.call analysis cur).latencyProfile =
            if (analysis.latencyProfile.get? bb.ptr).isSome then
              analysis.latencyProfile
            else analysis.latencyProfile.set bb.ptr 0 := by
  cases cur with
  | nil => exact .inl rfl
  | cons entry rest =>
      unfold call
      cases isBlock : input.blockOf (entry :: rest) with
      | none => exact .inl rfl
      | some bb =>
          have member : bb ∈ input.func.blocks :=
            List.mem_of_find?_eq_some isBlock
          cases visited : analysis.visitCount.get? bb.ptr with
          | some count =>
              left
              simp [computeNext, visited]
          | none =>
              obtain ⟨sameProfile, visits, -⟩ :=
                @computeNext_of_unvisited input.ipc bb input.cycleTh
                  analysis entry rest visited
              exact .inr ⟨bb, member, visited, visits,
                sameProfile.trans (growDistances_fst entry rest)⟩

/-- A latency that the profile has is kept. -/
theorem call_keeps {analysis : Analysis} {ptr : Nat} {latency : BitVec 64}
    (found : analysis.latencyProfile.get? ptr = some latency)
    (cur : List YieldDistance) :
    (input.call analysis cur).latencyProfile.get? ptr = some latency := by
  rcases input.call_cases analysis cur with
    same | ⟨bb, -, -, -, isProfile⟩
  · rw [same, found]
  · rw [isProfile]
    split
    · exact found
    · next absent =>
        rw [Dict.get?_set, if_neg, found]
        rintro rfl
        simp [found] at absent

theorem foldl_call_keeps {analysis : Analysis} {ptr : Nat}
    {latency : BitVec 64}
    (found : analysis.latencyProfile.get? ptr = some latency)
    (calls : List (List YieldDistance)) :
    (calls.foldl input.call analysis).latencyProfile.get? ptr =
      some latency := by
  induction calls generalizing analysis with
  | nil => exact found
  | cons cur rest inductionHypothesis =>
      exact inductionHypothesis (call_keeps found cur)

/-- For a block not visited, the profile is that of the start. -/
def Tracks (input : Input) (analysis : Analysis) : Prop :=
  ∀ bb ∈ input.func.blocks, analysis.visitCount.get? bb.ptr = none →
    analysis.latencyProfile.get? bb.ptr =
      input.start.latencyProfile.get? bb.ptr

theorem Tracks.call {analysis : Analysis} (tracks : input.Tracks analysis)
    (cur : List YieldDistance) : input.Tracks (input.call analysis cur) := by
  rcases input.call_cases analysis cur with
    same | ⟨bb, -, -, visits, isProfile⟩
  · rw [same]
    exact tracks
  · intro other member unvisited
    rw [visits, Dict.get?_set] at unvisited
    split at unvisited
    · cases unvisited
    · next differs =>
        rw [isProfile, ← tracks other member unvisited]
        split
        · rfl
        · rw [Dict.get?_set, if_neg differs]

theorem tracks_after (calls : List (List YieldDistance)) :
    input.Tracks (input.after calls) := by
  refine List.foldlRecOn calls input.call (fun _ _ _ => rfl) ?_
  intro analysis tracks cur _
  exact tracks.call cur

/--
In every run, for every block that `computeNext` reaches, one latency that
the profile gives the block is used throughout if and only if the latencies
agree.
-/
theorem usesLatency_iff (before later : List (List YieldDistance))
    (cur : List YieldDistance) {bb : BasicBlock}
    (isBlock : input.blockOf cur = some bb)
    (unvisited : (input.after before).visitCount.get? bb.ptr = none) :
    (∃ amount, Profiled input.ipc input.lv bb amount ∧
        UsesLatency input.ipc input.cycleTh bb (input.after before) cur
          (input.after (before ++ cur :: later)) amount) ↔
      input.LatencyAgrees bb cur := by
  cases cur with
  | nil => cases isBlock
  | cons entry rest =>
      have member : bb ∈ input.func.blocks :=
        List.mem_of_find?_eq_some isBlock
      have atStart :=
        (tracks_after before bb member unvisited).trans
          (start_latencyProfile member)
      have isAfter :
          input.after (before ++ (entry :: rest) :: later) =
            later.foldl input.call
              (computeNext input.ipc input.cycleTh bb (input.after before)
                (entry :: rest)).1 := by
        rw [after, List.foldl_append, List.foldl_cons, ← after]
        simp only [call, isBlock]
      obtain ⟨stored, -, -⟩ :=
        @computeNext_of_unvisited input.ipc bb input.cycleTh
          (input.after before) entry rest unvisited
      rw [growDistances_fst, atStart] at stored
      unfold LatencyAgrees
      cases given : input.hasProfile with
      | true =>
          simp only [given, ↓reduceIte] at atStart stored ⊢
          have atEnd := @foldl_call_keeps input _ bb.ptr _
            (by rw [stored]; exact atStart) later
          rw [← isAfter] at atEnd
          simp only
            [usesLatency_iff_of_some unvisited atStart atEnd,
              shortestAgrees_iff]
          constructor
          · rintro ⟨amount, profiled, rfl, same⟩
            exact ⟨profiled, same⟩
          · rintro ⟨profiled, same⟩
            exact ⟨_, profiled, rfl, same⟩
      | false =>
          simp only [given, Bool.false_eq_true, ↓reduceIte] at atStart stored ⊢
          have atEnd := @foldl_call_keeps input _ bb.ptr 0
            (by rw [stored]; simp [Dict.get?_set]) later
          rw [← isAfter] at atEnd
          simp only
            [usesLatency_iff_of_none unvisited atStart atEnd]
          constructor
          · rintro ⟨amount, profiled, rfl, zero | ⟨rfl, within⟩⟩
            · exact ⟨profiled, .inl zero⟩
            · exact ⟨profiled, .inr ⟨entry, rfl, within⟩⟩
          · rintro ⟨profiled, zero | ⟨other, same, within⟩⟩
            · exact ⟨0, profiled, rfl, .inl zero⟩
            · cases same
              exact ⟨0, profiled, rfl, .inr ⟨rfl, within⟩⟩

end Input

/-- A block of three instructions, whose profiled latency is given -/
def oneBlockInput (latency : BitVec 64) : Input where
  ipc := ⟨1, by decide⟩
  cycleTh := 1000
  lv := [⟨100, 110, latency⟩]
  pv := [⟨100, 110, 1⟩]
  func := ⟨[⟨0, 3, 10, some 100, some 110, none⟩], by decide⟩

/-- Three instructions and three cycles agree. -/
theorem usesLatency_three :
    (∃ amount,
      Profiled ⟨1, by decide⟩ [⟨100, 110, 3⟩]
          ⟨0, 3, 10, some 100, some 110, none⟩ amount ∧
        UsesLatency ⟨1, by decide⟩ 1000
          ⟨0, 3, 10, some 100, some 110, none⟩
          ((oneBlockInput 3).after []) [⟨10, 0, 0⟩]
          ((oneBlockInput 3).after [[⟨10, 0, 0⟩]]) amount) ↔
      (oneBlockInput 3).LatencyAgrees ⟨0, 3, 10, some 100, some 110, none⟩
        [⟨10, 0, 0⟩] :=
  @Input.usesLatency_iff (oneBlockInput 3) [] [] [⟨10, 0, 0⟩]
    ⟨0, 3, 10, some 100, some 110, none⟩ (by decide) (by decide)

/-- A latency of fifty cycles is not what grows the distance. -/
theorem fifty_not_used :
    ¬ ∃ amount,
      Profiled ⟨1, by decide⟩ [⟨100, 110, 50⟩]
          ⟨0, 3, 10, some 100, some 110, none⟩ amount ∧
        UsesLatency ⟨1, by decide⟩ 1000
          ⟨0, 3, 10, some 100, some 110, none⟩
          ((oneBlockInput 50).after []) [⟨10, 0, 0⟩]
          ((oneBlockInput 50).after [[⟨10, 0, 0⟩]]) amount := by
  rintro ⟨amount, -, uses⟩
  have found :
      (oneBlockInput 50).start.latencyProfile.get? 0 = some 50 := by
    decide
  have same :=
    ((usesLatency_iff_of_some rfl found (by decide)).mp uses).2
  exact absurd same (by decide)

end Msh.YieldDistanceAnalysis
