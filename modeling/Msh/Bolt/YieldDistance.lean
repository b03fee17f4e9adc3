import Mathlib.Data.Rat.Floor
import Msh.Library.Dict

/-!
# The analysis of yield distances

`YieldDistanceAnalysis` follows how many cycles have passed since the last
yield, from block to block.  What is known of a block's latency and of the
weights of its predecessors comes from a profile; distances that come from
several predecessors are averaged.
-/

namespace Msh.YieldDistanceAnalysis

/-! ## Data -/

/-- An entry of the latency profile -/
structure LatProfEntry where
  begin : BitVec 64
  stop : BitVec 64
  lat : BitVec 64
  deriving DecidableEq, Repr

/-- An entry of the predecessor profile -/
structure PredProfEntry where
  target : BitVec 64
  src : BitVec 64
  counts : BitVec 64
  deriving DecidableEq, Repr

/-- The value of a `cl::opt<int>` that is divided by -/
abbrev Ipc := { ipc : Int // ipc ≠ 0 }

/-- What the analysis reads of a basic block -/
structure BasicBlock where
  /-- Blocks and instructions are known by where they are in memory. -/
  ptr : Nat
  size : BitVec 64
  firstInst : Nat
  /-- The annotation `AbsoluteInstrAddr` of the first instruction -/
  beginAddr : Option (BitVec 64)
  /-- The annotation of the last instruction -/
  endAddr : Option (BitVec 64)
  /-- The depth of the innermost loop around it -/
  loopDepth : Option Nat
  deriving DecidableEq, Repr

/-- A function's blocks in order -/
structure BinaryFunction where
  blocks : List BasicBlock
  distinct : (blocks.map (·.ptr)).Nodup

/-- `struct YieldDistance` -/
structure YieldDistance where
  yieldPoint : Nat
  distance : BitVec 64
  curBB : Nat
  deriving DecidableEq, Repr

/-- `class YDVector` -/
structure YDVector where
  data : List YieldDistance
  /-- Entries to be joined, by their yield points: here in the order in which
  these come, in the program in the order of the pointers -/
  aggregate : Dict Nat (List YieldDistance)

/-- `PredecessorWeight` -/
abbrev PredecessorWeight := Dict Nat ℚ

/-! ## The profile -/

/-- `BB.size() / IPC`, where the `int` is converted to a `size_t` -/
def BasicBlock.dumbLatency (bb : BasicBlock) (ipc : Ipc) : BitVec 64 :=
  bb.size / BitVec.ofInt 64 ipc

/-- `LatencyProfileTmpMap`: of the entries with one begin, a shortest one -/
def latencyProfileTmpMap (lv : List LatProfEntry) :
    Dict (BitVec 64) LatProfEntry :=
  lv.foldl
    (fun tmpMap entry =>
      match tmpMap.get? entry.begin with
      | none => tmpMap.set entry.begin entry
      | some old =>
          if entry.stop < old.stop then tmpMap.set entry.begin entry
          else tmpMap)
    .empty

/-- What `preflight` stores as the latency of a block -/
def preflightLatency (ipc : Ipc) (lv : List LatProfEntry)
    (bb : BasicBlock) : BitVec 64 :=
  match bb.beginAddr, bb.endAddr with
  | some beginAddr, some endAddr =>
      match (latencyProfileTmpMap lv).get? beginAddr with
      | some entry =>
          if entry.stop = endAddr then entry.lat else bb.dumbLatency ipc
      | none => bb.dumbLatency ipc
  | _, _ => 0

/-- `BBEndAddrMap` -/
def bbEndAddrMap (func : BinaryFunction) : Dict (BitVec 64) Nat :=
  func.blocks.foldl
    (fun endAddrMap bb =>
      match bb.endAddr with
      | some endAddr => endAddrMap.set endAddr bb.ptr
      | none => endAddrMap)
    .empty

/-- The weights of the predecessors of a block that begins at an address -/
def predecessorWeight (func : BinaryFunction) (pv : List PredProfEntry)
    (beginAddr : BitVec 64) : PredecessorWeight :=
  (pv.filter (·.target = beginAddr)).foldl
    (fun weights entry =>
      match (bbEndAddrMap func).get? entry.src with
      | some pred => weights.set pred entry.counts.toNat
      | none => weights)
    .empty

/-- What the analysis keeps from one block to the next -/
structure Analysis where
  latencyProfile : Dict Nat (BitVec 64)
  predecessorProfile : Dict Nat PredecessorWeight
  visitCount : Dict Nat Nat
  yieldPointMap : Dict Nat Nat

/-- The analysis before `preflight` -/
def Analysis.empty : Analysis := ⟨.empty, .empty, .empty, .empty⟩

/-- `preflight` -/
def preflight (ipc : Ipc) (lv : List LatProfEntry) (pv : List PredProfEntry)
    (func : BinaryFunction) : Analysis :=
  if lv.isEmpty || pv.isEmpty then .empty
  else
    { Analysis.empty with
      latencyProfile :=
        func.blocks.foldl
          (fun profile bb => profile.set bb.ptr (preflightLatency ipc lv bb))
          .empty
      predecessorProfile :=
        func.blocks.foldl
          (fun profile bb =>
            match bb.beginAddr with
            | some beginAddr =>
                if pv.any (·.target = beginAddr) then
                  profile.set bb.ptr (predecessorWeight func pv beginAddr)
                else profile
            | none => profile)
          .empty }

/-! ## Joining -/

/-- `PredecessorProfile[BB]` -/
def Analysis.weightsOf (analysis : Analysis) (bb : Nat) :
    PredecessorWeight :=
  (analysis.predecessorProfile.get? bb).getD .empty

/-- `getStartingStateAtBB` -/
def getStartingStateAtBB (bb : BasicBlock) : YDVector :=
  ⟨[⟨bb.firstInst, 0, bb.ptr⟩], .empty⟩

/-- `doConfluence` -/
def doConfluence (analysis : Analysis) (stateOut stateIn : YDVector) :
    YDVector :=
  match stateOut.data.head? with
  | none => stateOut
  | some first =>
      if (analysis.visitCount.get? first.curBB).isSome then stateOut
      else
        { stateOut with
          aggregate :=
            stateIn.data.foldl
              (fun aggregate entry =>
                aggregate.set entry.yieldPoint
                  ((aggregate.get? entry.yieldPoint).getD [] ++ [entry]))
              stateOut.aggregate }

/-- `Distance += x` with a sum that is cut off to an integer -/
def addTruncated (distance : BitVec 64) (amount : ℚ) : BitVec 64 :=
  BitVec.ofNat 64 ⌊(distance.toNat : ℚ) + amount⌋₊

/-- A predecessor has a weight. -/
def hasPredProf (weights : PredecessorWeight) (entry : YieldDistance) :
    Bool :=
  (weights.get? entry.curBB).isSome

/-- Case 3: no predecessor has a profile, each one counts alike. -/
def joinAverage (bb : Nat) (entries : List YieldDistance)
    (start : YieldDistance) : YieldDistance :=
  entries.foldl
    (fun joined entry =>
      ⟨entry.yieldPoint,
        addTruncated joined.distance
          (entry.distance.toNat * (1 / entries.length)), bb⟩)
    start

/-- `sum_weight` -/
def sumWeight (weights : PredecessorWeight) (entries : List YieldDistance) :
    ℚ :=
  (entries.filterMap fun entry => weights.get? entry.curBB).sum

/-- Cases 1 and 2: entries without a profile do not count. -/
def joinWeighted (weights : PredecessorWeight) (bb : Nat)
    (entries : List YieldDistance) (start : YieldDistance) :
    YieldDistance :=
  entries.foldl
    (fun joined entry =>
      match weights.get? entry.curBB with
      | none => joined
      | some weight =>
          ⟨entry.yieldPoint,
            addTruncated joined.distance
              (entry.distance.toNat *
                (weight / sumWeight weights entries)), bb⟩)
    start

/-- What is appended for a yield point; its pointer is set by the entries. -/
def joinEntries (weights : PredecessorWeight) (bb : Nat)
    (item : Nat × List YieldDistance) : YieldDistance :=
  if item.2.any (hasPredProf weights) then
    joinWeighted weights bb item.2 ⟨item.1, 0, bb⟩
  else joinAverage bb item.2 ⟨item.1, 0, bb⟩

/-- `postDoConfluence` -/
def postDoConfluence (analysis : Analysis) (stateOut : YDVector) :
    YDVector :=
  match stateOut.data.head? with
  | none => stateOut
  | some first =>
      { data :=
          stateOut.data ++
            stateOut.aggregate.items.map
              (joinEntries (analysis.weightsOf first.curBB) first.curBB)
        aggregate := .empty }

/-! ## Going through a block -/

/-- Growing the distances; `LatencyProfile[BB]` inserts what it misses. -/
def growDistances (ipc : Ipc) (bb : BasicBlock) :
    Dict Nat (BitVec 64) → List YieldDistance →
      Dict Nat (BitVec 64) × List YieldDistance
  | profile, [] => (profile, [])
  | profile, entry :: rest =>
      match profile.get? bb.ptr with
      | none =>
          let grown := growDistances ipc bb (profile.set bb.ptr 0) rest
          (grown.1, ⟨entry.yieldPoint, entry.distance + 0, bb.ptr⟩ :: grown.2)
      | some _ =>
          let grown := growDistances ipc bb profile rest
          (grown.1,
            ⟨entry.yieldPoint, entry.distance + bb.dumbLatency ipc,
              bb.ptr⟩ :: grown.2)

/-- The distance from a yield at the start of a block -/
def restartDistance (ipc : Ipc) (bb : BasicBlock)
    (profile : Dict Nat (BitVec 64)) : Dict Nat (BitVec 64) × BitVec 64 :=
  match profile.get? bb.ptr with
  | none => (profile.set bb.ptr 0, 0)
  | some _ => (profile, bb.dumbLatency ipc)

/-- Whether a yield is placed in a block: not in a nested loop -/
def BasicBlock.placesYield (bb : BasicBlock) : Nat :=
  match bb.loopDepth with
  | some depth => if 2 ≤ depth then 0 else 1
  | none => 1

/-- `computeNext` for the block that the first entry is in -/
def computeNext (ipc : Ipc) (cycleTh : BitVec 64) (bb : BasicBlock)
    (analysis : Analysis) (cur : List YieldDistance) :
    Analysis × List YieldDistance :=
  if (analysis.visitCount.get? bb.ptr).isSome then (analysis, cur)
  else
    let visited :=
      { analysis with visitCount := analysis.visitCount.set bb.ptr 1 }
    let grown := growDistances ipc bb visited.latencyProfile cur
    if grown.2.all (fun entry => entry.distance ≤ cycleTh) then
      ({ visited with latencyProfile := grown.1 }, grown.2)
    else
      let restart := restartDistance ipc bb grown.1
      ({ visited with
         latencyProfile := restart.1
         yieldPointMap :=
           visited.yieldPointMap.set bb.firstInst bb.placesYield },
        [⟨bb.firstInst, restart.2, bb.ptr⟩])

/-- The latency of a block in `computeAveragePathLatency` -/
def pathLatency (ipc : Ipc) (profile : Dict Nat (BitVec 64))
    (bb : BasicBlock) : BitVec 64 :=
  match profile.get? bb.ptr with
  | none => bb.dumbLatency ipc
  | some latency => latency

end Msh.YieldDistanceAnalysis
