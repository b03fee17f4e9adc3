import Msh.Bolt.CounterChoice
import Msh.Bolt.LoopEdges
import Msh.Library.Passages
import Msh.Library.SplitBlock

/-!
# Where a loop's counter is set

A latch with a counter in a register needs the register to be set before the
loop is entered.  `insertYield` marks the blocks before the header that lead
nowhere else, `createPreheader` puts a block on the other edges to the header,
and the register is set in each block that is marked.  Then the latch is split,
and the next one is dealt with.
-/

namespace Msh.BoundYieldDistanceInstrumenter

open Function Layout X86

/-- An instruction of the instrumented function -/
inductive PreheaderOp where
  | ofCode (code : Code)
  /-- `setRegToZero`, or `copyRegToReg` and `createAddRegImm` if the loop has
  an induction register -/
  | init (counter : RegCounter) (inductionReg : Option Gpr)
  | noop

namespace PreheaderOp

/-- `&*Iter == Inst` -/
def isInst (inst : Inst) : PreheaderOp → Bool
  | .ofCode code => code.isInst inst
  | _ => false

/-- The counter is set. -/
def isInit (counter : RegCounter) : PreheaderOp → Bool
  | .init other _ => other = counter
  | _ => false

end PreheaderOp

/-- A function with its loops -/
structure LoopFunction (nest : LoopNest) where
  fn : FlowFunction Inst
  /-- `getHeader` -/
  header : Nat → Nat
  /-- The registers that an instruction writes -/
  writes : Inst → Gpr → Bool

/-- The function while it is instrumented -/
structure Instrumented where
  choice : State
  fn : FlowFunction PreheaderOp
  /-- The block that the rest of a block has gone to -/
  newBlock : Nat → Option Nat

/-! ## Blocks before the header -/

section Preheader

variable (contains : Nat → Bool)

/-- The loop over the header's predecessors in `insertYield`, and
`hasPathToFix` -/
def markPreheaders :
    List Nat → FlowFunction PreheaderOp → FlowFunction PreheaderOp × Bool
  | [], fn => (fn, false)
  | pred :: preds, fn =>
      if contains pred then markPreheaders preds fn
      else if (fn.succs pred).length = 1 then
        markPreheaders preds
          { fn with isPseudoPreheader := update fn.isPseudoPreheader pred true }
      else if 1 < (fn.succs pred).length then (fn, true)
      else markPreheaders preds fn

/-- `LoopPredecessors` -/
def loopPredecessors (fn : FlowFunction PreheaderOp) (header : Nat) :
    List Nat :=
  (fn.preds header).filter fun pred => !contains pred

/-- `EdgesToPatch` -/
def edgesToPatch (fn : FlowFunction PreheaderOp) (header : Nat) :
    List (Nat × Nat) :=
  (loopPredecessors contains fn header).flatMap fun pred =>
    ((fn.succs pred).filter fun succ =>
      contains succ && decide ((fn.succs pred).length ≠ 1)).map (pred, ·)

/-- `createPreheader`, with its assertions -/
def createPreheader (fn : FlowFunction PreheaderOp) (header : Nat) :
    Option (FlowFunction PreheaderOp) :=
  if loopPredecessors contains fn header = [] ∨
      edgesToPatch contains fn header = [] then
    none
  else
    (edgesToPatch contains fn header).foldlM
      (FlowFunction.addMidBlock Exit.redirect? true .noop) fn

/-- An instruction before the last one, which there must be -/
def insertBeforeLast (op : PreheaderOp) (ops : List PreheaderOp) :
    Option (List PreheaderOp) :=
  ops.getLast?.map fun last => ops.dropLast ++ [op, last]

/-- `insertInstruction` before the last instruction of the block, or before the
one in front of it if that is a conditional branch.  Between two branches there
is no room in a block here; no block that leads to one other block only has
these. -/
def insertInit (op : PreheaderOp) (block : Block Nat PreheaderOp) :
    Option (List PreheaderOp) :=
  match block.exit with
  | .fall => insertBeforeLast op block.ops
  | .branch _ => insertBeforeLast op block.ops
  | .branchJump _ _ => none
  | .jump _ => some (block.ops ++ [op])
  | .table _ => some (block.ops ++ [op])
  | .leave => some (block.ops ++ [op])

/-- One turn of the second loop over the header's predecessors -/
def setInPreheader (op : PreheaderOp) (fn : FlowFunction PreheaderOp)
    (pred : Nat) : Option (FlowFunction PreheaderOp) :=
  if fn.isPseudoPreheader pred then
    ((block? fn.code pred).bind (insertInit op)).map fun ops =>
      { fn with code := changeOps fn.code pred fun _ => ops }
  else some fn

/-- Up to `createPreheader`, which is called if there is a path to fix -/
def fixPaths (header : Nat) (fn : FlowFunction PreheaderOp) :
    Option (FlowFunction PreheaderOp) :=
  let marked := markPreheaders contains (fn.preds header) fn
  if marked.2 then createPreheader contains marked.1 header
  else some marked.1

/-- What `insertYield` does for a counter in a register, with its last
assertion -/
def insertPreheader (op : PreheaderOp) (header : Nat)
    (fn : FlowFunction PreheaderOp) : Option (FlowFunction PreheaderOp) :=
  (fixPaths contains header fn).bind fun fn =>
    if (fn.preds header).any fn.isPseudoPreheader then
      (fn.preds header).foldlM (setInPreheader op) fn
    else none

end Preheader

/-! ## Splitting a latch -/

/-- The code with a block split at an instruction.  If that is the jump behind
a conditional branch, control can leave the block before what is inserted, which
is then written at the start of the new block. -/
def splitCode (inst : Inst) (isLast : Bool) (inserted : List PreheaderOp)
    (code : List (Block Nat PreheaderOp)) (block newBlock : Nat) :
    List (Block Nat PreheaderOp) :=
  match isLast, exit? code block with
  | true, some (.branchJump target other) =>
      splitBlock code block (fun first => { first with exit := .branch target })
        ⟨newBlock, inserted, .jump other⟩
  | _, some exit =>
      splitBlock code block
        (fun first =>
          ⟨first.label, first.ops.takeWhile (!·.isInst inst) ++ inserted, .fall⟩)
        ⟨newBlock, (ops code block).dropWhile (!·.isInst inst), exit⟩
  | _, none => code

/-- `createBasicBlock`, `moveAllSuccessorsTo`, `addSuccessor` and what is done
to the code -/
def splitLatch (inst : Inst) (isLast : Bool) (inserted : List PreheaderOp)
    (fn : FlowFunction PreheaderOp) (block : Nat) :
    FlowFunction PreheaderOp :=
  let newBlock := fn.fresh
  let moved (label : Nat) : List Nat :=
    (fn.preds label).filter (· ≠ block) ++
      List.replicate ((fn.succs block).count label) newBlock
  { fn with
    code := splitCode inst isLast inserted fn.code block newBlock
    succs := update (update fn.succs block [newBlock]) newBlock (fn.succs block)
    preds := update moved newBlock [block]
    isPseudoPreheader := update fn.isPseudoPreheader newBlock false
    fresh := fn.fresh + 1 }

/-! ## The run -/

variable {nest : LoopNest}

namespace LoopFunction

variable (func : LoopFunction nest) (options : Options)

/-- Before the first latch is split -/
def start : Instrumented where
  choice := nest.init
  fn := func.fn.mapOps fun inst => .ofCode (.original inst)
  newBlock _ := none

/-- The instruction is the last one of the block. -/
def isLast (patch : Patch nest) : Bool :=
  (nest.insts patch.block).getLast?.any (·.ptr = patch.inst.ptr)

/-- What is done before the loop: nothing, if the latch has no counter or one
in memory -/
def beforeLoop (state : Instrumented) (patch : Patch nest) :
    Option (FlowFunction PreheaderOp) :=
  match state.choice.givenCounter options patch with
  | none => some state.fn
  | some counter =>
      insertPreheader (nest.contains patch.loop)
        (.init counter (nest.inductionReg patch.loop)) (func.header patch.loop)
        state.fn

/-- One turn of the loop in `instrumentFunc` -/
def applyPatch (state : Instrumented) (patch : Patch nest) :
    Option Instrumented :=
  (func.beforeLoop options state patch).map fun fn =>
    { choice := state.choice.applyPatch options patch
      fn := splitLatch patch.inst (isLast patch)
        ((state.choice.insertedCode options patch).map .ofCode) fn patch.block
      newBlock := update state.newBlock patch.block (some fn.fresh) }

/-- The latches in the order of `Patches` -/
def instrumentFunc (patches : List (Patch nest)) : Option Instrumented :=
  patches.foldlM (func.applyPatch options) func.start

/-! ## What is expected -/

/-- The instruction writes the induction register of a loop. -/
def isWrite (loop : Nat) : PreheaderOp → Bool
  | .ofCode (.original inst) =>
      (nest.inductionReg loop).any (func.writes inst)
  | _ => false

/-- A write of the induction register, or the counter is set. -/
def isShown (counter : RegCounter) (op : PreheaderOp) : Bool :=
  op.isInit counter || func.isWrite counter.loop op

/-- The loop is entered, from outside or by a call. -/
def enters (nest : LoopNest) (loop : Nat) (source : Option Nat)
    (target : Nat) : Prop :=
  nest.contains loop target = true ∧
    ∀ block ∈ source, nest.contains loop block = false

/-- Where the loop is entered, the counter is set once, and the induction
register is not written after that.  Nowhere else it is set. -/
def SetOnEntry (nest : LoopNest) (counter : RegCounter) :
    Allowed Nat PreheaderOp :=
  fun source target seen =>
    (enters nest counter.loop source target →
      ∃ writes init, seen = writes ++ [init] ∧ init.isInit counter = true ∧
        ∀ op ∈ writes, op.isInit counter = false) ∧
    (¬enters nest counter.loop source target →
      ∀ op ∈ seen, op.isInit counter = false)

/-- In every execution of the instrumented function the counter is set where
its loop is entered and only there. -/
def Initialises (counter : RegCounter) (state : Instrumented) : Prop :=
  ∀ trace, Trace (withEntries state.fn.code) func.fn.entry trace →
    Passages (labels func.fn.code) (func.isShown counter)
      (SetOnEntry nest counter) none [] trace

/-! ## What is known of the function -/

/-- A loop has blocks, its header among them. -/
def IsLoop (nest : LoopNest) (loop : Nat) : Prop :=
  ∃ block, nest.contains loop block = true

/-- The flow graph is that of the code, and the loops are natural. -/
structure WellFormed : Prop where
  distinct : (labels func.fn.code).Nodup
  closed : EndsClosed func.fn.code
  entry_mem : func.fn.entry ∈ labels func.fn.code
  below_fresh : ∀ label ∈ labels func.fn.code, label < func.fn.fresh
  targets_mem : ∀ label target, some target ∈ goes func.fn.code label →
    target ∈ labels func.fn.code
  succs_eq : ∀ label ∈ labels func.fn.code,
    func.fn.succs label = (goes func.fn.code label).filterMap id
  preds_count : ∀ label, ∀ target ∈ labels func.fn.code,
    (func.fn.preds target).count label =
      if label ∈ labels func.fn.code then (func.fn.succs label).count target
      else 0
  /-- A block that is marked leads into a loop from outside and nowhere
  else. -/
  marked : ∀ loop, IsLoop nest loop →
    ∀ pred ∈ func.fn.preds (func.header loop),
      func.fn.isPseudoPreheader pred = true →
      func.fn.succs pred = [func.header loop] ∧
        nest.contains loop pred = false
  /-- The instructions of a block are those before its branches and these. -/
  insts_eq : ∀ label ∈ labels func.fn.code, ∃ branches,
    nest.insts label = ops func.fn.code label ++ branches
  contains_mem : ∀ loop block, nest.contains loop block = true →
    block ∈ labels func.fn.code
  header_mem : ∀ loop, IsLoop nest loop →
    nest.contains loop (func.header loop) = true
  header_inj : ∀ loop other, IsLoop nest loop → IsLoop nest other →
    func.header loop = func.header other → loop = other
  enters_header : ∀ loop source target,
    some target ∈ goes func.fn.code source →
    nest.contains loop source = false → nest.contains loop target = true →
    target = func.header loop
  entry_header : ∀ loop, nest.contains loop func.fn.entry = true →
    func.fn.entry = func.header loop
  /-- A loop can be entered. -/
  entered : ∀ loop, IsLoop nest loop → func.fn.entry = func.header loop ∨
    ∃ source ∈ labels func.fn.code, nest.contains loop source = false ∧
      some (func.header loop) ∈ goes func.fn.code source

/-! ## When all entries are found -/

/-- The rest of a block of the loop, in a new block -/
def IsRest (nest : LoopNest) (state : Instrumented) (loop label : Nat) :
    Prop :=
  ∃ block, nest.contains loop block = true ∧
    state.newBlock block = some label

/-- The block leads to several others. -/
def IsFork (state : Instrumented) (label : Nat) : Prop :=
  1 < (state.fn.succs label).length

/-- How it has to be before the loop where a latch is given a counter in a
register -/
structure EntriesFound (state : Instrumented) (loop : Nat) : Prop where
  /-- The function is not called into the loop. -/
  notEntry : func.fn.entry ≠ func.header loop
  /-- A block of the loop that has been split leads nowhere else, and stands
  in the list of predecessors behind a block outside that does. -/
  restsBehind : ∀ before rest after,
    state.fn.preds (func.header loop) = before ++ rest :: after →
    IsRest nest state loop rest →
    ¬IsFork state rest ∧
      ∃ fork ∈ before, nest.contains loop fork = false ∧ IsFork state fork
  /-- All other blocks before the loop that lead nowhere else stand before the
  first one that does, or have been marked. -/
  forksBehind : ∀ before pred after,
    state.fn.preds (func.header loop) = before ++ pred :: after →
    nest.contains loop pred = false → ¬IsRest nest state loop pred →
    ¬IsFork state pred → state.fn.isPseudoPreheader pred = false →
    ∀ fork ∈ before, nest.contains loop fork = false → ¬IsFork state fork
  /-- A block outside that leads to several others leads to the header once,
  and by no table. -/
  forksSplit : ∀ fork ∈ state.fn.preds (func.header loop),
    nest.contains loop fork = false → IsFork state fork →
    (state.fn.succs fork).count (func.header loop) = 1 ∧
      (goes state.fn.code fork).count (some (func.header loop)) = 1 ∧
      ∀ targets, exit? state.fn.code fork ≠ some (.table targets)
  /-- A block that falls through into the loop does not write the induction
  register in its last instruction. -/
  lastKeeps : ∀ pred ∈ state.fn.preds (func.header loop),
    nest.contains loop pred = false → ¬IsRest nest state loop pred →
    ¬IsFork state pred → exit? state.fn.code pred = some .fall →
    ∃ last, (ops state.fn.code pred).getLast? = some last ∧
      func.isWrite loop last = false
  /-- The header's predecessors in the flow graph are those of the code. -/
  predsKnown : ∀ label, some (func.header loop) ∈ goes state.fn.code label →
    nest.contains loop label = false →
    label ∈ state.fn.preds (func.header loop)

/-- In a run over the latches, all entries are found for each counter in a
register. -/
def Regular : List (Patch nest) → Instrumented → Prop
  | [], _ => True
  | patch :: patches, state =>
      (∀ counter, state.choice.givenCounter options patch = some counter →
        func.EntriesFound state patch.loop) ∧
      ∀ next, func.applyPatch options state patch = some next →
        Regular patches next

end LoopFunction

end Msh.BoundYieldDistanceInstrumenter
