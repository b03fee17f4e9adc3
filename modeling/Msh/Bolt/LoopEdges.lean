import Mathlib.Logic.Function.Basic
import Msh.Library.EdgeTrace
import Msh.Library.X86

/-!
# Putting pushes and pops on the edges of loops

`LoopOptInstrumenter` makes blocks that only lead into a loop and blocks that
are only entered from it.  A new block is linked into the flow graph, and into
the layout by changing a branch or by laying it behind the block it comes
from.
-/

namespace Msh

open Function Layout X86

/-- A function with its flow graph -/
structure FlowFunction (Op : Type) where
  /-- The blocks in their layout -/
  code : List (Block Nat Op)
  entry : Nat
  succs : Nat → List Nat
  preds : Nat → List Nat
  isPseudoPreheader : Nat → Bool
  /-- The label that `createBasicBlock` takes next -/
  fresh : Nat

namespace FlowFunction

variable {Op : Type}

/-- The first of some labels that is the old one becomes the new one; that
there is one is asserted. -/
def replaceFirst (old new : Nat) : List Nat → Option (List Nat)
  | [] => none
  | label :: rest =>
      if label = old then some (new :: rest)
      else (replaceFirst old new rest).map (label :: ·)

/-- `createBasicBlock` and `setIsPseudoPreheader` -/
def createBasicBlock (fn : FlowFunction Op) (isPseudoPreheader : Bool) :
    FlowFunction Op where
  code := fn.code
  entry := fn.entry
  succs := update fn.succs fn.fresh []
  preds := update fn.preds fn.fresh []
  isPseudoPreheader := update fn.isPseudoPreheader fn.fresh isPseudoPreheader
  fresh := fn.fresh + 1

/-- `replaceSuccessor` -/
def replaceSuccessor (fn : FlowFunction Op) (block succ newSucc : Nat) :
    Option (FlowFunction Op) :=
  (replaceFirst succ newSucc (fn.succs block)).map fun succs =>
    let preds := update fn.preds succ ((fn.preds succ).erase block)
    { fn with
      succs := update fn.succs block succs
      preds := update preds newSucc (preds newSucc ++ [block]) }

/-- `addSuccessor` -/
def addSuccessor (fn : FlowFunction Op) (block succ : Nat) :
    FlowFunction Op :=
  { fn with
    succs := update fn.succs block (fn.succs block ++ [succ])
    preds := update fn.preds succ (fn.preds succ ++ [block]) }

/-- Laying out a block on an edge: `findBranch` changes the branch that goes
over the edge, if it finds one; the block is then behind the last one. -/
def layMidBlock (findBranch : Nat → Nat → Exit Nat → Option (Exit Nat))
    (noop : Op) (code : List (Block Nat Op)) (edge : Nat × Nat)
    (midBlock : Nat) : List (Block Nat Op) :=
  match (exit? code edge.1).bind (findBranch edge.2 midBlock) with
  | some exit =>
      updateBlock code edge.1 (fun block => { block with exit := exit }) ++
        [⟨midBlock, [], .jump edge.2⟩]
  | none => insertAfter edge.1 ⟨midBlock, [noop], .fall⟩ code

/-- A new block on an edge -/
def addMidBlock (findBranch : Nat → Nat → Exit Nat → Option (Exit Nat))
    (isPseudoPreheader : Bool) (noop : Op) (fn : FlowFunction Op)
    (edge : Nat × Nat) : Option (FlowFunction Op) :=
  let midBlock := fn.fresh
  ((fn.createBasicBlock isPseudoPreheader).replaceSuccessor
    edge.1 edge.2 midBlock).map fun linked =>
      { linked.addSuccessor midBlock edge.2 with
        code := layMidBlock findBranch noop fn.code edge midBlock }

/-- Instructions in another form -/
def mapOps {Op' : Type} (f : Op → Op') (fn : FlowFunction Op) :
    FlowFunction Op' :=
  { fn with
    code := fn.code.map fun block =>
      ⟨block.label, block.ops.map f, block.exit⟩ }

end FlowFunction

namespace LoopOptInstrumenter

/-- An instruction of an instrumented function -/
inductive LoopOp (Op : Type) where
  | original (op : Op)
  /-- `createPushToRegSet` before a loop, known by its header -/
  | push (header : Nat) (regs : List Reg)
  /-- `createPopFromRegSet` behind a loop -/
  | pop (header : Nat) (regs : List Reg)
  | noop
  deriving DecidableEq, Repr

/-- The instruction of the original function -/
def LoopOp.original? {Op : Type} : LoopOp Op → Option Op
  | .original op => some op
  | _ => none

/-- An instruction that does something -/
def LoopOp.visible {Op : Type} : LoopOp Op → Bool
  | .noop => false
  | _ => true

/-- A loop of the function and the registers in its bit vectors -/
structure BinaryLoop where
  header : Nat
  blocks : List Nat
  regsToEvacuate : List Reg
  regsToAsymPush : List Reg
  regsToAsymPop : List Reg

namespace BinaryLoop

variable {Op : Type} (loop : BinaryLoop)

/-- `contains` -/
def contains (block : Nat) : Bool :=
  loop.blocks.contains block

/-- A loop without registers is left as it is. -/
def hasRegs : Bool :=
  !(loop.regsToEvacuate.isEmpty && loop.regsToAsymPush.isEmpty &&
    loop.regsToAsymPop.isEmpty)

/-- What is pushed at the end of a preheader -/
def push : LoopOp Op :=
  .push loop.header
    (loop.regsToEvacuate ++ loop.regsToAsymPush ++ loop.regsToAsymPop)

/-- What is popped at the start of an exit block -/
def pop : LoopOp Op :=
  .pop loop.header (loop.regsToEvacuate ++ loop.regsToAsymPush)

variable (fn : FlowFunction Op)

/-- `LoopPredecessors`, and `LoopPreheaders` once the edges are patched -/
def loopPredecessors : List Nat :=
  (fn.preds loop.header).filter fun pred => !loop.contains pred

/-- The edges into the loop that get a block -/
def entryEdges : List (Nat × Nat) :=
  (loop.loopPredecessors fn).flatMap fun pred =>
    ((fn.succs pred).filter fun succ =>
      loop.contains succ && decide ((fn.succs pred).length ≠ 1)).map (pred, ·)

/-- `getExitingBlocks` -/
def exitingBlocks : List Nat :=
  loop.blocks.filter fun block =>
    (fn.succs block).any fun succ => !loop.contains succ

/-- The edges out of the loop that get a block -/
def exitEdges (exitingBlocks : List Nat) : List (Nat × Nat) :=
  exitingBlocks.flatMap fun block =>
    ((fn.succs block).filter fun succ =>
      !loop.contains succ && decide ((fn.preds succ).length ≠ 1)).map (block, ·)

/-- `DedicatedExitBlocks` -/
def dedicatedExitBlocks (exitingBlocks : List Nat) : List Nat :=
  exitingBlocks.flatMap fun block =>
    (fn.succs block).filter fun succ => !loop.contains succ

end BinaryLoop

variable {Op : Type}

/-- The same change in several blocks, one after the other -/
def changeBlocks (change : List (LoopOp Op) → List (LoopOp Op))
    (fn : FlowFunction (LoopOp Op)) (blocks : List Nat) :
    FlowFunction (LoopOp Op) :=
  { fn with
    code := blocks.foldl (fun code block => changeOps code block change)
      fn.code }

/-- One loop.  The search for the branch to the header goes through all
branches of the block, the one for the branch to the exit takes the last one
only. -/
def patchLoop (fn : FlowFunction (LoopOp Op)) (loop : BinaryLoop) :
    Option (FlowFunction (LoopOp Op)) := do
  let fn ← (loop.entryEdges fn).foldlM
    (FlowFunction.addMidBlock Exit.redirect? true .noop) fn
  let fn := changeBlocks (· ++ [loop.push]) fn (loop.loopPredecessors fn)
  let exitingBlocks := loop.exitingBlocks fn
  let fn ← (loop.exitEdges fn exitingBlocks).foldlM
    (FlowFunction.addMidBlock Exit.redirectLast? false .noop) fn
  return changeBlocks (loop.pop :: ·) fn
    (loop.dedicatedExitBlocks fn exitingBlocks)

/-- All loops, `getLoopsInPreorder` -/
def instrumentFunc (loops : List BinaryLoop)
    (fn : FlowFunction (LoopOp Op)) : Option (FlowFunction (LoopOp Op)) :=
  (loops.filter (·.hasRegs)).foldlM patchLoop fn

/-! ## What is expected -/

/-- Control leaves the loop. -/
def BinaryLoop.leaves (loop : BinaryLoop) (source target : Nat) : Bool :=
  loop.contains source && !loop.contains target

/-- Control enters the loop. -/
def BinaryLoop.enters (loop : BinaryLoop) (source target : Nat) : Bool :=
  !loop.contains source && loop.contains target

/-- What is to stand on an edge: a pop for each loop that is left, from inside
to outside, and a push for each one that is entered, from outside to inside -/
def crossing (loops : List BinaryLoop) (source target : Nat) :
    List (LoopOp Op) :=
  (loops.filter (·.leaves source target)).reverse.map (·.pop) ++
    (loops.filter (·.enters source target)).map (·.push)

/-- What is to be pushed when the function is called: its entry may be in a
loop. -/
def atEntry (loops : List BinaryLoop) (entry : Nat) : List (LoopOp Op) :=
  (loops.filter (·.contains entry)).map (·.push)

/-- The original instructions as instructions of an instrumented function -/
def written (fn : FlowFunction Op) : FlowFunction (LoopOp Op) :=
  fn.mapOps .original

/-- What is to be executed, up to any point -/
def Expected (loops : List BinaryLoop) (fn : FlowFunction Op)
    (trace : List (LoopOp Op)) : Prop :=
  ∃ rest, EdgeTrace (written fn).code
      (crossing (loops.filter (·.hasRegs))) fn.entry rest ∧
    trace <+: atEntry (loops.filter (·.hasRegs)) fn.entry ++ rest

/-- The instrumented function executes the original function, each push where
a loop is entered and each pop where it is left, and nothing else but
`noop`. -/
structure KeepsFlow (loops : List BinaryLoop) (fn : FlowFunction Op)
    (instrumented : FlowFunction (LoopOp Op)) : Prop where
  executes : ∀ trace, Expected loops fn trace ↔
    ∃ executed, Trace instrumented.code fn.entry executed ∧
      executed.filter LoopOp.visible = trace
  erased : ∀ trace, Trace fn.code fn.entry trace ↔
    ∃ executed, Trace instrumented.code fn.entry executed ∧
      executed.filterMap LoopOp.original? = trace

/-- What is known of a function and its loops -/
structure WellFormed (loops : List BinaryLoop) (fn : FlowFunction Op) :
    Prop where
  distinct : (labels fn.code).Nodup
  closed : EndsClosed fn.code
  noTable : ∀ block ∈ fn.code, ∀ targets, block.exit ≠ .table targets
  entry_mem : fn.entry ∈ labels fn.code
  below_fresh : ∀ label ∈ labels fn.code, label < fn.fresh
  targets_mem : ∀ label target, some target ∈ goes fn.code label →
    target ∈ labels fn.code
  succs_eq : ∀ label ∈ labels fn.code,
    fn.succs label = (goes fn.code label).filterMap id
  preds_count : ∀ label ∈ labels fn.code, ∀ target ∈ labels fn.code,
    (fn.preds target).count label = (fn.succs label).count target
  preds_mem : ∀ target ∈ labels fn.code, ∀ label ∈ fn.preds target,
    label ∈ labels fn.code
  blocks_mem : ∀ loop ∈ loops, ∀ block ∈ loop.blocks, block ∈ labels fn.code
  blocks_nodup : ∀ loop ∈ loops, loop.blocks.Nodup
  header_mem : ∀ loop ∈ loops, loop.header ∈ loop.blocks
  /-- A loop is entered at its header only. -/
  enters_header : ∀ loop ∈ loops, ∀ source target,
    some target ∈ goes fn.code source → source ∉ loop.blocks →
    target ∈ loop.blocks → target = loop.header
  /-- From each block of a loop there is a way to its header in the loop. -/
  stays : ∀ loop ∈ loops, ∀ block ∈ loop.blocks, ∃ succ ∈ loop.blocks,
    some succ ∈ goes fn.code block
  latch : ∀ loop ∈ loops, ∃ block ∈ loop.blocks,
    some loop.header ∈ goes fn.code block
  /-- Loops are disjoint or nested, the outer one first. -/
  preorder : loops.Pairwise fun first second =>
    (∀ block ∈ second.blocks, block ∈ first.blocks) ∨
      ∀ block ∈ second.blocks, block ∉ first.blocks

/-- No edge of a loop is one that the instrumenter splits wrongly. -/
structure Splittable (loops : List BinaryLoop) (fn : FlowFunction Op) :
    Prop where
  /-- The function is not called into a loop. -/
  entry_outside : ∀ loop ∈ loops, fn.entry ∉ loop.blocks
  /-- The function's entry is not behind a loop only. -/
  entry_exit : ∀ loop ∈ loops, ∀ source ∈ loop.blocks,
    some fn.entry ∈ goes fn.code source → (fn.preds fn.entry).length ≠ 1
  /-- No block leads to a header twice, unless an earlier loop is left
  there. -/
  header_once : ∀ before loop after, loops = before ++ loop :: after →
    ∀ source, source ∉ loop.blocks →
      1 < (goes fn.code source).count (some loop.header) →
      ∃ left ∈ before, left.leaves source loop.header = true
  /-- No loop is left by a first branch to a block that has other
  predecessors, unless that block is the header of an earlier loop. -/
  exit_last : ∀ before loop after, loops = before ++ loop :: after →
    ∀ source ∈ loop.blocks, ∀ target other,
      exit? fn.code source = some (.branchJump target other) →
      target ∉ loop.blocks → (fn.preds target).length ≠ 1 →
      ∃ entered ∈ before, entered.enters source target = true

end LoopOptInstrumenter

end Msh
