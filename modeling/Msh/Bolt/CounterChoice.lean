import Mathlib.Logic.Function.Basic
import Msh.Library.X86

/-!
# Choosing a loop's counter

`insertYield` gives the latch of a loop a counter: a register that nothing in
the loop uses, or a place in memory if the loop has another yield.  It looks
for other yields and for uses of the register in the blocks that the loop
information lists.  Each latch is split, one after the other, and what goes to
the new block is not in these lists any more.
-/

namespace Msh.BoundYieldDistanceInstrumenter

open Function X86

/-- What is read of an instruction of the function -/
structure Inst where
  /-- Instructions are known by where they are in memory. -/
  ptr : Nat
  /-- The registers that `getInstUsedRegsList` finds -/
  touches : Gpr → Bool
  /-- The annotation `InsertYield` or `InsertPrefetchAndYield` -/
  isYield : Bool
  /-- The annotation `IterationBound` -/
  iterationBound : Option Int
  /-- `IM[ScanAddr].RegsToSave` -/
  regsToSave : Gpr → Bool
  /-- `annotateInst` makes both annotations together. -/
  bound_isYield : iterationBound.isSome = true → isYield = true

/-- An instruction of the function as it is now -/
inductive Code where
  | original (inst : Inst)
  /-- Counting and comparing for the latch that is in a block -/
  | counter (owner : Nat) (reg : Gpr) (inductionReg : Option Gpr)
  /-- A yield of a latch, with the registers that it is told to save -/
  | yield (regsToSave : Gpr → Bool)

/-- A function and what `getLoopInfo` knows of its loops -/
structure LoopNest where
  blocks : List Nat
  insts : Nat → List Inst
  /-- The innermost loop around a block, `getLoopFor` -/
  loopFor : Nat → Option Nat
  /-- The loops around a loop, by `getParentLoop` from inside to outside -/
  parents : Nat → List Nat
  subLoops : Nat → List Nat
  /-- `InductionReg`, as found by the scanner -/
  inductionReg : Nat → Option Gpr
  distinct :
    ∀ block, ∀ inst ∈ insts block, ∀ other, ∀ inst' ∈ insts other,
      inst.ptr = inst'.ptr → block = other ∧ inst = inst'

/-- The options and the order of the registers' numbers -/
structure Options where
  regOrder : List Gpr
  disableUseUnusedReg : Bool
  disableMemoryLoops : Bool
  disableYieldInLoops : Bool

/-- An entry of `Patches`: a block and its instruction with the bound -/
structure Patch (nest : LoopNest) where
  block : Nat
  inst : Inst
  inst_mem : inst ∈ nest.insts block
  isBound : inst.iterationBound.isSome = true
  /-- The latch's loop; that there is one is asserted. -/
  loop : Nat
  isLoop : nest.loopFor block = some loop
  block_mem : block ∈ nest.blocks

/-- A register counter that a latch has been given -/
structure RegCounter where
  owner : Nat
  loop : Nat
  reg : Gpr
  deriving DecidableEq

/-- The function while it is instrumented -/
structure State where
  /-- What is in each of the original blocks -/
  front : Nat → List Code
  /-- What has gone from there to a new block -/
  back : Nat → List Code
  /-- `RegsAlreadyUsed` of each loop -/
  regsAlreadyUsed : Nat → Gpr → Bool
  counters : List RegCounter

/-- The registers that an instruction reads or writes -/
def Code.touches : Code → Gpr → Bool
  | .original inst, reg => inst.touches reg
  | .counter _ counterReg inductionReg, reg =>
      reg = counterReg || some reg = inductionReg
  | .yield regsToSave, reg =>
      regsToSave reg || reg = .rdi || reg = .rcx || reg = .rsp

/-- An instruction with an annotation for a yield -/
def Code.isYield : Code → Bool
  | .original inst => inst.isYield
  | _ => false

/-- `&Inst == &CMInst` -/
def Code.isInst (inst : Inst) : Code → Bool
  | .original other => other.ptr = inst.ptr
  | _ => false

namespace LoopNest

variable (nest : LoopNest)

/-- `contains`: the loop is around the block. -/
def contains (loop block : Nat) : Bool :=
  match nest.loopFor block with
  | none => false
  | some inner => loop = inner || (nest.parents inner).contains loop

/-- `Loop->blocks()` -/
def loopBlocks (loop : Nat) : List Nat :=
  nest.blocks.filter (nest.contains loop)

/-- Before the first latch is split -/
def init : State where
  front block := (nest.insts block).map .original
  back _ := []
  regsAlreadyUsed _ _ := false
  counters := []

end LoopNest

/-- The set with another register -/
def addReg (regs : Gpr → Bool) (reg : Gpr) : Gpr → Bool :=
  fun other => regs other || other = reg

namespace Options

variable (options : Options)

/-- `getUnusedGPReg` -/
def getUnusedGPReg (aliveRegs : Gpr → Bool) : Option Gpr :=
  options.regOrder.find? fun reg => reg ≠ .rsp && !aliveRegs reg

/-- The search for a register that passes `checkUnusedReg`, with as many
tries as there are registers -/
def findUnusedReg (touched : Gpr → Bool) :
    Nat → (Gpr → Bool) → Option Gpr
  | 0, _ => none
  | tries + 1, regsAlreadyUsed =>
      match options.getUnusedGPReg regsAlreadyUsed with
      | none => none
      | some reg =>
          if touched reg then
            findUnusedReg touched tries (addReg regsAlreadyUsed reg)
          else some reg

end Options

variable {nest : LoopNest}

namespace State

variable (state : State)

/-- What a loop's listed blocks hold -/
def listed (nest : LoopNest) (loop : Nat) : List Code :=
  (nest.loopBlocks loop).flatMap state.front

/-- `hasYield` -/
def hasYield (patch : Patch nest) : Bool :=
  (patch.loop :: nest.subLoops patch.loop).any fun loop =>
    (state.listed nest loop).any fun code =>
      !code.isInst patch.inst && code.isYield

/-- `checkUnusedReg` fails. -/
def touched (nest : LoopNest) (loop : Nat) (reg : Gpr) : Bool :=
  (state.listed nest loop).any (·.touches reg)

/-- The registers that the search leaves out from the start -/
def regsInUse (patch : Patch nest) : Gpr → Bool :=
  fun reg =>
    state.regsAlreadyUsed patch.loop reg || patch.inst.regsToSave reg ||
      (nest.parents patch.loop).any fun parent =>
        state.regsAlreadyUsed parent reg

/-- `UnusedGPReg` -/
def unusedGPReg (options : Options) (patch : Patch nest) : Option Gpr :=
  options.findUnusedReg (state.touched nest patch.loop)
    (options.regOrder.length + 1) (state.regsInUse patch)

/-- `UseMemory` -/
def useMemory (options : Options) (patch : Patch nest) : Bool :=
  state.hasYield patch || options.disableUseUnusedReg

/-- `RegsAlreadyUsed` with the register in the loop and those around it -/
def useReg (patch : Patch nest) (reg : Gpr) : Nat → Gpr → Bool :=
  fun loop =>
    if loop = patch.loop ∨ loop ∈ nest.parents patch.loop then
      addReg (state.regsAlreadyUsed loop) reg
    else state.regsAlreadyUsed loop

/-- What `createYieldInstrs` appends, if yields in loops are not disabled -/
def yieldCode (options : Options) (patch : Patch nest) (reg : Gpr) :
    List Code :=
  if options.disableYieldInLoops then []
  else [.yield (addReg patch.inst.regsToSave reg)]

/-- The instructions that `insertYield` makes -/
def insertedCode (options : Options) (patch : Patch nest) : List Code :=
  match state.unusedGPReg options patch with
  | none => []
  | some reg =>
      if state.useMemory options patch then
        if options.disableMemoryLoops then []
        else
          .counter patch.block reg none :: yieldCode options patch reg
      else
        .counter patch.block reg (nest.inductionReg patch.loop) ::
          yieldCode options patch reg

/-- The register counter that `insertYield` gives the loop, if it does -/
def givenCounter (options : Options) (patch : Patch nest) :
    Option RegCounter :=
  match state.unusedGPReg options patch with
  | none => none
  | some reg =>
      if state.useMemory options patch then none
      else some ⟨patch.block, patch.loop, reg⟩

/-- One turn of the loop in `instrumentFunc`: `insertYield` and the split -/
def applyPatch (options : Options) (patch : Patch nest) : State where
  front :=
    update state.front patch.block
      ((state.front patch.block).takeWhile (!·.isInst patch.inst) ++
        state.insertedCode options patch)
  back :=
    update state.back patch.block
      ((state.front patch.block).dropWhile (!·.isInst patch.inst))
  regsAlreadyUsed :=
    match state.unusedGPReg options patch with
    | none => state.regsAlreadyUsed
    | some reg => state.useReg patch reg
  counters :=
    state.counters ++ (state.givenCounter options patch).toList

/-- The latches are split in the order of `Patches`. -/
def applyPatches (options : Options) (state : State)
    (patches : List (Patch nest)) : State :=
  patches.foldl (fun state patch => state.applyPatch options patch) state

end State

end Msh.BoundYieldDistanceInstrumenter
