import Msh.Bolt.FilterUnusedRegs
import Msh.Library.ControlFlow
import Msh.Library.Dict

/-!
# Copying a function for pseudo-inlining

A function that is called in a loop and has yield points of its own gets a
second body, its `_PseudoCopy`, that leaves the saving of unused registers to
its callers.  The copy is made block by block under fresh labels; operands
that refer to a copied block are patched, and the edges of the flow graph are
rebuilt in a second pass.
-/

namespace Msh.PseudoInline

open X86 ControlFlow

/-- `MCSymbol`: functions, the labels of blocks, and data. -/
inductive Symbol where
  | function (name : String)
  /-- The name of the callee with `_PseudoCopy` behind it -/
  | pseudoCopy (callee : Symbol)
  | label (id : Nat)
  | data (id : Nat)
  deriving DecidableEq, Repr

/-- `MCOperand` -/
inductive MCOperand where
  | reg (name : RegName)
  | imm (value : Int)
  /-- An expression of the kind `MCExpr::SymbolRef` -/
  | symbolRef (symbol : Symbol)
  /-- An expression of another kind -/
  | otherExpr (symbol : Symbol) (addend : Int)
  deriving DecidableEq, Repr

/-- What an instruction does, as far as control is concerned. -/
inductive Opcode where
  | cfi
  | plain (id : Nat)
  | jmp
  | jcc (cond : Nat)
  /-- An indirect jump to an entry of a jump table -/
  | jmpTable (table : Nat)
  | call
  | ret
  deriving DecidableEq, Repr

/-- The annotations of an instruction. -/
structure Annotations where
  insertPrefetchAndYield : Bool
  insertYield : Bool
  pseudoInline : Bool
  /-- `MCAnnotation::kTailCall` -/
  tailCall : Bool
  /-- Annotations that are stripped from a copy like all others -/
  others : List String
  deriving DecidableEq, Repr

/-- No annotation. -/
def Annotations.none : Annotations where
  insertPrefetchAndYield := false
  insertYield := false
  pseudoInline := false
  tailCall := false
  others := []

/-- `MCInst` -/
structure MCInst where
  opcode : Opcode
  operands : List MCOperand
  annotations : Annotations
  deriving DecidableEq, Repr

/-- `BinaryBasicBlock` -/
structure BinaryBasicBlock where
  label : Symbol
  insts : List MCInst
  successors : List Symbol
  deriving DecidableEq, Repr

/-- `BinaryFunction`; the blocks are in layout order. -/
structure BinaryFunction where
  symbol : Symbol
  blocks : List BinaryBasicBlock
  /-- `getPLTSymbol() != nullptr` -/
  isPLT : Bool
  hasPnYPoint : Bool
  isPseudoCopy : Bool
  /-- The function that `PseudoCopy` points to, by its symbol -/
  pseudoCopy : Option Symbol
  filteredRegs : Reg → Bool

/-- The entries of the jump tables, which are data and not code. -/
abbrev JumpTables := Nat → List Symbol

namespace MCInst

/-- `isCFI` -/
def isCFI (inst : MCInst) : Bool :=
  inst.opcode == .cfi

/-- `getTargetSymbol` -/
def getTargetSymbol (inst : MCInst) : Option Symbol :=
  match inst.operands with
  | .symbolRef symbol :: _ => some symbol
  | _ => none

/-- What an instruction does to control; a call comes back. -/
def flow (tables : JumpTables) (inst : MCInst) : Flow Symbol :=
  match inst.opcode with
  | .cfi => .skip
  | .plain _ => .next
  | .jmp =>
      match inst.getTargetSymbol with
      | some target => .jump target
      | none => .stop
  | .jcc _ =>
      match inst.getTargetSymbol with
      | some target => .branch target
      | none => .stop
  | .jmpTable table => .choose (tables table)
  | .call => .next
  | .ret => .stop

/-- `stripAnnotations` -/
def stripAnnotations (inst : MCInst) : MCInst :=
  { inst with annotations := .none }

/-- The copy of an instruction: CFIs are left out, the two marks are kept. -/
def copy? (inst : MCInst) : Option MCInst :=
  if inst.isCFI then none
  else
    let pnyTarget := inst.annotations.insertPrefetchAndYield
    let yTarget := inst.annotations.insertYield
    some
      { inst.stripAnnotations with
        annotations :=
          { Annotations.none with
            insertPrefetchAndYield := pnyTarget
            insertYield := yTarget } }

end MCInst

/-- `patchLocalSymbol`, for one operand. -/
def MCOperand.patchLocalSymbol (namePatchMap : Dict Symbol Symbol) :
    MCOperand → MCOperand
  | .symbolRef symbol =>
      match namePatchMap.get? symbol with
      | some newSymbol => .symbolRef newSymbol
      | none => .symbolRef symbol
  | operand => operand

/-- `patchLocalSymbol` -/
def MCInst.patchLocalSymbol (namePatchMap : Dict Symbol Symbol)
    (inst : MCInst) : MCInst :=
  { inst with
    operands :=
      inst.operands.map (MCOperand.patchLocalSymbol namePatchMap) }

/-- The next fresh label, and the map of the caller's instrumenter. -/
structure PatchState where
  nextLabel : Nat
  namePatchMap : Dict Symbol Symbol

/-- `createBasicBlock` and the instructions that go into the new block. -/
def copyBlocks : List BinaryBasicBlock → PatchState →
    List BinaryBasicBlock × PatchState
  | [], state => ([], state)
  | bb :: rest, state =>
      let newLabel := Symbol.label state.nextLabel
      let later :=
        copyBlocks rest
          { nextLabel := state.nextLabel + 1
            namePatchMap := state.namePatchMap.set bb.label newLabel }
      ({ label := newLabel
         insts := bb.insts.filterMap MCInst.copy?
         successors := [] } :: later.1,
        later.2)

/-- `patchLocalSymbol` in every instruction of the new function. -/
def patchBlocks (namePatchMap : Dict Symbol Symbol)
    (blocks : List BinaryBasicBlock) : List BinaryBasicBlock :=
  blocks.map fun bb =>
    { bb with insts := bb.insts.map (MCInst.patchLocalSymbol namePatchMap) }

/-- `getBasicBlockForLabel` -/
def getBasicBlockForLabel (blocks : List BinaryBasicBlock)
    (label : Symbol) : Option BinaryBasicBlock :=
  blocks.find? (·.label == label)

/-- `NewBB->addSuccessor(NewSucc)` -/
def addSuccessor (newBBLabel newSuccLabel : Symbol)
    (blocks : List BinaryBasicBlock) : List BinaryBasicBlock :=
  blocks.map fun bb =>
    if bb.label = newBBLabel then
      { bb with successors := bb.successors ++ [newSuccLabel] }
    else bb

/--
The edges from one block of the copy; `none` where an assertion fails, which
it does for a successor without an entry in the map.
-/
def addSuccessors (namePatchMap : Dict Symbol Symbol)
    (newBBLabel : Symbol) : List Symbol → List BinaryBasicBlock →
    Option (List BinaryBasicBlock)
  | [], blocks => some blocks
  | succ :: rest, blocks =>
      match namePatchMap.get? succ with
      | none => none
      | some newSuccLabel =>
          match getBasicBlockForLabel blocks newSuccLabel with
          | none => none
          | some _ =>
              addSuccessors namePatchMap newBBLabel rest
                (addSuccessor newBBLabel newSuccLabel blocks)

/-- The second pass over the callee's blocks. -/
def addEdges (namePatchMap : Dict Symbol Symbol) :
    List BinaryBasicBlock → List BinaryBasicBlock →
    Option (List BinaryBasicBlock)
  | [], blocks => some blocks
  | bb :: rest, blocks =>
      match namePatchMap.get? bb.label with
      | none => none
      | some newBBLabel =>
          match getBasicBlockForLabel blocks newBBLabel with
          | none => none
          | some _ =>
              match
                addSuccessors namePatchMap newBBLabel bb.successors blocks
              with
              | none => none
              | some blocks => addEdges namePatchMap rest blocks

/-- `createInjectedBinaryFunction` with the title of the copy. -/
def createInjectedBinaryFunction (calleeSymbol : Symbol) :
    BinaryFunction where
  symbol := .pseudoCopy calleeSymbol
  blocks := []
  isPLT := false
  hasPnYPoint := false
  isPseudoCopy := false
  pseudoCopy := none
  filteredRegs := fun _ => false

/-- The part of `modifyInst` that sets up the copy of a callee. -/
def createPseudoCopy (calleeBF : BinaryFunction) (calleeSymbol : Symbol)
    (state : PatchState) : Option (BinaryFunction × PatchState) :=
  let copied := copyBlocks calleeBF.blocks state
  let patched := patchBlocks copied.2.namePatchMap copied.1
  match addEdges copied.2.namePatchMap calleeBF.blocks patched with
  | none => none
  | some blocks =>
      some
        ({ createInjectedBinaryFunction calleeSymbol with
           blocks := blocks
           isPseudoCopy := true
           hasPnYPoint := true },
          copied.2)

namespace BinaryFunction

/-- The labels of the blocks in layout order. -/
def labels (fn : BinaryFunction) : List Symbol :=
  fn.blocks.map (·.label)

/-- The function's code, for running it. -/
def code (fn : BinaryFunction) : List (Block Symbol MCInst) :=
  fn.blocks.map fun bb => ⟨bb.label, bb.insts⟩

end BinaryFunction

end Msh.PseudoInline
