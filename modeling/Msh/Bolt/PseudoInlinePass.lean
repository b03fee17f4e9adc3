import Msh.Bolt.LoopScanner
import Msh.Bolt.PseudoInline

/-!
# Pseudo-inlining in the whole pass

`PrefetchAndYield::runOnFunctions` goes over the functions four times: it
marks the calls to pseudo-inline, redirects them to copies of their callees,
instruments the copies, which finds the registers that they leave to their
callers, and instruments the functions themselves.  Of the instrumentation
only what is put around the marked calls is kept here.
-/

namespace Msh.PseudoInline

open X86

namespace MCInst

/-- `isCall` -/
def isCall (inst : MCInst) : Bool :=
  inst.opcode == .call || inst.annotations.tailCall

/-- `YieldTarget` -/
def yieldTarget (inst : MCInst) : Bool :=
  inst.annotations.insertPrefetchAndYield || inst.annotations.insertYield

/-- `addAnnotation(Inst, "PseudoInline", 1)` -/
def addPseudoInline (inst : MCInst) : MCInst :=
  { inst with annotations := { inst.annotations with pseudoInline := true } }

end MCInst

/-- `createCall` -/
def createCall (target : Symbol) : MCInst where
  opcode := .call
  operands := [.symbolRef target]
  annotations := .none

/-- `CalleeName.substr(0, CalleeName.find("@PLT"))` -/
def beforePLT : List Char → List Char
  | [] => []
  | char :: rest =>
      if ['@', 'P', 'L', 'T'].isPrefixOf (char :: rest) then []
      else char :: beforePLT rest

/-- `getOriginalSymbolFromPLT` -/
def getOriginalSymbolFromPLT : Symbol → Symbol
  | .function name => .function (String.ofList (beforePLT name.toList))
  | symbol => symbol

/-- The same blocks with instructions changed by their place in the function. -/
def mapBlocks (change : Nat → MCInst → MCInst) :
    Nat → List BinaryBasicBlock → List BinaryBasicBlock
  | _, [] => []
  | start, bb :: rest =>
      { bb with
        insts := bb.insts.mapIdx fun offset => change (start + offset) } ::
        mapBlocks change (start + bb.insts.length) rest

namespace BinaryFunction

/-- All instructions; an instruction is referred to by its place here. -/
def insts (fn : BinaryFunction) : List MCInst :=
  fn.blocks.flatMap (·.insts)

/-- Change instructions in place. -/
def mapInsts (change : Nat → MCInst → MCInst) (fn : BinaryFunction) :
    BinaryFunction :=
  { fn with blocks := mapBlocks change 0 fn.blocks }

end BinaryFunction

/-- An instruction in the final code with what is inserted around it. -/
structure Placed where
  before : List Instr
  inst : MCInst
  after : List Instr

/-- The final code of a function, and what its loops evacuate. -/
structure Instrumented where
  code : List Placed
  /-- `BL->getRegsToEvacuate()` -/
  regsToEvac : Nat → Reg → Bool

/-- `BinaryContext`; functions are referred to by their places. -/
structure Binary where
  /-- `getBinaryFunctions()`, and behind them the injected ones -/
  functions : List BinaryFunction
  getFunctionForSymbol : Symbol → Option Nat
  nextLabel : Nat
  instrumented : Nat → Option Instrumented

/-- The registers of the target as the pass sees them. -/
structure RegisterFile where
  /-- The registers in the order of their numbers -/
  order : List Reg
  distinct : order.Nodup
  complete : ∀ reg, validReg reg = true → reg ∈ order
  /-- The general register that a vector register is encoded like -/
  encodedLike : Fin 16 → Gpr
  notSp : ∀ index, validReg (.xmm index) = true → encodedLike index ≠ .rsp

namespace RegisterFile

variable (registers : RegisterFile)

/-- `createPushRegister` with size 8; the opcode is `PUSH64r` in any case. -/
def createPushRegister : Reg → Instr
  | .gpr reg => .push64r reg
  | .xmm index => .push64r (registers.encodedLike index)
  | .eflags => .pushf64

/-- `createPopRegister` with size 8 -/
def createPopRegister : Reg → Instr
  | .gpr reg => .pop64r reg
  | .xmm index => .pop64r (registers.encodedLike index)
  | .eflags => .popf64

/-- `PushInstrs` -/
def pushInstrs (regs : Reg → Bool) : List Instr :=
  (registers.order.filter regs).map registers.createPushRegister

/-- `PopInstrs` -/
def popInstrs (regs : Reg → Bool) : List Instr :=
  (registers.order.filter regs).reverse.map registers.createPopRegister

end RegisterFile

/-- The options, the target, and the analyses of each function. -/
structure Setting where
  disableFUR : Bool
  disableLO : Bool
  registers : RegisterFile
  implicitUses : Opcode → List RegName
  /-- `getLivenessAnalysis().getStateAt(Inst)` -/
  live : Symbol → Nat → Reg → Bool
  /-- The loops, and the definitions and uses that reach in them -/
  loops : Symbol → LoopFunction

namespace Binary

variable (bin : Binary)

/-- Change a function in place. -/
def modify (index : Nat) (change : BinaryFunction → BinaryFunction) :
    Binary :=
  { bin with functions := bin.functions.modify index change }

/-- The callee of a call by its symbol, with a PLT entry resolved. -/
def resolveCallee (inst : MCInst) : Option (Symbol × Nat) :=
  inst.getTargetSymbol.bind fun calleeSymbol =>
    (bin.getFunctionForSymbol calleeSymbol).bind fun index =>
      bin.functions[index]?.bind fun calleeBF =>
        if calleeBF.isPLT then
          let original := getOriginalSymbolFromPLT calleeSymbol
          (bin.getFunctionForSymbol original).map fun index =>
            (original, index)
        else some (calleeSymbol, index)

/-- The function that a call's symbol names. -/
def calleeOf (inst : MCInst) : Option BinaryFunction :=
  inst.getTargetSymbol.bind fun calleeSymbol =>
    (bin.getFunctionForSymbol calleeSymbol).bind fun index =>
      bin.functions[index]?

end Binary

namespace Setting

variable (setting : Setting)

/-! ## Pre-scanning -/

/-- The conditions of `PseudoInlinePreScanner::annotateInst`. -/
def isTarget (bin : Binary) (fn : BinaryFunction) (node : Nat)
    (inst : MCInst) : Bool :=
  inst.isCall && ((setting.loops fn.symbol).getLoopFor node).isSome &&
    match bin.resolveCallee inst with
    | none => false
    | some (calleeSymbol, index) =>
        match bin.functions[index]? with
        | none => false
        | some calleeBF =>
            -- no recursive call support
            calleeBF.hasPnYPoint && fn.symbol != calleeSymbol

/-- `PnYScanner::preScan` -/
def preScan (bin : Binary) (index : Nat) : Binary :=
  let marked :=
    bin.modify index fun fn =>
      { fn with
        hasPnYPoint :=
          fn.hasPnYPoint || fn.insts.any MCInst.yieldTarget }
  marked.modify index fun fn =>
    fn.mapInsts fun node inst =>
      if setting.isTarget marked fn node inst then inst.addPseudoInline
      else inst

end Setting

/-! ## Redirecting the marked calls -/

namespace Binary

/--
Set up the copy of a callee that has none yet; what is returned is the symbol
of the copy.
-/
def setUpCopy (bin : Binary) (namePatchMap : Dict Symbol Symbol)
    (calleeSymbol : Symbol) (callee : Nat) :
    Option (Binary × Dict Symbol Symbol × Symbol) :=
  bin.functions[callee]?.bind fun calleeBF =>
    match calleeBF.pseudoCopy with
    | some symbol => some (bin, namePatchMap, symbol)
    | none =>
        (createPseudoCopy calleeBF calleeSymbol
            ⟨bin.nextLabel, namePatchMap⟩).map fun (copy, after) =>
          let withCopy :=
            bin.modify callee fun fn =>
              { fn with pseudoCopy := some copy.symbol }
          ({ withCopy with
             functions := withCopy.functions ++ [copy]
             getFunctionForSymbol := fun symbol =>
               if symbol = copy.symbol then some bin.functions.length
               else bin.getFunctionForSymbol symbol
             nextLabel := after.nextLabel },
            after.namePatchMap, copy.symbol)

/-- `PseudoInlinePreInstrumenter::modifyInst` -/
def preModifyInst (index : Nat)
    (state : Binary × Dict Symbol Symbol) (node : Nat) :
    Option (Binary × Dict Symbol Symbol) :=
  state.1.functions[index]?.bind fun fn =>
    fn.insts[node]?.bind fun inst =>
      if inst.annotations.pseudoInline then
        (state.1.resolveCallee inst).bind fun (calleeSymbol, callee) =>
          (state.1.setUpCopy state.2 calleeSymbol callee).map
            fun (bin, namePatchMap, copySymbol) =>
              (bin.modify index fun fn =>
                fn.mapInsts fun place inst =>
                  if place = node then
                    (createCall copySymbol).addPseudoInline
                  else inst,
                namePatchMap)
      else some state

/-- `PnYInstrumenter::preInstrument` -/
def preInstrument (bin : Binary) (index : Nat) : Option Binary :=
  bin.functions[index]?.bind fun fn =>
    ((List.range fn.insts.length).foldlM (preModifyInst index)
      (bin, .empty)).map Prod.fst

/-! ## Scanning and instrumenting -/

/-- The assertions about a marked call: it calls a copy, not from a copy. -/
def assertions (bin : Binary) (fn : BinaryFunction) (inst : MCInst) : Bool :=
  !inst.annotations.pseudoInline ||
    (!fn.isPseudoCopy &&
      match bin.calleeOf inst with
      | some calleeBF => calleeBF.isPseudoCopy
      | none => false)

end Binary

namespace Setting

variable (setting : Setting)

/-- What the scanner of unused registers reads of an instruction. -/
def scannedInst (inst : MCInst) : Msh.MCInst where
  operands :=
    inst.operands.filterMap fun
      | .reg name => some name
      | _ => none
  implicitUses := setting.implicitUses inst.opcode
  implicitDefs := []
  callParams := []
  mark :=
    { insertPrefetchAndYield := inst.annotations.insertPrefetchAndYield
      insertYield := inst.annotations.insertYield
      iterationBound := false
      isConditionalBranch := false
      createPrefetchInstrs := none
      prefetches := Msh.CMInst.prefetches_none }

/-- What the scanner of unused registers reads of a function. -/
def scanned (fn : BinaryFunction) : Msh.BinaryFunction where
  insts := fn.insts.map setting.scannedInst
  succs := fun _ => []
  live := setting.live fn.symbol

/-- The function's `FilteredRegs` after its scan. -/
def filteredRegs (fn : BinaryFunction) (reg : Reg) : Bool :=
  !setting.disableFUR && (setting.scanned fn).filteredRegs reg

/-- The set that `LoopOptScanner::annotateInst` starts from. -/
def regsToSave (bin : Binary) (fn : BinaryFunction) (node : Nat)
    (inst : MCInst) (reg : Reg) : Bool :=
  if inst.annotations.pseudoInline then
    match bin.calleeOf inst with
    | some calleeBF => calleeBF.filteredRegs reg
    | none => false
  else if setting.disableFUR then
    match (setting.scanned fn).instMap node with
    | some regsToSave => regsToSave.test reg
    | none => false
  else
    match (setting.scanned fn).filteredMap node with
    | some regsToSave => regsToSave reg
    | none => false

/-- The registers that an instruction adds to those its loop evacuates. -/
def evacuates (bin : Binary) (fn : BinaryFunction) (node : Nat)
    (inst : MCInst) (reg : Reg) : Bool :=
  !setting.disableLO && setting.regsToSave bin fn node inst reg &&
    (setting.loops fn.symbol).annotateReg node reg == .evac

/-- `BL->getRegsToEvacuate()` -/
def regsToEvac (bin : Binary) (fn : BinaryFunction) (loop : Nat)
    (reg : Reg) : Bool :=
  fn.insts.zipIdx.any fun (inst, node) =>
    (setting.loops fn.symbol).getLoopFor node == some loop &&
      setting.evacuates bin fn node inst reg

/-- `RegsFromPseudoInline`, after the loop optimisation's scan. -/
def regsFromPseudoInline (bin : Binary) (fn : BinaryFunction) (node : Nat)
    (inst : MCInst) (reg : Reg) : Bool :=
  inst.annotations.pseudoInline &&
    setting.regsToSave bin fn node inst reg &&
    !setting.evacuates bin fn node inst reg

/-- `PseudoInlineInstrumenter::modifyInst` -/
def modifyInst (bin : Binary) (fn : BinaryFunction) (node : Nat)
    (inst : MCInst) : Placed where
  before :=
    setting.registers.pushInstrs
      (setting.regsFromPseudoInline bin fn node inst)
  inst := inst
  after :=
    setting.registers.popInstrs
      (setting.regsFromPseudoInline bin fn node inst)

/-- What comes of a function. -/
def instrument (bin : Binary) (fn : BinaryFunction) : Instrumented where
  code :=
    fn.insts.mapIdx fun node inst => setting.modifyInst bin fn node inst
  regsToEvac := setting.regsToEvac bin fn

/-- `PrefetchAndYield::runOnFunction` -/
def runOnFunction (bin : Binary) (index : Nat) : Option Binary :=
  bin.functions[index]?.bind fun fn =>
    let scanned :=
      bin.modify index fun fn =>
        { fn with filteredRegs := setting.filteredRegs fn }
    if fn.insts.all (scanned.assertions fn) then
      some
        { scanned with
          instrumented :=
            Function.update bin.instrumented index
              (some (setting.instrument scanned fn)) }
    else none

end Setting

/-- The orders in which the functions are gone over. -/
structure Schedule (count : Nat) where
  preScans : List Nat
  preInstruments : List Nat
  runs : List Nat
  preScansAll : preScans.Perm (List.range count)
  preInstrumentsAll : preInstruments.Perm (List.range count)
  runsAll : runs.Perm (List.range count)

/-- The binary after each of the four rounds. -/
structure Stages where
  preScanned : Binary
  redirected : Binary
  copiesDone : Binary
  final : Binary

/-- `PrefetchAndYield::runOnFunctions`, without `InstScavenger`. -/
def runOnFunctions (setting : Setting) (bin : Binary)
    (schedule : Schedule bin.functions.length) : Option Stages :=
  let count := bin.functions.length
  let preScanned := schedule.preScans.foldl setting.preScan bin
  (schedule.preInstruments.foldlM Binary.preInstrument preScanned).bind
    fun redirected =>
      -- the injected functions, in the order in which they were created
      let injected :=
        List.range' count (redirected.functions.length - count)
      (injected.foldlM setting.runOnFunction redirected).bind
        fun copiesDone =>
          (schedule.runs.foldlM setting.runOnFunction copiesDone).map
            fun final => ⟨preScanned, redirected, copiesDone, final⟩

end Msh.PseudoInline
