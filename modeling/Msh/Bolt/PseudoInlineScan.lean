import Msh.Bolt.PseudoInlinePass

/-!
# Marking calls

The pre-scan changes no instruction but its annotations; what it marks is a
call to a function of the program, in whatever order the functions come.
-/

namespace Msh.PseudoInline

open X86

/-! ## Changing instructions in place -/

theorem mapBlocks_labels (change : Nat → MCInst → MCInst) (start : Nat)
    (blocks : List BinaryBasicBlock) :
    (mapBlocks change start blocks).map (·.label) =
      blocks.map (·.label) := by
  induction blocks generalizing start with
  | nil =>
      rfl
  | cons bb rest inductionHypothesis =>
      simp [mapBlocks, inductionHypothesis]

theorem mapBlocks_successors (change : Nat → MCInst → MCInst) (start : Nat)
    (blocks : List BinaryBasicBlock) :
    (mapBlocks change start blocks).map (·.successors) =
      blocks.map (·.successors) := by
  induction blocks generalizing start with
  | nil =>
      rfl
  | cons bb rest inductionHypothesis =>
      simp [mapBlocks, inductionHypothesis]

theorem mapBlocks_insts (change : Nat → MCInst → MCInst) (start : Nat)
    (blocks : List BinaryBasicBlock) :
    (mapBlocks change start blocks).flatMap (·.insts) =
      (blocks.flatMap (·.insts)).mapIdx fun offset =>
        change (start + offset) := by
  induction blocks generalizing start with
  | nil =>
      rfl
  | cons bb rest inductionHypothesis =>
      simp [mapBlocks, inductionHypothesis, List.mapIdx_append,
        Nat.add_comm, Nat.add_left_comm]

theorem mapBlocks_mapBlocks (later change : Nat → MCInst → MCInst)
    (start : Nat) (blocks : List BinaryBasicBlock) :
    mapBlocks later start (mapBlocks change start blocks) =
      mapBlocks (fun node inst => later node (change node inst)) start
        blocks := by
  induction blocks generalizing start with
  | nil =>
      rfl
  | cons bb rest inductionHypothesis =>
      simp [mapBlocks, inductionHypothesis, List.mapIdx_mapIdx,
        Function.comp_def]

theorem mapBlocks_id (start : Nat) (blocks : List BinaryBasicBlock) :
    mapBlocks (fun _ inst => inst) start blocks = blocks := by
  induction blocks generalizing start with
  | nil =>
      rfl
  | cons bb rest inductionHypothesis =>
      have insts : bb.insts.mapIdx (fun _ inst => inst) = bb.insts :=
        List.ext_getElem? fun offset => by simp
      simp [mapBlocks, inductionHypothesis, insts]

namespace BinaryFunction

variable (change : Nat → MCInst → MCInst) (fn : BinaryFunction)

@[simp] theorem mapInsts_labels :
    (fn.mapInsts change).labels = fn.labels :=
  mapBlocks_labels change 0 fn.blocks

@[simp] theorem mapInsts_insts :
    (fn.mapInsts change).insts = fn.insts.mapIdx change := by
  simp [insts, mapInsts, mapBlocks_insts]

/-- Changing instructions leaves the edges alone. -/
theorem mapInsts_successors {bb : BinaryBasicBlock}
    (member : bb ∈ (fn.mapInsts change).blocks) :
    ∃ original ∈ fn.blocks, original.successors = bb.successors := by
  have isList :
      bb.successors ∈
        (mapBlocks change 0 fn.blocks).map (·.successors) :=
    List.mem_map_of_mem member
  rw [mapBlocks_successors] at isList
  exact List.mem_map.mp isList

end BinaryFunction

/-! ## Programs and the pre-scan -/

/-- A function as it comes to the pass. -/
structure BinaryFunction.WellFormed (nextLabel : Nat)
    (fn : BinaryFunction) : Prop where
  labelsDistinct : fn.labels.Nodup
  successorsInside :
    ∀ bb ∈ fn.blocks, ∀ succ ∈ bb.successors, succ ∈ fn.labels
  labelsOlder :
    ∀ label ∈ fn.labels, ∃ id, id < nextLabel ∧ label = .label id
  notCopy : fn.isPseudoCopy = false
  notCopied : fn.pseudoCopy = none
  /-- No instruction refers to a copy -/
  noCopies :
    ∀ inst ∈ fn.insts, ∀ callee,
      .symbolRef (.pseudoCopy callee) ∉ inst.operands
  /-- A CFI is no tail call -/
  cfis :
    ∀ inst ∈ fn.insts, inst.isCFI = true → inst.annotations.tailCall = false

namespace BinaryFunction.WellFormed

variable {nextLabel : Nat} {fn : BinaryFunction}

/-- Changing instructions keeps a function well-formed. -/
theorem mapInsts {change : Nat → MCInst → MCInst}
    (wellFormed : fn.WellFormed nextLabel)
    (sameOperands :
      ∀ node inst, (change node inst).operands = inst.operands)
    (sameCFI :
      ∀ node inst, (change node inst).isCFI = inst.isCFI ∧
        (change node inst).annotations.tailCall =
          inst.annotations.tailCall) :
    (fn.mapInsts change).WellFormed nextLabel where
  labelsDistinct := by
    rw [fn.mapInsts_labels]
    exact wellFormed.labelsDistinct
  successorsInside bb member := by
    obtain ⟨original, inBlocks, same⟩ := fn.mapInsts_successors _ member
    rw [← same, fn.mapInsts_labels]
    exact wellFormed.successorsInside original inBlocks
  labelsOlder := by
    rw [fn.mapInsts_labels]
    exact wellFormed.labelsOlder
  notCopy := wellFormed.notCopy
  notCopied := wellFormed.notCopied
  noCopies inst member callee := by
    rw [fn.mapInsts_insts] at member
    obtain ⟨node, inRange, rfl⟩ := List.mem_mapIdx.mp member
    rw [sameOperands]
    exact wellFormed.noCopies _ (List.getElem_mem inRange) callee
  cfis inst member isCFI := by
    rw [fn.mapInsts_insts] at member
    obtain ⟨node, inRange, rfl⟩ := List.mem_mapIdx.mp member
    rw [(sameCFI _ _).1] at isCFI
    rw [(sameCFI _ _).2]
    exact wellFormed.cfis _ (List.getElem_mem inRange) isCFI

end BinaryFunction.WellFormed

/-- A program as it comes to the pass. -/
structure Program where
  binary : Binary
  functions :
    ∀ fn ∈ binary.functions, fn.WellFormed binary.nextLabel
  table :
    ∀ symbol index, binary.getFunctionForSymbol symbol = some index →
      index < binary.functions.length
  unmarked :
    ∀ fn ∈ binary.functions, ∀ inst ∈ fn.insts,
      inst.annotations.pseudoInline = false

/-- A binary while it is pre-scanned. -/
structure Binary.Scanned (bin : Binary) : Prop where
  functions : ∀ fn ∈ bin.functions, fn.WellFormed bin.nextLabel
  table :
    ∀ symbol index, bin.getFunctionForSymbol symbol = some index →
      index < bin.functions.length
  marked :
    ∀ fn ∈ bin.functions, ∀ inst ∈ fn.insts,
      inst.annotations.pseudoInline = true →
        inst.isCall = true ∧ ∃ found, bin.resolveCallee inst = some found

theorem Program.scanned (program : Program) : program.binary.Scanned where
  functions := program.functions
  table := program.table
  marked fn member inst inFn isMarked := by
    rw [program.unmarked fn member inst inFn] at isMarked
    cases isMarked

namespace Binary

variable {bin : Binary}

theorem getElem?_modify (index : Nat)
    (change : BinaryFunction → BinaryFunction) (place : Nat) :
    (bin.modify index change).functions[place]? =
      if index = place then bin.functions[place]?.map change
      else bin.functions[place]? := by
  rw [modify, List.getElem?_modify]
  split <;> simp

@[simp] theorem length_modify (index : Nat)
    (change : BinaryFunction → BinaryFunction) :
    (bin.modify index change).functions.length = bin.functions.length :=
  List.length_modify _ _ _

theorem mem_modify {index : Nat} {change : BinaryFunction → BinaryFunction}
    {fn : BinaryFunction} (member : fn ∈ (bin.modify index change).functions) :
    fn ∈ bin.functions ∨ ∃ original ∈ bin.functions, fn = change original := by
  obtain ⟨place, isFn⟩ := List.mem_iff_getElem?.mp member
  rw [getElem?_modify] at isFn
  split at isFn
  · obtain ⟨original, isOriginal, rfl⟩ := Option.map_eq_some_iff.mp isFn
    exact .inr ⟨original, List.mem_of_getElem? isOriginal, rfl⟩
  · exact .inl (List.mem_of_getElem? isFn)

/-- Resolving a callee depends on the symbol and on which functions are PLT. -/
theorem resolveCallee_congr {other : Binary} {inst otherInst : MCInst}
    (sameTarget : inst.getTargetSymbol = otherInst.getTargetSymbol)
    (sameSymbols :
      ∀ symbol, inst.getTargetSymbol = some symbol →
        bin.getFunctionForSymbol symbol =
            other.getFunctionForSymbol symbol ∧
          bin.getFunctionForSymbol (getOriginalSymbolFromPLT symbol) =
            other.getFunctionForSymbol (getOriginalSymbolFromPLT symbol))
    (samePLT :
      ∀ symbol index, other.getFunctionForSymbol symbol = some index →
        bin.functions[index]?.map (·.isPLT) =
          other.functions[index]?.map (·.isPLT)) :
    bin.resolveCallee inst = other.resolveCallee otherInst := by
  unfold resolveCallee
  rw [← sameTarget]
  cases target : inst.getTargetSymbol with
  | none => rfl
  | some symbol =>
      obtain ⟨same, sameOriginal⟩ := sameSymbols symbol target
      simp only [Option.bind_some, same]
      cases found : other.getFunctionForSymbol symbol with
      | none => rfl
      | some index =>
          have plt := samePLT symbol index found
          simp only [Option.bind_some, sameOriginal]
          cases isFn : bin.functions[index]? <;>
            cases isOther : other.functions[index]? <;>
            simp_all

theorem resolveCallee_modify {index : Nat}
    {change : BinaryFunction → BinaryFunction}
    (samePLT : ∀ fn, (change fn).isPLT = fn.isPLT) (inst : MCInst) :
    (bin.modify index change).resolveCallee inst =
      bin.resolveCallee inst := by
  refine resolveCallee_congr rfl (fun _ _ => ⟨rfl, rfl⟩) ?_
  intro symbol place _
  rw [getElem?_modify]
  split
  · simp [Function.comp_def, samePLT]
  · rfl

/-- What is resolved is what the symbol table has for the symbol. -/
theorem getFunctionForSymbol_of_resolveCallee {inst : MCInst}
    {symbol : Symbol} {index : Nat}
    (resolved : bin.resolveCallee inst = some (symbol, index)) :
    bin.getFunctionForSymbol symbol = some index := by
  unfold resolveCallee at resolved
  obtain ⟨target, -, resolved⟩ := Option.bind_eq_some_iff.mp resolved
  obtain ⟨place, found, resolved⟩ := Option.bind_eq_some_iff.mp resolved
  obtain ⟨calleeBF, -, resolved⟩ := Option.bind_eq_some_iff.mp resolved
  split at resolved
  · obtain ⟨_, original, same⟩ := Option.map_eq_some_iff.mp resolved
    cases same
    exact original
  · cases resolved
    exact found

end Binary

/-- Changing a function keeps the binary as it should be. -/
theorem Binary.Scanned.modify {bin : Binary} {index : Nat}
    {change : BinaryFunction → BinaryFunction} (scanned : bin.Scanned)
    (wellFormed :
      ∀ fn, fn.WellFormed bin.nextLabel →
        (change fn).WellFormed bin.nextLabel)
    (samePLT : ∀ fn, (change fn).isPLT = fn.isPLT)
    (marked :
      ∀ fn ∈ bin.functions, ∀ inst ∈ (change fn).insts,
        inst.annotations.pseudoInline = true →
          inst.isCall = true ∧
            ∃ found, bin.resolveCallee inst = some found) :
    (bin.modify index change).Scanned where
  functions fn member := by
    rcases Binary.mem_modify member with same | ⟨original, isOriginal, rfl⟩
    · exact scanned.functions fn same
    · exact wellFormed original (scanned.functions original isOriginal)
  table symbol place found := by
    rw [Binary.length_modify]
    exact scanned.table symbol place found
  marked fn member inst inFn isMarked := by
    rw [Binary.resolveCallee_modify samePLT]
    rcases Binary.mem_modify member with same | ⟨original, isOriginal, rfl⟩
    · exact scanned.marked fn same inst inFn isMarked
    · exact marked original isOriginal inst inFn isMarked

namespace Setting

variable (setting : Setting)

/-- What the pre-scan marks is a call to a function of the program. -/
theorem of_isTarget {bin : Binary} {fn : BinaryFunction} {node : Nat}
    {inst : MCInst} (isTarget : setting.isTarget bin fn node inst = true) :
    inst.isCall = true ∧ ∃ found, bin.resolveCallee inst = some found := by
  simp only [Setting.isTarget, Bool.and_eq_true] at isTarget
  refine ⟨isTarget.1.1, ?_⟩
  cases resolved : bin.resolveCallee inst with
  | none => simp [resolved] at isTarget
  | some found => exact ⟨found, rfl⟩

/-- The first half of a pre-scan: `HasPnYPoint` is set. -/
theorem scanned_of_hasPnYPoint {bin : Binary} (scanned : bin.Scanned)
    (index : Nat) :
    (bin.modify index fun fn =>
      { fn with
        hasPnYPoint :=
          fn.hasPnYPoint || fn.insts.any MCInst.yieldTarget }).Scanned := by
  refine scanned.modify ?_ (fun _ => rfl) scanned.marked
  intro fn wellFormed
  exact ⟨wellFormed.labelsDistinct, wellFormed.successorsInside,
    wellFormed.labelsOlder, wellFormed.notCopy, wellFormed.notCopied,
    wellFormed.noCopies, wellFormed.cfis⟩

/-- The pre-scan of one function keeps the binary as it should be. -/
theorem preScan_scanned {bin : Binary} (scanned : bin.Scanned)
    (index : Nat) : (setting.preScan bin index).Scanned := by
  have halfway := scanned_of_hasPnYPoint scanned index
  refine halfway.modify ?_ (fun _ => rfl) ?_
  · intro fn wellFormed
    apply wellFormed.mapInsts
    · intro node inst
      split <;> rfl
    · intro node inst
      split <;> exact ⟨rfl, rfl⟩
  · intro fn member inst inFn isMarked
    rw [fn.mapInsts_insts] at inFn
    obtain ⟨node, inRange, rfl⟩ := List.mem_mapIdx.mp inFn
    split at isMarked
    · next isTarget =>
        rw [if_pos isTarget]
        exact setting.of_isTarget isTarget
    · next notTarget =>
        rw [if_neg notTarget]
        exact halfway.marked fn member _ (List.getElem_mem inRange) isMarked

@[simp] theorem preScan_length (bin : Binary) (index : Nat) :
    (setting.preScan bin index).functions.length =
      bin.functions.length := by
  simp [preScan]

/-- Pre-scanning in any order keeps the binary as it should be. -/
theorem foldl_preScan {bin : Binary} (scanned : bin.Scanned)
    (order : List Nat) :
    (order.foldl setting.preScan bin).Scanned ∧
      (order.foldl setting.preScan bin).functions.length =
        bin.functions.length := by
  induction order generalizing bin with
  | nil =>
      exact ⟨scanned, rfl⟩
  | cons index rest inductionHypothesis =>
      have later :=
        inductionHypothesis (setting.preScan_scanned scanned index)
      exact ⟨later.1, later.2.trans (setting.preScan_length bin index)⟩

end Setting

end Msh.PseudoInline
