import Msh.Bolt.CopiedBlocks

/-!
# What a copied function does

The copy has the instructions, marks and edges of the callee under the new
labels.  It does not always run as the callee does: the entries of a jump
table are not operands, and an operand may refer to a block of another
function that was copied for the same caller before.
-/

namespace Msh.PseudoInline

open X86 ControlFlow

/--
A callee that is about to be copied in a program with jump tables, all of
whose targets are older than the copy, as are the patches so far.
-/
structure LinkedCopying (tables : JumpTables) extends Copying where
  targetsOlder :
    ∀ bb ∈ callee.blocks, ∀ inst ∈ bb.insts,
      ∀ target ∈ (inst.flow tables).targets,
        target.OlderThan state.nextLabel
  patchesChange :
    ∀ symbol newSymbol,
      state.namePatchMap.get? symbol = some newSymbol → newSymbol ≠ symbol

/-- An operand under other labels. -/
def MCOperand.relabel (rename : Symbol → Symbol) : MCOperand → MCOperand
  | .symbolRef symbol => .symbolRef (rename symbol)
  | operand => operand

namespace MCInst

/-- An instruction under other labels. -/
def relabel (rename : Symbol → Symbol) (inst : MCInst) : MCInst :=
  { inst with operands := inst.operands.map (MCOperand.relabel rename) }

/-- What is executed: the instruction without its annotations. -/
def executed (inst : MCInst) : Opcode × List MCOperand :=
  (inst.opcode, inst.operands)

/-- The prefetch-and-yield mark and the yield mark. -/
def marks (inst : MCInst) : Bool × Bool :=
  (inst.annotations.insertPrefetchAndYield, inst.annotations.insertYield)

end MCInst

namespace BinaryFunction

/--
The block correspondence: the n-th block of the callee goes to the n-th block
of the copy, and all other symbols stay.
-/
def corresponding (callee copy : BinaryFunction) (symbol : Symbol) :
    Symbol :=
  (Dict.getItem? symbol (callee.labels.zip copy.labels)).getD symbol

/-- A copy behaves as its callee. -/
structure BehavesAs (tables : JumpTables) (copy callee : BinaryFunction) :
    Prop where
  labelsDistinct : copy.labels.Nodup
  labelsNew : ∀ label ∈ copy.labels, label ∉ callee.labels
  /-- One block for each, in the same order, with the same instructions -/
  instructions :
    copy.blocks.map (fun bb => bb.insts.map MCInst.executed) =
      callee.blocks.map fun bb =>
        bb.nonCFI.map fun inst =>
          (inst.relabel (callee.corresponding copy)).executed
  /-- A branch to a block goes to the corresponding block. -/
  branches :
    copy.blocks.map (fun bb => bb.insts.map (MCInst.flow tables)) =
      callee.blocks.map fun bb =>
        bb.nonCFI.map fun inst =>
          (inst.flow tables).map (callee.corresponding copy)
  successors :
    copy.blocks.map (·.successors) =
      callee.blocks.map fun bb =>
        bb.successors.map (callee.corresponding copy)
  marks :
    copy.blocks.map (fun bb => bb.insts.map MCInst.marks) =
      callee.blocks.map fun bb => bb.nonCFI.map MCInst.marks
  /-- Every run from the entry executes the same instructions. -/
  sameRun :
    ∀ choices,
      (run (MCInst.flow tables) copy.code choices (entry copy.code)).1.map
          MCInst.executed =
        (run (MCInst.flow tables) callee.code choices
            (entry callee.code)).1.map fun inst =>
          (inst.relabel (callee.corresponding copy)).executed
  /-- A run leaves the copy only for a symbol that is outside both. -/
  stays :
    ∀ choices symbol,
      (run (MCInst.flow tables) copy.code choices
          (entry copy.code)).2 = .outside symbol →
        symbol ∉ copy.labels ∧ symbol ∉ callee.labels ∧
          (run (MCInst.flow tables) callee.code choices
              (entry callee.code)).2 = .outside symbol

/-- No jump table that the function reads has one of its blocks. -/
def TablesLeave (tables : JumpTables) (fn : BinaryFunction) : Prop :=
  ∀ bb ∈ fn.blocks, ∀ inst ∈ bb.insts, ∀ table,
    inst.opcode = .jmpTable table → ∀ entry ∈ tables table,
      entry ∉ fn.labels

/-- Operands refer to no patched symbol but the function's own blocks. -/
def RefersToOwn (namePatchMap : Dict Symbol Symbol) (fn : BinaryFunction) :
    Prop :=
  ∀ bb ∈ fn.blocks, ∀ inst ∈ bb.nonCFI, ∀ symbol,
    .symbolRef symbol ∈ inst.operands → symbol ∉ fn.labels →
      namePatchMap.get? symbol = none

end BinaryFunction

namespace MCInst

variable (tables : JumpTables)

@[simp] theorem isSkip_flow (inst : MCInst) :
    (inst.flow tables).isSkip = inst.isCFI := by
  obtain ⟨opcode, operands, annotations⟩ := inst
  cases opcode <;> simp only [flow, isCFI] <;> first | rfl | split <;> rfl

/-- Control depends on what is executed, not on the annotations. -/
theorem flow_congr {inst other : MCInst}
    (same : inst.executed = other.executed) :
    inst.flow tables = other.flow tables := by
  obtain ⟨opcode, operands, annotations⟩ := inst
  obtain ⟨otherOpcode, otherOperands, otherAnnotations⟩ := other
  cases same
  rfl

theorem getTargetSymbol_relabel (rename : Symbol → Symbol)
    (inst : MCInst) :
    (inst.relabel rename).getTargetSymbol =
      inst.getTargetSymbol.map rename := by
  obtain ⟨opcode, operands, annotations⟩ := inst
  cases operands with
  | nil => rfl
  | cons operand rest => cases operand <;> rfl

/-- All targets are relabelled but those that come from a jump table. -/
theorem flow_relabel_iff (rename : Symbol → Symbol) (inst : MCInst) :
    (inst.relabel rename).flow tables =
        (inst.flow tables).map rename ↔
      ∀ table, inst.opcode = .jmpTable table →
        ∀ entry ∈ tables table, rename entry = entry := by
  have target := getTargetSymbol_relabel rename inst
  have sameOpcode : (inst.relabel rename).opcode = inst.opcode := rfl
  unfold flow
  rw [sameOpcode, target]
  cases inst.opcode with
  | cfi => simp [Flow.map]
  | plain id => simp [Flow.map]
  | call => simp [Flow.map]
  | ret => simp [Flow.map]
  | jmp => cases inst.getTargetSymbol <;> simp [Flow.map]
  | jcc cond => cases inst.getTargetSymbol <;> simp [Flow.map]
  | jmpTable table =>
      simp only [Flow.map, Flow.choose.injEq, Opcode.jmpTable.injEq,
        forall_eq']
      constructor
      · intro fixed
        exact fun entry member =>
          (List.map_inj_left.mp ((List.map_id _).trans fixed) entry
            member).symm
      · intro fixed
        exact ((List.map_congr_left fixed).trans (List.map_id _)).symm

end MCInst

namespace Copying

variable (copying : Copying)

/-- The correspondence of the blocks is the one that was used. -/
theorem corresponding_copy :
    copying.callee.corresponding copying.copy = copying.rename := by
  funext symbol
  rw [BinaryFunction.corresponding, copying.copy_labels]
  rfl

/-- What holds of the copy's blocks, instruction by instruction. -/
theorem blocks_map_insts_iff {Value : Type}
    (ofCopy ofCallee : MCInst → Value) :
    (copying.copy.blocks.map fun bb => bb.insts.map ofCopy) =
        (copying.callee.blocks.map fun bb => bb.nonCFI.map ofCallee) ↔
      ∀ bb ∈ copying.callee.blocks, ∀ inst ∈ bb.nonCFI,
        ofCopy (copying.copied inst) = ofCallee inst := by
  have blocks :
      copying.copy.blocks = copying.callee.blocks.map copying.copyBlock :=
    rfl
  rw [blocks, List.map_map, List.map_inj_left]
  refine forall₂_congr fun bb _ => ?_
  rw [Function.comp_apply, copyBlock_insts, List.map_map,
    List.map_inj_left]
  rfl

theorem rename_eq_self_iff (symbol : Symbol) :
    copying.rename symbol = symbol ↔ symbol ∉ copying.callee.labels := by
  refine ⟨?_, copying.rename_of_not_mem⟩
  intro stays member
  exact copying.label_not_new member (stays ▸ copying.rename_mem member)

theorem copy_code :
    copying.copy.code =
      copying.callee.code.map
        (Block.copy copying.rename copying.copyInst?) := by
  simp only [BinaryFunction.code, copy, List.map_map]
  rfl

end Copying

namespace LinkedCopying

variable {tables : JumpTables} (copying : LinkedCopying tables)

/-- The patched operands are relabelled ones where they refer to blocks. -/
theorem patchLocalSymbol_eq_relabel_iff (operand : MCOperand) :
    operand.patchLocalSymbol copying.patchMap =
        operand.relabel copying.rename ↔
      ∀ symbol, operand = .symbolRef symbol →
        symbol ∉ copying.callee.labels →
          copying.state.namePatchMap.get? symbol = none := by
  cases operand with
  | reg name => simp [MCOperand.patchLocalSymbol, MCOperand.relabel]
  | imm value => simp [MCOperand.patchLocalSymbol, MCOperand.relabel]
  | otherExpr symbol addend =>
      simp [MCOperand.patchLocalSymbol, MCOperand.relabel]
  | symbolRef symbol =>
      simp only [MCOperand.patchLocalSymbol, MCOperand.relabel,
        copying.patchMap_get?, MCOperand.symbolRef.injEq, forall_eq']
      by_cases member : symbol ∈ copying.callee.labels
      · simp [member]
      · simp only [member, ↓reduceIte, copying.rename_of_not_mem member,
          not_false_eq_true, forall_const]
        cases patched : copying.state.namePatchMap.get? symbol with
        | none => simp
        | some newSymbol =>
            simpa using copying.patchesChange symbol newSymbol patched

theorem executed_copied_iff (inst : MCInst) :
    (copying.copied inst).executed =
        (inst.relabel copying.rename).executed ↔
      ∀ symbol, .symbolRef symbol ∈ inst.operands →
        symbol ∉ copying.callee.labels →
          copying.state.namePatchMap.get? symbol = none := by
  simp only [MCInst.executed, Copying.copied, MCInst.relabel, Prod.mk.injEq,
    true_and, List.map_inj_left, copying.patchLocalSymbol_eq_relabel_iff]
  constructor
  · intro ofOperands symbol member
    exact ofOperands _ member symbol rfl
  · rintro ofSymbols operand member symbol rfl
    exact ofSymbols symbol member

/-- The conditions on the callee, instruction by instruction. -/
theorem refersToOwn_iff :
    copying.callee.RefersToOwn copying.state.namePatchMap ↔
      ∀ bb ∈ copying.callee.blocks, ∀ inst ∈ bb.nonCFI,
        (copying.copied inst).executed =
          (inst.relabel copying.rename).executed := by
  simp only [copying.executed_copied_iff]
  rfl

theorem tablesLeave_iff :
    copying.callee.TablesLeave tables ↔
      ∀ bb ∈ copying.callee.blocks, ∀ inst ∈ bb.nonCFI,
        (inst.relabel copying.rename).flow tables =
          (inst.flow tables).map copying.rename := by
  simp only [MCInst.flow_relabel_iff, copying.rename_eq_self_iff]
  constructor
  · intro leaves bb inBlocks inst inBlock
    exact leaves bb inBlocks inst (List.mem_filter.mp inBlock).1
  · intro leaves bb inBlocks inst inBlock table isTable
    refine leaves bb inBlocks inst ?_ table isTable
    exact List.mem_filter.mpr ⟨inBlock, by simp [MCInst.isCFI, isTable]⟩

theorem mem_code_iff (fn : BinaryFunction) (inst : MCInst) :
    inst ∈ instrsOf fn.code ↔ ∃ bb ∈ fn.blocks, inst ∈ bb.insts := by
  simp [instrsOf, BinaryFunction.code]

theorem mem_labels_of_code {fn : BinaryFunction} {symbol : Symbol} :
    (∀ block ∈ fn.code, block.label ≠ symbol) ↔ symbol ∉ fn.labels := by
  simp [BinaryFunction.code, BinaryFunction.labels]

theorem separates :
    Separates (MCInst.flow tables) copying.rename copying.callee.code := by
  intro block inCode inst member target isTarget same
  obtain ⟨bb, inBlocks, rfl⟩ := List.mem_map.mp inCode
  have isLabel : bb.label ∈ copying.callee.labels :=
    List.mem_map_of_mem inBlocks
  obtain ⟨other, inOthers, isInst⟩ := (mem_code_iff _ inst).mp member
  by_cases own : target ∈ copying.callee.labels
  · exact copying.rename_injOn isLabel own same
  · rw [copying.rename_of_not_mem own] at same
    have older :=
      copying.targetsOlder other inOthers inst isInst target isTarget
    exact absurd (same ▸ copying.rename_mem isLabel)
      older.not_mem_freshLabels

section Faithful

variable
  (own : copying.callee.RefersToOwn copying.state.namePatchMap)
  (leaves : copying.callee.TablesLeave tables)

include own leaves in
theorem flow_copied {bb : BinaryBasicBlock} {inst : MCInst}
    (inBlocks : bb ∈ copying.callee.blocks) (inBlock : inst ∈ bb.nonCFI) :
    (copying.copied inst).flow tables =
      (inst.flow tables).map copying.rename :=
  (MCInst.flow_congr tables
      (copying.refersToOwn_iff.mp own bb inBlocks inst inBlock)).trans
    (copying.tablesLeave_iff.mp leaves bb inBlocks inst inBlock)

include own leaves in
theorem copiesFlow :
    CopiesFlow (MCInst.flow tables) copying.rename copying.copyInst?
      (MCInst.flow tables) (instrsOf copying.callee.code) where
  dropped inst _ := by
    rw [copying.copyInst?_eq, MCInst.isSkip_flow]
    cases inst.isCFI <;> simp
  flow inst member new isCopy := by
    obtain ⟨bb, inBlocks, inBlock⟩ := (mem_code_iff _ inst).mp member
    rw [copying.copyInst?_eq] at isCopy
    split at isCopy
    · cases isCopy
    · next noCFI =>
        cases isCopy
        exact copying.flow_copied own leaves inBlocks
          (List.mem_filter.mpr ⟨inBlock, by simpa using noCFI⟩)

include own leaves in
/-- The runs of the copy from its entry, as those of the callee. -/
theorem run_copy_entry (choices : List Choice) :
    run (MCInst.flow tables) copying.copy.code choices
        (entry copying.copy.code) =
      ((run (MCInst.flow tables) copying.callee.code choices
            (entry copying.callee.code)).1.map copying.copied,
        (run (MCInst.flow tables) copying.callee.code choices
            (entry copying.callee.code)).2.copy
          copying.rename copying.copyInst?) := by
  rw [copying.copy_code, entry_copy,
    run_copy (copying.copiesFlow own leaves) copying.separates choices
      (entry_within _)]
  congr 1
  rw [← List.filterMap_eq_map]
  refine List.filterMap_congr fun inst member => ?_
  have executed :=
    ((run_within choices (entry_within copying.callee.code)).1 inst
      member).2
  rw [MCInst.isSkip_flow] at executed
  rw [copying.copyInst?_eq, executed]
  rfl

include own leaves in
theorem behavesAs :
    copying.copy.BehavesAs tables copying.callee where
  labelsDistinct := by
    rw [copying.copy_labels]
    exact nodup_freshLabels _ _
  labelsNew label member isOld := by
    rw [copying.copy_labels] at member
    exact copying.label_not_new isOld member
  instructions := by
    rw [copying.corresponding_copy, copying.blocks_map_insts_iff]
    exact copying.refersToOwn_iff.mp own
  branches := by
    rw [copying.corresponding_copy, copying.blocks_map_insts_iff]
    exact fun bb inBlocks inst inBlock =>
      copying.flow_copied own leaves inBlocks inBlock
  successors := by
    rw [copying.corresponding_copy]
    simp [Copying.copy, Copying.copyBlock, Function.comp_def]
  marks :=
    (copying.blocks_map_insts_iff _ _).mpr fun _ _ _ _ => rfl
  sameRun choices := by
    rw [copying.corresponding_copy,
      copying.run_copy_entry own leaves choices, List.map_map]
    refine List.map_congr_left fun inst member => ?_
    obtain ⟨inCode, executed⟩ :=
      (run_within choices (entry_within copying.callee.code)).1 inst member
    obtain ⟨bb, inBlocks, inBlock⟩ := (mem_code_iff _ inst).mp inCode
    rw [MCInst.isSkip_flow] at executed
    exact copying.refersToOwn_iff.mp own bb inBlocks inst
      (List.mem_filter.mpr ⟨inBlock, by simp [executed]⟩)
  stays choices symbol isOutside := by
    have copyWithin :=
      (@run_within _ _ (MCInst.flow tables) _ copying.copy.code choices _
        (entry_within copying.copy.code)).2
    have calleeWithin :=
      (@run_within _ _ (MCInst.flow tables) _ copying.callee.code choices _
        (entry_within copying.callee.code)).2
    rw [isOutside] at copyWithin
    rw [copying.run_copy_entry own leaves choices] at isOutside
    cases reached :
        (run (MCInst.flow tables) copying.callee.code choices
          (entry copying.callee.code)).2 with
    | outside label =>
        simp only [reached, Place.copy, Place.outside.injEq] at isOutside
        rw [reached] at calleeWithin
        have notLabel := mem_labels_of_code.mp calleeWithin
        rw [copying.rename_of_not_mem notLabel] at isOutside
        subst isOutside
        exact ⟨mem_labels_of_code.mp copyWithin, notLabel, rfl⟩
    | here point => simp [reached, Place.copy] at isOutside
    | stopped => simp [reached, Place.copy] at isOutside
    | beyond => simp [reached, Place.copy] at isOutside

end Faithful

end LinkedCopying

/--
A copy can always be made, and it behaves as its callee exactly when no jump
table that the callee reads has one of its blocks, and its operands refer to
no block of another function that was copied for the same caller before.
-/
theorem createPseudoCopy_behavesAs_iff
    {tables : JumpTables} (copying : LinkedCopying tables) :
    ∃ copy after,
      createPseudoCopy copying.callee copying.calleeSymbol copying.state =
          some (copy, after) ∧
        (copy.BehavesAs tables copying.callee ↔
          copying.callee.TablesLeave tables ∧
            copying.callee.RefersToOwn copying.state.namePatchMap) := by
  refine ⟨_, _, copying.createPseudoCopy_eq, ?_⟩
  constructor
  · intro behaves
    have own : copying.callee.RefersToOwn copying.state.namePatchMap := by
      have same := behaves.instructions
      rw [copying.corresponding_copy, copying.blocks_map_insts_iff] at same
      exact copying.refersToOwn_iff.mpr same
    refine ⟨?_, own⟩
    have branches := behaves.branches
    rw [copying.corresponding_copy, copying.blocks_map_insts_iff]
      at branches
    rw [copying.tablesLeave_iff]
    intro bb inBlocks inst inBlock
    rw [← branches bb inBlocks inst inBlock]
    exact (MCInst.flow_congr tables
      (copying.refersToOwn_iff.mp own bb inBlocks inst inBlock)).symm
  · rintro ⟨leaves, own⟩
    exact copying.behavesAs own leaves

/-- A function of two blocks that reaches the second by a jump table. -/
def switchCallee : BinaryFunction where
  symbol := .function "lookup"
  blocks :=
    [{ label := .label 0
       insts := [⟨.jmpTable 0, [], .none⟩]
       successors := [.label 1] },
      { label := .label 1
        insts := [⟨.ret, [], .none⟩]
        successors := [] }]
  isPLT := false
  hasPnYPoint := true
  isPseudoCopy := false
  pseudoCopy := none
  filteredRegs := fun _ => false

/-- The first copy that is made of it. -/
def switchCopying : LinkedCopying fun _ => [.label 1] where
  callee := switchCallee
  calleeSymbol := switchCallee.symbol
  state := { nextLabel := 2, namePatchMap := .empty }
  labelsDistinct := by decide
  successorsInside := by decide
  labelsOlder := by decide
  targetsOlder := by decide
  patchesChange := by
    intro symbol newSymbol patched
    cases patched

/-- The copy jumps into the callee. -/
theorem switchCopy_leaves :
    ∃ copy after,
      createPseudoCopy switchCopying.callee switchCopying.calleeSymbol
            switchCopying.state =
          some (copy, after) ∧
        ¬ copy.BehavesAs (fun _ => [.label 1]) switchCopying.callee := by
  refine ⟨_, _, switchCopying.createPseudoCopy_eq, ?_⟩
  intro behaves
  have isOutside :
      (run (MCInst.flow fun _ => [.label 1]) switchCopying.copy.code
        [⟨true, 0⟩] (entry switchCopying.copy.code)).2 =
          .outside (.label 1) :=
    rfl
  exact (behaves.stays _ _ isOutside).2.1 (by decide)

end Msh.PseudoInline
