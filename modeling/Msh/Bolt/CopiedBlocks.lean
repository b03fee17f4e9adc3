import Msh.Bolt.PseudoInline

/-!
# The blocks of a copied function

The first pass hands out fresh labels and copies the instructions; the second
one rebuilds the edges.  On a well-formed callee no assertion fails, and the
copy has one block for each block of the callee, with its edges.
-/

namespace Msh.PseudoInline

open X86 ControlFlow

/-- A symbol that was there before the next fresh label is handed out. -/
def Symbol.OlderThan (nextLabel : Nat) : Symbol → Prop
  | .label id => id < nextLabel
  | _ => True

instance (nextLabel : Nat) : (symbol : Symbol) →
    Decidable (symbol.OlderThan nextLabel)
  | .label id => inferInstanceAs (Decidable (id < nextLabel))
  | .function _ => .isTrue trivial
  | .pseudoCopy _ => .isTrue trivial
  | .data _ => .isTrue trivial

/-- A callee that is about to be copied, and the state of its instrumenter. -/
structure Copying where
  callee : BinaryFunction
  calleeSymbol : Symbol
  state : PatchState
  labelsDistinct : callee.labels.Nodup
  successorsInside :
    ∀ bb ∈ callee.blocks, ∀ succ ∈ bb.successors, succ ∈ callee.labels
  labelsOlder : ∀ label ∈ callee.labels, label.OlderThan state.nextLabel

/-- The instructions of a block that are no CFIs. -/
def BinaryBasicBlock.nonCFI (bb : BinaryBasicBlock) : List MCInst :=
  bb.insts.filter (!·.isCFI)

/-! ## The first pass -/

/-- The labels that the first pass hands out. -/
def freshLabels (first count : Nat) : List Symbol :=
  (List.range' first count).map Symbol.label

theorem mem_freshLabels_iff {first count : Nat} {symbol : Symbol} :
    symbol ∈ freshLabels first count ↔
      ∃ id, first ≤ id ∧ id < first + count ∧ symbol = .label id := by
  simp [freshLabels, List.mem_range'_1, and_assoc, eq_comm]

theorem nodup_freshLabels (first count : Nat) :
    (freshLabels first count).Nodup :=
  List.Nodup.map (fun _ _ equal => Symbol.label.inj equal)
    List.nodup_range'

/-- A symbol that was there before is none of the labels handed out. -/
theorem Symbol.OlderThan.not_mem_freshLabels
    {first count : Nat} {symbol : Symbol}
    (older : symbol.OlderThan first) :
    symbol ∉ freshLabels first count := by
  rw [mem_freshLabels_iff]
  rintro ⟨id, notBelow, -, rfl⟩
  exact Nat.not_lt.mpr notBelow older

/-- The blocks of the first pass, under the labels handed out. -/
theorem copyBlocks_eq
    (blocks : List BinaryBasicBlock) (state : PatchState) :
    (copyBlocks blocks state).1 =
      List.zipWith
        (fun bb newLabel =>
          { label := newLabel
            insts := bb.insts.filterMap MCInst.copy?
            successors := [] })
        blocks (freshLabels state.nextLabel blocks.length) := by
  induction blocks generalizing state with
  | nil =>
      rfl
  | cons bb rest inductionHypothesis =>
      simp only [copyBlocks, inductionHypothesis]
      rfl

/-- The map after the first pass: the new labels before the old entries. -/
theorem copyBlocks_get?
    {blocks : List BinaryBasicBlock} (state : PatchState)
    (distinct : (blocks.map (·.label)).Nodup) (symbol : Symbol) :
    (copyBlocks blocks state).2.namePatchMap.get? symbol =
      (Dict.getItem? symbol
          ((blocks.map (·.label)).zip
            (freshLabels state.nextLabel blocks.length))).or
        (state.namePatchMap.get? symbol) := by
  induction blocks generalizing state with
  | nil =>
      rfl
  | cons bb rest inductionHypothesis =>
      obtain ⟨notLater, restDistinct⟩ := List.nodup_cons.mp distinct
      have later := inductionHypothesis
        { nextLabel := state.nextLabel + 1
          namePatchMap :=
            state.namePatchMap.set bb.label (.label state.nextLabel) }
        restDistinct
      have fresh :
          freshLabels state.nextLabel (rest.length + 1) =
            .label state.nextLabel ::
              freshLabels (state.nextLabel + 1) rest.length :=
        rfl
      simp only [copyBlocks, later, List.map_cons, List.length_cons, fresh,
        List.zip_cons_cons, Dict.getItem?, Dict.get?_set]
      by_cases same : bb.label = symbol
      · subst same
        rw [Dict.getItem?_zip_eq_none notLater]
        simp
      · simp [same, Ne.symm same]

theorem copyBlocks_nextLabel
    (blocks : List BinaryBasicBlock) (state : PatchState) :
    (copyBlocks blocks state).2.nextLabel =
      state.nextLabel + blocks.length := by
  induction blocks generalizing state with
  | nil =>
      rfl
  | cons bb rest inductionHypothesis =>
      simp only [copyBlocks, inductionHypothesis, List.length_cons]
      omega

/-! ## The second pass -/

/-- Blocks with further successors behind the ones they have. -/
def withEdges (edges : Symbol → List Symbol)
    (blocks : List BinaryBasicBlock) : List BinaryBasicBlock :=
  blocks.map fun bb =>
    { bb with successors := bb.successors ++ edges bb.label }

@[simp] theorem withEdges_labels
    (edges : Symbol → List Symbol) (blocks : List BinaryBasicBlock) :
    (withEdges edges blocks).map (·.label) = blocks.map (·.label) := by
  simp [withEdges, Function.comp_def]

theorem withEdges_withEdges
    (later edges : Symbol → List Symbol) (blocks : List BinaryBasicBlock) :
    withEdges later (withEdges edges blocks) =
      withEdges (fun label => edges label ++ later label) blocks := by
  simp [withEdges, Function.comp_def]

theorem withEdges_nil (blocks : List BinaryBasicBlock) :
    withEdges (fun _ => []) blocks = blocks := by
  simp [withEdges]

theorem addSuccessor_eq
    (newBBLabel newSuccLabel : Symbol) (blocks : List BinaryBasicBlock) :
    addSuccessor newBBLabel newSuccLabel blocks =
      withEdges
        (fun label => if label = newBBLabel then [newSuccLabel] else [])
        blocks := by
  unfold addSuccessor withEdges
  refine List.map_congr_left fun bb _ => ?_
  split
  · next here => simp [here]
  · next elsewhere => simp [elsewhere]

theorem getBasicBlockForLabel_of_mem
    {blocks : List BinaryBasicBlock} {label : Symbol}
    (member : label ∈ blocks.map (·.label)) :
    ∃ bb, getBasicBlockForLabel blocks label = some bb := by
  obtain ⟨bb, inBlocks, isLabel⟩ := List.mem_map.mp member
  apply Option.isSome_iff_exists.mp
  unfold getBasicBlockForLabel
  rw [List.find?_isSome]
  exact ⟨bb, inBlocks, beq_iff_eq.mpr isLabel⟩

section Edges

variable {namePatchMap : Dict Symbol Symbol} {rename : Symbol → Symbol}

/-- Some labels are patched to labels of blocks that are there. -/
def Patched (namePatchMap : Dict Symbol Symbol) (rename : Symbol → Symbol)
    (blocks : List BinaryBasicBlock) (labels : List Symbol) : Prop :=
  ∀ label ∈ labels,
    namePatchMap.get? label = some (rename label) ∧
      rename label ∈ blocks.map (·.label)

theorem addSuccessors_eq
    {succs : List Symbol} {blocks : List BinaryBasicBlock}
    (newBBLabel : Symbol)
    (patched : Patched namePatchMap rename blocks succs) :
    addSuccessors namePatchMap newBBLabel succs blocks =
      some
        (withEdges
          (fun label =>
            if label = newBBLabel then succs.map rename else [])
          blocks) := by
  induction succs generalizing blocks with
  | nil =>
      simp [addSuccessors, withEdges_nil]
  | cons succ rest inductionHypothesis =>
      obtain ⟨found, isLabel⟩ := patched succ List.mem_cons_self
      obtain ⟨bb, isBlock⟩ := getBasicBlockForLabel_of_mem isLabel
      have restPatched :
          Patched namePatchMap rename
            (addSuccessor newBBLabel (rename succ) blocks) rest := by
        intro label inRest
        rw [addSuccessor_eq, withEdges_labels]
        exact patched label (List.mem_cons_of_mem _ inRest)
      simp only [addSuccessors, found, isBlock]
      rw [inductionHypothesis restPatched, addSuccessor_eq,
        withEdges_withEdges]
      congr 2
      funext label
      split <;> simp

/-- The edges that the second pass adds to a block of the copy. -/
def edgesFrom (rename : Symbol → Symbol) (blocks : List BinaryBasicBlock)
    (label : Symbol) : List Symbol :=
  blocks.flatMap fun bb =>
    if label = rename bb.label then bb.successors.map rename else []

theorem addEdges_eq
    {callee blocks : List BinaryBasicBlock}
    (patched :
      Patched namePatchMap rename blocks (callee.map (·.label)))
    (successorsPatched :
      ∀ bb ∈ callee, Patched namePatchMap rename blocks bb.successors) :
    addEdges namePatchMap callee blocks =
      some (withEdges (edgesFrom rename callee) blocks) := by
  induction callee generalizing blocks with
  | nil =>
      exact (congrArg some (withEdges_nil blocks)).symm
  | cons first rest inductionHypothesis =>
      obtain ⟨found, isLabel⟩ := patched first.label List.mem_cons_self
      obtain ⟨bb, isBlock⟩ := getBasicBlockForLabel_of_mem isLabel
      have added :=
        addSuccessors_eq (rename first.label)
          (successorsPatched first List.mem_cons_self)
      have keeps {labels : List Symbol}
          (before : Patched namePatchMap rename blocks labels) :
          Patched namePatchMap rename
            (withEdges
              (fun label =>
                if label = rename first.label then
                  first.successors.map rename
                else [])
              blocks)
            labels := by
        intro label member
        rw [withEdges_labels]
        exact before label member
      simp only [addEdges, found, isBlock, added]
      rw [inductionHypothesis
          (keeps fun label inRest =>
            patched label (List.mem_cons_of_mem _ inRest))
          fun other inRest =>
            keeps (successorsPatched other (List.mem_cons_of_mem _ inRest)),
        withEdges_withEdges]
      rfl

/-- With distinct new labels, a block gets the edges of its original. -/
theorem edgesFrom_rename
    {blocks : List BinaryBasicBlock} {bb : BinaryBasicBlock}
    (distinct : (blocks.map fun bb => rename bb.label).Nodup)
    (member : bb ∈ blocks) :
    edgesFrom rename blocks (rename bb.label) =
      bb.successors.map rename := by
  obtain ⟨front, back, rfl⟩ := List.append_of_mem member
  have elsewhere (others : List BinaryBasicBlock)
      (apart : ∀ other ∈ others, rename bb.label ≠ rename other.label) :
      (others.flatMap fun other =>
          if rename bb.label = rename other.label then
            other.successors.map rename
          else []) = [] := by
    rw [List.flatMap_eq_nil_iff]
    intro other isOther
    exact if_neg (apart other isOther)
  simp only [List.map_append, List.map_cons, List.nodup_append,
    List.nodup_cons] at distinct
  unfold edgesFrom
  rw [List.flatMap_append, List.flatMap_cons, elsewhere front,
    elsewhere back, List.append_nil, List.nil_append, if_pos rfl]
  · intro other inBack same
    exact distinct.2.1.1 (same ▸ List.mem_map_of_mem inBack)
  · intro other inFront
    exact (distinct.2.2 _ (List.mem_map_of_mem inFront) _
      List.mem_cons_self).symm

end Edges

/-! ## The copy -/

namespace Copying

variable (copying : Copying)

/-- The labels of the copy's blocks. -/
def newLabels : List Symbol :=
  freshLabels copying.state.nextLabel copying.callee.blocks.length

/-- The callee's labels go to those of the copy. -/
def rename (symbol : Symbol) : Symbol :=
  (Dict.getItem? symbol (copying.callee.labels.zip copying.newLabels)).getD
    symbol

/-- The map after the copy. -/
def patchMap : Dict Symbol Symbol :=
  (copyBlocks copying.callee.blocks copying.state).2.namePatchMap

/-- The copy of an instruction. -/
def copyInst? (inst : MCInst) : Option MCInst :=
  inst.copy?.map (MCInst.patchLocalSymbol copying.patchMap)

/-- The copy of a block. -/
def copyBlock (bb : BinaryBasicBlock) : BinaryBasicBlock where
  label := copying.rename bb.label
  insts := bb.insts.filterMap copying.copyInst?
  successors := bb.successors.map copying.rename

/-- The copy of the callee. -/
def copy : BinaryFunction :=
  { createInjectedBinaryFunction copying.calleeSymbol with
    blocks := copying.callee.blocks.map copying.copyBlock
    isPseudoCopy := true
    hasPnYPoint := true }

theorem map_rename :
    copying.callee.labels.map copying.rename = copying.newLabels :=
  Dict.map_getItem?_zip copying.labelsDistinct
    (by simp [BinaryFunction.labels, newLabels, freshLabels]) id

theorem rename_of_not_mem {symbol : Symbol}
    (outside : symbol ∉ copying.callee.labels) :
    copying.rename symbol = symbol := by
  rw [rename, Dict.getItem?_zip_eq_none outside]
  rfl

theorem rename_mem {label : Symbol}
    (member : label ∈ copying.callee.labels) :
    copying.rename label ∈ copying.newLabels := by
  rw [← copying.map_rename]
  exact List.mem_map_of_mem member

theorem rename_injOn {label other : Symbol}
    (member : label ∈ copying.callee.labels)
    (otherMember : other ∈ copying.callee.labels)
    (same : copying.rename label = copying.rename other) :
    label = other := by
  have distinct : (copying.callee.labels.map copying.rename).Nodup := by
    rw [copying.map_rename]
    exact nodup_freshLabels _ _
  exact List.inj_on_of_nodup_map distinct member otherMember same

theorem label_not_new {label : Symbol}
    (member : label ∈ copying.callee.labels) :
    label ∉ copying.newLabels :=
  (copying.labelsOlder label member).not_mem_freshLabels

/-- The map patches the callee's labels, and else what it did before. -/
theorem patchMap_get? (symbol : Symbol) :
    copying.patchMap.get? symbol =
      if symbol ∈ copying.callee.labels then some (copying.rename symbol)
      else copying.state.namePatchMap.get? symbol := by
  have looked :
      copying.patchMap.get? symbol =
        (Dict.getItem? symbol
            (copying.callee.labels.zip copying.newLabels)).or
          (copying.state.namePatchMap.get? symbol) :=
    copyBlocks_get? copying.state copying.labelsDistinct symbol
  split
  · next member =>
      -- a label that is not found would be its own new label
      cases found :
          Dict.getItem? symbol
            (copying.callee.labels.zip copying.newLabels) with
      | none =>
          have stays : copying.rename symbol = symbol := by
            rw [rename, found]
            rfl
          exact absurd (stays ▸ copying.rename_mem member)
            (copying.label_not_new member)
      | some newLabel =>
          rw [looked, rename, found]
          rfl
  · next outside =>
      rw [looked, Dict.getItem?_zip_eq_none outside]
      rfl

theorem copy_labels : copying.copy.labels = copying.newLabels := by
  rw [← copying.map_rename]
  simp [copy, copyBlock, BinaryFunction.labels, Function.comp_def]

/-- The blocks before the edges are rebuilt. -/
theorem patchBlocks_copyBlocks :
    patchBlocks copying.patchMap
        (copyBlocks copying.callee.blocks copying.state).1 =
      copying.callee.blocks.map fun bb =>
        { copying.copyBlock bb with successors := [] } := by
  have fresh :
      freshLabels copying.state.nextLabel copying.callee.blocks.length =
        copying.callee.blocks.map fun bb => copying.rename bb.label := by
    have renamed := copying.map_rename
    rw [BinaryFunction.labels, List.map_map] at renamed
    exact renamed.symm
  rw [copyBlocks_eq, fresh, List.zipWith_map_right, List.zipWith_self,
    patchBlocks, List.map_map]
  refine List.map_congr_left fun bb _ => ?_
  simp only [Function.comp_apply, copyBlock, List.map_filterMap]
  rfl

/-- No assertion fails, and the copy is as described. -/
theorem createPseudoCopy_eq :
    createPseudoCopy copying.callee copying.calleeSymbol copying.state =
      some
        (copying.copy,
          { nextLabel :=
              copying.state.nextLabel + copying.callee.blocks.length
            namePatchMap := copying.patchMap }) := by
  have labels :
      (patchBlocks copying.patchMap
          (copyBlocks copying.callee.blocks copying.state).1).map
            (·.label) =
        copying.newLabels := by
    rw [patchBlocks_copyBlocks, ← copying.copy_labels]
    simp [copy, BinaryFunction.labels, Function.comp_def]
  have patched {known : List Symbol}
      (own : ∀ label ∈ known, label ∈ copying.callee.labels) :
      Patched copying.patchMap copying.rename
        (patchBlocks copying.patchMap
          (copyBlocks copying.callee.blocks copying.state).1) known := by
    intro label member
    rw [labels, copying.patchMap_get?, if_pos (own label member)]
    exact ⟨rfl, copying.rename_mem (own label member)⟩
  have edges :=
    addEdges_eq (patched fun label member => member)
      fun bb member => patched (copying.successorsInside bb member)
  have distinct :
      (copying.callee.blocks.map fun bb =>
        copying.rename bb.label).Nodup := by
    have renamed := copying.map_rename
    rw [BinaryFunction.labels, List.map_map] at renamed
    exact renamed.symm ▸ nodup_freshLabels _ _
  have blocks :
      withEdges (edgesFrom copying.rename copying.callee.blocks)
          (patchBlocks copying.patchMap
            (copyBlocks copying.callee.blocks copying.state).1) =
        copying.callee.blocks.map copying.copyBlock := by
    rw [patchBlocks_copyBlocks, withEdges, List.map_map]
    refine List.map_congr_left fun bb member => ?_
    simp only [Function.comp_apply, List.nil_append]
    have edgesOf :
        edgesFrom copying.rename copying.callee.blocks
            (copying.copyBlock bb).label =
          (copying.copyBlock bb).successors :=
      edgesFrom_rename distinct member
    rw [edgesOf]
  have after :
      (copyBlocks copying.callee.blocks copying.state).2 =
        { nextLabel :=
            copying.state.nextLabel + copying.callee.blocks.length
          namePatchMap := copying.patchMap } := by
    rw [← copyBlocks_nextLabel]
    rfl
  unfold createPseudoCopy
  simp only
  rw [show
      (copyBlocks copying.callee.blocks copying.state).2.namePatchMap =
        copying.patchMap from rfl, edges, after]
  simp only [blocks]
  rfl

/-- The copy of an instruction that is no CFI. -/
def copied (inst : MCInst) : MCInst where
  opcode := inst.opcode
  operands :=
    inst.operands.map (MCOperand.patchLocalSymbol copying.patchMap)
  annotations :=
    { Annotations.none with
      insertPrefetchAndYield := inst.annotations.insertPrefetchAndYield
      insertYield := inst.annotations.insertYield }

theorem copyInst?_eq (inst : MCInst) :
    copying.copyInst? inst =
      if inst.isCFI then none else some (copying.copied inst) := by
  unfold copyInst? MCInst.copy?
  split <;> rfl

theorem copyBlock_insts (bb : BinaryBasicBlock) :
    (copying.copyBlock bb).insts = bb.nonCFI.map copying.copied := by
  unfold copyBlock BinaryBasicBlock.nonCFI
  simp only
  induction bb.insts with
  | nil =>
      rfl
  | cons inst rest inductionHypothesis =>
      rw [List.filterMap_cons, copyInst?_eq, List.filter_cons]
      cases inst.isCFI <;> simp [inductionHypothesis]

end Copying

end Msh.PseudoInline
