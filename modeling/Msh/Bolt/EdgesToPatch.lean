import Msh.Bolt.SplitEdges

/-!
# Splitting all edges of a list

The edges of `EdgesToPatch` are taken from the function before the first of
them is split.  Each is still there when its turn comes.
-/

namespace Msh.LoopOptInstrumenter

open Function Layout FlowFunction

variable {Op : Type} {fn : FlowFunction Op} {loops : List BinaryLoop}
  {onEdge : Nat → Nat → List (LoopOp Op)} {pre post : Nat → List (LoopOp Op)}
  {func func' : FlowFunction (LoopOp Op)} {source behind : Nat}
  {wanted : Nat → Nat → Prop} {edges : List (Nat × Nat)}
  {findBranch : Nat → Nat → Exit Nat → Option (Exit Nat)}

/-- The edges that are still to be split -/
structure Pending (fn : FlowFunction Op) (wanted : Nat → Nat → Prop)
    (edges : List (Nat × Nat)) (func : FlowFunction (LoopOp Op)) : Prop where
  isWanted : ∀ edge ∈ edges, edge.1 ∈ labels fn.code ∧
    edge.2 ∈ labels fn.code ∧ wanted edge.1 edge.2
  count_eq : ∀ source ∈ labels fn.code, ∀ target ∈ labels fn.code,
    wanted source target →
      edges.count (source, target) =
        (goes func.code source).count (some target)

/-- The search finds the branch over an edge, if there is one. -/
inductive Finds (fn : FlowFunction Op) (source target : Nat) :
    (Nat → Nat → Exit Nat → Option (Exit Nat)) → Prop where
  | any (notBoth :
        exit? fn.code source ≠ some (.branchJump target target)) :
      Finds fn source target Exit.redirect?
  | last (notFirst : ∀ other,
        exit? fn.code source ≠ some (.branchJump target other)) :
      Finds fn source target Exit.redirectLast?

theorem goes_of_exit? {code : List (Block Nat Op)} {label : Nat}
    {exit : Exit Nat} (isExit : exit? code label = some exit) :
    goes code label = exit.targets (next? code label) := by
  obtain ⟨block, isBlock, rfl⟩ := Option.map_eq_some_iff.mp isExit
  exact goes_of_block? isBlock

theorem exit_of_block? {code : List (Block Nat Op)} {label : Nat}
    {block : Block Nat Op} (isBlock : block? code label = some block) :
    exit? code label = some block.exit := by
  rw [exit?, isBlock, Option.map_some]

namespace Linked

variable (matching : Linked fn loops func)
include matching

/-- The exit of the original block -/
theorem original_exit (isLabel : source ∈ labels fn.code) {exit : Exit Nat}
    (isExit : exit? func.code source = some exit) :
    ∃ original, exit? fn.code source = some original ∧
      exit.shape = original.shape := by
  have sameShape := matching.shape_eq source isLabel
  rw [isExit, Option.map_some] at sameShape
  obtain ⟨original, isOriginal, same⟩ :=
    Option.map_eq_some_iff.mp sameShape.symm
  exact ⟨original, isOriginal, same.symm⟩

/-- A first branch that goes to an original block has always gone there. -/
theorem original_branchJump (isLabel : source ∈ labels fn.code)
    {target other : Nat} (targetIn : target ∈ labels fn.code)
    (isExit : exit? func.code source = some (.branchJump target other)) :
    ∃ other', exit? fn.code source = some (.branchJump target other') ∧
      (other ∈ labels fn.code → other' = other) := by
  obtain ⟨original, isOriginal, sameShape⟩ :=
    matching.original_exit isLabel isExit
  cases original with
  | fall => cases sameShape
  | jump => cases sameShape
  | branch => cases sameShape
  | table => cases sameShape
  | leave => cases sameShape
  | branchJump first second =>
      have leads := matching.leads source isLabel
      rw [goes_of_exit? isOriginal, goes_of_exit? isExit] at leads
      cases leads with
      | cons firstLeads rest =>
          cases rest with
          | cons secondLeads _ =>
              cases firstLeads with
              | mid isMid => exact absurd targetIn isMid.mid_new
              | direct =>
                  refine ⟨second, isOriginal, fun otherIn => ?_⟩
                  cases secondLeads with
                  | mid isMid => exact absurd otherIn isMid.mid_new
                  | direct => rfl

/-- An edge can be split if the search finds its branch. -/
theorem addMidBlock_splits (isPreheader : Bool)
    (noTable : ∀ block ∈ fn.code, ∀ targets, block.exit ≠ .table targets)
    (finds : Finds fn source behind findBranch)
    (sourceIn : source ∈ labels fn.code) (behindIn : behind ∈ labels fn.code)
    (isNext : some behind ∈ goes func.code source) :
    ∃ func', addMidBlock findBranch isPreheader .noop func (source, behind) =
        some func' ∧
      SplitsEdge fn func source behind func' := by
  have sourceNew := matching.labels_mem _ sourceIn
  obtain ⟨block, isBlock⟩ :=
    Option.isSome_iff_exists.mp (block?_isSome_iff.mpr sourceNew)
  have isExit := exit_of_block? isBlock
  have notTable : ∀ targets, block.exit ≠ .table targets := by
    intro targets isTable
    obtain ⟨original, isOriginal, sameShape⟩ :=
      matching.original_exit sourceIn isExit
    rw [isTable] at sameShape
    obtain ⟨old, isOld, rfl⟩ := Option.map_eq_some_iff.mp isOriginal
    cases isTable' : old.exit with
    | table targets =>
        exact noTable old (List.mem_of_find?_eq_some isOld) targets isTable'
    | fall => rw [isTable'] at sameShape; cases sameShape
    | jump => rw [isTable'] at sameShape; cases sameShape
    | branch => rw [isTable'] at sameShape; cases sameShape
    | branchJump => rw [isTable'] at sameShape; cases sameShape
    | leave => rw [isTable'] at sameShape; cases sameShape
  have found : block.exit ≠ .branchJump behind behind ∧
      findBranch behind func.fresh block.exit =
        block.exit.redirect? behind func.fresh := by
    cases finds with
    | any notBoth =>
        refine ⟨fun isBoth => ?_, rfl⟩
        rw [isBoth] at isExit
        obtain ⟨other, isOriginal, same⟩ :=
          matching.original_branchJump sourceIn behindIn isExit
        rw [same behindIn] at isOriginal
        exact notBoth isOriginal
    | last notFirst =>
        have notBranch : ∀ other, block.exit ≠ .branchJump behind other := by
          intro other isBranch
          rw [isBranch] at isExit
          obtain ⟨other', isOriginal, _⟩ :=
            matching.original_branchJump sourceIn behindIn isExit
          exact notFirst other' isOriginal
        exact ⟨notBranch behind, redirectLast?_eq_redirect? notBranch⟩
  obtain ⟨func', isAdded, split⟩ :
      ∃ func', addMidBlock findBranch isPreheader .noop func (source, behind) =
          some func' ∧
        Split LoopOp.noop func source behind func' :=
    FlowFunction.addMidBlock_splits matching.distinct matching.closed
      matching.fresh_not_mem isBlock (matching.succs_eq _ sourceNew) isNext
      (matching.labels_mem _ behindIn) notTable found.1 found.2
  exact ⟨func', isAdded, split, sourceIn, behindIn, isNext, matching.labels_mem,
    matching.fresh_not_mem⟩

end Linked

/-- The other edges stay. -/
theorem Pending.of_cons
    (pending : Pending fn wanted ((source, behind) :: edges) func)
    (splits : SplitsEdge fn func source behind func') :
    Pending fn wanted edges func' := by
  refine ⟨fun edge member => ?_,
    fun label isLabel target targetIn isWanted => ?_⟩
  · exact pending.isWanted edge (List.mem_cons_of_mem _ member)
  · have before := pending.count_eq label isLabel target targetIn isWanted
    by_cases isSource : label = source
    · subst isSource
      by_cases isBehind : target = behind
      · subst isBehind
        have oneLess := splits.over_count
        rw [List.count_cons_self] at before
        omega
      · have notHead : ((label, behind) == (label, target)) = false := by
          simpa using Ne.symm isBehind
        rw [List.count_cons, notHead] at before
        rw [splits.other_count isBehind
          (splits.ne_fresh (splits.labels_mem _ targetIn))]
        simpa using before
    · have notHead : ((source, behind) == (label, target)) = false := by
        simp [Ne.symm isSource]
      rw [List.count_cons, notHead] at before
      rw [splits.goes_other isSource
        (splits.ne_fresh (splits.labels_mem _ isLabel))]
      simpa using before

/-- Splitting all edges of the list -/
theorem Matches.patchEdges (isPreheader : Bool)
    (targets_mem : ∀ label target,
      some target ∈ goes fn.code label → target ∈ labels fn.code)
    (noTable : ∀ block ∈ fn.code, ∀ targets, block.exit ≠ .table targets)
    (crosses : ∀ source target, wanted source target →
      ∃ loop ∈ loops, loop.crosses source target)
    (matching : Matches fn loops onEdge pre post func)
    (pending : Pending fn wanted edges func)
    (finds : ∀ source ∈ labels fn.code, ∀ target ∈ labels fn.code,
      wanted source target → some target ∈ goes func.code source →
      Finds fn source target findBranch) :
    ∃ func', edges.foldlM (addMidBlock findBranch isPreheader .noop) func =
        some func' ∧
      Matches fn loops onEdge pre post func' ∧
      (∀ source ∈ labels fn.code, ∀ target ∈ labels fn.code,
        wanted source target → some target ∉ goes func'.code source) ∧
      (∀ source ∈ labels fn.code, ∀ target ∈ labels fn.code,
        some target ∈ goes func'.code source →
          some target ∈ goes func.code source) := by
  induction edges generalizing func with
  | nil =>
      refine ⟨func, rfl, matching, ?_, fun _ _ _ _ isNext => isNext⟩
      intro source sourceIn target targetIn isWanted
      rw [← List.count_eq_zero,
        ← pending.count_eq source sourceIn target targetIn isWanted]
      rfl
  | cons edge edges inductionHypothesis =>
      obtain ⟨source, behind⟩ := edge
      obtain ⟨sourceIn, behindIn, isWanted⟩ :=
        pending.isWanted _ List.mem_cons_self
      have isNext : some behind ∈ goes func.code source := by
        rw [← List.count_pos_iff,
          ← pending.count_eq source sourceIn behind behindIn isWanted,
          List.count_cons_self]
        exact Nat.succ_pos _
      obtain ⟨func₁, isAdded, splits⟩ :=
        matching.addMidBlock_splits isPreheader noTable
          (finds source sourceIn behind behindIn isWanted isNext) sourceIn
          behindIn
          isNext
      have old (label : Nat) (isLabel : label ∈ labels fn.code) :
          label ≠ func.fresh :=
        splits.ne_fresh (splits.labels_mem _ isLabel)
      have isNext_old (label : Nat) (isLabel : label ∈ labels fn.code)
          (target : Nat) (targetIn : target ∈ labels fn.code)
          (isNext : some target ∈ goes func₁.code label) :
          some target ∈ goes func.code label :=
        splits.isNext_old (splits.labels_mem _ isLabel) (old _ targetIn) isNext
      obtain ⟨func', isRun, matching', done, less⟩ :=
        inductionHypothesis
          (matching.split targets_mem splits (crosses _ _ isWanted))
          (pending.of_cons splits)
          fun label isLabel target targetIn isWanted isNext =>
            finds label isLabel target targetIn isWanted
              (isNext_old label isLabel target targetIn isNext)
      refine ⟨func', ?_, matching', done, ?_⟩
      · rw [List.foldlM_cons, isAdded]
        exact isRun
      · intro label isLabel target targetIn isNext
        exact isNext_old label isLabel target targetIn
          (less label isLabel target targetIn isNext)

end Msh.LoopOptInstrumenter
