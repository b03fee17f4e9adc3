import Msh.Bolt.GrownFunction

/-!
# The function with a latch split

The rest of a latch continues it, whatever of the latch is left in front.
-/

namespace Msh.BoundYieldDistanceInstrumenter

open Function Layout X86 LoopFunction

/-! ## The code -/

section Code

variable {code : List (Block Nat PreheaderOp)} {block newBlock : Nat}
  {inserted : List PreheaderOp} {shown : PreheaderOp → Bool}

/-- Code with a block split, of which the same is seen -/
structure CodeSplit (shown : PreheaderOp → Bool)
    (code : List (Block Nat PreheaderOp)) (block newBlock : Nat)
    (code' : List (Block Nat PreheaderOp)) : Prop where
  mem_labels : ∀ label,
    label ∈ labels code' ↔ label = newBlock ∨ label ∈ labels code
  distinct : (labels code').Nodup
  closed : EndsClosed code'
  goes_block : ∀ next ∈ goes code' block, next = some newBlock ∨
    next ∈ goes code block ∧ (ops code' newBlock).filter shown = []
  goes_new : ∀ next ∈ goes code' newBlock, next ∈ goes code block
  goes_only : ∀ next, goes code block = [next] → goes code' newBlock = [next]
  goes_other : ∀ label, label ≠ block → label ≠ newBlock →
    goes code' label = goes code label
  ops_eq : (ops code' block).filter shown ++ (ops code' newBlock).filter shown =
    (ops code block).filter shown
  ops_other : ∀ label, label ≠ block → label ≠ newBlock →
    ops code' label = ops code label

theorem splitCode_splits (inst : Inst) (isLast : Bool)
    (isLabel : block ∈ labels code) (fresh : newBlock ∉ labels code)
    (distinct : (labels code).Nodup) (closed : EndsClosed code)
    (nothing : inserted.filter shown = []) :
    CodeSplit shown code block newBlock
      (splitCode inst isLast inserted code block newBlock) := by
  obtain ⟨found, isBlock⟩ :=
    Option.isSome_iff_exists.mp (block?_isSome_iff.mpr isLabel)
  have isExit : exit? code block = some found.exit := by
    rw [exit?, isBlock, Option.map_some]
  have goesFound := goes_of_block? isBlock
  have opsFound := ops_of_block? isBlock
  unfold splitCode
  rw [isExit]
  split
  · next target other isBoth =>
      -- Control may leave the block before what is inserted.
      have exit_eq := Option.some_inj.mp isBoth
      rw [exit_eq] at goesFound
      have sameLabel (first : Block Nat PreheaderOp) :
          ({ first with exit := .branch target } :
            Block Nat PreheaderOp).label = first.label :=
        rfl
      constructor
      case mem_labels =>
        intro label
        exact mem_labels_splitBlock sameLabel isLabel
      case distinct => exact nodup_labels_splitBlock sameLabel fresh distinct
      case closed =>
        exact endsClosed_splitBlock sameLabel isLabel fresh isBlock distinct
          closed fun falls => absurd falls Bool.false_ne_true
      case goes_block =>
        intro next isNext
        rw [goes_splitBlock_first sameLabel isLabel fresh isBlock] at isNext
        rw [goesFound, ops_splitBlock_rest sameLabel isLabel fresh]
        rcases List.mem_cons.mp isNext with isTarget | isRest
        · exact Or.inr ⟨isTarget ▸ List.mem_cons_self, nothing⟩
        · exact Or.inl (List.mem_singleton.mp isRest)
      case goes_new =>
        intro next isNext
        rw [goes_splitBlock_rest sameLabel isLabel fresh] at isNext
        rw [goesFound]
        exact List.mem_cons_of_mem _ isNext
      case goes_only =>
        intro next isOnly
        rw [goesFound] at isOnly
        cases isOnly
      case goes_other =>
        intro label notBlock notNew
        exact goes_splitBlock_other sameLabel isLabel fresh notNew notBlock
      case ops_eq =>
        rw [ops_splitBlock_first sameLabel isLabel fresh isBlock,
          ops_splitBlock_rest sameLabel isLabel fresh, nothing,
          List.append_nil, opsFound]
      case ops_other =>
        intro label notBlock notNew
        exact ops_splitBlock_other sameLabel isLabel fresh notNew notBlock
  · next exit _ isSome =>
      have exit_eq := Option.some_inj.mp isSome
      have sameLabel (first : Block Nat PreheaderOp) :
          (⟨first.label, first.ops.takeWhile (!·.isInst inst) ++ inserted,
            .fall⟩ : Block Nat PreheaderOp).label = first.label :=
        rfl
      constructor
      case mem_labels =>
        intro label
        exact mem_labels_splitBlock sameLabel isLabel
      case distinct => exact nodup_labels_splitBlock sameLabel fresh distinct
      case closed =>
        refine endsClosed_splitBlock sameLabel isLabel fresh isBlock distinct
          closed fun falls => ?_
        rwa [exit_eq]
      case goes_block =>
        intro next isNext
        rw [goes_splitBlock_first sameLabel isLabel fresh isBlock] at isNext
        exact Or.inl (List.mem_singleton.mp isNext)
      case goes_new =>
        intro next isNext
        rw [goes_splitBlock_rest sameLabel isLabel fresh] at isNext
        rwa [goesFound, exit_eq]
      case goes_only =>
        intro next isOnly
        rw [goes_splitBlock_rest sameLabel isLabel fresh]
        rwa [goesFound, exit_eq] at isOnly
      case goes_other =>
        intro label notBlock notNew
        exact goes_splitBlock_other sameLabel isLabel fresh notNew notBlock
      case ops_eq =>
        rw [ops_splitBlock_first sameLabel isLabel fresh isBlock,
          ops_splitBlock_rest sameLabel isLabel fresh, opsFound,
          List.filter_append, nothing, List.append_nil, ← List.filter_append,
          List.takeWhile_append_dropWhile]
      case ops_other =>
        intro label notBlock notNew
        exact ops_splitBlock_other sameLabel isLabel fresh notNew notBlock
  · next isNone => cases isNone

end Code

/-! ## The flow graph -/

variable {nest : LoopNest} {func : LoopFunction nest}
  {newBlock : Nat → Option Nat} {origin : Nat → Nat}
  {fn : FlowFunction PreheaderOp} {block : Nat} {inst : Inst} {isLast : Bool}
  {inserted : List PreheaderOp}

theorem preds_splitLatch {target : Nat} (notFresh : target ≠ fn.fresh) :
    (splitLatch inst isLast inserted fn block).preds target =
      (fn.preds target).filter (· ≠ block) ++
        List.replicate ((fn.succs block).count target) fn.fresh := by
  dsimp only [splitLatch]
  rw [update_of_ne notFresh]

theorem succs_splitLatch_fresh :
    (splitLatch inst isLast inserted fn block).succs fn.fresh =
      fn.succs block := by
  dsimp only [splitLatch]
  rw [update_self]

theorem succs_splitLatch_block (notFresh : block ≠ fn.fresh) :
    (splitLatch inst isLast inserted fn block).succs block = [fn.fresh] := by
  dsimp only [splitLatch]
  rw [update_of_ne notFresh, update_self]

theorem succs_splitLatch_other {label : Nat} (notBlock : label ≠ block)
    (notFresh : label ≠ fn.fresh) :
    (splitLatch inst isLast inserted fn block).succs label =
      fn.succs label := by
  dsimp only [splitLatch]
  rw [update_of_ne notFresh, update_of_ne notBlock]

theorem isMarked_splitLatch (label : Nat) :
    (splitLatch inst isLast inserted fn block).isPseudoPreheader label =
      if label = fn.fresh then false else fn.isPseudoPreheader label :=
  update_apply _ _ _ _

/-- The first part of a block, which leads only to the rest, and the rest,
which leads where the block led -/
theorem Grown.latchSplit (grown : Grown func newBlock origin fn)
    (well : func.WellFormed) {shown : PreheaderOp → Bool}
    (isSplit : CodeSplit shown fn.code block fn.fresh
      (splitLatch inst isLast inserted fn block).code)
    (isOld : block ∈ labels func.fn.code) (isWhole : newBlock block = none) :
    Grown func (update newBlock block (some fn.fresh))
      (update origin fn.fresh (origin block))
      (splitLatch inst isLast inserted fn block) := by
  have isLabel := grown.labels_mem block isOld
  have blockNe := grown.ne_fresh isLabel
  have isOrigin := grown.origin_old block isOld
  have oldNe (label : Nat) (isOld : label ∈ labels func.fn.code) :
      label ≠ fn.fresh :=
    grown.ne_fresh (grown.labels_mem label isOld)
  have wasLabel (label : Nat) (notFresh : label ≠ fn.fresh) :
      label ∈ labels (splitLatch inst isLast inserted fn block).code ↔
        label ∈ labels fn.code :=
    (isSplit.mem_labels label).trans (or_iff_right notFresh)
  constructor
  case distinct => exact isSplit.distinct
  case closed => exact isSplit.closed
  case below_fresh =>
    intro label isNew
    rcases (isSplit.mem_labels label).mp isNew with rfl | wasLabel
    · exact Nat.lt_succ_self _
    · exact Nat.lt_succ_of_lt (grown.below_fresh label wasLabel)
  case labels_mem =>
    intro label isOld
    exact (isSplit.mem_labels label).mpr (Or.inr (grown.labels_mem label isOld))
  case targets_mem =>
    intro label next isNext
    refine (isSplit.mem_labels next).mpr ?_
    by_cases isFresh : label = fn.fresh
    · rw [isFresh] at isNext
      exact Or.inr (grown.targets_mem block next (isSplit.goes_new _ isNext))
    · by_cases isBlock : label = block
      · rw [isBlock] at isNext
        rcases isSplit.goes_block _ isNext with isNew | ⟨wasNext, _⟩
        · exact Or.inl (Option.some_inj.mp isNew)
        · exact Or.inr (grown.targets_mem block next wasNext)
      · have wasNext := isSplit.goes_other label isBlock isFresh ▸ isNext
        exact Or.inr (grown.targets_mem label next wasNext)
  case origin_old =>
    intro label isOld
    rw [update_of_ne (oldNe label isOld)]
    exact grown.origin_old label isOld
  case goes_old =>
    intro label next isNext nextOld
    by_cases isFresh : label = fn.fresh
    · rw [isFresh] at isNext
      rw [isFresh, update_self]
      exact grown.goes_old block next (isSplit.goes_new _ isNext) nextOld
    · rw [update_of_ne isFresh]
      refine grown.goes_old label next ?_ nextOld
      by_cases isBlock : label = block
      · rw [isBlock] at isNext ⊢
        rcases isSplit.goes_block _ isNext with isNew | ⟨wasNext, _⟩
        · exact absurd (Option.some_inj.mp isNew) (oldNe next nextOld)
        · exact wasNext
      · have wasNext := isSplit.goes_other label isBlock isFresh ▸ isNext
        exact wasNext
  case succs_kept =>
    intro label next isNext
    obtain ⟨part, partIn, isFrom, isSucc⟩ := grown.succs_kept label next isNext
    have partNe := grown.ne_fresh partIn
    by_cases isBlock : part = block
    · refine ⟨fn.fresh, (isSplit.mem_labels _).mpr (Or.inl rfl), ?_, ?_⟩
      · rw [update_self, ← isBlock, isFrom]
      · rw [succs_splitLatch_fresh, ← isBlock]
        exact isSucc
    · refine ⟨part, (isSplit.mem_labels _).mpr (Or.inr partIn), ?_, ?_⟩
      · rw [update_of_ne partNe, isFrom]
      · rwa [succs_splitLatch_other isBlock partNe]
  case succs_old =>
    intro label isNew next nextOld isSucc
    by_cases isFresh : label = fn.fresh
    · rw [isFresh, succs_splitLatch_fresh] at isSucc
      rw [isFresh, update_self]
      exact grown.succs_old block isLabel next nextOld isSucc
    · rw [update_of_ne isFresh]
      by_cases isBlock : label = block
      · rw [isBlock, succs_splitLatch_block blockNe, List.mem_singleton]
          at isSucc
        exact absurd isSucc (oldNe next nextOld)
      · rw [succs_splitLatch_other isBlock isFresh] at isSucc
        exact grown.succs_old label ((wasLabel label isFresh).mp isNew) next
          nextOld isSucc
  case preds_count =>
    intro label next nextOld
    have wasCount := grown.preds_count label next nextOld
    rw [preds_splitLatch (oldNe next nextOld), List.count_append]
    by_cases isFresh : label = fn.fresh
    · subst isFresh
      rw [if_neg grown.fresh_not_mem] at wasCount
      have isNew := (isSplit.mem_labels fn.fresh).mpr (Or.inl rfl)
      rw [if_pos isNew, succs_splitLatch_fresh, List.count_replicate_self,
        List.count_filter (by simpa using Ne.symm blockNe), wasCount,
        Nat.zero_add]
    · have noNew : (List.replicate ((fn.succs block).count next)
          fn.fresh).count label = 0 :=
        List.count_eq_zero.mpr fun member =>
          isFresh (List.eq_of_mem_replicate member)
      have sameLabel := wasLabel label isFresh
      simp only [sameLabel]
      rw [noNew, Nat.add_zero]
      by_cases isBlock : label = block
      · have noBlock : ((fn.preds next).filter (· ≠ block)).count label = 0 :=
          List.count_eq_zero.mpr fun member => by
            simpa [isBlock] using (List.mem_filter.mp member).2
        rw [noBlock, isBlock, succs_splitLatch_block blockNe,
          List.count_singleton]
        simp [Ne.symm (oldNe next nextOld)]
      · rw [List.count_filter (by simpa using isBlock), wasCount,
          succs_splitLatch_other isBlock isFresh]
  case single =>
    intro label isNew next nextOld isOnly
    by_cases isFresh : label = fn.fresh
    · rw [isFresh, succs_splitLatch_fresh] at isOnly
      rw [isFresh]
      exact isSplit.goes_only _
        (grown.single block isLabel next nextOld isOnly)
    · by_cases isBlock : label = block
      · rw [isBlock, succs_splitLatch_block blockNe, List.singleton_inj]
          at isOnly
        exact absurd isOnly.symm (oldNe next nextOld)
      · rw [succs_splitLatch_other isBlock isFresh] at isOnly
        have isGoes := isSplit.goes_other label isBlock isFresh
        exact isGoes.trans (grown.single label
          ((wasLabel label isFresh).mp isNew) next nextOld isOnly)
  case marked =>
    intro loop isLoop pred isPred isMarked
    have headerOld := well.contains_mem loop _ (well.header_mem loop isLoop)
    have notFresh : pred ≠ fn.fresh := by
      rintro rfl
      rw [isMarked_splitLatch, if_pos rfl] at isMarked
      cases isMarked
    rw [isMarked_splitLatch, if_neg notFresh] at isMarked
    rw [preds_splitLatch (oldNe _ headerOld), List.mem_append] at isPred
    have wasPred := isPred.resolve_right fun member =>
      notFresh (List.eq_of_mem_replicate member)
    rw [List.mem_filter, decide_eq_true_iff] at wasPred
    obtain ⟨wasPred, notBlock⟩ := wasPred
    rw [succs_splitLatch_other notBlock notFresh, update_of_ne notFresh]
    exact grown.marked loop isLoop pred wasPred isMarked
  case rests =>
    intro label isNew notOld notMarked
    by_cases isFresh : label = fn.fresh
    · rw [isFresh, update_self, isOrigin, update_self]
    · rw [isMarked_splitLatch, if_neg isFresh] at notMarked
      have wasRest := grown.rests label ((wasLabel label isFresh).mp isNew)
        notOld notMarked
      have notBlock : origin label ≠ block := by
        intro same
        rw [same, isWhole] at wasRest
        cases wasRest
      rw [update_of_ne isFresh, update_of_ne notBlock]
      exact wasRest
  case rest_origin =>
    intro split label isRest
    by_cases isBlock : split = block
    · rw [isBlock, update_self, Option.some_inj] at isRest
      rw [← isRest, update_self, isBlock]
      exact ⟨isOrigin, (isSplit.mem_labels _).mpr (Or.inl rfl)⟩
    · rw [update_of_ne isBlock] at isRest
      obtain ⟨isFrom, wasIn⟩ := grown.rest_origin split label isRest
      rw [update_of_ne (grown.ne_fresh wasIn)]
      exact ⟨isFrom, (isSplit.mem_labels _).mpr (Or.inr wasIn)⟩

end Msh.BoundYieldDistanceInstrumenter
