import Msh.Bolt.CounterPreheader
import Msh.Bolt.MidBlocks

/-!
# A function with blocks before its loops

Each block that the instrumenter adds continues one block of the function, and
the flow graph still tells for each of these blocks which ones lead to it.
-/

namespace Msh.BoundYieldDistanceInstrumenter

open Function Layout X86 LoopFunction

variable {nest : LoopNest} {func : LoopFunction nest}

/-- The function has grown from the original one. -/
structure Grown (func : LoopFunction nest) (newBlock : Nat → Option Nat)
    (origin : Nat → Nat) (fn : FlowFunction PreheaderOp) : Prop where
  distinct : (labels fn.code).Nodup
  closed : EndsClosed fn.code
  below_fresh : ∀ label ∈ labels fn.code, label < fn.fresh
  labels_mem : ∀ label ∈ labels func.fn.code, label ∈ labels fn.code
  targets_mem : ∀ label target, some target ∈ goes fn.code label →
    target ∈ labels fn.code
  origin_old : ∀ label ∈ labels func.fn.code, origin label = label
  goes_old : ∀ label target, some target ∈ goes fn.code label →
    target ∈ labels func.fn.code →
    some target ∈ goes func.fn.code (origin label)
  succs_old : ∀ label ∈ labels fn.code, ∀ target ∈ labels func.fn.code,
    target ∈ fn.succs label → some target ∈ goes func.fn.code (origin label)
  succs_kept : ∀ label target, some target ∈ goes func.fn.code label →
    ∃ part ∈ labels fn.code, origin part = label ∧ target ∈ fn.succs part
  preds_count : ∀ label, ∀ target ∈ labels func.fn.code,
    (fn.preds target).count label =
      if label ∈ labels fn.code then (fn.succs label).count target else 0
  single : ∀ label ∈ labels fn.code, ∀ target ∈ labels func.fn.code,
    fn.succs label = [target] → goes fn.code label = [some target]
  /-- A block that is marked leads into a loop from outside and nowhere
  else. -/
  marked : ∀ loop, IsLoop nest loop → ∀ pred ∈ fn.preds (func.header loop),
    fn.isPseudoPreheader pred = true →
    fn.succs pred = [func.header loop] ∧
      nest.contains loop (origin pred) = false
  /-- Each other new block has the rest of a block. -/
  rests : ∀ label ∈ labels fn.code, label ∉ labels func.fn.code →
    fn.isPseudoPreheader label = false → newBlock (origin label) = some label
  rest_origin : ∀ block label, newBlock block = some label →
    origin label = block ∧ label ∈ labels fn.code

namespace Grown

variable {newBlock : Nat → Option Nat} {origin : Nat → Nat}
  {fn : FlowFunction PreheaderOp} {label target block : Nat}
  (grown : Grown func newBlock origin fn)
include grown

theorem ne_fresh (isLabel : label ∈ labels fn.code) : label ≠ fn.fresh :=
  Nat.ne_of_lt (grown.below_fresh label isLabel)

theorem fresh_not_mem : fn.fresh ∉ labels fn.code :=
  fun isLabel => grown.ne_fresh isLabel rfl

theorem fresh_new : fn.fresh ∉ labels func.fn.code :=
  fun isLabel => grown.fresh_not_mem (grown.labels_mem _ isLabel)

theorem fresh_unused : some fn.fresh ∉ goes fn.code label :=
  fun isTarget => grown.fresh_not_mem (grown.targets_mem _ _ isTarget)

theorem mem_preds_iff (targetOld : target ∈ labels func.fn.code) :
    label ∈ fn.preds target ↔
      label ∈ labels fn.code ∧ target ∈ fn.succs label := by
  rw [← List.count_pos_iff, grown.preds_count label target targetOld]
  split
  · next isLabel =>
      rw [List.count_pos_iff]
      exact (and_iff_right isLabel).symm
  · next notLabel =>
      exact ⟨fun isPositive => absurd isPositive (lt_irrefl 0),
        fun isPred => absurd isPred.1 notLabel⟩

theorem succs_ne_nil (targetOld : target ∈ labels func.fn.code)
    (isPred : label ∈ fn.preds target) : 0 < (fn.succs label).length :=
  List.length_pos_of_mem ((grown.mem_preds_iff targetOld).mp isPred).2

/-- Without several successors, the block leads only there. -/
theorem goes_of_pred (targetOld : target ∈ labels func.fn.code)
    (isPred : label ∈ fn.preds target)
    (notFork : ¬1 < (fn.succs label).length) :
    fn.succs label = [target] ∧ goes fn.code label = [some target] := by
  obtain ⟨isLabel, isSucc⟩ := (grown.mem_preds_iff targetOld).mp isPred
  have isSome := grown.succs_ne_nil targetOld isPred
  obtain ⟨only, isOnly⟩ := List.length_eq_one_iff.mp
    (show (fn.succs label).length = 1 by omega)
  rw [isOnly, List.mem_singleton] at isSucc
  subst isSucc
  exact ⟨isOnly, grown.single label isLabel target targetOld isOnly⟩

end Grown

/-! ## Marks and instructions -/

section Marks

variable {newBlock : Nat → Option Nat} {origin : Nat → Nat}
  {fn : FlowFunction PreheaderOp} (grown : Grown func newBlock origin fn)
include grown

/-- Other marks -/
theorem Grown.mark {marks : Nat → Bool}
    (more : ∀ label, fn.isPseudoPreheader label = true → marks label = true)
    (marked : ∀ loop, IsLoop nest loop →
      ∀ pred ∈ fn.preds (func.header loop), marks pred = true →
      fn.succs pred = [func.header loop] ∧
        nest.contains loop (origin pred) = false) :
    Grown func newBlock origin { fn with isPseudoPreheader := marks } :=
  { grown with
    marked := marked
    rests := fun label isLabel notOld notMarked =>
      grown.rests label isLabel notOld
        (Bool.eq_false_iff.mpr fun wasMarked =>
          absurd (more label wasMarked) (Bool.eq_false_iff.mp notMarked)) }

/-- Other instructions -/
theorem Grown.changeCode {code : List (Block Nat PreheaderOp)}
    (sameLabels : labels code = labels fn.code)
    (closed : EndsClosed code)
    (goes_eq : ∀ label, goes code label = goes fn.code label) :
    Grown func newBlock origin { fn with code := code } where
  distinct := by
    rw [sameLabels]
    exact grown.distinct
  closed := closed
  below_fresh := by
    rw [sameLabels]
    exact grown.below_fresh
  labels_mem := by
    rw [sameLabels]
    exact grown.labels_mem
  targets_mem := by
    intro label target isTarget
    rw [goes_eq] at isTarget
    rw [sameLabels]
    exact grown.targets_mem label target isTarget
  origin_old := grown.origin_old
  goes_old := by
    intro label target isTarget targetOld
    rw [goes_eq] at isTarget
    exact grown.goes_old label target isTarget targetOld
  succs_old := by
    rw [sameLabels]
    exact grown.succs_old
  succs_kept := by
    rw [sameLabels]
    exact grown.succs_kept
  preds_count := by
    rw [sameLabels]
    exact grown.preds_count
  single := by
    intro label isLabel target targetOld isOnly
    rw [sameLabels] at isLabel
    rw [goes_eq]
    exact grown.single label isLabel target targetOld isOnly
  marked := grown.marked
  rests := by
    rw [sameLabels]
    exact grown.rests
  rest_origin := by
    rw [sameLabels]
    exact grown.rest_origin

end Marks

/-! ## A block on an edge -/

/-- A function with a block on an edge -/
structure EdgeSplit (fn : FlowFunction PreheaderOp) (source target : Nat)
    (fn' : FlowFunction PreheaderOp) : Prop where
  onEdge : ∃ newOps,
    (newOps = [] ∧ exit? fn'.code fn.fresh = some (.jump target) ∨
      newOps = [.noop]) ∧
    OnEdge fn.code source target fn.fresh newOps fn'.code
  succs_source : ∃ front back, target ∉ front ∧
    fn.succs source = front ++ target :: back ∧
    fn'.succs source = front ++ fn.fresh :: back
  succs_fresh : fn'.succs fn.fresh = [target]
  succs_other : ∀ label, label ≠ source → label ≠ fn.fresh →
    fn'.succs label = fn.succs label
  preds_target :
    fn'.preds target = (fn.preds target).erase source ++ [fn.fresh]
  preds_other : ∀ label, label ≠ target → label ≠ fn.fresh →
    fn'.preds label = fn.preds label
  marks_eq : fn'.isPseudoPreheader = update fn.isPseudoPreheader fn.fresh true
  fresh_eq : fn'.fresh = fn.fresh + 1

section Edge

variable {newBlock : Nat → Option Nat} {origin : Nat → Nat}
  {fn fn' : FlowFunction PreheaderOp} {source target : Nat}

namespace EdgeSplit

variable (split : EdgeSplit fn source target fn')
include split

theorem mem_labels {label : Nat} :
    label ∈ labels fn'.code ↔ label = fn.fresh ∨ label ∈ labels fn.code := by
  obtain ⟨newOps, _, onEdge⟩ := split.onEdge
  exact onEdge.mem_labels label

theorem goes_fresh : goes fn'.code fn.fresh = [some target] := by
  obtain ⟨newOps, _, onEdge⟩ := split.onEdge
  exact onEdge.goes_new

theorem goes_other {label : Nat} (notSource : label ≠ source)
    (notFresh : label ≠ fn.fresh) :
    goes fn'.code label = goes fn.code label := by
  obtain ⟨newOps, _, onEdge⟩ := split.onEdge
  exact onEdge.goes_other label notSource notFresh

/-- The source leads to what it led to before and to the new block. -/
theorem goes_source {label : Nat}
    (isTarget : some label ∈ goes fn'.code source) :
    label = fn.fresh ∨ some label ∈ goes fn.code source := by
  obtain ⟨newOps, _, onEdge⟩ := split.onEdge
  obtain ⟨front, back, _, before, after⟩ := onEdge.goes_source
  rw [after, List.mem_append, List.mem_cons] at isTarget
  rw [before, List.mem_append, List.mem_cons]
  rcases isTarget with isFront | isFresh | isBack
  · exact Or.inr (Or.inl isFront)
  · exact Or.inl (Option.some_inj.mp isFresh)
  · exact Or.inr (Or.inr (Or.inr isBack))

theorem succs_length :
    (fn'.succs source).length = (fn.succs source).length := by
  obtain ⟨front, back, _, before, after⟩ := split.succs_source
  rw [before, after, List.length_append, List.length_append,
    List.length_cons, List.length_cons]

theorem count_succs {label : Nat}
    (notFresh : label ≠ fn.fresh) :
    (fn'.succs source).count label =
      (fn.succs source).count label - if label = target then 1 else 0 := by
  obtain ⟨front, back, _, before, after⟩ := split.succs_source
  rw [before, after, List.count_append, List.count_append,
    List.count_cons_of_ne (Ne.symm notFresh)]
  by_cases isTarget : label = target
  · rw [if_pos isTarget, isTarget, List.count_cons_self]
    omega
  · rw [if_neg isTarget, List.count_cons_of_ne (Ne.symm isTarget)]
    omega

end EdgeSplit

variable (grown : Grown func newBlock origin fn)
include grown

theorem Grown.addMidBlock (isLabel : source ∈ labels fn.code)
    (targetOld : target ∈ labels func.fn.code)
    (isSucc : target ∈ fn.succs source)
    (once : (goes fn.code source).count (some target) = 1)
    (noTable : ∀ targets, exit? fn.code source ≠ some (.table targets)) :
    ∃ fn', FlowFunction.addMidBlock Exit.redirect? true .noop fn
        (source, target) = some fn' ∧
      EdgeSplit fn source target fn' := by
  have sourceOld := grown.ne_fresh isLabel
  have targetNe := grown.ne_fresh (grown.labels_mem target targetOld)
  obtain ⟨block, isBlock⟩ :=
    Option.isSome_iff_exists.mp (block?_isSome_iff.mpr isLabel)
  have isExit : exit? fn.code source = some block.exit := by
    rw [exit?, isBlock, Option.map_some]
  have isTarget : some target ∈ goes fn.code source :=
    List.count_pos_iff.mp (by omega)
  have notBoth : block.exit ≠ .branchJump target target := by
    intro isBoth
    rw [goes_of_block? isBlock, isBoth] at once
    simp [Exit.targets] at once
  have notTable : ∀ targets, block.exit ≠ .table targets :=
    fun targets isTable =>
      noTable targets (isExit.trans (congrArg some isTable))
  obtain ⟨front, back, succs_eq, notFront⟩ :=
    List.eq_append_cons_of_mem isSucc
  have replaced := FlowFunction.replaceFirst_eq fn.fresh back notFront
  rw [← succs_eq] at replaced
  refine ⟨_, FlowFunction.addMidBlock_eq sourceOld targetNe replaced, ?_, ?_,
    ?_, ?_, ?_, ?_, rfl, rfl⟩
  · dsimp only
    rw [FlowFunction.layMidBlock, isExit, Option.bind_some]
    cases isRedirected : block.exit.redirect? target fn.fresh with
    | some exit =>
        have stillFresh : fn.fresh ∉ labels (updateBlock fn.code source
            fun block => { block with exit := exit }) := by
          have sameLabels := @labels_updateBlock Nat PreheaderOp _ fn.code source
            (fun block => { block with exit := exit }) fun _ => rfl
          rw [sameLabels]
          exact grown.fresh_not_mem
        refine ⟨[], Or.inl ⟨rfl, ?_⟩,
          onEdge_redirect grown.distinct grown.closed isBlock
            grown.fresh_not_mem isRedirected notBoth⟩
        dsimp only
        rw [exit?, block?_concat stillFresh, if_pos rfl]
        rfl
    | none =>
        exact ⟨[.noop], Or.inr rfl,
          onEdge_fall grown.distinct grown.closed isBlock grown.fresh_not_mem
            isRedirected notTable isTarget⟩
  · refine ⟨front, back, notFront, succs_eq, ?_⟩
    dsimp only
    rw [update_of_ne sourceOld, update_self]
  · exact update_self _ _ _
  · intro label notSource notFresh
    dsimp only
    rw [update_of_ne notFresh, update_of_ne notSource]
  · dsimp only
    rw [update_of_ne targetNe, update_self]
  · intro label notTarget notFresh
    dsimp only
    rw [update_of_ne notFresh, update_of_ne notTarget]

/-- The function with a block on an edge from a block that leads to several
others -/
theorem Grown.split (well : func.WellFormed)
    (split : EdgeSplit fn source target fn')
    (isLabel : source ∈ labels fn.code)
    (targetOld : target ∈ labels func.fn.code)
    (isTarget : some target ∈ goes fn.code source)
    (isFork : 1 < (fn.succs source).length)
    (outside : ∀ loop, IsLoop nest loop → func.header loop = target →
      nest.contains loop (origin source) = false) :
    Grown func newBlock (update origin fn.fresh (origin source)) fn' := by
  obtain ⟨newOps, isNew, onEdge⟩ := split.onEdge
  have sourceNe := grown.ne_fresh isLabel
  have targetNe := grown.ne_fresh (grown.labels_mem target targetOld)
  have oldNe (label : Nat) (isOld : label ∈ labels func.fn.code) :
      label ≠ fn.fresh :=
    grown.ne_fresh (grown.labels_mem label isOld)
  constructor
  case distinct => exact onEdge.nodup
  case closed => exact onEdge.closed
  case below_fresh =>
    intro label isNewLabel
    rw [split.fresh_eq]
    rcases split.mem_labels.mp isNewLabel with rfl | wasLabel
    · exact Nat.lt_succ_self _
    · exact Nat.lt_succ_of_lt (grown.below_fresh label wasLabel)
  case labels_mem =>
    intro label isOld
    exact split.mem_labels.mpr (Or.inr (grown.labels_mem label isOld))
  case targets_mem =>
    intro label next isNext
    rw [split.mem_labels]
    by_cases isFresh : label = fn.fresh
    · rw [isFresh, split.goes_fresh, List.mem_singleton, Option.some_inj]
        at isNext
      exact Or.inr (isNext ▸ grown.labels_mem target targetOld)
    · by_cases isSource : label = source
      · rw [isSource] at isNext
        exact (split.goes_source isNext).imp_right
          (grown.targets_mem source next)
      · rw [split.goes_other isSource isFresh] at isNext
        exact Or.inr (grown.targets_mem label next isNext)
  case origin_old =>
    intro label isOld
    rw [update_of_ne (oldNe label isOld)]
    exact grown.origin_old label isOld
  case goes_old =>
    intro label next isNext isOld
    by_cases isFresh : label = fn.fresh
    · rw [isFresh, split.goes_fresh, List.mem_singleton, Option.some_inj]
        at isNext
      rw [isFresh, update_self, isNext]
      exact grown.goes_old source target isTarget targetOld
    · rw [update_of_ne isFresh]
      refine grown.goes_old label next ?_ isOld
      by_cases isSource : label = source
      · rw [isSource] at isNext ⊢
        exact (split.goes_source isNext).resolve_left (oldNe next isOld)
      · rwa [split.goes_other isSource isFresh] at isNext
  case succs_kept =>
    intro label next isNext
    have nextOld := well.targets_mem label next isNext
    obtain ⟨part, partIn, isOrigin, isSucc⟩ :=
      grown.succs_kept label next isNext
    have partNe := grown.ne_fresh partIn
    by_cases isEdge : part = source ∧ next = target
    · refine ⟨fn.fresh, split.mem_labels.mpr (Or.inl rfl), ?_, ?_⟩
      · rw [update_self, ← isEdge.1, isOrigin]
      · rw [split.succs_fresh, isEdge.2]
        exact List.mem_singleton_self _
    · refine ⟨part, split.mem_labels.mpr (Or.inr partIn), ?_, ?_⟩
      · rw [update_of_ne partNe, isOrigin]
      · by_cases isSource : part = source
        · have notTarget : next ≠ target := fun same => isEdge ⟨isSource, same⟩
          rw [isSource] at isSucc ⊢
          rw [← List.count_pos_iff, split.count_succs (oldNe next nextOld),
            if_neg notTarget, Nat.sub_zero]
          exact List.count_pos_iff.mpr isSucc
        · rwa [split.succs_other part isSource partNe]
  case succs_old =>
    intro label isNewLabel next isOld isSucc
    by_cases isFresh : label = fn.fresh
    · rw [isFresh, split.succs_fresh, List.mem_singleton] at isSucc
      obtain ⟨front, back, _, before, _⟩ := split.succs_source
      have wasSucc : target ∈ fn.succs source := by
        rw [before]
        exact List.mem_append_right _ List.mem_cons_self
      rw [isFresh, update_self, isSucc]
      exact grown.succs_old source isLabel target targetOld wasSucc
    · have wasLabel := (split.mem_labels.mp isNewLabel).resolve_left isFresh
      rw [update_of_ne isFresh]
      refine grown.succs_old label wasLabel next isOld ?_
      by_cases isSource : label = source
      · subst isSource
        rw [← List.count_pos_iff, split.count_succs (oldNe next isOld)]
          at isSucc
        exact List.count_pos_iff.mp (by omega)
      · rwa [split.succs_other label isSource isFresh] at isSucc
  case preds_count =>
    intro label next isOld
    have wasCount := grown.preds_count label next isOld
    have freshCount := grown.preds_count fn.fresh next isOld
    rw [if_neg grown.fresh_not_mem] at freshCount
    by_cases isFresh : label = fn.fresh
    · subst isFresh
      rw [if_pos (split.mem_labels.mpr (Or.inl rfl)), split.succs_fresh]
      by_cases isTarget : next = target
      · subst isTarget
        rw [split.preds_target, List.count_append,
          List.count_erase_of_ne (Ne.symm sourceNe), freshCount]
        simp
      · rw [split.preds_other next isTarget (oldNe next isOld), freshCount,
          List.count_singleton]
        simp [Ne.symm isTarget]
    · have sameLabel : label ∈ labels fn'.code ↔ label ∈ labels fn.code := by
        rw [split.mem_labels, or_iff_right isFresh]
      simp only [sameLabel]
      by_cases isSource : label = source
      · subst isSource
        rw [if_pos isLabel] at wasCount ⊢
        rw [split.count_succs (oldNe next isOld), ← wasCount]
        by_cases isTarget : next = target
        · subst isTarget
          rw [split.preds_target, List.count_append, List.count_erase_self,
            if_pos rfl, List.count_singleton]
          simp [Ne.symm isFresh]
        · rw [split.preds_other next isTarget (oldNe next isOld),
            if_neg isTarget, Nat.sub_zero]
      · rw [split.succs_other label isSource isFresh, ← wasCount]
        by_cases isTarget : next = target
        · subst isTarget
          rw [split.preds_target, List.count_append,
            List.count_erase_of_ne isSource, List.count_singleton]
          simp [Ne.symm isFresh]
        · rw [split.preds_other next isTarget (oldNe next isOld)]
  case single =>
    intro label isNewLabel next isOld isOnly
    by_cases isFresh : label = fn.fresh
    · rw [isFresh, split.succs_fresh] at isOnly
      rw [isFresh, split.goes_fresh, (List.singleton_inj.mp isOnly)]
    · by_cases isSource : label = source
      · rw [isSource] at isOnly
        have length := split.succs_length
        rw [isOnly, List.length_singleton] at length
        omega
      · rw [split.succs_other label isSource isFresh] at isOnly
        rw [split.goes_other isSource isFresh]
        exact grown.single label
          ((split.mem_labels.mp isNewLabel).resolve_left isFresh) next isOld
          isOnly
  case marked =>
    intro loop isLoop pred isPred isMarked
    have headerOld := well.contains_mem loop _ (well.header_mem loop isLoop)
    rw [split.marks_eq] at isMarked
    by_cases isFresh : pred = fn.fresh
    · subst isFresh
      have isHeader : func.header loop = target := by
        by_contra notTarget
        rw [split.preds_other _ notTarget (oldNe _ headerOld)] at isPred
        exact grown.fresh_not_mem ((grown.mem_preds_iff headerOld).mp isPred).1
      rw [split.succs_fresh, isHeader, update_self]
      exact ⟨rfl, outside loop isLoop isHeader⟩
    · rw [update_of_ne isFresh] at isMarked ⊢
      have wasPred : pred ∈ fn.preds (func.header loop) := by
        by_cases isTarget : func.header loop = target
        · rw [isTarget, split.preds_target, List.mem_append,
            List.mem_singleton] at isPred
          rw [isTarget]
          exact List.mem_of_mem_erase (isPred.resolve_right isFresh)
        · rwa [split.preds_other _ isTarget (oldNe _ headerOld)] at isPred
      obtain ⟨only, isOutside⟩ := grown.marked loop isLoop pred wasPred isMarked
      have notSource : pred ≠ source := by
        rintro rfl
        rw [only, List.length_singleton] at isFork
        exact lt_irrefl 1 isFork
      rw [split.succs_other pred notSource isFresh]
      exact ⟨only, isOutside⟩
  case rests =>
    intro label isNewLabel notOld notMarked
    rw [split.marks_eq] at notMarked
    have notFresh : label ≠ fn.fresh := by
      rintro rfl
      rw [update_self] at notMarked
      cases notMarked
    rw [update_of_ne notFresh] at notMarked ⊢
    exact grown.rests label
      ((split.mem_labels.mp isNewLabel).resolve_left notFresh) notOld notMarked
  case rest_origin =>
    intro block label isRest
    obtain ⟨isOrigin, wasLabel⟩ := grown.rest_origin block label isRest
    rw [update_of_ne (grown.ne_fresh wasLabel)]
    exact ⟨isOrigin, split.mem_labels.mpr (Or.inr wasLabel)⟩

end Edge

end Msh.BoundYieldDistanceInstrumenter
