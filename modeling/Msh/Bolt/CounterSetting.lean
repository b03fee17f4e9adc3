import Msh.Bolt.CounterEntries

/-!
# Setting a counter in the blocks before its loop

The counter is set at the end of each block that is marked.  All of these lead
only to the header, from outside the loop.
-/

namespace Msh.BoundYieldDistanceInstrumenter

open Function Layout X86 LoopFunction

/-! ## One block after the other -/

section Blocks

variable {shown : PreheaderOp → Bool} {op : PreheaderOp}
  {block : Block Nat PreheaderOp}

/-- There is room for the instruction behind all that is seen of the block. -/
inductive Settable (shown : PreheaderOp → Bool) (op : PreheaderOp)
    (block : Block Nat PreheaderOp) : Prop where
  | jump {target : Nat} (isExit : block.exit = .jump target)
  | table {targets : List Nat} (isExit : block.exit = .table targets)
  | fall {last : PreheaderOp} (isExit : block.exit = .fall)
      (isLast : block.ops.getLast? = some last)
      (unseen : shown op = true → shown last = false)

theorem insertInit_spec (settable : Settable shown op block) :
    ∃ ops, insertInit op block = some ops ∧
      ops.filter shown = block.ops.filter shown ++ [op].filter shown := by
  cases settable with
  | jump isExit =>
      refine ⟨block.ops ++ [op], ?_, List.filter_append _ _⟩
      rw [insertInit, isExit]
  | table isExit =>
      refine ⟨block.ops ++ [op], ?_, List.filter_append _ _⟩
      rw [insertInit, isExit]
  | @fall last isExit isLast unseen =>
      obtain ⟨front, isSplit⟩ := List.getLast?_eq_some_iff.mp isLast
      refine ⟨front ++ [op, last], ?_, ?_⟩
      · rw [insertInit, isExit, insertBeforeLast, isLast, isSplit,
          List.dropLast_concat]
        rfl
      · rw [isSplit]
        cases isShown : shown op with
        | true => simp [unseen isShown, isShown]
        | false => simp [List.filter_cons, isShown]

/-- The instruction is put into each block of a list that is marked. -/
theorem foldlM_setInPreheader (preds : List Nat)
    (fn : FlowFunction PreheaderOp)
    (distinct : (preds.filter fn.isPseudoPreheader).Nodup)
    (settable : ∀ pred ∈ preds, fn.isPseudoPreheader pred = true →
      ∃ block, block? fn.code pred = some block ∧ Settable shown op block) :
    ∃ code, preds.foldlM (setInPreheader op) fn =
        some { fn with code := code } ∧
      labels code = labels fn.code ∧
      (EndsClosed fn.code → EndsClosed code) ∧
      (∀ label, goes code label = goes fn.code label) ∧
      ∀ label, (ops code label).filter shown =
        (ops fn.code label).filter shown ++
          if label ∈ preds ∧ fn.isPseudoPreheader label = true then
            [op].filter shown
          else [] := by
  induction preds generalizing fn with
  | nil =>
      exact ⟨fn.code, rfl, rfl, id, fun _ => rfl, fun label => by simp⟩
  | cons pred preds inductionHypothesis =>
      cases isMarked : fn.isPseudoPreheader pred with
      | false =>
          rw [List.filter_cons, isMarked, if_neg Bool.false_ne_true]
            at distinct
          obtain ⟨code, isRun, sameLabels, closed, goes_eq, ops_eq⟩ :=
            inductionHypothesis fn distinct fun other isOther =>
              settable other (List.mem_cons_of_mem _ isOther)
          refine ⟨code, ?_, sameLabels, closed, goes_eq, fun label => ?_⟩
          · rw [List.foldlM_cons, setInPreheader, isMarked]
            exact isRun
          · rw [ops_eq]
            by_cases isPred : label = pred
            · simp [isPred, isMarked]
            · simp [isPred]
      | true =>
          rw [List.filter_cons, isMarked, if_pos rfl, List.nodup_cons]
            at distinct
          obtain ⟨block, isBlock, canSet⟩ :=
            settable pred List.mem_cons_self isMarked
          obtain ⟨inserted, isInserted, insertedShown⟩ :=
            insertInit_spec canSet
          have isLabel : pred ∈ labels fn.code :=
            block?_isSome_iff.mp (Option.isSome_iff_exists.mpr ⟨block, isBlock⟩)
          have notAgain (other : Nat) (isOther : other ∈ preds)
              (otherMarked : fn.isPseudoPreheader other = true) :
              other ≠ pred := by
            rintro rfl
            exact distinct.1 (List.mem_filter.mpr ⟨isOther, otherMarked⟩)
          obtain ⟨code, isRun, sameLabels, closed, goes_eq, ops_eq⟩ :=
            inductionHypothesis
              { fn with code := changeOps fn.code pred fun _ => inserted }
              distinct.2 fun other isOther otherMarked => by
                have notPred := notAgain other isOther otherMarked
                obtain ⟨found, isFound, canSet⟩ :=
                  settable other (List.mem_cons_of_mem _ isOther) otherMarked
                refine ⟨found, ?_, canSet⟩
                have keepsLabel (block : Block Nat PreheaderOp) :
                    ({ block with ops := inserted } :
                      Block Nat PreheaderOp).label = block.label :=
                  rfl
                dsimp only
                rw [changeOps, block?_updateBlock keepsLabel, if_neg notPred,
                  isFound]
          dsimp only at sameLabels closed goes_eq ops_eq
          refine ⟨code, ?_, sameLabels.trans labels_changeOps,
            fun isClosed => closed (endsClosed_changeOps isClosed),
            fun label => (goes_eq label).trans goes_changeOps,
            fun label => ?_⟩
          · rw [List.foldlM_cons, setInPreheader, isMarked, if_pos rfl, isBlock,
              Option.bind_some, isInserted]
            exact isRun
          · rw [ops_eq, ops_changeOps isLabel]
            by_cases isPred : label = pred
            · have notLater : ¬(label ∈ preds ∧
                  fn.isPseudoPreheader label = true) :=
                fun later => notAgain label later.1 later.2 isPred
              have isNow : label ∈ pred :: preds ∧
                  fn.isPseudoPreheader label = true := by
                rw [isPred]
                exact ⟨List.mem_cons_self, isMarked⟩
              rw [if_pos isPred, if_neg notLater, if_pos isNow,
                List.append_nil, insertedShown, isPred, ops_of_block? isBlock]
            · have sameCase : (label ∈ pred :: preds ∧
                    fn.isPseudoPreheader label = true) ↔
                  label ∈ preds ∧ fn.isPseudoPreheader label = true := by
                rw [List.mem_cons, or_iff_right isPred]
              rw [if_neg isPred]
              simp only [sameCase]

end Blocks

variable {nest : LoopNest} {func : LoopFunction nest}
  {newBlock : Nat → Option Nat} {origin : Nat → Nat}
  {before : Nat → List PreheaderOp} {shown : PreheaderOp → Bool}
  {allowed : Allowed Nat PreheaderOp} {fn : FlowFunction PreheaderOp}
  {loop : Nat} {op : PreheaderOp}

/-! ## All entries of a loop -/

/-- Some block before the loop is marked. -/
theorem exists_marked (grown : Grown func newBlock origin fn)
    (well : func.WellFormed) (isLoop : IsLoop nest loop)
    (notEntry : func.fn.entry ≠ func.header loop)
    (entries : Entries func loop origin fn []) :
    (fn.preds (func.header loop)).any fn.isPseudoPreheader = true := by
  obtain ⟨source, _, isOutside, isTarget⟩ :=
    (well.entered loop isLoop).resolve_left notEntry
  obtain ⟨part, partIn, isOrigin, isSucc⟩ :=
    grown.succs_kept source _ isTarget
  have isPred : part ∈ fn.preds (func.header loop) :=
    (grown.mem_preds_iff (header_old well isLoop)).mpr ⟨partIn, isSucc⟩
  refine List.any_eq_true.mpr ⟨part, isPred, ?_⟩
  rcases entries.marked_or_inside part isPred with
    isMarked | isInside | isFork
  · exact isMarked
  · rw [isOrigin, isOutside] at isInside
    cases isInside
  · cases isFork

/-- The blocks before the loop have room for the instruction. -/
theorem exists_set (grown : Grown func newBlock origin fn)
    (well : func.WellFormed) (isLoop : IsLoop nest loop)
    (entries : Entries func loop origin fn [])
    (unseen : shown op = true → ∀ pred ∈ fn.preds (func.header loop),
      fn.isPseudoPreheader pred = true → ∀ last ∈ ops fn.code pred,
        func.isWrite loop last = false → shown last = false) :
    ∃ code, (fn.preds (func.header loop)).foldlM (setInPreheader op) fn =
        some { fn with code := code } ∧
      Grown func newBlock origin { fn with code := code } ∧
      (∀ label, goes code label = goes fn.code label) ∧
      ∀ label, (ops code label).filter shown =
        (ops fn.code label).filter shown ++
          if label ∈ fn.preds (func.header loop) ∧
              fn.isPseudoPreheader label = true then
            [op].filter shown
          else [] := by
  have headerOld := header_old well isLoop
  have distinct :
      ((fn.preds (func.header loop)).filter fn.isPseudoPreheader).Nodup := by
    refine List.nodup_iff_count_le_one.mpr fun pred => ?_
    by_cases member :
        pred ∈ (fn.preds (func.header loop)).filter fn.isPseudoPreheader
    · obtain ⟨isPred, isMarked⟩ := List.mem_filter.mp member
      have isLabel := ((grown.mem_preds_iff headerOld).mp isPred).1
      have count := grown.preds_count pred _ headerOld
      rw [if_pos isLabel, (grown.marked loop isLoop pred isPred isMarked).1,
        List.count_singleton_self] at count
      rw [← count]
      exact List.filter_sublist.count_le pred
    · rw [List.count_eq_zero.mpr member]
      exact Nat.zero_le 1
  have settable : ∀ pred ∈ fn.preds (func.header loop),
      fn.isPseudoPreheader pred = true →
      ∃ block, block? fn.code pred = some block ∧ Settable shown op block := by
    intro pred isPred isMarked
    have isLabel := ((grown.mem_preds_iff headerOld).mp isPred).1
    obtain ⟨block, isBlock⟩ :=
      Option.isSome_iff_exists.mp (block?_isSome_iff.mpr isLabel)
    have only := grown.single pred isLabel _ headerOld
      (grown.marked loop isLoop pred isPred isMarked).1
    rw [goes_of_block? isBlock] at only
    have isExit : exit? fn.code pred = some block.exit := by
      rw [exit?, isBlock, Option.map_some]
    refine ⟨block, isBlock, ?_⟩
    cases exit_eq : block.exit with
    | fall =>
        obtain ⟨last, isLast, noWrite⟩ := entries.lastKeeps pred isPred isMarked
          (isExit.trans (congrArg some exit_eq))
        refine .fall exit_eq (ops_of_block? isBlock ▸ isLast) fun isShown => ?_
        exact unseen isShown pred isPred isMarked last
          (List.mem_of_getLast? isLast) noWrite
    | jump target => exact .jump exit_eq
    | table targets => exact .table exit_eq
    | branch target =>
        rw [exit_eq] at only
        cases only
    | branchJump target other =>
        rw [exit_eq] at only
        cases only
    | leave =>
        rw [exit_eq] at only
        cases only
  obtain ⟨code, isRun, sameLabels, closed, goes_eq, ops_eq⟩ :=
    foldlM_setInPreheader (fn.preds (func.header loop)) fn distinct settable
  exact ⟨code, isRun,
    grown.changeCode sameLabels (closed grown.closed) goes_eq, goes_eq, ops_eq⟩

/-! ## The counter of a latch -/

/-- The counter is not set anywhere. -/
def NotSet (counter : RegCounter) : Allowed Nat PreheaderOp :=
  fun _ _ seen => ∀ op ∈ seen, op.isInit counter = false

section Counter

variable {state : Instrumented} {counter : RegCounter}
  (well : func.WellFormed) (isLoop : IsLoop nest loop)
  (found : func.EntriesFound state loop)
include well isLoop found

/-- Setting another counter -/
theorem insertPreheader_other
    (tracked : Tracked func state.newBlock shown allowed origin before state.fn)
    (unseen : shown op = false) (nothing : shown .noop = false) :
    ∃ fn' origin' before',
      insertPreheader (nest.contains loop) op (func.header loop) state.fn =
          some fn' ∧
        Tracked func state.newBlock shown allowed origin' before' fn' := by
  obtain ⟨fn, origin, before, isRun, tracked, entries⟩ :=
    exists_entries tracked well isLoop found nothing
  obtain ⟨code, isSet, grown, goes_eq, ops_eq⟩ :=
    @exists_set _ func _ _ shown fn loop op tracked.toGrown well isLoop
      entries fun isShown => by
        rw [unseen] at isShown
        cases isShown
  have isAny :=
    exists_marked tracked.toGrown well isLoop found.notEntry entries
  refine ⟨{ fn with code := code }, origin, before, ?_, grown, ?_⟩
  · rw [insertPreheader, isRun, Option.bind_some, if_pos isAny]
    exact isSet
  · refine tracked.reads.congr goes_eq fun label => ?_
    rw [ops_eq]
    simp [unseen]

/-- Setting the counter itself -/
theorem insertPreheader_own (inductionReg : Option Gpr)
    (isOwn : counter.loop = loop)
    (tracked : Tracked func state.newBlock (func.isShown counter)
      (NotSet counter) origin before state.fn) :
    ∃ fn' origin' before',
      insertPreheader (nest.contains loop) (.init counter inductionReg)
          (func.header loop) state.fn = some fn' ∧
        Tracked func state.newBlock (func.isShown counter)
          (SetOnEntry nest counter) origin' before' fn' := by
  obtain ⟨fn, origin, before, isRun, tracked, entries⟩ :=
    exists_entries tracked well isLoop found rfl
  have headerOld := header_old well isLoop
  have isInit :
      (PreheaderOp.init counter inductionReg).isInit counter = true :=
    decide_eq_true rfl
  have isSeen :
      [PreheaderOp.init counter inductionReg].filter (func.isShown counter) =
        [.init counter inductionReg] := by
    rw [List.filter_cons, isShown, isInit, Bool.true_or, if_pos rfl]
    rfl
  obtain ⟨code, isSet, grown, goes_eq, ops_eq⟩ :=
    @exists_set _ func _ _ (func.isShown counter) fn loop
      (.init counter inductionReg) tracked.toGrown well isLoop entries
      fun _ pred isPred isMarked last isLast noWrite => by
        -- The counter has not been set in this block.
        have isLabel := ((tracked.mem_preds_iff headerOld).mp isPred).1
        have only := tracked.single pred isLabel _ headerOld
          (tracked.marked loop isLoop pred isPred isMarked).1
        have notSet := tracked.reads.to_old pred _
          (by rw [only]; exact List.mem_singleton_self _) headerOld
        by_contra seen
        rw [Bool.not_eq_false] at seen
        have noInit := notSet last
          (List.mem_append_right _ (List.mem_filter.mpr ⟨isLast, seen⟩))
        rw [isShown, noInit, isOwn, noWrite] at seen
        cases seen
  have isAny :=
    exists_marked tracked.toGrown well isLoop found.notEntry entries
  refine ⟨{ fn with code := code }, origin, before, ?_, grown, ?_⟩
  · rw [insertPreheader, isRun, Option.bind_some, if_pos isAny]
    exact isSet
  · rw [isSeen] at ops_eq
    refine tracked.reads.append goes_eq ops_eq
      (fun label target isTarget isNew => if_neg ?_)
      fun label target isTarget isOld seen notSet => ?_
    · -- A marked block leads to the header.
      rintro ⟨isPred, isMarked⟩
      have isLabel := ((tracked.mem_preds_iff headerOld).mp isPred).1
      rw [tracked.single label isLabel _ headerOld
        (tracked.marked loop isLoop label isPred isMarked).1,
        List.mem_singleton, Option.some_inj] at isTarget
      exact isNew (isTarget ▸ headerOld)
    · by_cases isMarked : label ∈ fn.preds (func.header loop) ∧
          fn.isPseudoPreheader label = true
      · obtain ⟨only, isOutside⟩ :=
          tracked.marked loop isLoop label isMarked.1 isMarked.2
        have isLabel := ((tracked.mem_preds_iff headerOld).mp isMarked.1).1
        rw [tracked.single label isLabel _ headerOld only, List.mem_singleton,
          Option.some_inj] at isTarget
        have isEntered :
            enters nest counter.loop (some (origin label)) target := by
          rw [isTarget, isOwn]
          refine ⟨well.header_mem loop isLoop, fun block isBlock => ?_⟩
          rw [← Option.some_inj.mp isBlock]
          exact isOutside
        rw [if_pos isMarked]
        exact ⟨fun _ => ⟨seen, _, rfl, isInit, notSet⟩,
          fun notEntered => absurd isEntered notEntered⟩
      · rw [if_neg isMarked, List.append_nil]
        refine ⟨fun isEntered => absurd ?_ isMarked, fun _ => notSet⟩
        -- Each block that leads into the loop from outside is marked.
        obtain ⟨targetIn, sourceOut⟩ := isEntered
        rw [isOwn] at targetIn sourceOut
        have isOutside := sourceOut _ rfl
        have isHeader := well.enters_header loop (origin label) target
          (tracked.goes_old label target isTarget isOld) isOutside targetIn
        rw [isHeader] at isTarget
        have isPred := entries.known label isTarget
          (tracked.toGrown.outside well isOutside)
        refine ⟨isPred, ?_⟩
        rcases entries.marked_or_inside label isPred with
          isMarked | isInside | isFork
        · exact isMarked
        · rw [isOutside] at isInside
          cases isInside
        · cases isFork

end Counter

end Msh.BoundYieldDistanceInstrumenter
