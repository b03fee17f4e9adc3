import Msh.Bolt.EntryEdges

/-!
# Out of a loop

The edges out of a loop are split, and then the pops go to the blocks behind
the loop.
-/

namespace Msh.LoopOptInstrumenter

open Function Layout FlowFunction

variable {Op : Type} {fn : FlowFunction Op} {loops done later : List BinaryLoop}
  {loop : BinaryLoop} {onEdge : Nat → Nat → List (LoopOp Op)}
  {pre post : Nat → List (LoopOp Op)} {func func' : FlowFunction (LoopOp Op)}
  {source target mid next : Nat}

/-- The edges out of the loop that get a block: their target has other
predecessors. -/
structure ExitWanted (fn : FlowFunction Op) (loop : BinaryLoop)
    (source target : Nat) : Prop where
  inside : source ∈ loop.blocks
  outside : target ∉ loop.blocks
  notSingle : (fn.preds target).length ≠ 1

namespace Turn

variable (turn : Turn fn loops done loop later)
  (matching : Linked fn (done ++ [loop]) func)
include turn matching

/-- A block of the loop that leads to another one on an edge leads out. -/
theorem outside_of_isMid (sourceIn : source ∈ loop.blocks)
    (isMid : IsMid fn func source target mid) : target ∉ loop.blocks := by
  intro targetIn
  obtain ⟨before, isDone, crosses⟩ :=
    matching.mid_crosses source target mid isMid
  exact turn.not_crosses sourceIn targetIn isDone crosses

/-- A way out of the loop -/
theorem next_outside (sourceIn : source ∈ loop.blocks)
    (isNext : some next ∈ goes func.code source)
    (nextOut : next ∉ loop.blocks) :
    ∃ target, some target ∈ goes fn.code source ∧ target ∉ loop.blocks := by
  rcases matching.next_cases (turn.block_label sourceIn) isNext with
    isTarget | ⟨target, isMid⟩
  · exact ⟨next, isTarget, nextOut⟩
  · exact ⟨target, isMid.isTarget, turn.outside_of_isMid matching sourceIn isMid⟩

theorem mem_exitingBlocks :
    source ∈ loop.exitingBlocks func ↔
      source ∈ loop.blocks ∧
        ∃ target, some target ∈ goes fn.code source ∧
          target ∉ loop.blocks := by
  rw [BinaryLoop.exitingBlocks, List.mem_filter, List.any_eq_true]
  refine and_congr_right fun sourceIn => ?_
  have sourceLabel := turn.block_label sourceIn
  have sourceNew := matching.labels_mem _ sourceLabel
  constructor
  · rintro ⟨next, isSucc, isOut⟩
    rw [Bool.not_eq_true', BinaryLoop.contains_eq_false_iff] at isOut
    exact turn.next_outside matching sourceIn
      ((matching.mem_succs_iff sourceNew).mp isSucc) isOut
  · rintro ⟨target, isTarget, targetOut⟩
    obtain ⟨way, isNext, leads⟩ :=
      exists_right_of_forall₂ (matching.leads source sourceLabel) isTarget
    cases leads with
    | direct =>
        refine ⟨target, (matching.mem_succs_iff sourceNew).mpr isNext, ?_⟩
        simpa using targetOut
    | @mid _ mid isMid =>
        refine ⟨mid, (matching.mem_succs_iff sourceNew).mpr isNext, ?_⟩
        rw [Bool.not_eq_true', BinaryLoop.contains_eq_false_iff]
        exact fun midIn => isMid.mid_new (turn.block_label midIn)

omit matching in
theorem exitingBlocks_nodup : (loop.exitingBlocks func).Nodup :=
  (turn.well.blocks_nodup loop turn.loop_mem).filter _

theorem exit_pending :
    Pending fn (ExitWanted fn loop)
      (loop.exitEdges func (loop.exitingBlocks func)) func := by
  refine ⟨fun edge member => ?_,
    fun source sourceIn target targetIn isWanted => ?_⟩
  · obtain ⟨block, isExiting, isEdge⟩ := List.mem_flatMap.mp member
    obtain ⟨succ, isSucc, rfl⟩ := List.mem_map.mp isEdge
    rw [List.mem_filter, Bool.and_eq_true, decide_eq_true_iff,
      Bool.not_eq_true', BinaryLoop.contains_eq_false_iff] at isSucc
    obtain ⟨isSucc, succOut, notSingle⟩ := isSucc
    have blockIn := ((turn.mem_exitingBlocks matching).mp isExiting).1
    have blockLabel := turn.block_label blockIn
    have isNext :=
      (matching.mem_succs_iff (matching.labels_mem _ blockLabel)).mp isSucc
    rcases matching.next_cases blockLabel isNext with isTarget | ⟨_, isMid⟩
    · have succLabel := turn.well.targets_mem _ _ isTarget
      rw [matching.preds_length _ succLabel] at notSingle
      exact ⟨blockLabel, succLabel, blockIn, succOut, notSingle⟩
    · rw [isMid.preds_eq] at notSingle
      exact absurd rfl notSingle
  · obtain ⟨inside, outside, notSingle⟩ := isWanted
    have sourceNew := matching.labels_mem _ sourceIn
    have succCount : ((func.succs source).filter fun succ =>
        !loop.contains succ && decide ((func.preds succ).length ≠ 1)).count
          target = (func.succs source).count target := by
      refine List.count_filter ?_
      rw [matching.preds_length _ targetIn]
      simp [outside, notSingle]
    rw [BinaryLoop.exitEdges, count_flatMap_pair, succCount,
      matching.succs_count sourceNew]
    by_cases isNext : some target ∈ goes func.code source
    · have isExiting : source ∈ loop.exitingBlocks func :=
        (turn.mem_exitingBlocks matching).mpr
          ⟨inside, turn.next_outside matching inside isNext outside⟩
      rw [List.count_eq_one_of_mem turn.exitingBlocks_nodup isExiting,
        Nat.one_mul]
    · rw [List.count_eq_zero.mpr isNext, Nat.mul_zero]

omit matching in
/-- The branch to the exit is the last one. -/
theorem exit_finds (settled : ∀ before ∈ done, Settled fn before func)
    (sourceIn : source ∈ labels fn.code) (targetIn : target ∈ labels fn.code)
    (isWanted : ExitWanted fn loop source target)
    (isNext : some target ∈ goes func.code source) :
    Finds fn source target Exit.redirectLast? := by
  refine .last fun other isBranch => ?_
  obtain ⟨entered, isDone, enters⟩ := turn.splittable.exit_last done loop later
    turn.order source isWanted.inside target other isBranch isWanted.outside
    isWanted.notSingle
  rw [BinaryLoop.enters_iff] at enters
  have single := (settled entered isDone).enters source sourceIn target targetIn
    isNext enters.1 enters.2
  rw [turn.well.succs_eq source sourceIn, goes_of_exit? isBranch] at single
  simp [Exit.targets] at single

end Turn

/-- All edges out of the loop that need a block have one. -/
def ExitsSplit (fn : FlowFunction Op) (loop : BinaryLoop)
    (func : FlowFunction (LoopOp Op)) : Prop :=
  ∀ source ∈ loop.blocks, ∀ target ∈ labels fn.code, target ∉ loop.blocks →
    some target ∈ goes func.code source → (fn.preds target).length = 1

/-- Splitting the edges out of the loop -/
theorem Turn.patchExits (turn : Turn fn loops done loop later)
    (matching : Matches fn (done ++ [loop]) onEdge pre post func)
    (settled : ∀ before ∈ done, Settled fn before func) :
    ∃ func', (loop.exitEdges func (loop.exitingBlocks func)).foldlM
        (addMidBlock Exit.redirectLast? false .noop) func = some func' ∧
      Matches fn (done ++ [loop]) onEdge pre post func' ∧
      ExitsSplit fn loop func' ∧
      ∀ source ∈ labels fn.code, ∀ target ∈ labels fn.code,
        some target ∈ goes func'.code source →
          some target ∈ goes func.code source := by
  have crosses (source target : Nat)
      (isWanted : ExitWanted fn loop source target) :
      ∃ border ∈ done ++ [loop], border.crosses source target :=
    ⟨loop, List.mem_append_right _ (List.mem_singleton_self _),
      Or.inl (BinaryLoop.leaves_iff.mpr ⟨isWanted.inside, isWanted.outside⟩)⟩
  obtain ⟨func', isRun, matching', done', less⟩ :=
    matching.patchEdges false turn.well.targets_mem turn.well.noTable crosses
      (turn.exit_pending matching.toLinked)
      fun source sourceIn target targetIn isWanted isNext =>
        turn.exit_finds settled sourceIn targetIn isWanted isNext
  refine ⟨func', isRun, matching', ?_, less⟩
  intro source inside target targetIn outside isNext
  by_contra notSingle
  exact done' source (turn.block_label inside) target targetIn
    ⟨inside, outside, notSingle⟩ isNext

namespace Turn

variable (turn : Turn fn loops done loop later)
  (matching : Linked fn (done ++ [loop]) func)
  (single : ExitsSplit fn loop func) {exiting : List Nat}
  (mem_exiting : ∀ source, source ∈ exiting ↔ source ∈ loop.blocks ∧
    ∃ target, some target ∈ goes fn.code source ∧ target ∉ loop.blocks)
include turn matching mem_exiting

theorem mem_dedicatedExitBlocks :
    next ∈ loop.dedicatedExitBlocks func exiting ↔
      next ∉ loop.blocks ∧
        ∃ source ∈ loop.blocks, some next ∈ goes func.code source := by
  rw [BinaryLoop.dedicatedExitBlocks, List.mem_flatMap]
  constructor
  · rintro ⟨source, isExiting, isSucc⟩
    rw [List.mem_filter, Bool.not_eq_true',
      BinaryLoop.contains_eq_false_iff] at isSucc
    have sourceIn := ((mem_exiting source).mp isExiting).1
    have sourceNew := matching.labels_mem _ (turn.block_label sourceIn)
    exact ⟨isSucc.2, source, sourceIn,
      (matching.mem_succs_iff sourceNew).mp isSucc.1⟩
  · rintro ⟨nextOut, source, sourceIn, isNext⟩
    have sourceNew := matching.labels_mem _ (turn.block_label sourceIn)
    refine ⟨source, (mem_exiting source).mpr ⟨sourceIn,
      turn.next_outside matching sourceIn isNext nextOut⟩, ?_⟩
    rw [List.mem_filter, Bool.not_eq_true', BinaryLoop.contains_eq_false_iff]
    exact ⟨(matching.mem_succs_iff sourceNew).mpr isNext, nextOut⟩

include single

/-- A block behind the loop has one predecessor. -/
theorem preds_of_dedicated
    (isDedicated : next ∈ loop.dedicatedExitBlocks func exiting) :
    (func.preds next).length = 1 := by
  obtain ⟨nextOut, source, sourceIn, isNext⟩ :=
    (turn.mem_dedicatedExitBlocks matching mem_exiting).mp isDedicated
  rcases matching.next_cases (turn.block_label sourceIn) isNext with
    isTarget | ⟨_, isMid⟩
  · have nextLabel := turn.well.targets_mem _ _ isTarget
    rw [matching.preds_length _ nextLabel]
    exact single source sourceIn next nextLabel nextOut isNext
  · rw [isMid.preds_eq]
    rfl

/-- What leads to a block behind the loop is a block of the loop. -/
theorem inside_of_dedicated
    (isDedicated : next ∈ loop.dedicatedExitBlocks func exiting)
    (isPred : source ∈ func.preds next) : source ∈ loop.blocks := by
  obtain ⟨only, isOnly⟩ := List.length_eq_one_iff.mp
    (turn.preds_of_dedicated matching single mem_exiting isDedicated)
  obtain ⟨_, exit, exitIn, isNext⟩ :=
    (turn.mem_dedicatedExitBlocks matching mem_exiting).mp isDedicated
  have exitNew := matching.labels_mem _ (turn.block_label exitIn)
  have isExit := (matching.mem_preds_iff exitNew
    (matching.next_mem turn.well.targets_mem isNext)).mpr isNext
  rw [isOnly, List.mem_singleton] at isPred isExit
  rw [isPred, ← isExit]
  exact exitIn

theorem dedicatedExitBlocks_nodup (isNodup : exiting.Nodup) :
    (loop.dedicatedExitBlocks func exiting).Nodup := by
  have sourceNew {source : Nat} (isExiting : source ∈ exiting) :
      source ∈ labels func.code :=
    matching.labels_mem _ (turn.block_label ((mem_exiting source).mp isExiting).1)
  have dedicated {source next : Nat} (isExiting : source ∈ exiting)
      (isSucc : next ∈ (func.succs source).filter fun succ =>
        !loop.contains succ) :
      next ∈ loop.dedicatedExitBlocks func exiting :=
    List.mem_flatMap.mpr ⟨source, isExiting, isSucc⟩
  have isNext {source next : Nat} (isExiting : source ∈ exiting)
      (isSucc : next ∈ (func.succs source).filter fun succ =>
        !loop.contains succ) : some next ∈ goes func.code source :=
    (matching.mem_succs_iff (sourceNew isExiting)).mp
      (List.mem_filter.mp isSucc).1
  rw [BinaryLoop.dedicatedExitBlocks, List.nodup_flatMap]
  constructor
  · intro source isExiting
    refine List.nodup_iff_count_le_one.mpr fun next => ?_
    by_cases isSucc : next ∈ (func.succs source).filter fun succ =>
      !loop.contains succ
    · have fewer : ((func.succs source).filter fun succ =>
          !loop.contains succ).count next ≤ (func.succs source).count next :=
        List.filter_sublist.count_le next
      have length := turn.preds_of_dedicated matching single mem_exiting
        (dedicated isExiting isSucc)
      have nextNew := matching.next_mem turn.well.targets_mem
        (isNext isExiting isSucc)
      rw [matching.succs_count (sourceNew isExiting),
        ← matching.preds_count _ (sourceNew isExiting) _ nextNew] at fewer
      exact fewer.trans (length ▸ List.count_le_length)
    · rw [List.count_eq_zero.mpr isSucc]
      exact Nat.zero_le _
  · refine List.Pairwise.imp_of_mem ?_ isNodup
    intro first second firstIn secondIn different next inFirst inSecond
    obtain ⟨only, isOnly⟩ := List.length_eq_one_iff.mp
      (turn.preds_of_dedicated matching single mem_exiting
        (dedicated firstIn inFirst))
    have nextNew := matching.next_mem turn.well.targets_mem
      (isNext firstIn inFirst)
    have ofFirst := (matching.mem_preds_iff (sourceNew firstIn) nextNew).mpr
      (isNext firstIn inFirst)
    have ofSecond := (matching.mem_preds_iff (sourceNew secondIn) nextNew).mpr
      (isNext secondIn inSecond)
    rw [isOnly, List.mem_singleton] at ofFirst ofSecond
    exact different (ofFirst.trans ofSecond.symm)

end Turn

/-- The pops stand on the edges out of the loop. -/
theorem Turn.pops (turn : Turn fn loops done loop later)
    (matching : Matches fn (done ++ [loop]) onEdge pre post func)
    (single : ExitsSplit fn loop func) {exiting : List Nat}
    (mem_exiting : ∀ source, source ∈ exiting ↔ source ∈ loop.blocks ∧
      ∃ target, some target ∈ goes fn.code source ∧ target ∉ loop.blocks)
    (isNodup : exiting.Nodup) :
    Matches fn (done ++ [loop])
      (fun source target =>
        (if loop.leaves source target then [loop.pop] else []) ++
          onEdge source target)
      (fun label =>
        (if label ∈ loop.dedicatedExitBlocks func exiting then [loop.pop]
          else []) ++ pre label)
      post
      (changeBlocks (loop.pop :: ·) func
        (loop.dedicatedExitBlocks func exiting)) := by
  have linked := matching.toLinked
  have mem_dedicated (next : Nat) :
      next ∈ loop.dedicatedExitBlocks func exiting ↔
        next ∉ loop.blocks ∧
          ∃ source ∈ loop.blocks, some next ∈ goes func.code source :=
    turn.mem_dedicatedExitBlocks linked mem_exiting
  have inside (source next : Nat)
      (isDedicated : next ∈ loop.dedicatedExitBlocks func exiting)
      (isPred : source ∈ func.preds next) : source ∈ loop.blocks :=
    turn.inside_of_dedicated linked single mem_exiting isDedicated isPred
  have areLabels : ∀ block ∈ loop.dedicatedExitBlocks func exiting,
      block ∈ labels func.code := by
    intro block isDedicated
    obtain ⟨_, source, _, isNext⟩ := (mem_dedicated block).mp isDedicated
    exact matching.next_mem turn.well.targets_mem isNext
  have dedicatedNodup :=
    turn.dedicatedExitBlocks_nodup linked single mem_exiting isNodup
  -- A block that leaves the loop has nothing at its end.
  have noPost (source target : Nat) (sourceIn : source ∈ loop.blocks)
      (isTarget : some target ∈ goes fn.code source)
      (targetOut : target ∉ loop.blocks) : post source = [] := by
    by_contra notEmpty
    obtain ⟨only, isOnly⟩ :=
      matching.post_single source (turn.block_label sourceIn) notEmpty
    exact turn.leaving_succs sourceIn isTarget targetOut isOnly
  refine ⟨linked.changeBlocks, ?ops_eq, ?mid_edge, ?direct_edge, ?pre_single,
    matching.post_single⟩
  case ops_eq =>
    intro label isLabel
    rw [ops_changeBlocks dedicatedNodup areLabels]
    by_cases isDedicated : label ∈ loop.dedicatedExitBlocks func exiting
    · rw [if_pos isDedicated, if_pos isDedicated,
        List.filter_cons_of_pos rfl, matching.ops_eq label isLabel]
      rfl
    · rw [if_neg isDedicated, if_neg isDedicated, List.nil_append]
      exact matching.ops_eq label isLabel
  case mid_edge =>
    intro label target mid isMid
    have wasMid := isMid_changeBlocks.mp isMid
    have edge := matching.mid_edge label target mid wasMid
    have midOut : mid ∉ loop.blocks := fun midIn =>
      wasMid.mid_new (turn.block_label midIn)
    -- Control comes to the target from the new block only.
    have notDedicated : target ∉ loop.dedicatedExitBlocks func exiting := by
      intro isDedicated
      have targetLabel := turn.well.targets_mem _ _ wasMid.isTarget
      have toTarget : some target ∈ goes func.code mid := by
        rw [wasMid.goes_eq]
        exact List.mem_singleton_self _
      exact midOut (inside mid target isDedicated
        ((matching.mem_preds_iff wasMid.mid_mem
          (matching.labels_mem _ targetLabel)).mpr toTarget))
    rw [ops_changeBlocks dedicatedNodup areLabels, if_neg notDedicated,
      List.nil_append]
    by_cases isDedicated : mid ∈ loop.dedicatedExitBlocks func exiting
    · have labelIn : label ∈ loop.blocks := by
        refine inside label mid isDedicated ?_
        rw [wasMid.preds_eq]
        exact List.mem_singleton_self _
      have targetOut := turn.outside_of_isMid linked labelIn wasMid
      have leaves : loop.leaves label target = true :=
        BinaryLoop.leaves_iff.mpr ⟨labelIn, targetOut⟩
      have nothing := noPost label target labelIn wasMid.isTarget targetOut
      rw [nothing, List.nil_append] at edge
      rw [if_pos isDedicated, if_pos leaves, nothing, List.nil_append,
        List.filter_cons_of_pos rfl, List.cons_append, edge]
      rfl
    · have notLeaves : ¬loop.leaves label target = true := by
        rw [BinaryLoop.leaves_iff]
        rintro ⟨labelIn, _⟩
        exact isDedicated ((mem_dedicated mid).mpr
          ⟨midOut, label, labelIn, wasMid.goes_label⟩)
      rw [if_neg isDedicated, if_neg notLeaves, List.nil_append]
      exact edge
  case direct_edge =>
    intro label isLabel target targetIn isNext
    rw [goes_changeBlocks] at isNext
    have isTarget := matching.isTarget_of_next isLabel targetIn isNext
    have edge := matching.direct_edge label isLabel target targetIn isNext
    by_cases isDedicated : target ∈ loop.dedicatedExitBlocks func exiting
    · have isPred := (matching.mem_preds_iff (matching.labels_mem _ isLabel)
        (matching.labels_mem _ targetIn)).mpr isNext
      have labelIn := inside label target isDedicated isPred
      have targetOut := ((mem_dedicated target).mp isDedicated).1
      have leaves : loop.leaves label target = true :=
        BinaryLoop.leaves_iff.mpr ⟨labelIn, targetOut⟩
      have nothing := noPost label target labelIn isTarget targetOut
      rw [nothing, List.nil_append] at edge
      rw [if_pos isDedicated, if_pos leaves, nothing, List.nil_append, edge]
    · have notLeaves : ¬loop.leaves label target = true := by
        rw [BinaryLoop.leaves_iff]
        rintro ⟨labelIn, targetOut⟩
        exact isDedicated ((mem_dedicated target).mpr
          ⟨targetOut, label, labelIn, isNext⟩)
      rw [if_neg isDedicated, if_neg notLeaves, List.nil_append,
        List.nil_append]
      exact edge
  case pre_single =>
    intro target targetIn notEmpty
    by_cases isDedicated : target ∈ loop.dedicatedExitBlocks func exiting
    · have single := turn.preds_of_dedicated linked single mem_exiting
        isDedicated
      rw [matching.preds_length _ targetIn] at single
      refine ⟨single, ?_⟩
      rintro rfl
      obtain ⟨_, source, sourceIn, isNext⟩ :=
        (mem_dedicated fn.entry).mp isDedicated
      have isTarget := matching.isTarget_of_next (turn.block_label sourceIn)
        targetIn isNext
      exact turn.splittable.entry_exit loop turn.loop_mem source sourceIn
        isTarget single
    · rw [if_neg isDedicated, List.nil_append] at notEmpty
      exact matching.pre_single target targetIn notEmpty

end Msh.LoopOptInstrumenter
