import Msh.Bolt.LoopBorder

/-!
# Into a loop

The edges into a loop are split, and then the pushes go to the blocks before
the header.
-/

namespace Msh.LoopOptInstrumenter

open Function Layout FlowFunction

variable {Op : Type} {fn : FlowFunction Op} {loops done later : List BinaryLoop}
  {loop : BinaryLoop} {onEdge : Nat → Nat → List (LoopOp Op)}
  {pre post : Nat → List (LoopOp Op)} {func func' : FlowFunction (LoopOp Op)}
  {source target mid : Nat}

namespace Linked

variable (matching : Linked fn loops func)
include matching

theorem mem_succs_iff (isLabel : source ∈ labels func.code) :
    target ∈ func.succs source ↔ some target ∈ goes func.code source := by
  rw [matching.succs_eq source isLabel]
  exact mem_filterMap_id

theorem succs_mid (isMid : IsMid fn func source target mid) :
    func.succs mid = [target] := by
  rw [matching.succs_eq mid isMid.mid_mem, isMid.goes_eq]
  rfl

/-- Splitting does not change how many successors a block has. -/
theorem succs_length
    (succs_eq : fn.succs source = (goes fn.code source).filterMap id)
    (isLabel : source ∈ labels fn.code) :
    (func.succs source).length = (fn.succs source).length := by
  rw [matching.succs_eq source (matching.labels_mem _ isLabel), succs_eq]
  exact length_filterMap_of_leads (matching.leads source isLabel)

theorem succs_count (isLabel : source ∈ labels func.code) :
    (func.succs source).count target =
      (goes func.code source).count (some target) := by
  rw [matching.succs_eq source isLabel]
  exact count_filterMap_id

end Linked

/-- The edges into the loop that get a block: their source has other
successors. -/
structure EntryWanted (fn : FlowFunction Op) (loop : BinaryLoop)
    (source target : Nat) : Prop where
  outside : source ∉ loop.blocks
  isHeader : target = loop.header
  notSingle : (fn.succs source).length ≠ 1

namespace Turn

variable (turn : Turn fn loops done loop later)
  (matching : Linked fn (done ++ [loop]) func)
  (settled : ∀ before ∈ done, Settled fn before func)
include turn matching

/-- A way to a block of the loop from another block -/
theorem goes_header (sourceIn : source ∈ labels fn.code)
    (sourceOut : source ∉ loop.blocks) (targetIn : target ∈ loop.blocks)
    (isNext : some target ∈ goes func.code source) : target = loop.header :=
  turn.eq_header
    (matching.isTarget_of_next sourceIn (turn.block_label targetIn) isNext)
    sourceOut targetIn

include settled

theorem header_count (sourceIn : source ∈ labels fn.code)
    (sourceOut : source ∉ loop.blocks) :
    (goes func.code source).count (some loop.header) ≤ 1 := by
  by_contra twice
  have isNext : some loop.header ∈ goes func.code source :=
    List.count_pos_iff.mp (by omega)
  have isTarget :=
    matching.isTarget_of_next sourceIn turn.header_label isNext
  have fewer := count_le_of_leads turn.header_label
    (matching.leads source sourceIn)
  obtain ⟨left, isDone, leaves⟩ := turn.splittable.header_once done loop later
    turn.order source sourceOut (by omega)
  rw [BinaryLoop.leaves_iff] at leaves
  refine turn.header_preds sourceIn isTarget sourceOut ?_
  exact (settled left isDone).leaves source sourceIn loop.header
    turn.header_label isNext leaves.1 leaves.2

theorem entry_pending :
    Pending fn (EntryWanted fn loop) (loop.entryEdges func) func := by
  refine ⟨fun edge member => ?_,
    fun source sourceIn target targetIn isWanted => ?_⟩
  · obtain ⟨pred, isPred, isEdge⟩ := List.mem_flatMap.mp member
    obtain ⟨succ, isSucc, rfl⟩ := List.mem_map.mp isEdge
    rw [List.mem_filter, Bool.and_eq_true, decide_eq_true_iff,
      BinaryLoop.contains_iff] at isSucc
    obtain ⟨isSucc, succIn, notSingle⟩ := isSucc
    rw [BinaryLoop.loopPredecessors, List.mem_filter, Bool.not_eq_true',
      BinaryLoop.contains_eq_false_iff] at isPred
    have predNew := matching.preds_mem _
      (matching.labels_mem _ turn.header_label) _ isPred.1
    have predIn : pred ∈ labels fn.code := by
      by_contra notLabel
      obtain ⟨label, target, isMid⟩ := matching.mids pred predNew notLabel
      rw [matching.succs_mid isMid] at notSingle
      exact notSingle rfl
    have isNext := (matching.mem_succs_iff predNew).mp isSucc
    rw [matching.succs_length (turn.well.succs_eq _ predIn) predIn] at notSingle
    exact ⟨predIn, turn.block_label succIn, isPred.2,
      turn.goes_header matching predIn isPred.2 succIn isNext, notSingle⟩
  · obtain ⟨outside, rfl, notSingle⟩ := isWanted
    have sourceNew := matching.labels_mem _ sourceIn
    have headerNew := matching.labels_mem _ targetIn
    have atMost := turn.header_count matching settled sourceIn outside
    have headerIn := turn.well.header_mem loop turn.loop_mem
    have predCount : (loop.loopPredecessors func).count source =
        (func.preds loop.header).count source :=
      List.count_filter (by simpa using outside)
    have succCount : ((func.succs source).filter fun succ =>
        loop.contains succ && decide ((func.succs source).length ≠ 1)).count
          loop.header = (func.succs source).count loop.header := by
      refine List.count_filter ?_
      rw [matching.succs_length (turn.well.succs_eq _ sourceIn) sourceIn]
      simp [headerIn, notSingle]
    rw [BinaryLoop.entryEdges, count_flatMap_pair, predCount, succCount,
      matching.preds_count _ sourceNew _ headerNew,
      matching.succs_count sourceNew]
    generalize (goes func.code source).count (some loop.header) = ways at *
    obtain rfl | rfl : ways = 0 ∨ ways = 1 := by omega
    · rfl
    · rfl

/-- The search for the branch to the header finds it. -/
theorem entry_finds (sourceIn : source ∈ labels fn.code)
    (isWanted : EntryWanted fn loop source target)
    (isNext : some target ∈ goes func.code source) :
    Finds fn source target Exit.redirect? := by
  refine .any fun isBoth => ?_
  obtain ⟨outside, rfl, notSingle⟩ := isWanted
  have isTarget :=
    matching.isTarget_of_next sourceIn turn.header_label isNext
  have twice : 1 < (goes fn.code source).count (some loop.header) := by
    rw [goes_of_exit? isBoth]
    simp [Exit.targets]
  obtain ⟨left, isDone, leaves⟩ := turn.splittable.header_once done loop later
    turn.order source outside twice
  rw [BinaryLoop.leaves_iff] at leaves
  refine turn.header_preds sourceIn isTarget outside ?_
  exact (settled left isDone).leaves source sourceIn loop.header
    turn.header_label isNext leaves.1 leaves.2

end Turn

/-- All edges into the loop that need a block have one. -/
def EntriesSplit (fn : FlowFunction Op) (loop : BinaryLoop)
    (func : FlowFunction (LoopOp Op)) : Prop :=
  ∀ source ∈ labels fn.code, source ∉ loop.blocks →
    some loop.header ∈ goes func.code source → (fn.succs source).length = 1

/-- Splitting the edges into the loop -/
theorem Turn.patchEntries (turn : Turn fn loops done loop later)
    (matching : Matches fn (done ++ [loop]) onEdge pre post func)
    (settled : ∀ before ∈ done, Settled fn before func) :
    ∃ func', (loop.entryEdges func).foldlM
        (addMidBlock Exit.redirect? true .noop) func = some func' ∧
      Matches fn (done ++ [loop]) onEdge pre post func' ∧
      EntriesSplit fn loop func' ∧
      ∀ source ∈ labels fn.code, ∀ target ∈ labels fn.code,
        some target ∈ goes func'.code source →
          some target ∈ goes func.code source := by
  have headerIn := turn.well.header_mem loop turn.loop_mem
  have crosses (source target : Nat)
      (isWanted : EntryWanted fn loop source target) :
      ∃ border ∈ done ++ [loop], border.crosses source target := by
    have targetIn : target ∈ loop.blocks := isWanted.isHeader ▸ headerIn
    exact ⟨loop, List.mem_append_right _ (List.mem_singleton_self _),
      Or.inr (BinaryLoop.enters_iff.mpr ⟨isWanted.outside, targetIn⟩)⟩
  obtain ⟨func', isRun, matching', done', less⟩ :=
    matching.patchEdges true turn.well.targets_mem turn.well.noTable crosses
      (turn.entry_pending matching.toLinked settled)
      fun source sourceIn target targetIn isWanted isNext =>
        turn.entry_finds matching.toLinked settled sourceIn isWanted isNext
  refine ⟨func', isRun, matching', ?_, less⟩
  intro source sourceIn outside isNext
  by_contra notSingle
  exact done' source sourceIn loop.header turn.header_label
    ⟨outside, rfl, notSingle⟩ isNext

namespace Turn

variable (turn : Turn fn loops done loop later)
  (matching : Linked fn (done ++ [loop]) func)
include turn matching

theorem mem_loopPredecessors :
    source ∈ loop.loopPredecessors func ↔
      source ∈ labels func.code ∧ source ∉ loop.blocks ∧
        some loop.header ∈ goes func.code source := by
  have headerNew := matching.labels_mem _ turn.header_label
  rw [BinaryLoop.loopPredecessors, List.mem_filter, Bool.not_eq_true',
    BinaryLoop.contains_eq_false_iff]
  constructor
  · rintro ⟨isPred, outside⟩
    have sourceNew := matching.preds_mem _ headerNew _ isPred
    exact ⟨sourceNew, outside,
      (matching.mem_preds_iff sourceNew headerNew).mp isPred⟩
  · rintro ⟨sourceNew, outside, isNext⟩
    exact ⟨(matching.mem_preds_iff sourceNew headerNew).mpr isNext, outside⟩

variable (single : EntriesSplit fn loop func)
include single

/-- A block before the loop leads there only. -/
theorem succs_of_loopPredecessors (sourceIn : source ∈ labels fn.code)
    (isPred : source ∈ loop.loopPredecessors func) :
    func.succs source = [loop.header] := by
  obtain ⟨sourceNew, outside, isNext⟩ :=
    (turn.mem_loopPredecessors matching).mp isPred
  have length := matching.succs_length (turn.well.succs_eq _ sourceIn) sourceIn
  rw [single source sourceIn outside isNext] at length
  obtain ⟨only, isOnly⟩ := List.length_eq_one_iff.mp length
  have isSucc := (matching.mem_succs_iff sourceNew).mpr isNext
  rw [isOnly, List.mem_singleton] at isSucc
  rw [isOnly, isSucc]

theorem loopPredecessors_nodup : (loop.loopPredecessors func).Nodup := by
  have headerNew := matching.labels_mem _ turn.header_label
  refine List.nodup_iff_count_le_one.mpr fun source => ?_
  by_cases isPred : source ∈ loop.loopPredecessors func
  · obtain ⟨sourceNew, outside, isNext⟩ :=
      (turn.mem_loopPredecessors matching).mp isPred
    have fewer : (loop.loopPredecessors func).count source ≤
        (func.preds loop.header).count source :=
      List.filter_sublist.count_le source
    refine fewer.trans ?_
    rw [matching.preds_count _ sourceNew _ headerNew]
    by_cases sourceIn : source ∈ labels fn.code
    · have only := turn.succs_of_loopPredecessors matching single sourceIn isPred
      rw [← matching.succs_count sourceNew, only]
      exact List.count_le_length
    · obtain ⟨label, target, isMid⟩ := matching.mids source sourceNew sourceIn
      rw [isMid.goes_eq]
      exact List.count_le_length
  · rw [List.count_eq_zero.mpr isPred]
    exact Nat.zero_le _

/-- No block lies behind a block before the loop. -/
theorem not_isMid_of_loopPredecessors
    (isPred : source ∈ loop.loopPredecessors func) :
    ¬IsMid fn func source target mid := by
  intro isMid
  have only := turn.succs_of_loopPredecessors matching single isMid.isLabel
    isPred
  have isSucc := (matching.mem_succs_iff
    (matching.labels_mem _ isMid.isLabel)).mpr isMid.goes_label
  rw [only, List.mem_singleton] at isSucc
  exact isMid.mid_new (isSucc ▸ turn.header_label)

end Turn

/-- The pushes stand on the edges into the loop. -/
theorem Turn.pushes (turn : Turn fn loops done loop later)
    (matching : Matches fn (done ++ [loop]) onEdge pre post func)
    (single : EntriesSplit fn loop func) :
    Matches fn (done ++ [loop])
      (fun source target => onEdge source target ++
        if loop.enters source target then [loop.push] else [])
      pre
      (fun label => post label ++
        if label ∈ loop.loopPredecessors func then [loop.push] else [])
      (changeBlocks (· ++ [loop.push]) func (loop.loopPredecessors func)) := by
  have linked := matching.toLinked
  have headerIn := turn.well.header_mem loop turn.loop_mem
  have areLabels : ∀ block ∈ loop.loopPredecessors func,
      block ∈ labels func.code :=
    fun block isPred => ((turn.mem_loopPredecessors linked).mp isPred).1
  have isNodup := turn.loopPredecessors_nodup linked single
  have noPre (label : Nat) (isLabel : label ∈ labels fn.code)
      (isTarget : some loop.header ∈ goes fn.code label)
      (outside : label ∉ loop.blocks) : pre loop.header = [] := by
    by_contra notEmpty
    exact turn.header_preds isLabel isTarget outside
      (matching.pre_single _ turn.header_label notEmpty).1
  refine ⟨linked.changeBlocks, ?ops_eq, ?mid_edge, ?direct_edge,
    matching.pre_single, ?post_single⟩
  case ops_eq =>
    intro label isLabel
    rw [ops_changeBlocks isNodup areLabels]
    by_cases isPred : label ∈ loop.loopPredecessors func
    · rw [if_pos isPred, if_pos isPred, List.filter_append,
        matching.ops_eq label isLabel]
      simp [LoopOp.visible, BinaryLoop.push]
    · rw [if_neg isPred, if_neg isPred, List.append_nil]
      exact matching.ops_eq label isLabel
  case mid_edge =>
    intro label target mid isMid
    have wasMid := isMid_changeBlocks.mp isMid
    have notPred : label ∉ loop.loopPredecessors func := fun isPred =>
      turn.not_isMid_of_loopPredecessors linked single isPred wasMid
    have edge := matching.mid_edge label target mid wasMid
    have midOut : mid ∉ loop.blocks := fun midIn =>
      wasMid.mid_new (turn.block_label midIn)
    rw [ops_changeBlocks isNodup areLabels, if_neg notPred, List.append_nil]
    by_cases isPred : mid ∈ loop.loopPredecessors func
    · -- The push is in the block on the edge.
      obtain ⟨_, _, isNext⟩ := (turn.mem_loopPredecessors linked).mp isPred
      rw [wasMid.goes_eq, List.mem_singleton, Option.some_inj] at isNext
      subst isNext
      have outside : label ∉ loop.blocks := by
        intro inside
        obtain ⟨before, isDone, crosses⟩ :=
          matching.mid_crosses label loop.header mid wasMid
        exact turn.not_crosses inside headerIn isDone crosses
      have enters : loop.enters label loop.header = true :=
        BinaryLoop.enters_iff.mpr ⟨outside, headerIn⟩
      have nothing := noPre label wasMid.isLabel wasMid.isTarget outside
      rw [nothing, List.append_nil] at edge
      rw [if_pos isPred, if_pos enters, nothing, List.append_nil,
        List.filter_append, ← edge, List.append_assoc]
      rfl
    · have notEnters : ¬loop.enters label target = true := by
        rw [BinaryLoop.enters_iff]
        rintro ⟨outside, targetIn⟩
        have isHeader := turn.eq_header wasMid.isTarget outside targetIn
        refine isPred ((turn.mem_loopPredecessors linked).mpr
          ⟨wasMid.mid_mem, midOut, ?_⟩)
        rw [wasMid.goes_eq, isHeader]
        exact List.mem_singleton_self _
      rw [if_neg isPred, if_neg notEnters, List.append_nil]
      exact edge
  case direct_edge =>
    intro label isLabel target targetIn isNext
    rw [goes_changeBlocks] at isNext
    have isTarget := matching.isTarget_of_next isLabel targetIn isNext
    have edge := matching.direct_edge label isLabel target targetIn isNext
    by_cases isPred : label ∈ loop.loopPredecessors func
    · -- The push is at the end of the block before the header.
      obtain ⟨labelNew, outside, toHeader⟩ :=
        (turn.mem_loopPredecessors linked).mp isPred
      have only := turn.succs_of_loopPredecessors linked single isLabel isPred
      have isSucc := (linked.mem_succs_iff labelNew).mpr isNext
      rw [only, List.mem_singleton] at isSucc
      subst isSucc
      have enters : loop.enters label loop.header = true :=
        BinaryLoop.enters_iff.mpr ⟨outside, headerIn⟩
      have nothing := noPre label isLabel isTarget outside
      rw [nothing, List.append_nil] at edge
      rw [if_pos isPred, if_pos enters, nothing, List.append_nil, edge]
    · have notEnters : ¬loop.enters label target = true := by
        rw [BinaryLoop.enters_iff]
        rintro ⟨outside, targetIn⟩
        have isHeader := turn.eq_header isTarget outside targetIn
        exact isPred ((turn.mem_loopPredecessors linked).mpr
          ⟨linked.labels_mem _ isLabel, outside, isHeader ▸ isNext⟩)
      rw [if_neg isPred, if_neg notEnters, List.append_nil, List.append_nil]
      exact edge
  case post_single =>
    intro label isLabel notEmpty
    by_cases isPred : label ∈ loop.loopPredecessors func
    · obtain ⟨_, outside, isNext⟩ :=
        (turn.mem_loopPredecessors linked).mp isPred
      exact List.length_eq_one_iff.mp (single label isLabel outside isNext)
    · rw [if_neg isPred, List.append_nil] at notEmpty
      exact matching.post_single label isLabel notEmpty

end Msh.LoopOptInstrumenter
