import Msh.Bolt.EdgesToPatch

/-!
# The edges over a loop's border

Which edges are split for a loop, given that the loops before it have been
dealt with.
-/

namespace Msh.LoopOptInstrumenter

open Function Layout FlowFunction

/-! ## Counting ways -/

section Counting

theorem count_flatMap_pair {xs : List Nat} {ways : Nat → List Nat}
    {source target : Nat} :
    (xs.flatMap fun x => (ways x).map (x, ·)).count (source, target) =
      xs.count source * (ways source).count target := by
  induction xs with
  | nil => simp
  | cons first rest inductionHypothesis =>
      rw [List.flatMap_cons, List.count_append, inductionHypothesis,
        List.count_cons]
      by_cases isFirst : first = source
      · subst isFirst
        have ofFirst : ((ways first).map (first, ·)).count (first, target) =
            (ways first).count target :=
          List.count_map_of_injective _ _ (Prod.mk_right_injective first) _
        rw [ofFirst, beq_self_eq_true, if_pos rfl, Nat.add_mul, Nat.one_mul,
          Nat.add_comm]
      · have noFirst : (source, target) ∉ (ways first).map (first, ·) := by
          simp [isFirst]
        have notSame : (first == source) = false := by simpa using isFirst
        rw [List.count_eq_zero.mpr noFirst, notSame, if_neg nofun,
          Nat.add_zero, Nat.zero_add]

theorem count_filterMap_id {ways : List (Option Nat)} {target : Nat} :
    (ways.filterMap id).count target = ways.count (some target) := by
  induction ways with
  | nil => rfl
  | cons way ways inductionHypothesis =>
      cases way with
      | none => simpa using inductionHypothesis
      | some first => simpa [List.count_cons] using inductionHypothesis

theorem mem_filterMap_id {ways : List (Option Nat)} {target : Nat} :
    target ∈ ways.filterMap id ↔ some target ∈ ways := by
  simp

variable {Op : Type} {fn : FlowFunction Op}
  {func : FlowFunction (LoopOp Op)} {label : Nat} {xs ys : List (Option Nat)}

theorem length_filterMap_of_leads
    (leads : List.Forall₂ (Leads fn func label) xs ys) :
    (ys.filterMap id).length = (xs.filterMap id).length := by
  induction leads with
  | nil => rfl
  | @cons x y xs ys leads rest inductionHypothesis =>
      cases leads with
      | out => simpa using inductionHypothesis
      | direct => simpa using inductionHypothesis
      | mid isMid => simpa using inductionHypothesis

/-- An original block is not led to more often than it was. -/
theorem count_le_of_leads {target : Nat} (targetIn : target ∈ labels fn.code)
    (leads : List.Forall₂ (Leads fn func label) xs ys) :
    ys.count (some target) ≤ xs.count (some target) := by
  induction leads with
  | nil => exact le_rfl
  | @cons x y xs ys leads rest inductionHypothesis =>
      cases leads with
      | out => simpa using inductionHypothesis
      | @direct first =>
          rw [List.count_cons, List.count_cons]
          exact Nat.add_le_add_right inductionHypothesis _
      | @mid first mid isMid =>
          have notTarget : some mid ≠ some target := by
            intro same
            rw [Option.some_inj.mp same] at isMid
            exact isMid.mid_new targetIn
          rw [List.count_cons_of_ne notTarget]
          exact inductionHypothesis.trans (List.count_le_count_cons)

end Counting

variable {Op : Type} {fn : FlowFunction Op} {loops done later : List BinaryLoop}
  {loop : BinaryLoop} {source target : Nat}

namespace BinaryLoop

@[simp] theorem contains_iff {block : Nat} :
    loop.contains block = true ↔ block ∈ loop.blocks :=
  List.contains_iff_mem

@[simp] theorem contains_eq_false_iff {block : Nat} :
    loop.contains block = false ↔ block ∉ loop.blocks := by
  rw [← Bool.not_eq_true, contains_iff]

@[simp] theorem leaves_iff :
    loop.leaves source target = true ↔
      source ∈ loop.blocks ∧ target ∉ loop.blocks := by
  simp [leaves]

@[simp] theorem enters_iff :
    loop.enters source target = true ↔
      source ∉ loop.blocks ∧ target ∈ loop.blocks := by
  simp [enters]

end BinaryLoop

/-- All edges over the border that need a block have one. -/
structure Settled (fn : FlowFunction Op) (loop : BinaryLoop)
    (func : FlowFunction (LoopOp Op)) : Prop where
  leaves : ∀ source ∈ labels fn.code, ∀ target ∈ labels fn.code,
    some target ∈ goes func.code source → source ∈ loop.blocks →
    target ∉ loop.blocks → (fn.preds target).length = 1
  enters : ∀ source ∈ labels fn.code, ∀ target ∈ labels fn.code,
    some target ∈ goes func.code source → source ∉ loop.blocks →
    target ∈ loop.blocks → (fn.succs source).length = 1

/-- A loop whose turn it is -/
structure Turn (fn : FlowFunction Op) (loops done : List BinaryLoop)
    (loop : BinaryLoop) (later : List BinaryLoop) : Prop where
  well : WellFormed loops fn
  splittable : Splittable loops fn
  order : loops = done ++ loop :: later

namespace Turn

variable (turn : Turn fn loops done loop later)
include turn

theorem loop_mem : loop ∈ loops := by
  rw [turn.order]
  exact List.mem_append_right _ List.mem_cons_self

/-- Within the loop no border of an earlier one is crossed. -/
theorem not_crosses (sourceIn : source ∈ loop.blocks)
    (targetIn : target ∈ loop.blocks) {before : BinaryLoop}
    (isDone : before ∈ done ++ [loop]) : ¬before.crosses source target := by
  rw [BinaryLoop.crosses, BinaryLoop.leaves_iff, BinaryLoop.enters_iff]
  rcases List.mem_append.mp isDone with isDone | isLoop
  · have ordered := turn.well.preorder
    rw [turn.order, List.pairwise_append] at ordered
    rcases ordered.2.2 before isDone loop List.mem_cons_self with
      inside | apart
    · have sourceBefore := inside source sourceIn
      have targetBefore := inside target targetIn
      tauto
    · have sourceNot := apart source sourceIn
      have targetNot := apart target targetIn
      tauto
  · rw [List.mem_singleton.mp isLoop]
    tauto

theorem mem_succs (isLabel : source ∈ labels fn.code) :
    target ∈ fn.succs source ↔ some target ∈ goes fn.code source := by
  rw [turn.well.succs_eq source isLabel]
  exact mem_filterMap_id

theorem mem_preds (sourceIn : source ∈ labels fn.code)
    (targetIn : target ∈ labels fn.code) :
    source ∈ fn.preds target ↔ some target ∈ goes fn.code source := by
  rw [← turn.mem_succs sourceIn, ← List.count_pos_iff,
    turn.well.preds_count source sourceIn target targetIn, List.count_pos_iff]

theorem header_label : loop.header ∈ labels fn.code :=
  turn.well.blocks_mem loop turn.loop_mem _
    (turn.well.header_mem loop turn.loop_mem)

theorem block_label {block : Nat} (isBlock : block ∈ loop.blocks) :
    block ∈ labels fn.code :=
  turn.well.blocks_mem loop turn.loop_mem block isBlock

theorem eq_header (isTarget : some target ∈ goes fn.code source)
    (sourceOut : source ∉ loop.blocks) (targetIn : target ∈ loop.blocks) :
    target = loop.header :=
  turn.well.enters_header loop turn.loop_mem source target isTarget sourceOut
    targetIn

/-- A header that is led to from outside has two predecessors. -/
theorem header_preds (sourceIn : source ∈ labels fn.code)
    (isTarget : some loop.header ∈ goes fn.code source)
    (sourceOut : source ∉ loop.blocks) :
    (fn.preds loop.header).length ≠ 1 := by
  intro single
  obtain ⟨only, isOnly⟩ := List.length_eq_one_iff.mp single
  obtain ⟨latch, latchIn, isLatch⟩ := turn.well.latch loop turn.loop_mem
  have latchPred :=
    (turn.mem_preds (turn.block_label latchIn) turn.header_label).mpr isLatch
  have sourcePred := (turn.mem_preds sourceIn turn.header_label).mpr isTarget
  rw [isOnly, List.mem_singleton] at latchPred sourcePred
  rw [sourcePred, ← latchPred] at sourceOut
  exact sourceOut latchIn

/-- A block that leaves the loop has two successors. -/
theorem leaving_succs (sourceIn : source ∈ loop.blocks)
    (isTarget : some target ∈ goes fn.code source)
    (targetOut : target ∉ loop.blocks) {only : Nat} :
    fn.succs source ≠ [only] := by
  intro isOnly
  have sourceLabel := turn.block_label sourceIn
  obtain ⟨succ, succIn, isSucc⟩ :=
    turn.well.stays loop turn.loop_mem source sourceIn
  have first := (turn.mem_succs sourceLabel).mpr isTarget
  have second := (turn.mem_succs sourceLabel).mpr isSucc
  rw [isOnly, List.mem_singleton] at first second
  rw [first, ← second] at targetOut
  exact targetOut succIn

end Turn

end Msh.LoopOptInstrumenter
