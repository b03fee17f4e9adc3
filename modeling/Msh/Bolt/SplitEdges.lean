import Mathlib.Data.List.Forall2
import Msh.Bolt.MidBlocks

/-!
# A function with some of its edges split

Every way of the original function is still there: it leads to its target, or
to a block that lies on the edge to it.
-/

namespace Msh.LoopOptInstrumenter

open Function Layout FlowFunction

/-! ## Lists side by side -/

section Lists

variable {α β : Type} {related related' : α → β → Prop} {xs : List α}
  {ys : List β}

theorem exists_left_of_forall₂ (side : List.Forall₂ related xs ys) {y : β}
    (member : y ∈ ys) : ∃ x ∈ xs, related x y := by
  induction side with
  | nil => cases member
  | @cons x first xs ys isRelated rest inductionHypothesis =>
      rcases List.mem_cons.mp member with rfl | inRest
      · exact ⟨x, List.mem_cons_self, isRelated⟩
      · obtain ⟨x, isMember, isRelated⟩ := inductionHypothesis inRest
        exact ⟨x, List.mem_cons_of_mem _ isMember, isRelated⟩

theorem exists_right_of_forall₂ (side : List.Forall₂ related xs ys) {x : α}
    (member : x ∈ xs) : ∃ y ∈ ys, related x y := by
  induction side with
  | nil => cases member
  | @cons first y xs ys isRelated rest inductionHypothesis =>
      rcases List.mem_cons.mp member with rfl | inRest
      · exact ⟨y, List.mem_cons_self, isRelated⟩
      · obtain ⟨y, isMember, isRelated⟩ := inductionHypothesis inRest
        exact ⟨y, List.mem_cons_of_mem _ isMember, isRelated⟩

/-- Another element on the right for the same one on the left -/
theorem forall₂_replace {old new : β} {front back : List β}
    (weaker : ∀ x y, related x y → related' x y)
    (replaces : ∀ x, related x old → related' x new)
    (side : List.Forall₂ related xs (front ++ old :: back)) :
    List.Forall₂ related' xs (front ++ new :: back) := by
  induction front generalizing xs with
  | nil =>
      cases side with
      | cons isRelated rest =>
          exact .cons (replaces _ isRelated) (rest.imp weaker)
  | cons first front inductionHypothesis =>
      cases side with
      | cons isRelated rest =>
          exact .cons (weaker _ _ isRelated) (inductionHypothesis rest)

end Lists

variable {Op : Type}

/-- Control goes over the border of the loop. -/
def BinaryLoop.crosses (loop : BinaryLoop) (source target : Nat) : Prop :=
  loop.leaves source target = true ∨ loop.enters source target = true

/-- A block of the new function lies on an edge of the original one. -/
structure IsMid (fn : FlowFunction Op) (func : FlowFunction (LoopOp Op))
    (label target mid : Nat) : Prop where
  isLabel : label ∈ labels fn.code
  isTarget : some target ∈ goes fn.code label
  mid_mem : mid ∈ labels func.code
  mid_new : mid ∉ labels fn.code
  goes_label : some mid ∈ goes func.code label
  goes_eq : goes func.code mid = [some target]
  preds_eq : func.preds mid = [label]

/-- Where a way of the original function leads -/
inductive Leads (fn : FlowFunction Op) (func : FlowFunction (LoopOp Op))
    (label : Nat) : Option Nat → Option Nat → Prop where
  | out : Leads fn func label none none
  | direct {target : Nat} : Leads fn func label (some target) (some target)
  | mid {target mid : Nat} (isMid : IsMid fn func label target mid) :
      Leads fn func label (some target) (some mid)

/-- The new function has the blocks of the original one, and blocks on edges
that cross the border of a loop. -/
structure Linked (fn : FlowFunction Op) (loops : List BinaryLoop)
    (func : FlowFunction (LoopOp Op)) : Prop where
  distinct : (labels func.code).Nodup
  closed : EndsClosed func.code
  below_fresh : ∀ label ∈ labels func.code, label < func.fresh
  labels_mem : ∀ label ∈ labels fn.code, label ∈ labels func.code
  shape_eq : ∀ label ∈ labels fn.code,
    (exit? func.code label).map Exit.shape =
      (exit? fn.code label).map Exit.shape
  leads : ∀ label ∈ labels fn.code,
    List.Forall₂ (Leads fn func label) (goes fn.code label)
      (goes func.code label)
  mids : ∀ mid ∈ labels func.code, mid ∉ labels fn.code →
    ∃ label target, IsMid fn func label target mid
  mid_crosses : ∀ label target mid, IsMid fn func label target mid →
    ∃ loop ∈ loops, loop.crosses label target
  succs_eq : ∀ label ∈ labels func.code,
    func.succs label = (goes func.code label).filterMap id
  preds_count : ∀ label ∈ labels func.code, ∀ target ∈ labels func.code,
    (func.preds target).count label =
      (goes func.code label).count (some target)
  preds_mem : ∀ target ∈ labels func.code, ∀ label ∈ func.preds target,
    label ∈ labels func.code
  preds_length : ∀ target ∈ labels fn.code,
    (func.preds target).length = (fn.preds target).length

/-- `pre` and `post` have been put at the start and at the end of the original
blocks; with what is in the blocks between, that makes `onEdge`. -/
structure Matches (fn : FlowFunction Op) (loops : List BinaryLoop)
    (onEdge : Nat → Nat → List (LoopOp Op)) (pre post : Nat → List (LoopOp Op))
    (func : FlowFunction (LoopOp Op)) : Prop extends Linked fn loops func where
  ops_eq : ∀ label ∈ labels fn.code,
    (ops func.code label).filter LoopOp.visible =
      pre label ++ ((ops fn.code label).map LoopOp.original ++ post label)
  mid_edge : ∀ label target mid, IsMid fn func label target mid →
    post label ++ ((ops func.code mid).filter LoopOp.visible ++ pre target) =
      onEdge label target
  direct_edge : ∀ label ∈ labels fn.code, ∀ target ∈ labels fn.code,
    some target ∈ goes func.code label →
      post label ++ pre target = onEdge label target
  pre_single : ∀ target ∈ labels fn.code, pre target ≠ [] →
    (fn.preds target).length = 1 ∧ target ≠ fn.entry
  post_single : ∀ label ∈ labels fn.code, post label ≠ [] →
    ∃ target, fn.succs label = [target]

variable {fn : FlowFunction Op} {loops : List BinaryLoop}
  {onEdge : Nat → Nat → List (LoopOp Op)} {pre post : Nat → List (LoopOp Op)}
  {func func' : FlowFunction (LoopOp Op)} {label target mid : Nat}

namespace Linked

variable (matching : Linked fn loops func)
include matching

/-- Where a block leads to -/
theorem next_cases (isLabel : label ∈ labels fn.code) {next : Nat}
    (isNext : some next ∈ goes func.code label) :
    some next ∈ goes fn.code label ∨
      ∃ target, IsMid fn func label target next := by
  obtain ⟨way, isWay, leads⟩ :=
    exists_left_of_forall₂ (matching.leads label isLabel) isNext
  cases leads with
  | direct => exact Or.inl isWay
  | mid isMid => exact Or.inr ⟨_, isMid⟩

theorem isTarget_of_next (isLabel : label ∈ labels fn.code)
    (targetIn : target ∈ labels fn.code)
    (isNext : some target ∈ goes func.code label) :
    some target ∈ goes fn.code label := by
  rcases matching.next_cases isLabel isNext with isTarget | ⟨_, isMid⟩
  · exact isTarget
  · exact absurd targetIn isMid.mid_new

theorem next_mem (targets_mem : ∀ label target,
      some target ∈ goes fn.code label → target ∈ labels fn.code)
    {next : Nat} (isNext : some next ∈ goes func.code label) :
    next ∈ labels func.code := by
  by_cases isLabel : label ∈ labels fn.code
  · rcases matching.next_cases isLabel isNext with isTarget | ⟨_, isMid⟩
    · exact matching.labels_mem next (targets_mem label next isTarget)
    · exact isMid.mid_mem
  · by_cases isNew : label ∈ labels func.code
    · obtain ⟨source, target, isMid⟩ := matching.mids label isNew isLabel
      rw [isMid.goes_eq, List.mem_singleton, Option.some_inj] at isNext
      rw [isNext]
      exact matching.labels_mem target
        (targets_mem source target isMid.isTarget)
    · rw [goes_of_not_mem isNew] at isNext
      cases isNext

theorem fresh_not_mem : func.fresh ∉ labels func.code :=
  fun isLabel => lt_irrefl _ (matching.below_fresh _ isLabel)

theorem mem_preds_iff (isLabel : label ∈ labels func.code)
    (targetIn : target ∈ labels func.code) :
    label ∈ func.preds target ↔ some target ∈ goes func.code label := by
  rw [← List.count_pos_iff, matching.preds_count label isLabel target targetIn,
    List.count_pos_iff]

end Linked

/-! ## Splitting another edge -/

section Splitting

variable {source behind : Nat}

/-- What is known where an edge is split -/
structure SplitsEdge (fn : FlowFunction Op)
    (func : FlowFunction (LoopOp Op)) (source behind : Nat)
    (func' : FlowFunction (LoopOp Op)) : Prop where
  split : Split LoopOp.noop func source behind func'
  source_mem : source ∈ labels fn.code
  behind_mem : behind ∈ labels fn.code
  isNext : some behind ∈ goes func.code source
  labels_mem : ∀ label ∈ labels fn.code, label ∈ labels func.code
  fresh_not_mem : func.fresh ∉ labels func.code

namespace SplitsEdge

variable (splits : SplitsEdge fn func source behind func')
include splits

theorem ne_fresh (isLabel : label ∈ labels func.code) :
    label ≠ func.fresh := by
  rintro rfl
  exact splits.fresh_not_mem isLabel

theorem behind_ne : behind ≠ func.fresh :=
  splits.ne_fresh (splits.labels_mem _ splits.behind_mem)

theorem mem_labels :
    label ∈ labels func'.code ↔
      label = func.fresh ∨ label ∈ labels func.code := by
  obtain ⟨newOps, _, onEdge⟩ := splits.split.onEdge
  exact onEdge.mem_labels label

theorem goes_other (notSource : label ≠ source) (notFresh : label ≠ func.fresh) :
    goes func'.code label = goes func.code label := by
  obtain ⟨newOps, _, onEdge⟩ := splits.split.onEdge
  exact onEdge.goes_other label notSource notFresh

theorem goes_fresh : goes func'.code func.fresh = [some behind] := by
  obtain ⟨newOps, _, onEdge⟩ := splits.split.onEdge
  exact onEdge.goes_new

theorem redirected :
    Redirected behind func.fresh (goes func.code source)
      (goes func'.code source) := by
  obtain ⟨newOps, _, onEdge⟩ := splits.split.onEdge
  exact onEdge.goes_source

theorem ops_old (notFresh : label ≠ func.fresh) :
    ops func'.code label = ops func.code label := by
  obtain ⟨newOps, _, onEdge⟩ := splits.split.onEdge
  exact onEdge.ops_old label notFresh

theorem ops_fresh :
    (ops func'.code func.fresh).filter LoopOp.visible = [] := by
  obtain ⟨newOps, isNew, onEdge⟩ := splits.split.onEdge
  rw [onEdge.ops_new]
  rcases isNew with rfl | rfl <;> rfl

/-- The new block is where the source leads to, once. -/
theorem fresh_count (noFresh : some func.fresh ∉ goes func.code source) :
    (goes func'.code source).count (some func.fresh) = 1 := by
  obtain ⟨front, back, _, before, after⟩ := splits.redirected
  rw [before, List.mem_append, List.mem_cons, not_or, not_or] at noFresh
  rw [after, List.count_append, List.count_cons_self,
    List.count_eq_zero.mpr noFresh.1, List.count_eq_zero.mpr noFresh.2.2]

/-- One way over the edge is gone. -/
theorem over_count :
    (goes func'.code source).count (some behind) + 1 =
      (goes func.code source).count (some behind) := by
  obtain ⟨front, back, _, before, after⟩ := splits.redirected
  have notSame : some func.fresh ≠ some behind := fun same =>
    splits.behind_ne (Option.some_inj.mp same).symm
  rw [before, after, List.count_append, List.count_append,
    List.count_cons_self, List.count_cons_of_ne notSame]
  omega

theorem other_count {next : Nat} (notBehind : next ≠ behind)
    (notFresh : next ≠ func.fresh) :
    (goes func'.code source).count (some next) =
      (goes func.code source).count (some next) := by
  obtain ⟨front, back, _, before, after⟩ := splits.redirected
  have notFirst : some func.fresh ≠ some next := fun same =>
    notFresh (Option.some_inj.mp same).symm
  have notSecond : some behind ≠ some next := fun same =>
    notBehind (Option.some_inj.mp same).symm
  rw [before, after, List.count_append, List.count_append,
    List.count_cons_of_ne notFirst, List.count_cons_of_ne notSecond]

/-- A way to a block that was there has been there. -/
theorem isNext_old {next : Nat} (isLabel : label ∈ labels func.code)
    (notFresh : next ≠ func.fresh)
    (isNext : some next ∈ goes func'.code label) :
    some next ∈ goes func.code label := by
  by_cases isSource : label = source
  · subst isSource
    obtain ⟨front, back, _, before, after⟩ := splits.redirected
    rw [after, List.mem_append, List.mem_cons] at isNext
    rw [before, List.mem_append, List.mem_cons]
    rcases isNext with inFront | isFresh | inBack
    · exact Or.inl inFront
    · exact absurd (Option.some_inj.mp isFresh) notFresh
    · exact Or.inr (Or.inr inBack)
  · rwa [splits.goes_other isSource (splits.ne_fresh isLabel)] at isNext

/-- A way to a block that is not split stays. -/
theorem isNext_new {next : Nat} (isLabel : label ∈ labels func.code)
    (notBehind : next ≠ behind) (isNext : some next ∈ goes func.code label) :
    some next ∈ goes func'.code label := by
  by_cases isSource : label = source
  · subst isSource
    obtain ⟨front, back, _, before, after⟩ := splits.redirected
    rw [before, List.mem_append, List.mem_cons] at isNext
    rw [after, List.mem_append, List.mem_cons]
    rcases isNext with inFront | isBehind | inBack
    · exact Or.inl inFront
    · exact absurd (Option.some_inj.mp isBehind) notBehind
    · exact Or.inr (Or.inr inBack)
  · rwa [splits.goes_other isSource (splits.ne_fresh isLabel)]

theorem isMid_new (isMid : IsMid fn func label target mid) :
    IsMid fn func' label target mid := by
  have notFresh := splits.ne_fresh isMid.mid_mem
  have notSource : mid ≠ source := by
    rintro rfl
    exact isMid.mid_new splits.source_mem
  have notBehind : mid ≠ behind := by
    rintro rfl
    exact isMid.mid_new splits.behind_mem
  constructor
  · exact isMid.isLabel
  · exact isMid.isTarget
  · exact splits.mem_labels.mpr (Or.inr isMid.mid_mem)
  · exact isMid.mid_new
  · exact splits.isNext_new (splits.labels_mem _ isMid.isLabel) notBehind
      isMid.goes_label
  · rw [splits.goes_other notSource notFresh, isMid.goes_eq]
  · rw [splits.split.preds_other _ notBehind notFresh, isMid.preds_eq]

theorem isMid_fresh (isTarget : some behind ∈ goes fn.code source) :
    IsMid fn func' source behind func.fresh := by
  obtain ⟨front, back, _, _, after⟩ := splits.redirected
  constructor
  · exact splits.source_mem
  · exact isTarget
  · exact splits.mem_labels.mpr (Or.inl rfl)
  · exact fun isLabel => splits.fresh_not_mem (splits.labels_mem _ isLabel)
  · rw [after]
    exact List.mem_append_right _ List.mem_cons_self
  · exact splits.goes_fresh
  · exact splits.split.preds_mid

/-- A block on an edge was there or is the new one. -/
theorem isMid_cases
    (mids : ∀ mid ∈ labels func.code, mid ∉ labels fn.code →
      ∃ label target, IsMid fn func label target mid)
    (isMid : IsMid fn func' label target mid) :
    IsMid fn func label target mid ∨
      mid = func.fresh ∧ label = source ∧ target = behind := by
  rcases splits.mem_labels.mp isMid.mid_mem with rfl | isOld
  · have sameLabel := isMid.preds_eq
    have sameTarget := isMid.goes_eq
    rw [splits.split.preds_mid, List.singleton_inj] at sameLabel
    rw [splits.goes_fresh, List.singleton_inj, Option.some_inj] at sameTarget
    exact Or.inr ⟨rfl, sameLabel.symm, sameTarget.symm⟩
  · obtain ⟨label', target', wasMid⟩ := mids mid isOld isMid.mid_new
    have stillMid := splits.isMid_new wasMid
    have sameLabel := stillMid.preds_eq
    have sameTarget := stillMid.goes_eq
    rw [isMid.preds_eq, List.singleton_inj] at sameLabel
    rw [isMid.goes_eq, List.singleton_inj, Option.some_inj] at sameTarget
    rw [sameLabel, sameTarget]
    exact Or.inl wasMid

end SplitsEdge

variable (targets_mem : ∀ label target,
    some target ∈ goes fn.code label → target ∈ labels fn.code)
include targets_mem

/-- The predecessors stay those blocks that lead to a block. -/
theorem SplitsEdge.preds_count
    (splits : SplitsEdge fn func source behind func')
    (matching : Linked fn loops func)
    (isLabel : label ∈ labels func'.code)
    (targetIn : target ∈ labels func'.code) :
    (func'.preds target).count label =
      (goes func'.code label).count (some target) := by
  have noFresh (label : Nat) : some func.fresh ∉ goes func.code label :=
    fun isNext => splits.fresh_not_mem (matching.next_mem targets_mem isNext)
  have sourceIn := splits.labels_mem _ splits.source_mem
  have behindIn := splits.labels_mem _ splits.behind_mem
  by_cases isFresh : target = func.fresh
  · -- Only the source leads to the new block.
    subst isFresh
    rw [splits.split.preds_mid]
    by_cases isSource : label = source
    · subst isSource
      rw [List.count_singleton_self, splits.fresh_count (noFresh _)]
    · rw [List.count_eq_zero.mpr (by simpa using isSource)]
      by_cases labelFresh : label = func.fresh
      · have notSame : some func.fresh ∉ [some behind] := by
          simpa using splits.behind_ne.symm
        rw [labelFresh, splits.goes_fresh, List.count_eq_zero.mpr notSame]
      · rw [splits.goes_other isSource labelFresh,
          List.count_eq_zero.mpr (noFresh _)]
  · have targetOld := (splits.mem_labels.mp targetIn).resolve_left isFresh
    by_cases isBehind : target = behind
    · subst isBehind
      have noPred : func.fresh ∉ func.preds target := fun isPred =>
        splits.fresh_not_mem (matching.preds_mem _ behindIn _ isPred)
      rw [splits.split.preds_target, List.count_append]
      by_cases labelFresh : label = func.fresh
      · rw [labelFresh, splits.goes_fresh, List.count_singleton_self,
          List.count_singleton_self,
          List.count_eq_zero.mpr fun isPred =>
            noPred (List.mem_of_mem_erase isPred)]
      · have labelOld := (splits.mem_labels.mp isLabel).resolve_left labelFresh
        have notFresh : label ∉ [func.fresh] := by simpa using labelFresh
        have before := matching.preds_count label labelOld target behindIn
        rw [List.count_eq_zero.mpr notFresh, Nat.add_zero]
        by_cases isSource : label = source
        · subst isSource
          have oneLess := splits.over_count
          rw [List.count_erase_self, before]
          omega
        · rw [List.count_erase_of_ne isSource, before,
            splits.goes_other isSource labelFresh]
    · rw [splits.split.preds_other _ isBehind isFresh]
      by_cases labelFresh : label = func.fresh
      · have notSame : some target ∉ [some behind] := by simpa using isBehind
        have noPred : func.fresh ∉ func.preds target := fun isPred =>
          splits.fresh_not_mem (matching.preds_mem _ targetOld _ isPred)
        rw [labelFresh, splits.goes_fresh, List.count_eq_zero.mpr notSame,
          List.count_eq_zero.mpr noPred]
      · have labelOld := (splits.mem_labels.mp isLabel).resolve_left labelFresh
        rw [matching.preds_count label labelOld target targetOld]
        by_cases isSource : label = source
        · subst isSource
          rw [splits.other_count isBehind isFresh]
        · rw [splits.goes_other isSource labelFresh]

/-- Splitting an edge that crosses the border of a loop -/
theorem Linked.split (matching : Linked fn loops func)
    (splits : SplitsEdge fn func source behind func')
    (crosses : ∃ loop ∈ loops, loop.crosses source behind) :
    Linked fn loops func' := by
  have sourceIn := splits.labels_mem _ splits.source_mem
  have behindIn := splits.labels_mem _ splits.behind_mem
  have isTarget : some behind ∈ goes fn.code source :=
    matching.isTarget_of_next splits.source_mem splits.behind_mem splits.isNext
  have old (label : Nat) (isLabel : label ∈ labels fn.code) :
      label ≠ func.fresh :=
    splits.ne_fresh (splits.labels_mem _ isLabel)
  obtain ⟨newOps, isNew, onEdge'⟩ := splits.split.onEdge
  constructor
  case distinct => exact onEdge'.nodup
  case closed => exact onEdge'.closed
  case below_fresh =>
    intro label isLabel
    rw [splits.split.fresh_eq]
    rcases splits.mem_labels.mp isLabel with rfl | isOld
    · exact Nat.lt_succ_self _
    · exact Nat.lt_succ_of_lt (matching.below_fresh _ isOld)
  case labels_mem =>
    intro label isLabel
    exact splits.mem_labels.mpr (Or.inr (matching.labels_mem _ isLabel))
  case shape_eq =>
    intro label isLabel
    rw [onEdge'.shape_old label (old _ isLabel)]
    exact matching.shape_eq label isLabel
  case leads =>
    intro label isLabel
    have stillLeads (way next : Option Nat)
        (leads : Leads fn func label way next) :
        Leads fn func' label way next := by
      cases leads with
      | out => exact .out
      | direct => exact .direct
      | mid isMid => exact .mid (splits.isMid_new isMid)
    by_cases isSource : label = source
    · subst isSource
      have leads := matching.leads label isLabel
      obtain ⟨front, back, _, before, after⟩ := splits.redirected
      rw [before] at leads
      rw [after]
      refine forall₂_replace stillLeads (fun way leads => ?_) leads
      cases leads with
      | direct => exact .mid (splits.isMid_fresh isTarget)
      | mid isMid => exact absurd splits.behind_mem isMid.mid_new
    · rw [splits.goes_other isSource (old _ isLabel)]
      exact (matching.leads label isLabel).imp stillLeads
  case mids =>
    intro mid isMem isNew
    rcases splits.mem_labels.mp isMem with rfl | isOld
    · exact ⟨source, behind, splits.isMid_fresh isTarget⟩
    · obtain ⟨label, target, isMid⟩ := matching.mids mid isOld isNew
      exact ⟨label, target, splits.isMid_new isMid⟩
  case mid_crosses =>
    intro label target mid isMid
    rcases splits.isMid_cases matching.mids isMid with wasMid | ⟨_, rfl, rfl⟩
    · exact matching.mid_crosses label target mid wasMid
    · exact crosses
  case succs_eq =>
    intro label isLabel
    by_cases isFresh : label = func.fresh
    · rw [isFresh, splits.split.succs_mid, splits.goes_fresh]
      rfl
    · have labelOld := (splits.mem_labels.mp isLabel).resolve_left isFresh
      by_cases isSource : label = source
      · rw [isSource, splits.split.succs_source]
      · rw [splits.split.succs_other _ isSource isFresh,
          splits.goes_other isSource isFresh]
        exact matching.succs_eq label labelOld
  case preds_count =>
    intro label isLabel target targetIn
    exact splits.preds_count targets_mem matching isLabel targetIn
  case preds_mem =>
    intro target targetIn label isPred
    rw [splits.mem_labels]
    by_cases isFresh : target = func.fresh
    · rw [isFresh, splits.split.preds_mid, List.mem_singleton] at isPred
      exact Or.inr (isPred ▸ sourceIn)
    · have targetOld := (splits.mem_labels.mp targetIn).resolve_left isFresh
      by_cases isBehind : target = behind
      · rw [isBehind, splits.split.preds_target, List.mem_append,
          List.mem_singleton] at isPred
        rcases isPred with wasPred | labelFresh
        · exact Or.inr (matching.preds_mem _ behindIn _
            (List.mem_of_mem_erase wasPred))
        · exact Or.inl labelFresh
      · rw [splits.split.preds_other _ isBehind isFresh] at isPred
        exact Or.inr (matching.preds_mem _ targetOld _ isPred)
  case preds_length =>
    intro target targetIn
    rw [← matching.preds_length target targetIn]
    by_cases isBehind : target = behind
    · have isPred : source ∈ func.preds behind :=
        (matching.mem_preds_iff sourceIn behindIn).mpr splits.isNext
      have notEmpty := List.length_pos_of_mem isPred
      rw [isBehind, splits.split.preds_target, List.length_append,
        List.length_erase_of_mem isPred, List.length_singleton]
      omega
    · rw [splits.split.preds_other _ isBehind (old _ targetIn)]

/-- Splitting an edge puts nothing on it. -/
theorem Matches.split (matching : Matches fn loops onEdge pre post func)
    (splits : SplitsEdge fn func source behind func')
    (crosses : ∃ loop ∈ loops, loop.crosses source behind) :
    Matches fn loops onEdge pre post func' := by
  have old (label : Nat) (isLabel : label ∈ labels fn.code) :
      label ≠ func.fresh :=
    splits.ne_fresh (splits.labels_mem _ isLabel)
  refine ⟨matching.toLinked.split targets_mem splits crosses, ?ops_eq,
    ?mid_edge, ?direct_edge, matching.pre_single, matching.post_single⟩
  case ops_eq =>
    intro label isLabel
    rw [splits.ops_old (old _ isLabel)]
    exact matching.ops_eq label isLabel
  case mid_edge =>
    intro label target mid isMid
    rcases splits.isMid_cases matching.mids isMid with wasMid | ⟨rfl, rfl, rfl⟩
    · rw [splits.ops_old (splits.ne_fresh wasMid.mid_mem)]
      exact matching.mid_edge label target mid wasMid
    · rw [splits.ops_fresh, List.nil_append]
      exact matching.direct_edge _ splits.source_mem _ splits.behind_mem
        splits.isNext
  case direct_edge =>
    intro label isLabel target targetIn isNext
    refine matching.direct_edge label isLabel target targetIn ?_
    exact splits.isNext_old (splits.labels_mem _ isLabel) (old _ targetIn) isNext

end Splitting

/-! ## Changing the instructions of blocks -/

section ChangeBlocks

variable {change : List (LoopOp Op) → List (LoopOp Op)} {blocks : List Nat}

@[simp] theorem labels_changeBlocks :
    labels (changeBlocks change func blocks).code = labels func.code := by
  rw [changeBlocks]
  dsimp only
  induction blocks generalizing func with
  | nil => rfl
  | cons block blocks inductionHypothesis =>
      rw [List.foldl_cons]
      exact (@inductionHypothesis { func with
        code := changeOps func.code block change }).trans labels_changeOps

@[simp] theorem goes_changeBlocks :
    goes (changeBlocks change func blocks).code label =
      goes func.code label := by
  rw [changeBlocks]
  dsimp only
  induction blocks generalizing func with
  | nil => rfl
  | cons block blocks inductionHypothesis =>
      rw [List.foldl_cons]
      exact (@inductionHypothesis { func with
        code := changeOps func.code block change }).trans goes_changeOps

@[simp] theorem exit?_changeBlocks :
    exit? (changeBlocks change func blocks).code label =
      exit? func.code label := by
  rw [changeBlocks]
  dsimp only
  induction blocks generalizing func with
  | nil => rfl
  | cons block blocks inductionHypothesis =>
      rw [List.foldl_cons]
      exact (@inductionHypothesis { func with
        code := changeOps func.code block change }).trans exit?_changeOps

theorem endsClosed_changeBlocks (closed : EndsClosed func.code) :
    EndsClosed (changeBlocks change func blocks).code := by
  rw [changeBlocks]
  dsimp only
  induction blocks generalizing func with
  | nil => exact closed
  | cons block blocks inductionHypothesis =>
      rw [List.foldl_cons]
      exact @inductionHypothesis { func with
        code := changeOps func.code block change } (endsClosed_changeOps closed)

theorem ops_changeBlocks (isNodup : blocks.Nodup)
    (areLabels : ∀ block ∈ blocks, block ∈ labels func.code) :
    ops (changeBlocks change func blocks).code label =
      if label ∈ blocks then change (ops func.code label)
      else ops func.code label := by
  rw [changeBlocks]
  dsimp only
  induction blocks generalizing func with
  | nil => rfl
  | cons block blocks inductionHypothesis =>
      rw [List.nodup_cons] at isNodup
      rw [List.foldl_cons]
      have rest := @inductionHypothesis { func with
        code := changeOps func.code block change } isNodup.2
      dsimp only at rest
      rw [rest, ops_changeOps (areLabels block List.mem_cons_self)]
      · by_cases isFirst : label = block
        · subst isFirst
          rw [if_neg isNodup.1, if_pos rfl, if_pos List.mem_cons_self]
        · simp [isFirst]
      · intro other isOther
        rw [labels_changeOps]
        exact areLabels other (List.mem_cons_of_mem _ isOther)

theorem isMid_changeBlocks :
    IsMid fn (changeBlocks change func blocks) label target mid ↔
      IsMid fn func label target mid := by
  constructor
  · intro isMid
    refine ⟨isMid.isLabel, isMid.isTarget, ?_, isMid.mid_new, ?_, ?_,
      isMid.preds_eq⟩
    · simpa using isMid.mid_mem
    · simpa using isMid.goes_label
    · simpa using isMid.goes_eq
  · intro isMid
    refine ⟨isMid.isLabel, isMid.isTarget, ?_, isMid.mid_new, ?_, ?_,
      isMid.preds_eq⟩
    · simpa using isMid.mid_mem
    · simpa using isMid.goes_label
    · simpa using isMid.goes_eq

/-- The blocks stay linked as they are. -/
theorem Linked.changeBlocks (matching : Linked fn loops func) :
    Linked fn loops (changeBlocks change func blocks) := by
  constructor
  case distinct =>
    rw [labels_changeBlocks]
    exact matching.distinct
  case closed => exact endsClosed_changeBlocks matching.closed
  case below_fresh =>
    rw [labels_changeBlocks]
    exact matching.below_fresh
  case labels_mem =>
    rw [labels_changeBlocks]
    exact matching.labels_mem
  case shape_eq =>
    simp only [exit?_changeBlocks]
    exact matching.shape_eq
  case leads =>
    intro label isLabel
    rw [goes_changeBlocks]
    refine (matching.leads label isLabel).imp fun way next leads => ?_
    cases leads with
    | out => exact .out
    | direct => exact .direct
    | mid isMid => exact .mid (isMid_changeBlocks.mpr isMid)
  case mids =>
    simp only [labels_changeBlocks, isMid_changeBlocks]
    exact matching.mids
  case mid_crosses =>
    simp only [isMid_changeBlocks]
    exact matching.mid_crosses
  case succs_eq =>
    simp only [labels_changeBlocks, goes_changeBlocks]
    exact matching.succs_eq
  case preds_count =>
    simp only [labels_changeBlocks, goes_changeBlocks]
    exact matching.preds_count
  case preds_mem =>
    simp only [labels_changeBlocks]
    exact matching.preds_mem
  case preds_length => exact matching.preds_length

end ChangeBlocks

end Msh.LoopOptInstrumenter
