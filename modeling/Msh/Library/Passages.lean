import Mathlib.Logic.Function.Basic
import Msh.Library.Layout

/-!
# From one block to the next

A transformation may put new blocks between those that were there before.  A
passage is what is executed from where one of the old blocks is entered to
where the next one is.  What can be seen of the passages is known from the
code if each new block continues one other block only.
-/

namespace Layout

/-- What happens when code is executed -/
inductive Event (Label Op : Type) where
  | enter (label : Label)
  | run (op : Op)
  deriving DecidableEq, Repr

variable {Label Op : Type} [DecidableEq Label]

/-- The same code, which also tells where blocks are entered -/
def withEntries (code : List (Block Label Op)) :
    List (Block Label (Event Label Op)) :=
  code.map fun block =>
    ⟨block.label, .enter block.label :: block.ops.map .run, block.exit⟩

/-- What is allowed to be seen on the way to an old block from another one, or
from where the execution began -/
abbrev Allowed (Label Op : Type) : Type :=
  Option Label → Label → List Op → Prop

/-- All passages of an execution are allowed.  It has come from an old block,
and some instructions have been executed since then. -/
def Passages (old : List Label) (shown : Op → Bool)
    (allowed : Allowed Label Op) :
    Option Label → List Op → List (Event Label Op) → Prop
  | _, _, [] => True
  | source, since, .run op :: later =>
      Passages old shown allowed source (since ++ [op]) later
  | source, since, .enter label :: later =>
      if label ∈ old then
        allowed source label (since.filter shown) ∧
          Passages old shown allowed (some label) [] later
      else Passages old shown allowed source since later

/-- A new block is led to from the blocks that continue one old block, and
the same can be seen on all ways from there.  All passages are allowed. -/
structure ReadsOff (old : List Label) (shown : Op → Bool)
    (allowed : Allowed Label Op) (origin : Label → Label)
    (before : Label → List Op) (code : List (Block Label Op)) : Prop where
  origin_old : ∀ label ∈ old, origin label = label
  before_old : ∀ label ∈ old, before label = []
  to_old : ∀ label target, some target ∈ goes code label → target ∈ old →
    allowed (some (origin label)) target
      (before label ++ (ops code label).filter shown)
  to_new : ∀ label target, some target ∈ goes code label → target ∉ old →
    origin target = origin label ∧
      before target = before label ++ (ops code label).filter shown

variable {code code' : List (Block Label Op)} {label target : Label}
  {old : List Label} {shown : Op → Bool} {allowed : Allowed Label Op}

/-! ## Code that tells where blocks are entered -/

theorem goes_withEntries :
    goes (withEntries code) label = goes code label :=
  goes_map (fun _ => rfl) fun _ => rfl

theorem ops_withEntries :
    ops (withEntries code) label =
      if label ∈ labels code then .enter label :: (ops code label).map .run
      else [] := by
  have found : block? (withEntries code) label =
      (block? code label).map fun block =>
        ⟨block.label, .enter block.label :: block.ops.map .run, block.exit⟩ :=
    block?_map fun _ => rfl
  rw [ops, ops, found]
  cases isBlock : block? code label with
  | none =>
      rw [if_neg (block?_eq_none_iff.mp isBlock)]
      rfl
  | some block =>
      have isLabel : label ∈ labels code :=
        block?_isSome_iff.mp (Option.isSome_iff_exists.mpr ⟨block, isBlock⟩)
      have sameLabel := label_of_block? isBlock
      rw [if_pos isLabel, Option.map_some]
      dsimp only
      rw [sameLabel]

/-! ## Executions -/

section Executions

variable {source : Option Label} {since : List Op}

theorem passages_run (ran : List Op) (later : List (Event Label Op)) :
    Passages old shown allowed source since (ran.map .run ++ later) ↔
      Passages old shown allowed source (since ++ ran) later := by
  induction ran generalizing since with
  | nil => rw [List.map_nil, List.nil_append, List.append_nil]
  | cons op ran inductionHypothesis =>
      rw [List.map_cons, List.cons_append, Passages, inductionHypothesis,
        List.append_assoc, List.singleton_append]

theorem passages_of_isPrefix {ran : List Op}
    {trace : List (Event Label Op)} (isPrefix : trace <+: ran.map .run) :
    Passages old shown allowed source since trace := by
  obtain ⟨first, _, rfl⟩ := List.prefix_map_iff.mp isPrefix
  have nothing :=
    @passages_run Label Op _ old shown allowed source since first []
  rw [List.append_nil] at nothing
  exact nothing.mpr trivial

namespace ReadsOff

variable {origin : Label → Label} {before : Label → List Op}
  (reads : ReadsOff old shown allowed origin before code)
include reads

/-- Behind the entry of a block it does not matter how it was entered. -/
theorem enter {trace : List (Event Label Op)}
    (atOld : label ∈ old → allowed source label (since.filter shown))
    (atNew : label ∉ old →
      source = some (origin label) ∧ since.filter shown = before label)
    (inside : ∀ since', since'.filter shown = before label →
      Passages old shown allowed (some (origin label)) since' trace) :
    Passages old shown allowed source since (.enter label :: trace) := by
  rw [Passages]
  split
  · next isOld =>
      have passages := inside [] (reads.before_old label isOld).symm
      rw [reads.origin_old label isOld] at passages
      exact ⟨atOld isOld, passages⟩
  · next isNew =>
      obtain ⟨rfl, same⟩ := atNew isNew
      exact inside since same

theorem passages {trace : List (Event Label Op)}
    (isTrace : Trace (withEntries code) label trace)
    (atOld : label ∈ old → allowed source label (since.filter shown))
    (atNew : label ∉ old →
      source = some (origin label) ∧ since.filter shown = before label) :
    Passages old shown allowed source since trace := by
  induction isTrace generalizing source since with
  | @inside label trace isPrefix =>
      rw [ops_withEntries] at isPrefix
      split at isPrefix
      · rcases List.prefix_cons_iff.mp isPrefix with rfl | ⟨rest, rfl, isRest⟩
        · trivial
        · exact reads.enter atOld atNew fun since' _ =>
            passages_of_isPrefix isRest
      · rw [List.prefix_nil.mp isPrefix]
        trivial
  | @step label target trace isTarget later inductionHypothesis =>
      rw [goes_withEntries] at isTarget
      have isLabel : label ∈ labels code := by
        by_contra notLabel
        rw [goes_of_not_mem notLabel] at isTarget
        cases isTarget
      rw [ops_withEntries, if_pos isLabel, List.cons_append]
      refine reads.enter atOld atNew fun since' same => ?_
      rw [passages_run]
      refine inductionHypothesis (fun isOld => ?_) fun isNew => ?_
      · rw [List.filter_append, same]
        exact reads.to_old label target isTarget isOld
      · obtain ⟨sameOrigin, sameBefore⟩ :=
          reads.to_new label target isTarget isNew
        rw [List.filter_append, same, sameOrigin, sameBefore]
        exact ⟨rfl, rfl⟩

end ReadsOff

end Executions

/-! ## Changing code -/

namespace ReadsOff

open Function

variable {origin : Label → Label} {before : Label → List Op}
  {source new : Label}
  (reads : ReadsOff old shown allowed origin before code)
include reads

/-- Other instructions at the ends of blocks, which change what is allowed -/
theorem append {allowed' : Allowed Label Op} {more : Label → List Op}
    (goes_eq : ∀ label, goes code' label = goes code label)
    (ops_eq : ∀ label, (ops code' label).filter shown =
      (ops code label).filter shown ++ more label)
    (onlyOld : ∀ label target, some target ∈ goes code label →
      target ∉ old → more label = [])
    (stillAllowed : ∀ label target, some target ∈ goes code label →
      target ∈ old → ∀ seen, allowed (some (origin label)) target seen →
        allowed' (some (origin label)) target (seen ++ more label)) :
    ReadsOff old shown allowed' origin before code' where
  origin_old := reads.origin_old
  before_old := reads.before_old
  to_old := by
    intro label target isTarget isOld
    rw [goes_eq] at isTarget
    rw [ops_eq, ← List.append_assoc]
    exact stillAllowed label target isTarget isOld _
      (reads.to_old label target isTarget isOld)
  to_new := by
    intro label target isTarget isNew
    rw [goes_eq] at isTarget
    rw [ops_eq, onlyOld label target isTarget isNew, List.append_nil]
    exact reads.to_new label target isTarget isNew

/-- Other instructions of which nothing is seen -/
theorem congr (goes_eq : ∀ label, goes code' label = goes code label)
    (ops_eq : ∀ label,
      (ops code' label).filter shown = (ops code label).filter shown) :
    ReadsOff old shown allowed origin before code' := by
  refine @append _ _ _ _ _ _ _ _ _ _ reads _ (fun _ => []) goes_eq
    (fun label => ?_) (fun _ _ _ _ => rfl)
    fun label target _ _ seen isAllowed => ?_
  · rw [ops_eq, List.append_nil]
  · rwa [List.append_nil]

variable (notOld : new ∉ old) (unused : ∀ label, some new ∉ goes code label)
  (notNew : source ≠ new)
include notOld unused notNew

/-- A block on an edge -/
theorem onEdge {newOps : List Op}
    (onEdge : OnEdge code source target new newOps code')
    (isOld : target ∈ old) (nothing : newOps.filter shown = []) :
    ReadsOff old shown allowed (update origin new (origin source))
      (update before new (before source ++ (ops code source).filter shown))
      code' := by
  obtain ⟨front, back, _, goesBefore, goesAfter⟩ := onEdge.goes_source
  have toTarget : some target ∈ goes code source := by
    rw [goesBefore]
    exact List.mem_append_right _ List.mem_cons_self
  -- Where a block leads to, if that is not the new one
  have wasTarget (label next : Label) (labelOld : label ≠ new)
      (nextOld : next ≠ new) (isNext : some next ∈ goes code' label) :
      some next ∈ goes code label := by
    by_cases isSource : label = source
    · rw [isSource, goesAfter] at isNext
      rw [isSource, goesBefore]
      simp only [List.mem_append, List.mem_cons, Option.some_inj, nextOld,
        false_or] at isNext
      exact List.mem_append.mpr
        (isNext.imp_right fun isBack => List.mem_cons_of_mem _ isBack)
    · rwa [onEdge.goes_other label isSource labelOld] at isNext
  refine ⟨fun label isLabel => ?_, fun label isLabel => ?_,
    fun label next isNext nextOld => ?_, fun label next isNext nextNew => ?_⟩
  · have notAdded : label ≠ new := fun same => notOld (same ▸ isLabel)
    rw [update_of_ne notAdded]
    exact reads.origin_old label isLabel
  · have notAdded : label ≠ new := fun same => notOld (same ▸ isLabel)
    rw [update_of_ne notAdded]
    exact reads.before_old label isLabel
  · by_cases isNew : label = new
    · subst isNew
      rw [onEdge.goes_new, List.mem_singleton, Option.some_inj] at isNext
      subst isNext
      rw [update_self, update_self, onEdge.ops_new, nothing, List.append_nil]
      exact reads.to_old source next toTarget nextOld
    · rw [update_of_ne isNew, update_of_ne isNew, onEdge.ops_old label isNew]
      have nextNe : next ≠ new := fun same => notOld (same ▸ nextOld)
      exact reads.to_old label next
        (wasTarget label next isNew nextNe isNext) nextOld
  · by_cases isNew : label = new
    · rw [isNew, onEdge.goes_new, List.mem_singleton, Option.some_inj]
        at isNext
      exact absurd (isNext ▸ isOld) nextNew
    · rw [update_of_ne isNew, update_of_ne isNew, onEdge.ops_old label isNew]
      by_cases isAdded : next = new
      · subst isAdded
        have isSource : label = source := by
          by_contra notSource
          rw [onEdge.goes_other label notSource isNew] at isNext
          exact unused label isNext
        rw [update_self, update_self, isSource]
        exact ⟨rfl, rfl⟩
      · rw [update_of_ne isAdded, update_of_ne isAdded]
        exact reads.to_new label next
          (wasTarget label next isNew isAdded isNext) nextNew

/-- The rest of a block in a new block, to which the first part leads -/
theorem splitOff
    (goes_source : ∀ next ∈ goes code' source, next = some new ∨
      next ∈ goes code source ∧ (ops code' new).filter shown = [])
    (goes_new : ∀ next ∈ goes code' new, next ∈ goes code source)
    (goes_other : ∀ label, label ≠ source → label ≠ new →
      goes code' label = goes code label)
    (ops_eq : (ops code' source).filter shown ++ (ops code' new).filter shown =
      (ops code source).filter shown)
    (ops_other : ∀ label, label ≠ source → label ≠ new →
      ops code' label = ops code label) :
    ReadsOff old shown allowed (update origin new (origin source))
      (update before new (before source ++ (ops code' source).filter shown))
      code' := by
  refine ⟨fun label isLabel => ?_, fun label isLabel => ?_,
    fun label next isNext nextOld => ?_, fun label next isNext nextNew => ?_⟩
  · have notAdded : label ≠ new := fun same => notOld (same ▸ isLabel)
    rw [update_of_ne notAdded]
    exact reads.origin_old label isLabel
  · have notAdded : label ≠ new := fun same => notOld (same ▸ isLabel)
    rw [update_of_ne notAdded]
    exact reads.before_old label isLabel
  · by_cases isNew : label = new
    · subst isNew
      rw [update_self, update_self, List.append_assoc, ops_eq]
      exact reads.to_old source next (goes_new _ isNext) nextOld
    · rw [update_of_ne isNew, update_of_ne isNew]
      by_cases isSource : label = source
      · subst isSource
        rcases goes_source _ isNext with isAdded | ⟨wasNext, nothing⟩
        · exact absurd (Option.some_inj.mp isAdded ▸ nextOld) notOld
        · rw [nothing, List.append_nil] at ops_eq
          rw [ops_eq]
          exact reads.to_old label next wasNext nextOld
      · rw [ops_other label isSource isNew]
        rw [goes_other label isSource isNew] at isNext
        exact reads.to_old label next isNext nextOld
  · by_cases isNew : label = new
    · subst isNew
      have wasNext := goes_new _ isNext
      have nextNe : next ≠ label := fun same => unused source (same ▸ wasNext)
      rw [update_self, update_self, update_of_ne nextNe, update_of_ne nextNe,
        List.append_assoc, ops_eq]
      exact reads.to_new source next wasNext nextNew
    · rw [update_of_ne isNew, update_of_ne isNew]
      by_cases isSource : label = source
      · subst isSource
        rcases goes_source _ isNext with isAdded | ⟨wasNext, nothing⟩
        · rw [Option.some_inj.mp isAdded, update_self, update_self]
          exact ⟨rfl, rfl⟩
        · have nextNe : next ≠ new := fun same => unused label (same ▸ wasNext)
          rw [nothing, List.append_nil] at ops_eq
          rw [update_of_ne nextNe, update_of_ne nextNe, ops_eq]
          exact reads.to_new label next wasNext nextNew
      · rw [goes_other label isSource isNew] at isNext
        have nextNe : next ≠ new := fun same => unused label (same ▸ isNext)
        rw [update_of_ne nextNe, update_of_ne nextNe,
          ops_other label isSource isNew]
        exact reads.to_new label next isNext nextNew

end ReadsOff

end Layout
