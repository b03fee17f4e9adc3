import Msh.Library.Layout

/-!
# Instructions on edges

A transformation may want instructions to be executed on the way from one
block to another.  It puts them at the end of the first block, at the start of
the second one, or into a block of their own between the two.  What is
executed then is a trace of the original code with these instructions on its
edges, apart from instructions that are not to be seen.
-/

namespace Layout

variable {Label Op : Type} [DecidableEq Label]

/-- What may have been executed from the start of a block on if instructions
stand on the edges -/
inductive EdgeTrace (code : List (Block Label Op))
    (onEdge : Label → Label → List Op) : Label → List Op → Prop where
  | inside {label : Label} {trace : List Op}
      (isPrefix : trace <+: ops code label) :
      EdgeTrace code onEdge label trace
  | edge {label target : Label} {trace : List Op}
      (isTarget : some target ∈ goes code label)
      (isPrefix : trace <+: onEdge label target) :
      EdgeTrace code onEdge label (ops code label ++ trace)
  | step {label target : Label} {trace : List Op}
      (isTarget : some target ∈ goes code label)
      (later : EdgeTrace code onEdge target trace) :
      EdgeTrace code onEdge label
        (ops code label ++ (onEdge label target ++ trace))

/-- A block of the new code stands for the way from one block to another. -/
inductive Via (visible : Op → Bool) (code' : List (Block Label Op))
    (onEdge : Label → Label → List Op) (pre post : Label → List Op)
    (label target : Label) : Label → Prop where
  | direct (isEdge : post label ++ pre target = onEdge label target) :
      Via visible code' onEdge pre post label target target
  | between {mid : Label} (isOnly : goes code' mid = [some target])
      (isEdge : post label ++ ((ops code' mid).filter visible ++ pre target) =
        onEdge label target) :
      Via visible code' onEdge pre post label target mid

/-- The new code has what is to stand on the edges at the end and at the start
of its blocks and in blocks of their own. -/
structure Carries (visible : Op → Bool) (code code' : List (Block Label Op))
    (onEdge : Label → Label → List Op) (pre post : Label → List Op) :
    Prop where
  targets_mem : ∀ label target, some target ∈ goes code label →
    target ∈ labels code
  ops_eq : ∀ label ∈ labels code, (ops code' label).filter visible =
    pre label ++ (ops code label ++ post label)
  post_edge : ∀ label ∈ labels code, post label ≠ [] →
    ∃ target, some target ∈ goes code label
  isVia : ∀ label ∈ labels code, ∀ next, some next ∈ goes code' label →
    ∃ target, some target ∈ goes code label ∧
      Via visible code' onEdge pre post label target next
  hasVia : ∀ label ∈ labels code, ∀ target, some target ∈ goes code label →
    ∃ next, some next ∈ goes code' label ∧
      Via visible code' onEdge pre post label target next

variable {code code' : List (Block Label Op)} {label : Label}
  {trace : List Op}

/-! ## Traces stop anywhere -/

theorem within_or_behind {first second : List Op}
    (isPrefix : trace <+: first ++ second) :
    trace <+: first ∨
      ∃ rest, trace = first ++ rest ∧ rest <+: second := by
  rcases List.prefix_or_prefix_of_prefix isPrefix
    (List.prefix_append first second) with within | ⟨rest, rfl⟩
  · exact Or.inl within
  · exact Or.inr ⟨rest, rfl, (List.prefix_append_right_inj first).mp isPrefix⟩

theorem Trace.of_isPrefix (isTrace : Trace code label trace)
    {shorter : List Op} (isPrefix : shorter <+: trace) :
    Trace code label shorter := by
  induction isTrace generalizing shorter with
  | inside within => exact .inside (isPrefix.trans within)
  | step isTarget later inductionHypothesis =>
      rcases within_or_behind isPrefix with within | ⟨rest, rfl, isRest⟩
      · exact .inside within
      · exact .step isTarget (inductionHypothesis isRest)

variable {onEdge : Label → Label → List Op}

theorem EdgeTrace.of_isPrefix (isTrace : EdgeTrace code onEdge label trace)
    {shorter : List Op} (isPrefix : shorter <+: trace) :
    EdgeTrace code onEdge label shorter := by
  induction isTrace generalizing shorter with
  | inside within => exact .inside (isPrefix.trans within)
  | edge isTarget onIt =>
      rcases within_or_behind isPrefix with within | ⟨rest, rfl, isRest⟩
      · exact .inside within
      · exact .edge isTarget (isRest.trans onIt)
  | step isTarget later inductionHypothesis =>
      rcases within_or_behind isPrefix with within | ⟨rest, rfl, isRest⟩
      · exact .inside within
      · rcases within_or_behind isRest with onIt | ⟨last, rfl, isLast⟩
        · exact .edge isTarget onIt
        · exact .step isTarget (inductionHypothesis isLast)

/-- How a trace with instructions on the edges begins -/
theorem EdgeTrace.inv (isTrace : EdgeTrace code onEdge label trace) :
    trace <+: ops code label ∨
      ∃ target rest, some target ∈ goes code label ∧
        trace = ops code label ++ rest ∧
        (rest <+: onEdge label target ∨
          ∃ later, rest = onEdge label target ++ later ∧
            EdgeTrace code onEdge target later) := by
  cases isTrace with
  | inside isPrefix => exact Or.inl isPrefix
  | edge isTarget isPrefix =>
      exact Or.inr ⟨_, _, isTarget, rfl, Or.inl isPrefix⟩
  | step isTarget later =>
      exact Or.inr ⟨_, _, isTarget, rfl, Or.inr ⟨_, rfl, later⟩⟩

/-- What can be seen of a trace -/
def Sees (visible : Op → Bool) (code : List (Block Label Op)) (label : Label)
    (seen : List Op) : Prop :=
  ∃ trace, Trace code label trace ∧ trace.filter visible = seen

variable {visible : Op → Bool} {seen : List Op}

theorem Sees.of_isPrefix (sees : Sees visible code label seen)
    {shorter : List Op} (isPrefix : shorter <+: seen) :
    Sees visible code label shorter := by
  obtain ⟨trace, isTrace, rfl⟩ := sees
  obtain ⟨less, isLess, rfl⟩ := List.prefix_filter_iff.mp isPrefix
  exact ⟨less, isTrace.of_isPrefix isLess, rfl⟩

theorem sees_ops : Sees visible code label ((ops code label).filter visible) :=
  ⟨_, .inside List.prefix_rfl, rfl⟩

theorem Sees.step {target : Label} (isTarget : some target ∈ goes code label)
    (later : Sees visible code target seen) :
    Sees visible code label ((ops code label).filter visible ++ seen) := by
  obtain ⟨trace, isTrace, rfl⟩ := later
  exact ⟨_, .step isTarget isTrace, List.filter_append _ _⟩

/-! ## The traces of the new code -/

/-- Some instructions and a trace behind them, or not all of the
instructions -/
def Behind (code : List (Block Label Op)) (onEdge : Label → Label → List Op)
    (first : List Op) (label : Label) (seen : List Op) : Prop :=
  seen <+: first ∨
    ∃ trace, seen = first ++ trace ∧ EdgeTrace code onEdge label trace

variable {pre post : Label → List Op}

/-- What is behind an edge is a trace from its source on. -/
theorem edgeTrace_of_behind {target : Label}
    (isTarget : some target ∈ goes code label)
    (behind : Behind code onEdge (onEdge label target) target seen) :
    EdgeTrace code onEdge label (ops code label ++ seen) := by
  rcases behind with isPrefix | ⟨trace, rfl, isTrace⟩
  · exact .edge isTarget isPrefix
  · exact .step isTarget isTrace

theorem Behind.append {first : List Op} (more : List Op)
    (behind : Behind code onEdge first label seen) :
    Behind code onEdge (more ++ first) label (more ++ seen) := by
  rcases behind with isPrefix | ⟨trace, rfl, isTrace⟩
  · exact Or.inl ((List.prefix_append_right_inj more).mpr isPrefix)
  · exact Or.inr ⟨trace, (List.append_assoc _ _ _).symm, isTrace⟩

namespace Carries

/-- What is seen from a block of the original code on -/
theorem behind_pre (carries : Carries visible code code' onEdge pre post)
    (isTrace : Trace code' label trace) :
    (label ∈ labels code →
      Behind code onEdge (pre label) label (trace.filter visible)) ∧
    ∀ target ∈ labels code, goes code' label = [some target] →
      Behind code onEdge ((ops code' label).filter visible ++ pre target) target
        (trace.filter visible) := by
  induction isTrace with
  | @inside label trace isPrefix =>
      have isVisible := isPrefix.filter visible
      refine ⟨fun isLabel => ?_, fun target _ _ => ?_⟩
      · rw [carries.ops_eq label isLabel] at isVisible
        rcases within_or_behind isVisible with within | ⟨rest, same, isRest⟩
        · exact Or.inl within
        · refine Or.inr ⟨rest, same, ?_⟩
          rcases within_or_behind isRest with inside | ⟨last, rfl, isLast⟩
          · exact .inside inside
          · by_cases hasPost : post label = []
            · rw [hasPost, List.prefix_nil] at isLast
              rw [isLast, List.append_nil]
              exact .inside List.prefix_rfl
            · obtain ⟨target, isTarget⟩ :=
                carries.post_edge label isLabel hasPost
              obtain ⟨next, _, via⟩ :=
                carries.hasVia label isLabel target isTarget
              refine .edge isTarget (isLast.trans ?_)
              cases via with
              | direct isEdge => exact isEdge ▸ List.prefix_append _ _
              | between _ isEdge => exact isEdge ▸ List.prefix_append _ _
      · exact Or.inl (isVisible.trans (List.prefix_append _ _))
  | @step label next trace isNext later inductionHypothesis =>
      rw [List.filter_append]
      refine ⟨fun isLabel => ?_, fun target isLabel isOnly => ?_⟩
      · obtain ⟨target, isTarget, via⟩ := carries.isVia label isLabel next isNext
        have targetIn := carries.targets_mem label target isTarget
        rw [carries.ops_eq label isLabel, List.append_assoc, List.append_assoc]
        refine Or.inr ⟨_, rfl, edgeTrace_of_behind isTarget ?_⟩
        cases via with
        | direct isEdge =>
            rw [← isEdge]
            exact (inductionHypothesis.1 targetIn).append _
        | between isOnly isEdge =>
            rw [← isEdge]
            exact (inductionHypothesis.2 target targetIn isOnly).append _
      · rw [isOnly, List.mem_singleton, Option.some_inj] at isNext
        subst isNext
        exact (inductionHypothesis.1 isLabel).append _

/-- A trace of the original code with its edges can be seen. -/
theorem sees_pre (carries : Carries visible code code' onEdge pre post)
    (isLabel : label ∈ labels code)
    (isTrace : EdgeTrace code onEdge label trace) :
    Sees visible code' label (pre label ++ trace) := by
  -- From the end of a block over an edge to what can be seen behind it
  have crossed {label target : Label} {rest : List Op}
      (isLabel : label ∈ labels code) (isTarget : some target ∈ goes code label)
      (sees : Sees visible code' target (pre target ++ rest)) :
      Sees visible code' label
        (pre label ++ (ops code label ++ (onEdge label target ++ rest))) := by
    obtain ⟨next, isNext, via⟩ := carries.hasVia label isLabel target isTarget
    cases via with
    | direct isEdge =>
        have whole := sees.step isNext
        rw [carries.ops_eq label isLabel] at whole
        rw [← isEdge]
        simpa only [List.append_assoc] using whole
    | between isOnly isEdge =>
        have onlyNext : some target ∈ goes code' next := by
          rw [isOnly]
          exact List.mem_singleton_self _
        have whole := (sees.step onlyNext).step isNext
        rw [carries.ops_eq label isLabel] at whole
        rw [← isEdge]
        simpa only [List.append_assoc] using whole
  induction isTrace with
  | @inside label trace isPrefix =>
      have whole : Sees visible code' label
          ((ops code' label).filter visible) := sees_ops
      rw [carries.ops_eq label isLabel] at whole
      refine whole.of_isPrefix ((List.prefix_append_right_inj _).mpr ?_)
      exact isPrefix.trans (List.prefix_append _ _)
  | @edge label target trace isTarget isPrefix =>
      have targetIn := carries.targets_mem label target isTarget
      have atTarget : Sees visible code' target (pre target ++ []) := by
        have whole : Sees visible code' target
            ((ops code' target).filter visible) := sees_ops
        rw [carries.ops_eq target targetIn] at whole
        refine whole.of_isPrefix ((List.prefix_append_right_inj _).mpr ?_)
        exact List.nil_prefix
      refine (crossed isLabel isTarget atTarget).of_isPrefix ?_
      rw [List.append_nil, List.prefix_append_right_inj,
        List.prefix_append_right_inj]
      exact isPrefix
  | @step label target trace isTarget later inductionHypothesis =>
      have targetIn := carries.targets_mem label target isTarget
      exact crossed isLabel isTarget (inductionHypothesis targetIn)

/-- What can be seen of the new code are the traces of the original one with
what is to stand on its edges. -/
theorem sees_iff (carries : Carries visible code code' onEdge pre post)
    (isLabel : label ∈ labels code) (noPre : pre label = []) :
    Sees visible code' label seen ↔ EdgeTrace code onEdge label seen := by
  constructor
  · rintro ⟨trace, isTrace, rfl⟩
    have behind := (carries.behind_pre isTrace).1 isLabel
    rw [noPre] at behind
    rcases behind with isPrefix | ⟨rest, same, isRest⟩
    · rw [List.prefix_nil.mp isPrefix]
      exact .inside List.nil_prefix
    · rw [same, List.nil_append]
      exact isRest
  · intro isTrace
    have sees := carries.sees_pre isLabel isTrace
    rwa [noPre, List.nil_append] at sees

end Carries

end Layout
