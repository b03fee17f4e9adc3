import Msh.Bolt.LoopEdges

/-!
# Splitting edges

While edges are split, every way of the original function stays: it leads to
its old target or to a new block that leads there.
-/

namespace Msh

open Function Layout

namespace FlowFunction

variable {Op : Type}

theorem replaceFirst_eq {old : Nat} (new : Nat) {front : List Nat}
    (back : List Nat) (notFront : old ∉ front) :
    replaceFirst old new (front ++ old :: back) =
      some (front ++ new :: back) := by
  induction front with
  | nil => rw [List.nil_append, replaceFirst, if_pos rfl, List.nil_append]
  | cons first rest inductionHypothesis =>
      rw [List.mem_cons, not_or] at notFront
      rw [List.cons_append, replaceFirst, if_neg (Ne.symm notFront.1),
        inductionHypothesis notFront.2, Option.map_some, List.cons_append]

/-! ## Instructions in another form -/

section MapOps

variable {Op' : Type} {f : Op → Op'} {fn : FlowFunction Op} {label : Nat}

theorem labels_mapOps : labels (fn.mapOps f).code = labels fn.code :=
  labels_map fun _ => rfl

theorem goes_mapOps : goes (fn.mapOps f).code label = goes fn.code label :=
  goes_map (fun _ => rfl) fun _ => rfl

theorem exit?_mapOps : exit? (fn.mapOps f).code label = exit? fn.code label :=
  exit?_map (fun _ => rfl) fun _ => rfl

theorem ops_mapOps :
    ops (fn.mapOps f).code label = (ops fn.code label).map f := by
  have found : block? (fn.mapOps f).code label =
      (block? fn.code label).map fun block =>
        ⟨block.label, block.ops.map f, block.exit⟩ :=
    block?_map fun _ => rfl
  rw [ops, ops, found]
  cases block? fn.code label <;> rfl

end MapOps

/-! ## Splitting an edge -/

/-- An edge of a function has been split. -/
structure Split (noop : Op) (fn : FlowFunction Op) (source target : Nat)
    (fn' : FlowFunction Op) : Prop where
  onEdge : ∃ newOps, (newOps = [] ∨ newOps = [noop]) ∧
    OnEdge fn.code source target fn.fresh newOps fn'.code
  fresh_eq : fn'.fresh = fn.fresh + 1
  succs_source : fn'.succs source = (goes fn'.code source).filterMap id
  succs_mid : fn'.succs fn.fresh = [target]
  succs_other : ∀ label, label ≠ source → label ≠ fn.fresh →
    fn'.succs label = fn.succs label
  preds_mid : fn'.preds fn.fresh = [source]
  preds_target :
    fn'.preds target = (fn.preds target).erase source ++ [fn.fresh]
  preds_other : ∀ label, label ≠ target → label ≠ fn.fresh →
    fn'.preds label = fn.preds label

variable {fn : FlowFunction Op} {source target : Nat} {noop : Op}
  {findBranch : Nat → Nat → Exit Nat → Option (Exit Nat)} {isPreheader : Bool}
  {block : Block Nat Op}

/-- The function with a block on an edge, once the edge has been found -/
theorem addMidBlock_eq {succs : List Nat} (sourceOld : source ≠ fn.fresh)
    (targetOld : target ≠ fn.fresh)
    (replaced : replaceFirst target fn.fresh (fn.succs source) = some succs) :
    addMidBlock findBranch isPreheader noop fn (source, target) = some {
      code := layMidBlock findBranch noop fn.code (source, target) fn.fresh
      entry := fn.entry
      succs := update (update fn.succs source succs) fn.fresh [target]
      preds := update (update fn.preds target
        ((fn.preds target).erase source ++ [fn.fresh])) fn.fresh [source]
      isPseudoPreheader := update fn.isPseudoPreheader fn.fresh isPreheader
      fresh := fn.fresh + 1 } := by
  have replacedFirst : replaceFirst target fn.fresh
      ((fn.createBasicBlock isPreheader).succs source) = some succs := by
    have sameSuccs : (fn.createBasicBlock isPreheader).succs source =
        fn.succs source :=
      update_of_ne sourceOld _ _
    rw [sameSuccs, replaced]
  rw [addMidBlock, replaceSuccessor, replacedFirst, Option.map_some,
    Option.map_some, Option.some_inj]
  simp only [createBasicBlock, addSuccessor, FlowFunction.mk.injEq, true_and,
    and_true]
  constructor
  · funext label
    by_cases isFresh : label = fn.fresh
    · simp [isFresh, Ne.symm sourceOld]
    · simp [update_of_ne isFresh, update_apply]
  · funext label
    by_cases isFresh : label = fn.fresh
    · simp [isFresh, Ne.symm targetOld]
    · by_cases isTarget : label = target
      · simp [isTarget, targetOld]
      · simp [isFresh, isTarget]

theorem addMidBlock_splits (distinct : (labels fn.code).Nodup)
    (closed : EndsClosed fn.code) (notLabel : fn.fresh ∉ labels fn.code)
    (isBlock : block? fn.code source = some block)
    (succs_eq : fn.succs source = (goes fn.code source).filterMap id)
    (isTarget : some target ∈ goes fn.code source)
    (targetIn : target ∈ labels fn.code)
    (notTable : ∀ targets, block.exit ≠ .table targets)
    (notBoth : block.exit ≠ .branchJump target target)
    (finds : findBranch target fn.fresh block.exit =
      block.exit.redirect? target fn.fresh) :
    ∃ fn', addMidBlock findBranch isPreheader noop fn (source, target) =
        some fn' ∧
      Split noop fn source target fn' := by
  have sourceIn : source ∈ labels fn.code :=
    block?_isSome_iff.mp (Option.isSome_iff_exists.mpr ⟨block, isBlock⟩)
  have sourceOld : source ≠ fn.fresh := fun same => notLabel (same ▸ sourceIn)
  have targetOld : target ≠ fn.fresh := fun same => notLabel (same ▸ targetIn)
  obtain ⟨newOps, isNew, onEdge⟩ :
      ∃ newOps, (newOps = [] ∨ newOps = [noop]) ∧
        OnEdge fn.code source target fn.fresh newOps
          (layMidBlock findBranch noop fn.code (source, target) fn.fresh) := by
    rw [layMidBlock, exit?, isBlock, Option.map_some, Option.bind_some, finds]
    cases isRedirected : block.exit.redirect? target fn.fresh with
    | some exit =>
        exact ⟨[], Or.inl rfl,
          onEdge_redirect distinct closed isBlock notLabel isRedirected
            notBoth⟩
    | none =>
        exact ⟨[noop], Or.inr rfl,
          onEdge_fall distinct closed isBlock notLabel isRedirected notTable
            isTarget⟩
  obtain ⟨front, back, notFront, before, after⟩ := onEdge.goes_source
  have replaced : replaceFirst target fn.fresh (fn.succs source) =
      some ((goes (layMidBlock findBranch noop fn.code (source, target)
        fn.fresh) source).filterMap id) := by
    have notMem : target ∉ front.filterMap id := by
      intro member
      obtain ⟨way, inFront, isSome⟩ := List.mem_filterMap.mp member
      rw [id_eq] at isSome
      exact notFront (isSome ▸ inFront)
    rw [succs_eq, before, after, List.filterMap_append, List.filterMap_append]
    exact replaceFirst_eq fn.fresh (back.filterMap id) notMem
  refine ⟨_, addMidBlock_eq sourceOld targetOld replaced,
    ⟨newOps, isNew, onEdge⟩, rfl, ?_, ?_, ?_, ?_, ?_, ?_⟩
  · dsimp only
    rw [update_of_ne sourceOld, update_self]
  · exact update_self _ _ _
  · intro label notSource notFresh
    dsimp only
    rw [update_of_ne notFresh, update_of_ne notSource]
  · exact update_self _ _ _
  · dsimp only
    rw [update_of_ne targetOld, update_self]
  · intro label notTarget notFresh
    dsimp only
    rw [update_of_ne notFresh, update_of_ne notTarget]

end FlowFunction

end Msh
