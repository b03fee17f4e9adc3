import Msh.Bolt.GrownFunction

/-!
# Finding the entries of a loop

The predecessors of the header are marked, or have a block put behind them, if
and only if they stand outside the loop.
-/

namespace Msh.BoundYieldDistanceInstrumenter

open Function Layout X86 LoopFunction

variable {nest : LoopNest} {func : LoopFunction nest}
  {newBlock : Nat → Option Nat} {origin : Nat → Nat}
  {before : Nat → List PreheaderOp} {shown : PreheaderOp → Bool}
  {allowed : Allowed Nat PreheaderOp} {fn fn' : FlowFunction PreheaderOp}
  {loop : Nat} {forks : List Nat}

/-- A function that has grown, and what is seen on its passages -/
structure Tracked (func : LoopFunction nest) (newBlock : Nat → Option Nat)
    (shown : PreheaderOp → Bool) (allowed : Allowed Nat PreheaderOp)
    (origin : Nat → Nat) (before : Nat → List PreheaderOp)
    (fn : FlowFunction PreheaderOp) : Prop
    extends Grown func newBlock origin fn where
  reads : ReadsOff (labels func.fn.code) shown allowed origin before fn.code

/-- A block outside the loop that leads to the header and to other blocks -/
structure Fork (func : LoopFunction nest) (loop : Nat) (origin : Nat → Nat)
    (fn : FlowFunction PreheaderOp) (fork : Nat) : Prop where
  isPred : fork ∈ fn.preds (func.header loop)
  outside : nest.contains loop (origin fork) = false
  several : 1 < (fn.succs fork).length
  succs_once : (fn.succs fork).count (func.header loop) = 1
  goes_once : (goes fn.code fork).count (some (func.header loop)) = 1
  noTable : ∀ targets, exit? fn.code fork ≠ some (.table targets)

/-- All blocks before the loop are marked, but for some that are to have a
block put behind them. -/
structure Entries (func : LoopFunction nest) (loop : Nat) (origin : Nat → Nat)
    (fn : FlowFunction PreheaderOp) (forks : List Nat) : Prop where
  known : ∀ label, some (func.header loop) ∈ goes fn.code label →
    nest.contains loop label = false → label ∈ fn.preds (func.header loop)
  marked_or_inside : ∀ pred ∈ fn.preds (func.header loop),
    fn.isPseudoPreheader pred = true ∨
      nest.contains loop (origin pred) = true ∨ pred ∈ forks
  lastKeeps : ∀ pred ∈ fn.preds (func.header loop),
    fn.isPseudoPreheader pred = true → exit? fn.code pred = some .fall →
    ∃ last, (ops fn.code pred).getLast? = some last ∧
      func.isWrite loop last = false
  distinct : forks.Nodup
  isFork : ∀ fork ∈ forks, Fork func loop origin fn fork

theorem header_old (well : func.WellFormed) (isLoop : IsLoop nest loop) :
    func.header loop ∈ labels func.fn.code :=
  well.contains_mem loop _ (well.header_mem loop isLoop)

/-- A block whose origin is not in the loop is not listed there. -/
theorem Grown.outside (grown : Grown func newBlock origin fn)
    (well : func.WellFormed) {label : Nat}
    (isOutside : nest.contains loop (origin label) = false) :
    nest.contains loop label = false := by
  by_contra inside
  rw [Bool.not_eq_false] at inside
  have isOld := well.contains_mem loop label inside
  rw [grown.origin_old label isOld, inside] at isOutside
  cases isOutside

/-! ## Putting blocks on edges -/

section Splitting

variable {fork : Nat} (tracked : Tracked func newBlock shown allowed origin
    before fn)
  (well : func.WellFormed) (isLoop : IsLoop nest loop)
include tracked well isLoop

/-- One edge less has to be split. -/
theorem Entries.split (split : EdgeSplit fn fork (func.header loop) fn')
    (entries : Entries func loop origin fn (fork :: forks)) :
    Entries func loop (update origin fn.fresh (origin fork)) fn' forks := by
  obtain ⟨newOps, isNew, onEdge⟩ := split.onEdge
  have isFork := entries.isFork fork List.mem_cons_self
  have headerOld := header_old well isLoop
  have isLabel := ((tracked.mem_preds_iff headerOld).mp isFork.isPred).1
  have distinct := List.nodup_cons.mp entries.distinct
  have predNe (pred : Nat) (isPred : pred ∈ fn.preds (func.header loop)) :
      pred ≠ fn.fresh :=
    tracked.ne_fresh ((tracked.mem_preds_iff headerOld).mp isPred).1
  -- Only one edge went from the fork to the header.
  have noMore : some (func.header loop) ∉ goes fn'.code fork := by
    obtain ⟨front, back, notFront, goesBefore, goesAfter⟩ := onEdge.goes_source
    have once := isFork.goes_once
    rw [goesBefore, List.count_append, List.count_cons_self,
      List.count_eq_zero.mpr notFront] at once
    have notBack := List.count_eq_zero.mp
      (show back.count (some (func.header loop)) = 0 by omega)
    have notFresh : func.header loop ≠ fn.fresh :=
      tracked.ne_fresh (tracked.labels_mem _ headerOld)
    rw [goesAfter, List.mem_append, List.mem_cons, Option.some_inj]
    rintro (isFront | isFresh | isBack)
    · exact notFront isFront
    · exact notFresh isFresh
    · exact notBack isBack
  have noMorePred (pred : Nat)
      (isPred : pred ∈ fn'.preds (func.header loop)) :
      pred = fn.fresh ∨
        pred ≠ fork ∧ pred ∈ fn.preds (func.header loop) := by
    rw [split.preds_target, List.mem_append, List.mem_singleton] at isPred
    refine isPred.symm.imp_right fun isOther => ?_
    refine ⟨?_, List.mem_of_mem_erase isOther⟩
    rintro rfl
    have count := tracked.preds_count pred _ headerOld
    rw [if_pos isLabel, isFork.succs_once] at count
    rw [← List.count_pos_iff, List.count_erase_self, count] at isOther
    exact lt_irrefl 0 isOther
  have stillPred (pred : Nat) (notFork : pred ≠ fork)
      (isPred : pred ∈ fn.preds (func.header loop)) :
      pred ∈ fn'.preds (func.header loop) := by
    rw [split.preds_target]
    exact List.mem_append_left _ ((List.mem_erase_of_ne notFork).mpr isPred)
  constructor
  case known =>
    intro label isTarget isOutside
    by_cases isFresh : label = fn.fresh
    · rw [isFresh, split.preds_target]
      exact List.mem_append_right _ (List.mem_singleton_self _)
    · have notFork : label ≠ fork := fun same => noMore (same ▸ isTarget)
      rw [split.goes_other notFork isFresh] at isTarget
      exact stillPred label notFork (entries.known label isTarget isOutside)
  case marked_or_inside =>
    intro pred isPred
    rw [split.marks_eq]
    rcases noMorePred pred isPred with rfl | ⟨notFork, wasPred⟩
    · exact Or.inl (update_self _ _ _)
    · have notFresh := predNe pred wasPred
      rw [update_of_ne notFresh, update_of_ne notFresh]
      rcases entries.marked_or_inside pred wasPred with
        isMarked | isInside | isFork
      · exact Or.inl isMarked
      · exact Or.inr (Or.inl isInside)
      · exact Or.inr (Or.inr (List.mem_of_ne_of_mem notFork isFork))
  case lastKeeps =>
    intro pred isPred isMarked isFall
    rcases noMorePred pred isPred with rfl | ⟨_, wasPred⟩
    · rcases isNew with ⟨_, isJump⟩ | rfl
      · rw [isJump] at isFall
        cases isFall
      · rw [onEdge.ops_new]
        exact ⟨.noop, rfl, rfl⟩
    · have notFresh := predNe pred wasPred
      rw [split.marks_eq, update_of_ne notFresh] at isMarked
      rw [onEdge.ops_old pred notFresh]
      refine entries.lastKeeps pred wasPred isMarked ?_
      have sameShape := onEdge.shape_old pred notFresh
      rw [isFall, Option.map_some] at sameShape
      obtain ⟨exit, isExit, isShape⟩ :=
        Option.map_eq_some_iff.mp sameShape.symm
      cases exit with
      | fall => exact isExit
      | _ => cases isShape
  case distinct => exact distinct.2
  case isFork =>
    intro other isOther
    have wasFork := entries.isFork other (List.mem_cons_of_mem _ isOther)
    have notFork : other ≠ fork := fun same => distinct.1 (same ▸ isOther)
    have notFresh := predNe other wasFork.isPred
    refine ⟨stillPred other notFork wasFork.isPred, ?_, ?_, ?_, ?_, ?_⟩
    · rw [update_of_ne notFresh]
      exact wasFork.outside
    · rw [split.succs_other other notFork notFresh]
      exact wasFork.several
    · rw [split.succs_other other notFork notFresh]
      exact wasFork.succs_once
    · rw [split.goes_other notFork notFresh]
      exact wasFork.goes_once
    · intro targets isTable
      have sameShape := onEdge.shape_old other notFresh
      rw [isTable, Option.map_some] at sameShape
      obtain ⟨exit, isExit, isShape⟩ :=
        Option.map_eq_some_iff.mp sameShape.symm
      cases exit with
      | table others => exact wasFork.noTable others isExit
      | _ => cases isShape

/-- All edges are split, one after the other. -/
theorem Entries.splitAll (nothing : shown .noop = false)
    (entries : Entries func loop origin fn forks) :
    ∃ fn' origin' before',
      (forks.map (·, func.header loop)).foldlM
          (FlowFunction.addMidBlock Exit.redirect? true .noop) fn = some fn' ∧
        Tracked func newBlock shown allowed origin' before' fn' ∧
        Entries func loop origin' fn' [] := by
  induction forks generalizing fn origin before with
  | nil => exact ⟨fn, origin, before, rfl, tracked, entries⟩
  | cons fork forks inductionHypothesis =>
      have isFork := entries.isFork fork List.mem_cons_self
      have headerOld := header_old well isLoop
      obtain ⟨isLabel, isSucc⟩ :=
        (tracked.mem_preds_iff headerOld).mp isFork.isPred
      obtain ⟨fn', isAdded, split⟩ := tracked.addMidBlock isLabel headerOld
        isSucc isFork.goes_once isFork.noTable
      obtain ⟨newOps, isNew, onEdge⟩ := split.onEdge
      have isTarget : some (func.header loop) ∈ goes fn.code fork :=
        List.count_pos_iff.mp (isFork.goes_once ▸ Nat.one_pos)
      have grown := tracked.toGrown.split well split isLabel headerOld isTarget
        isFork.several fun other isOther sameHeader =>
          well.header_inj other loop isOther isLoop sameHeader ▸ isFork.outside
      have notShown : newOps.filter shown = [] := by
        rcases isNew with ⟨rfl, _⟩ | rfl
        · rfl
        · simp [nothing]
      have reads := tracked.reads.onEdge tracked.fresh_new
        (fun _ => tracked.fresh_unused) (tracked.ne_fresh isLabel) onEdge
        headerOld notShown
      obtain ⟨last, origin', before', isRun, tracked', entries'⟩ :=
        inductionHypothesis ⟨grown, reads⟩
          (Entries.split tracked well isLoop split entries)
      refine ⟨last, origin', before', ?_, tracked', entries'⟩
      rw [List.map_cons, List.foldlM_cons, isAdded]
      exact isRun

end Splitting

/-! ## Marking -/

section Marking

variable {contains : Nat → Bool} {preds : List Nat} {label pred : Nat}

/-- The loop over the predecessors comes to the block and marks it. -/
def Reached (contains : Nat → Bool) (succs : Nat → List Nat)
    (preds : List Nat) (label : Nat) : Prop :=
  ∃ front back, preds = front ++ label :: back ∧ contains label = false ∧
    (succs label).length = 1 ∧
    ∀ fork ∈ front, contains fork = false → ¬1 < (succs fork).length

theorem reached_cons {succs : Nat → List Nat} :
    Reached contains succs (pred :: preds) label ↔
      (label = pred ∧ contains pred = false ∧ (succs pred).length = 1) ∨
        (contains pred = false → ¬1 < (succs pred).length) ∧
          Reached contains succs preds label := by
  constructor
  · rintro ⟨front, back, isSplit, isOutside, isSingle, noFork⟩
    cases front with
    | nil =>
        rw [List.nil_append, List.cons.injEq] at isSplit
        rw [isSplit.1]
        exact Or.inl ⟨rfl, isOutside, isSingle⟩
    | cons first front =>
        rw [List.cons_append, List.cons.injEq] at isSplit
        rw [List.forall_mem_cons, ← isSplit.1] at noFork
        exact Or.inr ⟨noFork.1,
          front, back, isSplit.2, isOutside, isSingle, noFork.2⟩
  · rintro (⟨rfl, isOutside, isSingle⟩ |
      ⟨notFork, front, back, rfl, isOutside, isSingle, noFork⟩)
    · exact ⟨[], preds, rfl, isOutside, isSingle, List.forall_mem_nil _⟩
    · exact ⟨pred :: front, back, rfl, isOutside, isSingle,
        List.forall_mem_cons.mpr ⟨notFork, noFork⟩⟩

theorem markPreheaders_spec (contains : Nat → Bool) (preds : List Nat)
    (fn : FlowFunction PreheaderOp) :
    ∃ marks hasPathToFix, markPreheaders contains preds fn =
        ({ fn with isPseudoPreheader := marks }, hasPathToFix) ∧
      (∀ label, marks label = true ↔ fn.isPseudoPreheader label = true ∨
        Reached contains fn.succs preds label) ∧
      (hasPathToFix = true ↔
        ∃ fork ∈ preds, contains fork = false ∧
          1 < (fn.succs fork).length) := by
  induction preds generalizing fn with
  | nil =>
      refine ⟨fn.isPseudoPreheader, false, rfl, fun label => ?_, by simp⟩
      refine (or_iff_left ?_).symm
      rintro ⟨front, back, isSplit, _⟩
      simp at isSplit
  | cons pred preds inductionHypothesis =>
      rw [markPreheaders]
      cases isInside : contains pred with
      | true =>
          obtain ⟨marks, hasPathToFix, isRun, isMarked, isPath⟩ :=
            inductionHypothesis fn
          rw [if_pos rfl]
          refine ⟨marks, hasPathToFix, isRun, fun label => ?_, ?_⟩
          · rw [isMarked, reached_cons]
            simp [isInside]
          · rw [isPath]
            simp [isInside]
      | false =>
          rw [if_neg nofun]
          by_cases isSingle : (fn.succs pred).length = 1
          · obtain ⟨marks, hasPathToFix, isRun, isMarked, isPath⟩ :=
              inductionHypothesis { fn with
                isPseudoPreheader := update fn.isPseudoPreheader pred true }
            rw [if_pos isSingle]
            refine ⟨marks, hasPathToFix, isRun, fun label => ?_, ?_⟩
            · rw [isMarked, reached_cons]
              dsimp only
              by_cases isPred : label = pred
              · simp [isPred, isInside, isSingle]
              · simp [isPred, isSingle]
            · rw [isPath]
              simp [isInside, isSingle]
          · rw [if_neg isSingle]
            by_cases isFork : 1 < (fn.succs pred).length
            · rw [if_pos isFork]
              refine ⟨fn.isPseudoPreheader, true, rfl, fun label => ?_, ?_⟩
              · rw [reached_cons]
                simp [isInside, isSingle, isFork]
              · exact iff_of_true rfl
                  ⟨pred, List.mem_cons_self, isInside, isFork⟩
            · obtain ⟨marks, hasPathToFix, isRun, isMarked, isPath⟩ :=
                inductionHypothesis fn
              rw [if_neg isFork]
              refine ⟨marks, hasPathToFix, isRun, fun label => ?_, ?_⟩
              · rw [isMarked, reached_cons]
                simp [isInside, isSingle, isFork]
              · rw [isPath]
                simp [isInside, isFork]

end Marking

/-! ## The edges to split -/

theorem flatMap_eq_map_filter {α β : Type} {xs : List α} {f : α → List β}
    {p : α → Bool} {g : α → β}
    (same : ∀ x ∈ xs, f x = if p x then [g x] else []) :
    xs.flatMap f = (xs.filter p).map g := by
  induction xs with
  | nil => rfl
  | cons x xs inductionHypothesis =>
      rw [List.forall_mem_cons] at same
      rw [List.flatMap_cons, same.1, inductionHypothesis same.2,
        List.filter_cons]
      split <;> rfl

/-- The blocks outside the loop that lead to the header and to other blocks -/
def outsideForks (nest : LoopNest) (func : LoopFunction nest) (loop : Nat)
    (fn : FlowFunction PreheaderOp) : List Nat :=
  (loopPredecessors (nest.contains loop) fn (func.header loop)).filter
    fun pred => decide (1 < (fn.succs pred).length)

theorem mem_outsideForks {fork : Nat} :
    fork ∈ outsideForks nest func loop fn ↔
      fork ∈ fn.preds (func.header loop) ∧ nest.contains loop fork = false ∧
        1 < (fn.succs fork).length := by
  rw [outsideForks, loopPredecessors, List.mem_filter, List.mem_filter,
    Bool.not_eq_true', decide_eq_true_iff, and_assoc]

section Edges

variable (grown : Grown func newBlock origin fn) (well : func.WellFormed)
  (isLoop : IsLoop nest loop)
include grown well isLoop

theorem outsideForks_nodup
    (isFork : ∀ fork ∈ outsideForks nest func loop fn,
      Fork func loop origin fn fork) :
    (outsideForks nest func loop fn).Nodup := by
  have headerOld := header_old well isLoop
  refine List.nodup_iff_count_le_one.mpr fun fork => ?_
  by_cases member : fork ∈ outsideForks nest func loop fn
  · have found := isFork fork member
    have isLabel := ((grown.mem_preds_iff headerOld).mp found.isPred).1
    have count := grown.preds_count fork _ headerOld
    rw [if_pos isLabel, found.succs_once] at count
    rw [← count]
    exact (List.filter_sublist.trans List.filter_sublist).count_le fork
  · rw [List.count_eq_zero.mpr member]
    exact Nat.zero_le 1

/-- Each of the blocks has one edge to split. -/
theorem edgesToPatch_eq
    (isFork : ∀ fork ∈ outsideForks nest func loop fn,
      Fork func loop origin fn fork) :
    edgesToPatch (nest.contains loop) fn (func.header loop) =
      (outsideForks nest func loop fn).map (·, func.header loop) := by
  have headerOld := header_old well isLoop
  refine flatMap_eq_map_filter fun pred member => ?_
  have isPred := (List.mem_filter.mp member).1
  have isLabel := ((grown.mem_preds_iff headerOld).mp isPred).1
  by_cases several : 1 < (fn.succs pred).length
  · have found := isFork pred (List.mem_filter.mpr
      ⟨member, decide_eq_true several⟩)
    -- A natural loop is entered at its header only.
    have onlyHeader : (fn.succs pred).filter (fun succ =>
          nest.contains loop succ &&
            decide ((fn.succs pred).length ≠ 1)) =
        (fn.succs pred).filter (· == func.header loop) := by
      refine List.filter_congr fun succ isSucc => ?_
      rw [decide_eq_true (Nat.ne_of_gt several), Bool.and_true,
        Bool.eq_iff_iff, beq_iff_eq]
      constructor
      · intro isInside
        have succOld := well.contains_mem loop succ isInside
        exact well.enters_header loop (origin pred) succ
          (grown.succs_old pred isLabel succ succOld isSucc) found.outside
          isInside
      · rintro rfl
        exact well.header_mem loop isLoop
    rw [onlyHeader, List.filter_beq, found.succs_once, decide_eq_true several]
    rfl
  · have isSingle : (fn.succs pred).length = 1 := by
      have isSome := grown.succs_ne_nil headerOld isPred
      omega
    rw [isSingle]
    simp

end Edges

/-! ## All entries -/

section Found

variable {state : Instrumented} {pred : Nat}
  (tracked : Tracked func state.newBlock shown allowed origin before state.fn)
  (well : func.WellFormed) (isLoop : IsLoop nest loop)

theorem Grown.inside_of_isRest
    (grown : Grown func state.newBlock origin state.fn)
    (isRest : IsRest nest state loop pred) :
    nest.contains loop (origin pred) = true := by
  obtain ⟨block, isInside, isNew⟩ := isRest
  rw [(grown.rest_origin block pred isNew).1]
  exact isInside

/-- A predecessor that continues a block of the loop is such a block, or the
rest of one. -/
theorem Grown.isRest_of_inside
    (grown : Grown func state.newBlock origin state.fn)
    (well : func.WellFormed) (isLoop : IsLoop nest loop)
    (isPred : pred ∈ state.fn.preds (func.header loop))
    (notListed : nest.contains loop pred = false)
    (isInside : nest.contains loop (origin pred) = true) :
    IsRest nest state loop pred := by
  have isLabel :=
    ((grown.mem_preds_iff (header_old well isLoop)).mp isPred).1
  have notOld : pred ∉ labels func.fn.code := by
    intro isOld
    rw [grown.origin_old pred isOld, notListed] at isInside
    cases isInside
  have notMarked : state.fn.isPseudoPreheader pred = false := by
    by_contra isMarked
    rw [Bool.not_eq_false] at isMarked
    have isOutside := (grown.marked loop isLoop pred isPred isMarked).2
    rw [isInside] at isOutside
    cases isOutside
  exact ⟨origin pred, isInside, grown.rests pred isLabel notOld notMarked⟩

variable (found : func.EntriesFound state loop)
include tracked well isLoop found

/-- What is marked stands outside the loop. -/
theorem outside_of_reached
    (reached : Reached (nest.contains loop) state.fn.succs
      (state.fn.preds (func.header loop)) pred) :
    nest.contains loop (origin pred) = false := by
  obtain ⟨front, back, isSplit, isOutside, _, noFork⟩ := reached
  have isPred : pred ∈ state.fn.preds (func.header loop) := by
    rw [isSplit]
    exact List.mem_append_right _ List.mem_cons_self
  by_contra isInside
  rw [Bool.not_eq_false] at isInside
  have isRest :=
    tracked.isRest_of_inside well isLoop isPred isOutside isInside
  obtain ⟨_, fork, isFront, forkOutside, isFork⟩ :=
    found.restsBehind front pred back isSplit isRest
  exact noFork fork isFront forkOutside isFork

theorem fork_of_mem
    (member : pred ∈ outsideForks nest func loop state.fn) :
    Fork func loop origin state.fn pred := by
  obtain ⟨isPred, isOutside, several⟩ := mem_outsideForks.mp member
  obtain ⟨succs_once, goes_once, noTable⟩ :=
    found.forksSplit pred isPred isOutside several
  refine ⟨isPred, ?_, several, succs_once, goes_once, noTable⟩
  by_contra isInside
  rw [Bool.not_eq_false] at isInside
  have isRest :=
    tracked.isRest_of_inside well isLoop isPred isOutside isInside
  obtain ⟨front, back, isSplit⟩ := List.append_of_mem isPred
  exact (found.restsBehind front pred back isSplit isRest).1 several

/-- The marking loop comes to each block outside that leads nowhere else. -/
theorem reached_of_outside
    (isPred : pred ∈ state.fn.preds (func.header loop))
    (isOutside : nest.contains loop (origin pred) = false)
    (notFork : ¬IsFork state pred)
    (notMarked : state.fn.isPseudoPreheader pred = false) :
    Reached (nest.contains loop) state.fn.succs
      (state.fn.preds (func.header loop)) pred := by
  have notListed := tracked.toGrown.outside well isOutside
  have notRest : ¬IsRest nest state loop pred := by
    intro isRest
    rw [tracked.inside_of_isRest isRest] at isOutside
    cases isOutside
  have isSome := tracked.succs_ne_nil (header_old well isLoop) isPred
  have notSeveral : ¬1 < (state.fn.succs pred).length := notFork
  obtain ⟨front, back, isSplit⟩ := List.append_of_mem isPred
  exact ⟨front, back, isSplit, notListed, by omega,
    found.forksBehind front pred back isSplit notListed notRest notFork
      notMarked⟩

/-- Marking and splitting deal with all entries. -/
theorem exists_entries (nothing : shown .noop = false) :
    ∃ fn' origin' before',
      fixPaths (nest.contains loop) (func.header loop) state.fn = some fn' ∧
        Tracked func state.newBlock shown allowed origin' before' fn' ∧
        Entries func loop origin' fn' [] := by
  obtain ⟨marks, hasPathToFix, isRun, isMarked, isPath⟩ :=
    markPreheaders_spec (nest.contains loop)
      (state.fn.preds (func.header loop)) state.fn
  have headerOld := header_old well isLoop
  have grown : Grown func state.newBlock origin
      { state.fn with isPseudoPreheader := marks } := by
    refine tracked.toGrown.mark
      (fun label wasMarked => (isMarked label).mpr (Or.inl wasMarked))
      fun other isOther pred isPred marksPred => ?_
    rcases (isMarked pred).mp marksPred with wasMarked | reached
    · exact tracked.marked other isOther pred isPred wasMarked
    · have isOutside := outside_of_reached tracked well isLoop found reached
      obtain ⟨front, back, isSplit, _, isSingle, _⟩ := reached
      have toHeader : pred ∈ state.fn.preds (func.header loop) := by
        rw [isSplit]
        exact List.mem_append_right _ List.mem_cons_self
      have only :=
        (tracked.goes_of_pred headerOld toHeader (by omega)).1
      have isSucc :=
        ((tracked.mem_preds_iff (header_old well isOther)).mp isPred).2
      rw [only, List.mem_singleton] at isSucc
      have sameLoop := well.header_inj other loop isOther isLoop isSucc
      rw [sameLoop]
      exact ⟨only, isOutside⟩
  have isFork : ∀ fork ∈ outsideForks nest func loop state.fn,
      Fork func loop origin { state.fn with isPseudoPreheader := marks }
        fork := by
    intro fork member
    obtain ⟨isPred, isOutside, several, succs_once, goes_once, noTable⟩ :=
      fork_of_mem tracked well isLoop found member
    exact ⟨isPred, isOutside, several, succs_once, goes_once, noTable⟩
  have entries : Entries func loop origin
      { state.fn with isPseudoPreheader := marks }
      (outsideForks nest func loop state.fn) := by
    refine ⟨found.predsKnown, fun pred isPred => ?_,
      fun pred isPred marksPred isFall => ?_,
      outsideForks_nodup tracked.toGrown well isLoop
        fun _ => fork_of_mem tracked well isLoop found, isFork⟩
    · cases isInside : nest.contains loop (origin pred) with
      | true => exact Or.inr (Or.inl rfl)
      | false =>
          by_cases several : IsFork state pred
          · have notListed := tracked.toGrown.outside well isInside
            exact Or.inr (Or.inr
              (mem_outsideForks.mpr ⟨isPred, notListed, several⟩))
          · refine Or.inl ((isMarked pred).mpr ?_)
            cases wasMarked : state.fn.isPseudoPreheader pred with
            | true => exact Or.inl rfl
            | false =>
                exact Or.inr (reached_of_outside tracked well isLoop found
                  isPred isInside several wasMarked)
    · obtain ⟨only, isOutside⟩ :=
        grown.marked loop isLoop pred isPred marksPred
      refine found.lastKeeps pred isPred
        (tracked.toGrown.outside well isOutside) ?_ ?_ isFall
      · intro isRest
        rw [tracked.inside_of_isRest isRest] at isOutside
        cases isOutside
      · intro several
        have isSingle : (state.fn.succs pred).length = 1 :=
          congrArg List.length only
        rw [IsFork, isSingle] at several
        exact lt_irrefl 1 several
  have tracked' : Tracked func state.newBlock shown allowed origin before
      { state.fn with isPseudoPreheader := marks } :=
    ⟨grown, tracked.reads⟩
  obtain ⟨fn', origin', before', isSplit, last⟩ :=
    entries.splitAll tracked' well isLoop nothing
  refine ⟨fn', origin', before', ?_, last⟩
  rw [fixPaths, isRun]
  cases hasPathToFix with
  | true =>
      obtain ⟨fork, isPred, isOutside, several⟩ := isPath.mp rfl
      have member : fork ∈ outsideForks nest func loop state.fn :=
        mem_outsideForks.mpr ⟨isPred, isOutside, several⟩
      have edges := edgesToPatch_eq grown well isLoop isFork
      have notEmpty : ¬(loopPredecessors (nest.contains loop)
            { state.fn with isPseudoPreheader := marks }
            (func.header loop) = [] ∨
          edgesToPatch (nest.contains loop)
            { state.fn with isPseudoPreheader := marks }
            (func.header loop) = []) := by
        rw [edges, List.map_eq_nil_iff]
        rintro (isNil | isNil)
        · exact List.ne_nil_of_mem (List.mem_filter.mp member).1 isNil
        · exact List.ne_nil_of_mem member isNil
      rw [if_pos rfl, createPreheader, if_neg notEmpty, edges]
      exact isSplit
  | false =>
      have noForks : outsideForks nest func loop state.fn = [] := by
        refine List.eq_nil_iff_forall_not_mem.mpr fun fork member => ?_
        obtain ⟨isPred, isOutside, several⟩ := mem_outsideForks.mp member
        cases isPath.mpr ⟨fork, isPred, isOutside, several⟩
      rw [noForks] at isSplit
      rw [if_neg nofun]
      exact isSplit

end Found

end Msh.BoundYieldDistanceInstrumenter
