import Msh.Bolt.ExitEdges

/-!
# Executions of an instrumented function

Each loop's turn puts its pushes and pops on the edges.  After the last one,
what is executed is the original function with a push where a loop is entered
and a pop where it is left.
-/

namespace Msh.LoopOptInstrumenter

open Function Layout FlowFunction

variable {Op : Type} {fn : FlowFunction Op} {loops done later : List BinaryLoop}
  {loop : BinaryLoop} {onEdge : Nat → Nat → List (LoopOp Op)}
  {pre post : Nat → List (LoopOp Op)} {func func' : FlowFunction (LoopOp Op)}
  {label source target : Nat}

/-! ## One loop after the other -/

theorem Matches.mono (matching : Matches fn done onEdge pre post func)
    {more : List BinaryLoop} (isSubset : ∀ loop ∈ done, loop ∈ more) :
    Matches fn more onEdge pre post func := by
  refine { matching with mid_crosses := fun label target mid isMid => ?_ }
  obtain ⟨loop, isDone, crosses⟩ :=
    matching.mid_crosses label target mid isMid
  exact ⟨loop, isSubset loop isDone, crosses⟩

theorem Settled.mono (settled : Settled fn loop func)
    (less : ∀ source ∈ labels fn.code, ∀ target ∈ labels fn.code,
      some target ∈ goes func'.code source →
        some target ∈ goes func.code source) :
    Settled fn loop func' where
  leaves source sourceIn target targetIn isNext :=
    settled.leaves source sourceIn target targetIn
      (less source sourceIn target targetIn isNext)
  enters source sourceIn target targetIn isNext :=
    settled.enters source sourceIn target targetIn
      (less source sourceIn target targetIn isNext)

/-- The innermost loop is popped first and pushed last. -/
theorem crossing_concat : (crossing (done ++ [loop]) :
      Nat → Nat → List (LoopOp Op)) =
    fun source target =>
      (if loop.leaves source target then [loop.pop] else []) ++
        (crossing done source target ++
          if loop.enters source target then [loop.push] else []) := by
  funext source target
  rw [crossing, crossing, List.filter_append, List.filter_append,
    List.reverse_append, List.map_append, List.map_append]
  by_cases leaves : loop.leaves source target = true
  · by_cases enters : loop.enters source target = true
    · simp [leaves, enters]
    · simp [leaves, enters]
  · by_cases enters : loop.enters source target = true
    · simp [leaves, enters]
    · simp [leaves, enters]

/-- Some loops have been dealt with. -/
structure Patched (fn : FlowFunction Op) (done : List BinaryLoop)
    (func : FlowFunction (LoopOp Op)) : Prop where
  isMatch : ∃ pre post, Matches fn done (crossing done) pre post func
  settled : ∀ loop ∈ done, Settled fn loop func

/-- A loop's turn -/
theorem Turn.patchLoop (turn : Turn fn loops done loop later)
    (patched : Patched fn done func) :
    ∃ func', patchLoop func loop = some func' ∧
      Patched fn (done ++ [loop]) func' := by
  obtain ⟨pre, post, isMatch⟩ := patched.isMatch
  have matching : Matches fn (done ++ [loop]) (crossing done) pre post func :=
    isMatch.mono fun before isDone => List.mem_append_left _ isDone
  obtain ⟨func₁, isRun₁, matching₁, entries, less₁⟩ :=
    turn.patchEntries matching patched.settled
  have settled₁ (before : BinaryLoop) (isDone : before ∈ done) :
      Settled fn before func₁ :=
    (patched.settled before isDone).mono less₁
  have pushed := turn.pushes matching₁ entries
  generalize isFunc₂ : changeBlocks (· ++ [loop.push]) func₁
    (loop.loopPredecessors func₁) = func₂ at pushed
  have sameGoes (label : Nat) :
      goes func₂.code label = goes func₁.code label := by
    rw [← isFunc₂, goes_changeBlocks]
  have settled₂ (before : BinaryLoop) (isDone : before ∈ done) :
      Settled fn before func₂ := by
    refine (settled₁ before isDone).mono fun source _ target _ isNext => ?_
    rwa [sameGoes] at isNext
  obtain ⟨func₃, isRun₃, matching₃, exits, less₃⟩ :=
    turn.patchExits pushed settled₂
  have popped := turn.pops matching₃ exits
    (fun source => turn.mem_exitingBlocks pushed.toLinked)
    turn.exitingBlocks_nodup
  refine ⟨_, ?_, ⟨_, _, crossing_concat ▸ popped⟩, fun before isDone => ?_⟩
  · rw [LoopOptInstrumenter.patchLoop, isRun₁, Option.bind_eq_bind,
      Option.bind_some, isFunc₂]
    dsimp only
    rw [isRun₃]
    rfl
  · have sameGoes₃ (source : Nat) (_ : source ∈ labels fn.code) (target : Nat)
        (_ : target ∈ labels fn.code)
        (isNext : some target ∈ goes (changeBlocks (loop.pop :: ·) func₃
          (loop.dedicatedExitBlocks func₃ (loop.exitingBlocks func₂))).code
          source) : some target ∈ goes func₃.code source := by
      rwa [goes_changeBlocks] at isNext
    rcases List.mem_append.mp isDone with isDone | isLoop
    · exact ((settled₂ before isDone).mono less₃).mono sameGoes₃
    · rw [List.mem_singleton.mp isLoop]
      have settled₃ : Settled fn loop func₃ := by
        constructor
        · intro source _ target targetIn isNext inside outside
          exact exits source inside target targetIn outside isNext
        · intro source sourceIn target targetIn isNext outside inside
          have before := less₃ source sourceIn target targetIn isNext
          rw [sameGoes] at before
          have isHeader := turn.goes_header matching₁.toLinked sourceIn outside
            inside before
          exact entries source sourceIn outside (isHeader ▸ before)
      exact settled₃.mono sameGoes₃

/-- All loops -/
theorem patchLoops_of_patched (well : WellFormed loops fn)
    (splittable : Splittable loops fn) (order : loops = done ++ later)
    (patched : Patched fn done func) :
    ∃ func', later.foldlM patchLoop func = some func' ∧
      Patched fn loops func' := by
  induction later generalizing done func with
  | nil =>
      rw [List.append_nil] at order
      subst order
      exact ⟨func, rfl, patched⟩
  | cons loop later inductionHypothesis =>
      have turn : Turn fn loops done loop later := ⟨well, splittable, order⟩
      obtain ⟨func₁, isPatched, patched₁⟩ := turn.patchLoop patched
      have order' : loops = (done ++ [loop]) ++ later := by
        rw [order, List.append_assoc, List.singleton_append]
      obtain ⟨func', isRun, patched'⟩ := inductionHypothesis order' patched₁
      refine ⟨func', ?_, patched'⟩
      rw [List.foldlM_cons, isPatched]
      exact isRun

/-! ## Before the first loop -/

section Written

@[simp] theorem labels_written :
    labels (written fn).code = labels fn.code :=
  FlowFunction.labels_mapOps

@[simp] theorem goes_written :
    goes (written fn).code label = goes fn.code label :=
  FlowFunction.goes_mapOps

@[simp] theorem exit?_written :
    exit? (written fn).code label = exit? fn.code label :=
  FlowFunction.exit?_mapOps

@[simp] theorem ops_written :
    ops (written fn).code label = (ops fn.code label).map .original :=
  FlowFunction.ops_mapOps

theorem filter_original {instrs : List Op} :
    (instrs.map LoopOp.original).filter LoopOp.visible =
      instrs.map LoopOp.original := by
  rw [List.filter_eq_self]
  intro op isMember
  obtain ⟨instr, _, rfl⟩ := List.mem_map.mp isMember
  rfl

/-- Nothing has been inserted at first. -/
theorem patched_written (well : WellFormed loops fn) :
    Patched fn [] (written fn) := by
  refine ⟨⟨fun _ => [], fun _ => [], ?_⟩, nofun⟩
  have noMid (label target mid : Nat)
      (isMid : IsMid fn (written fn) label target mid) : False := by
    have isLabel := isMid.mid_mem
    rw [labels_written] at isLabel
    exact isMid.mid_new isLabel
  constructor
  case toLinked =>
    constructor
    case distinct =>
      rw [labels_written]
      exact well.distinct
    case closed =>
      exact endsClosed_map (fun _ => rfl) well.closed
    case below_fresh =>
      rw [labels_written]
      exact well.below_fresh
    case labels_mem =>
      rw [labels_written]
      exact fun _ isLabel => isLabel
    case shape_eq =>
      intro label _
      rw [exit?_written]
    case leads =>
      intro label _
      rw [goes_written, List.forall₂_same]
      intro way _
      cases way with
      | none => exact .out
      | some target => exact .direct
    case mids =>
      rw [labels_written]
      exact fun mid isLabel notLabel => absurd isLabel notLabel
    case mid_crosses =>
      exact fun label target mid isMid => absurd isMid (noMid label target mid)
    case succs_eq =>
      simp only [labels_written, goes_written]
      exact well.succs_eq
    case preds_count =>
      simp only [labels_written, goes_written]
      intro label isLabel target targetIn
      have sameCount := well.preds_count label isLabel target targetIn
      rw [well.succs_eq label isLabel, count_filterMap_id] at sameCount
      exact sameCount
    case preds_mem =>
      rw [labels_written]
      exact well.preds_mem
    case preds_length => exact fun _ _ => rfl
  case ops_eq =>
    intro label _
    rw [ops_written, filter_original, List.nil_append, List.append_nil]
  case mid_edge =>
    exact fun label target mid isMid => absurd isMid (noMid label target mid)
  case direct_edge => exact fun _ _ _ _ _ => rfl
  case pre_single => exact fun _ _ notEmpty => absurd rfl notEmpty
  case post_single => exact fun _ _ notEmpty => absurd rfl notEmpty

end Written

/-! ## What is executed -/

/-- The instrumented function carries the pushes and pops. -/
theorem Matches.carries (well : WellFormed loops fn)
    (matching : Matches fn done onEdge pre post func) :
    Carries LoopOp.visible (written fn).code func.code onEdge pre post := by
  constructor
  case targets_mem =>
    simp only [labels_written, goes_written]
    exact well.targets_mem
  case ops_eq =>
    simp only [labels_written, ops_written]
    exact matching.ops_eq
  case post_edge =>
    simp only [labels_written, goes_written]
    intro label isLabel notEmpty
    obtain ⟨target, isOnly⟩ := matching.post_single label isLabel notEmpty
    refine ⟨target, mem_filterMap_id.mp ?_⟩
    rw [← well.succs_eq label isLabel, isOnly]
    exact List.mem_singleton_self _
  case isVia =>
    simp only [labels_written, goes_written]
    intro label isLabel next isNext
    rcases matching.next_cases isLabel isNext with isTarget | ⟨target, isMid⟩
    · exact ⟨next, isTarget, .direct (matching.direct_edge label isLabel next
        (well.targets_mem label next isTarget) isNext)⟩
    · exact ⟨target, isMid.isTarget, .between isMid.goes_eq
        (matching.mid_edge label target next isMid)⟩
  case hasVia =>
    simp only [labels_written, goes_written]
    intro label isLabel target isTarget
    obtain ⟨way, isNext, leads⟩ :=
      exists_right_of_forall₂ (matching.leads label isLabel) isTarget
    cases leads with
    | direct =>
        exact ⟨target, isNext, .direct (matching.direct_edge label isLabel
          target (well.targets_mem label target isTarget) isNext)⟩
    | @mid _ mid isMid =>
        exact ⟨mid, isNext, .between isMid.goes_eq
          (matching.mid_edge label target mid isMid)⟩

theorem original_crossing :
    (crossing loops source target : List (LoopOp Op)).filterMap
      LoopOp.original? = [] := by
  rw [List.filterMap_eq_nil_iff]
  intro op isMember
  rcases List.mem_append.mp isMember with isPop | isPush
  · obtain ⟨loop, _, rfl⟩ := List.mem_map.mp isPop
    rfl
  · obtain ⟨loop, _, rfl⟩ := List.mem_map.mp isPush
    rfl

theorem original_written {instrs : List Op} :
    (instrs.map LoopOp.original).filterMap LoopOp.original? = instrs := by
  rw [List.filterMap_map]
  exact List.filterMap_some

/-- Without pushes and pops it is a trace of the original function. -/
theorem trace_of_edgeTrace {trace : List (LoopOp Op)}
    (isTrace : EdgeTrace (written fn).code (crossing loops) label trace) :
    Trace fn.code label (trace.filterMap LoopOp.original?) := by
  induction isTrace with
  | inside isPrefix =>
      rw [ops_written] at isPrefix
      have erased := isPrefix.filterMap LoopOp.original?
      rw [original_written] at erased
      exact .inside erased
  | edge isTarget isPrefix =>
      have erased := isPrefix.filterMap LoopOp.original?
      rw [original_crossing, List.prefix_nil] at erased
      rw [List.filterMap_append, ops_written, original_written, erased,
        List.append_nil]
      exact .inside List.prefix_rfl
  | step isTarget later inductionHypothesis =>
      rw [goes_written] at isTarget
      rw [List.filterMap_append, List.filterMap_append, ops_written,
        original_written, original_crossing, List.nil_append]
      exact .step isTarget inductionHypothesis

theorem edgeTrace_of_trace {trace : List Op}
    (isTrace : Trace fn.code label trace) :
    ∃ whole, EdgeTrace (written fn).code (crossing loops) label whole ∧
      whole.filterMap LoopOp.original? = trace := by
  induction isTrace with
  | @inside label trace isPrefix =>
      refine ⟨trace.map .original, .inside ?_, original_written⟩
      rw [ops_written]
      exact isPrefix.map _
  | step isTarget later inductionHypothesis =>
      obtain ⟨whole, isWhole, rfl⟩ := inductionHypothesis
      refine ⟨_, .step (by rwa [goes_written]) isWhole, ?_⟩
      rw [List.filterMap_append, List.filterMap_append, ops_written,
        original_written, original_crossing, List.nil_append]

theorem filterMap_visible {executed : List (LoopOp Op)} :
    (executed.filter LoopOp.visible).filterMap LoopOp.original? =
      executed.filterMap LoopOp.original? := by
  rw [List.filterMap_filter]
  refine List.filterMap_congr fun op _ => ?_
  cases op <;> rfl

theorem Patched.keepsFlow (well : WellFormed loops fn)
    (patched : Patched fn (loops.filter (·.hasRegs)) func)
    (splittable : Splittable (loops.filter (·.hasRegs)) fn) :
    KeepsFlow loops fn func := by
  obtain ⟨pre, post, matching⟩ := patched.isMatch
  have noPre : pre fn.entry = [] := by
    by_contra notEmpty
    exact (matching.pre_single _ well.entry_mem notEmpty).2 rfl
  have noPush : (atEntry (loops.filter (·.hasRegs)) fn.entry :
      List (LoopOp Op)) = [] := by
    rw [atEntry, List.map_eq_nil_iff, List.filter_eq_nil_iff]
    intro loop isLoop
    rw [BinaryLoop.contains_iff]
    exact splittable.entry_outside loop isLoop
  have entryIn : fn.entry ∈ labels (written fn).code := by
    rw [labels_written]
    exact well.entry_mem
  have sees (trace : List (LoopOp Op)) :
      Sees LoopOp.visible func.code fn.entry trace ↔
        EdgeTrace (written fn).code (crossing (loops.filter (·.hasRegs)))
          fn.entry trace :=
    (matching.carries well).sees_iff entryIn noPre
  constructor
  · intro trace
    rw [Expected, noPush]
    constructor
    · rintro ⟨rest, isRest, isPrefix⟩
      exact (sees trace).mpr (isRest.of_isPrefix isPrefix)
    · intro isSeen
      exact ⟨trace, (sees trace).mp isSeen, List.prefix_rfl⟩
  · intro trace
    constructor
    · intro isTrace
      obtain ⟨whole, isWhole, rfl⟩ :=
        @edgeTrace_of_trace _ _ (loops.filter (·.hasRegs)) _ _ isTrace
      obtain ⟨executed, isExecuted, rfl⟩ := (sees whole).mpr isWhole
      exact ⟨executed, isExecuted, filterMap_visible.symm⟩
    · rintro ⟨executed, isExecuted, rfl⟩
      have isWhole := (sees _).mp ⟨executed, isExecuted, rfl⟩
      rw [← filterMap_visible]
      exact trace_of_edgeTrace isWhole

theorem WellFormed.filter (well : WellFormed loops fn)
    (keeps : BinaryLoop → Bool) : WellFormed (loops.filter keeps) fn := by
  have isLoop {loop : BinaryLoop} (isKept : loop ∈ loops.filter keeps) :
      loop ∈ loops :=
    (List.mem_filter.mp isKept).1
  exact { well with
    blocks_mem := fun loop isKept => well.blocks_mem loop (isLoop isKept)
    blocks_nodup := fun loop isKept => well.blocks_nodup loop (isLoop isKept)
    header_mem := fun loop isKept => well.header_mem loop (isLoop isKept)
    enters_header := fun loop isKept => well.enters_header loop (isLoop isKept)
    stays := fun loop isKept => well.stays loop (isLoop isKept)
    latch := fun loop isKept => well.latch loop (isLoop isKept)
    preorder := well.preorder.filter keeps }

/-- If no edge is split wrongly, the loops are instrumented and the function
does what is expected of it. -/
theorem instrumentFunc_keepsFlow (well : WellFormed loops fn)
    (splittable : Splittable (loops.filter (·.hasRegs)) fn) :
    ∃ instrumented, instrumentFunc loops (written fn) = some instrumented ∧
      KeepsFlow loops fn instrumented := by
  obtain ⟨instrumented, isRun, patched⟩ :=
    patchLoops_of_patched (well.filter (·.hasRegs)) splittable
      (List.nil_append _).symm (patched_written well)
  exact ⟨instrumented, isRun, patched.keepsFlow well splittable⟩

/-! ## A block that is a loop -/

section SelfLoop

/-- A loop of one block, which may be skipped -/
def selfLoop (exit : Exit Nat) : FlowFunction Nat where
  code := [⟨0, [0], .branch 2⟩, ⟨1, [1], exit⟩, ⟨2, [2], .leave⟩]
  entry := 0
  succs
    | 0 => [2, 1]
    | 1 => (exit.targets (some 2)).filterMap id
    | _ => []
  preds
    | 1 => [0, 1]
    | 2 => [0, 1]
    | _ => []
  isPseudoPreheader _ := false
  fresh := 3

/-- The loop, with a register -/
def selfLoops : List BinaryLoop :=
  [⟨1, [1], [.gpr .rbx], [], []⟩]

theorem selfLoop_label {exit : Exit Nat} {label : Nat}
    (isLabel : label ∈ labels (selfLoop exit).code) :
    label = 0 ∨ label = 1 ∨ label = 2 := by
  simpa [labels, selfLoop, eq_comm] using isLabel

theorem selfLoop_target {exit : Exit Nat}
    (isExit : exit = .branch 1 ∨ exit = .branchJump 2 1) {label target : Nat}
    (isTarget : some target ∈ goes (selfLoop exit).code label) :
    label ∈ labels (selfLoop exit).code ∧ (target = 1 ∨ target = 2) := by
  have isLabel : label ∈ labels (selfLoop exit).code := by
    by_contra notLabel
    rw [goes_of_not_mem notLabel] at isTarget
    cases isTarget
  refine ⟨isLabel, ?_⟩
  rcases selfLoop_label isLabel with rfl | rfl | rfl
  · simpa [selfLoop, goes, block?, next?, Exit.targets, or_comm] using isTarget
  · rcases isExit with rfl | rfl
    · simpa [selfLoop, goes, block?, next?, Exit.targets] using isTarget
    · simpa [selfLoop, goes, block?, next?, Exit.targets, or_comm]
        using isTarget
  · simp [selfLoop, goes, block?, Exit.targets] at isTarget

theorem selfLoop_wellFormed {exit : Exit Nat}
    (isExit : exit = .branch 1 ∨ exit = .branchJump 2 1) :
    WellFormed selfLoops (selfLoop exit) := by
  constructor
  case distinct => rcases isExit with rfl | rfl <;> decide
  case closed =>
    intro block isLast
    cases isLast
    rfl
  case noTable =>
    intro block member targets isTable
    simp only [selfLoop, List.mem_cons, List.not_mem_nil, or_false] at member
    rcases member with rfl | rfl | rfl
    · cases isTable
    · rcases isExit with rfl | rfl <;> cases isTable
    · cases isTable
  case entry_mem => rcases isExit with rfl | rfl <;> decide
  case below_fresh => rcases isExit with rfl | rfl <;> decide
  case targets_mem =>
    intro label target isTarget
    rcases (selfLoop_target isExit isTarget).2 with rfl | rfl
    · simp [labels, selfLoop]
    · simp [labels, selfLoop]
  case succs_eq => rcases isExit with rfl | rfl <;> decide
  case preds_count => rcases isExit with rfl | rfl <;> decide
  case preds_mem => rcases isExit with rfl | rfl <;> decide
  case blocks_mem => rcases isExit with rfl | rfl <;> decide
  case blocks_nodup => decide
  case header_mem => decide
  case enters_header =>
    intro loop isLoop source target _ _ targetIn
    rw [selfLoops, List.mem_singleton] at isLoop
    subst isLoop
    exact List.mem_singleton.mp targetIn
  case stays => rcases isExit with rfl | rfl <;> decide
  case latch => rcases isExit with rfl | rfl <;> decide
  case preorder => exact List.pairwise_singleton _ _

theorem selfLoop_splittable :
    Splittable (selfLoops.filter (·.hasRegs)) (selfLoop (.branch 1)) := by
  have onlyLoop (before : List BinaryLoop) (loop : BinaryLoop)
      (after : List BinaryLoop)
      (order : selfLoops.filter (·.hasRegs) = before ++ loop :: after) :
      loop = ⟨1, [1], [.gpr .rbx], [], []⟩ := by
    have isLoop : loop ∈ selfLoops.filter (·.hasRegs) := by
      rw [order]
      exact List.mem_append_right _ List.mem_cons_self
    exact List.mem_singleton.mp (List.mem_filter.mp isLoop).1
  constructor
  · decide
  · decide
  · intro before loop after order source _ twice
    rw [onlyLoop before loop after order] at twice
    have isTarget : some 1 ∈ goes (selfLoop (.branch 1)).code source :=
      List.count_pos_iff.mp (Nat.lt_of_succ_lt twice)
    have isLabel := (selfLoop_target (Or.inl rfl) isTarget).1
    rcases selfLoop_label isLabel with rfl | rfl | rfl
    · exact absurd twice (by decide)
    · exact absurd twice (by decide)
    · exact absurd twice (by decide)
  · intro before loop after order source sourceIn target other isBranch
    rw [onlyLoop before loop after order, List.mem_singleton] at sourceIn
    subst sourceIn
    cases isBranch

theorem selfLoop_keepsFlow :
    ∃ instrumented,
      instrumentFunc selfLoops (written (selfLoop (.branch 1))) =
        some instrumented ∧
      KeepsFlow selfLoops (selfLoop (.branch 1)) instrumented :=
  instrumentFunc_keepsFlow (selfLoop_wellFormed (Or.inl rfl))
    selfLoop_splittable

/-- The block leaves the loop by the first of its two branches. -/
theorem selfLoop_instrumented :
    (instrumentFunc selfLoops (written (selfLoop (.branchJump 2 1)))).map
        (·.code) =
      some [⟨0, [.original 0], .branch 2⟩,
        ⟨3, [.noop, .push 1 [.gpr .rbx]], .fall⟩,
        ⟨1, [.original 1], .branchJump 2 1⟩,
        ⟨4, [.pop 1 [.gpr .rbx], .noop], .fall⟩,
        ⟨2, [.original 2], .leave⟩] := by
  decide

/-- What is expected of the loop that is left by the first of two branches -/
abbrev SelfLoopTrace (label : Nat) (trace : List (LoopOp Nat)) : Prop :=
  EdgeTrace (written (selfLoop (.branchJump 2 1))).code
    (crossing (selfLoops.filter (·.hasRegs))) label trace

/-- From the loop the block behind it is not reached without a pop. -/
theorem selfLoop_pops : ¬SelfLoopTrace 1 [.original 1, .original 2] := by
  intro isTrace
  rcases isTrace.inv with isPrefix | ⟨target, rest, isTarget, same, behind⟩
  · exact absurd isPrefix (by decide)
  · rw [goes_written] at isTarget
    have isRest : rest = [.original 2] := (List.cons.inj same).2.symm
    subst isRest
    rcases (selfLoop_target (Or.inr rfl) isTarget).2 with rfl | rfl
    · -- again around the loop
      rcases behind with isPrefix | ⟨later, same, isLater⟩
      · exact absurd isPrefix (by decide)
      · have isRest : later = [.original 2] := same.symm
        subst isRest
        rcases isLater.inv with isPrefix | ⟨_, _, _, same, _⟩
        · exact absurd isPrefix (by decide)
        · cases (List.cons.inj same).1
    · rcases behind with isPrefix | ⟨later, same, _⟩
      · exact absurd isPrefix (by decide)
      · cases (List.cons.inj same).1

theorem selfLoop_enters : ¬SelfLoopTrace 0
    [.original 0, .push 1 [.gpr .rbx], .original 1, .original 2] := by
  intro isTrace
  rcases isTrace.inv with isPrefix | ⟨target, rest, isTarget, same, behind⟩
  · exact absurd isPrefix (by decide)
  · rw [goes_written] at isTarget
    have isRest : rest = [.push 1 [.gpr .rbx], .original 1, .original 2] :=
      (List.cons.inj same).2.symm
    subst isRest
    rcases (selfLoop_target (Or.inr rfl) isTarget).2 with rfl | rfl
    · rcases behind with isPrefix | ⟨later, same, isLater⟩
      · exact absurd isPrefix (by decide)
      · have isRest : later = [.original 1, .original 2] :=
          (List.cons.inj same).2.symm
        subst isRest
        exact selfLoop_pops isLater
    · rcases behind with isPrefix | ⟨later, same, isLater⟩
      · exact absurd isPrefix (by decide)
      · have isRest : later =
            [.push 1 [.gpr .rbx], .original 1, .original 2] := same.symm
        subst isRest
        rcases isLater.inv with isPrefix | ⟨_, _, _, same, _⟩
        · exact absurd isPrefix (by decide)
        · cases (List.cons.inj same).1

/-- The first of two branches is not found; the loop is left without a pop. -/
theorem firstBranch_not_keepsFlow :
    ¬∀ (loops : List BinaryLoop) (fn : FlowFunction Nat),
      WellFormed loops fn →
        ∃ instrumented, instrumentFunc loops (written fn) = some instrumented ∧
          KeepsFlow loops fn instrumented := by
  intro allKeep
  obtain ⟨instrumented, isRun, keeps⟩ :=
    allKeep selfLoops _ (selfLoop_wellFormed (Or.inr rfl))
  have isCode := selfLoop_instrumented
  rw [isRun, Option.map_some, Option.some_inj] at isCode
  have isTrace : Trace instrumented.code 0
      [.original 0, .noop, .push 1 [.gpr .rbx], .original 1, .original 2] := by
    have toMid : some 3 ∈ goes instrumented.code 0 := by
      rw [isCode]
      decide
    have toHeader : some 1 ∈ goes instrumented.code 3 := by
      rw [isCode]
      decide
    have toExit : some 2 ∈ goes instrumented.code 1 := by
      rw [isCode]
      decide
    rw [isCode] at *
    exact .step toMid (.step toHeader (.step toExit (.inside List.prefix_rfl)))
  obtain ⟨rest, isRest, isPrefix⟩ := (keeps.executes _).mpr ⟨_, isTrace, rfl⟩
  exact selfLoop_enters (isRest.of_isPrefix isPrefix)

end SelfLoop

end Msh.LoopOptInstrumenter
