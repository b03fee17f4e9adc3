import Msh.Bolt.CounterSetting
import Msh.Bolt.SplitLatch

/-!
# A counter is set where its loop is entered

Each latch that is split leaves what is seen of the passages as it is, and so
does each other counter that is set.
-/

namespace Msh.BoundYieldDistanceInstrumenter

open Function Layout X86 LoopFunction

variable {nest : LoopNest} {func : LoopFunction nest} {options : Options}
  {origin : Nat → Nat} {before : Nat → List PreheaderOp}
  {allowed : Allowed Nat PreheaderOp} {state : Instrumented}
  {counter : RegCounter} {patch : Patch nest} {patches : List (Patch nest)}

theorem Patch.contains_block (patch : Patch nest) :
    nest.contains patch.loop patch.block = true := by
  rw [LoopNest.contains, patch.isLoop]
  simp

theorem Patch.isLoop_loop (patch : Patch nest) : IsLoop nest patch.loop :=
  ⟨patch.block, patch.contains_block⟩

/-! ## One latch -/

theorem givenCounter_eq_some {choice : State}
    (isGiven : choice.givenCounter options patch = some counter) :
    counter.owner = patch.block ∧ counter.loop = patch.loop := by
  rw [State.givenCounter] at isGiven
  split at isGiven
  · cases isGiven
  · split at isGiven
    · cases isGiven
    · rw [← Option.some_inj.mp isGiven]
      exact ⟨rfl, rfl⟩

/-- Nothing is seen of a yield and the counting before it. -/
theorem filter_insertedCode (choice : State) (patch : Patch nest) :
    ((choice.insertedCode options patch).map PreheaderOp.ofCode).filter
      (func.isShown counter) = [] := by
  have noOriginal : ∀ code ∈ choice.insertedCode options patch,
      func.isShown counter (.ofCode code) = false := by
    intro code isCode
    rw [State.insertedCode] at isCode
    split at isCode
    · cases isCode
    · have ofYield (reg : Gpr)
          (isYield : code ∈ State.yieldCode options patch reg) :
          func.isShown counter (.ofCode code) = false := by
        rw [State.yieldCode] at isYield
        split at isYield
        · cases isYield
        · rw [List.mem_singleton.mp isYield]
          rfl
      split at isCode
      · split at isCode
        · cases isCode
        · rcases List.mem_cons.mp isCode with rfl | isYield
          · rfl
          · exact ofYield _ isYield
      · rcases List.mem_cons.mp isCode with rfl | isYield
        · rfl
        · exact ofYield _ isYield
  rw [List.filter_eq_nil_iff]
  intro op isOp
  obtain ⟨code, isCode, rfl⟩ := List.mem_map.mp isOp
  rw [noOriginal code isCode]
  exact Bool.false_ne_true

/-- What is done before the loop and the split -/
theorem exists_applyPatch (well : func.WellFormed)
    (isWhole : state.newBlock patch.block = none)
    {fn : FlowFunction PreheaderOp}
    (isBefore : func.beforeLoop options state patch = some fn)
    (tracked : Tracked func state.newBlock (func.isShown counter) allowed
      origin before fn) :
    ∃ next origin' before',
      func.applyPatch options state patch = some next ∧
        next.choice = state.choice.applyPatch options patch ∧
        next.newBlock =
          update state.newBlock patch.block (some fn.fresh) ∧
        Tracked func next.newBlock (func.isShown counter) allowed origin'
          before' next.fn := by
  have isOld := well.contains_mem _ _ patch.contains_block
  have isLabel := tracked.labels_mem _ isOld
  have isSplit : CodeSplit (func.isShown counter) fn.code patch.block fn.fresh
      (splitLatch patch.inst (isLast patch)
        ((state.choice.insertedCode options patch).map .ofCode) fn
        patch.block).code :=
    splitCode_splits patch.inst (isLast patch) isLabel tracked.fresh_not_mem
      tracked.distinct tracked.closed (filter_insertedCode _ _)
  have reads := tracked.reads.splitOff tracked.fresh_new
    (fun _ => tracked.fresh_unused) (tracked.ne_fresh isLabel)
    isSplit.goes_block isSplit.goes_new isSplit.goes_other isSplit.ops_eq
    isSplit.ops_other
  have isNext : func.applyPatch options state patch = some
      { choice := state.choice.applyPatch options patch
        fn := splitLatch patch.inst (isLast patch)
          ((state.choice.insertedCode options patch).map .ofCode) fn
          patch.block
        newBlock := update state.newBlock patch.block (some fn.fresh) } := by
    rw [applyPatch, isBefore, Option.map_some]
  exact ⟨_, _, _, isNext, rfl, rfl,
    tracked.toGrown.latchSplit well isSplit isOld isWhole, reads⟩

/-- The counter has not been set yet. -/
def Waiting (func : LoopFunction nest) (counter : RegCounter)
    (state : Instrumented) : Prop :=
  ∃ origin before, Tracked func state.newBlock (func.isShown counter)
    (NotSet counter) origin before state.fn

/-- The counter is set where its loop is entered. -/
def IsSet (func : LoopFunction nest) (counter : RegCounter)
    (state : Instrumented) : Prop :=
  nest.contains counter.loop func.fn.entry = false ∧
    ∃ origin before, Tracked func state.newBlock (func.isShown counter)
      (SetOnEntry nest counter) origin before state.fn

section Step

variable (well : func.WellFormed)
  (found : ∀ other, state.choice.givenCounter options patch = some other →
    func.EntriesFound state patch.loop)
  (isWhole : state.newBlock patch.block = none)
include well found isWhole

/-- A latch with another counter -/
theorem applyPatch_other
    (notGiven : state.choice.givenCounter options patch ≠ some counter)
    (tracked : Tracked func state.newBlock (func.isShown counter) allowed
      origin before state.fn) :
    ∃ next origin' before',
      func.applyPatch options state patch = some next ∧
        next.choice = state.choice.applyPatch options patch ∧
        (∀ block, block ≠ patch.block →
          next.newBlock block = state.newBlock block) ∧
        Tracked func next.newBlock (func.isShown counter) allowed origin'
          before' next.fn := by
  obtain ⟨fn, origin, before, isBefore, tracked⟩ :
      ∃ fn origin' before',
        func.beforeLoop options state patch = some fn ∧
          Tracked func state.newBlock (func.isShown counter) allowed origin'
            before' fn := by
    rw [beforeLoop]
    cases isGiven : state.choice.givenCounter options patch with
    | none => exact ⟨state.fn, origin, before, rfl, tracked⟩
    | some other =>
        have notCounter : other ≠ counter := by
          rintro rfl
          exact notGiven isGiven
        refine insertPreheader_other well patch.isLoop_loop
          (found other isGiven) tracked ?_ rfl
        rw [isShown, PreheaderOp.isInit, decide_eq_false notCounter]
        rfl
  obtain ⟨next, origin, before, isNext, isChoice, isNew, tracked⟩ :=
    exists_applyPatch well isWhole isBefore tracked
  refine ⟨next, origin, before, isNext, isChoice, fun block notBlock => ?_,
    tracked⟩
  rw [isNew, update_of_ne notBlock]

/-- The latch that the counter belongs to -/
theorem applyPatch_own
    (isGiven : state.choice.givenCounter options patch = some counter)
    (waiting : Waiting func counter state) :
    ∃ next, func.applyPatch options state patch = some next ∧
      (∀ block, block ≠ patch.block →
        next.newBlock block = state.newBlock block) ∧
      IsSet func counter next := by
  obtain ⟨origin, before, tracked⟩ := waiting
  have found := found counter isGiven
  have isLoop := (givenCounter_eq_some isGiven).2
  obtain ⟨fn, origin, before, isSet, tracked⟩ :=
    insertPreheader_own well patch.isLoop_loop found
      (nest.inductionReg patch.loop) isLoop tracked
  have isBefore : func.beforeLoop options state patch = some fn := by
    rw [beforeLoop, isGiven]
    exact isSet
  obtain ⟨next, origin, before, isNext, _, isNew, tracked⟩ :=
    exists_applyPatch well isWhole isBefore tracked
  refine ⟨next, isNext, fun block notBlock => ?_, ?_, origin, before, tracked⟩
  · rw [isNew, update_of_ne notBlock]
  · rw [isLoop]
    by_contra isInside
    rw [Bool.not_eq_false] at isInside
    exact found.notEntry (well.entry_header patch.loop isInside)

end Step

/-! ## All latches -/

/-- The latches that are still to be split are whole, and all different. -/
structure Ahead (patches : List (Patch nest)) (state : Instrumented) :
    Prop where
  distinct : (patches.map (·.block)).Nodup
  isWhole : ∀ patch ∈ patches, state.newBlock patch.block = none

theorem Ahead.tail {next : Instrumented}
    (ahead : Ahead (patch :: patches) state)
    (same : ∀ block, block ≠ patch.block →
      next.newBlock block = state.newBlock block) :
    Ahead patches next := by
  have distinct := ahead.distinct
  rw [List.map_cons, List.nodup_cons] at distinct
  refine ⟨distinct.2, fun other isOther => ?_⟩
  have notPatch : other.block ≠ patch.block := fun sameBlock =>
    distinct.1 (sameBlock ▸ List.mem_map_of_mem isOther)
  rw [same other.block notPatch]
  exact ahead.isWhole other (List.mem_cons_of_mem _ isOther)

section Run

variable (well : func.WellFormed)
include well

/-- Once the counter is set, it stays so. -/
theorem IsSet.run (isSet : IsSet func counter state)
    (ahead : Ahead patches state)
    (regular : func.Regular options patches state)
    (notOwner : ∀ patch ∈ patches, patch.block ≠ counter.owner) :
    ∃ final, patches.foldlM (func.applyPatch options) state = some final ∧
      IsSet func counter final := by
  induction patches generalizing state with
  | nil => exact ⟨state, rfl, isSet⟩
  | cons patch patches inductionHypothesis =>
      obtain ⟨isOutside, origin, before, tracked⟩ := isSet
      have notGiven :
          state.choice.givenCounter options patch ≠ some counter := by
        intro isGiven
        exact notOwner patch List.mem_cons_self
          (givenCounter_eq_some isGiven).1.symm
      obtain ⟨next, origin, before, isNext, _, same, tracked⟩ :=
        applyPatch_other well regular.1
          (ahead.isWhole patch List.mem_cons_self) notGiven tracked
      obtain ⟨final, isRun, isSet⟩ :=
        inductionHypothesis ⟨isOutside, origin, before, tracked⟩
          (ahead.tail same) (regular.2 next isNext) fun other isOther =>
            notOwner other (List.mem_cons_of_mem _ isOther)
      refine ⟨final, ?_, isSet⟩
      rw [List.foldlM_cons, isNext]
      exact isRun

theorem Waiting.run (waiting : Waiting func counter state)
    (ahead : Ahead patches state)
    (regular : func.Regular options patches state)
    (notYet : counter ∉ state.choice.counters) :
    ∃ final, patches.foldlM (func.applyPatch options) state = some final ∧
      (counter ∈ final.choice.counters → IsSet func counter final) := by
  induction patches generalizing state with
  | nil => exact ⟨state, rfl, fun isGiven => absurd isGiven notYet⟩
  | cons patch patches inductionHypothesis =>
      have isWhole := ahead.isWhole patch List.mem_cons_self
      by_cases isGiven :
          state.choice.givenCounter options patch = some counter
      · obtain ⟨next, isNext, same, isSet⟩ :=
          applyPatch_own well regular.1 isWhole isGiven waiting
        have distinct := ahead.distinct
        rw [List.map_cons, List.nodup_cons] at distinct
        obtain ⟨final, isRun, isSet⟩ :=
          isSet.run well (ahead.tail same) (regular.2 next isNext)
            fun other isOther sameBlock => by
              rw [(givenCounter_eq_some isGiven).1] at sameBlock
              exact distinct.1 (sameBlock ▸ List.mem_map_of_mem isOther)
        refine ⟨final, ?_, fun _ => isSet⟩
        rw [List.foldlM_cons, isNext]
        exact isRun
      · obtain ⟨origin, before, tracked⟩ := waiting
        obtain ⟨next, origin, before, isNext, isChoice, same, tracked⟩ :=
          applyPatch_other well regular.1 isWhole isGiven tracked
        have stillNotYet : counter ∉ next.choice.counters := by
          rw [isChoice, State.applyPatch, List.mem_append, not_or]
          refine ⟨notYet, fun isNew => isGiven ?_⟩
          rwa [Option.mem_toList] at isNew
        obtain ⟨final, isRun, isSet⟩ :=
          inductionHypothesis ⟨origin, before, tracked⟩ (ahead.tail same)
            (regular.2 next isNext) stillNotYet
        refine ⟨final, ?_, isSet⟩
        rw [List.foldlM_cons, isNext]
        exact isRun

end Run

/-! ## From the start -/

/-- Control goes out of the code or to blocks only. -/
theorem goes_eq_map {code : List (Block Nat Inst)} (closed : EndsClosed code)
    {label target : Nat}
    (isOnly : (goes code label).filterMap id = [target]) :
    goes code label = [some target] := by
  cases isBlock : block? code label with
  | none =>
      rw [goes, isBlock] at isOnly
      cases isOnly
  | some block =>
      rw [goes_of_block? isBlock] at isOnly ⊢
      have hasNext (falls : block.exit.falls = true) :=
        next?_isSome_of_falls closed isBlock falls
      cases isExit : block.exit with
      | fall =>
          obtain ⟨next, isNext⟩ :=
            Option.isSome_iff_exists.mp (hasNext (isExit ▸ rfl))
          rw [isExit, isNext] at isOnly
          rw [isNext, Exit.targets, ← List.singleton_inj.mp isOnly]
      | jump other =>
          rw [isExit] at isOnly
          rw [Exit.targets, ← List.singleton_inj.mp isOnly]
      | branch other =>
          obtain ⟨next, isNext⟩ :=
            Option.isSome_iff_exists.mp (hasNext (isExit ▸ rfl))
          rw [isExit, isNext] at isOnly
          cases isOnly
      | branchJump first second =>
          rw [isExit] at isOnly
          cases isOnly
      | table targets =>
          have isMap : (targets.map some).filterMap id = targets := by
            rw [List.filterMap_map]
            exact List.filterMap_some
          rw [isExit, Exit.targets, isMap] at isOnly
          rw [Exit.targets, isOnly]
          rfl
      | leave =>
          rw [isExit] at isOnly
          cases isOnly

theorem grown_start (well : func.WellFormed) :
    Grown func (fun _ => none) id func.start.fn where
  distinct := by
    rw [start, FlowFunction.labels_mapOps]
    exact well.distinct
  closed := endsClosed_map (fun _ => rfl) well.closed
  below_fresh := by
    rw [start, FlowFunction.labels_mapOps]
    exact well.below_fresh
  labels_mem := by
    rw [start, FlowFunction.labels_mapOps]
    exact fun _ isLabel => isLabel
  targets_mem := by
    intro label target isTarget
    rw [start, FlowFunction.goes_mapOps] at isTarget
    rw [start, FlowFunction.labels_mapOps]
    exact well.targets_mem label target isTarget
  origin_old := fun _ _ => rfl
  goes_old := by
    intro label target isTarget _
    rwa [start, FlowFunction.goes_mapOps] at isTarget
  succs_old := by
    intro label isLabel target _ isSucc
    rw [start, FlowFunction.labels_mapOps] at isLabel
    have wasSucc : target ∈ func.fn.succs label := isSucc
    rw [well.succs_eq label isLabel] at wasSucc
    simpa using wasSucc
  succs_kept := by
    intro label target isTarget
    have isLabel : label ∈ labels func.fn.code := by
      by_contra notLabel
      rw [goes_of_not_mem notLabel] at isTarget
      cases isTarget
    refine ⟨label, ?_, rfl, ?_⟩
    · rwa [start, FlowFunction.labels_mapOps]
    · have isSucc : target ∈ func.fn.succs label := by
        rw [well.succs_eq label isLabel]
        simpa using isTarget
      exact isSucc
  preds_count := by
    rw [start, FlowFunction.labels_mapOps]
    exact well.preds_count
  single := by
    intro label isLabel target _ isOnly
    rw [start, FlowFunction.labels_mapOps] at isLabel
    rw [start, FlowFunction.goes_mapOps]
    have wasOnly : func.fn.succs label = [target] := isOnly
    rw [well.succs_eq label isLabel] at wasOnly
    exact goes_eq_map well.closed wasOnly
  marked := well.marked
  rests := by
    intro label isLabel notOld
    rw [start, FlowFunction.labels_mapOps] at isLabel
    exact absurd isLabel notOld
  rest_origin := nofun

theorem waiting_start (well : func.WellFormed) (counter : RegCounter) :
    Waiting func counter func.start := by
  refine ⟨id, fun _ => [], grown_start well, fun _ _ => rfl, fun _ _ => rfl,
    fun label target _ _ op isOp => ?_, fun label target isTarget isNew => ?_⟩
  · rw [List.nil_append, start, FlowFunction.ops_mapOps] at isOp
    obtain ⟨inst, _, rfl⟩ := List.mem_map.mp (List.mem_filter.mp isOp).1
    rfl
  · rw [start, FlowFunction.goes_mapOps] at isTarget
    exact absurd (well.targets_mem label target isTarget) isNew

/-- In an execution, the passages tell where the counter is set. -/
theorem IsSet.initialises (well : func.WellFormed)
    (isSet : IsSet func counter state) :
    func.Initialises counter state := by
  obtain ⟨isOutside, origin, before, tracked⟩ := isSet
  intro trace isTrace
  refine tracked.reads.passages isTrace (fun _ => ⟨fun isEntered => ?_, nofun⟩)
    fun isNew => absurd well.entry_mem isNew
  rw [isEntered.1] at isOutside
  cases isOutside

/-- If all entries are found for each latch that is given a counter in a
register, then each such counter is set on every entry of its loop, behind the
last write of the induction register, and nowhere else. -/
theorem instrumentFunc_initialises (well : func.WellFormed)
    (distinct : (patches.map (·.block)).Nodup)
    (regular : func.Regular options patches func.start) :
    ∃ final, func.instrumentFunc options patches = some final ∧
      ∀ counter ∈ final.choice.counters, func.Initialises counter final := by
  have ahead : Ahead patches func.start := ⟨distinct, fun _ _ => rfl⟩
  have run (counter : RegCounter) :=
    (waiting_start well counter).run well ahead regular List.not_mem_nil
  obtain ⟨final, isRun, _⟩ := run ⟨0, 0, .rax⟩
  refine ⟨final, isRun, fun counter isGiven => ?_⟩
  obtain ⟨final', isRun', isSet⟩ := run counter
  rw [isRun, Option.some_inj] at isRun'
  subst isRun'
  exact (isSet isGiven).initialises well

/-! ## A loop behind a guard -/

/-- An instruction without annotations -/
def plainInst (ptr : Nat) : Inst where
  ptr := ptr
  touches _ := false
  isYield := false
  iterationBound := none
  regsToSave _ := false
  bound_isYield := nofun

/-- The latch's instruction with the bound -/
def boundInst : Inst where
  ptr := 2
  touches _ := false
  isYield := true
  iterationBound := some 10
  regsToSave _ := false
  bound_isYield _ := rfl

/-- Block 2 is a loop of its own. -/
def guardedNest : LoopNest where
  blocks := [0, 1, 2, 3]
  insts
    | 0 => [plainInst 0]
    | 1 => [plainInst 1]
    | 2 => [boundInst]
    | _ => []
  loopFor block := if block = 2 then some 0 else none
  parents _ := []
  subLoops _ := []
  inductionReg _ := some .rcx
  distinct := by
    have known (block : Nat) (inst : Inst)
        (isInst : inst ∈ (match block with
          | 0 => [plainInst 0]
          | 1 => [plainInst 1]
          | 2 => [boundInst]
          | _ => [] : List Inst)) :
        inst.ptr = block ∧
          inst = if block = 2 then boundInst else plainInst block := by
      match block with
      | 0 =>
          rw [List.mem_singleton.mp isInst]
          exact ⟨rfl, rfl⟩
      | 1 =>
          rw [List.mem_singleton.mp isInst]
          exact ⟨rfl, rfl⟩
      | 2 =>
          rw [List.mem_singleton.mp isInst]
          exact ⟨rfl, rfl⟩
      | _ + 3 => cases isInst
    intro block inst isInst other inst' isOther samePtr
    obtain ⟨ptr, same⟩ := known block inst isInst
    obtain ⟨ptr', same'⟩ := known other inst' isOther
    rw [ptr, ptr'] at samePtr
    subst samePtr
    exact ⟨rfl, same.trans same'.symm⟩

/-- The guard leads past the first block or there, and both lead to the loop;
its predecessors are listed in some order. -/
def guarded (preds : List Nat) : LoopFunction guardedNest where
  fn :=
    { code := [⟨0, [plainInst 0], .branch 2⟩, ⟨1, [plainInst 1], .fall⟩,
        ⟨2, [boundInst], .branch 2⟩, ⟨3, [], .leave⟩]
      entry := 0
      succs := fun
        | 0 => [2, 1]
        | 1 => [2]
        | 2 => [2, 3]
        | _ => []
      preds := fun
        | 1 => [0]
        | 2 => preds
        | 3 => [2]
        | _ => []
      isPseudoPreheader := fun _ => false
      fresh := 4 }
  header _ := 2
  writes inst reg := inst.ptr = 0 && reg = .rcx

/-- The latch of the loop -/
def guardedPatch : Patch guardedNest where
  block := 2
  inst := boundInst
  inst_mem := List.mem_singleton_self _
  isBound := rfl
  loop := 0
  isLoop := rfl
  block_mem := by decide

/-- One register may be used. -/
def guardedOptions : Options := ⟨[.rax], false, false, false⟩

theorem guarded_contains {loop block : Nat}
    (isInside : guardedNest.contains loop block = true) :
    loop = 0 ∧ block = 2 := by
  by_cases isLatch : block = 2
  · simpa [guardedNest, LoopNest.contains, isLatch] using isInside
  · simp [guardedNest, LoopNest.contains, isLatch] at isInside

theorem guarded_label {preds : List Nat} {label : Nat}
    (isLabel : label ∈ labels (guarded preds).fn.code) :
    label = 0 ∨ label = 1 ∨ label = 2 ∨ label = 3 := by
  simpa [guarded, labels] using isLabel

theorem guarded_target {preds : List Nat} {label target : Nat}
    (isTarget : some target ∈ goes (guarded preds).fn.code label) :
    target = 1 ∨ target = 2 ∨ target = 3 := by
  have isLabel : label ∈ labels (guarded preds).fn.code := by
    by_contra notLabel
    rw [goes_of_not_mem notLabel] at isTarget
    cases isTarget
  rcases guarded_label isLabel with rfl | rfl | rfl | rfl
  · have isSome : some target = some 2 ∨ some target = some 1 := by
      simpa [guarded, goes, block?, next?, Exit.targets] using isTarget
    simp only [Option.some_inj] at isSome
    omega
  · have isSome : some target = some 2 := by
      simpa [guarded, goes, block?, next?, Exit.targets] using isTarget
    exact Or.inr (Or.inl (Option.some_inj.mp isSome))
  · have isSome : some target = some 2 ∨ some target = some 3 := by
      simpa [guarded, goes, block?, next?, Exit.targets] using isTarget
    simp only [Option.some_inj] at isSome
    omega
  · simp [guarded, goes, block?, Exit.targets] at isTarget

theorem guarded_wellFormed {preds : List Nat}
    (isOrder : preds = [0, 1, 2] ∨ preds = [1, 0, 2]) :
    (guarded preds).WellFormed := by
  have headerOf {loop : Nat} (isLoop : IsLoop guardedNest loop) : loop = 0 :=
    isLoop.elim fun _ isInside => (guarded_contains isInside).1
  have predsIn (target : Nat) (label : Nat)
      (isPred : label ∈ (guarded preds).fn.preds target) :
      label ∈ labels (guarded preds).fn.code := by
    rcases target with _ | _ | _ | _ | _
    · cases isPred
    · simp_all [guarded, labels]
    · rcases isOrder with rfl | rfl <;> simp_all [guarded, labels] <;> omega
    · simp_all [guarded, labels]
    · cases isPred
  constructor
  case distinct => exact (by decide : [0, 1, 2, 3].Nodup)
  case closed =>
    intro block isLast
    cases isLast
    rfl
  case entry_mem => exact List.mem_cons_self
  case below_fresh =>
    intro label isLabel
    have isSmall := guarded_label isLabel
    have fresh_eq : (guarded preds).fn.fresh = 4 := rfl
    omega
  case targets_mem =>
    intro label target isTarget
    rcases guarded_target isTarget with rfl | rfl | rfl <;>
      simp [guarded, labels]
  case succs_eq =>
    intro label isLabel
    rcases guarded_label isLabel with rfl | rfl | rfl | rfl <;> rfl
  case preds_count =>
    intro label target targetIn
    by_cases isLabel : label ∈ labels (guarded preds).fn.code
    · rw [if_pos isLabel]
      rcases guarded_label isLabel with rfl | rfl | rfl | rfl <;>
        rcases guarded_label targetIn with rfl | rfl | rfl | rfl <;>
        rcases isOrder with rfl | rfl <;> decide
    · rw [if_neg isLabel]
      exact List.count_eq_zero.mpr fun isPred => isLabel (predsIn _ _ isPred)
  case marked =>
    intro loop _ label _ isMarked
    cases isMarked
  case insts_eq =>
    intro label isLabel
    refine ⟨[], ?_⟩
    rcases guarded_label isLabel with rfl | rfl | rfl | rfl <;> rfl
  case contains_mem =>
    intro loop block isInside
    rw [(guarded_contains isInside).2]
    simp [guarded, labels]
  case header_mem =>
    intro loop isLoop
    rw [headerOf isLoop]
    rfl
  case header_inj =>
    intro loop other isLoop isOther _
    rw [headerOf isLoop, headerOf isOther]
  case enters_header =>
    intro loop source target _ _ isInside
    exact (guarded_contains isInside).2
  case entry_header =>
    intro loop isInside
    cases (guarded_contains isInside).2
  case entered =>
    intro loop isLoop
    rw [headerOf isLoop]
    exact Or.inr ⟨0, List.mem_cons_self, rfl, List.mem_cons_self⟩

/-- With the block behind the guard first, all entries are found. -/
theorem guarded_entriesFound :
    (guarded [1, 0, 2]).EntriesFound (guarded [1, 0, 2]).start 0 := by
  have single (pred : Nat) (isPred : pred ∈ [1, 0, 2])
      (isOutside : guardedNest.contains 0 pred = false)
      (notFork : ¬IsFork (guarded [1, 0, 2]).start pred) : pred = 1 := by
    rw [List.mem_cons, List.mem_cons, List.mem_singleton] at isPred
    rcases isPred with rfl | rfl | rfl
    · rfl
    · exact absurd (show 1 < 2 by decide) notFork
    · cases isOutside
  constructor
  · decide
  · rintro before rest after _ ⟨block, _, isNew⟩
    cases isNew
  · intro before pred after isSplit isOutside _ notFork _ fork isFront
    have isPred : pred ∈ [1, 0, 2] := by
      rw [show [1, 0, 2] = before ++ pred :: after from isSplit]
      exact List.mem_append_right _ List.mem_cons_self
    have isFirst := single pred isPred isOutside notFork
    cases before with
    | nil => cases isFront
    | cons first front =>
        have distinct : (first :: front ++ pred :: after).Nodup := by
          rw [← show [1, 0, 2] = first :: front ++ pred :: after from isSplit]
          decide
        have isOne : 1 = first := (List.cons.inj isSplit).1
        rw [List.cons_append, List.nodup_cons] at distinct
        refine absurd (List.mem_append_right front ?_) distinct.1
        rw [isFirst, ← isOne]
        exact List.mem_cons_self
  · intro fork isPred isOutside isFork
    have isAny : fork = 1 ∨ fork = 0 ∨ fork = 2 := by
      simpa using (show fork ∈ [1, 0, 2] from isPred)
    rcases isAny with rfl | rfl | rfl
    · exact absurd isFork (show ¬1 < 1 by decide)
    · refine ⟨rfl, by decide, ?_⟩
      intro targets isTable
      cases isTable
    · cases isOutside
  · intro pred isPred isOutside _ notFork _
    rw [single pred isPred isOutside notFork]
    exact ⟨.ofCode (.original (plainInst 1)), rfl, rfl⟩
  · intro label isTarget isOutside
    have wasTarget : some 2 ∈ goes (guarded [1, 0, 2]).fn.code label := by
      rwa [start, FlowFunction.goes_mapOps] at isTarget
    have isLabel : label ∈ labels (guarded [1, 0, 2]).fn.code := by
      by_contra notLabel
      rw [goes_of_not_mem notLabel] at wasTarget
      cases wasTarget
    rcases guarded_label isLabel with rfl | rfl | rfl | rfl
    · decide
    · decide
    · decide
    · exact absurd wasTarget (by decide)

theorem guarded_initialises :
    ∃ final, (guarded [1, 0, 2]).instrumentFunc guardedOptions [guardedPatch] =
        some final ∧
      ∀ counter ∈ final.choice.counters,
        (guarded [1, 0, 2]).Initialises counter final :=
  instrumentFunc_initialises (guarded_wellFormed (Or.inr rfl)) (by decide)
    ⟨fun _ _ => guarded_entriesFound, fun _ _ => trivial⟩

/-- The block with the guard is listed first, and the one behind it is not
marked: from there the loop is entered without a set counter. -/
theorem guardFirst_not_initialises :
    ¬∀ (nest : LoopNest) (func : LoopFunction nest) (options : Options)
      (patches : List (Patch nest)), func.WellFormed →
      (patches.map (·.block)).Nodup →
      ∀ final, func.instrumentFunc options patches = some final →
        ∀ counter ∈ final.choice.counters, func.Initialises counter final := by
  intro all
  obtain ⟨final, isRun⟩ : ∃ final,
      (guarded [0, 1, 2]).instrumentFunc guardedOptions [guardedPatch] =
        some final :=
    ⟨_, rfl⟩
  have initialises := all guardedNest (guarded [0, 1, 2]) guardedOptions
    [guardedPatch] (guarded_wellFormed (Or.inl rfl)) (by decide) final isRun
    ⟨2, 0, .rax⟩
  cases isRun
  have atHeader := initialises (by decide)
  have toHeader : Passages (labels (guarded [0, 1, 2]).fn.code)
      ((guarded [0, 1, 2]).isShown ⟨2, 0, .rax⟩)
      (SetOnEntry guardedNest ⟨2, 0, .rax⟩) none []
      [.enter 0, .run (.ofCode (.original (plainInst 0))), .enter 1,
        .run (.ofCode (.original (plainInst 1))), .enter 2] := by
    refine atHeader _ ?_
    exact .step (show some 1 ∈ _ by decide)
      (.step (show some 2 ∈ _ by decide) (.inside ⟨_, rfl⟩))
  have is0 : 0 ∈ labels (guarded [0, 1, 2]).fn.code := by decide
  have is1 : 1 ∈ labels (guarded [0, 1, 2]).fn.code := by decide
  have is2 : 2 ∈ labels (guarded [0, 1, 2]).fn.code := by decide
  rw [Passages, if_pos is0, Passages, Passages, if_pos is1, Passages, Passages,
    if_pos is2] at toHeader
  obtain ⟨_, _, isSet, _⟩ := toHeader
  have isEntered : enters guardedNest 0 (some 1) 2 := by
    refine ⟨rfl, fun block isBlock => ?_⟩
    rw [← Option.some_inj.mp isBlock]
    rfl
  obtain ⟨writes, init, nothing, _⟩ := isSet.1 isEntered
  exact absurd nothing.symm
    (List.append_ne_nil_of_right_ne_nil _ (List.cons_ne_nil _ _))

end Msh.BoundYieldDistanceInstrumenter
