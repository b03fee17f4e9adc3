import Mathlib.Data.List.TakeWhile
import Msh.Bolt.CounterChoice

/-!
# The registers of register counters

A register counter is safe if nothing else in its loop touches its register
and each yield there saves it.  What `insertYield` looks through tells only
as long as no latch in the loop has been split: behind a split there may be
another yield, which knows nothing of the new register.
-/

namespace Msh.BoundYieldDistanceInstrumenter

open Function X86

/-! ## What a loop executes -/

/-- The yield that is made for an annotated instruction without a bound saves
the instruction's registers. -/
def Code.saves (reg : Gpr) : Code → Bool
  | .original inst =>
      !inst.isYield || inst.iterationBound.isSome || inst.regsToSave reg
  | .counter .. => true
  | .yield regsToSave => regsToSave reg

/-- It is the counter's own code. -/
def Code.isOwn (counter : RegCounter) : Code → Bool
  | .counter owner reg _ => owner = counter.owner && reg = counter.reg
  | _ => false

/-- It is a yield's code, which pushes and pops registers. -/
def Code.isYieldCode : Code → Bool
  | .yield _ => true
  | _ => false

/-- The values of a register before and after an instruction: it can only
change where the register is touched, or not saved at a yield. -/
def Code.Leaves {Value : Type} (reg : Gpr) (code : Code)
    (before after : Value) : Prop :=
  (code.touches reg = false ∨ code.isYieldCode = true) →
    code.saves reg = true → after = before

/-- The values of a register along some instructions -/
inductive Executes {Value : Type} (reg : Gpr) :
    List Code → Value → Value → Prop where
  | nil {value : Value} : Executes reg [] value value
  | cons {code : Code} {rest : List Code} {before between after : Value}
      (leaves : code.Leaves reg before between)
      (later : Executes reg rest between after) :
      Executes reg (code :: rest) before after

/-- All instructions of a loop's blocks, with what has gone to new blocks -/
def State.InLoop (state : State) (nest : LoopNest) (loop : Nat)
    (code : Code) : Prop :=
  ∃ block ∈ nest.loopBlocks loop,
    code ∈ state.front block ++ state.back block

/-- One of the loops is around the other, or they are the same. -/
def LoopNest.Nested (nest : LoopNest) (loop other : Nat) : Prop :=
  loop = other ∨ loop ∈ nest.parents other ∨ other ∈ nest.parents loop

/-- No yield clobbers a register counter. -/
structure Unclobbered (Value : Type) (nest : LoopNest) (state : State)
    (counter : RegCounter) : Prop where
  /-- Nothing else reads or writes the register. -/
  alone :
    ∀ code, state.InLoop nest counter.loop code →
      code.touches counter.reg = true →
        code.isOwn counter = true ∨ code.isYieldCode = true
  saved :
    ∀ code, state.InLoop nest counter.loop code →
      code.saves counter.reg = true
  distinct :
    ∀ other ∈ state.counters, other ≠ counter →
      nest.Nested other.loop counter.loop → other.reg ≠ counter.reg
  /-- The register keeps its value until the counter's own code. -/
  kept :
    ∀ executed : List Code,
      (∀ code ∈ executed,
        state.InLoop nest counter.loop code ∧ code.isOwn counter = false) →
        ∀ before after : Value,
          Executes counter.reg executed before after → after = before

variable {nest : LoopNest} {state : State} {options : Options}

/-- The value is kept wherever the register is left alone and saved. -/
theorem eq_of_executes {Value : Type} {counter : RegCounter}
    (alone :
      ∀ code, state.InLoop nest counter.loop code →
        code.touches counter.reg = true →
          code.isOwn counter = true ∨ code.isYieldCode = true)
    (saved :
      ∀ code, state.InLoop nest counter.loop code →
        code.saves counter.reg = true)
    {executed : List Code}
    (inLoop :
      ∀ code ∈ executed,
        state.InLoop nest counter.loop code ∧ code.isOwn counter = false)
    {before after : Value}
    (executes : Executes counter.reg executed before after) :
    after = before := by
  induction executes with
  | nil => rfl
  | @cons code rest before between after leaves later inductionHypothesis =>
      rw [List.forall_mem_cons] at inLoop
      obtain ⟨⟨isInLoop, notOwn⟩, restInLoop⟩ := inLoop
      rw [inductionHypothesis restInLoop]
      refine leaves ?_ (saved code isInLoop)
      cases touches : code.touches counter.reg with
      | false => exact .inl rfl
      | true =>
          refine .inr ((alone code isInLoop touches).resolve_left fun isOwn => ?_)
          rw [notOwn] at isOwn
          cases isOwn

/-! ## The choice of a register -/

/-- A register that is found is neither in use nor touched. -/
theorem of_findUnusedReg {touched : Gpr → Bool} {tries : Nat}
    {used : Gpr → Bool} {reg : Gpr}
    (isFound : options.findUnusedReg touched tries used = some reg) :
    used reg = false ∧ touched reg = false := by
  induction tries generalizing used with
  | zero => cases isFound
  | succ tries inductionHypothesis =>
      unfold Options.findUnusedReg at isFound
      split at isFound
      · cases isFound
      · next tried isTried =>
          split at isFound
          · obtain ⟨unused, untouched⟩ := inductionHypothesis isFound
            rw [addReg, Bool.or_eq_false_iff] at unused
            exact ⟨unused.1, untouched⟩
          · next notTouched =>
              cases isFound
              have passes := List.find?_some isTried
              rw [Bool.and_eq_true, Bool.not_eq_true'] at passes
              exact ⟨passes.2, Bool.eq_false_iff.mpr notTouched⟩

/-- There are enough tries: if no register is found, there is none. -/
theorem findUnusedReg_eq_none {touched : Gpr → Bool} {tries : Nat}
    {used : Gpr → Bool}
    (enough :
      (options.regOrder.filter fun reg => !used reg).length < tries)
    (notFound : options.findUnusedReg touched tries used = none)
    {reg : Gpr} (member : reg ∈ options.regOrder) (notRsp : reg ≠ .rsp) :
    used reg = true ∨ touched reg = true := by
  induction tries generalizing used with
  | zero => omega
  | succ tries inductionHypothesis =>
      unfold Options.findUnusedReg at notFound
      split at notFound
      · next noneTried =>
          have fails := List.find?_eq_none.mp noneTried reg member
          simp only [notRsp, ne_eq, not_false_eq_true, decide_true,
            Bool.true_and, Bool.not_eq_true'] at fails
          exact .inl (Bool.not_eq_false _ ▸ fails)
      · next tried isTried =>
          have passes := List.find?_some isTried
          rw [Bool.and_eq_true, Bool.not_eq_true'] at passes
          split at notFound
          · next isTouched =>
              have fewer :
                  (options.regOrder.filter fun other =>
                    !addReg used tried other).length <
                  (options.regOrder.filter fun other =>
                    !used other).length := by
                have without :
                    options.regOrder.filter (fun other =>
                        !addReg used tried other) =
                      (options.regOrder.filter fun other =>
                        !used other).filter fun other => other ≠ tried := by
                  rw [List.filter_filter]
                  refine List.filter_congr fun other _ => ?_
                  by_cases isTried : other = tried <;> simp [addReg, isTried]
                rw [without]
                refine List.length_filter_lt_length_iff_exists.mpr
                  ⟨tried, ?_, by simp⟩
                exact List.mem_filter.mpr
                  ⟨List.mem_of_find?_eq_some isTried, by simp [passes.2]⟩
              rcases inductionHypothesis (by omega) notFound with
                isUsed | isTouchedReg
              · rw [addReg, Bool.or_eq_true, decide_eq_true_eq] at isUsed
                rcases isUsed with isUsed | rfl
                · exact .inl isUsed
                · exact .inr isTouched
              · exact .inr isTouchedReg
          · cases notFound

/-- A register that is found is one of those that are tried. -/
theorem mem_of_findUnusedReg {touched : Gpr → Bool} {tries : Nat}
    {used : Gpr → Bool} {reg : Gpr}
    (isFound : options.findUnusedReg touched tries used = some reg) :
    reg ∈ options.regOrder ∧ reg ≠ .rsp := by
  induction tries generalizing used with
  | zero => cases isFound
  | succ tries inductionHypothesis =>
      unfold Options.findUnusedReg at isFound
      split at isFound
      · cases isFound
      · next tried isTried =>
          split at isFound
          · exact inductionHypothesis isFound
          · cases isFound
            have passes := List.find?_some isTried
            rw [Bool.and_eq_true, decide_eq_true_eq] at passes
            exact ⟨List.mem_of_find?_eq_some isTried, passes.1⟩

/-- A latch gets no register exactly if none is left for it. -/
theorem unusedGPReg_eq_none_iff {patch : Patch nest} :
    state.unusedGPReg options patch = none ↔
      ∀ reg ∈ options.regOrder, reg ≠ .rsp →
        state.regsInUse patch reg = true ∨
          state.touched nest patch.loop reg = true := by
  constructor
  · intro notFound reg member notRsp
    exact findUnusedReg_eq_none
      (Nat.lt_add_one_of_le (List.length_filter_le _ _)) notFound member notRsp
  · intro noneLeft
    rw [Option.eq_none_iff_forall_ne_some]
    intro reg isFound
    obtain ⟨member, notRsp⟩ := mem_of_findUnusedReg isFound
    obtain ⟨unused, untouched⟩ := of_findUnusedReg isFound
    rcases noneLeft reg member notRsp with isUsed | isTouched
    · rw [unused] at isUsed
      cases isUsed
    · rw [untouched] at isTouched
      cases isTouched

/-! ## One latch after the other -/

/--
A latch may be given a register counter: no block of its loop has been split
yet, so that nothing of the loop is out of sight.  Where a yield is in sight,
or unused registers are not to be used, the latch gets no such counter.
-/
def State.MayCount (options : Options) (state : State) (patch : Patch nest) :
    Prop :=
  state.useMemory options patch = true ∨
    ∀ block ∈ nest.loopBlocks patch.loop, state.back block = []

/-- Each latch may be given a register counter when its turn has come. -/
def State.AllMayCount (options : Options) :
    State → List (Patch nest) → Prop
  | _, [] => True
  | state, patch :: rest =>
      state.MayCount options patch ∧
        AllMayCount options (state.applyPatch options patch) rest

/-- What stays true of a register counter and of the code in its loop -/
structure Settled (done : List (Patch nest)) (state : State)
    (counter : RegCounter) : Prop where
  isDone : ∃ patch ∈ done, patch.block = counter.owner
  /-- The only yield of the loop is that of the counter's latch. -/
  onlyYield :
    ∀ block ∈ nest.loopBlocks counter.loop, ∀ inst ∈ nest.insts block,
      inst.isYield = true →
        block = counter.owner ∧ inst.iterationBound.isSome = true
  untouched :
    ∀ block ∈ nest.loopBlocks counter.loop, ∀ inst ∈ nest.insts block,
      inst.touches counter.reg = false
  codes :
    ∀ block ∈ nest.loopBlocks counter.loop,
      ∀ code ∈ state.front block ++ state.back block,
        (∃ inst ∈ nest.insts block, code = .original inst) ∨
          code.isOwn counter = true ∨
            ∃ regsToSave, code = .yield regsToSave ∧
              regsToSave counter.reg = true

/-- What stays true while latches are split -/
structure Invariant (done : List (Patch nest)) (state : State) : Prop where
  unsplit :
    ∀ block, (∀ patch ∈ done, patch.block ≠ block) →
      state.front block = (nest.insts block).map .original ∧
        state.back block = []
  split : ∀ patch ∈ done, state.back patch.block ≠ []
  used :
    ∀ counter ∈ state.counters,
      state.regsAlreadyUsed counter.loop counter.reg = true ∧
        ∀ parent ∈ nest.parents counter.loop,
          state.regsAlreadyUsed parent counter.reg = true
  settled : ∀ counter ∈ state.counters, Settled done state counter
  distinct :
    ∀ counter ∈ state.counters, ∀ other ∈ state.counters,
      other ≠ counter → nest.Nested other.loop counter.loop →
        other.reg ≠ counter.reg

theorem invariant_init : @Invariant nest [] nest.init where
  unsplit _ _ := ⟨rfl, rfl⟩
  split _ member := by cases member
  used _ member := by cases member
  settled _ member := by cases member
  distinct _ member := by cases member

variable {done : List (Patch nest)} {patch : Patch nest}
  {counter : RegCounter}

theorem LoopNest.Nested.symm {loop other : Nat}
    (nested : nest.Nested loop other) : nest.Nested other loop := by
  rcases nested with same | isParent | isParent
  · exact .inl same.symm
  · exact .inr (.inr isParent)
  · exact .inr (.inl isParent)

theorem Invariant.unclobbered (Value : Type)
    (invariant : Invariant done state) (member : counter ∈ state.counters) :
    Unclobbered Value nest state counter := by
  have settled := invariant.settled counter member
  have alone (code : Code) (inLoop : state.InLoop nest counter.loop code)
      (touches : code.touches counter.reg = true) :
      code.isOwn counter = true ∨ code.isYieldCode = true := by
    obtain ⟨block, isBlock, isCode⟩ := inLoop
    rcases settled.codes block isBlock code isCode with
      ⟨inst, isInst, rfl⟩ | isOwn | ⟨regsToSave, rfl, -⟩
    · rw [Code.touches, settled.untouched block isBlock inst isInst] at touches
      cases touches
    · exact .inl isOwn
    · exact .inr rfl
  have saved (code : Code) (inLoop : state.InLoop nest counter.loop code) :
      code.saves counter.reg = true := by
    obtain ⟨block, isBlock, isCode⟩ := inLoop
    rcases settled.codes block isBlock code isCode with
      ⟨inst, isInst, rfl⟩ | isOwn | ⟨regsToSave, rfl, saves⟩
    · rw [Code.saves]
      cases isYield : inst.isYield with
      | false => rfl
      | true =>
          rw [(settled.onlyYield block isBlock inst isInst isYield).2]
          rfl
    · cases code with
      | counter owner reg inductionReg => rfl
      | original inst => cases isOwn
      | yield regsToSave => cases isOwn
    · exact saves
  exact {
    alone := alone
    saved := saved
    distinct := invariant.distinct counter member
    kept := fun executed inLoop before after executes =>
      eq_of_executes alone saved inLoop executes
  }

/-- What a search through a loop's blocks has found, if none of them has been
split -/
structure Seen (state : State) (options : Options) (patch : Patch nest)
    (counter : RegCounter) : Prop where
  isCounter :
    counter.owner = patch.block ∧ counter.loop = patch.loop
  originals :
    ∀ block ∈ nest.loopBlocks patch.loop,
      state.front block = (nest.insts block).map .original ∧
        state.back block = []
  onlyYield :
    ∀ block ∈ nest.loopBlocks patch.loop, ∀ inst ∈ nest.insts block,
      inst.isYield = true →
        block = patch.block ∧ inst.iterationBound.isSome = true
  untouched :
    ∀ block ∈ nest.loopBlocks patch.loop, ∀ inst ∈ nest.insts block,
      inst.touches counter.reg = false
  unused :
    state.regsAlreadyUsed patch.loop counter.reg = false ∧
      ∀ parent ∈ nest.parents patch.loop,
        state.regsAlreadyUsed parent counter.reg = false
  inserted :
    ∀ code ∈ state.insertedCode options patch,
      code.isOwn counter = true ∨
        ∃ regsToSave, code = .yield regsToSave ∧
          regsToSave counter.reg = true
  marked :
    ∀ loop, loop = patch.loop ∨ loop ∈ nest.parents patch.loop →
      (state.applyPatch options patch).regsAlreadyUsed loop counter.reg = true

/-- What is known of a register counter when it is given -/
theorem seen_of_givenCounter (invariant : Invariant done state)
    (mayCount : state.MayCount options patch)
    (given : state.givenCounter options patch = some counter) :
    Seen state options patch counter := by
  unfold State.givenCounter at given
  cases isFound : state.unusedGPReg options patch with
  | none =>
      rw [isFound] at given
      cases given
  | some reg =>
      rw [isFound] at given
      dsimp only at given
      split at given
      · cases given
      · next notMemory =>
          cases given
          obtain ⟨unused, untouched⟩ := of_findUnusedReg isFound
          have originals (block : Nat)
              (isBlock : block ∈ nest.loopBlocks patch.loop) :
              state.front block = (nest.insts block).map .original ∧
                state.back block = [] := by
            refine invariant.unsplit block fun other isDone same => ?_
            refine invariant.split other isDone ?_
            rw [same]
            exact mayCount.resolve_left notMemory block isBlock
          have listed (block : Nat)
              (isBlock : block ∈ nest.loopBlocks patch.loop) (inst : Inst)
              (isInst : inst ∈ nest.insts block) :
              .original inst ∈ state.listed nest patch.loop := by
            refine List.mem_flatMap.mpr ⟨block, isBlock, ?_⟩
            rw [(originals block isBlock).1]
            exact List.mem_map_of_mem isInst
          rw [Bool.not_eq_true, State.useMemory, Bool.or_eq_false_iff]
            at notMemory
          rw [State.regsInUse, Bool.or_eq_false_iff, Bool.or_eq_false_iff]
            at unused
          exact {
            isCounter := ⟨rfl, rfl⟩
            originals := originals
            onlyYield := by
              intro block isBlock inst isInst isYield
              have noYield := List.any_eq_false.mp
                (List.any_eq_false.mp notMemory.1 patch.loop
                  List.mem_cons_self |> Bool.eq_false_iff.mpr)
                (.original inst) (listed block isBlock inst isInst)
              have isCMInst : inst.ptr = patch.inst.ptr := by
                by_contra notSame
                simp [Code.isInst, Code.isYield, notSame, isYield] at noYield
              obtain ⟨sameBlock, rfl⟩ := nest.distinct block inst isInst
                patch.block patch.inst patch.inst_mem isCMInst
              exact ⟨sameBlock, patch.isBound⟩
            untouched := by
              intro block isBlock inst isInst
              have notTouched := List.any_eq_false.mp untouched
                (.original inst) (listed block isBlock inst isInst)
              exact Bool.eq_false_iff.mpr notTouched
            unused := by
              refine ⟨unused.1.1, fun parent isParent => ?_⟩
              exact Bool.eq_false_iff.mpr
                (List.any_eq_false.mp unused.2 parent isParent)
            inserted := by
              intro code isCode
              rw [State.insertedCode, isFound] at isCode
              simp only [State.useMemory, notMemory.1, notMemory.2,
                Bool.or_false, Bool.false_eq_true, ↓reduceIte,
                List.mem_cons] at isCode
              rcases isCode with rfl | isYieldCode
              · exact .inl (by simp [Code.isOwn])
              · rw [State.yieldCode] at isYieldCode
                split at isYieldCode
                · cases isYieldCode
                · rw [List.mem_singleton.mp isYieldCode]
                  exact .inr ⟨_, rfl, by simp [addReg]⟩
            marked := by
              intro loop isAround
              simp only [State.applyPatch, isFound, State.useReg, isAround,
                ↓reduceIte]
              simp [addReg]
          }

/-- A latch that is split later is in no loop that has a register counter. -/
theorem Settled.not_mem_loopBlocks (settled : Settled done state counter)
    (fresh : ∀ other ∈ done, other.block ≠ patch.block) :
    patch.block ∉ nest.loopBlocks counter.loop := by
  intro isBlock
  obtain ⟨owner, isDone, isOwner⟩ := settled.isDone
  obtain ⟨same, -⟩ := settled.onlyYield patch.block isBlock patch.inst
    patch.inst_mem (patch.inst.bound_isYield patch.isBound)
  exact fresh owner isDone (isOwner.trans same.symm)

theorem Settled.applyPatch (settled : Settled done state counter)
    (fresh : ∀ other ∈ done, other.block ≠ patch.block) :
    Settled (done ++ [patch]) (state.applyPatch options patch) counter where
  isDone := by
    obtain ⟨owner, isDone, isOwner⟩ := settled.isDone
    exact ⟨owner, List.mem_append_left _ isDone, isOwner⟩
  onlyYield := settled.onlyYield
  untouched := settled.untouched
  codes := by
    intro block isBlock code isCode
    have notSplit : block ≠ patch.block := by
      rintro rfl
      exact settled.not_mem_loopBlocks fresh isBlock
    simp only [State.applyPatch, update_of_ne notSplit] at isCode
    exact settled.codes block isBlock code isCode

/-- The counter that a latch has just been given is settled. -/
theorem Seen.settled (seen : Seen state options patch counter) :
    Settled (done ++ [patch]) (state.applyPatch options patch) counter where
  isDone := ⟨patch, by simp, seen.isCounter.1.symm⟩
  onlyYield := by
    rw [seen.isCounter.1, seen.isCounter.2]
    exact seen.onlyYield
  untouched := by
    rw [seen.isCounter.2]
    exact seen.untouched
  codes := by
    rw [seen.isCounter.2]
    intro block isBlock code isCode
    obtain ⟨isFront, isBack⟩ := seen.originals block isBlock
    have original (isOriginal : code ∈ state.front block) :
        ∃ inst ∈ nest.insts block, code = .original inst := by
      rw [isFront] at isOriginal
      obtain ⟨inst, isInst, rfl⟩ := List.mem_map.mp isOriginal
      exact ⟨inst, isInst, rfl⟩
    by_cases isSplit : block = patch.block
    · subst isSplit
      simp only [State.applyPatch, update_self, List.mem_append] at isCode
      rcases isCode with (isTaken | isInserted) | isDropped
      · exact .inl (original (List.takeWhile_subset _ isTaken))
      · exact .inr (seen.inserted code isInserted)
      · exact .inl (original (List.dropWhile_subset _ isDropped))
    · simp only [State.applyPatch, update_of_ne isSplit, isBack,
        List.append_nil] at isCode
      exact .inl (original isCode)

theorem mem_counters_applyPatch :
    counter ∈ (state.applyPatch options patch).counters ↔
      counter ∈ state.counters ∨
        state.givenCounter options patch = some counter := by
  rw [State.applyPatch, List.mem_append, Option.mem_toList]

/-- Registers in use stay in use. -/
theorem regsAlreadyUsed_applyPatch {loop : Nat} {reg : Gpr}
    (isUsed : state.regsAlreadyUsed loop reg = true) :
    (state.applyPatch options patch).regsAlreadyUsed loop reg = true := by
  unfold State.applyPatch
  dsimp only
  cases state.unusedGPReg options patch with
  | none => exact isUsed
  | some given =>
      dsimp only
      rw [State.useReg]
      split
      · rw [addReg, isUsed, Bool.true_or]
      · exact isUsed

/-- A register in use in a loop nested with another one is not given away. -/
theorem Seen.ne_of_nested (seen : Seen state options patch counter)
    (invariant : Invariant done state) {other : RegCounter}
    (isOther : other ∈ state.counters)
    (nested : nest.Nested other.loop counter.loop) :
    other.reg ≠ counter.reg := by
  intro same
  obtain ⟨ofLoop, ofParents⟩ := invariant.used other isOther
  obtain ⟨loopUnused, parentsUnused⟩ := seen.unused
  rw [seen.isCounter.2] at nested
  rw [same] at ofLoop ofParents
  rcases nested with sameLoop | isParent | isParent
  · rw [sameLoop, loopUnused] at ofLoop
    cases ofLoop
  · rw [parentsUnused other.loop isParent] at ofLoop
    cases ofLoop
  · have isUsed := ofParents patch.loop isParent
    rw [loopUnused] at isUsed
    cases isUsed

/-- Splitting a latch keeps the invariant. -/
theorem Invariant.applyPatch (invariant : Invariant done state)
    (fresh : ∀ other ∈ done, other.block ≠ patch.block)
    (mayCount : state.MayCount options patch) :
    Invariant (done ++ [patch]) (state.applyPatch options patch) where
  unsplit := by
    intro block notDone
    have notSplit : block ≠ patch.block := by
      rintro rfl
      exact notDone patch (by simp) rfl
    simp only [State.applyPatch, update_of_ne notSplit]
    exact invariant.unsplit block fun other isDone =>
      notDone other (List.mem_append_left _ isDone)
  split := by
    intro other isDone
    rcases List.mem_append.mp isDone with isEarlier | isPatch
    · simp only [State.applyPatch, update_of_ne (fresh other isEarlier)]
      exact invariant.split other isEarlier
    · rw [List.mem_singleton.mp isPatch]
      simp only [State.applyPatch, update_self, (invariant.unsplit _ fresh).1]
      intro isEmpty
      have notInst := List.dropWhile_eq_nil_iff.mp isEmpty
        (.original patch.inst) (List.mem_map_of_mem patch.inst_mem)
      simp [Code.isInst] at notInst
  used := by
    intro counter member
    rcases mem_counters_applyPatch.mp member with isOld | given
    · obtain ⟨ofLoop, ofParents⟩ := invariant.used counter isOld
      exact ⟨regsAlreadyUsed_applyPatch ofLoop, fun parent isParent =>
        regsAlreadyUsed_applyPatch (ofParents parent isParent)⟩
    · have seen := seen_of_givenCounter invariant mayCount given
      rw [seen.isCounter.2]
      exact ⟨seen.marked _ (.inl rfl), fun parent isParent =>
        seen.marked parent (.inr isParent)⟩
  settled := by
    intro counter member
    rcases mem_counters_applyPatch.mp member with isOld | given
    · exact (invariant.settled counter isOld).applyPatch fresh
    · exact (seen_of_givenCounter invariant mayCount given).settled
  distinct := by
    intro counter member other otherMember notSame nested
    rcases mem_counters_applyPatch.mp member with isOld | given
    · rcases mem_counters_applyPatch.mp otherMember with otherOld | otherGiven
      · exact invariant.distinct counter isOld other otherOld notSame nested
      · have seen := seen_of_givenCounter invariant mayCount otherGiven
        exact (seen.ne_of_nested invariant isOld nested.symm).symm
    · have seen := seen_of_givenCounter invariant mayCount given
      rcases mem_counters_applyPatch.mp otherMember with otherOld | otherGiven
      · exact seen.ne_of_nested invariant otherOld nested
      · rw [given] at otherGiven
        exact absurd (Option.some_inj.mp otherGiven).symm notSame

/-- The invariant along a run -/
theorem Invariant.applyPatches {patches : List (Patch nest)}
    (invariant : Invariant done state)
    (distinct : ((done ++ patches).map (·.block)).Nodup)
    (mayCount : state.AllMayCount options patches) :
    Invariant (done ++ patches) (state.applyPatches options patches) := by
  induction patches generalizing done state with
  | nil =>
      rw [List.append_nil]
      exact invariant
  | cons patch rest inductionHypothesis =>
      have fresh (other : Patch nest) (isDone : other ∈ done) :
          other.block ≠ patch.block := by
        rw [List.map_append, List.nodup_append] at distinct
        exact distinct.2.2 other.block (List.mem_map_of_mem isDone)
          patch.block (by simp)
      have split := invariant.applyPatch fresh mayCount.1
      have later := inductionHypothesis split
        (by rwa [List.append_assoc, List.singleton_append]) mayCount.2
      rwa [List.append_assoc, List.singleton_append] at later

theorem State.AllMayCount.of_append {first second : List (Patch nest)}
    (mayCount : state.AllMayCount options (first ++ second)) :
    state.AllMayCount options first := by
  induction first generalizing state with
  | nil => trivial
  | cons patch rest inductionHypothesis =>
      exact ⟨mayCount.1, inductionHypothesis mayCount.2⟩

/-- As long as no latch gets a register counter after a block of its loop has
been split, no register counter is ever clobbered. -/
theorem unclobbered_of_mayCount (Value : Type) (options : Options)
    (patches : List (Patch nest))
    (distinct : (patches.map (·.block)).Nodup)
    (mayCount : nest.init.AllMayCount options patches) :
    ∀ done later, patches = done ++ later →
      ∀ counter ∈ (nest.init.applyPatches options done).counters,
        Unclobbered Value nest (nest.init.applyPatches options done)
          counter := by
  rintro done later rfl counter member
  rw [List.map_append] at distinct
  have invariant :
      Invariant ([] ++ done) (nest.init.applyPatches options done) :=
    invariant_init.applyPatches distinct.of_append_left mayCount.of_append
  exact invariant.unclobbered Value member

/-! ## Two nested loops -/

/-- A latch that touches no general register -/
def latchInst (ptr : Nat) : Inst where
  ptr := ptr
  touches _ := false
  isYield := true
  iterationBound := some 10
  regsToSave _ := false
  bound_isYield _ := rfl

/-- A loop `0` with latch `0`, and a loop `1` with latch `1` inside it -/
def twoLoops : LoopNest where
  blocks := [0, 1]
  insts block := [latchInst block]
  loopFor block := some block
  parents loop := if loop = 1 then [0] else []
  subLoops loop := if loop = 0 then [1] else []
  inductionReg _ := none
  distinct := by
    intro block inst isInst other inst' isInst' samePtr
    rw [List.mem_singleton] at isInst isInst'
    subst isInst isInst'
    cases samePtr
    exact ⟨rfl, rfl⟩

/-- The patches of both latches -/
def latchPatch (block : Fin 2) : Patch twoLoops where
  block := block
  inst := latchInst block
  inst_mem := List.mem_cons_self
  isBound := rfl
  loop := block
  isLoop := rfl
  block_mem := by revert block; decide

/-- The registers in the target's order -/
def x86Options : Options where
  regOrder :=
    [.rax, .rbp, .rbx, .rcx, .rdi, .rdx, .rsi, .rsp, .r8, .r9, .r10, .r11,
      .r12, .r13, .r14, .r15]
  disableUseUnusedReg := false
  disableMemoryLoops := false
  disableYieldInLoops := false

/-- With the outer latch first, the inner loop has the only register counter,
and it is safe. -/
theorem outerFirst_unclobbered :
    (⟨1, 1, .rbp⟩ : RegCounter) ∈
        (twoLoops.init.applyPatches x86Options
          [latchPatch 0, latchPatch 1]).counters ∧
      Unclobbered Nat twoLoops
        (twoLoops.init.applyPatches x86Options [latchPatch 0, latchPatch 1])
        ⟨1, 1, .rbp⟩ := by
  have member :
      (⟨1, 1, .rbp⟩ : RegCounter) ∈
        (twoLoops.init.applyPatches x86Options
          [latchPatch 0, latchPatch 1]).counters := by
    decide
  refine ⟨member, ?_⟩
  refine unclobbered_of_mayCount Nat x86Options
    [latchPatch 0, latchPatch 1] (by decide) ?_ _ [] rfl _ member
  refine ⟨.inl (by decide), .inr fun block isBlock => ?_, trivial⟩
  have isInner : block = 1 := by
    have listed : twoLoops.loopBlocks (latchPatch 1).loop = [1] := by decide
    rw [listed] at isBlock
    exact List.mem_singleton.mp isBlock
  rw [isInner]
  rfl

/-- With the inner latch first, its yield does not save the register that the
outer loop's latch is given afterwards. -/
theorem innerFirst_clobbered :
    ∃ counter ∈
        (twoLoops.init.applyPatches x86Options
          [latchPatch 1, latchPatch 0]).counters,
      ¬Unclobbered Nat twoLoops
        (twoLoops.init.applyPatches x86Options [latchPatch 1, latchPatch 0])
        counter := by
  refine ⟨⟨0, 0, .rbp⟩, by decide, fun unclobbered => ?_⟩
  have saved := unclobbered.saved (.yield (addReg (fun _ => false) .rax))
    ⟨1, by decide, List.mem_append_left _
      (List.mem_cons_of_mem _ List.mem_cons_self)⟩
  cases saved

end Msh.BoundYieldDistanceInstrumenter
