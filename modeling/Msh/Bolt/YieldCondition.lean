import Msh.Library.SampledRuns
import Msh.Library.X86Branch

/-!
# The condition of a yield in a loop

`createConditionalBranchForYield` emits the code before a yield at a loop's
latch.  It counts the executions of the latch in a register or in memory, or
compares the loop's own induction register with a bound, and passes over the
yield while the count is at most the threshold.
-/

namespace Msh

open X86 SampledRuns ByteMemory

/-- The options that leave out a part of the code -/
structure TestOptions where
  testNoCmp : Bool
  testNoJump : Bool
  deriving DecidableEq, Repr

/-- The options at their defaults -/
def TestOptions.init : TestOptions := ⟨false, false⟩

/-- What the condition of a yield is about. -/
structure YieldCondition (Label : Type) where
  iterTh : Int
  /-- The block behind the yield -/
  target : Label
  /-- Where the symbol `loop_counter_loc` is -/
  loopCounterLoc : BitVec 64
  reg : Gpr
  /-- `cur_loop_counter_idx`, or nothing for -1 -/
  curLoopCounterIdx : Option Nat
  /-- `InductionReg`, or nothing for 0 -/
  inductionReg : Option Gpr
  inductionConst : Int

namespace YieldCondition

variable {Label : Type} (condition : YieldCondition Label)

/-- The memory operand of a counter, once its area's address is loaded -/
def counterMem (idx : Nat) : Mem :=
  .base true condition.reg (BitVec.ofNat 64 (2 * idx))

/-- `IterTh * InductionConst`, a product of `int`s, as an immediate -/
def step : BitVec 32 :=
  BitVec.ofInt 32 (condition.iterTh * condition.inductionConst)

/-- The instructions before the jump -/
def compareInstrs (options : TestOptions) : List (BranchInstr Label) :=
  match condition.curLoopCounterIdx, condition.inductionReg with
  | some idx, _ =>
      [.straight
          (.mov64rm condition.reg (.symbol condition.loopCounterLoc)),
        .add16mi (condition.counterMem idx) 1,
        .cmp16mi (condition.counterMem idx)
          (BitVec.ofInt 16 condition.iterTh)]
  | none, none =>
      [.add64ri32 condition.reg 1,
        .cmp64ri32 condition.reg (BitVec.ofInt 32 condition.iterTh)]
  | none, some inductionReg =>
      if options.testNoCmp then []
      else [.cmp64rr inductionReg condition.reg]

/-- The instructions behind the jump -/
def resetInstrs (options : TestOptions) : List (BranchInstr Label) :=
  match condition.inductionReg, condition.curLoopCounterIdx with
  | some _, _ =>
      if options.testNoJump then []
      else [.add64ri32 condition.reg condition.step]
  | none, some idx => [.mov16mi (condition.counterMem idx) 0]
  | none, none => [.straight (.xor64rr condition.reg condition.reg)]

/-- `createConditionalBranchForYield` -/
def createConditionalBranchForYield (options : TestOptions) :
    List (BranchInstr Label) :=
  condition.compareInstrs options ++
    (if options.testNoJump then [] else [.jle condition.target]) ++
    condition.resetInstrs options

/-- One execution of the latch's code before the yield -/
def latch (state : State) : State × Option Label :=
  state.runBranch (condition.createConditionalBranchForYield .init)

/-- The yield is not passed over. -/
def yields (state : State) : Bool :=
  (condition.latch state).2.isNone

end YieldCondition

/-! ## The two ways to count -/

/-- A loop's counter in a register -/
structure RegisterCounter (Label : Type) where
  iterTh : Int
  target : Label
  reg : Gpr

/-- A loop's counter in memory -/
structure MemoryCounter (Label : Type) where
  iterTh : Int
  target : Label
  loopCounterLoc : BitVec 64
  reg : Gpr
  idx : Nat

namespace RegisterCounter

variable {Label : Type} (form : RegisterCounter Label)

/-- The arguments that `insertYield` gives without an induction register -/
def condition : YieldCondition Label where
  iterTh := form.iterTh
  target := form.target
  loopCounterLoc := 0
  reg := form.reg
  curLoopCounterIdx := none
  inductionReg := none
  inductionConst := 0

/-- The counter in a state -/
def counter (state : State) : BitVec 64 :=
  state.gpr form.reg

/-- The next execution of the latch finds the counter as this one left it. -/
def Next (state later : State) : Prop :=
  form.counter later = form.counter (form.condition.latch state).1

/-- The executions of the latch, from one on, by which of them yield -/
abbrev Executions (state : State) (yields : List Bool) : Prop :=
  Run form.condition.yields form.Next state yields

end RegisterCounter

namespace MemoryCounter

variable {Label : Type} (form : MemoryCounter Label)

/-- The arguments that `insertYield` gives for a counter in memory -/
def condition : YieldCondition Label where
  iterTh := form.iterTh
  target := form.target
  loopCounterLoc := form.loopCounterLoc
  reg := form.reg
  curLoopCounterIdx := some form.idx
  inductionReg := none
  inductionConst := 0

/-- Where the counter is: behind the address that the symbol holds -/
def address (state : State) : Nat :=
  (state.gsBase + load 8 state.memory form.loopCounterLoc.toNat +
    BitVec.ofNat 64 (2 * form.idx)).toNat

/-- The counter in a state -/
def counter (state : State) : BitVec 16 :=
  load 2 state.memory (form.address state)

/-- The next execution of the latch finds the counter as this one left it. -/
def Next (state later : State) : Prop :=
  form.counter later =
    load 2 (form.condition.latch state).1.memory (form.address state)

/-- The executions of the latch, from one on, by which of them yield -/
abbrev Executions (state : State) (yields : List Bool) : Prop :=
  Run form.condition.yields form.Next state yields

end MemoryCounter

/-! ## What one execution does -/

/-- Counting up to a threshold in a word: the next count, or none. -/
def countUp {width : Nat} (threshold count : BitVec width) :
    BitVec width × Bool :=
  if (count + 1).sle threshold then (count + 1, false) else (0, true)

namespace RegisterCounter

variable {Label : Type} (form : RegisterCounter Label)

/-- One execution with the counter in a register -/
theorem latch_eq (state : State) :
    (form.counter (form.condition.latch state).1,
        form.condition.yields state) =
      countUp ((BitVec.ofInt 32 form.iterTh).signExtend 64)
        (form.counter state) := by
  have compared (flags : BitVec 64) :=
    condLe_compareFlags (by decide : 0 < 64) (by decide) flags
      (form.counter state + 1)
      ((BitVec.ofInt 32 form.iterTh).signExtend 64)
  unfold countUp
  cases isLe : (form.counter state + 1).sle
      ((BitVec.ofInt 32 form.iterTh).signExtend 64) <;>
    simp [YieldCondition.yields, YieldCondition.latch,
      YieldCondition.createConditionalBranchForYield,
      YieldCondition.compareInstrs, YieldCondition.resetInstrs, condition,
      TestOptions.init, State.runBranch, State.execBranch, State.effect,
      State.setGpr, counter] at isLe compared ⊢ <;>
    simp [compared, isLe]

end RegisterCounter

namespace MemoryCounter

variable {Label : Type} (form : MemoryCounter Label)

/-- One execution with the counter in memory -/
theorem latch_eq (state : State) :
    ((load 2 (form.condition.latch state).1.memory (form.address state) :
          BitVec 16),
        form.condition.yields state) =
      countUp (BitVec.ofInt 16 form.iterTh) (form.counter state) := by
  have compared (flags : BitVec 64) :=
    condLe_compareFlags (by decide : 0 < 16) (by decide) flags
      (form.counter state + 1) (BitVec.ofInt 16 form.iterTh)
  have stored (memory : Memory) (value : BitVec 16) :
      (load 2 (store 2 memory (form.address state) value)
        (form.address state) : BitVec 16) = value :=
    @load_store 2 memory (form.address state) value
  unfold countUp
  cases isLe : (form.counter state + 1).sle (BitVec.ofInt 16 form.iterTh) <;>
    simp [YieldCondition.yields, YieldCondition.latch,
      YieldCondition.createConditionalBranchForYield,
      YieldCondition.compareInstrs, YieldCondition.resetInstrs, condition,
      YieldCondition.counterMem, Mem.address,
      TestOptions.init, State.runBranch, State.execBranch, State.effect,
      State.setGpr, counter, address] at isLe compared stored ⊢ <;>
    simp [compared, isLe, stored]

end MemoryCounter

end Msh
