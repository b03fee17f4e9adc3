import Mathlib.Tactic.Linarith
import Mathlib.Tactic.Ring
import Msh.Bolt.YieldCondition

/-!
# Yields by an induction register

Where a loop changes a register only by adding a constant to it once in each
iteration, no count is kept: the register is compared with a bound, which is
moved by as much as the register grows from one yield to the next.
-/

namespace Msh

open X86 SampledRuns

/-- The part of a register that an addition changes, by its opcodes -/
inductive RegPart where
  /-- `ADD64ri32`, `ADD64ri8` -/
  | r64
  /-- `ADD32ri`, `ADD32ri8` -/
  | r32
  /-- `ADD16ri`, `ADD16ri8` -/
  | r16
  /-- `ADD8ri`, `ADD8ri8` -/
  | r8
  deriving DecidableEq, Repr

namespace RegPart

/-- The bits of a part -/
def width : RegPart → Nat
  | .r64 => 64
  | .r32 => 32
  | .r16 => 16
  | .r8 => 8

/-- The whole register after a constant is added to a part of it -/
def add : RegPart → BitVec 64 → Int → BitVec 64
  | .r64, value, const => value + BitVec.ofInt 64 const
  | .r32, value, const =>
      -- the upper half is cleared
      (value.setWidth 32 + BitVec.ofInt 32 const).setWidth 64
  | .r16, value, const =>
      value.extractLsb' 16 48 ++ (value.setWidth 16 + BitVec.ofInt 16 const)
  | .r8, value, const =>
      value.extractLsb' 8 56 ++ (value.setWidth 8 + BitVec.ofInt 8 const)

/-- An addition stays within its part, and changes no bit above it. -/
def Fits (value : BitVec 64) (const : Int) : RegPart → Prop
  | .r64 => value.toInt + const < 2 ^ 63
  | .r32 => (value.toNat : Int) + const < 2 ^ 32
  | .r16 => (value.toNat % 2 ^ 16 : Int) + const < 2 ^ 16
  | .r8 => (value.toNat % 2 ^ 8 : Int) + const < 2 ^ 8

instance (value : BitVec 64) (const : Int) :
    (part : RegPart) → Decidable (part.Fits value const)
  | .r64 => Int.decLt _ _
  | .r32 => Int.decLt _ _
  | .r16 => Int.decLt _ _
  | .r8 => Int.decLt _ _

theorem toNat_append_add {high low : Nat} (upper : BitVec high)
    (lower : BitVec low) : (upper ++ lower).toNat =
      upper.toNat * 2 ^ low + lower.toNat := by
  rw [BitVec.toNat_append, ← Nat.shiftLeft_add_eq_or_of_lt lower.isLt,
    Nat.shiftLeft_eq]

theorem toNat_ofInt_natCast {bits : Nat} (amount : Nat) :
    (BitVec.ofInt bits amount).toNat = amount % 2 ^ bits := by
  rw [BitVec.ofInt_natCast, BitVec.toNat_ofNat]

/-- A low part that takes an amount without a carry -/
theorem toInt_append_add {high low : Nat} (positive : 0 < high)
    (value : BitVec (high + low)) {amount : Nat}
    (fits : value.toNat % 2 ^ low + amount < 2 ^ low) :
    (value.extractLsb' low high ++
        (value.setWidth low + BitVec.ofInt low amount)).toInt =
      value.toInt + amount := by
  have high_le : 2 ^ high * 2 ^ low = 2 ^ (high + low) :=
    (Nat.pow_add 2 high low).symm
  have isLess := value.isLt
  have upper : value.toNat / 2 ^ low < 2 ^ high := by
    rw [Nat.div_lt_iff_lt_mul (Nat.two_pow_pos low), high_le]
    exact isLess
  have amountLess : amount < 2 ^ low := by omega
  have sum :
      (value.extractLsb' low high ++
          (value.setWidth low + BitVec.ofInt low amount)).toNat =
        value.toNat + amount := by
    rw [toNat_append_add, BitVec.toNat_add, BitVec.toNat_setWidth,
      BitVec.extractLsb'_toNat, toNat_ofInt_natCast,
      Nat.mod_eq_of_lt amountLess, Nat.mod_eq_of_lt fits,
      Nat.shiftRight_eq_div_pow, Nat.mod_eq_of_lt upper]
    have parts := Nat.div_add_mod' value.toNat (2 ^ low)
    omega
  -- the upper part decides the sign, and there is no carry to it
  have sameUpper :
      (value.toNat + amount) / 2 ^ low = value.toNat / 2 ^ low := by
    have parts := Nat.div_add_mod' value.toNat (2 ^ low)
    rw [← parts, Nat.add_assoc, Nat.mul_comm,
      Nat.mul_add_div (Nat.two_pow_pos low), Nat.div_eq_of_lt fits,
      Nat.mul_add_div (Nat.two_pow_pos low),
      Nat.div_eq_of_lt (Nat.mod_lt _ (Nat.two_pow_pos low))]
  have half : 2 ^ (high + low) = 2 * (2 ^ (high - 1) * 2 ^ low) := by
    rw [← high_le, ← Nat.mul_assoc, ← Nat.pow_succ',
      Nat.succ_eq_add_one, Nat.sub_add_cancel positive]
  have sameSign :
      value.toNat + amount < 2 ^ (high - 1) * 2 ^ low ↔
        value.toNat < 2 ^ (high - 1) * 2 ^ low := by
    rw [← Nat.div_lt_iff_lt_mul (Nat.two_pow_pos low), sameUpper,
      Nat.div_lt_iff_lt_mul (Nat.two_pow_pos low)]
  rw [BitVec.toInt_eq_toNat_cond, BitVec.toInt_eq_toNat_cond, sum]
  by_cases isLow : value.toNat < 2 ^ (high - 1) * 2 ^ low
  · have sumIsLow := sameSign.mpr isLow
    rw [if_pos (by omega), if_pos (by omega)]
    push_cast
    rfl
  · have sumIsHigh := mt sameSign.mp isLow
    rw [if_neg (by omega), if_neg (by omega)]
    push_cast
    ring

/-- An addition that fits adds to the whole register. -/
theorem toInt_add {part : RegPart} {value : BitVec 64} {const : Int}
    (positive : 0 < const) (isInt : const < 2 ^ 31)
    (fits : part.Fits value const) :
    (part.add value const).toInt = value.toInt + const := by
  obtain ⟨amount, rfl⟩ := Int.eq_ofNat_of_zero_le positive.le
  cases part with
  | r64 =>
      have isAmount : (BitVec.ofInt 64 amount).toInt = amount :=
        BitVec.toInt_ofInt_eq_self (by decide) (by omega) (by omega)
      have atLeast := value.le_toInt
      change value.toInt + amount < 2 ^ 63 at fits
      rw [add, BitVec.toInt_add_of_not_saddOverflow, isAmount]
      simp only [BitVec.saddOverflow, isAmount, Bool.or_eq_true,
        decide_eq_true_eq]
      omega
  | r32 =>
      change (value.toNat : Int) + amount < 2 ^ 32 at fits
      have sum : (add .r32 value amount).toNat = value.toNat + amount := by
        rw [add, BitVec.toNat_setWidth, BitVec.toNat_add,
          BitVec.toNat_setWidth, toNat_ofInt_natCast]
        omega
      rw [BitVec.toInt_eq_toNat_cond, BitVec.toInt_eq_toNat_cond, sum]
      push_cast
      omega
  | r16 =>
      change (value.toNat % 2 ^ 16 : Int) + amount < 2 ^ 16 at fits
      exact @toInt_append_add 48 16 (by decide) value amount (by omega)
  | r8 =>
      change (value.toNat % 2 ^ 8 : Int) + amount < 2 ^ 8 at fits
      exact @toInt_append_add 56 8 (by decide) value amount (by omega)

end RegPart

/-! ## The loop -/

/-- A loop's bound for its induction register -/
structure InductionCounter (Label : Type) where
  iterTh : Int
  target : Label
  /-- The register that holds the bound -/
  reg : Gpr
  inductionReg : Gpr
  inductionConst : Int
  part : RegPart
  /-- In an iteration, the addition stands before the check. -/
  addFirst : Bool
  /-- A register for a bound is not used in the loop. -/
  unused : reg ≠ inductionReg

namespace InductionCounter

variable {Label : Type} (form : InductionCounter Label)

/-- The arguments that `insertYield` gives with an induction register -/
def condition : YieldCondition Label where
  iterTh := form.iterTh
  target := form.target
  loopCounterLoc := 0
  reg := form.reg
  curLoopCounterIdx := none
  inductionReg := some form.inductionReg
  inductionConst := form.inductionConst

/-- What `insertYield` puts into the preheader -/
def preheaderInstrs : List (BranchInstr Label) :=
  [.mov64rr form.reg form.inductionReg,
    .add64ri32 form.reg form.condition.step]

/-- The loop's addition to its induction register -/
def addInduction (state : State) : BitVec 64 :=
  form.part.add (state.gpr form.inductionReg) form.inductionConst

/-- From the preheader on, a first execution of the latch -/
structure Enters (preheader state : State) : Prop where
  bound :
    state.gpr form.reg =
      (preheader.runBranch form.preheaderInstrs).1.gpr form.reg
  induction :
    state.gpr form.inductionReg =
      if form.addFirst then form.addInduction preheader
      else preheader.gpr form.inductionReg

/-- From one execution of the latch to the next, there is one addition. -/
structure Next (state later : State) : Prop where
  bound : later.gpr form.reg = (form.condition.latch state).1.gpr form.reg
  induction :
    later.gpr form.inductionReg =
      form.addInduction (form.condition.latch state).1

/-- Neither the first addition overflows nor the sum that is the bound. -/
structure FitsOnEntry (preheader : State) : Prop where
  induction :
    form.part.Fits (preheader.gpr form.inductionReg) form.inductionConst
  bound : (preheader.gpr form.inductionReg).toInt +
    form.iterTh * form.inductionConst < 2 ^ 63

/-- What is added behind a check does not overflow: the next addition, and
where the check yields, the step of the bound. -/
structure FitsBehind (state : State) : Prop where
  induction :
    form.part.Fits (state.gpr form.inductionReg) form.inductionConst
  bound : form.condition.yields state = true →
    (state.gpr form.reg).toInt + form.iterTh * form.inductionConst < 2 ^ 63

/-- The executions of the latch, from one on, by which of them yield -/
abbrev Executions (state : State) (yields : List Bool) : Prop :=
  Run form.condition.yields form.Next state yields

/-- Executions whose sums do not overflow from one to the next -/
abbrev FittingExecutions (state : State) (yields : List Bool) : Prop :=
  Run form.condition.yields
    (fun state later => form.FitsBehind state ∧ form.Next state later)
    state yields

/--
From the entry of the loop to the first yield, and from one yield to the next,
there are as many executions as the threshold says, or one more.
-/
def Regular (yields : List Bool) : Prop :=
  (∀ executions ∈ gaps yields,
    form.iterTh ≤ executions ∧ executions ≤ form.iterTh + 1) ∧
    pending yields ≤ form.iterTh

/-- One execution with an induction register -/
theorem latch_eq (state : State) :
    (form.condition.latch state).1.gpr form.inductionReg =
        state.gpr form.inductionReg ∧
      form.condition.yields state =
        !(state.gpr form.inductionReg).sle (state.gpr form.reg) ∧
      (form.condition.latch state).1.gpr form.reg =
        if form.condition.yields state then
          state.gpr form.reg + form.condition.step.signExtend 64
        else state.gpr form.reg := by
  have compared (flags : BitVec 64) :=
    condLe_compareFlags (by decide : 0 < 64) (by decide) flags
      (state.gpr form.inductionReg) (state.gpr form.reg)
  have differs := form.unused.symm
  cases isLe :
      (state.gpr form.inductionReg).sle (state.gpr form.reg) <;>
    simp [YieldCondition.yields, YieldCondition.latch,
      YieldCondition.createConditionalBranchForYield,
      YieldCondition.compareInstrs, YieldCondition.resetInstrs, condition,
      TestOptions.init, State.runBranch, State.execBranch,
      State.setGpr, compared, isLe, differs]

section Regular

variable (positive : 1 ≤ form.iterTh) (grows : 0 < form.inductionConst)
  (isInt : form.iterTh * form.inductionConst < 2 ^ 31)
include positive grows isInt

theorem toInt_step :
    (form.condition.step.signExtend 64).toInt =
      form.iterTh * form.inductionConst := by
  have product : 0 < form.iterTh * form.inductionConst :=
    Int.mul_pos (by omega) grows
  rw [BitVec.toInt_signExtend_of_le (by decide)]
  exact BitVec.toInt_ofInt_eq_self (by decide)
    (show -2 ^ 31 ≤ form.iterTh * form.inductionConst by omega) isInt

theorem inductionConst_lt : form.inductionConst < 2 ^ 31 := by
  nlinarith

/-- A sum with the bound's step that does not overflow -/
theorem toInt_add_step {bound : BitVec 64}
    (fits : bound.toInt + form.iterTh * form.inductionConst < 2 ^ 63) :
    (bound + form.condition.step.signExtend 64).toInt =
      bound.toInt + form.iterTh * form.inductionConst := by
  have isStep := form.toInt_step positive grows isInt
  have product : 0 < form.iterTh * form.inductionConst :=
    Int.mul_pos (by omega) grows
  have atLeast := bound.le_toInt
  rw [BitVec.toInt_add_of_not_saddOverflow, isStep]
  simp only [BitVec.saddOverflow, isStep, Bool.or_eq_true,
    decide_eq_true_eq]
  omega

end Regular

/-- The bound is some additions ahead of the register, or one behind. -/
def Ahead (state : State) (left : Nat) : Prop :=
  (state.gpr form.reg).toInt - (state.gpr form.inductionReg).toInt =
    form.inductionConst * (left - 1)

section Run

variable {form} (positive : 1 ≤ form.iterTh)
  (grows : 0 < form.inductionConst)
  (isInt : form.iterTh * form.inductionConst < 2 ^ 31)

include grows in
/-- The check passes while the bound is not behind. -/
theorem Ahead.yields {state : State} {left : Nat}
    (ahead : form.Ahead state left) :
    form.condition.yields state =
      (countdown (form.iterTh.toNat - 1) left).2 := by
  have passes :
      (state.gpr form.inductionReg).sle (state.gpr form.reg) = true ↔
        left ≠ 0 := by
    rw [BitVec.sle_iff_toInt_le]
    unfold Ahead at ahead
    constructor
    · rintro notMore rfl
      have negative : form.inductionConst * ((0 : Nat) - 1 : Int) < 0 := by
        push_cast
        linarith
      omega
    · intro notZero
      have notNegative : 0 ≤ form.inductionConst * (left - 1 : Int) :=
        Int.mul_nonneg grows.le (by omega)
      omega
  rw [(form.latch_eq state).2.1]
  cases left with
  | zero =>
      have stops :
          (state.gpr form.inductionReg).sle (state.gpr form.reg) =
            false := by
        rw [Bool.eq_false_iff, Ne, passes]
        exact not_not_intro rfl
      rw [stops]
      rfl
  | succ left =>
      rw [passes.mpr (Nat.succ_ne_zero left)]
      rfl

include positive grows isInt in
/-- From one execution to the next, the bound is one addition less ahead. -/
theorem Ahead.next {state later : State} {left : Nat}
    (ahead : form.Ahead state left)
    (fits : form.FitsBehind state)
    (follows : form.Next state later) :
    form.Ahead later (countdown (form.iterTh.toNat - 1) left).1 := by
  obtain ⟨sameReg, -, isBound⟩ := form.latch_eq state
  have ofYields := ahead.yields grows
  have added :
      (later.gpr form.inductionReg).toInt =
        (state.gpr form.inductionReg).toInt + form.inductionConst := by
    rw [follows.induction, addInduction, sameReg]
    exact RegPart.toInt_add grows
      (form.inductionConst_lt positive grows isInt) fits.induction
  unfold Ahead at ahead ⊢
  rw [added, follows.bound, isBound, ofYields]
  cases left with
  | zero =>
      have moved :=
        form.toInt_add_step positive grows isInt (fits.bound ofYields)
      simp only [countdown, ↓reduceIte, moved]
      have isPred : ((form.iterTh.toNat - 1 : Nat) : Int) =
          form.iterTh - 1 := by
        omega
      rw [isPred]
      push_cast at ahead
      linarith
  | succ left =>
      simp only [countdown, Bool.false_eq_true, ↓reduceIte]
      push_cast at ahead
      linarith

include positive grows isInt in
/-- At the first execution, the bound is all but one addition ahead. -/
theorem Enters.ahead {preheader state : State}
    (enters : form.Enters preheader state) (addFirst : form.addFirst = true)
    (fits : form.FitsOnEntry preheader) :
    form.Ahead state form.iterTh.toNat := by
  have isBound :
      (preheader.runBranch form.preheaderInstrs).1.gpr form.reg =
        preheader.gpr form.inductionReg +
          form.condition.step.signExtend 64 := by
    simp [preheaderInstrs, State.runBranch, State.execBranch, State.setGpr]
  have added :
      (state.gpr form.inductionReg).toInt =
        (preheader.gpr form.inductionReg).toInt +
          form.inductionConst := by
    rw [enters.induction, if_pos addFirst, addInduction]
    exact RegPart.toInt_add grows
      (form.inductionConst_lt positive grows isInt) fits.induction
  have isTh : (form.iterTh.toNat : Int) = form.iterTh :=
    Int.toNat_of_nonneg (by omega)
  rw [Ahead, enters.bound, isBound, added,
    form.toInt_add_step positive grows isInt fits.bound, isTh]
  ring

include positive grows isInt in
/--
With an addition that grows and comes before the check, a loop whose sums do
not overflow yields at the rate of its threshold.
-/
theorem regular_of_fits (addFirst : form.addFirst = true)
    {preheader state : State} (enters : form.Enters preheader state)
    (fits : form.FitsOnEntry preheader)
    {yields : List Bool} (run : form.FittingExecutions state yields) :
    form.Regular yields := by
  have counted :=
    run.eq_decisions
      (fun _ _ ahead => ahead.yields grows)
      (fun _ _ _ ahead follows =>
        ahead.next positive grows isInt follows.1 follows.2)
      (enters.ahead positive grows isInt addFirst fits)
  rw [Regular, counted]
  constructor
  · intro executions member
    have either := mem_gaps_countdown member
    omega
  · have notMore :=
      @pending_countdown_le (form.iterTh.toNat - 1) form.iterTh.toNat
        yields.length
    omega

end Run

/-- A loop that adds a constant to `rax`, with its bound in `r11` -/
def ofConst (iterTh inductionConst : Int) : InductionCounter Unit where
  iterTh := iterTh
  target := ()
  reg := .r11
  inductionReg := .rax
  inductionConst := inductionConst
  part := .r64
  addFirst := true
  unused := by decide

/-- A state with values of the two registers -/
def registers (rax r11 : BitVec 64) : State where
  gpr
    | .rax => rax
    | .r11 => r11
    | _ => 0
  xmm _ := 0
  eflags := 0
  rip := 0
  gsBase := 0
  memory _ := 0

/-- Counting up by three, the second of two executions yields. -/
theorem regular_three :
    (ofConst 1 3).Regular [false, true] := by
  have enters : (ofConst 1 3).Enters (registers 0 0) (registers 3 3) :=
    ⟨by decide, by decide⟩
  have second :
      (ofConst 1 3).FittingExecutions (registers 6 3) [true] :=
    .last _
  have run :
      (ofConst 1 3).FittingExecutions (registers 3 3) [false, true] :=
    @Run.cons _ _ _ (registers 3 3) (registers 6 3) _
      ⟨⟨by decide, by decide⟩, by decide, by decide⟩ second
  exact regular_of_fits (by decide) (by decide) (by decide) rfl enters
    ⟨by decide, by decide⟩ run

/-- Counting down, the first execution yields already. -/
theorem not_regular_of_neg :
    ∃ preheader state yields,
      (ofConst 10 (-1)).Enters preheader state ∧
        (ofConst 10 (-1)).Executions state yields ∧
        ¬ (ofConst 10 (-1)).Regular yields := by
  have run : (ofConst 10 (-1)).Executions (registers 99 90) [true] :=
    .last _
  refine ⟨registers 100 0, registers 99 90, _, ⟨by decide, by decide⟩, run,
    ?_⟩
  rintro ⟨regular, -⟩
  have early := (regular 1 (by decide)).1
  exact absurd early (by decide)

end InductionCounter

end Msh
