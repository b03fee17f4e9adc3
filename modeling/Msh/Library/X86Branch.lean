import Mathlib.Data.BitVec
import Mathlib.Tactic.Linarith
import Msh.Library.X86

/-!
# Comparing and branching on x86-64

Sequences of instructions that compare, and leave for a label if the first
operand was not greater.  After a comparison, the condition `le` holds if and
only if the first operand is at most the second one as a signed number.
-/

namespace X86

open ByteMemory

/--
The instructions of such a sequence.  Where the code is does not matter to
them, so that `rip` is left alone.
-/
inductive BranchInstr (Label : Type) where
  | straight (instr : Instr)
  | mov64rr (reg other : Gpr)
  | add64ri32 (reg : Gpr) (imm : BitVec 32)
  | cmp64ri32 (reg : Gpr) (imm : BitVec 32)
  | cmp64rr (reg other : Gpr)
  | add16mi (mem : Mem) (imm : BitVec 16)
  | cmp16mi (mem : Mem) (imm : BitVec 16)
  | mov16mi (mem : Mem) (imm : BitVec 16)
  /-- `JCC_4` with `COND_LE` -/
  | jle (target : Label)
  deriving DecidableEq, Repr

/-- The flags after two numbers of any width have been added. -/
def addFlags {width : Nat} (flags : BitVec 64) (left right : BitVec width) :
    BitVec 64 :=
  statusFlags flags ((left + right).signExtend 64) ((left + right).ult left)
    (((left + right) &&& 0xf).ult (left &&& 0xf)) (left.saddOverflow right)

/-- The flags after two numbers of any width have been compared. -/
def compareFlags {width : Nat} (flags : BitVec 64)
    (left right : BitVec width) : BitVec 64 :=
  statusFlags flags ((left - right).signExtend 64) (left.ult right)
    ((left &&& 0xf).ult (right &&& 0xf)) (left.ssubOverflow right)

/-- The condition `le`: the zero flag, or a sign unlike the overflow. -/
def condLe (flags : BitVec 64) : Bool :=
  flags.getLsbD 6 || (flags.getLsbD 7 != flags.getLsbD 11)

namespace State

variable {Label : Type}

/-- What an instruction does, and where it leaves the sequence to. -/
def execBranch (state : State) : BranchInstr Label → State × Option Label
  | .straight instr => (state.effect instr, none)
  | .mov64rr reg other => (state.setGpr reg (state.gpr other), none)
  | .add64ri32 reg imm =>
      let left := state.gpr reg
      let right := imm.signExtend 64
      ({ state.setGpr reg (left + right) with
         eflags := addFlags state.eflags left right }, none)
  | .cmp64ri32 reg imm =>
      ({ state with
         eflags :=
           compareFlags state.eflags (state.gpr reg) (imm.signExtend 64) },
        none)
  | .cmp64rr reg other =>
      ({ state with
         eflags :=
           compareFlags state.eflags (state.gpr reg) (state.gpr other) },
        none)
  | .add16mi mem imm =>
      let left : BitVec 16 := load 2 state.memory (mem.address state)
      ({ state with
         memory := store 2 state.memory (mem.address state) (left + imm)
         eflags := addFlags state.eflags left imm }, none)
  | .cmp16mi mem imm =>
      let left : BitVec 16 := load 2 state.memory (mem.address state)
      ({ state with eflags := compareFlags state.eflags left imm }, none)
  | .mov16mi mem imm =>
      ({ state with
         memory := store 2 state.memory (mem.address state) imm }, none)
  | .jle target => (state, if condLe state.eflags then some target else none)

/-- Run a sequence to its end or until it is left. -/
def runBranch (state : State) :
    List (BranchInstr Label) → State × Option Label
  | [] => (state, none)
  | instr :: rest =>
      match state.execBranch instr with
      | (next, some target) => (next, some target)
      | (next, none) => next.runBranch rest

end State

/-! ## The condition after a comparison -/

section Flags

variable (flags result : BitVec 64) (carry adjust overflow : Bool)

theorem getLsbD_statusFlags_zero :
    (statusFlags flags result carry adjust overflow).getLsbD 6 =
      (result == 0) := by
  unfold statusFlags
  simp only [BitVec.getLsbD_or, BitVec.getLsbD_and]
  split_ifs <;> simp_all

theorem getLsbD_statusFlags_sign :
    (statusFlags flags result carry adjust overflow).getLsbD 7 =
      result.msb := by
  unfold statusFlags
  simp only [BitVec.getLsbD_or, BitVec.getLsbD_and]
  split_ifs <;> simp_all

theorem getLsbD_statusFlags_overflow :
    (statusFlags flags result carry adjust overflow).getLsbD 11 =
      overflow := by
  unfold statusFlags
  simp only [BitVec.getLsbD_or, BitVec.getLsbD_and]
  split_ifs <;> simp_all

end Flags

/-- Extending a sign keeps the sign, and what is not zero. -/
theorem signExtend_facts {width : Nat} (fits : width ≤ 64) (value : BitVec width) :
    (value.signExtend 64).msb = value.msb ∧
      (value.signExtend 64 == 0) = (value == 0) := by
  have same := @BitVec.toInt_signExtend_of_le _ _ value fits
  constructor
  · rw [BitVec.msb_eq_toInt, BitVec.msb_eq_toInt, same]
  · have zeros : BitVec.toInt (0 : BitVec 64) = 0 ∧
        BitVec.toInt (0 : BitVec width) = 0 :=
      ⟨BitVec.toInt_zero, BitVec.toInt_zero⟩
    rw [Bool.eq_iff_iff, beq_iff_eq, beq_iff_eq, ← BitVec.toInt_inj,
      ← BitVec.toInt_inj, same, zeros.1, zeros.2]

/-- A difference of signed numbers, by whether it overflows. -/
theorem toInt_sub_cases {width : Nat} (positive : 0 < width)
    (left right : BitVec width) :
    (left.ssubOverflow right = false ∧
        (left - right).toInt = left.toInt - right.toInt) ∨
      (left.ssubOverflow right = true ∧ right.toInt < left.toInt ∧
        (left - right).toInt < 0) ∨
      (left.ssubOverflow right = true ∧ left.toInt < right.toInt ∧
        0 ≤ (left - right).toInt) := by
  have power : (2 : Int) ^ width = 2 * 2 ^ (width - 1) := by
    rw [← pow_succ', Nat.sub_add_cancel positive]
  have ofLeft := left.le_toInt
  have ofRight := right.le_toInt
  have ofDifference := (left - right).le_toInt
  have leftLt := @BitVec.toInt_lt _ left
  have rightLt := @BitVec.toInt_lt _ right
  have differenceLt := @BitVec.toInt_lt _ (left - right)
  have divides : (2 : Int) ^ width ∣
      left.toInt - right.toInt - (left - right).toInt := by
    have reduced := @BitVec.toInt_sub _ left right
    rw [reduced]
    have divides :=
      @Int.dvd_self_sub_bmod (left.toInt - right.toInt) (2 ^ width)
    push_cast at divides
    exact divides
  obtain ⟨turns, isTurns⟩ := divides
  rw [power] at isTurns
  have overflow : left.ssubOverflow right = true ↔
      2 ^ (width - 1) ≤ left.toInt - right.toInt ∨
        left.toInt - right.toInt < -2 ^ (width - 1) := by
    simp [BitVec.ssubOverflow]
  generalize (2 : Int) ^ (width - 1) = half at *
  have few : turns = -1 ∨ turns = 0 ∨ turns = 1 := by
    have positiveHalf : 0 < 2 * half := by omega
    have above : -2 < turns :=
      lt_of_mul_lt_mul_left (by omega : 2 * half * -2 < 2 * half * turns)
        positiveHalf.le
    have below : turns < 2 :=
      lt_of_mul_lt_mul_left (by omega : 2 * half * turns < 2 * half * 2)
        positiveHalf.le
    omega
  rcases few with rfl | rfl | rfl
  · exact .inr (.inr ⟨overflow.mpr (by omega), by omega, by omega⟩)
  · refine .inl ⟨?_, by omega⟩
    rw [Bool.eq_false_iff, Ne, overflow]
    omega
  · exact .inr (.inl ⟨overflow.mpr (by omega), by omega, by omega⟩)

/-- Comparing decides the signed order. -/
theorem condLe_compareFlags {width : Nat} (positive : 0 < width)
    (fits : width ≤ 64) (flags : BitVec 64) (left right : BitVec width) :
    condLe (compareFlags flags left right) = left.sle right := by
  obtain ⟨sign, zero⟩ := signExtend_facts fits (left - right)
  rw [condLe, compareFlags, getLsbD_statusFlags_zero,
    getLsbD_statusFlags_sign, getLsbD_statusFlags_overflow, sign, zero]
  have isZero : (left - right == 0) = true ↔ (left - right).toInt = 0 := by
    have isZero : BitVec.toInt (0 : BitVec width) = 0 := BitVec.toInt_zero
    rw [beq_iff_eq, ← BitVec.toInt_inj, isZero]
  have isNegative : (left - right).msb = true ↔ (left - right).toInt < 0 := by
    rw [BitVec.msb_eq_toInt, decide_eq_true_iff]
  rw [Bool.eq_iff_iff, Bool.or_eq_true, isZero, BitVec.sle_iff_toInt_le,
    bne_iff_ne, Ne, Bool.eq_iff_iff, isNegative]
  rcases toInt_sub_cases positive left right with
    ⟨overflow, difference⟩ | ⟨overflow, less, negative⟩ |
      ⟨overflow, less, notNegative⟩
  · simp only [overflow, Bool.false_eq_true, iff_false, not_not]
    omega
  · simp only [overflow, iff_true]
    omega
  · simp only [overflow, iff_true]
    omega

end X86
