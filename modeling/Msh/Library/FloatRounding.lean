import Mathlib.Algebra.BigOperators.Group.List.Basic
import Mathlib.Algebra.Order.BigOperators.Group.List
import Mathlib.Algebra.Order.Field.Power
import Mathlib.Data.Int.Log
import Mathlib.Data.Rat.Floor
import Mathlib.Tactic.Linarith
import Mathlib.Tactic.NormNum
import Mathlib.Tactic.Positivity
import Mathlib.Tactic.Ring

/-!
# Rounding to binary floating point

An operation of floating-point arithmetic gives its exact result rounded to a
nearest number of the format.  The numbers are rationals here, and there is no
largest one.  How far a computed number can be from the exact one is counted in
roundings, each of which changes a normal number by a factor near one.
-/

namespace FloatRounding

/-- A nearest integer, the even one of two -/
def roundEven (value : ℚ) : ℤ :=
  if value - ⌊value⌋ < 1 / 2 then ⌊value⌋
  else if 1 / 2 < value - ⌊value⌋ then ⌊value⌋ + 1
  else if ⌊value⌋ % 2 = 0 then ⌊value⌋
  else ⌊value⌋ + 1

@[simp] theorem roundEven_zero : roundEven 0 = 0 := by
  simp [roundEven]

/-- Rounding does not fall below the integer part. -/
theorem floor_le_roundEven (value : ℚ) : ⌊value⌋ ≤ roundEven value := by
  unfold roundEven
  split
  · exact le_refl _
  · split
    · omega
    · split <;> omega

/-- The nearest integer is at most one half away. -/
theorem abs_roundEven_sub_le (value : ℚ) :
    |(roundEven value : ℚ) - value| ≤ 1 / 2 := by
  have isAbove := Int.floor_le value
  have isBelow := Int.lt_floor_add_one value
  rw [abs_le]
  unfold roundEven
  split
  · constructor <;> linarith
  · split
    · push_cast
      constructor <;> linarith
    · split
      · constructor <;> linarith
      · push_cast
        constructor <;> linarith

/-- A binary format: the number of digits, and the exponent of the smallest
normal number -/
structure Format where
  precision : Nat
  minExponent : Int
  precision_pos : 0 < precision

/-- IEEE 754 single precision -/
def single : Format := ⟨24, -126, by decide⟩

/-- IEEE 754 double precision -/
def double : Format := ⟨53, -1022, by decide⟩

namespace Format

variable (format : Format)

/-- The distance of the numbers of the format around a value -/
def spacing (value : ℚ) : ℚ :=
  2 ^ (max (Int.log 2 |value|) format.minExponent - (format.precision - 1))

/-- The nearest number of the format, the one with an even last digit of two -/
def round (value : ℚ) : ℚ :=
  roundEven (value / format.spacing value) * format.spacing value

/-- The smallest normal number -/
def minNormal : ℚ := 2 ^ format.minExponent

/-- What is left of a number at least when it is rounded -/
def factor : ℚ := 1 - 2 ^ (-(format.precision : ℤ))

/-- No digits are lost at the lower end of the format. -/
def IsNormalOrZero (value : ℚ) : Prop :=
  value = 0 ∨ format.minNormal ≤ value

variable {format}

theorem spacing_pos (value : ℚ) : 0 < format.spacing value := by
  unfold spacing
  positivity

theorem minNormal_pos : 0 < format.minNormal := by
  unfold minNormal
  positivity

/-- A rounding leaves something of a positive number. -/
theorem factor_pos : 0 < format.factor := by
  have isSmall : (2 : ℚ) ^ (-(format.precision : ℤ)) < 2 ^ (0 : ℤ) :=
    zpow_lt_zpow_right₀ one_lt_two (by have := format.precision_pos; omega)
  rw [zpow_zero] at isSmall
  unfold factor
  linarith

theorem factor_le_one : format.factor ≤ 1 := by
  have isPos : (0 : ℚ) < 2 ^ (-(format.precision : ℤ)) := by positivity
  unfold factor
  linarith

@[simp] theorem round_zero : format.round 0 = 0 := by
  simp [round]

/-- The spacing around a normal number is a power of two below it. -/
theorem spacing_of_normal {value : ℚ} (isNormal : format.minNormal ≤ value) :
    format.spacing value =
      2 ^ (Int.log 2 value - (format.precision - 1)) := by
  have isPos := minNormal_pos.trans_le isNormal
  have isLog : format.minExponent ≤ Int.log 2 value :=
    (Int.zpow_le_iff_le_log Nat.one_lt_two isPos).mp
      (by exact_mod_cast isNormal)
  rw [spacing, abs_of_pos isPos, max_eq_left isLog]

/-- A normal number changes by one part in two to the precision at most. -/
theorem abs_round_sub_le {value : ℚ} (isNormal : format.minNormal ≤ value) :
    |format.round value - value| ≤
      value * 2 ^ (-(format.precision : ℤ)) := by
  have isPos := minNormal_pos.trans_le isNormal
  have spacingPos : 0 < format.spacing value := spacing_pos value
  have isLog : (2 : ℚ) ^ Int.log 2 value ≤ value := by
    exact_mod_cast Int.zpow_log_le_self (b := 2) Nat.one_lt_two isPos
  have isHalf : 1 / 2 * format.spacing value =
      2 ^ Int.log 2 value * 2 ^ (-(format.precision : ℤ)) := by
    rw [spacing_of_normal isNormal, ← zpow_add₀ two_ne_zero, one_div,
      ← zpow_neg_one, ← zpow_add₀ two_ne_zero]
    congr 1
    ring
  have isScaled : format.round value - value =
      (roundEven (value / format.spacing value) -
        value / format.spacing value) * format.spacing value := by
    rw [round, sub_mul, div_mul_cancel₀ _ spacingPos.ne']
  calc |format.round value - value|
      = |(roundEven (value / format.spacing value) : ℚ) -
          value / format.spacing value| * format.spacing value := by
        rw [isScaled, abs_mul, abs_of_pos spacingPos]
    _ ≤ 1 / 2 * format.spacing value :=
        mul_le_mul_of_nonneg_right (abs_roundEven_sub_le _) spacingPos.le
    _ = 2 ^ Int.log 2 value * 2 ^ (-(format.precision : ℤ)) := isHalf
    _ ≤ value * 2 ^ (-(format.precision : ℤ)) :=
        mul_le_mul_of_nonneg_right isLog (by positivity)

/-- Rounding does not make a normal number fall below the normal ones. -/
theorem minNormal_le_round {value : ℚ} (isNormal : format.minNormal ≤ value) :
    format.minNormal ≤ format.round value := by
  have isPos := minNormal_pos.trans_le isNormal
  have spacingPos : 0 < format.spacing value := spacing_pos value
  have isLog : format.minExponent ≤ Int.log 2 value :=
    (Int.zpow_le_iff_le_log Nat.one_lt_two isPos).mp
      (by exact_mod_cast isNormal)
  have isPower : (2 : ℚ) ^ Int.log 2 value =
      (2 ^ (format.precision - 1) : ℕ) * format.spacing value := by
    rw [spacing_of_normal isNormal, Nat.cast_pow, Nat.cast_ofNat,
      ← zpow_natCast, ← zpow_add₀ two_ne_zero]
    congr 1
    have := format.precision_pos
    omega
  have isInteger : ((2 ^ (format.precision - 1) : ℕ) : ℤ) ≤
      roundEven (value / format.spacing value) := by
    refine le_trans (Int.le_floor.mpr ?_) (floor_le_roundEven _)
    rw [Int.cast_natCast, le_div_iff₀ spacingPos, ← isPower]
    exact_mod_cast Int.zpow_log_le_self (b := 2) Nat.one_lt_two isPos
  calc format.minNormal
      ≤ 2 ^ Int.log 2 value := zpow_le_zpow_right₀ one_le_two isLog
    _ = (2 ^ (format.precision - 1) : ℕ) * format.spacing value := isPower
    _ ≤ format.round value :=
        mul_le_mul_of_nonneg_right (by exact_mod_cast isInteger)
          spacingPos.le

theorem isNormalOrZero_zero : format.IsNormalOrZero 0 := .inl rfl

theorem IsNormalOrZero.nonneg {value : ℚ}
    (isNormal : format.IsNormalOrZero value) : 0 ≤ value := by
  obtain rfl | isNormal := isNormal
  · exact le_refl 0
  · exact minNormal_pos.le.trans isNormal

/-- A rounding of a normal number is normal. -/
theorem IsNormalOrZero.round {value : ℚ}
    (isNormal : format.IsNormalOrZero value) :
    format.IsNormalOrZero (format.round value) := by
  obtain rfl | isNormal := isNormal
  · exact .inl round_zero
  · exact .inr (minNormal_le_round isNormal)

/-- A sum of normal numbers is normal. -/
theorem IsNormalOrZero.add {first second : ℚ}
    (isFirst : format.IsNormalOrZero first)
    (isSecond : format.IsNormalOrZero second) :
    format.IsNormalOrZero (first + second) := by
  obtain rfl | isNormal := isFirst
  · rwa [zero_add]
  · exact .inr (isNormal.trans (le_add_of_nonneg_right isSecond.nonneg))

end Format

/-! ## Counting roundings -/

/-- A format with at least the digits and the exponents of another one -/
structure Format.Finer (finer format : Format) : Prop where
  precision_le : format.precision ≤ finer.precision
  minExponent_le : finer.minExponent ≤ format.minExponent

theorem Format.Finer.refl (format : Format) : format.Finer format :=
  ⟨le_refl _, le_refl _⟩

/-- Double precision loses no more than single precision. -/
theorem double_finer : double.Finer single := ⟨by decide, by decide⟩

/-- A computed value is so many roundings apart from the exact one. -/
structure Near (format : Format) (count : Nat) (exact computed : ℚ) :
    Prop where
  nonneg : 0 ≤ exact
  above : exact * format.factor ^ count ≤ computed
  below : computed * format.factor ^ count ≤ exact

namespace Near

variable {format finer : Format} {count count' : Nat}
  {exact exact' computed computed' : ℚ}

theorem refl (nonneg : 0 ≤ exact) : Near format 0 exact exact :=
  ⟨nonneg, by simp, by simp⟩

theorem computed_nonneg (near : Near format count exact computed) :
    0 ≤ computed :=
  (mul_nonneg near.nonneg (pow_nonneg Format.factor_pos.le _)).trans near.above

/-- Only zero is computed as zero. -/
theorem computed_eq_zero_iff (near : Near format count exact computed) :
    computed = 0 ↔ exact = 0 := by
  have factorPos : 0 < format.factor ^ count := pow_pos Format.factor_pos count
  constructor
  · rintro rfl
    have isAbove := near.above
    have nonneg := near.nonneg
    by_contra notZero
    have isPos := mul_pos (lt_of_le_of_ne nonneg (Ne.symm notZero)) factorPos
    linarith
  · rintro rfl
    have isBelow := near.below
    have nonneg := near.computed_nonneg
    by_contra notZero
    have isPos := mul_pos (lt_of_le_of_ne nonneg (Ne.symm notZero)) factorPos
    linarith

/-- The bound holds for more roundings too. -/
theorem mono (near : Near format count exact computed)
    (isLe : count ≤ count') : Near format count' exact computed := by
  have powLe : format.factor ^ count' ≤ format.factor ^ count :=
    pow_le_pow_of_le_one Format.factor_pos.le Format.factor_le_one isLe
  exact ⟨near.nonneg,
    (mul_le_mul_of_nonneg_left powLe near.nonneg).trans near.above,
    (mul_le_mul_of_nonneg_left powLe near.computed_nonneg).trans near.below⟩

/-- A number is normal if a smaller one is, after as many roundings. -/
theorem minNormal_le {lower : ℚ} (near : Near format count exact computed)
    (isLower : lower ≤ exact) (isLe : count ≤ count')
    (isNormal : format.minNormal ≤ lower * format.factor ^ count') :
    format.minNormal ≤ computed :=
  calc format.minNormal
      ≤ lower * format.factor ^ count' := isNormal
    _ ≤ exact * format.factor ^ count' :=
        mul_le_mul_of_nonneg_right isLower
          (pow_nonneg Format.factor_pos.le _)
    _ ≤ computed := (near.mono isLe).above

/-- A sum is no farther off than its terms. -/
theorem add (near : Near format count exact computed)
    (near' : Near format count exact' computed') :
    Near format count (exact + exact') (computed + computed') := by
  refine ⟨add_nonneg near.nonneg near'.nonneg, ?_, ?_⟩
  · rw [add_mul]
    exact add_le_add near.above near'.above
  · rw [add_mul]
    exact add_le_add near.below near'.below

/-- The roundings of both factors count for a product. -/
theorem mul (near : Near format count exact computed)
    (near' : Near format count' exact' computed') :
    Near format (count + count') (exact * exact') (computed * computed') := by
  have factorNonneg (times : Nat) : 0 ≤ format.factor ^ times :=
    pow_nonneg Format.factor_pos.le times
  refine ⟨mul_nonneg near.nonneg near'.nonneg, ?_, ?_⟩
  · rw [pow_add, mul_mul_mul_comm]
    exact mul_le_mul near.above near'.above
      (mul_nonneg near'.nonneg (factorNonneg _)) near.computed_nonneg
  · rw [pow_add, mul_mul_mul_comm]
    exact mul_le_mul near.below near'.below
      (mul_nonneg near'.computed_nonneg (factorNonneg _)) near.nonneg

/-- A reciprocal is as far off as the number. -/
theorem inv (near : Near format count exact computed) :
    Near format count exact⁻¹ computed⁻¹ := by
  by_cases isZero : exact = 0
  · rw [near.computed_eq_zero_iff.mpr isZero, isZero, inv_zero]
    exact ⟨le_refl 0, by simp, by simp⟩
  · have exactPos := lt_of_le_of_ne near.nonneg (Ne.symm isZero)
    have computedPos : 0 < computed :=
      lt_of_le_of_ne near.computed_nonneg
        (Ne.symm (mt near.computed_eq_zero_iff.mp isZero))
    refine ⟨(inv_pos.mpr exactPos).le, ?_, ?_⟩
    · rw [inv_mul_le_iff₀ exactPos, ← div_eq_mul_inv, le_div_iff₀ computedPos,
        mul_comm]
      exact near.below
    · rw [inv_mul_le_iff₀ computedPos, ← div_eq_mul_inv, le_div_iff₀ exactPos,
        mul_comm]
      exact near.above

theorem div (near : Near format count exact computed)
    (near' : Near format count' exact' computed') :
    Near format (count + count') (exact / exact') (computed / computed') := by
  rw [div_eq_mul_inv, div_eq_mul_inv]
  exact near.mul near'.inv

/-- One more rounding, in a format that loses no more. -/
theorem round (near : Near format count exact computed)
    (isFiner : finer.Finer format)
    (isNormal : format.IsNormalOrZero computed) :
    Near format (count + 1) exact (finer.round computed) := by
  obtain rfl | isNormal := isNormal
  · rw [Format.round_zero]
    exact near.mono (Nat.le_succ _)
  have isUnit : (2 : ℚ) ^ (-(finer.precision : ℤ)) ≤
      2 ^ (-(format.precision : ℤ)) :=
    zpow_le_zpow_right₀ one_le_two (by have := isFiner.precision_le; omega)
  have isNormal' : finer.minNormal ≤ computed :=
    (zpow_le_zpow_right₀ one_le_two isFiner.minExponent_le).trans isNormal
  have isPos := Format.minNormal_pos.trans_le isNormal'
  have isClose := abs_le.mp ((Format.abs_round_sub_le isNormal').trans
    (mul_le_mul_of_nonneg_left isUnit isPos.le))
  have unitPos : (0 : ℚ) < 2 ^ (-(format.precision : ℤ)) := by positivity
  have factorPos : 0 < format.factor := Format.factor_pos
  have isAbove : computed * format.factor ≤ finer.round computed := by
    unfold Format.factor
    linarith [isClose.1]
  have isBelow : finer.round computed * format.factor ≤ computed := by
    have isLe : finer.round computed ≤
        computed * (1 + 2 ^ (-(format.precision : ℤ))) := by
      linarith [isClose.2]
    calc finer.round computed * format.factor
        ≤ computed * (1 + 2 ^ (-(format.precision : ℤ))) * format.factor :=
          mul_le_mul_of_nonneg_right isLe factorPos.le
      _ = computed -
            computed * (2 ^ (-(format.precision : ℤ))) ^ 2 := by
          unfold Format.factor
          ring
      _ ≤ computed := sub_le_self _ (by positivity)
  refine ⟨near.nonneg, ?_, ?_⟩
  · rw [pow_succ, ← mul_assoc]
    exact (mul_le_mul_of_nonneg_right near.above factorPos.le).trans isAbove
  · rw [pow_succ', ← mul_assoc]
    exact (mul_le_mul_of_nonneg_right isBelow
      (pow_nonneg factorPos.le _)).trans near.below

end Near

/-! ## Sums -/

/-- A sum that is rounded at each summand -/
def roundedSum (round : ℚ → ℚ) (values : List ℚ) : ℚ :=
  values.foldl (fun sum value => round (sum + value)) 0

section Sum

variable {round : ℚ → ℚ} {values : List ℚ}

@[simp] theorem roundedSum_nil : roundedSum round [] = 0 := rfl

theorem roundedSum_append_singleton (values : List ℚ) (value : ℚ) :
    roundedSum round (values ++ [value]) =
      round (roundedSum round values + value) := by
  simp [roundedSum]

/-- Where every partial sum is kept, so is the sum. -/
theorem roundedSum_eq_sum
    (keeps : ∀ count, round (values.take count).sum =
      (values.take count).sum) :
    roundedSum round values = values.sum := by
  induction values using List.reverseRecOn with
  | nil => rfl
  | append_singleton values value inductionHypothesis =>
      have keepsFirst (count : Nat) : round (values.take count).sum =
          (values.take count).sum := by
        have ofAll := keeps (min count values.length)
        rwa [List.take_append_of_le_length (Nat.min_le_right _ _),
          ← List.take_take, List.take_length] at ofAll
      have keepsAll := keeps (values ++ [value]).length
      rw [List.take_length, List.sum_append, List.sum_singleton] at keepsAll
      rw [roundedSum_append_singleton, inductionHypothesis keepsFirst,
        keepsAll, List.sum_append, List.sum_singleton]

@[simp] theorem roundedSum_id : roundedSum id values = values.sum :=
  roundedSum_eq_sum fun _ => rfl

variable {Item : Type} {items : List Item} {exact computed : Item → ℚ}
  {format : Format} {count : Nat}

/-- A rounded sum of normal numbers is normal. -/
theorem isNormalOrZero_roundedSum
    (isNormal : ∀ item ∈ items, format.IsNormalOrZero (computed item)) :
    format.IsNormalOrZero (roundedSum format.round (items.map computed)) := by
  induction items using List.reverseRecOn with
  | nil => exact Format.isNormalOrZero_zero
  | append_singleton items item inductionHypothesis =>
      rw [List.map_append, List.map_singleton, roundedSum_append_singleton]
      exact ((inductionHypothesis fun item isItem =>
        isNormal item (List.mem_append_left _ isItem)).add
          (isNormal item (by simp))).round

/-- A rounded sum adds one rounding for each summand. -/
theorem near_roundedSum
    (near : ∀ item ∈ items, Near format count (exact item) (computed item))
    (isNormal : ∀ item ∈ items, format.IsNormalOrZero (computed item)) :
    Near format (count + items.length) (items.map exact).sum
      (roundedSum format.round (items.map computed)) := by
  induction items using List.reverseRecOn with
  | nil => exact (Near.refl (le_refl 0)).mono (Nat.zero_le _)
  | append_singleton items item inductionHypothesis =>
      have ofFirst := inductionHypothesis
        (fun item isItem => near item (List.mem_append_left _ isItem))
        (fun item isItem => isNormal item (List.mem_append_left _ isItem))
      have firstNormal := isNormalOrZero_roundedSum
        (fun item isItem => isNormal item (List.mem_append_left _ isItem))
      have isMem : item ∈ items ++ [item] := by simp
      have ofLast := (near item isMem).mono (Nat.le_add_right _ items.length)
      rw [List.map_append, List.map_append, List.map_singleton,
        List.map_singleton, List.sum_append, List.sum_singleton,
        roundedSum_append_singleton, List.length_append, ← Nat.add_assoc]
      exact (ofFirst.add ofLast).round (Format.Finer.refl _)
        (firstNormal.add (isNormal item isMem))

end Sum

end FloatRounding
