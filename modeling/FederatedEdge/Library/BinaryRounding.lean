import Mathlib.Algebra.Order.Floor.Semifield
import Mathlib.Data.Int.Log
import Mathlib.Data.Sign.Defs
import Mathlib.Tactic.Linarith
import Mathlib.Tactic.Ring

/-!
# Numbers with a limited number of significant bits

The unit in the last place of a number is the power of two which its last
significant bit stands for.  Rounding toward zero drops everything below it.

For a number given by a natural mantissa and a power of two both are natural
number arithmetic on the mantissa.
-/

namespace FederatedEdge.Library

variable {K : Type} [Field K] [LinearOrder K] [IsStrictOrderedRing K]
  [FloorSemiring K]

/-- What the last of `precision` significant bits stands for. -/
def ulp (precision : ℕ) (x : K) : K :=
  2 ^ (Int.log 2 |x| + 1 - precision)

/-- Drop everything below the last of `precision` significant bits. -/
def roundTowardZero (precision : ℕ) (x : K) : K :=
  SignType.sign x * (⌊|x| / ulp precision x⌋₊ * ulp precision x)

omit [IsStrictOrderedRing K] in
theorem ulp_neg (precision : ℕ) (x : K) : ulp precision (-x) = ulp precision x := by
  rw [ulp, ulp, abs_neg]

theorem roundTowardZero_neg (precision : ℕ) (x : K) :
    roundTowardZero precision (-x) = -roundTowardZero precision x := by
  rw [roundTowardZero, roundTowardZero, ulp_neg, abs_neg, Left.sign_neg,
    SignType.coe_neg, neg_mul]

/-! ## Bounds for positive numbers -/

theorem ulp_pos (precision : ℕ) (x : K) : 0 < ulp precision x :=
  zpow_pos two_pos _

section Positive

variable {x : K} (positive : 0 < x)

include positive

theorem roundTowardZero_of_pos (precision : ℕ) :
    roundTowardZero precision x =
      ⌊x / ulp precision x⌋₊ * ulp precision x := by
  rw [roundTowardZero, sign_pos positive, SignType.coe_one, one_mul,
    abs_of_pos positive]

theorem roundTowardZero_le (precision : ℕ) : roundTowardZero precision x ≤ x := by
  rw [roundTowardZero_of_pos positive,
    ← le_div_iff₀ (ulp_pos precision x)]
  exact Nat.floor_le (div_nonneg positive.le (ulp_pos precision x).le)

theorem lt_roundTowardZero_add (precision : ℕ) :
    x < roundTowardZero precision x + ulp precision x := by
  rw [roundTowardZero_of_pos positive, ← add_one_mul,
    ← div_lt_iff₀ (ulp_pos precision x)]
  exact Nat.lt_floor_add_one _

/-- The unit in the last place is small beside the number. -/
theorem ulp_le (precision : ℕ) : ulp (precision + 1) x ≤ x * 2 ^ (-precision : ℤ) := by
  have leading : ((2 : ℕ) : K) ^ Int.log 2 x ≤ x :=
    Int.zpow_log_le_self one_lt_two positive
  rw [ulp, abs_of_pos positive,
    show Int.log 2 x + 1 - (precision + 1 : ℕ) = Int.log 2 x + -precision by
      push_cast; ring,
    zpow_add₀ two_ne_zero]
  rw [Nat.cast_ofNat] at leading
  exact mul_le_mul_of_nonneg_right leading (zpow_pos two_pos _).le

/-- The relative error of rounding toward zero. -/
theorem le_roundTowardZero (precision : ℕ) :
    x * (1 - 2 ^ (-precision : ℤ)) ≤ roundTowardZero (precision + 1) x := by
  have near := lt_roundTowardZero_add positive (precision + 1)
  have small := ulp_le positive precision
  rw [mul_sub, mul_one]
  linarith

/-- The leading bit is kept. -/
theorem zpow_log_le_roundTowardZero (precision : ℕ) :
    2 ^ Int.log 2 x ≤ roundTowardZero (precision + 1) x := by
  have leading : ((2 : ℕ) : K) ^ Int.log 2 x ≤ x :=
    Int.zpow_log_le_self one_lt_two positive
  rw [Nat.cast_ofNat] at leading
  have unit := ulp_pos (precision + 1) x
  have places : (2 : K) ^ Int.log 2 x = (2 ^ precision : ℕ) * ulp (precision + 1) x := by
    rw [ulp, abs_of_pos positive, Nat.cast_pow, Nat.cast_ofNat, ← zpow_natCast,
      ← zpow_add₀ two_ne_zero]
    congr 1
    push_cast
    ring
  rw [roundTowardZero_of_pos positive, places]
  refine mul_le_mul_of_nonneg_right ?_ unit.le
  rw [Nat.cast_le]
  apply Nat.le_floor
  rw [le_div_iff₀ unit, ← places]
  exact leading

/-- So that the result has the unit in the last place of the number. -/
theorem ulp_roundTowardZero (precision : ℕ) :
    ulp (precision + 1) (roundTowardZero (precision + 1) x) =
      ulp (precision + 1) x := by
  have leading := zpow_log_le_roundTowardZero positive precision
  have rounded : 0 < roundTowardZero (precision + 1) x :=
    (zpow_pos two_pos _).trans_le leading
  have below : Int.log 2 (roundTowardZero (precision + 1) x) ≤ Int.log 2 x :=
    Int.log_mono_right rounded (roundTowardZero_le positive (precision + 1))
  have above : Int.log 2 x ≤ Int.log 2 (roundTowardZero (precision + 1) x) := by
    rw [← Int.zpow_le_iff_le_log one_lt_two rounded, Nat.cast_ofNat]
    exact leading
  rw [ulp, ulp, abs_of_pos positive, abs_of_pos rounded, below.antisymm above]

omit positive in
theorem one_le_roundTowardZero (large : 1 ≤ x) (precision : ℕ) :
    1 ≤ roundTowardZero (precision + 1) x := by
  have positive : 0 < x := zero_lt_one.trans_le large
  have leading : (0 : ℤ) ≤ Int.log 2 x := by
    rw [← Int.zpow_le_iff_le_log one_lt_two positive, zpow_zero]
    exact large
  exact (one_le_zpow₀ one_le_two leading).trans
    (zpow_log_le_roundTowardZero positive precision)

end Positive

/-- Rounding toward zero keeps the order of positive numbers. -/
theorem roundTowardZero_mono {x y : K} (positive : 0 < x) (order : x ≤ y)
    (precision : ℕ) :
    roundTowardZero (precision + 1) x ≤ roundTowardZero (precision + 1) y := by
  have above : 0 < y := positive.trans_le order
  have logs : Int.log 2 x ≤ Int.log 2 y := Int.log_mono_right positive order
  rcases lt_or_eq_of_le logs with apart | same
  · have two : ((2 : ℕ) : K) = 2 := Nat.cast_ofNat
    calc
      roundTowardZero (precision + 1) x ≤ x := roundTowardZero_le positive _
      _ ≤ 2 ^ (Int.log 2 x + 1) := by
        rw [← two]
        exact (Int.lt_zpow_succ_log_self one_lt_two x).le
      _ ≤ 2 ^ Int.log 2 y := zpow_le_zpow_right₀ one_le_two apart
      _ ≤ roundTowardZero (precision + 1) y :=
        zpow_log_le_roundTowardZero above precision
  · have units : ulp (precision + 1) x = ulp (precision + 1) y := by
      rw [ulp, ulp, abs_of_pos positive, abs_of_pos above, same]
    have unit := ulp_pos (precision + 1) y
    rw [roundTowardZero_of_pos positive, roundTowardZero_of_pos above, units]
    refine mul_le_mul_of_nonneg_right ?_ unit.le
    rw [Nat.cast_le]
    exact Nat.floor_mono (div_le_div_of_nonneg_right order unit.le)

theorem abs_roundTowardZero (x : K) (precision : ℕ) :
    |roundTowardZero (precision + 1) x| =
      roundTowardZero (precision + 1) |x| := by
  have ofPositive (y : K) (positive : 0 < y) :
      |roundTowardZero (precision + 1) y| = roundTowardZero (precision + 1) |y| := by
    have leading := zpow_log_le_roundTowardZero positive precision
    rw [abs_of_pos positive]
    exact abs_of_pos (lt_of_lt_of_le (zpow_pos two_pos _) leading)
  rcases lt_trichotomy x 0 with negative | rfl | positive
  · have opposite := ofPositive (-x) (neg_pos.mpr negative)
    rw [roundTowardZero_neg, abs_neg, abs_neg] at opposite
    exact opposite
  · rw [abs_zero, roundTowardZero, sign_zero, SignType.coe_zero, zero_mul,
      abs_zero]
  · exact ofPositive x positive

section Nonzero

variable {x : K} (nonzero : x ≠ 0) (precision : ℕ)

include nonzero

theorem sign_roundTowardZero :
    SignType.sign (roundTowardZero (precision + 1) x) = SignType.sign x := by
  have ofPositive (y : K) (positive : 0 < y) :
      SignType.sign (roundTowardZero (precision + 1) y) = 1 := by
    apply sign_pos
    exact lt_of_lt_of_le (zpow_pos two_pos _)
      (zpow_log_le_roundTowardZero positive precision)
  rcases lt_or_gt_of_ne nonzero with negative | positive
  · have opposite := ofPositive (-x) (neg_pos.mpr negative)
    rw [roundTowardZero_neg, Left.sign_neg] at opposite
    rw [sign_neg negative, ← opposite, neg_neg]
  · rw [ofPositive x positive, sign_pos positive]

theorem abs_roundTowardZero_sub_le :
    |roundTowardZero (precision + 1) x - x| ≤ |x| * 2 ^ (-precision : ℤ) := by
  have ofPositive (y : K) (positive : 0 < y) :
      |roundTowardZero (precision + 1) y - y| ≤ |y| * 2 ^ (-precision : ℤ) := by
    have below := roundTowardZero_le positive (precision + 1)
    have near := le_roundTowardZero positive precision
    rw [mul_sub, mul_one] at near
    rw [abs_sub_comm, abs_of_nonneg (sub_nonneg.mpr below), abs_of_pos positive]
    linarith
  rcases lt_or_gt_of_ne nonzero with negative | positive
  · have opposite := ofPositive (-x) (neg_pos.mpr negative)
    rw [roundTowardZero_neg, ← neg_sub', abs_neg, abs_neg] at opposite
    exact opposite
  · exact ofPositive x positive

end Nonzero

/-! ## Mantissas and powers of two -/

section Scaled

variable {mantissa : ℕ} (scale : ℤ)

theorem scaled_pos (positive : 0 < mantissa) :
    (0 : K) < mantissa * 2 ^ scale :=
  mul_pos (Nat.cast_pos.mpr positive) (zpow_pos two_pos scale)

/-- The leading bit of a scaled number is that of its mantissa. -/
theorem log_scaled (positive : 0 < mantissa) :
    Int.log 2 |(mantissa * 2 ^ scale : K)| = Nat.log 2 mantissa + scale := by
  have above := scaled_pos (K := K) scale positive
  have lower : 2 ^ Nat.log 2 mantissa ≤ mantissa :=
    Nat.pow_log_le_self 2 positive.ne'
  have upper : mantissa < 2 ^ (Nat.log 2 mantissa + 1) :=
    Nat.lt_pow_succ_log_self one_lt_two mantissa
  have two : ((2 : ℕ) : K) ≠ 0 := by simp
  rw [abs_of_pos above]
  apply le_antisymm
  · rw [← Int.lt_add_one_iff, ← Int.lt_zpow_iff_log_lt one_lt_two above,
      add_right_comm, zpow_add₀ two, Nat.cast_ofNat]
    refine mul_lt_mul_of_pos_right ?_ (zpow_pos two_pos scale)
    exact_mod_cast upper
  · rw [← Int.zpow_le_iff_le_log one_lt_two above, zpow_add₀ two,
      Nat.cast_ofNat]
    refine mul_le_mul_of_nonneg_right ?_ (zpow_pos two_pos scale).le
    exact_mod_cast lower

/-- A number in the same scale is below the unit in the last place. -/
theorem lt_ulp_scaled_iff (positive : 0 < mantissa) (precision other : ℕ) :
    (other * 2 ^ scale : K) < ulp (precision + 1) (mantissa * 2 ^ scale : K) ↔
      other * 2 ^ precision < 2 ^ Nat.log 2 mantissa := by
  have two : (2 : K) ≠ 0 := two_ne_zero
  have unit :
      ulp (precision + 1) (mantissa * 2 ^ scale : K) =
        2 ^ Nat.log 2 mantissa / 2 ^ precision * 2 ^ scale := by
    rw [ulp, log_scaled scale positive,
      show (Nat.log 2 mantissa : ℤ) + scale + 1 - (precision + 1 : ℕ) =
        Nat.log 2 mantissa - precision + scale by push_cast; ring,
      zpow_add₀ two, zpow_sub₀ two, zpow_natCast, zpow_natCast]
  rw [unit, mul_lt_mul_iff_of_pos_right (zpow_pos two_pos scale),
    lt_div_iff₀ (pow_pos two_pos precision)]
  exact_mod_cast Iff.rfl

/-- Rounding a mantissa with `dropped` bits too many divides them away. -/
theorem roundTowardZero_scaled {precision dropped : ℕ}
    (lower : 2 ^ (dropped + precision) ≤ mantissa)
    (upper : mantissa < 2 ^ (dropped + precision + 1)) :
    roundTowardZero (precision + 1) (mantissa * 2 ^ scale : K) =
      (mantissa / 2 ^ dropped : ℕ) * 2 ^ (dropped + scale) := by
  have positive : 0 < mantissa := lt_of_lt_of_le (Nat.two_pow_pos _) lower
  have above := scaled_pos (K := K) scale positive
  have two : (2 : K) ≠ 0 := two_ne_zero
  have leading : Nat.log 2 mantissa = dropped + precision :=
    (Nat.log_eq_iff (Or.inr ⟨one_lt_two, positive.ne'⟩)).mpr ⟨lower, upper⟩
  have unit :
      ulp (precision + 1) (mantissa * 2 ^ scale : K) =
        2 ^ ((dropped : ℤ) + scale) := by
    rw [ulp, log_scaled scale positive, leading]
    congr 1
    push_cast
    ring
  have quotient :
      (mantissa * 2 ^ scale : K) / 2 ^ ((dropped : ℤ) + scale) =
        mantissa / (2 ^ dropped : ℕ) := by
    rw [zpow_add₀ two, zpow_natCast,
      mul_div_mul_right _ _ (zpow_ne_zero scale two), Nat.cast_pow,
      Nat.cast_ofNat]
  rw [roundTowardZero, unit, abs_of_pos above, quotient,
    Nat.floor_div_eq_div, sign_pos above, SignType.coe_one, one_mul]

end Scaled

end FederatedEdge.Library
