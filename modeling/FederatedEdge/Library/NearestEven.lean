import Mathlib.Algebra.Order.Floor.Ring
import Mathlib.Algebra.Order.Floor.Semiring
import Mathlib.Algebra.Ring.Int.Parity
import Mathlib.Data.Int.Log
import Mathlib.Tactic.FieldSimp
import Mathlib.Tactic.Linarith
import Mathlib.Tactic.Ring

/-!
# Rounding to the nearest, ties to even

A binary format has the multiples of a power of two, its quantum, around each
number; the quantum grows with the number, and there is a least one.  Rounding
takes the nearest multiple, of two the even one.

The representable numbers are the fixed points of rounding.  A number which is
near enough to a representable one, beside the distance to the next, is rounded
to it.
-/

namespace FederatedEdge.Library

variable {K : Type} [Field K] [LinearOrder K] [IsStrictOrderedRing K]
  [FloorRing K]

/-- The numeral two, by one name in every module. -/
theorem numeral_two_atLeast : Nat.AtLeastTwo 2 :=
  ⟨le_rfl⟩

attribute [local instance] numeral_two_atLeast in
/-- The nearest integer, of two the even one. -/
def roundEven (x : K) : ℤ :=
  if 2 * (x - ⌊x⌋) < 1 then ⌊x⌋
  else if 1 < 2 * (x - ⌊x⌋) then ⌊x⌋ + 1
  else if Even ⌊x⌋ then ⌊x⌋ else ⌊x⌋ + 1

/-! ## The nearest integer -/

theorem abs_roundEven_sub_le (x : K) : 2 * |(roundEven x : K) - x| ≤ 1 := by
  have lower := Int.floor_le x
  have upper := Int.lt_floor_add_one x
  unfold roundEven
  split_ifs with below above even
  · rw [abs_of_nonpos (by linarith)]
    linarith
  · push_cast
    rw [abs_of_pos (by linarith)]
    linarith
  · rw [abs_of_nonpos (by linarith)]
    linarith
  · push_cast
    rw [abs_of_pos (by linarith)]
    linarith

/-- An integer at less than one half is the nearest one. -/
theorem roundEven_eq {x : K} {value : ℤ} (near : 2 * |x - value| < 1) :
    roundEven x = value := by
  have rounded := abs_roundEven_sub_le x
  have close : |(roundEven x : K) - value| < 1 := by
    have triangle := abs_sub_le (roundEven x : K) x value
    linarith
  have same : |roundEven x - value| < 1 := by
    exact_mod_cast close
  exact sub_eq_zero.mp (Int.abs_lt_one_iff.mp same)

@[simp]
theorem roundEven_intCast (value : ℤ) : roundEven (value : K) = value :=
  roundEven_eq (by simp)

theorem roundEven_le_of_le {x : K} {value : ℤ} (below : x ≤ value) :
    roundEven x ≤ value := by
  rcases eq_or_lt_of_le below with rfl | less
  · rw [roundEven_intCast]
  · have rounded := abs_roundEven_sub_le x
    have above := le_abs_self ((roundEven x : K) - x)
    have close : (roundEven x : K) < value + 1 := by linarith
    have : roundEven x < value + 1 := by exact_mod_cast close
    omega

theorem le_roundEven_of_le {x : K} {value : ℤ} (above : value ≤ x) :
    value ≤ roundEven x := by
  rcases eq_or_lt_of_le above with rfl | less
  · rw [roundEven_intCast]
  · have rounded := abs_roundEven_sub_le x
    have below := neg_abs_le ((roundEven x : K) - x)
    have close : (value : K) < roundEven x + 1 := by linarith
    have : value < roundEven x + 1 := by exact_mod_cast close
    omega

/-- Halfway between two integers the even one is taken. -/
theorem even_roundEven {x : K} (halfway : 2 * |(roundEven x : K) - x| = 1) :
    Even (roundEven x) := by
  have lower := Int.floor_le x
  have upper := Int.lt_floor_add_one x
  unfold roundEven at halfway ⊢
  split_ifs at halfway ⊢ with below above even
  · rw [abs_of_nonpos (by linarith)] at halfway
    linarith
  · push_cast at halfway
    rw [abs_of_pos (by linarith)] at halfway
    linarith
  · exact even
  · exact (Int.not_even_iff_odd.mp even).add_one

theorem roundEven_unique {x : K} {value : ℤ} (near : 2 * |x - value| ≤ 1)
    (tie : 2 * |x - value| = 1 → Even value) : roundEven x = value := by
  rcases lt_or_eq_of_le near with less | halfway
  · exact roundEven_eq less
  · by_contra different
    have rounded := abs_roundEven_sub_le x
    have triangle := abs_sub_le (roundEven x : K) x value
    have apart : 1 ≤ |roundEven x - value| :=
      Int.one_le_abs (sub_ne_zero.mpr different)
    have apart' : (1 : K) ≤ |(roundEven x : K) - value| := by
      exact_mod_cast apart
    have near' : |(roundEven x : K) - value| ≤ 1 := by linarith
    have one : |roundEven x - value| = 1 :=
      le_antisymm (by exact_mod_cast near') apart
    -- both are even, and neighbours
    have left : Even (roundEven x) := even_roundEven (by linarith)
    have right : Even value := tie halfway
    have both : Even |roundEven x - value| := even_abs.mpr (left.sub right)
    rw [one] at both
    exact Int.not_even_one both

theorem roundEven_neg (x : K) : roundEven (-x) = -roundEven x := by
  have same : |-x - ((-roundEven x : ℤ) : K)| = |(roundEven x : K) - x| := by
    push_cast
    congr 1
    ring
  apply roundEven_unique
  · rw [same]
    exact abs_roundEven_sub_le x
  · intro halfway
    rw [same] at halfway
    exact (even_roundEven halfway).neg

/-! ## Multiples of a unit -/

/-- The nearest multiple of a unit, of two the even one. -/
def toMultiple (unit x : K) : K :=
  roundEven (x / unit) * unit

section Multiples

variable {unit : K} (positive : 0 < unit)

include positive

theorem abs_toMultiple_sub_le (x : K) :
    2 * |toMultiple unit x - x| ≤ unit := by
  have rounded := abs_roundEven_sub_le (x / unit)
  have scaled :
      toMultiple unit x - x = ((roundEven (x / unit) : K) - x / unit) * unit := by
    rw [toMultiple, sub_mul, div_mul_cancel₀ x positive.ne']
  rw [scaled, abs_mul, abs_of_pos positive, ← mul_assoc]
  exact mul_le_of_le_one_left positive.le rounded

theorem roundEven_div_eq {x : K} {value : ℤ} (near : 2 * |x - value * unit| < unit) :
    roundEven (x / unit) = value := by
  have scaled : x / unit - value = (x - value * unit) / unit := by
    rw [sub_div, mul_div_cancel_right₀ _ positive.ne']
  apply roundEven_eq
  rw [scaled, abs_div, abs_of_pos positive, ← mul_div_assoc]
  exact (div_lt_one positive).mpr near

theorem toMultiple_eq {x : K} {value : ℤ} (near : 2 * |x - value * unit| < unit) :
    toMultiple unit x = value * unit := by
  rw [toMultiple, roundEven_div_eq positive near]

theorem toMultiple_le_of_le {x : K} {value : ℤ} (below : x ≤ value * unit) :
    toMultiple unit x ≤ value * unit := by
  have quotient : x / unit ≤ value := (div_le_iff₀ positive).mpr below
  exact mul_le_mul_of_nonneg_right
    (Int.cast_le.mpr (roundEven_le_of_le quotient)) positive.le

omit positive in
theorem toMultiple_neg (unit x : K) :
    toMultiple unit (-x) = -toMultiple unit x := by
  rw [toMultiple, toMultiple, neg_div, roundEven_neg]
  push_cast
  ring

omit [FloorRing K] in
/-- Between two multiples there is at least one unit. -/
theorem multiple_add_le {left right : ℤ} (less : left * unit < right * unit) :
    left * unit + unit ≤ right * unit := by
  have order : left < right := by
    exact_mod_cast lt_of_mul_lt_mul_right less positive.le
  rw [← add_one_mul]
  exact mul_le_mul_of_nonneg_right (by exact_mod_cast order) positive.le

end Multiples

omit [FloorRing K] in
theorem two_zpow_pos (exponent : ℤ) : (0 : K) < 2 ^ exponent :=
  zpow_pos two_pos exponent

omit [FloorRing K] in
/-- Powers of two are multiples of smaller ones. -/
theorem zpow_eq_multiple {small large : ℤ} (order : small ≤ large) :
    (2 : K) ^ large = ((2 ^ (large - small).toNat : ℤ) : K) * 2 ^ small := by
  have exponent : large = (large - small).toNat + small := by omega
  conv_lhs => rw [exponent, zpow_add₀ two_ne_zero, zpow_natCast]
  push_cast
  rfl

/-! ## Binary formats -/

/--
A binary format: the number of significant bits, the exponent of the least
quantum, and the exponent from which on numbers are too large.
-/
structure BinaryFormat where
  precision : ℕ
  least : ℤ
  limit : ℤ
  positive : 0 < precision

namespace BinaryFormat

variable (format : BinaryFormat) {x y : K}

/-- The exponent of the quantum around a number. -/
def quantum (x : K) : ℤ :=
  max (Int.log 2 |x| + 1 - format.precision) format.least

attribute [local instance] numeral_two_atLeast in
/-- The nearest number of the format, were there no largest one. -/
def round (x : K) : K :=
  toMultiple (2 ^ format.quantum x) x

attribute [local instance] numeral_two_atLeast in
/-- A multiple of a quantum, with as many significant bits as there are. -/
def Representable (x : K) : Prop :=
  ∃ significand exponent : ℤ,
    |significand| < 2 ^ format.precision ∧ format.least ≤ exponent ∧
      x = significand * 2 ^ exponent

variable {format}

variable (format) in
omit [IsStrictOrderedRing K] in
theorem least_le_quantum (x : K) : format.least ≤ format.quantum x :=
  le_max_right _ _

variable (format) in
omit [IsStrictOrderedRing K] in
theorem log_le_quantum (x : K) :
    Int.log 2 |x| + 1 - format.precision ≤ format.quantum x :=
  le_max_left _ _

omit [IsStrictOrderedRing K] in
theorem quantum_neg (x : K) : format.quantum (-x) = format.quantum x := by
  rw [quantum, quantum, abs_neg]

theorem round_neg (x : K) : format.round (-x) = -format.round x := by
  rw [round, round, quantum_neg, toMultiple_neg]

@[simp]
theorem round_zero : format.round (0 : K) = 0 := by
  rw [round, toMultiple, zero_div, ← Int.cast_zero, roundEven_intCast,
    Int.cast_zero, zero_mul]

/-- What is below half of the least quantum is rounded to zero. -/
theorem round_eq_zero (tiny : 2 * |x| < 2 ^ format.least) : format.round x = 0 := by
  have larger : (2 : K) ^ format.least ≤ 2 ^ format.quantum x :=
    zpow_le_zpow_right₀ one_le_two (least_le_quantum format x)
  have near : 2 * |x - ((0 : ℤ) : K) * 2 ^ format.quantum x| < 2 ^ format.quantum x := by
    rw [Int.cast_zero, zero_mul, sub_zero]
    exact tiny.trans_le larger
  rw [round, toMultiple_eq (two_zpow_pos _) near, Int.cast_zero, zero_mul]

theorem two_zpow_log_le (nonzero : x ≠ 0) : (2 : K) ^ Int.log 2 |x| ≤ |x| := by
  have lower : ((2 : ℕ) : K) ^ Int.log 2 |x| ≤ |x| :=
    Int.zpow_log_le_self one_lt_two (abs_pos.mpr nonzero)
  rwa [Nat.cast_ofNat] at lower

theorem lt_two_zpow_log (x : K) : |x| < (2 : K) ^ (Int.log 2 |x| + 1) := by
  have upper : |x| < ((2 : ℕ) : K) ^ (Int.log 2 |x| + 1) :=
    Int.lt_zpow_succ_log_self one_lt_two |x|
  rwa [Nat.cast_ofNat] at upper

theorem log_lt_of_lt {exponent : ℤ} (nonzero : x ≠ 0)
    (less : |x| < (2 : K) ^ exponent) : Int.log 2 |x| < exponent := by
  rw [← Int.lt_zpow_iff_log_lt one_lt_two (abs_pos.mpr nonzero),
    Nat.cast_ofNat]
  exact less

theorem le_log_of_le {exponent : ℤ} (nonzero : x ≠ 0)
    (least : (2 : K) ^ exponent ≤ |x|) : exponent ≤ Int.log 2 |x| := by
  rw [← Int.zpow_le_iff_le_log one_lt_two (abs_pos.mpr nonzero),
    Nat.cast_ofNat]
  exact least

/-! ## Representable numbers -/

omit [LinearOrder K] [IsStrictOrderedRing K] [FloorRing K] in
theorem representable_zero : format.Representable (0 : K) :=
  ⟨0, format.least, by simp, le_rfl, by simp⟩

omit [LinearOrder K] [IsStrictOrderedRing K] [FloorRing K] in
theorem Representable.neg (representable : format.Representable x) :
    format.Representable (-x) := by
  rcases representable with ⟨significand, exponent, bounded, large, rfl⟩
  refine ⟨-significand, exponent, ?_, large, ?_⟩
  · rwa [abs_neg]
  · push_cast
    ring

/-- What is representable is a multiple of its quantum and of smaller ones. -/
theorem Representable.multiple (representable : format.Representable y)
    {exponent : ℤ} (small : exponent ≤ format.quantum y) :
    ∃ value : ℤ, y = value * 2 ^ exponent := by
  rcases representable with ⟨significand, scale, bounded, large, same⟩
  by_cases zero : y = 0
  · exact ⟨0, by rw [zero, Int.cast_zero, zero_mul]⟩
  · have less : |y| < (2 : K) ^ (format.precision + scale) := by
      rw [same, abs_mul, abs_of_pos (two_zpow_pos (K := K) scale),
        zpow_add₀ two_ne_zero, zpow_natCast]
      refine mul_lt_mul_of_pos_right ?_ (two_zpow_pos scale)
      exact_mod_cast bounded
    have log := log_lt_of_lt zero less
    have order : exponent ≤ scale := by
      unfold quantum at small
      omega
    refine ⟨significand * 2 ^ (scale - exponent).toNat, ?_⟩
    rw [same, zpow_eq_multiple order]
    push_cast
    ring

theorem Representable.quantum_le_log (representable : format.Representable y)
    (nonzero : y ≠ 0) : format.quantum y ≤ Int.log 2 |y| := by
  rcases representable.multiple le_rfl with ⟨value, same⟩
  apply le_log_of_le nonzero
  have notZero : value ≠ 0 := by
    rintro rfl
    exact nonzero (by rw [same, Int.cast_zero, zero_mul])
  have one : (1 : K) ≤ |(value : K)| := by
    exact_mod_cast Int.one_le_abs notZero
  calc
    (2 : K) ^ format.quantum y = 1 * 2 ^ format.quantum y := (one_mul _).symm
    _ ≤ |(value : K)| * 2 ^ format.quantum y :=
      mul_le_mul_of_nonneg_right one (two_zpow_pos _).le
    _ = |(value : K) * 2 ^ format.quantum y| := by
      rw [abs_mul, abs_of_pos (two_zpow_pos (K := K) (format.quantum y))]
    _ = |y| := congrArg abs same.symm

/-! ## Rounding to a representable number -/

/-- Rounding moves a number by at most a half of its quantum. -/
theorem abs_round_sub_le (x : K) :
    2 * |format.round x - x| ≤ 2 ^ format.quantum x :=
  abs_toMultiple_sub_le (two_zpow_pos _) x

/-- A representable number below a power of two is below it by a quantum. -/
theorem Representable.add_quantum_le (representable : format.Representable y)
    {exponent : ℤ} (order : format.quantum y ≤ exponent)
    (less : |y| < 2 ^ exponent) : |y| + 2 ^ format.quantum y ≤ 2 ^ exponent := by
  rcases representable.multiple le_rfl with ⟨value, same⟩
  have units : |y| = (|value| : ℤ) * 2 ^ format.quantum y := by
    conv_lhs => rw [same]
    rw [abs_mul, abs_of_pos (two_zpow_pos (K := K) (format.quantum y)),
      Int.cast_abs]
  rw [zpow_eq_multiple order, units] at less ⊢
  exact multiple_add_le (two_zpow_pos _) less

/-- One above a power of two is above it by a quantum. -/
theorem Representable.add_quantum_le_of_gt (representable : format.Representable y)
    {exponent : ℤ} (order : format.quantum y ≤ exponent)
    (greater : 2 ^ exponent < |y|) : 2 ^ exponent + 2 ^ format.quantum y ≤ |y| := by
  rcases representable.multiple le_rfl with ⟨value, same⟩
  have units : |y| = (|value| : ℤ) * 2 ^ format.quantum y := by
    conv_lhs => rw [same]
    rw [abs_mul, abs_of_pos (two_zpow_pos (K := K) (format.quantum y)),
      Int.cast_abs]
  rw [zpow_eq_multiple order, units] at greater ⊢
  exact multiple_add_le (two_zpow_pos _) greater

/--
What is nearer to a representable number than a half of its last bit, were it
a power of two, is rounded to it.
-/
theorem Representable.round_eq (representable : format.Representable y)
    (near : 2 * |x - y| * 2 ^ format.precision < |y|) : format.round x = y := by
  have power : (0 : K) < 2 ^ format.precision := pow_pos two_pos _
  have nonzero : y ≠ 0 := by
    rintro rfl
    rw [abs_zero] at near
    have := mul_nonneg (mul_nonneg zero_le_two (abs_nonneg (x - 0))) power.le
    linarith
  have lower := two_zpow_log_le nonzero
  have upper := lt_two_zpow_log y
  have small := representable.quantum_le_log nonzero
  have bits := format.log_le_quantum y
  -- half of a quantum, and a quarter when `y` is a power of two
  have scaled (exponent : ℤ) (bound : |y| ≤ 2 ^ exponent) :
      2 * |x - y| < 2 ^ (exponent - format.precision) := by
    rw [zpow_sub₀ two_ne_zero, zpow_natCast, lt_div_iff₀ power]
    exact near.trans_le bound
  have half : 2 * |x - y| < 2 ^ format.quantum y :=
    (scaled _ upper.le).trans_le (zpow_le_zpow_right₀ one_le_two (by omega))
  have distance := abs_sub_abs_le_abs_sub x y
  have distance' := abs_sub_abs_le_abs_sub y x
  rw [abs_sub_comm y x] at distance'
  have notZero : x ≠ 0 := by
    rintro rfl
    rw [zero_sub, abs_neg] at near
    have one : (1 : K) ≤ 2 ^ format.precision := one_le_pow₀ one_le_two
    have large := le_mul_of_one_le_right (abs_nonneg y) one
    have above := abs_pos.mpr nonzero
    linarith
  rcases lt_trichotomy (format.quantum x) (format.quantum y)
    with finer | same | coarser
  · -- `x` is below the power of two which `y` is
    have log : Int.log 2 |x| < Int.log 2 |y| := by
      unfold quantum at finer
      omega
    have bottom : Int.log 2 |y| + 1 - format.precision = format.quantum y := by
      have coarse := format.least_le_quantum x
      unfold quantum at finer coarse ⊢
      omega
    have below : |x| < 2 ^ Int.log 2 |y| :=
      (lt_two_zpow_log x).trans_le (zpow_le_zpow_right₀ one_le_two log)
    have power : |y| = 2 ^ Int.log 2 |y| := by
      by_contra other
      have above :=
        representable.add_quantum_le_of_gt small (lt_of_le_of_ne lower (Ne.symm other))
      have wide := two_zpow_pos (K := K) (format.quantum y)
      linarith
    have quarter : 2 * |x - y| < 2 ^ (format.quantum y - 1) :=
      (scaled _ power.le).trans_le (zpow_le_zpow_right₀ one_le_two (by omega))
    have next : format.quantum x = format.quantum y - 1 := by
      have double : (2 : K) ^ Int.log 2 |y| = 2 * 2 ^ (Int.log 2 |y| - 1) := by
        rw [← zpow_one_add₀ two_ne_zero, add_sub_cancel]
      have part : (2 : K) ^ (format.quantum y - 1) ≤ 2 ^ (Int.log 2 |y| - 1) :=
        zpow_le_zpow_right₀ one_le_two (by omega)
      have leading : Int.log 2 |y| - 1 ≤ Int.log 2 |x| :=
        le_log_of_le notZero (by linarith)
      have bits := format.log_le_quantum x
      omega
    rcases representable.multiple finer.le with ⟨value, multiple⟩
    rw [round, multiple]
    apply toMultiple_eq (two_zpow_pos _)
    rw [← multiple, next]
    exact quarter
  · rcases representable.multiple le_rfl with ⟨value, multiple⟩
    rw [round, same]
    conv_rhs => rw [multiple]
    apply toMultiple_eq (two_zpow_pos _)
    rw [← multiple]
    exact half
  · -- `x` would be beyond the next power of two
    have log : Int.log 2 |y| + 1 ≤ Int.log 2 |x| := by
      unfold quantum at coarser
      have coarse := format.least_le_quantum y
      unfold quantum at coarse
      omega
    have beyond : 2 ^ (Int.log 2 |y| + 1) ≤ |x| :=
      (zpow_le_zpow_right₀ one_le_two log).trans (two_zpow_log_le notZero)
    have gap := representable.add_quantum_le (by omega) upper
    have wide := two_zpow_pos (K := K) (format.quantum y)
    linarith

@[simp]
theorem Representable.round_self (representable : format.Representable y) :
    format.round y = y := by
  by_cases zero : y = 0
  · rw [zero, round_zero]
  · apply representable.round_eq
    rw [sub_self, abs_zero, mul_zero, zero_mul]
    exact abs_pos.mpr zero

omit [LinearOrder K] [IsStrictOrderedRing K] [FloorRing K] in
/-- Powers of two which are not too small are representable. -/
theorem representable_zpow {exponent : ℤ} (large : format.least ≤ exponent) :
    format.Representable ((2 : K) ^ exponent) := by
  refine ⟨1, exponent, ?_, large, by simp⟩
  rw [abs_one]
  exact one_lt_pow₀ one_lt_two format.positive.ne'

/-- The rounded number is representable. -/
theorem representable_round (x : K) : format.Representable (format.round x) := by
  have power : (2 : K) ^ format.precision =
      ((2 ^ format.precision : ℤ) : K) := by
    push_cast
    rfl
  have unit := two_zpow_pos (K := K) (format.quantum x)
  have within : |x / 2 ^ format.quantum x| ≤ ((2 ^ format.precision : ℤ) : K) := by
    rw [abs_div, abs_of_pos unit, div_le_iff₀ unit, ← power, ← zpow_natCast,
      ← zpow_add₀ two_ne_zero]
    refine (lt_two_zpow_log x).le.trans (zpow_le_zpow_right₀ one_le_two ?_)
    have bits := format.log_le_quantum x
    omega
  rcases abs_le.mp within with ⟨lower, upper⟩
  have above : roundEven (x / 2 ^ format.quantum x) ≤ 2 ^ format.precision :=
    roundEven_le_of_le upper
  have below : -2 ^ format.precision ≤ roundEven (x / 2 ^ format.quantum x) :=
    le_roundEven_of_le (by push_cast at lower ⊢; exact lower)
  by_cases carried :
      |roundEven (x / 2 ^ format.quantum x)| = 2 ^ format.precision
  · -- the significand is the power of two which needs one bit more
    have large : format.Representable
        ((2 : K) ^ (format.precision + format.quantum x)) := by
      apply representable_zpow
      have coarse := format.least_le_quantum x
      omega
    rw [zpow_add₀ two_ne_zero, zpow_natCast, power] at large
    rcases abs_choice (roundEven (x / 2 ^ format.quantum x)) with same | same
    · rw [same] at carried
      rw [round, toMultiple, carried]
      exact large
    · rw [same] at carried
      rw [round, toMultiple, neg_eq_iff_eq_neg.mp carried, Int.cast_neg, neg_mul]
      exact large.neg
  · exact ⟨_, _, lt_of_le_of_ne (abs_le.mpr ⟨below, above⟩) carried,
      format.least_le_quantum x, rfl⟩

/-- So the representable numbers are those which rounding keeps. -/
theorem round_eq_self_iff : format.round x = x ↔ format.Representable x := by
  constructor
  · intro same
    rw [← same]
    exact representable_round x
  · exact Representable.round_self

/-! ## The order of rounded numbers -/

/-- Rounding does not pass a representable number. -/
theorem Representable.round_le (representable : format.Representable y)
    (order : x ≤ y) : format.round x ≤ y := by
  have unit := two_zpow_pos (K := K) (format.quantum x)
  rcases eq_or_ne x 0 with rfl | notZero
  · rwa [round_zero]
  rcases eq_or_ne y 0 with rfl | nonzero
  · rw [← zero_mul ((2 : K) ^ format.quantum x), ← Int.cast_zero] at order ⊢
    exact toMultiple_le_of_le unit order
  by_cases finer : format.quantum x ≤ format.quantum y
  · rcases representable.multiple finer with ⟨value, multiple⟩
    rw [multiple] at order ⊢
    exact toMultiple_le_of_le unit order
  · -- the quantum of `x` is larger, so `x` is negative and beyond a power of two
    have coarse : format.quantum x = Int.log 2 |x| + 1 - format.precision := by
      have other := format.least_le_quantum y
      unfold quantum at finer other ⊢
      omega
    have log : Int.log 2 |y| + 1 ≤ Int.log 2 |x| := by
      have bits := format.log_le_quantum y
      omega
    have below : |y| < 2 ^ Int.log 2 |x| :=
      (lt_two_zpow_log y).trans_le (zpow_le_zpow_right₀ one_le_two log)
    have leading := two_zpow_log_le notZero
    have negative : x < 0 := by
      by_contra positive
      rw [abs_of_nonneg (not_lt.mp positive)] at leading below
      have := le_abs_self y
      linarith
    have places : format.quantum x ≤ Int.log 2 |x| := by
      have := format.positive
      omega
    rw [abs_of_neg negative] at leading below places
    have low := neg_abs_le y
    calc
      format.round x ≤
          ((-2 ^ (Int.log 2 (-x) - format.quantum x).toNat : ℤ) : K) *
            2 ^ format.quantum x := by
        apply toMultiple_le_of_le unit
        rw [Int.cast_neg, neg_mul, ← zpow_eq_multiple places]
        linarith
      _ = -2 ^ Int.log 2 (-x) := by
        rw [Int.cast_neg, neg_mul, ← zpow_eq_multiple places]
      _ ≤ y := by linarith

theorem Representable.le_round (representable : format.Representable y)
    (order : y ≤ x) : y ≤ format.round x := by
  have opposite := representable.neg.round_le (neg_le_neg order)
  rw [round_neg] at opposite
  exact neg_le_neg_iff.mp opposite

theorem Representable.abs_round_le (representable : format.Representable y)
    (bound : |x| ≤ y) : |format.round x| ≤ y :=
  abs_le.mpr
    ⟨representable.neg.le_round (neg_le_of_abs_le bound),
      representable.round_le (le_of_abs_le bound)⟩

/-- Rounding keeps the sign. -/
theorem abs_round (x : K) : |format.round x| = format.round |x| := by
  rcases le_total 0 x with notNegative | notPositive
  · rw [abs_of_nonneg notNegative,
      abs_of_nonneg (representable_zero.le_round notNegative)]
  · rw [abs_of_nonpos notPositive, round_neg,
      abs_of_nonpos (representable_zero.round_le notPositive)]

end BinaryFormat

end FederatedEdge.Library
