import FederatedEdge.Library.NearestEven

/-!
# Significant decimal digits

A positive number to a number of significant digits is a significand with that
many digits and the exponent of its leading digit.  It is near the number, and
with enough digits nearer than any other number of a binary format: reading the
digits in that format gives the number back.
-/

namespace FederatedEdge.Library

variable {K : Type} [Field K] [LinearOrder K] [IsStrictOrderedRing K]
  [FloorRing K]

/-- What the last of `count` digits stands for. -/
def lastDigit (count : ℕ) (exponent : ℤ) : K :=
  10 ^ (exponent + 1 - count)

/--
The `count` significant digits of a positive number, and the exponent of the
first of them, which grows when rounding carries into another digit.
-/
def significantDigits (count : ℕ) (x : K) : ℕ × ℤ :=
  let exponent := Int.log 10 x
  let significand := (roundEven (x / lastDigit count exponent)).toNat
  if significand = 10 ^ count then (10 ^ (count - 1), exponent + 1)
  else (significand, exponent)

/-- The number which digits with an exponent stand for. -/
def digitsValue (count : ℕ) (digits : ℕ × ℤ) : K :=
  digits.1 * lastDigit count digits.2

variable {count : ℕ} {x : K}

theorem lastDigit_pos (count : ℕ) (exponent : ℤ) :
    (0 : K) < lastDigit count exponent :=
  zpow_pos (by norm_num) _

omit [IsStrictOrderedRing K] in
theorem pow_mul_lastDigit (count : ℕ) (exponent : ℤ) :
    (10 : K) ^ count * lastDigit count exponent = 10 ^ (exponent + 1) := by
  rw [lastDigit, ← zpow_natCast, ← zpow_add₀ (by norm_num)]
  congr 1
  ring

section Positive

variable (positive : 0 < x) (enough : 0 < count)

include positive

theorem ten_zpow_log_le : (10 : K) ^ Int.log 10 x ≤ x := by
  have lower : ((10 : ℕ) : K) ^ Int.log 10 x ≤ x :=
    Int.zpow_log_le_self (by norm_num) positive
  rwa [Nat.cast_ofNat] at lower

omit positive in
theorem lt_ten_zpow_log (x : K) : x < (10 : K) ^ (Int.log 10 x + 1) := by
  have upper : x < ((10 : ℕ) : K) ^ (Int.log 10 x + 1) :=
    Int.lt_zpow_succ_log_self (by norm_num) x
  rwa [Nat.cast_ofNat] at upper

include enough

/-- Before a carry the significand has all digits, or is the next power. -/
theorem roundEven_lastDigit_bounds :
    10 ^ (count - 1) ≤ roundEven (x / lastDigit count (Int.log 10 x)) ∧
      roundEven (x / lastDigit count (Int.log 10 x)) ≤ 10 ^ count := by
  have unit := lastDigit_pos (K := K) count (Int.log 10 x)
  constructor
  · apply le_roundEven_of_le
    rw [le_div_iff₀ unit]
    refine le_trans (le_of_eq ?_) (ten_zpow_log_le positive)
    push_cast
    rw [lastDigit, ← zpow_natCast, ← zpow_add₀ (by norm_num)]
    congr 1
    omega
  · apply roundEven_le_of_le
    rw [div_le_iff₀ unit]
    push_cast
    rw [pow_mul_lastDigit]
    exact (lt_ten_zpow_log x).le

/-- The significand has as many digits as were asked for. -/
theorem significantDigits_bounds :
    10 ^ (count - 1) ≤ (significantDigits count x).1 ∧
      (significantDigits count x).1 < 10 ^ count := by
  rcases roundEven_lastDigit_bounds positive enough with ⟨lower, upper⟩
  unfold significantDigits
  dsimp only
  split_ifs with carried
  · exact ⟨le_rfl, Nat.pow_lt_pow_right (by norm_num) (by omega)⟩
  · zify at carried ⊢
    rw [Int.toNat_of_nonneg ((pow_nonneg (by norm_num) _).trans lower)] at carried ⊢
    exact ⟨lower, lt_of_le_of_ne upper carried⟩

omit positive enough [IsStrictOrderedRing K] in
/-- The exponent is that of the number, or the next one. -/
theorem exponent_significantDigits (count : ℕ) (x : K) :
    (significantDigits count x).2 = Int.log 10 x ∨
      (significantDigits count x).2 = Int.log 10 x + 1 := by
  unfold significantDigits
  dsimp only
  split_ifs
  · exact Or.inr rfl
  · exact Or.inl rfl

theorem digitsValue_significantDigits :
    (digitsValue count (significantDigits count x) : K) =
      toMultiple (lastDigit count (Int.log 10 x)) x := by
  rcases roundEven_lastDigit_bounds positive enough with ⟨lower, -⟩
  have notNegative := (pow_nonneg (by norm_num) _).trans lower
  have significand :
      (((roundEven (x / lastDigit count (Int.log 10 x))).toNat : ℤ) : K) =
        roundEven (x / lastDigit count (Int.log 10 x)) := by
    rw [Int.toNat_of_nonneg notNegative]
  rw [Int.cast_natCast] at significand
  unfold significantDigits digitsValue
  dsimp only
  split_ifs with carried
  · rw [toMultiple, ← significand, carried]
    push_cast
    rw [pow_mul_lastDigit, lastDigit, ← zpow_natCast,
      ← zpow_add₀ (by norm_num)]
    congr 1
    omega
  · rw [toMultiple, ← significand]

/-- The digits are near the number. -/
theorem abs_digitsValue_sub_le :
    2 * |digitsValue count (significantDigits count x) - x| * 10 ^ (count - 1) ≤
      x := by
  rw [digitsValue_significantDigits positive enough]
  have near := abs_toMultiple_sub_le (lastDigit_pos count (Int.log 10 x)) x
  have power : (0 : K) < 10 ^ (count - 1) := pow_pos (by norm_num) _
  calc
    2 * |toMultiple (lastDigit count (Int.log 10 x)) x - x| * 10 ^ (count - 1)
      ≤ lastDigit count (Int.log 10 x) * 10 ^ (count - 1) :=
        mul_le_mul_of_nonneg_right near power.le
    _ = 10 ^ Int.log 10 x := by
      rw [lastDigit, ← zpow_natCast, ← zpow_add₀ (by norm_num)]
      congr 1
      omega
    _ ≤ x := ten_zpow_log_le positive

/--
With more digits than the binary format can tell apart, reading the digits of a
representable number gives the number.
-/
theorem round_significantDigits {format : BinaryFormat}
    (representable : format.Representable x)
    (precise : 2 ^ format.precision < 10 ^ (count - 1)) :
    format.round (digitsValue count (significantDigits count x) : K) = x := by
  apply representable.round_eq
  rw [abs_of_pos positive]
  have near := abs_digitsValue_sub_le positive enough
  have more : (2 : K) ^ format.precision < 10 ^ (count - 1) := by
    exact_mod_cast precise
  rcases eq_or_lt_of_le
      (abs_nonneg ((digitsValue count (significantDigits count x) : K) - x))
    with exact_ | apart
  · rw [← exact_, mul_zero, zero_mul]
    exact positive
  · refine lt_of_lt_of_le ?_ near
    exact mul_lt_mul_of_pos_left more (mul_pos two_pos apart)

end Positive

/-! ## Numbers which are close to a decimal -/

theorem log_eq_of_bounds {exponent : ℤ} (lower : (10 : K) ^ exponent ≤ x)
    (upper : x < (10 : K) ^ (exponent + 1)) : Int.log 10 x = exponent := by
  have positive : 0 < x := (zpow_pos (by norm_num) _).trans_le lower
  apply le_antisymm
  · rw [← Int.lt_add_one_iff, ← Int.lt_zpow_iff_log_lt (by norm_num) positive,
      Nat.cast_ofNat]
    exact upper
  · rw [← Int.zpow_le_iff_le_log (by norm_num) positive, Nat.cast_ofNat]
    exact lower

/-- From the leading digit on, less than half a unit away. -/
theorem significantDigits_of_near {significand : ℕ} {exponent : ℤ}
    (upper : significand < 10 ^ count) (first : (10 : K) ^ exponent ≤ x)
    (near : 2 * |x - significand * lastDigit count exponent| <
      lastDigit count exponent) :
    significantDigits count x = (significand, exponent) := by
  have unit := lastDigit_pos (K := K) count exponent
  have most : (significand : K) + 1 ≤ 10 ^ count := by
    exact_mod_cast upper
  have below : x < 10 ^ (exponent + 1) := by
    rw [← pow_mul_lastDigit count exponent]
    have largest : ((significand : K) + 1) * lastDigit count exponent ≤
        10 ^ count * lastDigit count exponent :=
      mul_le_mul_of_nonneg_right most unit.le
    have above := le_abs_self (x - significand * lastDigit count exponent)
    linarith
  rw [← Int.cast_natCast (R := K)] at near
  rw [significantDigits, log_eq_of_bounds first below, roundEven_div_eq unit near,
    Int.toNat_natCast, if_neg upper.ne]

/-- Below a power of ten, where rounding carries into another digit. -/
theorem significantDigits_of_near_power {exponent : ℤ} (enough : 0 < count)
    (first : x < (10 : K) ^ exponent)
    (near : 2 * |x - 10 ^ exponent| < lastDigit count (exponent - 1)) :
    significantDigits count x = (10 ^ (count - 1), exponent) := by
  have unit := lastDigit_pos (K := K) count (exponent - 1)
  have power : (10 : K) ^ exponent = 10 ^ count * lastDigit count (exponent - 1) := by
    rw [pow_mul_lastDigit, sub_add_cancel]
  have above : (10 : K) ^ (exponent - 1) ≤ x := by
    have tenth : (10 : K) ^ (exponent - 1) =
        10 ^ (count - 1) * lastDigit count (exponent - 1) := by
      rw [lastDigit, ← zpow_natCast, ← zpow_add₀ (by norm_num), Nat.cast_sub enough]
      congr 1
      push_cast
      ring
    have ten : (10 : K) ^ count = 10 ^ (count - 1) * 10 := by
      rw [← pow_succ, Nat.sub_add_cancel enough]
    have one : (1 : K) ≤ 10 ^ (count - 1) := one_le_pow₀ (by norm_num)
    have grow : (1 : K) * lastDigit count (exponent - 1) ≤
        10 ^ (count - 1) * lastDigit count (exponent - 1) :=
      mul_le_mul_of_nonneg_right one unit.le
    have below := neg_abs_le (x - 10 ^ exponent)
    rw [tenth]
    rw [power, ten] at below near
    linarith
  have whole : 2 * |x - ((10 ^ count : ℤ) : K) * lastDigit count (exponent - 1)| <
      lastDigit count (exponent - 1) := by
    push_cast
    rw [← power]
    exact near
  rw [significantDigits, log_eq_of_bounds above (by rw [sub_add_cancel]; exact first),
    roundEven_div_eq unit whole, if_pos (by norm_cast), sub_add_cancel]

/-- A number which is close to a decimal has its digits. -/
theorem significantDigits_eq (enough : 0 < count) {digits : ℕ × ℤ}
    (lower : 10 ^ (count - 1) ≤ digits.1) (upper : digits.1 < 10 ^ count)
    (near : 2 * |x - digitsValue count digits| * 10 ^ count < digitsValue count digits) :
    significantDigits count x = digits := by
  rcases digits with ⟨significand, exponent⟩
  dsimp only at lower upper
  have unit := lastDigit_pos (K := K) count exponent
  have power : (0 : K) < 10 ^ count := pow_pos (by norm_num) _
  have most : (significand : K) + 1 ≤ 10 ^ count := by
    exact_mod_cast upper
  have value : digitsValue count (significand, exponent) =
      (significand : K) * lastDigit count exponent := rfl
  rw [value] at near
  have close : 2 * |x - significand * lastDigit count exponent| <
      lastDigit count exponent := by
    have product : 2 * |x - significand * lastDigit count exponent| * 10 ^ count <
        lastDigit count exponent * 10 ^ count := by
      refine near.trans ?_
      rw [mul_comm]
      exact mul_lt_mul_of_pos_left (by linarith) unit
    exact lt_of_mul_lt_mul_right product power.le
  by_cases first : (10 : K) ^ exponent ≤ x
  · exact significantDigits_of_near upper first close
  · rw [not_le] at first
    have top : (10 : K) ^ exponent = 10 ^ (count - 1) * lastDigit count exponent := by
      rw [lastDigit, ← zpow_natCast, ← zpow_add₀ (by norm_num), Nat.cast_sub enough]
      congr 1
      push_cast
      ring
    -- the decimal is less than half a unit above the number, so it is the power
    have least : significand = 10 ^ (count - 1) := by
      refine le_antisymm ?_ lower
      have below := neg_abs_le (x - significand * lastDigit count exponent)
      have less : (significand : K) * lastDigit count exponent <
          ((10 ^ (count - 1) + 1 : ℕ) : K) * lastDigit count exponent := by
        push_cast
        rw [top] at first
        linarith
      exact Nat.lt_succ_iff.mp (by exact_mod_cast lt_of_mul_lt_mul_right less unit.le)
    have whole : (significand : K) * lastDigit count exponent = 10 ^ exponent := by
      rw [top, least]
      push_cast
      rfl
    have smaller : (10 : K) ^ exponent =
        lastDigit count (exponent - 1) * 10 ^ count := by
      rw [mul_comm, pow_mul_lastDigit, sub_add_cancel]
    rw [whole] at near
    nth_rewrite 2 [smaller] at near
    rw [least]
    exact significantDigits_of_near_power enough first
      (lt_of_mul_lt_mul_right near power.le)

end FederatedEdge.Library
