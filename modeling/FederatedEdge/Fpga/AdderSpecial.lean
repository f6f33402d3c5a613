import FederatedEdge.Fpga.AdderRounding

/-!
# The adder at zero and at overflow

The adder gives every operand a hidden bit, so zero takes part in a sum as the
smallest normal mantissa in the scale of the exponent zero.  It vanishes only
when the alignment shifts it out.

A carry out of the largest finite exponent makes the exponent all ones and
leaves the fraction of the sum behind it, which encodes an infinity for a zero
fraction only.
-/

namespace FederatedEdge.Fpga

open FederatedEdge.Library
open Word

variable {A B : Word}

/-! ## Adding zero -/

/-- The same word, where the two zeros count as one. -/
def Word.SameNumber (A B : Word) : Prop :=
  A = B ∨ A.IsZero ∧ B.IsZero

instance (A B : Word) : Decidable (A.SameNumber B) := by
  unfold SameNumber
  infer_instance

/-- Adding zero changes nothing, and a normal number cancels its opposite. -/
structure ZeroLaws (x : Word) : Prop where
  zeroRight : (ieee754_adder x 0).SameNumber x
  zeroLeft : (ieee754_adder 0 x).SameNumber x
  cancels : x.Normal →
    (ieee754_adder x x.negate).IsZero ∧ (ieee754_adder x.negate x).IsZero

/-- The fields decide whether a word is another one. -/
theorem Word.HasFields.eq_iff {W : Word} {negative : Bool}
    {exponent fraction : ℕ} (fields : W.HasFields negative exponent fraction)
    (A : Word) :
    W = A ↔
      negative = A.sign ∧ exponent = A.exponent.toNat ∧
        fraction = A.fraction.toNat := by
  rcases fields with ⟨rfl, rfl, rfl⟩
  constructor
  · intro same
    rw [same]
    exact ⟨rfl, rfl, rfl⟩
  · rintro ⟨sameSign, sameExponent, sameFraction⟩
    exact eq_of_fields sameSign sameExponent sameFraction

theorem Word.IsZero.magnitude_eq (zero : B.IsZero) : B.magnitude = 0 := by
  rw [magnitude, zero.1, zero.2, zero_mul]

theorem isZero_of_magnitude (none : A.magnitude = 0) : A.IsZero := by
  rw [magnitude] at none
  exact ⟨by omega, by omega⟩

section ZeroOperand

variable (zero : B.IsZero)

include zero

theorem magnitude_le_of_isZero : B.magnitude ≤ A.magnitude :=
  zero.magnitude_eq.le.trans (Nat.zero_le _)

/-- Zero is aligned with its hidden bit. -/
theorem aligned_of_isZero :
    aligned A B = 2 ^ 23 / 2 ^ A.exponent.toNat := by
  rw [aligned, distance, toNat_mantissa, zero.1, zero.2, Nat.add_zero,
    Nat.sub_zero]

theorem aligned_of_isZero_of_le (small : A.exponent.toNat ≤ 23) :
    aligned A B = 2 ^ (23 - A.exponent.toNat) := by
  rw [aligned_of_isZero zero, Nat.pow_div small two_pos]

/-- The hidden bit of zero is shifted out. -/
theorem addOrdered_isZero_of_large (large : 24 ≤ A.exponent.toNat) :
    addOrdered A B = A := by
  have shiftedOut : aligned A B = 0 := by
    rw [aligned_of_isZero zero]
    exact Nat.div_eq_of_lt (Nat.pow_lt_pow_right one_lt_two large)
  have total : sum A B = A.mantissa.toNat := by
    rw [sum, shiftedOut, Nat.add_zero, Nat.sub_zero, ite_self]
  have fields :=
    addOrdered_inPlace (magnitude_le_of_isZero zero)
      (by rw [total]; exact A.mantissa_lower)
      (by rw [total]; exact A.mantissa_upper)
  rw [fields.eq_iff, total, toNat_mantissa, Nat.add_sub_cancel_left]
  exact ⟨rfl, rfl, rfl⟩

/-- Added to a mantissa, the hidden bit of zero changes a field. -/
theorem addOrdered_isZero_ne (small : A.exponent.toNat ≤ 23)
    (sameSign : A.sign = B.sign) : addOrdered A B ≠ A := by
  have ordered : B.magnitude ≤ A.magnitude := magnitude_le_of_isZero zero
  have stored := A.toNat_mantissa
  have total : sum A B = A.mantissa.toNat + 2 ^ (23 - A.exponent.toNat) := by
    rw [sum, if_pos sameSign, aligned_of_isZero_of_le zero small]
  have positive : 0 < 2 ^ (23 - A.exponent.toNat) := Nat.two_pow_pos _
  by_cases carry : 2 ^ 24 ≤ sum A B
  · rw [ne_eq, (addOrdered_carry ordered carry).eq_iff]
    omega
  · rw [ne_eq, (addOrdered_inPlace ordered (by omega)
      (Nat.not_le.mp carry)).eq_iff]
    omega

/-- At the exponent zero only the hidden bit of the other operand is lost. -/
theorem addOrdered_isZero_of_smallest (smallest : A.exponent.toNat = 0)
    (differentSign : A.sign ≠ B.sign) : addOrdered A B = A := by
  have ordered : B.magnitude ≤ A.magnitude := magnitude_le_of_isZero zero
  have stored := A.fraction.isLt
  have total : sum A B = A.fraction.toNat := by
    rw [sum, if_neg differentSign,
      aligned_of_isZero_of_le zero (by omega), smallest, toNat_mantissa]
    exact Nat.add_sub_cancel_left _ _
  rcases Nat.eq_zero_or_pos (sum A B) with none | some
  · rw [(addOrdered_zero ordered none).eq_iff, ← total]
    exact ⟨rfl, rfl, none.symm⟩
  · have noCarry : sum A B < 2 ^ 24 := by omega
    rw [(addOrdered_shift ordered some.ne' noCarry).eq_iff,
      shiftUp_stopped (Or.inr smallest), Nat.sub_zero, pow_zero, mul_one,
      total, Nat.mod_eq_of_lt stored]
    exact ⟨rfl, rfl, rfl⟩

/-- Taken from a mantissa, the hidden bit of zero changes a field. -/
theorem addOrdered_isZero_ne_of_different_sign
    (positive : 0 < A.exponent.toNat) (small : A.exponent.toNat ≤ 23)
    (differentSign : A.sign ≠ B.sign) : addOrdered A B ≠ A := by
  have ordered : B.magnitude ≤ A.magnitude := magnitude_le_of_isZero zero
  have stored := A.toNat_mantissa
  have upper := A.mantissa_upper
  have total : sum A B = A.mantissa.toNat - 2 ^ (23 - A.exponent.toNat) := by
    rw [sum, if_neg differentSign, aligned_of_isZero_of_le zero small]
  have some : 0 < 2 ^ (23 - A.exponent.toNat) := Nat.two_pow_pos _
  have half : 2 ^ (23 - A.exponent.toNat) ≤ 2 ^ 22 :=
    Nat.pow_le_pow_right two_pos (by omega)
  have noCarry : sum A B < 2 ^ 24 := by omega
  by_cases leading : 2 ^ 23 ≤ sum A B
  · rw [ne_eq, (addOrdered_inPlace ordered leading noCarry).eq_iff]
    omega
  · have nonzero : sum A B ≠ 0 := by omega
    have log : Nat.log 2 (sum A B) < 23 :=
      Nat.log_lt_of_lt_pow nonzero (Nat.not_le.mp leading)
    have moves : 0 < shiftUp (sum A B) A.exponent.toNat := by
      rw [shiftUp]
      omega
    rw [ne_eq, (addOrdered_shift ordered nonzero noCarry).eq_iff]
    omega

/-- Which operands outlive zero. -/
theorem addOrdered_isZero_iff :
    addOrdered A B = A ↔
      24 ≤ A.exponent.toNat ∨ A.sign ≠ B.sign ∧ A.exponent.toNat = 0 := by
  by_cases large : 24 ≤ A.exponent.toNat
  · exact iff_of_true (addOrdered_isZero_of_large zero large) (Or.inl large)
  · have small : A.exponent.toNat ≤ 23 := by omega
    rw [or_iff_right large]
    by_cases sameSign : A.sign = B.sign
    · exact iff_of_false (addOrdered_isZero_ne zero small sameSign)
        (fun other => other.1 sameSign)
    · rw [and_iff_right sameSign]
      rcases Nat.eq_zero_or_pos A.exponent.toNat with smallest | positive
      · exact iff_of_true
          (addOrdered_isZero_of_smallest zero smallest sameSign) smallest
      · exact iff_of_false
          (addOrdered_isZero_ne_of_different_sign zero positive small sameSign)
          positive.ne'

end ZeroOperand

/-- The zeros themselves: the sum of positive ones is not zero. -/
theorem add_zeros (negative : Bool) :
    ((ieee754_adder (pack negative 0 0) 0).SameNumber (pack negative 0 0) ↔
        negative = true) ∧
      ((ieee754_adder 0 (pack negative 0 0)).SameNumber (pack negative 0 0) ↔
        negative = true) := by
  cases negative <;> decide

/-- Which words zero on either side leaves as they are. -/
theorem sameNumber_add_zero_iff (x : Word) :
    ((ieee754_adder x 0).SameNumber x ↔
        24 ≤ x.exponent.toNat ∨ x.sign = true ∧ x.exponent.toNat = 0) ∧
      ((ieee754_adder 0 x).SameNumber x ↔
        24 ≤ x.exponent.toNat ∨ x.sign = true ∧ x.exponent.toNat = 0) := by
  have zeroMagnitude : magnitude 0 = 0 := by decide
  by_cases zero : x.IsZero
  · have fields : pack x.sign 0 0 = x := by
      refine eq_of_fields (sign_pack _ _ _) ?_ ?_
      · rw [exponent_pack, zero.1]
        rfl
      · rw [fraction_pack, zero.2]
        rfl
    have zeros := add_zeros x.sign
    rw [fields] at zeros
    rw [zeros.1, zeros.2, zero.1]
    simp
  · have above : 0 < x.magnitude :=
      Nat.pos_of_ne_zero (mt isZero_of_magnitude zero)
    have first : larger x 0 = x ∧ smaller x 0 = 0 := by
      rcases ordered_cases x 0 with ⟨-, fields⟩ | ⟨order, -⟩
      · exact fields
      · omega
    have second : larger 0 x = x ∧ smaller 0 x = 0 := by
      rcases ordered_cases 0 x with ⟨order, -⟩ | ⟨-, fields⟩
      · omega
      · exact fields
    have signs : x.sign ≠ sign 0 ↔ x.sign = true := Bool.ne_false_iff
    have same (result : Word) : result.SameNumber x ↔ result = x :=
      or_iff_left (fun zeros => zero zeros.2)
    have kept := addOrdered_isZero_iff (A := x) (B := 0) (by decide)
    rw [signs] at kept
    rw [same, same, ieee754_adder_eq, ieee754_adder_eq, first.1, first.2,
      second.1, second.2]
    exact ⟨kept, kept⟩

/-! ## Cancelling -/

theorem magnitude_negate (x : Word) : x.negate.magnitude = x.magnitude := by
  rw [magnitude, magnitude, negate, exponent_pack, fraction_pack]

theorem sign_negate (x : Word) : x.negate.sign = !x.sign :=
  sign_pack _ _ _

theorem exponent_negate (x : Word) : x.negate.exponent = x.exponent :=
  exponent_pack _ _ _

/-- Full cancellation clears the fraction and keeps the exponent. -/
theorem hasFields_cancelled (sameMagnitude : A.magnitude = B.magnitude)
    (differentSign : A.sign ≠ B.sign) :
    (ieee754_adder A B).HasFields B.sign B.exponent.toNat 0 := by
  have exponents : A.exponent.toNat = B.exponent.toNat :=
    le_antisymm (exponent_le sameMagnitude.le) (exponent_le sameMagnitude.ge)
  have fractions : A.fraction.toNat = B.fraction.toNat := by
    rw [magnitude, magnitude, exponents] at sameMagnitude
    exact Nat.add_left_cancel sameMagnitude
  have nothing : sum B A = 0 := by
    rw [sum, if_neg differentSign.symm, aligned, distance, exponents,
      Nat.sub_self, pow_zero, Nat.div_one, toNat_mantissa, toNat_mantissa,
      fractions, Nat.sub_self]
  rcases ordered_cases A B with ⟨order, -⟩ | ⟨-, first, second⟩
  · omega
  · rw [ieee754_adder_eq, first, second]
    exact addOrdered_zero sameMagnitude.le nothing

theorem hasFields_add_negate (x : Word) :
    (ieee754_adder x x.negate).HasFields (!x.sign) x.exponent.toNat 0 ∧
      (ieee754_adder x.negate x).HasFields x.sign x.exponent.toNat 0 := by
  have opposite : x.negate.sign ≠ x.sign := by
    rw [sign_negate]
    exact Bool.not_ne_self _
  constructor
  · rw [← sign_negate, ← exponent_negate]
    exact hasFields_cancelled (magnitude_negate x).symm opposite.symm
  · exact hasFields_cancelled (magnitude_negate x) opposite

/--
A finite word satisfies the zero laws exactly when it is negative with the
exponent zero.  Zero is neutral, on either side, for these words and from the
exponent 24 on; no normal number cancels its opposite.
-/
theorem zeroLaws_iff (x : Word) (finite : x.Finite) :
    (ZeroLaws x ↔ x.sign = true ∧ x.exponent.toNat = 0) ∧
      ((ieee754_adder x 0).SameNumber x ↔
        24 ≤ x.exponent.toNat ∨ x.sign = true ∧ x.exponent.toNat = 0) ∧
      ((ieee754_adder 0 x).SameNumber x ↔
        24 ≤ x.exponent.toNat ∨ x.sign = true ∧ x.exponent.toNat = 0) ∧
      (x.Normal →
        ¬ (ieee754_adder x x.negate).IsZero ∧
          ¬ (ieee754_adder x.negate x).IsZero) := by
  rcases sameNumber_add_zero_iff x with ⟨right, left⟩
  rcases hasFields_add_negate x with ⟨fieldsRight, fieldsLeft⟩
  have remains :
      x.Normal →
        ¬ (ieee754_adder x x.negate).IsZero ∧
          ¬ (ieee754_adder x.negate x).IsZero := by
    intro normal
    have nonzero : x.exponent.toNat ≠ 0 := Nat.one_le_iff_ne_zero.mp normal.1
    exact ⟨fun zero => nonzero (fieldsRight.2.1.symm.trans zero.1),
      fun zero => nonzero (fieldsLeft.2.1.symm.trans zero.1)⟩
  refine ⟨⟨?_, ?_⟩, right, left, remains⟩
  · intro laws
    rcases right.mp laws.zeroRight with large | negative
    · have normal : x.Normal := ⟨by omega, finite⟩
      exact absurd (laws.cancels normal).1 (remains normal).1
    · exact negative
  · intro negative
    refine ⟨right.mpr (Or.inr negative), left.mpr (Or.inr negative), ?_⟩
    intro normal
    exact absurd normal.1 (by omega)

/-- For 1.0 zero is neutral and the opposite does not cancel. -/
theorem zeroLaws_iff_one :
    (ZeroLaws one ↔ one.sign = true ∧ one.exponent.toNat = 0) ∧
      ((ieee754_adder one 0).SameNumber one ↔
        24 ≤ one.exponent.toNat ∨ one.sign = true ∧ one.exponent.toNat = 0) ∧
      ((ieee754_adder 0 one).SameNumber one ↔
        24 ≤ one.exponent.toNat ∨ one.sign = true ∧ one.exponent.toNat = 0) ∧
      (one.Normal →
        ¬ (ieee754_adder one one.negate).IsZero ∧
          ¬ (ieee754_adder one.negate one).IsZero) :=
  zeroLaws_iff one (by decide)

/-- Two positive zeros add up to a normal number, and 1 - 1 is -1. -/
theorem zero_is_added :
    Finite 0 ∧ ieee754_adder 0 0 = 0x00800000#32 ∧ ¬ ZeroLaws 0 ∧
      Normal one ∧ ieee754_adder one one.negate = 0xbf800000#32 ∧
      ¬ ZeroLaws one := by
  refine ⟨by decide, by decide, ?_, by decide, by decide, ?_⟩
  · intro laws
    exact absurd laws.zeroRight (by decide)
  · intro laws
    exact absurd (laws.cancels (by decide)).1 (by decide)

/-! ## Overflow -/

/--
The sum is never a NaN, and the infinity of the operands' sign exactly where
the exact sum has no finite exponent.
-/
def OverflowsToInfinity (A B result : Word) : Prop :=
  ¬ result.IsNaN ∧
    ∀ negative,
      result.IsInfinity negative ↔
        A.sign = negative ∧ B.sign = negative ∧
          2 ^ 128 ≤ |A.value + B.value|

/-- A finite result is right below the overflow. -/
theorem overflowsToInfinity_of_finite {result : Word} (finite : result.Finite)
    (below : |A.value + B.value| < 2 ^ 128) :
    OverflowsToInfinity A B result := by
  have exponents : result.exponent.toNat ≤ 254 := finite
  refine ⟨fun nan => ?_, fun negative => ?_⟩
  · have ones := nan.1
    omega
  · refine iff_of_false (fun infinity => ?_) (fun overflow => ?_)
    · have ones := infinity.2.1
      omega
    · exact absurd overflow.2.2 (not_le.mpr below)

/-- With all ones in the exponent the fraction decides. -/
theorem overflowsToInfinity_iff_fraction {result : Word}
    (sameSign : A.sign = B.sign) (sign : result.sign = A.sign)
    (ones : result.exponent.toNat = 255)
    (overflow : 2 ^ 128 ≤ |A.value + B.value|) :
    OverflowsToInfinity A B result ↔ result.fraction.toNat = 0 := by
  constructor
  · rintro ⟨noNaN, -⟩
    by_contra nonzero
    exact noNaN ⟨ones, nonzero⟩
  · intro zero
    refine ⟨fun nan => nan.2 zero, fun negative => ?_⟩
    constructor
    · rintro ⟨signed, -, -⟩
      have signA : A.sign = negative := sign.symm.trans signed
      exact ⟨signA, sameSign.symm.trans signA, overflow⟩
    · rintro ⟨signA, -, -⟩
      exact ⟨sign.trans signA, ones, zero⟩

/-- The exponent bounds the number, with and without a hidden bit. -/
theorem Word.abs_value_lt (A : Word) :
    |A.value| < 2 ^ ((A.exponent.toNat : ℤ) - 126) := by
  have stored := A.fraction.isLt
  have nonneg : (0 : ℚ) ≤ A.significand * 2 ^ A.scale :=
    mul_nonneg (Nat.cast_nonneg _) (zpow_pos two_pos _).le
  rw [value, abs_signed, abs_of_nonneg nonneg, significand, scale]
  by_cases zero : A.exponent.toNat = 0
  · have bound : (A.fraction.toNat : ℚ) < 2 ^ (23 : ℤ) := by
      exact_mod_cast stored
    rw [if_pos zero, if_pos zero, zero,
      show ((0 : ℕ) : ℤ) - 126 = 23 + -149 by norm_num,
      zpow_add₀ two_ne_zero]
    exact mul_lt_mul_of_pos_right bound (zpow_pos two_pos _)
  · have bound : ((2 ^ 23 + A.fraction.toNat : ℕ) : ℚ) < 2 ^ (24 : ℤ) := by
      exact_mod_cast (by omega : 2 ^ 23 + A.fraction.toNat < 2 ^ 24)
    rw [if_neg zero, if_neg zero,
      show (A.exponent.toNat : ℤ) - 126 = 24 + (A.exponent.toNat - 150) by ring,
      zpow_add₀ two_ne_zero]
    exact mul_lt_mul_of_pos_right bound (zpow_pos two_pos _)

theorem Word.Finite.abs_value_lt (finite : A.Finite) : |A.value| < 2 ^ 128 := by
  refine lt_of_lt_of_le (Word.abs_value_lt A) ?_
  have exponents : (A.exponent.toNat : ℤ) - 126 ≤ (128 : ℕ) := by
    have upper : A.exponent.toNat ≤ 254 := finite
    omega
  rw [← zpow_natCast]
  exact zpow_le_zpow_right₀ one_le_two exponents

section Overflow

variable (ordered : B.magnitude ≤ A.magnitude) (finiteA : A.Finite)

include ordered finiteA

/-- Only a carry out of the largest finite exponent leaves the finite words. -/
theorem addOrdered_finite
    (within : A.exponent.toNat ≤ 253 ∨ sum A B < 2 ^ 24) :
    (addOrdered A B).Finite := by
  have upper : A.exponent.toNat ≤ 254 := finiteA
  by_cases carry : 2 ^ 24 ≤ sum A B
  · have fields := addOrdered_carry ordered carry
    rw [Word.Finite, fields.2.1]
    omega
  · rcases Nat.eq_zero_or_pos (sum A B) with zero | positive
    · rw [Word.Finite, (addOrdered_zero ordered zero).2.1]
      exact upper
    · have fields :=
        addOrdered_shift ordered positive.ne' (Nat.not_le.mp carry)
      rw [Word.Finite, fields.2.1]
      omega

/-- An operand below the normal numbers is shifted out at the top. -/
theorem normal_of_carry (sameSign : A.sign = B.sign)
    (top : A.exponent.toNat = 254) (carry : 2 ^ 24 ≤ sum A B) : B.Normal := by
  have exponents := exponent_le ordered
  have upperA := A.mantissa_upper
  have upperB := B.mantissa_upper
  refine ⟨?_, exponents.trans finiteA⟩
  by_contra below
  have apart : distance A B = 254 := by
    rw [distance]
    omega
  have shiftedOut : aligned A B = 0 := by
    rw [aligned, apart]
    exact Nat.div_eq_of_lt
      (upperB.trans (Nat.pow_lt_pow_right one_lt_two (by omega)))
  rw [sum, if_pos sameSign, shiftedOut] at carry
  omega

omit ordered finiteA in
/-- Different signs take one size from the other. -/
theorem abs_add_lt_of_different_sign {bound : ℚ}
    (differentSign : A.sign ≠ B.sign) (belowA : |A.value| < bound)
    (belowB : |B.value| < bound) : |A.value + B.value| < bound := by
  have other : B.sign = !A.sign := Bool.eq_not.mpr differentSign.symm
  have nonneg (W : Word) : (0 : ℚ) ≤ W.significand * 2 ^ W.scale :=
    mul_nonneg (Nat.cast_nonneg _) (zpow_pos two_pos _).le
  rw [value, abs_signed, abs_of_nonneg (nonneg _)] at belowA belowB
  rw [value, value, other, signed_not, ← sub_eq_add_neg, signed_sub, abs_signed]
  exact abs_sub_lt_of_nonneg_of_lt (nonneg A) belowA (nonneg B) belowB

/-- At the largest finite exponent the carry decides about the exact sum. -/
theorem abs_add_lt_of_no_carry (sameSign : A.sign = B.sign)
    (top : A.exponent.toNat = 254) (noCarry : sum A B < 2 ^ 24) :
    |A.value + B.value| < 2 ^ 128 := by
  have exponents := exponent_le ordered
  have normalA : A.Normal := ⟨by omega, finiteA⟩
  rcases Nat.eq_zero_or_pos B.exponent.toNat with tiny | positive
  · have largest : (A.mantissa.toNat : ℚ) ≤ 2 ^ 24 - 1 := by
      have below : ((A.mantissa.toNat + 1 : ℕ) : ℚ) ≤ (2 ^ 24 : ℕ) :=
        Nat.cast_le.mpr A.mantissa_upper
      push_cast at below
      linarith
    have sizeA : |A.value| ≤ (2 ^ 24 - 1) * 2 ^ (104 : ℤ) := by
      rw [normalA.abs_value, top]
      exact mul_le_mul_of_nonneg_right largest (zpow_pos two_pos _).le
    have sizeB : |B.value| < 2 ^ (-126 : ℤ) := by
      have below := B.abs_value_lt
      rw [tiny] at below
      exact below
    refine lt_of_le_of_lt (abs_add_le _ _) ?_
    refine lt_of_lt_of_le (add_lt_add_of_le_of_lt sizeA sizeB) ?_
    norm_num
  · have normalB : B.Normal := ⟨positive, exponents.trans finiteA⟩
    have overflow :=
      (le_sum_iff_le_abs ordered normalA normalB sameSign (2 ^ 24)).not.mp
        (Nat.not_le.mpr noCarry)
    rw [top] at overflow
    refine lt_of_lt_of_eq (not_le.mp overflow) ?_
    norm_num

/-- Without such a carry the exact sum stays below the overflow. -/
theorem abs_add_lt
    (within :
      A.sign ≠ B.sign ∨ A.exponent.toNat ≤ 253 ∨ sum A B < 2 ^ 24) :
    |A.value + B.value| < 2 ^ 128 := by
  have exponents := exponent_le ordered
  have finiteB : B.Finite := exponents.trans finiteA
  by_cases sameSign : A.sign = B.sign
  · by_cases small : A.exponent.toNat ≤ 253
    · have half (W : Word) (below : W.exponent.toNat ≤ 253) :
          |W.value| < 2 ^ (127 : ℤ) :=
        lt_of_lt_of_le W.abs_value_lt
          (zpow_le_zpow_right₀ one_le_two (by omega))
      have whole : (2 ^ (127 : ℤ) + 2 ^ (127 : ℤ) : ℚ) = 2 ^ 128 := by norm_num
      refine lt_of_le_of_lt (abs_add_le _ _) ?_
      rw [← whole]
      exact add_lt_add (half A small) (half B (exponents.trans small))
    · have upper : A.exponent.toNat ≤ 254 := finiteA
      have noCarry :=
        (within.resolve_left (not_not.mpr sameSign)).resolve_left small
      exact abs_add_lt_of_no_carry ordered finiteA sameSign (by omega) noCarry
  · exact abs_add_lt_of_different_sign sameSign finiteA.abs_value_lt
      finiteB.abs_value_lt

/-- The number of a sum of the same sign at the largest finite exponent. -/
theorem le_sum_iff_at_top (sameSign : A.sign = B.sign)
    (top : A.exponent.toNat = 254) (carry : 2 ^ 24 ≤ sum A B) (bound : ℕ) :
    bound ≤ sum A B ↔ (bound * 2 ^ 104 : ℚ) ≤ |A.value + B.value| := by
  have normalB := normal_of_carry ordered finiteA sameSign top carry
  have normalA : A.Normal := ⟨by omega, finiteA⟩
  rw [le_sum_iff_le_abs ordered normalA normalB sameSign, top]
  exact Iff.rfl

/-- A carry at the top gives an infinity as long as the fraction is zero. -/
theorem addOrdered_overflows_iff :
    OverflowsToInfinity A B (addOrdered A B) ↔
      |A.value + B.value| < 2 ^ 128 + 2 ^ 105 := by
  have upper : A.exponent.toNat ≤ 254 := finiteA
  by_cases within :
      A.sign ≠ B.sign ∨ A.exponent.toNat ≤ 253 ∨ sum A B < 2 ^ 24
  · have below := abs_add_lt ordered finiteA within
    have noCarry : A.exponent.toNat ≤ 253 ∨ sum A B < 2 ^ 24 := by
      rcases within with differentSign | bounded
      · exact Or.inr
          (lt_of_le_of_lt (sum_le_mantissa differentSign) A.mantissa_upper)
      · exact bounded
    exact iff_of_true
      (overflowsToInfinity_of_finite
        (addOrdered_finite ordered finiteA noCarry) below)
      (lt_trans below (by norm_num))
  · have sameSign : A.sign = B.sign :=
      not_not.mp (fun different => within (Or.inl different))
    have top : A.exponent.toNat = 254 := by omega
    have carry : 2 ^ 24 ≤ sum A B := by omega
    have sizes := le_sum_iff_at_top ordered finiteA sameSign top carry
    have fields := addOrdered_carry ordered carry
    have overflow : (2 ^ 128 : ℚ) ≤ |A.value + B.value| := by
      refine le_of_eq_of_le ?_ ((sizes (2 ^ 24)).mp carry)
      norm_num
    have ones : (addOrdered A B).exponent.toNat = 255 := by
      rw [fields.2.1, top]
      rfl
    have bound : ((2 ^ 24 + 2 : ℕ) * 2 ^ 104 : ℚ) = 2 ^ 128 + 2 ^ 105 := by
      norm_num
    rw [overflowsToInfinity_iff_fraction sameSign fields.1 ones overflow,
      fields.2.2, ← not_le, ← bound, ← sizes]
    omega

end Overflow

/-- The property of a sum does not depend on the order of its operands. -/
theorem overflowsToInfinity_comm (A B result : Word) :
    OverflowsToInfinity A B result ↔ OverflowsToInfinity B A result := by
  have operands (negative : Bool) :
      (A.sign = negative ∧ B.sign = negative ∧
          2 ^ 128 ≤ |A.value + B.value|) ↔
        (B.sign = negative ∧ A.sign = negative ∧
          2 ^ 128 ≤ |B.value + A.value|) := by
    rw [add_comm A.value, and_left_comm]
  simp only [OverflowsToInfinity, operands]

/--
For finite operands the adder returns no NaN, and the infinity of their sign
exactly at an overflow, if and only if the exact sum is less than two units in
the last place of the largest numbers above the overflow.
-/
theorem ieee754_adder_overflows_iff (A B : Word) (finiteA : A.Finite)
    (finiteB : B.Finite) :
    OverflowsToInfinity A B (ieee754_adder A B) ↔
      |A.value + B.value| < 2 ^ 128 + 2 ^ 105 := by
  have ordered := magnitude_smaller_le A B
  rw [ieee754_adder_eq]
  rcases ordered_cases A B with ⟨-, first, second⟩ | ⟨-, first, second⟩
  · rw [first, second] at ordered ⊢
    exact addOrdered_overflows_iff ordered finiteA
  · rw [first, second] at ordered ⊢
    rw [overflowsToInfinity_comm, add_comm A.value]
    exact addOrdered_overflows_iff ordered finiteB

/-- The largest number added to itself. -/
theorem ieee754_adder_overflows_iff_sample :
    OverflowsToInfinity 0x7f7fffff#32 0x7f7fffff#32
        (ieee754_adder 0x7f7fffff#32 0x7f7fffff#32) ↔
      |value 0x7f7fffff#32 + value 0x7f7fffff#32| < 2 ^ 128 + 2 ^ 105 :=
  ieee754_adder_overflows_iff 0x7f7fffff#32 0x7f7fffff#32 (by decide)
    (by decide)

/-- Twice the largest number is a NaN, and no infinity. -/
theorem overflow_gives_nan :
    Finite 0x7f7fffff#32 ∧
      ieee754_adder 0x7f7fffff#32 0x7f7fffff#32 = 0x7fffffff#32 ∧
      (2 ^ 128 : ℚ) ≤ |value 0x7f7fffff#32 + value 0x7f7fffff#32| ∧
      IsNaN (ieee754_adder 0x7f7fffff#32 0x7f7fffff#32) ∧
      ¬ OverflowsToInfinity 0x7f7fffff#32 0x7f7fffff#32
        (ieee754_adder 0x7f7fffff#32 0x7f7fffff#32) := by
  have nan : IsNaN (ieee754_adder 0x7f7fffff#32 0x7f7fffff#32) := by decide
  exact ⟨by decide, by decide, by decide +kernel, nan, fun right => right.1 nan⟩

end FederatedEdge.Fpga
