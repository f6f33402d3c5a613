import FederatedEdge.Fpga.Multiplier

/-!
# What the multiplier rounds to

The kept bits of a product are the product rounded toward zero.  With the
exponent of the result in its range the multiplier is exact up to this rounding,
and above the range it overflows as it should.  Just below the range it returns
zero, and further below, where the nine bits of the exponent wrap, an infinity.
-/

namespace FederatedEdge.Fpga

open FederatedEdge.Library
open Word

variable {A B : Word}

/-! ## What is multiplied -/

/-- The number with a leading one in the mantissa, whatever the exponent is. -/
def Word.reading (A : Word) : ℚ :=
  signed A.sign (A.mantissa.toNat * 2 ^ ((A.exponent.toNat : ℤ) - 150))

theorem Word.Normal.reading_eq (normal : A.Normal) : A.reading = A.value :=
  normal.value_eq.symm

/-- Below the normal numbers the leading one is too much. -/
theorem Word.abs_value_le_reading (A : Word) : |A.value| ≤ |A.reading| := by
  by_cases tiny : A.exponent.toNat = 0
  · have stored := A.fraction.isLt
    have small : (A.fraction.toNat * 2 : ℚ) ≤ A.mantissa.toNat := by
      rw [toNat_mantissa]
      exact_mod_cast (by omega : A.fraction.toNat * 2 ≤ 2 ^ 23 + A.fraction.toNat)
    have scale : (2 : ℚ) ^ (-149 : ℤ) = 2 * 2 ^ (-150 : ℤ) := by norm_num
    rw [value, reading, abs_signed, abs_signed, significand, Word.scale,
      if_pos tiny, if_pos tiny, tiny, scale, ← mul_assoc,
      abs_of_nonneg (by positivity), abs_of_nonneg (by positivity)]
    exact mul_le_mul_of_nonneg_right small (by positivity)
  · have same : A.value = A.reading := by
      rw [value, reading, significand, Word.scale, if_neg tiny, if_neg tiny,
        toNat_mantissa]
    rw [same]

theorem reading_mul (A B : Word) :
    A.reading * B.reading =
      signed (A.sign ^^ B.sign)
        (product A B *
          2 ^ ((A.exponent.toNat : ℤ) + B.exponent.toNat - 300)) := by
  have scale :
      (A.exponent.toNat : ℤ) + B.exponent.toNat - 300 =
        (A.exponent.toNat - 150) + (B.exponent.toNat - 150) := by
    ring
  rw [reading, reading, signed_mul, product, scale, zpow_add₀ two_ne_zero]
  push_cast
  ring_nf

theorem product_pos (A B : Word) : 0 < product A B :=
  lt_of_lt_of_le (Nat.two_pow_pos 46) (product_lower A B)

/-- The size of the product decides about the exponent of the result. -/
theorem le_abs_reading_iff (A B : Word) (bound : ℤ) :
    2 ^ bound ≤ |A.reading * B.reading| ↔ bound + 254 ≤ exponentSum A B := by
  have positive : (0 : ℚ) < |A.reading * B.reading| := by
    rw [reading_mul, abs_signed]
    exact abs_pos.mpr (scaled_pos _ (product_pos A B)).ne'
  have leading :
      Int.log 2 |A.reading * B.reading| = (exponentSum A B : ℤ) - 254 := by
    rw [reading_mul, abs_signed, log_scaled _ (product_pos A B), log_product,
      exponentSum]
    push_cast
    ring
  have two : ((2 : ℕ) : ℚ) = 2 := rfl
  rw [← two, Int.zpow_le_iff_le_log one_lt_two positive, leading]
  omega

/-! ## Products in the range -/

/-- The kept bits are those of the exact product. -/
theorem encodes_multiplier (lower : 128 ≤ exponentSum A B)
    (upper : exponentSum A B ≤ 381) :
    (ieee754_multiplier A B).Encodes
      (roundTowardZero 24 (A.reading * B.reading)) := by
  have log := log_product A B
  rw [Nat.log_eq_iff (Or.inl (by omega)),
    show 46 + carry A B = 23 + carry A B + 23 by omega] at log
  have kept : 2 ^ 23 ≤ product A B / 2 ^ (23 + carry A B) := by
    rw [Nat.le_div_iff_mul_le (Nat.two_pow_pos _), ← pow_add, add_comm]
    exact log.1
  have rounded :=
    roundTowardZero_scaled (K := ℚ)
      ((A.exponent.toNat : ℤ) + B.exponent.toNat - 300) log.1 log.2
  have encodes :=
    (multiplier_normal lower upper).encodes (by omega) (by omega)
  have scale :
      ((exponentSum A B - 127 : ℕ) : ℤ) - 150 =
        (23 + carry A B : ℕ) +
          ((A.exponent.toNat : ℤ) + B.exponent.toNat - 300) := by
    rw [exponentSum] at lower ⊢
    omega
  rw [Nat.add_sub_cancel' kept, scale] at encodes
  rw [reading_mul, roundTowardZero_signed, rounded]
  exact encodes

/--
For normal operands with a product in the range of the normal numbers the
multiplier returns the encoding, and the only one, of the exact product rounded
toward zero to 24 bits; its sign is the exclusive or of the signs.
-/
theorem ieee754_multiplier_truncates (A B : Word) (normalA : A.Normal)
    (normalB : B.Normal)
    (notTiny : (2 ^ (-126 : ℤ) : ℚ) ≤ |A.value * B.value|)
    (noOverflow : |A.value * B.value| < 2 ^ 128) :
    (ieee754_multiplier A B).Encodes (roundTowardZero 24 (A.value * B.value)) ∧
      (∀ W : Word, W.Encodes (roundTowardZero 24 (A.value * B.value)) →
        W = ieee754_multiplier A B) ∧
      (ieee754_multiplier A B).sign = (A.sign ^^ B.sign) := by
  rw [← normalA.reading_eq, ← normalB.reading_eq] at notTiny noOverflow ⊢
  have lower := (le_abs_reading_iff A B (-126)).mp notTiny
  have upper :=
    (le_abs_reading_iff A B 128).not.mp (not_le.mpr (by exact_mod_cast noOverflow))
  have encodes := encodes_multiplier (A := A) (B := B) (by omega) (by omega)
  exact ⟨encodes, fun W other => other.unique encodes,
    (multiplier_normal (by omega) (by omega)).1⟩

/-- The product 3.2 * 4.2 of the test bench. -/
theorem ieee754_multiplier_truncates_sample :
    (ieee754_multiplier 0x404ccccc#32 0x40866666#32).Encodes
        (roundTowardZero 24 (value 0x404ccccc#32 * value 0x40866666#32)) ∧
      (∀ W : Word,
        W.Encodes
            (roundTowardZero 24
              (value 0x404ccccc#32 * value 0x40866666#32)) →
          W = ieee754_multiplier 0x404ccccc#32 0x40866666#32) ∧
      (ieee754_multiplier 0x404ccccc#32 0x40866666#32).sign =
        (sign 0x404ccccc#32 ^^ sign 0x40866666#32) :=
  ieee754_multiplier_truncates 0x404ccccc#32 0x40866666#32 (by decide)
    (by decide) (by decide +kernel) (by decide +kernel)

/-! ## Products outside of the range -/

/--
The product is an infinity exactly where the exact one has no finite exponent,
and zero below the normal numbers.
-/
structure InRange (A B result : Word) : Prop where
  infinite_iff :
    (∃ negative, result.IsInfinity negative) ↔ 2 ^ 128 ≤ |A.value * B.value|
  underflow : |A.value * B.value| < 2 ^ (-126 : ℤ) → result.IsZero

theorem abs_mul_le_reading (A B : Word) :
    |A.value * B.value| ≤ |A.reading * B.reading| := by
  rw [abs_mul, abs_mul]
  exact mul_le_mul A.abs_value_le_reading B.abs_value_le_reading
    (abs_nonneg _) (abs_nonneg _)

section Fields

variable {result : Word} {negative : Bool} {exponent fraction : ℕ}
  (fields : result.HasFields negative exponent fraction)

include fields

/-- An infinity is right for an overflow only. -/
theorem inRange_infinite_iff (ones : exponent = 255) (none : fraction = 0) :
    InRange A B result ↔ 2 ^ 128 ≤ |A.value * B.value| := by
  have infinity : ∃ negative, result.IsInfinity negative :=
    ⟨negative, fields.1, fields.2.1.trans ones, fields.2.2.trans none⟩
  constructor
  · intro right
    exact right.infinite_iff.mp infinity
  · intro overflow
    refine ⟨iff_of_true infinity overflow, fun tiny => ?_⟩
    exact absurd (lt_of_le_of_lt overflow tiny) (by norm_num)

/-- A zero is right where nothing overflows. -/
theorem inRange_zero (zero : exponent = 0) (none : fraction = 0)
    (small : |A.value * B.value| < 2 ^ 128) : InRange A B result := by
  refine ⟨iff_of_false ?_ (not_le.mpr small), fun _ => ?_⟩
  · rintro ⟨_, infinity⟩
    have ones := infinity.2.1
    rw [fields.2.1, zero] at ones
    exact absurd ones (by norm_num)
  · exact ⟨fields.2.1.trans zero, fields.2.2.trans none⟩

/-- A normal number is right where nothing overflows or underflows. -/
theorem inRange_normal_iff (lower : 1 ≤ exponent) (upper : exponent ≤ 254)
    (small : |A.value * B.value| < 2 ^ 128) :
    InRange A B result ↔ 2 ^ (-126 : ℤ) ≤ |A.value * B.value| := by
  constructor
  · intro right
    by_contra tiny
    have zero := (right.underflow (not_le.mp tiny)).1
    rw [fields.2.1] at zero
    omega
  · intro above
    refine ⟨iff_of_false ?_ (not_le.mpr small), fun tiny => ?_⟩
    · rintro ⟨_, infinity⟩
      have ones := infinity.2.1
      rw [fields.2.1] at ones
      omega
    · exact absurd above (not_le.mpr tiny)

end Fields

/-- The exponents of an overflow are those of normal operands. -/
theorem normal_of_overflow (finiteA : A.Finite) (finiteB : B.Finite)
    (overflow : 382 ≤ exponentSum A B) : A.Normal ∧ B.Normal := by
  have bound := carry_le A B
  have upperA : A.exponent.toNat ≤ 254 := finiteA
  have upperB : B.exponent.toNat ≤ 254 := finiteB
  rw [exponentSum] at overflow
  exact ⟨⟨by omega, upperA⟩, ⟨by omega, upperB⟩⟩

/--
For finite operands the multiplier overflows and underflows as it should if and
only if the product with the hidden bits is at least half the smallest normal
number, and the exact product is not below the normal numbers unless the one
with the hidden bits is.  For normal operands the second part always holds, and
with zero as an operand the other one must have the exponent field of 1.0.
-/
theorem ieee754_multiplier_range_iff (A B : Word) (finiteA : A.Finite)
    (finiteB : B.Finite) :
    InRange A B (ieee754_multiplier A B) ↔
      2 ^ (-127 : ℤ) ≤ |A.reading * B.reading| ∧
        (|A.reading * B.reading| < 2 ^ (-126 : ℤ) ∨
          2 ^ (-126 : ℤ) ≤ |A.value * B.value|) := by
  have below := abs_mul_le_reading A B
  have large := le_abs_reading_iff A B (-127)
  have normal := le_abs_reading_iff A B (-126)
  have overflow := le_abs_reading_iff A B 128
  have finite (within : exponentSum A B ≤ 381) :
      |A.value * B.value| < 2 ^ 128 := by
    refine lt_of_le_of_lt below ?_
    exact_mod_cast not_le.mp (overflow.not.mpr (by omega))
  rcases Nat.lt_trichotomy (exponentSum A B) 127 with wrapped | least | above
  · have notLarge : ¬ (2 ^ (-127 : ℤ) : ℚ) ≤ |A.reading * B.reading| :=
      large.not.mpr (by omega)
    rw [inRange_infinite_iff (multiplier_infinite (by omega)) rfl rfl]
    refine iff_of_false (not_le.mpr (finite (by omega))) ?_
    exact fun right => notLarge right.1
  · have tiny : |A.reading * B.reading| < 2 ^ (-126 : ℤ) :=
      not_le.mp (normal.not.mpr (by omega))
    exact iff_of_true
      (inRange_zero (multiplier_zero least) rfl rfl (finite (by omega)))
      ⟨large.mpr (by omega), Or.inl tiny⟩
  · have notTiny : ¬ |A.reading * B.reading| < 2 ^ (-126 : ℤ) :=
      not_lt.mpr (normal.mpr (by omega))
    rw [and_iff_right (large.mpr (by omega)), or_iff_right notTiny]
    by_cases within : exponentSum A B ≤ 381
    · exact inRange_normal_iff (multiplier_normal above within) (by omega)
        (by omega) (finite within)
    · rcases normal_of_overflow finiteA finiteB (by omega)
        with ⟨normalA, normalB⟩
      rw [inRange_infinite_iff (multiplier_infinite (by omega)) rfl rfl,
        ← normalA.reading_eq, ← normalB.reading_eq]
      refine iff_of_true ?_ (normal.mpr (by omega))
      exact_mod_cast overflow.mpr (by omega)

/-- The product of 1.0 and 2.0 meets the condition. -/
theorem ieee754_multiplier_range_iff_sample :
    InRange one 0x40000000#32 (ieee754_multiplier one 0x40000000#32) ↔
      2 ^ (-127 : ℤ) ≤ |one.reading * reading 0x40000000#32| ∧
        (|one.reading * reading 0x40000000#32| < 2 ^ (-126 : ℤ) ∨
          2 ^ (-126 : ℤ) ≤ |one.value * value 0x40000000#32|) :=
  ieee754_multiplier_range_iff one 0x40000000#32 (by decide) (by decide)

/--
The square of 2^-100 is an infinity, zero times zero is one, and zero times 2.0
is the smallest normal number.
-/
theorem underflow_gives_infinity :
    ieee754_multiplier 0x0d800000#32 0x0d800000#32 = 0x7f800000#32 ∧
      |value 0x0d800000#32 * value 0x0d800000#32| < (2 ^ (-126 : ℤ) : ℚ) ∧
      ¬ InRange 0x0d800000#32 0x0d800000#32
        (ieee754_multiplier 0x0d800000#32 0x0d800000#32) ∧
      ieee754_multiplier 0 0 = 0x7f800000#32 ∧
      ¬ InRange 0 0 (ieee754_multiplier 0 0) ∧
      ieee754_multiplier 0 0x40000000#32 = 0x00800000#32 ∧
      ¬ InRange 0 0x40000000#32 (ieee754_multiplier 0 0x40000000#32) := by
  have tiny :
      |value 0x0d800000#32 * value 0x0d800000#32| < (2 ^ (-126 : ℤ) : ℚ) := by
    decide +kernel
  refine ⟨by decide, tiny, ?_, by decide, ?_, by decide, ?_⟩
  · intro right
    exact absurd (right.underflow tiny) (by decide)
  · intro right
    exact absurd (right.underflow (by decide +kernel)) (by decide)
  · intro right
    exact absurd (right.underflow (by decide +kernel)) (by decide)

end FederatedEdge.Fpga
