import FederatedEdge.Fpga.Adder

/-!
# The comparator

The exponent field and the fraction order all words of one sign as their numbers
are ordered by size, zero and the numbers without a hidden bit included.

The comparator asks for a strictly larger magnitude, and inverts the answer for
negative words.  So it is the order of the numbers where they differ, and the
answer for equal numbers is the sign of the second word.
-/

namespace FederatedEdge.Fpga

open FederatedEdge.Library
open Word

variable {A B C : Word}

/-! ## Magnitudes and sizes -/

/-- The size of the number, counted in the smallest one above zero. -/
def Word.units (A : Word) : ℕ :=
  A.significand * 2 ^ (A.exponent.toNat - 1)

theorem Word.value_eq_units (A : Word) :
    A.value = signed A.sign (A.units * 2 ^ (-149 : ℤ)) := by
  rw [value, units, Nat.cast_mul, Nat.cast_pow, Nat.cast_ofNat, mul_assoc,
    ← zpow_natCast, ← zpow_add₀ two_ne_zero, scale]
  split_ifs with subnormal
  · rw [subnormal]
    rfl
  · congr 3
    omega

theorem Word.abs_value_eq_units (A : Word) :
    |A.value| = A.units * 2 ^ (-149 : ℤ) := by
  rw [value_eq_units, abs_signed]
  exact abs_of_nonneg (mul_nonneg (Nat.cast_nonneg _) (zpow_pos two_pos _).le)

/-- A larger magnitude has the larger size. -/
theorem units_lt (order : B.magnitude < A.magnitude) : B.units < A.units := by
  have fractionA := A.fraction.isLt
  have fractionB := B.fraction.isLt
  rw [magnitude, magnitude] at order
  have exponents : B.exponent.toNat ≤ A.exponent.toNat := by omega
  rw [units, units, significand, significand]
  rcases Nat.lt_or_eq_of_le exponents with apart | same
  · have normal : A.exponent.toNat ≠ 0 := Nat.ne_zero_of_lt apart
    have below :
        (if B.exponent.toNat = 0 then B.fraction.toNat
          else 2 ^ 23 + B.fraction.toNat) * 2 ^ (B.exponent.toNat - 1) <
          2 ^ 23 * 2 ^ B.exponent.toNat := by
      split_ifs with subnormal
      · rw [subnormal]
        omega
      · rw [← Nat.two_pow_pred_mul_two (Nat.pos_of_ne_zero subnormal),
          Nat.mul_comm (2 ^ _) 2, ← Nat.mul_assoc]
        exact Nat.mul_lt_mul_of_pos_right (by omega) (Nat.two_pow_pos _)
    rw [if_neg normal]
    refine below.trans_le (Nat.mul_le_mul (Nat.le_add_right _ _) ?_)
    exact Nat.pow_le_pow_right two_pos (Nat.le_pred_of_lt apart)
  · have fractions : B.fraction.toNat < A.fraction.toNat := by omega
    rw [same]
    refine Nat.mul_lt_mul_of_pos_right ?_ (Nat.two_pow_pos _)
    split_ifs
    · exact fractions
    · exact Nat.add_lt_add_left fractions _

/-- Words are ordered by magnitude as their numbers are by size. -/
theorem magnitude_lt_iff (A B : Word) :
    B.magnitude < A.magnitude ↔ |B.value| < |A.value| := by
  have ordered {A B : Word} (order : B.magnitude < A.magnitude) :
      |B.value| < |A.value| := by
    rw [abs_value_eq_units, abs_value_eq_units,
      mul_lt_mul_iff_of_pos_right (zpow_pos two_pos _)]
    exact_mod_cast units_lt order
  refine ⟨ordered, fun sizes => ?_⟩
  rcases Nat.lt_trichotomy B.magnitude A.magnitude with less | same | greater
  · exact less
  · have exponents : B.exponent.toNat = A.exponent.toNat := by
      have fractionA := A.fraction.isLt
      have fractionB := B.fraction.isLt
      rw [magnitude, magnitude] at same
      omega
    have fractions : B.fraction.toNat = A.fraction.toNat := by
      rw [magnitude, magnitude, exponents] at same
      exact Nat.add_left_cancel same
    rw [abs_value_eq_units, abs_value_eq_units, units, units, significand,
      significand, exponents, fractions] at sizes
    exact absurd sizes (lt_irrefl _)
  · exact absurd sizes (ordered greater).not_gt

theorem magnitude_le_iff (A B : Word) :
    A.magnitude ≤ B.magnitude ↔ |A.value| ≤ |B.value| := by
  rw [← not_lt, magnitude_lt_iff, not_lt]

/-! ## The answers -/

theorem Word.value_eq_signed (A : Word) : A.value = signed A.sign |A.value| := by
  rw [abs_value_eq_units, ← value_eq_units]

theorem Word.value_of_positive (positive : A.sign = false) :
    A.value = |A.value| := by
  have value := A.value_eq_signed
  rw [positive, signed, if_neg Bool.false_ne_true] at value
  exact value

theorem Word.value_of_negative (negative : A.sign = true) :
    A.value = -|A.value| := by
  have value := A.value_eq_signed
  rw [negative, signed, if_pos rfl] at value
  exact value

theorem compare_of_same_sign (same : A.sign = B.sign) :
    ieee754_compare A B =
      (A.sign ^^ decide (B.magnitude < A.magnitude)) := by
  rw [← compare_magnitude, ieee754_compare, ieee754_compare, sign_pack,
    sign_pack, exponent_pack, exponent_pack, fraction_pack, fraction_pack, same]
  cases B.sign with
  | false => simp
  | true => by_cases exponents : A.exponent = B.exponent <;> simp [exponents]

/--
The answer is one for a larger first number, and for equal numbers if the
second word is negative.
-/
theorem ieee754_compare_iff (A B : Word) :
    ieee754_compare A B = true ↔
      B.value < A.value ∨ B.value = A.value ∧ B.sign = true := by
  have sizeA := abs_nonneg A.value
  have sizeB := abs_nonneg B.value
  cases signA : A.sign with
  | false =>
      rw [value_of_positive signA]
      cases signB : B.sign with
      | false =>
          rw [compare_of_same_sign (signA.trans signB.symm), signA,
            value_of_positive signB, ← magnitude_lt_iff]
          simp
      | true =>
          have differs : ieee754_compare A B = true := by
            simp [ieee754_compare, signA, signB]
          rw [value_of_negative signB]
          refine iff_of_true differs ?_
          rcases lt_or_eq_of_le ((neg_nonpos.mpr sizeB).trans sizeA)
            with less | same
          · exact Or.inl less
          · exact Or.inr ⟨same, rfl⟩
  | true =>
      rw [value_of_negative signA]
      cases signB : B.sign with
      | false =>
          have differs : ieee754_compare A B = false := by
            simp [ieee754_compare, signA, signB]
          rw [differs, value_of_positive signB]
          refine iff_of_false Bool.false_ne_true ?_
          rintro (less | ⟨-, impossible⟩)
          · exact absurd less (not_lt.mpr ((neg_nonpos.mpr sizeA).trans sizeB))
          · exact absurd impossible Bool.false_ne_true
      | true =>
          rw [compare_of_same_sign (signA.trans signB.symm), signA,
            value_of_negative signB, Bool.true_xor, Bool.not_eq_true',
            decide_eq_false_iff_not, magnitude_lt_iff, not_lt, neg_lt_neg_iff,
            neg_inj, le_iff_lt_or_eq]
          simp [eq_comm]

/-- The answer is `A >= B` for the encoded numbers. -/
def ComparesNumbers (A B : Word) : Prop :=
  ieee754_compare A B = true ↔ B.value ≤ A.value

theorem comparesNumbers_iff (A B : Word) :
    ComparesNumbers A B ↔ A.value ≠ B.value ∨ B.sign = true := by
  rw [ComparesNumbers, ieee754_compare_iff, le_iff_lt_or_eq, ne_comm]
  constructor
  · intro exact
    by_contra neither
    rcases not_or.mp neither with ⟨same, positive⟩
    rcases exact.mpr (Or.inr (not_not.mp same)) with less | ⟨-, negative⟩
    · exact absurd (not_not.mp same) less.ne
    · exact positive negative
  · rintro (apart | negative)
    · simp [apart]
    · simp [negative]

/-! ## The order -/

/-- The answer for a word and itself is its sign. -/
theorem compare_self_iff (A : Word) :
    ieee754_compare A A = true ↔ A.sign = true := by
  rw [ieee754_compare_iff]
  simp

/-- One of both answers is one, unless both words are the same positive one. -/
theorem compare_total_iff (A B : Word) :
    ieee754_compare A B = true ∨ ieee754_compare B A = true ↔
      A.value ≠ B.value ∨ A.sign = true ∨ B.sign = true := by
  rw [ieee754_compare_iff, ieee754_compare_iff, ne_iff_lt_or_gt]
  grind

theorem compare_trans (first : ieee754_compare A B = true)
    (second : ieee754_compare B C = true) : ieee754_compare A C = true := by
  rw [ieee754_compare_iff] at first second ⊢
  rcases second with less | ⟨same, negative⟩
  · rcases first with before | ⟨before, -⟩
    · exact Or.inl (less.trans before)
    · exact Or.inl (less.trans_eq before)
  · rcases first with before | ⟨before, -⟩
    · exact Or.inl (same.trans_lt before)
    · exact Or.inr ⟨same.trans before, negative⟩

/--
The comparator is `A >= B` exactly for different numbers and for a negative
second word.  The relation is transitive, but reflexive only at negative words,
and total except between words of one positive number.
-/
theorem ieee754_compare_orders_iff (A B C : Word) :
    (ComparesNumbers A B ↔ A.value ≠ B.value ∨ B.sign = true) ∧
      (ieee754_compare A A = true ↔ A.sign = true) ∧
      (ieee754_compare A B = true ∨ ieee754_compare B A = true ↔
        A.value ≠ B.value ∨ A.sign = true ∨ B.sign = true) ∧
      (ieee754_compare A B = true → ieee754_compare B C = true →
        ieee754_compare A C = true) :=
  ⟨comparesNumbers_iff A B, compare_self_iff A, compare_total_iff A B,
    compare_trans⟩

/-- Equal numbers, and zeros of both signs, of which the first is negative. -/
theorem equal_numbers_compare_less :
    ¬ ComparesNumbers 0x40480000#32 0x40480000#32 ∧
      ¬ ComparesNumbers 0x80000000#32 0x00000000#32 := by
  have zeros : value 0x80000000#32 = value 0x00000000#32 := by
    rw [value_eq_units, value_eq_units,
      show units 0x80000000#32 = 0 by decide,
      show units 0x00000000#32 = 0 by decide]
    norm_num [signed]
  rw [comparesNumbers_iff, comparesNumbers_iff, zeros]
  refine ⟨?_, ?_⟩ <;> rintro (differ | negative)
  · exact differ rfl
  · exact absurd negative (by decide)
  · exact differ rfl
  · exact absurd negative (by decide)

end FederatedEdge.Fpga
