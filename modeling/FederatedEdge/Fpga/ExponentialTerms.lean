import FederatedEdge.Fpga.AdderBounds
import FederatedEdge.Fpga.ExponentialSeries
import FederatedEdge.Fpga.Quotient
import Mathlib.Data.Nat.Bits
import Mathlib.Data.Nat.Factorial.Basic

/-!
# The sizes of the terms

A term is a power times the reciprocal of a factorial, which the divider always
computes alike.  As long as the powers are normal numbers, their sizes follow
the powers of the exact size within one rounding each.
-/

namespace FederatedEdge.Fpga

open FederatedEdge.Library
open Word

variable {A B : Word}

/-! ## Products with a normal result -/

theorem exponentSum_of_normal (normal : (ieee754_multiplier A B).Normal) :
    128 ≤ exponentSum A B ∧ exponentSum A B ≤ 381 := by
  rcases normal with ⟨lower, upper⟩
  rcases Nat.lt_trichotomy (exponentSum A B) 127 with wrapped | least | above
  · rw [(multiplier_infinite (Or.inl (by omega))).2.1] at upper
    omega
  · rw [(multiplier_zero least).2.1] at lower
    omega
  · refine ⟨above, ?_⟩
    by_contra outside
    rw [(multiplier_infinite (Or.inr (by omega))).2.1] at upper
    omega

section Product

variable (normalA : A.Normal) (normalB : B.Normal)

include normalA normalB

/-- The size of the exact product decides about its exponent. -/
theorem le_abs_value_iff (bound : ℤ) :
    2 ^ bound ≤ |A.value| * |B.value| ↔ bound + 254 ≤ exponentSum A B := by
  rw [← le_abs_reading_iff, normalA.reading_eq, normalB.reading_eq, abs_mul]

theorem normal_multiplier_iff :
    (ieee754_multiplier A B).Normal ↔
      (2 ^ (-126 : ℤ) : ℚ) ≤ |A.value| * |B.value| ∧
        |A.value| * |B.value| < 2 ^ (128 : ℤ) := by
  rw [← not_le, le_abs_value_iff normalA normalB,
    le_abs_value_iff normalA normalB]
  constructor
  · intro normal
    rcases exponentSum_of_normal normal with ⟨lower, upper⟩
    omega
  · intro range
    exact (encodes_multiplier (by omega) (by omega)).1

theorem abs_value_multiplier (normal : (ieee754_multiplier A B).Normal) :
    |(ieee754_multiplier A B).value| =
      roundTowardZero 24 (|A.value| * |B.value|) := by
  rcases exponentSum_of_normal normal with ⟨lower, upper⟩
  rw [(encodes_multiplier lower upper).2, normalA.reading_eq,
    normalB.reading_eq, abs_roundTowardZero, abs_mul]

end Product

/-- The fraction of a normal product depends on the fractions only. -/
theorem fraction_multiplier_congr {C D : Word} (same : A.fraction = C.fraction)
    (same' : B.fraction = D.fraction) (normal : (ieee754_multiplier A B).Normal)
    (normal' : (ieee754_multiplier C D).Normal) :
    (ieee754_multiplier A B).fraction = (ieee754_multiplier C D).fraction := by
  have products :
      FederatedEdge.Fpga.product A B = FederatedEdge.Fpga.product C D := by
    rw [FederatedEdge.Fpga.product, FederatedEdge.Fpga.product, toNat_mantissa,
      toNat_mantissa, toNat_mantissa, toNat_mantissa, same, same']
  have left := exponentSum_of_normal normal
  have right := exponentSum_of_normal normal'
  apply BitVec.eq_of_toNat_eq
  rw [(multiplier_normal left.1 left.2).2.2,
    (multiplier_normal right.1 right.2).2.2, carry, carry, products]

theorem sign_multiplier (A B : Word) :
    (ieee754_multiplier A B).sign = (A.sign ^^ B.sign) := by
  rw [ieee754_multiplier_eq]
  exact sign_pack _ _ _

namespace NaturalExponential

/-! ## Powers -/

/-- The powers up to the eleventh are normal numbers. -/
def Ordinary (A : Word) : Prop :=
  ∀ k, 1 ≤ k → k ≤ 11 → (power A k).Normal

def size (A : Word) (k : ℕ) : ℚ :=
  |(power A k).value|

theorem normal_one : one.Normal := by
  decide

theorem abs_value_one : |one.value| = 1 := by
  have mantissa : one.mantissa.toNat = 2 ^ 23 := by decide
  have exponent : one.exponent.toNat = 127 := by decide
  rw [normal_one.abs_value, mantissa, exponent]
  norm_num

theorem value_one : one.value = 1 := by
  rw [value_of_positive (A := one) (by decide), abs_value_one]

theorem size_zero (A : Word) : size A 0 = 1 :=
  abs_value_one

section Ordinary

variable {k : ℕ} (ordinary : Ordinary A)

include ordinary

theorem Ordinary.normal_power (few : k ≤ 11) : (power A k).Normal := by
  rcases Nat.eq_zero_or_pos k with rfl | positive
  · exact normal_one
  · exact ordinary k positive few

theorem Ordinary.normal : A.Normal := by
  have bounds := exponentSum_of_normal (ordinary 1 le_rfl (by omega))
  have product : FederatedEdge.Fpga.product A one < 2 ^ 47 := by
    rw [FederatedEdge.Fpga.product, show one.mantissa.toNat = 2 ^ 23 by decide]
    have upper := A.mantissa_upper
    omega
  rw [power, exponentSum, carry, if_neg (Nat.not_le.mpr product),
    show one.exponent.toNat = 127 by decide] at bounds
  exact ⟨by omega, by omega⟩

theorem Ordinary.size_pos (few : k ≤ 11) : 0 < size A k :=
  (ordinary.normal_power few).abs_value_pos

theorem Ordinary.size_succ (few : k ≤ 10) :
    size A (k + 1) = roundTowardZero 24 (|A.value| * size A k) :=
  abs_value_multiplier ordinary.normal (ordinary.normal_power (by omega))
    (ordinary (k + 1) (by omega) (by omega))

theorem Ordinary.product_pos (few : k ≤ 11) : 0 < |A.value| * size A k :=
  mul_pos ordinary.normal.abs_value_pos (ordinary.size_pos few)

theorem Ordinary.size_succ_le (few : k ≤ 10) :
    size A (k + 1) ≤ |A.value| * size A k := by
  rw [ordinary.size_succ few]
  exact roundTowardZero_le (ordinary.product_pos (by omega)) 24

theorem Ordinary.le_size_succ (few : k ≤ 10) :
    |A.value| * size A k * (1 - 2 ^ (-23 : ℤ)) ≤ size A (k + 1) := by
  rw [ordinary.size_succ few]
  exact le_roundTowardZero (ordinary.product_pos (by omega)) 23

/-- Larger operands have larger powers. -/
theorem Ordinary.size_mono (other : Ordinary B) (order : |A.value| ≤ |B.value|)
    (few : k ≤ 11) : size A k ≤ size B k := by
  induction k with
  | zero => rw [size_zero, size_zero]
  | succ k inductionHypothesis =>
      have before := inductionHypothesis (by omega)
      rw [ordinary.size_succ (by omega), other.size_succ (by omega)]
      apply roundTowardZero_mono (ordinary.product_pos (by omega))
      exact mul_le_mul order before (abs_nonneg _) (abs_nonneg _)

theorem Ordinary.size_le_pow (few : k ≤ 11) : size A k ≤ |A.value| ^ k := by
  induction k with
  | zero => rw [size_zero, pow_zero]
  | succ k inductionHypothesis =>
      have before := inductionHypothesis (by omega)
      rw [pow_succ']
      exact (ordinary.size_succ_le (by omega)).trans
        (mul_le_mul_of_nonneg_left before (abs_nonneg _))

theorem Ordinary.pow_le_size (few : k ≤ 11) :
    (|A.value| * (1 - 2 ^ (-23 : ℤ))) ^ k ≤ size A k := by
  induction k with
  | zero => rw [size_zero, pow_zero]
  | succ k inductionHypothesis =>
      have before := inductionHypothesis (by omega)
      have factor : 0 ≤ |A.value| * (1 - 2 ^ (-23 : ℤ)) :=
        mul_nonneg (abs_nonneg _) (by norm_num)
      calc
        (|A.value| * (1 - 2 ^ (-23 : ℤ))) ^ (k + 1) =
            |A.value| * (1 - 2 ^ (-23 : ℤ)) *
              (|A.value| * (1 - 2 ^ (-23 : ℤ))) ^ k :=
          pow_succ' _ k
        _ ≤ |A.value| * (1 - 2 ^ (-23 : ℤ)) * size A k :=
          mul_le_mul_of_nonneg_left before factor
        _ = |A.value| * size A k * (1 - 2 ^ (-23 : ℤ)) := by ring
        _ ≤ size A (k + 1) := ordinary.le_size_succ (by omega)

theorem Ordinary.one_le_size (large : 1 ≤ |A.value|) (few : k ≤ 11) :
    1 ≤ size A k := by
  induction k with
  | zero => rw [size_zero]
  | succ k inductionHypothesis =>
      have before := inductionHypothesis (by omega)
      rw [ordinary.size_succ (by omega)]
      apply one_le_roundTowardZero
      exact one_le_mul_of_one_le_of_one_le large before

theorem Ordinary.size_antitone (small : |A.value| ≤ 1) {n : ℕ} (later : k ≤ n)
    (few : n ≤ 11) : size A n ≤ size A k := by
  induction n, later using Nat.le_induction with
  | base => exact le_rfl
  | succ n later inductionHypothesis =>
      refine le_trans ?_ (inductionHypothesis (by omega))
      refine (ordinary.size_succ_le (by omega)).trans ?_
      exact mul_le_of_le_one_left (abs_nonneg _) small

/-- The ninth power of a moderately small number is not tiny. -/
theorem Ordinary.le_size_nine_of_moderate
    (moderate : 2 ^ (-10 : ℤ) ≤ |A.value|) : 2 ^ (-106 : ℤ) ≤ size A 9 := by
  have factor :
      (2 ^ (-11 : ℤ) : ℚ) ≤ |A.value| * (1 - 2 ^ (-23 : ℤ)) := by
    calc
      (2 ^ (-11 : ℤ) : ℚ) ≤ 2 ^ (-10 : ℤ) * (1 - 2 ^ (-23 : ℤ)) := by norm_num
      _ ≤ |A.value| * (1 - 2 ^ (-23 : ℤ)) :=
        mul_le_mul_of_nonneg_right moderate (by norm_num)
  calc
    (2 ^ (-106 : ℤ) : ℚ) ≤ (2 ^ (-11 : ℤ)) ^ 9 := by norm_num
    _ ≤ (|A.value| * (1 - 2 ^ (-23 : ℤ))) ^ 9 :=
      pow_le_pow_left₀ (by norm_num) factor 9
    _ ≤ size A 9 := ordinary.pow_le_size (by omega)

/-- Nor is the one of a smaller number, as its eleventh power is normal. -/
theorem Ordinary.le_size_nine_of_small (small : |A.value| ≤ 2 ^ (-10 : ℤ)) :
    2 ^ (-106 : ℤ) ≤ size A 9 := by
  have last : 2 ^ (-126 : ℤ) ≤ size A 11 := by
    have normal := ordinary 11 (by omega) le_rfl
    have lower := normal.1
    rw [size, normal.zpow_le_abs_value_iff]
    omega
  have nonneg : 0 ≤ size A 9 := abs_nonneg _
  have twice : size A 11 ≤ 2 ^ (-20 : ℤ) * size A 9 := by
    calc
      size A 11 ≤ |A.value| * size A 10 := ordinary.size_succ_le (by omega)
      _ ≤ |A.value| * (|A.value| * size A 9) :=
        mul_le_mul_of_nonneg_left (ordinary.size_succ_le (by omega))
          (abs_nonneg _)
      _ ≤ 2 ^ (-10 : ℤ) * (2 ^ (-10 : ℤ) * size A 9) :=
        mul_le_mul small (mul_le_mul_of_nonneg_right small nonneg)
          (mul_nonneg (abs_nonneg _) nonneg) (by norm_num)
      _ = 2 ^ (-20 : ℤ) * size A 9 := by
        rw [← mul_assoc]
        norm_num
  have scale : (2 ^ (-126 : ℤ) : ℚ) = 2 ^ (-20 : ℤ) * 2 ^ (-106 : ℤ) := by
    norm_num
  rw [scale] at last
  exact le_of_mul_le_mul_left (last.trans twice) (zpow_pos two_pos _)

theorem Ordinary.le_size (few : k ≤ 9) : 2 ^ (-106 : ℤ) ≤ size A k := by
  rcases le_total 1 |A.value| with large | small
  · exact le_trans (by norm_num) (ordinary.one_le_size large (by omega))
  · refine le_trans ?_ (ordinary.size_antitone small few (by omega))
    rcases le_total (2 ^ (-10 : ℤ)) |A.value| with moderate | tiny
    · exact ordinary.le_size_nine_of_moderate moderate
    · exact ordinary.le_size_nine_of_small tiny

end Ordinary

/-- Powers of moderate numbers are normal. -/
theorem ordinary_of_moderate (normal : A.Normal) (large : 1 ≤ |A.value|)
    (small : |A.value| ≤ 2 ^ 5) : Ordinary A := by
  have moderate (k : ℕ) (few : k ≤ 11) :
      (power A k).Normal ∧ 1 ≤ size A k ∧ size A k ≤ (2 ^ 5) ^ k := by
    induction k with
    | zero => exact ⟨normal_one, (size_zero A).ge, (size_zero A).le⟩
    | succ k inductionHypothesis =>
        rcases inductionHypothesis (by omega) with ⟨normalPower, lower, upper⟩
        have least : 1 ≤ |A.value| * size A k :=
          one_le_mul_of_one_le_of_one_le large lower
        have most : |A.value| * size A k ≤ (2 ^ 5) ^ (k + 1) := by
          rw [pow_succ']
          exact mul_le_mul small upper (abs_nonneg _) (by norm_num)
        have bound : ((2 : ℚ) ^ 5) ^ (k + 1) < 2 ^ (128 : ℤ) := by
          rw [← pow_mul]
          exact_mod_cast Nat.pow_lt_pow_right one_lt_two (by omega)
        have next : (power A (k + 1)).Normal := by
          rw [power, normal_multiplier_iff normal normalPower]
          exact ⟨le_trans (by norm_num) least, most.trans_lt bound⟩
        have rounded :
            size A (k + 1) = roundTowardZero 24 (|A.value| * size A k) :=
          abs_value_multiplier normal normalPower next
        refine ⟨next, ?_, ?_⟩
        · rw [rounded]
          exact one_le_roundTowardZero least 23
        · rw [rounded]
          exact (roundTowardZero_le (zero_lt_one.trans_le least) 24).trans most
  exact fun k _ few => (moderate k few).1

/-! ## Terms -/

/-- The reciprocal of a factorial, as the divider computes it. -/
def coefficient (k : ℕ) : Word :=
  Divider.reciprocal (factorial k) (Divider.approximation (factorial k) 4)

theorem term_eq (A : Word) (k : ℕ) :
    term A k = ieee754_multiplier (power A k) (coefficient k) :=
  Divider.quotient_eq 3 _ _

/-- What the divider settles at. -/
def settledCoefficient : ℕ → Word
  | 1 => 0x3f800001#32
  | 2 => 0x3f000001#32
  | 3 => 0x3e2aaaac#32
  | 4 => 0x3d2aaaac#32
  | 5 => 0x3c08888a#32
  | 6 => 0x3ab60b63#32
  | 7 => 0x39500d01#32
  | 8 => 0x37d00d01#32
  | 9 => 0x3638ef1f#32
  | 10 => 0x3493f27f#32
  | _ => 0x32d7322e#32

theorem coefficient_eq :
    ∀ k < 12, 1 ≤ k → coefficient k = settledCoefficient k := by
  decide +kernel

theorem lastTerm_eq (A : Word) :
    term A 11 = ieee754_multiplier (power A 11) 0x32d7322e#32 := by
  rw [term_eq, coefficient_eq 11 (by omega) (by omega)]
  rfl

/-- The number of a reciprocal. -/
def weight (k : ℕ) : ℚ :=
  |(settledCoefficient k).value|

theorem settledCoefficient_spec :
    ∀ k < 12, 1 ≤ k →
      ((settledCoefficient k).sign = false ∧
          101 ≤ (settledCoefficient k).exponent.toNat ∧
          (settledCoefficient k).exponent.toNat ≤ 127) ∧
        (2 ^ (-26 : ℤ) ≤ weight k ∧ (k ≤ 9 → 2 ^ (-19 : ℤ) ≤ weight k) ∧
          weight k ≤ 2) ∧
        1 - 1 / 2 ^ 20 ≤ weight k * k.factorial ∧
        weight k * k.factorial ≤ 1 + 1 / 2 ^ 20 := by
  decide +kernel

section Term

variable {k : ℕ} (least : 1 ≤ k) (few : k ≤ 11)

include least few

theorem coefficient_spec :
    (coefficient k).sign = false ∧ 101 ≤ (coefficient k).exponent.toNat ∧
      (coefficient k).exponent.toNat ≤ 127 := by
  rw [coefficient_eq k (by omega) least]
  exact (settledCoefficient_spec k (by omega) least).1

theorem weight_bounds :
    2 ^ (-26 : ℤ) ≤ weight k ∧ (k ≤ 9 → 2 ^ (-19 : ℤ) ≤ weight k) ∧
      weight k ≤ 2 :=
  (settledCoefficient_spec k (by omega) least).2.1

theorem weight_near :
    1 - 1 / 2 ^ 20 ≤ weight k * k.factorial ∧
      weight k * k.factorial ≤ 1 + 1 / 2 ^ 20 :=
  (settledCoefficient_spec k (by omega) least).2.2

theorem normal_coefficient : (coefficient k).Normal := by
  rcases coefficient_spec least few with ⟨-, lower, upper⟩
  exact ⟨by omega, by omega⟩

theorem abs_value_coefficient : |(coefficient k).value| = weight k := by
  rw [coefficient_eq k (by omega) least]
  rfl

theorem weight_pos : 0 < weight k := by
  rw [← abs_value_coefficient least few]
  exact (normal_coefficient least few).abs_value_pos

section Ordinary

variable (ordinary : Ordinary A)

include ordinary

theorem Ordinary.normal_term_iff :
    (term A k).Normal ↔
      (2 ^ (-126 : ℤ) : ℚ) ≤ size A k * weight k ∧
        size A k * weight k < 2 ^ (128 : ℤ) := by
  rw [term_eq, ← abs_value_coefficient least few]
  exact normal_multiplier_iff (ordinary.normal_power few)
    (normal_coefficient least few)

theorem Ordinary.abs_value_term (normal : (term A k).Normal) :
    |(term A k).value| = roundTowardZero 24 (size A k * weight k) := by
  rw [term_eq] at normal ⊢
  rw [← abs_value_coefficient least few]
  exact abs_value_multiplier (ordinary.normal_power few)
    (normal_coefficient least few) normal

theorem Ordinary.weighted_pos : 0 < size A k * weight k :=
  mul_pos (ordinary.size_pos few) (weight_pos least few)

theorem Ordinary.abs_value_term_le (normal : (term A k).Normal) :
    |(term A k).value| ≤ size A k * weight k := by
  rw [ordinary.abs_value_term least few normal]
  exact roundTowardZero_le (ordinary.weighted_pos least few) 24

theorem Ordinary.le_abs_value_term (normal : (term A k).Normal) :
    size A k * weight k * (1 - 2 ^ (-23 : ℤ)) ≤ |(term A k).value| := by
  rw [ordinary.abs_value_term least few normal]
  exact le_roundTowardZero (ordinary.weighted_pos least few) 23

/-- Larger operands have larger terms. -/
theorem Ordinary.magnitude_term_le (other : Ordinary B)
    (normal : (term A k).Normal) (normal' : (term B k).Normal)
    (order : A.magnitude ≤ B.magnitude) :
    (term A k).magnitude ≤ (term B k).magnitude := by
  rw [magnitude_le_iff] at order
  rw [magnitude_le_iff, ordinary.abs_value_term least few normal,
    other.abs_value_term least few normal']
  apply roundTowardZero_mono (ordinary.weighted_pos least few)
  exact mul_le_mul_of_nonneg_right (ordinary.size_mono other order few)
    (weight_pos least few).le

/-- The fractions of the terms depend on the fraction of the operand only. -/
theorem Ordinary.fraction_term_eq (other : Ordinary B)
    (normal : (term A k).Normal) (normal' : (term B k).Normal)
    (same : A.fraction = B.fraction) :
    (term A k).fraction = (term B k).fraction := by
  have powers : ∀ j ≤ k, (power A j).fraction = (power B j).fraction := by
    intro j fewer
    induction j with
    | zero => rfl
    | succ j inductionHypothesis =>
        exact fraction_multiplier_congr same (inductionHypothesis (by omega))
          (ordinary (j + 1) (by omega) (by omega))
          (other (j + 1) (by omega) (by omega))
  rw [term_eq] at normal normal' ⊢
  rw [term_eq]
  exact fraction_multiplier_congr (powers k le_rfl) rfl normal normal'

/-- The terms before the last two are normal for operands up to two. -/
theorem Ordinary.normal_term_of_le_two (below : |A.value| ≤ 2) (fewer : k ≤ 9) :
    (term A k).Normal := by
  rcases weight_bounds least few with ⟨-, lower, upper⟩
  rw [ordinary.normal_term_iff least few]
  have scale : (2 ^ (-126 : ℤ) : ℚ) ≤ 2 ^ (-106 : ℤ) * 2 ^ (-19 : ℤ) := by
    norm_num
  refine ⟨scale.trans ?_, ?_⟩
  · exact mul_le_mul (ordinary.le_size fewer) (lower fewer) (by norm_num)
      (abs_nonneg _)
  · have power : size A k ≤ 2 ^ 9 := by
      calc
        size A k ≤ |A.value| ^ k := ordinary.size_le_pow few
        _ ≤ 2 ^ k := pow_le_pow_left₀ (abs_nonneg _) below k
        _ ≤ 2 ^ 9 := pow_le_pow_right₀ one_le_two fewer
    calc
      size A k * weight k ≤ 2 ^ 9 * 2 :=
        mul_le_mul power upper (abs_nonneg _) (by norm_num)
      _ < 2 ^ (128 : ℤ) := by norm_num

end Ordinary

theorem sign_term : (term A k).sign = (power A k).sign := by
  rw [term_eq, sign_multiplier, (coefficient_spec least few).1,
    Bool.xor_false]

end Term

/-- The odd powers have the sign of the operand. -/
theorem sign_power (A : Word) (k : ℕ) :
    (power A k).sign = (A.sign && k.bodd) := by
  induction k with
  | zero =>
      rw [Nat.bodd_zero, Bool.and_false, power]
      decide
  | succ k inductionHypothesis =>
      rw [power, sign_multiplier, inductionHypothesis, Nat.bodd_succ]
      cases A.sign <;> cases k.bodd <;> rfl

end NaturalExponential

end FederatedEdge.Fpga
