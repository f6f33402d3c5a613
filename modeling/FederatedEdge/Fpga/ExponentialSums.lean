import FederatedEdge.Fpga.ExponentialTerms
import Mathlib.Tactic.NormNum.NatFactorial

/-!
# The sizes of the partial sums

The powers of a number which is no smaller than the operand bound the terms, and
their sums the partial sums.  From a partial sum which is large enough the later
ones differ by the bounds of the terms in between.
-/

namespace FederatedEdge.Fpga.NaturalExponential

open Word

variable {A : Word} {S x : ℚ} {k m n : ℕ}

/-- The sum of the first terms with `x` for the operand and exact powers. -/
def majorant (x : ℚ) : ℕ → ℚ
  | 0 => 1
  | k + 1 => majorant x k + x ^ (k + 1) * weight (k + 1)

theorem majorant_succ (x : ℚ) (k : ℕ) :
    majorant x (k + 1) = majorant x k + x ^ (k + 1) * weight (k + 1) :=
  rfl

theorem majorant_mono (notNegative : 0 ≤ x) (fewer : k ≤ n) :
    majorant x k ≤ majorant x n := by
  refine monotone_nat_of_le_succ (fun j => ?_) fewer
  rw [majorant_succ]
  exact le_add_of_nonneg_right
    (mul_nonneg (pow_nonneg notNegative _) (abs_nonneg _))

theorem majorant_pos (notNegative : 0 ≤ x) (k : ℕ) : 0 < majorant x k :=
  zero_lt_one.trans_le (majorant_mono notNegative (Nat.zero_le k))

/-- The exact partial sum of the exponential series. -/
def partialSum (x : ℚ) : ℕ → ℚ
  | 0 => 1
  | k + 1 => partialSum x k + x ^ (k + 1) / (k + 1).factorial

/-- The reciprocals are near the exact ones, and so are the bounds. -/
theorem majorant_sub_le (notNegative : 0 ≤ x) (later : m ≤ n) (few : n ≤ 11) :
    majorant x n - majorant x m ≤
      (1 + 1 / 2 ^ 20) * (partialSum x n - partialSum x m) := by
  induction n, later using Nat.le_induction with
  | base => rw [sub_self, sub_self, mul_zero]
  | succ n later inductionHypothesis =>
      have before := inductionHypothesis (by omega)
      have near := (weight_near (by omega : 1 ≤ n + 1) few).2
      have positive : (0 : ℚ) < (n + 1).factorial := by
        exact_mod_cast (n + 1).factorial_pos
      have next :
          x ^ (n + 1) * weight (n + 1) ≤
            (1 + 1 / 2 ^ 20) * (x ^ (n + 1) / (n + 1).factorial) := by
        rw [← mul_div_assoc, le_div_iff₀ positive, mul_assoc, mul_comm]
        exact mul_le_mul_of_nonneg_right near (pow_nonneg notNegative _)
      rw [majorant_succ, partialSum]
      linarith

theorem majorant_le (notNegative : 0 ≤ x) (few : n ≤ 11) :
    majorant x n ≤ (1 + 1 / 2 ^ 20) * partialSum x n := by
  have bound := majorant_sub_le notNegative (Nat.zero_le n) few
  rw [majorant, partialSum] at bound
  linarith

/-! ## Bounds for the terms -/

/-- The powers grow no faster than those of `x`, up to a factor. -/
def Dominated (A : Word) (S x : ℚ) : Prop :=
  ∀ k ≤ 11, size A k ≤ S * x ^ k

theorem Dominated.one_le (dominated : Dominated A S x) : 1 ≤ S := by
  have start := dominated 0 (Nat.zero_le _)
  rw [size_zero, pow_zero, mul_one] at start
  exact start

theorem Dominated.weighted_le (dominated : Dominated A S x) (few : k < 11) :
    size A (k + 1) * weight (k + 1) ≤
      S * majorant x (k + 1) - S * majorant x k := by
  rw [← mul_sub, majorant_succ, add_sub_cancel_left, ← mul_assoc]
  exact mul_le_mul_of_nonneg_right (dominated _ few) (abs_nonneg _)

/-- The exact powers of a number which is no smaller. -/
theorem Ordinary.dominated (ordinary : Ordinary A) (below : |A.value| ≤ x) :
    Dominated A 1 x := by
  intro k few
  rw [one_mul]
  exact (ordinary.size_le_pow few).trans (pow_le_pow_left₀ (abs_nonneg _) below k)

theorem Ordinary.abs_value_term_between (ordinary : Ordinary A)
    (dominated : Dominated A S x) (few : k < 11)
    (normal : (term A (k + 1)).Normal) :
    |(term A (k + 1)).value| ≤ S * majorant x (k + 1) - S * majorant x k :=
  (ordinary.abs_value_term_le (by omega) few normal).trans
    (dominated.weighted_le few)

/-! ## Operands from one on -/

/-- A word from one to two. -/
def fromOne (fraction : BitVec 23) : Word :=
  .pack false 127 fraction

theorem normal_fromOne (fraction : BitVec 23) :
    (fromOne fraction).Normal ∧ 1 ≤ |(fromOne fraction).value| ∧
      |(fromOne fraction).value| < 2 := by
  have exponent : (fromOne fraction).exponent.toNat = 127 := by
    rw [fromOne, exponent_pack]
    rfl
  have normal : (fromOne fraction).Normal := ⟨by omega, by omega⟩
  have least := normal.zpow_le_abs_value_iff 0
  have most := normal.zpow_le_abs_value_iff 1
  rw [zpow_zero] at least
  rw [zpow_one] at most
  exact ⟨normal, least.mpr (by omega), not_le.mp (most.not.mpr (by omega))⟩

theorem ordinary_fromOne (fraction : BitVec 23) : Ordinary (fromOne fraction) := by
  rcases normal_fromOne fraction with ⟨normal, least, most⟩
  exact ordinary_of_moderate normal least (most.le.trans (by norm_num))

/-- The last term of an operand from one on is normal. -/
theorem Ordinary.normal_lastTerm (ordinary : Ordinary A)
    (large : 1 ≤ |A.value|) : (term A 11).Normal := by
  rcases weight_bounds (by omega : 1 ≤ 11) le_rfl with ⟨lower, -, -⟩
  have normal := ordinary 11 (by omega) le_rfl
  have upper : size A 11 < 2 ^ 128 := Word.Finite.abs_value_lt normal.2
  rw [ordinary.normal_term_iff (by omega) le_rfl]
  refine ⟨?_, ?_⟩
  · calc
      (2 ^ (-126 : ℤ) : ℚ) ≤ 1 * 2 ^ (-26 : ℤ) := by norm_num
      _ ≤ size A 11 * weight 11 :=
        mul_le_mul (ordinary.one_le_size large le_rfl) lower (by norm_num)
          (abs_nonneg _)
  · have near := (weight_near (by omega : 1 ≤ 11) le_rfl).2
    norm_num at near
    exact (mul_le_of_le_one_right (abs_nonneg _) (by linarith)).trans_lt
      (upper.trans_eq (by norm_num))

/-- A magnitude bounds the last term by the one of another word. -/
theorem Ordinary.magnitude_lastTerm_le (ordinary : Ordinary A)
    (large : 1 ≤ |A.value|) (fraction : BitVec 23)
    (order : A.magnitude ≤ (fromOne fraction).magnitude) :
    (term A 11).magnitude ≤ (term (fromOne fraction) 11).magnitude := by
  have other := ordinary_fromOne fraction
  have otherLarge := (normal_fromOne fraction).2.1
  exact ordinary.magnitude_term_le (by omega) le_rfl other
    (ordinary.normal_lastTerm large) (other.normal_lastTerm otherLarge) order

theorem Ordinary.le_magnitude_lastTerm (ordinary : Ordinary A)
    (large : 1 ≤ |A.value|) (fraction : BitVec 23)
    (order : (fromOne fraction).magnitude ≤ A.magnitude) :
    (term (fromOne fraction) 11).magnitude ≤ (term A 11).magnitude := by
  have other := ordinary_fromOne fraction
  have otherLarge := (normal_fromOne fraction).2.1
  exact other.magnitude_term_le (by omega) le_rfl ordinary
    (other.normal_lastTerm otherLarge) (ordinary.normal_lastTerm large) order

section Large

variable (ordinary : Ordinary A) (large : 1 ≤ |A.value|)
  (dominated : Dominated A S x) (notNegative : 0 ≤ x)
  (small : S * majorant x 11 < 2 ^ 126)

include ordinary large dominated notNegative small

omit ordinary large in
theorem Dominated.majorant_lt (few : k ≤ 11) : S * majorant x k < 2 ^ 126 := by
  refine lt_of_le_of_lt ?_ small
  exact mul_le_mul_of_nonneg_left (majorant_mono notNegative few)
    (zero_le_one.trans dominated.one_le)

/-- The terms are normal, and far from both ends of the exponents. -/
theorem Ordinary.inner_term (few : k < 11) : Inner (term A (k + 1)) := by
  have weights := (weight_bounds (by omega : 1 ≤ k + 1) (by omega)).1
  have sizes := ordinary.one_le_size (k := k + 1) large (by omega)
  have lower : 2 ^ (-26 : ℤ) ≤ size A (k + 1) * weight (k + 1) :=
    weights.trans (le_mul_of_one_le_left (abs_nonneg _) sizes)
  have upper : size A (k + 1) * weight (k + 1) < 2 ^ 126 := by
    have bound := dominated.weighted_le few
    have next := dominated.majorant_lt notNegative small (k := k + 1) (by omega)
    have positive : 0 ≤ S * majorant x k :=
      mul_nonneg (zero_le_one.trans dominated.one_le)
        (majorant_pos notNegative k).le
    linarith
  have normal : (term A (k + 1)).Normal := by
    rw [ordinary.normal_term_iff (by omega) (by omega)]
    refine ⟨le_trans (by norm_num) lower, upper.trans (by norm_num)⟩
  have least := ordinary.le_abs_value_term (by omega) (by omega) normal
  have most := ordinary.abs_value_term_le (by omega) (by omega) normal
  constructor
  · have leading := (normal.zpow_le_abs_value_iff (-27)).mp ?_
    · omega
    · refine le_trans ?_ least
      have half : (1 / 2 : ℚ) ≤ 1 - 2 ^ (-23 : ℤ) := by norm_num
      calc
        (2 ^ (-27 : ℤ) : ℚ) = 2 ^ (-26 : ℤ) * (1 / 2) := by norm_num
        _ ≤ size A (k + 1) * weight (k + 1) * (1 - 2 ^ (-23 : ℤ)) :=
          mul_le_mul lower half (by norm_num) (le_trans (by norm_num) lower)
  · have bound := normal.exponent_le_of_lt 126 (most.trans_lt upper)
    omega

theorem Ordinary.taylorSum_large (few : k ≤ 11) :
    (taylorSum A k).Normal ∧ |(taylorSum A k).value| ≤ S * majorant x k := by
  induction k with
  | zero =>
      refine ⟨normal_one, ?_⟩
      rw [taylorSum, abs_value_one, majorant, mul_one]
      exact dominated.one_le
  | succ k inductionHypothesis =>
      rcases inductionHypothesis (by omega) with ⟨normal, bound⟩
      have inner := ordinary.inner_term large dominated notNegative small few
      have next :=
        ordinary.abs_value_term_between dominated few inner.normal
      have upper := normal.exponent_le_of_lt 126
        (bound.trans_lt (dominated.majorant_lt notNegative small (by omega)))
      have larger :=
        inner_larger (A := term A (k + 1)) (B := taylorSum A k)
          (Or.inl inner.lower) inner.upper (by omega)
      refine ⟨(ieee754_adder_near larger inner.normal normal).1, ?_⟩
      have total := abs_adder_le larger inner.normal normal
      rw [taylorSum]
      linarith

end Large

/-- The last fraction for which the last term has an exponent below `e`. -/
def boundary : ℕ → BitVec 23
  | 102 => 0x020953
  | 103 => 0x0a7e80
  | 104 => 0x138080
  | 105 => 0x1d187c
  | 106 => 0x275035
  | 107 => 0x32320f
  | 108 => 0x3dc91c
  | 109 => 0x4a2123
  | 110 => 0x5746b3
  | 111 => 0x654729
  | _ => 0x7430c1

/-- One fraction of them gives a power of two. -/
theorem boundary_spec :
    ∀ e < 113, 102 ≤ e →
      (term (fromOne (boundary e)) 11).magnitude < e * 2 ^ 23 ∧
        (if e = 107 then
          e * 2 ^ 23 = (term (fromOne (boundary e + 1)) 11).magnitude ∧
            e * 2 ^ 23 < (term (fromOne (boundary e + 2)) 11).magnitude
        else e * 2 ^ 23 < (term (fromOne (boundary e + 1)) 11).magnitude) := by
  simp only [lastTerm_eq]
  decide +kernel

/-- The numbers on both sides of the first boundary. -/
theorem abs_value_boundary :
    |(fromOne (boundary 102)).value| ≤ 127 / 125 ∧
      10159 / 10000 ≤ |(fromOne (boundary 102 + 1)).value| := by
  have below :=
    encodes_of_fields (A := fromOne (boundary 102)) (by decide)
      (by decide : _ = 8522067) (by decide : _ = 127) (by decide)
  have above :=
    encodes_of_fields (A := fromOne (boundary 102 + 1)) (by decide)
      (by decide : _ = 8522068) (by decide : _ = 127) (by decide)
  rw [below.2, above.2]
  constructor <;> norm_num [abs_le, le_abs]

theorem magnitude_fromOne (fraction : BitVec 23) :
    (fromOne fraction).magnitude = 127 * 2 ^ 23 + fraction.toNat := by
  rw [fromOne, magnitude, exponent_pack, fraction_pack]
  rfl

theorem toNat_boundary :
    ∀ e < 113, 102 ≤ e →
      (boundary e + 1).toNat = (boundary e).toNat + 1 ∧
        (boundary e + 2).toNat = (boundary e).toNat + 2 := by
  decide

section Boundary

variable {e : ℕ} (ordinary : Ordinary A) (large : 1 ≤ |A.value|)
  (lower : 102 ≤ e) (upper : e < 113)

include ordinary large lower upper

theorem Ordinary.exponent_lastTerm_lt
    (order : A.magnitude ≤ 127 * 2 ^ 23 + (boundary e).toNat) :
    (term A 11).exponent.toNat < e := by
  rw [← magnitude_fromOne] at order
  have bound := ordinary.magnitude_lastTerm_le large _ order
  have row := (boundary_spec e upper lower).1
  rw [magnitude] at bound
  omega

theorem Ordinary.le_exponent_lastTerm
    (order : 127 * 2 ^ 23 + (boundary e).toNat < A.magnitude) :
    e ≤ (term A 11).exponent.toNat := by
  have next := (toNat_boundary e upper lower).1
  have fraction := (term A 11).fraction.isLt
  have bound :=
    ordinary.le_magnitude_lastTerm large (boundary e + 1)
      (by rw [magnitude_fromOne]; omega)
  have row := (boundary_spec e upper lower).2
  rw [magnitude.eq_def (term A 11)] at bound
  split_ifs at row with exact
  · omega
  · omega

end Boundary

/-! ## Partial sums which stay away from zero -/

section Near

variable (ordinary : Ordinary A) (below : |A.value| ≤ x) (few : n ≤ 11)
  (terms : ∀ k, m ≤ k → k < n → (term A (k + 1)).Normal)
  (start : (taylorSum A m).Normal) (upper : (taylorSum A m).value ≤ 4)
  (lower :
    majorant x n - majorant x m + 1 / 2 ^ 8 ≤ (taylorSum A m).value)

include ordinary below few terms start upper lower

/-- From a partial sum which is larger than the bounds of the terms left. -/
theorem Ordinary.taylorSum_near (later : m ≤ k) (earlier : k ≤ n) :
    (taylorSum A k).Normal ∧
      |(taylorSum A k).value - (taylorSum A m).value| ≤
        majorant x k - majorant x m := by
  have notNegative : 0 ≤ x := (abs_nonneg _).trans below
  induction k, later using Nat.le_induction with
  | base =>
      refine ⟨start, ?_⟩
      rw [sub_self, sub_self, abs_zero]
  | succ k later inductionHypothesis =>
      rcases inductionHypothesis (by omega) with ⟨normal, near⟩
      have normalTerm := terms k later earlier
      have bound :=
        ordinary.abs_value_term_between (ordinary.dominated below) (by omega)
          normalTerm
      rw [one_mul, one_mul] at bound
      have before := majorant_mono notNegative later
      have next := majorant_mono notNegative (Nat.le_succ k)
      have after := majorant_mono notNegative earlier
      rcases abs_le.mp near with ⟨least, most⟩
      have sum : |(taylorSum A k).value| = (taylorSum A k).value :=
        abs_of_pos (by linarith)
      have exponentTerm := normalTerm.exponent_le_of_lt 3 (by linarith)
      have exponentSum := normal.exponent_le_of_lt 3 (by linarith)
      have away : 1 / 2 ^ 8 ≤ |(taylorSum A k).value| := by linarith
      have leading :=
        (normal.zpow_le_abs_value_iff (-8)).mp (le_trans (by norm_num) away)
      have larger :=
        inner_larger (A := term A (k + 1)) (B := taylorSum A k)
          (Or.inr (by omega)) (by omega) (by omega)
      have moved :=
        abs_adder_sub_le larger normalTerm normal (by linarith)
      refine ⟨(ieee754_adder_near larger normalTerm normal).1, ?_⟩
      have triangle :=
        abs_sub_le (taylorSum A (k + 1)).value (taylorSum A k).value
          (taylorSum A m).value
      rw [taylorSum] at triangle ⊢
      linarith

end Near

/-! ## The first terms of a negative operand -/

/-- The sum of two numbers which are neither small nor large. -/
theorem adder_moderate {B : Word} (normalA : A.Normal) (normalB : B.Normal)
    (lower : 1 / 2 ^ 8 ≤ |A.value|) (upperA : |A.value| ≤ 2)
    (upperB : |B.value| ≤ 2) (notCancelled : A.value + B.value ≠ 0) :
    (ieee754_adder A B).Normal ∧
      |(ieee754_adder A B).value - (A.value + B.value)| ≤ 1 / 2 ^ 21 := by
  have leading :=
    (normalA.zpow_le_abs_value_iff (-8)).mp (le_trans (by norm_num) lower)
  have exponentA := normalA.exponent_le_of_lt 2 (by linarith)
  have exponentB := normalB.exponent_le_of_lt 2 (by linarith)
  have inner :=
    inner_larger (A := A) (B := B) (Or.inl (by omega)) (by omega) (by omega)
  refine ⟨(ieee754_adder_near inner normalA normalB).1, ?_⟩
  have error := abs_adder_error_le inner normalA normalB upperA upperB notCancelled
  exact error.trans_eq (by norm_num)

theorem cubic_anti {a b : ℚ} (notNegative : 0 ≤ a) (order : a ≤ b) :
    1 - b + b ^ 2 / 2 - b ^ 3 / 6 ≤ 1 - a + a ^ 2 / 2 - a ^ 3 / 6 := by
  have slope : 0 ≤ 1 - (a + b) / 2 + (a ^ 2 + a * b + b ^ 2) / 6 := by
    nlinarith [sq_nonneg (a - b), sq_nonneg (a + b - 4)]
  have product := mul_nonneg (sub_nonneg.mpr order) slope
  linarith

/-- A term without any rounding. -/
def exactTerm (A : Word) (k : ℕ) : ℚ :=
  |A.value| ^ k / k.factorial

theorem exactTerm_nonneg (A : Word) (k : ℕ) : 0 ≤ exactTerm A k :=
  div_nonneg (pow_nonneg (abs_nonneg _) k) (Nat.cast_nonneg _)

theorem pow_mul_weight (A : Word) (k : ℕ) :
    |A.value| ^ k * weight k = exactTerm A k * (weight k * k.factorial) := by
  have factorial : (k.factorial : ℚ) ≠ 0 :=
    Nat.cast_ne_zero.mpr k.factorial_ne_zero
  rw [exactTerm]
  field_simp

section Rounded

variable (ordinary : Ordinary A) (least : 1 ≤ k)

include ordinary least

theorem Ordinary.abs_value_term_upper (few : k ≤ 11)
    (normal : (term A k).Normal) :
    |(term A k).value| ≤ exactTerm A k * (1 + 1 / 2 ^ 20) := by
  calc
    |(term A k).value| ≤ size A k * weight k :=
      ordinary.abs_value_term_le least few normal
    _ ≤ |A.value| ^ k * weight k :=
      mul_le_mul_of_nonneg_right (ordinary.size_le_pow few) (abs_nonneg _)
    _ = exactTerm A k * (weight k * k.factorial) := pow_mul_weight A k
    _ ≤ exactTerm A k * (1 + 1 / 2 ^ 20) :=
      mul_le_mul_of_nonneg_left (weight_near least few).2 (exactTerm_nonneg A k)

/-- One rounding for each power, one for the product, and the reciprocal. -/
theorem Ordinary.abs_value_term_lower (few : k ≤ 3)
    (normal : (term A k).Normal) :
    exactTerm A k * (1 - 1 / 2 ^ 20) * (1 - 1 / 2 ^ 21) * (1 - 1 / 2 ^ 23) ≤
      |(term A k).value| := by
  have atLeast := ordinary.le_abs_value_term least (by omega) normal
  have sizeLower := ordinary.pow_le_size (k := k) (by omega)
  rw [show (2 ^ (-23 : ℤ) : ℚ) = 1 / 2 ^ 23 by norm_num] at atLeast sizeLower
  have near := (weight_near least (by omega)).1
  have powers : (1 - 1 / 2 ^ 21 : ℚ) ≤ (1 - 1 / 2 ^ 23) ^ k :=
    le_trans (by norm_num)
      (pow_le_pow_of_le_one (by norm_num) (by norm_num) few)
  have scaled : 0 ≤ exactTerm A k * (weight k * k.factorial) :=
    mul_nonneg (exactTerm_nonneg A k)
      (mul_nonneg (abs_nonneg _) (Nat.cast_nonneg _))
  refine le_trans (mul_le_mul_of_nonneg_right ?_ (by norm_num)) atLeast
  calc
    exactTerm A k * (1 - 1 / 2 ^ 20) * (1 - 1 / 2 ^ 21) ≤
        exactTerm A k * (weight k * k.factorial) * (1 - 1 / 2 ^ 23) ^ k :=
      mul_le_mul (mul_le_mul_of_nonneg_left near (exactTerm_nonneg A k)) powers
        (by norm_num) scaled
    _ = (|A.value| * (1 - 1 / 2 ^ 23)) ^ k * weight k := by
      rw [← pow_mul_weight, mul_pow]
      ring
    _ ≤ size A k * weight k :=
      mul_le_mul_of_nonneg_right sizeLower (abs_nonneg _)

end Rounded

theorem exactTerm_le (upper : |A.value| ≤ 21 / 16) (few : k ≤ 3) :
    exactTerm A k ≤ 4 := by
  have whole : (1 : ℚ) ≤ k.factorial := by
    exact_mod_cast Nat.one_le_of_lt k.factorial_pos
  calc
    exactTerm A k ≤ |A.value| ^ k :=
      div_le_self (pow_nonneg (abs_nonneg _) k) whole
    _ ≤ (21 / 16) ^ k := pow_le_pow_left₀ (abs_nonneg _) upper k
    _ ≤ (21 / 16) ^ 3 := pow_le_pow_right₀ (by norm_num) few
    _ ≤ 4 := by norm_num

section Three

variable (ordinary : Ordinary A) (lower : 1 / 2 ≤ |A.value|)
  (upper : |A.value| ≤ 21 / 16)

include ordinary upper

/-- The first terms are near the exact ones. -/
theorem Ordinary.abs_value_term_near (least : 1 ≤ k) (few : k ≤ 3) :
    (term A k).Normal ∧
      exactTerm A k - 1 / 2 ^ 17 ≤ |(term A k).value| ∧
      |(term A k).value| ≤ exactTerm A k + 1 / 2 ^ 17 := by
  have normal :=
    ordinary.normal_term_of_le_two least (by omega) (by linarith)
      (by omega : k ≤ 9)
  have atLeast := ordinary.abs_value_term_lower least few normal
  have atMost := ordinary.abs_value_term_upper least (by omega) normal
  have notNegative := exactTerm_nonneg A k
  have small := exactTerm_le upper few
  refine ⟨normal, ?_, ?_⟩
  · linarith
  · linarith

include lower

variable (negative : A.sign = true)

include negative

/-- Full cancellation leaves one, so the first sum may be too large. -/
theorem Ordinary.taylorSum_one :
    (taylorSum A 1).Normal ∧
      1 - |A.value| - 1 / 2 ^ 16 ≤ (taylorSum A 1).value ∧
      (taylorSum A 1).value ≤ 1 ∧
      (1 + 1 / 2 ^ 16 ≤ |A.value| →
        (taylorSum A 1).value ≤ 1 - |A.value| + 1 / 2 ^ 16) := by
  rcases ordinary.abs_value_term_near upper le_rfl (by omega : 1 ≤ 3)
    with ⟨normal, least, most⟩
  rw [exactTerm, pow_one, Nat.factorial_one, Nat.cast_one, div_one] at least most
  have sign : (term A 1).sign = true := by
    rw [sign_term le_rfl (by omega), sign_power, negative]
    rfl
  have value := value_of_negative sign
  rw [taylorSum, taylorSum]
  by_cases cancelled : |(term A 1).value| = 1
  · have opposite : term A 1 = one.negate := by
      rw [cancelled] at value
      exact Encodes.unique ⟨normal, value⟩ (Encodes.negate ⟨normal_one, value_one⟩)
    have sum : ieee754_adder one.negate one = one :=
      ((hasFields_add_negate one).2.eq_iff one).mpr ⟨rfl, rfl, by decide⟩
    rw [opposite, sum, value_one]
    rw [cancelled] at least most
    refine ⟨normal_one, ?_, le_rfl, fun large => ?_⟩
    · linarith
    · linarith
  · have nonzero : (term A 1).value + one.value ≠ 0 := by
      rw [value, value_one]
      intro zero
      exact cancelled (by linarith)
    rcases adder_moderate normal normal_one
        (by linarith) (by linarith) (by rw [abs_value_one]; norm_num) nonzero
      with ⟨normalSum, error⟩
    rw [value, value_one, abs_le] at error
    rcases error with ⟨below, above⟩
    refine ⟨normalSum, ?_, ?_, fun _ => ?_⟩
    · linarith
    · linarith
    · linarith

theorem Ordinary.taylorSum_two :
    (taylorSum A 2).Normal ∧
      1 - |A.value| + |A.value| ^ 2 / 2 - 1 / 2 ^ 15 ≤
          (taylorSum A 2).value ∧
      (taylorSum A 2).value ≤ 2 - 1 / 2 ^ 8 ∧
      (1 + 1 / 2 ^ 16 ≤ |A.value| →
        (taylorSum A 2).value ≤
          1 - |A.value| + |A.value| ^ 2 / 2 + 1 / 2 ^ 15) := by
  rcases ordinary.taylorSum_one lower upper negative
    with ⟨normalSum, above, below, near⟩
  rcases ordinary.abs_value_term_near upper (by omega : 1 ≤ 2) (by omega)
    with ⟨normal, least, most⟩
  have sign : (term A 2).sign = false := by
    rw [sign_term (by omega) (by omega), sign_power, negative]
    rfl
  have value := value_of_positive sign
  have square : (1 / 4 : ℚ) ≤ |A.value| ^ 2 ∧ |A.value| ^ 2 ≤ 441 / 256 := by
    constructor <;> nlinarith
  rw [exactTerm, Nat.factorial_two, Nat.cast_ofNat] at least most
  have sizeSum : |(taylorSum A 1).value| ≤ 2 :=
    abs_le.mpr ⟨by linarith, by linarith⟩
  rcases adder_moderate normal normalSum (by linarith) (by linarith)
      sizeSum (by rw [value]; nlinarith)
    with ⟨normalNext, error⟩
  rw [value, abs_le] at error
  rcases error with ⟨errorBelow, errorAbove⟩
  rw [taylorSum]
  refine ⟨normalNext, ?_, ?_, fun large => ?_⟩
  · linarith
  · linarith
  · have nearer := near large
    linarith

/-- Up to its error, the third sum is a polynomial of the operand. -/
theorem Ordinary.taylorSum_three :
    (taylorSum A 3).Normal ∧
      1 - |A.value| + |A.value| ^ 2 / 2 - |A.value| ^ 3 / 6 - 1 / 2 ^ 14 ≤
          (taylorSum A 3).value ∧
      (taylorSum A 3).value ≤ 2 ∧
      (1 + 1 / 2 ^ 16 ≤ |A.value| →
        (taylorSum A 3).value ≤
          1 - |A.value| + |A.value| ^ 2 / 2 - |A.value| ^ 3 / 6 +
            1 / 2 ^ 14) := by
  rcases ordinary.taylorSum_two lower upper negative
    with ⟨normalSum, above, below, near⟩
  rcases ordinary.abs_value_term_near upper (by omega : 1 ≤ 3) le_rfl
    with ⟨normal, least, most⟩
  have sign : (term A 3).sign = true := by
    rw [sign_term (by omega) (by omega), sign_power, negative]
    rfl
  have value := value_of_negative sign
  have cube : (1 / 8 : ℚ) ≤ |A.value| ^ 3 ∧ |A.value| ^ 3 ≤ 9261 / 4096 := by
    have lowerCube := pow_le_pow_left₀ (by norm_num) lower 3
    have upperCube := pow_le_pow_left₀ (abs_nonneg _) upper 3
    norm_num at lowerCube upperCube
    exact ⟨lowerCube, upperCube⟩
  have positive :
      (1 / 8 : ℚ) ≤
        1 - |A.value| + |A.value| ^ 2 / 2 - |A.value| ^ 3 / 6 :=
    le_trans (by norm_num) (cubic_anti (abs_nonneg _) upper)
  rw [exactTerm, show Nat.factorial 3 = 6 from rfl, Nat.cast_ofNat]
    at least most
  have sizeSum : |(taylorSum A 2).value| ≤ 2 :=
    abs_le.mpr ⟨by linarith, by linarith⟩
  rcases adder_moderate normal normalSum (by linarith) (by linarith)
      sizeSum (by rw [value]; intro zero; linarith)
    with ⟨normalNext, error⟩
  rw [value, abs_le] at error
  rcases error with ⟨errorBelow, errorAbove⟩
  rw [taylorSum]
  refine ⟨normalNext, ?_, ?_, fun large => ?_⟩
  · linarith
  · linarith
  · have nearer := near large
    linarith

end Three

end FederatedEdge.Fpga.NaturalExponential
