import FederatedEdge.Fpga.Division
import FederatedEdge.Fpga.MultiplierRounding
import FederatedEdge.Library.NewtonReciprocal

/-!
# The reciprocal in the divider

The divisor is scaled to the interval from one half to one, where the first
approximation is 48/17 - 32/17 * d.  Every turn is a step of Newton's iteration:
the adder makes its factor a little too large, and the multiplier cuts off its
product.
-/

namespace FederatedEdge.Fpga

open FederatedEdge.Library
open Word

variable {A B X : Word} {x y : ℚ}

/-! ## The units on positive numbers -/

theorem Word.Encodes.sign_eq (encodes : A.Encodes x) (positive : 0 < x) :
    A.sign = false := by
  rcases encodes with ⟨normal, rfl⟩
  rw [normal.value_eq, signed_pos_iff (mantissa_scale_pos A _)] at positive
  exact positive

/-- The number of a positive word from its fields. -/
theorem Word.encodes_of_fields {mantissa exponent : ℕ} (positive : A.sign = false)
    (mantissaIs : A.mantissa.toNat = mantissa)
    (exponentIs : A.exponent.toNat = exponent) (normal : A.Normal) :
    A.Encodes (mantissa * 2 ^ ((exponent : ℤ) - 150)) := by
  refine ⟨normal, ?_⟩
  rw [value_of_positive positive, normal.abs_value, mantissaIs, exponentIs]

theorem Word.Encodes.negate (encodes : A.Encodes x) : A.negate.Encodes (-x) := by
  rcases encodes with ⟨normal, rfl⟩
  have exponent : A.negate.exponent = A.exponent := exponent_pack _ _ _
  have normalNegate : A.negate.Normal := by
    rw [Word.Normal, exponent]
    exact normal
  refine ⟨normalNegate, ?_⟩
  rw [normal.value_eq, normalNegate.value_eq, exponent, toNat_mantissa,
    toNat_mantissa, Word.negate, sign_pack, fraction_pack, signed_not]

theorem encodes_product (encodesA : A.Encodes x) (encodesB : B.Encodes y)
    (lower : (2 ^ (-126 : ℤ) : ℚ) ≤ x * y) (upper : x * y < 2 ^ 128) :
    (ieee754_multiplier A B).Encodes (roundTowardZero 24 (x * y)) := by
  rcases encodesA with ⟨normalA, rfl⟩
  rcases encodesB with ⟨normalB, rfl⟩
  have positive : 0 < A.value * B.value := lt_of_lt_of_le (by positivity) lower
  have least := le_abs_reading_iff A B (-126)
  have overflow := le_abs_reading_iff A B 128
  rw [normalA.reading_eq, normalB.reading_eq, abs_of_pos positive]
    at least overflow
  have atMost : ¬ (2 ^ (128 : ℤ) : ℚ) ≤ A.value * B.value :=
    not_le.mpr (by exact_mod_cast upper)
  rw [overflow] at atMost
  rw [least] at lower
  rw [← normalA.reading_eq, ← normalB.reading_eq]
  exact encodes_multiplier (by omega) (by omega)

/-- A difference is too large by less than the last place of the minuend. -/
theorem encodes_difference (encodesA : A.Encodes x) (encodesB : B.Encodes (-y))
    (positive : 0 < y) (notTiny : (2 ^ (-126 : ℤ) : ℚ) ≤ x - y) :
    ∃ z, (ieee754_adder A B).Encodes z ∧ x - y ≤ z ∧
      z ≤ x - y + 2 ^ ((A.exponent.toNat : ℤ) - 150) := by
  have apart : 0 < x - y := lt_of_lt_of_le (by positivity) notTiny
  have signA := encodesA.sign_eq (by linarith)
  have signB : B.negate.sign = false :=
    encodesB.negate.sign_eq (by rw [neg_neg]; exact positive)
  rw [Word.negate, sign_pack] at signB
  have differentSign : A.sign ≠ B.sign := by
    rw [signA]
    intro same
    rw [← same] at signB
    exact Bool.noConfusion signB
  rcases encodesA with ⟨normalA, rfl⟩
  rcases encodesB with ⟨normalB, opposite⟩
  have order : B.magnitude < A.magnitude := by
    apply (magnitude_lt_iff _ _).mpr
    rw [opposite, abs_neg, abs_of_pos positive, abs_of_pos (by linarith)]
    linarith
  have together : A.value + B.value = A.value - y := by
    rw [opposite, sub_eq_add_neg]
  rw [← abs_of_pos apart, ← together] at notTiny
  rcases addOrdered_difference order.le normalA normalB differentSign notTiny
    with ⟨difference, -, -, exact, encodes⟩
  have unit : (0 : ℚ) < 2 ^ ((B.exponent.toNat : ℤ) - 150) :=
    zpow_pos two_pos _
  rw [ieee754_adder_eq, larger, smaller, if_pos order, if_pos order]
  refine ⟨_, encodes, ?_, ?_⟩
  · rw [← together, exact, signA]
    refine mul_le_mul_of_nonneg_right ?_ unit.le
    exact_mod_cast Nat.le_add_right _ _
  · rw [← together, exact, signA, place_eq order.le]
    have few : (dropped A B : ℚ) ≤ 2 ^ distance A B := by
      exact_mod_cast (dropped_lt A B).le
    have product := mul_le_mul_of_nonneg_right few unit.le
    change ((difference + dropped A B : ℕ) : ℚ) * _ ≤ (difference : ℚ) * _ + _
    push_cast
    linarith

/-- A positive product cut off after 24 bits. -/
theorem encodes_positive_product (encodesA : A.Encodes x) (encodesB : B.Encodes y)
    (lower : (2 ^ (-126 : ℤ) : ℚ) ≤ x * y) (upper : x * y < 2 ^ 128) :
    ∃ z, (ieee754_multiplier A B).Encodes z ∧
      x * y * (1 - 2 ^ (-23 : ℤ)) ≤ z ∧ z ≤ x * y := by
  have positive : 0 < x * y := lt_of_lt_of_le (by positivity) lower
  exact ⟨_, encodes_product encodesA encodesB lower upper,
    le_roundTowardZero positive 23, roundTowardZero_le positive 24⟩

namespace Divider

/-! ## The scaled divisor -/

/-- The number of the scaled divisor. -/
def divisor (B : Word) : ℚ :=
  B.mantissa.toNat * 2 ^ (-24 : ℤ)

theorem encodes_scaled (B : Word) : (scaled B).Encodes (divisor B) := by
  have exponent : (scaled B).exponent = 126 := exponent_pack _ _ _
  have normal : (scaled B).Normal := by
    rw [Word.Normal, exponent]
    decide
  refine ⟨normal, ?_⟩
  rw [normal.value_eq, exponent, toNat_mantissa, scaled, sign_pack,
    fraction_pack, ← toNat_mantissa]
  rfl

theorem divisor_lower (B : Word) : 1 / 2 ≤ divisor B := by
  have lower : (2 ^ 23 : ℚ) ≤ B.mantissa.toNat := by
    exact_mod_cast B.mantissa_lower
  calc
    (1 / 2 : ℚ) = 2 ^ 23 * 2 ^ (-24 : ℤ) := by norm_num
    _ ≤ divisor B := mul_le_mul_of_nonneg_right lower (by positivity)

theorem divisor_upper (B : Word) : divisor B ≤ 1 - 2 ^ (-24 : ℤ) := by
  have upper : (B.mantissa.toNat : ℚ) ≤ 2 ^ 24 - 1 := by
    rw [le_sub_iff_add_le]
    exact_mod_cast B.mantissa_upper
  calc
    divisor B ≤ (2 ^ 24 - 1) * 2 ^ (-24 : ℤ) :=
      mul_le_mul_of_nonneg_right upper (by positivity)
    _ = 1 - 2 ^ (-24 : ℤ) := by norm_num

theorem divisor_pos (B : Word) : 0 < divisor B := by
  linarith [divisor_lower B]

/-! ## The first approximation -/

/-- 48/17 and 32/17. -/
theorem encodes_coefficients :
    Encodes 0x4034b4b5#32 (11842741 / 2 ^ 22) ∧
      Encodes 0x3ff0f0f1#32 (15790321 / 2 ^ 23) := by
  have first :=
    encodes_of_fields (A := 0x4034b4b5#32) (by decide)
      (by decide : _ = 11842741) (by decide : _ = 128) (by decide)
  have second :=
    encodes_of_fields (A := 0x3ff0f0f1#32) (by decide)
      (by decide : _ = 15790321) (by decide : _ = 127) (by decide)
  norm_num at first second ⊢
  exact ⟨first, second⟩

theorem A1_Xn_near (B : Word) :
    ∃ x, (A1_Xn B).Encodes x ∧ |shortfall (divisor B) x| ≤ 1 / 16 := by
  have lower := divisor_lower B
  have upper := divisor_upper B
  norm_num at upper
  rcases encodes_coefficients with ⟨constant, slope⟩
  rcases encodes_positive_product (encodes_scaled B) slope
      (by norm_num; linarith) (by norm_num; linarith)
    with ⟨m, encodes, cut, below⟩
  norm_num at cut below
  have positive : 0 < m := by linarith
  have opposite := encodes.negate
  rw [Word.negate, encodes.sign_eq positive] at opposite
  rcases encodes_difference constant opposite positive
      (by norm_num; linarith)
    with ⟨x, result, least, most⟩
  have place : (exponent 0x4034b4b5#32).toNat = 128 := by decide
  rw [place] at most
  norm_num at most
  refine ⟨x, result, ?_⟩
  -- the parabola through 1/17 at both ends and -1/17 in the middle
  have middle : 0 ≤ (divisor B - 3 / 4) ^ 2 := sq_nonneg _
  have ends : 0 ≤ (divisor B - 1 / 2) * (1 - divisor B) :=
    mul_nonneg (by linarith) (by linarith)
  have nonnegative : 0 ≤ divisor B := (divisor_pos B).le
  have products :
      divisor B * (11842741 / 2 ^ 22 - m) ≤ divisor B * x ∧
        divisor B * x ≤ divisor B * (11842741 / 2 ^ 22 - m + 1 / 4194304) :=
    ⟨mul_le_mul_of_nonneg_left least nonnegative,
      mul_le_mul_of_nonneg_left most nonnegative⟩
  have squares :
      divisor B * (divisor B * (15790321 / 8388608) * (8388607 / 8388608)) ≤
          divisor B * m ∧
        divisor B * m ≤ divisor B * (divisor B * (15790321 / 8388608)) :=
    ⟨mul_le_mul_of_nonneg_left cut nonnegative,
      mul_le_mul_of_nonneg_left below nonnegative⟩
  rw [shortfall, abs_le]
  constructor
  · linarith [products.2, squares.1]
  · linarith [products.1, squares.2]

/-! ## A turn -/

/-- How much the adder's factor may be too large. -/
def excess : ℚ :=
  2 ^ (-22 : ℤ) + 17 / 16 * 2 ^ (-23 : ℤ)

theorem approximation_bounds (near : |shortfall (divisor B) x| ≤ 1 / 16) :
    15 / 16 ≤ divisor B * x ∧ divisor B * x ≤ 17 / 16 ∧ 15 / 16 ≤ x ∧ x ≤ 17 / 8 := by
  have lower := divisor_lower B
  have upper : divisor B ≤ 1 := (divisor_upper B).trans (by norm_num)
  rw [shortfall, abs_le] at near
  have product : 15 / 16 ≤ divisor B * x := by linarith
  have positive : 0 < x :=
    (mul_pos_iff_of_pos_left (divisor_pos B)).mp
      (lt_of_lt_of_le (by norm_num) product)
  have most := mul_le_mul_of_nonneg_right upper positive.le
  have least := mul_le_mul_of_nonneg_right lower positive.le
  refine ⟨product, ?_, ?_, ?_⟩ <;> linarith

theorem encodes_two : Encodes 0x40000000#32 2 := by
  have fields :=
    encodes_of_fields (A := 0x40000000#32) (by decide)
      (by decide : _ = 8388608) (by decide : _ = 128) (by decide)
  norm_num at fields
  exact fields

/-- A turn multiplies by a factor which is a little too large, and cuts off. -/
theorem M3_M4_turn (encodes : X.Encodes x)
    (near : |shortfall (divisor B) x| ≤ 1 / 16) :
    ∃ factor,
      (M3_M4 B X).Encodes (roundTowardZero 24 (x * factor)) ∧
        1 + shortfall (divisor B) x ≤ factor ∧
        factor ≤ 1 + shortfall (divisor B) x + excess ∧ 0 < x * factor := by
  rcases approximation_bounds near
    with ⟨productLower, productUpper, lower, upper⟩
  rcases encodes_positive_product (encodes_scaled B) encodes
      (by norm_num; linarith) (by norm_num; linarith)
    with ⟨p, product, cut, below⟩
  norm_num at cut
  have positive : 0 < p := by linarith
  have two := encodes_two
  rcases encodes_difference two product.negate positive
      (by norm_num; linarith)
    with ⟨factor, difference, least, most⟩
  have place : (exponent 0x40000000#32).toNat = 128 := by decide
  rw [place] at most
  norm_num at most
  have products :
      15 / 16 * (15 / 16) ≤ x * factor ∧ x * factor ≤ 17 / 8 * (9 / 8) :=
    ⟨mul_le_mul lower (by linarith) (by norm_num) (by linarith),
      mul_le_mul upper (by linarith) (by linarith) (by norm_num)⟩
  refine ⟨factor, ?_, ?_, ?_, by linarith⟩
  · exact encodes_product encodes difference (by norm_num; linarith)
      (by norm_num; linarith)
  · rw [shortfall]
    linarith
  · rw [shortfall, excess]
    norm_num
    linarith

/-! ## All turns -/

/-- What the shortfall may be after `n` turns. -/
def tolerance : ℕ → ℚ
  | 0 => 1 / 16
  | 1 => 1 / 128
  | 2 => 1 / 8192
  | _ + 3 => 1 / 2 ^ 21

theorem tolerance_le (n : ℕ) : tolerance n ≤ 1 / 16 := by
  rcases n with _ | _ | _ | n <;> norm_num [tolerance]

/-- The tolerance takes in both errors of a turn. -/
theorem tolerance_succ (n : ℕ) :
    (1 + tolerance n) * excess ≤ tolerance (n + 1) ∧
      tolerance n ^ 2 + 2 ^ (-23 : ℤ) ≤ tolerance (n + 1) := by
  rcases n with _ | _ | _ | n <;> norm_num [tolerance, excess]

theorem excess_nonneg : 0 ≤ excess := by
  norm_num [excess]

theorem approximation_near (B : Word) (n : ℕ) :
    ∃ x, (approximation B n).Encodes x ∧
      |shortfall (divisor B) x| ≤ tolerance n := by
  induction n with
  | zero =>
      rw [approximation_zero]
      exact A1_Xn_near B
  | succ n inductionHypothesis =>
      rcases inductionHypothesis with ⟨x, encodes, near⟩
      rcases M3_M4_turn encodes (near.trans (tolerance_le n))
        with ⟨factor, next, least, most, positive⟩
      have step :
          NewtonStep (divisor B) excess (2 ^ (-23 : ℤ)) x
            (roundTowardZero 24 (x * factor)) :=
        ⟨factor, least, most, le_roundTowardZero positive 23,
          roundTowardZero_le positive 24⟩
      have notNegative : 0 ≤ x := by
        linarith [(approximation_bounds (near.trans (tolerance_le n))).2.2.1]
      rw [approximation_succ]
      refine ⟨_, next, ?_⟩
      exact step.shortfall_le (divisor_pos B).le notNegative near excess_nonneg
        (by norm_num) (by norm_num) (tolerance_succ n).1 (tolerance_succ n).2

/-- From the third turn on the approximation is not below one. -/
theorem approximation_large (B : Word) (n : ℕ) :
    ∃ x, (approximation B (n + 3)).Encodes x ∧ 1 ≤ x ∧
      |shortfall (divisor B) x| ≤ 1 / 2 ^ 21 := by
  rcases approximation_near B (n + 3) with ⟨next, encodes, near⟩
  refine ⟨next, encodes, ?_, near⟩
  rcases approximation_near B (n + 2) with ⟨x, before, nearBefore⟩
  have small : |shortfall (divisor B) x| ≤ 1 / 8192 := by
    refine nearBefore.trans ?_
    rcases n with _ | n <;> norm_num [tolerance]
  rcases M3_M4_turn before (small.trans (by norm_num))
    with ⟨factor, turned, least, -, positive⟩
  rw [approximation_succ] at encodes
  have same : next = roundTowardZero 24 (x * factor) :=
    encodes.2.symm.trans turned.2
  have square : shortfall (divisor B) x ^ 2 ≤ (1 / 8192) ^ 2 := by
    rw [← sq_abs]
    exact pow_le_pow_left₀ (abs_nonneg _) small 2
  have product : 1 ≤ x * factor := by
    have notNegative : 0 ≤ x := by
      linarith [(approximation_bounds (small.trans (by norm_num))).2.2.1]
    have upper := divisor_upper B
    norm_num at upper square
    have large : 1 ≤ x * (1 + shortfall (divisor B) x) := by
      rw [← mul_le_mul_iff_of_pos_left (divisor_pos B), ← mul_assoc, mul_newton]
      linarith
    exact large.trans (mul_le_mul_of_nonneg_left least notNegative)
  rw [same]
  exact one_le_roundTowardZero product 23

end Divider

end FederatedEdge.Fpga
