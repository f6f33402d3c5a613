import FederatedEdge.Fpga.Reciprocal
import Mathlib.Data.Sign.Basic

/-!
# The quotient

The reciprocal of the scaled divisor gets the exponent and the sign which the
divisor asks for, and the dividend is multiplied by it.  The exponent is a sum
of eight bits.  It stays in them as long as the divisor is below 2^127; there
the quotient is as exact as the reciprocal.
-/

namespace FederatedEdge.Fpga.Divider

open FederatedEdge.Library
open Word

variable {A B R : Word} {r : ℚ} {ITER : ℕ} {divider : Divider}

/-! ## The reciprocal of the divisor -/

/-- The second operand of the last multiplier. -/
def reciprocal (B R : Word) : Word :=
  .pack B.sign (R.exponent + 126 - B.exponent) R.fraction

theorem quotient_eq (ITER : ℕ) (A B : Word) :
    quotient ITER A B =
      ieee754_multiplier A (reciprocal B (approximation B (ITER + 1))) := by
  rw [approximation_succ]
  rfl

/-- The exponent of the reciprocal stays in its eight bits. -/
def NoWrap (B R : Word) : Prop :=
  B.exponent.toNat ≤ R.exponent.toNat + 126 ∧
    R.exponent.toNat + 126 < B.exponent.toNat + 256

theorem exponent_reciprocal (B R : Word) :
    (reciprocal B R).exponent.toNat =
      (R.exponent.toNat + 126 + (256 - B.exponent.toNat)) % 256 := by
  have left := R.exponent.isLt
  have right := B.exponent.isLt
  have constant : (126 : BitVec 8).toNat = 126 := rfl
  rw [reciprocal, exponent_pack, BitVec.toNat_sub, BitVec.toNat_add, constant]
  omega

/-- Without a wrap the word is read as the scaled reciprocal. -/
theorem reading_reciprocal (encodes : R.Encodes r) (positive : 0 < r)
    (noWrap : NoWrap B R) :
    (reciprocal B R).reading =
      signed B.sign (r * 2 ^ (126 - (B.exponent.toNat : ℤ))) := by
  have sign := encodes.sign_eq positive
  rcases encodes with ⟨normal, rfl⟩
  rcases noWrap with ⟨above, below⟩
  have exponent :
      ((reciprocal B R).exponent.toNat : ℤ) =
        R.exponent.toNat + 126 - B.exponent.toNat := by
    rw [exponent_reciprocal]
    omega
  have scale :
      (R.exponent.toNat : ℤ) + 126 - B.exponent.toNat - 150 =
        (R.exponent.toNat - 150) + (126 - B.exponent.toNat) := by
    ring
  rw [reading, exponent, toNat_mantissa, reciprocal, sign_pack, fraction_pack,
    ← toNat_mantissa, normal.value_eq, sign, scale, zpow_add₀ two_ne_zero,
    ← mul_assoc]
  rfl

/-- The divisor, from its scaled number. -/
theorem value_divisor (normal : B.Normal) :
    B.value = signed B.sign (divisor B * 2 ^ ((B.exponent.toNat : ℤ) - 126)) := by
  have scale :
      (B.exponent.toNat : ℤ) - 150 = -24 + (B.exponent.toNat - 126) := by
    ring
  rw [normal.value_eq, divisor, scale, zpow_add₀ two_ne_zero, mul_assoc]

theorem value_ne_zero (normal : B.Normal) : B.value ≠ 0 := by
  rw [← abs_pos, normal.abs_value]
  exact mantissa_scale_pos B _

/-- What is multiplied is the quotient, up to the shortfall. -/
theorem reading_mul_reciprocal (normalA : A.Normal) (normalB : B.Normal)
    (encodes : R.Encodes r) (positive : 0 < r) (noWrap : NoWrap B R) :
    A.reading * (reciprocal B R).reading =
      A.value / B.value * (1 - shortfall (divisor B) r) := by
  have scale :
      (2 : ℚ) ^ (126 - (B.exponent.toNat : ℤ)) =
        (2 ^ ((B.exponent.toNat : ℤ) - 126))⁻¹ := by
    rw [← zpow_neg, neg_sub]
  have unit : (0 : ℚ) < 2 ^ ((B.exponent.toNat : ℤ) - 126) :=
    zpow_pos two_pos _
  have nonzero := (divisor_pos B).ne'
  rw [normalA.reading_eq, reading_reciprocal encodes positive noWrap,
    value_divisor normalB, scale, shortfall, sub_sub_cancel]
  cases B.sign with
  | false =>
      rw [signed, if_neg Bool.false_ne_true, signed, if_neg Bool.false_ne_true]
      field_simp
  | true =>
      rw [signed, if_pos rfl, signed, if_pos rfl]
      field_simp

/-! ## The error of the quotient -/

/-- A shortfall and the rounding together stay below 2^-20. -/
theorem rounded_near {x error : ℚ} (nonzero : x ≠ 0)
    (near : |error| ≤ 1 / 2 ^ 21) :
    SignType.sign (roundTowardZero 24 (x * (1 - error))) = SignType.sign x ∧
      |roundTowardZero 24 (x * (1 - error)) - x| < 2 ^ (-20 : ℤ) * |x| := by
  have factor : 0 < 1 - error := by linarith [le_abs_self error]
  have product : x * (1 - error) ≠ 0 := mul_ne_zero nonzero factor.ne'
  constructor
  · rw [sign_roundTowardZero product 23, sign_mul, sign_pos factor, mul_one]
  · have cut := abs_roundTowardZero_sub_le product 23
    have size : |x * (1 - error)| ≤ |x| * 2 := by
      rw [abs_mul, abs_of_pos factor]
      refine mul_le_mul_of_nonneg_left ?_ (abs_nonneg x)
      linarith [neg_abs_le error]
    have shortfallPart : |x * (1 - error) - x| ≤ |x| * (1 / 2 ^ 21) := by
      rw [← mul_sub_one, abs_mul, sub_sub_cancel_left, abs_neg]
      exact mul_le_mul_of_nonneg_left near (abs_nonneg x)
    have positive : 0 < |x| := abs_pos.mpr nonzero
    calc
      |roundTowardZero 24 (x * (1 - error)) - x| ≤
          |roundTowardZero 24 (x * (1 - error)) - x * (1 - error)| +
            |x * (1 - error) - x| :=
        abs_sub_le _ _ _
      _ ≤ |x| * 2 * 2 ^ (-23 : ℤ) + |x| * (1 / 2 ^ 21) := by
        refine add_le_add (cut.trans ?_) shortfallPart
        exact mul_le_mul_of_nonneg_right size (by norm_num)
      _ < 2 ^ (-20 : ℤ) * |x| := by
        norm_num
        linarith

section Near

variable (normalA : A.Normal) (normalB : B.Normal) (encodes : R.Encodes r)
  (large : 1 ≤ r) (near : |shortfall (divisor B) r| ≤ 1 / 2 ^ 21)
  (noWrap : NoWrap B R)
  (notTiny : (2 ^ (-125 : ℤ) : ℚ) ≤ |A.value / B.value|)
  (notHuge : |A.value / B.value| ≤ 2 ^ 127)

include normalA normalB encodes large near noWrap notTiny notHuge

/-- The quotient with the shortfall, cut off after 24 bits. -/
theorem encodes_quotient :
    (ieee754_multiplier A (reciprocal B R)).Encodes
      (roundTowardZero 24
        (A.value / B.value * (1 - shortfall (divisor B) r))) := by
  have product :=
    reading_mul_reciprocal normalA normalB encodes (by linarith) noWrap
  rw [abs_le] at near
  have size :
      |A.reading * (reciprocal B R).reading| =
        |A.value / B.value| * (1 - shortfall (divisor B) r) := by
    rw [product, abs_mul, abs_of_pos (by linarith : (0 : ℚ) < 1 - shortfall _ r)]
  have lower :
      (2 ^ (-126 : ℤ) : ℚ) ≤ |A.reading * (reciprocal B R).reading| := by
    rw [size]
    calc
      (2 ^ (-126 : ℤ) : ℚ) = 2 ^ (-125 : ℤ) * (1 / 2) := by norm_num
      _ ≤ |A.value / B.value| * (1 - shortfall (divisor B) r) :=
        mul_le_mul notTiny (by linarith) (by norm_num) (abs_nonneg _)
  have upper :
      |A.reading * (reciprocal B R).reading| < (2 ^ (128 : ℤ) : ℚ) := by
    rw [size]
    calc
      |A.value / B.value| * (1 - shortfall (divisor B) r) ≤
          2 ^ 127 * (3 / 2) :=
        mul_le_mul notHuge (by linarith) (by linarith) (by norm_num)
      _ < 2 ^ (128 : ℤ) := by norm_num
  rw [le_abs_reading_iff] at lower
  rw [← not_le, le_abs_reading_iff] at upper
  rw [← product]
  exact encodes_multiplier (by omega) (by omega)

/-- Sign and relative error of the quotient. -/
theorem quotient_near :
    (ieee754_multiplier A (reciprocal B R)).Normal ∧
      SignType.sign (ieee754_multiplier A (reciprocal B R)).value =
        SignType.sign (A.value / B.value) ∧
      |(ieee754_multiplier A (reciprocal B R)).value - A.value / B.value| <
        2 ^ (-20 : ℤ) * |A.value / B.value| := by
  rcases encodes_quotient normalA normalB encodes large near noWrap notTiny
      notHuge
    with ⟨normal, value⟩
  have nonzero : A.value / B.value ≠ 0 :=
    div_ne_zero (value_ne_zero normalA) (value_ne_zero normalB)
  rw [value]
  exact ⟨normal, rounded_near nonzero near⟩

end Near

/-- Numbers from one to four are those with the exponents 127 and 128. -/
theorem exponent_of_approximation (encodes : R.Encodes r) (large : 1 ≤ r)
    (near : |shortfall (divisor B) r| ≤ 1 / 2 ^ 21) :
    127 ≤ R.exponent.toNat ∧ R.exponent.toNat ≤ 128 := by
  have small := (approximation_bounds (near.trans (by norm_num))).2.2.2
  rcases encodes with ⟨normal, rfl⟩
  have positive : 0 < R.value := by linarith
  have log := normal.log_value
  rw [abs_of_pos positive] at log
  have lower : (0 : ℤ) ≤ Int.log 2 R.value := by
    rw [← Int.zpow_le_iff_le_log one_lt_two positive]
    exact_mod_cast large
  have upper : Int.log 2 R.value < 2 := by
    rw [← Int.lt_zpow_iff_log_lt one_lt_two positive]
    norm_num
    linarith
  omega

/--
With at least two turns, and a divisor whose exponent field is at most 250, a
run gives the quotient with its sign and a relative error below 2^-20.
-/
theorem divider_converges (ITER : ℕ) (A B : Word) (divider : Divider)
    (iterations : 2 ≤ ITER) (normalA : A.Normal) (normalB : B.Normal)
    (notTiny : (2 ^ (-120 : ℤ) : ℚ) ≤ |A.value / B.value|)
    (notHuge : |A.value / B.value| ≤ 2 ^ 120)
    (small : B.exponent.toNat ≤ 250) (idle : divider.divider_counter = 0) :
    let result := ((Divider.posedge ITER true A B)^[ITER + 3] divider).result
    result.Normal ∧
      SignType.sign result.value = SignType.sign (A.value / B.value) ∧
      |result.value - A.value / B.value| <
        2 ^ (-20 : ℤ) * |A.value / B.value| := by
  have nonzero : A ≠ 0 := by
    rintro rfl
    exact absurd normalA (by decide)
  obtain ⟨n, rfl⟩ : ∃ n, ITER = n + 2 := ⟨ITER - 2, by omega⟩
  rcases approximation_large B n with ⟨r, encodes, large, near⟩
  rcases exponent_of_approximation encodes large near with ⟨lower, upper⟩
  have atLeast := normalB.1
  have noWrap : NoWrap B (approximation B (n + 3)) := ⟨by omega, by omega⟩
  rw [result_run nonzero idle, quotient_eq]
  exact quotient_near normalA normalB encodes large near noWrap
    (le_trans (by norm_num) notTiny) (notHuge.trans (by norm_num))

theorem encodes_three : Encodes 0x40400000#32 3 := by
  have fields :=
    encodes_of_fields (A := 0x40400000#32) (by decide)
      (by decide : _ = 12582912) (by decide : _ = 128) (by decide)
  norm_num at fields
  exact fields

theorem abs_quotient_sample :
    |value 0x40400000#32 / value 0x40000000#32| = 3 / 2 := by
  rw [encodes_three.2, encodes_two.2]
  norm_num

/-- The division 3.0 / 2.0 of the test bench. -/
theorem divider_converges_sample :
    let result :=
      ((Divider.posedge 3 true 0x40400000#32 0x40000000#32)^[6]
        ⟨0, 0, 0, 0⟩).result
    result.Normal ∧
      SignType.sign result.value =
        SignType.sign (value 0x40400000#32 / value 0x40000000#32) ∧
      |result.value - value 0x40400000#32 / value 0x40000000#32| <
        2 ^ (-20 : ℤ) * |value 0x40400000#32 / value 0x40000000#32| :=
  divider_converges 3 0x40400000#32 0x40000000#32 ⟨0, 0, 0, 0⟩ (by decide)
    (by decide) (by decide) (abs_quotient_sample.ge.trans' (by norm_num))
    (abs_quotient_sample.trans_le (by norm_num)) (by decide) rfl

/-! ## Large divisors -/

theorem approximation_congr (same : A.fraction = B.fraction) (n : ℕ) :
    approximation A n = approximation B n := by
  have scaled : scaled A = scaled B := by
    rw [Divider.scaled, Divider.scaled, same]
  have seed : A1_Xn A = A1_Xn B := by
    rw [A1_Xn, A1_Xn, scaled]
  induction n with
  | zero => rw [approximation_zero, approximation_zero, seed]
  | succ n inductionHypothesis =>
      rw [approximation_succ, approximation_succ, inductionHypothesis, M3_M4,
        M3_M4, scaled]

/-- A turn which changes nothing is the last change. -/
theorem approximation_settled {n : ℕ} (reached : approximation B n = R)
    (settled : M3_M4 B R = R) (more : ℕ) : approximation B (n + more) = R := by
  induction more with
  | zero => exact reached
  | succ more inductionHypothesis =>
      rw [← Nat.add_assoc, approximation_succ, inductionHypothesis, settled]

/-- A divisor with one of the first fractions. -/
def sampleDivisor (f : ℕ) : Word :=
  .pack false 127 (BitVec.ofNat 23 f)

/-- What the approximations settle at for the first fractions. -/
def settledApproximation : ℕ → Word
  | 0 => 0x40000001#32
  | 1 => 0x3fffffff#32
  | 2 => 0x3ffffffd#32
  | 3 => 0x3ffffffd#32
  | _ => 0x3ffffffb#32

theorem settledApproximation_spec :
    ∀ f < 5,
      (approximation (sampleDivisor f) 3).exponent.toNat = 127 ∧
        approximation (sampleDivisor f) 4 = settledApproximation f ∧
        M3_M4 (sampleDivisor f) (settledApproximation f) =
          settledApproximation f ∧
        (settledApproximation f).exponent.toNat =
          if f = 0 then 128 else 127 := by
  decide +kernel

/-- Two is passed with the fraction zero only, and only by the fourth turn. -/
theorem approximation_few (few : B.fraction.toNat < 5) (n : ℕ) :
    (approximation B (n + 3)).exponent.toNat =
      if B.fraction.toNat = 0 ∧ n ≠ 0 then 128 else 127 := by
  have same : B.fraction = (sampleDivisor B.fraction.toNat).fraction := by
    rw [sampleDivisor, fraction_pack, BitVec.ofNat_toNat, BitVec.setWidth_eq]
  rcases settledApproximation_spec _ few
    with ⟨third, reached, settled, exponent⟩
  rw [approximation_congr same]
  rcases n with _ | n
  · rw [if_neg (fun both => both.2 rfl)]
    exact third
  · rw [show n + 1 + 3 = 4 + n by ring, approximation_settled reached settled,
      exponent]
    simp only [ne_eq, Nat.add_one_ne_zero, not_false_eq_true, and_true]

/-- A divisor with another fraction has a reciprocal below two. -/
theorem approximation_many (many : 5 ≤ B.fraction.toNat) (n : ℕ) :
    (approximation B (n + 3)).exponent.toNat = 127 := by
  rcases approximation_large B n with ⟨r, encodes, large, near⟩
  rcases exponent_of_approximation encodes large near with ⟨lower, -⟩
  rcases encodes with ⟨normal, rfl⟩
  have mantissa : (2 ^ 23 + 5 : ℚ) ≤ B.mantissa.toNat := by
    rw [toNat_mantissa]
    exact_mod_cast Nat.add_le_add_left many (2 ^ 23)
  have below : (approximation B (n + 3)).value < 2 := by
    by_contra above
    have divisorPart : (2 ^ 23 + 5) * 2 ^ (-24 : ℤ) ≤ divisor B :=
      mul_le_mul_of_nonneg_right mantissa (by positivity)
    have product :=
      mul_le_mul divisorPart (not_lt.mp above) zero_le_two (divisor_pos B).le
    rw [shortfall, abs_le] at near
    norm_num at product near
    linarith
  have log := normal.log_value
  rw [abs_of_pos (by linarith)] at log
  have upper : Int.log 2 (approximation B (n + 3)).value < 1 := by
    rw [← Int.lt_zpow_iff_log_lt one_lt_two (by linarith)]
    exact_mod_cast below
  omega

theorem exponent_approximation (B : Word) (n : ℕ) :
    (approximation B (n + 3)).exponent.toNat =
      if B.fraction.toNat = 0 ∧ n ≠ 0 then 128 else 127 := by
  rcases Nat.lt_or_ge B.fraction.toNat 5 with few | many
  · exact approximation_few few n
  · rw [approximation_many many, if_neg (fun both => by omega)]

theorem noWrap_iff (normal : B.Normal) (n : ℕ) :
    NoWrap B (approximation B (n + 3)) ↔
      B.exponent.toNat ≤ 253 ∨ B.fraction.toNat = 0 ∧ n ≠ 0 := by
  rcases normal with ⟨lower, upper⟩
  rw [NoWrap, exponent_approximation]
  split_ifs with power
  · exact iff_of_true ⟨by omega, by omega⟩ (Or.inr power)
  · rw [or_iff_left power]
    omega

/-- What a run should store for a quotient among the normal numbers. -/
structure SoundQuotient (ITER : ℕ) (A B result : Word) : Prop where
  notZero : ¬ result.IsZero
  finite : result.Finite
  noWrap : NoWrap B (approximation B (ITER + 1))
  factor :
    1 / 2 ≤ result.value / (A.value / B.value) ∧
      result.value / (A.value / B.value) ≤ 2

/-- A small relative error is a factor close to one. -/
theorem factor_of_near {q x : ℚ} (nonzero : x ≠ 0)
    (near : |q - x| < 2 ^ (-20 : ℤ) * |x|) : 1 / 2 ≤ q / x ∧ q / x ≤ 2 := by
  have relative : |q / x - 1| < 2 ^ (-20 : ℤ) := by
    rw [div_sub_one nonzero, abs_div, div_lt_iff₀ (abs_pos.mpr nonzero)]
    exact near
  rw [abs_lt] at relative
  norm_num at relative
  exact ⟨by linarith, by linarith⟩

/-- The wrapped exponent is that of an infinity, and so is the product. -/
theorem infinite_of_wrap (normalA : A.Normal) (normalB : B.Normal) {n : ℕ}
    (notTiny : (2 ^ (-125 : ℤ) : ℚ) ≤ |A.value / B.value|)
    (wrap : ¬ NoWrap B (approximation B (n + 3))) :
    ∃ negative, (quotient (n + 2) A B).IsInfinity negative := by
  rw [noWrap_iff normalB, not_or] at wrap
  have top : B.exponent.toNat = 254 := by
    have upper := normalB.2
    omega
  have exponent :
      (reciprocal B (approximation B (n + 3))).exponent.toNat = 255 := by
    rw [exponent_reciprocal, exponent_approximation, if_neg wrap.2, top]
  have large : (2 : ℚ) ^ (2 : ℤ) ≤ |A.value| := by
    have divisorPart : (2 : ℚ) ^ (127 : ℤ) ≤ |B.value| := by
      have log := Int.zpow_log_le_self (b := 2) one_lt_two
        (abs_pos.mpr (value_ne_zero normalB))
      rw [normalB.log_value, top] at log
      exact_mod_cast log
    rw [abs_div, le_div_iff₀ (abs_pos.mpr (value_ne_zero normalB))] at notTiny
    refine le_trans ?_ notTiny
    calc
      (2 : ℚ) ^ (2 : ℤ) = 2 ^ (-125 : ℤ) * 2 ^ (127 : ℤ) := by norm_num
      _ ≤ 2 ^ (-125 : ℤ) * |B.value| :=
        mul_le_mul_of_nonneg_left divisorPart (by positivity)
  have dividend : 129 ≤ A.exponent.toNat := by
    have log := (Int.zpow_le_iff_le_log (b := 2) (x := 2) one_lt_two
      (abs_pos.mpr (value_ne_zero normalA))).mp (by exact_mod_cast large)
    rw [normalA.log_value] at log
    omega
  have fields :=
    multiplier_infinite (A := A) (B := reciprocal B (approximation B (n + 3)))
      (Or.inr (by rw [exponentSum, exponent]; omega))
  rw [quotient_eq]
  exact ⟨_, fields⟩

/--
With at least two turns, and a quotient among the normal numbers, a run stores
an ordinary number within a factor of two of the quotient if and only if the
divisor is below 2^127, or is 2^127 and the run takes a third turn.  Otherwise
it stores an infinity.
-/
theorem divider_sound_iff (ITER : ℕ) (A B : Word) (divider : Divider)
    (iterations : 2 ≤ ITER) (normalA : A.Normal) (normalB : B.Normal)
    (notTiny : (2 ^ (-125 : ℤ) : ℚ) ≤ |A.value / B.value|)
    (notHuge : |A.value / B.value| ≤ 2 ^ 127)
    (idle : divider.divider_counter = 0) :
    let result := ((Divider.posedge ITER true A B)^[ITER + 3] divider).result
    (SoundQuotient ITER A B result ↔
        B.exponent.toNat ≤ 253 ∨ B.fraction.toNat = 0 ∧ 3 ≤ ITER) ∧
      (SoundQuotient ITER A B result ∨
        ∃ negative, result.IsInfinity negative) := by
  have nonzero : A ≠ 0 := by
    rintro rfl
    exact absurd normalA (by decide)
  obtain ⟨n, rfl⟩ : ∃ n, ITER = n + 2 := ⟨ITER - 2, by omega⟩
  have wraps :
      NoWrap B (approximation B (n + 3)) ↔
        B.exponent.toNat ≤ 253 ∨ B.fraction.toNat = 0 ∧ 3 ≤ n + 2 := by
    rw [noWrap_iff normalB]
    omega
  rw [result_run nonzero idle, ← wraps]
  by_cases noWrap : NoWrap B (approximation B (n + 3))
  · rcases approximation_large B n with ⟨r, encodes, large, near⟩
    rcases quotient_near normalA normalB encodes large near noWrap notTiny
        notHuge
      with ⟨normal, -, error⟩
    have sound : SoundQuotient (n + 2) A B (quotient (n + 2) A B) := by
      rw [quotient_eq]
      refine ⟨fun zero => ?_, normal.2, noWrap, ?_⟩
      · exact absurd zero.1 (Nat.one_le_iff_ne_zero.mp normal.1)
      · exact factor_of_near
          (div_ne_zero (value_ne_zero normalA) (value_ne_zero normalB)) error
    exact ⟨iff_of_true sound noWrap, Or.inl sound⟩
  · exact ⟨iff_of_false (fun sound => noWrap sound.noWrap) noWrap,
      Or.inr (infinite_of_wrap normalA normalB notTiny noWrap)⟩

/-- The division 3.0 / 2.0 of the test bench meets the condition. -/
theorem divider_sound_iff_sample :
    let result :=
      ((Divider.posedge 3 true 0x40400000#32 0x40000000#32)^[6]
        ⟨0, 0, 0, 0⟩).result
    (SoundQuotient 3 0x40400000#32 0x40000000#32 result ↔
        (exponent 0x40000000#32).toNat ≤ 253 ∨
          (fraction 0x40000000#32).toNat = 0 ∧ 3 ≤ 3) ∧
      (SoundQuotient 3 0x40400000#32 0x40000000#32 result ∨
        ∃ negative, result.IsInfinity negative) :=
  divider_sound_iff 3 0x40400000#32 0x40000000#32 ⟨0, 0, 0, 0⟩ (by decide)
    (by decide) (by decide) (abs_quotient_sample.ge.trans' (by norm_num))
    (abs_quotient_sample.trans_le (by norm_num)) rfl

/-- 1.5 * 2^127 divided by itself is an infinity. -/
theorem large_divisor_overflows :
    Normal 0x7f400000#32 ∧
      value 0x7f400000#32 / value 0x7f400000#32 = 1 ∧
      ((Divider.posedge 4 true 0x7f400000#32 0x7f400000#32)^[7]
          ⟨0, 0, 0, 0⟩).result = 0x7f800000#32 ∧
      ¬ SoundQuotient 4 0x7f400000#32 0x7f400000#32
        ((Divider.posedge 4 true 0x7f400000#32 0x7f400000#32)^[7]
          ⟨0, 0, 0, 0⟩).result := by
  have result :
      ((Divider.posedge 4 true 0x7f400000#32 0x7f400000#32)^[7]
        ⟨0, 0, 0, 0⟩).result = 0x7f800000#32 := by
    decide +kernel
  have normal : Word.Normal 0x7f400000#32 := by decide
  refine ⟨normal, div_self (value_ne_zero normal), result, fun sound => ?_⟩
  rw [result] at sound
  exact absurd sound.finite (by decide)

end FederatedEdge.Fpga.Divider
