import FederatedEdge.Fpga.AdderSpecial

/-!
# How far a sum is from its operands

An operand which is 24 exponents below the other one is lost.  A closer one
changes the other one, except that it may cancel a power of two.  In between the
exponents at which the result could leave the normal numbers, a sum lies between
its larger operand and the exact sum, up to the last place.
-/

namespace FederatedEdge.Fpga

open Word

variable {A B : Word}

/-! ## Exponents -/

section Ordered

variable (ordered : B.magnitude ≤ A.magnitude)

include ordered

/-- A smaller operand with a much smaller exponent is shifted out. -/
theorem addOrdered_far (far : B.exponent.toNat + 24 ≤ A.exponent.toNat) :
    addOrdered A B = A := by
  have shiftedOut : aligned A B = 0 := by
    rw [aligned, distance]
    apply Nat.div_eq_of_lt
    exact B.mantissa_upper.trans_le (Nat.pow_le_pow_right two_pos (by omega))
  have total : sum A B = A.mantissa.toNat := by
    rw [sum, shiftedOut, Nat.add_zero, Nat.sub_zero, ite_self]
  have fields :=
    addOrdered_inPlace ordered (by rw [total]; exact A.mantissa_lower)
      (by rw [total]; exact A.mantissa_upper)
  rw [fields.eq_iff, total, toNat_mantissa, Nat.add_sub_cancel_left]
  exact ⟨rfl, rfl, rfl⟩

theorem exponent_addOrdered_le :
    (addOrdered A B).exponent.toNat ≤ A.exponent.toNat + 1 := by
  by_cases carry : 2 ^ 24 ≤ sum A B
  · rw [(addOrdered_carry ordered carry).2.1]
    exact Nat.min_le_left _ _
  · rcases Nat.eq_zero_or_pos (sum A B) with none | some
    · rw [(addOrdered_zero ordered none).2.1]
      exact Nat.le_succ _
    · rw [(addOrdered_shift ordered some.ne' (Nat.not_le.mp carry)).2.1]
      omega

/-- Operands of the same sign do not lose their leading one. -/
theorem le_exponent_addOrdered (sameSign : A.sign = B.sign) :
    A.exponent.toNat ≤ (addOrdered A B).exponent.toNat := by
  have leading := leading_sum sameSign
  have below := A.exponent.isLt
  by_cases carry : 2 ^ 24 ≤ sum A B
  · rw [(addOrdered_carry ordered carry).2.1]
    omega
  · rw [(addOrdered_inPlace ordered leading (Nat.not_le.mp carry)).2.1]

theorem sign_addOrdered : (addOrdered A B).sign = A.sign := by
  by_cases carry : 2 ^ 24 ≤ sum A B
  · exact (addOrdered_carry ordered carry).1
  · rcases Nat.eq_zero_or_pos (sum A B) with none | some
    · exact (addOrdered_zero ordered none).1
    · exact (addOrdered_shift ordered some.ne' (Nat.not_le.mp carry)).1

end Ordered

theorem ieee754_adder_far (far : A.exponent.toNat + 24 ≤ B.exponent.toNat) :
    ieee754_adder A B = B := by
  have fractionA := A.fraction.isLt
  have order : A.magnitude ≤ B.magnitude := by
    rw [magnitude, magnitude]
    omega
  rw [ieee754_adder_eq, larger, smaller, if_neg (Nat.not_lt.mpr order),
    if_neg (Nat.not_lt.mpr order)]
  exact addOrdered_far order far

theorem ieee754_adder_far_left
    (far : B.exponent.toNat + 24 ≤ A.exponent.toNat) :
    ieee754_adder A B = A := by
  have fractionB := B.fraction.isLt
  have order : B.magnitude < A.magnitude := by
    rw [magnitude, magnitude]
    omega
  rw [ieee754_adder_eq, larger, smaller, if_pos order, if_pos order]
  exact addOrdered_far order.le far

theorem exponent_adder_le {bound : ℕ} (left : A.exponent.toNat ≤ bound)
    (right : B.exponent.toNat ≤ bound) :
    (ieee754_adder A B).exponent.toNat ≤ bound + 1 := by
  have below := exponent_addOrdered_le (magnitude_smaller_le A B)
  rw [← ieee754_adder_eq] at below
  rcases ordered_cases A B with ⟨-, first, -⟩ | ⟨-, first, -⟩
  · rw [first] at below
    omega
  · rw [first] at below
    omega

/-- A sum of positive words is at least as large as both of them. -/
theorem positive_adder (positiveA : A.sign = false) (positiveB : B.sign = false) :
    (ieee754_adder A B).sign = false ∧
      A.exponent.toNat ≤ (ieee754_adder A B).exponent.toNat ∧
      B.exponent.toNat ≤ (ieee754_adder A B).exponent.toNat := by
  have order := magnitude_smaller_le A B
  have exponents := exponent_le order
  have sameSign : (larger A B).sign = (smaller A B).sign :=
    (sign_ordered_iff A B).mpr (positiveA.trans positiveB.symm)
  have above := le_exponent_addOrdered order sameSign
  have sign := sign_addOrdered order
  rw [← ieee754_adder_eq] at above sign
  rcases ordered_cases A B with ⟨-, first, second⟩ | ⟨-, first, second⟩
  · rw [first, second] at exponents
    rw [first] at above sign
    exact ⟨sign.trans positiveA, above, exponents.trans above⟩
  · rw [first, second] at exponents
    rw [first] at above sign
    exact ⟨sign.trans positiveB, exponents.trans above, above⟩

/-- Positive words with the same exponent have a sum with the next one. -/
theorem positive_adder_carry (positiveA : A.sign = false)
    (positiveB : B.sign = false) (same : A.exponent.toNat = B.exponent.toNat)
    (finite : A.exponent.toNat ≤ 254) :
    A.exponent.toNat + 1 ≤ (ieee754_adder A B).exponent.toNat := by
  have order := magnitude_smaller_le A B
  have signs := (sign_ordered_iff A B).mpr (positiveA.trans positiveB.symm)
  have exponents :
      (larger A B).exponent.toNat = A.exponent.toNat ∧
        (smaller A B).exponent.toNat = A.exponent.toNat := by
    rcases ordered_cases A B with ⟨-, first, second⟩ | ⟨-, first, second⟩
    · rw [first, second]
      exact ⟨rfl, same.symm⟩
    · rw [first, second]
      exact ⟨same.symm, rfl⟩
  have together : distance (larger A B) (smaller A B) = 0 := by
    rw [distance]
    omega
  have carry : 2 ^ 24 ≤ sum (larger A B) (smaller A B) := by
    have left := (larger A B).mantissa_lower
    have right := (smaller A B).mantissa_lower
    rw [sum, if_pos signs, aligned, together, pow_zero, Nat.div_one]
    omega
  rw [ieee754_adder_eq, (addOrdered_carry order carry).2.1]
  omega

/-! ## Operands which change the other one -/

/-- Only an aligned operand as large as the other one cancels it. -/
theorem sum_ne_zero
    (together : distance A B = 0 → B.mantissa.toNat < A.mantissa.toNat) :
    sum A B ≠ 0 := by
  have lower := A.mantissa_lower
  have upper := B.mantissa_upper
  have less : aligned A B < A.mantissa.toNat := by
    rcases Nat.eq_zero_or_pos (distance A B) with same | apart
    · rw [aligned, same, pow_zero, Nat.div_one]
      exact together same
    · have half : aligned A B ≤ B.mantissa.toNat / 2 ^ 1 :=
        Nat.div_le_div_left (Nat.pow_le_pow_right two_pos apart) two_pos
      omega
  rw [sum]
  split_ifs <;> omega

/-- Only another power of two cancels a power of two. -/
theorem sum_ne_zero_of_fraction (ordered : B.magnitude ≤ A.magnitude)
    (powerOfTwo : A.fraction.toNat = 0) (nonzero : B.fraction.toNat ≠ 0) :
    sum A B ≠ 0 := by
  have stored := A.toNat_mantissa
  have other := B.toNat_mantissa
  refine sum_ne_zero fun same => ?_
  have below := mantissa_le_widened ordered
  rw [widened, same, pow_zero, mul_one] at below
  omega

/-- A strictly smaller operand cancels nothing. -/
theorem sum_ne_zero_of_lt (order : B.magnitude < A.magnitude) :
    sum A B ≠ 0 := by
  have exponents := exponent_le order.le
  refine sum_ne_zero fun same => ?_
  rw [distance] at same
  rw [magnitude, magnitude] at order
  rw [toNat_mantissa, toNat_mantissa]
  omega

/-- The larger operand is not the sum, unless it is cancelled. -/
theorem addOrdered_ne_larger (ordered : B.magnitude ≤ A.magnitude)
    (normal : A.Normal) (close : A.exponent.toNat ≤ B.exponent.toNat + 23)
    (notCancelled : A.fraction.toNat = 0 → sum A B ≠ 0) :
    addOrdered A B ≠ A := by
  rcases normal with ⟨lower, upper⟩
  have stored := A.toNat_mantissa
  have mantissa := A.mantissa_upper
  have kept : 1 ≤ aligned A B := by
    rw [aligned, Nat.one_le_div_iff (Nat.two_pow_pos _)]
    refine le_trans (Nat.pow_le_pow_right two_pos ?_) B.mantissa_lower
    rw [distance]
    omega
  by_cases sameSign : A.sign = B.sign
  · have total : sum A B = A.mantissa.toNat + aligned A B := by
      rw [sum, if_pos sameSign]
    by_cases carry : 2 ^ 24 ≤ sum A B
    · rw [ne_eq, (addOrdered_carry ordered carry).eq_iff]
      omega
    · rw [ne_eq, (addOrdered_inPlace ordered (by omega)
        (Nat.not_le.mp carry)).eq_iff]
      omega
  · have total : sum A B = A.mantissa.toNat - aligned A B := by
      rw [sum, if_neg sameSign]
    have noCarry : sum A B < 2 ^ 24 := by omega
    by_cases leading : 2 ^ 23 ≤ sum A B
    · rw [ne_eq, (addOrdered_inPlace ordered leading noCarry).eq_iff]
      omega
    · rcases Nat.eq_zero_or_pos (sum A B) with none | some
      · rw [ne_eq, (addOrdered_zero ordered none).eq_iff]
        rintro ⟨-, -, zero⟩
        exact notCancelled zero.symm none
      · have log : Nat.log 2 (sum A B) < 23 :=
          Nat.log_lt_of_lt_pow some.ne' (Nat.not_le.mp leading)
        have moves : 0 < shiftUp (sum A B) A.exponent.toNat := by
          rw [shiftUp]
          omega
        rw [ne_eq, (addOrdered_shift ordered some.ne' noCarry).eq_iff]
        omega

/-- Nor is the smaller one. -/
theorem addOrdered_ne_smaller (order : B.magnitude < A.magnitude)
    (upper : B.exponent.toNat ≤ 254) : addOrdered A B ≠ B := by
  have ordered := order.le
  have sign := sign_addOrdered ordered
  have stored := A.toNat_mantissa
  have fractionB := B.fraction.isLt
  intro same
  rw [same] at sign
  have leading := leading_sum sign.symm
  have total : sum A B = A.mantissa.toNat + aligned A B := by
    rw [sum, if_pos sign.symm]
  have exponents := exponent_le ordered
  rw [magnitude, magnitude] at order
  by_cases carry : 2 ^ 24 ≤ sum A B
  · rw [(addOrdered_carry ordered carry).eq_iff] at same
    omega
  · rw [(addOrdered_inPlace ordered leading (Nat.not_le.mp carry)).eq_iff]
      at same
    omega

/--
A sum differs from its second operand if the first one is at most 23 exponents
below it and does not cancel a power of two.
-/
theorem adder_ne_right (normal : B.Normal)
    (close : B.exponent.toNat ≤ A.exponent.toNat + 23)
    (notCancelled : B.sign = A.sign ∨ A.fraction.toNat ≠ 0) :
    ieee754_adder A B ≠ B := by
  rw [ieee754_adder_eq]
  rcases ordered_cases A B with ⟨order, first, second⟩ | ⟨order, first, second⟩
  · rw [first, second]
    exact addOrdered_ne_smaller order normal.2
  · rw [first, second]
    refine addOrdered_ne_larger order normal close fun powerOfTwo => ?_
    rcases notCancelled with sameSign | nonzero
    · exact ((Nat.two_pow_pos 23).trans_le (leading_sum sameSign)).ne'
    · exact sum_ne_zero_of_fraction order powerOfTwo nonzero

theorem eq_of_magnitude (sameSign : A.sign = B.sign)
    (sameMagnitude : A.magnitude = B.magnitude) : A = B := by
  have fractionA := A.fraction.isLt
  have fractionB := B.fraction.isLt
  rw [magnitude, magnitude] at sameMagnitude
  exact eq_of_fields sameSign (by omega) (by omega)

/-- A normal word is its own sum with exactly the words far below it. -/
theorem adder_eq_left_iff (normal : A.Normal) :
    ieee754_adder A B = A ↔ B.exponent.toNat + 24 ≤ A.exponent.toNat := by
  constructor
  · intro same
    by_contra near
    have close : A.exponent.toNat ≤ B.exponent.toNat + 23 := by omega
    rw [ieee754_adder_eq] at same
    rcases ordered_cases A B with
      ⟨order, first, second⟩ | ⟨order, first, second⟩
    · rw [first, second] at same
      exact addOrdered_ne_larger order.le normal close
        (fun _ => sum_ne_zero_of_lt order) same
    · rw [first, second] at same
      have sign := sign_addOrdered order
      rw [same] at sign
      rcases Nat.lt_or_eq_of_le order with less | equal
      · exact addOrdered_ne_smaller less normal.2 same
      · have word : A = B := eq_of_magnitude sign equal
        subst word
        exact addOrdered_ne_larger order normal close
          (fun _ => ((Nat.two_pow_pos 23).trans_le (leading_sum sign)).ne')
          same
  · exact ieee754_adder_far_left

/-! ## Values -/

/-- Far from both ends of the exponents the result is normal. -/
structure Inner (A : Word) : Prop where
  lower : 24 ≤ A.exponent.toNat
  upper : A.exponent.toNat ≤ 253

theorem Inner.normal (inner : Inner A) : A.Normal :=
  ⟨by have lower := inner.lower; omega, by have upper := inner.upper; omega⟩

/-- The sum as it is stored; a sum of zero is stored as the hidden bit alone. -/
def shiftedSum (A B : Word) : ℕ :=
  if 2 ^ 24 ≤ sum A B then sum A B / 2 * 2
  else if sum A B = 0 then 2 ^ 23
  else sum A B

section Inner

variable (ordered : B.magnitude ≤ A.magnitude) (inner : Inner A)

include ordered inner

/-- The mantissa of the result in the scale of the larger operand. -/
theorem encodes_addOrdered :
    (addOrdered A B).Encodes
      (signed A.sign
        (shiftedSum A B * 2 ^ ((A.exponent.toNat : ℤ) - 150))) := by
  rcases inner with ⟨lower, upper⟩
  rw [shiftedSum]
  split_ifs with carry none
  · have encodes := encodes_addOrdered_carry ordered (by omega) upper carry
    have scale :
        ((sum A B / 2 : ℕ) * 2 ^ ((A.exponent.toNat : ℤ) + 1 - 150) : ℚ) =
          (sum A B / 2 * 2 : ℕ) * 2 ^ ((A.exponent.toNat : ℤ) - 150) := by
      rw [show (A.exponent.toNat : ℤ) + 1 - 150 = A.exponent.toNat - 150 + 1 by
        ring, zpow_add_one₀ two_ne_zero]
      push_cast
      ring
    rw [scale] at encodes
    exact encodes
  · have encodes :=
      (addOrdered_zero ordered none).encodes (by omega) (by omega)
    rw [Nat.add_zero] at encodes
    exact encodes
  · exact encodes_addOrdered_shift ordered (by omega) none (Nat.not_le.mp carry)
      (by omega)

omit inner in
theorem shiftedSum_of_same_sign (sameSign : A.sign = B.sign) :
    A.mantissa.toNat ≤ shiftedSum A B ∧
      shiftedSum A B ≤ A.mantissa.toNat + aligned A B ∧
      A.mantissa.toNat + aligned A B ≤ shiftedSum A B + 1 := by
  have below := aligned_le ordered
  have leading := leading_sum sameSign
  have upper := A.mantissa_upper
  have total : sum A B = A.mantissa.toNat + aligned A B := by
    rw [sum, if_pos sameSign]
  rw [shiftedSum]
  split_ifs with carry none
  · omega
  · omega
  · omega

omit inner in
theorem shiftedSum_of_different_sign (differentSign : A.sign ≠ B.sign) :
    shiftedSum A B ≤ A.mantissa.toNat ∧
      A.mantissa.toNat ≤ shiftedSum A B + aligned A B ∧
      (aligned A B < A.mantissa.toNat →
        shiftedSum A B + aligned A B = A.mantissa.toNat) := by
  have below := aligned_le ordered
  have leading := A.mantissa_lower
  have upper := A.mantissa_upper
  have total : sum A B = A.mantissa.toNat - aligned A B := by
    rw [sum, if_neg differentSign]
  rw [shiftedSum]
  split_ifs with carry none
  · omega
  · omega
  · omega

omit inner in
/-- The aligned mantissa is the smaller operand, cut off. -/
theorem aligned_bounds (normalB : B.Normal) :
    aligned A B * 2 ^ ((A.exponent.toNat : ℤ) - 150) ≤ |B.value| ∧
      |B.value| < (aligned A B + 1) * 2 ^ ((A.exponent.toNat : ℤ) - 150) := by
  have unit : (0 : ℚ) < 2 ^ ((B.exponent.toNat : ℤ) - 150) :=
    zpow_pos two_pos _
  have parts := aligned_add_dropped A B
  have few := dropped_lt A B
  rw [normalB.abs_value, place_eq ordered, ← mul_assoc, ← mul_assoc,
    mul_le_mul_iff_of_pos_right unit, mul_lt_mul_iff_of_pos_right unit]
  constructor
  · exact_mod_cast (by omega :
      aligned A B * 2 ^ distance A B ≤ B.mantissa.toNat)
  · have next :
        (aligned A B + 1) * 2 ^ distance A B =
          aligned A B * 2 ^ distance A B + 2 ^ distance A B := by
      ring
    exact_mod_cast (by omega :
      B.mantissa.toNat < (aligned A B + 1) * 2 ^ distance A B)

/-- The sum differs from the larger operand by the smaller one at most. -/
theorem addOrdered_between (normalB : B.Normal) :
    (addOrdered A B).Normal ∧
      |(addOrdered A B).value - A.value| ≤ |B.value| := by
  rcases encodes_addOrdered ordered inner with ⟨normal, value⟩
  have unit : (0 : ℚ) < 2 ^ ((A.exponent.toNat : ℤ) - 150) := zpow_pos two_pos _
  have near :
      (shiftedSum A B : ℚ) - A.mantissa.toNat ≤ aligned A B ∧
        -(aligned A B : ℚ) ≤ shiftedSum A B - A.mantissa.toNat := by
    rw [sub_le_iff_le_add', neg_le_sub_iff_le_add]
    by_cases sameSign : A.sign = B.sign
    · rcases shiftedSum_of_same_sign ordered sameSign with ⟨above, below, -⟩
      exact ⟨by exact_mod_cast below,
        by exact_mod_cast Nat.le_add_right_of_le above⟩
    · rcases shiftedSum_of_different_sign ordered sameSign with ⟨below, above, -⟩
      exact ⟨by exact_mod_cast Nat.le_add_right_of_le below,
        by exact_mod_cast above⟩
  refine ⟨normal, ?_⟩
  rw [value, inner.normal.value_eq, signed_sub, abs_signed, ← sub_mul, abs_mul,
    abs_of_pos unit]
  refine le_trans ?_ (aligned_bounds ordered normalB).1
  exact mul_le_mul_of_nonneg_right (abs_le.mpr near.symm) unit.le

omit inner in
/-- An aligned mantissa which is as large as the other one cancels it. -/
theorem value_of_cancelled (normalA : A.Normal) (normalB : B.Normal)
    (cancelled : A.mantissa.toNat ≤ aligned A B) : |B.value| = |A.value| := by
  have parts := aligned_add_dropped A B
  have few := dropped_lt A B
  have lower := A.mantissa_lower
  have upper := B.mantissa_upper
  have below := aligned_le ordered
  have same : distance A B = 0 := by
    by_contra apart
    have double : 2 ^ 1 ≤ 2 ^ distance A B :=
      Nat.pow_le_pow_right two_pos (Nat.one_le_iff_ne_zero.mpr apart)
    have product := Nat.mul_le_mul_left (aligned A B) double
    omega
  rw [same, pow_zero, mul_one] at parts
  rw [same, pow_zero] at few
  have mantissas : B.mantissa.toNat = A.mantissa.toNat := by omega
  rw [normalA.abs_value, normalB.abs_value, place_eq ordered, same, mantissas,
    pow_zero, one_mul]

/-- Without full cancellation the sum is exact up to two last places. -/
theorem addOrdered_error (normalB : B.Normal)
    (notCancelled : A.value + B.value ≠ 0) :
    |(addOrdered A B).value - (A.value + B.value)| ≤
      |A.value| * 2 ^ (-22 : ℤ) := by
  have value := (encodes_addOrdered ordered inner).2
  rcases aligned_bounds ordered normalB with ⟨least, most⟩
  have exactA := inner.normal.value_eq
  have sizeA := inner.normal.abs_value
  have exactB := B.value_eq_signed
  have unit : (0 : ℚ) < 2 ^ ((A.exponent.toNat : ℤ) - 150) := zpow_pos two_pos _
  generalize (2 : ℚ) ^ ((A.exponent.toNat : ℤ) - 150) = place at *
  have places : 2 * place ≤ |A.value| * 2 ^ (-22 : ℤ) := by
    have leading : (2 ^ 23 : ℚ) ≤ A.mantissa.toNat := by
      exact_mod_cast A.mantissa_lower
    have product := mul_le_mul_of_nonneg_right leading unit.le
    have scale : (2 : ℚ) ^ (-22 : ℤ) = 2 / 2 ^ 23 := by norm_num
    rw [sizeA, scale]
    linarith
  refine le_trans ?_ places
  rw [value, exactA, exactB]
  by_cases sameSign : A.sign = B.sign
  · rcases shiftedSum_of_same_sign ordered sameSign with ⟨-, below, above⟩
    have upper : (shiftedSum A B : ℚ) ≤ A.mantissa.toNat + aligned A B := by
      exact_mod_cast below
    have lower : (A.mantissa.toNat : ℚ) + aligned A B ≤ shiftedSum A B + 1 := by
      exact_mod_cast above
    have upperPlace := mul_le_mul_of_nonneg_right upper unit.le
    have lowerPlace := mul_le_mul_of_nonneg_right lower unit.le
    rw [← sameSign, signed_add, signed_sub, abs_signed, abs_le]
    constructor <;> linarith
  · have exact := (shiftedSum_of_different_sign ordered sameSign).2.2
    have other : B.sign = !A.sign := Bool.eq_not.mpr (Ne.symm sameSign)
    have kept : aligned A B < A.mantissa.toNat := by
      by_contra cancelled
      apply notCancelled
      have equal :=
        value_of_cancelled ordered inner.normal normalB (Nat.not_lt.mp cancelled)
      rw [exactB, other, signed_not, equal, sizeA, ← exactA, add_neg_cancel]
    have mantissas : (shiftedSum A B : ℚ) + aligned A B = A.mantissa.toNat := by
      exact_mod_cast exact kept
    rw [other, signed_not, ← sub_eq_add_neg, signed_sub, signed_sub, abs_signed,
      abs_le, ← mantissas]
    constructor <;> linarith

end Inner

/-- The error of a sum in its larger operand, and beside the exact sum. -/
theorem ieee754_adder_near (inner : Inner (larger A B)) (normalA : A.Normal)
    (normalB : B.Normal) :
    (ieee754_adder A B).Normal ∧
      |(ieee754_adder A B).value - (larger A B).value| ≤
        |(smaller A B).value| ∧
      (A.value + B.value ≠ 0 →
        |(ieee754_adder A B).value - (A.value + B.value)| ≤
          |(larger A B).value| * 2 ^ (-22 : ℤ)) := by
  rcases normal_ordered normalA normalB with ⟨-, normalS, same⟩
  have order := magnitude_smaller_le A B
  rw [ieee754_adder_eq, ← same]
  exact ⟨(addOrdered_between order inner normalS).1,
    (addOrdered_between order inner normalS).2,
    addOrdered_error order inner normalS⟩

/-- The larger operand is far from both ends if both are from the upper one. -/
theorem inner_larger
    (lower : 24 ≤ A.exponent.toNat ∨ 24 ≤ B.exponent.toNat)
    (upperA : A.exponent.toNat ≤ 253) (upperB : B.exponent.toNat ≤ 253) :
    Inner (larger A B) := by
  have exponents := exponent_le (magnitude_smaller_le A B)
  rcases ordered_cases A B with ⟨-, first, second⟩ | ⟨-, first, second⟩
  · rw [first, second] at exponents
    rw [first]
    exact ⟨by omega, upperA⟩
  · rw [first, second] at exponents
    rw [first]
    exact ⟨by omega, upperB⟩

section Sum

variable (inner : Inner (larger A B)) (normalA : A.Normal) (normalB : B.Normal)

include inner normalA normalB

theorem abs_adder_le :
    |(ieee754_adder A B).value| ≤ |A.value| + |B.value| := by
  have near := (ieee754_adder_near inner normalA normalB).2.1
  have size := abs_sub_abs_le_abs_sub (ieee754_adder A B).value (larger A B).value
  rcases ordered_cases A B with ⟨-, first, second⟩ | ⟨-, first, second⟩
  · rw [first, second] at near
    rw [first] at size
    linarith
  · rw [first, second] at near
    rw [first] at size
    linarith

/-- A smaller first operand moves the second one by its size at most. -/
theorem abs_adder_sub_le (order : |A.value| < |B.value|) :
    |(ieee754_adder A B).value - B.value| ≤ |A.value| := by
  have magnitudes := (magnitude_lt_iff B A).mpr order
  have near := (ieee754_adder_near inner normalA normalB).2.1
  rw [larger, smaller, if_neg (Nat.lt_asymm magnitudes),
    if_neg (Nat.lt_asymm magnitudes)] at near
  exact near

theorem abs_adder_error_le {bound : ℚ} (boundA : |A.value| ≤ bound)
    (boundB : |B.value| ≤ bound) (notCancelled : A.value + B.value ≠ 0) :
    |(ieee754_adder A B).value - (A.value + B.value)| ≤
      bound * 2 ^ (-22 : ℤ) := by
  have error := (ieee754_adder_near inner normalA normalB).2.2 notCancelled
  refine error.trans (mul_le_mul_of_nonneg_right ?_ (zpow_pos two_pos _).le)
  rcases ordered_cases A B with ⟨-, first, -⟩ | ⟨-, first, -⟩
  · rw [first]
    exact boundA
  · rw [first]
    exact boundB

end Sum

/-- A larger first operand decides about the sign. -/
theorem sign_adder_of_lt (order : |B.value| < |A.value|) :
    (ieee754_adder A B).sign = A.sign := by
  have magnitudes := (magnitude_lt_iff A B).mpr order
  rw [ieee754_adder_eq, larger, smaller, if_pos magnitudes, if_pos magnitudes]
  exact sign_addOrdered magnitudes.le

end FederatedEdge.Fpga
