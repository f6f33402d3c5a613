import FederatedEdge.Fpga.Number

/-!
# The adder in natural numbers

The adder orders its operands by magnitude, aligns the smaller one by dividing
its mantissa by a power of two, and adds or subtracts.  No step of this wraps,
so the fields of the result are natural number expressions of the fields of the
ordered operands.  What differs from case to case is how the sum is brought
back to 24 bits.
-/

namespace FederatedEdge.Fpga

open FederatedEdge.Library

namespace Word

/-- The exponent field and the fraction as one number. -/
def magnitude (A : Word) : ℕ :=
  A.exponent.toNat * 2 ^ 23 + A.fraction.toNat

/-- The sign, the exponent field and the fraction. -/
def HasFields (A : Word) (negative : Bool) (exponent fraction : ℕ) : Prop :=
  A.sign = negative ∧ A.exponent.toNat = exponent ∧
    A.fraction.toNat = fraction

theorem hasFields_pack (negative : Bool) (exponent : BitVec 8)
    (fraction : BitVec 23) :
    (pack negative exponent fraction).HasFields negative exponent.toNat
      fraction.toNat := by
  refine ⟨sign_pack _ _ _, ?_, ?_⟩
  · rw [exponent_pack]
  · rw [fraction_pack]

end Word

open Word

variable {A B : Word}

/-! ## The ordered operands -/

theorem compare_magnitude (A B : Word) :
    ieee754_compare (.pack false A.exponent A.fraction)
        (.pack false B.exponent B.fraction) =
      decide (B.magnitude < A.magnitude) := by
  have exponentA := A.exponent.isLt
  have exponentB := B.exponent.isLt
  have fractionA := A.fraction.isLt
  have fractionB := B.fraction.isLt
  simp only [ieee754_compare, sign_pack, exponent_pack, fraction_pack,
    bne_self_eq_false, Bool.false_eq_true, if_false, bne_iff_ne, ne_eq]
  by_cases same : A.exponent = B.exponent
  · rw [if_neg (not_not.mpr same), magnitude, magnitude, same]
    refine decide_eq_decide.mpr ?_
    rw [BitVec.lt_def]
    omega
  · have different : A.exponent.toNat ≠ B.exponent.toNat :=
      fun equal => same (BitVec.eq_of_toNat_eq equal)
    rw [if_pos same, magnitude, magnitude]
    refine decide_eq_decide.mpr ?_
    rw [BitVec.lt_def]
    omega

/-- `A_swap`, which is the second operand when the magnitudes are the same. -/
def larger (A B : Word) : Word :=
  if B.magnitude < A.magnitude then A else B

/-- `B_swap`. -/
def smaller (A B : Word) : Word :=
  if B.magnitude < A.magnitude then B else A

/-- The sum of the mantissas of ordered operands, with its carry. -/
def sumBits (A_swap B_swap : Word) : BitVec 25 :=
  let B_shifted_mantissa :=
    B_swap.mantissa >>> (A_swap.exponent - B_swap.exponent)
  if A_swap.sign = B_swap.sign then
    A_swap.mantissa.setWidth 25 + B_shifted_mantissa.setWidth 25
  else A_swap.mantissa.setWidth 25 - B_shifted_mantissa.setWidth 25

/-- Bringing the sum back to a mantissa of 24 bits. -/
def adjustSum (sum : BitVec 25) (Exponent : BitVec 8) :
    BitVec 24 × BitVec 8 :=
  if sum.getLsbD 24 then
    (sum.setWidth 24 >>> 1,
      if Exponent < 0xff#8 then Exponent + 1 else 0xff#8)
  else if sum.setWidth 24 = 0 then (0, Exponent)
  else adjustMantissa 24 (sum.setWidth 24) Exponent

/-- The adder behind the ordering of its operands. -/
def addOrdered (A_swap B_swap : Word) : Word :=
  let adjusted := adjustSum (sumBits A_swap B_swap) A_swap.exponent
  .pack A_swap.sign adjusted.2 (adjusted.1.setWidth 23)

theorem ieee754_adder_eq (A B : Word) :
    ieee754_adder A B = addOrdered (larger A B) (smaller A B) := by
  have behind (comp : Bool)
      (compared :
        ieee754_compare (.pack false A.exponent A.fraction)
          (.pack false B.exponent B.fraction) = comp) :
      ieee754_adder A B =
        addOrdered (if comp then A else B) (if comp then B else A) := by
    rw [ieee754_adder, compared, addOrdered, sumBits, adjustSum]
  rw [behind _ (compare_magnitude A B), larger, smaller]
  simp only [decide_eq_true_iff]

/-- The operands in their order, the first one if it is strictly larger. -/
theorem ordered_cases (A B : Word) :
    B.magnitude < A.magnitude ∧ larger A B = A ∧ smaller A B = B ∨
      A.magnitude ≤ B.magnitude ∧ larger A B = B ∧ smaller A B = A := by
  by_cases first : B.magnitude < A.magnitude
  · exact Or.inl ⟨first, if_pos first, if_pos first⟩
  · exact Or.inr ⟨Nat.le_of_not_lt first, if_neg first, if_neg first⟩

theorem magnitude_smaller_le (A B : Word) :
    (smaller A B).magnitude ≤ (larger A B).magnitude := by
  rcases ordered_cases A B with ⟨order, first, second⟩ | ⟨order, first, second⟩
  · rw [first, second]
    exact Nat.le_of_lt order
  · rw [first, second]
    exact order

/-! ## Aligning -/

/-- How far the exponents of ordered operands are apart. -/
def distance (A B : Word) : ℕ :=
  A.exponent.toNat - B.exponent.toNat

/-- The mantissa of the smaller operand in the scale of the larger one. -/
def aligned (A B : Word) : ℕ :=
  B.mantissa.toNat / 2 ^ distance A B

section Ordered

variable (ordered : B.magnitude ≤ A.magnitude)

include ordered

theorem exponent_le : B.exponent.toNat ≤ A.exponent.toNat := by
  have fractionA := A.fraction.isLt
  rw [magnitude, magnitude] at ordered
  omega

theorem aligned_le : aligned A B ≤ A.mantissa.toNat := by
  rw [aligned]
  rcases Nat.eq_zero_or_pos (distance A B) with same | apart
  · rw [same, pow_zero, Nat.div_one, toNat_mantissa, toNat_mantissa]
    rw [distance] at same
    rw [magnitude, magnitude] at ordered
    have exponents := exponent_le ordered
    omega
  · have halved :
        B.mantissa.toNat / 2 ^ distance A B ≤ B.mantissa.toNat / 2 ^ 1 :=
      Nat.div_le_div_left (Nat.pow_le_pow_right two_pos apart)
        (Nat.two_pow_pos 1)
    have upper := B.mantissa_upper
    have lower := A.mantissa_lower
    omega

theorem toNat_shifted :
    (B.mantissa >>> (A.exponent - B.exponent)).toNat = aligned A B := by
  have exponents := exponent_le ordered
  have shift : (A.exponent - B.exponent).toNat = distance A B := by
    rw [BitVec.toNat_sub_of_le (BitVec.le_def.mpr exponents), distance]
  rw [BitVec.ushiftRight_eq', BitVec.toNat_ushiftRight,
    Nat.shiftRight_eq_div_pow, shift, aligned]

end Ordered

/-! ## The sum -/

/-- The sum of the aligned mantissas. -/
def sum (A B : Word) : ℕ :=
  if A.sign = B.sign then A.mantissa.toNat + aligned A B
  else A.mantissa.toNat - aligned A B

/-- The sum fits into its 25 bits, and the difference is not negative. -/
theorem toNat_sumBits (ordered : B.magnitude ≤ A.magnitude) :
    (sumBits A B).toNat = sum A B := by
  have mantissa := A.mantissa_upper
  have below := aligned_le ordered
  have wide : (A.mantissa.setWidth 25).toNat = A.mantissa.toNat := by
    rw [BitVec.toNat_setWidth]
    omega
  have shifted :
      ((B.mantissa >>> (A.exponent - B.exponent)).setWidth 25).toNat =
        aligned A B := by
    rw [BitVec.toNat_setWidth, toNat_shifted ordered]
    omega
  rw [sumBits, sum]
  by_cases same : A.sign = B.sign
  · rw [if_pos same, if_pos same, BitVec.toNat_add, wide, shifted]
    omega
  · have order :
        (B.mantissa >>> (A.exponent - B.exponent)).setWidth 25 ≤
          A.mantissa.setWidth 25 := by
      rw [BitVec.le_def, wide, shifted]
      exact below
    rw [if_neg same, if_neg same, BitVec.toNat_sub_of_le order, wide, shifted]

/-! ## Back to 24 bits -/

section Adjust

variable {bits : BitVec 25} {total : ℕ}

theorem carry_iff (sameBits : bits.toNat = total) :
    bits.getLsbD 24 = true ↔ 2 ^ 24 ≤ total := by
  have same : bits.getLsbD 24 = bits.msb :=
    (BitVec.msb_eq_getLsbD_last bits).symm
  rw [same, BitVec.msb_eq_decide, decide_eq_true_iff, sameBits]

theorem toNat_setWidth_of_lt (sameBits : bits.toNat = total)
    (noCarry : total < 2 ^ 24) : (bits.setWidth 24).toNat = total := by
  rw [BitVec.toNat_setWidth, sameBits]
  exact Nat.mod_eq_of_lt noCarry

/-- A carry shifts the sum down and counts the exponent up. -/
theorem adjustSum_carry (sameBits : bits.toNat = total)
    (carry : 2 ^ 24 ≤ total) (Exponent : BitVec 8) :
    (adjustSum bits Exponent).1.toNat = (total - 2 ^ 24) / 2 ∧
      (adjustSum bits Exponent).2.toNat = min (Exponent.toNat + 1) 255 := by
  have upper := bits.isLt
  have exponentUpper := Exponent.isLt
  rw [adjustSum, if_pos ((carry_iff sameBits).mpr carry)]
  constructor
  · rw [BitVec.toNat_ushiftRight, BitVec.toNat_setWidth, sameBits,
      Nat.shiftRight_eq_div_pow]
    omega
  · have largest : (0xff#8).toNat = 255 := rfl
    have one : (1 : BitVec 8).toNat = 1 := rfl
    by_cases room : Exponent < 0xff#8
    · rw [if_pos room, BitVec.toNat_add]
      rw [BitVec.lt_def] at room
      omega
    · rw [if_neg room, largest]
      rw [BitVec.lt_def] at room
      omega

theorem adjustSum_zero (sameBits : bits.toNat = 0) (Exponent : BitVec 8) :
    adjustSum bits Exponent = (0, Exponent) := by
  have zero : bits.setWidth 24 = 0 :=
    BitVec.eq_of_toNat_eq (toNat_setWidth_of_lt sameBits (Nat.two_pow_pos 24))
  have noCarry : ¬ bits.getLsbD 24 = true :=
    mt (carry_iff sameBits).mp (Nat.not_le.mpr (Nat.two_pow_pos 24))
  rw [adjustSum, if_neg noCarry, if_pos zero]

/-- How far a mantissa is shifted up: to its leading one or to exponent zero. -/
def shiftUp (mantissa exponent : ℕ) : ℕ :=
  min (23 - Nat.log 2 mantissa) exponent

theorem shiftUp_stopped {mantissa exponent : ℕ}
    (stopped : 2 ^ 23 ≤ mantissa ∨ exponent = 0) :
    shiftUp mantissa exponent = 0 := by
  rw [shiftUp]
  rcases stopped with leading | exhausted
  · have log : 23 ≤ Nat.log 2 mantissa :=
      Nat.le_log_of_pow_le one_lt_two leading
    omega
  · rw [exhausted, Nat.min_zero]

/-- A shift by one leaves the shift of what it gives. -/
theorem shiftUp_double {mantissa exponent : ℕ} (nonzero : mantissa ≠ 0)
    (low : mantissa < 2 ^ 23) (positive : 0 < exponent) :
    shiftUp mantissa exponent =
      shiftUp (2 * mantissa) (exponent - 1) + 1 := by
  have longer : Nat.log 2 (2 * mantissa) = Nat.log 2 mantissa + 1 := by
    rw [mul_comm, Nat.log_mul_base one_lt_two nonzero]
  have short : Nat.log 2 mantissa < 23 := Nat.log_lt_of_lt_pow nonzero low
  rw [shiftUp, shiftUp, longer]
  omega

/-- The condition of the loop, in natural numbers. -/
theorem shifts_iff (Temp_Mantissa : BitVec 24) (Exponent : BitVec 8) :
    Temp_Mantissa.getLsbD 23 = false ∧ 0 < Exponent ↔
      Temp_Mantissa.toNat < 2 ^ 23 ∧ 0 < Exponent.toNat := by
  have leading : Temp_Mantissa.getLsbD 23 = Temp_Mantissa.msb :=
    (BitVec.msb_eq_getLsbD_last Temp_Mantissa).symm
  rw [leading, BitVec.msb_eq_decide, decide_eq_false_iff_not, Nat.not_le,
    BitVec.lt_def]
  exact Iff.rfl

/-- The loop shifts as far as its conditions and its limit allow. -/
theorem adjustMantissa_spec (n : ℕ) (Temp_Mantissa : BitVec 24)
    (Exponent : BitVec 8) (nonzero : Temp_Mantissa.toNat ≠ 0)
    (enough : shiftUp Temp_Mantissa.toNat Exponent.toNat ≤ n) :
    (adjustMantissa n Temp_Mantissa Exponent).1.toNat =
        Temp_Mantissa.toNat *
          2 ^ shiftUp Temp_Mantissa.toNat Exponent.toNat ∧
      (adjustMantissa n Temp_Mantissa Exponent).2.toNat =
        Exponent.toNat - shiftUp Temp_Mantissa.toNat Exponent.toNat := by
  induction n generalizing Temp_Mantissa Exponent with
  | zero =>
      rw [adjustMantissa, Nat.le_zero.mp enough, pow_zero, mul_one,
        Nat.sub_zero]
      exact ⟨rfl, rfl⟩
  | succ n inductionHypothesis =>
      rw [adjustMantissa]
      by_cases shifts : Temp_Mantissa.getLsbD 23 = false ∧ 0 < Exponent
      · rcases (shifts_iff _ _).mp shifts with ⟨low, positive⟩
        have doubled :
            (Temp_Mantissa <<< 1).toNat = 2 * Temp_Mantissa.toNat := by
          rw [BitVec.toNat_shiftLeft, Nat.shiftLeft_eq]
          omega
        have counted : (Exponent - 1).toNat = Exponent.toNat - 1 :=
          BitVec.toNat_sub_of_le (BitVec.le_def.mpr positive)
        have less := shiftUp_double nonzero low positive
        have rest :=
          inductionHypothesis (Temp_Mantissa <<< 1) (Exponent - 1)
            (by rw [doubled]; omega) (by rw [doubled, counted]; omega)
        rw [doubled, counted] at rest
        rw [if_pos shifts, rest.1, rest.2, less]
        exact ⟨by ring, by omega⟩
      · have stopped :
            2 ^ 23 ≤ Temp_Mantissa.toNat ∨ Exponent.toNat = 0 := by
          rw [shifts_iff] at shifts
          omega
        rw [if_neg shifts, shiftUp_stopped stopped, pow_zero, mul_one,
          Nat.sub_zero]
        exact ⟨rfl, rfl⟩

/-- Without a carry a sum which is not zero is shifted up. -/
theorem adjustSum_shift (sameBits : bits.toNat = total) (nonzero : total ≠ 0)
    (noCarry : total < 2 ^ 24) (Exponent : BitVec 8) :
    (adjustSum bits Exponent).1.toNat =
        total * 2 ^ shiftUp total Exponent.toNat ∧
      (adjustSum bits Exponent).2.toNat =
        Exponent.toNat - shiftUp total Exponent.toNat := by
  have same := toNat_setWidth_of_lt sameBits noCarry
  have notZero : ¬ bits.setWidth 24 = 0 := by
    intro zero
    rw [zero] at same
    exact nonzero same.symm
  rw [adjustSum, if_neg (mt (carry_iff sameBits).mp (Nat.not_le.mpr noCarry)),
    if_neg notZero]
  have spec :=
    adjustMantissa_spec 24 (bits.setWidth 24) Exponent
      (by rw [same]; exact nonzero) (by rw [shiftUp]; omega)
  rw [same] at spec
  exact spec

end Adjust

/-! ## The fields of the result -/

theorem hasFields_addOrdered {mantissa exponent : ℕ}
    (adjusted :
      (adjustSum (sumBits A B) A.exponent).1.toNat = mantissa ∧
        (adjustSum (sumBits A B) A.exponent).2.toNat = exponent) :
    (addOrdered A B).HasFields A.sign exponent (mantissa % 2 ^ 23) := by
  have fields :=
    hasFields_pack A.sign (adjustSum (sumBits A B) A.exponent).2
      ((adjustSum (sumBits A B) A.exponent).1.setWidth 23)
  rw [adjusted.2, BitVec.toNat_setWidth, adjusted.1] at fields
  exact fields

section Result

variable (ordered : B.magnitude ≤ A.magnitude)

include ordered

theorem sum_lt : sum A B < 2 ^ 25 := by
  rw [← toNat_sumBits ordered]
  exact (sumBits A B).isLt

theorem addOrdered_carry (carry : 2 ^ 24 ≤ sum A B) :
    (addOrdered A B).HasFields A.sign (min (A.exponent.toNat + 1) 255)
      ((sum A B - 2 ^ 24) / 2) := by
  have fields :=
    hasFields_addOrdered
      (adjustSum_carry (toNat_sumBits ordered) carry A.exponent)
  have upper := sum_lt ordered
  rw [Nat.mod_eq_of_lt (by omega)] at fields
  exact fields

theorem addOrdered_zero (zero : sum A B = 0) :
    (addOrdered A B).HasFields A.sign A.exponent.toNat 0 := by
  have adjusted :=
    adjustSum_zero ((toNat_sumBits ordered).trans zero) A.exponent
  have fields := hasFields_addOrdered (A := A) (B := B) ⟨rfl, rfl⟩
  rw [adjusted] at fields
  exact fields

theorem addOrdered_shift (nonzero : sum A B ≠ 0) (noCarry : sum A B < 2 ^ 24) :
    (addOrdered A B).HasFields A.sign
      (A.exponent.toNat - shiftUp (sum A B) A.exponent.toNat)
      (sum A B * 2 ^ shiftUp (sum A B) A.exponent.toNat % 2 ^ 23) :=
  hasFields_addOrdered
    (adjustSum_shift (toNat_sumBits ordered) nonzero noCarry A.exponent)

/-- A sum with its leading one in place is the mantissa of the result. -/
theorem addOrdered_inPlace (leading : 2 ^ 23 ≤ sum A B)
    (noCarry : sum A B < 2 ^ 24) :
    (addOrdered A B).HasFields A.sign A.exponent.toNat
      (sum A B - 2 ^ 23) := by
  have fields := addOrdered_shift ordered (by omega) noCarry
  rw [shiftUp_stopped (Or.inl leading), pow_zero, mul_one, Nat.sub_zero]
    at fields
  rw [show sum A B % 2 ^ 23 = sum A B - 2 ^ 23 by omega] at fields
  exact fields

end Result

end FederatedEdge.Fpga
