import FederatedEdge.Fpga.AdderRounding

/-!
# Integer and fractional parts

`ieee754_to_parts` shifts the mantissa by its distance from the binary point.
It keeps the unbiased exponent in an unsigned register, so that a negative one
counts as a large one, and a shift by more than the mantissa has bits leaves
nothing of it.
-/

namespace FederatedEdge.Fpga

open Word

structure Parts where
  integer_part : BitVec 32
  fractional_part : BitVec 32
  sign : Bool
deriving DecidableEq, Repr

def ieee754_to_parts (ieee754 : Word) : Parts :=
  let exponent : BitVec 8 := ieee754.exponent - 127#8
  let mantissa : BitVec 24 := ieee754.mantissa
  let integer_part : BitVec 32 :=
    -- a comparison of unsigned numbers, as in the next part
    if 0#8 ≤ exponent then
      mantissa.setWidth 32 >>> (23#32 - exponent.setWidth 32)
    else exponent.setWidth 32
  let fractional_part : BitVec 32 :=
    if 0#8 ≤ exponent then
      (mantissa.setWidth 32 &&&
          ((1#32 <<< (23#32 - exponent.setWidth 32)) - 1#32)) <<<
        (9#32 + exponent.setWidth 32)
    else mantissa.setWidth 32 <<< (-exponent)
  ⟨integer_part, fractional_part, ieee754.sign⟩

/-! ## The shifts -/

/-- The register for the unbiased exponent. -/
def unbiased (ieee754 : Word) : ℕ :=
  (ieee754.exponent - 127#8).toNat

section Shifts

variable (ieee754 : Word)

theorem unbiased_eq :
    unbiased ieee754 =
      if 127 ≤ ieee754.exponent.toNat then ieee754.exponent.toNat - 127
      else ieee754.exponent.toNat + 129 := by
  have field := ieee754.exponent.isLt
  rw [unbiased, BitVec.toNat_sub, BitVec.toNat_ofNat]
  split_ifs <;> omega

/-- How far the mantissa is shifted down. -/
theorem toNat_down :
    (23#32 - (ieee754.exponent - 127#8).setWidth 32).toNat =
      if unbiased ieee754 ≤ 23 then 23 - unbiased ieee754
      else 2 ^ 32 + 23 - unbiased ieee754 := by
  have register : unbiased ieee754 < 2 ^ 8 :=
    (ieee754.exponent - 127#8).isLt
  rw [BitVec.toNat_sub, BitVec.toNat_setWidth, ← unbiased, BitVec.toNat_ofNat]
  split_ifs <;> omega

/-- How far the rest of the mantissa is shifted up. -/
theorem toNat_up :
    (9#32 + (ieee754.exponent - 127#8).setWidth 32).toNat =
      9 + unbiased ieee754 := by
  have register : unbiased ieee754 < 2 ^ 8 :=
    (ieee754.exponent - 127#8).isLt
  rw [BitVec.toNat_add, BitVec.toNat_setWidth, ← unbiased, BitVec.toNat_ofNat]
  omega

theorem toNat_wide : (ieee754.mantissa.setWidth 32).toNat =
    ieee754.mantissa.toNat := by
  have below := ieee754.mantissa_upper
  rw [BitVec.toNat_setWidth]
  omega

/-- The comparison of the unsigned register with zero. -/
theorem always (register : BitVec 8) : 0#8 ≤ register :=
  Nat.zero_le _

theorem integer_part_eq :
    (ieee754_to_parts ieee754).integer_part =
      ieee754.mantissa.setWidth 32 >>>
        (23#32 - (ieee754.exponent - 127#8).setWidth 32) := by
  dsimp only [ieee754_to_parts]
  rw [if_pos (always _)]

theorem fractional_part_eq :
    (ieee754_to_parts ieee754).fractional_part =
      (ieee754.mantissa.setWidth 32 &&&
          ((1#32 <<< (23#32 - (ieee754.exponent - 127#8).setWidth 32)) -
            1#32)) <<<
        (9#32 + (ieee754.exponent - 127#8).setWidth 32) := by
  dsimp only [ieee754_to_parts]
  rw [if_pos (always _)]

theorem toNat_integer_part :
    (ieee754_to_parts ieee754).integer_part.toNat =
      if unbiased ieee754 ≤ 23 then
        ieee754.mantissa.toNat / 2 ^ (23 - unbiased ieee754)
      else 0 := by
  have register : unbiased ieee754 < 2 ^ 8 :=
    (ieee754.exponent - 127#8).isLt
  rw [integer_part_eq, BitVec.ushiftRight_eq', toNat_down]
  split_ifs with inside
  · rw [BitVec.toNat_ushiftRight, toNat_wide, Nat.shiftRight_eq_div_pow]
  · rw [BitVec.ushiftRight_eq_zero (by omega)]
    rfl

theorem toNat_fractional_part :
    (ieee754_to_parts ieee754).fractional_part.toNat =
      if unbiased ieee754 ≤ 23 then
        ieee754.mantissa.toNat % 2 ^ (23 - unbiased ieee754) *
          2 ^ (9 + unbiased ieee754)
      else 0 := by
  rw [fractional_part_eq, BitVec.shiftLeft_eq', BitVec.shiftLeft_eq',
    toNat_down, toNat_up]
  split_ifs with inside
  · have split : (2 : ℕ) ^ 32 =
        2 ^ (23 - unbiased ieee754) * 2 ^ (9 + unbiased ieee754) := by
      rw [← pow_add]
      congr 1
      omega
    have mask :
        ((1#32 <<< (23 - unbiased ieee754)) - 1#32).toNat =
          2 ^ (23 - unbiased ieee754) - 1 := by
      have bit : (2 : ℕ) ^ (23 - unbiased ieee754) < 2 ^ 32 :=
        Nat.pow_lt_pow_right one_lt_two (by omega)
      have positive := Nat.two_pow_pos (23 - unbiased ieee754)
      rw [BitVec.toNat_sub, BitVec.toNat_shiftLeft, Nat.shiftLeft_eq,
        BitVec.toNat_ofNat]
      omega
    rw [BitVec.toNat_shiftLeft, BitVec.toNat_and, toNat_wide, mask,
      Nat.and_two_pow_sub_one_eq_mod, Nat.shiftLeft_eq, Nat.mod_eq_of_lt]
    rw [split]
    exact Nat.mul_lt_mul_of_pos_right (Nat.mod_lt _ (Nat.two_pow_pos _))
      (Nat.two_pow_pos _)
  · rw [BitVec.shiftLeft_eq_zero (by omega)]
    rfl

end Shifts

/-! ## The parts of a number -/

/-- The sign, the integer below the size, and 32 bits of what is left. -/
structure Parts.Exact (parts : Parts) (x : ℚ) : Prop where
  sign : parts.sign = true ↔ x < 0
  integer_part : parts.integer_part.toNat = ⌊|x|⌋₊
  fractional_part :
    parts.fractional_part.toNat = ⌊(|x| - ⌊|x|⌋₊) * 2 ^ 32⌋₊

section Normal

variable {A : Word} (normal : A.Normal)

include normal

theorem sign_iff_neg : A.sign = true ↔ A.value < 0 := by
  have positive := normal.abs_value_pos
  cases sign : A.sign with
  | false =>
      rw [value_of_positive sign]
      exact iff_of_false Bool.false_ne_true positive.not_gt
  | true =>
      rw [value_of_negative sign]
      exact iff_of_true rfl (neg_neg_of_pos positive)

/-- Below one both parts are zero. -/
theorem exact_iff_of_below_one (below : A.exponent.toNat < 127) :
    (ieee754_to_parts A).Exact A.value ↔ |A.value| < 2 ^ (-32 : ℤ) := by
  have register : ¬ unbiased A ≤ 23 := by
    rw [unbiased_eq, if_neg (by omega)]
    omega
  have integer := toNat_integer_part A
  have fractional := toNat_fractional_part A
  rw [if_neg register] at integer fractional
  have one : |A.value| < 1 := by
    rw [← not_le, ← zpow_zero (2 : ℚ), normal.zpow_le_abs_value_iff]
    omega
  have floor : ⌊|A.value|⌋₊ = 0 := Nat.floor_eq_zero.mpr one
  have size : ⌊(|A.value| - ⌊|A.value|⌋₊) * 2 ^ 32⌋₊ = 0 ↔
      |A.value| < 2 ^ (-32 : ℤ) := by
    rw [floor, Nat.cast_zero, sub_zero, Nat.floor_eq_zero,
      ← lt_div_iff₀ (by norm_num)]
    norm_num
  rw [← size]
  constructor
  · intro exact
    rw [← exact.fractional_part, fractional]
  · intro nothing
    exact ⟨sign_iff_neg normal, integer.trans floor.symm,
      fractional.trans nothing.symm⟩

/-- With a binary point inside of the mantissa both parts are exact. -/
theorem exact_of_inside (lower : 127 ≤ A.exponent.toNat)
    (upper : A.exponent.toNat ≤ 150) :
    (ieee754_to_parts A).Exact A.value := by
  have register : unbiased A = A.exponent.toNat - 127 := by
    rw [unbiased_eq, if_pos lower]
  have integer := toNat_integer_part A
  have fractional := toNat_fractional_part A
  rw [if_pos (by omega)] at integer fractional
  generalize place : 23 - unbiased A = point at integer fractional
  have quotient :
      |A.value| = (A.mantissa.toNat : ℚ) / (2 ^ point : ℕ) := by
    rw [normal.abs_value, Nat.cast_pow, Nat.cast_ofNat, ← zpow_natCast,
      div_eq_mul_inv, ← zpow_neg]
    congr 2
    omega
  have floor : ⌊|A.value|⌋₊ = A.mantissa.toNat / 2 ^ point := by
    rw [quotient, Nat.floor_div_eq_div]
  refine ⟨sign_iff_neg normal, integer.trans floor.symm, ?_⟩
  have rest :
      (|A.value| - ⌊|A.value|⌋₊) * 2 ^ 32 =
        (A.mantissa.toNat % 2 ^ point * 2 ^ (9 + unbiased A) : ℕ) := by
    have bits : (2 : ℚ) ^ 32 = (2 ^ point : ℕ) * 2 ^ (9 + unbiased A) := by
      rw [Nat.cast_pow, Nat.cast_ofNat, ← pow_add]
      congr 1
      omega
    have whole : (A.mantissa.toNat : ℚ) =
        (2 ^ point : ℕ) * (A.mantissa.toNat / 2 ^ point : ℕ) +
          (A.mantissa.toNat % 2 ^ point : ℕ) := by
      exact_mod_cast (Nat.div_add_mod _ _).symm
    have positive : ((2 ^ point : ℕ) : ℚ) ≠ 0 :=
      Nat.cast_ne_zero.mpr (Nat.two_pow_pos point).ne'
    have remainder : (A.mantissa.toNat : ℚ) -
        (A.mantissa.toNat / 2 ^ point : ℕ) * (2 ^ point : ℕ) =
          (A.mantissa.toNat % 2 ^ point : ℕ) := by
      linarith
    rw [floor, quotient, bits, ← mul_assoc, sub_mul, div_mul_cancel₀ _ positive,
      remainder, Nat.cast_mul, Nat.cast_pow 2 (9 + _), Nat.cast_ofNat]
  rw [rest, Nat.floor_natCast, fractional]

/-- Behind the mantissa the integer part is lost. -/
theorem not_exact_of_above (above : 151 ≤ A.exponent.toNat) :
    ¬ (ieee754_to_parts A).Exact A.value := by
  intro exact
  have register : ¬ unbiased A ≤ 23 := by
    rw [unbiased_eq, if_pos (by omega)]
    omega
  have integer := exact.integer_part
  rw [toNat_integer_part, if_neg register, eq_comm, Nat.floor_eq_zero, ← not_le,
    ← zpow_zero (2 : ℚ), normal.zpow_le_abs_value_iff] at integer
  omega

/--
The parts are exact from one on and below 2^24, and for the numbers which are
too small for any part.
-/
theorem ieee754_to_parts_exact_iff :
    (ieee754_to_parts A).Exact A.value ↔
      1 ≤ |A.value| ∧ |A.value| < 2 ^ 24 ∨ |A.value| < 2 ^ (-32 : ℤ) := by
  have one : 1 ≤ |A.value| ↔ 127 ≤ A.exponent.toNat := by
    rw [← zpow_zero (2 : ℚ), normal.zpow_le_abs_value_iff]
    omega
  have wide : |A.value| < 2 ^ 24 ↔ A.exponent.toNat < 151 := by
    have leading := normal.zpow_le_abs_value_iff 24
    rw [← not_le, ← zpow_ofNat, leading]
    omega
  have tiny : |A.value| < 2 ^ (-32 : ℤ) → A.exponent.toNat < 127 := by
    rw [← not_le, normal.zpow_le_abs_value_iff]
    omega
  rcases Nat.lt_or_ge A.exponent.toNat 127 with below | lower
  · rw [exact_iff_of_below_one normal below, or_iff_right]
    exact fun inside => absurd (one.mp inside.1) (by omega)
  · rcases Nat.lt_or_ge 150 A.exponent.toNat with above | upper
    · refine iff_of_false (not_exact_of_above normal above) ?_
      rintro (inside | nothing)
      · exact absurd (wide.mp inside.2) (by omega)
      · exact absurd (tiny nothing) (by omega)
    · exact iff_of_true (exact_of_inside normal lower upper)
        (Or.inl ⟨one.mpr lower, wide.mpr (by omega)⟩)

end Normal

/-- The number of the test bench, which is 7.5. -/
theorem ieee754_to_parts_exact_iff_sample :
    Normal 0x40f00000#32 ∧
      ((ieee754_to_parts 0x40f00000#32).Exact (value 0x40f00000#32) ↔
        1 ≤ |value 0x40f00000#32| ∧ |value 0x40f00000#32| < 2 ^ 24 ∨
          |value 0x40f00000#32| < 2 ^ (-32 : ℤ)) :=
  ⟨by decide, ieee754_to_parts_exact_iff (by decide)⟩

/-- One half has no bits behind the binary point, and 2^24 no integer part. -/
theorem parts_of_half_and_large :
    ¬ (ieee754_to_parts 0x3f000000#32).Exact (value 0x3f000000#32) ∧
      ¬ (ieee754_to_parts 0x4b800000#32).Exact (value 0x4b800000#32) := by
  refine ⟨?_, not_exact_of_above (by decide) (by decide)⟩
  rw [exact_iff_of_below_one (by decide) (by decide), not_lt,
    Normal.zpow_le_abs_value_iff (by decide)]
  decide

end FederatedEdge.Fpga
