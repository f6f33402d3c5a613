import FederatedEdge.Fpga.AdderRounding

/-!
# The multiplier

The product of two mantissas has 47 or 48 bits, of which the result keeps the
first 24.  The exponents are added in nine bits, so that a sum below the bias
wraps around and is taken for an overflow.

The multiplier gives every operand a hidden bit.  What it multiplies is the
number of an operand for the normal ones only.
-/

namespace FederatedEdge.Fpga

open FederatedEdge.Library
open Word

variable {A B : Word}

/-! ## In natural numbers -/

/-- The exact product of the mantissas. -/
def product (A B : Word) : ℕ :=
  A.mantissa.toNat * B.mantissa.toNat

/-- The product has 48 bits. -/
def carry (A B : Word) : ℕ :=
  if 2 ^ 47 ≤ product A B then 1 else 0

/-- The exponent of the product, with the biases of both operands. -/
def exponentSum (A B : Word) : ℕ :=
  A.exponent.toNat + B.exponent.toNat + carry A B

theorem product_lower (A B : Word) : 2 ^ 46 ≤ product A B := by
  rw [product, show 2 ^ 46 = 2 ^ 23 * 2 ^ 23 from rfl]
  exact Nat.mul_le_mul A.mantissa_lower B.mantissa_lower

theorem product_upper (A B : Word) : product A B < 2 ^ 48 := by
  rw [product, show 2 ^ 48 = 2 ^ 24 * 2 ^ 24 from rfl]
  exact Nat.mul_lt_mul'' A.mantissa_upper B.mantissa_upper

theorem carry_le (A B : Word) : carry A B ≤ 1 := by
  rw [carry]
  split_ifs <;> omega

/-- The leading bit of the product. -/
theorem log_product (A B : Word) : Nat.log 2 (product A B) = 46 + carry A B := by
  have lower := product_lower A B
  have upper := product_upper A B
  rw [Nat.log_eq_iff (Or.inl (by omega)), carry]
  split_ifs with long <;> omega

/-! ## The registers -/

/-- `Mantissa` and `Temp_Exponent` behind the first case distinction. -/
def normalized (Temp_Mantissa : BitVec 48) (Temp_Exponent : BitVec 9) :
    BitVec 23 × BitVec 9 :=
  if Temp_Mantissa.getLsbD 47 then
    (Temp_Mantissa.extractLsb' 24 23, Temp_Exponent + 1)
  else (Temp_Mantissa.extractLsb' 23 23, Temp_Exponent)

/-- `Exponent` and `Mantissa` behind the second one. -/
def limited (Mantissa : BitVec 23) (Temp_Exponent : BitVec 9) :
    BitVec 8 × BitVec 23 :=
  if 255#9 ≤ Temp_Exponent then (0xff#8, 0)
  else if Temp_Exponent ≤ 0 then (0, 0)
  else (Temp_Exponent.setWidth 8, Mantissa)

def productBits (A B : Word) : BitVec 48 :=
  A.mantissa.setWidth 48 * B.mantissa.setWidth 48

def exponentBits (A B : Word) : BitVec 9 :=
  A.exponent.setWidth 9 + B.exponent.setWidth 9 - 127#9

theorem ieee754_multiplier_eq (A B : Word) :
    ieee754_multiplier A B =
      let inner := normalized (productBits A B) (exponentBits A B)
      .pack (A.sign ^^ B.sign) (limited inner.1 inner.2).1
        (limited inner.1 inner.2).2 := by
  rfl

/-- The product fits into its 48 bits. -/
theorem toNat_productBits (A B : Word) :
    (productBits A B).toNat = product A B := by
  have upper := product_upper A B
  have wide (W : Word) : W.mantissa.toNat % 2 ^ 48 = W.mantissa.toNat :=
    Nat.mod_eq_of_lt (W.mantissa_upper.trans (by norm_num))
  rw [productBits, BitVec.toNat_mul, BitVec.toNat_setWidth,
    BitVec.toNat_setWidth, wide, wide]
  exact Nat.mod_eq_of_lt upper

/-- The sum of the exponents without the bias, which wraps below zero. -/
theorem toNat_exponentBits (A B : Word) :
    (exponentBits A B).toNat =
      (A.exponent.toNat + B.exponent.toNat + 385) % 512 := by
  have left := A.exponent.isLt
  have right := B.exponent.isLt
  rw [exponentBits, BitVec.toNat_sub, BitVec.toNat_add, BitVec.toNat_setWidth,
    BitVec.toNat_setWidth]
  simp only [BitVec.toNat_ofNat]
  omega

/-- The kept bits of the product and the exponent in nine bits. -/
theorem normalized_spec (A B : Word) :
    (normalized (productBits A B) (exponentBits A B)).1.toNat =
        product A B / 2 ^ (23 + carry A B) - 2 ^ 23 ∧
      (normalized (productBits A B) (exponentBits A B)).2.toNat =
        (exponentSum A B + 385) % 512 := by
  have lower := product_lower A B
  have upper := product_upper A B
  have leading :
      (productBits A B).getLsbD 47 = true ↔ 2 ^ 47 ≤ product A B := by
    have same : (productBits A B).getLsbD 47 = (productBits A B).msb :=
      (BitVec.msb_eq_getLsbD_last _).symm
    rw [same, BitVec.msb_eq_decide, decide_eq_true_iff, toNat_productBits]
  have one : (1 : BitVec 9).toNat = 1 := rfl
  rw [normalized, exponentSum, carry]
  by_cases long : 2 ^ 47 ≤ product A B
  · rw [if_pos (leading.mpr long), if_pos long, BitVec.extractLsb'_toNat,
      toNat_productBits, Nat.shiftRight_eq_div_pow, BitVec.toNat_add,
      toNat_exponentBits]
    omega
  · rw [if_neg (mt leading.mp long), if_neg long, BitVec.extractLsb'_toNat,
      toNat_productBits, Nat.shiftRight_eq_div_pow, toNat_exponentBits]
    omega

/-! ## The fields of the result -/

/-- The result by the exponent in nine bits. -/
theorem hasFields_multiplier {exponent fraction : ℕ}
    (limits :
      (limited (normalized (productBits A B) (exponentBits A B)).1
            (normalized (productBits A B) (exponentBits A B)).2).1.toNat =
          exponent ∧
        (limited (normalized (productBits A B) (exponentBits A B)).1
            (normalized (productBits A B) (exponentBits A B)).2).2.toNat =
          fraction) :
    (ieee754_multiplier A B).HasFields (A.sign ^^ B.sign) exponent
      fraction := by
  rw [ieee754_multiplier_eq, ← limits.1, ← limits.2]
  exact hasFields_pack _ _ _

/-- Above the finite exponents and, by the wrap, below zero: an infinity. -/
theorem multiplier_infinite
    (outside : exponentSum A B ≤ 126 ∨ 382 ≤ exponentSum A B) :
    (ieee754_multiplier A B).HasFields (A.sign ^^ B.sign) 255 0 := by
  have spec := (normalized_spec A B).2
  have bound := carry_le A B
  have left := A.exponent.isLt
  have right := B.exponent.isLt
  apply hasFields_multiplier
  rw [limited, if_pos]
  · exact ⟨rfl, rfl⟩
  · rw [BitVec.le_def, spec, exponentSum]
    rw [exponentSum] at outside
    simp only [BitVec.toNat_ofNat]
    omega

theorem multiplier_zero (least : exponentSum A B = 127) :
    (ieee754_multiplier A B).HasFields (A.sign ^^ B.sign) 0 0 := by
  have spec := (normalized_spec A B).2
  rw [least] at spec
  apply hasFields_multiplier
  rw [limited, if_neg, if_pos]
  · exact ⟨rfl, rfl⟩
  · rw [BitVec.le_def, spec]
    exact le_rfl
  · rw [BitVec.le_def, spec]
    simp only [BitVec.toNat_ofNat]
    omega

/-- In between the first 24 bits of the product are kept. -/
theorem multiplier_normal (lower : 128 ≤ exponentSum A B)
    (upper : exponentSum A B ≤ 381) :
    (ieee754_multiplier A B).HasFields (A.sign ^^ B.sign)
      (exponentSum A B - 127)
      (product A B / 2 ^ (23 + carry A B) - 2 ^ 23) := by
  have spec := (normalized_spec A B).2
  apply hasFields_multiplier
  rw [limited, if_neg, if_neg]
  · refine ⟨?_, (normalized_spec A B).1⟩
    rw [BitVec.toNat_setWidth, spec]
    omega
  · rw [BitVec.le_def, spec]
    have zero : (0 : BitVec 9).toNat = 0 := rfl
    omega
  · rw [BitVec.le_def, spec]
    simp only [BitVec.toNat_ofNat]
    omega

end FederatedEdge.Fpga
