import FederatedEdge.Fpga.Alu
import FederatedEdge.Library.BinaryRounding
import Mathlib.Algebra.Order.Floor.Ring
import Mathlib.Data.Rat.Floor
import Mathlib.Tactic.Linarith

/-!
# The numbers on 32-bit wires

A word as sign, exponent and fraction, and the number which it encodes.  With
the exponent field zero there is no hidden bit: the word is zero or below all
normal numbers.
-/

namespace FederatedEdge.Fpga.Word

open FederatedEdge.Library

variable {A B : Word}

/-! ## The fields -/

theorem toNat_append {left right : ℕ} (high : BitVec left)
    (low : BitVec right) :
    (high ++ low).toNat = high.toNat * 2 ^ right + low.toNat := by
  rw [BitVec.toNat_append, ← Nat.shiftLeft_add_eq_or_of_lt low.isLt,
    Nat.shiftLeft_eq]

theorem toNat_pack (sign : Bool) (exponent : BitVec 8) (fraction : BitVec 23) :
    (pack sign exponent fraction).toNat =
      sign.toNat * 2 ^ 31 + exponent.toNat * 2 ^ 23 + fraction.toNat := by
  rw [pack, toNat_append, toNat_append, BitVec.toNat_ofBool]
  ring

theorem sign_iff (A : Word) : A.sign = true ↔ 2 ^ 31 ≤ A.toNat := by
  have same : A.sign = A.msb := (BitVec.msb_eq_getLsbD_last A).symm
  rw [same, BitVec.msb_eq_decide, decide_eq_true_iff]

theorem toNat_sign (A : Word) : A.sign.toNat = A.toNat / 2 ^ 31 := by
  have below := A.isLt
  by_cases negative : A.sign = true
  · rw [negative, Bool.toNat_true]
    rw [sign_iff] at negative
    omega
  · rw [Bool.eq_false_iff.mpr negative, Bool.toNat_false]
    rw [sign_iff] at negative
    omega

theorem toNat_exponent (A : Word) :
    A.exponent.toNat = A.toNat / 2 ^ 23 % 2 ^ 8 := by
  rw [exponent, BitVec.extractLsb'_toNat, Nat.shiftRight_eq_div_pow]

theorem toNat_fraction (A : Word) : A.fraction.toNat = A.toNat % 2 ^ 23 := by
  rw [fraction, BitVec.extractLsb'_toNat, Nat.shiftRight_zero]

theorem toNat_mantissa (A : Word) :
    A.mantissa.toNat = 2 ^ 23 + A.fraction.toNat := by
  rw [mantissa, toNat_append]
  rfl

/-- A word is put together again from its fields. -/
theorem pack_fields (A : Word) : pack A.sign A.exponent A.fraction = A := by
  have below := A.isLt
  apply BitVec.eq_of_toNat_eq
  rw [toNat_pack, toNat_sign, toNat_exponent, toNat_fraction]
  omega

section Pack

variable (negative : Bool) (field : BitVec 8) (stored : BitVec 23)

@[simp]
theorem sign_pack : (pack negative field stored).sign = negative := by
  have fieldBelow := field.isLt
  have storedBelow := stored.isLt
  rw [Bool.eq_iff_iff, sign_iff, toNat_pack]
  cases negative with
  | false => simp only [Bool.toNat_false, Bool.false_eq_true, iff_false]; omega
  | true => simp only [Bool.toNat_true, iff_true]; omega

@[simp]
theorem exponent_pack : (pack negative field stored).exponent = field := by
  have fieldBelow := field.isLt
  have storedBelow := stored.isLt
  apply BitVec.eq_of_toNat_eq
  rw [toNat_exponent, toNat_pack]
  omega

@[simp]
theorem fraction_pack : (pack negative field stored).fraction = stored := by
  have storedBelow := stored.isLt
  apply BitVec.eq_of_toNat_eq
  rw [toNat_fraction, toNat_pack]
  omega

end Pack

/-- Words with the same fields are the same. -/
theorem eq_of_fields (sameSign : A.sign = B.sign)
    (sameExponent : A.exponent.toNat = B.exponent.toNat)
    (sameFraction : A.fraction.toNat = B.fraction.toNat) : A = B := by
  rw [← pack_fields A, ← pack_fields B, sameSign,
    BitVec.eq_of_toNat_eq sameExponent, BitVec.eq_of_toNat_eq sameFraction]

/-! ## The encoded numbers -/

/-- The exponent field is neither zero nor all ones. -/
def Normal (A : Word) : Prop :=
  1 ≤ A.exponent.toNat ∧ A.exponent.toNat ≤ 254

/-- The exponent field is not all ones. -/
def Finite (A : Word) : Prop :=
  A.exponent.toNat ≤ 254

def IsNaN (A : Word) : Prop :=
  A.exponent.toNat = 255 ∧ A.fraction.toNat ≠ 0

/-- The infinity with a sign. -/
def IsInfinity (negative : Bool) (A : Word) : Prop :=
  A.sign = negative ∧ A.exponent.toNat = 255 ∧ A.fraction.toNat = 0

/-- Zero, with either sign. -/
def IsZero (A : Word) : Prop :=
  A.exponent.toNat = 0 ∧ A.fraction.toNat = 0

instance (A : Word) : Decidable A.Normal := by
  unfold Normal
  infer_instance

instance (A : Word) : Decidable A.Finite := by
  unfold Finite
  infer_instance

instance (A : Word) : Decidable A.IsNaN := by
  unfold IsNaN
  infer_instance

instance (A : Word) : Decidable A.IsZero := by
  unfold IsZero
  infer_instance

/-- The word with the other sign. -/
def negate (A : Word) : Word :=
  pack (!A.sign) A.exponent A.fraction

def signed (negative : Bool) (magnitude : ℚ) : ℚ :=
  if negative then -magnitude else magnitude

/-- The mantissa, of which the hidden bit depends on the exponent field. -/
def significand (A : Word) : ℕ :=
  if A.exponent.toNat = 0 then A.fraction.toNat
  else 2 ^ 23 + A.fraction.toNat

/-- The power of two of the last bit of the mantissa. -/
def scale (A : Word) : ℤ :=
  if A.exponent.toNat = 0 then -149 else A.exponent.toNat - 150

def value (A : Word) : ℚ :=
  signed A.sign (A.significand * 2 ^ A.scale)

theorem Normal.significand_eq (normal : A.Normal) :
    A.significand = A.mantissa.toNat := by
  rw [significand, if_neg (Nat.one_le_iff_ne_zero.mp normal.1), toNat_mantissa]

theorem Normal.scale_eq (normal : A.Normal) :
    A.scale = A.exponent.toNat - 150 := by
  rw [scale, if_neg (Nat.one_le_iff_ne_zero.mp normal.1)]

theorem Normal.value_eq (normal : A.Normal) :
    A.value =
      signed A.sign (A.mantissa.toNat * 2 ^ ((A.exponent.toNat : ℤ) - 150)) := by
  rw [value, normal.significand_eq, normal.scale_eq]

theorem mantissa_lower (A : Word) : 2 ^ 23 ≤ A.mantissa.toNat := by
  rw [toNat_mantissa]
  exact Nat.le_add_right _ _

theorem mantissa_upper (A : Word) : A.mantissa.toNat < 2 ^ 24 :=
  A.mantissa.isLt

theorem log_mantissa (A : Word) : Nat.log 2 A.mantissa.toNat = 23 :=
  (Nat.log_eq_iff (Or.inl (by norm_num))).mpr
    ⟨A.mantissa_lower, A.mantissa_upper⟩

/-! ## Signs and sizes -/

theorem abs_signed (negative : Bool) (magnitude : ℚ) :
    |signed negative magnitude| = |magnitude| := by
  cases negative with
  | false => rfl
  | true => exact abs_neg magnitude

theorem signed_add (negative : Bool) (left right : ℚ) :
    signed negative left + signed negative right =
      signed negative (left + right) := by
  cases negative with
  | false => rfl
  | true => exact (neg_add left right).symm

theorem signed_sub (negative : Bool) (left right : ℚ) :
    signed negative left - signed negative right =
      signed negative (left - right) := by
  cases negative with
  | false => rfl
  | true => exact (neg_sub_neg left right).trans (neg_sub left right).symm

theorem signed_mul (first second : Bool) (left right : ℚ) :
    signed first left * signed second right =
      signed (first ^^ second) (left * right) := by
  cases first with
  | false =>
      cases second with
      | false => rfl
      | true => exact mul_neg left right
  | true =>
      cases second with
      | false => exact neg_mul left right
      | true => exact neg_mul_neg left right

theorem signed_not (negative : Bool) (magnitude : ℚ) :
    signed (!negative) magnitude = -signed negative magnitude := by
  cases negative with
  | false => rfl
  | true => exact (neg_neg magnitude).symm

theorem signed_pos_iff {magnitude : ℚ} (positive : 0 < magnitude)
    (negative : Bool) : 0 < signed negative magnitude ↔ negative = false := by
  cases negative with
  | false => exact iff_of_true positive rfl
  | true =>
      refine iff_of_false ?_ Bool.noConfusion
      exact not_lt.mpr (neg_nonpos.mpr positive.le)

theorem sign_signed {magnitude : ℚ} (positive : 0 < magnitude)
    (negative : Bool) :
    SignType.sign (signed negative magnitude) = if negative then -1 else 1 := by
  cases negative with
  | false => exact sign_pos positive
  | true => exact sign_neg (neg_neg_of_pos positive)

/-! ## One encoding for each number -/

/-- The normal word of a number. -/
def Encodes (A : Word) (x : ℚ) : Prop :=
  A.Normal ∧ A.value = x

theorem Normal.abs_value (normal : A.Normal) :
    |A.value| = A.mantissa.toNat * 2 ^ ((A.exponent.toNat : ℤ) - 150) := by
  rw [normal.value_eq, abs_signed, abs_of_pos]
  exact scaled_pos _ (lt_of_lt_of_le (Nat.two_pow_pos 23) A.mantissa_lower)

theorem Normal.log_value (normal : A.Normal) :
    Int.log 2 |A.value| = (A.exponent.toNat : ℤ) - 127 := by
  have positive : 0 < A.mantissa.toNat :=
    lt_of_lt_of_le (Nat.two_pow_pos 23) A.mantissa_lower
  have leading := log_scaled (K := ℚ) ((A.exponent.toNat : ℤ) - 150) positive
  rw [← normal.abs_value, abs_abs, log_mantissa] at leading
  rw [leading]
  push_cast
  ring

/-- A number has one normal encoding at most. -/
theorem Encodes.unique {x : ℚ} (first : A.Encodes x) (second : B.Encodes x) :
    A = B := by
  have same : A.value = B.value := first.2.trans second.2.symm
  have sizes := congrArg abs same
  have exponents : A.exponent.toNat = B.exponent.toNat := by
    have logs := congrArg (Int.log 2) sizes
    rw [first.1.log_value, second.1.log_value] at logs
    omega
  have mantissas : A.mantissa.toNat = B.mantissa.toNat := by
    rw [first.1.abs_value, second.1.abs_value, exponents] at sizes
    exact_mod_cast mul_right_cancel₀ (zpow_ne_zero _ two_ne_zero) sizes
  have positive :
      ∀ W : Word,
        (0 : ℚ) < W.mantissa.toNat * 2 ^ ((W.exponent.toNat : ℤ) - 150) :=
    fun W => scaled_pos _ (lt_of_lt_of_le (Nat.two_pow_pos 23) W.mantissa_lower)
  have signs : A.sign = B.sign := by
    have above : 0 < A.value ↔ 0 < B.value := by rw [same]
    rw [first.1.value_eq, second.1.value_eq, signed_pos_iff (positive A),
      signed_pos_iff (positive B)] at above
    cases signA : A.sign <;> cases signB : B.sign <;> simp_all
  refine eq_of_fields signs exponents ?_
  rw [toNat_mantissa, toNat_mantissa] at mantissas
  exact Nat.add_left_cancel mantissas

end FederatedEdge.Fpga.Word
