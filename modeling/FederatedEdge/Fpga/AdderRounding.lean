import FederatedEdge.Fpga.Compare

/-!
# What the adder rounds to

For operands of the same sign the alignment and the shift after a carry
together cut off the exact sum once, so the result is the sum rounded toward
zero.

For operands of different signs there is no bit behind the last one of the
larger operand, so a difference which is shifted up carries the error of the
alignment up with it.
-/

namespace FederatedEdge.Fpga

open FederatedEdge.Library
open Word

variable {A B : Word}

/-! ## Numbers and magnitudes -/

theorem mantissa_scale_pos (A : Word) (scale : ℤ) :
    (0 : ℚ) < A.mantissa.toNat * 2 ^ scale :=
  scaled_pos _ (lt_of_lt_of_le (Nat.two_pow_pos 23) A.mantissa_lower)

theorem Word.Normal.abs_value_pos (normal : A.Normal) : 0 < |A.value| := by
  rw [normal.abs_value]
  exact mantissa_scale_pos A _

/-- The leading bit of a number is in its exponent. -/
theorem Word.Normal.zpow_le_abs_value_iff (normal : A.Normal) (bound : ℤ) :
    2 ^ bound ≤ |A.value| ↔ bound + 127 ≤ A.exponent.toNat := by
  have two : ((2 : ℕ) : ℚ) = 2 := rfl
  rw [← two, Int.zpow_le_iff_le_log one_lt_two normal.abs_value_pos,
    normal.log_value]
  omega

theorem Word.Normal.exponent_le_of_lt (normal : A.Normal) (bound : ℕ)
    (small : |A.value| < 2 ^ bound) : A.exponent.toNat ≤ bound + 126 := by
  by_contra greater
  have leading := (normal.zpow_le_abs_value_iff bound).mpr (by omega)
  rw [zpow_natCast] at leading
  exact absurd small (not_lt.mpr leading)

/-! ## Exact mantissas -/

/-- The mantissa of the larger operand in the scale of the smaller one. -/
def widened (A B : Word) : ℕ :=
  A.mantissa.toNat * 2 ^ distance A B

/-- What the alignment drops of the smaller operand. -/
def dropped (A B : Word) : ℕ :=
  B.mantissa.toNat % 2 ^ distance A B

theorem widened_lower (A B : Word) :
    2 ^ (distance A B + 23) ≤ widened A B := by
  rw [widened, pow_add, mul_comm]
  exact Nat.mul_le_mul_right _ A.mantissa_lower

theorem dropped_lt (A B : Word) : dropped A B < 2 ^ distance A B :=
  Nat.mod_lt _ (Nat.two_pow_pos _)

/-- The aligned mantissa and what was dropped make up the smaller operand. -/
theorem aligned_add_dropped (A B : Word) :
    aligned A B * 2 ^ distance A B + dropped A B = B.mantissa.toNat := by
  rw [aligned, dropped]
  exact Nat.div_add_mod' _ _

/-- A sum of the same signs is the exact one without its last bits. -/
theorem sum_of_same_sign (sameSign : A.sign = B.sign) :
    sum A B = (widened A B + B.mantissa.toNat) / 2 ^ distance A B := by
  rw [sum, if_pos sameSign, widened, aligned,
    Nat.add_comm, Nat.add_comm (_ * _), Nat.add_mul_div_right _ _
      (Nat.two_pow_pos _)]

section Ordered

variable (ordered : B.magnitude ≤ A.magnitude)

include ordered

theorem mantissa_le_widened : B.mantissa.toNat ≤ widened A B := by
  have smallerPart := Nat.mul_le_mul_right (2 ^ distance A B) (aligned_le ordered)
  have parts := aligned_add_dropped A B
  rcases Nat.eq_zero_or_pos (distance A B) with same | apart
  · have below := aligned_le ordered
    rw [aligned, same, pow_zero, Nat.div_one] at below
    rw [widened, same, pow_zero, mul_one]
    exact below
  · have upper := B.mantissa_upper
    have lower := widened_lower A B
    have longer : 2 ^ 24 ≤ 2 ^ (distance A B + 23) :=
      Nat.pow_le_pow_right two_pos (by omega)
    omega

/-- A difference exceeds the exact one by what was dropped. -/
theorem sum_of_different_sign (differentSign : A.sign ≠ B.sign) :
    sum A B * 2 ^ distance A B =
      widened A B - B.mantissa.toNat + dropped A B := by
  have parts := aligned_add_dropped A B
  have below := mantissa_le_widened ordered
  have alignedBelow :=
    Nat.mul_le_mul_right (2 ^ distance A B) (aligned_le ordered)
  rw [sum, if_neg differentSign, Nat.sub_mul]
  rw [← widened] at alignedBelow ⊢
  omega

/-- The last place of the larger operand in that of the smaller one. -/
theorem place_eq :
    (2 ^ ((A.exponent.toNat : ℤ) - 150) : ℚ) =
      2 ^ distance A B * 2 ^ ((B.exponent.toNat : ℤ) - 150) := by
  have exponents := exponent_le ordered
  have apart :
      (A.exponent.toNat : ℤ) - 150 =
        distance A B + (B.exponent.toNat - 150) := by
    rw [distance]
    omega
  rw [apart, zpow_add₀ two_ne_zero, zpow_natCast]

/-- The larger operand in the scale of the smaller one. -/
theorem widened_scale :
    (A.mantissa.toNat * 2 ^ ((A.exponent.toNat : ℤ) - 150) : ℚ) =
      widened A B * 2 ^ ((B.exponent.toNat : ℤ) - 150) := by
  rw [widened, place_eq ordered]
  push_cast
  ring

variable (normalA : A.Normal) (normalB : B.Normal)

include normalA normalB

theorem value_add_of_same_sign (sameSign : A.sign = B.sign) :
    A.value + B.value =
      signed A.sign
        ((widened A B + B.mantissa.toNat : ℕ) *
          2 ^ ((B.exponent.toNat : ℤ) - 150)) := by
  rw [normalA.value_eq, normalB.value_eq, ← sameSign, signed_add,
    widened_scale ordered]
  push_cast
  ring_nf

theorem value_add_of_different_sign (differentSign : A.sign ≠ B.sign) :
    A.value + B.value =
      signed A.sign
        ((widened A B - B.mantissa.toNat : ℕ) *
          2 ^ ((B.exponent.toNat : ℤ) - 150)) := by
  have other : B.sign = !A.sign := Bool.eq_not.mpr differentSign.symm
  rw [normalA.value_eq, normalB.value_eq, other, signed_not,
    ← sub_eq_add_neg, signed_sub, widened_scale ordered,
    Nat.cast_sub (mantissa_le_widened ordered)]
  ring_nf

end Ordered

/-! ## The number of the result -/

/-- The fields of a normal result give its number. -/
theorem Word.HasFields.encodes {W : Word} {negative : Bool}
    {exponent fraction : ℕ} (fields : W.HasFields negative exponent fraction)
    (lower : 1 ≤ exponent) (upper : exponent ≤ 254) :
    W.Encodes
      (signed negative
        ((2 ^ 23 + fraction : ℕ) * 2 ^ ((exponent : ℤ) - 150))) := by
  rcases fields with ⟨sign, rfl, rfl⟩
  have normal : W.Normal := ⟨lower, upper⟩
  refine ⟨normal, ?_⟩
  rw [normal.value_eq, sign, toNat_mantissa]

/-- Shifted by its leading zeros a number is a mantissa. -/
theorem shifted_to_leading_one {mantissa : ℕ} (nonzero : mantissa ≠ 0)
    (short : mantissa < 2 ^ 24) :
    2 ^ 23 ≤ mantissa * 2 ^ (23 - Nat.log 2 mantissa) ∧
      mantissa * 2 ^ (23 - Nat.log 2 mantissa) < 2 ^ 24 := by
  have log : Nat.log 2 mantissa < 24 := Nat.log_lt_of_lt_pow nonzero short
  have lower := Nat.pow_log_le_self 2 nonzero
  have upper := Nat.lt_pow_succ_log_self one_lt_two mantissa
  constructor
  · calc
      2 ^ 23 = 2 ^ Nat.log 2 mantissa * 2 ^ (23 - Nat.log 2 mantissa) := by
        rw [← pow_add]
        congr 1
        omega
      _ ≤ _ := Nat.mul_le_mul_right _ lower
  · calc
      mantissa * 2 ^ (23 - Nat.log 2 mantissa) <
          2 ^ (Nat.log 2 mantissa + 1) * 2 ^ (23 - Nat.log 2 mantissa) :=
        Nat.mul_lt_mul_of_pos_right upper (Nat.two_pow_pos _)
      _ = 2 ^ 24 := by
        rw [← pow_add]
        congr 1
        omega

/-- A number which is not below the normal ones has room for its leading one. -/
theorem room_of_size {mantissa exponent : ℕ}
    (size : (2 ^ (-126 : ℤ) : ℚ) ≤ mantissa * 2 ^ ((exponent : ℤ) - 150)) :
    mantissa ≠ 0 ∧ 23 < Nat.log 2 mantissa + exponent := by
  have large : 2 ^ 24 ≤ mantissa * 2 ^ exponent := by
    have shifted := mul_le_mul_of_nonneg_right size
      (zpow_pos (two_pos : (0 : ℚ) < 2) 150).le
    rw [mul_assoc, ← zpow_add₀ two_ne_zero, ← zpow_add₀ two_ne_zero,
      sub_add_cancel, zpow_natCast] at shifted
    norm_num at shifted
    exact_mod_cast shifted
  constructor
  · intro zero
    rw [zero, zero_mul] at large
    exact absurd large (by norm_num)
  · have small := Nat.lt_pow_succ_log_self one_lt_two mantissa
    have product : 2 ^ 24 < 2 ^ (Nat.log 2 mantissa + 1 + exponent) := by
      rw [pow_add]
      exact lt_of_le_of_lt large
        (Nat.mul_lt_mul_of_pos_right small (Nat.two_pow_pos _))
    have exponents := (Nat.pow_lt_pow_iff_right one_lt_two).mp product
    omega

section Ordered

variable (ordered : B.magnitude ≤ A.magnitude)

include ordered

/-- A carry halves the sum, in the next scale. -/
theorem encodes_addOrdered_carry (lower : 1 ≤ A.exponent.toNat)
    (upper : A.exponent.toNat ≤ 253) (carry : 2 ^ 24 ≤ sum A B) :
    (addOrdered A B).Encodes
      (signed A.sign
        ((sum A B / 2 : ℕ) * 2 ^ ((A.exponent.toNat : ℤ) + 1 - 150))) := by
  have fields := addOrdered_carry ordered carry
  rw [min_eq_left (by omega)] at fields
  have encodes := fields.encodes (by omega) (by omega)
  rw [show 2 ^ 23 + (sum A B - 2 ^ 24) / 2 = sum A B / 2 by omega] at encodes
  exact_mod_cast encodes

/-- Without a carry the sum is kept, if the exponent does not become zero. -/
theorem encodes_addOrdered_shift (upper : A.exponent.toNat ≤ 254)
    (nonzero : sum A B ≠ 0) (noCarry : sum A B < 2 ^ 24)
    (room : 23 < Nat.log 2 (sum A B) + A.exponent.toNat) :
    (addOrdered A B).Encodes
      (signed A.sign
        (sum A B * 2 ^ ((A.exponent.toNat : ℤ) - 150))) := by
  have log : Nat.log 2 (sum A B) < 24 := Nat.log_lt_of_lt_pow nonzero noCarry
  have shift :
      shiftUp (sum A B) A.exponent.toNat = 23 - Nat.log 2 (sum A B) := by
    rw [shiftUp]
    omega
  have fields := addOrdered_shift ordered nonzero noCarry
  rw [shift] at fields
  have inPlace := shifted_to_leading_one nonzero noCarry
  have encodes := fields.encodes (by omega) (by omega)
  have mantissa :
      2 ^ 23 + sum A B * 2 ^ (23 - Nat.log 2 (sum A B)) % 2 ^ 23 =
        sum A B * 2 ^ (23 - Nat.log 2 (sum A B)) := by
    omega
  have scale :
      ((A.exponent.toNat - (23 - Nat.log 2 (sum A B)) : ℕ) : ℤ) - 150 =
        (A.exponent.toNat : ℤ) - 150 - (23 - Nat.log 2 (sum A B) : ℕ) := by
    omega
  have value :
      ((sum A B * 2 ^ (23 - Nat.log 2 (sum A B)) : ℕ) *
          2 ^ (((A.exponent.toNat - (23 - Nat.log 2 (sum A B)) : ℕ) : ℤ) -
            150) : ℚ) =
        sum A B * 2 ^ ((A.exponent.toNat : ℤ) - 150) := by
    rw [scale, zpow_sub₀ two_ne_zero, zpow_natCast]
    push_cast
    field_simp
  rw [mantissa, value] at encodes
  exact encodes

end Ordered

/-! ## Operands of the same sign -/

theorem roundTowardZero_signed (negative : Bool) (x : ℚ) :
    roundTowardZero 24 (signed negative x) =
      signed negative (roundTowardZero 24 x) := by
  cases negative with
  | false => rfl
  | true => exact roundTowardZero_neg 24 x

section SameSign

variable (ordered : B.magnitude ≤ A.magnitude) (normalA : A.Normal)
  (normalB : B.Normal) (sameSign : A.sign = B.sign)

include sameSign

theorem leading_sum : 2 ^ 23 ≤ sum A B := by
  rw [sum, if_pos sameSign]
  exact le_trans A.mantissa_lower (Nat.le_add_right _ _)

/-- Where the sum stands, there the exact one does in its scale. -/
theorem le_sum_iff (bound : ℕ) :
    bound ≤ sum A B ↔
      bound * 2 ^ distance A B ≤ widened A B + B.mantissa.toNat := by
  rw [sum_of_same_sign sameSign, Nat.le_div_iff_mul_le (Nat.two_pow_pos _)]

/-- Rounding cuts off what alignment drops and `shift` bits of the sum. -/
theorem roundTowardZero_exact (shift : ℕ) (ordered : B.magnitude ≤ A.magnitude)
    (lower : 2 ^ (shift + 23) ≤ sum A B)
    (upper : sum A B < 2 ^ (shift + 23 + 1)) :
    roundTowardZero 24
        ((widened A B + B.mantissa.toNat : ℕ) *
          2 ^ ((B.exponent.toNat : ℤ) - 150) : ℚ) =
      (sum A B / 2 ^ shift : ℕ) *
        2 ^ ((A.exponent.toNat : ℤ) + shift - 150) := by
  have exponents := exponent_le ordered
  have above := (le_sum_iff sameSign (2 ^ (shift + 23))).mp lower
  have below :=
    (le_sum_iff sameSign (2 ^ (shift + 23 + 1))).not.mp (Nat.not_le.mpr upper)
  rw [← pow_add,
    show shift + 23 + distance A B = distance A B + shift + 23 by ring] at above
  rw [← pow_add,
    show shift + 23 + 1 + distance A B = distance A B + shift + 23 + 1 by ring]
    at below
  have rounded :=
    roundTowardZero_scaled (K := ℚ) ((B.exponent.toNat : ℤ) - 150) above
      (Nat.not_le.mp below)
  have scale :
      ((distance A B + shift : ℕ) : ℤ) + ((B.exponent.toNat : ℤ) - 150) =
        (A.exponent.toNat : ℤ) + shift - 150 := by
    rw [distance]
    omega
  rw [rounded, scale, pow_add, ← Nat.div_div_eq_div_mul,
    ← sum_of_same_sign sameSign]

include ordered normalA normalB

theorem abs_value_add :
    |A.value + B.value| =
      (widened A B + B.mantissa.toNat : ℕ) *
        2 ^ ((B.exponent.toNat : ℤ) - 150) := by
  rw [value_add_of_same_sign ordered normalA normalB sameSign, abs_signed,
    abs_of_pos]
  apply scaled_pos
  exact Nat.add_pos_right _
    (lt_of_lt_of_le (Nat.two_pow_pos 23) B.mantissa_lower)

/-- The same bound for the sum and for the size of the exact one. -/
theorem le_sum_iff_le_abs (bound : ℕ) :
    bound ≤ sum A B ↔
      (bound * 2 ^ ((A.exponent.toNat : ℤ) - 150) : ℚ) ≤
        |A.value + B.value| := by
  have positive : (0 : ℚ) < 2 ^ ((B.exponent.toNat : ℤ) - 150) :=
    zpow_pos two_pos _
  rw [le_sum_iff sameSign, abs_value_add ordered normalA normalB sameSign,
    place_eq ordered, ← mul_assoc, mul_le_mul_iff_of_pos_right positive]
  exact_mod_cast Iff.rfl

/-- Alignment and carry together cut the exact sum off once. -/
theorem addOrdered_truncates
    (noOverflow : |A.value + B.value| < 2 ^ 128) :
    (addOrdered A B).Encodes (roundTowardZero 24 (A.value + B.value)) := by
  have leading := leading_sum sameSign
  rw [value_add_of_same_sign ordered normalA normalB sameSign,
    roundTowardZero_signed]
  by_cases carry : 2 ^ 24 ≤ sum A B
  · have small : A.exponent.toNat ≤ 253 := by
      by_contra large
      have top : A.exponent.toNat = 254 := by
        have atMost := normalA.2
        omega
      have overflow :=
        (le_sum_iff_le_abs ordered normalA normalB sameSign (2 ^ 24)).mp carry
      rw [top] at overflow
      norm_num at overflow noOverflow
      linarith
    have rounded :=
      roundTowardZero_exact sameSign 1 ordered carry (sum_lt ordered)
    rw [rounded]
    exact encodes_addOrdered_carry ordered normalA.1 small carry
  · have noCarry := Nat.not_le.mp carry
    have log : 23 ≤ Nat.log 2 (sum A B) :=
      Nat.le_log_of_pow_le one_lt_two leading
    have atLeast := normalA.1
    have rounded :=
      roundTowardZero_exact sameSign 0 ordered leading noCarry
    rw [Nat.cast_zero, add_zero, pow_zero, Nat.div_one] at rounded
    rw [rounded]
    exact encodes_addOrdered_shift ordered normalA.2 (by omega) noCarry
      (by omega)

end SameSign

/-- The ordered operands of normal operands, with the same sum. -/
theorem normal_ordered (normalA : A.Normal) (normalB : B.Normal) :
    (larger A B).Normal ∧ (smaller A B).Normal ∧
      (larger A B).value + (smaller A B).value = A.value + B.value := by
  rcases ordered_cases A B with ⟨-, first, second⟩ | ⟨-, first, second⟩
  · rw [first, second]
    exact ⟨normalA, normalB, rfl⟩
  · rw [first, second]
    exact ⟨normalB, normalA, add_comm _ _⟩

theorem sign_ordered_iff (A B : Word) :
    (larger A B).sign = (smaller A B).sign ↔ A.sign = B.sign := by
  rcases ordered_cases A B with ⟨-, first, second⟩ | ⟨-, first, second⟩
  · rw [first, second]
  · rw [first, second]
    exact eq_comm

/--
For normal operands of the same sign without overflow the adder returns the
encoding, and the only one, of the exact sum rounded toward zero to 24 bits.
-/
theorem ieee754_adder_truncates (A B : Word) (normalA : A.Normal)
    (normalB : B.Normal) (sameSign : A.sign = B.sign)
    (noOverflow : |A.value + B.value| < 2 ^ 128) :
    (ieee754_adder A B).Encodes (roundTowardZero 24 (A.value + B.value)) ∧
      ∀ W : Word, W.Encodes (roundTowardZero 24 (A.value + B.value)) →
        W = ieee754_adder A B := by
  rcases normal_ordered normalA normalB with ⟨normalL, normalS, same⟩
  have encodes :
      (ieee754_adder A B).Encodes (roundTowardZero 24 (A.value + B.value)) := by
    rw [ieee754_adder_eq, ← same]
    rw [← same] at noOverflow
    exact addOrdered_truncates (magnitude_smaller_le A B) normalL normalS
      ((sign_ordered_iff A B).mpr sameSign) noOverflow
  exact ⟨encodes, fun W other => other.unique encodes⟩

/-- The sum 3.2 + 4.2 of the test bench. -/
theorem ieee754_adder_truncates_sample :
    (ieee754_adder 0x404ccccc#32 0x40866666#32).Encodes
        (roundTowardZero 24 (value 0x404ccccc#32 + value 0x40866666#32)) ∧
      ∀ W : Word,
        W.Encodes
            (roundTowardZero 24 (value 0x404ccccc#32 + value 0x40866666#32)) →
          W = ieee754_adder 0x404ccccc#32 0x40866666#32 :=
  ieee754_adder_truncates 0x404ccccc#32 0x40866666#32 (by decide) (by decide)
    (by decide) (by decide +kernel)

/-! ## Operands of different signs -/

/-- The first bit which the alignment drops, if it drops any. -/
def guardBit (A B : Word) : Bool :=
  decide (0 < distance A B) && B.mantissa.getLsbD (distance A B - 1)

/-- What is dropped, by its first bit and the others. -/
theorem dropped_eq_of_pos (apart : 0 < distance A B) :
    ∃ others, others < 2 ^ (distance A B - 1) ∧
      dropped A B =
        others + if guardBit A B then 2 ^ (distance A B - 1) else 0 := by
  refine ⟨B.mantissa.toNat % 2 ^ (distance A B - 1),
    Nat.mod_lt _ (Nat.two_pow_pos _), ?_⟩
  have split :=
    Nat.mod_pow_succ (b := 2) (x := B.mantissa.toNat) (k := distance A B - 1)
  rw [show distance A B - 1 + 1 = distance A B by omega, ← dropped] at split
  rw [split, guardBit, BitVec.getLsbD, Nat.testBit_eq_decide_div_mod_eq]
  rcases Nat.mod_two_eq_zero_or_one
      (B.mantissa.toNat / 2 ^ (distance A B - 1)) with zero | one
  · simp [zero]
  · simp [one, apart]

section Dropped

variable {difference : ℕ}

theorem dropped_lt_of_large (large : 2 ^ (distance A B + 23) ≤ difference) :
    dropped A B * 2 ^ 23 < 2 ^ Nat.log 2 difference := by
  have log : distance A B + 23 ≤ Nat.log 2 difference :=
    Nat.le_log_of_pow_le one_lt_two large
  calc
    dropped A B * 2 ^ 23 < 2 ^ distance A B * 2 ^ 23 :=
      Nat.mul_lt_mul_of_pos_right (dropped_lt A B) (Nat.two_pow_pos 23)
    _ = 2 ^ (distance A B + 23) := (pow_add 2 _ _).symm
    _ ≤ 2 ^ Nat.log 2 difference := Nat.pow_le_pow_right two_pos log

/-- A first bit of zero halves what may be dropped. -/
theorem dropped_lt_of_guardBit (guard : guardBit A B = false)
    (exact : difference + B.mantissa.toNat = widened A B) :
    dropped A B * 2 ^ 23 < 2 ^ Nat.log 2 difference := by
  have wide := widened_lower A B
  have upper := B.mantissa_upper
  rcases Nat.lt_or_ge (distance A B) 2 with near | far
  · have none : dropped A B = 0 := by
      rcases Nat.eq_zero_or_pos (distance A B) with same | apart
      · have little := dropped_lt A B
        rw [same, pow_zero] at little
        omega
      · rcases dropped_eq_of_pos apart with ⟨others, few, split⟩
        rw [show distance A B - 1 = 0 by omega, pow_zero] at few
        rw [guard, if_neg Bool.false_ne_true] at split
        omega
    rw [none, zero_mul]
    exact Nat.two_pow_pos _
  · have apart : 0 < distance A B := by omega
    rcases dropped_eq_of_pos apart with ⟨others, few, split⟩
    rw [guard, if_neg Bool.false_ne_true, Nat.add_zero] at split
    have double :
        2 ^ (distance A B + 23) = 2 * 2 ^ (distance A B - 1 + 23) := by
      rw [← pow_succ']
      congr 1
      omega
    have longer : 2 ^ 24 ≤ 2 ^ (distance A B - 1 + 23) :=
      Nat.pow_le_pow_right two_pos (by omega)
    -- the smaller operand takes away less than half of the larger one
    have log : distance A B - 1 + 23 ≤ Nat.log 2 difference :=
      Nat.le_log_of_pow_le one_lt_two (by omega)
    calc
      dropped A B * 2 ^ 23 < 2 ^ (distance A B - 1) * 2 ^ 23 := by
        rw [split]
        exact Nat.mul_lt_mul_of_pos_right few (Nat.two_pow_pos 23)
      _ = 2 ^ (distance A B - 1 + 23) := (pow_add 2 _ _).symm
      _ ≤ 2 ^ Nat.log 2 difference := Nat.pow_le_pow_right two_pos log

/-- A first bit of one is the last of 24 bits of a shorter difference. -/
theorem le_dropped_of_guardBit (guard : guardBit A B = true)
    (nonzero : difference ≠ 0)
    (small : difference < 2 ^ (distance A B + 23)) :
    2 ^ Nat.log 2 difference ≤ dropped A B * 2 ^ 23 := by
  have apart : 0 < distance A B := by
    rw [guardBit, Bool.and_eq_true, decide_eq_true_iff] at guard
    exact guard.1
  rcases dropped_eq_of_pos apart with ⟨others, few, split⟩
  rw [guard, if_pos rfl] at split
  have log : Nat.log 2 difference < distance A B + 23 :=
    Nat.log_lt_of_lt_pow nonzero small
  calc
    2 ^ Nat.log 2 difference ≤ 2 ^ (distance A B - 1 + 23) :=
      Nat.pow_le_pow_right two_pos (by omega)
    _ = 2 ^ (distance A B - 1) * 2 ^ 23 := pow_add 2 _ _
    _ ≤ dropped A B * 2 ^ 23 := by
      refine Nat.mul_le_mul_right _ ?_
      rw [split]
      exact Nat.le_add_left _ _

/--
What is dropped is below the last of 24 bits of the exact difference, unless
the first dropped bit is one and the difference has no bit in the place of the
leading one of the larger operand.
-/
theorem dropped_lt_iff (nonzero : difference ≠ 0)
    (exact : difference + B.mantissa.toNat = widened A B) :
    dropped A B * 2 ^ 23 < 2 ^ Nat.log 2 difference ↔
      guardBit A B = false ∨ 2 ^ (distance A B + 23) ≤ difference := by
  by_cases large : 2 ^ (distance A B + 23) ≤ difference
  · exact iff_of_true (dropped_lt_of_large large) (Or.inr large)
  · rw [or_iff_left large]
    cases guard : guardBit A B with
    | false => exact iff_of_true (dropped_lt_of_guardBit guard exact) rfl
    | true =>
        exact iff_of_false
          (Nat.not_lt.mpr
            (le_dropped_of_guardBit guard nonzero (Nat.not_le.mp large)))
          Bool.noConfusion

end Dropped

/-! ## The error of a difference -/

theorem ulp_signed (negative : Bool) (x : ℚ) :
    ulp 24 (signed negative x) = ulp 24 x := by
  rw [ulp, ulp, abs_signed]

theorem Word.Normal.ulp_value (normal : A.Normal) :
    ulp 24 A.value = 2 ^ ((A.exponent.toNat : ℤ) - 150) := by
  rw [ulp, normal.log_value]
  congr 1
  push_cast
  ring

section DifferentSign

variable (ordered : B.magnitude ≤ A.magnitude) (normalA : A.Normal)
  (normalB : B.Normal) (differentSign : A.sign ≠ B.sign)

include differentSign

theorem sum_le_mantissa : sum A B ≤ A.mantissa.toNat := by
  rw [sum, if_neg differentSign]
  exact Nat.sub_le _ _

include ordered

/-- The computed difference in the scale of the smaller operand. -/
theorem sum_scale :
    (sum A B * 2 ^ ((A.exponent.toNat : ℤ) - 150) : ℚ) =
      (widened A B - B.mantissa.toNat + dropped A B : ℕ) *
        2 ^ ((B.exponent.toNat : ℤ) - 150) := by
  rw [← sum_of_different_sign ordered differentSign, place_eq ordered]
  push_cast
  ring

include normalA normalB

/--
The result has the sign of the exact difference and exceeds it in size by what
was dropped.
-/
theorem addOrdered_difference
    (notTiny : (2 ^ (-126 : ℤ) : ℚ) ≤ |A.value + B.value|) :
    ∃ difference : ℕ, difference ≠ 0 ∧
      difference + B.mantissa.toNat = widened A B ∧
      A.value + B.value =
        signed A.sign
          (difference * 2 ^ ((B.exponent.toNat : ℤ) - 150)) ∧
      (addOrdered A B).Encodes
        (signed A.sign
          ((difference + dropped A B : ℕ) *
            2 ^ ((B.exponent.toNat : ℤ) - 150))) := by
  have below := mantissa_le_widened ordered
  have exact := value_add_of_different_sign ordered normalA normalB differentSign
  have scaled := sum_scale ordered differentSign
  have product := sum_of_different_sign ordered differentSign
  refine ⟨widened A B - B.mantissa.toNat, ?_, Nat.sub_add_cancel below, exact,
    ?_⟩
  · intro zero
    rw [zero, Nat.cast_zero, zero_mul] at exact
    rw [exact, abs_signed, abs_zero] at notTiny
    exact absurd notTiny (not_le.mpr (zpow_pos two_pos _))
  · rw [← scaled]
    have size :
        (2 ^ (-126 : ℤ) : ℚ) ≤
          sum A B * 2 ^ ((A.exponent.toNat : ℤ) - 150) := by
      refine notTiny.trans ?_
      rw [exact, abs_signed, scaled, abs_of_nonneg
        (mul_nonneg (Nat.cast_nonneg _) (zpow_pos two_pos _).le)]
      refine mul_le_mul_of_nonneg_right ?_ (zpow_pos two_pos _).le
      exact_mod_cast Nat.le_add_right _ _
    rcases room_of_size size with ⟨nonzero, room⟩
    have noCarry : sum A B < 2 ^ 24 :=
      lt_of_le_of_lt (sum_le_mantissa differentSign) A.mantissa_upper
    exact encodes_addOrdered_shift ordered normalA.2 nonzero noCarry room

/-- The error in size, which is what was dropped. -/
theorem addOrdered_near
    (notTiny : (2 ^ (-126 : ℤ) : ℚ) ≤ |A.value + B.value|) :
    (addOrdered A B).Normal ∧
      SignType.sign (addOrdered A B).value =
        SignType.sign (A.value + B.value) ∧
      |(addOrdered A B).value - (A.value + B.value)| < ulp 24 A.value ∧
      (|(addOrdered A B).value - (A.value + B.value)| <
          ulp 24 (A.value + B.value) ↔
        guardBit A B = false ∨
          2 ^ ((A.exponent.toNat : ℤ) - 127) ≤ |A.value + B.value|) := by
  rcases addOrdered_difference ordered normalA normalB differentSign notTiny
    with ⟨difference, nonzero, together, exact, normal, value⟩
  have unit : (0 : ℚ) < 2 ^ ((B.exponent.toNat : ℤ) - 150) :=
    zpow_pos two_pos _
  have positive : 0 < difference := Nat.pos_of_ne_zero nonzero
  have error :
      |(addOrdered A B).value - (A.value + B.value)| =
        dropped A B * 2 ^ ((B.exponent.toNat : ℤ) - 150) := by
    rw [value, exact, signed_sub, abs_signed, ← sub_mul, Nat.cast_add,
      add_sub_cancel_left,
      abs_of_nonneg (mul_nonneg (Nat.cast_nonneg _) unit.le)]
  have leading :
      (2 ^ ((A.exponent.toNat : ℤ) - 127) : ℚ) ≤ |A.value + B.value| ↔
        2 ^ (distance A B + 23) ≤ difference := by
    rw [exact, abs_signed, abs_of_pos (scaled_pos _ positive),
      show (A.exponent.toNat : ℤ) - 127 = 23 + (A.exponent.toNat - 150) by ring,
      zpow_add₀ two_ne_zero, place_eq ordered, ← mul_assoc,
      mul_le_mul_iff_of_pos_right unit, add_comm (distance A B), pow_add]
    exact_mod_cast Iff.rfl
  refine ⟨normal, ?_, ?_, ?_⟩
  · rw [value, exact, sign_signed (scaled_pos _ positive),
      sign_signed (scaled_pos _ (Nat.add_pos_left positive _))]
  · rw [error, normalA.ulp_value, place_eq ordered,
      mul_lt_mul_iff_of_pos_right unit]
    exact_mod_cast dropped_lt A B
  · rw [error, leading, exact, ulp_signed,
      lt_ulp_scaled_iff _ positive 23]
    exact dropped_lt_iff nonzero together

end DifferentSign

/--
For normal operands of different signs whose sum is not below the normal
numbers the adder returns a normal number with the sign of the exact sum, less
than a unit in the last place of the larger operand away from it.  It is less
than a unit in the last place of the sum away exactly when the first bit which
the alignment drops is zero or the sum is not below the power of two of the
larger operand.
-/
theorem ieee754_adder_difference (A B : Word) (normalA : A.Normal)
    (normalB : B.Normal) (differentSign : A.sign ≠ B.sign)
    (notTiny : (2 ^ (-126 : ℤ) : ℚ) ≤ |A.value + B.value|) :
    (ieee754_adder A B).Normal ∧
      SignType.sign (ieee754_adder A B).value =
        SignType.sign (A.value + B.value) ∧
      |(ieee754_adder A B).value - (A.value + B.value)| <
        ulp 24 (larger A B).value ∧
      (|(ieee754_adder A B).value - (A.value + B.value)| <
          ulp 24 (A.value + B.value) ↔
        guardBit (larger A B) (smaller A B) = false ∨
          2 ^ (((larger A B).exponent.toNat : ℤ) - 127) ≤
            |A.value + B.value|) := by
  rcases normal_ordered normalA normalB with ⟨normalL, normalS, same⟩
  rw [ieee754_adder_eq, ← same]
  rw [← same] at notTiny
  exact addOrdered_near (magnitude_smaller_le A B) normalL normalS
    ((sign_ordered_iff A B).not.mpr differentSign) notTiny

/-- The sum -0.5 + 6.4 of the test bench. -/
theorem ieee754_adder_difference_sample :
    (ieee754_adder 0xbf000000#32 0x40cccccc#32).Normal ∧
      SignType.sign (ieee754_adder 0xbf000000#32 0x40cccccc#32).value =
        SignType.sign (value 0xbf000000#32 + value 0x40cccccc#32) ∧
      |(ieee754_adder 0xbf000000#32 0x40cccccc#32).value -
          (value 0xbf000000#32 + value 0x40cccccc#32)| <
        ulp 24 (larger 0xbf000000#32 0x40cccccc#32).value ∧
      (|(ieee754_adder 0xbf000000#32 0x40cccccc#32).value -
            (value 0xbf000000#32 + value 0x40cccccc#32)| <
          ulp 24 (value 0xbf000000#32 + value 0x40cccccc#32) ↔
        guardBit (larger 0xbf000000#32 0x40cccccc#32)
            (smaller 0xbf000000#32 0x40cccccc#32) = false ∨
          2 ^ (((larger 0xbf000000#32 0x40cccccc#32).exponent.toNat : ℤ) -
              127) ≤
            |value 0xbf000000#32 + value 0x40cccccc#32|) :=
  ieee754_adder_difference 0xbf000000#32 0x40cccccc#32 (by decide) (by decide)
    (by decide) (by decide +kernel)

/-- From 1 the word below it is taken away: the result is twice the difference. -/
theorem difference_doubled :
    Normal 0x3f800000#32 ∧ Normal 0xbf7fffff#32 ∧
      sign 0x3f800000#32 ≠ sign 0xbf7fffff#32 ∧
      magnitude 0x3f800000#32 ≠ magnitude 0xbf7fffff#32 ∧
      (2 ^ (-126 : ℤ) : ℚ) ≤ |value 0x3f800000#32 + value 0xbf7fffff#32| ∧
      ¬ |(ieee754_adder 0x3f800000#32 0xbf7fffff#32).value -
            (value 0x3f800000#32 + value 0xbf7fffff#32)| <
          ulp 24 (value 0x3f800000#32 + value 0xbf7fffff#32) := by
  have result : ieee754_adder 0x3f800000#32 0xbf7fffff#32 = 0x34000000#32 := by
    decide
  have exact :
      value 0x3f800000#32 + value 0xbf7fffff#32 = 1 * 2 ^ (-24 : ℤ) := by
    decide +kernel
  have error :
      |value 0x34000000#32 - 1 * 2 ^ (-24 : ℤ)| = (1 * 2 ^ (-24 : ℤ) : ℚ) := by
    decide +kernel
  refine ⟨by decide, by decide, by decide, by decide, ?_, ?_⟩
  · rw [exact]
    decide +kernel
  · have few := lt_ulp_scaled_iff (K := ℚ) (-24) one_pos 23 1
    rw [Nat.cast_one] at few
    rw [result, exact, error, few]
    decide

end FederatedEdge.Fpga
