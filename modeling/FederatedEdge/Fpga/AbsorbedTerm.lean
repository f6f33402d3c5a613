import FederatedEdge.Fpga.ExponentialSums

/-!
# Where the last term is absorbed

For a small operand the last term is 24 exponents below the sum, so that adding
it twice, or once, changes nothing.  A very small operand makes it an infinity
by the wrap in the multiplier, and a second infinity leaves the first one alone.
-/

namespace FederatedEdge.Fpga.NaturalExponential

open FederatedEdge.Library
open Word

variable {A B : Word} {k m : ℕ}

/-- The sum and what is added to it when it is latched. -/
def Absorbed (A : Word) : Prop :=
  ieee754_adder (lastTerm 10 A) (taylorSum A 11) = taylorSum A 11

/-- The operand has the last term, or zero, in its place. -/
theorem absorbed_of_cases
    (none : ieee754_adder 0 (taylorSum A 11) = taylorSum A 11)
    (repeated : ieee754_adder (term A 11) (taylorSum A 11) = taylorSum A 11) :
    Absorbed A := by
  rw [Absorbed, lastTerm]
  split_ifs with zero
  · exact none
  · exact repeated

theorem absorbed_of_far
    (far : (term A 11).exponent.toNat + 24 ≤ (taylorSum A 10).exponent.toNat) :
    Absorbed A := by
  have same : taylorSum A 11 = taylorSum A 10 := ieee754_adder_far far
  have zero : (0 : Word).exponent.toNat = 0 := by decide
  apply absorbed_of_cases
  · rw [same]
    exact ieee754_adder_far (by omega)
  · rw [same]
    exact ieee754_adder_far far

/-! ## Infinite terms -/

/-- Of two infinities the second one is the sum. -/
theorem adder_infinities (infiniteA : A.IsInfinity A.sign)
    (infiniteB : B.IsInfinity B.sign) : ieee754_adder A B = B := by
  rcases infiniteA with ⟨-, exponentA, fractionA⟩
  rcases infiniteB with ⟨-, exponentB, fractionB⟩
  have same : A.magnitude = B.magnitude := by
    rw [magnitude, magnitude, exponentA, exponentB, fractionA, fractionB]
  by_cases sameSign : A.sign = B.sign
  · have together : distance B A = 0 := by
      rw [distance, exponentA, exponentB]
    have total : sum B A = 2 ^ 24 := by
      rw [sum, if_pos sameSign.symm, aligned, together, pow_zero, Nat.div_one,
        toNat_mantissa, toNat_mantissa, fractionA, fractionB]
      norm_num
    have fields := addOrdered_carry same.le total.ge
    rw [ieee754_adder_eq, larger, smaller, if_neg (Nat.not_lt.mpr same.le),
      if_neg (Nat.not_lt.mpr same.le), fields.eq_iff, total, exponentB, fractionB]
    exact ⟨rfl, rfl, rfl⟩
  · rw [(hasFields_cancelled same sameSign).eq_iff]
    exact ⟨rfl, rfl, fractionB.symm⟩

theorem multiplier_infinite_or (small : A.exponent.toNat ≤ 126)
    (notLarge : B.exponent.toNat ≤ 127) :
    (ieee754_multiplier A B).IsInfinity (ieee754_multiplier A B).sign ∨
      (ieee754_multiplier A B).exponent.toNat ≤ B.exponent.toNat := by
  have carries := carry_le A B
  rcases Nat.lt_trichotomy (exponentSum A B) 127 with wrapped | least | above
  · have infinite := multiplier_infinite (A := A) (B := B) (Or.inl (by omega))
    exact Or.inl ⟨rfl, infinite.2⟩
  · right
    rw [(multiplier_zero least).2.1]
    exact Nat.zero_le _
  · right
    rw [exponentSum] at above
    rw [(multiplier_normal (by rw [exponentSum]; omega)
      (by rw [exponentSum]; omega)).2.1, exponentSum]
    omega

section Small

variable (ordinary : Ordinary A) (small : |A.value| < 1)

include ordinary small

theorem Ordinary.exponent_power_le (least : 1 ≤ k) (few : k ≤ 11) :
    (power A k).exponent.toNat ≤ 126 := by
  have normal := ordinary k least few
  refine normal.exponent_le_of_lt 0 ?_
  calc
    |(power A k).value| ≤ |A.value| ^ k := ordinary.size_le_pow few
    _ < 1 := pow_lt_one₀ (abs_nonneg _) small (by omega)
    _ = 2 ^ 0 := (pow_zero _).symm

theorem Ordinary.term_infinite_or (least : 1 ≤ k) (few : k ≤ 11) :
    (term A k).IsInfinity (term A k).sign ∨
      (term A k).exponent.toNat ≤ (coefficient k).exponent.toNat := by
  have coefficients := coefficient_spec least few
  rw [term_eq]
  exact multiplier_infinite_or (ordinary.exponent_power_le small least few)
    coefficients.2.2

/-- A sum is an infinity as soon as one of the terms is. -/
theorem Ordinary.taylorSum_infinite_or (few : k ≤ 11) :
    (taylorSum A k).IsInfinity (taylorSum A k).sign ∨
      (taylorSum A k).exponent.toNat ≤ 127 + k := by
  induction k with
  | zero =>
      rw [taylorSum]
      exact Or.inr (by decide)
  | succ k inductionHypothesis =>
      have coefficients := coefficient_spec (by omega : 1 ≤ k + 1) few
      rw [taylorSum]
      rcases ordinary.term_infinite_or small (by omega : 1 ≤ k + 1) few
        with infinite | finite
      · rcases inductionHypothesis (by omega) with already | before
        · rw [adder_infinities infinite already]
          exact Or.inl already
        · have exponent := infinite.2.1
          rw [ieee754_adder_far_left (by omega)]
          exact Or.inl infinite
      · rcases inductionHypothesis (by omega) with already | before
        · have exponent := already.2.1
          rw [ieee754_adder_far (by omega)]
          exact Or.inl already
        · have notLarger : (term A (k + 1)).exponent.toNat ≤ 127 + k := by omega
          exact Or.inr (exponent_adder_le notLarger before)

theorem Ordinary.absorbed_of_infinite
    (infinite : (term A 11).IsInfinity (term A 11).sign) : Absorbed A := by
  have exponent := infinite.2.1
  have next : taylorSum A 11 = ieee754_adder (term A 11) (taylorSum A 10) := rfl
  have sum : (taylorSum A 11).IsInfinity (taylorSum A 11).sign := by
    rw [next]
    rcases ordinary.taylorSum_infinite_or small (by omega : 10 ≤ 11)
      with already | before
    · rw [adder_infinities infinite already]
      exact already
    · rw [ieee754_adder_far_left (by omega)]
      exact infinite
  have zero : (0 : Word).exponent.toNat = 0 := by decide
  have exponentSum := sum.2.1
  apply absorbed_of_cases
  · exact ieee754_adder_far (by omega)
  · exact adder_infinities infinite sum

end Small

/-! ## Positive operands -/

theorem sign_term_of_even (A : Word) (least : 1 ≤ k) (few : k ≤ 11)
    (even : k.bodd = false) : (term A k).sign = false := by
  rw [sign_term least few, sign_power, even, Bool.and_false]

section Positive

variable (positive : A.sign = false)

include positive

theorem sign_term_of_positive (least : 1 ≤ k) (few : k ≤ 11) :
    (term A k).sign = false := by
  rw [sign_term least few, sign_power, positive, Bool.false_and]

/-- The partial sums of a positive operand grow. -/
theorem taylorSum_positive (later : m ≤ k) (few : k ≤ 11)
    (start : (taylorSum A m).sign = false) :
    (taylorSum A k).sign = false ∧
      (taylorSum A m).exponent.toNat ≤ (taylorSum A k).exponent.toNat := by
  induction k, later using Nat.le_induction with
  | base => exact ⟨start, le_rfl⟩
  | succ k later inductionHypothesis =>
      rcases inductionHypothesis (by omega) with ⟨sign, above⟩
      have signTerm :=
        sign_term_of_positive positive (by omega : 1 ≤ k + 1) few
      have next := positive_adder signTerm sign
      exact ⟨next.1, above.trans next.2.2⟩

end Positive

theorem exponent_coefficient_last : (coefficient 11).exponent.toNat = 101 := by
  rw [coefficient_eq 11 (by omega) (by omega)]
  decide

/-- The bounds of the terms which are added to one, and to the third sum. -/
theorem majorant_below :
    majorant (1 / 2) 9 - majorant (1 / 2) 0 ≤ 3 / 4 - 1 / 2 ^ 8 ∧
      majorant (127 / 125) 9 - majorant (127 / 125) 3 ≤ 3 / 50 := by
  have half :=
    majorant_sub_le (by norm_num : (0 : ℚ) ≤ 1 / 2) (Nat.zero_le 9) (by omega)
  have above :=
    majorant_sub_le (by norm_num : (0 : ℚ) ≤ 127 / 125) (by omega : 3 ≤ 9)
      (by omega)
  constructor
  · exact half.trans (by norm_num [partialSum])
  · exact above.trans (by norm_num [partialSum])

section Absorbed

variable (ordinary : Ordinary A)

include ordinary

/-- From one on the first sum is at least two. -/
theorem Ordinary.exponent_taylorSum_one (large : 1 ≤ |A.value|)
    (moderate : |A.value| ≤ 2) (positive : A.sign = false) :
    128 ≤ (taylorSum A 1).exponent.toNat := by
  have normal :=
    ordinary.normal_term_of_le_two le_rfl (by omega) moderate
      (by omega : 1 ≤ 9)
  have sign := sign_term_of_positive positive le_rfl (by omega : 1 ≤ 11)
  have weightOne : 1 ≤ weight 1 := by
    have exponent :=
      (normal_coefficient le_rfl (by omega : 1 ≤ 11)).zpow_le_abs_value_iff 0
    rw [zpow_zero, abs_value_coefficient le_rfl (by omega)] at exponent
    rw [exponent, coefficient_eq 1 (by omega) le_rfl]
    decide
  have least : 1 ≤ |(term A 1).value| := by
    rw [ordinary.abs_value_term le_rfl (by omega) normal]
    exact one_le_roundTowardZero
      (one_le_mul_of_one_le_of_one_le (ordinary.one_le_size large (by omega))
        weightOne) 23
  have exponent := normal.zpow_le_abs_value_iff 0
  rw [zpow_zero] at exponent
  have above := exponent.mp least
  have exponentOne : one.exponent.toNat = 127 := by decide
  have signOne : one.sign = false := by decide
  have first : taylorSum A 1 = ieee754_adder (term A 1) one := rfl
  rw [first]
  by_cases same : (term A 1).exponent.toNat = one.exponent.toNat
  · have carried := positive_adder_carry sign signOne same normal.2
    omega
  · have kept := (positive_adder sign signOne).2.1
    omega

theorem Ordinary.absorbed_of_positive (positive : A.sign = false)
    (small : A.magnitude < 0x3f9d187d) : Absorbed A := by
  have signOne : (taylorSum A 0).sign = false := by
    rw [taylorSum]
    decide
  rcases lt_or_ge |A.value| 1 with below | large
  · rcases ordinary.term_infinite_or below (by omega : 1 ≤ 11) le_rfl
      with infinite | finite
    · exact ordinary.absorbed_of_infinite below infinite
    · have above :=
        (taylorSum_positive positive (Nat.zero_le 10) (by omega) signOne).2
      have exponentOne : (taylorSum A 0).exponent.toNat = 127 := by
        rw [taylorSum]
        decide
      rw [exponent_coefficient_last] at finite
      exact absorbed_of_far (by omega)
  · have last :=
      ordinary.exponent_lastTerm_lt large (by omega : 102 ≤ 105) (by omega)
        (Nat.le_of_lt_succ small)
    have moderate : |A.value| < 2 := by
      have exponent := ordinary.normal.zpow_le_abs_value_iff 1
      rw [magnitude] at small
      rw [zpow_one] at exponent
      exact not_le.mp (exponent.not.mpr (by omega))
    have first := ordinary.exponent_taylorSum_one large moderate.le positive
    have sign :=
      (taylorSum_positive positive (Nat.zero_le 1) (by omega) signOne).1
    have above :=
      (taylorSum_positive positive (by omega : 1 ≤ 10) (by omega) sign).2
    exact absorbed_of_far (by omega)

/-- The ninth sum of a negative operand which is not much below minus one. -/
theorem Ordinary.quarter_le_taylorSum (negative : A.sign = true)
    (below : |A.value| ≤ 127 / 125) :
    (taylorSum A 9).Normal ∧ 1 / 4 ≤ (taylorSum A 9).value := by
  have terms (k : ℕ) (few : k < 9) : (term A (k + 1)).Normal :=
    ordinary.normal_term_of_le_two (by omega) (by omega)
      (below.trans (by norm_num)) few
  rcases le_total |A.value| (1 / 2) with small | moderate
  · have value : (taylorSum A 0).value = 1 := value_one
    have room := majorant_below.1
    have start : (taylorSum A 0).Normal := normal_one
    rcases ordinary.taylorSum_near small (by omega) (fun k _ few => terms k few)
        start (by linarith) (by linarith) (Nat.zero_le 9) le_rfl
      with ⟨normal, near⟩
    rcases abs_le.mp near with ⟨least, -⟩
    exact ⟨normal, by linarith⟩
  · rcases ordinary.taylorSum_three moderate (below.trans (by norm_num)) negative
      with ⟨start, least, most, -⟩
    have cubic := cubic_anti (abs_nonneg A.value) below
    have room := majorant_below.2
    rcases ordinary.taylorSum_near below (by omega) (fun k _ few => terms k few)
        start (by linarith) (by linarith) (by omega : 3 ≤ 9) le_rfl
      with ⟨normal, near⟩
    rcases abs_le.mp near with ⟨nearer, -⟩
    exact ⟨normal, by linarith⟩

theorem Ordinary.absorbed_of_negative (negative : A.sign = true)
    (small : A.magnitude < 0x3f820954) : Absorbed A := by
  have below : |A.value| ≤ 127 / 125 := by
    have normal := (normal_fromOne (boundary 102)).1
    have order : A.magnitude ≤ (fromOne (boundary 102)).magnitude := by
      rw [magnitude_fromOne]
      exact Nat.le_of_lt_succ small
    rw [magnitude_le_iff] at order
    exact order.trans abs_value_boundary.1
  rcases ordinary.quarter_le_taylorSum negative below with ⟨normal, quarter⟩
  have above : 125 ≤ (taylorSum A 10).exponent.toNat := by
    have sign := Encodes.sign_eq ⟨normal, rfl⟩ (by linarith)
    have signTerm :=
      sign_term_of_even A (by omega : 1 ≤ 10) (by omega) (by decide)
    have exponent :=
      (normal.zpow_le_abs_value_iff (-2)).mp
        (le_trans (le_trans (by norm_num) quarter) (le_abs_self _))
    have next := (positive_adder signTerm sign).2.2
    have sum : taylorSum A 10 = ieee754_adder (term A 10) (taylorSum A 9) := rfl
    rw [sum]
    omega
  rcases lt_or_ge |A.value| 1 with inside | large
  · rcases ordinary.term_infinite_or inside (by omega : 1 ≤ 11) le_rfl
      with infinite | finite
    · exact ordinary.absorbed_of_infinite inside infinite
    · rw [exponent_coefficient_last] at finite
      exact absorbed_of_far (by omega)
  · have last :=
      ordinary.exponent_lastTerm_lt large (le_refl 102) (by omega)
        (Nat.le_of_lt_succ small)
    exact absorbed_of_far (by omega)

end Absorbed

end FederatedEdge.Fpga.NaturalExponential
