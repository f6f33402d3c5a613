import FederatedEdge.Fpga.AbsorbedTerm

/-!
# Where the last term is added twice

From the same bounds on, the last term is close enough to the sum to change it,
unless it is a power of two and cancels the sum.  The fraction of the operand
decides whether it is a power of two, and the few operands with that fraction
and a sum of the other sign are evaluated.
-/

namespace FederatedEdge.Fpga.NaturalExponential

open FederatedEdge.Library
open Word

variable {A B : Word} {x : ℚ} {k n : ℕ}

instance (A : Word) : Decidable (Absorbed A) :=
  inferInstanceAs (Decidable (_ = _))

/-! ## Terms which change the sum -/

/-- The next power of an operand from one on is not zero. -/
theorem Ordinary.power_twelve_ne_zero (ordinary : Ordinary A)
    (large : 1 ≤ |A.value|) : power A 12 ≠ 0 := by
  have exponentA := ordinary.normal.zpow_le_abs_value_iff 0
  have exponentPower :=
    (ordinary 11 (by omega) le_rfl).zpow_le_abs_value_iff 0
  rw [zpow_zero] at exponentA exponentPower
  have left := exponentA.mp large
  have right := exponentPower.mp (ordinary.one_le_size large le_rfl)
  have total : 254 ≤ exponentSum A (power A 11) := by
    rw [exponentSum]
    omega
  have exponent : (power A 12).exponent.toNat ≠ 0 := by
    have next : power A 12 = ieee754_multiplier A (power A 11) := rfl
    rw [next]
    rcases Nat.lt_or_ge (exponentSum A (power A 11)) 382 with inside | above
    · rw [(multiplier_normal (by omega) (by omega)).2.1]
      omega
    · rw [(multiplier_infinite (Or.inr above)).2.1]
      decide
  intro zero
  rw [zero] at exponent
  exact exponent (by decide)

theorem Ordinary.not_absorbed (ordinary : Ordinary A) (large : 1 ≤ |A.value|)
    (normal : (taylorSum A 11).Normal)
    (close :
      (taylorSum A 11).exponent.toNat ≤ (term A 11).exponent.toNat + 23)
    (notCancelled :
      (taylorSum A 11).sign = (term A 11).sign ∨
        (term A 11).fraction.toNat ≠ 0) :
    ¬ Absorbed A := by
  rw [Absorbed, lastTerm, if_neg (ordinary.power_twelve_ne_zero large)]
  exact adder_ne_right normal close notCancelled

/-! ## Moderate operands -/

theorem majorant_moderate :
    majorant (21 / 16) 11 < 2 ^ 2 ∧
      majorant (21 / 16) 11 - majorant (21 / 16) 3 ≤ 33 / 200 := by
  have notNegative : (0 : ℚ) ≤ 21 / 16 := by norm_num
  have total := majorant_le notNegative (le_refl 11)
  have tail := majorant_sub_le notNegative (by omega : 3 ≤ 11) le_rfl
  constructor
  · exact total.trans_lt (by norm_num [partialSum])
  · exact tail.trans (by norm_num [partialSum])

section Moderate

variable (ordinary : Ordinary A) (large : 1 ≤ |A.value|)
  (moderate : |A.value| ≤ 21 / 16)

include ordinary large moderate

theorem Ordinary.taylorSum_moderate :
    (taylorSum A 11).Normal ∧ (taylorSum A 11).exponent.toNat ≤ 128 := by
  have room := majorant_moderate.1
  rcases ordinary.taylorSum_large large (ordinary.dominated moderate)
      (by norm_num) (by linarith) (le_refl 11)
    with ⟨normal, bound⟩
  rw [one_mul] at bound
  exact ⟨normal, normal.exponent_le_of_lt 2 (bound.trans_lt room)⟩

/-- The sum of a negative operand is smaller. -/
theorem Ordinary.taylorSum_moderate_negative (negative : A.sign = true)
    (above : 10159 / 10000 ≤ |A.value|) :
    (taylorSum A 11).exponent.toNat ≤ 125 := by
  have room := majorant_moderate.1
  have terms (k : ℕ) (few : k < 11) : (term A (k + 1)).Normal :=
    (ordinary.inner_term large (ordinary.dominated moderate) (by norm_num)
      (by linarith) few).normal
  rcases ordinary.taylorSum_three (by linarith) moderate negative
    with ⟨start, least, most, near⟩
  have nearer := near (le_trans (by norm_num) above)
  have cubicLower := cubic_anti (abs_nonneg A.value) moderate
  have cubicUpper := cubic_anti (by norm_num) above
  have tail := majorant_moderate.2
  rcases ordinary.taylorSum_near moderate le_rfl (fun k _ few => terms k few)
      start (by linarith) (by linarith) (by omega : 3 ≤ 11) le_rfl
    with ⟨normal, close⟩
  rcases abs_le.mp close with ⟨closeLower, closeUpper⟩
  have small : |(taylorSum A 11).value| < 1 / 2 :=
    abs_lt.mpr ⟨by linarith, by linarith⟩
  have exponent := normal.zpow_le_abs_value_iff (-1)
  have outside := exponent.not.mp (not_le.mpr (small.trans_eq (by norm_num)))
  omega

end Moderate

/-! ## Large operands -/

theorem exponent_le_add (normalA : A.Normal)
    (bound : |A.value| ≤ 2 ^ n * |B.value|) :
    A.exponent.toNat ≤ B.exponent.toNat + n := by
  by_contra greater
  have leading :=
    (normalA.zpow_le_abs_value_iff (n + (B.exponent.toNat - 126))).mpr (by omega)
  have below := B.abs_value_lt
  rw [zpow_add₀ two_ne_zero, zpow_natCast] at leading
  have product := mul_lt_mul_of_pos_left below (pow_pos two_pos n)
  linarith

section Growing

variable (ordinary : Ordinary A) (positive : 0 < x)
  (below : x ≤ |A.value| * (1 - 2 ^ (-23 : ℤ)))

include ordinary positive below

/-- Each power is larger than the one before by the factor `x` at least. -/
theorem Ordinary.size_mul_pow_le (few : k + n ≤ 11) :
    size A k * x ^ n ≤ size A (k + n) := by
  induction n with
  | zero => rw [pow_zero, mul_one, Nat.add_zero]
  | succ n inductionHypothesis =>
      have before := inductionHypothesis (by omega)
      calc
        size A k * x ^ (n + 1) = x * (size A k * x ^ n) := by ring
        _ ≤ |A.value| * (1 - 2 ^ (-23 : ℤ)) * size A (k + n) :=
          mul_le_mul below before
            (mul_nonneg (abs_nonneg _) (pow_pos positive n).le)
            (positive.le.trans below)
        _ = |A.value| * size A (k + n) * (1 - 2 ^ (-23 : ℤ)) := by ring
        _ ≤ size A (k + (n + 1)) := ordinary.le_size_succ (by omega)

theorem Ordinary.dominated_of_growing :
    Dominated A (size A 11 / x ^ 11) x := by
  intro k few
  have growth :=
    ordinary.size_mul_pow_le positive below (by omega : k + (11 - k) ≤ 11)
  rw [Nat.add_sub_cancel' few] at growth
  rw [div_mul_eq_mul_div, le_div_iff₀ (pow_pos positive 11)]
  calc
    size A k * x ^ 11 = size A k * x ^ (11 - k) * x ^ k := by
      rw [mul_assoc, ← pow_add, Nat.sub_add_cancel few]
    _ ≤ size A 11 * x ^ k :=
      mul_le_mul_of_nonneg_right growth (pow_pos positive k).le

/-- The sums beside the last power, as far as the bound has room. -/
theorem Ordinary.taylorSum_growing (large : 1 ≤ |A.value|)
    (room : majorant x 11 ≤ x ^ 11 * (1 / 4)) (few : k ≤ 11) :
    (taylorSum A k).Normal ∧
      |(taylorSum A k).value| ≤ size A 11 * (majorant x k / x ^ 11) := by
  have last : size A 11 < 2 ^ 128 :=
    Word.Finite.abs_value_lt (ordinary 11 (by omega) le_rfl).2
  have small : size A 11 / x ^ 11 * majorant x 11 < 2 ^ 126 := by
    rw [div_mul_eq_mul_div, div_lt_iff₀ (pow_pos positive 11)]
    calc
      size A 11 * majorant x 11 ≤ size A 11 * (x ^ 11 * (1 / 4)) :=
        mul_le_mul_of_nonneg_left room (abs_nonneg _)
      _ < 2 ^ 128 * (x ^ 11 * (1 / 4)) :=
        mul_lt_mul_of_pos_right last (mul_pos (pow_pos positive 11) (by norm_num))
      _ = 2 ^ 126 * x ^ 11 := by ring
  have bound :=
    ordinary.taylorSum_large large
      (ordinary.dominated_of_growing positive below) positive.le small few
  rw [div_mul_eq_mul_div, ← mul_div_assoc'] at bound
  exact bound

end Growing

theorem weight_last : (1 - 1 / 2 ^ 20) / 39916800 ≤ weight 11 := by
  have near := (weight_near (by omega : 1 ≤ 11) le_rfl).1
  rw [show Nat.factorial 11 = 39916800 from rfl, Nat.cast_ofNat] at near
  linarith

/-- The bounds of the sums beside the one of the last term. -/
theorem majorant_above :
    (majorant (13 / 10) 11 ≤ (13 / 10) ^ 11 * (1 / 4) ∧
        majorant (13 / 10) 11 / (13 / 10) ^ 11 ≤
          2 ^ 23 * (weight 11 * (1 - 2 ^ (-23 : ℤ)))) ∧
      majorant 23 11 ≤ 23 ^ 11 * (1 / 4) ∧
        majorant 23 10 / 23 ^ 11 < weight 11 * (1 - 2 ^ (-23 : ℤ)) := by
  have last := weight_last
  have small := majorant_le (by norm_num : (0 : ℚ) ≤ 13 / 10) (le_refl 11)
  have large := majorant_le (by norm_num : (0 : ℚ) ≤ 23) (le_refl 11)
  have before := majorant_le (by norm_num : (0 : ℚ) ≤ 23) (by omega : 10 ≤ 11)
  refine ⟨⟨?_, ?_⟩, ?_, ?_⟩
  · exact small.trans (by norm_num [partialSum])
  · rw [div_le_iff₀ (by norm_num)]
    norm_num [partialSum] at small last ⊢
    linarith
  · exact large.trans (by norm_num [partialSum])
  · rw [div_lt_iff₀ (by norm_num)]
    norm_num [partialSum] at before last ⊢
    linarith

/-- The sum is not too large beside the last term. -/
theorem Ordinary.taylorSum_close (ordinary : Ordinary A)
    (above : 21 / 16 ≤ |A.value|) :
    (taylorSum A 11).Normal ∧
      (taylorSum A 11).exponent.toNat ≤ (term A 11).exponent.toNat + 23 := by
  have large : 1 ≤ |A.value| := le_trans (by norm_num) above
  have factor : 13 / 10 ≤ |A.value| * (1 - 2 ^ (-23 : ℤ)) :=
    le_trans (by norm_num) (mul_le_mul_of_nonneg_right above (by norm_num))
  rcases majorant_above.1 with ⟨room, share⟩
  rcases ordinary.taylorSum_growing (by norm_num) factor large room le_rfl
    with ⟨normal, bound⟩
  have normalTerm := ordinary.normal_lastTerm large
  have least := ordinary.le_abs_value_term (by omega) le_rfl normalTerm
  refine ⟨normal, exponent_le_add normal ?_⟩
  calc
    |(taylorSum A 11).value| ≤
        size A 11 * (majorant (13 / 10) 11 / (13 / 10) ^ 11) :=
      bound
    _ ≤ size A 11 * (2 ^ 23 * (weight 11 * (1 - 2 ^ (-23 : ℤ)))) :=
      mul_le_mul_of_nonneg_left share (abs_nonneg _)
    _ = 2 ^ 23 * (size A 11 * weight 11 * (1 - 2 ^ (-23 : ℤ))) := by ring
    _ ≤ 2 ^ 23 * |(term A 11).value| :=
      mul_le_mul_of_nonneg_left least (by norm_num)

/-- The last term of a very large operand decides about the sign of the sum. -/
theorem Ordinary.sign_taylorSum (ordinary : Ordinary A)
    (above : 24 ≤ |A.value|) :
    (taylorSum A 11).sign = (term A 11).sign := by
  have large : 1 ≤ |A.value| := le_trans (by norm_num) above
  have factor : 23 ≤ |A.value| * (1 - 2 ^ (-23 : ℤ)) :=
    le_trans (by norm_num) (mul_le_mul_of_nonneg_right above (by norm_num))
  rcases majorant_above.2 with ⟨room, share⟩
  rcases ordinary.taylorSum_growing (by norm_num) factor large room
      (by omega : 10 ≤ 11)
    with ⟨-, bound⟩
  have least :=
    ordinary.le_abs_value_term (by omega) le_rfl (ordinary.normal_lastTerm large)
  have order : |(taylorSum A 10).value| < |(term A 11).value| := by
    calc
      |(taylorSum A 10).value| ≤ size A 11 * (majorant 23 10 / 23 ^ 11) := bound
      _ < size A 11 * (weight 11 * (1 - 2 ^ (-23 : ℤ))) :=
        mul_lt_mul_of_pos_left share (ordinary.size_pos le_rfl)
      _ = size A 11 * weight 11 * (1 - 2 ^ (-23 : ℤ)) := by ring
      _ ≤ |(term A 11).value| := least
  exact sign_adder_of_lt order

/-! ## Last terms which are powers of two -/

/-- The last term of an operand from one on and below two. -/
theorem magnitude_lastTerm_fromOne (fraction : BitVec 23) :
    0x32d7322e ≤ (term (fromOne fraction) 11).magnitude ∧
      (term (fromOne fraction) 11).magnitude ≤ 0x38573224 := by
  have ordinary := ordinary_fromOne fraction
  have large := (normal_fromOne fraction).2.1
  have ends :
      (term (fromOne 0) 11).magnitude = 0x32d7322e ∧
        (term (fromOne 0x7fffff) 11).magnitude = 0x38573224 := by
    rw [lastTerm_eq, lastTerm_eq]
    decide +kernel
  have stored := fraction.isLt
  have lowest := ordinary.le_magnitude_lastTerm large 0 (by
    rw [magnitude_fromOne, magnitude_fromOne]
    exact Nat.add_le_add_left (Nat.zero_le _) _)
  have highest := ordinary.magnitude_lastTerm_le large 0x7fffff (by
    have top : (0x7fffff : BitVec 23).toNat = 2 ^ 23 - 1 := by decide
    rw [magnitude_fromOne, magnitude_fromOne, top]
    exact Nat.add_le_add_left (Nat.le_pred_of_lt stored) _)
  rw [ends.1] at lowest
  rw [ends.2] at highest
  exact ⟨lowest, highest⟩

/-- The fraction for which the last term is a power of two. -/
def exactFraction : BitVec 23 :=
  0x323210

theorem fraction_lastTerm (fraction : BitVec 23)
    (exact : (term (fromOne fraction) 11).fraction.toNat = 0) :
    fraction = exactFraction := by
  have ordinary := ordinary_fromOne fraction
  have large := (normal_fromOne fraction).2.1
  rcases magnitude_lastTerm_fromOne fraction with ⟨lowest, highest⟩
  have fields := magnitude.eq_def (term (fromOne fraction) 11)
  rw [exact, Nat.add_zero] at fields
  rw [fields] at lowest highest
  generalize hexponent : (term (fromOne fraction) 11).exponent.toNat = e at *
  have lower : 102 ≤ e := by omega
  have upper : e < 113 := by omega
  have above : ¬ fraction.toNat ≤ (boundary e).toNat := by
    intro few
    have smaller := ordinary.exponent_lastTerm_lt large lower upper
      ((magnitude_fromOne fraction).trans_le (Nat.add_le_add_left few _))
    omega
  rcases boundary_spec e upper lower with ⟨-, row⟩
  rcases toNat_boundary e upper lower with ⟨next, second⟩
  split_ifs at row with special
  · have notAbove : ¬ (boundary e).toNat + 2 ≤ fraction.toNat := by
      intro many
      have bound := ordinary.le_magnitude_lastTerm large (boundary e + 2)
        (by
          rw [magnitude_fromOne, magnitude_fromOne]
          exact Nat.add_le_add_left (second.trans_le many) _)
      omega
    have same : fraction = boundary e + 1 := by
      apply BitVec.eq_of_toNat_eq
      omega
    rw [same, special]
    decide
  · have bound := ordinary.le_magnitude_lastTerm large (boundary e + 1)
      (by
        rw [magnitude_fromOne, magnitude_fromOne]
        exact Nat.add_le_add_left (next.trans_le (Nat.lt_of_not_le above)) _)
    omega

/-- The negative operands with that fraction, up to the sign of their last term. -/
theorem exact_not_absorbed :
    ∀ e < 132, 127 ≤ e →
      ¬ Absorbed (.pack true (BitVec.ofNat 8 e) exactFraction) := by
  decide +kernel

section Ordinary

variable (ordinary : Ordinary A)

include ordinary

/-- Below the sums of the other sign no last term is a power of two. -/
theorem Ordinary.not_absorbed_of_exact (large : 1 ≤ |A.value|)
    (below : |A.value| < 24) (negative : A.sign = true)
    (exact : (term A 11).fraction.toNat = 0) : ¬ Absorbed A := by
  have same : (fromOne A.fraction).fraction = A.fraction := fraction_pack _ _ _
  have fraction : A.fraction = exactFraction := by
    apply fraction_lastTerm
    have other := ordinary_fromOne A.fraction
    have otherLarge := (normal_fromOne A.fraction).2.1
    rw [other.fraction_term_eq (by omega) le_rfl ordinary
      (other.normal_lastTerm otherLarge) (ordinary.normal_lastTerm large) same]
    exact exact
  have least := ordinary.normal.zpow_le_abs_value_iff 0
  rw [zpow_zero] at least
  have lower := least.mp large
  have upper := ordinary.normal.exponent_le_of_lt 5 (below.trans (by norm_num))
  have fields : A = .pack true (BitVec.ofNat 8 A.exponent.toNat) exactFraction := by
    rw [BitVec.ofNat_toNat, BitVec.setWidth_eq, ← fraction, ← negative,
      pack_fields]
  rw [fields]
  exact exact_not_absorbed _ (by omega) (by omega)

theorem Ordinary.not_absorbed_of_negative (negative : A.sign = true)
    (large : 0x3f820954 ≤ A.magnitude) : ¬ Absorbed A := by
  have above : 10159 / 10000 ≤ |A.value| := by
    have normal := (normal_fromOne (boundary 102 + 1)).1
    have order : (fromOne (boundary 102 + 1)).magnitude ≤ A.magnitude := by
      rw [magnitude_fromOne]
      exact large
    rw [magnitude_le_iff] at order
    exact abs_value_boundary.2.trans order
  have fromOne : 1 ≤ |A.value| := le_trans (by norm_num) above
  have close :
      (taylorSum A 11).Normal ∧
        (taylorSum A 11).exponent.toNat ≤ (term A 11).exponent.toNat + 23 := by
    rcases le_total |A.value| (21 / 16) with moderate | larger
    · have last :=
        ordinary.le_exponent_lastTerm fromOne (le_refl 102) (by omega) large
      have sum :=
        ordinary.taylorSum_moderate_negative fromOne moderate negative above
      exact ⟨(ordinary.taylorSum_moderate fromOne moderate).1, by omega⟩
    · exact ordinary.taylorSum_close larger
  rcases lt_or_ge |A.value| 24 with below | beyond
  · by_cases exact : (term A 11).fraction.toNat = 0
    · exact ordinary.not_absorbed_of_exact fromOne below negative exact
    · exact ordinary.not_absorbed fromOne close.1 close.2 (Or.inr exact)
  · exact ordinary.not_absorbed fromOne close.1 close.2
      (Or.inl (ordinary.sign_taylorSum beyond))

theorem Ordinary.not_absorbed_of_positive (positive : A.sign = false)
    (large : 0x3f9d187d ≤ A.magnitude) : ¬ Absorbed A := by
  have fromOne : 1 ≤ |A.value| := by
    have exponent := ordinary.normal.zpow_le_abs_value_iff 0
    have fraction := A.fraction.isLt
    rw [magnitude] at large
    rw [zpow_zero] at exponent
    exact exponent.mpr (by omega)
  have close :
      (taylorSum A 11).Normal ∧
        (taylorSum A 11).exponent.toNat ≤ (term A 11).exponent.toNat + 23 := by
    rcases le_total |A.value| (21 / 16) with moderate | larger
    · have last :=
        ordinary.le_exponent_lastTerm fromOne (by omega : 102 ≤ 105) (by omega)
          large
      have sum := ordinary.taylorSum_moderate fromOne moderate
      exact ⟨sum.1, by omega⟩
    · exact ordinary.taylorSum_close larger
  have signOne : (taylorSum A 0).sign = false := by
    rw [taylorSum]
    decide
  have sign := (taylorSum_positive positive (Nat.zero_le 11) le_rfl signOne).1
  have signTerm := sign_term_of_positive positive (by omega : 1 ≤ 11) le_rfl
  exact ordinary.not_absorbed fromOne close.1 close.2
    (Or.inl (sign.trans signTerm.symm))

/-- The last term is absorbed below a bound which depends on the sign. -/
theorem Ordinary.absorbed_iff :
    Absorbed A ↔
      A.magnitude < if A.sign then 0x3f820954 else 0x3f9d187d := by
  cases sign : A.sign with
  | true =>
      rw [if_pos rfl]
      refine ⟨fun absorbed => ?_, ordinary.absorbed_of_negative sign⟩
      by_contra large
      exact ordinary.not_absorbed_of_negative sign (Nat.not_lt.mp large) absorbed
  | false =>
      rw [if_neg Bool.false_ne_true]
      refine ⟨fun absorbed => ?_, ordinary.absorbed_of_positive sign⟩
      by_contra large
      exact ordinary.not_absorbed_of_positive sign (Nat.not_lt.mp large) absorbed

end Ordinary

/-! ## The latched result -/

/-- From a cleared state on a result is latched, and it is the partial sum. -/
structure LatchesTaylorSum (ITER : ℕ) (A : Word) (cleared : NaturalExponential) :
    Prop where
  latches : ∃ n, ((NaturalExponential.posedge ITER false A)^[n] cleared).Latches ITER
  result :
    ∀ n, ((NaturalExponential.posedge ITER false A)^[n] cleared).Latches ITER →
      ((NaturalExponential.posedge ITER false A)^[n + 1] cleared).result =
        taylorSum A (ITER + 1)

/--
With its operand held after a reset, the module latches the partial sum with
every term added once if and only if the operand is below a bound in magnitude,
which is about 1.2273 for positive operands and 1.0159 for negative ones.  From
the bound on the last term is in the result twice, and changes it.
-/
theorem latches_taylorSum_iff (A : Word) (ordinary : Ordinary A)
    (exponential : NaturalExponential) (other : Word) :
    LatchesTaylorSum 10 A (exponential.posedge 10 true other) ↔
      A.magnitude < if A.sign then 0x3f820954 else 0x3f9d187d := by
  have nonzero (k : ℕ) (few : k ≤ 10) : power A (k + 1) ≠ 0 := by
    intro zero
    have lower := (ordinary (k + 1) (by omega) (by omega)).1
    rw [zero] at lower
    exact absurd lower (by decide)
  have latched {n : ℕ} := result_latched (by omega : 6 ≤ 10) nonzero exponential
    other (n := n)
  rw [← ordinary.absorbed_iff]
  constructor
  · intro right
    rcases right.latches with ⟨n, latches⟩
    exact (latched latches).symm.trans (right.result n latches)
  · intro absorbed
    refine ⟨⟨255, ?_⟩, fun n latches => (latched latches).trans absorbed⟩
    exact (phase_iterate exponential other 255).1.latches_iff.mpr (by decide)

/-- The operand 1.0. -/
theorem latches_taylorSum_iff_sample :
    LatchesTaylorSum 10 one (sampleExponential.posedge 10 true 0) ↔
      one.magnitude < if one.sign then 0x3f820954 else 0x3f9d187d :=
  latches_taylorSum_iff one
    (ordinary_of_moderate normal_one abs_value_one.ge
      (abs_value_one.trans_le (by norm_num)))
    sampleExponential 0

/-- The operand 3.0 of the test bench. -/
theorem last_term_repeated :
    Ordinary 0x40400000#32 ∧ taylorSum 0x40400000#32 11 = 0x41a0ac3a#32 ∧
      ((NaturalExponential.posedge 10 false 0x40400000#32)^[256]
          (sampleExponential.posedge 10 true 0x40400000#32)).result =
        0x41a0b550#32 ∧
      ¬ LatchesTaylorSum 10 0x40400000#32
        (sampleExponential.posedge 10 true 0x40400000#32) := by
  have sum : taylorSum 0x40400000#32 11 = 0x41a0ac3a#32 := by decide +kernel
  have stored :
      ((NaturalExponential.posedge 10 false 0x40400000#32)^[256]
          (sampleExponential.posedge 10 true 0x40400000#32)).result =
        0x41a0b550#32 := by
    decide +kernel
  refine ⟨?_, sum, stored, fun right => ?_⟩
  · have three := Divider.encodes_three
    refine ordinary_of_moderate three.1 ?_ ?_
    · rw [three.2]
      norm_num
    · rw [three.2]
      norm_num
  · have latches :=
      (phase_iterate (A := 0x40400000#32) sampleExponential 0x40400000#32
        255).1.latches_iff.mpr (by decide : 255 + 1 = seriesLength 10)
    have result := right.result 255 latches
    rw [stored, sum] at result
    exact absurd result (by decide)

end FederatedEdge.Fpga.NaturalExponential
