import Mathlib.Algebra.Order.Field.Basic
import Mathlib.Algebra.Order.Ring.Abs
import Mathlib.Tactic.Linarith
import Mathlib.Tactic.Ring

/-!
# Reciprocals by Newton's iteration

The shortfall of an approximation `x` of the reciprocal of `d` is `1 - d * x`.
The exact step squares it.  A step in a limited precision may take a factor
which is too large by `excess`, and lose the part `loss` of the product: the
shortfall is then the square, up to these two.
-/

namespace FederatedEdge.Library

variable {K : Type} [Field K] [LinearOrder K] [IsStrictOrderedRing K]

/-- How far `d * x` is below one. -/
def shortfall (d x : K) : K :=
  1 - d * x

omit [LinearOrder K] [IsStrictOrderedRing K] in
/-- Newton's iteration for the reciprocal squares the shortfall. -/
theorem mul_newton (d x : K) :
    d * x * (1 + shortfall d x) = 1 - shortfall d x ^ 2 := by
  rw [shortfall]
  ring

/-- From `x` to `next`, by a factor which is rounded up and a product rounded
down. -/
def NewtonStep (d excess loss x next : K) : Prop :=
  ∃ factor,
    1 + shortfall d x ≤ factor ∧ factor ≤ 1 + shortfall d x + excess ∧
      x * factor * (1 - loss) ≤ next ∧ next ≤ x * factor

section Step

variable {d excess loss bound x next : K} (divisor : 0 ≤ d)
  (approximation : 0 ≤ x) (near : |shortfall d x| ≤ bound)
  (step : NewtonStep d excess loss x next)

include divisor approximation near step

/-- A factor which is too large takes the product above the reciprocal. -/
theorem NewtonStep.shortfall_lower (notNegative : 0 ≤ excess) :
    -((1 + bound) * excess) ≤ shortfall d next := by
  rcases step with ⟨factor, -, upper, -, below⟩
  have product : 0 ≤ d * x := mul_nonneg divisor approximation
  have small : d * x ≤ 1 + bound := by
    have lower := neg_le_of_abs_le near
    rw [shortfall] at lower
    linarith
  have largest :
      d * next ≤ 1 - shortfall d x ^ 2 + d * x * excess := by
    calc
      d * next ≤ d * (x * factor) := mul_le_mul_of_nonneg_left below divisor
      _ = d * x * factor := (mul_assoc d x factor).symm
      _ ≤ d * x * (1 + shortfall d x + excess) :=
        mul_le_mul_of_nonneg_left upper product
      _ = 1 - shortfall d x ^ 2 + d * x * excess := by
        rw [mul_add, mul_newton]
  have extra : d * x * excess ≤ (1 + bound) * excess :=
    mul_le_mul_of_nonneg_right small notNegative
  have square := sq_nonneg (shortfall d x)
  rw [shortfall]
  linarith

/-- Otherwise the shortfall is the square, up to the lost part. -/
theorem NewtonStep.shortfall_upper (part : 0 ≤ loss) (atMost : loss ≤ 1) :
    shortfall d next ≤ bound ^ 2 + loss := by
  rcases step with ⟨factor, lower, -, above, -⟩
  have product : 0 ≤ d * x := mul_nonneg divisor approximation
  have square : shortfall d x ^ 2 ≤ bound ^ 2 := by
    rw [← sq_abs]
    exact pow_le_pow_left₀ (abs_nonneg _) near 2
  have least :
      (1 - shortfall d x ^ 2) * (1 - loss) ≤ d * next := by
    calc
      (1 - shortfall d x ^ 2) * (1 - loss) =
          d * x * (1 + shortfall d x) * (1 - loss) := by
        rw [mul_newton]
      _ ≤ d * x * factor * (1 - loss) :=
        mul_le_mul_of_nonneg_right (mul_le_mul_of_nonneg_left lower product)
          (sub_nonneg.mpr atMost)
      _ = d * (x * factor * (1 - loss)) := by ring
      _ ≤ d * next := mul_le_mul_of_nonneg_left above divisor
  have lost : 0 ≤ shortfall d x ^ 2 * loss := mul_nonneg (sq_nonneg _) part
  rw [shortfall]
  linarith [least, lost, square]

/-- A tolerance which takes in both errors bounds the shortfall. -/
theorem NewtonStep.shortfall_le {tolerance : K} (notNegative : 0 ≤ excess)
    (part : 0 ≤ loss) (atMost : loss ≤ 1)
    (below : (1 + bound) * excess ≤ tolerance)
    (above : bound ^ 2 + loss ≤ tolerance) : |shortfall d next| ≤ tolerance := by
  have lower := step.shortfall_lower divisor approximation near notNegative
  have upper := step.shortfall_upper divisor approximation near part atMost
  rw [abs_le]
  exact ⟨(neg_le_neg below).trans lower, upper.trans above⟩

end Step

end FederatedEdge.Library
