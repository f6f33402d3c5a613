import FederatedEdge.Library.NearestEven
import Mathlib.Data.Rat.Floor
import Mathlib.Tactic.NormNum

/-!
# Doubles

A double is a finite number of the format `binary64`, an infinity or a NaN; the
sign of a zero is not kept.  The operations round to the nearest double, and to
an infinity from the limit of the format on.
-/

namespace FederatedEdge.Json

open FederatedEdge.Library

/-- The format of `double`. -/
def binary64 : BinaryFormat where
  precision := 53
  least := -1074
  limit := 1024
  positive := by decide

/-- The format of `float`. -/
def binary32 : BinaryFormat where
  precision := 24
  least := -149
  limit := 128
  positive := by decide

/-- The value of a finite double. -/
structure Finite where
  value : ℚ
  rounded : binary64.round value = value
  bounded : |value| < 2 ^ binary64.limit
deriving DecidableEq

/-- The values of a `double`; the sign of zero and of a NaN is left out. -/
inductive Double where
  | finite (number : Finite)
  | infinite (negative : Bool)
  | nan
deriving DecidableEq

theorem Finite.ext_value {left right : Finite} (same : left.value = right.value) :
    left = right := by
  cases left
  cases right
  congr

theorem Finite.representable (number : Finite) :
    binary64.Representable number.value :=
  BinaryFormat.round_eq_self_iff.mp number.rounded

namespace Double

/-- The nearest double. -/
def ofRat (x : ℚ) : Double :=
  if bounded : |binary64.round x| < 2 ^ binary64.limit then
    .finite ⟨binary64.round x, (BinaryFormat.representable_round x).round_self,
      bounded⟩
  else .infinite (x < 0)

/-- The absolute value. -/
def fabs : Double → Double
  | .finite number =>
      .finite
        ⟨|number.value|, by
          rcases abs_choice number.value with same | opposite
          · rw [same, number.rounded]
          · rw [opposite, BinaryFormat.round_neg, number.rounded],
        by
          rw [abs_abs]
          exact number.bounded⟩
  | .infinite _ => .infinite false
  | .nan => .nan

/-- The difference, rounded to the nearest double. -/
def sub : Double → Double → Double
  | .finite left, .finite right => .ofRat (left.value - right.value)
  | .finite _, .infinite negative => .infinite !negative
  | .infinite negative, .finite _ => .infinite negative
  | .infinite left, .infinite right =>
      if left = right then .nan else .infinite left
  | _, _ => .nan

/-- The product with `DBL_EPSILON`. -/
def mulEpsilon : Double → Double
  | .finite number => .ofRat (number.value * 2 ^ (-52 : ℤ))
  | .infinite negative => .infinite negative
  | .nan => .nan

/-- The comparison `left <= right`, which is false for a NaN. -/
def le : Double → Double → Bool
  | .nan, _ => false
  | _, .nan => false
  | .infinite true, _ => true
  | _, .infinite false => true
  | .infinite false, _ => false
  | _, .infinite true => false
  | .finite left, .finite right => left.value ≤ right.value

/-- The comparison `left > right`, which is false for a NaN. -/
def gt (left right : Double) : Bool :=
  left ≠ .nan && right ≠ .nan && !left.le right

end Double

/-- Equal up to a relative difference of `DBL_EPSILON`, never for a NaN. -/
def compare_double (a b : Double) : Bool :=
  let maxVal := if (a.fabs).gt b.fabs then a.fabs else b.fabs
  ((a.sub b).fabs).le maxVal.mulEpsilon

/-! ## Finite doubles -/

/-- A double is the nearest double to its value. -/
theorem ofRat_value (number : Finite) : Double.ofRat number.value = .finite number := by
  have bounded : |binary64.round number.value| < 2 ^ binary64.limit := by
    rw [number.rounded]
    exact number.bounded
  rw [Double.ofRat, dif_pos bounded]
  exact congrArg Double.finite (Finite.ext_value number.rounded)

theorem ofRat_eq_finite {x : ℚ} {number : Finite}
    (same : binary64.round x = number.value) : Double.ofRat x = .finite number := by
  have bounded : |binary64.round x| < 2 ^ binary64.limit := by
    rw [same]
    exact number.bounded
  rw [Double.ofRat, dif_pos bounded]
  exact congrArg Double.finite (Finite.ext_value same)

/-- What is below a power of two within the format is rounded to a finite double. -/
theorem ofRat_of_bounded {x : ℚ} {exponent : ℤ} (large : binary64.least ≤ exponent)
    (small : exponent < binary64.limit) (bound : |x| ≤ 2 ^ exponent) :
    ∃ number : Finite, Double.ofRat x = .finite number ∧
      number.value = binary64.round x := by
  have rounded : |binary64.round x| ≤ 2 ^ exponent :=
    (BinaryFormat.representable_zpow large).abs_round_le bound
  have bounded : |binary64.round x| < 2 ^ binary64.limit :=
    rounded.trans_lt (zpow_lt_zpow_right₀ one_lt_two small)
  exact ⟨_, dif_pos bounded, rfl⟩

end FederatedEdge.Json
