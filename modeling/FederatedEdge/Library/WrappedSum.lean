import Mathlib.Algebra.BigOperators.Group.List.Basic
import Mathlib.Data.Int.Basic
import Mathlib.Data.List.Induction
import Mathlib.Tactic.Linarith
import Mathlib.Tactic.Ring

/-!
# Sums in fixed-width integers

Two's complement addition of integers of a given width.  A sum which is built
up by such additions is the mathematical one as long as no running sum leaves
the range, and the first running sum which does so is where an addition
overflows.
-/

namespace FederatedEdge.Library

/-- The integers of a width: at least `-2 ^ (bits - 1)`, below `2 ^ (bits - 1)`. -/
def Fits (bits : ℕ) (value : ℤ) : Prop :=
  -(2 ^ (bits - 1)) ≤ value ∧ value < 2 ^ (bits - 1)

instance (bits : ℕ) (value : ℤ) : Decidable (Fits bits value) := by
  unfold Fits
  infer_instance

/-- The low bits of an integer, read in two's complement, are it when it fits. -/
theorem bmod_eq_iff {bits : ℕ} (wide : 0 < bits) (value : ℤ) :
    value.bmod (2 ^ bits) = value ↔ Fits bits value := by
  rcases Nat.exists_eq_succ_of_ne_zero wide.ne' with ⟨half, rfl⟩
  have double : ((2 ^ (half + 1) : ℕ) : ℤ) = 2 * 2 ^ half := by
    push_cast
    ring
  rw [Fits, Nat.succ_eq_add_one, Nat.add_sub_cancel]
  constructor
  · intro exact
    have low := Int.le_bmod (x := value) (m := 2 ^ (half + 1)) (by positivity)
    have high := Int.bmod_lt (x := value) (m := 2 ^ (half + 1)) (by positivity)
    rw [exact, double] at low high
    omega
  · rintro ⟨low, high⟩
    apply Int.bmod_eq_of_le
    · rw [double]
      omega
    · rw [double]
      omega

/-- Addition which keeps the low bits of the sum. -/
def wrappedAdd (bits : ℕ) (left right : ℤ) : ℤ :=
  (left + right).bmod (2 ^ bits)

/-- An addition is exact when its sum is in range. -/
theorem wrappedAdd_eq_iff {bits : ℕ} (wide : 0 < bits) (left right : ℤ) :
    wrappedAdd bits left right = left + right ↔ Fits bits (left + right) :=
  bmod_eq_iff wide (left + right)

/-- Multiplication which keeps the low bits of the product. -/
def wrappedMul (bits : ℕ) (left right : ℤ) : ℤ :=
  (left * right).bmod (2 ^ bits)

/-- A multiplication is exact when its product is in range. -/
theorem wrappedMul_eq_iff {bits : ℕ} (wide : 0 < bits) (left right : ℤ) :
    wrappedMul bits left right = left * right ↔ Fits bits (left * right) :=
  bmod_eq_iff wide (left * right)

/-- A product vanishes when no low bit is left of it. -/
theorem wrappedMul_eq_zero_iff (bits : ℕ) (left right : ℤ) :
    wrappedMul bits left right = 0 ↔ (2 ^ bits : ℤ) ∣ left * right := by
  rw [wrappedMul, ← Int.dvd_iff_bmod_eq_zero]
  push_cast
  rfl

/-- No running sum of the values, taken from the front, leaves the range. -/
def NoOverflow (bits : ℕ) (values : List ℤ) : Prop :=
  ∀ part, part <+: values → Fits bits part.sum

theorem noOverflow_nil (bits : ℕ) : NoOverflow bits [] := by
  intro part early
  rw [List.prefix_nil.mp early, List.sum_nil]
  refine ⟨?_, by positivity⟩
  simp

theorem noOverflow_concat_iff {bits : ℕ} {values : List ℤ} {value : ℤ} :
    NoOverflow bits (values ++ [value]) ↔
      NoOverflow bits values ∧ Fits bits (values.sum + value) := by
  constructor
  · intro fits
    constructor
    · exact fun part early => fits part (early.trans (List.prefix_append _ _))
    · have whole := fits _ (List.prefix_refl _)
      rwa [List.sum_append, List.sum_singleton] at whole
  · rintro ⟨fits, last⟩ part early
    rcases List.prefix_concat_iff.mp early with rfl | early
    · rwa [List.sum_append, List.sum_singleton]
    · exact fits part early

/-- A sum by wrapped additions. -/
def wrappedSum (bits : ℕ) (values : List ℤ) : ℤ :=
  values.foldl (wrappedAdd bits) 0

theorem wrappedSum_concat (bits : ℕ) (values : List ℤ) (value : ℤ) :
    wrappedSum bits (values ++ [value]) =
      wrappedAdd bits (wrappedSum bits values) value := by
  rw [wrappedSum, List.foldl_append]
  rfl

/-- Without overflow the wrapped sum is the mathematical one. -/
theorem wrappedSum_eq_sum {bits : ℕ} (wide : 0 < bits) {values : List ℤ}
    (fits : NoOverflow bits values) : wrappedSum bits values = values.sum := by
  induction values using List.reverseRecOn with
  | nil => rfl
  | append_singleton values value inductionHypothesis =>
      rcases noOverflow_concat_iff.mp fits with ⟨earlier, last⟩
      rw [wrappedSum_concat, inductionHypothesis earlier,
        (wrappedAdd_eq_iff wide _ _).mpr last, List.sum_append,
        List.sum_singleton]

end FederatedEdge.Library
