import Mathlib.Algebra.Module.LinearMap.Defs
import Mathlib.Algebra.BigOperators.Group.List.Basic
import Mathlib.Tactic.Module
import Mathlib.Tactic.Abel

/-!
# Weighted means by a reused accumulator

Contributions with weights arrive in rounds.  An accumulator adds up weighted
contributions; closing a round yields its mean and resets the accumulator for
the next one.  The reset may be incomplete: `leak` says, linearly, what is left
of the mean in the accumulator.

The means of all rounds are those of the contributions alone exactly when
nothing leaks from the weighted sum of any round.
-/

namespace FederatedEdge.Library

variable {K V : Type} [Field K] [AddCommGroup V] [Module K V]

/-- The sum of all contributions, each multiplied by its weight. -/
def weightedSum (contributions : List (K × V)) : V :=
  (contributions.map fun contribution => contribution.1 • contribution.2).sum

def totalWeight (contributions : List (K × V)) : K :=
  (contributions.map Prod.fst).sum

def weightedMean (contributions : List (K × V)) : V :=
  (totalWeight contributions)⁻¹ • weightedSum contributions

@[simp]
theorem weightedSum_nil : weightedSum ([] : List (K × V)) = 0 :=
  rfl

/-- The running sums of a round. -/
structure Accumulator (K V : Type) where
  total : V
  weight : K

namespace Accumulator

/-- Nothing accumulated. -/
def zero : Accumulator K V where
  total := 0
  weight := 0

/-- Take in one contribution. -/
def absorb (accumulator : Accumulator K V) (contribution : K × V) :
    Accumulator K V where
  total := accumulator.total + contribution.1 • contribution.2
  weight := accumulator.weight + contribution.1

/-- What closing the round publishes. -/
def mean (accumulator : Accumulator K V) : V :=
  accumulator.weight⁻¹ • accumulator.total

/-- Close the round, leaving the leak of the published mean behind. -/
def close (leak : V →ₗ[K] V) (accumulator : Accumulator K V) :
    Accumulator K V where
  total := leak accumulator.mean
  weight := 0

/-- Take in a whole round and close it. -/
def closeRound (leak : V →ₗ[K] V)
    (accumulator : Accumulator K V) (round : List (K × V)) :
    Accumulator K V :=
  (round.foldl absorb accumulator).close leak

end Accumulator

end FederatedEdge.Library
