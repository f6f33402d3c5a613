import FederatedEdge.Client.Training
import Mathlib.Algebra.Order.BigOperators.Group.List
import Mathlib.Analysis.Calculus.Deriv.Abs
import Mathlib.Analysis.Calculus.Deriv.Mul

/-!
# The loss and its penalty

`LossFunctionCalculation` reports the cross entropy of the output layer and adds
a penalty over all weights.  The penalty is a sum over three levels of lists, of
which a single weight is one summand, so that its derivative with respect to
that weight is the derivative of the summand, scaled by `lambda`.

The step of `StochasticGradientDescentCalculation` has the sign of the weight in
the branch for the absolute values, without the factor `lambda`.
-/

namespace FederatedEdge.Client

open FederatedEdge.Library

variable {R : Type}

/-! ## The loss function -/

def MINIMAL_MEAN_SQUARE : ℤ := 1

def CATEGORICAL_CROSS_ENTROPY : ℤ := 2

/-- The sum of a term over all weights, in the order of the lists. -/
def sumWeights [Add R] [Zero R] (term : R → R)
    (neuralnetwork : TrainingNetwork R) : R :=
  neuralnetwork.layervalues.foldl
    (fun sum currentlayer =>
      currentlayer.neuronvalues.foldl
        (fun sum currentneuron =>
          currentneuron.weightvalues.foldl
            (fun sum weight => sum + term weight) sum)
        sum)
    0

section Calculation

variable [Field R] [LinearOrder R]

def RidgeRegressionCalculation (neuralnetwork : TrainingNetwork R)
    (lambda : R) : R :=
  sumWeights (fun weight => weight * weight) neuralnetwork * lambda

def LassoRegressionCalculation (neuralnetwork : TrainingNetwork R)
    (lambda : R) : R :=
  sumWeights (fun weight => if weight ≥ 0 then weight else -weight)
    neuralnetwork * lambda

def CategoricalCrossEntropy (log : R → R) (label output : List R)
    (labelsize : ℕ) : Exec R := do
  let sum ←
    (List.range labelsize).foldlM
      (fun sum i => do
        let expected ← Exec.read label[i]?
        let value ← Exec.read output[i]?
        .ok (sum + expected * log value))
      0
  .ok (-sum)

def LossFunctionCalculation (log : R → R) (neuralnetwork : TrainingNetwork R)
    (labelvector : List R) (regularization : ℤ) (lambda : R) : Exec R := do
  let lastlayer ← Exec.deref neuralnetwork.layervalues.getLast?
  let outputdata ←
    (List.range lastlayer.neurons.toNat).mapM fun i => do
      let currentneuron ← Exec.deref lastlayer.neuronvalues[i]?
      .ok currentneuron.activationfunctionvalue
  let crossEntropy :=
    CategoricalCrossEntropy log labelvector outputdata lastlayer.neurons.toNat
  if neuralnetwork.lossfunctiontype = MINIMAL_MEAN_SQUARE then
    .ok 0
  else if neuralnetwork.lossfunctiontype = CATEGORICAL_CROSS_ENTROPY then
    match regularization with
    | 0 => crossEntropy
    | 1 => do
        let sum ← crossEntropy
        .ok (sum + LassoRegressionCalculation neuralnetwork lambda)
    | 2 => do
        let sum ← crossEntropy
        .ok (sum + RidgeRegressionCalculation neuralnetwork lambda)
    | _ => .ok 0
  else .ok 0

omit [LinearOrder R] in
/-- With a label for each output neuron, the cross entropy is computed. -/
theorem finishes_CategoricalCrossEntropy (log : R → R) {label output : List R}
    (labels : label.length = output.length) :
    ∃ entropy,
      CategoricalCrossEntropy log label output output.length = .ok entropy := by
  have turns :
      ∃ sum,
        (List.range output.length).foldlM
            (fun sum i => do
              let expected ← Exec.read label[i]?
              let value ← Exec.read output[i]?
              .ok (sum + expected * log value))
            0 = .ok sum ∧
          True := by
    apply Exec.foldlM_invariant
    · trivial
    · intro i member sum _
      have inside := List.mem_range.mp member
      rw [List.getElem?_eq_getElem inside,
        List.getElem?_eq_getElem (labels ▸ inside)]
      exact ⟨_, rfl, trivial⟩
  rcases turns with ⟨sum, finishes, -⟩
  refine ⟨-sum, ?_⟩
  rw [CategoricalCrossEntropy, finishes, Exec.ok_bind]

/-- The loss of a well-formed network is computed, whatever its function is. -/
theorem finishes_LossFunctionCalculation (log : R → R)
    {network : TrainingNetwork R} {label : List R}
    (wellFormed : network.WellFormed)
    (labels : network.widths.getLast? = some label.length)
    (regularization : ℤ) (lambda : R) :
    ∃ loss,
      LossFunctionCalculation log network label regularization lambda =
        .ok loss := by
  rcases wellFormed.lastlayer labels with ⟨lastlayer, isLast, counts, length⟩
  have counted :
      lastlayer.neurons.toNat = lastlayer.neuronvalues.length := by
    rw [counts, Int.toNat_natCast, length]
  have outputs :
      ((List.range lastlayer.neuronvalues.length).mapM fun i => do
          let currentneuron ← Exec.deref lastlayer.neuronvalues[i]?
          Except.ok currentneuron.activationfunctionvalue : Exec (List R)) =
        .ok (lastlayer.neuronvalues.map (·.activationfunctionvalue)) := by
    rw [Exec.mapM_eq_ok_iff, List.forall₂_iff_get]
    refine ⟨by simp, fun i inRange inside => ?_⟩
    simp at inRange
    simp [inRange]
  have labelled :
      label.length =
        (lastlayer.neuronvalues.map (·.activationfunctionvalue)).length := by
    rw [List.length_map, length]
  rcases finishes_CategoricalCrossEntropy log labelled with ⟨entropy, finishes⟩
  rw [List.length_map] at finishes
  rw [LossFunctionCalculation, isLast, Exec.deref_some, Exec.ok_bind, counted,
    outputs, Exec.ok_bind]
  simp only [finishes, Exec.ok_bind]
  split_ifs
  · exact ⟨0, rfl⟩
  · split
    · exact ⟨_, rfl⟩
    · exact ⟨_, rfl⟩
    · exact ⟨_, rfl⟩
    · exact ⟨0, rfl⟩
  · exact ⟨0, rfl⟩

/-! ## The penalty -/

/-- What the loss adds to the cross entropy. -/
def penalty (neuralnetwork : TrainingNetwork R) (regularization : ℤ)
    (lambda : R) : R :=
  match regularization with
  | 1 => LassoRegressionCalculation neuralnetwork lambda
  | 2 => RidgeRegressionCalculation neuralnetwork lambda
  | _ => 0

/-- The regularization modes which the programs know. -/
def KnownRegularization (regularization : ℤ) : Prop :=
  regularization = 0 ∨ regularization = 1 ∨ regularization = 2

/-- Every known mode reports the loss without regularization plus the penalty. -/
theorem LossFunctionCalculation_eq_add_penalty (log : R → R)
    {network : TrainingNetwork R} {regularization : ℤ}
    (entropy : network.lossfunctiontype = CATEGORICAL_CROSS_ENTROPY)
    (known : KnownRegularization regularization) (label : List R) (lambda : R) :
    LossFunctionCalculation log network label regularization lambda =
      LossFunctionCalculation log network label 0 lambda >>= fun loss =>
        .ok (loss + penalty network regularization lambda) := by
  have selected :
      network.lossfunctiontype ≠ MINIMAL_MEAN_SQUARE := by
    rw [entropy]
    decide
  have unchanged (loss : Exec R) : (loss >>= fun sum => .ok sum) = loss :=
    bind_pure loss
  simp only [LossFunctionCalculation, if_neg selected, if_pos entropy]
  rcases known with rfl | rfl | rfl
  · simp only [penalty, add_zero, unchanged]
  · simp only [penalty, bind_assoc]
  · simp only [penalty, bind_assoc]

end Calculation

/-! ## A single weight -/

/-- Weight `k` of neuron `i` of a layer. -/
def TrainingNetwork.weightAt (network : TrainingNetwork R) (layer i k : ℕ) :
    Option R := do
  let currentlayer ← network.layervalues[layer]?
  let currentneuron ← currentlayer.neuronvalues[i]?
  currentneuron.weightvalues[k]?

/-- The network after weight `k` of neuron `i` of a layer has got a value. -/
def TrainingNetwork.setWeight (network : TrainingNetwork R) (layer i k : ℕ)
    (weight : R) : TrainingNetwork R :=
  { network with
    layervalues :=
      network.layervalues.modify layer fun currentlayer =>
        { currentlayer with
          neuronvalues :=
            currentlayer.neuronvalues.modify i fun currentneuron =>
              { currentneuron with
                weightvalues :=
                  currentneuron.weightvalues.modify k fun _ => weight } } }

section Sums

variable [AddCommGroup R]

theorem foldl_add_eq {α : Type} (term : α → R) (values : List α) (start : R) :
    values.foldl (fun sum value => sum + term value) start =
      start + (values.map term).sum := by
  induction values generalizing start with
  | nil => simp
  | cons value values inductionHypothesis =>
      rw [List.foldl_cons, inductionHypothesis, List.map_cons, List.sum_cons,
        add_assoc]

/-- The order of the lists does not matter for the sum. -/
theorem sumWeights_eq_sum (term : R → R) (network : TrainingNetwork R) :
    sumWeights term network =
      (network.layervalues.map fun layer =>
        (layer.neuronvalues.map fun neuron =>
          (neuron.weightvalues.map term).sum).sum).sum := by
  simp only [sumWeights, foldl_add_eq, zero_add]

/-- A sum is a function of one summand when only that one changes. -/
theorem sum_map_modify {α : Type} (term : α → R) {values : List α} {index : ℕ}
    {value : α} (found : values[index]? = some value) :
    ∃ rest, ∀ change : α → α,
      ((values.modify index change).map term).sum =
        rest + term (change value) := by
  induction values generalizing index with
  | nil => cases found
  | cons first values inductionHypothesis =>
      cases index with
      | zero =>
          cases found
          refine ⟨(values.map term).sum, fun change => ?_⟩
          rw [List.modify_zero_cons, List.map_cons, List.sum_cons, add_comm]
      | succ index =>
          rcases inductionHypothesis found with ⟨rest, changes⟩
          refine ⟨term first + rest, fun change => ?_⟩
          rw [List.modify_succ_cons, List.map_cons, List.sum_cons,
            changes change, add_assoc]

/-- A sum over all weights as a function of a single one. -/
theorem sumWeights_setWeight (term : R → R) {network : TrainingNetwork R}
    {layer i k : ℕ} {weight : R}
    (found : network.weightAt layer i k = some weight) :
    ∃ rest, ∀ value,
      sumWeights term (network.setWeight layer i k value) =
        rest + term value := by
  rcases Option.bind_eq_some_iff.mp found
    with ⟨currentlayer, layerFound, found⟩
  rcases Option.bind_eq_some_iff.mp found
    with ⟨currentneuron, neuronFound, weightFound⟩
  rcases sum_map_modify term weightFound with ⟨weights, inNeuron⟩
  rcases sum_map_modify
    (fun neuron : TrainingNeuron R => (neuron.weightvalues.map term).sum)
    neuronFound with ⟨neurons, inLayer⟩
  rcases sum_map_modify
    (fun layer : TrainingLayer R =>
      (layer.neuronvalues.map fun neuron =>
        (neuron.weightvalues.map term).sum).sum)
    layerFound with ⟨layers, inNetwork⟩
  refine ⟨layers + (neurons + weights), fun value => ?_⟩
  rw [sumWeights_eq_sum, TrainingNetwork.setWeight, inNetwork, inLayer,
    inNeuron, add_assoc, add_assoc]

end Sums

/-! ## The slope of the penalty -/

attribute [local instance] two_atLeastTwo in
/-- The derivative of what one weight contributes. -/
noncomputable def penaltySlope (weight lambda : ℝ) (regularization : ℤ) : ℝ :=
  match regularization with
  | 1 => SignType.sign weight * lambda
  | 2 => 2 * weight * lambda
  | _ => 0

/-- A sum over the weights has the slope of its term. -/
theorem hasDerivAt_sumWeights {term : ℝ → ℝ} {slope : ℝ}
    {network : TrainingNetwork ℝ} {layer i k : ℕ} {weight : ℝ}
    (found : network.weightAt layer i k = some weight)
    (termSlope : HasDerivAt term slope weight) (lambda : ℝ) :
    HasDerivAt
      (fun value => sumWeights term (network.setWeight layer i k value) * lambda)
      (slope * lambda) weight := by
  rcases sumWeights_setWeight term found with ⟨rest, split⟩
  simp only [split]
  exact (termSlope.const_add rest).mul_const lambda

theorem hasDerivAt_penalty {network : TrainingNetwork ℝ} {layer i k : ℕ}
    {weight : ℝ} (found : network.weightAt layer i k = some weight)
    (nonzero : weight ≠ 0) (regularization : ℤ) (lambda : ℝ) :
    HasDerivAt
      (fun value =>
        penalty (network.setWeight layer i k value) regularization lambda)
      (penaltySlope weight lambda regularization) weight := by
  unfold penalty penaltySlope
  split
  · have absolute :
        (fun value : ℝ => if value ≥ 0 then value else -value) = (|·|) := by
      funext value
      split_ifs with sign
      · exact (abs_of_nonneg sign).symm
      · exact (abs_of_neg (not_le.mp sign)).symm
    have termSlope := hasDerivAt_abs nonzero
    rw [← absolute] at termSlope
    exact hasDerivAt_sumWeights found termSlope lambda
  · have termSlope : HasDerivAt (fun value : ℝ => value * value) (2 * weight)
        weight :=
      ((hasDerivAt_id' weight).mul (hasDerivAt_id' weight)).congr_deriv (by ring)
    exact hasDerivAt_sumWeights found termSlope lambda
  · exact hasDerivAt_const weight 0

/-! ## The step of the descent -/

/-- The part of a step which does not depend on the delta. -/
theorem step_without_delta (weight output delta alpha lambda : ℝ)
    {regularization : ℤ} (known : KnownRegularization regularization) :
    StochasticGradientDescentCalculation weight output delta regularization
        alpha lambda =
      -alpha * (delta * output) +
        StochasticGradientDescentCalculation weight output 0 regularization
          alpha lambda := by
  rcases known with rfl | rfl | rfl
  · simp only [StochasticGradientDescentCalculation]
    ring
  · simp only [StochasticGradientDescentCalculation]
    split_ifs <;> ring
  · simp only [StochasticGradientDescentCalculation]
    ring

/-- Without a delta, the mode for the absolute values ignores `lambda`. -/
theorem step_eq_slope_iff {weight : ℝ} (nonzero : weight ≠ 0)
    (output alpha lambda : ℝ) {regularization : ℤ}
    (known : KnownRegularization regularization) :
    StochasticGradientDescentCalculation weight output 0 regularization alpha
          lambda =
        -alpha * penaltySlope weight lambda regularization ↔
      (regularization = 1 → alpha = 0 ∨ lambda = 1) := by
  rcases known with rfl | rfl | rfl
  · simp [StochasticGradientDescentCalculation, penaltySlope]
  · have absolute :
        alpha = alpha * lambda ↔ ((1 : ℤ) = 1 → alpha = 0 ∨ lambda = 1) := by
      rw [eq_comm, mul_right_eq_self₀, or_comm, forall_prop_of_true rfl]
    rw [← absolute]
    rcases lt_or_gt_of_ne nonzero with negative | positive
    · have falls : ¬ weight > 0 := not_lt_of_gt negative
      simp [StochasticGradientDescentCalculation, penaltySlope, falls, nonzero,
        negative]
    · simp [StochasticGradientDescentCalculation, penaltySlope, positive]
  · refine iff_of_true ?_ (fun absolute => absurd absolute (by decide))
    simp only [StochasticGradientDescentCalculation, penaltySlope]
    ring

/--
At every weight which is not zero, the step descends the penalty which the loss
reports, except for the sum of absolute values with a scale other than one.
-/
theorem descends_reported_penalty_iff {network : TrainingNetwork ℝ}
    {layer i k : ℕ} {weight : ℝ} {regularization : ℤ}
    (found : network.weightAt layer i k = some weight) (nonzero : weight ≠ 0)
    (known : KnownRegularization regularization) (alpha lambda : ℝ) :
    (∀ log label, network.lossfunctiontype = CATEGORICAL_CROSS_ENTROPY →
      LossFunctionCalculation log network label regularization lambda =
        LossFunctionCalculation log network label 0 lambda >>= fun loss =>
          .ok (loss + penalty network regularization lambda)) ∧
      (∀ output delta,
        StochasticGradientDescentCalculation weight output delta
            regularization alpha lambda =
          -alpha * (delta * output) +
            StochasticGradientDescentCalculation weight output 0
              regularization alpha lambda) ∧
        ∃ slope,
          HasDerivAt
              (fun value =>
                penalty (network.setWeight layer i k value) regularization
                  lambda)
              slope weight ∧
            ((∀ output,
                StochasticGradientDescentCalculation weight output 0
                    regularization alpha lambda =
                  -alpha * slope) ↔
              (regularization = 1 → alpha = 0 ∨ lambda = 1)) := by
  refine ⟨?_, ?_, _, hasDerivAt_penalty found nonzero regularization lambda, ?_⟩
  · intro log label entropy
    exact LossFunctionCalculation_eq_add_penalty log entropy known label lambda
  · intro output delta
    exact step_without_delta weight output delta alpha lambda known
  · constructor
    · intro descends
      exact (step_eq_slope_iff nonzero 0 alpha lambda known).mp (descends 0)
    · intro scaled output
      exact (step_eq_slope_iff nonzero output alpha lambda known).mpr scaled

/-- One weight, which is one, between an input and an output neuron. -/
def oneWeightNetwork [Field R] : TrainingNetwork R where
  epoch := 1
  alpha := 1
  regularization := 1
  lambda := 1
  percentualtraining := 1
  lossfunctiontype := CATEGORICAL_CROSS_ENTROPY
  layers := 2
  layervalues :=
    [{ activationfunctiontype := 0
       neurons := 1
       neuronvalues :=
         [{ neurontype := "input"
            weights := 0
            bias := 0
            weightvalues := []
            activationfunctionvalue := 1 }] },
     { activationfunctiontype := 4
       neurons := 1
       neuronvalues :=
         [{ neurontype := "output"
            weights := 1
            bias := 0
            weightvalues := [1]
            activationfunctionvalue := 1 }] }]

theorem descends_reported_penalty_iff_sample :
    (∀ log label,
      (oneWeightNetwork : TrainingNetwork ℝ).lossfunctiontype =
          CATEGORICAL_CROSS_ENTROPY →
        LossFunctionCalculation log oneWeightNetwork label 2 (1 / 2 : ℝ) =
          LossFunctionCalculation log oneWeightNetwork label 0 (1 / 2) >>=
            fun loss => .ok (loss + penalty oneWeightNetwork 2 (1 / 2))) ∧
      (∀ output delta : ℝ,
        StochasticGradientDescentCalculation 1 output delta 2 1 (1 / 2) =
          -1 * (delta * output) +
            StochasticGradientDescentCalculation 1 output 0 2 1 (1 / 2)) ∧
        ∃ slope,
          HasDerivAt
              (fun value : ℝ =>
                penalty (oneWeightNetwork.setWeight 1 0 0 value) 2 (1 / 2))
              slope 1 ∧
            ((∀ output,
                StochasticGradientDescentCalculation (1 : ℝ) output 0 2 1
                    (1 / 2) =
                  -1 * slope) ↔
              ((2 : ℤ) = 1 → (1 : ℝ) = 0 ∨ (1 / 2 : ℝ) = 1)) :=
  descends_reported_penalty_iff
    (show oneWeightNetwork.weightAt 1 0 0 = some (1 : ℝ) from rfl)
    one_ne_zero (Or.inr (Or.inr rfl)) 1 (1 / 2)

/--
With the sum of absolute values and a scale of one hundredth, the weight is
pulled a hundred times as strongly as the reported penalty rises.
-/
theorem lasso_step_ignores_lambda :
    ∃ slope,
      (oneWeightNetwork : TrainingNetwork ℝ).weightAt 1 0 0 = some 1 ∧
        HasDerivAt
            (fun value : ℝ =>
              penalty (oneWeightNetwork.setWeight 1 0 0 value) 1 (1 / 100))
            slope 1 ∧
          ∀ output : ℝ,
            StochasticGradientDescentCalculation 1 output 0 1 1 (1 / 100) ≠
              -1 * slope := by
  have found :
      (oneWeightNetwork : TrainingNetwork ℝ).weightAt 1 0 0 = some 1 := rfl
  refine ⟨_, found, hasDerivAt_penalty found one_ne_zero 1 (1 / 100), ?_⟩
  intro output descends
  have scaled :=
    (step_eq_slope_iff one_ne_zero output 1 (1 / 100) (Or.inr (Or.inl rfl))).mp
      descends rfl
  norm_num at scaled

end FederatedEdge.Client
