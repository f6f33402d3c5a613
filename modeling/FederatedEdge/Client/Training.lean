import FederatedEdge.Network.Form
import Mathlib.Algebra.Order.Field.Basic

/-!
# Networks in training

A client trains the network it holds in place.  Training reads and writes the
activation value of each neuron, which the messages do not carry, and never
changes a link, so that the lists are given here by their contents.  Leaving a
list before its count has been reached dereferences a null pointer.

The functions follow `federatedlearning.c` of the ESP32 client, with an exact
field in the place of `float` and any function in the place of `exp`.
-/

namespace FederatedEdge.Client

open FederatedEdge.Library
open FederatedEdge.Network

structure TrainingNeuron (R : Type) extends NeuronContent R where
  activationfunctionvalue : R
deriving DecidableEq, Repr

structure TrainingLayer (R : Type) where
  activationfunctiontype : ℤ
  neurons : ℤ
  neuronvalues : List (TrainingNeuron R)
deriving DecidableEq, Repr

structure TrainingNetwork (R : Type) where
  epoch : ℤ
  alpha : R
  regularization : ℤ
  lambda : R
  percentualtraining : ℤ
  lossfunctiontype : ℤ
  layers : ℤ
  layervalues : List (TrainingLayer R)
deriving DecidableEq, Repr

variable {R : Type}

/-! ## Activation functions -/

section Activation

variable [Field R] [LinearOrder R]

def Perceptron (Z : R) : R :=
  if Z > 0 then 1 else 0

def PerceptronDerivative (a : R) : R :=
  if a > 0 then 1 else 0

def ReLU (Z : R) : R :=
  if Z > 0 then Z else 0

def ReLUDerivative (a : R) : R :=
  if a > 0 then 1 else 0

def Sigmoid (exp : R → R) (Z : R) : R :=
  1 / (1 + exp (-Z))

def SigmoidDerivative (a : R) : R :=
  a * (1 - a)

def SoftMax (exp : R → R) (Z softmaxsum : R) : R :=
  exp Z / softmaxsum

def ActivationFunctionDerivativeCalculation
    (a : R) (activationfunctiontype : ℤ) : R :=
  match activationfunctiontype with
  | 1 => PerceptronDerivative a
  | 2 => ReLUDerivative a
  | 3 => SigmoidDerivative a
  | _ => 0

/-- The numeral of the slopes of a square, by one name in every module. -/
theorem two_atLeastTwo : Nat.AtLeastTwo 2 :=
  ⟨le_rfl⟩

attribute [local instance] two_atLeastTwo in
def StochasticGradientDescentCalculation
    (weight output deltafunction : R) (regularization : ℤ)
    (alpha lambda : R) : R :=
  match regularization with
  | 0 => -alpha * deltafunction * output
  | 1 =>
      if weight > 0 then
        -alpha * (deltafunction * output + 1)
      else if weight = 0 then
        -alpha * (deltafunction * output + 0)
      else
        -alpha * (deltafunction * output - 1)
  | 2 => -alpha * (deltafunction * output + 2 * lambda * weight)
  | _ => 0

/-! ## Feeding forward -/

/-- The sum `Z` of a neuron, from the activation values of a layer below. -/
def weightedInput (previouslayer : TrainingLayer R)
    (currentneuron : TrainingNeuron R) : Exec R :=
  (List.range currentneuron.weights.toNat).foldlM
    (fun Z j => do
      let weight ← Exec.deref currentneuron.weightvalues[j]?
      let previousneuron ← Exec.deref previouslayer.neuronvalues[j]?
      .ok (Z + weight * previousneuron.activationfunctionvalue))
    (0 + currentneuron.bias)

/-- The softmax denominator, which is computed anew for each neuron. -/
def softmaxsum (exp : R → R) (neuralnetwork : TrainingNetwork R) : Exec R := do
  let currentlayer ← Exec.deref neuralnetwork.layervalues.getLast?
  let previouslayer ← Exec.deref neuralnetwork.layervalues.dropLast.getLast?
  (List.range currentlayer.neurons.toNat).foldlM
    (fun softmaxsum i => do
      let currentneuron ← Exec.deref currentlayer.neuronvalues[i]?
      let sum ← weightedInput previouslayer currentneuron
      .ok (softmaxsum + exp sum))
    0

def ActivationFunctionCalculaton (exp : R → R)
    (neuralnetwork : TrainingNetwork R) (Z : R)
    (activationfunctiontype : ℤ) : Exec R :=
  match activationfunctiontype with
  | 1 => .ok (Perceptron Z)
  | 2 => .ok (ReLU Z)
  | 3 => .ok (Sigmoid exp Z)
  | 4 => do
      let sum ← softmaxsum exp neuralnetwork
      .ok (SoftMax exp Z sum)
  | _ => .ok 0

end Activation

/-- The network after neuron `i` of a layer has got an activation value. -/
def TrainingNetwork.setActivation (neuralnetwork : TrainingNetwork R)
    (layer i : ℕ) (value : R) : TrainingNetwork R :=
  { neuralnetwork with
    layervalues :=
      neuralnetwork.layervalues.modify layer fun currentlayer =>
        { currentlayer with
          neuronvalues :=
            currentlayer.neuronvalues.modify i fun currentneuron =>
              { currentneuron with activationfunctionvalue := value } } }

section FeedFoward

variable [Field R] [LinearOrder R] (exp : R → R)

/-- The turn of `FeedFoward` for neuron `i` of a layer. -/
def feedNeuron (layer : ℕ) (neuralnetwork : TrainingNetwork R) (i : ℕ) :
    Exec (TrainingNetwork R) := do
  let currentlayer ← Exec.deref neuralnetwork.layervalues[layer]?
  let previouslayer ← Exec.deref neuralnetwork.layervalues[layer - 1]?
  let currentneuron ← Exec.deref currentlayer.neuronvalues[i]?
  let Z ← weightedInput previouslayer currentneuron
  let value ←
    ActivationFunctionCalculaton exp neuralnetwork Z
      currentlayer.activationfunctiontype
  .ok (neuralnetwork.setActivation layer i value)

def feedLayer (neuralnetwork : TrainingNetwork R) (layer : ℕ) :
    Exec (TrainingNetwork R) := do
  let currentlayer ← Exec.deref neuralnetwork.layervalues[layer]?
  (List.range currentlayer.neurons.toNat).foldlM (feedNeuron exp layer)
    neuralnetwork

def FeedFoward (neuralnetwork : TrainingNetwork R) :
    Exec (TrainingNetwork R) := do
  let _ ← Exec.deref neuralnetwork.layervalues.head?
  (List.range' 1 (neuralnetwork.layers - 1).toNat).foldlM (feedLayer exp)
    neuralnetwork

end FeedFoward

/-! ## Well-formed networks -/

/-- The neurons of a layer have one weight for each neuron of the one below. -/
def Connected (lower upper : TrainingLayer R) : Prop :=
  ∀ neuron ∈ upper.neuronvalues,
    neuron.weights = neuron.weightvalues.length ∧
      neuron.weightvalues.length = lower.neuronvalues.length

instance (lower upper : TrainingLayer R) : Decidable (Connected lower upper) := by
  unfold Connected
  infer_instance

/-- All counts agree with the lists, and each layer with the one below. -/
structure TrainingNetwork.WellFormed (network : TrainingNetwork R) : Prop where
  layers : network.layers = network.layervalues.length
  neurons : ∀ layer ∈ network.layervalues,
    layer.neurons = layer.neuronvalues.length
  connected : network.layervalues.IsChain Connected

/-- What a layer holds apart from the activation values. -/
def TrainingLayer.content (layer : TrainingLayer R) : LayerContent R where
  activationfunctiontype := layer.activationfunctiontype
  neurons := layer.neurons
  neuronvalues := layer.neuronvalues.map (·.toNeuronContent)

def TrainingLayer.form (layer : TrainingLayer R) : LayerContent Unit :=
  layer.content.form

def TrainingNetwork.forms (network : TrainingNetwork R) :
    List (LayerContent Unit) :=
  network.layervalues.map TrainingLayer.form

/-- The number of neurons of each layer. -/
def TrainingNetwork.widths (network : TrainingNetwork R) : List ℕ :=
  network.layervalues.map (·.neuronvalues.length)

/-- A layer of a well-formed network counts its neurons. -/
theorem TrainingNetwork.WellFormed.layer_of_width {network : TrainingNetwork R}
    (wellFormed : network.WellFormed) {found : Option (TrainingLayer R)}
    (among : ∀ layer, found = some layer → layer ∈ network.layervalues)
    {width : ℕ}
    (widthIs : found.map (·.neuronvalues.length) = some width) :
    ∃ layer, found = some layer ∧ layer.neurons = width ∧
      layer.neuronvalues.length = width := by
  rcases Option.map_eq_some_iff.mp widthIs with ⟨layer, isLayer, counted⟩
  refine ⟨layer, isLayer, ?_, counted⟩
  rw [wellFormed.neurons layer (among layer isLayer), counted]

theorem TrainingNetwork.WellFormed.firstlayer {network : TrainingNetwork R}
    (wellFormed : network.WellFormed) {width : ℕ}
    (first : network.widths.head? = some width) :
    ∃ firstlayer, network.layervalues.head? = some firstlayer ∧
      firstlayer.neurons = width ∧ firstlayer.neuronvalues.length = width := by
  rw [widths, List.head?_map] at first
  exact wellFormed.layer_of_width (fun _ => List.mem_of_head?) first

theorem TrainingNetwork.WellFormed.lastlayer {network : TrainingNetwork R}
    (wellFormed : network.WellFormed) {width : ℕ}
    (last : network.widths.getLast? = some width) :
    ∃ lastlayer, network.layervalues.getLast? = some lastlayer ∧
      lastlayer.neurons = width ∧ lastlayer.neuronvalues.length = width := by
  rw [widths, List.getLast?_map] at last
  exact wellFormed.layer_of_width (fun _ => List.mem_of_getLast?) last

end FederatedEdge.Client
