import FederatedEdge.Network.Form
import Mathlib.Data.Set.List

/-!
# Decoded models which can be trained

The training reads the counts of a network, never the ends of its lists.  A
decoded network can be trained when all of its fields are assigned, each count
is the length of the list it belongs to, there is a first layer, and the neurons
of a layer have as many weights as there are neurons in the layer below.  Such a
network is a `NeuralNetwork` without a gap.
-/

namespace FederatedEdge.Network

open FederatedEdge.Library

variable {R : Type}

/-! ## Networks without a gap -/

/-- All fields are assigned, and the weights are counted. -/
structure DecodedNeuron.Runnable (neuron : DecodedNeuron R) : Prop where
  neurontype : neuron.neurontype.isSome
  weights : neuron.weights = some (neuron.weightlist.values.length : ℤ)
  bias : neuron.bias.isSome
  forward : neuron.weightlist.Forward

/-- All fields are assigned, and the neurons are counted. -/
structure DecodedLayer.Runnable (layer : DecodedLayer R) : Prop where
  activationfunctiontype : layer.activationfunctiontype.isSome
  neurons : layer.neurons = some (layer.neuronlist.values.length : ℤ)
  forward : layer.neuronlist.Forward
  neuronvalues : ∀ neuron ∈ layer.neuronlist.values, neuron.Runnable

/-- One weight for each neuron of the layer below. -/
def DecodedLayer.Feeds (lower upper : DecodedLayer R) : Prop :=
  ∀ neuron ∈ upper.neuronlist.values,
    neuron.weightlist.values.length = lower.neuronlist.values.length

/-- The layers of a network, of which there is a first one. -/
structure RunnableLayers (layerlist : LinkedList (DecodedLayer R)) : Prop where
  forward : layerlist.Forward
  nonempty : layerlist.values ≠ []
  layervalues : ∀ layer ∈ layerlist.values, layer.Runnable
  fed : layerlist.values.IsChain DecodedLayer.Feeds

/-- All fields are assigned, and the layers are counted. -/
structure DecodedNetwork.Runnable (network : DecodedNetwork R) : Prop where
  epoch : network.epoch.isSome
  alpha : network.alpha.isSome
  regularization : network.regularization.isSome
  lambda : network.lambda.isSome
  percentualtraining : network.percentualtraining.isSome
  lossfunctiontype : network.lossfunctiontype.isSome
  layers : ∃ layerlist, network.layerlist = some layerlist ∧
    network.layers = some (layerlist.values.length : ℤ) ∧
      RunnableLayers layerlist

/-- The pointer to the network is assigned, and so is the network. -/
def DecodedModel.Runnable (model : DecodedModel R) : Prop :=
  ∃ network, model.neuralnetwork = some network ∧ network.Runnable

/-! ## The network of a runnable one -/

/-- A list of images is, cell by cell, the image of a list. -/
theorem exists_withValues_map {α β : Type} {f : α → β} {list : LinkedList β}
    (images : ∀ value ∈ list.values, ∃ source, f source = value) :
    ∃ source : LinkedList α,
      source.withValues (source.values.map f) = list := by
  have range : list.values ∈ Set.range (List.map f) := by
    rw [Set.range_list_map]
    exact images
  rcases range with ⟨values, mapped⟩
  have sameLength : values.length = list.cells.length := by
    rw [← LinkedList.length_values, ← mapped, List.length_map]
  refine ⟨list.withValues values, ?_⟩
  rw [LinkedList.values_withValues list values sameLength,
    LinkedList.withValues_withValues, mapped, LinkedList.withValues_values]
  exact sameLength

theorem DecodedNeuron.Runnable.exists_neuron {decoded : DecodedNeuron R}
    (runnable : decoded.Runnable) :
    ∃ neuron : Neuron R, neuron.decoded = decoded := by
  rcases Option.isSome_iff_exists.mp runnable.neurontype
    with ⟨neurontype, isType⟩
  rcases Option.isSome_iff_exists.mp runnable.bias with ⟨bias, isBias⟩
  refine ⟨⟨neurontype, decoded.weightlist.values.length, bias,
    decoded.weightlist⟩, ?_⟩
  rw [Neuron.decoded, ← isType, ← isBias, ← runnable.weights]

theorem DecodedLayer.Runnable.exists_layer {decoded : DecodedLayer R}
    (runnable : decoded.Runnable) :
    ∃ layer : Layer R, layer.decoded = decoded := by
  rcases Option.isSome_iff_exists.mp runnable.activationfunctiontype
    with ⟨activationfunctiontype, isType⟩
  rcases exists_withValues_map fun neuron member =>
      (runnable.neuronvalues neuron member).exists_neuron
    with ⟨neuronlist, isList⟩
  refine ⟨⟨activationfunctiontype, decoded.neuronlist.values.length,
    neuronlist⟩, ?_⟩
  rw [Layer.decoded, isList, ← isType, ← runnable.neurons]

/-- A runnable network is one all of whose fields are assigned. -/
theorem DecodedNetwork.Runnable.exists_network {decoded : DecodedNetwork R}
    (runnable : decoded.Runnable) :
    ∃ network : NeuralNetwork R, network.decoded = decoded := by
  rcases Option.isSome_iff_exists.mp runnable.epoch with ⟨epoch, isEpoch⟩
  rcases Option.isSome_iff_exists.mp runnable.alpha with ⟨alpha, isAlpha⟩
  rcases Option.isSome_iff_exists.mp runnable.regularization
    with ⟨regularization, isRegularization⟩
  rcases Option.isSome_iff_exists.mp runnable.lambda with ⟨lambda, isLambda⟩
  rcases Option.isSome_iff_exists.mp runnable.percentualtraining
    with ⟨percentualtraining, isPercentual⟩
  rcases Option.isSome_iff_exists.mp runnable.lossfunctiontype
    with ⟨lossfunctiontype, isLoss⟩
  rcases runnable.layers with ⟨decodedlist, assigned, counted, layers⟩
  rcases exists_withValues_map fun layer member =>
      (layers.layervalues layer member).exists_layer
    with ⟨layerlist, isList⟩
  refine ⟨⟨epoch, alpha, regularization, lambda, percentualtraining,
    lossfunctiontype, decodedlist.values.length, layerlist⟩, ?_⟩
  rw [NeuralNetwork.decoded, isList, ← isEpoch, ← isAlpha, ← isRegularization,
    ← isLambda, ← isPercentual, ← isLoss, ← assigned, ← counted]

/-! ## The forms of a runnable network -/

theorem Neuron.runnable_decoded_iff (neuron : Neuron R) :
    neuron.decoded.Runnable ↔
      neuron.weights = neuron.weightlist.values.length ∧
        neuron.weightlist.Forward := by
  constructor
  · intro runnable
    exact ⟨Option.some.inj runnable.weights, runnable.forward⟩
  · rintro ⟨counted, forward⟩
    exact ⟨rfl, congrArg some counted, rfl, forward⟩

theorem Layer.values_decoded (layer : Layer R) :
    layer.decoded.neuronlist.values =
      layer.neuronlist.values.map Neuron.decoded := by
  rw [Layer.decoded, LinkedList.values_withValues]
  rw [List.length_map, LinkedList.length_values]

theorem NeuralNetwork.values_decoded (network : NeuralNetwork R) :
    (network.layerlist.withValues
        (network.layerlist.values.map Layer.decoded)).values =
      network.layerlist.values.map Layer.decoded := by
  rw [LinkedList.values_withValues]
  rw [List.length_map, LinkedList.length_values]

end FederatedEdge.Network
