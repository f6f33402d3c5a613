import FederatedEdge.Network.Structure

/-!
# Structures fresh from the allocator

A decoder allocates its structures and fills in the fields it finds; a field
it does not find keeps whatever the allocator left there.  The types of this
file are the C structures with that difference made explicit: `none` is a
field which was never assigned.  The list of layers itself may be unassigned,
because its pointers are.
-/

namespace FederatedEdge.Network

open FederatedEdge.Library

/-- A neuron after decoding; a missing field has not been assigned. -/
structure DecodedNeuron (R : Type) where
  neurontype : Option String
  weights : Option ℤ
  bias : Option R
  weightlist : LinkedList R
deriving DecidableEq, Repr

/-- A layer after decoding. -/
structure DecodedLayer (R : Type) where
  activationfunctiontype : Option ℤ
  neurons : Option ℤ
  neuronlist : LinkedList (DecodedNeuron R)
deriving DecidableEq, Repr

/-- A network after decoding, whose layer list may be missing too. -/
structure DecodedNetwork (R : Type) where
  epoch : Option ℤ
  alpha : Option R
  regularization : Option ℤ
  lambda : Option R
  percentualtraining : Option ℤ
  lossfunctiontype : Option ℤ
  layers : Option ℤ
  layerlist : Option (LinkedList (DecodedLayer R))
deriving DecidableEq, Repr

/-- The part of `FederatedLearning` which the decoders fill in. -/
structure DecodedModel (R : Type) where
  globalmodelstatus : ℤ
  trainingscounter : ℤ
  neuralnetwork : Option (DecodedNetwork R)
deriving DecidableEq, Repr

variable {R : Type}

/-! ## Fully assigned structures -/

/-- A neuron all of whose fields are assigned. -/
def Neuron.decoded (neuron : Neuron R) : DecodedNeuron R where
  neurontype := some neuron.neurontype
  weights := some neuron.weights
  bias := some neuron.bias
  weightlist := neuron.weightlist

/-- A layer all of whose fields are assigned. -/
def Layer.decoded (layer : Layer R) : DecodedLayer R where
  activationfunctiontype := some layer.activationfunctiontype
  neurons := some layer.neurons
  neuronlist :=
    layer.neuronlist.withValues (layer.neuronlist.values.map Neuron.decoded)

/-- A network all of whose fields are assigned. -/
def NeuralNetwork.decoded (network : NeuralNetwork R) : DecodedNetwork R where
  epoch := some network.epoch
  alpha := some network.alpha
  regularization := some network.regularization
  lambda := some network.lambda
  percentualtraining := some network.percentualtraining
  lossfunctiontype := some network.lossfunctiontype
  layers := some network.layers
  layerlist :=
    some (network.layerlist.withValues
      (network.layerlist.values.map Layer.decoded))

/-! ## What the aggregation reads -/

namespace DecodedNeuron

/-- The bias is assigned and the weights end with null. -/
def Readable (neuron : DecodedNeuron R) : Prop :=
  neuron.bias.isSome ∧ neuron.weightlist.Forward

/-- The bias and the weights, where there is a bias. -/
def parameters [Zero R] (neuron : DecodedNeuron R) : R × List R :=
  (neuron.bias.getD 0, neuron.weightlist.values)

end DecodedNeuron

namespace DecodedLayer

/-- All biases and weights of the layer can be read. -/
def Readable (layer : DecodedLayer R) : Prop :=
  layer.neuronlist.Forward ∧
    ∀ neuron ∈ layer.neuronlist.values, neuron.Readable

/-- The parameters of the neurons in the order of their cells. -/
def parameters [Zero R] (layer : DecodedLayer R) : List (R × List R) :=
  layer.neuronlist.values.map DecodedNeuron.parameters

end DecodedLayer

namespace DecodedNetwork

/-- The layers, all biases and all weights are assigned and end with null. -/
def Readable (network : DecodedNetwork R) : Prop :=
  ∃ layerlist, network.layerlist = some layerlist ∧
    layerlist.Forward ∧ ∀ layer ∈ layerlist.values, layer.Readable

/-- The parameters of the layers; without a layer list there are none. -/
def parameters [Zero R] (network : DecodedNetwork R) : Parameters R :=
  (network.layerlist.getD LinkedList.empty).values.map DecodedLayer.parameters

end DecodedNetwork

/-- The model carries a readable network of the shape. -/
def DecodedModel.Complete [Zero R] (shape : Shape) (model : DecodedModel R) :
    Prop :=
  ∃ network, model.neuralnetwork = some network ∧
    network.Readable ∧ network.parameters.shape = shape

end FederatedEdge.Network
