import FederatedEdge.Network.Decoded

/-!
# What a network holds

The content of a network is what its loops read from it: the scalar fields and,
along the next links, the layers, neurons and weights in order.  A network has
a content when all of its lists end with null, in whatever order their cells
were allocated.  `build` makes the consistently linked network of a content.
-/

namespace FederatedEdge.Network

open FederatedEdge.Library

/-- The fields of a neuron and its weights in order. -/
structure NeuronContent (R : Type) where
  neurontype : String
  weights : ℤ
  bias : R
  weightvalues : List R
deriving DecidableEq, Repr

/-- The fields of a layer and its neurons in order. -/
structure LayerContent (R : Type) where
  activationfunctiontype : ℤ
  neurons : ℤ
  neuronvalues : List (NeuronContent R)
deriving DecidableEq, Repr

/-- The fields of a network and its layers in order. -/
structure NetworkContent (R : Type) where
  epoch : ℤ
  alpha : R
  regularization : ℤ
  lambda : R
  percentualtraining : ℤ
  lossfunctiontype : ℤ
  layers : ℤ
  layervalues : List (LayerContent R)
deriving DecidableEq, Repr

variable {R : Type}

/-- The content of a neuron whose weight list ends with null. -/
def Neuron.content (neuron : Neuron R) : Exec (NeuronContent R) := do
  let weightvalues ← neuron.weightlist.toList
  .ok
    { neurontype := neuron.neurontype
      weights := neuron.weights
      bias := neuron.bias
      weightvalues := weightvalues }

/-- The content of a layer whose lists all end with null. -/
def Layer.content (layer : Layer R) : Exec (LayerContent R) := do
  let neurons ← layer.neuronlist.toList
  let neuronvalues ← neurons.mapM Neuron.content
  .ok
    { activationfunctiontype := layer.activationfunctiontype
      neurons := layer.neurons
      neuronvalues := neuronvalues }

/-- The content of a network whose lists all end with null. -/
def NeuralNetwork.content (network : NeuralNetwork R) :
    Exec (NetworkContent R) := do
  let layers ← network.layerlist.toList
  let layervalues ← layers.mapM Layer.content
  .ok
    { epoch := network.epoch
      alpha := network.alpha
      regularization := network.regularization
      lambda := network.lambda
      percentualtraining := network.percentualtraining
      lossfunctiontype := network.lossfunctiontype
      layers := network.layers
      layervalues := layervalues }

/-! ## Building a network from its content -/

/-- The neuron with a consistent list of these weights. -/
def NeuronContent.build (content : NeuronContent R) : Neuron R where
  neurontype := content.neurontype
  weights := content.weights
  bias := content.bias
  weightlist := LinkedList.ofList content.weightvalues

/-- The layer with consistent lists of these neurons. -/
def LayerContent.build (content : LayerContent R) : Layer R where
  activationfunctiontype := content.activationfunctiontype
  neurons := content.neurons
  neuronlist := LinkedList.ofList (content.neuronvalues.map NeuronContent.build)

/-- The network with consistent lists of these layers. -/
def NetworkContent.build (content : NetworkContent R) : NeuralNetwork R where
  epoch := content.epoch
  alpha := content.alpha
  regularization := content.regularization
  lambda := content.lambda
  percentualtraining := content.percentualtraining
  lossfunctiontype := content.lossfunctiontype
  layers := content.layers
  layerlist := LinkedList.ofList (content.layervalues.map LayerContent.build)

theorem LinkedList.toList_ofList {α : Type} (values : List α) :
    (LinkedList.ofList values).toList = .ok values := by
  rw [LinkedList.toList_forward _ (LinkedList.forward_ofList values),
    LinkedList.values_ofList]

theorem NeuronContent.content_build (content : NeuronContent R) :
    content.build.content = .ok content := by
  simp only [Neuron.content, NeuronContent.build, LinkedList.toList_ofList,
    Exec.ok_bind]

/-- Recovering every element of a mapped list. -/
theorem mapM_map_of_recovers {α β : Type} {f : β → α} {body : α → Exec β}
    (recovers : ∀ value, body (f value) = .ok value) (values : List β) :
    (values.map f).mapM body = .ok values := by
  rw [Exec.mapM_eq_ok_iff, List.forall₂_map_left_iff, List.forall₂_same]
  exact fun value _ => recovers value

theorem LayerContent.content_build (content : LayerContent R) :
    content.build.content = .ok content := by
  simp only [Layer.content, LayerContent.build, LinkedList.toList_ofList,
    Exec.ok_bind, mapM_map_of_recovers NeuronContent.content_build]

/-- The built network holds the content it was built from. -/
theorem NetworkContent.content_build (content : NetworkContent R) :
    content.build.content = .ok content := by
  simp only [NeuralNetwork.content, NetworkContent.build,
    LinkedList.toList_ofList, Exec.ok_bind,
    mapM_map_of_recovers LayerContent.content_build]

/-- The built network has consistent links at every level. -/
theorem NetworkContent.consistent_build (content : NetworkContent R) :
    content.build.Consistent := by
  constructor
  · exact LinkedList.consistent_ofList _
  · intro layer layerMember
    rw [NetworkContent.build, LinkedList.values_ofList] at layerMember
    rcases List.mem_map.mp layerMember with ⟨layerContent, _, rfl⟩
    constructor
    · exact LinkedList.consistent_ofList _
    · intro neuron neuronMember
      rw [LayerContent.build, LinkedList.values_ofList] at neuronMember
      rcases List.mem_map.mp neuronMember with ⟨neuronContent, _, rfl⟩
      exact LinkedList.consistent_ofList _

end FederatedEdge.Network
