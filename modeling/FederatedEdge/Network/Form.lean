import FederatedEdge.Network.Content
import FederatedEdge.Network.Memory

/-!
# The form of a network

The form of a layer is its content without the numbers: the activation type,
the counts, the neuron types and the lengths of the lists.  Storing other
parameters, copying, and building from a content all keep the form, and the
form determines the shape.
-/

namespace FederatedEdge.Network

open FederatedEdge.Library

variable {R : Type}

/-! ## Forms -/

/-- A neuron without the values of its bias and its weights. -/
def NeuronContent.form (content : NeuronContent R) : NeuronContent Unit where
  neurontype := content.neurontype
  weights := content.weights
  bias := ()
  weightvalues := content.weightvalues.map fun _ => ()

/-- A layer without the values of its biases and weights. -/
def LayerContent.form (content : LayerContent R) : LayerContent Unit where
  activationfunctiontype := content.activationfunctiontype
  neurons := content.neurons
  neuronvalues := content.neuronvalues.map NeuronContent.form

/-- The forms of the layers; the configuration of the training is left out. -/
def NetworkContent.forms (content : NetworkContent R) :
    List (LayerContent Unit) :=
  content.layervalues.map LayerContent.form

/-- The content of a neuron whose weights run forward. -/
def Neuron.read (neuron : Neuron R) : NeuronContent R where
  neurontype := neuron.neurontype
  weights := neuron.weights
  bias := neuron.bias
  weightvalues := neuron.weightlist.values

/-- The content of a layer whose lists run forward. -/
def Layer.read (layer : Layer R) : LayerContent R where
  activationfunctiontype := layer.activationfunctiontype
  neurons := layer.neurons
  neuronvalues := layer.neuronlist.values.map Neuron.read

/-- The content of a network whose lists run forward. -/
def NeuralNetwork.read (network : NeuralNetwork R) : NetworkContent R where
  epoch := network.epoch
  alpha := network.alpha
  regularization := network.regularization
  lambda := network.lambda
  percentualtraining := network.percentualtraining
  lossfunctiontype := network.lossfunctiontype
  layers := network.layers
  layervalues := network.layerlist.values.map Layer.read

/-- The forms of the layers in the order of their cells. -/
def NeuralNetwork.forms (network : NeuralNetwork R) : List (LayerContent Unit) :=
  network.read.forms

/-! ## Reading along forward lists -/

theorem Neuron.content_forward {neuron : Neuron R}
    (forward : neuron.weightlist.Forward) :
    neuron.content = .ok neuron.read := by
  rw [Neuron.content, LinkedList.toList_forward _ forward]
  rfl

theorem Layer.content_forward {layer : Layer R} (forward : layer.Forward) :
    layer.content = .ok layer.read := by
  have neurons :
      layer.neuronlist.values.mapM Neuron.content =
        .ok (layer.neuronlist.values.map Neuron.read) := by
    rw [Exec.mapM_eq_ok_iff, List.forall₂_map_right_iff, List.forall₂_same]
    exact fun neuron member => Neuron.content_forward (forward.2 neuron member)
  rw [Layer.content, LinkedList.toList_forward _ forward.1, Exec.ok_bind,
    neurons]
  rfl

/-- The loops over a network in good order read all of it. -/
theorem NeuralNetwork.content_forward {network : NeuralNetwork R}
    (forward : network.Forward) : network.content = .ok network.read := by
  have layers :
      network.layerlist.values.mapM Layer.content =
        .ok (network.layerlist.values.map Layer.read) := by
    rw [Exec.mapM_eq_ok_iff, List.forall₂_map_right_iff, List.forall₂_same]
    exact fun layer member => Layer.content_forward (forward.2 layer member)
  rw [NeuralNetwork.content, LinkedList.toList_forward _ forward.1,
    Exec.ok_bind, layers]
  rfl

/-! ## What keeps the form -/

/-- A view of what is stored which only depends on where it is stored. -/
theorem map_zipWith_left {α β γ : Type} {store : α → β → α} {view : α → γ}
    {values : List α} {others : List β}
    (kept : List.Forall₂ (fun value other => view (store value other) = view value)
      values others) :
    (List.zipWith store values others).map view = values.map view := by
  induction kept with
  | nil => rfl
  | cons head _ rest => simp [head, rest]

theorem Neuron.form_withParameters {neuron : Neuron R}
    {parameters : R × List R} (fits : neuron.Fits parameters) :
    (neuron.withParameters parameters).read.form = neuron.read.form := by
  have stored :=
    LinkedList.values_withValues neuron.weightlist parameters.2 fits
  simp only [NeuronContent.form, Neuron.read, Neuron.withParameters, stored,
    List.map_const']
  rw [fits, LinkedList.length_values]

theorem Layer.form_withParameters {layer : Layer R}
    {parameters : List (R × List R)} (fits : layer.Fits parameters) :
    (layer.withParameters parameters).read.form = layer.read.form := by
  have neurons :
      (List.zipWith Neuron.withParameters layer.neuronlist.values
          parameters).map (fun neuron => neuron.read.form) =
        layer.neuronlist.values.map fun neuron => neuron.read.form :=
    map_zipWith_left (fits.imp fun _ _ => Neuron.form_withParameters)
  simp only [LayerContent.form, Layer.read, Layer.values_withParameters fits,
    List.map_map, Function.comp_def, neurons]
  rfl

/-- Storing other parameters keeps the form. -/
theorem NeuralNetwork.forms_withParameters {network : NeuralNetwork R}
    {parameters : Parameters R} (fits : network.Fits parameters) :
    (network.withParameters parameters).forms = network.forms := by
  have layers :
      (List.zipWith Layer.withParameters network.layerlist.values
          parameters).map (fun layer => layer.read.form) =
        network.layerlist.values.map fun layer => layer.read.form :=
    map_zipWith_left (fits.imp fun _ _ => Layer.form_withParameters)
  simp only [NeuralNetwork.forms, NetworkContent.forms, NeuralNetwork.read,
    NeuralNetwork.values_withParameters fits, List.map_map, Function.comp_def,
    layers]

theorem Neuron.read_copy (neuron : Neuron R) : neuron.copy.read = neuron.read := by
  simp [Neuron.read, Neuron.copy]

theorem Layer.read_copy (layer : Layer R) : layer.copy.read = layer.read := by
  simp [Layer.read, Layer.copy, Function.comp_def, Neuron.read_copy]

/-- A copy has the same content. -/
theorem NeuralNetwork.read_copy (network : NeuralNetwork R) :
    network.copy.read = network.read := by
  simp [NeuralNetwork.read, NeuralNetwork.copy, Function.comp_def,
    Layer.read_copy]

theorem NeuronContent.read_build (content : NeuronContent R) :
    content.build.read = content := by
  simp [Neuron.read, NeuronContent.build, LinkedList.values_ofList]

theorem LayerContent.read_build (content : LayerContent R) :
    content.build.read = content := by
  simp [Layer.read, LayerContent.build, LinkedList.values_ofList,
    Function.comp_def, NeuronContent.read_build]

/-- The network built from a content has this content. -/
theorem NetworkContent.read_build (content : NetworkContent R) :
    content.build.read = content := by
  simp [NeuralNetwork.read, NetworkContent.build, LinkedList.values_ofList,
    Function.comp_def, LayerContent.read_build]

theorem NetworkContent.forward_build (content : NetworkContent R) :
    content.build.Forward := by
  have consistent := content.consistent_build
  refine ⟨consistent.1.forward, fun layer member => ?_⟩
  have layerConsistent := consistent.2 layer member
  exact ⟨layerConsistent.1.forward, fun neuron isNeuron =>
    (layerConsistent.2 neuron isNeuron).forward⟩

/-! ## Networks of one form -/

/-- The same layer count, and layers of the same form. -/
structure NeuralNetwork.SameForm (before after : NeuralNetwork R) : Prop where
  layers : after.layers = before.layers
  forms : after.forms = before.forms

namespace NeuralNetwork.SameForm

theorem refl (network : NeuralNetwork R) : network.SameForm network :=
  ⟨rfl, rfl⟩

theorem trans {first second third : NeuralNetwork R}
    (left : first.SameForm second) (right : second.SameForm third) :
    first.SameForm third :=
  ⟨right.layers.trans left.layers, right.forms.trans left.forms⟩

theorem withParameters {network : NeuralNetwork R} {parameters : Parameters R}
    (fits : network.Fits parameters) :
    network.SameForm (network.withParameters parameters) :=
  ⟨rfl, forms_withParameters fits⟩

end NeuralNetwork.SameForm

/-! ## Networks are determined by their assigned fields -/

theorem Neuron.decoded_injective :
    Function.Injective (Neuron.decoded : Neuron R → DecodedNeuron R) := by
  rintro ⟨_, _, _, _⟩ ⟨_, _, _, _⟩ same
  simpa [Neuron.decoded] using same

theorem Layer.decoded_injective :
    Function.Injective (Layer.decoded : Layer R → DecodedLayer R) := by
  intro first second same
  have neurons :=
    LinkedList.withValues_map_injective Neuron.decoded_injective
      (congrArg DecodedLayer.neuronlist same)
  cases first
  cases second
  cases neurons
  simp only [Layer.decoded, DecodedLayer.mk.injEq, Option.some.injEq] at same
  rw [same.1, same.2.1]

/-- All fields of a network can be read off its assigned fields. -/
theorem NeuralNetwork.decoded_injective :
    Function.Injective
      (NeuralNetwork.decoded : NeuralNetwork R → DecodedNetwork R) := by
  intro first second same
  have layers :=
    LinkedList.withValues_map_injective Layer.decoded_injective
      (Option.some.inj (congrArg DecodedNetwork.layerlist same))
  cases first
  cases second
  cases layers
  simp only [NeuralNetwork.decoded, DecodedNetwork.mk.injEq,
    Option.some.injEq] at same
  rcases same with ⟨rfl, rfl, rfl, rfl, rfl, rfl, rfl, -⟩
  rfl

/-! ## Forms and shapes -/

/-- The form determines the shape. -/
theorem NeuralNetwork.shape_eq_forms (network : NeuralNetwork R) :
    network.shape =
      network.forms.map fun layer =>
        layer.neuronvalues.map fun neuron => neuron.weightvalues.length := by
  simp [NeuralNetwork.shape, Parameters.shape, NeuralNetwork.parameters,
    Layer.parameters, Neuron.parameters, NeuralNetwork.forms,
    NetworkContent.forms, NeuralNetwork.read, Layer.read, Neuron.read,
    LayerContent.form, NeuronContent.form, Function.comp_def]

end FederatedEdge.Network
