import FederatedEdge.Library.LinkedListAppend
import Mathlib.Data.List.Forall2

/-!
# The network structures of the server and the client

`Neuron`, `Layer` and `NeuralNetwork` follow the C structures of the same
names, which the server and the ESP32 client share.  The pointers
`firstweight` and `lastweight` with the weight cells they lead to form
`weightlist`; likewise `neuronlist` and `layerlist`.  The count fields
`weights`, `neurons` and `layers` are stored separately, as in the source, and
need not agree with the lists.

The abstract content of a network is its nested list of biases and weights.
-/

namespace FederatedEdge.Network

open FederatedEdge.Library

/-- A neuron with its own bias and the list of its weights. -/
structure Neuron (R : Type) where
  neurontype : String
  weights : ℤ
  bias : R
  weightlist : LinkedList R
deriving DecidableEq, Repr

/-- A layer with the list of its neurons. -/
structure Layer (R : Type) where
  activationfunctiontype : ℤ
  neurons : ℤ
  neuronlist : LinkedList (Neuron R)
deriving DecidableEq, Repr

/-- The configuration of a training and the list of the layers. -/
structure NeuralNetwork (R : Type) where
  epoch : ℤ
  alpha : R
  regularization : ℤ
  lambda : R
  percentualtraining : ℤ
  lossfunctiontype : ℤ
  layers : ℤ
  layerlist : LinkedList (Layer R)
deriving DecidableEq, Repr

variable {R : Type}

/-! ## Abstract content -/

/-- For each layer and each of its neurons, the bias and the weights. -/
abbrev Parameters (R : Type) := List (List (R × List R))

/-- For each layer and each of its neurons, the number of weights. -/
abbrev Shape := List (List ℕ)

namespace Parameters

/-- The number of layers, of neurons in them and of weights in those. -/
def shape (parameters : Parameters R) : Shape :=
  parameters.map (List.map fun neuron => neuron.2.length)

end Parameters

namespace Neuron

/-- The bias and the weights in the order of their cells. -/
def parameters (neuron : Neuron R) : R × List R :=
  (neuron.bias, neuron.weightlist.values)

/-- The same neuron with another bias and other weights. -/
def withParameters (neuron : Neuron R) (parameters : R × List R) : Neuron R :=
  { neuron with
    bias := parameters.1
    weightlist := neuron.weightlist.withValues parameters.2 }

end Neuron

namespace Layer

/-- The parameters of the neurons in the order of their cells. -/
def parameters (layer : Layer R) : List (R × List R) :=
  layer.neuronlist.values.map Neuron.parameters

/-- The same layer with other biases and weights. -/
def withParameters (layer : Layer R) (parameters : List (R × List R)) :
    Layer R :=
  { layer with
    neuronlist :=
      layer.neuronlist.withValues
        (List.zipWith Neuron.withParameters
          layer.neuronlist.values parameters) }

/-- The neuron list and all weight lists in it run forward to null. -/
def Forward (layer : Layer R) : Prop :=
  layer.neuronlist.Forward ∧
    ∀ neuron ∈ layer.neuronlist.values, neuron.weightlist.Forward

/-- All lists of the layer have consistent links in both directions. -/
def Consistent (layer : Layer R) : Prop :=
  layer.neuronlist.Consistent ∧
    ∀ neuron ∈ layer.neuronlist.values, neuron.weightlist.Consistent

end Layer

namespace NeuralNetwork

/-- The parameters of the layers in the order of their cells. -/
def parameters (network : NeuralNetwork R) : Parameters R :=
  network.layerlist.values.map Layer.parameters

/-- The same network, cell by cell, with other biases and weights. -/
def withParameters (network : NeuralNetwork R) (parameters : Parameters R) :
    NeuralNetwork R :=
  { network with
    layerlist :=
      network.layerlist.withValues
        (List.zipWith Layer.withParameters
          network.layerlist.values parameters) }

/-- How many layers, neurons and weights the cells make. -/
def shape (network : NeuralNetwork R) : Shape :=
  network.parameters.shape

/-- All lists of the network run forward through their cells to null. -/
def Forward (network : NeuralNetwork R) : Prop :=
  network.layerlist.Forward ∧
    ∀ layer ∈ network.layerlist.values, layer.Forward

/-- All lists of the network have consistent links in both directions. -/
def Consistent (network : NeuralNetwork R) : Prop :=
  network.layerlist.Consistent ∧
    ∀ layer ∈ network.layerlist.values, layer.Consistent

end NeuralNetwork

/-- Some list of a network of this shape has exactly one element. -/
def Shape.HasSingleton (shape : Shape) : Prop :=
  shape.length = 1 ∨
    ∃ layer ∈ shape, layer.length = 1 ∨ ∃ weights ∈ layer, weights = 1

instance (shape : Shape) : Decidable shape.HasSingleton := by
  unfold Shape.HasSingleton
  infer_instance

/-! ## Replacing the parameters -/

theorem map_zipWith_of_forall₂ {α β γ : Type}
    {f : α → β → γ} {g : γ → β} {left : List α} {right : List β}
    (recovers : List.Forall₂ (fun a b => g (f a b) = b) left right) :
    (List.zipWith f left right).map g = right := by
  induction recovers with
  | nil => rfl
  | cons head _ rest => simp [head, rest]

theorem forall_mem_zipWith {α β γ : Type}
    {f : α → β → γ} {P : γ → Prop} {left : List α} {right : List β}
    (holds : List.Forall₂ (fun a b => P (f a b)) left right) :
    ∀ value ∈ List.zipWith f left right, P value := by
  induction holds with
  | nil => simp
  | cons head _ rest =>
      intro value member
      rcases List.mem_cons.mp member with rfl | member
      · exact head
      · exact rest value member

theorem forall₂_iff_map_eq {α β γ : Type}
    {f : α → γ} {g : β → γ} {left : List α} {right : List β} :
    List.Forall₂ (fun a b => f a = g b) left right ↔
      left.map f = right.map g := by
  rw [← List.forall₂_eq_eq_eq, List.forall₂_map_left_iff,
    List.forall₂_map_right_iff]

/-- Strengthen a pointwise relation using membership on both sides. -/
theorem forall₂_with_mem_both {α β : Type}
    {S T : α → β → Prop} {left : List α} {right : List β}
    (related : List.Forall₂ S left right)
    (upgrade : ∀ a ∈ left, ∀ b ∈ right, S a b → T a b) :
    List.Forall₂ T left right := by
  induction related with
  | nil => exact .nil
  | cons head _ rest =>
      exact .cons (upgrade _ (by simp) _ (by simp) head)
        (rest fun a member b otherMember =>
          upgrade a (by simp [member]) b (by simp [otherMember]))

namespace Neuron

/-- The weights have the number of the neuron's weight cells. -/
def Fits (neuron : Neuron R) (parameters : R × List R) : Prop :=
  parameters.2.length = neuron.weightlist.cells.length

theorem parameters_withParameters
    {neuron : Neuron R} {parameters : R × List R}
    (fits : neuron.Fits parameters) :
    (neuron.withParameters parameters).parameters = parameters := by
  have stored :=
    LinkedList.values_withValues neuron.weightlist parameters.2 fits
  simp [Neuron.parameters, Neuron.withParameters, stored]

end Neuron

namespace Layer

/-- There are parameters for each neuron, and they fit it. -/
def Fits (layer : Layer R) (parameters : List (R × List R)) : Prop :=
  List.Forall₂ Neuron.Fits layer.neuronlist.values parameters

theorem values_withParameters
    {layer : Layer R} {parameters : List (R × List R)}
    (fits : layer.Fits parameters) :
    (layer.withParameters parameters).neuronlist.values =
      List.zipWith Neuron.withParameters layer.neuronlist.values parameters := by
  apply LinkedList.values_withValues
  simp [← fits.length_eq]

theorem parameters_withParameters
    {layer : Layer R} {parameters : List (R × List R)}
    (fits : layer.Fits parameters) :
    (layer.withParameters parameters).parameters = parameters := by
  rw [Layer.parameters, values_withParameters fits]
  exact map_zipWith_of_forall₂
    (fits.imp fun _ _ => Neuron.parameters_withParameters)

theorem forward_withParameters
    {layer : Layer R} {parameters : List (R × List R)}
    (fits : layer.Fits parameters) (forward : layer.Forward) :
    (layer.withParameters parameters).Forward := by
  constructor
  · apply LinkedList.forward_withValues
    · simp [← fits.length_eq]
    · exact forward.1
  · rw [values_withParameters fits]
    refine forall_mem_zipWith
      (forall₂_with_mem_both fits
        fun neuron member parameters _ neuronFits => ?_)
    exact LinkedList.forward_withValues neuron.weightlist parameters.2
      neuronFits (forward.2 neuron member)

end Layer

namespace NeuralNetwork

/-- The parameters have a value for each neuron and each weight cell. -/
def Fits (network : NeuralNetwork R) (parameters : Parameters R) : Prop :=
  List.Forall₂ Layer.Fits network.layerlist.values parameters

theorem fits_iff_shape
    (network : NeuralNetwork R) (parameters : Parameters R) :
    network.Fits parameters ↔ parameters.shape = network.shape := by
  have layerFits : ∀ (layer : Layer R) (other : List (R × List R)),
      layer.Fits other ↔
        layer.parameters.map (fun neuron => neuron.2.length) =
          other.map (fun neuron => neuron.2.length) := by
    intro layer other
    rw [Layer.parameters, List.map_map, ← forall₂_iff_map_eq]
    constructor
    · intro fits
      exact fits.imp fun neuron parameters neuronFits => by
        simpa [Neuron.parameters] using neuronFits.symm
    · intro related
      exact related.imp fun neuron parameters sameLength => by
        simpa [Neuron.parameters, Neuron.Fits] using sameLength.symm
  rw [eq_comm, NeuralNetwork.shape, NeuralNetwork.parameters,
    Parameters.shape, Parameters.shape, List.map_map, ← forall₂_iff_map_eq]
  constructor
  · intro fits
    exact fits.imp fun layer other => (layerFits layer other).mp
  · intro related
    exact related.imp fun layer other => (layerFits layer other).mpr

theorem values_withParameters
    {network : NeuralNetwork R} {parameters : Parameters R}
    (fits : network.Fits parameters) :
    (network.withParameters parameters).layerlist.values =
      List.zipWith Layer.withParameters network.layerlist.values parameters := by
  apply LinkedList.values_withValues
  simp [← fits.length_eq]

theorem parameters_withParameters
    {network : NeuralNetwork R} {parameters : Parameters R}
    (fits : network.Fits parameters) :
    (network.withParameters parameters).parameters = parameters := by
  rw [NeuralNetwork.parameters, values_withParameters fits]
  exact map_zipWith_of_forall₂
    (fits.imp fun _ _ => Layer.parameters_withParameters)

theorem forward_withParameters
    {network : NeuralNetwork R} {parameters : Parameters R}
    (fits : network.Fits parameters) (forward : network.Forward) :
    (network.withParameters parameters).Forward := by
  constructor
  · apply LinkedList.forward_withValues
    · simp [← fits.length_eq]
    · exact forward.1
  · rw [values_withParameters fits]
    refine forall_mem_zipWith
      (forall₂_with_mem_both fits
        fun layer member parameters _ layerFits => ?_)
    exact Layer.forward_withParameters layerFits (forward.2 layer member)

theorem shape_withParameters
    {network : NeuralNetwork R} {parameters : Parameters R}
    (fits : network.Fits parameters) :
    (network.withParameters parameters).shape = network.shape := by
  rw [NeuralNetwork.shape, parameters_withParameters fits]
  exact (network.fits_iff_shape parameters).mp fits

end NeuralNetwork

/-! ## Replacing the parameters twice -/

/-- Storing in all elements again forgets what was stored before. -/
theorem zipWith_zipWith_self {α β : Type} {store : α → β → α}
    {values : List α} {old : List β} (new : List β) {fits : α → β → Prop}
    (fit : List.Forall₂ fits values old)
    (overwrites : ∀ value previous later, fits value previous →
      store (store value previous) later = store value later) :
    List.zipWith store (List.zipWith store values old) new =
      List.zipWith store values new := by
  induction fit generalizing new with
  | nil => simp
  | @cons value previous values old here _ inductionHypothesis =>
      cases new with
      | nil => simp
      | cons later new =>
          rw [List.zipWith_cons_cons, List.zipWith_cons_cons,
            List.zipWith_cons_cons, overwrites value previous later here,
            inductionHypothesis]

theorem Neuron.withParameters_withParameters (neuron : Neuron R)
    (old new : R × List R) (fits : neuron.Fits old) :
    (neuron.withParameters old).withParameters new =
      neuron.withParameters new := by
  rw [Neuron.withParameters, Neuron.withParameters, Neuron.withParameters,
    LinkedList.withValues_withValues _ _ _ fits]

theorem Layer.withParameters_withParameters (layer : Layer R)
    (old new : List (R × List R)) (fits : layer.Fits old) :
    (layer.withParameters old).withParameters new =
      layer.withParameters new := by
  rw [Layer.withParameters, Layer.values_withParameters fits,
    zipWith_zipWith_self new fits Neuron.withParameters_withParameters,
    Layer.withParameters, Layer.withParameters,
    LinkedList.withValues_withValues _ _ _ (by simp [← fits.length_eq])]

/-- Only the parameters which are stored last remain. -/
theorem NeuralNetwork.withParameters_withParameters (network : NeuralNetwork R)
    (old new : Parameters R) (fits : network.Fits old) :
    (network.withParameters old).withParameters new =
      network.withParameters new := by
  rw [NeuralNetwork.withParameters, NeuralNetwork.values_withParameters fits,
    zipWith_zipWith_self new fits Layer.withParameters_withParameters,
    NeuralNetwork.withParameters, NeuralNetwork.withParameters,
    LinkedList.withValues_withValues _ _ _ (by simp [← fits.length_eq])]

/-- Storing in all elements what is read from them. -/
theorem zipWith_map_self {α β : Type} {store : α → β → α} {view : α → β}
    (values : List α) (restores : ∀ value, store value (view value) = value) :
    List.zipWith store values (values.map view) = values := by
  induction values with
  | nil => rfl
  | cons value values inductionHypothesis =>
      rw [List.map_cons, List.zipWith_cons_cons, restores, inductionHypothesis]

theorem Neuron.withParameters_parameters (neuron : Neuron R) :
    neuron.withParameters neuron.parameters = neuron := by
  rw [Neuron.withParameters, Neuron.parameters,
    LinkedList.withValues_values]

theorem Layer.withParameters_parameters (layer : Layer R) :
    layer.withParameters layer.parameters = layer := by
  rw [Layer.withParameters, Layer.parameters,
    zipWith_map_self _ Neuron.withParameters_parameters,
    LinkedList.withValues_values]

/-- A network stores its own parameters. -/
theorem NeuralNetwork.withParameters_parameters (network : NeuralNetwork R) :
    network.withParameters network.parameters = network := by
  rw [NeuralNetwork.withParameters, NeuralNetwork.parameters,
    zipWith_map_self _ Layer.withParameters_parameters,
    LinkedList.withValues_values]

end FederatedEdge.Network
