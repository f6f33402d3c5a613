import FederatedEdge.Network.Decoded
import Mathlib.Algebra.Field.Basic

/-!
# Summing, averaging and resetting networks

The three in-place walks of `AggregationModel` over the accumulator network:
`FederatedAveragingSum` adds a client's model times its training counter,
`FederatedAveraging` divides by the counter sum, and
`SetNeuralNetworkZeroWeightValue` clears the network for the next round.

On a network in good order each of them replaces the parameters and leaves
everything else alone.
-/

namespace FederatedEdge.Network

open FederatedEdge.Library

variable {R : Type} [Field R]

/-! ## FederatedAveraging -/

/-- The loop body over one neuron: divide the bias and each weight. -/
def averageNeuron (currenttrainingcounter : ℤ) (neuron : Neuron R) :
    Exec (Neuron R) := do
  let weightlist ←
    neuron.weightlist.update fun weight =>
      .ok (weight / (currenttrainingcounter : R))
  .ok { neuron with
    bias := neuron.bias / (currenttrainingcounter : R)
    weightlist := weightlist }

/-- The loop body over one layer. -/
def averageLayer (currenttrainingcounter : ℤ) (layer : Layer R) :
    Exec (Layer R) := do
  let neuronlist ←
    layer.neuronlist.update (averageNeuron currenttrainingcounter)
  .ok { layer with neuronlist := neuronlist }

/-- Divide every bias and every weight of the network by the counter. -/
def FederatedAveraging
    (globalneuralnetwork : NeuralNetwork R) (currenttrainingcounter : ℤ) :
    Exec (NeuralNetwork R) := do
  let layerlist ←
    globalneuralnetwork.layerlist.update (averageLayer currenttrainingcounter)
  .ok { globalneuralnetwork with layerlist := layerlist }

/-! ## FederatedAveragingSum -/

/-- The loop body over a pair of neurons. -/
def sumNeuron (clienttrainingcounter : ℤ)
    (globalneuron : Neuron R) (clientneuron : DecodedNeuron R) :
    Exec (Neuron R) := do
  let clientbias ← Exec.read clientneuron.bias
  let weightlist ←
    globalneuron.weightlist.zip
      (fun globalweight clientweight =>
        .ok (globalweight + clientweight * (clienttrainingcounter : R)))
      clientneuron.weightlist
  .ok { globalneuron with
    bias := globalneuron.bias + clientbias * (clienttrainingcounter : R)
    weightlist := weightlist }

/-- The loop body over a pair of layers. -/
def sumLayer (clienttrainingcounter : ℤ)
    (globallayer : Layer R) (clientlayer : DecodedLayer R) :
    Exec (Layer R) := do
  let neuronlist ←
    globallayer.neuronlist.zip (sumNeuron clienttrainingcounter)
      clientlayer.neuronlist
  .ok { globallayer with neuronlist := neuronlist }

/-- Add the network of a client, weighted by its counter, position by position. -/
def FederatedAveragingSum
    (globalneuralnetwork : NeuralNetwork R)
    (clientneuralnetwork : DecodedNetwork R) (clienttrainingcounter : ℤ) :
    Exec (NeuralNetwork R) := do
  let clientlayerlist ← Exec.read clientneuralnetwork.layerlist
  let layerlist ←
    globalneuralnetwork.layerlist.zip (sumLayer clienttrainingcounter)
      clientlayerlist
  .ok { globalneuralnetwork with layerlist := layerlist }

/-! ## SetNeuralNetworkZeroWeightValue -/

/-- The inner loops: only the weights of the neuron are cleared. -/
def zeroWeights (neuron : Neuron R) : Exec (Neuron R) := do
  let weightlist ← neuron.weightlist.update fun _ => .ok 0
  .ok { neuron with weightlist := weightlist }

/--
The loop body over one layer.  `currentglobalneuron->bias = 0` stands before
the loop over the neurons, so it clears the bias of the first neuron only, and
dereferences null when the layer has no neurons.
-/
def zeroLayer (layer : Layer R) : Exec (Layer R) := do
  let address ← Exec.deref layer.neuronlist.first
  let neuronlist :=
    layer.neuronlist.modifyAt address fun neuron => { neuron with bias := 0 }
  let neuronlist ← neuronlist.update zeroWeights
  .ok { layer with neuronlist := neuronlist }

/-- Prepare the accumulator for the next round. -/
def SetNeuralNetworkZeroWeightValue (globalneuralnetwork : NeuralNetwork R) :
    Exec (NeuralNetwork R) := do
  let layerlist ← globalneuralnetwork.layerlist.update zeroLayer
  .ok { globalneuralnetwork with layerlist := layerlist }

/-! ## The same operations on parameters -/

namespace Parameters

/-- Divide one neuron's bias and weights. -/
def divideNeuron (counter : ℤ) (neuron : R × List R) : R × List R :=
  (neuron.1 / (counter : R), neuron.2.map (· / (counter : R)))

/-- Divide every bias and every weight. -/
def divide (parameters : Parameters R) (counter : ℤ) : Parameters R :=
  parameters.map (List.map (divideNeuron counter))

/-- Add a multiple of one neuron's parameters to another's. -/
def addNeuron (counter : ℤ) (sum model : R × List R) : R × List R :=
  (sum.1 + model.1 * (counter : R),
    List.zipWith (fun x y => x + y * (counter : R)) sum.2 model.2)

/-- Add a multiple of a model, position by position. -/
def addScaled (sum model : Parameters R) (counter : ℤ) : Parameters R :=
  List.zipWith (List.zipWith (addNeuron counter)) sum model

/-- Clear the weights and keep the bias. -/
def clearWeights (neuron : R × List R) : R × List R :=
  (neuron.1, neuron.2.map fun _ => 0)

/-- What the reset leaves of a layer: all biases but the first. -/
def residueLayer : List (R × List R) → List (R × List R)
  | [] => []
  | head :: rest => clearWeights (0, head.2) :: rest.map clearWeights

/-- What the reset leaves of a network. -/
def residue (parameters : Parameters R) : Parameters R :=
  parameters.map residueLayer

theorem shape_divide (parameters : Parameters R) (counter : ℤ) :
    (parameters.divide counter).shape = parameters.shape := by
  simp [shape, divide, divideNeuron, Function.comp_def]

theorem shape_residue (parameters : Parameters R) :
    parameters.residue.shape = parameters.shape := by
  simp only [shape, residue, List.map_map]
  refine List.map_congr_left fun layer _ => ?_
  cases layer with
  | nil => rfl
  | cons head rest => simp [residueLayer, clearWeights, Function.comp_def]

/-- The sum of two models of one shape has that shape. -/
theorem shape_addScaled
    {sum model : Parameters R} (counter : ℤ)
    (sameShape : model.shape = sum.shape) :
    (sum.addScaled model counter).shape = sum.shape := by
  rw [shape, shape, ← forall₂_iff_map_eq] at sameShape
  rw [shape, addScaled]
  induction sameShape with
  | nil => rfl
  | @cons modelLayer sumLayer models sums layers _ inductionHypothesis =>
      have layer :
          (List.zipWith (addNeuron counter) sumLayer modelLayer).map
              (fun neuron => neuron.2.length) =
            sumLayer.map fun neuron => neuron.2.length := by
        rw [← forall₂_iff_map_eq] at layers
        clear inductionHypothesis
        induction layers with
        | nil => rfl
        | cons sameLength _ inner =>
            simp [addNeuron, sameLength, inner]
      simp only [List.zipWith_cons_cons, List.map_cons, layer,
        inductionHypothesis]
      rfl

end Parameters

/-! ## What the walks compute -/

/-- In-place updates of a forward list, seen through the parameters. -/
theorem update_withParameters {α β : Type}
    {body : α → Exec α} (store : α → β → α) (view : α → β) {f : β → β}
    {list : LinkedList α} (forward : list.Forward)
    (finishes :
      ∀ value ∈ list.values, body value = .ok (store value (f (view value)))) :
    list.update body =
      .ok (list.withValues
        (List.zipWith store list.values ((list.values.map view).map f))) := by
  rw [LinkedList.update_forward body (fun value => store value (f (view value)))
    list forward finishes]
  simp [List.zipWith_map_right, List.zipWith_self]

theorem averageNeuron_eq
    (counter : ℤ) {neuron : Neuron R} (forward : neuron.weightlist.Forward) :
    averageNeuron counter neuron =
      .ok (neuron.withParameters
        (Parameters.divideNeuron counter neuron.parameters)) := by
  rw [averageNeuron,
    LinkedList.update_forward _ (· / (counter : R)) _ forward
      (fun _ _ => rfl)]
  rfl

theorem averageLayer_eq
    (counter : ℤ) {layer : Layer R} (forward : layer.Forward) :
    averageLayer counter layer =
      .ok (layer.withParameters
        (layer.parameters.map (Parameters.divideNeuron counter))) := by
  rw [averageLayer,
    update_withParameters Neuron.withParameters Neuron.parameters forward.1
      (fun neuron member =>
        averageNeuron_eq counter (forward.2 neuron member))]
  rfl

/-- The averaging divides every parameter by the counter sum. -/
theorem FederatedAveraging_eq
    (counter : ℤ) {network : NeuralNetwork R} (forward : network.Forward) :
    FederatedAveraging network counter =
      .ok (network.withParameters (network.parameters.divide counter)) := by
  rw [FederatedAveraging,
    update_withParameters Layer.withParameters Layer.parameters forward.1
      (fun layer member => averageLayer_eq counter (forward.2 layer member))]
  rfl

/-- Parallel updates of two forward lists, seen through the parameters. -/
theorem zip_withParameters {α β γ δ : Type}
    {body : α → γ → Exec α} (store : α → β → α) {view : α → β}
    {otherView : γ → δ} {f : β → δ → β}
    {list : LinkedList α} {others : LinkedList γ}
    (forward : list.Forward) (otherForward : others.Forward)
    (finishes :
      List.Forall₂
        (fun value other =>
          body value other = .ok (store value (f (view value) (otherView other))))
        list.values others.values) :
    list.zip body others =
      .ok (list.withValues
        (List.zipWith store list.values
          (List.zipWith f (list.values.map view)
            (others.values.map otherView)))) := by
  rw [LinkedList.zip_forward body
    (fun value other => store value (f (view value) (otherView other)))
    list others forward otherForward finishes]
  have combined : ∀ (left : List α) (right : List γ),
      List.zipWith
          (fun value other => store value (f (view value) (otherView other)))
          left right =
        List.zipWith store left
          (List.zipWith f (left.map view) (right.map otherView)) := by
    intro left
    induction left with
    | nil => simp
    | cons head left inner =>
        intro right
        cases right with
        | nil => simp
        | cons other right => simp [inner right]
  rw [combined]

theorem sumNeuron_eq
    (counter : ℤ) {neuron : Neuron R} {client : DecodedNeuron R}
    (forward : neuron.weightlist.Forward) (readable : client.Readable)
    (sameLength : client.parameters.2.length = neuron.parameters.2.length) :
    sumNeuron counter neuron client =
      .ok (neuron.withParameters
        (Parameters.addNeuron counter neuron.parameters client.parameters)) := by
  rcases Option.isSome_iff_exists.mp readable.1 with ⟨bias, biasAssigned⟩
  have weightsFinish :
      List.Forall₂
        (fun weight other =>
          (.ok (weight + other * (counter : R)) : Exec R) =
            .ok (weight + other * (counter : R)))
        neuron.weightlist.values client.weightlist.values := by
    rw [List.forall₂_iff_get]
    exact ⟨sameLength.symm, fun _ _ _ => rfl⟩
  rw [sumNeuron, biasAssigned,
    LinkedList.zip_forward _ (fun x y => x + y * (counter : R)) _ _
      forward readable.2 weightsFinish]
  simp [Neuron.withParameters, Parameters.addNeuron, Neuron.parameters,
    DecodedNeuron.parameters, biasAssigned]

theorem sumLayer_eq
    (counter : ℤ) {layer : Layer R} {client : DecodedLayer R}
    (forward : layer.Forward) (readable : client.Readable)
    (fits : layer.Fits client.parameters) :
    sumLayer counter layer client =
      .ok (layer.withParameters
        (List.zipWith (Parameters.addNeuron counter)
          layer.parameters client.parameters)) := by
  have neuronsFinish :
      List.Forall₂
        (fun neuron other =>
          sumNeuron counter neuron other =
            .ok (neuron.withParameters
              (Parameters.addNeuron counter neuron.parameters
                other.parameters)))
        layer.neuronlist.values client.neuronlist.values := by
    rw [Layer.Fits, DecodedLayer.parameters,
      List.forall₂_map_right_iff] at fits
    refine forall₂_with_mem_both fits ?_
    intro neuron member other otherMember neuronFits
    exact sumNeuron_eq counter (forward.2 neuron member)
      (readable.2 other otherMember)
      (by simpa [Neuron.Fits, Neuron.parameters] using neuronFits)
  rw [sumLayer,
    zip_withParameters Neuron.withParameters
      forward.1 readable.1 neuronsFinish]
  rfl

/-- The sum adds the client's parameters times its training counter. -/
theorem FederatedAveragingSum_eq
    (counter : ℤ) {network : NeuralNetwork R} {client : DecodedNetwork R}
    (forward : network.Forward) (readable : client.Readable)
    (fits : network.Fits client.parameters) :
    FederatedAveragingSum network client counter =
      .ok (network.withParameters
        (network.parameters.addScaled client.parameters counter)) := by
  rcases readable with ⟨layerlist, assigned, clientForward, layersReadable⟩
  have layersFinish :
      List.Forall₂
        (fun layer other =>
          sumLayer counter layer other =
            .ok (layer.withParameters
              (List.zipWith (Parameters.addNeuron counter)
                layer.parameters other.parameters)))
        network.layerlist.values layerlist.values := by
    rw [NeuralNetwork.Fits, DecodedNetwork.parameters, assigned,
      Option.getD_some, List.forall₂_map_right_iff] at fits
    refine forall₂_with_mem_both fits ?_
    intro layer member other otherMember layerFits
    exact sumLayer_eq counter (forward.2 layer member)
      (layersReadable other otherMember) layerFits
  rw [FederatedAveragingSum, assigned, Exec.read_some, Exec.ok_bind,
    zip_withParameters Layer.withParameters
      forward.1 clientForward layersFinish]
  simp [NeuralNetwork.withParameters, Parameters.addScaled,
    NeuralNetwork.parameters, DecodedNetwork.parameters, assigned]

theorem zeroWeights_eq
    {neuron : Neuron R} (forward : neuron.weightlist.Forward) :
    zeroWeights neuron =
      .ok (neuron.withParameters
        (Parameters.clearWeights neuron.parameters)) := by
  rw [zeroWeights,
    LinkedList.update_forward _ (fun _ => 0) _ forward (fun _ _ => rfl)]
  rfl

/-- The reset of a layer with neurons leaves all biases but the first. -/
theorem zeroLayer_eq
    {layer : Layer R} (forward : layer.Forward)
    (nonempty : layer.neuronlist.values ≠ []) :
    zeroLayer layer =
      .ok (layer.withParameters
        (Parameters.residueLayer layer.parameters)) := by
  rcases List.exists_cons_of_ne_nil nonempty with ⟨head, rest, split⟩
  have first : layer.neuronlist.first = some 0 := by
    have cellsNonempty : layer.neuronlist.cells ≠ [] := by
      intro none
      simp [LinkedList.values, none] at nonempty
    rcases List.exists_cons_of_ne_nil cellsNonempty
      with ⟨cell, cells, cellSplit⟩
    rw [forward.1.1, cellSplit]
    rfl
  have modified :
      layer.neuronlist.values.modify 0
          (fun neuron => { neuron with bias := 0 }) =
        { head with bias := 0 } :: rest := by
    simp [split]
  have sameLength :
      ({ head with bias := 0 } :: rest).length =
        layer.neuronlist.cells.length := by
    rw [← LinkedList.length_values, split]
    rfl
  have modifiedForward :=
    LinkedList.forward_withValues layer.neuronlist
      ({ head with bias := 0 } :: rest) sameLength forward.1
  have modifiedValues :=
    LinkedList.values_withValues layer.neuronlist
      ({ head with bias := 0 } :: rest) sameLength
  have weightsForward :
      ∀ neuron ∈ ({ head with bias := 0 } :: rest : List (Neuron R)),
        neuron.weightlist.Forward := by
    intro neuron member
    rcases List.mem_cons.mp member with rfl | member
    · exact forward.2 head (by simp [split])
    · exact forward.2 neuron (by simp [split, member])
  simp only [zeroLayer, first, Exec.deref_some, Exec.ok_bind,
    LinkedList.modifyAt_eq, modified]
  rw [update_withParameters Neuron.withParameters Neuron.parameters modifiedForward
      (fun neuron member =>
        zeroWeights_eq
          (weightsForward neuron (by rwa [modifiedValues] at member))),
    modifiedValues, LinkedList.withValues_withValues _ _ _ sameLength]
  simp [Layer.withParameters, Layer.parameters, split,
    Parameters.residueLayer, Neuron.withParameters, Neuron.parameters,
    Parameters.clearWeights]

/--
The reset clears all weights, and the bias of the first neuron of each layer.
-/
theorem SetNeuralNetworkZeroWeightValue_eq
    {network : NeuralNetwork R} (forward : network.Forward)
    (nonempty :
      ∀ layer ∈ network.layerlist.values, layer.neuronlist.values ≠ []) :
    SetNeuralNetworkZeroWeightValue network =
      .ok (network.withParameters network.parameters.residue) := by
  rw [SetNeuralNetworkZeroWeightValue,
    update_withParameters Layer.withParameters Layer.parameters forward.1
      (fun layer member =>
        zeroLayer_eq (forward.2 layer member) (nonempty layer member))]
  rfl

/-- In a layer without neurons the reset of the first bias follows null. -/
theorem neurons_of_zeroLayer {layer result : Layer R} (forward : layer.Forward)
    (finishes : zeroLayer layer = .ok result) :
    layer.neuronlist.values ≠ [] := by
  intro empty
  have first : layer.neuronlist.first = none := by
    rw [forward.1.1, List.map_eq_nil_iff.mp empty]
    rfl
  rw [zeroLayer, first] at finishes
  cases finishes

theorem neurons_of_SetNeuralNetworkZeroWeightValue
    {network result : NeuralNetwork R} (forward : network.Forward)
    (finishes : SetNeuralNetworkZeroWeightValue network = .ok result) :
    ∀ layer ∈ network.layerlist.values, layer.neuronlist.values ≠ [] := by
  rcases Exec.bind_eq_ok.mp finishes with ⟨layerlist, updated, -⟩
  intro layer member
  rcases LinkedList.update_finishes forward.1 updated layer member
    with ⟨cleared, clears⟩
  exact neurons_of_zeroLayer (forward.2 layer member) clears

end FederatedEdge.Network
