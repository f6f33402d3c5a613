import FederatedEdge.Library.LinkedListLinks
import FederatedEdge.Network.Averaging
import FederatedEdge.Network.Form

/-!
# The sum keeps the links of the accumulator

`FederatedAveragingSum` checks nothing about the model of the client.  If it
finishes, whatever the model is, then the accumulator has the links and counts it
had: it still runs forward, and it has the same form.
-/

namespace FederatedEdge.Network

open FederatedEdge.Library

variable {R : Type}

/-- The same weight cells, and the same fields but for the bias. -/
structure Neuron.SameLinks (before after : Neuron R) : Prop where
  neurontype : after.neurontype = before.neurontype
  weights : after.weights = before.weights
  weightlist : before.weightlist.SameLinks (fun _ _ => True) after.weightlist

/-- The same neuron cells, with the same weight cells in them. -/
structure Layer.SameLinks (before after : Layer R) : Prop where
  activationfunctiontype :
    after.activationfunctiontype = before.activationfunctiontype
  neurons : after.neurons = before.neurons
  neuronlist : before.neuronlist.SameLinks Neuron.SameLinks after.neuronlist

/-- The same layer cells, with the same cells in them. -/
structure NeuralNetwork.SameLinks (before after : NeuralNetwork R) : Prop where
  layers : after.layers = before.layers
  layerlist : before.layerlist.SameLinks Layer.SameLinks after.layerlist

theorem Neuron.SameLinks.refl (neuron : Neuron R) : neuron.SameLinks neuron :=
  ⟨rfl, rfl, LinkedList.SameLinks.refl (fun _ => trivial) _⟩

theorem Neuron.SameLinks.trans (first second third : Neuron R)
    (left : first.SameLinks second) (right : second.SameLinks third) :
    first.SameLinks third :=
  ⟨right.neurontype.trans left.neurontype, right.weights.trans left.weights,
    LinkedList.SameLinks.trans (fun _ _ _ _ _ => trivial) left.weightlist
      right.weightlist⟩

theorem Layer.SameLinks.refl (layer : Layer R) : layer.SameLinks layer :=
  ⟨rfl, rfl, LinkedList.SameLinks.refl Neuron.SameLinks.refl _⟩

theorem Layer.SameLinks.trans (first second third : Layer R)
    (left : first.SameLinks second) (right : second.SameLinks third) :
    first.SameLinks third :=
  ⟨right.activationfunctiontype.trans left.activationfunctiontype,
    right.neurons.trans left.neurons,
    LinkedList.SameLinks.trans Neuron.SameLinks.trans left.neuronlist
      right.neuronlist⟩

theorem Layer.SameLinks.forward {before after : Layer R}
    (same : before.SameLinks after) (forward : before.Forward) :
    after.Forward :=
  ⟨LinkedList.SameLinks.forward same.neuronlist forward.1,
    LinkedList.SameLinks.forall_values same.neuronlist
      (fun kept => LinkedList.SameLinks.forward kept.weightlist) forward.2⟩

theorem Neuron.SameLinks.form {before after : Neuron R}
    (same : before.SameLinks after) : after.read.form = before.read.form := by
  have lengths := (LinkedList.SameLinks.values same.weightlist).length_eq
  simp only [Neuron.read, NeuronContent.form, same.neurontype, same.weights,
    List.map_const', lengths]

theorem Layer.SameLinks.form {before after : Layer R}
    (same : before.SameLinks after) : after.read.form = before.read.form := by
  have neurons :
      after.neuronlist.values.map (fun neuron => neuron.read.form) =
        before.neuronlist.values.map fun neuron => neuron.read.form := by
    rw [eq_comm, ← forall₂_iff_map_eq]
    exact (LinkedList.SameLinks.values same.neuronlist).imp
      fun _ _ kept => kept.form.symm
  simp only [Layer.read, LayerContent.form, List.map_map, Function.comp_def,
    neurons, same.activationfunctiontype, same.neurons]

/-- A network with the same links runs forward like the other one. -/
theorem NeuralNetwork.SameLinks.forward {before after : NeuralNetwork R}
    (same : before.SameLinks after) (forward : before.Forward) :
    after.Forward :=
  ⟨LinkedList.SameLinks.forward same.layerlist forward.1,
    LinkedList.SameLinks.forall_values same.layerlist Layer.SameLinks.forward
      forward.2⟩

/-- A network with the same links has the same form. -/
theorem NeuralNetwork.SameLinks.sameForm {before after : NeuralNetwork R}
    (same : before.SameLinks after) : before.SameForm after := by
  refine ⟨same.layers, ?_⟩
  rw [NeuralNetwork.forms, NeuralNetwork.forms, NetworkContent.forms,
    NetworkContent.forms, NeuralNetwork.read, NeuralNetwork.read, List.map_map,
    List.map_map, eq_comm, ← forall₂_iff_map_eq]
  exact (LinkedList.SameLinks.values same.layerlist).imp
    fun _ _ kept => kept.form.symm

theorem NeuralNetwork.SameLinks.shape {before after : NeuralNetwork R}
    (same : before.SameLinks after) : after.shape = before.shape := by
  rw [NeuralNetwork.shape_eq_forms, same.sameForm.forms,
    ← NeuralNetwork.shape_eq_forms]

variable [Field R]

theorem sumNeuron_sameLinks {counter : ℤ} {neuron result : Neuron R}
    {client : DecodedNeuron R}
    (finishes : sumNeuron counter neuron client = .ok result) :
    neuron.SameLinks result := by
  simp only [sumNeuron, Exec.bind_eq_ok, Except.ok.injEq] at finishes
  rcases finishes with ⟨_, -, weightlist, walked, rfl⟩
  exact ⟨rfl, rfl, LinkedList.zip_sameLinks (fun _ => trivial)
    (fun _ _ _ _ _ => trivial) (fun _ => trivial) walked⟩

theorem sumLayer_sameLinks {counter : ℤ} {layer result : Layer R}
    {client : DecodedLayer R}
    (finishes : sumLayer counter layer client = .ok result) :
    layer.SameLinks result := by
  simp only [sumLayer, Exec.bind_eq_ok, Except.ok.injEq] at finishes
  rcases finishes with ⟨neuronlist, walked, rfl⟩
  exact ⟨rfl, rfl, LinkedList.zip_sameLinks Neuron.SameLinks.refl
    Neuron.SameLinks.trans sumNeuron_sameLinks walked⟩

/-- Whatever the model of the client is, the sum keeps the links. -/
theorem FederatedAveragingSum_sameLinks {counter : ℤ}
    {network result : NeuralNetwork R} {client : DecodedNetwork R}
    (finishes : FederatedAveragingSum network client counter = .ok result) :
    network.SameLinks result := by
  simp only [FederatedAveragingSum, Exec.bind_eq_ok, Except.ok.injEq] at finishes
  rcases finishes with ⟨_, -, layerlist, walked, rfl⟩
  exact ⟨rfl, LinkedList.zip_sameLinks Layer.SameLinks.refl
    Layer.SameLinks.trans sumLayer_sameLinks walked⟩

end FederatedEdge.Network
