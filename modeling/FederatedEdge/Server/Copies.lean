import FederatedEdge.Json.CompleteModel
import FederatedEdge.Network.Averaging
import FederatedEdge.Network.Memory

/-!
# What the copy of a network is good for

The source of a copy is any network whose lists end with null, whatever the
addresses of its cells.  Its copy holds the same content in fresh cells, and
runs forward through each of them once, exactly when no list of the source has
exactly one element.  A list of one element is copied to a cell which leads to
itself; encoding, summing and freeing never get past it.
-/

namespace FederatedEdge.Server

open FederatedEdge.Library
open FederatedEdge.Network
open FederatedEdge.Json

variable {R : Type}

/-! ## Copying what is met along the links -/

theorem CopyNeuron_of_content {neuron : Neuron R} {content : NeuronContent R}
    (holds : neuron.content = .ok content) :
    CopyNeuron neuron = .ok content.build.copy := by
  simp only [Neuron.content, Exec.bind_eq_ok, Except.ok.injEq] at holds
  rcases holds with ⟨weights, walk, rfl⟩
  have turns :
      List.Forall₂
        (fun weight copy => (.ok (CopyWeight weight) : Exec R) = .ok copy)
        weights weights :=
    List.forall₂_same.mpr fun _ _ => rfl
  have copied := fold_appendCopy_of_toList walk turns
  simp only [Exec.ok_bind] at copied
  rw [CopyNeuron, copied]
  simp [Neuron.copy, NeuronContent.build, LinkedList.values_ofList]

theorem CopyLayer_of_content {layer : Layer R} {content : LayerContent R}
    (holds : layer.content = .ok content) :
    CopyLayer layer = .ok content.build.copy := by
  simp only [Layer.content, Exec.bind_eq_ok, Except.ok.injEq] at holds
  rcases holds with ⟨neurons, walk, neuronvalues, contents, rfl⟩
  have turns :
      List.Forall₂ (fun neuron copy => CopyNeuron neuron = .ok copy)
        neurons (neuronvalues.map fun content => content.build.copy) := by
    rw [List.forall₂_map_right_iff]
    exact (Exec.mapM_eq_ok_iff.mp contents).imp fun _ _ => CopyNeuron_of_content
  rw [CopyLayer, fold_appendCopy_of_toList walk turns]
  simp [Layer.copy, LayerContent.build, LinkedList.values_ofList,
    Function.comp_def]

/-- A copy is the copy of a network built from the content. -/
theorem CopyNeuralNetwork_of_content {network : NeuralNetwork R}
    {content : NetworkContent R} (holds : network.content = .ok content) :
    CopyNeuralNetwork network = .ok content.build.copy := by
  simp only [NeuralNetwork.content, Exec.bind_eq_ok, Except.ok.injEq] at holds
  rcases holds with ⟨layers, walk, layervalues, contents, rfl⟩
  have turns :
      List.Forall₂ (fun layer copy => CopyLayer layer = .ok copy)
        layers (layervalues.map fun content => content.build.copy) := by
    rw [List.forall₂_map_right_iff]
    exact (Exec.mapM_eq_ok_iff.mp contents).imp fun _ _ => CopyLayer_of_content
  rw [CopyNeuralNetwork, fold_appendCopy_of_toList walk turns]
  simp [NeuralNetwork.copy, NetworkContent.build, LinkedList.values_ofList,
    Function.comp_def]

/-! ## When a copy runs forward -/

theorem shape_build (content : NetworkContent ℚ) :
    content.build.shape = NetworkContent.shape content := by
  simp [NeuralNetwork.shape, Parameters.shape, NeuralNetwork.parameters,
    NetworkContent.build, NetworkContent.shape, Layer.parameters,
    LayerContent.build, Neuron.parameters, NeuronContent.build,
    LinkedList.values_ofList, Function.comp_def]

/-- Without a list of one element the copy runs forward. -/
theorem forward_copy {network : NeuralNetwork R}
    (several : ¬ network.shape.HasSingleton) : network.copy.Forward := by
  rw [not_hasSingleton_iff] at several
  rcases several with ⟨layers, each⟩
  constructor
  · exact forward_copyList (by simpa using layers)
  · intro layer member
    rw [NeuralNetwork.copy, values_copyList] at member
    rcases List.mem_map.mp member with ⟨source, isLayer, rfl⟩
    rcases each source isLayer with ⟨neurons, weights⟩
    constructor
    · exact forward_copyList (by simpa [Layer.parameters] using neurons)
    · intro neuron neuronMember
      rw [Layer.copy, values_copyList] at neuronMember
      rcases List.mem_map.mp neuronMember with ⟨sourceNeuron, isNeuron, rfl⟩
      exact forward_copyList
        (weights sourceNeuron.parameters (List.mem_map_of_mem isNeuron))

/-- A copy runs forward exactly when no list has exactly one element. -/
theorem forward_copy_iff (network : NeuralNetwork R) :
    network.copy.Forward ↔ ¬ network.shape.HasSingleton := by
  constructor
  · intro forward
    rw [← freeNeuralNetwork_copy]
    exact freeNeuralNetwork_forward forward
  · exact forward_copy

/-! ## What a copy which runs forward holds -/

theorem Neuron.content_copy_build (content : NeuronContent R)
    (forward : content.build.copy.weightlist.Forward) :
    content.build.copy.content = .ok content := by
  rw [Neuron.content, LinkedList.toList_forward _ forward]
  simp [Neuron.copy, NeuronContent.build, LinkedList.values_ofList]

theorem Layer.content_copy_build (content : LayerContent R)
    (forward : content.build.copy.Forward) :
    content.build.copy.content = .ok content := by
  have values :
      content.build.copy.neuronlist.values =
        content.neuronvalues.map fun neuron => neuron.build.copy := by
    simp [Layer.copy, LayerContent.build, LinkedList.values_ofList,
      Function.comp_def]
  have contents :
      content.build.copy.neuronlist.values.mapM Neuron.content =
        .ok content.neuronvalues := by
    rw [values, Exec.mapM_eq_ok_iff, List.forall₂_map_left_iff,
      List.forall₂_same]
    intro neuron member
    apply Neuron.content_copy_build
    apply forward.2
    rw [values]
    exact List.mem_map_of_mem member
  rw [Layer.content, LinkedList.toList_forward _ forward.1, Exec.ok_bind,
    contents]
  rfl

/-- A copy which runs forward holds the content of its source. -/
theorem NeuralNetwork.content_copy_build (content : NetworkContent R)
    (forward : content.build.copy.Forward) :
    content.build.copy.content = .ok content := by
  have values :
      content.build.copy.layerlist.values =
        content.layervalues.map fun layer => layer.build.copy := by
    simp [NeuralNetwork.copy, NetworkContent.build, LinkedList.values_ofList,
      Function.comp_def]
  have contents :
      content.build.copy.layerlist.values.mapM Layer.content =
        .ok content.layervalues := by
    rw [values, Exec.mapM_eq_ok_iff, List.forall₂_map_left_iff,
      List.forall₂_same]
    intro layer member
    apply Layer.content_copy_build
    apply forward.2
    rw [values]
    exact List.mem_map_of_mem member
  rw [NeuralNetwork.content, LinkedList.toList_forward _ forward.1, Exec.ok_bind,
    contents]
  rfl

/-! ## Copies which can be used -/

/--
The copy holds the content, its links run through each of its nodes once, and
the three walks over networks come to an end on it: encoding, summing a
client's model of its shape into it, and freeing.
-/
structure Usable (content : NetworkContent ℚ) (copy : NeuralNetwork ℚ) :
    Prop where
  forward : copy.Forward
  content : copy.content = .ok content
  encodes : ∀ globalmodelstatus trainingscounter,
    ∃ json, encodeModel globalmodelstatus trainingscounter copy = .ok json
  sums : ∀ (client : DecodedNetwork ℚ) (counter : ℤ),
    client.Readable → client.parameters.shape = copy.shape →
      ∃ sum, FederatedAveragingSum copy client counter = .ok sum
  frees : freeNeuralNetwork copy = .ok ()

theorem Usable.of_forward {content : NetworkContent ℚ} {copy : NeuralNetwork ℚ}
    (forward : copy.Forward) (holds : copy.content = .ok content) :
    Usable content copy := by
  refine ⟨forward, holds, ?_, ?_, freeNeuralNetwork_forward forward⟩
  · intro globalmodelstatus trainingscounter
    exact ⟨_, encodeModel_eq _ _ holds⟩
  · intro client counter readable sameShape
    have fits : copy.Fits client.parameters :=
      (NeuralNetwork.fits_iff_shape _ _).mpr sameShape
    exact ⟨_, FederatedAveragingSum_eq counter forward readable fits⟩

/--
Copying a network finishes with a usable copy exactly when none of the lists
of the network has exactly one element.
-/
theorem CopyNeuralNetwork_usable_iff {network : NeuralNetwork ℚ}
    {content : NetworkContent ℚ} (terminated : network.content = .ok content) :
    (∃ copy, CopyNeuralNetwork network = .ok copy ∧ Usable content copy) ↔
      ¬ (NetworkContent.shape content).HasSingleton := by
  rw [CopyNeuralNetwork_of_content terminated, ← shape_build,
    ← forward_copy_iff]
  constructor
  · rintro ⟨copy, copied, usable⟩
    rw [Except.ok.inj copied]
    exact usable.forward
  · intro forward
    exact ⟨_, rfl, Usable.of_forward forward
      (NeuralNetwork.content_copy_build content forward)⟩

/-- The sample content has no list of one element. -/
theorem CopyNeuralNetwork_usable_iff_sample :
    (∃ copy, CopyNeuralNetwork sampleContent.build = .ok copy ∧
        Usable sampleContent copy) ↔
      ¬ (NetworkContent.shape sampleContent).HasSingleton :=
  CopyNeuralNetwork_usable_iff sampleContent.content_build

/-- Two input neurons and a single output neuron. -/
def singleOutput : NetworkContent ℚ where
  epoch := 8
  alpha := 1 / 1000
  regularization := 2
  lambda := 1 / 100
  percentualtraining := 120
  lossfunctiontype := 2
  layers := 2
  layervalues :=
    [⟨0, 2, [⟨"INPUT", 0, 0, []⟩, ⟨"INPUT", 0, 0, []⟩]⟩,
      ⟨3, 1, [⟨"OUTPUT", 2, 0, [1, 2]⟩]⟩]

/--
The output layer of the copy never ends: freeing the copy uses freed memory,
and encoding it does not come back.
-/
theorem CopyNeuralNetwork_singleOutput :
    singleOutput.build.content = .ok singleOutput ∧
      singleOutput.build.Consistent ∧
      (∃ copy, CopyNeuralNetwork singleOutput.build = .ok copy ∧
        copy.content = .error .endlessLoop ∧
        encodeModel 0 0 copy = .error .endlessLoop ∧
        freeNeuralNetwork copy = .error .useAfterFree) ∧
      ¬ ∃ copy, CopyNeuralNetwork singleOutput.build = .ok copy ∧
        Usable singleOutput copy := by
  have copied := CopyNeuralNetwork_of_content singleOutput.content_build
  refine ⟨singleOutput.content_build, singleOutput.consistent_build,
    ⟨_, copied, ?_, ?_, ?_⟩, ?_⟩
  · decide +kernel
  · rfl
  · decide +kernel
  · rintro ⟨copy, finishes, usable⟩
    have forward := usable.frees
    rw [Exec.result_unique finishes copied, freeNeuralNetwork_copy] at forward
    exact forward (by decide)

end FederatedEdge.Server
