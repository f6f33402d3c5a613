import FederatedEdge.Client.NeuralNetworkTraining
import FederatedEdge.Json.CompleteModel
import FederatedEdge.Network.Runnable

/-!
# What a client takes for a global model

The client decodes what it has downloaded, asks again as long as the decoder
returns null, and trains whatever else it gets.  The decoder returns null for
anything but an object.  For an object it replaces a missing status or training
counter by zero, while any other item may be missing, of another type or at odds
with the array it counts, and leaves a field unassigned or a wrong count.

A tree is runnable when all items are there and all counts are right.  Exactly
these objects decode to a model on which both loops of the training finish.
-/

namespace FederatedEdge.Json

open FederatedEdge.Library
open FederatedEdge.Network

/-! ## Runnable trees -/

namespace CJson

/-- The object has a string under the name. -/
def HasString (json : CJson) (name : String) : Prop :=
  ∃ text, cJSON_GetObjectItem json name = some (.string text)

/-- The object has the number of elements of an array under the name. -/
def HasCount (json : CJson) (name array : String) : Prop :=
  ∃ number, cJSON_GetObjectItem json name = some (.number number) ∧
    valueint number = (json.elements array).length

structure RunnableNeuron (json : CJson) : Prop where
  neurontype : json.HasString "neurontype"
  weights : json.HasCount "weights" "weightsArray"
  bias : json.HasNumber "bias"

structure RunnableLayer (json : CJson) : Prop where
  activationfunctiontype : json.HasNumber "activationfunctiontype"
  neurons : json.HasCount "neurons" "neuronsArray"
  neuronsArray : ∀ neuron ∈ json.elements "neuronsArray", neuron.RunnableNeuron

/-- One weight in each neuron for each neuron of the layer below. -/
def Feeds (lower upper : CJson) : Prop :=
  ∀ neuron ∈ upper.elements "neuronsArray",
    (neuron.elements "weightsArray").length =
      (lower.elements "neuronsArray").length

structure RunnableNetwork (json : CJson) : Prop where
  epoch : json.HasNumber "epoch"
  alpha : json.HasNumber "alpha"
  regularization : json.HasNumber "regularization"
  lambda : json.HasNumber "lambda"
  percentualtraining : json.HasNumber "percentualtraining"
  lossfunctiontype : json.HasNumber "lossfunctiontype"
  layers : json.HasCount "layers" "layersArray"
  nonempty : json.elements "layersArray" ≠ []
  layersArray : ∀ layer ∈ json.elements "layersArray", layer.RunnableLayer
  fed : (json.elements "layersArray").IsChain Feeds

/-- No object at all, or one with a runnable network. -/
def RunnableModel : CJson → Prop
  | .object child =>
      ∃ network,
        cJSON_GetObjectItem (.object child) "neuralnetwork" =
            some (.object network) ∧
          (CJson.object network).RunnableNetwork
  | _ => True

end CJson

/-! ## Items and fields -/

variable (toFloat : ℚ → ℚ) {json : CJson} {name : String}

theorem intField_eq_iff {value : ℤ} :
    intField json name = some value ↔
      ∃ number, cJSON_GetObjectItem json name = some (.number number) ∧
        valueint number = value := by
  rw [intField]
  rcases cJSON_GetObjectItem json name with _ | (_ | _ | _ | _ | _ | _) <;>
    simp

theorem intField_isSome_iff :
    (intField json name).isSome ↔ json.HasNumber name := by
  rw [Option.isSome_iff_exists]
  simp only [intField_eq_iff, CJson.HasNumber]
  constructor
  · rintro ⟨_, number, item, -⟩
    exact ⟨number, item⟩
  · rintro ⟨number, item⟩
    exact ⟨valueint number, number, item, rfl⟩

theorem floatField_isSome_iff :
    (floatField toFloat json name).isSome ↔ json.HasNumber name := by
  rw [floatField, CJson.HasNumber]
  rcases cJSON_GetObjectItem json name with _ | (_ | _ | _ | _ | _ | _) <;>
    simp

theorem neurontypeField_isSome_iff :
    (neurontypeField json name).isSome ↔ json.HasString name := by
  rw [neurontypeField, CJson.HasString]
  rcases cJSON_GetObjectItem json name with _ | (_ | _ | _ | _ | _ | _) <;>
    simp

/-! ## What is decoded to something runnable -/

theorem runnable_decodeNeuron_iff :
    (decodeNeuron toFloat json).Runnable ↔ json.RunnableNeuron := by
  have weightlist := weightlist_decodeNeuron toFloat json
  have counted :
      (decodeNeuron toFloat json).weights =
          some ((decodeNeuron toFloat json).weightlist.values.length : ℤ) ↔
        json.HasCount "weights" "weightsArray" := by
    rw [weightlist, LinkedList.values_ofList, List.length_map]
    exact intField_eq_iff
  constructor
  · intro runnable
    exact ⟨neurontypeField_isSome_iff.mp runnable.neurontype,
      counted.mp runnable.weights,
      (floatField_isSome_iff toFloat).mp runnable.bias⟩
  · intro runnable
    refine ⟨neurontypeField_isSome_iff.mpr runnable.neurontype,
      counted.mpr runnable.weights,
      (floatField_isSome_iff toFloat).mpr runnable.bias, ?_⟩
    rw [weightlist]
    exact LinkedList.forward_ofList _

/-- The decoder of the client for one layer. -/
def clientLayer (layerElement : CJson) : DecodedLayer ℚ :=
  decodeLayer toFloat
    (fun layerElement => intField layerElement "activationfunctiontype")
    layerElement

theorem values_clientLayer (json : CJson) :
    (clientLayer toFloat json).neuronlist.values =
      (json.elements "neuronsArray").map (decodeNeuron toFloat) := by
  rw [clientLayer, neuronlist_decodeLayer, LinkedList.values_ofList]

theorem runnable_clientLayer_iff :
    (clientLayer toFloat json).Runnable ↔ json.RunnableLayer := by
  have counted :
      (clientLayer toFloat json).neurons =
          some ((clientLayer toFloat json).neuronlist.values.length : ℤ) ↔
        json.HasCount "neurons" "neuronsArray" := by
    rw [values_clientLayer, List.length_map]
    exact intField_eq_iff
  have neurons :
      (∀ neuron ∈ (clientLayer toFloat json).neuronlist.values,
          neuron.Runnable) ↔
        ∀ neuron ∈ json.elements "neuronsArray", neuron.RunnableNeuron := by
    rw [values_clientLayer, List.forall_mem_map]
    simp only [runnable_decodeNeuron_iff]
  constructor
  · intro runnable
    exact ⟨intField_isSome_iff.mp runnable.activationfunctiontype,
      counted.mp runnable.neurons, neurons.mp runnable.neuronvalues⟩
  · intro runnable
    refine ⟨intField_isSome_iff.mpr runnable.activationfunctiontype,
      counted.mpr runnable.neurons, ?_, neurons.mpr runnable.neuronsArray⟩
    rw [clientLayer, neuronlist_decodeLayer]
    exact LinkedList.forward_ofList _

theorem feeds_clientLayer_iff (lower upper : CJson) :
    (clientLayer toFloat lower).Feeds (clientLayer toFloat upper) ↔
      lower.Feeds upper := by
  rw [DecodedLayer.Feeds, values_clientLayer, values_clientLayer,
    List.forall_mem_map, List.length_map, CJson.Feeds]
  simp only [weightlist_decodeNeuron, LinkedList.values_ofList,
    List.length_map]

theorem runnableLayers_iff (layers : List CJson) :
    RunnableLayers (LinkedList.ofList (layers.map (clientLayer toFloat))) ↔
      layers ≠ [] ∧ (∀ layer ∈ layers, layer.RunnableLayer) ∧
        layers.IsChain CJson.Feeds := by
  have fed :
      (layers.map (clientLayer toFloat)).IsChain DecodedLayer.Feeds ↔
        layers.IsChain CJson.Feeds := by
    rw [List.isChain_map]
    exact List.IsChain.iff (feeds_clientLayer_iff toFloat)
  have each :
      (∀ layer ∈ layers.map (clientLayer toFloat), layer.Runnable) ↔
        ∀ layer ∈ layers, layer.RunnableLayer := by
    rw [List.forall_mem_map]
    simp only [runnable_clientLayer_iff]
  have values := LinkedList.values_ofList (layers.map (clientLayer toFloat))
  constructor
  · rintro ⟨-, nonempty, runnable, chained⟩
    rw [values] at nonempty runnable chained
    refine ⟨?_, each.mp runnable, fed.mp chained⟩
    rintro rfl
    exact nonempty rfl
  · rintro ⟨nonempty, runnable, chained⟩
    refine ⟨LinkedList.forward_ofList _, ?_, ?_, ?_⟩
    · rw [values]
      exact mt List.map_eq_nil_iff.mp nonempty
    · rw [values]
      exact each.mpr runnable
    · rw [values]
      exact fed.mpr chained

/-- The network as the client decodes it. -/
def clientNetwork (neuralNetworkItem : CJson) : DecodedNetwork ℚ :=
  decodeNetwork toFloat
    (fun layerElement => intField layerElement "activationfunctiontype")
    neuralNetworkItem

/-- The layers are there when their number and their array are. -/
theorem layerlist_clientNetwork_iff {layerlist : LinkedList (DecodedLayer ℚ)} :
    (clientNetwork toFloat json).layerlist = some layerlist ↔
      (intField json "layers").isSome ∧
        (arrayField json "layersArray").isSome ∧
          layerlist =
            LinkedList.ofList
              ((json.elements "layersArray").map (clientLayer toFloat)) := by
  rcases number : intField json "layers" with _ | count
  · simp [clientNetwork, decodeNetwork, decodeLayers, number]
  rcases array : arrayField json "layersArray" with _ | child
  · simp [clientNetwork, decodeNetwork, decodeLayers, number, array]
  have decoded : (clientNetwork toFloat json).layerlist = _ :=
    decodeLayers_eq toFloat _ number array
  rw [decoded, elements_of_arrayField array, Option.some.injEq]
  exact ⟨fun same => ⟨rfl, rfl, same.symm⟩, fun same => same.2.2.symm⟩

theorem runnable_clientNetwork_iff :
    (clientNetwork toFloat json).Runnable ↔ json.RunnableNetwork := by
  have counted (layerlist : LinkedList (DecodedLayer ℚ))
      (isList :
        layerlist =
          LinkedList.ofList
            ((json.elements "layersArray").map (clientLayer toFloat))) :
      (clientNetwork toFloat json).layers =
          some (layerlist.values.length : ℤ) ↔
        json.HasCount "layers" "layersArray" := by
    rw [isList, LinkedList.values_ofList, List.length_map]
    exact intField_eq_iff
  constructor
  · intro runnable
    rcases runnable.layers with ⟨layerlist, assigned, count, layers⟩
    have isList := ((layerlist_clientNetwork_iff toFloat).mp assigned).2.2
    rw [isList, runnableLayers_iff] at layers
    exact
      { epoch := intField_isSome_iff.mp runnable.epoch
        alpha := (floatField_isSome_iff toFloat).mp runnable.alpha
        regularization := intField_isSome_iff.mp runnable.regularization
        lambda := (floatField_isSome_iff toFloat).mp runnable.lambda
        percentualtraining :=
          intField_isSome_iff.mp runnable.percentualtraining
        lossfunctiontype := intField_isSome_iff.mp runnable.lossfunctiontype
        layers := (counted layerlist isList).mp count
        nonempty := layers.1
        layersArray := layers.2.1
        fed := layers.2.2 }
  · intro runnable
    have number : (intField json "layers").isSome := by
      rcases runnable.layers with ⟨number, item, -⟩
      exact intField_isSome_iff.mpr ⟨number, item⟩
    have array : (arrayField json "layersArray").isSome := by
      rw [Option.isSome_iff_ne_none]
      intro missing
      apply runnable.nonempty
      rw [CJson.elements, missing]
      rfl
    exact
      { epoch := intField_isSome_iff.mpr runnable.epoch
        alpha := (floatField_isSome_iff toFloat).mpr runnable.alpha
        regularization := intField_isSome_iff.mpr runnable.regularization
        lambda := (floatField_isSome_iff toFloat).mpr runnable.lambda
        percentualtraining :=
          intField_isSome_iff.mpr runnable.percentualtraining
        lossfunctiontype := intField_isSome_iff.mpr runnable.lossfunctiontype
        layers :=
          ⟨_, (layerlist_clientNetwork_iff toFloat).mpr ⟨number, array, rfl⟩,
            (counted _ rfl).mpr runnable.layers,
            (runnableLayers_iff toFloat _).mpr
              ⟨runnable.nonempty, runnable.layersArray, runnable.fed⟩⟩ }

theorem objectField_eq_iff {object : CJson} :
    objectField json name = some object ↔
      ∃ child, cJSON_GetObjectItem json name = some (.object child) ∧
        object = .object child := by
  rw [objectField]
  rcases cJSON_GetObjectItem json name with _ | (_ | _ | _ | _ | _ | _) <;>
    simp [eq_comm]

/-- What is not null decodes to a runnable model exactly for a runnable tree. -/
theorem runnable_decoded_iff (json : CJson) :
    (∀ model, Client.JSONToFederatedLearning toFloat json = some model →
        model.Runnable) ↔
      json.RunnableModel := by
  cases json with
  | object child =>
      have network :
          (objectField (.object child) "neuralnetwork").map
                (decodeNetwork toFloat _) =
              (objectField (.object child) "neuralnetwork").map
                (clientNetwork toFloat) := rfl
      rw [Client.JSONToFederatedLearning, decodeModel]
      simp only [Option.some.injEq, forall_eq', DecodedModel.Runnable, network,
        Option.map_eq_some_iff, objectField_eq_iff, CJson.RunnableModel]
      constructor
      · rintro ⟨_, ⟨_, ⟨network, item, rfl⟩, rfl⟩, runnable⟩
        exact ⟨network, item, (runnable_clientNetwork_iff toFloat).mp runnable⟩
      · rintro ⟨network, item, runnable⟩
        exact ⟨_, ⟨_, ⟨network, item, rfl⟩, rfl⟩,
          (runnable_clientNetwork_iff toFloat).mpr runnable⟩
  | _ => simp [Client.JSONToFederatedLearning, decodeModel, CJson.RunnableModel]

end FederatedEdge.Json

namespace FederatedEdge.Client

open FederatedEdge.Library
open FederatedEdge.Network
open FederatedEdge.Json

/-! ## Training a runnable model -/

variable {R : Type}

theorem formsConnected_of_runnable {lower upper : Layer R}
    (runnable : upper.decoded.Runnable)
    (feeds : lower.decoded.Feeds upper.decoded) :
    FormsConnected lower.read.form upper.read.form := by
  intro form member
  rw [LayerContent.form, Layer.read, List.map_map] at member
  rcases List.mem_map.mp member with ⟨neuron, isNeuron, rfl⟩
  have decodedMember :
      neuron.decoded ∈ upper.decoded.neuronlist.values := by
    rw [Layer.values_decoded]
    exact List.mem_map_of_mem isNeuron
  have counted :=
    ((Neuron.runnable_decoded_iff neuron).mp
      (runnable.neuronvalues _ decodedMember)).1
  have connected := feeds _ decodedMember
  rw [Layer.values_decoded, List.length_map] at connected
  constructor
  · show neuron.weights = ((neuron.weightlist.values.map _).length : ℤ)
    rw [List.length_map]
    exact counted
  · show (neuron.weightlist.values.map _).length =
      ((lower.neuronlist.values.map Neuron.read).map _).length
    rw [List.length_map, List.length_map, List.length_map]
    exact connected

/-- A runnable network is well-formed when it is trained. -/
theorem wellFormed_training {network : NeuralNetwork R}
    (runnable : network.decoded.Runnable) (activation : ℕ → ℕ → R) :
    (training network.read activation).WellFormed := by
  rcases runnable.layers with ⟨_, assigned, counted, layers⟩
  cases assigned
  rw [NeuralNetwork.values_decoded, List.length_map] at counted
  have each := layers.layervalues
  have fed := layers.fed
  rw [NeuralNetwork.values_decoded] at each fed
  rw [List.isChain_map] at fed
  rw [wellFormed_iff_forms, forms_training]
  refine ⟨?_, ?_, ?_⟩
  · show network.layers =
      (((network.layerlist.values.map Layer.read).map _).length : ℤ)
    rw [List.length_map, List.length_map]
    exact Option.some.inj counted
  · intro form member
    rw [NetworkContent.forms, NeuralNetwork.read, List.map_map] at member
    rcases List.mem_map.mp member with ⟨layer, isLayer, rfl⟩
    have neurons := (each _ (List.mem_map_of_mem isLayer)).neurons
    rw [Layer.values_decoded, List.length_map] at neurons
    show layer.neurons =
      (((layer.neuronlist.values.map Neuron.read).map _).length : ℤ)
    rw [List.length_map, List.length_map]
    exact Option.some.inj neurons
  · rw [NetworkContent.forms, NeuralNetwork.read, List.map_map,
      List.isChain_map]
    refine fed.imp_of_mem_imp fun lower upper _ isLayer feeds => ?_
    exact formsConnected_of_runnable (each _ (List.mem_map_of_mem isLayer)) feeds

/-- A runnable network has a first layer and a last one. -/
theorem trainable_training {network : NeuralNetwork R}
    (runnable : network.decoded.Runnable) (activation : ℕ → ℕ → R) :
    ∃ inputs outputs,
      Trainable (training network.read activation) inputs outputs := by
  have nonempty : (training network.read activation).widths ≠ [] := by
    rcases runnable.layers with ⟨_, assigned, -, layers⟩
    cases assigned
    have nonempty := layers.nonempty
    rw [NeuralNetwork.values_decoded] at nonempty
    rw [widths_eq_forms, forms_training, NetworkContent.forms,
      NeuralNetwork.read, List.map_map, List.map_map]
    exact mt List.map_eq_nil_iff.mp (mt List.map_eq_nil_iff.mpr nonempty)
  exact ⟨_, _, wellFormed_training runnable activation,
    List.head?_eq_some_head nonempty, List.getLast?_eq_some_getLast nonempty⟩

section Training

variable (exp log : ℚ → ℚ) (strtof : List Char → ℚ) (stray : ℕ → ℚ)

/--
The training finishes with the network of the model, whatever its files contain
and whatever the activation values are.
-/
def TrainingRuns (model : DecodedModel ℚ) : Prop :=
  ∃ network : NeuralNetwork ℚ,
    model.neuralnetwork = some network.decoded ∧
      ∀ (storage : Storage) (activation : ℕ → ℕ → ℚ)
        (federatedlearninginstance : LearningInstance ℚ),
        ∃ trained,
          NeuralNetworkTraining exp log strtof stray storage
              (replaceNeuralNetwork federatedlearninginstance
                (training network.read activation)) [] =
            .ok trained

theorem trainingRuns_of_runnable {model : DecodedModel ℚ}
    (runnable : model.Runnable) : TrainingRuns exp log strtof stray model := by
  rcases runnable with ⟨decoded, assigned, runnable⟩
  rcases runnable.exists_network with ⟨network, rfl⟩
  refine ⟨network, assigned, ?_⟩
  intro storage activation federatedlearninginstance
  rcases trainable_training runnable activation
    with ⟨inputs, outputs, trainable⟩
  have training :
      Yields
        (NeuralNetworkTraining exp log strtof stray storage
          (replaceNeuralNetwork federatedlearninginstance
            (training network.read activation))) _ _ :=
    yields_NeuralNetworkTraining exp log strtof stray storage trainable
  rcases training [] with ⟨trained, accesses, runs, -, -⟩
  exact ⟨(trained, _), runs⟩

/--
For any tree, what the client does not reject is fully assigned with right
counts, and its training finishes, exactly when the tree is runnable.
-/
theorem decoded_models_run_iff (toFloat : ℚ → ℚ) (json : CJson) :
    (∀ model, JSONToFederatedLearning toFloat json = some model →
        model.Runnable ∧ TrainingRuns exp log strtof stray model) ↔
      json.RunnableModel := by
  rw [← runnable_decoded_iff toFloat]
  constructor
  · intro runs model decodes
    exact (runs model decodes).1
  · intro runnable model decodes
    exact ⟨runnable model decodes,
      trainingRuns_of_runnable exp log strtof stray (runnable model decodes)⟩

end Training

/-- The empty object is taken for a model whose network pointer is unassigned. -/
theorem empty_object_is_taken :
    ∃ model, JSONToFederatedLearning id (.object []) = some model ∧
      ¬ model.Runnable := by
  refine ⟨_, rfl, ?_⟩
  rintro ⟨network, assigned, -⟩
  cases assigned

end FederatedEdge.Client
