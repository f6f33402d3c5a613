import FederatedEdge.Json.RoundTrip

/-!
# Trees which carry a complete model

A tree carries a complete model of a shape when it has all the items which the
aggregation depends on: the training counter, the network with its number of
layers, and for each layer, neuron and weight of the shape an item with the
numbers in it.  The server decodes such a tree to a complete model, and what a
client encodes is such a tree.
-/

namespace FederatedEdge.Json

open FederatedEdge.Library
open FederatedEdge.Network

namespace CJson

/-- The item is a number. -/
def IsNumber (json : CJson) : Prop :=
  ∃ value, json = .number value

/-- The object has a number under the name. -/
def HasNumber (json : CJson) (name : String) : Prop :=
  ∃ value, cJSON_GetObjectItem json name = some (.number value)

/-- The object has an array under the name whose elements satisfy a condition. -/
def HasArray (json : CJson) (name : String) (condition : List CJson → Prop) :
    Prop :=
  ∃ child, cJSON_GetObjectItem json name = some (.array child) ∧ condition child

/-- A bias, and as many weights as the shape has. -/
def CompleteNeuron (weights : ℕ) (json : CJson) : Prop :=
  json.HasNumber "bias" ∧
    json.HasArray "weightsArray" fun child =>
      child.length = weights ∧ ∀ weight ∈ child, weight.IsNumber

/-- As many complete neurons as the shape has, in its order. -/
def CompleteLayer (neurons : List ℕ) (json : CJson) : Prop :=
  json.HasArray "neuronsArray" (List.Forall₂ CompleteNeuron neurons)

/-- A number of layers, and as many complete layers as the shape has. -/
def CompleteNetwork (shape : Shape) (json : CJson) : Prop :=
  json.HasNumber "layers" ∧
    json.HasArray "layersArray" (List.Forall₂ CompleteLayer shape)

/-- An object with a training counter and a complete network object. -/
def CompleteModel (shape : Shape) (json : CJson) : Prop :=
  json.HasNumber "trainingscounter" ∧
    ∃ child, cJSON_GetObjectItem json "neuralnetwork" = some (.object child) ∧
      CompleteNetwork shape (.object child)

end CJson

variable (toFloat : ℚ → ℚ) (activation : CJson → Option ℤ) {json : CJson}
  {name : String}

theorem intField_isSome (holds : json.HasNumber name) :
    ∃ value, intField json name = some value := by
  rcases holds with ⟨number, item⟩
  exact ⟨valueint number, by rw [intField, item]⟩

theorem floatField_isSome (holds : json.HasNumber name) :
    (floatField toFloat json name).isSome := by
  rcases holds with ⟨number, item⟩
  rw [floatField, item]
  rfl

/-- The array is what the decoder iterates over. -/
theorem arrayField_of_hasArray {condition : List CJson → Prop}
    (holds : json.HasArray name condition) :
    ∃ child, arrayField json name = some child ∧ condition child := by
  rcases holds with ⟨child, item, satisfied⟩
  exact ⟨child, by rw [arrayField, item], satisfied⟩

/-- The elements of an array under the name; without an array there are none. -/
def CJson.elements (json : CJson) (name : String) : List CJson :=
  (arrayField json name).getD []

theorem elements_of_arrayField {child : List CJson}
    (array : arrayField json name = some child) : json.elements name = child := by
  rw [CJson.elements, array, Option.getD_some]

theorem weightlist_decodeNeuron (json : CJson) :
    (decodeNeuron toFloat json).weightlist =
      LinkedList.ofList
        ((json.elements "weightsArray").map fun weight =>
          toFloat weight.valuedouble) :=
  LinkedList.foldl_append_apply _ _

theorem neuronlist_decodeLayer (json : CJson) :
    (decodeLayer toFloat activation json).neuronlist =
      LinkedList.ofList
        ((json.elements "neuronsArray").map (decodeNeuron toFloat)) :=
  LinkedList.foldl_append_apply _ _

theorem decodeLayers_eq {child : List CJson} {count : ℤ}
    (number : intField json "layers" = some count)
    (array : arrayField json "layersArray" = some child) :
    decodeLayers toFloat activation json =
      some (LinkedList.ofList (child.map (decodeLayer toFloat activation))) := by
  rw [decodeLayers, number, array]
  exact congrArg some (LinkedList.foldl_append_apply _ _)

/-- What holds of related elements holds of all, and the others are determined. -/
theorem forall₂_split {α β : Type} {S : α → β → Prop} {Q : β → Prop}
    {f : β → α} {left : List α} {right : List β}
    (related : List.Forall₂ S left right)
    (each : ∀ a b, S a b → Q b ∧ f b = a) :
    (∀ b ∈ right, Q b) ∧ right.map f = left := by
  induction related with
  | nil => exact ⟨fun _ member => (List.not_mem_nil member).elim, rfl⟩
  | cons head _ inductionHypothesis =>
      rcases each _ _ head with ⟨holds, determined⟩
      exact ⟨List.forall_mem_cons.mpr ⟨holds, inductionHypothesis.1⟩,
        by rw [List.map_cons, determined, inductionHypothesis.2]⟩

/-- A complete neuron is decoded to a readable one of its length. -/
theorem decodeNeuron_complete {weights : ℕ}
    (complete : json.CompleteNeuron weights) :
    (decodeNeuron toFloat json).Readable ∧
      (decodeNeuron toFloat json).parameters.2.length = weights := by
  rcases complete with ⟨bias, weightsArray⟩
  rcases arrayField_of_hasArray weightsArray with ⟨child, array, sameLength, -⟩
  have weightlist := weightlist_decodeNeuron toFloat json
  rw [elements_of_arrayField array] at weightlist
  refine ⟨⟨floatField_isSome toFloat bias, ?_⟩, ?_⟩
  · rw [weightlist]
    exact LinkedList.forward_ofList _
  · rw [DecodedNeuron.parameters, weightlist, LinkedList.values_ofList,
      List.length_map]
    exact sameLength

theorem decodeLayer_complete {neurons : List ℕ}
    (complete : json.CompleteLayer neurons) :
    (decodeLayer toFloat activation json).Readable ∧
      (decodeLayer toFloat activation json).parameters.map
        (fun neuron => neuron.2.length) = neurons := by
  rcases arrayField_of_hasArray complete with ⟨child, array, related⟩
  have neuronlist := neuronlist_decodeLayer toFloat activation json
  rw [elements_of_arrayField array] at neuronlist
  rcases forall₂_split related
      (fun weights neuron => decodeNeuron_complete toFloat)
    with ⟨readable, lengths⟩
  refine ⟨⟨?_, ?_⟩, ?_⟩
  · rw [neuronlist]
    exact LinkedList.forward_ofList _
  · rw [neuronlist, LinkedList.values_ofList]
    exact List.forall_mem_map.mpr readable
  · rw [DecodedLayer.parameters, neuronlist, LinkedList.values_ofList,
      List.map_map, List.map_map]
    exact lengths

/-- A complete network is decoded to a readable one of its shape. -/
theorem decodeNetwork_complete {shape : Shape}
    (complete : json.CompleteNetwork shape) :
    (decodeNetwork toFloat activation json).Readable ∧
      (decodeNetwork toFloat activation json).parameters.shape = shape := by
  rcases complete with ⟨layers, layersArray⟩
  rcases intField_isSome layers with ⟨count, number⟩
  rcases arrayField_of_hasArray layersArray with ⟨child, array, related⟩
  have layerlist :
      (decodeNetwork toFloat activation json).layerlist = _ :=
    decodeLayers_eq toFloat activation number array
  rcases forall₂_split related
      (fun neurons layer => decodeLayer_complete toFloat activation)
    with ⟨readable, lengths⟩
  refine ⟨⟨_, layerlist, LinkedList.forward_ofList _, ?_⟩, ?_⟩
  · rw [LinkedList.values_ofList]
    exact List.forall_mem_map.mpr readable
  · rw [DecodedNetwork.parameters, layerlist, Option.getD_some,
      LinkedList.values_ofList, Parameters.shape, List.map_map, List.map_map]
    exact lengths

/-- A complete tree is decoded to a complete model. -/
theorem decodeModel_complete {shape : Shape}
    (complete : json.CompleteModel shape) :
    ∃ model, decodeModel toFloat activation json = some model ∧
      model.Complete shape := by
  rcases complete with ⟨-, network, item, completeNetwork⟩
  cases json with
  | object child =>
      refine ⟨_, rfl, decodeNetwork toFloat activation (.object network), ?_,
        decodeNetwork_complete toFloat activation completeNetwork⟩
      show (objectField (.object child) "neuralnetwork").map _ = _
      rw [objectField, item]
      rfl
  | null => cases item
  | bool value => cases item
  | number value => cases item
  | string value => cases item
  | array child => cases item

/-! ## What the encoders write -/

/-- The numbers of weights by layer and neuron. -/
def NetworkContent.shape (content : NetworkContent ℚ) : Shape :=
  content.layervalues.map fun layer =>
    layer.neuronvalues.map fun neuron => neuron.weightvalues.length

theorem completeNeuron_toJson (content : NeuronContent ℚ) :
    (NeuronContent.toJson content).CompleteNeuron
      content.weightvalues.length := by
  constructor
  · refine ⟨content.bias, ?_⟩
    simp (disch := decide) only [NeuronContent.toJson, getObjectItem_head,
      getObjectItem_tail]
  · refine ⟨content.weightvalues.map .number, ?_, ?_⟩
    · simp (disch := decide) only [NeuronContent.toJson, getObjectItem_head,
        getObjectItem_tail]
    · refine ⟨List.length_map _, ?_⟩
      intro weight member
      rcases List.mem_map.mp member with ⟨value, -, rfl⟩
      exact ⟨value, rfl⟩

theorem completeLayer_toJson (content : LayerContent ℚ) :
    (LayerContent.toJson content).CompleteLayer
      (content.neuronvalues.map fun neuron => neuron.weightvalues.length) := by
  refine ⟨content.neuronvalues.map NeuronContent.toJson, ?_, ?_⟩
  · simp (disch := decide) only [LayerContent.toJson, getObjectItem_head,
      getObjectItem_tail]
  · rw [List.forall₂_map_left_iff, List.forall₂_map_right_iff,
      List.forall₂_same]
    exact fun neuron _ => completeNeuron_toJson neuron

/-- The tree of every content is complete, whatever its numbers are. -/
theorem completeModel_modelToJson (globalmodelstatus trainingscounter : ℤ)
    (content : NetworkContent ℚ) :
    (modelToJson globalmodelstatus trainingscounter content).CompleteModel
      (NetworkContent.shape content) := by
  constructor
  · refine ⟨trainingscounter, ?_⟩
    simp (disch := decide) only [modelToJson, getObjectItem_head,
      getObjectItem_tail]
  · refine ⟨_,
      (getObjectItem_tail _ _ (by decide)).trans
        ((getObjectItem_tail _ _ (by decide)).trans
          (getObjectItem_head _ _ (by decide))),
      ⟨content.layers, ?_⟩,
      content.layervalues.map LayerContent.toJson, ?_, ?_⟩
    · simp (disch := decide) only [getObjectItem_head, getObjectItem_tail]
    · simp (disch := decide) only [getObjectItem_head, getObjectItem_tail]
    · rw [NetworkContent.shape, List.forall₂_map_left_iff,
        List.forall₂_map_right_iff, List.forall₂_same]
      exact fun layer _ => completeLayer_toJson layer

end FederatedEdge.Json
