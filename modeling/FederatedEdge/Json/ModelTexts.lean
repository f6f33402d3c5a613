import FederatedEdge.Json.BracketedTexts
import FederatedEdge.Json.Trees

/-!
# Models through a text

The text of a model is parsed to a tree of the same model, except that a weight
may have become another double.  The decoders store floats, and the float is the
one which was printed.  So the client gets the very model which the server holds,
through the text as through the tree.
-/

namespace FederatedEdge.Json

open FederatedEdge.Library
open FederatedEdge.Network
open FederatedEdge.Server

/-! ## Numbers of a model -/

/-- The value which is read for a `float`. -/
def rereadValue (value : ℚ) : ℚ :=
  if isFloat : IsFloat value then
    match reread isFloat.toDouble with
    | .finite read => read.value
    | _ => 0
  else 0

theorem rereadsNumber_float {value : ℚ} (isFloat : IsFloat value) :
    RereadsNumber value (rereadValue value) := by
  rcases reread_float isFloat with ⟨read, same, -⟩
  refine ⟨isFloat.toDouble, read, rfl, ?_, same⟩
  rw [rereadValue, dif_pos isFloat, same]

/-- Storing what was read gives the `float` which was written. -/
theorem round_rereadValue {value : ℚ} (isFloat : IsFloat value) :
    binary32.round (rereadValue value) = value := by
  rcases reread_float isFloat with ⟨read, same, rounded⟩
  rw [rereadValue, dif_pos isFloat, same]
  exact rounded

/-- Every `int` is a double. -/
theorem exists_finite_of_isInt {value : ℤ} (isInt : IsInt value) :
    ∃ number : Finite, number.value = value := by
  unfold IsInt INT_MIN INT_MAX at isInt
  have small : |value| < 2 ^ 53 := by
    rw [abs_lt]
    omega
  have representable : binary64.Representable (value : ℚ) :=
    ⟨value, 0, small, by decide, by rw [zpow_zero, mul_one]⟩
  have bounded : |(value : ℚ)| < 2 ^ binary64.limit := by
    have cast : |(value : ℚ)| < 2 ^ (53 : ℤ) := by
      rw [← Int.cast_abs]
      exact_mod_cast small
    exact cast.trans (zpow_lt_zpow_right₀ one_lt_two (by decide))
  exact ⟨⟨value, representable.round_self, bounded⟩, rfl⟩

theorem rereadsNumber_int {value : ℤ} (isInt : IsInt value) :
    RereadsNumber (value : ℚ) (value : ℚ) := by
  rcases exists_finite_of_isInt isInt with ⟨number, same⟩
  exact ⟨number, number, same, same, reread_of_isInt isInt same⟩

/-! ## The values of a model -/

/-- The fields of a neuron have their C types. -/
structure NeuronContent.Writable (content : NeuronContent ℚ) : Prop where
  neurontype : nul ∉ content.neurontype.toList
  short : content.neurontype.toList.length < neurontypeSize
  weights : IsInt content.weights
  bias : IsFloat content.bias
  weightvalues : ∀ weight ∈ content.weightvalues, IsFloat weight

/-- The fields of a layer and of its neurons have their C types. -/
structure LayerContent.Writable (content : LayerContent ℚ) : Prop where
  activationfunctiontype : IsInt content.activationfunctiontype
  neurons : IsInt content.neurons
  neuronvalues : ∀ neuron ∈ content.neuronvalues, NeuronContent.Writable neuron

/-- The fields of a network have their C types. -/
structure NetworkContent.Writable (content : NetworkContent ℚ) : Prop where
  epoch : IsInt content.epoch
  alpha : IsFloat content.alpha
  regularization : IsInt content.regularization
  lambda : IsFloat content.lambda
  percentualtraining : IsInt content.percentualtraining
  lossfunctiontype : IsInt content.lossfunctiontype
  layers : IsInt content.layers
  layervalues : ∀ layer ∈ content.layervalues, LayerContent.Writable layer

theorem rereads_neuron {content : NeuronContent ℚ}
    (writable : NeuronContent.Writable content) :
    Rereads (NeuronContent.toJson content)
      (NeuronContent.toJson (NeuronContent.rounded rereadValue content)) := by
  have weights : List.Forall₂ Rereads (content.weightvalues.map .number)
      ((content.weightvalues.map rereadValue).map .number) := by
    rw [List.map_map, List.forall₂_map_left_iff, List.forall₂_map_right_iff,
      List.forall₂_same]
    exact fun weight member =>
      .number (rereadsNumber_float (writable.weightvalues weight member))
  exact .object
    (.cons (.mk (by decide) (.string writable.neurontype))
      (.cons (.mk (by decide) (.number (rereadsNumber_int writable.weights)))
        (.cons (.mk (by decide) (.number (rereadsNumber_float writable.bias)))
          (.cons (.mk (by decide) (.array weights)) .nil))))

theorem rereads_layer {content : LayerContent ℚ}
    (writable : LayerContent.Writable content) :
    Rereads (LayerContent.toJson content)
      (LayerContent.toJson (LayerContent.rounded rereadValue content)) := by
  have neurons : List.Forall₂ Rereads
      (content.neuronvalues.map NeuronContent.toJson)
      ((content.neuronvalues.map (NeuronContent.rounded rereadValue)).map
        NeuronContent.toJson) := by
    rw [List.map_map, List.forall₂_map_left_iff, List.forall₂_map_right_iff,
      List.forall₂_same]
    exact fun neuron member => rereads_neuron (writable.neuronvalues neuron member)
  exact .object
    (.cons (.mk (by decide)
        (.number (rereadsNumber_int writable.activationfunctiontype)))
      (.cons (.mk (by decide) (.number (rereadsNumber_int writable.neurons)))
        (.cons (.mk (by decide) (.array neurons)) .nil)))

/-- A content with its floats as they are read. -/
def NetworkContent.reread (content : NetworkContent ℚ) : NetworkContent ℚ :=
  { content with
    alpha := rereadValue content.alpha
    lambda := rereadValue content.lambda
    layervalues := content.layervalues.map (LayerContent.rounded rereadValue) }

theorem rereads_modelToJson {globalmodelstatus trainingscounter : ℤ}
    {content : NetworkContent ℚ} (statusIsInt : IsInt globalmodelstatus)
    (counterIsInt : IsInt trainingscounter)
    (writable : NetworkContent.Writable content) :
    Rereads (modelToJson globalmodelstatus trainingscounter content)
      (modelToJson globalmodelstatus trainingscounter
        (NetworkContent.reread content)) := by
  have layers : List.Forall₂ Rereads
      (content.layervalues.map LayerContent.toJson)
      ((content.layervalues.map (LayerContent.rounded rereadValue)).map
        LayerContent.toJson) := by
    rw [List.map_map, List.forall₂_map_left_iff, List.forall₂_map_right_iff,
      List.forall₂_same]
    exact fun layer member => rereads_layer (writable.layervalues layer member)
  exact .object
    (.cons (.mk (by decide) (.number (rereadsNumber_int statusIsInt)))
    (.cons (.mk (by decide) (.number (rereadsNumber_int counterIsInt)))
    (.cons (.mk (by decide) (.object
      (.cons (.mk (by decide) (.number (rereadsNumber_int writable.epoch)))
      (.cons (.mk (by decide) (.number (rereadsNumber_float writable.alpha)))
      (.cons (.mk (by decide) (.number (rereadsNumber_int writable.regularization)))
      (.cons (.mk (by decide) (.number (rereadsNumber_float writable.lambda)))
      (.cons (.mk (by decide)
        (.number (rereadsNumber_int writable.percentualtraining)))
      (.cons (.mk (by decide)
        (.number (rereadsNumber_int writable.lossfunctiontype)))
      (.cons (.mk (by decide) (.number (rereadsNumber_int writable.layers)))
      (.cons (.mk (by decide) (.array layers)) .nil)))))))))) .nil)))

/-! ## The text of a model -/

/-- The characters of the text which `cJSON_Print` returns for a model. -/
def modelCharacters (globalmodelstatus trainingscounter : ℤ)
    (content : NetworkContent ℚ) : List Char :=
  ((modelToJson globalmodelstatus trainingscounter content).toItem.text true).characters

theorem nesting_neuron (content : NeuronContent ℚ) :
    (NeuronContent.toJson content).toItem.nesting ≤ 2 := by
  have weights : (CJson.array (content.weightvalues.map .number)).toItem.nesting ≤ 1 := by
    rw [CJson.nesting_array_le_iff, List.forall_mem_map]
    exact ⟨one_pos, fun _ _ => Nat.zero_le _⟩
  rw [NeuronContent.toJson, CJson.nesting_object_le_iff]
  simp only [List.forall_mem_cons]
  exact ⟨two_pos, Nat.zero_le _, Nat.zero_le _, Nat.zero_le _, weights,
    List.forall_mem_nil _⟩

theorem nesting_layer (content : LayerContent ℚ) :
    (LayerContent.toJson content).toItem.nesting ≤ 4 := by
  have neurons : (CJson.array
      (content.neuronvalues.map NeuronContent.toJson)).toItem.nesting ≤ 3 := by
    rw [CJson.nesting_array_le_iff, List.forall_mem_map]
    exact ⟨by norm_num, fun neuron _ => nesting_neuron neuron⟩
  rw [LayerContent.toJson, CJson.nesting_object_le_iff]
  simp only [List.forall_mem_cons]
  exact ⟨by norm_num, Nat.zero_le _, Nat.zero_le _, neurons, List.forall_mem_nil _⟩

theorem nesting_model (globalmodelstatus trainingscounter : ℤ)
    (content : NetworkContent ℚ) :
    (modelToJson globalmodelstatus trainingscounter content).toItem.nesting ≤ 7 := by
  have layers : (CJson.array
      (content.layervalues.map LayerContent.toJson)).toItem.nesting ≤ 5 := by
    rw [CJson.nesting_array_le_iff, List.forall_mem_map]
    exact ⟨by norm_num, fun layer _ => nesting_layer layer⟩
  rw [modelToJson, CJson.nesting_object_le_iff]
  simp only [List.forall_mem_cons]
  refine ⟨by norm_num, Nat.zero_le _, Nat.zero_le _, ?_, List.forall_mem_nil _⟩
  rw [CJson.nesting_object_le_iff]
  simp only [List.forall_mem_cons]
  exact ⟨by norm_num, Nat.zero_le _, Nat.zero_le _, Nat.zero_le _, Nat.zero_le _,
    Nat.zero_le _, Nat.zero_le _, Nat.zero_le _, layers, List.forall_mem_nil _⟩

/-- What is parsed from the text of a model. -/
theorem parseTree_modelCharacters {globalmodelstatus trainingscounter : ℤ}
    {content : NetworkContent ℚ} (statusIsInt : IsInt globalmodelstatus)
    (counterIsInt : IsInt trainingscounter)
    (writable : NetworkContent.Writable content) :
    parseTree (modelCharacters globalmodelstatus trainingscounter content) =
      some (modelToJson globalmodelstatus trainingscounter
        (NetworkContent.reread content)) := by
  apply Item.Reads.parseTree_text (rereads_modelToJson statusIsInt counterIsInt writable)
  exact (nesting_model _ _ _).trans (by decide)

/-- No type text of the network has a brace in it. -/
def NetworkContent.BraceFree (content : NetworkContent ℚ) : Prop :=
  ∀ layer ∈ content.layervalues, ∀ neuron ∈ layer.neuronvalues,
    Json.BraceFree neuron.neurontype.toList

theorem NeuronContent.Writable.representable {content : NeuronContent ℚ}
    (writable : NeuronContent.Writable content) :
    NeuronContent.Representable binary32.round content :=
  ⟨writable.short, writable.weights, writable.bias.1, fun weight member =>
    (writable.weightvalues weight member).1⟩

theorem LayerContent.Writable.representable {content : LayerContent ℚ}
    (writable : LayerContent.Writable content) :
    LayerContent.Representable binary32.round content :=
  ⟨writable.activationfunctiontype, writable.neurons, fun neuron member =>
    (writable.neuronvalues neuron member).representable⟩

/-- What is writable is representable with the floats of the machine. -/
theorem NetworkContent.Writable.representable {content : NetworkContent ℚ}
    (writable : NetworkContent.Writable content) :
    NetworkContent.Representable binary32.round content :=
  ⟨writable.epoch, writable.alpha.1, writable.regularization, writable.lambda.1,
    writable.percentualtraining, writable.lossfunctiontype, writable.layers,
    fun layer member => (writable.layervalues layer member).representable⟩

theorem LayerContent.Writable.storable {content : LayerContent ℚ}
    (writable : LayerContent.Writable content) : LayerContent.Storable content :=
  writable.representable.storable

theorem LayerContent.Storable.rounded {toFloat : ℚ → ℚ} {content : LayerContent ℚ}
    (storable : LayerContent.Storable content) :
    LayerContent.Storable (LayerContent.rounded toFloat content) :=
  ⟨storable.activationfunctiontype, storable.neurons,
    List.forall_mem_map.mpr fun neuron member =>
      ⟨(storable.neuronvalues neuron member).neurontype,
        (storable.neuronvalues neuron member).weights⟩⟩

/-- Rounding what was read is rounding what was written. -/
theorem NeuronContent.Writable.rounded_reread {content : NeuronContent ℚ}
    (writable : NeuronContent.Writable content) :
    NeuronContent.rounded binary32.round
        (NeuronContent.rounded rereadValue content) =
      NeuronContent.rounded binary32.round content := by
  have weights :
      (content.weightvalues.map rereadValue).map binary32.round =
        content.weightvalues.map binary32.round := by
    rw [List.map_map]
    apply List.map_congr_left
    intro weight member
    have isFloat := writable.weightvalues weight member
    exact (round_rereadValue isFloat).trans isFloat.1.symm
  rw [NeuronContent.rounded, NeuronContent.rounded, NeuronContent.rounded]
  dsimp only
  rw [weights, round_rereadValue writable.bias, writable.bias.1]

theorem LayerContent.Writable.rounded_reread {content : LayerContent ℚ}
    (writable : LayerContent.Writable content) :
    LayerContent.rounded binary32.round
        (LayerContent.rounded rereadValue content) =
      LayerContent.rounded binary32.round content := by
  have neurons :
      (content.neuronvalues.map (NeuronContent.rounded rereadValue)).map
          (NeuronContent.rounded binary32.round) =
        content.neuronvalues.map (NeuronContent.rounded binary32.round) := by
    rw [List.map_map]
    exact List.map_congr_left fun neuron member =>
      (writable.neuronvalues neuron member).rounded_reread
  rw [LayerContent.rounded, LayerContent.rounded, LayerContent.rounded]
  dsimp only
  rw [neurons]

/--
The decoders make the same of the text of a model as of its tree, if they find
the same activation function types.
-/
theorem decodeModel_text {globalmodelstatus trainingscounter : ℤ}
    {content : NetworkContent ℚ} {activation : CJson → Option ℤ}
    (statusIsInt : IsInt globalmodelstatus) (counterIsInt : IsInt trainingscounter)
    (writable : NetworkContent.Writable content)
    (sameActivation : ∀ layer ∈ content.layervalues,
      activation (LayerContent.toJson (LayerContent.rounded rereadValue layer)) =
        activation (LayerContent.toJson layer)) :
    (parseTree (modelCharacters globalmodelstatus trainingscounter content)).bind
        (decodeModel binary32.round activation) =
      decodeModel binary32.round activation
        (modelToJson globalmodelstatus trainingscounter content) := by
  have layers :
      (content.layervalues.map (LayerContent.rounded rereadValue)).map
          (fun layer =>
            decodeLayer binary32.round activation (LayerContent.toJson layer)) =
        content.layervalues.map fun layer =>
          decodeLayer binary32.round activation (LayerContent.toJson layer) := by
    rw [List.map_map]
    apply List.map_congr_left
    intro layer member
    have whole := writable.layervalues layer member
    show decodeLayer _ _ (LayerContent.toJson (LayerContent.rounded rereadValue layer)) = _
    rw [decodeLayer_toJson _ _ whole.storable.rounded,
      decodeLayer_toJson _ _ whole.storable, whole.rounded_reread,
      sameActivation layer member]
  rw [parseTree_modelCharacters statusIsInt counterIsInt writable, Option.bind_some,
    decodeModel_fields, decodeModel_fields, NetworkContent.reread]
  dsimp only
  rw [layers, round_rereadValue writable.alpha, round_rereadValue writable.lambda,
    writable.alpha.1, writable.lambda.1]

/-- The server makes the same of the text of a model as of its tree. -/
theorem server_decodes_text {globalmodelstatus trainingscounter : ℤ}
    {content : NetworkContent ℚ} (statusIsInt : IsInt globalmodelstatus)
    (counterIsInt : IsInt trainingscounter)
    (writable : NetworkContent.Writable content) :
    (parseTree (modelCharacters globalmodelstatus trainingscounter content)).bind
        (Server.JSONToFederatedLearning binary32.round) =
      Server.JSONToFederatedLearning binary32.round
        (modelToJson globalmodelstatus trainingscounter content) :=
  decodeModel_text statusIsInt counterIsInt writable fun _ _ => rfl

/-- So does the client. -/
theorem client_decodes_text {globalmodelstatus trainingscounter : ℤ}
    {content : NetworkContent ℚ} (statusIsInt : IsInt globalmodelstatus)
    (counterIsInt : IsInt trainingscounter)
    (writable : NetworkContent.Writable content) :
    (parseTree (modelCharacters globalmodelstatus trainingscounter content)).bind
        (Client.JSONToFederatedLearning binary32.round) =
      Client.JSONToFederatedLearning binary32.round
        (modelToJson globalmodelstatus trainingscounter content) := by
  refine decodeModel_text statusIsInt counterIsInt writable fun layer member => ?_
  have storable := (writable.layervalues layer member).storable
  rw [activation_toJson storable.rounded, activation_toJson storable]
  rfl

theorem NetworkContent.Writable.rounded {content : NetworkContent ℚ}
    (writable : NetworkContent.Writable content) :
    NetworkContent.rounded binary32.round content = content := by
  have layers :
      content.layervalues.map (LayerContent.rounded binary32.round) =
        content.layervalues := by
    rw [List.map_congr_left (g := id) fun layer member =>
      (writable.layervalues layer member).representable.rounded, List.map_id]
  rw [NetworkContent.rounded, valueint_intCast writable.epoch,
    valueint_intCast writable.regularization,
    valueint_intCast writable.percentualtraining,
    valueint_intCast writable.lossfunctiontype, writable.alpha.1,
    writable.lambda.1, layers]

/-- The client rebuilds from the text the model which was printed. -/
theorem client_reads_text {globalmodelstatus trainingscounter : ℤ}
    {content : NetworkContent ℚ} (statusIsInt : IsInt globalmodelstatus)
    (counterIsInt : IsInt trainingscounter)
    (writable : NetworkContent.Writable content) :
    (parseTree (modelCharacters globalmodelstatus trainingscounter content)).bind
        (Client.JSONToFederatedLearning binary32.round) =
      some
        { globalmodelstatus := globalmodelstatus
          trainingscounter := trainingscounter
          neuralnetwork := some content.build.decoded } := by
  have storable : NetworkContent.Storable content :=
    ⟨writable.layers, fun layer member =>
      (writable.layervalues layer member).storable⟩
  rw [client_decodes_text statusIsInt counterIsInt writable,
    client_rebuilds _ _ _ storable, writable.rounded, valueint_intCast statusIsInt,
    valueint_intCast counterIsInt]

end FederatedEdge.Json
