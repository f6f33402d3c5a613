import FederatedEdge.Json.Converter
import FederatedEdge.Network.Content

/-!
# Decoding what was encoded

Encoding only reads the content of a network, so the encoded tree is a
function of the content.  Decoding that tree builds the consistently linked
network of the same content, as far as the decoder reads it: the decoder of
the client reads everything, the decoder of the server leaves the activation
function type of every layer unassigned.
-/

namespace FederatedEdge.Json

open FederatedEdge.Library
open FederatedEdge.Network

/-! ## The tree of a content -/

/-- The tree of a neuron. -/
def NeuronContent.toJson (content : NeuronContent ℚ) : CJson :=
  .object
    [("neurontype", .string content.neurontype),
      ("weights", .number content.weights),
      ("bias", .number content.bias),
      ("weightsArray", .array (content.weightvalues.map .number))]

/-- The tree of a layer. -/
def LayerContent.toJson (content : LayerContent ℚ) : CJson :=
  .object
    [("activationfunctiontype", .number content.activationfunctiontype),
      ("neurons", .number content.neurons),
      ("neuronsArray",
        .array (content.neuronvalues.map NeuronContent.toJson))]

/-- The tree of a model with the given network content. -/
def modelToJson (globalmodelstatus trainingscounter : ℤ)
    (content : NetworkContent ℚ) : CJson :=
  .object
    [("globalmodelstatus", .number globalmodelstatus),
      ("trainingscounter", .number trainingscounter),
      ("neuralnetwork", .object
        [("epoch", .number content.epoch),
          ("alpha", .number content.alpha),
          ("regularization", .number content.regularization),
          ("lambda", .number content.lambda),
          ("percentualtraining", .number content.percentualtraining),
          ("lossfunctiontype", .number content.lossfunctiontype),
          ("layers", .number content.layers),
          ("layersArray",
            .array (content.layervalues.map LayerContent.toJson))])]

theorem encodeNeuron_eq
    {neuron : Neuron ℚ} {content : NeuronContent ℚ}
    (holds : neuron.content = .ok content) :
    encodeNeuron neuron = .ok (NeuronContent.toJson content) := by
  simp only [Neuron.content, Exec.bind_eq_ok, Except.ok.injEq] at holds
  rcases holds with ⟨weightvalues, walk, rfl⟩
  have collected :
      weightvalues.foldlM encodeWeight [] =
        (.ok (weightvalues.map .number) : Exec (List CJson)) := by
    have turns :
        List.Forall₂
          (fun weight result => (.ok (.number weight) : Exec CJson) = .ok result)
          weightvalues (weightvalues.map .number) := by
      simp [List.forall₂_map_right_iff, List.forall₂_same]
    have run := Exec.foldlM_collect turns []
    simp only [Exec.ok_bind, List.nil_append] at run
    exact run
  rw [encodeNeuron, LinkedList.fold_of_toList _ _ _ walk, collected]
  rfl

theorem encodeLayer_eq
    {layer : Layer ℚ} {content : LayerContent ℚ}
    (holds : layer.content = .ok content) :
    encodeLayer layer = .ok (LayerContent.toJson content) := by
  simp only [Layer.content, Exec.bind_eq_ok, Except.ok.injEq] at holds
  rcases holds with ⟨neurons, walk, neuronvalues, contents, rfl⟩
  have turns :
      List.Forall₂
        (fun neuron result => encodeNeuron neuron = .ok result)
        neurons (neuronvalues.map NeuronContent.toJson) := by
    rw [List.forall₂_map_right_iff]
    exact (Exec.mapM_eq_ok_iff.mp contents).imp fun _ _ => encodeNeuron_eq
  rw [encodeLayer, LinkedList.fold_of_toList _ _ _ walk,
    Exec.foldlM_collect turns []]
  rfl

/-- The encoders read nothing but the content of a network. -/
theorem encodeModel_eq
    {network : NeuralNetwork ℚ} {content : NetworkContent ℚ}
    (globalmodelstatus trainingscounter : ℤ)
    (holds : network.content = .ok content) :
    encodeModel globalmodelstatus trainingscounter network =
      .ok (modelToJson globalmodelstatus trainingscounter content) := by
  simp only [NeuralNetwork.content, Exec.bind_eq_ok,
    Except.ok.injEq] at holds
  rcases holds with ⟨layers, walk, layervalues, contents, rfl⟩
  have turns :
      List.Forall₂
        (fun layer result => encodeLayer layer = .ok result)
        layers (layervalues.map LayerContent.toJson) := by
    rw [List.forall₂_map_right_iff]
    exact (Exec.mapM_eq_ok_iff.mp contents).imp fun _ _ => encodeLayer_eq
  rw [encodeModel, LinkedList.fold_of_toList _ _ _ walk,
    Exec.foldlM_collect turns []]
  rfl

/-! ## Values of the C types -/

/-- The fields of a neuron fit their C types, and its type text is short. -/
structure NeuronContent.Representable
    (toFloat : ℚ → ℚ) (content : NeuronContent ℚ) : Prop where
  neurontype : content.neurontype.toList.length < neurontypeSize
  weights : IsInt content.weights
  bias : toFloat content.bias = content.bias
  weightvalues : ∀ weight ∈ content.weightvalues, toFloat weight = weight

/-- The fields of a layer and of its neurons fit their C types. -/
structure LayerContent.Representable
    (toFloat : ℚ → ℚ) (content : LayerContent ℚ) : Prop where
  activationfunctiontype : IsInt content.activationfunctiontype
  neurons : IsInt content.neurons
  neuronvalues :
    ∀ neuron ∈ content.neuronvalues,
      NeuronContent.Representable toFloat neuron

/-- The fields of a network fit their C types. -/
structure NetworkContent.Representable
    (toFloat : ℚ → ℚ) (content : NetworkContent ℚ) : Prop where
  epoch : IsInt content.epoch
  alpha : toFloat content.alpha = content.alpha
  regularization : IsInt content.regularization
  lambda : toFloat content.lambda = content.lambda
  percentualtraining : IsInt content.percentualtraining
  lossfunctiontype : IsInt content.lossfunctiontype
  layers : IsInt content.layers
  layervalues :
    ∀ layer ∈ content.layervalues, LayerContent.Representable toFloat layer

/-- The integers of a neuron fit their C types, and its type text is short. -/
structure NeuronContent.Storable (content : NeuronContent ℚ) : Prop where
  neurontype : content.neurontype.toList.length < neurontypeSize
  weights : IsInt content.weights

/-- The integers of a layer and of its neurons fit their C types. -/
structure LayerContent.Storable (content : LayerContent ℚ) : Prop where
  activationfunctiontype : IsInt content.activationfunctiontype
  neurons : IsInt content.neurons
  neuronvalues :
    ∀ neuron ∈ content.neuronvalues, NeuronContent.Storable neuron

/-- The integers of the layers of a network fit their C types. -/
structure NetworkContent.Storable (content : NetworkContent ℚ) : Prop where
  layers : IsInt content.layers
  layervalues : ∀ layer ∈ content.layervalues, LayerContent.Storable layer

/-- A neuron as a decoder stores it, with its floats rounded. -/
def NeuronContent.rounded (toFloat : ℚ → ℚ) (content : NeuronContent ℚ) :
    NeuronContent ℚ :=
  { content with
    bias := toFloat content.bias
    weightvalues := content.weightvalues.map toFloat }

/-- A layer as a decoder stores it, with its floats rounded. -/
def LayerContent.rounded (toFloat : ℚ → ℚ) (content : LayerContent ℚ) :
    LayerContent ℚ :=
  { content with
    neuronvalues := content.neuronvalues.map (NeuronContent.rounded toFloat) }

section Representable

variable {toFloat : ℚ → ℚ}

theorem NeuronContent.Representable.storable {content : NeuronContent ℚ}
    (representable : NeuronContent.Representable toFloat content) :
    NeuronContent.Storable content :=
  ⟨representable.neurontype, representable.weights⟩

theorem NeuronContent.Representable.rounded {content : NeuronContent ℚ}
    (representable : NeuronContent.Representable toFloat content) :
    NeuronContent.rounded toFloat content = content := by
  have weights : content.weightvalues.map toFloat = content.weightvalues := by
    rw [List.map_congr_left (g := id) representable.weightvalues, List.map_id]
  rw [NeuronContent.rounded, representable.bias, weights]

theorem LayerContent.Representable.storable {content : LayerContent ℚ}
    (representable : LayerContent.Representable toFloat content) :
    LayerContent.Storable content :=
  ⟨representable.activationfunctiontype, representable.neurons,
    fun neuron member =>
      (representable.neuronvalues neuron member).storable⟩

/-- Rounding changes nothing in what is representable. -/
theorem LayerContent.Representable.rounded {content : LayerContent ℚ}
    (representable : LayerContent.Representable toFloat content) :
    LayerContent.rounded toFloat content = content := by
  have neurons :
      content.neuronvalues.map (NeuronContent.rounded toFloat) =
        content.neuronvalues := by
    rw [List.map_congr_left (g := id) fun neuron member =>
      (representable.neuronvalues neuron member).rounded, List.map_id]
  rw [LayerContent.rounded, neurons]

end Representable

/-! ## Decoding the tree of a content -/

theorem strncpyNeurontype_of_short
    {text : String} (short : text.toList.length < neurontypeSize) :
    strncpyNeurontype text = text := by
  rw [strncpyNeurontype, List.take_of_length_le (le_of_lt short),
    String.ofList_toList]

theorem decodeWeights_toJson (toFloat : ℚ → ℚ) (weightvalues : List ℚ) :
    decodeWeights toFloat (weightvalues.map .number) =
      LinkedList.ofList (weightvalues.map toFloat) := by
  rw [decodeWeights, LinkedList.foldl_append_map]
  rfl

theorem decodeNeuron_toJson
    (toFloat : ℚ → ℚ) {content : NeuronContent ℚ}
    (storable : NeuronContent.Storable content) :
    decodeNeuron toFloat (NeuronContent.toJson content) =
      (NeuronContent.rounded toFloat content).build.decoded := by
  have neurontype :
      neurontypeField (NeuronContent.toJson content) "neurontype" =
        some content.neurontype := by
    rw [← strncpyNeurontype_of_short storable.neurontype]
    simp (disch := decide) only [neurontypeField, NeuronContent.toJson,
      getObjectItem_head]
  have weights :
      intField (NeuronContent.toJson content) "weights" =
        some content.weights := by
    simp (disch := decide) only [intField, NeuronContent.toJson,
      getObjectItem_head, getObjectItem_tail,
      valueint_intCast storable.weights]
  have bias :
      floatField toFloat (NeuronContent.toJson content) "bias" =
        some (toFloat content.bias) := by
    simp (disch := decide) only [floatField, NeuronContent.toJson,
      getObjectItem_head, getObjectItem_tail]
  have weightsArray :
      arrayField (NeuronContent.toJson content) "weightsArray" =
        some (content.weightvalues.map .number) := by
    simp (disch := decide) only [arrayField, NeuronContent.toJson,
      getObjectItem_head, getObjectItem_tail]
  simp only [decodeNeuron, neurontype, weights, bias, weightsArray,
    Option.getD_some, decodeWeights_toJson]
  rfl

/-- Decoding a layer rebuilds it with rounded floats. -/
theorem decodeLayer_toJson
    (toFloat : ℚ → ℚ) (activation : CJson → Option ℤ)
    {content : LayerContent ℚ} (storable : LayerContent.Storable content) :
    decodeLayer toFloat activation (LayerContent.toJson content) =
      { (LayerContent.rounded toFloat content).build.decoded with
        activationfunctiontype := activation (LayerContent.toJson content) } := by
  have neurons :
      intField (LayerContent.toJson content) "neurons" =
        some content.neurons := by
    simp (disch := decide) only [intField, LayerContent.toJson,
      getObjectItem_head, getObjectItem_tail,
      valueint_intCast storable.neurons]
  have neuronsArray :
      arrayField (LayerContent.toJson content) "neuronsArray" =
        some (content.neuronvalues.map NeuronContent.toJson) := by
    simp (disch := decide) only [arrayField, LayerContent.toJson,
      getObjectItem_head, getObjectItem_tail]
  have decoded :
      content.neuronvalues.map
          (fun neuron => decodeNeuron toFloat (NeuronContent.toJson neuron)) =
        ((content.neuronvalues.map (NeuronContent.rounded toFloat)).map
          NeuronContent.build).map Neuron.decoded := by
    rw [List.map_map, List.map_map]
    exact List.map_congr_left fun neuron member =>
      decodeNeuron_toJson toFloat (storable.neuronvalues neuron member)
  simp only [decodeLayer, neurons, neuronsArray, Option.getD_some,
    LinkedList.foldl_append_map, decoded, Layer.decoded, LayerContent.build,
    LayerContent.rounded, LinkedList.values_ofList]
  rw [LinkedList.withValues_ofList _ _ (by simp)]

/-- The activation function type is in the tree, for those who look. -/
theorem activation_toJson {content : LayerContent ℚ}
    (storable : LayerContent.Storable content) :
    intField (LayerContent.toJson content) "activationfunctiontype" =
      some content.activationfunctiontype := by
  simp (disch := decide) only [intField, LayerContent.toJson,
    getObjectItem_head, valueint_intCast storable.activationfunctiontype]

/-- The decoded layers of an encoded network. -/
def decodedLayers (activation : CJson → Option ℤ)
    (content : NetworkContent ℚ) : LinkedList (DecodedLayer ℚ) :=
  LinkedList.ofList
    (content.layervalues.map fun layer =>
      { layer.build.decoded with
        activationfunctiontype := activation (LayerContent.toJson layer) })

/-- What decoding makes of the fields of any content. -/
theorem decodeModel_fields
    (toFloat : ℚ → ℚ) (activation : CJson → Option ℤ)
    (globalmodelstatus trainingscounter : ℤ) (content : NetworkContent ℚ) :
    decodeModel toFloat activation
        (modelToJson globalmodelstatus trainingscounter content) =
      some
        { globalmodelstatus := valueint globalmodelstatus
          trainingscounter := valueint trainingscounter
          neuralnetwork :=
            some
              { epoch := some (valueint content.epoch)
                alpha := some (toFloat content.alpha)
                regularization := some (valueint content.regularization)
                lambda := some (toFloat content.lambda)
                percentualtraining := some (valueint content.percentualtraining)
                lossfunctiontype := some (valueint content.lossfunctiontype)
                layers := some (valueint content.layers)
                layerlist :=
                  some (LinkedList.ofList
                    (content.layervalues.map fun layer =>
                      decodeLayer toFloat activation
                        (LayerContent.toJson layer))) } } := by
  rw [← LinkedList.foldl_append_map]
  simp (disch := decide) only [decodeModel, modelToJson, decodeNetwork,
    decodeLayers, intField, floatField, arrayField, objectField,
    getObjectItem_head, getObjectItem_tail, Option.getD_some,
    Option.map_some]
  rfl

/-- Decoding rebuilds the content, with the activation types it looks up. -/
theorem decodeModel_toJson
    {toFloat : ℚ → ℚ} (activation : CJson → Option ℤ)
    {globalmodelstatus trainingscounter : ℤ}
    {content : NetworkContent ℚ}
    (statusIsInt : IsInt globalmodelstatus)
    (counterIsInt : IsInt trainingscounter)
    (representable : NetworkContent.Representable toFloat content) :
    decodeModel toFloat activation
        (modelToJson globalmodelstatus trainingscounter content) =
      some
        { globalmodelstatus := globalmodelstatus
          trainingscounter := trainingscounter
          neuralnetwork :=
            some
              { content.build.decoded with
                layerlist := some (decodedLayers activation content) } } := by
  have layers :
      content.layervalues.map
          (fun layer =>
            decodeLayer toFloat activation (LayerContent.toJson layer)) =
        content.layervalues.map fun layer =>
          { layer.build.decoded with
            activationfunctiontype :=
              activation (LayerContent.toJson layer) } :=
    List.map_congr_left fun layer member => by
      have whole := representable.layervalues layer member
      rw [decodeLayer_toJson toFloat activation whole.storable, whole.rounded]
  rw [decodeModel_fields, layers, valueint_intCast statusIsInt,
    valueint_intCast counterIsInt,
    valueint_intCast representable.epoch, representable.alpha,
    valueint_intCast representable.regularization, representable.lambda,
    valueint_intCast representable.percentualtraining,
    valueint_intCast representable.lossfunctiontype,
    valueint_intCast representable.layers]
  rfl

/-- A content as the client stores it. -/
def NetworkContent.rounded (toFloat : ℚ → ℚ) (content : NetworkContent ℚ) :
    NetworkContent ℚ where
  epoch := valueint content.epoch
  alpha := toFloat content.alpha
  regularization := valueint content.regularization
  lambda := toFloat content.lambda
  percentualtraining := valueint content.percentualtraining
  lossfunctiontype := valueint content.lossfunctiontype
  layers := content.layers
  layervalues := content.layervalues.map (LayerContent.rounded toFloat)

/-- The client rebuilds every encoded network, with its floats rounded. -/
theorem client_rebuilds (toFloat : ℚ → ℚ)
    (globalmodelstatus trainingscounter : ℤ) {content : NetworkContent ℚ}
    (storable : NetworkContent.Storable content) :
    Client.JSONToFederatedLearning toFloat
        (modelToJson globalmodelstatus trainingscounter content) =
      some
        { globalmodelstatus := valueint globalmodelstatus
          trainingscounter := valueint trainingscounter
          neuralnetwork :=
            some (NetworkContent.rounded toFloat content).build.decoded } := by
  have layers :
      content.layervalues.map
          (fun layer =>
            decodeLayer toFloat
              (fun layerElement =>
                intField layerElement "activationfunctiontype")
              (LayerContent.toJson layer)) =
        ((content.layervalues.map (LayerContent.rounded toFloat)).map
          LayerContent.build).map Layer.decoded := by
    rw [List.map_map, List.map_map]
    apply List.map_congr_left
    intro layer member
    have whole := storable.layervalues layer member
    rw [decodeLayer_toJson toFloat _ whole, activation_toJson whole]
    rfl
  rw [Client.JSONToFederatedLearning, decodeModel_fields, layers,
    valueint_intCast storable.layers]
  simp only [NeuralNetwork.decoded, NetworkContent.build,
    NetworkContent.rounded, LinkedList.values_ofList]
  rw [LinkedList.withValues_ofList _ _ (by simp)]

/-! ## From the server to the client and back -/

/--
A decoder recovers a model from its encoding: all fields are assigned, the
scalars are the same, and the network has the same content.
-/
def Recovers (decode : CJson → Option (DecodedModel ℚ)) (encoded : Exec CJson)
    (globalmodelstatus trainingscounter : ℤ) (network rebuilt : NeuralNetwork ℚ) :
    Prop :=
  ∃ json,
    encoded = .ok json ∧
      decode json =
        some
          { globalmodelstatus := globalmodelstatus
            trainingscounter := trainingscounter
            neuralnetwork := some rebuilt.decoded } ∧
      rebuilt.content = network.content

/--
The client recovers every model which the server encodes, and the lists it
builds have consistent links at every level.
-/
theorem client_recovers_server
    (toFloat : ℚ → ℚ) (server : Server.FederatedLearning)
    (content : NetworkContent ℚ)
    (terminated : server.neuralnetwork.content = .ok content)
    (representable : NetworkContent.Representable toFloat content)
    (statusIsInt : IsInt server.globalmodelstatus)
    (counterIsInt : IsInt server.trainingscounter) :
    ∃ rebuilt : NeuralNetwork ℚ,
      Recovers (Client.JSONToFederatedLearning toFloat)
          (Server.FederatedLearningToJSON server)
          server.globalmodelstatus server.trainingscounter
          server.neuralnetwork rebuilt ∧
        rebuilt.Consistent := by
  have layers :
      decodedLayers
          (fun layerElement => intField layerElement "activationfunctiontype")
          content =
        (LinkedList.ofList (content.layervalues.map LayerContent.build)).withValues
          ((content.layervalues.map LayerContent.build).map Layer.decoded) := by
    rw [LinkedList.withValues_ofList _ _ (by simp), List.map_map,
      decodedLayers]
    congr 1
    apply List.map_congr_left
    intro layer member
    rw [activation_toJson (representable.layervalues layer member).storable]
    rfl
  refine ⟨content.build, ⟨_, encodeModel_eq _ _ terminated, ?_, ?_⟩,
    content.consistent_build⟩
  · rw [Client.JSONToFederatedLearning,
      decodeModel_toJson _ statusIsInt counterIsInt representable, layers]
    simp only [NeuralNetwork.decoded, NetworkContent.build,
      LinkedList.values_ofList]
  · rw [content.content_build, terminated]

/-- A model of two layers with two neurons each. -/
def sampleContent : NetworkContent ℚ where
  epoch := 8
  alpha := 1 / 1000
  regularization := 2
  lambda := 1 / 100
  percentualtraining := 120
  lossfunctiontype := 2
  layers := 2
  layervalues :=
    [⟨0, 2, [⟨"INPUT", 0, 0, []⟩, ⟨"INPUT", 0, 0, []⟩]⟩,
      ⟨4, 2, [⟨"OUTPUT", 2, 1 / 2, [1, -1 / 4]⟩,
        ⟨"OUTPUT", 2, -1, [3 / 8, 0]⟩]⟩]

theorem sampleContent_representable :
    NetworkContent.Representable id sampleContent := by
  have neuron : ∀ (content : NeuronContent ℚ),
      content.neurontype.toList.length < neurontypeSize →
        IsInt content.weights →
          NeuronContent.Representable id content :=
    fun _ short isInt => ⟨short, isInt, rfl, fun _ _ => rfl⟩
  refine ⟨by decide, rfl, by decide, rfl, by decide, by decide, by decide, ?_⟩
  intro layer member
  simp only [sampleContent, List.mem_cons, List.not_mem_nil, or_false] at member
  rcases member with rfl | rfl
  · refine ⟨by decide, by decide, ?_⟩
    intro content member
    simp only [List.mem_cons, List.not_mem_nil, or_false, or_self] at member
    subst member
    exact neuron _ (by decide) (by decide)
  · refine ⟨by decide, by decide, ?_⟩
    intro content member
    simp only [List.mem_cons, List.not_mem_nil, or_false] at member
    rcases member with rfl | rfl
    · exact neuron _ (by decide) (by decide)
    · exact neuron _ (by decide) (by decide)

/-- A server in its first round. -/
def sampleServer : Server.FederatedLearning where
  globalmodelstatus := 1
  trainingscounter := 0
  neuralnetwork := sampleContent.build
  nodecontrol :=
    { currentinteraction := 0
      interactioncycle := 11
      clientnodes := 1
      clientnodesregistered := 0
      neuralnetwork := sampleContent.build
      nodelist := LinkedList.empty }

theorem client_recovers_server_sample :
    ∃ rebuilt : NeuralNetwork ℚ,
      Recovers (Client.JSONToFederatedLearning id)
          (Server.FederatedLearningToJSON sampleServer)
          1 0 sampleContent.build rebuilt ∧
        rebuilt.Consistent :=
  client_recovers_server id sampleServer sampleContent
    sampleContent.content_build sampleContent_representable
    (by decide) (by decide)

/-! ## From the client to the server -/

/-- The server recovers no model with layers: their type is unassigned. -/
theorem not_recovers_of_layer
    {toFloat : ℚ → ℚ} (client : Client.FederatedLearning)
    {content : NetworkContent ℚ} {rebuilt : NeuralNetwork ℚ}
    (terminated : client.neuralnetwork.content = .ok content)
    (representable : NetworkContent.Representable toFloat content)
    (statusIsInt : IsInt client.globalmodelstatus)
    (counterIsInt : IsInt client.trainingscounter)
    (hasLayer : content.layervalues ≠ []) :
    ¬ Recovers (Server.JSONToFederatedLearning toFloat)
        (Client.federatedLearningToJSON client)
        client.globalmodelstatus client.trainingscounter
        client.neuralnetwork rebuilt := by
  rintro ⟨json, encoded, decoded, _⟩
  rw [Client.federatedLearningToJSON, encodeModel_eq _ _ terminated,
    Except.ok.injEq] at encoded
  subst encoded
  rw [Server.JSONToFederatedLearning,
    decodeModel_toJson _ statusIsInt counterIsInt representable] at decoded
  have layerlists :
      decodedLayers (fun _ => none) content =
        rebuilt.layerlist.withValues
          (rebuilt.layerlist.values.map Layer.decoded) := by
    simpa [NeuralNetwork.decoded] using
      congrArg
        (fun model : Option (DecodedModel ℚ) =>
          (model.bind DecodedModel.neuralnetwork).bind
            DecodedNetwork.layerlist)
        decoded
  have layers :
      content.layervalues.map
          (fun layer =>
            { layer.build.decoded with activationfunctiontype := none }) =
        rebuilt.layerlist.values.map Layer.decoded := by
    have values := congrArg LinkedList.values layerlists
    rwa [decodedLayers, LinkedList.values_ofList,
      LinkedList.values_withValues _ _ (by simp)] at values
  rcases List.exists_cons_of_ne_nil hasLayer with ⟨first, rest, split⟩
  rw [split] at layers
  cases others : rebuilt.layerlist.values with
  | nil => simp [others] at layers
  | cons layer others' => simp [others, Layer.decoded] at layers

/--
The server recovers exactly the client models without layers.  Its decoder
does not read the activation function type which the client writes.
-/
theorem server_recovers_client_iff
    (toFloat : ℚ → ℚ) (client : Client.FederatedLearning)
    (content : NetworkContent ℚ)
    (terminated : client.neuralnetwork.content = .ok content)
    (representable : NetworkContent.Representable toFloat content)
    (statusIsInt : IsInt client.globalmodelstatus)
    (counterIsInt : IsInt client.trainingscounter) :
    (∃ rebuilt : NeuralNetwork ℚ,
      Recovers (Server.JSONToFederatedLearning toFloat)
        (Client.federatedLearningToJSON client)
        client.globalmodelstatus client.trainingscounter
        client.neuralnetwork rebuilt) ↔
      content.layervalues = [] := by
  constructor
  · rintro ⟨rebuilt, recovers⟩
    by_contra hasLayer
    exact not_recovers_of_layer client terminated representable
      statusIsInt counterIsInt hasLayer recovers
  · intro noLayer
    refine ⟨content.build, _, encodeModel_eq _ _ terminated, ?_, ?_⟩
    · rw [Server.JSONToFederatedLearning,
        decodeModel_toJson _ statusIsInt counterIsInt representable]
      simp [decodedLayers, NeuralNetwork.decoded, NetworkContent.build, noLayer]
      rfl
    · rw [content.content_build, terminated]

/-- A client with the same network and a counter of its training. -/
def sampleClient : Client.FederatedLearning where
  globalmodelstatus := 1
  trainingscounter := 960
  neuralnetwork := sampleContent.build

theorem server_recovers_client_iff_sample :
    (∃ rebuilt : NeuralNetwork ℚ,
      Recovers (Server.JSONToFederatedLearning id)
        (Client.federatedLearningToJSON sampleClient)
        1 960 sampleContent.build rebuilt) ↔
      sampleContent.layervalues = [] :=
  server_recovers_client_iff id sampleClient sampleContent
    sampleContent.content_build sampleContent_representable
    (by decide) (by decide)

/-- The sample model reaches the server without its activation types. -/
theorem server_loses_activation_types :
    ¬ ∃ rebuilt : NeuralNetwork ℚ,
      Recovers (Server.JSONToFederatedLearning id)
        (Client.federatedLearningToJSON sampleClient)
        1 960 sampleContent.build rebuilt := by
  rintro ⟨rebuilt, recovers⟩
  exact not_recovers_of_layer sampleClient
    sampleContent.content_build sampleContent_representable
    (by decide) (by decide) (by simp [sampleContent]) recovers

end FederatedEdge.Json
