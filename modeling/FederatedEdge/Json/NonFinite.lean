import FederatedEdge.Json.ModelTexts

/-!
# Models with numbers which are not finite

A `float` of a model may be infinite or no number, which JSON cannot express: it
is printed as null.  The decoder takes a null among the weights for zero, and
leaves a bias, or a parameter of the training, unassigned.  Nothing is rejected.
-/

namespace FederatedEdge.Json

open FederatedEdge.Library
open FederatedEdge.Network
open FederatedEdge.Server

/-! ## One number -/

/-- A number which a `float` holds, if it is finite at all. -/
def Double.HoldsFloat : Double → Prop
  | .finite number => IsFloat number.value
  | .infinite _ => True
  | .nan => True

/-- What is parsed for a number. -/
def Double.readTree : Double → CJson
  | .finite number => .number (rereadValue number.value)
  | .infinite _ => .null
  | .nan => .null

/-- What is stored for a weight. -/
def Double.weight : Double → ℚ
  | .finite number => number.value
  | .infinite _ => 0
  | .nan => 0

/-- What is stored in a field which is checked to be a number. -/
def Double.assigned : Double → Option ℚ
  | .finite number => some number.value
  | .infinite _ => none
  | .nan => none

theorem reads_double {value : Double} (holdsFloat : value.HoldsFloat) :
    (Item.number value).Reads value.readTree := by
  cases value with
  | finite number =>
      have reads := Rereads.number (rereadsNumber_float holdsFloat)
      rw [Rereads, CJson.toItem, ofRat_value] at reads
      exact reads
  | infinite negative => rfl
  | nan => rfl

theorem reads_int {value : ℤ} (isInt : IsInt value) :
    (Item.number (.ofRat value)).Reads (.number value) :=
  Rereads.number (rereadsNumber_int isInt)

theorem reads_string {text : String} (noNull : nul ∉ text.toList) :
    (Item.string (CString.read text.toList)).Reads (.string text) :=
  Rereads.string noNull

/-- A weight is stored without a check. -/
theorem round_valuedouble_readTree {value : Double} (holdsFloat : value.HoldsFloat) :
    binary32.round value.readTree.valuedouble = value.weight := by
  cases value with
  | finite number => exact round_rereadValue holdsFloat
  | infinite negative => exact binary32.round_zero
  | nan => exact binary32.round_zero

/-- A field which is not a number is left as it is. -/
theorem floatField_readTree {object : CJson} {name : String} {value : Double}
    (found : cJSON_GetObjectItem object name = some value.readTree)
    (holdsFloat : value.HoldsFloat) :
    floatField binary32.round object name = value.assigned := by
  rw [floatField, found]
  cases value with
  | finite number => exact congrArg some (round_rereadValue holdsFloat)
  | infinite negative => rfl
  | nan => rfl

/-! ## The tree of a model -/

/-- The item of a neuron whose floats are any doubles. -/
def NeuronContent.toItem (content : NeuronContent Double) : Item :=
  .object
    [(CString.read "neurontype".toList,
        .string (CString.read content.neurontype.toList)),
      (CString.read "weights".toList, .number (.ofRat content.weights)),
      (CString.read "bias".toList, .number content.bias),
      (CString.read "weightsArray".toList,
        .array (content.weightvalues.map .number))]

/-- The item of a layer whose floats are any doubles. -/
def LayerContent.toItem (content : LayerContent Double) : Item :=
  .object
    [(CString.read "activationfunctiontype".toList,
        .number (.ofRat content.activationfunctiontype)),
      (CString.read "neurons".toList, .number (.ofRat content.neurons)),
      (CString.read "neuronsArray".toList,
        .array (content.neuronvalues.map NeuronContent.toItem))]

/-- The item of a network whose floats are any doubles. -/
def NetworkContent.toItem (content : NetworkContent Double) : Item :=
  .object
    [(CString.read "epoch".toList, .number (.ofRat content.epoch)),
      (CString.read "alpha".toList, .number content.alpha),
      (CString.read "regularization".toList,
        .number (.ofRat content.regularization)),
      (CString.read "lambda".toList, .number content.lambda),
      (CString.read "percentualtraining".toList,
        .number (.ofRat content.percentualtraining)),
      (CString.read "lossfunctiontype".toList,
        .number (.ofRat content.lossfunctiontype)),
      (CString.read "layers".toList, .number (.ofRat content.layers)),
      (CString.read "layersArray".toList,
        .array (content.layervalues.map LayerContent.toItem))]

/-- The item of a model whose floats are any doubles. -/
def modelToItem (globalmodelstatus trainingscounter : ℤ)
    (content : NetworkContent Double) : Item :=
  .object
    [(CString.read "globalmodelstatus".toList, .number (.ofRat globalmodelstatus)),
      (CString.read "trainingscounter".toList, .number (.ofRat trainingscounter)),
      (CString.read "neuralnetwork".toList, NetworkContent.toItem content)]

/-- What is parsed from the text of a neuron. -/
def NeuronContent.readTree (content : NeuronContent Double) : CJson :=
  .object
    [("neurontype", .string content.neurontype),
      ("weights", .number content.weights),
      ("bias", content.bias.readTree),
      ("weightsArray", .array (content.weightvalues.map Double.readTree))]

/-- What is parsed from the text of a layer. -/
def LayerContent.readTree (content : LayerContent Double) : CJson :=
  .object
    [("activationfunctiontype", .number content.activationfunctiontype),
      ("neurons", .number content.neurons),
      ("neuronsArray", .array (content.neuronvalues.map NeuronContent.readTree))]

/-- What is parsed from the text of a network. -/
def NetworkContent.readTree (content : NetworkContent Double) : CJson :=
  .object
    [("epoch", .number content.epoch),
      ("alpha", content.alpha.readTree),
      ("regularization", .number content.regularization),
      ("lambda", content.lambda.readTree),
      ("percentualtraining", .number content.percentualtraining),
      ("lossfunctiontype", .number content.lossfunctiontype),
      ("layers", .number content.layers),
      ("layersArray", .array (content.layervalues.map LayerContent.readTree))]

/-- What is parsed from the text of a model. -/
def modelReadTree (globalmodelstatus trainingscounter : ℤ)
    (content : NetworkContent Double) : CJson :=
  .object
    [("globalmodelstatus", .number globalmodelstatus),
      ("trainingscounter", .number trainingscounter),
      ("neuralnetwork", NetworkContent.readTree content)]

/-! ## The text is parsed to the tree -/

/-- The fields of a neuron have their C types, with any floats. -/
structure NeuronContent.Printable (content : NeuronContent Double) : Prop where
  neurontype : nul ∉ content.neurontype.toList
  short : content.neurontype.toList.length < neurontypeSize
  weights : IsInt content.weights
  bias : content.bias.HoldsFloat
  weightvalues : ∀ weight ∈ content.weightvalues, weight.HoldsFloat

/-- The fields of a layer have their C types, with any floats. -/
structure LayerContent.Printable (content : LayerContent Double) : Prop where
  activationfunctiontype : IsInt content.activationfunctiontype
  neurons : IsInt content.neurons
  neuronvalues :
    ∀ neuron ∈ content.neuronvalues, NeuronContent.Printable neuron

/-- The fields of a network have their C types, with any floats. -/
structure NetworkContent.Printable (content : NetworkContent Double) : Prop where
  epoch : IsInt content.epoch
  alpha : content.alpha.HoldsFloat
  regularization : IsInt content.regularization
  lambda : content.lambda.HoldsFloat
  percentualtraining : IsInt content.percentualtraining
  lossfunctiontype : IsInt content.lossfunctiontype
  layers : IsInt content.layers
  layervalues : ∀ layer ∈ content.layervalues, LayerContent.Printable layer

theorem reads_neuron {content : NeuronContent Double}
    (printable : NeuronContent.Printable content) :
    (NeuronContent.toItem content).Reads (NeuronContent.readTree content) := by
  have weights : List.Forall₂ Item.Reads (content.weightvalues.map .number)
      (content.weightvalues.map Double.readTree) := by
    rw [List.forall₂_map_left_iff, List.forall₂_map_right_iff, List.forall₂_same]
    exact fun weight member => reads_double (printable.weightvalues weight member)
  exact .object
    (.cons (.mk (by decide) (reads_string printable.neurontype))
      (.cons (.mk (by decide) (reads_int printable.weights))
        (.cons (.mk (by decide) (reads_double printable.bias))
          (.cons (.mk (by decide) (.array weights)) .nil))))

theorem reads_layer {content : LayerContent Double}
    (printable : LayerContent.Printable content) :
    (LayerContent.toItem content).Reads (LayerContent.readTree content) := by
  have neurons : List.Forall₂ Item.Reads
      (content.neuronvalues.map NeuronContent.toItem)
      (content.neuronvalues.map NeuronContent.readTree) := by
    rw [List.forall₂_map_left_iff, List.forall₂_map_right_iff, List.forall₂_same]
    exact fun neuron member => reads_neuron (printable.neuronvalues neuron member)
  exact .object
    (.cons (.mk (by decide) (reads_int printable.activationfunctiontype))
      (.cons (.mk (by decide) (reads_int printable.neurons))
        (.cons (.mk (by decide) (.array neurons)) .nil)))

theorem reads_network {content : NetworkContent Double}
    (printable : NetworkContent.Printable content) :
    (NetworkContent.toItem content).Reads (NetworkContent.readTree content) := by
  have layers : List.Forall₂ Item.Reads
      (content.layervalues.map LayerContent.toItem)
      (content.layervalues.map LayerContent.readTree) := by
    rw [List.forall₂_map_left_iff, List.forall₂_map_right_iff, List.forall₂_same]
    exact fun layer member => reads_layer (printable.layervalues layer member)
  exact .object
    (.cons (.mk (by decide) (reads_int printable.epoch))
    (.cons (.mk (by decide) (reads_double printable.alpha))
    (.cons (.mk (by decide) (reads_int printable.regularization))
    (.cons (.mk (by decide) (reads_double printable.lambda))
    (.cons (.mk (by decide) (reads_int printable.percentualtraining))
    (.cons (.mk (by decide) (reads_int printable.lossfunctiontype))
    (.cons (.mk (by decide) (reads_int printable.layers))
    (.cons (.mk (by decide) (.array layers)) .nil))))))))

theorem reads_modelToItem {globalmodelstatus trainingscounter : ℤ}
    {content : NetworkContent Double} (statusIsInt : IsInt globalmodelstatus)
    (counterIsInt : IsInt trainingscounter)
    (printable : NetworkContent.Printable content) :
    (modelToItem globalmodelstatus trainingscounter content).Reads
      (modelReadTree globalmodelstatus trainingscounter content) :=
  .object
    (.cons (.mk (by decide) (reads_int statusIsInt))
    (.cons (.mk (by decide) (reads_int counterIsInt))
    (.cons (.mk (by decide) (reads_network printable)) .nil)))

theorem nesting_neuron_toItem (content : NeuronContent Double) :
    (NeuronContent.toItem content).nesting ≤ 2 := by
  have weights : (Item.array (content.weightvalues.map .number)).nesting ≤ 1 := by
    rw [Item.nesting_array_le_iff, List.forall_mem_map]
    exact ⟨one_pos, fun _ _ => Nat.zero_le _⟩
  rw [NeuronContent.toItem, Item.nesting_object_le_iff]
  simp only [List.forall_mem_cons]
  exact ⟨two_pos, Nat.zero_le _, Nat.zero_le _, Nat.zero_le _, weights,
    List.forall_mem_nil _⟩

theorem nesting_layer_toItem (content : LayerContent Double) :
    (LayerContent.toItem content).nesting ≤ 4 := by
  have neurons :
      (Item.array (content.neuronvalues.map NeuronContent.toItem)).nesting ≤ 3 := by
    rw [Item.nesting_array_le_iff, List.forall_mem_map]
    exact ⟨by norm_num, fun neuron _ => nesting_neuron_toItem neuron⟩
  rw [LayerContent.toItem, Item.nesting_object_le_iff]
  simp only [List.forall_mem_cons]
  exact ⟨by norm_num, Nat.zero_le _, Nat.zero_le _, neurons, List.forall_mem_nil _⟩

theorem nesting_modelToItem (globalmodelstatus trainingscounter : ℤ)
    (content : NetworkContent Double) :
    (modelToItem globalmodelstatus trainingscounter content).nesting ≤ 7 := by
  have layers :
      (Item.array (content.layervalues.map LayerContent.toItem)).nesting ≤ 5 := by
    rw [Item.nesting_array_le_iff, List.forall_mem_map]
    exact ⟨by norm_num, fun layer _ => nesting_layer_toItem layer⟩
  have network : (NetworkContent.toItem content).nesting ≤ 6 := by
    rw [NetworkContent.toItem, Item.nesting_object_le_iff]
    simp only [List.forall_mem_cons]
    exact ⟨by norm_num, Nat.zero_le _, Nat.zero_le _, Nat.zero_le _, Nat.zero_le _,
      Nat.zero_le _, Nat.zero_le _, Nat.zero_le _, layers, List.forall_mem_nil _⟩
  rw [modelToItem, Item.nesting_object_le_iff]
  simp only [List.forall_mem_cons]
  exact ⟨by norm_num, Nat.zero_le _, Nat.zero_le _, network, List.forall_mem_nil _⟩

/-! ## What the server stores -/

/-- The neuron which the server builds from the text. -/
def NeuronContent.received (content : NeuronContent Double) : DecodedNeuron ℚ where
  neurontype := some content.neurontype
  weights := some content.weights
  bias := content.bias.assigned
  weightlist := LinkedList.ofList (content.weightvalues.map Double.weight)

/-- The server does not read the activation function type. -/
def LayerContent.received (content : LayerContent Double) : DecodedLayer ℚ where
  activationfunctiontype := none
  neurons := some content.neurons
  neuronlist := LinkedList.ofList (content.neuronvalues.map NeuronContent.received)

/-- A network as the server decodes it, where floats may be missing. -/
def NetworkContent.received (content : NetworkContent Double) : DecodedNetwork ℚ where
  epoch := some content.epoch
  alpha := content.alpha.assigned
  regularization := some content.regularization
  lambda := content.lambda.assigned
  percentualtraining := some content.percentualtraining
  lossfunctiontype := some content.lossfunctiontype
  layers := some content.layers
  layerlist :=
    some (LinkedList.ofList (content.layervalues.map LayerContent.received))

theorem decodeNeuron_readTree {content : NeuronContent Double}
    (printable : NeuronContent.Printable content) :
    decodeNeuron binary32.round (NeuronContent.readTree content) =
      NeuronContent.received content := by
  have neurontype :
      neurontypeField (NeuronContent.readTree content) "neurontype" =
        some content.neurontype := by
    rw [← strncpyNeurontype_of_short printable.short]
    simp (disch := decide) only [neurontypeField, NeuronContent.readTree,
      getObjectItem_head]
  have weights :
      intField (NeuronContent.readTree content) "weights" =
        some content.weights := by
    simp (disch := decide) only [intField, NeuronContent.readTree,
      getObjectItem_head, getObjectItem_tail, valueint_intCast printable.weights]
  have bias :
      floatField binary32.round (NeuronContent.readTree content) "bias" =
        content.bias.assigned := by
    refine floatField_readTree ?_ printable.bias
    simp (disch := decide) only [NeuronContent.readTree, getObjectItem_head,
      getObjectItem_tail]
  have weightsArray :
      arrayField (NeuronContent.readTree content) "weightsArray" =
        some (content.weightvalues.map Double.readTree) := by
    simp (disch := decide) only [arrayField, NeuronContent.readTree,
      getObjectItem_head, getObjectItem_tail]
  have stored :
      content.weightvalues.map
          (fun weight => binary32.round weight.readTree.valuedouble) =
        content.weightvalues.map Double.weight :=
    List.map_congr_left fun weight member =>
      round_valuedouble_readTree (printable.weightvalues weight member)
  have weightlist :
      decodeWeights binary32.round (content.weightvalues.map Double.readTree) =
        LinkedList.ofList (content.weightvalues.map Double.weight) := by
    rw [decodeWeights, LinkedList.foldl_append_map]
    exact congrArg LinkedList.ofList stored
  simp only [decodeNeuron, neurontype, weights, bias, weightsArray,
    Option.getD_some, weightlist]
  rfl

theorem decodeLayer_readTree {content : LayerContent Double}
    (printable : LayerContent.Printable content) :
    decodeLayer binary32.round (fun _ => none) (LayerContent.readTree content) =
      LayerContent.received content := by
  have neurons :
      intField (LayerContent.readTree content) "neurons" =
        some content.neurons := by
    simp (disch := decide) only [intField, LayerContent.readTree,
      getObjectItem_head, getObjectItem_tail, valueint_intCast printable.neurons]
  have neuronsArray :
      arrayField (LayerContent.readTree content) "neuronsArray" =
        some (content.neuronvalues.map NeuronContent.readTree) := by
    simp (disch := decide) only [arrayField, LayerContent.readTree,
      getObjectItem_head, getObjectItem_tail]
  have decoded :
      content.neuronvalues.map
          (fun neuron =>
            decodeNeuron binary32.round (NeuronContent.readTree neuron)) =
        content.neuronvalues.map NeuronContent.received :=
    List.map_congr_left fun neuron member =>
      decodeNeuron_readTree (printable.neuronvalues neuron member)
  simp only [decodeLayer, neurons, neuronsArray, Option.getD_some,
    LinkedList.foldl_append_map, decoded]
  rfl

theorem decodeNetwork_readTree {content : NetworkContent Double}
    (printable : NetworkContent.Printable content) :
    decodeNetwork binary32.round (fun _ => none) (NetworkContent.readTree content) =
      NetworkContent.received content := by
  have alpha :
      floatField binary32.round (NetworkContent.readTree content) "alpha" =
        content.alpha.assigned := by
    refine floatField_readTree ?_ printable.alpha
    simp (disch := decide) only [NetworkContent.readTree, getObjectItem_head,
      getObjectItem_tail]
  have lambda :
      floatField binary32.round (NetworkContent.readTree content) "lambda" =
        content.lambda.assigned := by
    refine floatField_readTree ?_ printable.lambda
    simp (disch := decide) only [NetworkContent.readTree, getObjectItem_head,
      getObjectItem_tail]
  have decoded :
      content.layervalues.map
          (fun layer =>
            decodeLayer binary32.round (fun _ => none) (LayerContent.readTree layer)) =
        content.layervalues.map LayerContent.received :=
    List.map_congr_left fun layer member =>
      decodeLayer_readTree (printable.layervalues layer member)
  have layerlist :
      decodeLayers binary32.round (fun _ => none) (NetworkContent.readTree content) =
        some (LinkedList.ofList (content.layervalues.map LayerContent.received)) := by
    rw [← decoded, ← LinkedList.foldl_append_map]
    simp (disch := decide) only [decodeLayers, NetworkContent.readTree, intField,
      arrayField, getObjectItem_head, getObjectItem_tail]
    rfl
  rw [decodeNetwork, alpha, lambda, layerlist]
  simp (disch := decide) only [NetworkContent.readTree, intField, getObjectItem_head,
    getObjectItem_tail, valueint_intCast printable.epoch,
    valueint_intCast printable.regularization,
    valueint_intCast printable.percentualtraining,
    valueint_intCast printable.lossfunctiontype, valueint_intCast printable.layers]
  rfl

/--
A model with any floats is accepted from its text: numbers which are not finite
have become zero in the weights, and are missing elsewhere.
-/
theorem server_receives_any_floats {globalmodelstatus trainingscounter : ℤ}
    {content : NetworkContent Double} (statusIsInt : IsInt globalmodelstatus)
    (counterIsInt : IsInt trainingscounter)
    (printable : NetworkContent.Printable content) :
    (parseTree
          ((modelToItem globalmodelstatus trainingscounter content).text
            true).characters).bind
        (Server.JSONToFederatedLearning binary32.round) =
      some
        { globalmodelstatus := globalmodelstatus
          trainingscounter := trainingscounter
          neuralnetwork := some (NetworkContent.received content) } := by
  have shallow : (modelToItem globalmodelstatus trainingscounter content).nesting ≤
      CJSON_NESTING_LIMIT :=
    (nesting_modelToItem _ _ _).trans (by decide)
  have network :
      objectField (modelReadTree globalmodelstatus trainingscounter content)
          "neuralnetwork" =
        some (NetworkContent.readTree content) := by
    simp (disch := decide) only [objectField, modelReadTree, NetworkContent.readTree,
      getObjectItem_head, getObjectItem_tail]
  rw [(reads_modelToItem statusIsInt counterIsInt printable).parseTree_text shallow,
    Option.bind_some, Server.JSONToFederatedLearning, modelReadTree, decodeModel,
    ← modelReadTree, network, Option.map_some, decodeNetwork_readTree printable]
  simp (disch := decide) only [modelReadTree, intField, getObjectItem_head,
    getObjectItem_tail, valueint_intCast statusIsInt, valueint_intCast counterIsInt,
    Option.getD_some]

/-- A model whose training has diverged. -/
def divergedContent : NetworkContent Double where
  epoch := 8
  alpha := .ofRat 0
  regularization := 2
  lambda := .ofRat 0
  percentualtraining := 120
  lossfunctiontype := 2
  layers := 1
  layervalues := [⟨4, 1, [⟨"OUTPUT", 2, .nan, [.infinite true, .infinite false]⟩]⟩]

theorem server_receives_any_floats_sample :
    (parseTree ((modelToItem 1 120 divergedContent).text true).characters).bind
        (Server.JSONToFederatedLearning binary32.round) =
      some
        { globalmodelstatus := 1
          trainingscounter := 120
          neuralnetwork := some (NetworkContent.received divergedContent) } := by
  have zero : (Double.ofRat 0).HoldsFloat := by
    have float : IsFloat 0 := by
      decide +kernel
    rw [show Double.ofRat 0 = .finite float.toDouble from ofRat_value float.toDouble]
    exact float
  have neuron : NeuronContent.Printable
      (⟨"OUTPUT", 2, .nan, [.infinite true, .infinite false]⟩) :=
    ⟨by decide, by decide, by decide, trivial,
      List.forall_mem_cons.mpr ⟨trivial, List.forall_mem_singleton.mpr trivial⟩⟩
  exact server_receives_any_floats (by decide) (by decide)
    ⟨by decide, zero, by decide, zero, by decide, by decide, by decide,
      List.forall_mem_singleton.mpr
        ⟨by decide, by decide, List.forall_mem_singleton.mpr neuron⟩⟩

end FederatedEdge.Json
