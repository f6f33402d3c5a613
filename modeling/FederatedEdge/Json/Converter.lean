import FederatedEdge.Client.State
import FederatedEdge.Json.CJson
import FederatedEdge.Network.Decoded
import FederatedEdge.Server.State

/-!
# The JSON converters of the server and the client

Both programs carry their own `JSONConverter.c`.  The two encoders agree line
by line.  The two decoders differ in one place: the decoder of the client
reads `activationfunctiontype`, the decoder of the server does not.

The decoders round a double to a float wherever they store one; the rounding
is the parameter `toFloat`.
-/

namespace FederatedEdge.Json

open FederatedEdge.Library
open FederatedEdge.Network

/-! ## Encoding -/

/-- One turn of the loop over the weights. -/
def encodeWeight (weightsArray : List CJson) (weight : ℚ) : Exec (List CJson) :=
  .ok (weightsArray ++ [.number weight])

/-- The object of one neuron. -/
def encodeNeuron (currentNeuron : Neuron ℚ) : Exec CJson := do
  let weightsArray ← currentNeuron.weightlist.fold encodeWeight []
  .ok (.object
    [("neurontype", .string currentNeuron.neurontype),
      ("weights", .number currentNeuron.weights),
      ("bias", .number currentNeuron.bias),
      ("weightsArray", .array weightsArray)])

/-- The object of one layer. -/
def encodeLayer (currentLayer : Layer ℚ) : Exec CJson := do
  let neuronsArray ←
    currentLayer.neuronlist.fold
      (fun array currentNeuron => do
        let neuronObject ← encodeNeuron currentNeuron
        .ok (array ++ [neuronObject]))
      []
  .ok (.object
    [("activationfunctiontype", .number currentLayer.activationfunctiontype),
      ("neurons", .number currentLayer.neurons),
      ("neuronsArray", .array neuronsArray)])

/-- The tree of a model, the same in both programs. -/
def encodeModel (globalmodelstatus trainingscounter : ℤ)
    (neuralnetwork : NeuralNetwork ℚ) : Exec CJson := do
  let layersArray ←
    neuralnetwork.layerlist.fold
      (fun array currentLayer => do
        let layerObject ← encodeLayer currentLayer
        .ok (array ++ [layerObject]))
      []
  .ok (.object
    [("globalmodelstatus", .number globalmodelstatus),
      ("trainingscounter", .number trainingscounter),
      ("neuralnetwork", .object
        [("epoch", .number neuralnetwork.epoch),
          ("alpha", .number neuralnetwork.alpha),
          ("regularization", .number neuralnetwork.regularization),
          ("lambda", .number neuralnetwork.lambda),
          ("percentualtraining", .number neuralnetwork.percentualtraining),
          ("lossfunctiontype", .number neuralnetwork.lossfunctiontype),
          ("layers", .number neuralnetwork.layers),
          ("layersArray", .array layersArray)])])

/-! ## Decoding -/

/-- A field which is read with `valueint` if it is a number. -/
def intField (object : CJson) (name : String) : Option ℤ :=
  match cJSON_GetObjectItem object name with
  | some (.number number) => some (valueint number)
  | _ => none

/-- A field which is read with `valuedouble` if it is a number. -/
def floatField (toFloat : ℚ → ℚ) (object : CJson) (name : String) : Option ℚ :=
  match cJSON_GetObjectItem object name with
  | some (.number number) => some (toFloat number)
  | _ => none

/-- The size of `neurontype`. -/
def neurontypeSize : ℕ := 20

/-- The text `strncpy` leaves in `neurontype`. -/
def strncpyNeurontype (text : String) : String :=
  String.ofList (text.toList.take neurontypeSize)

/-- A field which is copied into `neurontype` if it is a string. -/
def neurontypeField (object : CJson) (name : String) : Option String :=
  match cJSON_GetObjectItem object name with
  | some (.string text) => some (strncpyNeurontype text)
  | _ => none

/-- The elements of a field which is an array. -/
def arrayField (object : CJson) (name : String) : Option (List CJson) :=
  match cJSON_GetObjectItem object name with
  | some (.array child) => some child
  | _ => none

/-- The loop over `weightsArray`; it does not check that items are numbers. -/
def decodeWeights (toFloat : ℚ → ℚ) (weightElements : List CJson) :
    LinkedList ℚ :=
  weightElements.foldl
    (fun weightlist weightElement =>
      weightlist.append (toFloat weightElement.valuedouble))
    LinkedList.empty

/-- The body of the loop over `neuronsArray`. -/
def decodeNeuron (toFloat : ℚ → ℚ) (neuronElement : CJson) :
    DecodedNeuron ℚ where
  neurontype := neurontypeField neuronElement "neurontype"
  weights := intField neuronElement "weights"
  bias := floatField toFloat neuronElement "bias"
  weightlist :=
    decodeWeights toFloat ((arrayField neuronElement "weightsArray").getD [])

/-- The body of the loop over `layersArray`. -/
def decodeLayer (toFloat : ℚ → ℚ) (activation : CJson → Option ℤ)
    (layerElement : CJson) : DecodedLayer ℚ where
  activationfunctiontype := activation layerElement
  neurons := intField layerElement "neurons"
  neuronlist :=
    ((arrayField layerElement "neuronsArray").getD []).foldl
      (fun neuronlist neuronElement =>
        neuronlist.append (decodeNeuron toFloat neuronElement))
      LinkedList.empty

/--
The layers are read only when the number `layers` is there; without an array
`layersArray` the layer pointers stay unassigned.
-/
def decodeLayers (toFloat : ℚ → ℚ) (activation : CJson → Option ℤ)
    (neuralNetworkItem : CJson) : Option (LinkedList (DecodedLayer ℚ)) := do
  let _ ← intField neuralNetworkItem "layers"
  let layersArray ← arrayField neuralNetworkItem "layersArray"
  some (layersArray.foldl
    (fun layerlist layerElement =>
      layerlist.append (decodeLayer toFloat activation layerElement))
    LinkedList.empty)

/-- The fields of the network object. -/
def decodeNetwork (toFloat : ℚ → ℚ) (activation : CJson → Option ℤ)
    (neuralNetworkItem : CJson) : DecodedNetwork ℚ where
  epoch := intField neuralNetworkItem "epoch"
  alpha := floatField toFloat neuralNetworkItem "alpha"
  regularization := intField neuralNetworkItem "regularization"
  lambda := floatField toFloat neuralNetworkItem "lambda"
  percentualtraining := intField neuralNetworkItem "percentualtraining"
  lossfunctiontype := intField neuralNetworkItem "lossfunctiontype"
  layers := intField neuralNetworkItem "layers"
  layerlist := decodeLayers toFloat activation neuralNetworkItem

/-- A field which is used only if it is an object. -/
def objectField (object : CJson) (name : String) : Option CJson :=
  match cJSON_GetObjectItem object name with
  | some (.object child) => some (.object child)
  | _ => none

/--
The decoder of both programs, up to the way it finds the activation function
type of a layer.  Anything but an object decodes to null.
-/
def decodeModel (toFloat : ℚ → ℚ) (activation : CJson → Option ℤ)
    (json : CJson) : Option (DecodedModel ℚ) :=
  match json with
  | .object child =>
      some
        { globalmodelstatus :=
            (intField (.object child) "globalmodelstatus").getD 0
          trainingscounter :=
            (intField (.object child) "trainingscounter").getD 0
          neuralnetwork :=
            (objectField (.object child) "neuralnetwork").map
              (decodeNetwork toFloat activation) }
  | _ => none

end FederatedEdge.Json

namespace FederatedEdge.Server

open FederatedEdge.Library
open FederatedEdge.Network
open FederatedEdge.Json

/-- The model which the server distributes. -/
def FederatedLearningToJSON (federatedLearning : FederatedLearning) :
    Exec CJson :=
  encodeModel federatedLearning.globalmodelstatus
    federatedLearning.trainingscounter federatedLearning.neuralnetwork

/-- The server's decoder never assigns `activationfunctiontype`. -/
def JSONToFederatedLearning (toFloat : ℚ → ℚ) (json : CJson) :
    Option (DecodedModel ℚ) :=
  decodeModel toFloat (fun _ => none) json

end FederatedEdge.Server

namespace FederatedEdge.Client

open FederatedEdge.Library
open FederatedEdge.Network
open FederatedEdge.Json

/-- The model which the client sends back. -/
def federatedLearningToJSON (federatedLearning : FederatedLearning) :
    Exec CJson :=
  encodeModel federatedLearning.globalmodelstatus
    federatedLearning.trainingscounter federatedLearning.neuralnetwork

/-- The client's decoder assigns `activationfunctiontype` as well. -/
def JSONToFederatedLearning (toFloat : ℚ → ℚ) (json : CJson) :
    Option (DecodedModel ℚ) :=
  decodeModel toFloat
    (fun layerElement => intField layerElement "activationfunctiontype") json

end FederatedEdge.Client
