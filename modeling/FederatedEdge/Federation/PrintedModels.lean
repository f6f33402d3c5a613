import FederatedEdge.Client.HttpClient
import FederatedEdge.Federation.Averages
import FederatedEdge.Federation.Reassembly
import FederatedEdge.Federation.TrainingRounds
import FederatedEdge.Json.ArrivedTexts
import FederatedEdge.Json.TextLengths
import FederatedEdge.Network.Runnable
import FederatedEdge.Server.MessageBuffer

/-!
# Models as texts between the programs

The server prints its model into the response of a request, and the client parses
the body which arrived.  A client prints its model into one WebSocket message,
whose fragments the server collects, parses and aggregates.  With the texts of
cJSON and with `float` fields, both get the model which was printed.
-/

namespace FederatedEdge.Federation

open FederatedEdge.Library
open FederatedEdge.Network
open FederatedEdge.Json
open FederatedEdge.Server
open FederatedEdge.Client

/-- cJSON, and the conversion of a double to a `float`. -/
def printedPlatform (exp : ℚ → ℚ) (evaluation : ℤ → EvaluationInput) :
    Platform where
  cJSON_Parse := parseTree
  toFloat := binary32.round
  exp := exp
  evaluation := evaluation

variable {exp : ℚ → ℚ} {evaluation : ℤ → EvaluationInput}

/-! ## From the server to a client -/

variable {attempts : ℕ → Attempt} {made : ℕ}

/-- After an attempt the buffer holds what was delivered so far. -/
theorem response_of_running (running : (perform_get_request attempts made).Running) :
    (perform_get_request attempts (made + 1)).response =
      .holding (delivered attempts (made + 1)) := by
  have goesOn := (running_iff attempts made).1.mp running
  rw [perform_get_request, if_pos running, response_turn,
    response_perform_get_request attempts goesOn, foldl_client_event_get_handler,
    delivered_succ]
  rfl

/-- The string of the body and its terminator ends at the first null. -/
theorem string_holding (body : List Char) :
    Buffer.string terminator ((body ++ [terminator]).map some) =
      (CString.read body).characters := by
  rw [Buffer.string, Buffer.reduceOption_written]
  show _ = body.takeWhile (· ≠ terminator)
  by_cases inside : terminator ∈ body
  · rcases List.eq_append_cons_of_mem inside with ⟨front, back, rfl, clean⟩
    rw [List.append_assoc, List.cons_append, Buffer.takeWhile_terminated clean,
      Buffer.takeWhile_terminated clean]
  · rw [Buffer.takeWhile_terminated inside]
    exact (congrArg CString.characters (CString.read_of_noNull inside)).symm

theorem parseTree_string (body : List Char) :
    parseTree (Buffer.string terminator ((body ++ [terminator]).map some)) =
      parseTree body := by
  have again : CString.read (CString.read body).characters = CString.read body :=
    CString.read_of_noNull (CString.read body).noNull
  rw [parseTree, string_holding, again, parseTree]

theorem parseTree_nil : parseTree [] = none := by
  decide +kernel

/-- The callers parse what was delivered. -/
theorem getglobalmodel_parseTree (toFloat : ℚ → ℚ) (body : List Char) :
    getglobalmodel parseTree toFloat (.holding body) =
      (parseTree body).bind (Client.JSONToFederatedLearning toFloat) := by
  rw [Client.getglobalmodel, Response.holding]
  split_ifs with empty
  · rw [empty, parseTree_nil]
    rfl
  · dsimp only
    rw [parseTree_string]

theorem getglobalmodelstatus_parseTree (body : List Char) :
    getglobalmodelstatus parseTree (.holding body) =
      ((parseTree body).bind fun req => intField req "status").getD 0 := by
  rw [getglobalmodelstatus, Response.holding]
  split_ifs with empty
  · rw [empty, parseTree_nil]
    rfl
  · dsimp only
    rw [parseTree_string]
    cases parseTree body <;> rfl

/-- What is parsed when a part of a printed object has arrived, or more than it. -/
theorem parseTree_received {child : List (String × CJson)} {allocator : Allocator}
    {printed : Buffer Char}
    (prints : cJSON_Print allocator (CJson.object child).toItem = .ok printed)
    (shallow : (CJson.object child).toItem.nesting ≤ CJSON_NESTING_LIMIT)
    {received : List Char}
    (comparable : Buffer.string nul printed <+: received ∨
      received <+: Buffer.string nul printed) :
    parseTree received =
      if Buffer.string nul printed <+: received then
        parseTree ((CJson.object child).toItem.text true).characters
      else none := by
  have text := ((ends_print allocator _ true).of_ok prints).1
  have noNumber : ∀ number, (CJson.object child).toItem.reread ≠ .number number := by
    intro number
    rw [CJson.toItem_object, Item.reread_object]
    exact nofun
  rw [text, string_printed] at comparable ⊢
  exact parseTree_of_comparable true noNumber shallow comparable

/--
The server prints its model, and a client receives the text in pieces, perhaps over
several attempts.  It has the model of the server when all of the text has arrived,
whatever follows, and no model before that.
-/
theorem client_downloads_whole_model {server : Server.FederatedLearning}
    {content : NetworkContent ℚ} {json : CJson} {allocator : Allocator}
    {printed : Buffer Char}
    (terminated : server.neuralnetwork.content = .ok content)
    (writable : NetworkContent.Writable content)
    (statusIsInt : IsInt server.globalmodelstatus)
    (counterIsInt : IsInt server.trainingscounter)
    (encodes : handle_get_globalmodel server = .ok json)
    (prints : cJSON_Print allocator json.toItem = .ok printed)
    (running : (perform_get_request attempts made).Running)
    (comparable : Buffer.string nul printed <+: delivered attempts (made + 1) ∨
      delivered attempts (made + 1) <+: Buffer.string nul printed) :
    getglobalmodel parseTree binary32.round
        (perform_get_request attempts (made + 1)).response =
      if Buffer.string nul printed <+: delivered attempts (made + 1) then
        some
          { globalmodelstatus := server.globalmodelstatus
            trainingscounter := server.trainingscounter
            neuralnetwork := some content.build.decoded }
      else none := by
  have encoded : json =
      modelToJson server.globalmodelstatus server.trainingscounter content := by
    rw [handle_get_globalmodel, FederatedLearningToJSON,
      encodeModel_eq _ _ terminated, Except.ok.injEq] at encodes
    exact encodes.symm
  subst encoded
  have shallow := (nesting_model server.globalmodelstatus server.trainingscounter
    content).trans (show 7 ≤ CJSON_NESTING_LIMIT by decide)
  have reads := client_reads_text statusIsInt counterIsInt writable
  rw [modelCharacters] at reads
  rw [response_of_running running, getglobalmodel_parseTree,
    parseTree_received prints shallow comparable]
  split_ifs
  · exact reads
  · rfl

/-- The sample model with parameters which are floats. -/
def printedContent : NetworkContent ℚ :=
  { sampleContent with alpha := 1 / 1024, lambda := 1 / 128 }

theorem writable_printedContent : NetworkContent.Writable printedContent := by
  have floats : ∀ value ∈ [(1 / 1024 : ℚ), 1 / 128, 0, 1 / 2, 1, -1 / 4, -1, 3 / 8],
      IsFloat value := by
    decide +kernel
  simp only [List.forall_mem_cons] at floats
  rcases floats with ⟨alpha, lambda, zero, half, one, quarter, minus, three, -⟩
  have input : NeuronContent.Writable (⟨"INPUT", 0, 0, []⟩) :=
    ⟨by decide, by decide, by decide, zero, List.forall_mem_nil _⟩
  have first : NeuronContent.Writable (⟨"OUTPUT", 2, 1 / 2, [1, -1 / 4]⟩) :=
    ⟨by decide, by decide, by decide, half,
      List.forall_mem_cons.mpr ⟨one, List.forall_mem_singleton.mpr quarter⟩⟩
  have second : NeuronContent.Writable (⟨"OUTPUT", 2, -1, [3 / 8, 0]⟩) :=
    ⟨by decide, by decide, by decide, minus,
      List.forall_mem_cons.mpr ⟨three, List.forall_mem_singleton.mpr zero⟩⟩
  have inputs : LayerContent.Writable (⟨0, 2, [⟨"INPUT", 0, 0, []⟩, ⟨"INPUT", 0, 0, []⟩]⟩) :=
    ⟨by decide, by decide,
      List.forall_mem_cons.mpr ⟨input, List.forall_mem_singleton.mpr input⟩⟩
  have outputs : LayerContent.Writable
      (⟨4, 2, [⟨"OUTPUT", 2, 1 / 2, [1, -1 / 4]⟩, ⟨"OUTPUT", 2, -1, [3 / 8, 0]⟩]⟩) :=
    ⟨by decide, by decide,
      List.forall_mem_cons.mpr ⟨first, List.forall_mem_singleton.mpr second⟩⟩
  exact ⟨by decide, alpha, by decide, lambda, by decide, by decide, by decide,
    List.forall_mem_cons.mpr ⟨inputs, List.forall_mem_singleton.mpr outputs⟩⟩

theorem short_printedContent :
    ∀ layer ∈ printedContent.layervalues, ∀ neuron ∈ layer.neuronvalues,
      neuron.neurontype.toList.length < neurontypeSize := by
  decide

/-- With memory for every request, the model is printed. -/
theorem prints_printedContent :
    cJSON_Print (fun _ _ => true) (modelToJson 1 0 printedContent).toItem =
      .ok ((modelCharacters 1 0 printedContent ++ [nul]).map some) := by
  refine (print_eq_ok_iff (fun _ _ => rfl) _ true).mpr ?_
  have bound : modelLength (NetworkContent.shape printedContent) + 2 ≤ maximalSize := by
    decide
  exact (Nat.add_le_add_right (length_modelCharacters_le 1 0 short_printedContent) 2).trans bound

/-- A server with this model. -/
def printedServer : Server.FederatedLearning :=
  { sampleServer with neuralnetwork := printedContent.build }

/-- The body of the response arrives in two pieces. -/
def printedAttempt : Attempt :=
  let text := modelCharacters 1 0 printedContent
  ⟨[.onData (text.take 100), .onData (text.drop 100), .onFinish], true, 0, 5000⟩

theorem client_downloads_whole_model_sample :
    getglobalmodel parseTree binary32.round
        (perform_get_request (fun _ => printedAttempt) 1).response =
      some
        { globalmodelstatus := 1
          trainingscounter := 0
          neuralnetwork := some printedContent.build.decoded } := by
  have terminated : printedServer.neuralnetwork.content = .ok printedContent :=
    printedContent.content_build
  have body : printedAttempt.body = modelCharacters 1 0 printedContent := by
    simp [Attempt.body, printedAttempt, ClientEvent.data]
  have whole : Buffer.string nul ((modelCharacters 1 0 printedContent ++ [nul]).map some) <+:
      delivered (fun _ => printedAttempt) (0 + 1) := by
    have text : Buffer.string nul ((modelCharacters 1 0 printedContent ++ [nul]).map some) =
        modelCharacters 1 0 printedContent :=
      string_printed _ true
    rw [delivered_succ, body, text]
    exact List.prefix_refl _
  have running : (perform_get_request (fun _ => printedAttempt) 0).Running := by
    decide
  have downloads := client_downloads_whole_model terminated writable_printedContent
    (by decide) (by decide) (encodeModel_eq 1 0 terminated) prints_printedContent
    running (Or.inl whole)
  rw [if_pos whole] at downloads
  exact downloads

/-- The response of `handle_get_checkmodelstatus`. -/
def statusToJson (status : ℤ) : CJson :=
  .object [("status", .number status)]

theorem status_of_checkmodelstatus {server : Server.FederatedLearning}
    {ip_addr : String} {status : ℤ}
    (finds : handle_get_checkmodelstatus server ip_addr = .ok status) :
    status = 0 ∨ status = 1 := by
  rw [handle_get_checkmodelstatus, Exec.bind_eq_ok] at finds
  rcases finds with ⟨found, -, finds⟩
  split at finds
  · exact Or.inl (Except.ok.inj finds).symm
  · split at finds
    · exact Or.inr (Except.ok.inj finds).symm
    · exact Or.inl (Except.ok.inj finds).symm

/--
The client which polls gets the status which the server has found when the whole
text has arrived, and the status of a server without a model before that.
-/
theorem client_polls_whole_status {server : Server.FederatedLearning}
    {ip_addr : String} {status : ℤ} {allocator : Allocator} {printed : Buffer Char}
    (finds : handle_get_checkmodelstatus server ip_addr = .ok status)
    (prints : cJSON_Print allocator (statusToJson status).toItem = .ok printed)
    (running : (perform_get_request attempts made).Running)
    (comparable : Buffer.string nul printed <+: delivered attempts (made + 1) ∨
      delivered attempts (made + 1) <+: Buffer.string nul printed) :
    getglobalmodelstatus parseTree
        (perform_get_request attempts (made + 1)).response =
      if Buffer.string nul printed <+: delivered attempts (made + 1) then status
      else 0 := by
  have isInt : IsInt status := by
    rcases status_of_checkmodelstatus finds with rfl | rfl <;> decide
  have again : Rereads (statusToJson status) (statusToJson status) :=
    .object (.cons (.mk (by decide) (.number (rereadsNumber_int isInt))) .nil)
  have shallow : (statusToJson status).toItem.nesting ≤ CJSON_NESTING_LIMIT := by
    rw [statusToJson, CJson.nesting_object_le_iff, List.forall_mem_singleton]
    exact ⟨by decide, Nat.zero_le _⟩
  have parses : parseTree ((statusToJson status).toItem.text true).characters =
      some (statusToJson status) :=
    Item.Reads.parseTree_text again shallow true
  rw [response_of_running running, getglobalmodelstatus_parseTree,
    parseTree_received prints shallow comparable]
  split_ifs
  · rw [← statusToJson, parses, Option.bind_some, intField, statusToJson,
      getObjectItem_head _ _ (by decide)]
    exact valueint_intCast isInt
  · rfl

/-- The text of the status arrives, and then a part of it again. -/
theorem client_polls_whole_status_sample :
    getglobalmodelstatus parseTree
        (perform_get_request (fun _ =>
          ⟨[.onData ((statusToJson 1).toItem.text true).characters, .onData ['\x7b']],
            true, 0, 5000⟩) 1).response = 1 := by
  let attempts (_ : ℕ) : Attempt :=
    ⟨[.onData ((statusToJson 1).toItem.text true).characters, .onData ['\x7b']],
      true, 0, 5000⟩
  have finds : handle_get_checkmodelstatus (sampleRegistered 1) sampleAddress = .ok 1 :=
    rfl
  have short : ((statusToJson 1).toItem.text true).characters.length + 2 ≤ maximalSize := by
    decide +kernel
  have prints := (print_eq_ok_iff (fun _ _ => rfl) _ true).mpr short
  have running : (perform_get_request attempts 0).Running := by
    decide
  have whole : Buffer.string nul
      ((((statusToJson 1).toItem.text true).characters ++ [nul]).map some) <+:
        delivered attempts (0 + 1) := by
    rw [string_printed]
    simp [delivered, Attempt.body, attempts, ClientEvent.data]
  have polls := client_polls_whole_status finds prints running (Or.inl whole)
  rw [if_pos whole] at polls
  exact polls

/-! ## From a client to the server -/

/-- A model which a client has printed and sent, and the address it came from. -/
structure PrintedModel where
  globalmodelstatus : ℤ
  trainingscounter : ℤ
  content : NetworkContent ℚ
  address : List Char

namespace PrintedModel

def text (model : PrintedModel) : List Char :=
  modelCharacters model.globalmodelstatus model.trainingscounter
    model.content

def message (model : PrintedModel) : ClientMessage :=
  ⟨model.text, model.text.length, model.address⟩

/-- What the server stores of the model: all but the activation types. -/
def decoded (model : PrintedModel) : DecodedModel ℚ where
  globalmodelstatus := model.globalmodelstatus
  trainingscounter := model.trainingscounter
  neuralnetwork :=
    some
      { model.content.build.decoded with
        layerlist := some (decodedLayers (fun _ => none) model.content) }

/-- The fields of the model have their C types, and its text fits the buffer. -/
structure Sendable (model : PrintedModel) : Prop where
  statusIsInt : IsInt model.globalmodelstatus
  counterIsInt : IsInt model.trainingscounter
  writable : NetworkContent.Writable model.content
  free : NetworkContent.BraceFree model.content
  fits : model.text.length ≤ MAX_JSON_SIZE

variable {model : PrintedModel}

theorem nul_notMem_text (model : PrintedModel) : nul ∉ model.text :=
  (Item.text true _).noNull

variable (exp evaluation) in
/-- The text carries the model which was printed. -/
theorem Sendable.decode (sendable : model.Sendable) :
    (printedPlatform exp evaluation).decode model.text = some model.decoded := by
  have cut : strndup model.text model.text.length = model.text := by
    rw [strndup, List.take_length]
    exact strdup_of_notMem model.nul_notMem_text
  have decodes :=
    server_decodes_text sendable.statusIsInt sendable.counterIsInt sendable.writable
  rw [Server.JSONToFederatedLearning.eq_def binary32.round (modelToJson _ _ _),
    decodeModel_toJson _ sendable.statusIsInt sendable.counterIsInt
      sendable.writable.representable] at decodes
  rw [Platform.decode, cut, text, printedPlatform, decodes]
  rfl

/-- The model as the server decodes it, under its address. -/
def submission (model : PrintedModel) : Submission where
  ip_id := String.ofList model.address
  model := model.decoded

/-- The training counter and the parameters which were printed. -/
def contribution (model : PrintedModel) : ℚ × (Position → ℚ) :=
  (model.trainingscounter, model.content.build.parameters.value)

end PrintedModel

section Run

variable {Session : Type} [DecidableEq Session] {platform : Platform}
  {peers : Session → Peer} {initial : Server.FederatedLearning}
  {state next : Transmission Session} {delivery : Delivery Session}

/-- The server is what handling the messages so far has made of it. -/
def Handles (platform : Platform) (initial : Server.FederatedLearning)
    (state : Transmission Session) : Prop :=
  handle_message platform initial state.handled = .ok state.server

theorem Handles.step (handles : Handles platform initial state)
    (step : TransmissionStep platform peers state delivery next) :
    Handles platform initial next := by
  cases step with
  | continued _ _ _ => exact handles
  | finished _ _ => exact handles
  | service served =>
      rw [Handles, handle_message_eq_foldlM] at handles ⊢
      rw [handle_message_eq_foldlM] at served
      rw [Transmission.inserted, List.foldlM_append, handles]
      exact served

end Run

/-! ## The size of the texts -/

section Fleet

variable {layersconfig : List LayerConfig} {platform : Platform} {fleet : Fleet}

/-- What the form says about the type texts of the neurons. -/
theorem Matches.neurontype {network : NeuralNetwork ℚ}
    (holds : Matches layersconfig network) {layer : LayerContent ℚ}
    (isLayer : layer ∈ network.read.layervalues) {neuron : NeuronContent ℚ}
    (isNeuron : neuron ∈ layer.neuronvalues) :
    ∃ i, neuron.neurontype = neurontypeAt layersconfig.length i := by
  have isForm : layer.form ∈ configuredForms layersconfig := by
    rw [← holds.forms]
    exact List.mem_map_of_mem isLayer
  rcases mem_configuredLayers isForm with ⟨i, weights, config, -, same, -⟩
  have neuronForm : neuron.form ∈ layer.form.neuronvalues :=
    List.mem_map_of_mem isNeuron
  rw [same, configuredLayer, List.mem_replicate] at neuronForm
  exact ⟨i, congrArg NeuronContent.neurontype neuronForm.2⟩

end Fleet

end FederatedEdge.Federation
