import FederatedEdge.Json.CompleteModel
import FederatedEdge.Library.Path
import FederatedEdge.Server.Initialization

/-!
# Serving requests

One step of the server serves one request: a registration, a poll or a
download over HTTP, or a model message from the WebSocket buffer.  A step
exists when the handler finishes; the state of a server which follows a bad
pointer is not modelled.

The control of the server evolves on its own: it follows the abstract
operations, whatever the messages contain.
-/

namespace FederatedEdge.Server

open FederatedEdge.Library
open FederatedEdge.Network
open FederatedEdge.Json

inductive Request where
  | register (ip_addr : String)
  | poll (ip_addr : String)
  | download
  | message (ip_addr : String) (text : List Char)
deriving DecidableEq, Repr

inductive Reply where
  | registration (status : RegistrationStatus)
  | status (status : ℤ)
  | globalmodel (json : CJson)
  | nothing

/-- Dispatch a request to its handler. -/
def serve (platform : Platform) (server : FederatedLearning) :
    Request → Exec (FederatedLearning × Reply)
  | .register ip_addr => do
      let (after, status) ← handle_get_noderegister server ip_addr
      .ok (after, .registration status)
  | .poll ip_addr => do
      let status ← handle_get_checkmodelstatus server ip_addr
      .ok (server, .status status)
  | .download => do
      let json ← handle_get_globalmodel server
      .ok (server, .globalmodel json)
  | .message ip_addr text => do
      let after ←
        handle_clint_model_message platform server text text.length ip_addr
      .ok (after, .nothing)

/-- One request with its reply. -/
abbrev Exchange := Request × Reply

/-- The server serves the request and gives the reply. -/
def Serves (platform : Platform) (server : FederatedLearning)
    (exchange : Exchange) (after : FederatedLearning) : Prop :=
  serve platform server exchange.1 = .ok (after, exchange.2)

/-- The model which a message text carries, if it carries one. -/
def Platform.decode (platform : Platform) (text : List Char) :
    Option (DecodedModel ℚ) :=
  (platform.cJSON_Parse (strndup text text.length)).bind
    (JSONToFederatedLearning platform.toFloat)

/-- The text carries a complete model of the shape. -/
def Platform.Carries (platform : Platform) (shape : Shape)
    (text : List Char) : Prop :=
  ∃ model, platform.decode text = some model ∧ model.Complete shape

/-- A text which parses to what a client encodes carries a complete model. -/
theorem Platform.carries_encoded
    {platform : Platform} {client : Client.FederatedLearning}
    {content : NetworkContent ℚ} {json : CJson} {text : List Char}
    (terminated : client.neuralnetwork.content = .ok content)
    (encoded : Client.federatedLearningToJSON client = .ok json)
    (parsed : platform.cJSON_Parse (strndup text text.length) = some json) :
    platform.Carries (NetworkContent.shape content) text := by
  rw [Client.federatedLearningToJSON, encodeModel_eq _ _ terminated,
    Except.ok.injEq] at encoded
  subst encoded
  rcases decodeModel_complete platform.toFloat (fun _ => none)
      (completeModel_modelToJson _ _ content)
    with ⟨model, decoded, complete⟩
  refine ⟨model, ?_, complete⟩
  rw [Platform.decode, parsed, Option.bind_some]
  exact decoded

namespace FederatedLearning

variable {platform : Platform} {server after : FederatedLearning}
  {ip_addr : String} {text : List Char} {reply : Reply}

/-- A text without a model is dropped. -/
theorem handle_clint_model_message_undecoded
    (registry : server.Registry) (undecoded : platform.decode text = none) :
    handle_clint_model_message platform server text text.length ip_addr =
      .ok server := by
  rw [handle_clint_model_message]
  rw [Platform.decode] at undecoded
  cases parsed : platform.cJSON_Parse (strndup text text.length) with
  | none => rfl
  | some json =>
      rw [parsed, Option.bind_some] at undecoded
      simp only [registry.find_node, Exec.ok_bind, undecoded]

/-- A text with a model submits the model. -/
theorem handle_clint_model_message_decoded
    {model : DecodedModel ℚ} (decoded : platform.decode text = some model) :
    handle_clint_model_message platform server text text.length ip_addr =
      submitModel platform server ip_addr model := by
  rcases Option.bind_eq_some_iff.mp decoded with ⟨json, parsed, decoded⟩
  rw [handle_clint_model_message, parsed, submitModel]
  simp only [decoded]

section Cases

variable (registry : server.Registry)

include registry

/-- A registration is the abstract one and touches no network. -/
theorem serves_register
    (serves : Serves platform server (.register ip_addr, reply) after) :
    after.Registry ∧ after.control = server.control.register ip_addr ∧
      SameModels server after := by
  rcases handle_get_noderegister_refines registry ip_addr
    with ⟨next, status, finishes, control, nextRegistry, same⟩
  simp only [Serves, serve, finishes, Exec.ok_bind, Except.ok.injEq,
    Prod.mk.injEq] at serves
  rcases serves with ⟨rfl, -⟩
  exact ⟨nextRegistry, control, same⟩

/-- A poll tells whether the node is ready and changes nothing. -/
theorem serves_poll
    (serves : Serves platform server (.poll ip_addr, reply) after) :
    after = server ∧
      reply = .status (if server.control.Ready ip_addr then 1 else 0) := by
  simp only [Serves, serve, handle_get_checkmodelstatus_eq registry,
    Exec.ok_bind, Except.ok.injEq, Prod.mk.injEq] at serves
  exact ⟨serves.1.symm, serves.2.symm⟩

omit registry in
/-- A download changes nothing. -/
theorem serves_download
    (serves : Serves platform server (.download, reply) after) :
    after = server := by
  simp only [Serves, serve, Exec.bind_eq_ok, Except.ok.injEq,
    Prod.mk.injEq] at serves
  rcases serves with ⟨_, -, same, -⟩
  exact same.symm

/-- A message is dropped, or its model is submitted. -/
theorem serves_message
    (serves : Serves platform server (.message ip_addr text, reply) after) :
    platform.decode text = none ∧ after = server ∨
      ∃ model, platform.decode text = some model ∧
        submitModel platform server ip_addr model = .ok after := by
  simp only [Serves, serve, Exec.bind_eq_ok, Except.ok.injEq,
    Prod.mk.injEq] at serves
  rcases serves with ⟨next, finishes, rfl, -⟩
  cases decoded : platform.decode text with
  | none =>
      rw [handle_clint_model_message_undecoded registry decoded,
        Except.ok.injEq] at finishes
      exact Or.inl ⟨rfl, finishes.symm⟩
  | some model =>
      rw [handle_clint_model_message_decoded decoded] at finishes
      exact Or.inr ⟨model, rfl, finishes⟩

omit registry in
/-- A text with a complete model submits one. -/
theorem serves_carried {shape : Shape} (carries : platform.Carries shape text)
    (serves : Serves platform server (.message ip_addr text, reply) after) :
    ∃ model : DecodedModel ℚ, model.Complete shape ∧
      submitModel platform server ip_addr model = .ok after := by
  rcases carries with ⟨model, decoded, complete⟩
  simp only [Serves, serve, handle_clint_model_message_decoded decoded,
    Exec.bind_eq_ok, Except.ok.injEq, Prod.mk.injEq] at serves
  rcases serves with ⟨next, finishes, rfl, -⟩
  exact ⟨model, complete, finishes⟩

end Cases

/-- The abstract control after a request. -/
def controlAfter (platform : Platform) (control : Control) :
    Request → Control
  | .register ip_addr => control.register ip_addr
  | .poll _ => control
  | .download => control
  | .message ip_addr text =>
      if (platform.decode text).isSome then control.accept ip_addr else control

/-- Every request keeps the registry and refines the abstract control. -/
theorem serves_refines
    {exchange : Exchange} (registry : server.Registry)
    (serves : Serves platform server exchange after) :
    after.Registry ∧
      after.control = controlAfter platform server.control exchange.1 := by
  rcases exchange with ⟨request, reply⟩
  cases request with
  | register ip_addr =>
      rcases serves_register registry serves with ⟨afterRegistry, control, -⟩
      exact ⟨afterRegistry, control⟩
  | poll ip_addr =>
      rcases serves_poll registry serves with ⟨rfl, -⟩
      exact ⟨registry, rfl⟩
  | download =>
      rcases serves_download serves with rfl
      exact ⟨registry, rfl⟩
  | message ip_addr text =>
      rcases serves_message registry serves
        with ⟨undecoded, rfl⟩ | ⟨model, decoded, finishes⟩
      · exact ⟨registry, by simp [controlAfter, undecoded]⟩
      · rcases submitModel_control registry finishes
          with ⟨-, afterRegistry, control⟩
        exact ⟨afterRegistry, by simp [controlAfter, decoded, control]⟩

end FederatedLearning

/-! ## A small deployment -/

/-- A neuron object with the fields which the aggregation reads. -/
def sampleNeuron (bias : ℚ) (weights : List ℚ) : CJson :=
  .object [("bias", .number bias), ("weightsArray", .array (weights.map .number))]

/--
A model over two inputs with the fields which the aggregation reads, and no
others.
-/
def jsonWithOutputs (outputs : List CJson) : CJson :=
  .object
    [("trainingscounter", .number 2),
      ("neuralnetwork", .object
        [("layers", .number 2),
          ("layersArray", .array
            [.object [("neuronsArray", .array
                [sampleNeuron 0 [], sampleNeuron 0 []])],
              .object [("neuronsArray", .array outputs)]])])]

/-- The text of such a model, around the text of its outputs. -/
def textWithOutputs (outputs : List Char) : List Char :=
  "\x7b\"trainingscounter\":2,\"neuralnetwork\":\x7b\"layers\":2,".toList ++
    "\"layersArray\":[\x7b\"neuronsArray\":[".toList ++
    "\x7b\"bias\":0,\"weightsArray\":[]\x7d,".toList ++
    "\x7b\"bias\":0,\"weightsArray\":[]\x7d]\x7d,".toList ++
    "\x7b\"neuronsArray\":[".toList ++ outputs ++ "]\x7d]\x7d\x7d".toList

def sampleJson : CJson :=
  jsonWithOutputs [sampleNeuron 3 [1, 5], sampleNeuron 1 [2, 4]]

/-- The text of the sample model. -/
def sampleText : List Char :=
  textWithOutputs
    ("\x7b\"bias\":3,\"weightsArray\":[1,5]\x7d,".toList ++
      "\x7b\"bias\":1,\"weightsArray\":[2,4]\x7d".toList)

/--
A platform which parses the text of the sample model.  It has no file for the
evaluation, which ends at once.
-/
def samplePlatform : Platform where
  cJSON_Parse text := if text = sampleText then some sampleJson else none
  toFloat := id
  exp _ := 1
  evaluation _ := ⟨none, [], fun _ => 0⟩

/-- The first record of the data for the evaluation. -/
def evaluationRecord : List Char :=
  "75,6.4,2.9,4.3,1.3,0,1,0\n".toList

/-- The same platform with a file for the evaluation. -/
def evaluatingPlatform : Platform :=
  { samplePlatform with
    evaluation := fun _ => ⟨some evaluationRecord, [], fun _ => 0⟩ }

/-- A decoded model, up to the bias of its last neuron. -/
def modelWithBias (bias : ℚ) : DecodedModel ℚ where
  globalmodelstatus := 0
  trainingscounter := 2
  neuralnetwork :=
    some
      { epoch := none
        alpha := none
        regularization := none
        lambda := none
        percentualtraining := none
        lossfunctiontype := none
        layers := some 2
        layerlist :=
          some (LinkedList.ofList
            [⟨none, none, LinkedList.ofList
                [⟨none, none, some 0, LinkedList.ofList []⟩,
                  ⟨none, none, some 0, LinkedList.ofList []⟩]⟩,
              ⟨none, none, LinkedList.ofList
                [⟨none, none, some 3, LinkedList.ofList [1, 5]⟩,
                  ⟨none, none, some bias, LinkedList.ofList [2, 4]⟩]⟩]) }

/-- What the server decodes from the sample text. -/
def sampleModel : DecodedModel ℚ :=
  modelWithBias 1

theorem strndup_sampleText : strndup sampleText sampleText.length = sampleText := by
  decide +kernel

theorem JSONToFederatedLearning_sampleJson :
    JSONToFederatedLearning id sampleJson = some sampleModel := by
  decide +kernel

theorem decode_sampleText : samplePlatform.decode sampleText = some sampleModel := by
  rw [Platform.decode, strndup_sampleText]
  simp only [samplePlatform, if_true, Option.bind_some]
  exact JSONToFederatedLearning_sampleJson

theorem complete_modelWithBias (bias : ℚ) :
    (modelWithBias bias).Complete [[0, 0], [2, 2]] := by
  refine ⟨_, rfl, ⟨_, rfl, LinkedList.forward_ofList _, ?_⟩, ?_⟩
  · intro layer member
    rw [LinkedList.values_ofList] at member
    simp only [List.mem_cons, List.not_mem_nil, or_false] at member
    rcases member with rfl | rfl
    · refine ⟨LinkedList.forward_ofList _, ?_⟩
      intro neuron member
      rw [LinkedList.values_ofList] at member
      simp only [List.mem_cons, List.not_mem_nil, or_false, or_self] at member
      subst member
      exact ⟨rfl, LinkedList.forward_ofList _⟩
    · refine ⟨LinkedList.forward_ofList _, ?_⟩
      intro neuron member
      rw [LinkedList.values_ofList] at member
      simp only [List.mem_cons, List.not_mem_nil, or_false] at member
      rcases member with rfl | rfl
      · exact ⟨rfl, LinkedList.forward_ofList _⟩
      · exact ⟨rfl, LinkedList.forward_ofList _⟩
  · rfl

theorem complete_sampleModel : sampleModel.Complete [[0, 0], [2, 2]] :=
  complete_modelWithBias 1

/-- Two layers of two neurons each. -/
def sampleConfig : List LayerConfig :=
  [⟨2, 0⟩, ⟨2, SOFTMAX⟩]

def sampleStart (interactioncycle clientnodes : ℤ) : FederatedLearning :=
  startServer sampleConfig (fun _ _ _ => 0) interactioncycle clientnodes

/-- The address of the sample client. -/
def sampleAddress : String :=
  "10.0.0.2"

/-- The sample server for one client, which has registered. -/
def sampleRegistered (interactioncycle : ℤ) : FederatedLearning :=
  let start := sampleStart interactioncycle 1
  { start with
    globalmodelstatus := 1
    nodecontrol :=
      { start.nodecontrol with
        clientnodesregistered := 1
        nodelist := LinkedList.ofList [⟨sampleAddress, 0⟩] } }

/-- The sample server for two clients, of which one has registered. -/
def sampleHalf : FederatedLearning :=
  storeNodes (sampleStart 1 2) (LinkedList.ofList [⟨sampleAddress, 0⟩])

theorem completeNeuron_sampleNeuron (bias : ℚ) (weights : List ℚ) :
    (sampleNeuron bias weights).CompleteNeuron weights.length := by
  refine ⟨⟨bias, getObjectItem_head _ _ (by decide)⟩, weights.map .number, ?_,
    List.length_map _, ?_⟩
  · exact (getObjectItem_tail _ _ (by decide)).trans
      (getObjectItem_head _ _ (by decide))
  · intro weight member
    rcases List.mem_map.mp member with ⟨value, -, rfl⟩
    exact ⟨value, rfl⟩

theorem completeModel_jsonWithOutputs {weights : List ℕ} {outputs : List CJson}
    (complete : List.Forall₂ CJson.CompleteNeuron weights outputs) :
    (jsonWithOutputs outputs).CompleteModel [[0, 0], weights] := by
  have input := completeNeuron_sampleNeuron 0 []
  refine ⟨⟨2, getObjectItem_head _ _ (by decide)⟩, _,
    (getObjectItem_tail _ _ (by decide)).trans
      (getObjectItem_head _ _ (by decide)),
    ⟨2, getObjectItem_head _ _ (by decide)⟩, _,
    (getObjectItem_tail _ _ (by decide)).trans
      (getObjectItem_head _ _ (by decide)), .cons ?_ (.cons ?_ .nil)⟩
  · exact ⟨_, getObjectItem_head _ _ (by decide),
      .cons input (.cons input .nil)⟩
  · exact ⟨_, getObjectItem_head _ _ (by decide), complete⟩

/-- Without a file there is nothing to make room for. -/
theorem hasRoom_samplePlatform (interaction : ℤ) (size : ℕ) :
    (samplePlatform.evaluation interaction).HasRoom size := by
  rintro text ⟨⟩

theorem fresh_sampleStart (interactioncycle : ℤ) {clientnodes : ℤ}
    (clients : 0 ≤ clientnodes) :
    (sampleStart interactioncycle clientnodes).Fresh [[0, 0], [2, 2]] := by
  exact fresh_startServer sampleConfig _ interactioncycle clients

theorem carries_sampleText :
    samplePlatform.Carries [[0, 0], [2, 2]] sampleText :=
  ⟨sampleModel, decode_sampleText, complete_sampleModel⟩

theorem carries_evaluatingPlatform :
    evaluatingPlatform.Carries [[0, 0], [2, 2]] sampleText := by
  have sameDecoder : evaluatingPlatform.decode = samplePlatform.decode := rfl
  rw [Platform.Carries, sameDecoder]
  exact carries_sampleText

end FederatedEdge.Server
