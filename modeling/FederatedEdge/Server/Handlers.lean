import FederatedEdge.Json.Converter
import FederatedEdge.Server.Aggregation

/-!
# The request handlers of the server

The handlers of the HTTP thread, `handle_get_noderegister`,
`handle_get_checkmodelstatus` and `handle_get_globalmodel`, and the handler of
the WebSocket thread, `handle_clint_model_message`.  A request is served
without interruption.

The cJSON parser, the rounding of doubles to floats and what the evaluations
find are parameters.
-/

namespace FederatedEdge.Server

open FederatedEdge.Library
open FederatedEdge.Network
open FederatedEdge.Json

/-! ## HTTP handlers -/

/-- The `status` texts which a registration answers with. -/
inductive RegistrationStatus where
  | limitReached
  | added
  | registred
deriving DecidableEq, Repr

def RegistrationStatus.text : RegistrationStatus → String
  | .limitReached => "limit reached"
  | .added => "added"
  | .registred => "registred"

/-- A node list which has grown by the new client node, and its count. -/
def storeNodes (server : FederatedLearning)
    (nodelist : LinkedList ClientNode) : FederatedLearning :=
  { server with
    nodecontrol :=
      { server.nodecontrol with
        clientnodesregistered := server.nodecontrol.clientnodesregistered + 1
        nodelist := nodelist } }

/-- The end of a registration: with all nodes there, the model is available. -/
def openWhenComplete (server : FederatedLearning) : FederatedLearning :=
  if server.nodecontrol.clientnodesregistered =
      server.nodecontrol.clientnodes then
    { server with globalmodelstatus := 1 }
  else server

def handle_get_noderegister (server : FederatedLearning) (ip_addr : String) :
    Exec (FederatedLearning × RegistrationStatus) :=
  let clientnode : ClientNode := { ip_id := ip_addr, interaction := 0 }
  let nodelist := server.nodecontrol.nodelist
  if server.nodecontrol.clientnodesregistered =
      server.nodecontrol.clientnodes then
    .ok (openWhenComplete server, .limitReached)
  else
    match nodelist.first with
    | none =>
        let single := LinkedList.empty.append clientnode
        .ok (openWhenComplete (storeNodes server single), .added)
    | some _ => do
        let found ← nodelist.find fun node => node.ip_id = ip_addr
        match found with
        | some _ => .ok (openWhenComplete server, .registred)
        | none =>
            let _ ← Exec.deref nodelist.last
            let longer := nodelist.append clientnode
            .ok (openWhenComplete (storeNodes server longer), .added)

/-- The status is 1 when the client may train the next model. -/
def handle_get_checkmodelstatus (server : FederatedLearning)
    (ip_addr : String) : Exec ℤ := do
  let found ← server.nodecontrol.nodelist.find fun node => node.ip_id = ip_addr
  match found.bind (server.nodes[·]?) with
  | none => .ok 0
  | some currentclientnode =>
      if server.nodecontrol.clientnodesregistered =
            server.nodecontrol.clientnodes ∧
          currentclientnode.interaction =
            server.nodecontrol.currentinteraction ∧
          server.globalmodelstatus ≠ 0 then
        .ok 1
      else .ok 0

def handle_get_globalmodel (server : FederatedLearning) : Exec CJson :=
  FederatedLearningToJSON server

/-! ## WebSocket handler -/

/-- The character which ends a C string. -/
def nul : Char :=
  Char.ofNat 0

/-- At most `length` characters, up to the terminating null. -/
def strndup (message : List Char) (length : ℕ) : List Char :=
  (message.take length).takeWhile (· ≠ nul)

/-- `currentclientnode->interaction++` in the cell at an address. -/
def countInteraction (server : FederatedLearning) (address : ℕ) :
    FederatedLearning :=
  { server with
    nodecontrol :=
      { server.nodecontrol with
        nodelist :=
          server.nodecontrol.nodelist.modifyAt address fun node =>
            { node with interaction := node.interaction + 1 } } }

/--
Count and aggregate a decoded model.  The node is not checked: for an address
which was not found the null pointer is followed.
-/
def acceptModel (platform : Platform) (server : FederatedLearning)
    (currentclientnode : Option ℕ) (clientmodel : DecodedModel ℚ) :
    Exec FederatedLearning := do
  let address ← Exec.deref currentclientnode
  AggregationModel platform (countInteraction server address) clientmodel

/-- A decoded model from an address: find the node and accept the model. -/
def submitModel (platform : Platform) (server : FederatedLearning)
    (ip_addr : String) (clientmodel : DecodedModel ℚ) :
    Exec FederatedLearning := do
  let currentclientnode ←
    server.nodecontrol.nodelist.find fun node => node.ip_id = ip_addr
  acceptModel platform server currentclientnode clientmodel

def handle_clint_model_message (platform : Platform)
    (server : FederatedLearning) (message : List Char) (length : ℕ)
    (ip_addr : String) : Exec FederatedLearning :=
  match platform.cJSON_Parse (strndup message length) with
  | none => .ok server
  | some json_model => do
      let currentclientnode ←
        server.nodecontrol.nodelist.find fun node => node.ip_id = ip_addr
      match JSONToFederatedLearning platform.toFloat json_model with
      | none => .ok server
      | some clientmodel =>
          acceptModel platform server currentclientnode clientmodel

end FederatedEdge.Server
