import FederatedEdge.Federation.ConfiguredForms
import FederatedEdge.Json.CompleteModel
import FederatedEdge.Server.Reachable

/-!
# What a message does

A message with a complete model from a registered node is counted and
aggregated.  Every other message should leave the server as it is.  But the
handler checks only whether the text is an object.  With any object it
increments the counter of a node, which it may not have found, and then
aggregates what the object contains.  So the messages are treated as they should
be exactly when they are no objects, or acceptable and do not close a round
where this is impossible.
-/

namespace FederatedEdge.Federation

open FederatedEdge.Library
open FederatedEdge.Network
open FederatedEdge.Json
open FederatedEdge.Server
open FederatedEdge.Server.FederatedLearning

/--
The peer is a registered node, and the text is an object with a complete model
of the shape of the global network.
-/
def Acceptable (platform : Platform) (server : FederatedLearning)
    (ip_addr : String) (text : List Char) : Prop :=
  ip_addr ∈ server.nodes.map ClientNode.ip_id ∧
    ∃ json, platform.cJSON_Parse (strndup text text.length) = some json ∧
      json.CompleteModel server.neuralnetwork.shape

variable {platform : Platform} {shape : Shape} {server after : FederatedLearning}
  {ip_addr : String} {text : List Char}

/-! ## Objects and other texts -/

theorem Acceptable.decode
    (acceptable : Acceptable platform server ip_addr text) :
    ∃ clientmodel, platform.decode text = some clientmodel ∧
      clientmodel.Complete server.neuralnetwork.shape := by
  rcases acceptable.2 with ⟨json, parsed, complete⟩
  rw [Platform.decode, parsed]
  exact decodeModel_complete platform.toFloat (fun _ => none) complete

/-! ## Changes and faults -/

end FederatedEdge.Federation
