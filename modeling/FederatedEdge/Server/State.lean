import FederatedEdge.Json.CJson
import FederatedEdge.Network.Structure
import Mathlib.Data.Rat.Defs

/-!
# The state of the server

The singleton `FederatedLearning` instance of the server.  The client nodes of
`NodeControl` form a doubly linked list between `firstclientnode` and
`lastclientnode`; the network in `NodeControl` is the accumulator.

What the server takes from its surroundings is its `Platform`: the cJSON parser,
the arithmetic of floats, and the file of the evaluations.
-/

namespace FederatedEdge.Server

open FederatedEdge.Library
open FederatedEdge.Network

structure ClientNode where
  ip_id : String
  interaction : ℤ
deriving DecidableEq, Repr

structure NodeControl where
  currentinteraction : ℤ
  interactioncycle : ℤ
  clientnodes : ℤ
  clientnodesregistered : ℤ
  neuralnetwork : NeuralNetwork ℚ
  nodelist : LinkedList ClientNode
deriving DecidableEq, Repr

structure FederatedLearning where
  globalmodelstatus : ℤ
  trainingscounter : ℤ
  neuralnetwork : NeuralNetwork ℚ
  nodecontrol : NodeControl
deriving DecidableEq, Repr

namespace FederatedLearning

/-- The registered client nodes in the order of their cells. -/
def nodes (server : FederatedLearning) : List ClientNode :=
  server.nodecontrol.nodelist.values

/-- The network which sums up the models of the current round. -/
def accumulator (server : FederatedLearning) : NeuralNetwork ℚ :=
  server.nodecontrol.neuralnetwork

end FederatedLearning

/-! ## The surroundings -/

/--
What one evaluation finds: the text of `datasetevaluation.csv`, if this can be
opened, what is left in the memory of `line`, and the numbers which are read
from `trainingsample` before they have been written.
-/
structure EvaluationInput where
  datasetevaluation : Option (List Char)
  line : List Char
  trainingsample : ℕ → ℚ

/--
What the server uses of the platform and of cJSON.  The evaluation at the end of
an interaction may find another file than the ones before.
-/
structure Platform where
  cJSON_Parse : List Char → Option Json.CJson
  toFloat : ℚ → ℚ
  exp : ℚ → ℚ
  evaluation : ℤ → EvaluationInput

end FederatedEdge.Server
