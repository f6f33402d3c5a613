import FederatedEdge.Network.Averaging
import FederatedEdge.Network.Memory
import FederatedEdge.Server.PerformanceMetrics
import FederatedEdge.Server.State

/-!
# Aggregating the models of the clients

`AggregationModel` adds a client's model to the accumulator.  When no
registered node is left at the current interaction, it publishes: the averaged
accumulator becomes the global network, the accumulator is reset, and the new
network is evaluated before the interaction is counted.

The arithmetic is exact.  A counter sum of zero, by which the program divides
to infinities, is outside of it.
-/

namespace FederatedEdge.Server

open FederatedEdge.Library
open FederatedEdge.Network

/--
The call of `PerformanceMetrics`: an evaluation which leaves an array goes wrong.
Otherwise only activation values change, which no message carries.
-/
def PerformanceMetrics (platform : Platform) (evaluation : EvaluationInput)
    (neuralnetwork : NeuralNetwork ℚ) (PercentualEvaluation : ℤ)
    (Threshold : ℚ) : Exec Unit := do
  let (_, accesses) ←
    Evaluation.PerformanceMetrics platform.exp (Dataset.strtof platform.toFloat)
      evaluation.trainingsample Threshold evaluation.datasetevaluation
      evaluation.line (Client.training neuralnetwork.read fun _ _ => 0)
      PercentualEvaluation []
  if ∀ access ∈ accesses, access.Inside then .ok () else .error .outOfBounds

/-- The second half of `AggregationModel`, which closes the round. -/
def publishModel (platform : Platform) (server : FederatedLearning) :
    Exec FederatedLearning := do
  let averaged ←
    FederatedAveraging server.nodecontrol.neuralnetwork server.trainingscounter
  freeNeuralNetwork server.neuralnetwork
  let published ← CopyNeuralNetwork averaged
  let cleared ← SetNeuralNetworkZeroWeightValue averaged
  PerformanceMetrics platform
    (platform.evaluation server.nodecontrol.currentinteraction) published 30
    (1 / 2)
  .ok
    { globalmodelstatus := 1
      trainingscounter := 0
      neuralnetwork := published
      nodecontrol :=
        { server.nodecontrol with
          neuralnetwork := cleared
          currentinteraction := server.nodecontrol.currentinteraction + 1 } }

/-- The state after the sum: the new accumulator and the new counter sum. -/
def storeSum (server : FederatedLearning) (sum : NeuralNetwork ℚ)
    (clienttrainingcounter : ℤ) : FederatedLearning :=
  { server with
    globalmodelstatus := 0
    trainingscounter := server.trainingscounter + clienttrainingcounter
    nodecontrol := { server.nodecontrol with neuralnetwork := sum } }

def AggregationModel (platform : Platform) (server : FederatedLearning)
    (clientmodel : DecodedModel ℚ) : Exec FederatedLearning :=
  if server.nodecontrol.currentinteraction ≥
      server.nodecontrol.interactioncycle then
    -- the application reached the max interaction
    .ok { server with globalmodelstatus := 0 }
  else do
    let clientneuralnetwork ← Exec.read clientmodel.neuralnetwork
    let sum ←
      FederatedAveragingSum server.nodecontrol.neuralnetwork
        clientneuralnetwork clientmodel.trainingscounter
    let summed := storeSum server sum clientmodel.trainingscounter
    -- check if all nodes sent the local model
    let currentclientnode ←
      server.nodecontrol.nodelist.find fun node =>
        server.nodecontrol.currentinteraction = node.interaction
    match currentclientnode with
    | some _ => .ok { summed with globalmodelstatus := 1 }
    | none => publishModel platform summed

end FederatedEdge.Server
