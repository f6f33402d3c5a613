import FederatedEdge.Network.Structure
import Mathlib.Data.Rat.Defs

/-!
# The state of an ESP32 client

The client shares the network structures with the server, but its
`FederatedLearning` has no node control.
-/

namespace FederatedEdge.Client

open FederatedEdge.Network

structure FederatedLearning where
  globalmodelstatus : ℤ
  trainingscounter : ℤ
  neuralnetwork : NeuralNetwork ℚ
deriving DecidableEq, Repr

end FederatedEdge.Client
