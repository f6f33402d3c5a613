import FederatedEdge.Client.Training
import FederatedEdge.Library.Buffers
import Mathlib.Algebra.BigOperators.Group.List.Basic
import Mathlib.Data.List.Chain

/-!
# Back propagation and its temporary arrays

`BackPropagation` walks from the last layer down and carries the deltas and a
matrix of weights from one layer to the next.  Every access to the label vector,
to `deltafunctions`, to `deltafunctionsaux` and to the matrix is recorded.  A
read which finds no written element continues with an unknown value.

All writes stay inside the allocations.  The copy of the deltas and the sum over
it use `deltafunctionsnumber`, which is the number of deltas for the layer below
the output layer only; further down it is the width of the layer itself, so that
the reads are valid where adjacent hidden layers have the same width.
-/

namespace FederatedEdge.Client

open FederatedEdge.Library

/-- The arrays which `BackPropagation` accesses by index. -/
inductive TrainingArray where
  | label
  | deltafunctions
  | deltafunctionsaux
  | weights
deriving DecidableEq, Repr

/-- Training steps with the accesses they make. -/
abbrev Training := Traced TrainingArray

variable {R : Type}

/-- The variables which one turn over the layers leaves to the next. -/
structure Scratch (R : Type) where
  weightscolumn : ℤ
  weightslines : ℤ
  deltafunctionsnumber : ℤ
  weights : Table R
  deltafunctions : Buffer R
deriving DecidableEq, Repr

def Scratch.initial : Scratch R where
  weightscolumn := 0
  weightslines := 0
  deltafunctionsnumber := 0
  weights := []
  deltafunctions := []

section Program

variable [Field R] [LinearOrder R]
variable (stray : ℕ → R) (alpha : R) (regularization : ℤ) (lambda : R)

/-- The inner loop over the weights of neuron `i`, which also fills column `i`. -/
def updateWeights (previouslayer : TrainingLayer R) (deltafunctions : Buffer R)
    (i : ℕ) (bound : ℤ) (weightvalues : List R) (weights : Table R) :
    Training (List R × Table R) :=
  walkLoop
    (fun j weight weights => do
      let previousneuron ← Exec.deref previouslayer.neuronvalues[j]?
      let deltafunction ← deltafunctions.load .deltafunctions stray i
      let weight :=
        weight +
          StochasticGradientDescentCalculation weight
            previousneuron.activationfunctionvalue deltafunction
            regularization alpha lambda
      let weights ← weights.store .weights j i weight
      pure (weight, weights))
    bound.toNat weightvalues weights

/--
The loop which updates the neurons of a layer.  The two branches differ in the
bound of the loop over the weights.
-/
def updateNeurons (bound : TrainingNeuron R → ℤ)
    (previouslayer currentlayer : TrainingLayer R) (deltafunctions : Buffer R)
    (weights : Table R) : Training (List (TrainingNeuron R) × Table R) :=
  walkLoop
    (fun i currentneuron weights => do
      let deltafunction ← deltafunctions.load .deltafunctions stray i
      let (weightvalues, weights) ←
        updateWeights stray alpha regularization lambda previouslayer
          deltafunctions i (bound currentneuron) currentneuron.weightvalues
          weights
      pure
        ({ currentneuron with
            bias := currentneuron.bias + -deltafunction * alpha
            weightvalues := weightvalues },
          weights))
    currentlayer.neurons.toNat currentlayer.neuronvalues weights

/-- The loop which subtracts the labels from the output values. -/
def labelDeltas (label : List R) (currentlayer : TrainingLayer R)
    (deltafunctions : Buffer R) :
    Training (List (TrainingNeuron R) × Buffer R) :=
  walkLoop
    (fun i currentneuron deltafunctions => do
      let expected ←
        Buffer.load TrainingArray.label stray (label.map some) i
      let deltafunctions ←
        Buffer.store TrainingArray.deltafunctions deltafunctions i
          (currentneuron.activationfunctionvalue - expected)
      pure (currentneuron, deltafunctions))
    currentlayer.neurons.toNat currentlayer.neuronvalues deltafunctions

/-- The branch for the last layer. -/
def lastLayerTurn (label : List R)
    (currentlayer previouslayer : TrainingLayer R) :
    Training (TrainingLayer R × Scratch R) := do
  let deltafunctionsnumber := currentlayer.neurons
  let (_, deltafunctions) ←
    labelDeltas stray label currentlayer
      (Buffer.allocate deltafunctionsnumber.toNat)
  let weightslines := previouslayer.neurons
  let weightscolumn := currentlayer.neurons
  let weights ←
    Table.allocate TrainingArray.weights weightslines.toNat weightscolumn.toNat
  let (neuronvalues, weights) ←
    updateNeurons stray alpha regularization lambda
      (fun _ => previouslayer.neurons) previouslayer currentlayer
      deltafunctions weights
  pure
    ({ currentlayer with neuronvalues := neuronvalues },
      { weightscolumn := weightscolumn
        weightslines := weightslines
        deltafunctionsnumber := deltafunctionsnumber
        weights := weights
        deltafunctions := deltafunctions })

/-- The sum over the deltas of the layer above and a line of the matrix. -/
def accumulateDelta (deltafunctionsaux : Buffer R) (scratch : Scratch R)
    (i : ℕ) : Training R :=
  countLoop
    (fun j deltafunctionaccumulation => do
      let deltafunction ←
        deltafunctionsaux.load TrainingArray.deltafunctionsaux stray j
      let weight ← scratch.weights.load TrainingArray.weights stray i j
      pure (deltafunctionaccumulation + deltafunction * weight))
    scratch.weightscolumn.toNat 0

/-- The loop which calculates the deltas of a layer below the last one. -/
def accumulateDeltas (currentlayer : TrainingLayer R) (scratch : Scratch R)
    (deltafunctionsaux deltafunctions : Buffer R) :
    Training (List (TrainingNeuron R) × Buffer R) :=
  walkLoop
    (fun i currentneuron deltafunctions => do
      let deltafunctionaccumulation ←
        accumulateDelta stray deltafunctionsaux scratch i
      let deltafunctions ←
        Buffer.store TrainingArray.deltafunctions deltafunctions i
          (deltafunctionaccumulation *
            ActivationFunctionDerivativeCalculation
              currentneuron.activationfunctionvalue
              currentlayer.activationfunctiontype)
      pure (currentneuron, deltafunctions))
    scratch.weightslines.toNat currentlayer.neuronvalues deltafunctions

/-- The branch for the other layers. -/
def hiddenLayerTurn (currentlayer previouslayer : TrainingLayer R)
    (scratch : Scratch R) : Training (TrainingLayer R × Scratch R) := do
  let deltafunctionsaux ←
    Buffer.copy TrainingArray.deltafunctionsaux TrainingArray.deltafunctions
      stray (Buffer.allocate scratch.deltafunctionsnumber.toNat)
      scratch.deltafunctions scratch.deltafunctionsnumber.toNat
  let (_, deltafunctions) ←
    accumulateDeltas stray currentlayer scratch deltafunctionsaux
      (scratch.deltafunctions.resize currentlayer.neurons.toNat)
  scratch.weights.free TrainingArray.weights scratch.weightslines.toNat
  let weightscolumn := scratch.weightslines
  let weightslines := previouslayer.neurons
  let deltafunctionsnumber := weightslines
  let weights ←
    Table.allocate TrainingArray.weights weightslines.toNat weightscolumn.toNat
  let (neuronvalues, weights) ←
    updateNeurons stray alpha regularization lambda (·.weights)
      previouslayer currentlayer deltafunctions weights
  pure
    ({ currentlayer with neuronvalues := neuronvalues },
      { weightscolumn := weightscolumn
        weightslines := weightslines
        deltafunctionsnumber := deltafunctionsnumber
        weights := weights
        deltafunctions := deltafunctions })

/-- The turns below the last layer; the layers are given from there down. -/
def hiddenLayerTurns :
    ℕ → List (TrainingLayer R) → Scratch R →
      Training (List (TrainingLayer R) × Scratch R)
  | 0, layers, scratch => pure (layers, scratch)
  | turns + 1, currentlayer :: previouslayer :: below, scratch => do
      let (currentlayer, scratch) ←
        hiddenLayerTurn stray alpha regularization lambda currentlayer
          previouslayer scratch
      let (below, scratch) ←
        hiddenLayerTurns turns (previouslayer :: below) scratch
      pure (currentlayer :: below, scratch)
  | _ + 1, _, _ => throw .nullPointer

/-- The turns of the loop `for (layer = layers; layer > 1; layer--)`. -/
def layerTurns (label : List R) :
    ℕ → List (TrainingLayer R) →
      Training (List (TrainingLayer R) × Scratch R)
  | 0, layers => pure (layers, Scratch.initial)
  | turns + 1, currentlayer :: previouslayer :: below => do
      let (currentlayer, scratch) ←
        lastLayerTurn stray alpha regularization lambda label currentlayer
          previouslayer
      let (below, scratch) ←
        hiddenLayerTurns stray alpha regularization lambda turns
          (previouslayer :: below) scratch
      pure (currentlayer :: below, scratch)
  | _ + 1, _ => throw .nullPointer

def BackPropagation (neuralnetwork : TrainingNetwork R) (label : List R) :
    Training (TrainingNetwork R) := do
  let (layers, scratch) ←
    layerTurns stray alpha regularization lambda label
      (neuralnetwork.layers - 1).toNat neuralnetwork.layervalues.reverse
  scratch.weights.free TrainingArray.weights scratch.weightslines.toNat
  pure { neuralnetwork with layervalues := layers.reverse }

end Program

/-! ## What the turns compute -/

/-- The activation values of a layer. -/
def TrainingLayer.outputs (layer : TrainingLayer R) : List R :=
  layer.neuronvalues.map (·.activationfunctionvalue)

/-- Weight `line` of neuron `column`. -/
def weightEntry (neurons : List (TrainingNeuron R)) (line column : ℕ) :
    Option R :=
  neurons[column]? >>= fun neuron => neuron.weightvalues[line]?

/-- When the reads of the turn for a hidden layer find what was written. -/
def TurnReads (number above width : ℕ) : Prop :=
  number ≤ above ∧ (width = 0 ∨ above ≤ number)

/-- The reads of all turns find what was written, for layers of such widths. -/
def TurnsRead : ℕ → ℕ → List ℕ → Prop
  | number, above, width :: lower :: below =>
      TurnReads number above width ∧ TurnsRead lower width (lower :: below)
  | _, _, _ => True

section Descent

variable [Field R] [LinearOrder R]
variable (alpha : R) (regularization : ℤ) (lambda : R)

/-- The weights of a neuron with a given delta after the descent. -/
def descendWeights (outputs : List R) (deltafunction : R)
    (weightvalues : List R) : List R :=
  List.zipWith
    (fun weight output =>
      weight +
        StochasticGradientDescentCalculation weight output deltafunction
          regularization alpha lambda)
    weightvalues outputs

def descendNeuron (outputs : List R) (neuron : TrainingNeuron R)
    (deltafunction : R) : TrainingNeuron R :=
  { neuron with
    bias := neuron.bias + -deltafunction * alpha
    weightvalues :=
      descendWeights alpha regularization lambda outputs deltafunction
        neuron.weightvalues }

/-- A layer with given deltas after the descent. -/
def descendLayer (outputs deltafunctions : List R) (layer : TrainingLayer R) :
    TrainingLayer R :=
  { layer with
    neuronvalues :=
      List.zipWith (descendNeuron alpha regularization lambda outputs)
        layer.neuronvalues deltafunctions }

/-- The deltas of the output layer. -/
def outputDeltas (label : List R) (layer : TrainingLayer R) : List R :=
  List.zipWith (fun neuron expected => neuron.activationfunctionvalue - expected)
    layer.neuronvalues label

/-- The deltas of a layer, from the neurons above and their deltas. -/
def propagateDeltas (deltafunctions : List R) (above : List (TrainingNeuron R))
    (layer : TrainingLayer R) : List R :=
  layer.neuronvalues.mapIdx fun i neuron =>
    (List.zipWith
        (fun deltafunction upper =>
          deltafunction * upper.weightvalues[i]?.getD 0)
        deltafunctions above).sum *
      ActivationFunctionDerivativeCalculation neuron.activationfunctionvalue
        layer.activationfunctiontype

/-- The layers below the last one, which descend one after the other. -/
def descendBelow :
    List R → List (TrainingNeuron R) → List (TrainingLayer R) →
      List (TrainingLayer R)
  | deltafunctions, above, currentlayer :: previouslayer :: below =>
      let deltafunctions := propagateDeltas deltafunctions above currentlayer
      let descended :=
        descendLayer alpha regularization lambda previouslayer.outputs
          deltafunctions currentlayer
      descended ::
        descendBelow deltafunctions descended.neuronvalues
          (previouslayer :: below)
  | _, _, layers => layers

/-- All layers, which are given from the last one down, after one call. -/
def descendAll (label : List R) :
    List (TrainingLayer R) → List (TrainingLayer R)
  | lastlayer :: previouslayer :: below =>
      let deltafunctions := outputDeltas label lastlayer
      let descended :=
        descendLayer alpha regularization lambda previouslayer.outputs
          deltafunctions lastlayer
      descended ::
        descendBelow alpha regularization lambda deltafunctions
          descended.neuronvalues (previouslayer :: below)
  | layers => layers

end Descent

/--
The scratch variables carry the deltas of a layer and the matrix of its weights
to the layer below, which has `lines` neurons.
-/
structure Scratch.Carries (scratch : Scratch R) (lines number : ℕ)
    (deltafunctions : List R) (above : List (TrainingNeuron R)) : Prop where
  weightslines : scratch.weightslines.toNat = lines
  weightscolumn : scratch.weightscolumn.toNat = above.length
  deltafunctionsnumber : scratch.deltafunctionsnumber.toNat = number
  deltas : deltafunctions.length = above.length
  deltafunctions : scratch.deltafunctions = deltafunctions.map some
  weights : scratch.weights.Holds lines above.length (weightEntry above)
  complete : ∀ neuron ∈ above, neuron.weightvalues.length = lines

/-- The matrix can be freed. -/
def Scratch.Freeable (scratch : Scratch R) : Prop :=
  ∃ columns entry,
    scratch.weights.Holds scratch.weightslines.toNat columns entry

theorem Scratch.Carries.freeable {scratch : Scratch R} {lines number : ℕ}
    {deltafunctions : List R} {above : List (TrainingNeuron R)}
    (carries : scratch.Carries lines number deltafunctions above) :
    scratch.Freeable :=
  ⟨_, _, carries.weightslines ▸ carries.weights⟩

end FederatedEdge.Client
