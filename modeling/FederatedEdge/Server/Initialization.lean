import FederatedEdge.Network.Content
import FederatedEdge.Server.Ledger

/-!
# The server at its start

`setFederatedLearningGlobalModel` builds two networks from one layer
configuration: the global network with random weights and the accumulator with
zero weights.  The configuration, the number of rounds and the number of
clients are constants of the source; they are arguments of `startServer` here,
and `setFederatedLearningGlobalModel` is its instance with the constants.
-/

namespace FederatedEdge.Server

open FederatedEdge.Library
open FederatedEdge.Network

structure LayerConfig where
  neurons : ℕ
  activationfunctiontype : ℤ
deriving DecidableEq, Repr

def RELU : ℤ := 2

def SOFTMAX : ℤ := 4

def CATEGORICAL_CROSS_ENTROPY : ℤ := 2

def L2 : ℤ := 2

def WEIGHT_VALUE_ZERO : ℤ := 0

def WEIGHT_VALUE_RANDOM : ℤ := 1

/-- The initial value of a weight, for what `rand()` returns. -/
def WeightValue (rand : ℕ) (weightvalue : ℤ) : ℚ :=
  if weightvalue = 1 then (rand % 100 : ℕ) / 100
  else if weightvalue = 2 then 1 / 2
  else 0

/-- The body of the loop over the neurons. -/
def initializeNeuron (neurontype : String) (weights : ℕ) (weight : ℕ → ℚ) :
    Neuron ℚ where
  neurontype := neurontype
  weights := weights
  bias := 0
  weightlist :=
    (List.range weights).foldl
      (fun weightlist k => weightlist.append (weight k)) LinkedList.empty

/-- The first layer is the input and the last one the output. -/
def neurontypeAt (layers i : ℕ) : String :=
  if i = 0 then "INPUT" else if i = layers - 1 then "OUTPUT" else "HIDDEN"

/-- The body of the loop over the layers. -/
def initializeLayer (layers i previousneurons : ℕ) (config : LayerConfig)
    (weight : ℕ → ℕ → ℚ) : Layer ℚ where
  activationfunctiontype := config.activationfunctiontype
  neurons := config.neurons
  neuronlist :=
    (List.range config.neurons).foldl
      (fun neuronlist j =>
        neuronlist.append
          (initializeNeuron (neurontypeAt layers i)
            (if i = 0 then 0 else previousneurons) (weight j)))
      LinkedList.empty

/-- The loop over the layers, which remembers the previous layer. -/
def initializeLayers (layers : ℕ) (weight : ℕ → ℕ → ℕ → ℚ) :
    ℕ → ℕ → List LayerConfig → LinkedList (Layer ℚ) → LinkedList (Layer ℚ)
  | _, _, [], layerlist => layerlist
  | i, previousneurons, config :: rest, layerlist =>
      initializeLayers layers weight (i + 1) config.neurons rest
        (layerlist.append
          (initializeLayer layers i previousneurons config (weight i)))

/--
The layers of a new network; `rand` holds the random numbers by layer, neuron
and weight.
-/
def InitializeNeuralNetWork (layersconfig : List LayerConfig)
    (rand : ℕ → ℕ → ℕ → ℕ) (weightvalue : ℤ) : LinkedList (Layer ℚ) :=
  initializeLayers layersconfig.length
    (fun i j k => WeightValue (rand i j k) weightvalue) 0 0 layersconfig
    LinkedList.empty

/-- A network with the training parameters of both networks. -/
def startNetwork (layersconfig : List LayerConfig) (rand : ℕ → ℕ → ℕ → ℕ)
    (weightvalue : ℤ) : NeuralNetwork ℚ where
  epoch := 8
  alpha := 1 / 1000
  regularization := L2
  lambda := 1 / 100
  percentualtraining := 120
  lossfunctiontype := CATEGORICAL_CROSS_ENTROPY
  layers := layersconfig.length
  layerlist := InitializeNeuralNetWork layersconfig rand weightvalue

/-- The instance before any request, for any configuration. -/
def startServer (layersconfig : List LayerConfig) (rand : ℕ → ℕ → ℕ → ℕ)
    (interactioncycle clientnodes : ℤ) : FederatedLearning where
  globalmodelstatus := 0
  trainingscounter := 0
  neuralnetwork := startNetwork layersconfig rand WEIGHT_VALUE_RANDOM
  nodecontrol :=
    { currentinteraction := 0
      interactioncycle := interactioncycle
      clientnodes := clientnodes
      clientnodesregistered := 0
      neuralnetwork := startNetwork layersconfig rand WEIGHT_VALUE_ZERO
      nodelist := LinkedList.empty }

def setFederatedLearningGlobalModel (rand : ℕ → ℕ → ℕ → ℕ) :
    FederatedLearning :=
  startServer [⟨4, 0⟩, ⟨3, RELU⟩, ⟨3, RELU⟩, ⟨3, SOFTMAX⟩] rand 11 1

/-! ## What has been built -/

/-- The numbers of weights by layer and neuron. -/
def configuredShape : ℕ → List LayerConfig → Shape
  | _, [] => []
  | previousneurons, config :: rest =>
      List.replicate config.neurons previousneurons ::
        configuredShape config.neurons rest

/-- The shape of the networks of a configuration. -/
def startShape (layersconfig : List LayerConfig) : Shape :=
  configuredShape 0 layersconfig

/-- The sequence of the layers which the loop appends. -/
def initialLayers (layers : ℕ) (weight : ℕ → ℕ → ℕ → ℚ) :
    ℕ → ℕ → List LayerConfig → List (Layer ℚ)
  | _, _, [] => []
  | i, previousneurons, config :: rest =>
      initializeLayer layers i previousneurons config (weight i) ::
        initialLayers layers weight (i + 1) config.neurons rest

theorem initializeLayers_ofList (layers : ℕ) (weight : ℕ → ℕ → ℕ → ℚ)
    (i previousneurons : ℕ) (configs : List LayerConfig)
    (done : List (Layer ℚ)) :
    initializeLayers layers weight i previousneurons configs
        (LinkedList.ofList done) =
      LinkedList.ofList
        (done ++ initialLayers layers weight i previousneurons configs) := by
  induction configs generalizing i previousneurons done with
  | nil => simp [initializeLayers, initialLayers]
  | cons config rest inductionHypothesis =>
      rw [initializeLayers, LinkedList.append_ofList, inductionHypothesis,
        initialLayers, List.append_assoc]
      rfl

theorem layerlist_startNetwork (layersconfig : List LayerConfig)
    (rand : ℕ → ℕ → ℕ → ℕ) (weightvalue : ℤ) :
    (startNetwork layersconfig rand weightvalue).layerlist =
      LinkedList.ofList
        (initialLayers layersconfig.length
          (fun i j k => WeightValue (rand i j k) weightvalue) 0 0
          layersconfig) :=
  initializeLayers_ofList _ _ 0 0 layersconfig []

theorem forward_initializeLayer (layers i previousneurons : ℕ)
    (config : LayerConfig) (weight : ℕ → ℕ → ℚ) :
    (initializeLayer layers i previousneurons config weight).Forward := by
  rw [Layer.Forward, initializeLayer, LinkedList.foldl_append_apply]
  constructor
  · exact LinkedList.forward_ofList _
  · intro neuron member
    rw [LinkedList.values_ofList] at member
    rcases List.mem_map.mp member with ⟨j, -, rfl⟩
    rw [initializeNeuron, LinkedList.foldl_append_apply]
    exact LinkedList.forward_ofList _

theorem forward_initialLayers (layers : ℕ) (weight : ℕ → ℕ → ℕ → ℚ)
    (i previousneurons : ℕ) (configs : List LayerConfig) :
    ∀ layer ∈ initialLayers layers weight i previousneurons configs,
      layer.Forward := by
  induction configs generalizing i previousneurons with
  | nil => simp [initialLayers]
  | cons config rest inductionHypothesis =>
      intro layer member
      rcases List.mem_cons.mp member with rfl | member
      · exact forward_initializeLayer _ _ _ _ _
      · exact inductionHypothesis _ _ layer member

/-- A new network runs forward through all of its lists. -/
theorem forward_startNetwork (layersconfig : List LayerConfig)
    (rand : ℕ → ℕ → ℕ → ℕ) (weightvalue : ℤ) :
    (startNetwork layersconfig rand weightvalue).Forward := by
  rw [NeuralNetwork.Forward, layerlist_startNetwork]
  constructor
  · exact LinkedList.forward_ofList _
  · rw [LinkedList.values_ofList]
    exact forward_initialLayers _ _ _ _ _

/-- The parameters of a new layer. -/
theorem parameters_initializeLayer (layers i previousneurons : ℕ)
    (config : LayerConfig) (weight : ℕ → ℕ → ℚ) :
    (initializeLayer layers i previousneurons config weight).parameters =
      (List.range config.neurons).map fun j =>
        (0, (List.range (if i = 0 then 0 else previousneurons)).map (weight j)) := by
  rw [Layer.parameters, initializeLayer, LinkedList.foldl_append_apply,
    LinkedList.values_ofList, List.map_map]
  apply List.map_congr_left
  intro j _
  simp only [Function.comp_apply, Neuron.parameters, initializeNeuron,
    LinkedList.foldl_append_apply, LinkedList.values_ofList]

theorem shape_initialLayers (layers : ℕ) (weight : ℕ → ℕ → ℕ → ℚ)
    (i previousneurons : ℕ) (configs : List LayerConfig)
    (input : i = 0 → previousneurons = 0) :
    Parameters.shape
        ((initialLayers layers weight i previousneurons configs).map
          Layer.parameters) =
      configuredShape previousneurons configs := by
  induction configs generalizing i previousneurons with
  | nil => rfl
  | cons config rest inductionHypothesis =>
      have weights : (if i = 0 then 0 else previousneurons) = previousneurons := by
        by_cases first : i = 0
        · rw [if_pos first, input first]
        · rw [if_neg first]
      have layer :
          ((List.range config.neurons).map fun j =>
              ((0 : ℚ), (List.range previousneurons).map (weight i j))).map
              (fun neuron => neuron.2.length) =
            List.replicate config.neurons previousneurons := by
        rw [List.map_map, List.eq_replicate_iff]
        simp
      have later :=
        inductionHypothesis (i + 1) config.neurons (by simp)
      rw [initialLayers, List.map_cons, parameters_initializeLayer, weights,
        configuredShape, ← later, ← layer]
      rfl

theorem shape_startNetwork (layersconfig : List LayerConfig)
    (rand : ℕ → ℕ → ℕ → ℕ) (weightvalue : ℤ) :
    (startNetwork layersconfig rand weightvalue).shape =
      startShape layersconfig := by
  rw [NeuralNetwork.shape, NeuralNetwork.parameters, layerlist_startNetwork,
    LinkedList.values_ofList]
  exact shape_initialLayers _ _ 0 0 layersconfig fun _ => rfl

/-- Zero at all places is zero as a vector. -/
theorem value_eq_zero {parameters : Parameters ℚ}
    (zeros : ∀ layer ∈ parameters, ∀ neuron ∈ layer,
      neuron.1 = 0 ∧ ∀ weight ∈ neuron.2, weight = 0) :
    parameters.value = 0 := by
  have entry : ∀ {layer neuron entry},
      parameters.neuronAt layer neuron = some entry →
        entry.1 = 0 ∧ ∀ weight ∈ entry.2, weight = 0 := by
    intro layer neuron entry found
    rcases Option.bind_eq_some_iff.mp found with ⟨entries, layerFound, found⟩
    exact zeros entries (List.mem_of_getElem? layerFound) entry
      (List.mem_of_getElem? found)
  ext position
  cases position with
  | bias layer neuron =>
      rw [Parameters.value]
      cases found : parameters.neuronAt layer neuron with
      | none => rfl
      | some neuronEntry => exact (entry found).1
  | weight layer neuron index =>
      rw [Parameters.value]
      cases found : parameters.neuronAt layer neuron with
      | none => rfl
      | some neuronEntry =>
          rw [Option.bind_some]
          cases weightFound : neuronEntry.2[index]? with
          | none => rfl
          | some weight =>
              exact (entry found).2 weight (List.mem_of_getElem? weightFound)

theorem zeros_initialLayers (layers : ℕ) (i previousneurons : ℕ)
    (configs : List LayerConfig) :
    ∀ layer ∈ initialLayers layers (fun _ _ _ => 0) i previousneurons configs,
      ∀ neuron ∈ layer.parameters,
        neuron.1 = 0 ∧ ∀ weight ∈ neuron.2, weight = 0 := by
  induction configs generalizing i previousneurons with
  | nil => simp [initialLayers]
  | cons config rest inductionHypothesis =>
      intro layer member
      rcases List.mem_cons.mp member with rfl | member
      · rw [parameters_initializeLayer]
        intro neuron neuronMember
        rcases List.mem_map.mp neuronMember with ⟨j, -, rfl⟩
        refine ⟨rfl, ?_⟩
        intro weight weightMember
        rcases List.mem_map.mp weightMember with ⟨k, -, rfl⟩
        rfl
      · exact inductionHypothesis _ _ layer member

/-- With zero weights the new network is the zero vector. -/
theorem value_startNetwork_zero (layersconfig : List LayerConfig)
    (rand : ℕ → ℕ → ℕ → ℕ) :
    (startNetwork layersconfig rand WEIGHT_VALUE_ZERO).parameters.value = 0 := by
  apply value_eq_zero
  rw [NeuralNetwork.parameters, layerlist_startNetwork,
    LinkedList.values_ofList]
  intro layer member
  rcases List.mem_map.mp member with ⟨source, isLayer, rfl⟩
  exact zeros_initialLayers _ 0 0 layersconfig source isLayer

/-! ## A server without clients -/

namespace FederatedLearning

/-- Nobody has registered, no round has begun, nothing has been summed up. -/
structure Fresh (shape : Shape) (server : FederatedLearning) : Prop where
  registry : server.Registry
  empty : server.control.names = []
  firstRound : server.control.barrier.round = 0
  models : server.Models shape
  clean : server.ledger = Accumulator.zero
  freeable : server.Freeable

end FederatedLearning

/-- The start of the server is fresh, for any layers. -/
theorem fresh_startServer (layersconfig : List LayerConfig)
    (rand : ℕ → ℕ → ℕ → ℕ) (interactioncycle : ℤ) {clientnodes : ℤ}
    (clients : 0 ≤ clientnodes) :
    (startServer layersconfig rand interactioncycle clientnodes).Fresh
      (startShape layersconfig) := by
  refine ⟨⟨?_, ?_, rfl, ?_⟩, rfl, rfl, ⟨?_, ?_, ?_⟩, ?_, ?_⟩
  · exact LinkedList.consistent_ofList []
  · exact List.nodup_nil
  · exact clients
  · exact forward_startNetwork _ _ _
  · exact shape_startNetwork _ _ _
  · exact shape_startNetwork _ _ _
  · show Accumulator.mk _ _ = _
    rw [FederatedLearning.accumulator, startServer, value_startNetwork_zero]
    simp [Accumulator.zero]
  · exact freeNeuralNetwork_forward (forward_startNetwork _ _ _)

/--
The configured server is fresh, its networks have layers with neurons, and no
list in them has exactly one element.
-/
theorem fresh_setFederatedLearningGlobalModel (rand : ℕ → ℕ → ℕ → ℕ) :
    ∃ shape : Shape,
      (setFederatedLearningGlobalModel rand).Fresh shape ∧
        shape.Inhabited ∧ ¬ shape.HasSingleton := by
  refine ⟨_, fresh_startServer _ rand 11 ?_, ⟨?_, ?_⟩, ?_⟩
  · exact zero_le_one
  · exact List.cons_ne_nil _ _
  · decide
  · decide

end FederatedEdge.Server
