import FederatedEdge.Network.Form
import FederatedEdge.Server.Acceptance

/-!
# The networks of the server as a ledger

Seen as vectors over positions, the accumulator network and the counter sum
are an accumulator of weighted contributions, and the global network is what
the last round published.  A complete model is absorbed, and the model of the
last awaited node also closes the round.  Closing leaves the later biases of
the mean behind.

When a round closes the global network is freed.  For a network which is
itself a copy this works exactly when none of its lists has one element.  The
reset and the evaluation follow pointers to the first neurons and layers, and
the evaluation stores its records in an array.  So a round is closed exactly
when the network has layers with neurons as well, and the array has room.
-/

namespace FederatedEdge.Network

open FederatedEdge.Library

/-- There are layers, and each of them has neurons. -/
structure Shape.Inhabited (shape : Shape) : Prop where
  layers : shape ≠ []
  neurons : ∀ layer ∈ shape, layer ≠ []

/-- The number of inputs and outputs, which a record has fields for. -/
def Shape.inputsAndOutputs (shape : Shape) : ℕ :=
  shape.head?.elim 0 List.length + shape.getLast?.elim 0 List.length

/--
The counts are the lengths of the lists, and every neuron has as many weights as
there are neurons in the layer below.
-/
structure NeuralNetwork.Counted (network : NeuralNetwork ℚ) : Prop where
  layers : network.layers = network.forms.length
  neurons : ∀ form ∈ network.forms, form.neurons = form.neuronvalues.length
  connected : network.forms.IsChain Client.FormsConnected

namespace NeuralNetwork

variable {network : NeuralNetwork ℚ}

theorem SameForm.counted {after : NeuralNetwork ℚ}
    (same : network.SameForm after) (counted : network.Counted) :
    after.Counted := by
  refine ⟨?_, ?_, ?_⟩
  · rw [same.layers, same.forms]
    exact counted.layers
  · rw [same.forms]
    exact counted.neurons
  · rw [same.forms]
    exact counted.connected

theorem widths_training (network : NeuralNetwork ℚ)
    (activation : ℕ → ℕ → ℚ) :
    (Client.training network.read activation).widths =
      network.shape.map List.length := by
  rw [Client.widths_eq_forms, Client.forms_training,
    NeuralNetwork.shape_eq_forms, List.map_map]
  simp [NeuralNetwork.forms, Function.comp_def]

/-- A counted network is well-formed for training. -/
theorem Counted.wellFormed (counted : network.Counted)
    (activation : ℕ → ℕ → ℚ) :
    (Client.training network.read activation).WellFormed := by
  rw [Client.wellFormed_iff_forms, Client.forms_training]
  exact ⟨counted.layers, counted.neurons, counted.connected⟩

/-- A counted network with layers can be evaluated. -/
theorem Counted.trainable (counted : network.Counted)
    (nonempty : network.shape ≠ []) (activation : ℕ → ℕ → ℚ) :
    ∃ inputs outputs,
      Client.Trainable (Client.training network.read activation) inputs
          outputs ∧
        inputs + outputs = network.shape.inputsAndOutputs := by
  refine ⟨_, _, ⟨counted.wellFormed activation, ?_, ?_⟩, rfl⟩
  · rw [widths_training, List.head?_map, List.head?_eq_some_head nonempty]
    rfl
  · rw [widths_training, List.getLast?_map,
      List.getLast?_eq_some_getLast nonempty]
    rfl

end NeuralNetwork

namespace DecodedModel

/-- The number at a position of the model's network. -/
def value (model : DecodedModel ℚ) : Position → ℚ :=
  ((model.neuralnetwork.map DecodedNetwork.parameters).getD []).value

/-- The training counter and the vector of a model. -/
def contribution (model : DecodedModel ℚ) : ℚ × (Position → ℚ) :=
  (model.trainingscounter, model.value)

end DecodedModel

end FederatedEdge.Network

namespace FederatedEdge.Server

/-- The array of an evaluation has room for the fields of all records. -/
def EvaluationInput.HasRoom (evaluation : EvaluationInput) (size : ℕ) : Prop :=
  ∀ text ∈ evaluation.datasetevaluation,
    Evaluation.RecordsHaveRoom text evaluation.line size 30

instance (evaluation : EvaluationInput) (size : ℕ) :
    Decidable (evaluation.HasRoom size) := by
  unfold EvaluationInput.HasRoom
  infer_instance

/-- Seven inputs and outputs are enough for any file. -/
theorem EvaluationInput.hasRoom_of_le {size : ℕ} (seven : 7 ≤ size)
    (evaluation : EvaluationInput) : evaluation.HasRoom size :=
  fun _ _ => Evaluation.recordsHaveRoom_of_le seven _ _ _

end FederatedEdge.Server

namespace FederatedEdge.Server.FederatedLearning

open FederatedEdge.Library
open FederatedEdge.Network

/-- The accumulator can be walked, and both networks have the shape. -/
structure Models (shape : Shape) (server : FederatedLearning) : Prop where
  forward : server.accumulator.Forward
  accumulatorShape : server.accumulator.shape = shape
  globalShape : server.neuralnetwork.shape = shape

/-- The global network can be freed. -/
def Freeable (server : FederatedLearning) : Prop :=
  freeNeuralNetwork server.neuralnetwork = .ok ()

instance (server : FederatedLearning) : Decidable server.Freeable := by
  unfold Freeable
  infer_instance

/--
A round can be closed: all pointers which this follows lead somewhere, and the
records of the evaluation have room in its array.
-/
structure Closable (platform : Platform) (shape : Shape)
    (server : FederatedLearning) : Prop where
  inhabited : shape.Inhabited
  freeable : server.Freeable
  room :
    (platform.evaluation server.nodecontrol.currentinteraction).HasRoom
      shape.inputsAndOutputs

/-- The sums of the current round. -/
def ledger (server : FederatedLearning) : Accumulator ℚ (Position → ℚ) where
  total := server.accumulator.parameters.value
  weight := server.trainingscounter

/-- The vector of the global network. -/
def published (server : FederatedLearning) : Position → ℚ :=
  server.neuralnetwork.parameters.value

variable {platform : Platform} {server after : FederatedLearning}
  {ip_addr : String} {clientmodel : DecodedModel ℚ} {shape : Shape}

theorem SameModels.models
    (same : SameModels server after) (models : server.Models shape) :
    after.Models shape := by
  refine ⟨?_, ?_, ?_⟩
  · rw [same.accumulator]
    exact models.forward
  · rw [same.accumulator]
    exact models.accumulatorShape
  · rw [same.neuralnetwork]
    exact models.globalShape

theorem SameModels.ledger (same : SameModels server after) :
    after.ledger = server.ledger := by
  rw [FederatedLearning.ledger, FederatedLearning.ledger, same.accumulator,
    same.trainingscounter]

theorem SameModels.freeable_iff (same : SameModels server after) :
    after.Freeable ↔ server.Freeable := by
  rw [Freeable, Freeable, same.neuralnetwork]

/-- Closing depends on the global network and the number of the round. -/
theorem closable_congr
    (sameGlobal : after.neuralnetwork = server.neuralnetwork)
    (sameRound : after.nodecontrol.currentinteraction =
      server.nodecontrol.currentinteraction) :
    after.Closable platform shape ↔ server.Closable platform shape := by
  have freeable : after.Freeable ↔ server.Freeable := by
    rw [Freeable, Freeable, sameGlobal]
  constructor
  · rintro ⟨inhabited, freed, room⟩
    exact ⟨inhabited, freeable.mp freed, sameRound ▸ room⟩
  · rintro ⟨inhabited, freed, room⟩
    exact ⟨inhabited, freeable.mpr freed, sameRound ▸ room⟩

/-! ## Absorbing a model -/

/-- A contribution has been added to the sums of the current round. -/
structure Absorbed (shape : Shape) (contribution : ℚ × (Position → ℚ))
    (server after : FederatedLearning) : Prop where
  models : after.Models shape
  sameForm : server.accumulator.SameForm after.accumulator
  ledger : after.ledger = server.ledger.absorb contribution
  neuralnetwork : after.neuralnetwork = server.neuralnetwork
  sameRound : after.nodecontrol.currentinteraction =
    server.nodecontrol.currentinteraction

theorem Absorbed.closable_iff {contribution : ℚ × (Position → ℚ)}
    (absorbed : Absorbed shape contribution server after) :
    after.Closable platform shape ↔ server.Closable platform shape :=
  closable_congr absorbed.neuralnetwork absorbed.sameRound

/-- The sum of a complete model is an absorption. -/
theorem FederatedAveragingSum_absorbs
    (models : server.Models shape) {network : DecodedNetwork ℚ}
    (assigned : clientmodel.neuralnetwork = some network)
    (readable : network.Readable)
    (sameShape : network.parameters.shape = shape) :
    ∃ sum,
      FederatedAveragingSum server.accumulator network
          clientmodel.trainingscounter = .ok sum ∧
        Absorbed shape clientmodel.contribution server
          (storeSum server sum clientmodel.trainingscounter) := by
  have accumulatorShape : network.parameters.shape =
      server.accumulator.parameters.shape := by
    rw [sameShape, ← models.accumulatorShape]
    rfl
  have clientFits : server.accumulator.Fits network.parameters :=
    (NeuralNetwork.fits_iff_shape _ _).mpr accumulatorShape
  have sumFits :
      server.accumulator.Fits
        (server.accumulator.parameters.addScaled network.parameters
          clientmodel.trainingscounter) :=
    (NeuralNetwork.fits_iff_shape _ _).mpr
      (Parameters.shape_addScaled _ accumulatorShape)
  refine ⟨_, FederatedAveragingSum_eq _ models.forward readable clientFits,
    ⟨?_, ?_, models.globalShape⟩, .withParameters sumFits, ?_, rfl, rfl⟩
  · exact NeuralNetwork.forward_withParameters sumFits models.forward
  · exact (NeuralNetwork.shape_withParameters sumFits).trans
      models.accumulatorShape
  · have total :=
      Parameters.value_addScaled clientmodel.trainingscounter accumulatorShape
    rw [ledger, accumulator, storeSum,
      NeuralNetwork.parameters_withParameters sumFits, total]
    simp [Accumulator.absorb, ledger, DecodedModel.contribution,
      DecodedModel.value, assigned]

/-! ## Closing a round -/

/-- All layers of a network have neurons when those of its shape do. -/
theorem neurons_nonempty_iff (network : NeuralNetwork ℚ) :
    (∀ layer ∈ network.layerlist.values, layer.neuronlist.values ≠ []) ↔
      ∀ layer ∈ network.shape, layer ≠ [] := by
  rw [NeuralNetwork.shape, NeuralNetwork.parameters, Parameters.shape,
    List.map_map, List.forall_mem_map]
  simp [Layer.parameters]

variable (platform) in
/-- The copy of a counted network is evaluated when the records have room. -/
theorem PerformanceMetrics_copy_iff (evaluation : EvaluationInput)
    {network : NeuralNetwork ℚ} (counted : network.Counted)
    (nonempty : network.shape ≠ []) :
    PerformanceMetrics platform evaluation network.copy 30 (1 / 2) = .ok () ↔
      evaluation.HasRoom network.shape.inputsAndOutputs := by
  rcases counted.trainable nonempty fun _ _ => 0
    with ⟨inputs, outputs, trainable, sizes⟩
  rw [PerformanceMetrics, network.read_copy, EvaluationInput.HasRoom, ← sizes]
  cases evaluation.datasetevaluation with
  | none =>
      rcases trainable.outerLayers with ⟨firstlayer, lastlayer, outer⟩
      apply iff_of_true
      · rw [Evaluation.PerformanceMetrics, outer.first, outer.last]
        rfl
      · rintro text ⟨⟩
  | some text =>
      rcases Evaluation.inside_PerformanceMetrics platform.exp
          (Dataset.strtof platform.toFloat) evaluation.trainingsample (1 / 2)
          text evaluation.line trainable 30 []
        with ⟨result, accesses, runs, inside, -⟩
      rw [runs, Exec.ok_bind, List.nil_append]
      simp only [Option.mem_some_iff, forall_eq']
      rw [show (30 : ℕ) = (30 : ℤ).toNat from rfl, ← inside]
      by_cases within : ∀ access ∈ accesses, access.Inside
      · exact iff_of_true (if_pos within) within
      · refine iff_of_false ?_ within
        rw [if_neg within]
        rintro ⟨⟩

/-- The evaluation follows the pointers to the first and the last layer. -/
theorem nonempty_of_PerformanceMetrics {evaluation : EvaluationInput}
    {network : NeuralNetwork ℚ} {PercentualEvaluation : ℤ} {Threshold : ℚ}
    (finishes :
      PerformanceMetrics platform evaluation network PercentualEvaluation
        Threshold = .ok ()) : network.shape ≠ [] := by
  intro empty
  have layers : network.layerlist.values = [] := by
    rw [NeuralNetwork.shape, NeuralNetwork.parameters, Parameters.shape] at empty
    simpa using empty
  rw [PerformanceMetrics, NeuralNetwork.read, layers] at finishes
  cases finishes

/-- The averaged accumulator holds the mean of the ledger. -/
theorem FederatedAveraging_mean (models : server.Models shape) :
    ∃ averaged,
      FederatedAveraging server.nodecontrol.neuralnetwork
          server.trainingscounter = .ok averaged ∧
        averaged.Forward ∧ server.accumulator.SameForm averaged ∧
        averaged.shape = shape ∧
        averaged.parameters.value = server.ledger.mean := by
  let mean := server.accumulator.parameters.divide server.trainingscounter
  have meanFits : server.accumulator.Fits mean :=
    (NeuralNetwork.fits_iff_shape _ _).mpr (Parameters.shape_divide _ _)
  refine ⟨server.accumulator.withParameters mean,
    FederatedAveraging_eq server.trainingscounter models.forward, ?_,
    .withParameters meanFits, ?_, ?_⟩
  · exact NeuralNetwork.forward_withParameters meanFits models.forward
  · exact (NeuralNetwork.shape_withParameters meanFits).trans
      models.accumulatorShape
  · rw [NeuralNetwork.parameters_withParameters meanFits]
    exact Parameters.value_divide _ _

/-- What closing a round leaves: a published mean, and the residue of it. -/
structure Closed (shape : Shape) (sums : Accumulator ℚ (Position → ℚ))
    (after : FederatedLearning) : Prop where
  models : after.Models shape
  ledger : after.ledger = sums.close (residue ℚ)
  published : after.published = sums.mean
  freeable_iff : after.Freeable ↔ ¬ shape.HasSingleton

variable (platform) in
/-- The steps of a publication, each of which may go wrong. -/
theorem publishModel_eq (models : server.Models shape) :
    ∃ network,
      network.Forward ∧ server.accumulator.SameForm network ∧
        network.shape = shape ∧
        network.parameters.value = server.ledger.mean ∧
        publishModel platform server =
          (do
            freeNeuralNetwork server.neuralnetwork
            let cleared ← SetNeuralNetworkZeroWeightValue network
            PerformanceMetrics platform
              (platform.evaluation server.nodecontrol.currentinteraction)
              network.copy 30 (1 / 2)
            .ok
              { globalmodelstatus := 1
                trainingscounter := 0
                neuralnetwork := network.copy
                nodecontrol :=
                  { server.nodecontrol with
                    neuralnetwork := cleared
                    currentinteraction :=
                      server.nodecontrol.currentinteraction + 1 } }) := by
  rcases FederatedAveraging_mean models
    with ⟨network, averaged, forward, sameForm, sameShape, mean⟩
  refine ⟨network, forward, sameForm, sameShape, mean, ?_⟩
  rw [publishModel, averaged]
  simp only [Exec.ok_bind, CopyNeuralNetwork_eq forward]

/-- Publishing the mean of the ledger leaves its residue behind. -/
theorem closed_of_publishModel (models : server.Models shape)
    (finishes : publishModel platform server = .ok after) :
    Closed shape server.ledger after ∧
      server.accumulator.SameForm after.accumulator := by
  rcases publishModel_eq platform models
    with ⟨network, forward, sameForm, sameShape, mean, runs⟩
  rw [runs] at finishes
  simp only [Exec.bind_eq_ok, Except.ok.injEq] at finishes
  rcases finishes with ⟨_, -, cleared, clears, _, -, rfl⟩
  have residueFits : network.Fits network.parameters.residue :=
    (NeuralNetwork.fits_iff_shape _ _).mpr (Parameters.shape_residue _)
  rw [SetNeuralNetworkZeroWeightValue_eq forward
    (neurons_of_SetNeuralNetworkZeroWeightValue forward clears),
    Except.ok.injEq] at clears
  subst clears
  refine ⟨⟨⟨?_, ?_, ?_⟩, ?_, ?_, ?_⟩,
    sameForm.trans (.withParameters residueFits)⟩
  · exact NeuralNetwork.forward_withParameters residueFits forward
  · exact (NeuralNetwork.shape_withParameters residueFits).trans sameShape
  · exact network.shape_copy.trans sameShape
  · rw [ledger, accumulator,
      NeuralNetwork.parameters_withParameters residueFits,
      Parameters.value_residue, mean]
    simp [Accumulator.close]
  · show network.copy.parameters.value = _
    rw [network.parameters_copy, mean]
  · rw [Freeable, freeNeuralNetwork_copy, sameShape]

/-- A counted accumulator is published exactly when the round can be closed. -/
theorem publishModel_finishes_iff (models : server.Models shape)
    (counted : server.accumulator.Counted) :
    (∃ after, publishModel platform server = .ok after) ↔
      server.Closable platform shape := by
  rcases publishModel_eq platform models
    with ⟨network, forward, sameForm, sameShape, -, runs⟩
  have measured (nonempty : network.shape ≠ []) :=
    PerformanceMetrics_copy_iff platform
      (platform.evaluation server.nodecontrol.currentinteraction)
      (sameForm.counted counted) nonempty
  rw [runs]
  constructor
  · rintro ⟨after, finishes⟩
    simp only [Exec.bind_eq_ok] at finishes
    rcases finishes with ⟨_, freed, cleared, clears, _, evaluates, -⟩
    have nonempty := nonempty_of_PerformanceMetrics evaluates
    rw [network.shape_copy] at nonempty
    refine ⟨⟨sameShape ▸ nonempty, ?_⟩, freed, ?_⟩
    · rw [← sameShape]
      exact (neurons_nonempty_iff network).mp
        (neurons_of_SetNeuralNetworkZeroWeightValue forward clears)
    · rw [← sameShape]
      exact (measured nonempty).mp evaluates
  · rintro ⟨inhabited, freeable, room⟩
    rw [← sameShape] at inhabited room
    have cleared :=
      SetNeuralNetworkZeroWeightValue_eq forward
        ((neurons_nonempty_iff network).mpr inhabited.neurons)
    have freed : freeNeuralNetwork server.neuralnetwork = .ok () := freeable
    have evaluated := (measured inhabited.layers).mpr room
    simp only [freed, cleared, evaluated, Exec.ok_bind]
    exact ⟨_, rfl⟩

/-! ## A model from a registered node -/

section Submission

variable (registry : server.Registry) (models : server.Models shape)
  (known : ip_addr ∈ server.control.names)
  (complete : clientmodel.Complete shape)

include registry known

variable (clientmodel) in
/-- After the last round a model changes no network. -/
theorem submitModel_finished (finished : server.control.Finished) :
    ∃ after,
      submitModel platform server ip_addr clientmodel = .ok after ∧
        SameModels server after := by
  rcases submitModel_registered clientmodel registry known
    with ⟨counted, runs, bumped, -, same⟩
  have stillFinished : counted.control.Finished := by
    rw [bumped]
    exact finished
  refine ⟨_, runs.trans (AggregationModel_finished stillFinished), ?_⟩
  exact same.trans ⟨rfl, rfl, rfl⟩

include models complete

/-- A complete model leaves the sum and then asks who is awaited. -/
theorem submitModel_unfinished (unfinished : ¬ server.control.Finished) :
    ∃ summed : FederatedLearning,
      submitModel platform server ip_addr clientmodel =
          (if (server.control.barrier.bump ip_addr).Pending then
            .ok { summed with globalmodelstatus := 1 }
          else publishModel platform summed) ∧
        Absorbed shape clientmodel.contribution server summed := by
  rcases submitModel_registered clientmodel registry known
    with ⟨counted, runs, bumped, countedRegistry, same⟩
  rcases complete with ⟨network, assigned, readable, sameShape⟩
  have countedUnfinished : ¬ counted.control.Finished := by
    rw [bumped]
    exact unfinished
  have sameBarrier :
      counted.control.barrier = server.control.barrier.bump ip_addr := by
    rw [bumped]
  have sameRound :
      counted.nodecontrol.currentinteraction =
        server.nodecontrol.currentinteraction :=
    congrArg (fun control => control.barrier.round) bumped
  rcases FederatedAveragingSum_absorbs (same.models models)
      assigned readable sameShape
    with ⟨sum, sums, absorbed⟩
  refine ⟨storeSum counted sum clientmodel.trainingscounter, ?_,
    absorbed.models, ?_, ?_, same.neuralnetwork, sameRound⟩
  · rw [runs, AggregationModel_eq countedRegistry countedUnfinished, assigned,
      sameBarrier]
    simp only [Exec.read_some, Exec.ok_bind, sums]
  · rw [← same.accumulator]
    exact absorbed.sameForm
  · rw [absorbed.ledger, same.ledger]

variable (platform) in
/-- While another node is awaited, the model is absorbed. -/
theorem submitModel_absorbs (unfinished : ¬ server.control.Finished)
    (pending : (server.control.barrier.bump ip_addr).Pending) :
    ∃ after,
      submitModel platform server ip_addr clientmodel = .ok after ∧
        Absorbed shape clientmodel.contribution server after := by
  rcases submitModel_unfinished registry models known complete unfinished
    with ⟨summed, runs, absorbed⟩
  rw [if_pos pending] at runs
  exact ⟨_, runs,
    ⟨absorbed.models.forward, absorbed.models.accumulatorShape,
      absorbed.models.globalShape⟩,
    absorbed.sameForm, absorbed.ledger, absorbed.neuralnetwork,
    absorbed.sameRound⟩

/-- The model of the last awaited node is absorbed and closes the round. -/
theorem closed_of_submitModel (unfinished : ¬ server.control.Finished)
    (settled : ¬ (server.control.barrier.bump ip_addr).Pending)
    (finishes :
      submitModel platform server ip_addr clientmodel = .ok after) :
    Closed shape (server.ledger.absorb clientmodel.contribution) after ∧
      server.accumulator.SameForm after.accumulator := by
  rcases submitModel_unfinished registry models known
    complete unfinished with ⟨summed, runs, absorbed⟩
  rw [if_neg settled] at runs
  rcases closed_of_publishModel absorbed.models (runs.symm.trans finishes)
    with ⟨closed, sameForm⟩
  rw [absorbed.ledger] at closed
  exact ⟨closed, absorbed.sameForm.trans sameForm⟩

/-- The model of the last awaited node finishes where the round can be closed. -/
theorem submitModel_finishes_iff (counted : server.accumulator.Counted)
    (unfinished : ¬ server.control.Finished)
    (settled : ¬ (server.control.barrier.bump ip_addr).Pending) :
    (∃ after, submitModel platform server ip_addr clientmodel = .ok after) ↔
      server.Closable platform shape := by
  rcases submitModel_unfinished registry models known complete unfinished
    with ⟨summed, runs, absorbed⟩
  rw [if_neg settled] at runs
  rw [runs, publishModel_finishes_iff absorbed.models
    (absorbed.sameForm.counted counted), absorbed.closable_iff]

end Submission

end FederatedEdge.Server.FederatedLearning
