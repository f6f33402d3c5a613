import FederatedEdge.Federation.ConfiguredForms
import FederatedEdge.Json.ModelTexts
import FederatedEdge.Server.Copies
import FederatedEdge.Server.Reachable

/-!
# The form of the networks, round after round

Clients download the encoded global network, decode it, train it and send it
back; the server sums, averages, copies and resets.  All of these steps keep the
configured layers, neurons and weights.  With two layers and two neurons in each
there is no list of a single element, so that the copies which are published end.

Training may read outside of its arrays when the hidden layers differ in width;
such a read finds an unknown number, and the form does not depend on it.
-/

namespace FederatedEdge.Federation

open FederatedEdge.Library
open FederatedEdge.Network
open FederatedEdge.Json
open FederatedEdge.Server
open FederatedEdge.Server.FederatedLearning

/-! ## Configurations -/

/--
At least two layers with at least two neurons each, and all numbers of the
configuration are values of the C type `int`.
-/
structure Configuration (layersconfig : List LayerConfig) : Prop where
  layers : 2 ≤ layersconfig.length
  neurons : ∀ config ∈ layersconfig, 2 ≤ config.neurons
  layersIsInt : IsInt layersconfig.length
  neuronsIsInt : ∀ config ∈ layersconfig, IsInt config.neurons
  activationIsInt :
    ∀ config ∈ layersconfig, IsInt config.activationfunctiontype

theorem length_neurontypeAt (layers i : ℕ) :
    (neurontypeAt layers i).toList.length < neurontypeSize := by
  unfold neurontypeAt
  split
  · decide
  · split <;> decide

namespace Matches

variable {layersconfig : List LayerConfig} {network : NeuralNetwork ℚ}

/-- What is encoded fits the C types, apart from the floats. -/
theorem storable (holds : Matches layersconfig network)
    (configuration : Configuration layersconfig) :
    NetworkContent.Storable network.read := by
  refine ⟨?_, ?_⟩
  · show IsInt network.layers
    rw [holds.layers]
    exact configuration.layersIsInt
  · intro layer member
    have isForm : layer.form ∈ configuredForms layersconfig := by
      rw [← holds.forms]
      exact List.mem_map_of_mem member
    rcases mem_configuredLayers isForm
      with ⟨j, weights, config, isConfig, same, source⟩
    have weightsIsInt : IsInt weights := by
      rcases source with rfl | ⟨lower, isLower, rfl⟩
      · decide
      · exact configuration.neuronsIsInt lower isLower
    have activation := congrArg LayerContent.activationfunctiontype same
    have neurons := congrArg LayerContent.neurons same
    refine ⟨?_, ?_, ?_⟩
    · show IsInt layer.form.activationfunctiontype
      rw [activation]
      exact configuration.activationIsInt config isConfig
    · show IsInt layer.form.neurons
      rw [neurons]
      exact configuration.neuronsIsInt config isConfig
    · intro neuron isNeuron
      have neuronForm : neuron.form ∈ layer.form.neuronvalues :=
        List.mem_map_of_mem isNeuron
      rw [same, configuredLayer, List.mem_replicate] at neuronForm
      have neurontype := congrArg NeuronContent.neurontype neuronForm.2
      have weights := congrArg NeuronContent.weights neuronForm.2
      constructor
      · show neuron.form.neurontype.toList.length < neurontypeSize
        rw [neurontype]
        exact length_neurontypeAt _ _
      · show IsInt neuron.form.weights
        rw [weights]
        exact weightsIsInt

end Matches

theorem several_configuredShape {previousneurons : ℕ}
    {configs : List LayerConfig} (previous : previousneurons ≠ 1)
    (several : ∀ config ∈ configs, 2 ≤ config.neurons) :
    ∀ layer ∈ configuredShape previousneurons configs,
      layer.length ≠ 1 ∧ ∀ weights ∈ layer, weights ≠ 1 := by
  induction configs generalizing previousneurons with
  | nil => simp [configuredShape]
  | cons config rest inductionHypothesis =>
      have first := several config (by simp)
      intro layer member
      rw [configuredShape, List.mem_cons] at member
      rcases member with rfl | member
      · rw [List.length_replicate]
        refine ⟨by omega, fun weights isWeights => ?_⟩
        rw [(List.mem_replicate.mp isWeights).2]
        exact previous
      · exact inductionHypothesis (by omega)
          (fun other isOther => several other (List.mem_cons_of_mem _ isOther))
          layer member

theorem length_configuredShape (previousneurons : ℕ)
    (configs : List LayerConfig) :
    (configuredShape previousneurons configs).length = configs.length := by
  induction configs generalizing previousneurons with
  | nil => rfl
  | cons config rest inductionHypothesis =>
      rw [configuredShape, List.length_cons, List.length_cons,
        inductionHypothesis]

/-- No list of a configured network has a single element. -/
theorem Configuration.several {layersconfig : List LayerConfig}
    (configuration : Configuration layersconfig) :
    ¬ (startShape layersconfig).HasSingleton := by
  rintro (single | ⟨layer, member, single⟩)
  · rw [startShape, length_configuredShape] at single
    have layers := configuration.layers
    omega
  · rcases several_configuredShape zero_ne_one configuration.neurons layer member
      with ⟨neurons, weights⟩
    rcases single with single | ⟨count, isCount, single⟩
    · exact neurons single
    · exact weights count isCount single

/-! ## What the server does keeps the form -/

/-- The fields of the network besides its layers are the configured ones. -/
def HasSettings (layersconfig : List LayerConfig)
    (network : NeuralNetwork ℚ) : Prop :=
  network =
    { startNetwork layersconfig (fun _ _ _ => 0) WEIGHT_VALUE_ZERO with
      layerlist := network.layerlist }

/-- A network of the server: its form and its settings. -/
structure Conforms (layersconfig : List LayerConfig)
    (network : NeuralNetwork ℚ) : Prop extends
    Matches layersconfig network where
  settings : HasSettings layersconfig network

namespace Conforms

variable {layersconfig : List LayerConfig} {network : NeuralNetwork ℚ}

theorem startNetwork (layersconfig : List LayerConfig)
    (rand : ℕ → ℕ → ℕ → ℕ) (weightvalue : ℤ) :
    Conforms layersconfig (startNetwork layersconfig rand weightvalue) :=
  ⟨matches_startNetwork layersconfig rand weightvalue, rfl⟩

theorem withParameters (holds : Conforms layersconfig network)
    {parameters : Parameters ℚ} (fits : network.Fits parameters) :
    Conforms layersconfig (network.withParameters parameters) where
  forward := NeuralNetwork.forward_withParameters fits holds.forward
  layers := holds.layers
  forms := (NeuralNetwork.forms_withParameters fits).trans holds.forms
  settings := by
    have settings := holds.settings
    rw [HasSettings] at settings
    rw [HasSettings, NeuralNetwork.withParameters, settings]

theorem copy (holds : Conforms layersconfig network)
    (several : ¬ (startShape layersconfig).HasSingleton) :
    Conforms layersconfig network.copy where
  forward := forward_copy (by rw [holds.shape]; exact several)
  layers := holds.layers
  forms := by
    rw [NeuralNetwork.forms, network.read_copy]
    exact holds.forms
  settings := by
    have settings := holds.settings
    rw [HasSettings] at settings
    rw [HasSettings, NeuralNetwork.copy, settings]

end Conforms

/-- Both networks of the server conform. -/
structure ConformingServer (layersconfig : List LayerConfig)
    (server : FederatedLearning) : Prop where
  registry : server.Registry
  global : Conforms layersconfig server.neuralnetwork
  accumulator : Conforms layersconfig server.accumulator

section Server

variable {layersconfig : List LayerConfig} {server after : FederatedLearning}
  {platform : Platform} {clientmodel : DecodedModel ℚ} {ip_addr : String}

/-- The sum over a complete model does not run off its lists. -/
theorem Conforms.sums {network : NeuralNetwork ℚ}
    (holds : Conforms layersconfig network)
    (complete : clientmodel.Complete (startShape layersconfig)) :
    ∃ clientneuralnetwork sum,
      clientmodel.neuralnetwork = some clientneuralnetwork ∧
        FederatedAveragingSum network clientneuralnetwork
            clientmodel.trainingscounter =
          .ok sum ∧
        Conforms layersconfig sum := by
  rcases complete with ⟨client, carried, readable, shape⟩
  have fits : network.Fits client.parameters := by
    rw [NeuralNetwork.fits_iff_shape, shape, holds.shape]
  have sumFits :
      network.Fits
        (network.parameters.addScaled client.parameters
          clientmodel.trainingscounter) := by
    rw [NeuralNetwork.fits_iff_shape]
    apply Parameters.shape_addScaled
    rw [shape]
    exact holds.shape.symm
  exact ⟨client, _, carried,
    FederatedAveragingSum_eq _ holds.forward readable fits,
    holds.withParameters sumFits⟩

/-- Publishing keeps both networks in form. -/
theorem ConformingServer.publish
    (several : ¬ (startShape layersconfig).HasSingleton)
    (accumulator : Conforms layersconfig server.accumulator)
    (finishes : publishModel platform server = .ok after) :
    Conforms layersconfig after.neuralnetwork ∧
      Conforms layersconfig after.accumulator := by
  have meanFits :
      server.accumulator.Fits
        (server.accumulator.parameters.divide server.trainingscounter) := by
    rw [NeuralNetwork.fits_iff_shape, Parameters.shape_divide]
    rfl
  have averaged := accumulator.withParameters meanFits
  rw [publishModel, show server.nodecontrol.neuralnetwork = server.accumulator
    from rfl, FederatedAveraging_eq _ accumulator.forward] at finishes
  simp only [Exec.bind_eq_ok, CopyNeuralNetwork_eq averaged.forward,
    Exec.ok_bind, Except.ok.injEq] at finishes
  rcases finishes with ⟨_, -, cleared, clears, _, -, rfl⟩
  have neurons :=
    neurons_of_SetNeuralNetworkZeroWeightValue averaged.forward clears
  rw [SetNeuralNetworkZeroWeightValue_eq averaged.forward neurons,
    Except.ok.injEq] at clears
  subst clears
  refine ⟨averaged.copy several, averaged.withParameters ?_⟩
  rw [NeuralNetwork.fits_iff_shape, Parameters.shape_residue]
  rfl

/-- Aggregating a complete model keeps both networks in form. -/
theorem ConformingServer.aggregate
    (several : ¬ (startShape layersconfig).HasSingleton)
    (holds : ConformingServer layersconfig server)
    (complete : clientmodel.Complete (startShape layersconfig))
    (finishes : AggregationModel platform server clientmodel = .ok after) :
    ConformingServer layersconfig after := by
  rcases AggregationModel_control holds.registry finishes with ⟨registry, -⟩
  by_cases finished : server.control.Finished
  · rw [AggregationModel_finished finished, Except.ok.injEq] at finishes
    subst finishes
    exact ⟨registry, holds.global, holds.accumulator⟩
  · rcases holds.accumulator.sums complete
      with ⟨client, sum, carried, sums, conforms⟩
    rw [AggregationModel_eq holds.registry finished, carried, Exec.read_some,
      Exec.ok_bind, sums, Exec.ok_bind] at finishes
    by_cases pending : server.control.barrier.Pending
    · rw [if_pos pending, Except.ok.injEq] at finishes
      subst finishes
      exact ⟨registry, holds.global, conforms⟩
    · rw [if_neg pending] at finishes
      have summed :
          Conforms layersconfig
            (storeSum server sum clientmodel.trainingscounter).accumulator :=
        conforms
      rcases ConformingServer.publish several summed finishes
        with ⟨global, accumulator⟩
      exact ⟨registry, global, accumulator⟩

theorem ConformingServer.of_sameModels
    (holds : ConformingServer layersconfig server) (registry : after.Registry)
    (same : SameModels server after) : ConformingServer layersconfig after :=
  ⟨registry, by rw [same.neuralnetwork]; exact holds.global,
    by rw [same.accumulator]; exact holds.accumulator⟩

/-- Handling a message with a complete model keeps both networks in form. -/
theorem ConformingServer.message {text : List Char} {reply : Reply}
    (several : ¬ (startShape layersconfig).HasSingleton)
    (holds : ConformingServer layersconfig server)
    (carries : platform.Carries (startShape layersconfig) text)
    (serves : Serves platform server (.message ip_addr text, reply) after) :
    ConformingServer layersconfig after := by
  rcases serves_carried carries serves with ⟨model, complete, finishes⟩
  rcases submitModel_control holds.registry finishes with ⟨known, -⟩
  rcases submitModel_registered model holds.registry known
    with ⟨counted, runs, -, registry, same⟩
  exact (holds.of_sameModels registry same).aggregate several complete
    (runs.symm.trans finishes)

end Server

/-! ## Rounds of training -/

theorem forms_rounded (toFloat : ℚ → ℚ) (content : NetworkContent ℚ) :
    (NetworkContent.rounded toFloat content).forms = content.forms := by
  simp [NetworkContent.forms, NetworkContent.rounded, LayerContent.rounded,
    LayerContent.form, NeuronContent.rounded, NeuronContent.form,
    Function.comp_def]

theorem shape_read (network : NeuralNetwork ℚ) :
    network.shape = NetworkContent.shape network.read := by
  simp [NeuralNetwork.shape, Parameters.shape, NeuralNetwork.parameters,
    Layer.parameters, Neuron.parameters, NetworkContent.shape,
    NeuralNetwork.read, Layer.read, Neuron.read, Function.comp_def]

/-- The server, the models the clients hold, and the messages on their way. -/
structure Fleet where
  server : FederatedLearning
  clients : String → Option Client.FederatedLearning
  inflight : List (String × List Char)

inductive FleetEvent where
  | register (ip_addr : String)
  | poll (ip_addr : String)
  | download (ip_addr : String)
  | train (ip_addr : String)
  | send (ip_addr : String) (text : List Char)
  | deliver (ip_addr : String) (text : List Char)

namespace Fleet

/-- A client holds another model. -/
def hold (fleet : Fleet) (ip_addr : String) (client : Client.FederatedLearning) :
    Fleet :=
  { fleet with clients := Function.update fleet.clients ip_addr (some client) }

end Fleet

/--
The steps of the server and of its clients, in any order.  A client gets its
model by decoding what the server encodes, trains it, and sends its encoding;
the counter which it sends is left open.
-/
inductive FleetStep (platform : Platform) (exp : ℚ → ℚ) :
    Fleet → FleetEvent → Fleet → Prop where
  | register {fleet : Fleet} {ip_addr reply after}
      (serves : Serves platform fleet.server (.register ip_addr, reply) after) :
      FleetStep platform exp fleet (.register ip_addr)
        { fleet with server := after }
  | poll {fleet : Fleet} {ip_addr reply after}
      (serves : Serves platform fleet.server (.poll ip_addr, reply) after) :
      FleetStep platform exp fleet (.poll ip_addr) { fleet with server := after }
  | download {fleet : Fleet} {ip_addr json after}
      {globalmodelstatus trainingscounter : ℤ} {network : NeuralNetwork ℚ}
      (serves :
        Serves platform fleet.server (.download, .globalmodel json) after)
      (decodes :
        Client.JSONToFederatedLearning platform.toFloat json =
          some
            { globalmodelstatus := globalmodelstatus
              trainingscounter := trainingscounter
              neuralnetwork := some network.decoded }) :
      FleetStep platform exp fleet (.download ip_addr)
        (Fleet.hold { fleet with server := after } ip_addr
          { globalmodelstatus := globalmodelstatus
            trainingscounter := trainingscounter
            neuralnetwork := network })
  | train {fleet : Fleet} {ip_addr client network} {trainingscounter : ℤ}
      (holds : fleet.clients ip_addr = some client)
      (trains : Client.Trains exp client.neuralnetwork network) :
      FleetStep platform exp fleet (.train ip_addr)
        (fleet.hold ip_addr
          { client with
            trainingscounter := trainingscounter
            neuralnetwork := network })
  | send {fleet : Fleet} {ip_addr client json text}
      (holds : fleet.clients ip_addr = some client)
      (encodes : Client.federatedLearningToJSON client = .ok json)
      (printed :
        platform.cJSON_Parse (strndup text text.length) = some json) :
      FleetStep platform exp fleet (.send ip_addr text)
        { fleet with inflight := fleet.inflight ++ [(ip_addr, text)] }
  | deliver {fleet : Fleet} {ip_addr text front back reply after}
      (inflight : fleet.inflight = front ++ (ip_addr, text) :: back)
      (serves :
        Serves platform fleet.server (.message ip_addr text, reply) after) :
      FleetStep platform exp fleet (.deliver ip_addr text)
        { fleet with server := after, inflight := front ++ back }

/-- The fleet before anything happened. -/
def startFleet (layersconfig : List LayerConfig) (rand : ℕ → ℕ → ℕ → ℕ)
    (interactioncycle clientnodes : ℤ) : Fleet where
  server := startServer layersconfig rand interactioncycle clientnodes
  clients _ := none
  inflight := []

/-- Everything in the fleet has the configured form. -/
structure ConformingFleet (platform : Platform)
    (layersconfig : List LayerConfig) (fleet : Fleet) : Prop where
  server : ConformingServer layersconfig fleet.server
  clients : ∀ ip_addr client, fleet.clients ip_addr = some client →
    Matches layersconfig client.neuralnetwork
  inflight : ∀ message ∈ fleet.inflight,
    platform.Carries (startShape layersconfig) message.2

section Fleet

variable {layersconfig : List LayerConfig} {platform : Platform}
  {exp : ℚ → ℚ} {fleet next : Fleet} {event : FleetEvent}

theorem clients_hold_self (fleet : Fleet) (ip_addr : String)
    (client : Client.FederatedLearning) :
    (fleet.hold ip_addr client).clients ip_addr = some client :=
  Function.update_self _ _ _

theorem clients_hold_of_ne (fleet : Fleet) {ip_addr other : String}
    (client : Client.FederatedLearning) (different : other ≠ ip_addr) :
    (fleet.hold ip_addr client).clients other = fleet.clients other :=
  Function.update_of_ne different _ _

theorem ConformingFleet.hold
    (conforms : ConformingFleet platform layersconfig fleet)
    {ip_addr : String} {client : Client.FederatedLearning}
    (holds : Matches layersconfig client.neuralnetwork) :
    ConformingFleet platform layersconfig (fleet.hold ip_addr client) := by
  refine ⟨conforms.server, ?_, conforms.inflight⟩
  intro other held found
  by_cases same : other = ip_addr
  · subst same
    rw [clients_hold_self, Option.some.injEq] at found
    rw [← found]
    exact holds
  · rw [clients_hold_of_ne fleet client same] at found
    exact conforms.clients other held found

theorem ConformingFleet.served
    (conforms : ConformingFleet platform layersconfig fleet)
    {after : FederatedLearning} (server : ConformingServer layersconfig after) :
    ConformingFleet platform layersconfig { fleet with server := after } :=
  ⟨server, conforms.clients, conforms.inflight⟩

/-- What the server encodes, a client decodes to a network of the same form. -/
theorem Matches.decoded {network downloaded : NeuralNetwork ℚ} {json : CJson}
    {status counter globalmodelstatus trainingscounter : ℤ}
    (holds : Matches layersconfig network)
    (configuration : Configuration layersconfig)
    (encodes : encodeModel status counter network = .ok json)
    (decodes :
      Client.JSONToFederatedLearning platform.toFloat json =
        some
          { globalmodelstatus := globalmodelstatus
            trainingscounter := trainingscounter
            neuralnetwork := some downloaded.decoded }) :
    Matches layersconfig downloaded := by
  have storable := holds.storable configuration
  rw [encodeModel_eq _ _ (NeuralNetwork.content_forward holds.forward),
    Except.ok.injEq] at encodes
  subst encodes
  rw [client_rebuilds _ _ _ storable, Option.some.injEq,
    DecodedModel.mk.injEq, Option.some.injEq] at decodes
  rcases NeuralNetwork.decoded_injective decodes.2.2 with rfl
  refine ⟨NetworkContent.forward_build _, holds.layers, ?_⟩
  rw [NeuralNetwork.forms, NetworkContent.read_build, forms_rounded]
  exact holds.forms

/-- Every step keeps everything in form. -/
theorem ConformingFleet.step (configuration : Configuration layersconfig)
    (conforms : ConformingFleet platform layersconfig fleet)
    (step : FleetStep platform exp fleet event next) :
    ConformingFleet platform layersconfig next := by
  cases step with
  | register serves =>
      rcases serves_register conforms.server.registry serves
        with ⟨registry, -, same⟩
      exact conforms.served (conforms.server.of_sameModels registry same)
  | poll serves =>
      rcases serves_poll conforms.server.registry serves with ⟨rfl, -⟩
      exact conforms
  | download serves decodes =>
      have encodes := serves
      rcases serves_download serves with rfl
      simp only [Serves, serve, handle_get_globalmodel,
        FederatedLearningToJSON, Exec.bind_eq_ok, Except.ok.injEq,
        Prod.mk.injEq, Reply.globalmodel.injEq] at encodes
      rcases encodes with ⟨_, encodes, -, rfl⟩
      apply conforms.hold
      exact conforms.server.global.toMatches.decoded configuration encodes
        decodes
  | train holds trains =>
      have held := conforms.clients _ _ holds
      rcases trains.keeps held.forward held.counted.wellFormed
          (by rw [held.length_forms]; exact configuration.layers)
        with ⟨forward, forms, layers⟩
      apply conforms.hold
      exact ⟨forward, layers.trans held.layers, forms.trans held.forms⟩
  | send holds encodes printed =>
      have held := conforms.clients _ _ holds
      refine ⟨conforms.server, conforms.clients, ?_⟩
      intro message member
      rcases List.mem_append.mp member with earlier | new
      · exact conforms.inflight message earlier
      · rw [List.mem_singleton.mp new, ← held.shape, shape_read]
        exact Platform.carries_encoded
          (NeuralNetwork.content_forward held.forward) encodes printed
  | deliver inflight serves =>
      have carried :=
        conforms.inflight _ (inflight.symm ▸ List.mem_append_cons_self)
      refine ⟨conforms.server.message configuration.several carried serves,
        conforms.clients, ?_⟩
      intro message member
      apply conforms.inflight
      rw [inflight]
      rcases List.mem_append.mp member with front | back
      · exact List.mem_append_left _ front
      · exact List.mem_append_right _ (List.mem_cons_of_mem _ back)

/-- Nothing is held and nothing is on its way at the start. -/
theorem conforms_startFleet (layersconfig : List LayerConfig)
    (rand : ℕ → ℕ → ℕ → ℕ) (interactioncycle : ℤ) {clientnodes : ℤ}
    (clients : 0 ≤ clientnodes) :
    ConformingFleet platform layersconfig
      (startFleet layersconfig rand interactioncycle clientnodes) where
  server :=
    { registry :=
        (fresh_startServer layersconfig rand interactioncycle clients).registry
      global := .startNetwork _ _ _
      accumulator := .startNetwork _ _ _ }
  clients _ _ held := nomatch held
  inflight _ member := nomatch member

/--
In every run of rounds all networks have the configured form, adding up what is
on its way does not run off any list, and the settings of the global network are
the configured ones.
-/
theorem networks_keep_configured_form
    (configuration : Configuration layersconfig) {rand : ℕ → ℕ → ℕ → ℕ}
    {interactioncycle clientnodes : ℤ} (nodes : 0 ≤ clientnodes)
    {events : List FleetEvent}
    (path :
      Path (FleetStep platform exp)
        (startFleet layersconfig rand interactioncycle clientnodes) events
        fleet) :
    Matches layersconfig fleet.server.neuralnetwork ∧
      Matches layersconfig fleet.server.accumulator ∧
      (∀ ip_addr client, fleet.clients ip_addr = some client →
        Matches layersconfig client.neuralnetwork) ∧
      (∀ message ∈ fleet.inflight, ∃ clientmodel clientneuralnetwork sum,
        platform.decode message.2 = some clientmodel ∧
          clientmodel.neuralnetwork = some clientneuralnetwork ∧
            FederatedAveragingSum fleet.server.accumulator clientneuralnetwork
                clientmodel.trainingscounter =
              .ok sum) ∧
      HasSettings layersconfig fleet.server.neuralnetwork := by
  have conforms : ConformingFleet platform layersconfig fleet :=
    path.invariant (ConformingFleet platform layersconfig)
      (fun step holds => holds.step configuration step)
      (conforms_startFleet layersconfig rand interactioncycle nodes)
  refine ⟨conforms.server.global.toMatches,
    conforms.server.accumulator.toMatches, conforms.clients, ?_,
    conforms.server.global.settings⟩
  intro message member
  rcases conforms.inflight message member with ⟨clientmodel, decodes, complete⟩
  rcases conforms.server.accumulator.sums complete
    with ⟨clientneuralnetwork, sum, carried, sums, -⟩
  exact ⟨clientmodel, clientneuralnetwork, sum, decodes, carried, sums⟩

/-- What a client holds which downloads the global model. -/
def Fleet.globalModel (fleet : Fleet) (toFloat : ℚ → ℚ) :
    Client.FederatedLearning where
  globalmodelstatus := valueint fleet.server.globalmodelstatus
  trainingscounter := valueint fleet.server.trainingscounter
  neuralnetwork :=
    (NetworkContent.rounded toFloat fleet.server.neuralnetwork.read).build

/-- Whenever the fleet is in form, a client can download. -/
theorem ConformingFleet.downloads
    (conforms : ConformingFleet platform layersconfig fleet)
    (configuration : Configuration layersconfig) (ip_addr : String) :
    FleetStep platform exp fleet (.download ip_addr)
      (fleet.hold ip_addr (fleet.globalModel platform.toFloat)) := by
  have storable := conforms.server.global.storable configuration
  have encodes :=
    encodeModel_eq fleet.server.globalmodelstatus fleet.server.trainingscounter
      (NeuralNetwork.content_forward conforms.server.global.forward)
  have serves :
      Serves platform fleet.server
        (.download, .globalmodel
          (modelToJson fleet.server.globalmodelstatus
            fleet.server.trainingscounter fleet.server.neuralnetwork.read))
        fleet.server := by
    simp only [Serves, serve, handle_get_globalmodel, FederatedLearningToJSON,
      encodes, Exec.ok_bind]
  exact .download serves (client_rebuilds _ _ _ storable)

end Fleet

/-! ## A turn of the sample client -/

/-- The fleet after the sample client has registered. -/
def turnRegistered : Fleet :=
  { startFleet sampleConfig (fun _ _ _ => 0) 1 1 with
    server := sampleRegistered 1 }

/-- The network which the client downloads. -/
def turnDownloaded : NeuralNetwork ℚ :=
  (turnRegistered.globalModel id).neuralnetwork

/-- It has loaded a record and fed it forward; all weights are still zero. -/
def turnOutputs : Client.TrainingNetwork ℚ :=
  let loaded :=
    (Client.training turnDownloaded.read fun _ _ => 0).loadSample (fun _ => 1) 2
  (Client.FeedFoward (fun _ => 1) loaded).toOption.getD loaded

/-- It has taken a step towards the label of the record. -/
def turnTrained : Client.TrainingNetwork ℚ :=
  ((Client.BackPropagation (fun _ => 0) (1 / 1000) 2 (1 / 100) turnOutputs
    [1, 0] []).toOption.getD (turnOutputs, [])).1

/-- What the client holds after the training. -/
def turnClient : Client.FederatedLearning where
  globalmodelstatus := valueint 1
  trainingscounter := 1
  neuralnetwork := turnDownloaded.withParameters turnTrained.parameters

def turnJson : CJson :=
  modelToJson turnClient.globalmodelstatus turnClient.trainingscounter
    turnClient.neuralnetwork.read

/-- The text which the client sends. -/
def turnText : List Char :=
  modelCharacters turnClient.globalmodelstatus turnClient.trainingscounter
    turnClient.neuralnetwork.read

/-- A platform which parses this text. -/
def turnPlatform : Platform :=
  { samplePlatform with
    cJSON_Parse := fun text => if text = turnText then some turnJson else none }

theorem trains_turnDownloaded :
    Client.Trains (fun _ => 1) turnDownloaded turnClient.neuralnetwork := by
  have feeds :
      Client.TrainingStep (fun _ => 1)
        ((Client.training turnDownloaded.read fun _ _ => 0).loadSample
          (fun _ => 1) 2)
        .feedFoward turnOutputs :=
    .feedFoward (by decide +kernel)
  have learns :
      Client.TrainingStep (fun _ => 1) turnOutputs
        (.backPropagation [1, 0] (1 / 1000) 2 (1 / 100)) turnTrained := by
    rcases finishes :
        Client.BackPropagation (fun _ => 0) (1 / 1000 : ℚ) 2 (1 / 100)
          turnOutputs [1, 0] [] with _ | ⟨after, accesses⟩
    · have finished :
          (Client.BackPropagation (fun _ => 0) (1 / 1000 : ℚ) 2 (1 / 100)
            turnOutputs [1, 0] []).toOption.isSome := by
        decide +kernel
      rw [finishes] at finished
      cases finished
    · have same : turnTrained = after := by
        rw [turnTrained, finishes]
        rfl
      rw [same]
      exact .backPropagation (by decide +kernel) finishes
  exact ⟨_, fun _ _ => 0, _, turnTrained,
    NeuralNetwork.content_forward (NetworkContent.forward_build _),
    .cons .sample (.cons feeds (.single learns)), rfl⟩

/-- The server receives the model which the client has trained. -/
theorem parses_turnText :
    turnPlatform.cJSON_Parse (strndup turnText turnText.length) =
      some turnJson := by
  have cut : strndup turnText turnText.length = turnText := by
    rw [strndup, List.take_length, List.takeWhile_eq_self_iff]
    intro character member
    rw [decide_eq_true_iff]
    rintro rfl
    exact (Item.text true _).noNull member
  rw [cut]
  exact if_pos rfl

/-- The server aggregates the model and publishes. -/
theorem delivers_turnText
    (carries : turnPlatform.Carries (startShape sampleConfig) turnText) :
    ∃ after,
      Serves turnPlatform (sampleRegistered 1)
          (.message sampleAddress turnText, .nothing) after ∧
        after.nodecontrol.currentinteraction = 1 := by
  have registers :
      Serves turnPlatform (sampleStart 1 1)
        (.register sampleAddress, .registration .added) (sampleRegistered 1) :=
    rfl
  have sized : Sized (startShape sampleConfig) (sampleRegistered 1) :=
    .of_run (.single registers) (fresh_sampleStart 1 zero_le_one)
      (counted_sampleStart 1 1)
  rcases carries with ⟨model, decoded, complete⟩
  have canClose : CanCloseRound turnPlatform (sampleRegistered 1) := by
    refine ⟨?_, Or.inl rfl, hasRoom_samplePlatform 0 _⟩
    rw [sized.models.globalShape]
    exact ⟨by decide, by decide⟩
  have known : sampleAddress ∈ (sampleRegistered 1).control.names :=
    List.mem_singleton_self _
  rcases (sized.submit_finishes_iff turnPlatform known complete).mpr
      (Or.inr (Or.inr canClose))
    with ⟨after, finishes⟩
  have serves :
      Serves turnPlatform (sampleRegistered 1)
        (.message sampleAddress turnText, .nothing) after := by
    rw [Serves, serve, handle_clint_model_message_decoded decoded, finishes]
    rfl
  refine ⟨after, serves, ?_⟩
  have control := (submitModel_control sized.registry finishes).2.2
  have round := congrArg (fun control => control.barrier.round) control
  exact round.trans (by decide)

/--
Two layers of two neurons: a client registers, downloads, trains, and sends its
model, which is delivered and published.
-/
theorem networks_keep_configured_form_sample :
    ∃ fleet events,
      Path (FleetStep turnPlatform fun _ => 1)
          (startFleet sampleConfig (fun _ _ _ => 0) 1 1) events fleet ∧
        events =
          [.register sampleAddress, .download sampleAddress,
            .train sampleAddress, .send sampleAddress turnText,
            .deliver sampleAddress turnText] ∧
        fleet.server.nodecontrol.currentinteraction = 1 ∧
        Matches sampleConfig fleet.server.neuralnetwork ∧
        Matches sampleConfig fleet.server.accumulator ∧
        Matches sampleConfig turnClient.neuralnetwork := by
  have configuration : Configuration sampleConfig := by
    constructor <;> decide
  let downloaded := turnRegistered.hold sampleAddress (turnRegistered.globalModel id)
  let trained := downloaded.hold sampleAddress turnClient
  let sent : Fleet := { trained with inflight := [(sampleAddress, turnText)] }
  have registers :
      FleetStep turnPlatform (fun _ => 1)
        (startFleet sampleConfig (fun _ _ _ => 0) 1 1)
        (.register sampleAddress) turnRegistered := by
    have serves :
        Serves turnPlatform (sampleStart 1 1)
          (.register sampleAddress, .registration .added)
          (sampleRegistered 1) :=
      rfl
    exact .register serves
  have started :
      ConformingFleet turnPlatform sampleConfig
        (startFleet sampleConfig (fun _ _ _ => 0) 1 1) :=
    conforms_startFleet _ _ _ zero_le_one
  have conformsRegistered := started.step configuration registers
  have downloads :
      FleetStep turnPlatform (fun _ => 1) turnRegistered
        (.download sampleAddress) downloaded :=
    conformsRegistered.downloads configuration sampleAddress
  have conformsDownloaded := conformsRegistered.step configuration downloads
  have trains :
      FleetStep turnPlatform (fun _ => 1) downloaded (.train sampleAddress)
        trained :=
    .train (clients_hold_self _ _ _) trains_turnDownloaded
  have conformsTrained := conformsDownloaded.step configuration trains
  have matchesClient :=
    conformsTrained.clients sampleAddress turnClient (clients_hold_self _ _ _)
  have sends :
      FleetStep turnPlatform (fun _ => 1) trained (.send sampleAddress turnText)
        sent :=
    .send (clients_hold_self _ _ _)
      (encodeModel_eq _ _ (NeuralNetwork.content_forward matchesClient.forward))
      parses_turnText
  have conformsSent := conformsTrained.step configuration sends
  rcases delivers_turnText
      (conformsSent.inflight _ (List.mem_singleton_self _))
    with ⟨after, serves, nextRound⟩
  have delivers :
      FleetStep turnPlatform (fun _ => 1) sent
        (.deliver sampleAddress turnText)
        { sent with server := after, inflight := [] ++ [] } :=
    .deliver rfl serves
  have path :=
    Path.cons registers
      (.cons downloads (.cons trains (.cons sends (.single delivers))))
  rcases networks_keep_configured_form configuration zero_le_one path
    with ⟨global, accumulator, clients, -, -⟩
  have held := clients_hold_self downloaded sampleAddress turnClient
  exact ⟨_, _, path, rfl, nextRound, global, accumulator,
    clients sampleAddress turnClient held⟩

end FederatedEdge.Federation
