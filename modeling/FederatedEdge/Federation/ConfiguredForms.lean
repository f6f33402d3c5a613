import FederatedEdge.Client.Learning
import FederatedEdge.Server.Requests

/-!
# The form which a configuration asks for

Besides its numbers, a network has counts, types and the lengths of its lists.
A new network has them as the configuration says.  So its counts are the lengths
of its lists and its layers are connected, which is what lets it be trained and
evaluated.
-/

namespace FederatedEdge.Federation

open FederatedEdge.Library
open FederatedEdge.Network
open FederatedEdge.Server
open FederatedEdge.Server.FederatedLearning

/-- A layer of the configuration, with `weights` weights in each neuron. -/
def configuredLayer (layers i weights : ℕ) (config : LayerConfig) :
    LayerContent Unit where
  activationfunctiontype := config.activationfunctiontype
  neurons := config.neurons
  neuronvalues :=
    List.replicate config.neurons
      { neurontype := neurontypeAt layers i
        weights := weights
        bias := ()
        weightvalues := List.replicate weights () }

/-- The layers from number `i` on, each connected to the one before. -/
def configuredLayers (layers : ℕ) :
    ℕ → ℕ → List LayerConfig → List (LayerContent Unit)
  | _, _, [] => []
  | i, previousneurons, config :: rest =>
      configuredLayer layers i previousneurons config ::
        configuredLayers layers (i + 1) config.neurons rest

/-- The form which a configuration asks for; the first layer has no weights. -/
def configuredForms (layersconfig : List LayerConfig) :
    List (LayerContent Unit) :=
  configuredLayers layersconfig.length 0 0 layersconfig

/--
All lists of the network end after their elements, and their lengths, the counts
and the activation types are the configured ones.
-/
structure Matches (layersconfig : List LayerConfig)
    (network : NeuralNetwork ℚ) : Prop where
  forward : network.Forward
  layers : network.layers = layersconfig.length
  forms : network.forms = configuredForms layersconfig

theorem length_configuredLayers (layers i previousneurons : ℕ)
    (configs : List LayerConfig) :
    (configuredLayers layers i previousneurons configs).length =
      configs.length := by
  induction configs generalizing i previousneurons with
  | nil => rfl
  | cons config rest inductionHypothesis =>
      rw [configuredLayers, List.length_cons, List.length_cons,
        inductionHypothesis]

theorem form_initializeNeuron (neurontype : String) (weights : ℕ)
    (weight : ℕ → ℚ) :
    (initializeNeuron neurontype weights weight).read.form =
      { neurontype := neurontype
        weights := weights
        bias := ()
        weightvalues := List.replicate weights () } := by
  rw [Neuron.read, initializeNeuron, LinkedList.foldl_append_apply,
    LinkedList.values_ofList, NeuronContent.form, List.map_map]
  simp [Function.comp_def]

theorem form_initializeLayer (layers i previousneurons : ℕ)
    (config : LayerConfig) (weight : ℕ → ℕ → ℚ)
    (input : i = 0 → previousneurons = 0) :
    (initializeLayer layers i previousneurons config weight).read.form =
      configuredLayer layers i previousneurons config := by
  have weights : (if i = 0 then 0 else previousneurons) = previousneurons := by
    by_cases first : i = 0
    · rw [if_pos first, input first]
    · rw [if_neg first]
  rw [Layer.read, initializeLayer, LinkedList.foldl_append_apply,
    LinkedList.values_ofList, weights, LayerContent.form, List.map_map,
    List.map_map]
  simp [Function.comp_def, form_initializeNeuron, configuredLayer]

theorem forms_initialLayers (layers : ℕ) (weight : ℕ → ℕ → ℕ → ℚ)
    (i previousneurons : ℕ) (configs : List LayerConfig)
    (input : i = 0 → previousneurons = 0) :
    (initialLayers layers weight i previousneurons configs).map
        (fun layer => layer.read.form) =
      configuredLayers layers i previousneurons configs := by
  induction configs generalizing i previousneurons with
  | nil => rfl
  | cons config rest inductionHypothesis =>
      rw [initialLayers, List.map_cons, configuredLayers,
        form_initializeLayer _ _ _ _ _ input,
        inductionHypothesis (i + 1) config.neurons (by simp)]

/-- A new network has the configured form. -/
theorem matches_startNetwork (layersconfig : List LayerConfig)
    (rand : ℕ → ℕ → ℕ → ℕ) (weightvalue : ℤ) :
    Matches layersconfig (startNetwork layersconfig rand weightvalue) := by
  refine ⟨forward_startNetwork _ _ _, rfl, ?_⟩
  rw [NeuralNetwork.forms, NetworkContent.forms, NeuralNetwork.read,
    layerlist_startNetwork, LinkedList.values_ofList, List.map_map]
  exact forms_initialLayers _ _ 0 0 layersconfig fun _ => rfl

/-- Each configured layer comes from a configuration entry. -/
theorem mem_configuredLayers {layers i previousneurons : ℕ}
    {configs : List LayerConfig} {form : LayerContent Unit}
    (member : form ∈ configuredLayers layers i previousneurons configs) :
    ∃ j weights, ∃ config ∈ configs,
      form = configuredLayer layers j weights config ∧
        (weights = previousneurons ∨
          ∃ lower ∈ configs, weights = lower.neurons) := by
  induction configs generalizing i previousneurons with
  | nil => cases member
  | cons config rest inductionHypothesis =>
      rw [configuredLayers, List.mem_cons] at member
      rcases member with rfl | member
      · exact ⟨i, previousneurons, config, by simp, rfl, Or.inl rfl⟩
      · rcases inductionHypothesis member
          with ⟨j, weights, other, isOther, same, source⟩
        refine ⟨j, weights, other, List.mem_cons_of_mem _ isOther, same,
          Or.inr ?_⟩
        rcases source with rfl | ⟨lower, isLower, rfl⟩
        · exact ⟨config, by simp, rfl⟩
        · exact ⟨lower, List.mem_cons_of_mem _ isLower, rfl⟩

theorem connected_configuredLayers (layers i previousneurons : ℕ)
    (configs : List LayerConfig) :
    (configuredLayers layers i previousneurons configs).IsChain
      Client.FormsConnected := by
  induction configs generalizing i previousneurons with
  | nil => exact List.isChain_nil
  | cons config rest inductionHypothesis =>
      have later := inductionHypothesis (i + 1) config.neurons
      cases rest with
      | nil => exact List.isChain_singleton _
      | cons upper rest =>
          rw [configuredLayers, configuredLayers, List.isChain_cons_cons]
          refine ⟨?_, later⟩
          intro neuron member
          rw [configuredLayer, List.mem_replicate] at member
          rw [member.2, configuredLayer]
          simp

namespace Matches

variable {layersconfig : List LayerConfig} {network : NeuralNetwork ℚ}

theorem shape (holds : Matches layersconfig network) :
    network.shape = startShape layersconfig := by
  rw [NeuralNetwork.shape_eq_forms, holds.forms,
    ← (matches_startNetwork layersconfig (fun _ _ _ => 0) 0).forms,
    ← NeuralNetwork.shape_eq_forms, shape_startNetwork]

theorem length_forms (holds : Matches layersconfig network) :
    network.forms.length = layersconfig.length := by
  rw [holds.forms, configuredForms, length_configuredLayers]

/-- The counts are those of the lists, and the layers are connected. -/
theorem counted (holds : Matches layersconfig network) : network.Counted := by
  refine ⟨?_, ?_, ?_⟩
  · rw [holds.layers, holds.length_forms]
  · intro form member
    rw [holds.forms] at member
    rcases mem_configuredLayers member with ⟨_, _, config, _, rfl, -⟩
    rw [configuredLayer, List.length_replicate]
  · rw [holds.forms]
    exact connected_configuredLayers _ _ _ _

end Matches

/-- Both networks of a new server are counted. -/
theorem counted_startServer (layersconfig : List LayerConfig)
    (rand : ℕ → ℕ → ℕ → ℕ) (interactioncycle clientnodes : ℤ) :
    (startServer layersconfig rand interactioncycle
      clientnodes).accumulator.Counted :=
  (matches_startNetwork layersconfig rand WEIGHT_VALUE_ZERO).counted

theorem counted_sampleStart (interactioncycle clientnodes : ℤ) :
    (sampleStart interactioncycle clientnodes).accumulator.Counted :=
  counted_startServer _ _ _ _

end FederatedEdge.Federation
