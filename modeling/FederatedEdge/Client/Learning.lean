import FederatedEdge.Client.Accesses
import FederatedEdge.Client.State
import FederatedEdge.Library.Path
import Mathlib.Algebra.Order.Field.Rat

/-!
# Training what has been downloaded

`NeuralNetworkTraining` loads samples into the first layer, feeds them forward
and propagates back, any number of times and with whatever values.  It reads the
downloaded network along its lists and stores in the same cells.  Whatever the
steps are, the network keeps its form.
-/

namespace FederatedEdge.Client

open FederatedEdge.Library
open FederatedEdge.Network

variable {R : Type}

/-! ## Steps of the training -/

/-- The activation values of the first layer are those of a sample. -/
def TrainingNetwork.loadSample (network : TrainingNetwork R) (sample : ℕ → R)
    (neurons : ℕ) : TrainingNetwork R :=
  (List.range neurons).foldl
    (fun network i => network.setActivation 0 i (sample i)) network

inductive TrainingEvent where
  | sample (values : ℕ → ℚ) (neurons : ℕ)
  | feedFoward
  | backPropagation (label : List ℚ) (alpha : ℚ) (regularization : ℤ)
      (lambda : ℚ)

/-- One step; what a stray read finds is left open. -/
inductive TrainingStep (exp : ℚ → ℚ) :
    TrainingNetwork ℚ → TrainingEvent → TrainingNetwork ℚ → Prop where
  | sample {network values neurons} :
      TrainingStep exp network (.sample values neurons)
        (network.loadSample values neurons)
  | feedFoward {network after}
      (finishes : FeedFoward exp network = .ok after) :
      TrainingStep exp network .feedFoward after
  | backPropagation
      {network after stray label alpha regularization lambda log accesses}
      (labels : network.widths.getLast? = some label.length)
      (finishes :
        BackPropagation stray alpha regularization lambda network label log =
          .ok (after, accesses)) :
      TrainingStep exp network
        (.backPropagation label alpha regularization lambda) after

/-! ## Well-formed networks by their form -/

/-- The counts and connections, as the forms show them. -/
def FormsConnected (lower upper : LayerContent Unit) : Prop :=
  ∀ neuron ∈ upper.neuronvalues,
    neuron.weights = neuron.weightvalues.length ∧
      neuron.weightvalues.length = lower.neuronvalues.length

theorem formsConnected_iff (lower upper : TrainingLayer R) :
    FormsConnected lower.form upper.form ↔ Connected lower upper := by
  simp [FormsConnected, Connected, TrainingLayer.form, TrainingLayer.content,
    LayerContent.form, NeuronContent.form]

/-- Being well-formed is a matter of the layer count and the forms. -/
theorem wellFormed_iff_forms (network : TrainingNetwork R) :
    network.WellFormed ↔
      network.layers = network.forms.length ∧
        (∀ form ∈ network.forms, form.neurons = form.neuronvalues.length) ∧
          network.forms.IsChain FormsConnected := by
  have neurons :
      (∀ form ∈ network.forms, form.neurons = form.neuronvalues.length) ↔
        ∀ layer ∈ network.layervalues,
          layer.neurons = layer.neuronvalues.length := by
    simp [TrainingNetwork.forms, TrainingLayer.form, TrainingLayer.content,
      LayerContent.form]
  have connected :
      network.forms.IsChain FormsConnected ↔
        network.layervalues.IsChain Connected := by
    rw [TrainingNetwork.forms, List.isChain_map]
    simp only [formsConnected_iff]
  rw [neurons, connected, TrainingNetwork.forms, List.length_map]
  constructor
  · rintro ⟨layers, counted, chained⟩
    exact ⟨layers, counted, chained⟩
  · rintro ⟨layers, counted, chained⟩
    exact ⟨layers, counted, chained⟩

/-! ## Every step keeps the form -/

/-- Changing one element in what a view does not see. -/
theorem map_modify {α β : Type} {view : α → β} {change : α → α}
    (kept : ∀ value, view (change value) = view value) (values : List α)
    (index : ℕ) : (values.modify index change).map view = values.map view := by
  induction values generalizing index with
  | nil => simp
  | cons value values inductionHypothesis =>
      cases index with
      | zero => simp [kept]
      | succ index => simp [inductionHypothesis]

theorem forms_setActivation (network : TrainingNetwork R) (layer i : ℕ)
    (value : R) :
    (network.setActivation layer i value).forms = network.forms := by
  apply map_modify
  intro currentlayer
  have neurons :
      (currentlayer.neuronvalues.modify i fun neuron =>
          { neuron with activationfunctionvalue := value }).map
          (·.toNeuronContent) =
        currentlayer.neuronvalues.map (·.toNeuronContent) := by
    apply map_modify
    exact fun _ => rfl
  rw [TrainingLayer.form, TrainingLayer.content, neurons]
  rfl

/-- The same layer count, and layers of the same forms. -/
structure SameStructure (before after : TrainingNetwork R) : Prop where
  layers : after.layers = before.layers
  forms : after.forms = before.forms

theorem SameStructure.refl (network : TrainingNetwork R) :
    SameStructure network network :=
  ⟨rfl, rfl⟩

theorem SameStructure.trans {first second third : TrainingNetwork R}
    (left : SameStructure first second) (right : SameStructure second third) :
    SameStructure first third :=
  ⟨right.layers.trans left.layers, right.forms.trans left.forms⟩

theorem SameStructure.wellFormed {before after : TrainingNetwork R}
    (same : SameStructure before after) (wellFormed : before.WellFormed) :
    after.WellFormed := by
  rw [wellFormed_iff_forms] at wellFormed ⊢
  rw [same.layers, same.forms]
  exact wellFormed

theorem sameStructure_setActivation (network : TrainingNetwork R)
    (layer i : ℕ) (value : R) :
    SameStructure network (network.setActivation layer i value) :=
  ⟨rfl, forms_setActivation network layer i value⟩

theorem sameStructure_loadSample (network : TrainingNetwork R)
    (sample : ℕ → R) (neurons : ℕ) :
    SameStructure network (network.loadSample sample neurons) := by
  apply List.foldlRecOn (motive := SameStructure network)
  · exact .refl network
  · intro current same i _
    exact same.trans (sameStructure_setActivation current 0 i (sample i))

section Steps

variable [Field R] [LinearOrder R] {exp : R → R}

theorem sameStructure_feedNeuron {layer i : ℕ}
    {before after : TrainingNetwork R}
    (finishes : feedNeuron exp layer before i = .ok after) :
    SameStructure before after := by
  simp only [feedNeuron, Exec.bind_eq_ok, Except.ok.injEq] at finishes
  rcases finishes with ⟨_, -, _, -, _, -, _, -, _, -, rfl⟩
  exact sameStructure_setActivation before layer i _

theorem sameStructure_feedLayer {layer : ℕ} {before after : TrainingNetwork R}
    (finishes : feedLayer exp before layer = .ok after) :
    SameStructure before after := by
  simp only [feedLayer, Exec.bind_eq_ok] at finishes
  rcases finishes with ⟨_, -, finishes⟩
  exact Exec.foldlM_related .refl .trans sameStructure_feedNeuron finishes

theorem sameStructure_FeedFoward {before after : TrainingNetwork R}
    (finishes : FeedFoward exp before = .ok after) :
    SameStructure before after := by
  simp only [FeedFoward, Exec.bind_eq_ok] at finishes
  rcases finishes with ⟨_, -, finishes⟩
  exact Exec.foldlM_related .refl .trans sameStructure_feedLayer finishes

/-- Propagating back keeps the structure, whatever stray reads find. -/
theorem sameStructure_BackPropagation {stray : ℕ → R} {alpha lambda : R}
    {regularization : ℤ} {label : List R}
    {log accesses : List (Access TrainingArray)}
    {before after : TrainingNetwork R} (wellFormed : before.WellFormed)
    (twoLayers : 2 ≤ before.layervalues.length)
    (labels : before.widths.getLast? = some label.length)
    (finishes :
      BackPropagation stray alpha regularization lambda before label log =
        .ok (after, accesses)) :
    SameStructure before after := by
  rcases yields_BackPropagation stray alpha regularization lambda wellFormed
    twoLayers labels log with ⟨result, _, runs, -, same, forms, -⟩
  rw [finishes, Except.ok.injEq, Prod.mk.injEq] at runs
  rcases runs with ⟨rfl, -⟩
  exact ⟨by rw [same], forms⟩

end Steps

/-- A whole training keeps the structure. -/
theorem sameStructure_training {exp : ℚ → ℚ}
    {before after : TrainingNetwork ℚ} {events : List TrainingEvent}
    (path : Path (TrainingStep exp) before events after)
    (wellFormed : before.WellFormed) (twoLayers : 2 ≤ before.forms.length) :
    SameStructure before after := by
  refine path.invariant (SameStructure before) ?_ (.refl before)
  intro source event target step same
  have sourceLayers : 2 ≤ source.layervalues.length := by
    rw [← List.length_map TrainingLayer.form]
    show 2 ≤ source.forms.length
    rw [same.forms]
    exact twoLayers
  cases step with
  | sample => exact same.trans (sameStructure_loadSample _ _ _)
  | feedFoward finishes => exact same.trans (sameStructure_FeedFoward finishes)
  | backPropagation labels finishes =>
      exact same.trans
        (sameStructure_BackPropagation (same.wellFormed wellFormed)
          sourceLayers labels finishes)

/-! ## Training a network in its cells -/

/-- The network as it is read, with whatever activation values. -/
def training (content : NetworkContent R) (activation : ℕ → ℕ → R) :
    TrainingNetwork R where
  epoch := content.epoch
  alpha := content.alpha
  regularization := content.regularization
  lambda := content.lambda
  percentualtraining := content.percentualtraining
  lossfunctiontype := content.lossfunctiontype
  layers := content.layers
  layervalues :=
    content.layervalues.mapIdx fun l layer =>
      { activationfunctiontype := layer.activationfunctiontype
        neurons := layer.neurons
        neuronvalues :=
          layer.neuronvalues.mapIdx fun i neuron =>
            { neuron with activationfunctionvalue := activation l i } }

/-- The biases and weights after the training. -/
def TrainingNetwork.parameters (network : TrainingNetwork R) : Parameters R :=
  network.layervalues.map fun layer =>
    layer.neuronvalues.map fun neuron => (neuron.bias, neuron.weightvalues)

/--
The client trains its network: it reads the content, takes steps and stores the
biases and weights in the cells they come from.
-/
def Trains (exp : ℚ → ℚ) (before after : NeuralNetwork ℚ) : Prop :=
  ∃ content activation events trained,
    before.content = .ok content ∧
      Path (TrainingStep exp) (training content activation) events trained ∧
        after = before.withParameters trained.parameters

/-- A view which undoes an indexed change. -/
theorem map_mapIdx_of_restores {α β : Type} {change : ℕ → α → β} {view : β → α}
    (restores : ∀ index value, view (change index value) = value)
    (values : List α) : (values.mapIdx change).map view = values := by
  apply List.ext_getElem
  · simp
  · intro index _ _
    simp [restores]

theorem forms_training (content : NetworkContent R) (activation : ℕ → ℕ → R) :
    (training content activation).forms = content.forms := by
  have layers :
      (training content activation).layervalues.map TrainingLayer.content =
        content.layervalues := by
    apply map_mapIdx_of_restores
    intro l layer
    have neurons :
        (layer.neuronvalues.mapIdx fun i neuron =>
            ({ neuron with activationfunctionvalue := activation l i } :
              TrainingNeuron R)).map (·.toNeuronContent) =
          layer.neuronvalues := by
      apply map_mapIdx_of_restores
      exact fun _ _ => rfl
    rw [TrainingLayer.content, neurons]
  rw [NetworkContent.forms, ← layers, List.map_map]
  rfl

theorem shape_parameters (network : TrainingNetwork R) :
    network.parameters.shape =
      network.forms.map fun layer =>
        layer.neuronvalues.map fun neuron => neuron.weightvalues.length := by
  simp [Parameters.shape, TrainingNetwork.parameters, TrainingNetwork.forms,
    TrainingLayer.form, TrainingLayer.content, LayerContent.form,
    NeuronContent.form, Function.comp_def]

/-- A trained network runs forward and has the form it had. -/
theorem Trains.keeps {exp : ℚ → ℚ} {before after : NeuralNetwork ℚ}
    (trains : Trains exp before after) (forward : before.Forward)
    (wellFormed : ∀ activation,
      (training before.read activation).WellFormed)
    (twoLayers : 2 ≤ before.forms.length) :
    after.Forward ∧ after.forms = before.forms ∧ after.layers = before.layers := by
  rcases trains with ⟨content, activation, events, trained, holds, path, rfl⟩
  rw [NeuralNetwork.content_forward forward, Except.ok.injEq] at holds
  subst holds
  have same :=
    sameStructure_training path (wellFormed activation)
      (by rw [forms_training]; exact twoLayers)
  have fits : before.Fits trained.parameters := by
    rw [NeuralNetwork.fits_iff_shape, shape_parameters, same.forms,
      forms_training, NeuralNetwork.shape_eq_forms]
    rfl
  exact ⟨NeuralNetwork.forward_withParameters fits forward,
    NeuralNetwork.forms_withParameters fits, rfl⟩

end FederatedEdge.Client
