import FederatedEdge.Client.Learning
import Mathlib.Algebra.BigOperators.Ring.List
import Mathlib.Algebra.Order.BigOperators.Group.List
import Mathlib.Algebra.Order.Ring.Defs

/-!
# What feeding forward computes

`FeedFoward` overwrites the activation values in place, neuron by neuron, and
each softmax neuron computes the denominator anew from the lists.  The
denominator depends on biases, weights and the layer below only, none of which
the siblings change, so that all neurons of the output layer use one sum.

The pass is a recursion over the layers above the first one.  What it leaves is
a chain: every layer holds its activation function of the values below.
-/

namespace FederatedEdge.Client

open FederatedEdge.Library
open FederatedEdge.Network

variable {R : Type}

/-! ## The sums -/

/-- A counting loop which adds one term per turn. -/
theorem foldlM_range_add [AddMonoid R] (terms : List R) {body : R → ℕ → Exec R}
    (turn : ∀ index term, terms[index]? = some term →
      ∀ sum, body sum index = .ok (sum + term))
    (start : R) :
    (List.range terms.length).foldlM body start = .ok (start + terms.sum) := by
  induction terms using List.reverseRecOn with
  | nil => simp
  | append_singleton terms last inductionHypothesis =>
      have early :
          (List.range terms.length).foldlM body start =
            .ok (start + terms.sum) :=
        inductionHypothesis fun index term found =>
          turn index term (by
            rw [List.getElem?_append_left
              (List.getElem?_eq_some_iff.mp found).1]
            exact found)
      have final := turn terms.length last List.getElem?_concat_length
      rw [List.length_append, List.length_singleton, List.range_succ,
        List.foldlM_append, early, Exec.ok_bind, List.foldlM_cons, final,
        Exec.ok_bind, List.foldlM_nil, List.sum_append, List.sum_singleton,
        add_assoc]
      rfl

section Sums

variable [Field R] (exp : R → R)

/-- The sum of a neuron over the activation values of the layer below. -/
def weightedSum (outputs : List R) (neuron : NeuronContent R) : R :=
  neuron.bias + (List.zipWith (· * ·) neuron.weightvalues outputs).sum

/-- The sum of the exponentials of all neurons of a layer. -/
def exponentialSum (outputs : List R) (neurons : List (NeuronContent R)) : R :=
  (neurons.map fun neuron => exp (weightedSum outputs neuron)).sum

/-- The loop over the weights of a connected neuron computes the sum. -/
theorem weightedInput_eq {lower : TrainingLayer R} {neuron : TrainingNeuron R}
    (counted : neuron.weights = neuron.weightvalues.length)
    (connected : neuron.weightvalues.length = lower.neuronvalues.length) :
    weightedInput lower neuron =
      .ok (weightedSum lower.outputs neuron.toNeuronContent) := by
  have turns :
      neuron.weights.toNat =
        (List.zipWith (· * ·) neuron.weightvalues lower.outputs).length := by
    rw [List.length_zipWith, TrainingLayer.outputs, List.length_map, counted,
      connected]
    omega
  rw [weightedInput, turns, zero_add]
  apply foldlM_range_add
  intro j term found Z
  rcases List.getElem?_zipWith_eq_some.mp found
    with ⟨weight, output, weightFound, outputFound, rfl⟩
  rw [TrainingLayer.outputs, List.getElem?_map] at outputFound
  rcases Option.map_eq_some_iff.mp outputFound with ⟨previous, present, rfl⟩
  rw [weightFound, present]
  rfl

/-- The denominator is the sum over the last layer, from the one below it. -/
theorem softmaxsum_eq {network : TrainingNetwork R}
    {below : List (TrainingLayer R)} {lower last : TrainingLayer R}
    (layers : network.layervalues = below ++ [lower, last])
    (counted : last.neurons = last.neuronvalues.length)
    (connected : Connected lower last) :
    softmaxsum exp network =
      .ok (exponentialSum exp lower.outputs last.content.neuronvalues) := by
  have isLast : network.layervalues.getLast? = some last := by
    rw [layers, List.getLast?_append]
    rfl
  have isLower : network.layervalues.dropLast.getLast? = some lower := by
    rw [layers, List.dropLast_append_of_ne_nil (by simp), List.getLast?_append]
    rfl
  have turns :
      last.neurons.toNat =
        (last.content.neuronvalues.map fun neuron =>
          exp (weightedSum lower.outputs neuron)).length := by
    rw [TrainingLayer.content, List.length_map, List.length_map, counted]
    omega
  rw [softmaxsum, isLast, isLower, Exec.deref_some, Exec.ok_bind,
    Exec.deref_some, Exec.ok_bind, turns, exponentialSum]
  rw [foldlM_range_add (last.content.neuronvalues.map _), zero_add]
  intro i term found sum
  rw [TrainingLayer.content, List.map_map, List.getElem?_map] at found
  rcases Option.map_eq_some_iff.mp found with ⟨neuron, present, rfl⟩
  rcases connected neuron (List.mem_of_getElem? present)
    with ⟨weights, sameLength⟩
  rw [present, Exec.deref_some, Exec.ok_bind,
    weightedInput_eq weights sameLength, Exec.ok_bind]
  rfl

end Sums

/-! ## Layers of a well-formed network -/

/-- The last two layers of a well-formed network fit together. -/
theorem TrainingNetwork.WellFormed.lastLayers {network : TrainingNetwork R}
    (wellFormed : network.WellFormed)
    (twoLayers : 2 ≤ network.layervalues.length) :
    ∃ below lower last, network.layervalues = below ++ [lower, last] ∧
      last.neurons = last.neuronvalues.length ∧ Connected lower last := by
  rcases reversed : network.layervalues.reverse
    with _ | ⟨last, _ | ⟨lower, below⟩⟩
  · simp_all
  · have single := congrArg List.length reversed
    rw [List.length_reverse, List.length_singleton] at single
    omega
  · have layers : network.layervalues = below.reverse ++ [lower, last] := by
      rw [← List.reverse_reverse network.layervalues, reversed]
      simp
    refine ⟨below.reverse, lower, last, layers, ?_, ?_⟩
    · exact wellFormed.neurons last (by simp [layers])
    · have connected := wellFormed.connected
      rw [layers] at connected
      exact List.isChain_pair.mp connected.right_of_append

/-- A layer may be replaced by one of the same content. -/
theorem sameStructure_replaceLayer {network : TrainingNetwork R}
    {front above : List (TrainingLayer R)} {lower layer other : TrainingLayer R}
    (layers : network.layervalues = front ++ lower :: layer :: above)
    (sameContent : other.content = layer.content) :
    SameStructure network
      { network with layervalues := front ++ lower :: other :: above } := by
  refine ⟨rfl, ?_⟩
  have sameForm : other.form = layer.form := congrArg LayerContent.form sameContent
  rw [TrainingNetwork.forms, TrainingNetwork.forms, layers]
  simp [sameForm]

/-- A layer above another one in a well-formed network is connected to it. -/
theorem TrainingNetwork.WellFormed.connectedAt {network : TrainingNetwork R}
    {front above : List (TrainingLayer R)} {lower layer : TrainingLayer R}
    (wellFormed : network.WellFormed)
    (layers : network.layervalues = front ++ lower :: layer :: above) :
    Connected lower layer := by
  have chained := wellFormed.connected
  rw [layers] at chained
  exact (List.isChain_cons_cons.mp chained.right_of_append).1

/-! ## The values -/

section Values

variable [Field R] [LinearOrder R] (exp : R → R)

/-- The activation function of a layer with the given softmax denominator. -/
def activation (activationfunctiontype : ℤ) (denominator Z : R) : R :=
  match activationfunctiontype with
  | 1 => Perceptron Z
  | 2 => ReLU Z
  | 3 => Sigmoid exp Z
  | 4 => SoftMax exp Z denominator
  | _ => 0

/-- The value of a neuron in a layer which lies above such outputs. -/
def neuronOutput (outputs : List R) (layer : LayerContent R)
    (neuron : NeuronContent R) : R :=
  activation exp layer.activationfunctiontype
    (exponentialSum exp outputs layer.neuronvalues) (weightedSum outputs neuron)

/-- Every neuron of the upper layer holds its value over the lower one. -/
def Fed (lower upper : TrainingLayer R) : Prop :=
  ∀ neuron ∈ upper.neuronvalues,
    neuron.activationfunctionvalue =
      neuronOutput exp lower.outputs upper.content neuron.toNeuronContent

def fedNeuron (lower layer : TrainingLayer R) (neuron : TrainingNeuron R) :
    TrainingNeuron R :=
  { neuron with
    activationfunctionvalue :=
      neuronOutput exp lower.outputs layer.content neuron.toNeuronContent }

/-- A layer with the values over the layer below. -/
def fedLayer (lower layer : TrainingLayer R) : TrainingLayer R :=
  { layer with
    neuronvalues := layer.neuronvalues.map (fedNeuron exp lower layer) }

/-- The layers above a given one, each fed from the one below. -/
def fedLayers : TrainingLayer R → List (TrainingLayer R) →
    List (TrainingLayer R)
  | _, [] => []
  | lower, layer :: above =>
      let fed := fedLayer exp lower layer
      fed :: fedLayers fed above

theorem content_fedLayer (lower layer : TrainingLayer R) :
    (fedLayer exp lower layer).content = layer.content := by
  simp [fedLayer, fedNeuron, TrainingLayer.content, Function.comp_def]

theorem fed_fedLayer (lower layer : TrainingLayer R) :
    Fed exp lower (fedLayer exp lower layer) := by
  intro neuron member
  rcases List.mem_map.mp member with ⟨original, _, rfl⟩
  rw [content_fedLayer]
  rfl

theorem content_fedLayers (lower : TrainingLayer R)
    (layers : List (TrainingLayer R)) :
    (fedLayers exp lower layers).map TrainingLayer.content =
      layers.map TrainingLayer.content := by
  induction layers generalizing lower with
  | nil => rfl
  | cons layer above inductionHypothesis =>
      rw [fedLayers, List.map_cons, List.map_cons, content_fedLayer,
        inductionHypothesis]

/-- Each layer after the first is fed from the one before. -/
theorem fed_fedLayers (lower : TrainingLayer R)
    (layers : List (TrainingLayer R)) :
    (lower :: fedLayers exp lower layers).IsChain (Fed exp) := by
  induction layers generalizing lower with
  | nil => exact List.isChain_singleton lower
  | cons layer above inductionHypothesis =>
      rw [fedLayers, List.isChain_cons_cons]
      exact ⟨fed_fedLayer exp lower layer, inductionHypothesis _⟩

/-! ## One neuron -/

/-- With a readable last layer, every activation function returns. -/
theorem ActivationFunctionCalculaton_eq {network : TrainingNetwork R}
    {below : List (TrainingLayer R)} {lower last : TrainingLayer R}
    (layers : network.layervalues = below ++ [lower, last])
    (counted : last.neurons = last.neuronvalues.length)
    (connected : Connected lower last) (Z : R) (activationfunctiontype : ℤ) :
    ActivationFunctionCalculaton exp network Z activationfunctiontype =
      .ok
        (activation exp activationfunctiontype
          (exponentialSum exp lower.outputs last.content.neuronvalues) Z) := by
  unfold ActivationFunctionCalculaton activation
  split
  · rfl
  · rfl
  · rfl
  · rw [softmaxsum_eq exp layers counted connected]
    rfl
  · simp_all

/-- Only softmax reads the denominator. -/
theorem activation_denominator {activationfunctiontype : ℤ}
    (notSoftmax : activationfunctiontype ≠ 4) (first second Z : R) :
    activation exp activationfunctiontype first Z =
      activation exp activationfunctiontype second Z := by
  unfold activation
  split
  · rfl
  · rfl
  · rfl
  · exact absurd rfl notSoftmax
  · rfl

/-- The turn for a connected neuron sets its value. -/
theorem feedNeuron_eq {network : TrainingNetwork R}
    {front above below : List (TrainingLayer R)}
    {lower layer penultimate last : TrainingLayer R} {i : ℕ}
    {neuron : TrainingNeuron R}
    (layers : network.layervalues = front ++ lower :: layer :: above)
    (lastLayers : network.layervalues = below ++ [penultimate, last])
    (counted : last.neurons = last.neuronvalues.length)
    (lastConnected : Connected penultimate last)
    (connected : Connected lower layer)
    (found : layer.neuronvalues[i]? = some neuron) :
    feedNeuron exp (front.length + 1) network i =
      .ok
        (network.setActivation (front.length + 1) i
          (activation exp layer.activationfunctiontype
            (exponentialSum exp penultimate.outputs last.content.neuronvalues)
            (weightedSum lower.outputs neuron.toNeuronContent))) := by
  have isLayer : network.layervalues[front.length + 1]? = some layer := by
    rw [layers, List.getElem?_append_right (by omega)]
    simp
  have isLower : network.layervalues[front.length + 1 - 1]? = some lower := by
    rw [layers, List.getElem?_append_right (by omega)]
    simp
  rcases connected neuron (List.mem_of_getElem? found)
    with ⟨weights, sameLength⟩
  rw [feedNeuron, isLayer, isLower, Exec.deref_some, Exec.ok_bind,
    Exec.deref_some, Exec.ok_bind, found, Exec.deref_some, Exec.ok_bind,
    weightedInput_eq weights sameLength, Exec.ok_bind,
    ActivationFunctionCalculaton_eq exp lastLayers counted lastConnected,
    Exec.ok_bind]

/-! ## One layer -/

/-- The layer when its first neurons have got their values. -/
def partlyFed (lower layer : TrainingLayer R) (count : ℕ) : TrainingLayer R :=
  { layer with
    neuronvalues := layer.neuronvalues.mapIdx fun index neuron =>
      if index < count then fedNeuron exp lower layer neuron else neuron }

theorem partlyFed_zero (lower layer : TrainingLayer R) :
    partlyFed exp lower layer 0 = layer := by
  rw [partlyFed]
  congr 1
  apply List.ext_getElem
  · simp
  · intro index _ _
    simp

theorem partlyFed_length (lower layer : TrainingLayer R) :
    partlyFed exp lower layer layer.neuronvalues.length =
      fedLayer exp lower layer := by
  rw [partlyFed, fedLayer]
  congr 1
  apply List.ext_getElem
  · simp
  · intro index below _
    rw [List.length_mapIdx] at below
    simp [below]

theorem content_partlyFed (lower layer : TrainingLayer R) (count : ℕ) :
    (partlyFed exp lower layer count).content = layer.content := by
  rw [TrainingLayer.content, TrainingLayer.content, partlyFed]
  congr 1
  apply List.ext_getElem
  · simp
  · intro index _ _
    simp only [List.getElem_map, List.getElem_mapIdx]
    split_ifs <;> rfl

/-- Modifying the element behind a front. -/
theorem modify_append_cons {α : Type} (front back : List α) (value : α)
    (change : α → α) :
    (front ++ value :: back).modify front.length change =
      front ++ change value :: back := by
  induction front with
  | nil => rfl
  | cons first front inductionHypothesis =>
      rw [List.cons_append, List.length_cons, List.modify_succ_cons,
        inductionHypothesis, List.cons_append]

/-- Setting the next value. -/
theorem setActivation_partlyFed (network : TrainingNetwork R)
    (front above : List (TrainingLayer R)) (lower layer : TrainingLayer R)
    {i : ℕ} {neuron : TrainingNeuron R}
    (found : layer.neuronvalues[i]? = some neuron) :
    ({ network with
        layervalues :=
          front ++ lower :: partlyFed exp lower layer i :: above } :
        TrainingNetwork R).setActivation (front.length + 1) i
        (neuronOutput exp lower.outputs layer.content neuron.toNeuronContent) =
      { network with
        layervalues :=
          front ++ lower :: partlyFed exp lower layer (i + 1) :: above } := by
  have neurons :
      (partlyFed exp lower layer i).neuronvalues.modify i
          (fun currentneuron =>
            { currentneuron with
              activationfunctionvalue :=
                neuronOutput exp lower.outputs layer.content
                  neuron.toNeuronContent }) =
        (partlyFed exp lower layer (i + 1)).neuronvalues := by
    apply List.ext_getElem
    · simp [partlyFed]
    · intro index below _
      rw [List.getElem_modify]
      simp only [partlyFed, List.getElem_mapIdx]
      rcases Nat.lt_trichotomy index i with earlier | rfl | later
      · rw [if_neg (by omega), if_pos earlier, if_pos (by omega)]
      · rw [if_pos rfl, if_neg (by omega), if_pos (by omega), fedNeuron,
          (List.getElem?_eq_some_iff.mp found).2]
      · rw [if_neg (by omega), if_neg (by omega), if_neg (by omega)]
  have placed :=
    modify_append_cons (front ++ [lower]) above (partlyFed exp lower layer i)
      (fun currentlayer : TrainingLayer R =>
        { currentlayer with
          neuronvalues :=
            currentlayer.neuronvalues.modify i fun currentneuron =>
              { currentneuron with
                activationfunctionvalue :=
                  neuronOutput exp lower.outputs layer.content
                    neuron.toNeuronContent } })
  rw [List.append_assoc, List.append_assoc, List.length_append, neurons]
    at placed
  rw [TrainingNetwork.setActivation]
  congr 1

/-- The turn for neuron `i`, after the turns for the neurons before it. -/
theorem feedNeuron_partlyFed {network : TrainingNetwork R}
    {front above : List (TrainingLayer R)} {lower layer : TrainingLayer R}
    (wellFormed : network.WellFormed)
    (layers : network.layervalues = front ++ lower :: layer :: above)
    (softmax : layer.activationfunctiontype = 4 → above = []) {i : ℕ}
    (inside : i < layer.neuronvalues.length) :
    feedNeuron exp (front.length + 1)
        { network with
          layervalues :=
            front ++ lower :: partlyFed exp lower layer i :: above } i =
      .ok
        { network with
          layervalues :=
            front ++ lower :: partlyFed exp lower layer (i + 1) :: above } := by
  have sameContent := content_partlyFed exp lower layer i
  have currentWellFormed :=
    (sameStructure_replaceLayer layers sameContent).wellFormed wellFormed
  have found := List.getElem?_eq_getElem inside
  have stillFound :
      (partlyFed exp lower layer i).neuronvalues[i]? =
        some layer.neuronvalues[i] := by
    simp [partlyFed, inside]
  have twoLayers :
      2 ≤ (front ++ lower :: partlyFed exp lower layer i :: above).length := by
    simp only [List.length_append, List.length_cons]
    omega
  rcases currentWellFormed.lastLayers twoLayers
    with ⟨below, penultimate, last, lastLayers, counted, lastConnected⟩
  rw [feedNeuron_eq exp rfl lastLayers counted lastConnected
    (currentWellFormed.connectedAt rfl) stillFound,
    ← setActivation_partlyFed exp network front above lower layer found]
  have sameValue :
      activation exp layer.activationfunctiontype
          (exponentialSum exp penultimate.outputs last.content.neuronvalues)
          (weightedSum lower.outputs layer.neuronvalues[i].toNeuronContent) =
        neuronOutput exp lower.outputs layer.content
          layer.neuronvalues[i].toNeuronContent := by
    by_cases last4 : layer.activationfunctiontype = 4
    · rw [softmax last4] at lastLayers
      have ends :
          front ++ [lower, partlyFed exp lower layer i] =
            below ++ [penultimate, last] := lastLayers
      rcases List.append_inj_right' ends rfl with sameEnds
      rw [List.cons.injEq, List.cons.injEq] at sameEnds
      rcases sameEnds with ⟨rfl, rfl, -⟩
      rw [sameContent]
      rfl
    · exact activation_denominator exp last4 _ _ _
  rw [← sameValue]
  rfl

/--
The turns for a layer leave its activation function of the values below.  A
softmax layer has to be the last one, where the recomputed sums are its own.
-/
theorem feedLayer_eq {network : TrainingNetwork R}
    {front above : List (TrainingLayer R)} {lower layer : TrainingLayer R}
    (wellFormed : network.WellFormed)
    (layers : network.layervalues = front ++ lower :: layer :: above)
    (softmax : layer.activationfunctiontype = 4 → above = []) :
    feedLayer exp network (front.length + 1) =
      .ok
        { network with
          layervalues :=
            front ++ lower :: fedLayer exp lower layer :: above } := by
  have counted : layer.neurons.toNat = layer.neuronvalues.length := by
    rw [wellFormed.neurons layer (by simp [layers])]
    omega
  have isLayer : network.layervalues[front.length + 1]? = some layer := by
    rw [layers, List.getElem?_append_right (by omega)]
    simp
  have turns :
      ∃ final,
        (List.range layer.neuronvalues.length).foldlM
            (feedNeuron exp (front.length + 1)) network = .ok final ∧
          final =
            { network with
              layervalues :=
                front ++
                  lower ::
                    partlyFed exp lower layer layer.neuronvalues.length ::
                      above } := by
    refine Exec.foldlM_range
      (fun count state =>
        state =
          { network with
            layervalues :=
              front ++ lower :: partlyFed exp lower layer count :: above })
      ?_ ?_
    · rw [partlyFed_zero, ← layers]
    · rintro i inside _ rfl
      exact ⟨_, feedNeuron_partlyFed exp wellFormed layers softmax inside, rfl⟩
  rcases turns with ⟨final, finishes, rfl⟩
  rw [feedLayer, isLayer, Exec.deref_some, Exec.ok_bind, counted, finishes,
    partlyFed_length]

/-! ## The whole pass -/

/-- The turns for all layers above a given one. -/
theorem feedLayers_eq {network : TrainingNetwork R}
    {front above : List (TrainingLayer R)} {lower : TrainingLayer R}
    (wellFormed : network.WellFormed)
    (layers : network.layervalues = front ++ lower :: above)
    (softmax : ∀ layer ∈ above.dropLast, layer.activationfunctiontype ≠ 4) :
    (List.range' (front.length + 1) above.length).foldlM (feedLayer exp)
        network =
      .ok
        { network with
          layervalues := front ++ lower :: fedLayers exp lower above } := by
  induction above generalizing network front lower with
  | nil =>
      rw [fedLayers, ← layers]
      rfl
  | cons layer above inductionHypothesis =>
      have ownSums : layer.activationfunctiontype = 4 → above = [] := by
        intro isSoftmax
        cases above with
        | nil => rfl
        | cons next above => exact absurd isSoftmax (softmax layer (by simp))
      have lowerLayers :
          ∀ other ∈ above.dropLast, other.activationfunctiontype ≠ 4 := by
        intro other member
        cases above with
        | nil => cases member
        | cons next above =>
            exact softmax other (List.mem_cons_of_mem layer member)
      have stillWellFormed :=
        (sameStructure_replaceLayer layers
          (content_fedLayer exp lower layer)).wellFormed wellFormed
      have rest :
          (List.range' ((front ++ [lower]).length + 1) above.length).foldlM
              (feedLayer exp)
              { network with
                layervalues :=
                  front ++ lower :: fedLayer exp lower layer :: above } =
            .ok
              { network with
                layervalues :=
                  (front ++ [lower]) ++
                    fedLayer exp lower layer ::
                      fedLayers exp (fedLayer exp lower layer) above } :=
        inductionHypothesis stillWellFormed (by simp) lowerLayers
      rw [List.length_append, List.length_singleton] at rest
      rw [List.length_cons, List.range'_succ, List.foldlM_cons,
        feedLayer_eq exp wellFormed layers ownSums, Exec.ok_bind, rest,
        List.append_assoc, List.singleton_append, fedLayers]

/-- Feeding forward a well-formed network with softmax in the last layer only. -/
theorem FeedFoward_eq {network : TrainingNetwork R}
    {first : TrainingLayer R} {above : List (TrainingLayer R)}
    (wellFormed : network.WellFormed)
    (layers : network.layervalues = first :: above)
    (softmax : ∀ layer ∈ above.dropLast, layer.activationfunctiontype ≠ 4) :
    FeedFoward exp network =
      .ok
        { network with layervalues := first :: fedLayers exp first above } := by
  have counted : (network.layers - 1).toNat = above.length := by
    rw [wellFormed.layers, layers, List.length_cons]
    omega
  rw [FeedFoward, layers, List.head?_cons, Exec.deref_some, Exec.ok_bind,
    counted]
  have split : network.layervalues = [] ++ first :: above := layers
  exact feedLayers_eq exp wellFormed split softmax

/-! ## Finishing -/

omit [Field R] [LinearOrder R] in
/-- Two neighbours in a list, by the place of the first. -/
theorem exists_neighbours {α : Type} {values : List α} {index : ℕ}
    (inside : index + 1 < values.length) :
    ∃ front lower upper back,
      values = front ++ lower :: upper :: back ∧ front.length = index := by
  refine ⟨values.take index, values[index], values[index + 1],
    values.drop (index + 2), ?_, ?_⟩
  · rw [← List.drop_eq_getElem_cons, ← List.drop_eq_getElem_cons,
      List.take_append_drop]
  · rw [List.length_take]
    omega

theorem finishes_feedNeuron {network : TrainingNetwork R} {l i : ℕ}
    {layer : TrainingLayer R} (wellFormed : network.WellFormed)
    (found : network.layervalues[l + 1]? = some layer)
    (inside : i < layer.neuronvalues.length) :
    ∃ after, feedNeuron exp (l + 1) network i = .ok after := by
  have below := (List.getElem?_eq_some_iff.mp found).1
  rcases exists_neighbours below
    with ⟨front, lower, upper, back, layers, rfl⟩
  have same : upper = layer := by
    rw [layers, List.getElem?_append_right (by omega)] at found
    simpa using found
  subst same
  rcases wellFormed.lastLayers (by omega)
    with ⟨rest, penultimate, last, lastLayers, counted, lastConnected⟩
  exact ⟨_, feedNeuron_eq exp layers lastLayers counted lastConnected
    (wellFormed.connectedAt layers) (List.getElem?_eq_getElem inside)⟩

omit [Field R] [LinearOrder R] in
/-- The same layer of another network of the structure. -/
theorem SameStructure.layerAt {before after : TrainingNetwork R} {l : ℕ}
    {layer : TrainingLayer R} (same : SameStructure before after)
    (found : before.layervalues[l]? = some layer) :
    ∃ other, after.layervalues[l]? = some other ∧
      other.neuronvalues.length = layer.neuronvalues.length := by
  have sameForm := congrArg (·[l]?) same.forms
  simp only [TrainingNetwork.forms, List.getElem?_map, found, Option.map_some,
    Option.map_eq_some_iff] at sameForm
  rcases sameForm with ⟨other, present, equal⟩
  have sameNeurons := congrArg (·.neuronvalues.length) equal
  simp only [TrainingLayer.form, TrainingLayer.content, LayerContent.form,
    List.length_map] at sameNeurons
  exact ⟨other, present, sameNeurons⟩

theorem finishes_feedLayer {network : TrainingNetwork R} {l : ℕ}
    (wellFormed : network.WellFormed)
    (inside : l + 1 < network.layervalues.length) :
    ∃ after, feedLayer exp network (l + 1) = .ok after := by
  have found := List.getElem?_eq_getElem inside
  have counted :=
    wellFormed.neurons network.layervalues[l + 1] (List.getElem_mem inside)
  have turns :
      ∃ after,
        (List.range network.layervalues[l + 1].neurons.toNat).foldlM
            (feedNeuron exp (l + 1)) network = .ok after ∧
          SameStructure network after := by
    apply Exec.foldlM_invariant
    · exact .refl network
    · intro i member current same
      rw [List.mem_range, counted, Int.toNat_natCast] at member
      rcases same.layerAt found with ⟨layer, present, sameNeurons⟩
      rcases finishes_feedNeuron exp (same.wellFormed wellFormed) present
        (by rw [sameNeurons]; exact member) with ⟨after, finishes⟩
      exact ⟨after, finishes, same.trans (sameStructure_feedNeuron finishes)⟩
  rcases turns with ⟨after, finishes, -⟩
  refine ⟨after, ?_⟩
  rw [feedLayer, found, Exec.deref_some, Exec.ok_bind, finishes]

/-- Feeding forward any well-formed network finishes. -/
theorem finishes_FeedFoward {network : TrainingNetwork R}
    (wellFormed : network.WellFormed) (nonempty : network.layervalues ≠ []) :
    ∃ after, FeedFoward exp network = .ok after := by
  have turns :
      ∃ after,
        (List.range' 1 (network.layers - 1).toNat).foldlM (feedLayer exp)
            network = .ok after ∧
          SameStructure network after := by
    apply Exec.foldlM_invariant
    · exact .refl network
    · intro layer member current same
      rw [wellFormed.layers, List.mem_range'_1] at member
      rcases layer with _ | l
      · omega
      · have inside : l + 1 < network.layervalues.length := by omega
        rcases same.layerAt (List.getElem?_eq_getElem inside)
          with ⟨_, present, -⟩
        rcases finishes_feedLayer exp (same.wellFormed wellFormed)
          (List.getElem?_eq_some_iff.mp present).1 with ⟨after, finishes⟩
        exact ⟨after, finishes, same.trans (sameStructure_feedLayer finishes)⟩
  rcases turns with ⟨after, finishes, -⟩
  rcases List.exists_cons_of_ne_nil nonempty with ⟨first, above, layers⟩
  refine ⟨after, ?_⟩
  rw [FeedFoward, layers, List.head?_cons, Exec.deref_some, Exec.ok_bind,
    finishes]

/-! ## Softmax -/

section Softmax

variable {exp}

/-- The outputs of a fed softmax layer are exponentials over their sum. -/
theorem outputs_softmax {lower last : TrainingLayer R}
    (softmax : last.activationfunctiontype = 4) (fed : Fed exp lower last) :
    last.outputs =
      last.neuronvalues.map fun neuron =>
        exp (weightedSum lower.outputs neuron.toNeuronContent) *
          (exponentialSum exp lower.outputs last.content.neuronvalues)⁻¹ := by
  apply List.map_congr_left
  intro neuron member
  rw [fed neuron member, neuronOutput, ← div_eq_mul_inv]
  simp only [TrainingLayer.content, softmax]
  rfl

variable [IsStrictOrderedRing R]

theorem exponentialSum_positive (positive : ∀ x, 0 < exp x) (outputs : List R)
    {neurons : List (NeuronContent R)} (nonempty : neurons ≠ []) :
    0 < exponentialSum exp outputs neurons := by
  apply List.sum_pos
  · intro value member
    rcases List.mem_map.mp member with ⟨neuron, _, rfl⟩
    exact positive _
  · simpa using nonempty

theorem softmax_positive (positive : ∀ x, 0 < exp x)
    {lower last : TrainingLayer R} (softmax : last.activationfunctiontype = 4)
    (fed : Fed exp lower last) : ∀ value ∈ last.outputs, 0 < value := by
  intro value member
  rw [outputs_softmax softmax fed] at member
  rcases List.mem_map.mp member with ⟨neuron, present, rfl⟩
  apply mul_pos (positive _)
  rw [inv_pos]
  apply exponentialSum_positive positive
  exact List.ne_nil_of_mem (List.mem_map_of_mem present)

theorem softmax_sum (positive : ∀ x, 0 < exp x) {lower last : TrainingLayer R}
    (softmax : last.activationfunctiontype = 4) (fed : Fed exp lower last)
    (nonempty : last.neuronvalues ≠ []) : last.outputs.sum = 1 := by
  have total :
      0 < exponentialSum exp lower.outputs last.content.neuronvalues :=
    exponentialSum_positive positive _ (by
      simpa [TrainingLayer.content] using nonempty)
  have numerators :
      (last.neuronvalues.map fun neuron =>
          exp (weightedSum lower.outputs neuron.toNeuronContent)).sum =
        exponentialSum exp lower.outputs last.content.neuronvalues := by
    simp [exponentialSum, TrainingLayer.content, Function.comp_def]
  rw [outputs_softmax softmax fed, List.sum_map_mul_right, numerators,
    mul_inv_cancel₀ total.ne']

end Softmax

/-- The topmost layer is fed from some layer below. -/
theorem fedLayers_concat (lower last : TrainingLayer R)
    (layers : List (TrainingLayer R)) :
    ∃ penultimate,
      fedLayers exp lower (layers ++ [last]) =
        fedLayers exp lower layers ++ [fedLayer exp penultimate last] := by
  induction layers generalizing lower with
  | nil => exact ⟨lower, rfl⟩
  | cons layer layers inductionHypothesis =>
      rcases inductionHypothesis (fedLayer exp lower layer)
        with ⟨penultimate, split⟩
      refine ⟨penultimate, ?_⟩
      rw [List.cons_append, fedLayers, split]
      rfl

/-- `Perceptron`, `ReLU` and `Sigmoid`, which look at their own neuron only. -/
def HiddenActivation (activationfunctiontype : ℤ) : Prop :=
  activationfunctiontype = 1 ∨ activationfunctiontype = 2 ∨
    activationfunctiontype = 3

/--
Hidden layers with `Perceptron`, `ReLU` or `Sigmoid` below an output layer with
softmax: every layer above the first one holds its function of the new values
below, and the outputs are a distribution.
-/
theorem feeds_forward [IsStrictOrderedRing R] {network : TrainingNetwork R}
    {first output : TrainingLayer R} {hidden : List (TrainingLayer R)}
    (wellFormed : network.WellFormed)
    (layers : network.layervalues = first :: (hidden ++ [output]))
    (hiddenTypes : ∀ layer ∈ hidden,
      HiddenActivation layer.activationfunctiontype)
    (softmax : output.activationfunctiontype = 4)
    (positive : ∀ x, 0 < exp x) :
    ∃ above last,
      FeedFoward exp network =
          .ok { network with layervalues := first :: above } ∧
        above.map TrainingLayer.content =
          (hidden ++ [output]).map TrainingLayer.content ∧
        (first :: above).IsChain (Fed exp) ∧
        above.getLast? = some last ∧
        (∀ value ∈ last.outputs, 0 < value) ∧
        (output.neuronvalues ≠ [] → last.outputs.sum = 1) := by
  rcases fedLayers_concat exp first output hidden with ⟨penultimate, split⟩
  have fed := fed_fedLayer exp penultimate output
  refine ⟨fedLayers exp first (hidden ++ [output]),
    fedLayer exp penultimate output, ?_, content_fedLayers exp first _,
    fed_fedLayers exp first _, ?_, softmax_positive positive softmax fed, ?_⟩
  · apply FeedFoward_eq exp wellFormed layers
    intro layer member isSoftmax
    rw [List.dropLast_concat] at member
    rcases hiddenTypes layer member with other | other | other
    · omega
    · omega
    · omega
  · rw [split, List.getLast?_concat]
  · intro nonempty
    have fedSoftmax :
        (fedLayer exp penultimate output).activationfunctiontype = 4 := softmax
    apply softmax_sum positive fedSoftmax fed
    simpa [fedLayer] using nonempty

end Values

theorem feeds_forward_sample :
    ∃ above last,
      FeedFoward (fun x => 1 + x * x) (onesNetwork 2 3) =
          .ok
            { onesNetwork 2 3 with layervalues := onesLayer 0 0 1 :: above } ∧
        above.map TrainingLayer.content =
          ([onesLayer 2 1 2, onesLayer 2 2 3] ++ [onesLayer 4 3 1]).map
            TrainingLayer.content ∧
        (onesLayer 0 0 1 :: above).IsChain (Fed fun x => 1 + x * x) ∧
        above.getLast? = some last ∧
        (∀ value ∈ last.outputs, 0 < value) ∧
        ((onesLayer 4 3 1).neuronvalues ≠ [] → last.outputs.sum = 1) := by
  have hiddenTypes : ∀ layer ∈ [onesLayer 2 1 2, onesLayer 2 2 3],
      HiddenActivation layer.activationfunctiontype := by
    intro layer member
    rcases List.mem_pair.mp member with rfl | rfl
    · exact Or.inr (Or.inl rfl)
    · exact Or.inr (Or.inl rfl)
  exact feeds_forward (fun x => 1 + x * x) (wellFormed_onesNetwork 2 3) rfl
    hiddenTypes rfl
    (fun x => add_pos_of_pos_of_nonneg one_pos (mul_self_nonneg x))

end FederatedEdge.Client
