import FederatedEdge.Library.Arena
import FederatedEdge.Server.Initialization

/-!
# Building a network in memory

`InitializeNeuralNetWork` appends layers, neurons and weights to lists whose
last cells it reaches through the network: a neuron through `lastlayer`, a
weight through `lastlayer` and `lastneuron`.  Here these are pointers into three
arenas, one for each type, in which anything may have been allocated before.

What is built are the layers of the network which the server's model starts
with, and every list of it is linked both ways.
-/

namespace FederatedEdge.Server.Construction

open FederatedEdge.Library
open FederatedEdge.Library.Arena
open FederatedEdge.Network (Neuron Layer)

/-! ## The structures -/

/-- The fields of a `Neuron` but its links. -/
structure NeuronFields where
  neurontype : String
  weights : ℤ
  bias : ℚ
  firstweight : Option ℕ
  lastweight : Option ℕ
deriving DecidableEq, Repr

/-- The fields of a `Layer` but its links. -/
structure LayerFields where
  activationfunctiontype : ℤ
  neurons : ℤ
  firstneuron : Option ℕ
  lastneuron : Option ℕ
deriving DecidableEq, Repr

/-- The fields of the `NeuralNetwork` which are assigned. -/
structure NetworkFields where
  lossfunctiontype : ℤ
  layers : ℤ
  firstlayer : Option ℕ
  lastlayer : Option ℕ
deriving DecidableEq, Repr

/-- A `LayerConfig` with its pointers. -/
structure ConfigNode where
  first : Option ℕ
  next : Option ℕ
  neurons : ℤ
  activationfunctiontype : ℤ
deriving DecidableEq, Repr

/-- What has been allocated, and the network. -/
structure Memory where
  weights : Arena (Cell ℚ)
  neurons : Arena (Cell NeuronFields)
  layers : Arena (Cell LayerFields)
  network : NetworkFields
deriving DecidableEq, Repr

/-! ## The loops -/

/--
The body of the loop over the weights.  Whether there is a weight is read from
`newneuron`, and where it is through the network.
-/
def newWeight (newneuron : ℕ) (weight : ℚ) (memory : Memory) : Exec Memory := do
  let newweight := memory.weights.length
  let weights := memory.weights ++ [⟨weight, none, none⟩]
  let neuron ← memory.neurons.load (some newneuron)
  let lastlayer ← memory.layers.load memory.network.lastlayer
  match neuron.value.lastweight with
  | none =>
      let opened ← memory.neurons.store lastlayer.value.lastneuron fun cell =>
        { cell with value := { cell.value with firstweight := some newweight } }
      let neurons ← opened.store (some newneuron) fun cell =>
        { cell with value := { cell.value with lastweight := some newweight } }
      .ok { memory with weights := weights, neurons := neurons }
  | some _ =>
      let lastneuron ← memory.neurons.load lastlayer.value.lastneuron
      let linked ← linkBehind weights lastneuron.value.lastweight newweight
      let neurons ← memory.neurons.store (some newneuron) fun cell =>
        { cell with value := { cell.value with lastweight := some newweight } }
      .ok { memory with weights := linked, neurons := neurons }

/-- The number of weights of a neuron: none in the first layer. -/
def weightsOf (i currrentlayer : ℕ) (memory : Memory) : Exec ℤ :=
  if i = 0 then .ok 0
  else do
    let layer ← memory.layers.load (some currrentlayer)
    let previouslayer ← memory.layers.load layer.previous
    .ok previouslayer.value.neurons

/-- The body of the loop over the neurons. -/
def newNeuron (layers i currrentlayer : ℕ) (weight : ℕ → ℚ) (memory : Memory) :
    Exec Memory := do
  let newneuron := memory.neurons.length
  let weights ← weightsOf i currrentlayer memory
  let neurons :=
    memory.neurons ++
      [⟨⟨neurontypeAt layers i, weights, 0, none, none⟩, none, none⟩]
  let lastlayer ← memory.layers.load memory.network.lastlayer
  let hung ←
    match lastlayer.value.lastneuron with
    | none => do
        let opened ← memory.layers.store memory.network.lastlayer fun cell =>
          { cell with value := { cell.value with firstneuron := some newneuron } }
        .ok { memory with neurons := neurons, layers := opened }
    | some _ => do
        let linked ← linkBehind neurons lastlayer.value.lastneuron newneuron
        .ok { memory with neurons := linked }
  let closed ← hung.layers.store memory.network.lastlayer fun cell =>
    { cell with value := { cell.value with lastneuron := some newneuron } }
  (List.range weights.toNat).foldlM
    (fun memory k => newWeight newneuron (weight k) memory)
    { hung with layers := closed }

/-- The body of the loop over the layers, for an entry of the configuration. -/
def newLayer (layers i : ℕ) (config : ConfigNode) (weight : ℕ → ℕ → ℚ)
    (memory : Memory) : Exec Memory := do
  let newLayer := memory.layers.length
  let fields : LayerFields :=
    ⟨config.activationfunctiontype, config.neurons, none, none⟩
  let allocated := memory.layers ++ [⟨fields, none, none⟩]
  let hung ←
    match memory.network.lastlayer with
    | none =>
        .ok { memory with
              layers := allocated
              network := { memory.network with firstlayer := some newLayer } }
    | some _ => do
        let linked ← linkBehind allocated memory.network.lastlayer newLayer
        .ok { memory with layers := linked }
  (List.range config.neurons.toNat).foldlM
    (fun memory j => newNeuron layers i newLayer (weight j) memory)
    { hung with network := { hung.network with lastlayer := some newLayer } }

/--
`InitializeNeuralNetWork`, as long as every allocation succeeds; `rand` holds
the random numbers by layer, neuron and weight.
-/
def InitializeNeuralNetWork (configs : Arena ConfigNode) (layers : ℕ)
    (layersconfig : Option ℕ) (lossfunctiontype weightvalue : ℤ)
    (rand : ℕ → ℕ → ℕ → ℕ) (memory : Memory) : Exec Memory := do
  let head ← configs.load layersconfig
  let built ←
    (List.range layers).foldlM
      (fun (state : Memory × Option ℕ) i => do
        let currrentlayerconfig ← configs.load state.2
        let memory ←
          newLayer layers i currrentlayerconfig
            (fun j k => WeightValue (rand i j k) weightvalue) state.1
        .ok (memory, currrentlayerconfig.next))
      ({ memory with network := ⟨lossfunctiontype, layers, none, none⟩ },
        head.first)
  .ok built.1

/-! ## One more weight -/

/-- The neuron with these weights, behind what was allocated before them. -/
def NeuronFields.withWeights (fields : NeuronFields) (before : Arena (Cell ℚ))
    (weights : List ℚ) : NeuronFields :=
  { fields with
    firstweight := blockFirst before weights
    lastweight := blockLast before weights }

theorem NeuronFields.withWeights_concat (fields : NeuronFields)
    (before : Arena (Cell ℚ)) (front : List ℚ) (back weight : ℚ) :
    fields.withWeights before (front ++ [back] ++ [weight]) =
      { fields.withWeights before (front ++ [back]) with
        lastweight := some (block before (front ++ [back])).length } := by
  rw [withWeights, withWeights, blockFirst_concat, blockLast_concat]

section Weights

variable (W : Arena (Cell ℚ)) (N : Arena (Cell NeuronFields))
  (L : Arena (Cell LayerFields)) (fields : NeuronFields)
  (previous next : Option ℕ) {layer : Cell LayerFields} {network : NetworkFields}
  (reachesLayer : network.lastlayer = some L.length)
  (reachesNeuron : layer.value.lastneuron = some N.length)

/-- While the last neuron of the last layer gets its weights. -/
def weighing (weights : List ℚ) (layer : Cell LayerFields)
    (network : NetworkFields) : Memory where
  weights := block W weights
  neurons := N ++ [⟨fields.withWeights W weights, previous, next⟩]
  layers := L ++ [layer]
  network := network

theorem weighing_nil (neurontype : String) (weights : ℤ) (bias : ℚ) :
    weighing W N L ⟨neurontype, weights, bias, none, none⟩ previous next []
        layer network =
      ⟨W, N ++ [⟨⟨neurontype, weights, bias, none, none⟩, previous, next⟩],
        L ++ [layer], network⟩ := by
  rw [weighing, block_nil]
  rfl

include reachesLayer reachesNeuron

theorem newWeight_eq (weights : List ℚ) (weight : ℚ) :
    newWeight N.length weight
        (weighing W N L fields previous next weights layer network) =
      .ok (weighing W N L fields previous next (weights ++ [weight]) layer
        network) := by
  rcases List.eq_nil_or_concat weights with rfl | ⟨front, back, rfl⟩
  · have none : (fields.withWeights W []).lastweight = none := rfl
    simp only [newWeight, weighing, reachesLayer, load_last, Exec.ok_bind,
      reachesNeuron, none, store_last, block_nil]
    rfl
  · rw [List.concat_eq_append]
    have last :
        (fields.withWeights W (front ++ [back])).lastweight =
          some (block W front).length := blockLast_concat W front back
    have linked := linkBehind_block W front weight back
    rw [blockLast_concat] at linked
    simp only [newWeight, weighing, reachesLayer, load_last, Exec.ok_bind,
      reachesNeuron, last, store_last, linked]
    rw [fields.withWeights_concat]

/-- The whole loop over the weights. -/
theorem foldlM_newWeight (weight : ℕ → ℚ) (count : ℕ) :
    (List.range count).foldlM
        (fun memory k => newWeight N.length (weight k) memory)
        (weighing W N L fields previous next [] layer network) =
      .ok (weighing W N L fields previous next ((List.range count).map weight)
        layer network) := by
  induction count with
  | zero => rfl
  | succ count inductionHypothesis =>
      rw [List.range_succ, List.foldlM_append, inductionHypothesis, Exec.ok_bind,
        List.map_append, List.foldlM_cons,
        newWeight_eq W N L fields previous next reachesLayer reachesNeuron]
      rfl

end Weights

/-! ## One more neuron -/

/-- A configured layer without neurons. -/
def LayerFields.empty (config : LayerConfig) : LayerFields :=
  ⟨config.activationfunctiontype, config.neurons, none, none⟩

/-- The layer with these neurons, behind what was allocated before them. -/
def LayerFields.withNeurons (fields : LayerFields)
    (before : Arena (Cell NeuronFields)) (neurons : List NeuronFields) :
    LayerFields :=
  { fields with
    firstneuron := blockFirst before neurons
    lastneuron := blockLast before neurons }

theorem LayerFields.withNeurons_concat (fields : LayerFields)
    (before : Arena (Cell NeuronFields)) (front : List NeuronFields)
    (back neuron : NeuronFields) :
    fields.withNeurons before (front ++ [back] ++ [neuron]) =
      { fields.withNeurons before (front ++ [back]) with
        lastneuron := some (block before (front ++ [back])).length } := by
  rw [withNeurons, withNeurons, blockFirst_concat, blockLast_concat]

/-- The pointers of the layer do not depend on what the neurons hold. -/
theorem LayerFields.withNeurons_last (fields : LayerFields)
    (before : Arena (Cell NeuronFields)) (neurons : List NeuronFields)
    (neuron other : NeuronFields) :
    fields.withNeurons before (neurons ++ [neuron]) =
      fields.withNeurons before (neurons ++ [other]) := by
  rw [withNeurons, withNeurons, blockFirst_last before neurons neuron other,
    blockLast_concat, blockLast_concat]

section Neurons

variable (W : Arena (Cell ℚ)) (N : Arena (Cell NeuronFields))
  (L : Arena (Cell LayerFields)) (fields : LayerFields)
  (previous : Option ℕ) {network : NetworkFields}

/-- While the last layer gets its neurons. -/
def populating (neurons : List NeuronFields) (network : NetworkFields) :
    Memory where
  weights := W
  neurons := block N neurons
  layers := L ++ [⟨fields.withNeurons N neurons, previous, none⟩]
  network := network

theorem populating_nil (config : LayerConfig) :
    populating W N L (.empty config) previous [] network =
      ⟨W, N, L ++ [⟨.empty config, previous, none⟩], network⟩ := by
  rw [populating, block_nil]
  rfl

/-- The first layer has no weights, and a later one as many as neurons before. -/
def Counted (i count : ℕ) : Prop :=
  if i = 0 then count = 0
  else ∃ address cell, previous = some address ∧ L[address]? = some cell ∧
    cell.value.neurons = count

theorem weightsOf_eq {i count : ℕ} (counted : Counted L previous i count)
    (neurons : List NeuronFields) :
    weightsOf i L.length (populating W N L fields previous neurons network) =
      .ok count := by
  rw [Counted] at counted
  rw [weightsOf]
  split_ifs at counted ⊢ with first
  · rw [counted]
    rfl
  · rcases counted with ⟨address, cell, rfl, found, counts⟩
    have inside := (List.getElem?_eq_some_iff.mp found).1
    rw [populating, load_last, Exec.ok_bind,
      load_eq ((List.getElem?_append_left inside).trans found), Exec.ok_bind,
      counts]

variable {layers i count : ℕ} (counted : Counted L previous i count)
  (reachesLayer : network.lastlayer = some L.length)

include counted reachesLayer

theorem newNeuron_eq (weight : ℕ → ℚ) (neurons : List NeuronFields) :
    newNeuron layers i L.length weight
        (populating W N L fields previous neurons network) =
      .ok (populating (block W ((List.range count).map weight)) N L fields
        previous
        (neurons ++
          [NeuronFields.withWeights ⟨neurontypeAt layers i, count, 0, none, none⟩
            W ((List.range count).map weight)])
        network) := by
  have hung :
      newNeuron layers i L.length weight
          (populating W N L fields previous neurons network) =
        (List.range count).foldlM
          (fun memory k =>
            newWeight (openBlock N neurons).length (weight k) memory)
          (weighing W (openBlock N neurons) L
            ⟨neurontypeAt layers i, count, 0, none, none⟩
            (blockLast N neurons) none []
            ⟨fields.withNeurons N
                (neurons ++ [⟨neurontypeAt layers i, count, 0, none, none⟩]),
              previous, none⟩
            network) := by
    rw [newNeuron, weightsOf_eq W N L fields previous counted,
      length_openBlock_eq]
    rcases List.eq_nil_or_concat neurons with rfl | ⟨front, back, rfl⟩
    · have none : (fields.withNeurons N []).lastneuron = none := rfl
      simp only [populating, reachesLayer, load_last, Exec.ok_bind, none,
        store_last, Int.toNat_natCast, block_nil, weighing_nil, openBlock_nil]
      rfl
    · rw [List.concat_eq_append]
      have last :
          (fields.withNeurons N (front ++ [back])).lastneuron =
            some (block N front).length := blockLast_concat N front back
      have linked :=
        linkBehind_block N front
          ⟨neurontypeAt layers i, count, 0, none, none⟩ back
      rw [blockLast_concat] at linked
      simp only [populating, reachesLayer, load_last, Exec.ok_bind, last,
        store_last, Int.toNat_natCast, linked, weighing_nil]
      rw [fields.withNeurons_concat, block_concat N (front ++ [back])]
  rw [hung, foldlM_newWeight]
  · rw [weighing, populating, block_concat,
      fields.withNeurons_last N neurons _
        (NeuronFields.withWeights ⟨neurontypeAt layers i, count, 0, none, none⟩
          W ((List.range count).map weight))]
  · exact reachesLayer
  · rw [length_openBlock_eq]
    exact blockLast_concat N neurons _

end Neurons

/-! ## The neurons of a layer -/

/-- The fields are those of a neuron whose weights are in an arena. -/
structure NeuronAt (weights : Arena (Cell ℚ)) (fields : NeuronFields)
    (neuron : Neuron ℚ) : Prop where
  neurontype : fields.neurontype = neuron.neurontype
  counts : fields.weights = neuron.weights
  bias : fields.bias = neuron.bias
  consistent : neuron.weightlist.Consistent
  listAt :
    ListAt weights fields.firstweight fields.lastweight neuron.weightlist.values

theorem NeuronAt.mono {weights later : Arena (Cell ℚ)} {fields : NeuronFields}
    {neuron : Neuron ℚ} (neuronAt : NeuronAt weights fields neuron)
    (grows : weights <+: later) : NeuronAt later fields neuron :=
  { neuronAt with listAt := neuronAt.listAt.mono grows }

/-- What the loop over the weights leaves behind. -/
theorem neuronAt_withWeights (before : Arena (Cell ℚ)) (neurontype : String)
    (count : ℕ) (weight : ℕ → ℚ) :
    NeuronAt (block before ((List.range count).map weight))
      (NeuronFields.withWeights ⟨neurontype, count, 0, none, none⟩ before
        ((List.range count).map weight))
      (initializeNeuron neurontype count weight) := by
  have list :
      (initializeNeuron neurontype count weight).weightlist =
        LinkedList.ofList ((List.range count).map weight) :=
    LinkedList.foldl_append_apply weight (List.range count)
  refine ⟨rfl, rfl, rfl, ?_, ?_⟩
  · rw [list]
    exact LinkedList.consistent_ofList _
  · rw [list, LinkedList.values_ofList]
    exact listAt_block _ _

section Neurons

variable (W : Arena (Cell ℚ)) (N : Arena (Cell NeuronFields))
  (L : Arena (Cell LayerFields)) (fields : LayerFields)
  (previous : Option ℕ) {network : NetworkFields} {layers i count : ℕ}
  (counted : Counted L previous i count)
  (reachesLayer : network.lastlayer = some L.length)

include counted reachesLayer

/-- The whole loop over the neurons. -/
theorem foldlM_newNeuron (weight : ℕ → ℕ → ℚ) (number : ℕ) :
    ∃ built,
      (List.range number).foldlM
          (fun memory j => newNeuron layers i L.length (weight j) memory)
          (populating W N L fields previous [] network) =
        .ok built ∧
      ∃ grown neurons,
        built = populating grown N L fields previous neurons network ∧
          W <+: grown ∧
          List.Forall₂ (NeuronAt grown) neurons
            ((List.range number).map fun j =>
              initializeNeuron (neurontypeAt layers i) count (weight j)) := by
  apply Exec.foldlM_range fun index memory =>
    ∃ grown neurons,
      memory = populating grown N L fields previous neurons network ∧
        W <+: grown ∧
        List.Forall₂ (NeuronAt grown) neurons
          ((List.range index).map fun j =>
            initializeNeuron (neurontypeAt layers i) count (weight j))
  · exact ⟨W, [], rfl, List.prefix_rfl, .nil⟩
  · rintro index - memory ⟨grown, neurons, rfl, grows, built⟩
    refine ⟨_, newNeuron_eq grown N L fields previous counted reachesLayer
      (weight index) neurons, _, _, rfl, ?_, ?_⟩
    · exact grows.trans (List.prefix_append _ _)
    · rw [List.range_succ, List.map_append]
      refine List.rel_append ?_ (.cons ?_ .nil)
      · exact built.imp fun _ _ neuronAt =>
          neuronAt.mono (List.prefix_append _ _)
      · exact neuronAt_withWeights grown _ count (weight index)

end Neurons

/-! ## One more layer -/

/-- The fields are those of a layer whose neurons are in memory. -/
structure LayerAt (weights : Arena (Cell ℚ)) (neurons : Arena (Cell NeuronFields))
    (fields : LayerFields) (layer : Layer ℚ) : Prop where
  activationfunctiontype :
    fields.activationfunctiontype = layer.activationfunctiontype
  counts : fields.neurons = layer.neurons
  consistent : layer.neuronlist.Consistent
  listAt : ∃ values,
    ListAt neurons fields.firstneuron fields.lastneuron values ∧
      List.Forall₂ (NeuronAt weights) values layer.neuronlist.values

theorem LayerAt.mono {weights laterWeights : Arena (Cell ℚ)}
    {neurons laterNeurons : Arena (Cell NeuronFields)} {fields : LayerFields}
    {layer : Layer ℚ} (layerAt : LayerAt weights neurons fields layer)
    (moreWeights : weights <+: laterWeights)
    (moreNeurons : neurons <+: laterNeurons) :
    LayerAt laterWeights laterNeurons fields layer := by
  rcases layerAt.listAt with ⟨values, listAt, each⟩
  exact { layerAt with
    listAt := ⟨values, listAt.mono moreNeurons,
      each.imp fun _ _ neuronAt => neuronAt.mono moreWeights⟩ }

/-- What the loop over the neurons leaves behind. -/
theorem layerAt_withNeurons {weights : Arena (Cell ℚ)}
    (before : Arena (Cell NeuronFields)) {neurons : List NeuronFields}
    {layers i count previousneurons : ℕ} {config : LayerConfig}
    {weight : ℕ → ℕ → ℚ} (same : (if i = 0 then 0 else previousneurons) = count)
    (each : List.Forall₂ (NeuronAt weights) neurons
      ((List.range config.neurons).map fun j =>
        initializeNeuron (neurontypeAt layers i) count (weight j))) :
    LayerAt weights (block before neurons)
      ((LayerFields.empty config).withNeurons before neurons)
      (initializeLayer layers i previousneurons config weight) := by
  have list :
      (initializeLayer layers i previousneurons config weight).neuronlist =
        LinkedList.ofList
          ((List.range config.neurons).map fun j =>
            initializeNeuron (neurontypeAt layers i) count (weight j)) := by
    rw [← same]
    exact LinkedList.foldl_append_apply _ (List.range config.neurons)
  refine ⟨rfl, rfl, ?_, neurons, listAt_block _ _, ?_⟩
  · rw [list]
    exact LinkedList.consistent_ofList _
  · rw [list, LinkedList.values_ofList]
    exact each

/-- Between two turns of the loop over the layers. -/
def stacked (W : Arena (Cell ℚ)) (N : Arena (Cell NeuronFields))
    (L : Arena (Cell LayerFields)) (lossfunctiontype layers : ℤ)
    (fields : List LayerFields) : Memory where
  weights := W
  neurons := N
  layers := block L fields
  network := ⟨lossfunctiontype, layers, blockFirst L fields, blockLast L fields⟩

section Layers

variable (W : Arena (Cell ℚ)) (N : Arena (Cell NeuronFields))
  (L : Arena (Cell LayerFields)) (lossfunctiontype number : ℤ)
  {layers i count : ℕ}

theorem newLayer_eq (fields : List LayerFields) {node : ConfigNode}
    {config : LayerConfig} (sameNeurons : node.neurons = config.neurons)
    (sameType : node.activationfunctiontype = config.activationfunctiontype)
    (counted : Counted (openBlock L fields) (blockLast L fields) i count)
    (weight : ℕ → ℕ → ℚ) :
    ∃ grown neurons,
      newLayer layers i node weight
          (stacked W N L lossfunctiontype number fields) =
        .ok (stacked grown (block N neurons) L lossfunctiontype number
          (fields ++ [(LayerFields.empty config).withNeurons N neurons])) ∧
      W <+: grown ∧
      List.Forall₂ (NeuronAt grown) neurons
        ((List.range config.neurons).map fun j =>
          initializeNeuron (neurontypeAt layers i) count (weight j)) := by
  let network : NetworkFields :=
    ⟨lossfunctiontype, number, blockFirst L (fields ++ [.empty config]),
      some (block L fields).length⟩
  have hung :
      newLayer layers i node weight
          (stacked W N L lossfunctiontype number fields) =
        (List.range config.neurons).foldlM
          (fun memory j =>
            newNeuron layers i (openBlock L fields).length (weight j) memory)
          (populating W N (openBlock L fields) (.empty config)
            (blockLast L fields) [] network) := by
    rw [newLayer, sameNeurons, sameType, populating_nil, length_openBlock_eq]
    rcases List.eq_nil_or_concat fields with rfl | ⟨front, back, rfl⟩
    · have none : blockLast L [] = none := rfl
      simp only [stacked, none, Exec.ok_bind, Int.toNat_natCast, block_nil,
        openBlock_nil, network]
      rfl
    · rw [List.concat_eq_append]
      have linked := linkBehind_block L front (.empty config) back
      rw [blockLast_concat, LayerFields.empty] at linked
      simp only [stacked, blockLast_concat, linked, Exec.ok_bind,
        Int.toNat_natCast, network, List.concat_eq_append]
      rw [block_concat L (front ++ [back]), blockLast_concat,
        blockFirst_concat]
      rfl
  have reaches : network.lastlayer = some (openBlock L fields).length := by
    rw [length_openBlock_eq]
  rcases foldlM_newNeuron W N (openBlock L fields) (.empty config)
    (blockLast L fields) counted reaches weight config.neurons with
    ⟨_, runs, grown, neurons, rfl, grows, each⟩
  refine ⟨grown, neurons, ?_, grows, each⟩
  rw [hung, runs, populating, stacked, block_concat, blockLast_concat,
    blockFirst_last L fields _ (.empty config)]

/-- The next layer counts the neurons of the one which has been built. -/
theorem counted_next (fields : List LayerFields) (config : LayerConfig)
    (neurons : List NeuronFields) (index : ℕ) :
    Counted
      (openBlock L
        (fields ++ [(LayerFields.empty config).withNeurons N neurons]))
      (blockLast L
        (fields ++ [(LayerFields.empty config).withNeurons N neurons]))
      (index + 1) config.neurons := by
  rw [Counted, if_neg (Nat.succ_ne_zero index), blockLast_concat,
    openBlock_concat, ← length_openBlock_eq]
  exact ⟨_, _, rfl, List.getElem?_concat_length, rfl⟩

end Layers

/-! ## The whole construction -/

/-- From the pointer on, the configuration has at least these entries. -/
def ConfigChain (configs : Arena ConfigNode) :
    Option ℕ → List LayerConfig → Prop
  | _, [] => True
  | pointer, config :: rest =>
      ∃ node, configs.load pointer = .ok node ∧
        node.neurons = config.neurons ∧
        node.activationfunctiontype = config.activationfunctiontype ∧
        ConfigChain configs node.next rest

/-- The number of neurons of the layer before. -/
def previousNeurons (chain : List LayerConfig) : ℕ → ℕ
  | 0 => 0
  | i + 1 => (chain[i]?.map LayerConfig.neurons).getD 0

theorem getElem?_initialLayers_from (layers : ℕ) (weight : ℕ → ℕ → ℕ → ℚ)
    (i previousneurons : ℕ) (chain : List LayerConfig) (index : ℕ) :
    (initialLayers layers weight i previousneurons chain)[index]? =
      chain[index]?.map fun config =>
        initializeLayer layers (i + index)
          (if index = 0 then previousneurons else previousNeurons chain index)
          config (weight (i + index)) := by
  induction chain generalizing i previousneurons index with
  | nil => rfl
  | cons head rest inductionHypothesis =>
      rw [initialLayers]
      cases index with
      | zero => rfl
      | succ index =>
          rw [List.getElem?_cons_succ, List.getElem?_cons_succ,
            inductionHypothesis, if_neg (Nat.succ_ne_zero index),
            Nat.add_right_comm]
          cases index <;> rfl

theorem previousNeurons_of_first (chain : List LayerConfig) (i : ℕ) :
    (if i = 0 then 0 else previousNeurons chain i) = previousNeurons chain i := by
  split_ifs with first
  · rw [first]
    rfl
  · rfl

/-- The layer at an index, by its entry and the one before. -/
theorem getElem?_initialLayers (layers : ℕ) (weight : ℕ → ℕ → ℕ → ℚ)
    (chain : List LayerConfig) (i : ℕ) :
    (initialLayers layers weight 0 0 chain)[i]? =
      chain[i]?.map fun config =>
        initializeLayer layers i (previousNeurons chain i) config (weight i) := by
  rw [getElem?_initialLayers_from, Nat.zero_add, previousNeurons_of_first]

theorem length_initialLayers (layers : ℕ) (weight : ℕ → ℕ → ℕ → ℚ)
    (i previousneurons : ℕ) (chain : List LayerConfig) :
    (initialLayers layers weight i previousneurons chain).length =
      chain.length := by
  induction chain generalizing i previousneurons with
  | nil => rfl
  | cons head rest inductionHypothesis =>
      rw [initialLayers, List.length_cons, inductionHypothesis,
        List.length_cons]

theorem take_initialLayers (layers : ℕ) (weight : ℕ → ℕ → ℕ → ℚ)
    (i previousneurons count : ℕ) (chain : List LayerConfig) :
    (initialLayers layers weight i previousneurons chain).take count =
      initialLayers layers weight i previousneurons (chain.take count) := by
  induction chain generalizing i previousneurons count with
  | nil => rw [initialLayers, List.take_nil, List.take_nil, initialLayers]
  | cons head rest inductionHypothesis =>
      cases count with
      | zero => rfl
      | succ count =>
          rw [initialLayers, List.take_succ_cons, inductionHypothesis,
            List.take_succ_cons, initialLayers]

theorem stacked_nil (memory : Memory) (lossfunctiontype number : ℤ) :
    { memory with network := ⟨lossfunctiontype, number, none, none⟩ } =
      stacked memory.weights memory.neurons memory.layers lossfunctiontype
        number [] := by
  rw [stacked, block_nil]
  rfl

/-- What the loop over the layers has built before a turn. -/
def Built (configs : Arena ConfigNode) (chain : List LayerConfig) (layers : ℕ)
    (weight : ℕ → ℕ → ℕ → ℚ) (lossfunctiontype : ℤ) (memory : Memory)
    (index : ℕ) (state : Memory × Option ℕ) : Prop :=
  ∃ grown more fields,
    state.1 = stacked grown more memory.layers lossfunctiontype layers fields ∧
    memory.weights <+: grown ∧ memory.neurons <+: more ∧
    List.Forall₂ (LayerAt grown more) fields
      ((initialLayers layers weight 0 0 chain).take index) ∧
    ConfigChain configs state.2 (chain.drop index) ∧
    Counted (openBlock memory.layers fields) (blockLast memory.layers fields)
      index (previousNeurons chain index)

/-- A turn of the loop over the layers. -/
theorem built_turn {configs : Arena ConfigNode} {chain : List LayerConfig}
    {layers : ℕ} (weight : ℕ → ℕ → ℕ → ℚ) {lossfunctiontype : ℤ}
    {memory : Memory} {index : ℕ} (inside : index < chain.length)
    {state : Memory × Option ℕ}
    (built : Built configs chain layers weight lossfunctiontype memory index
      state) :
    ∃ next,
      (do
        let currrentlayerconfig ← configs.load state.2
        let memory ←
          newLayer layers index currrentlayerconfig (weight index) state.1
        .ok (memory, currrentlayerconfig.next)) =
        (.ok next : Exec (Memory × Option ℕ)) ∧
      Built configs chain layers weight lossfunctiontype memory (index + 1)
        next := by
  rcases state with ⟨state, pointer⟩
  rcases built with
    ⟨grown, more, fields, rfl, moreWeights, moreNeurons, each, rest, counted⟩
  rw [List.drop_eq_getElem_cons inside] at rest
  rcases rest with ⟨node, loads, sameNeurons, sameType, rest⟩
  rcases newLayer_eq grown more memory.layers lossfunctiontype layers fields
    sameNeurons sameType counted (weight index) with
    ⟨later, neurons, runs, grows, eachNeuron⟩
  refine ⟨_, by rw [loads, Exec.ok_bind, runs, Exec.ok_bind], later,
    block more neurons, _, rfl, moreWeights.trans grows,
    moreNeurons.trans (List.prefix_append _ _), ?_, rest, ?_⟩
  · have found := getElem?_initialLayers layers weight chain index
    rw [List.getElem?_eq_getElem inside, Option.map_some] at found
    rw [List.take_add_one, found]
    refine List.rel_append ?_ (.cons ?_ .nil)
    · exact each.imp fun _ _ layerAt =>
        layerAt.mono grows (List.prefix_append _ _)
    · exact layerAt_withNeurons more (previousNeurons_of_first chain index)
        eachNeuron
  · rw [previousNeurons, List.getElem?_eq_getElem inside]
    exact counted_next more memory.layers fields chain[index] neurons index

/--
From any memory the construction finishes, and leaves new layers behind those
which were allocated before.
-/
theorem InitializeNeuralNetWork_builds {configs : Arena ConfigNode}
    {layers : ℕ} {layersconfig : Option ℕ} {head : ConfigNode}
    {chain : List LayerConfig} (isHead : configs.load layersconfig = .ok head)
    (isChain : ConfigChain configs head.first chain)
    (enough : layers ≤ chain.length) (lossfunctiontype weightvalue : ℤ)
    (rand : ℕ → ℕ → ℕ → ℕ) (memory : Memory) :
    ∃ grown more fields,
      InitializeNeuralNetWork configs layers layersconfig lossfunctiontype
          weightvalue rand memory =
        .ok (stacked grown more memory.layers lossfunctiontype layers fields) ∧
      memory.weights <+: grown ∧ memory.neurons <+: more ∧
      List.Forall₂ (LayerAt grown more) fields
        ((initialLayers layers
          (fun i j k => WeightValue (rand i j k) weightvalue) 0 0 chain).take
            layers) := by
  have start :
      Built configs chain layers
        (fun i j k => WeightValue (rand i j k) weightvalue) lossfunctiontype
        memory 0
        (stacked memory.weights memory.neurons memory.layers lossfunctiontype
          layers [], head.first) :=
    ⟨_, _, [], rfl, List.prefix_rfl, List.prefix_rfl, .nil, isChain, rfl⟩
  rcases Exec.foldlM_range _ start
    fun index (below : index < layers) state built =>
      built_turn _ (Nat.lt_of_lt_of_le below enough) built with
    ⟨⟨_, pointer⟩, runs, grown, more, fields, rfl, moreWeights, moreNeurons,
      each, -⟩
  refine ⟨grown, more, fields, ?_, moreWeights, moreNeurons, each⟩
  rw [InitializeNeuralNetWork, isHead, Exec.ok_bind, stacked_nil, runs]
  rfl

/--
What has been built are the layers of the network model for the entries which
have been read; what was allocated before is still there.
-/
theorem InitializeNeuralNetWork_refines {configs : Arena ConfigNode}
    {layers : ℕ} {layersconfig : Option ℕ} {head : ConfigNode}
    {chain : List LayerConfig} (isHead : configs.load layersconfig = .ok head)
    (isChain : ConfigChain configs head.first chain)
    (enough : layers ≤ chain.length) (lossfunctiontype weightvalue : ℤ)
    (rand : ℕ → ℕ → ℕ → ℕ) (memory : Memory) :
    ∃ built fields,
      InitializeNeuralNetWork configs layers layersconfig lossfunctiontype
          weightvalue rand memory = .ok built ∧
        memory.weights <+: built.weights ∧ memory.neurons <+: built.neurons ∧
        ListAt built.layers built.network.firstlayer built.network.lastlayer
          fields ∧
        List.Forall₂ (LayerAt built.weights built.neurons) fields
          (Server.InitializeNeuralNetWork (chain.take layers) rand
            weightvalue).values := by
  rcases InitializeNeuralNetWork_builds isHead isChain enough
    lossfunctiontype weightvalue rand memory with
    ⟨grown, more, fields, runs, moreWeights, moreNeurons, each⟩
  have model :=
    congrArg LinkedList.values
      (layerlist_startNetwork (chain.take layers) rand weightvalue)
  rw [LinkedList.values_ofList, ← take_initialLayers, List.length_take,
    Nat.min_eq_left enough] at model
  refine ⟨_, fields, runs, moreWeights, moreNeurons,
    listAt_block memory.layers fields, ?_⟩
  rw [← model] at each
  exact each

/-! ## Well-formed networks -/

/-- A neuron with this many weights in a list of them. -/
def NeuronWellFormed (memory : Memory) (weights : ℕ) (fields : NeuronFields) :
    Prop :=
  fields.weights = weights ∧
    HasList memory.weights fields.firstweight fields.lastweight weights
      fun _ _ => True

/-- A layer as configured, with neurons for the neurons of the layer before. -/
def LayerWellFormed (memory : Memory) (previousneurons : ℕ)
    (config : LayerConfig) (fields : LayerFields) : Prop :=
  fields.activationfunctiontype = config.activationfunctiontype ∧
    fields.neurons = config.neurons ∧
    HasList memory.neurons fields.firstneuron fields.lastneuron config.neurons
      fun _ neuron => NeuronWellFormed memory previousneurons neuron

/-- A network with the first layers of a configuration. -/
def WellFormed (memory : Memory) (layers : ℕ) (chain : List LayerConfig) :
    Prop :=
  memory.network.layers = layers ∧
    HasList memory.layers memory.network.firstlayer memory.network.lastlayer
      layers
      fun i fields => ∃ config, chain[i]? = some config ∧
        LayerWellFormed memory (previousNeurons chain i) config fields

theorem NeuronAt.wellFormed {memory : Memory} {fields : NeuronFields}
    {neurontype : String} {count : ℕ} {weight : ℕ → ℚ}
    (neuronAt : NeuronAt memory.weights fields
      (initializeNeuron neurontype count weight)) :
    NeuronWellFormed memory count fields := by
  have list :
      (initializeNeuron neurontype count weight).weightlist.values.length =
        count := by
    rw [initializeNeuron, LinkedList.foldl_append_apply,
      LinkedList.values_ofList, List.length_map, List.length_range]
  exact ⟨neuronAt.counts, neuronAt.listAt.hasList list fun _ _ _ => trivial⟩

theorem LayerAt.wellFormed {memory : Memory} {fields : LayerFields}
    {layers i previousneurons : ℕ} {config : LayerConfig}
    {weight : ℕ → ℕ → ℚ}
    (same : (if i = 0 then 0 else previousneurons) = previousneurons)
    (layerAt : LayerAt memory.weights memory.neurons fields
      (initializeLayer layers i previousneurons config weight)) :
    LayerWellFormed memory previousneurons config fields := by
  rcases layerAt.listAt with ⟨values, listAt, each⟩
  rw [initializeLayer, LinkedList.foldl_append_apply, LinkedList.values_ofList,
    List.forall₂_map_right_iff, same] at each
  have count : values.length = config.neurons := by
    rw [each.length_eq, List.length_range]
  refine ⟨layerAt.activationfunctiontype, layerAt.counts,
    listAt.hasList count fun j neuron found => ?_⟩
  rcases related_at each found with ⟨_, -, neuronAt⟩
  exact neuronAt.wellFormed

/--
For every configuration with enough entries, in any memory and with any weights,
the construction builds a well-formed network.
-/
theorem InitializeNeuralNetWork_wellFormed {configs : Arena ConfigNode}
    {layers : ℕ} {layersconfig : Option ℕ} {head : ConfigNode}
    {chain : List LayerConfig} (isHead : configs.load layersconfig = .ok head)
    (isChain : ConfigChain configs head.first chain)
    (enough : layers ≤ chain.length) (lossfunctiontype weightvalue : ℤ)
    (rand : ℕ → ℕ → ℕ → ℕ) (memory : Memory) :
    ∃ built,
      InitializeNeuralNetWork configs layers layersconfig lossfunctiontype
          weightvalue rand memory = .ok built ∧
        WellFormed built layers chain := by
  rcases InitializeNeuralNetWork_builds isHead isChain enough
    lossfunctiontype weightvalue rand memory with
    ⟨grown, more, fields, runs, -, -, each⟩
  refine ⟨_, runs, rfl, ?_⟩
  have count : fields.length = layers := by
    rw [each.length_eq, List.length_take, length_initialLayers,
      Nat.min_eq_left enough]
  refine (listAt_block memory.layers fields).hasList count
    fun i layer found => ?_
  rcases related_at each found with ⟨_, isLayer, layerAt⟩
  rw [List.getElem?_take] at isLayer
  split_ifs at isLayer
  rw [getElem?_initialLayers] at isLayer
  rcases Option.map_eq_some_iff.mp isLayer with ⟨config, isConfig, rfl⟩
  exact ⟨config, isConfig,
    layerAt.wellFormed (previousNeurons_of_first chain i)⟩

/-- The configuration in `setFederatedLearningGlobalModel`. -/
def layerconfigs : Arena ConfigNode :=
  [⟨some 0, some 1, 4, 0⟩, ⟨none, some 2, 3, RELU⟩, ⟨none, some 3, 3, RELU⟩,
    ⟨none, none, 3, SOFTMAX⟩]

/-- The global network of the server. -/
theorem InitializeNeuralNetWork_wellFormed_sample :
    ∃ built,
      InitializeNeuralNetWork layerconfigs 4 (some 0) CATEGORICAL_CROSS_ENTROPY
          WEIGHT_VALUE_RANDOM (fun i j k => 17 * i + 5 * j + k)
          ⟨[], [], [], ⟨0, 0, none, none⟩⟩ = .ok built ∧
        WellFormed built 4 [⟨4, 0⟩, ⟨3, RELU⟩, ⟨3, RELU⟩, ⟨3, SOFTMAX⟩] := by
  have isHead : layerconfigs.load (some 0) = .ok ⟨some 0, some 1, 4, 0⟩ := rfl
  have isChain :
      ConfigChain layerconfigs (some 0)
        [⟨4, 0⟩, ⟨3, RELU⟩, ⟨3, RELU⟩, ⟨3, SOFTMAX⟩] :=
    ⟨_, rfl, rfl, rfl, _, rfl, rfl, rfl, _, rfl, rfl, rfl, _, rfl, rfl, rfl,
      trivial⟩
  exact InitializeNeuralNetWork_wellFormed isHead isChain (by decide) _ _ _ _

end FederatedEdge.Server.Construction
