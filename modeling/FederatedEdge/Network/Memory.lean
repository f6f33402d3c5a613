import FederatedEdge.Network.Structure

/-!
# Copying and freeing networks

`CopyNeuralNetwork` rebuilds a network cell by cell.  Its three loops share one
way of appending, which for the first cell of a list stores a pointer to the
cell in the cell itself.  A second cell overwrites the next link again, so a
copied list runs forward to null exactly when it does not have one element.
-/

namespace FederatedEdge.Network

open FederatedEdge.Library

variable {R α : Type}

/-! ## The append of the copy loops -/

/--
`if (first == NULL) { new->previous = new->next = NULL; first = last = new; }`
`new->next = NULL; new->previous = last; last->next = new; last = new;`

The second line also runs for the first cell, when `last` is the new cell.
-/
def appendCopy (list : LinkedList α) (value : α) : Exec (LinkedList α) := do
  let address := list.cells.length
  let allocated := list.cells ++ [⟨value, none, none⟩]
  let opened : LinkedList α :=
    match list.first with
    | none => ⟨allocated, some address, some address⟩
    | some _ => { list with cells := allocated }
  let tail ← Exec.deref opened.last
  let detached :=
    opened.cells.modify address fun cell =>
      { cell with next := none, previous := opened.last }
  let linked :=
    detached.modify tail fun cell => { cell with next := some address }
  .ok ⟨linked, opened.first, some address⟩

/-- The cells which the copy loops leave behind. -/
def copyCells : List α → List (Cell α)
  | [value] => [⟨value, some 0, some 0⟩]
  | values => LinkedList.linkFrom (some 0) 0 values

/-- The list which the copy loops leave behind. -/
def copyList (values : List α) : LinkedList α where
  cells := copyCells values
  first := pointerTo 0 values
  last := lastPointer values

theorem copyCells_of_length_ne_one
    {values : List α} (several : values.length ≠ 1) :
    copyCells values = LinkedList.linkFrom (some 0) 0 values := by
  rcases values with _ | ⟨first, _ | ⟨second, rest⟩⟩
  · rfl
  · exact (several rfl).elim
  · rfl

@[simp]
theorem values_copyList (values : List α) :
    (copyList values).values = values := by
  by_cases single : values.length = 1
  · rcases List.length_eq_one_iff.mp single with ⟨value, rfl⟩
    rfl
  · rw [LinkedList.values, copyList, copyCells_of_length_ne_one single]
    exact LinkedList.linkFrom_values (some 0) 0 values

theorem modify_append_left
    (list rest : List α) (index : ℕ) (change : α → α)
    (inside : index < list.length) :
    (list ++ rest).modify index change = list.modify index change ++ rest := by
  induction list generalizing index with
  | nil => simp at inside
  | cons head list inner =>
      cases index with
      | zero => rfl
      | succ index => simp [inner index (by simpa using inside)]

/-- With a first cell in place, the new cell is hung behind the last one. -/
theorem appendCopy_nonempty
    (cells : List (Cell α)) (head tail : ℕ) (value : α)
    (inside : tail < cells.length) :
    appendCopy ⟨cells, some head, some tail⟩ value =
      .ok ⟨cells.modify tail
            (fun cell => { cell with next := some cells.length }) ++
          [⟨value, some tail, none⟩],
        some head, some cells.length⟩ := by
  simp only [appendCopy, Exec.deref_some, Exec.ok_bind, modify_middle]
  rw [modify_append_left _ _ _ _ inside]

theorem appendCopy_copyList (values : List α) (value : α) :
    appendCopy (copyList values) value = .ok (copyList (values ++ [value])) := by
  rcases List.eq_nil_or_concat values with rfl | ⟨front, back, rfl⟩
  · rfl
  · cases front with
    | nil => rfl
    | cons head front =>
        rw [List.concat_eq_append]
        have several : (head :: front ++ [back]).length ≠ 1 := by simp
        have longer : (head :: front ++ [back] ++ [value]).length ≠ 1 := by simp
        have linked :=
          LinkedList.linkFrom_concat (some 0) 0 (head :: front) back value
        have source :
            copyList (head :: front ++ [back]) =
              ⟨LinkedList.linkFrom (some 0) 0 (head :: front ++ [back]),
                some 0, some (head :: front).length⟩ := by
          rw [copyList, copyCells_of_length_ne_one several,
            lastPointer_concat]
          rfl
        have target :
            copyList (head :: front ++ [back] ++ [value]) =
              ⟨LinkedList.linkFrom (some 0) 0
                  (head :: front ++ [back] ++ [value]),
                some 0, some (head :: front ++ [back]).length⟩ := by
          rw [copyList, copyCells_of_length_ne_one longer,
            lastPointer_concat]
          rfl
        rw [source, target, linked, appendCopy_nonempty _ _ _ _ (by simp)]
        simp

/-- Copying a sequence of values, one append at a time. -/
theorem foldlM_appendCopy (values : List α) :
    values.foldlM appendCopy LinkedList.empty = .ok (copyList values) := by
  have grown : ∀ (more done : List α),
      more.foldlM appendCopy (copyList done) = .ok (copyList (done ++ more)) := by
    intro more
    induction more with
    | nil => simp
    | cons value more inner =>
        intro done
        rw [List.foldlM_cons, appendCopy_copyList, Exec.ok_bind, inner]
        simp
  exact grown values []

/-! ## The copy functions -/

/-- A new cell with the same weight. -/
def CopyWeight (currentweight : R) : R :=
  currentweight

/-- A new neuron whose weights are appended one by one. -/
def CopyNeuron (neuronsource : Neuron R) : Exec (Neuron R) := do
  let weightlist ←
    neuronsource.weightlist.fold
      (fun list currentweight => appendCopy list (CopyWeight currentweight))
      LinkedList.empty
  .ok
    { neurontype := neuronsource.neurontype
      weights := neuronsource.weights
      bias := neuronsource.bias
      weightlist := weightlist }

/-- A new layer whose neurons are copied and appended one by one. -/
def CopyLayer (layersource : Layer R) : Exec (Layer R) := do
  let neuronlist ←
    layersource.neuronlist.fold
      (fun list currentneuron => do
        let newneuron ← CopyNeuron currentneuron
        appendCopy list newneuron)
      LinkedList.empty
  .ok
    { activationfunctiontype := layersource.activationfunctiontype
      neurons := layersource.neurons
      neuronlist := neuronlist }

/-- A new network whose layers are copied and appended one by one. -/
def CopyNeuralNetwork (neuralnetworksource : NeuralNetwork R) :
    Exec (NeuralNetwork R) := do
  let layerlist ←
    neuralnetworksource.layerlist.fold
      (fun list currentLayer => do
        let newlayer ← CopyLayer currentLayer
        appendCopy list newlayer)
      LinkedList.empty
  .ok
    { epoch := neuralnetworksource.epoch
      alpha := neuralnetworksource.alpha
      regularization := neuralnetworksource.regularization
      lambda := neuralnetworksource.lambda
      percentualtraining := neuralnetworksource.percentualtraining
      lossfunctiontype := neuralnetworksource.lossfunctiontype
      layers := neuralnetworksource.layers
      layerlist := layerlist }

/-! ## What a copy looks like -/

/-- What `CopyNeuron` returns for a weight list which runs forward. -/
def Neuron.copy (neuron : Neuron R) : Neuron R :=
  { neuron with weightlist := copyList neuron.weightlist.values }

/-- What `CopyLayer` returns for lists which run forward. -/
def Layer.copy (layer : Layer R) : Layer R :=
  { layer with
    neuronlist := copyList (layer.neuronlist.values.map Neuron.copy) }

/-- What `CopyNeuralNetwork` returns for lists which run forward. -/
def NeuralNetwork.copy (network : NeuralNetwork R) : NeuralNetwork R :=
  { network with
    layerlist := copyList (network.layerlist.values.map Layer.copy) }

/-- Copying the values met on the way to null, through `duplicate`. -/
theorem fold_appendCopy_of_toList {list : LinkedList α}
    {duplicate : α → Exec α} {values copies : List α}
    (walk : list.toList = .ok values)
    (finishes :
      List.Forall₂ (fun value copy => duplicate value = .ok copy) values copies) :
    list.fold
        (fun copied value => do
          let next ← duplicate value
          appendCopy copied next)
        LinkedList.empty =
      .ok (copyList copies) := by
  rw [LinkedList.fold_of_toList _ _ _ walk, ← foldlM_appendCopy]
  clear walk
  generalize LinkedList.empty = start
  induction finishes generalizing start with
  | nil => rfl
  | @cons value copy values copies duplicated _ inductionHypothesis =>
      rw [List.foldlM_cons, List.foldlM_cons, duplicated, Exec.ok_bind]
      congr 1
      funext next
      exact inductionHypothesis next

/-- Copying the values of a forward list through `duplicate`. -/
theorem fold_appendCopy {list : LinkedList α}
    (duplicate : α → Exec α) {f : α → α}
    (forward : list.Forward)
    (finishes : ∀ value ∈ list.values, duplicate value = .ok (f value)) :
    list.fold
        (fun copied value => do
          let next ← duplicate value
          appendCopy copied next)
        LinkedList.empty =
      .ok (copyList (list.values.map f)) := by
  have turns :
      List.Forall₂ (fun value copy => duplicate value = .ok copy)
        list.values (list.values.map f) := by
    rw [List.forall₂_map_right_iff, List.forall₂_same]
    exact finishes
  exact fold_appendCopy_of_toList (list.toList_forward forward) turns

theorem CopyNeuron_eq
    {neuron : Neuron R} (forward : neuron.weightlist.Forward) :
    CopyNeuron neuron = .ok neuron.copy := by
  have copied :=
    fold_appendCopy (fun weight => .ok (CopyWeight weight))
      (f := id) forward (fun _ _ => rfl)
  simp only [Exec.ok_bind, List.map_id] at copied
  rw [CopyNeuron, copied]
  rfl

theorem CopyLayer_eq {layer : Layer R} (forward : layer.Forward) :
    CopyLayer layer = .ok layer.copy := by
  rw [CopyLayer,
    fold_appendCopy CopyNeuron forward.1
      (fun neuron member => CopyNeuron_eq (forward.2 neuron member))]
  rfl

/-- Copying a network in good order finishes with its copy. -/
theorem CopyNeuralNetwork_eq
    {network : NeuralNetwork R} (forward : network.Forward) :
    CopyNeuralNetwork network = .ok network.copy := by
  rw [CopyNeuralNetwork,
    fold_appendCopy CopyLayer forward.1
      (fun layer member => CopyLayer_eq (forward.2 layer member))]
  rfl

theorem Neuron.parameters_copy (neuron : Neuron R) :
    neuron.copy.parameters = neuron.parameters := by
  simp [Neuron.parameters, Neuron.copy]

theorem Layer.parameters_copy (layer : Layer R) :
    layer.copy.parameters = layer.parameters := by
  simp only [Layer.parameters, Layer.copy, values_copyList, List.map_map]
  exact List.map_congr_left fun neuron _ => neuron.parameters_copy

/-- A copy holds the same biases and weights. -/
theorem NeuralNetwork.parameters_copy (network : NeuralNetwork R) :
    network.copy.parameters = network.parameters := by
  simp only [NeuralNetwork.parameters, NeuralNetwork.copy, values_copyList,
    List.map_map]
  exact List.map_congr_left fun layer _ => layer.parameters_copy

theorem NeuralNetwork.shape_copy (network : NeuralNetwork R) :
    network.copy.shape = network.shape := by
  rw [NeuralNetwork.shape, network.parameters_copy, NeuralNetwork.shape]

/-! ## Freeing -/

/-- Free the weight cells of a neuron; the caller frees the neuron cell. -/
def freeNeuron (neuron : Neuron R) : Exec Unit :=
  neuron.weightlist.free fun _ => .ok ()

/-- Free the neurons of a layer; the caller frees the layer cell. -/
def freeLayer (layer : Layer R) : Exec Unit :=
  layer.neuronlist.free freeNeuron

/-- Free the layers of a network. -/
def freeNeuralNetwork (neuralnetwork : NeuralNetwork R) : Exec Unit :=
  neuralnetwork.layerlist.free freeLayer

theorem freeNeuralNetwork_forward
    {network : NeuralNetwork R} (forward : network.Forward) :
    freeNeuralNetwork network = .ok () := by
  rw [freeNeuralNetwork, LinkedList.free_forward _ _ forward.1]
  intro layer layerMember
  rw [freeLayer, LinkedList.free_forward _ _ (forward.2 layer layerMember).1]
  intro neuron neuronMember
  rw [freeNeuron,
    LinkedList.free_forward _ _
      ((forward.2 layer layerMember).2 neuron neuronMember)]
  simp

theorem forward_copyList
    {values : List α} (several : values.length ≠ 1) :
    (copyList values).Forward := by
  constructor
  · rw [copyList, copyCells_of_length_ne_one several]
    cases values <;> rfl
  · rw [copyList, copyCells_of_length_ne_one several]
    exact LinkedList.forwardFrom_linkFrom (some 0) 0 values

/--
A copied list can be freed when it does not have exactly one element.  The
only cell of a one-element copy leads to itself and would be freed twice.
-/
theorem free_copyList (release : α → Exec Unit) (values : List α) :
    (copyList values).free release = .ok () ↔
      values.length ≠ 1 ∧ ∀ value ∈ values, release value = .ok () := by
  by_cases single : values.length = 1
  · rcases List.length_eq_one_iff.mp single with ⟨value, rfl⟩
    cases released : release value <;>
      simp [LinkedList.free, copyList, copyCells, LinkedList.freeFrom,
        released]
  · rw [LinkedList.free_forward release _ (forward_copyList single),
      values_copyList]
    simp [single]

theorem freeNeuron_copy (neuron : Neuron R) :
    freeNeuron neuron.copy = .ok () ↔ neuron.parameters.2.length ≠ 1 := by
  rw [freeNeuron, Neuron.copy, free_copyList]
  simp [Neuron.parameters]

theorem freeLayer_copy (layer : Layer R) :
    freeLayer layer.copy = .ok () ↔
      layer.parameters.length ≠ 1 ∧
        ∀ neuron ∈ layer.parameters, neuron.2.length ≠ 1 := by
  rw [freeLayer, Layer.copy, free_copyList]
  simp only [List.forall_mem_map, freeNeuron_copy, Layer.parameters,
    List.length_map]

theorem not_hasSingleton_iff (network : NeuralNetwork R) :
    ¬ network.shape.HasSingleton ↔
      network.layerlist.values.length ≠ 1 ∧
        ∀ layer ∈ network.layerlist.values,
          layer.parameters.length ≠ 1 ∧
            ∀ neuron ∈ layer.parameters, neuron.2.length ≠ 1 := by
  simp only [Shape.HasSingleton, NeuralNetwork.shape, Parameters.shape,
    NeuralNetwork.parameters, List.length_map, List.map_map, not_or,
    not_exists, not_and, List.forall_mem_map, Function.comp_apply]

/-- A copied network can be freed exactly when none of its lists is single. -/
theorem freeNeuralNetwork_copy (network : NeuralNetwork R) :
    freeNeuralNetwork network.copy = .ok () ↔
      ¬ network.shape.HasSingleton := by
  rw [freeNeuralNetwork, NeuralNetwork.copy, free_copyList,
    not_hasSingleton_iff]
  simp only [List.forall_mem_map, freeLayer_copy, List.length_map]

end FederatedEdge.Network
