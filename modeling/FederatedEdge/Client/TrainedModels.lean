import FederatedEdge.Client.NeuralNetworkTraining

/-!
# The training as the rounds see it

Between two messages a client trains the network it has downloaded, which the
rounds know as any number of steps in any order.  A step of
`NeuralNetworkTraining` on a sample consists of three such steps: it loads the
sample, feeds forward and propagates back.  So whatever the files contain, the
program takes the network to one which the rounds allow for.
-/

namespace FederatedEdge.Client

open FederatedEdge.Library
open FederatedEdge.Network
open FederatedEdge.Dataset

/-! ## Loading a sample -/

/-- Changing the elements one after the other, up to an index. -/
theorem getElem?_foldl_modify {α : Type} (change : ℕ → α → α)
    (values : List α) (count index : ℕ) :
    ((List.range count).foldl (fun values i => values.modify i (change i))
        values)[index]? =
      if index < count then values[index]?.map (change index)
      else values[index]? := by
  induction count with
  | zero => rfl
  | succ count inductionHypothesis =>
      rw [List.range_succ, List.foldl_append, List.foldl_cons, List.foldl_nil]
      rcases Nat.lt_trichotomy index count with before | rfl | after
      · rw [List.getElem?_modify_ne _ _ (by omega), inductionHypothesis,
          if_pos before, if_pos (by omega)]
      · rw [List.getElem?_modify_eq, inductionHypothesis,
          if_neg (lt_irrefl index), if_pos (by omega)]
        rfl
      · rw [List.getElem?_modify_ne _ _ (by omega), inductionHypothesis,
          if_neg (by omega), if_neg (by omega)]

variable {R : Type}

/-- Loading a sample only changes the neurons of the first layer. -/
theorem loadSample_eq {network : TrainingNetwork R}
    {firstlayer : TrainingLayer R} {above : List (TrainingLayer R)}
    (layers : network.layervalues = firstlayer :: above) (sample : ℕ → R)
    (neurons : ℕ) :
    network.loadSample sample neurons =
      { network with
        layervalues :=
          { firstlayer with
            neuronvalues :=
              (List.range neurons).foldl
                (fun neuronvalues i =>
                  neuronvalues.modify i fun neuron =>
                    { neuron with activationfunctionvalue := sample i })
                firstlayer.neuronvalues } :: above } := by
  induction neurons with
  | zero =>
      rw [TrainingNetwork.loadSample, List.range_zero, List.foldl_nil,
        List.foldl_nil, ← layers]
  | succ neurons inductionHypothesis =>
      rw [TrainingNetwork.loadSample, List.range_succ, List.foldl_append,
        List.foldl_append, ← TrainingNetwork.loadSample, inductionHypothesis]
      rfl

/-- The value of a sample at a place, if there is one. -/
def sampleValue [Zero R] (sample : Sample R) (i : ℕ) : R :=
  (sample.inputs[i]?.map ParsedField.value).getD 0

theorem withInputs_eq_loadSample [Zero R] {network : TrainingNetwork R}
    {sample : Sample R}
    (first : network.widths.head? = some sample.inputs.length) :
    withInputs network sample.inputs =
      network.loadSample (sampleValue sample) sample.inputs.length := by
  rcases layers : network.layervalues with _ | ⟨firstlayer, above⟩
  · rw [TrainingNetwork.widths, layers] at first
    cases first
  rw [TrainingNetwork.widths, layers, List.map_cons, List.head?_cons,
    Option.some.injEq] at first
  have neurons :
      List.zipWith setInput firstlayer.neuronvalues sample.inputs =
        (List.range sample.inputs.length).foldl
          (fun neuronvalues i =>
            neuronvalues.modify i fun neuron =>
              { neuron with
                activationfunctionvalue := sampleValue sample i })
          firstlayer.neuronvalues := by
    apply List.ext_getElem?
    intro i
    rw [getElem?_foldl_modify, List.getElem?_zipWith]
    split_ifs with inside
    · rw [List.getElem?_eq_getElem inside,
        List.getElem?_eq_getElem (first.symm ▸ inside)]
      simp [setInput, sampleValue, inside]
    · rw [List.getElem?_eq_none (by omega)]
  rw [loadSample_eq layers, withInputs, layers, List.modify_zero_cons, neurons]

/-! ## The steps of the rounds -/

section Steps

variable {exp : ℚ → ℚ} {stray : ℕ → ℚ}

/-- A step on a sample loads it, feeds forward and propagates back. -/
theorem SampleStep.steps {before after : TrainingNetwork ℚ} {sample : Sample ℚ}
    (step : SampleStep exp stray before sample after) :
    ∃ events, Path (TrainingStep exp) before events after := by
  rcases step.learns with ⟨fed, accesses, feeds, propagates⟩
  have widths : fed.widths = before.widths :=
    ((sameStructure_withInputs step.inputs).trans
      (sameStructure_FeedFoward feeds)).widths
  have labels :
      fed.widths.getLast? =
        some (sample.labels.map ParsedField.value).length := by
    rw [widths, List.length_map]
    exact step.labels
  rw [withInputs_eq_loadSample step.inputs] at feeds
  exact ⟨_, .cons .sample
    (.cons (.feedFoward feeds) (.single (.backPropagation labels propagates)))⟩

theorem steps_of_samples {before after : TrainingNetwork ℚ}
    {samples : List (Sample ℚ)}
    (path : Path (SampleStep exp stray) before samples after) :
    ∃ events, Path (TrainingStep exp) before events after := by
  induction path with
  | nil network => exact ⟨[], .nil network⟩
  | cons head _ inductionHypothesis =>
      rcases head.steps with ⟨early, first⟩
      rcases inductionHypothesis with ⟨late, rest⟩
      exact ⟨early ++ late, first.append rest⟩

/-- The training of a network in its cells is one which the rounds allow for. -/
theorem trains_NeuralNetworkTraining (log : ℚ → ℚ) (strtof : List Char → ℚ)
    (storage : Storage) (federatedlearninginstance : LearningInstance ℚ)
    {network : NeuralNetwork ℚ} (forward : network.Forward)
    (activation : ℕ → ℕ → ℚ) {inputs outputs : ℕ}
    (trainable :
      Trainable (training network.read activation) inputs outputs) :
    ∃ trained accesses,
      NeuralNetworkTraining exp log strtof stray storage
          (replaceNeuralNetwork federatedlearninginstance
            (training network.read activation)) [] =
          .ok (trained, accesses) ∧
        Trains exp network
          (network.withParameters
            trained.federatedlearninginstance.neuralnetwork.parameters) := by
  have trains :
      Yields
        (NeuralNetworkTraining exp log strtof stray storage
          (replaceNeuralNetwork federatedlearninginstance
            (training network.read activation))) _ _ :=
    yields_NeuralNetworkTraining exp log strtof stray storage trainable
  rcases trains [] with ⟨trained, accesses, runs, -, done⟩
  rcases steps_of_samples done.path with ⟨events, path⟩
  exact ⟨trained, accesses, runs, network.read, activation, events,
    trained.federatedlearninginstance.neuralnetwork,
    NeuralNetwork.content_forward forward, path, rfl⟩

end Steps

end FederatedEdge.Client
