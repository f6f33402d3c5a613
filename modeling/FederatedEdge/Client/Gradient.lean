import FederatedEdge.Client.Accesses
import Mathlib.Tactic.Ring

/-!
# Descent along the gradient of one point

One simultaneous step takes all deltas from the weights as they were before the
call.  `BackPropagation` fills its matrix with the updated weights of the layer
above, so that the delta of a hidden neuron is off by a correction: the sum of
the deltas above, each multiplied by the change of its weight, times the
derivative.  The call is a simultaneous step exactly when the corrections of all
hidden neurons vanish.
-/

namespace FederatedEdge.Client

open FederatedEdge.Library

variable {R : Type}

section Gradient

variable [Field R] [LinearOrder R]
variable (alpha : R) (regularization : ℤ) (lambda : R)

/-! ## One simultaneous step -/

/-- The layers below the last one, with deltas from the weights before the call. -/
def simultaneousBelow :
    List R → List (TrainingNeuron R) → List (TrainingLayer R) →
      List (TrainingLayer R)
  | deltafunctions, above, currentlayer :: previouslayer :: below =>
      let deltafunctions := propagateDeltas deltafunctions above currentlayer
      descendLayer alpha regularization lambda previouslayer.outputs
          deltafunctions currentlayer ::
        simultaneousBelow deltafunctions currentlayer.neuronvalues
          (previouslayer :: below)
  | _, _, layers => layers

/-- One simultaneous step, on the layers from the last one down. -/
def simultaneousAll (label : List R) :
    List (TrainingLayer R) → List (TrainingLayer R)
  | lastlayer :: previouslayer :: below =>
      let deltafunctions := outputDeltas label lastlayer
      descendLayer alpha regularization lambda previouslayer.outputs
          deltafunctions lastlayer ::
        simultaneousBelow alpha regularization lambda deltafunctions
          lastlayer.neuronvalues (previouslayer :: below)
  | layers => layers

/-! ## What the updated weights change -/

/-- How far the updated weights above shift the deltas of a layer. -/
def corrections (deltafunctions : List R) (above : List (TrainingNeuron R))
    (layer : TrainingLayer R) : List R :=
  layer.neuronvalues.mapIdx fun i neuron =>
    (List.zipWith
        (fun deltafunction upper =>
          deltafunction *
            StochasticGradientDescentCalculation
              (upper.weightvalues[i]?.getD 0) neuron.activationfunctionvalue
              deltafunction regularization alpha lambda)
        deltafunctions above).sum *
      ActivationFunctionDerivativeCalculation neuron.activationfunctionvalue
        layer.activationfunctiontype

/-- No layer below the last one has a correction. -/
def CorrectionsVanishBelow :
    List R → List (TrainingNeuron R) → List (TrainingLayer R) → Prop
  | deltafunctions, above, currentlayer :: previouslayer :: below =>
      (∀ correction ∈
          corrections alpha regularization lambda deltafunctions above
            currentlayer,
        correction = 0) ∧
        CorrectionsVanishBelow
          (propagateDeltas deltafunctions above currentlayer)
          currentlayer.neuronvalues (previouslayer :: below)
  | _, _, _ => True

/--
With the deltas of the simultaneous step, no hidden neuron has a correction.
-/
def CorrectionsVanish (label : List R) : List (TrainingLayer R) → Prop
  | lastlayer :: below =>
      CorrectionsVanishBelow alpha regularization lambda
        (outputDeltas label lastlayer) lastlayer.neuronvalues below
  | [] => True

/-- The changes of the weights add up to the shift of the sum. -/
theorem sum_descendNeuron {layer : TrainingLayer R} {i : ℕ}
    {neuron : TrainingNeuron R} (found : layer.neuronvalues[i]? = some neuron)
    (deltafunctions : List R) (above : List (TrainingNeuron R))
    (complete : ∀ upper ∈ above,
      upper.weightvalues.length = layer.neuronvalues.length) :
    (List.zipWith
        (fun deltafunction (upper : TrainingNeuron R) =>
          deltafunction * upper.weightvalues[i]?.getD 0)
        deltafunctions
        (List.zipWith
          (descendNeuron alpha regularization lambda layer.outputs) above
          deltafunctions)).sum =
      (List.zipWith
          (fun deltafunction upper =>
            deltafunction * upper.weightvalues[i]?.getD 0)
          deltafunctions above).sum +
        (List.zipWith
          (fun deltafunction upper =>
            deltafunction *
              StochasticGradientDescentCalculation
                (upper.weightvalues[i]?.getD 0) neuron.activationfunctionvalue
                deltafunction regularization alpha lambda)
          deltafunctions above).sum := by
  induction deltafunctions generalizing above with
  | nil => simp
  | cons deltafunction deltafunctions inductionHypothesis =>
      cases above with
      | nil => simp
      | cons upper above =>
          have below : i < upper.weightvalues.length := by
            rw [complete upper (by simp)]
            exact (List.getElem?_eq_some_iff.mp found).1
          have output :
              layer.outputs[i]? = some neuron.activationfunctionvalue := by
            rw [TrainingLayer.outputs, List.getElem?_map, found]
            rfl
          have changed :
              (descendNeuron alpha regularization lambda layer.outputs upper
                  deltafunction).weightvalues[i]?.getD 0 =
                upper.weightvalues[i]?.getD 0 +
                  StochasticGradientDescentCalculation
                    (upper.weightvalues[i]?.getD 0)
                    neuron.activationfunctionvalue deltafunction regularization
                    alpha lambda := by
            rw [descendNeuron, descendWeights, List.getElem?_zipWith,
              List.getElem?_eq_getElem below, output]
            rfl
          simp only [List.zipWith_cons_cons, List.sum_cons]
          rw [inductionHypothesis above fun other member =>
              complete other (List.mem_cons_of_mem _ member),
            changed]
          ring

/-- The updated weights shift the deltas by the corrections. -/
theorem propagateDeltas_descendLayer (deltafunctions : List R)
    {upper layer : TrainingLayer R} (connected : Connected layer upper) :
    propagateDeltas deltafunctions
        (descendLayer alpha regularization lambda layer.outputs deltafunctions
          upper).neuronvalues
        layer =
      List.zipWith (· + ·)
        (propagateDeltas deltafunctions upper.neuronvalues layer)
        (corrections alpha regularization lambda deltafunctions
          upper.neuronvalues layer) := by
  apply List.ext_getElem
  · simp [propagateDeltas, corrections]
  · intro i below _
    rw [propagateDeltas, List.length_mapIdx] at below
    simp only [propagateDeltas, corrections, descendLayer,
      List.getElem_mapIdx, List.getElem_zipWith]
    rw [sum_descendNeuron alpha regularization lambda
      (List.getElem?_eq_getElem below) _ _ fun other member =>
        (connected other member).2]
    ring

theorem length_corrections (deltafunctions : List R)
    (above : List (TrainingNeuron R)) (layer : TrainingLayer R) :
    (corrections alpha regularization lambda deltafunctions above
        layer).length =
      layer.neuronvalues.length :=
  List.length_mapIdx

omit [LinearOrder R] in
/-- Adding a list changes nothing exactly when all of it is zero. -/
theorem zipWith_add_eq_left_iff {values changes : List R}
    (sameLength : values.length = changes.length) :
    List.zipWith (· + ·) values changes = values ↔
      ∀ change ∈ changes, change = 0 := by
  induction values generalizing changes with
  | nil => simp [List.length_eq_zero_iff.mp sameLength.symm]
  | cons value values inductionHypothesis =>
      cases changes with
      | nil => simp at sameLength
      | cons change changes =>
          rw [List.zipWith_cons_cons, List.cons.injEq,
            inductionHypothesis (by simpa using sameLength),
            List.forall_mem_cons, add_eq_left]

/-- A layer with other deltas descends to other biases. -/
theorem descendLayer_injective (moving : alpha ≠ 0) {outputs first second : List R}
    {layer : TrainingLayer R}
    (firstLength : first.length = layer.neuronvalues.length)
    (secondLength : second.length = layer.neuronvalues.length)
    (same :
      descendLayer alpha regularization lambda outputs first layer =
        descendLayer alpha regularization lambda outputs second layer) :
    first = second := by
  apply List.ext_getElem (firstLength.trans secondLength.symm)
  intro i inFirst inSecond
  have below : i < layer.neuronvalues.length := firstLength ▸ inFirst
  have neurons := congrArg (fun layer => layer.neuronvalues[i]?) same
  simp only [descendLayer, List.getElem?_zipWith,
    List.getElem?_eq_getElem inFirst, List.getElem?_eq_getElem inSecond,
    List.getElem?_eq_getElem below, Option.some.injEq] at neurons
  have biases := congrArg (fun neuron => neuron.bias) neurons
  simp only [descendNeuron, add_right_inj] at biases
  exact neg_injective (mul_right_cancel₀ moving biases)

theorem StochasticGradientDescentCalculation_still (weight output delta : R) :
    StochasticGradientDescentCalculation weight output delta regularization 0
        lambda =
      0 := by
  unfold StochasticGradientDescentCalculation
  split
  · simp
  · split
    · simp
    · split <;> simp
  · simp
  · rfl

/-- Without a learning rate nothing is corrected. -/
theorem corrections_of_still (deltafunctions : List R)
    (above : List (TrainingNeuron R)) (layer : TrainingLayer R) :
    ∀ correction ∈
        corrections (0 : R) regularization lambda deltafunctions above layer,
      correction = 0 := by
  intro correction member
  rw [corrections, List.mem_mapIdx] at member
  rcases member with ⟨i, below, rfl⟩
  rw [List.sum_eq_zero, zero_mul]
  intro change member
  rcases List.mem_iff_getElem?.mp member with ⟨j, found⟩
  rw [List.getElem?_zipWith_eq_some] at found
  rcases found with ⟨deltafunction, upper, -, -, rfl⟩
  rw [StochasticGradientDescentCalculation_still, mul_zero]

/-- Below a layer, both ways agree exactly when no correction is left. -/
theorem descendBelow_eq_iff {deltafunctions : List R}
    {upper currentlayer : TrainingLayer R} {below : List (TrainingLayer R)}
    (deltas : deltafunctions.length = upper.neuronvalues.length)
    (connected :
      (upper :: currentlayer :: below).IsChain fun upper lower =>
        Connected lower upper) :
    descendBelow alpha regularization lambda deltafunctions
        (descendLayer alpha regularization lambda currentlayer.outputs
          deltafunctions upper).neuronvalues
        (currentlayer :: below) =
      simultaneousBelow alpha regularization lambda deltafunctions
        upper.neuronvalues (currentlayer :: below) ↔
      CorrectionsVanishBelow alpha regularization lambda deltafunctions
        upper.neuronvalues (currentlayer :: below) := by
  induction below generalizing deltafunctions upper currentlayer with
  | nil => simp [descendBelow, simultaneousBelow, CorrectionsVanishBelow]
  | cons previouslayer below inductionHypothesis =>
      rw [List.isChain_cons_cons] at connected
      have propagated :
          (propagateDeltas deltafunctions upper.neuronvalues
              currentlayer).length =
            currentlayer.neuronvalues.length := List.length_mapIdx
      have shifted :=
        propagateDeltas_descendLayer alpha regularization lambda
          deltafunctions connected.1
      have corrected :=
        zipWith_add_eq_left_iff
          (propagated.trans
            (length_corrections alpha regularization lambda deltafunctions
              upper.neuronvalues currentlayer).symm)
      rw [descendBelow, simultaneousBelow, CorrectionsVanishBelow,
        List.cons.injEq]
      constructor
      · rintro ⟨head, tail⟩
        have vanish : ∀ correction ∈
            corrections alpha regularization lambda deltafunctions
              upper.neuronvalues currentlayer,
            correction = 0 := by
          by_cases still : alpha = 0
          · subst still
            exact corrections_of_still regularization lambda _ _ _
          · rw [← corrected, ← shifted]
            exact descendLayer_injective alpha regularization lambda still
              List.length_mapIdx List.length_mapIdx head
        rw [shifted, corrected.mpr vanish] at tail
        exact ⟨vanish, (inductionHypothesis propagated connected.2).mp tail⟩
      · rintro ⟨vanish, rest⟩
        rw [shifted, corrected.mpr vanish]
        exact ⟨rfl, (inductionHypothesis propagated connected.2).mpr rest⟩

/-- Both ways agree exactly when no correction is left. -/
theorem descendAll_eq_iff {label : List R} {layers : List (TrainingLayer R)}
    (labels : ∀ lastlayer ∈ layers.head?,
      label.length = lastlayer.neuronvalues.length)
    (connected : layers.IsChain fun upper lower => Connected lower upper) :
    descendAll alpha regularization lambda label layers =
        simultaneousAll alpha regularization lambda label layers ↔
      CorrectionsVanish alpha regularization lambda label layers := by
  rcases layers with _ | ⟨lastlayer, _ | ⟨previouslayer, below⟩⟩
  · simp [descendAll, simultaneousAll, CorrectionsVanish]
  · simp [descendAll, simultaneousAll, CorrectionsVanish,
      CorrectionsVanishBelow]
  · rw [descendAll, simultaneousAll, CorrectionsVanish, List.cons.injEq,
      descendBelow_eq_iff alpha regularization lambda
        (length_outputDeltas (labels lastlayer rfl)) connected]
    exact and_iff_right rfl

/--
On a well-formed network whose hidden layers have one width, a call is one
simultaneous step exactly when no hidden neuron has a correction.
-/
theorem descends_simultaneously_iff (stray : ℕ → R)
    {network : TrainingNetwork R} {label : List R} {hidden : ℕ}
    (wellFormed : network.WellFormed)
    (twoLayers : 2 ≤ network.layervalues.length)
    (labels : network.widths.getLast? = some label.length)
    (sameWidth : ∀ width ∈ network.widths.tail.dropLast, width = hidden) :
    ∃ after accesses,
      BackPropagation stray alpha regularization lambda network label [] =
          .ok (after, accesses) ∧
        (after =
            { network with
              layervalues :=
                (simultaneousAll alpha regularization lambda label
                  network.layervalues.reverse).reverse } ↔
          CorrectionsVanish alpha regularization lambda label
            network.layervalues.reverse) := by
  have agree : HiddenWidthsAgree network.widths :=
    hiddenWidthsAgree_of_same sameWidth
  rcases yields_BackPropagation stray alpha regularization lambda wellFormed
    twoLayers labels [] with ⟨after, accesses, runs, -, same, -, descends⟩
  have connected :
      network.layervalues.reverse.IsChain fun upper lower =>
        Connected lower upper := by
    rw [List.isChain_reverse]
    exact wellFormed.connected
  have lastLabels : ∀ lastlayer ∈ network.layervalues.reverse.head?,
      label.length = lastlayer.neuronvalues.length := by
    intro lastlayer last
    rw [List.head?_reverse] at last
    rw [TrainingNetwork.widths, List.getLast?_map, Option.mem_def.mp last]
      at labels
    exact (Option.some.inj labels).symm
  refine ⟨after, accesses, runs, ?_⟩
  rw [same, descends agree,
    ← descendAll_eq_iff alpha regularization lambda lastLabels connected]
  constructor
  · intro equal
    have layers := congrArg TrainingNetwork.layervalues equal
    exact List.reverse_injective layers
  · intro equal
    rw [equal]

end Gradient

/-- All activation values are zero, so that only biases move. -/
def silentNetwork : TrainingNetwork ℚ :=
  { onesNetwork 2 2 with
    layervalues := (onesNetwork 2 2).layervalues.map fun layer =>
      { layer with
        neuronvalues := layer.neuronvalues.map fun neuron =>
          { neuron with activationfunctionvalue := 0 } } }

theorem wellFormed_silentNetwork : silentNetwork.WellFormed where
  layers := rfl
  neurons := by simp [silentNetwork, onesNetwork, onesLayer]
  connected := by
    simp [silentNetwork, onesNetwork, onesLayer, Connected]

theorem descends_simultaneously_iff_sample :
    ∃ after accesses,
      BackPropagation (fun _ => 0) 1 0 0 silentNetwork [1] [] =
          .ok (after, accesses) ∧
        after =
            { silentNetwork with
              layervalues :=
                (simultaneousAll 1 0 0 [1]
                  silentNetwork.layervalues.reverse).reverse } ∧
          after ≠ silentNetwork := by
  have sameWidth : ∀ width ∈ silentNetwork.widths.tail.dropLast, width = 2 := by
    decide
  have labels : silentNetwork.widths.getLast? = some [(1 : ℚ)].length := rfl
  rcases descends_simultaneously_iff 1 0 0 (fun _ => 0)
      wellFormed_silentNetwork (by decide) labels sameWidth
    with ⟨after, accesses, runs, simultaneous⟩
  have vanish :
      CorrectionsVanish 1 0 0 [1] silentNetwork.layervalues.reverse :=
    ⟨by decide +kernel, by decide +kernel, trivial⟩
  rw [simultaneous.mpr vanish] at runs
  exact ⟨_, accesses, runs, rfl, by decide +kernel⟩

/--
One neuron in each layer, all ones: the weight of the output neuron falls to
zero before it is used, and the hidden neuron does not move.
-/
theorem hidden_neuron_is_not_moved :
    (onesNetwork 1 1).WellFormed ∧
      2 ≤ (onesNetwork 1 1).layervalues.length ∧
        (onesNetwork 1 1).widths.getLast? = some [(0 : ℚ)].length ∧
          (∀ width ∈ (onesNetwork 1 1).widths.tail.dropLast, width = 1) ∧
            ∃ after accesses,
              BackPropagation (fun _ => 0) 1 0 0 (onesNetwork 1 1) [0] [] =
                  .ok (after, accesses) ∧
                after ≠
                  { onesNetwork 1 1 with
                    layervalues :=
                      (simultaneousAll 1 0 0 [0]
                        (onesNetwork 1 1).layervalues.reverse).reverse } := by
  refine ⟨wellFormed_onesNetwork 1 1, by decide, rfl, by decide, ?_⟩
  have labels :
      (onesNetwork 1 1).widths.getLast? = some [(0 : ℚ)].length := rfl
  rcases yields_BackPropagation (fun _ => 0) 1 0 0 (wellFormed_onesNetwork 1 1)
    (by decide) labels [] with ⟨after, accesses, runs, -, same, -, descends⟩
  refine ⟨after, accesses, runs, ?_⟩
  rw [same, descends (by decide)]
  decide +kernel

end FederatedEdge.Client
