import FederatedEdge.Client.BackPropagation

/-!
# What each part of back propagation yields

Each function of the program has one specification: what it returns on the parts
of a well-formed network, and when its accesses are valid.  Only the copy of the
deltas and the sums over it can read what was not written.
-/

namespace FederatedEdge.Client

open FederatedEdge.Library
open FederatedEdge.Network

variable {R : Type}

section Specification

variable [Field R] [LinearOrder R]
variable (stray : ℕ → R) (alpha : R) (regularization : ℤ) (lambda : R)
variable {previouslayer currentlayer : TrainingLayer R}

/-- The inner loop descends the weights and stores them in its column. -/
theorem yields_updateWeights {deltas weightvalues : List R} {i columns : ℕ}
    {deltafunction : R} {bound : ℤ} {weights : Table R}
    {entry : ℕ → ℕ → Option R}
    (delta : deltas[i]? = some deltafunction)
    (complete : bound.toNat = weightvalues.length)
    (outputs : weightvalues.length = previouslayer.neuronvalues.length)
    (inside : i < columns)
    (holds : weights.Holds weightvalues.length columns entry) :
    Yields
      (updateWeights stray alpha regularization lambda previouslayer
        (deltas.map some) i bound weightvalues weights)
      True
      (fun result =>
        result.1 =
            descendWeights alpha regularization lambda previouslayer.outputs
              deltafunction weightvalues ∧
          result.2.Holds weightvalues.length columns fun line column =>
            if column = i then result.1[line]? else entry line column) := by
  have descended :
      weightvalues.mapIdx (fun j weight =>
          weight +
            StochasticGradientDescentCalculation weight
              (previouslayer.outputs[j]?.getD 0) deltafunction regularization
              alpha lambda) =
        descendWeights alpha regularization lambda previouslayer.outputs
          deltafunction weightvalues := by
    apply mapIdx_getD_eq_zipWith
      (fun weight output =>
        weight +
          StochasticGradientDescentCalculation weight output deltafunction
            regularization alpha lambda)
    rw [outputs, TrainingLayer.outputs, List.length_map]
  refine (Yields.walkLoop
    (fun upto (weights : Table R) =>
      weights.Holds weightvalues.length columns fun line column =>
        if column = i ∧ line < upto then
          (descendWeights alpha regularization lambda previouslayer.outputs
            deltafunction weightvalues)[line]?
        else entry line column)
    (fun _ => True)
    (fun j weight =>
      weight +
        StochasticGradientDescentCalculation weight
          (previouslayer.outputs[j]?.getD 0) deltafunction regularization
          alpha lambda)
    complete ?_ ?_).mono (by simp) ?_
  · exact holds.congr (by simp)
  · intro j weight weights found filled
    have below : j < weightvalues.length := (List.getElem?_eq_some_iff.mp found).1
    have previous : j < previouslayer.neuronvalues.length := outputs ▸ below
    have output :
        previouslayer.outputs[j]?.getD 0 =
          previouslayer.neuronvalues[j].activationfunctionvalue := by
      rw [TrainingLayer.outputs, List.getElem?_map,
        List.getElem?_eq_getElem previous]
      rfl
    have reached :
        Exec.deref previouslayer.neuronvalues[j]? =
          .ok previouslayer.neuronvalues[j] := by
      rw [List.getElem?_eq_getElem previous]
      rfl
    refine (Yields.lift reached).seq_eq
      ((Buffer.yields_load_value _ stray delta).seq_eq
        ((Table.yields_store _ filled below inside _).seq
          fun table stored => Yields.pure ⟨by rw [output], ?_⟩))
    refine stored.congr fun line _ column _ => ?_
    by_cases here : line = j ∧ column = i
    · rcases here with ⟨rfl, rfl⟩
      rw [if_pos ⟨rfl, rfl⟩, if_pos ⟨rfl, Nat.lt_succ_self line⟩, ← descended,
        List.getElem?_mapIdx, found, output]
      rfl
    · rw [if_neg here]
      by_cases earlier : column = i ∧ line < j
      · rw [if_pos earlier, if_pos ⟨earlier.1, by omega⟩]
      · rw [if_neg earlier, if_neg (by omega)]
  · rintro result ⟨same, filled⟩
    rw [descended] at same
    refine ⟨same, filled.congr fun line below column _ => ?_⟩
    rw [same, complete]
    simp [below]

/-- A layer descends with its deltas, and its weights fill the matrix. -/
theorem yields_updateNeurons {bound : TrainingNeuron R → ℤ}
    {deltafunctions : List R} {weights : Table R} {lines : ℕ}
    (neurons : currentlayer.neurons.toNat = currentlayer.neuronvalues.length)
    (deltas : deltafunctions.length = currentlayer.neuronvalues.length)
    (outputs : previouslayer.neuronvalues.length = lines)
    (fits : ∀ neuron ∈ currentlayer.neuronvalues,
      (bound neuron).toNat = neuron.weightvalues.length ∧
        neuron.weightvalues.length = lines)
    (holds : weights.Holds lines currentlayer.neuronvalues.length
      fun _ _ => none) :
    Yields
      (updateNeurons stray alpha regularization lambda bound previouslayer
        currentlayer (deltafunctions.map some) weights)
      True
      (fun result =>
        result.1 =
            (descendLayer alpha regularization lambda previouslayer.outputs
              deltafunctions currentlayer).neuronvalues ∧
          result.2.Holds lines currentlayer.neuronvalues.length
            (weightEntry result.1)) := by
  have descended :
      currentlayer.neuronvalues.mapIdx (fun i neuron =>
          descendNeuron alpha regularization lambda previouslayer.outputs
            neuron (deltafunctions[i]?.getD 0)) =
        (descendLayer alpha regularization lambda previouslayer.outputs
          deltafunctions currentlayer).neuronvalues :=
    mapIdx_getD_eq_zipWith
      (descendNeuron alpha regularization lambda previouslayer.outputs) 0
      deltas.symm
  refine (Yields.walkLoop
    (fun upto (weights : Table R) =>
      weights.Holds lines currentlayer.neuronvalues.length fun line column =>
        if column < upto then
          weightEntry
            (descendLayer alpha regularization lambda previouslayer.outputs
              deltafunctions currentlayer).neuronvalues line column
        else none)
    (fun _ => True)
    (fun i neuron =>
      descendNeuron alpha regularization lambda previouslayer.outputs neuron
        (deltafunctions[i]?.getD 0))
    neurons ?_ ?_).mono (by simp) ?_
  · exact holds.congr (by simp)
  · intro i neuron weights found filled
    have below : i < currentlayer.neuronvalues.length :=
      (List.getElem?_eq_some_iff.mp found).1
    rcases fits neuron (List.mem_of_getElem? found) with ⟨complete, sameLines⟩
    have delta : deltafunctions[i]? = some (deltafunctions[i]?.getD 0) := by
      rw [List.getElem?_eq_getElem (by omega)]
      rfl
    subst sameLines
    refine (Buffer.yields_load_value _ stray delta).seq_eq
      ((yields_updateWeights stray alpha regularization lambda delta complete
        outputs.symm below filled).seq ?_)
    rintro ⟨weightvalues, weights⟩ ⟨same, stored⟩
    refine Yields.pure ⟨?_, stored.congr fun line _ column _ => ?_⟩
    · rw [descendNeuron, ← same]
    · by_cases here : column = i
      · subst here
        rw [if_pos rfl, if_pos (Nat.lt_succ_self column), ← descended,
          weightEntry, List.getElem?_mapIdx, found]
        show weightvalues[line]? = _
        rw [show weightvalues = _ from same]
        rfl
      · rw [if_neg here]
        by_cases earlier : column < i
        · rw [if_pos earlier, if_pos (by omega)]
        · rw [if_neg earlier, if_neg (by omega)]
  · rintro result ⟨same, filled⟩
    rw [descended] at same
    refine ⟨same, filled.congr fun line _ column inside => ?_⟩
    rw [same, if_pos (by rw [neurons]; exact inside)]

/-- What descending a layer leaves as it was. -/
theorem length_descendLayer {outputs deltafunctions : List R}
    {layer : TrainingLayer R}
    (deltas : deltafunctions.length = layer.neuronvalues.length) :
    (descendLayer alpha regularization lambda outputs deltafunctions
        layer).neuronvalues.length =
      layer.neuronvalues.length := by
  rw [descendLayer, List.length_zipWith, deltas, min_self]

theorem form_descendLayer {outputs deltafunctions : List R}
    {layer : TrainingLayer R}
    (deltas : deltafunctions.length = layer.neuronvalues.length)
    (complete : ∀ neuron ∈ layer.neuronvalues,
      neuron.weightvalues.length = outputs.length) :
    (descendLayer alpha regularization lambda outputs deltafunctions
        layer).form =
      layer.form := by
  rw [TrainingLayer.form, TrainingLayer.form, LayerContent.form,
    LayerContent.form]
  congr 1
  apply List.ext_getElem
  · simp [TrainingLayer.content, length_descendLayer _ _ _ deltas]
  · intro i _ below
    rw [List.length_map, TrainingLayer.content, List.length_map] at below
    have weights := complete _ (List.getElem_mem below)
    simp only [TrainingLayer.content, NeuronContent.form, descendLayer,
      descendNeuron, descendWeights, List.getElem_map, List.getElem_zipWith,
      List.map_const', List.length_zipWith, weights, min_self]

theorem form_descendLayer_of_connected {deltafunctions : List R}
    {previouslayer layer : TrainingLayer R}
    (deltas : deltafunctions.length = layer.neuronvalues.length)
    (connected : Connected previouslayer layer) :
    (descendLayer alpha regularization lambda previouslayer.outputs
        deltafunctions layer).form =
      layer.form := by
  refine form_descendLayer _ _ _ deltas fun neuron member => ?_
  rw [TrainingLayer.outputs, List.length_map]
  exact (connected neuron member).2

theorem complete_descendLayer {outputs deltafunctions : List R}
    {layer : TrainingLayer R} {lines : ℕ} (sameLines : outputs.length = lines)
    (complete : ∀ neuron ∈ layer.neuronvalues,
      neuron.weightvalues.length = lines) :
    ∀ neuron ∈ (descendLayer alpha regularization lambda outputs deltafunctions
        layer).neuronvalues,
      neuron.weightvalues.length = lines := by
  intro descended member
  rw [descendLayer, List.mem_iff_getElem?] at member
  rcases member with ⟨i, found⟩
  rw [List.getElem?_zipWith_eq_some] at found
  rcases found with ⟨neuron, deltafunction, present, -, rfl⟩
  show (descendWeights _ _ _ _ _ neuron.weightvalues).length = lines
  rw [descendWeights, List.length_zipWith,
    complete neuron (List.mem_of_getElem? present), sameLines, min_self]

omit [LinearOrder R] in
theorem length_outputDeltas {label : List R}
    (labels : label.length = currentlayer.neuronvalues.length) :
    (outputDeltas label currentlayer).length =
      currentlayer.neuronvalues.length := by
  rw [outputDeltas, List.length_zipWith, labels, min_self]

omit [LinearOrder R] in
theorem yields_labelDeltas {label : List R} {deltafunctions : Buffer R}
    (neurons : currentlayer.neurons = currentlayer.neuronvalues.length)
    (labels : label.length = currentlayer.neuronvalues.length)
    (size : deltafunctions.length = currentlayer.neuronvalues.length) :
    Yields (labelDeltas stray label currentlayer deltafunctions) True
      (fun result => result.2 = (outputDeltas label currentlayer).map some) := by
  have deltas := length_outputDeltas labels
  refine (Yields.walkLoop
    (fun upto (deltafunctions : Buffer R) =>
      deltafunctions.FilledTo currentlayer.neuronvalues.length upto
        fun i value => (outputDeltas label currentlayer)[i]? = some value)
    (fun _ => True) (fun _ neuron => neuron) (by rw [neurons]; rfl)
    (Buffer.filledTo_zero size) ?_).mono (by simp) ?_
  · intro i neuron deltafunctions found filled
    have below : i < currentlayer.neuronvalues.length :=
      (List.getElem?_eq_some_iff.mp found).1
    have expected : label[i]? = some label[i] :=
      List.getElem?_eq_getElem (labels ▸ below)
    have stored :
        Yields
          (Buffer.store TrainingArray.deltafunctions deltafunctions i
            (neuron.activationfunctionvalue - label[i]))
          True (· = _) :=
      (Buffer.yields_store _ deltafunctions i _).congr_valid
        (iff_true_intro (by rw [filled.1]; exact below))
    refine (Buffer.yields_load_value _ stray expected).seq_eq
      (stored.seq_eq (Yields.pure ⟨rfl, filled.store below ?_⟩))
    rw [outputDeltas, List.getElem?_zipWith, found, expected]
  · rintro ⟨_, deltafunctions⟩ ⟨-, filled⟩
    rw [neurons, Int.toNat_natCast, ← deltas] at filled
    exact filled.eq_map

/-- The turn for the last layer, which makes valid accesses only. -/
theorem yields_lastLayerTurn {label : List R}
    (neurons : currentlayer.neurons = currentlayer.neuronvalues.length)
    (previousNeurons : previouslayer.neurons = previouslayer.neuronvalues.length)
    (connected : Connected previouslayer currentlayer)
    (labels : label.length = currentlayer.neuronvalues.length) :
    Yields
      (lastLayerTurn stray alpha regularization lambda label currentlayer
        previouslayer)
      True
      (fun result =>
        result.1 =
            descendLayer alpha regularization lambda previouslayer.outputs
              (outputDeltas label currentlayer) currentlayer ∧
          result.2.Carries previouslayer.neuronvalues.length
            currentlayer.neuronvalues.length (outputDeltas label currentlayer)
            result.1.neuronvalues) := by
  have deltas := length_outputDeltas labels
  have fits : ∀ neuron ∈ currentlayer.neuronvalues,
      previouslayer.neurons.toNat = neuron.weightvalues.length ∧
        neuron.weightvalues.length = previouslayer.neuronvalues.length := by
    intro neuron member
    rw [previousNeurons, Int.toNat_natCast, (connected neuron member).2]
    exact ⟨rfl, rfl⟩
  refine (yields_labelDeltas stray neurons labels
    (by rw [Buffer.allocate, List.length_replicate, neurons]; rfl)).seq ?_
  rintro ⟨_, deltafunctions⟩ rfl
  refine (Table.yields_allocate _ _ _).seq fun weights holds => ?_
  rw [previousNeurons, neurons, Int.toNat_natCast, Int.toNat_natCast] at holds
  refine (yields_updateNeurons stray alpha regularization lambda
    (by rw [neurons]; rfl) deltas rfl fits holds).seq ?_
  rintro ⟨neuronvalues, weights⟩ ⟨same, holds⟩
  have sameLength : neuronvalues.length = currentlayer.neuronvalues.length := by
    rw [show neuronvalues = _ from same, length_descendLayer _ _ _ deltas]
  refine Yields.pure ⟨?_, ?_⟩
  · rw [show neuronvalues = _ from same]
    rfl
  · rw [← sameLength] at holds
    exact
      { weightslines := by rw [previousNeurons]; rfl
        weightscolumn := by rw [neurons, sameLength]; rfl
        deltafunctionsnumber := by rw [neurons]; rfl
        deltas := by rw [deltas, sameLength]
        deltafunctions := rfl
        weights := holds
        complete := by
          rw [show neuronvalues = _ from same]
          exact complete_descendLayer _ _ _
            (by rw [TrainingLayer.outputs, List.length_map])
            fun neuron member => (connected neuron member).2 }

omit [LinearOrder R] in
/-- The sum for one neuron reads a delta for each neuron above. -/
theorem yields_accumulateDelta {scratch : Scratch R} {lines number i : ℕ}
    {deltas deltafunctionsaux : List R} {above : List (TrainingNeuron R)}
    (carries : scratch.Carries lines number deltas above) (below : i < lines) :
    Yields
      (accumulateDelta stray (deltafunctionsaux.map some) scratch i)
      (above.length ≤ deltafunctionsaux.length)
      (fun accumulation => above.length ≤ deltafunctionsaux.length →
        accumulation =
          (List.zipWith
            (fun deltafunction upper =>
              deltafunction * upper.weightvalues[i]?.getD 0)
            deltafunctionsaux above).sum) := by
  have sizes :
      (List.zipWith
        (fun deltafunction (upper : TrainingNeuron R) =>
          deltafunction * upper.weightvalues[i]?.getD 0)
        deltafunctionsaux above).length =
      min deltafunctionsaux.length above.length := List.length_zipWith
  refine (Yields.countLoop
    (fun upto accumulation => above.length ≤ deltafunctionsaux.length →
      accumulation =
        ((List.zipWith
          (fun deltafunction (upper : TrainingNeuron R) =>
            deltafunction * upper.weightvalues[i]?.getD 0)
          deltafunctionsaux above).take upto).sum)
    (fun j => j < deltafunctionsaux.length) ?_ ?_).mono ?_ ?_
  · intro _
    rw [List.take_zero, List.sum_nil]
  · intro j inside accumulation holds
    rw [carries.weightscolumn] at inside
    have weight :
        weightEntry above i j = some (above[j].weightvalues[i]?.getD 0) := by
      have complete := carries.complete above[j] (List.getElem_mem inside)
      rw [weightEntry, List.getElem?_eq_getElem inside]
      show above[j].weightvalues[i]? = _
      rw [List.getElem?_eq_getElem (complete ▸ below)]
      rfl
    refine (Buffer.yields_load_values _ stray deltafunctionsaux j).follow
      fun deltafunction loaded =>
        (Table.yields_load _ stray carries.weights below inside weight).seq_eq
          (Yields.pure ?_)
    intro enough
    have present : j < deltafunctionsaux.length := by omega
    rw [holds enough, List.sum_take_succ _ j (by rw [sizes]; omega),
      List.getElem_zipWith]
    congr 2
    exact loaded _ (List.getElem?_eq_getElem present)
  · rw [carries.weightscolumn]
    exact forall_lt_iff_le
  · intro accumulation holds enough
    rw [holds enough, carries.weightscolumn,
      List.take_of_length_le (by rw [sizes]; omega)]

/-- All sums of a layer read a delta for each neuron above. -/
theorem yields_accumulateDeltas {scratch : Scratch R} {number : ℕ}
    {deltas : List R} {above : List (TrainingNeuron R)}
    {deltafunctions : Buffer R} (deltafunctionsaux : List R)
    (carries :
      scratch.Carries currentlayer.neuronvalues.length number deltas above)
    (size : deltafunctions.length = currentlayer.neuronvalues.length) :
    Yields
      (accumulateDeltas stray currentlayer scratch (deltafunctionsaux.map some)
        deltafunctions)
      (currentlayer.neuronvalues.length = 0 ∨
        above.length ≤ deltafunctionsaux.length)
      (fun result => ∃ values : List R,
        result.2 = values.map some ∧
          values.length = currentlayer.neuronvalues.length ∧
          (above.length ≤ deltafunctionsaux.length →
            values = propagateDeltas deltafunctionsaux above currentlayer)) := by
  have deltas :
      (propagateDeltas deltafunctionsaux above currentlayer).length =
        currentlayer.neuronvalues.length := List.length_mapIdx
  refine (Yields.walkLoop
    (fun upto (deltafunctions : Buffer R) =>
      deltafunctions.FilledTo currentlayer.neuronvalues.length upto
        fun i value => above.length ≤ deltafunctionsaux.length →
          (propagateDeltas deltafunctionsaux above currentlayer)[i]? =
            some value)
    (fun _ => above.length ≤ deltafunctionsaux.length)
    (fun _ neuron => neuron) carries.weightslines
    (Buffer.filledTo_zero size) ?_).mono ?_ ?_
  · intro i neuron deltafunctions found filled
    have below : i < currentlayer.neuronvalues.length :=
      (List.getElem?_eq_some_iff.mp found).1
    refine (yields_accumulateDelta stray carries below).follow
      fun accumulation summed => ?_
    have stored :
        Yields
          (Buffer.store TrainingArray.deltafunctions deltafunctions i
            (accumulation *
              ActivationFunctionDerivativeCalculation
                neuron.activationfunctionvalue
                currentlayer.activationfunctiontype))
          True (· = _) :=
      (Buffer.yields_store _ deltafunctions i _).congr_valid
        (iff_true_intro (by rw [filled.1]; exact below))
    refine stored.seq_eq (Yields.pure ⟨rfl, filled.store below ?_⟩)
    intro enough
    rw [propagateDeltas, List.getElem?_mapIdx, found, summed enough]
    rfl
  · rw [carries.weightslines]
    constructor
    · intro always
      rcases Nat.eq_zero_or_pos currentlayer.neuronvalues.length with none | some
      · exact Or.inl none
      · exact Or.inr (always 0 some)
    · rintro (none | enough) i below
      · omega
      · exact enough
  · rintro ⟨_, deltafunctions⟩ ⟨-, filled⟩
    rw [carries.weightslines] at filled
    rcases filled.values with ⟨values, same, sameLength, fine⟩
    refine ⟨values, same, sameLength, fun enough => ?_⟩
    apply List.ext_getElem (sameLength.trans deltas.symm)
    intro i below inside
    have expected := fine i _ (List.getElem?_eq_getElem below) enough
    rw [List.getElem?_eq_getElem inside, Option.some.injEq] at expected
    exact expected.symm

/-- The turn for a layer below the last one. -/
theorem yields_hiddenLayerTurn {scratch : Scratch R} {number : ℕ}
    {deltas : List R} {above : List (TrainingNeuron R)}
    (neurons : currentlayer.neurons = currentlayer.neuronvalues.length)
    (previousNeurons : previouslayer.neurons = previouslayer.neuronvalues.length)
    (connected : Connected previouslayer currentlayer)
    (carries :
      scratch.Carries currentlayer.neuronvalues.length number deltas above) :
    Yields
      (hiddenLayerTurn stray alpha regularization lambda currentlayer
        previouslayer scratch)
      (TurnReads number above.length currentlayer.neuronvalues.length)
      (fun result => ∃ deltafunctions : List R,
        deltafunctions.length = currentlayer.neuronvalues.length ∧
          (TurnReads number above.length currentlayer.neuronvalues.length →
            deltafunctions = propagateDeltas deltas above currentlayer) ∧
          result.1 =
            descendLayer alpha regularization lambda previouslayer.outputs
              deltafunctions currentlayer ∧
          result.2.Carries previouslayer.neuronvalues.length
            previouslayer.neuronvalues.length deltafunctions
            result.1.neuronvalues) := by
  have fits : ∀ neuron ∈ currentlayer.neuronvalues,
      neuron.weights.toNat = neuron.weightvalues.length ∧
        neuron.weightvalues.length = previouslayer.neuronvalues.length := by
    intro neuron member
    rw [(connected neuron member).1]
    exact ⟨rfl, (connected neuron member).2⟩
  have resized :
      (scratch.deltafunctions.resize currentlayer.neurons.toNat).length =
        currentlayer.neuronvalues.length := by
    rw [neurons, Int.toNat_natCast]
    exact Buffer.length_resize _ _
  have copied :
      Yields
        (Buffer.copy TrainingArray.deltafunctionsaux
          TrainingArray.deltafunctions stray
          (Buffer.allocate scratch.deltafunctionsnumber.toNat)
          scratch.deltafunctions scratch.deltafunctionsnumber.toNat)
        (number ≤ above.length)
        (fun aux => ∃ copies : List R, aux = copies.map some ∧
          copies.length = number ∧
            (number ≤ deltas.length → copies = deltas.take number)) := by
    rw [carries.deltafunctionsnumber, carries.deltafunctions, ← carries.deltas]
    exact Buffer.yields_copy stray _ _ deltas List.length_replicate
  refine copied.bind fun aux copies => ?_
  rcases copies with ⟨copies, rfl, sameNumber, same⟩
  have summed := yields_accumulateDeltas stray copies carries resized
  rw [sameNumber] at summed
  refine summed.follow ?_
  rintro ⟨_, _⟩ ⟨deltafunctions, rfl, sameLength, propagated⟩
  have freed :
      Yields (scratch.weights.free TrainingArray.weights
        scratch.weightslines.toNat) True fun _ => True := by
    rw [carries.weightslines]
    exact Table.yields_free _ carries.weights
  refine freed.seq fun _ _ =>
    (Table.yields_allocate _ _ _).seq fun weights holds => ?_
  rw [previousNeurons, carries.weightslines, Int.toNat_natCast] at holds
  refine (yields_updateNeurons stray alpha regularization lambda
    (by rw [neurons]; rfl) sameLength rfl fits holds).seq ?_
  rintro ⟨neuronvalues, weights⟩ ⟨updated, holds⟩
  have newLength : neuronvalues.length = currentlayer.neuronvalues.length := by
    rw [show neuronvalues = _ from updated, length_descendLayer _ _ _ sameLength]
  refine Yields.pure ⟨deltafunctions, sameLength, ?_, ?_, ?_⟩
  · rintro ⟨fewer, none | enough⟩
    · have nothing : (propagateDeltas deltas above currentlayer).length = 0 :=
        List.length_mapIdx.trans none
      rw [List.length_eq_zero_iff.mp nothing]
      exact List.length_eq_zero_iff.mp (sameLength.trans none)
    · have whole : copies = deltas := by
        rw [same (by rw [carries.deltas]; exact fewer)]
        exact List.take_of_length_le (by rw [carries.deltas]; exact enough)
      rw [← whole]
      exact propagated enough
  · rw [show neuronvalues = _ from updated]
    rfl
  · rw [← newLength] at holds
    exact
      { weightslines := by rw [previousNeurons]; rfl
        weightscolumn := by rw [carries.weightslines, newLength]
        deltafunctionsnumber := by rw [previousNeurons]; rfl
        deltas := by rw [sameLength, newLength]
        deltafunctions := rfl
        weights := holds
        complete := by
          rw [show neuronvalues = _ from updated]
          exact complete_descendLayer _ _ _
            (by rw [TrainingLayer.outputs, List.length_map])
            fun neuron member => (connected neuron member).2 }

/-- The turns for the layers below the last one. -/
theorem yields_hiddenLayerTurns {scratch : Scratch R} {turns number : ℕ}
    {deltas : List R} {above : List (TrainingNeuron R)}
    {below : List (TrainingLayer R)} (counted : below.length = turns)
    (neurons : ∀ layer ∈ currentlayer :: below,
      layer.neurons = layer.neuronvalues.length)
    (connected :
      (currentlayer :: below).IsChain fun upper lower => Connected lower upper)
    (carries :
      scratch.Carries currentlayer.neuronvalues.length number deltas above) :
    Yields
      (hiddenLayerTurns stray alpha regularization lambda turns
        (currentlayer :: below) scratch)
      (TurnsRead number above.length
        ((currentlayer :: below).map (·.neuronvalues.length)))
      (fun result =>
        result.1.map TrainingLayer.form =
            (currentlayer :: below).map TrainingLayer.form ∧
          (TurnsRead number above.length
              ((currentlayer :: below).map (·.neuronvalues.length)) →
            result.1 =
              descendBelow alpha regularization lambda deltas above
                (currentlayer :: below)) ∧
          result.2.Freeable) := by
  induction below generalizing currentlayer scratch turns number deltas above
  with
  | nil =>
      subst counted
      exact Yields.pure ⟨rfl, fun _ => rfl, carries.freeable⟩
  | cons previouslayer below inductionHypothesis =>
      subst counted
      rw [List.isChain_cons_cons] at connected
      have turn :=
        yields_hiddenLayerTurn stray alpha regularization lambda
          (neurons currentlayer (by simp)) (neurons previouslayer (by simp))
          connected.1 carries
      refine turn.bind ?_
      rintro ⟨descended, scratch⟩
        ⟨deltafunctions, sameLength, propagated, same, carried⟩
      have width :
          descended.neuronvalues.length = currentlayer.neuronvalues.length := by
        rw [show descended = _ from same, length_descendLayer _ _ _ sameLength]
      have form : descended.form = currentlayer.form := by
        rw [show descended = _ from same]
        exact form_descendLayer_of_connected _ _ _ sameLength connected.1
      have afterwards :=
        inductionHypothesis rfl
          (fun layer member => neurons layer (List.mem_cons_of_mem _ member))
          connected.2 carried
      rw [show (descended, scratch).1.neuronvalues.length = _ from width]
        at afterwards
      refine afterwards.follow ?_
      rintro ⟨below, scratch⟩ ⟨forms, descends, freeable⟩
      refine Yields.pure ⟨?_, ?_, freeable⟩
      · rw [List.map_cons, List.map_cons, form]
        exact congrArg _ forms
      · rintro ⟨reads, rest⟩
        show descended :: below = _
        rw [show below = _ from descends rest, descendBelow,
          ← propagated reads, ← same]

/-- The turns of one call on at least two layers. -/
theorem yields_layerTurns {label : List R} {turns : ℕ}
    {lastlayer : TrainingLayer R} {below : List (TrainingLayer R)}
    (counted : below.length = turns)
    (neurons : ∀ layer ∈ lastlayer :: currentlayer :: below,
      layer.neurons = layer.neuronvalues.length)
    (connected :
      (lastlayer :: currentlayer :: below).IsChain fun upper lower =>
        Connected lower upper)
    (labels : label.length = lastlayer.neuronvalues.length) :
    Yields
      (layerTurns stray alpha regularization lambda label (turns + 1)
        (lastlayer :: currentlayer :: below))
      (TurnsRead label.length label.length
        ((currentlayer :: below).map (·.neuronvalues.length)))
      (fun result =>
        result.1.map TrainingLayer.form =
            (lastlayer :: currentlayer :: below).map TrainingLayer.form ∧
          (TurnsRead label.length label.length
              ((currentlayer :: below).map (·.neuronvalues.length)) →
            result.1 =
              descendAll alpha regularization lambda label
                (lastlayer :: currentlayer :: below)) ∧
          result.2.Freeable) := by
  rw [List.isChain_cons_cons] at connected
  have deltas := length_outputDeltas labels
  refine (yields_lastLayerTurn stray alpha regularization lambda
    (neurons lastlayer (by simp)) (neurons currentlayer (by simp)) connected.1
    labels).seq ?_
  rintro ⟨descended, scratch⟩ ⟨same, carried⟩
  have width :
      descended.neuronvalues.length = lastlayer.neuronvalues.length := by
    rw [show descended = _ from same, length_descendLayer _ _ _ deltas]
  have form : descended.form = lastlayer.form := by
    rw [show descended = _ from same]
    exact form_descendLayer_of_connected _ _ _ deltas connected.1
  have afterwards :=
    yields_hiddenLayerTurns stray alpha regularization lambda counted
      (fun layer member => neurons layer (List.mem_cons_of_mem _ member))
      connected.2 carried
  rw [show (descended, scratch).1.neuronvalues.length = _ from width, ← labels]
    at afterwards
  refine afterwards.follow ?_
  rintro ⟨below, scratch⟩ ⟨forms, descends, freeable⟩
  refine Yields.pure ⟨?_, ?_, freeable⟩
  · rw [List.map_cons, List.map_cons, form]
    exact congrArg _ forms
  · intro reads
    show descended :: below = _
    rw [show below = _ from descends reads, descendAll, ← same]

end Specification

end FederatedEdge.Client
