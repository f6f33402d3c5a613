import FederatedEdge.Client.Learning
import FederatedEdge.Library.LineReader

/-!
# Loading a record into a network

The ESP32 client, the server and the stand-alone program load records by the
same loop: the fields after the first one are stored in `trainingsample`, from
where they go to the first layer and to the label vector.  The programs differ
in how many fields the loop takes at most.

A field is kept with the line which it was parsed from.  The array keeps what a
short line does not overwrite, and so do the fields which are read from it.
-/

namespace FederatedEdge.Dataset

open FederatedEdge.Library
open FederatedEdge.Client

/-- The arrays of the loaders. -/
inductive SampleArray where
  | trainingsample
  | label
deriving DecidableEq, Repr

/-- A number with the line of the file which it was parsed from. -/
structure ParsedField (R : Type) where
  value : R
  line : Option ℕ
deriving DecidableEq, Repr

/-- The buffer for lines and the array of fields. -/
structure Sampler (R : Type) where
  reader : LineReader
  trainingsample : Buffer (ParsedField R)
deriving DecidableEq, Repr

/-- The fields which a record left in the first layer and the label vector. -/
structure Sample (R : Type) where
  inputs : List (ParsedField R)
  labels : List (ParsedField R)
deriving DecidableEq, Repr

def Sample.fields {R : Type} (sample : Sample R) : List (ParsedField R) :=
  sample.inputs ++ sample.labels

/-- What loading a record changes. -/
structure Loaded (R : Type) where
  neuralnetwork : TrainingNetwork R
  sampler : Sampler R
  label : Buffer (ParsedField R)
  sample : Sample R
deriving DecidableEq, Repr

variable {R : Type}

section Program

variable (strtof : List Char → R)

/--
The loop over `strtok(NULL, ",")` with so many turns left; it breaks when there
is no token.
-/
def storeFields (number : Option ℕ) :
    ℕ → ℕ → List (List Char) → Buffer (ParsedField R) →
      Traced SampleArray (Buffer (ParsedField R))
  | 0, _, _, trainingsample => pure trainingsample
  | _ + 1, _, [], trainingsample => pure trainingsample
  | turns + 1, i, token :: tokens, trainingsample => do
      let trainingsample ←
        Buffer.store SampleArray.trainingsample trainingsample i
          ⟨strtof token, number⟩
      storeFields number turns (i + 1) tokens trainingsample

/-- Reading a line and storing at most `bound` of its fields. -/
def readSample (bound : ℕ) (sampler : Sampler R) :
    Traced SampleArray (Sampler R) := do
  let reader := sampler.reader.fgets
  let trainingsample ←
    storeFields strtof reader.number bound 0 reader.fields
      sampler.trainingsample
  pure { reader := reader.tokenized, trainingsample := trainingsample }

variable (stray : ℕ → R)

/-- A field read from `trainingsample`; a stray one is from no line. -/
def loadField (trainingsample : Buffer (ParsedField R)) (i : ℕ) :
    Traced SampleArray (ParsedField R) :=
  Buffer.load SampleArray.trainingsample (fun place => ⟨stray place, none⟩)
    trainingsample i

/-- The loop which sets the activation values of the first layer. -/
def loadInputs (trainingsample : Buffer (ParsedField R))
    (firstlayer : TrainingLayer R) :
    Traced SampleArray (List (TrainingNeuron R) × List (ParsedField R)) :=
  walkLoop
    (fun i currentneuron inputs => do
      let field ← loadField stray trainingsample i
      pure
        ({ currentneuron with activationfunctionvalue := field.value },
          inputs ++ [field]))
    firstlayer.neurons.toNat firstlayer.neuronvalues []

/-- The loop which sets the label vector. -/
def loadLabels (trainingsample : Buffer (ParsedField R)) (inputs outputs : ℕ)
    (label : Buffer (ParsedField R)) :
    Traced SampleArray (Buffer (ParsedField R)) :=
  countFrom
    (fun i label => do
      let field ← loadField stray trainingsample i
      Buffer.store SampleArray.label label (i - inputs) field)
    outputs inputs label

/-- The loops which take the fields out of `trainingsample` again. -/
def placeSample (neuralnetwork : TrainingNetwork R) (sampler : Sampler R)
    (label : Buffer (ParsedField R)) : Traced SampleArray (Loaded R) := do
  let firstlayer ← Exec.deref neuralnetwork.layervalues.head?
  let lastlayer ← Exec.deref neuralnetwork.layervalues.getLast?
  let (neuronvalues, inputs) ←
    loadInputs stray sampler.trainingsample firstlayer
  let label ←
    loadLabels stray sampler.trainingsample firstlayer.neurons.toNat
      lastlayer.neurons.toNat label
  pure
    { neuralnetwork :=
        { neuralnetwork with
          layervalues :=
            { firstlayer with neuronvalues := neuronvalues } ::
              neuralnetwork.layervalues.tail }
      sampler := sampler
      label := label
      sample := { inputs := inputs, labels := label.filterMap id } }

/-- The loader, with a loop over at most `bound` fields. -/
def loadRecord (bound : ℕ) (neuralnetwork : TrainingNetwork R)
    (sampler : Sampler R) (label : Buffer (ParsedField R)) :
    Traced SampleArray (Loaded R) := do
  let sampler ← readSample strtof bound sampler
  placeSample stray neuralnetwork sampler label

end Program

variable {sound : Access SampleArray → Prop}
  {readable : Buffer (ParsedField R) → ℕ → Prop}

/-! ## What is stored -/

/-- Storing values one after the other, as far as the buffer goes. -/
def overlay {α : Type} : ℕ → List α → Buffer α → Buffer α
  | _, [], buffer => buffer
  | index, value :: values, buffer =>
      overlay (index + 1) values (buffer.set index (some value))

theorem length_overlay {α : Type} (index : ℕ) (values : List α)
    (buffer : Buffer α) : (overlay index values buffer).length = buffer.length := by
  induction values generalizing index buffer with
  | nil => rfl
  | cons value values inductionHypothesis =>
      rw [overlay, inductionHypothesis, List.length_set]

/-- Elements before the stored values are kept. -/
theorem getElem?_overlay_before {α : Type} {index place : ℕ} (values : List α)
    (buffer : Buffer α) (before : place < index) :
    (overlay index values buffer)[place]? = buffer[place]? := by
  induction values generalizing index buffer with
  | nil => rfl
  | cons value values inductionHypothesis =>
      rw [overlay, inductionHypothesis _ (by omega),
        List.getElem?_set_ne (by omega)]

theorem getElem?_overlay_stored {α : Type} {index offset : ℕ} {values : List α}
    {value : α} {buffer : Buffer α} (inside : index + offset < buffer.length)
    (found : values[offset]? = some value) :
    (overlay index values buffer)[index + offset]? = some (some value) := by
  induction values generalizing index offset buffer with
  | nil => cases found
  | cons first values inductionHypothesis =>
      cases offset with
      | zero =>
          cases found
          rw [Nat.add_zero] at inside ⊢
          rw [overlay, getElem?_overlay_before _ _ (Nat.lt_succ_self index),
            List.getElem?_set_self inside]
      | succ offset =>
          rw [overlay, show index + (offset + 1) = index + 1 + offset by omega]
          apply inductionHypothesis
          · rw [List.length_set]
            omega
          · exact found

/-- Elements after the stored values are kept. -/
theorem getElem?_overlay_after {α : Type} {index place : ℕ} {values : List α}
    (buffer : Buffer α) (after : index + values.length ≤ place) :
    (overlay index values buffer)[place]? = buffer[place]? := by
  induction values generalizing index buffer with
  | nil => rfl
  | cons value values inductionHypothesis =>
      rw [List.length_cons] at after
      rw [overlay, inductionHypothesis _ (by omega),
        List.getElem?_set_ne (by omega)]

section Stored

variable (strtof : List Char → R)

/-- The values of at most `bound` fields of the line in the buffer. -/
def LineReader.values (bound : ℕ) (reader : LineReader) : List (ParsedField R) :=
  (reader.fields.take bound).map fun token => ⟨strtof token, reader.number⟩

/-- The sampler after the next line. -/
def Sampler.next (bound : ℕ) (sampler : Sampler R) : Sampler R where
  reader := sampler.reader.turn
  trainingsample :=
    overlay 0 (LineReader.values strtof bound sampler.reader.fgets)
      sampler.trainingsample

/-- All fields of the next line have room in the array. -/
def Sampler.Fits (bound : ℕ) (sampler : Sampler R) : Prop :=
  (LineReader.values strtof bound sampler.reader.fgets).length ≤
    sampler.trainingsample.length

section Next

variable (bound : ℕ) (sampler : Sampler R)

theorem length_next :
    (sampler.next strtof bound).trainingsample.length =
      sampler.trainingsample.length :=
  length_overlay 0 _ _

/-- The fields of a line are stored from the front. -/
theorem next_stored {i : ℕ} {field : ParsedField R}
    (inside : i < sampler.trainingsample.length)
    (found :
      (LineReader.values strtof bound sampler.reader.fgets)[i]? = some field) :
    (sampler.next strtof bound).trainingsample[i]? = some (some field) := by
  rw [← Nat.zero_add i] at inside ⊢
  exact getElem?_overlay_stored inside found

/-- Behind the fields of a line the array is as before. -/
theorem next_kept {i : ℕ}
    (behind :
      (LineReader.values strtof bound sampler.reader.fgets).length ≤ i) :
    (sampler.next strtof bound).trainingsample[i]? =
      sampler.trainingsample[i]? := by
  apply getElem?_overlay_after
  rw [Nat.zero_add]
  exact behind

end Next

theorem yields_storeFields (checks : Buffer.Checks sound readable)
    (number : Option ℕ) (turns i : ℕ) (tokens : List (List Char))
    (trainingsample : Buffer (ParsedField R)) :
    Yields (storeFields strtof number turns i tokens trainingsample)
      (∀ offset < (tokens.take turns).length,
        i + offset < trainingsample.length)
      (· =
        overlay i
          ((tokens.take turns).map fun token => ⟨strtof token, number⟩)
          trainingsample)
      sound := by
  induction turns generalizing i tokens trainingsample with
  | zero =>
      refine Yields.congr_valid (Yields.pure rfl) ?_
      simp
  | succ turns inductionHypothesis =>
      rcases tokens with _ | ⟨token, tokens⟩
      · refine Yields.congr_valid (Yields.pure rfl) ?_
        simp
      · have later : ∀ stored,
            stored = trainingsample.set i (some ⟨strtof token, number⟩) →
              Yields (storeFields strtof number turns (i + 1) tokens stored)
                (∀ offset < (tokens.take turns).length,
                  i + 1 + offset < trainingsample.length)
                (· =
                  overlay (i + 1)
                    ((tokens.take turns).map fun token =>
                      ⟨strtof token, number⟩)
                    (trainingsample.set i (some ⟨strtof token, number⟩)))
                sound := by
          rintro _ rfl
          have sameSize :
              (trainingsample.set i (some ⟨strtof token, number⟩)).length =
                trainingsample.length := List.length_set
          rw [← sameSize]
          exact inductionHypothesis (i + 1) tokens _
        refine ((checks.yields_store SampleArray.trainingsample trainingsample i
          ⟨strtof token, number⟩).bind later).congr_valid ?_
        rw [List.take_succ_cons, List.length_cons]
        constructor
        · rintro ⟨first, rest⟩ offset below
          rcases offset with _ | offset
          · exact first
          · have inside := rest offset (by omega)
            omega
        · intro all
          refine ⟨all 0 (by omega), fun offset below => ?_⟩
          have inside := all (offset + 1) (by omega)
          omega

theorem yields_readSample (checks : Buffer.Checks sound readable) (bound : ℕ)
    (sampler : Sampler R) :
    Yields (readSample strtof bound sampler) (sampler.Fits strtof bound)
      (· = sampler.next strtof bound) sound := by
  have stored :=
    yields_storeFields strtof checks sampler.reader.fgets.number bound 0
      sampler.reader.fgets.fields sampler.trainingsample
  refine ((stored.follow fun trainingsample same =>
    Yields.pure ?_).congr_valid ?_)
  · rw [same]
    rfl
  · rw [Sampler.Fits, LineReader.values, List.length_map]
    simp only [Nat.zero_add]
    exact forall_lt_iff_le

end Stored

/-! ## What is loaded -/

section Loading

variable (stray : ℕ → R)

/-- There is a field at this place. -/
def Stored (trainingsample : Buffer (ParsedField R)) (i : ℕ) : Prop :=
  ∃ field, trainingsample[i]? = some (some field)

/-- A field which agrees with the stored one, if there is one. -/
def Agrees (trainingsample : Buffer (ParsedField R)) (i : ℕ)
    (field : ParsedField R) : Prop :=
  ∀ expected, trainingsample[i]? = some (some expected) → field = expected

def setInput (neuron : TrainingNeuron R) (field : ParsedField R) :
    TrainingNeuron R :=
  { neuron with activationfunctionvalue := field.value }

/-- The network with the values of such fields in its first layer. -/
def withInputs (network : TrainingNetwork R) (inputs : List (ParsedField R)) :
    TrainingNetwork R :=
  { network with
    layervalues :=
      network.layervalues.modify 0 fun firstlayer =>
        { firstlayer with
          neuronvalues :=
            List.zipWith setInput firstlayer.neuronvalues inputs } }

/-- What a loader leaves, with fields that agree with all stored ones. -/
structure Places (network : TrainingNetwork R) (sampler : Sampler R)
    (inputs outputs : ℕ) (loaded : Loaded R) : Prop where
  same : loaded.sampler = sampler
  label : loaded.label = loaded.sample.labels.map some
  inputs : loaded.sample.inputs.length = inputs
  labels : loaded.sample.labels.length = outputs
  agrees : ∀ i field, loaded.sample.fields[i]? = some field →
    Agrees sampler.trainingsample i field
  neuralnetwork :
    loaded.neuralnetwork = withInputs network loaded.sample.inputs

section Checked

variable (checks : Buffer.Checks sound readable)

include checks

theorem yields_loadField (trainingsample : Buffer (ParsedField R)) (i : ℕ) :
    Yields (loadField stray trainingsample i) (readable trainingsample i)
      (Agrees trainingsample i) sound :=
  checks.yields_load SampleArray.trainingsample _ trainingsample i

theorem yields_loadInputs (trainingsample : Buffer (ParsedField R))
    {firstlayer : TrainingLayer R}
    (counted : firstlayer.neurons.toNat = firstlayer.neuronvalues.length) :
    Yields (loadInputs stray trainingsample firstlayer)
      (∀ i < firstlayer.neurons.toNat, readable trainingsample i)
      (fun loaded =>
        loaded.1 = List.zipWith setInput firstlayer.neuronvalues loaded.2 ∧
          loaded.2.length = firstlayer.neuronvalues.length ∧
            ∀ i field, loaded.2[i]? = some field →
              Agrees trainingsample i field)
      sound := by
  refine (Yields.walkLoop_replaced
    (fun done inputs =>
      done =
          List.zipWith setInput (firstlayer.neuronvalues.take done.length)
            inputs ∧
        inputs.length = done.length ∧
          ∀ i field, inputs[i]? = some field → Agrees trainingsample i field)
    (readable trainingsample) counted ?_ ?_).mono Iff.rfl ?_
  · simp
  · rintro done neuron inputs found ⟨set, sameLength, agrees⟩
    refine (yields_loadField stray checks trainingsample done.length).follow
      fun field loaded => Yields.pure ⟨?_, ?_, ?_⟩
    · rw [List.length_append, List.length_singleton, List.take_add_one, found,
        Option.toList_some, List.zipWith_append, ← set]
      · rfl
      · rw [List.length_take, sameLength]
        exact Nat.min_eq_left
          (List.getElem?_eq_some_iff.mp found).1.le
    · rw [List.length_append, List.length_append, sameLength]
      rfl
    · intro i other member
      rcases Nat.lt_or_ge i inputs.length with earlier | later
      · rw [List.getElem?_append_left earlier] at member
        exact agrees i other member
      · rw [List.getElem?_append_right later, List.getElem?_singleton] at member
        split_ifs at member with last
        have here : i = done.length := by omega
        rw [here, ← Option.some.inj member]
        exact loaded
  · rintro ⟨neurons, inputs⟩ ⟨complete, set, sameLength, agrees⟩
    rw [complete, List.take_length] at set
    exact ⟨set, sameLength.trans complete, agrees⟩

theorem yields_loadLabels (trainingsample : Buffer (ParsedField R))
    (inputs : ℕ) {outputs : ℕ} {label : Buffer (ParsedField R)}
    (size : label.length = outputs) :
    Yields (loadLabels stray trainingsample inputs outputs label)
      (∀ i, inputs ≤ i → i < inputs + outputs → readable trainingsample i)
      (fun filled => ∃ labels : List (ParsedField R),
        filled = labels.map some ∧ labels.length = outputs ∧
          ∀ k field, labels[k]? = some field →
            Agrees trainingsample (inputs + k) field)
      sound := by
  have start :
      Buffer.FilledTo label outputs (inputs - inputs) fun k field =>
        Agrees trainingsample (inputs + k) field := by
    rw [Nat.sub_self]
    exact Buffer.filledTo_zero size
  have turns :
      Yields (loadLabels stray trainingsample inputs outputs label)
        (∀ i, inputs ≤ i → i < inputs + outputs → readable trainingsample i)
        (fun filled =>
          Buffer.FilledTo filled outputs (inputs + outputs - inputs)
            fun k field => Agrees trainingsample (inputs + k) field)
        sound := by
    refine @Yields.countFrom SampleArray (Buffer (ParsedField R)) _ _
      (fun i filled =>
        Buffer.FilledTo filled outputs (i - inputs)
          fun k field => Agrees trainingsample (inputs + k) field)
      (readable trainingsample) outputs inputs label ?_ start
    intro i filled after below filledTo
    refine (yields_loadField stray checks trainingsample i).follow
      fun field agrees => ?_
    refine (checks.yields_store SampleArray.label filled (i - inputs)
      field).mono (iff_true_intro ?_) ?_
    · rw [filledTo.1]
      omega
    · rintro _ rfl
      rw [show i + 1 - inputs = i - inputs + 1 by omega]
      apply filledTo.store (by omega)
      rw [show inputs + (i - inputs) = i by omega]
      exact agrees
  refine turns.mono Iff.rfl fun filled filledTo => ?_
  rw [Nat.add_sub_cancel_left] at filledTo
  exact filledTo.values

theorem yields_placeSample {network : TrainingNetwork R} (sampler : Sampler R)
    {label : Buffer (ParsedField R)} {inputs outputs : ℕ}
    (wellFormed : network.WellFormed)
    (first : network.widths.head? = some inputs)
    (last : network.widths.getLast? = some outputs)
    (size : label.length = outputs) :
    Yields (placeSample stray network sampler label)
      (∀ i < inputs + outputs, readable sampler.trainingsample i)
      (Places network sampler inputs outputs) sound := by
  rcases wellFormed.firstlayer first
    with ⟨firstlayer, isFirst, inputsAre, first⟩
  rcases List.head?_eq_some_iff.mp isFirst with ⟨above, layers⟩
  rcases wellFormed.lastlayer last with ⟨lastlayer, isLast, outputsAre, -⟩
  have firstCounted :
      firstlayer.neurons.toNat = firstlayer.neuronvalues.length := by
    rw [inputsAre, Int.toNat_natCast, first]
  have lastCounted : lastlayer.neurons.toNat = outputs := by
    rw [outputsAre, Int.toNat_natCast]
  rw [placeSample]
  refine Yields.seq_eq (Yields.lift (by rw [isFirst]; rfl))
    (Yields.seq_eq (Yields.lift (by rw [isLast]; rfl)) ?_)
  have loadedInputs :=
    yields_loadInputs stray checks sampler.trainingsample firstCounted
  have loadedLabels :=
    yields_loadLabels stray checks sampler.trainingsample
      firstlayer.neurons.toNat
      (show label.length = lastlayer.neurons.toNat from
        size.trans lastCounted.symm)
  refine Yields.congr_valid
    (@Yields.bind SampleArray _ _ _ _ _ _
      (∀ i, firstlayer.neurons.toNat ≤ i →
        i < firstlayer.neurons.toNat + lastlayer.neurons.toNat →
          readable sampler.trainingsample i) _ _ loadedInputs ?_) ?_
  · rintro ⟨neuronvalues, fields⟩ ⟨set, complete, agrees⟩
    refine loadedLabels.follow ?_
    rintro _ ⟨labels, rfl, labelled, labelsAgree⟩
    have written : (labels.map some).filterMap id = labels := by
      simp [List.filterMap_map]
    refine Yields.pure ⟨rfl, ?_, ?_, ?_, ?_, ?_⟩
    · show labels.map some = ((labels.map some).filterMap id).map some
      rw [written]
    · exact complete.trans first
    · show ((labels.map some).filterMap id).length = outputs
      rw [written, labelled, lastCounted]
    · intro i field found
      simp only [Sample.fields, written] at found
      rcases Nat.lt_or_ge i fields.length with before | after
      · rw [List.getElem?_append_left before] at found
        exact agrees i field found
      · rw [List.getElem?_append_right after] at found
        have placed := labelsAgree (i - fields.length) field found
        rw [firstCounted, ← complete, Nat.add_sub_of_le after] at placed
        exact placed
    · simp only [withInputs, layers, List.modify_zero_cons, List.tail_cons]
      rw [show neuronvalues = _ from set]
  · rw [firstCounted, first, lastCounted]
    constructor
    · rintro ⟨before, after⟩ i inside
      rcases Nat.lt_or_ge i inputs with early | late
      · exact before i early
      · exact after i late inside
    · intro all
      exact ⟨fun i early => all i (by omega), fun i _ inside => all i inside⟩

/-- A loader makes sound accesses only when the fields fit and can be read. -/
theorem yields_loadRecord_of_checks (strtof : List Char → R) (bound : ℕ)
    {network : TrainingNetwork R} (sampler : Sampler R)
    {label : Buffer (ParsedField R)} {inputs outputs : ℕ}
    (wellFormed : network.WellFormed)
    (first : network.widths.head? = some inputs)
    (last : network.widths.getLast? = some outputs)
    (size : label.length = outputs) :
    Yields (loadRecord strtof stray bound network sampler label)
      (sampler.Fits strtof bound ∧
        ∀ i < inputs + outputs,
          readable (sampler.next strtof bound).trainingsample i)
      (Places network (sampler.next strtof bound) inputs outputs) sound := by
  refine (yields_readSample strtof checks bound sampler).bind
    fun read same => ?_
  subst same
  exact yields_placeSample stray checks _ wellFormed first last size

end Checked

/-- A sample which agrees with all fields in the array. -/
def SampleOf (sampler : Sampler R) (size : ℕ) (sample : Sample R) : Prop :=
  sample.fields.length = size ∧
    ∀ i field, sample.fields[i]? = some field →
      Agrees sampler.trainingsample i field

theorem Places.sampleOf {network : TrainingNetwork R} {sampler : Sampler R}
    {inputs outputs : ℕ} {loaded : Loaded R}
    (places : Places network sampler inputs outputs loaded) :
    SampleOf sampler (inputs + outputs) loaded.sample := by
  refine ⟨?_, places.agrees⟩
  rw [Sample.fields, List.length_append, places.inputs, places.labels]

/-- A field in the array is a field of the sample. -/
theorem SampleOf.mem {sampler : Sampler R} {size i : ℕ} {sample : Sample R}
    {field : ParsedField R} (sampleOf : SampleOf sampler size sample)
    (inside : i < size)
    (found : sampler.trainingsample[i]? = some (some field)) :
    field ∈ sample.fields := by
  have present := List.getElem?_eq_getElem (sampleOf.1.symm ▸ inside)
  rw [← sampleOf.2 i _ present field found]
  exact List.getElem_mem _

/-- When all accesses of a loader are valid. -/
def Sampler.Loadable (strtof : List Char → R) (bound size : ℕ)
    (sampler : Sampler R) : Prop :=
  sampler.Fits strtof bound ∧
    ∀ i < size, Stored (sampler.next strtof bound).trainingsample i

section Complete

variable {strtof : List Char → R} {bound size : ℕ} {sampler : Sampler R}

/-- A line which fills the array is loaded with valid accesses. -/
theorem loadable_of_complete (length : sampler.trainingsample.length = size)
    (complete :
      (LineReader.values strtof bound sampler.reader.fgets).length = size) :
    sampler.Loadable strtof bound size := by
  refine ⟨le_of_eq (complete.trans length.symm), fun i inside => ?_⟩
  have found := List.getElem?_eq_getElem (complete.symm ▸ inside)
  exact ⟨_, next_stored strtof bound sampler (length.symm ▸ inside) found⟩

/-- The sample of a line which fills the array has the fields of the line. -/
theorem SampleOf.fields_eq {sample : Sample R}
    (sampleOf : SampleOf (sampler.next strtof bound) size sample)
    (length : sampler.trainingsample.length = size)
    (complete :
      (LineReader.values strtof bound sampler.reader.fgets).length = size) :
    sample.fields = LineReader.values strtof bound sampler.reader.fgets := by
  apply List.ext_getElem (sampleOf.1.trans complete.symm)
  intro i inSample inValues
  have inside : i < sampler.trainingsample.length := by
    rw [length, ← complete]
    exact inValues
  exact sampleOf.2 i _ (List.getElem?_eq_getElem inSample) _
    (next_stored strtof bound sampler inside (List.getElem?_eq_getElem inValues))

end Complete

theorem yields_loadRecord (strtof : List Char → R) (bound : ℕ)
    {network : TrainingNetwork R} (sampler : Sampler R)
    {label : Buffer (ParsedField R)} {inputs outputs : ℕ}
    (wellFormed : network.WellFormed)
    (first : network.widths.head? = some inputs)
    (last : network.widths.getLast? = some outputs)
    (size : label.length = outputs) :
    Yields (loadRecord strtof stray bound network sampler label)
      (sampler.Loadable strtof bound (inputs + outputs))
      (Places network (sampler.next strtof bound) inputs outputs) :=
  yields_loadRecord_of_checks stray Buffer.checks_valid strtof bound sampler
    wellFormed first last size

end Loading

end FederatedEdge.Dataset
