import FederatedEdge.Client.FeedFoward
import FederatedEdge.Client.Loss
import FederatedEdge.Dataset.RecordLoaders
import FederatedEdge.Library.Path
import FederatedEdge.Library.WrappedSum

/-!
# The training of a client

`NeuralNetworkTraining` opens the data set once for each epoch, reads a record
for each step and makes the step with what the array for the record then holds.
An epoch whose file does not open ends the training.  The counter which goes to
the server is assigned at the regular end only, as the product of two settings.

The run notes the fields of each step, so that steps can be counted and traced
back to the lines of the file.
-/

namespace FederatedEdge.Client

open FederatedEdge.Library
open FederatedEdge.Network
open FederatedEdge.Dataset

variable {R : Type}

/-- The instance of a client: its counter and its network. -/
structure LearningInstance (R : Type) where
  trainingscounter : ℤ
  neuralnetwork : TrainingNetwork R
deriving DecidableEq, Repr

def replaceNeuralNetwork (federatedlearninginstance : LearningInstance R)
    (newneuralnetwork : TrainingNetwork R) : LearningInstance R :=
  { federatedlearninginstance with
    neuralnetwork := newneuralnetwork
    trainingscounter := 0 }

/-- The variables of a training, with the samples of the current epoch. -/
structure TrainingRun (R : Type) where
  neuralnetwork : TrainingNetwork R
  sampler : Sampler R
  label : Buffer (ParsedField R)
  Error : R
  samples : List (Sample R)
deriving DecidableEq, Repr

/-- The instance after a training, with the samples of each epoch. -/
structure Trained (R : Type) where
  federatedlearninginstance : LearningInstance R
  epochs : List (List (Sample R))
deriving DecidableEq, Repr

/--
What the training finds around it: the text of the data set, whether it opens at
the start of a given epoch, and the text in the buffer before the first line.
-/
structure Storage where
  dataset : List Char
  opens : ℕ → Bool
  garbage : List Char

section Program

variable [Field R] [LinearOrder R]
variable (exp log : R → R) (strtof : List Char → R) (stray : ℕ → R)
variable (storage : Storage)

/-- One turn of the loop over the records. -/
def trainRecord (run : TrainingRun R) :
    Traced SampleArray (TrainingRun R) := do
  let loaded ←
    loadTrainingRecord strtof stray run.neuralnetwork run.sampler run.label
  let neuralnetwork ← FeedFoward exp loaded.neuralnetwork
  let label := loaded.sample.labels.map ParsedField.value
  let Error ←
    LossFunctionCalculation log neuralnetwork label
      neuralnetwork.regularization neuralnetwork.lambda
  let (neuralnetwork, _) ←
    BackPropagation stray neuralnetwork.alpha neuralnetwork.regularization
      neuralnetwork.lambda neuralnetwork label []
  pure
    { neuralnetwork := neuralnetwork
      sampler := loaded.sampler
      label := loaded.label
      Error := Error
      samples := run.samples ++ [loaded.sample] }

/-- One epoch, from `fopen` to `fclose`. -/
def trainEpoch (run : TrainingRun R) : Traced SampleArray (TrainingRun R) :=
  countLoop (fun _ run => trainRecord exp log strtof stray run)
    run.neuralnetwork.percentualtraining.toNat
    { run with
      sampler :=
        { run.sampler with
          reader := LineReader.fopen 1024 storage.dataset run.sampler.reader }
      samples := [] }

/--
The epochs from a given one on, with so many left; the result tells whether all
of them were made.
-/
def trainCycles : ℕ → ℕ → TrainingRun R → List (List (Sample R)) →
    Traced SampleArray (Bool × TrainingRun R × List (List (Sample R)))
  | 0, _, run, epochs => pure (true, run, epochs)
  | turns + 1, TrainingCycle, run, epochs =>
      if storage.opens TrainingCycle then do
        let run ← trainEpoch exp log strtof stray storage run
        trainCycles turns (TrainingCycle + 1) run (epochs ++ [run.samples])
      else pure (false, run, epochs)

def NeuralNetworkTraining (federatedlearninginstance : LearningInstance R) :
    Traced SampleArray (Trained R) := do
  let neuralnetwork := federatedlearninginstance.neuralnetwork
  let firstlayer ← Exec.deref neuralnetwork.layervalues.head?
  let lastlayer ← Exec.deref neuralnetwork.layervalues.getLast?
  let (complete, run, epochs) ←
    trainCycles exp log strtof stray storage neuralnetwork.epoch.toNat 0
      { neuralnetwork := neuralnetwork
        sampler :=
          { reader := { rest := [], line := storage.garbage, number := none }
            trainingsample :=
              Buffer.allocate (firstlayer.neurons + lastlayer.neurons).toNat }
        label := Buffer.allocate lastlayer.neurons.toNat
        Error := 0
        samples := [] }
      []
  pure
    { federatedlearninginstance :=
        { trainingscounter :=
            if complete then
              wrappedMul 32 run.neuralnetwork.epoch
                run.neuralnetwork.percentualtraining
            else federatedlearninginstance.trainingscounter
          neuralnetwork := run.neuralnetwork }
      epochs := epochs }

end Program

/-! ## What training leaves alone -/

/-- Networks which differ in their layers at most. -/
def SameSettings (before after : TrainingNetwork R) : Prop :=
  after = { before with layervalues := after.layervalues }

theorem SameSettings.refl (network : TrainingNetwork R) :
    SameSettings network network :=
  rfl

theorem SameSettings.trans {first second third : TrainingNetwork R}
    (left : SameSettings first second) (right : SameSettings second third) :
    SameSettings first third := by
  rw [SameSettings, right, left]

theorem sameSettings_FeedFoward [Field R] [LinearOrder R] {exp : R → R}
    {before after : TrainingNetwork R}
    (finishes : FeedFoward exp before = .ok after) :
    SameSettings before after := by
  simp only [FeedFoward, Exec.bind_eq_ok] at finishes
  rcases finishes with ⟨_, -, finishes⟩
  refine Exec.foldlM_related SameSettings.refl SameSettings.trans ?_ finishes
  intro network layer fed feeds
  simp only [feedLayer, Exec.bind_eq_ok] at feeds
  rcases feeds with ⟨_, -, feeds⟩
  refine Exec.foldlM_related SameSettings.refl SameSettings.trans ?_ feeds
  intro network i set sets
  simp only [feedNeuron, Exec.bind_eq_ok, Except.ok.injEq] at sets
  rcases sets with ⟨_, -, _, -, _, -, _, -, _, -, rfl⟩
  rfl

/-- The widths are a matter of the forms. -/
theorem widths_eq_forms (network : TrainingNetwork R) :
    network.widths = network.forms.map (·.neuronvalues.length) := by
  simp [TrainingNetwork.widths, TrainingNetwork.forms, TrainingLayer.form,
    TrainingLayer.content, LayerContent.form, Function.comp_def]

theorem SameStructure.widths {before after : TrainingNetwork R}
    (same : SameStructure before after) : after.widths = before.widths := by
  rw [widths_eq_forms, widths_eq_forms, same.forms]

/-- A well-formed network with such widths of its first and last layer. -/
structure Trainable (network : TrainingNetwork R) (inputs outputs : ℕ) :
    Prop where
  wellFormed : network.WellFormed
  first : network.widths.head? = some inputs
  last : network.widths.getLast? = some outputs

theorem Trainable.of_sameStructure {before after : TrainingNetwork R}
    {inputs outputs : ℕ} (trainable : Trainable before inputs outputs)
    (same : SameStructure before after) : Trainable after inputs outputs := by
  refine ⟨same.wellFormed trainable.wellFormed, ?_, ?_⟩
  · rw [same.widths]
    exact trainable.first
  · rw [same.widths]
    exact trainable.last

theorem Trainable.nonempty {network : TrainingNetwork R} {inputs outputs : ℕ}
    (trainable : Trainable network inputs outputs) :
    network.layervalues ≠ [] := by
  intro empty
  have first := trainable.first
  rw [TrainingNetwork.widths, empty] at first
  cases first

/-- The outer layers of a network, with the counts which the code reads. -/
structure OuterLayers (network : TrainingNetwork R) (inputs outputs : ℕ)
    (firstlayer lastlayer : TrainingLayer R) : Prop where
  first : network.layervalues.head? = some firstlayer
  last : network.layervalues.getLast? = some lastlayer
  sizes : (firstlayer.neurons + lastlayer.neurons).toNat = inputs + outputs
  labels : lastlayer.neurons.toNat = outputs
  outputs : lastlayer.neuronvalues.length = outputs

theorem Trainable.outerLayers {network : TrainingNetwork R}
    {inputs outputs : ℕ} (trainable : Trainable network inputs outputs) :
    ∃ firstlayer lastlayer,
      OuterLayers network inputs outputs firstlayer lastlayer := by
  rcases trainable.wellFormed.firstlayer trainable.first
    with ⟨firstlayer, isFirst, inputsAre, -⟩
  rcases trainable.wellFormed.lastlayer trainable.last
    with ⟨lastlayer, isLast, outputsAre, length⟩
  refine ⟨firstlayer, lastlayer, isFirst, isLast, ?_, ?_, length⟩
  · rw [inputsAre, outputsAre]
    omega
  · rw [outputsAre, Int.toNat_natCast]

theorem sameStructure_withInputs {network : TrainingNetwork R}
    {inputs : List (ParsedField R)}
    (first : network.widths.head? = some inputs.length) :
    SameStructure network (withInputs network inputs) := by
  refine ⟨rfl, ?_⟩
  rcases layers : network.layervalues with _ | ⟨firstlayer, above⟩
  · rw [TrainingNetwork.widths, layers] at first
    cases first
  · rw [TrainingNetwork.widths, layers, List.map_cons, List.head?_cons,
      Option.some.injEq] at first
    have contents :
        (List.zipWith setInput firstlayer.neuronvalues inputs).map
            (·.toNeuronContent) =
          firstlayer.neuronvalues.map (·.toNeuronContent) := by
      apply List.ext_getElem
      · simp [first]
      · intro i _ _
        simp [setInput]
    rw [TrainingNetwork.forms, TrainingNetwork.forms, withInputs, layers,
      List.modify_zero_cons, List.map_cons, List.map_cons, TrainingLayer.form,
      TrainingLayer.content, contents]
    rfl

/-! ## One step -/

/-- A network with a loaded sample can be fed forward. -/
theorem feeds_loaded [Field R] [LinearOrder R] (exp : R → R)
    {network : TrainingNetwork R} {sampler : Sampler R} {inputs outputs : ℕ}
    {loaded : Loaded R} (trainable : Trainable network inputs outputs)
    (places : Places network sampler inputs outputs loaded) :
    ∃ fed, FeedFoward exp loaded.neuralnetwork = .ok fed ∧
      SameSettings network fed ∧ Trainable fed inputs outputs := by
  have loadedStructure : SameStructure network loaded.neuralnetwork := by
    rw [places.neuralnetwork]
    apply sameStructure_withInputs
    rw [places.inputs]
    exact trainable.first
  have loadedSettings : SameSettings network loaded.neuralnetwork := by
    rw [places.neuralnetwork]
    rfl
  have loadedTrainable := trainable.of_sameStructure loadedStructure
  rcases finishes_FeedFoward exp loadedTrainable.wellFormed
    loadedTrainable.nonempty with ⟨fed, feeds⟩
  exact ⟨fed, feeds, loadedSettings.trans (sameSettings_FeedFoward feeds),
    loadedTrainable.of_sameStructure (sameStructure_FeedFoward feeds)⟩

section Steps

variable [Field R] [LinearOrder R] (exp log : R → R) (strtof : List Char → R)
variable (stray : ℕ → R)

/--
A step on a sample which fits the outer layers: the inputs are fed forward and
the labels are propagated back.
-/
structure SampleStep (before : TrainingNetwork R) (sample : Sample R)
    (after : TrainingNetwork R) : Prop where
  inputs : before.widths.head? = some sample.inputs.length
  labels : before.widths.getLast? = some sample.labels.length
  learns : ∃ fed accesses,
    FeedFoward exp (withInputs before sample.inputs) = .ok fed ∧
      BackPropagation stray fed.alpha fed.regularization fed.lambda fed
          (sample.labels.map ParsedField.value) [] =
        .ok (after, accesses)

/-- What a step keeps, and what the sampler and the samples are after it. -/
structure Steps (inputs outputs : ℕ) (before after : TrainingRun R) :
    Prop where
  settings : SameSettings before.neuralnetwork after.neuralnetwork
  trainable : Trainable after.neuralnetwork inputs outputs
  sampler : after.sampler = before.sampler.next strtof 7
  label : after.label.length = outputs
  samples : ∃ sample, after.samples = before.samples ++ [sample] ∧
    SampleOf after.sampler (inputs + outputs) sample ∧
      SampleStep exp stray before.neuralnetwork sample after.neuralnetwork

theorem yields_trainRecord {run : TrainingRun R} {inputs outputs : ℕ}
    (trainable : Trainable run.neuralnetwork inputs outputs)
    (size : run.label.length = outputs) :
    Yields (trainRecord exp log strtof stray run)
      (run.sampler.Loadable strtof 7 (inputs + outputs))
      (Steps exp strtof stray inputs outputs run) := by
  refine (yields_loadRecord stray strtof 7 run.sampler trainable.wellFormed
    trainable.first trainable.last size).follow fun loaded places => ?_
  rcases feeds_loaded exp trainable places
    with ⟨fed, feeds, fedSettings, fedTrainable⟩
  have labels :
      fed.widths.getLast? =
        some (loaded.sample.labels.map ParsedField.value).length := by
    rw [List.length_map, places.labels]
    exact fedTrainable.last
  rcases finishes_LossFunctionCalculation log fedTrainable.wellFormed labels
    fed.regularization fed.lambda with ⟨loss, reports⟩
  rcases finishes_BackPropagation stray fed.alpha fed.regularization fed.lambda
    fedTrainable.wellFormed labels
    with ⟨trained, accesses, propagates, settings, forms⟩
  refine Yields.seq_eq (Yields.lift feeds) (Yields.seq_eq (Yields.lift reports)
    (Yields.seq_eq (Yields.lift propagates) (Yields.pure ?_)))
  have trainedTrainable : Trainable trained inputs outputs :=
    fedTrainable.of_sameStructure ⟨by rw [settings], forms⟩
  refine ⟨fedSettings.trans settings, trainedTrainable, places.same, ?_,
    loaded.sample, rfl, ?_, ?_, ?_, fed, accesses, ?_, propagates⟩
  · show loaded.label.length = outputs
    rw [places.label, List.length_map, places.labels]
  · show SampleOf loaded.sampler (inputs + outputs) loaded.sample
    rw [places.same]
    exact places.sampleOf
  · rw [places.inputs]
    exact trainable.first
  · rw [places.labels]
    exact trainable.last
  · rw [← places.neuralnetwork]
    exact feeds

end Steps

/-! ## One epoch -/

/-- The sampler after the data set has been opened again. -/
def reopen (dataset : List Char) (sampler : Sampler R) : Sampler R :=
  { sampler with reader := LineReader.fopen 1024 dataset sampler.reader }

/-- The sampler after so many records. -/
def samplerAfter (strtof : List Char → R) (count : ℕ) (sampler : Sampler R) :
    Sampler R :=
  (Sampler.next strtof 7)^[count] sampler

/-- The samples of steps which read one record after the other. -/
def SamplesFrom (strtof : List Char → R) (size : ℕ) (start : Sampler R)
    (samples : List (Sample R)) : Prop :=
  ∀ i sample, samples[i]? = some sample →
    SampleOf (samplerAfter strtof (i + 1) start) size sample

section Epochs

variable [Field R] [LinearOrder R] (exp log : R → R) (strtof : List Char → R)
variable (stray : ℕ → R) (storage : Storage)

/-- A run after so many steps from a given sampler. -/
structure EpochSteps (inputs outputs : ℕ) (before : TrainingNetwork R)
    (start : Sampler R) (count : ℕ) (run : TrainingRun R) : Prop where
  settings : SameSettings before run.neuralnetwork
  trainable : Trainable run.neuralnetwork inputs outputs
  sampler : run.sampler = samplerAfter strtof count start
  label : run.label.length = outputs
  made : run.samples.length = count
  samples : SamplesFrom strtof (inputs + outputs) start run.samples
  path : Path (SampleStep exp stray) before run.samples run.neuralnetwork

variable {exp strtof stray} in
theorem EpochSteps.step {inputs outputs count : ℕ}
    {before : TrainingNetwork R} {start : Sampler R}
    {run after : TrainingRun R}
    (epoch : EpochSteps exp strtof stray inputs outputs before start count run)
    (steps : Steps exp strtof stray inputs outputs run after) :
    EpochSteps exp strtof stray inputs outputs before start (count + 1)
      after := by
  have sampler : after.sampler = samplerAfter strtof (count + 1) start := by
    rw [steps.sampler, epoch.sampler, samplerAfter, samplerAfter,
      Function.iterate_succ_apply']
  rcases steps.samples with ⟨sample, appended, sampleOf, step⟩
  refine ⟨epoch.settings.trans steps.settings, steps.trainable, sampler,
    steps.label, ?_, ?_, ?_⟩
  · rw [appended, List.length_append, List.length_singleton, epoch.made]
  · intro i other found
    rw [appended] at found
    rcases Nat.lt_or_ge i run.samples.length with early | late
    · rw [List.getElem?_append_left early] at found
      exact epoch.samples i other found
    · rw [List.getElem?_append_right late, List.getElem?_singleton] at found
      split_ifs at found with last
      have here : i = count := by
        rw [← epoch.made]
        omega
      rw [← Option.some.inj found, here, ← sampler]
      exact sampleOf
  · rw [appended]
    exact epoch.path.append (.single step)

theorem yields_trainEpoch {run : TrainingRun R} {inputs outputs : ℕ}
    (trainable : Trainable run.neuralnetwork inputs outputs)
    (size : run.label.length = outputs) :
    Yields (trainEpoch exp log strtof stray storage run)
      (∀ count < run.neuralnetwork.percentualtraining.toNat,
        (samplerAfter strtof count
          (reopen storage.dataset run.sampler)).Loadable strtof 7
          (inputs + outputs))
      (EpochSteps exp strtof stray inputs outputs run.neuralnetwork
        (reopen storage.dataset run.sampler)
        run.neuralnetwork.percentualtraining.toNat) := by
  refine Yields.countLoop
    (EpochSteps exp strtof stray inputs outputs run.neuralnetwork
      (reopen storage.dataset run.sampler)) _ ?_ ?_
  · refine ⟨rfl, trainable, rfl, size, rfl, ?_, .nil _⟩
    intro i sample found
    cases found
  · intro count below current epoch
    refine (yields_trainRecord exp log strtof stray epoch.trainable
      epoch.label).mono ?_ fun after steps => epoch.step steps
    rw [epoch.sampler]

/-! ## Several epochs -/

/-- How many epochs are made from a given one on, with so many left. -/
def openedCycles (opens : ℕ → Bool) : ℕ → ℕ → ℕ
  | 0, _ => 0
  | turns + 1, cycle =>
      if opens cycle then openedCycles opens turns (cycle + 1) + 1 else 0

/-- The sampler at the start of an epoch, before the data set is opened. -/
def cycleStart (dataset : List Char) (records cycle : ℕ)
    (sampler : Sampler R) : Sampler R :=
  (fun sampler => samplerAfter strtof records (reopen dataset sampler))^[cycle]
    sampler

/-- All records of so many epochs are loaded with valid accesses. -/
def CyclesLoadable (size : ℕ) (dataset : List Char) (records cycles : ℕ)
    (start : Sampler R) : Prop :=
  ∀ cycle < cycles, ∀ count < records,
    (samplerAfter strtof count
      (reopen dataset
        (cycleStart strtof dataset records cycle start))).Loadable strtof 7 size

/-- The samples of the epochs which are made from a given sampler on. -/
def EpochsFrom (size : ℕ) (dataset : List Char) (records : ℕ)
    (start : Sampler R) (epochs : List (List (Sample R))) : Prop :=
  ∀ cycle samples, epochs[cycle]? = some samples →
    samples.length = records ∧
      SamplesFrom strtof size
        (reopen dataset (cycleStart strtof dataset records cycle start)) samples

/-- What the epochs from a given one on leave. -/
structure CyclesMade (size records cycle turns : ℕ)
    (before : TrainingRun R) (epochs : List (List (Sample R)))
    (result : Bool × TrainingRun R × List (List (Sample R))) : Prop where
  complete :
    result.1 = true ↔ openedCycles storage.opens turns cycle = turns
  settings : SameSettings before.neuralnetwork result.2.1.neuralnetwork
  epochs : ∃ made, result.2.2 = epochs ++ made ∧
    made.length = openedCycles storage.opens turns cycle ∧
      EpochsFrom strtof size storage.dataset records before.sampler made ∧
        Path (SampleStep exp stray) before.neuralnetwork made.flatten
          result.2.1.neuralnetwork

omit [Field R] [LinearOrder R] in
theorem cyclesLoadable_succ_iff (size : ℕ) (dataset : List Char)
    (records cycles : ℕ) (start : Sampler R) :
    CyclesLoadable strtof size dataset records (cycles + 1) start ↔
      (∀ count < records,
        (samplerAfter strtof count (reopen dataset start)).Loadable strtof 7
          size) ∧
        CyclesLoadable strtof size dataset records cycles
          (samplerAfter strtof records (reopen dataset start)) := by
  constructor
  · intro all
    refine ⟨fun count below => all 0 (by omega) count below, ?_⟩
    intro cycle inside count below
    exact all (cycle + 1) (by omega) count below
  · rintro ⟨first, rest⟩ cycle inside count below
    cases cycle with
    | zero => exact first count below
    | succ cycle => exact rest cycle (by omega) count below

omit [Field R] [LinearOrder R] in
/-- The samples of one more epoch, made before the others. -/
theorem EpochsFrom.cons {size records : ℕ} {dataset : List Char}
    {start : Sampler R} {samples : List (Sample R)}
    {epochs : List (List (Sample R))} (made : samples.length = records)
    (first : SamplesFrom strtof size (reopen dataset start) samples)
    (rest : EpochsFrom strtof size dataset records
      (samplerAfter strtof records (reopen dataset start)) epochs) :
    EpochsFrom strtof size dataset records start (samples :: epochs) := by
  intro cycle others found
  cases cycle with
  | zero =>
      cases found
      exact ⟨made, first⟩
  | succ cycle => exact rest cycle others found

/-- Ending without another epoch. -/
theorem yields_noCycle {size records turns cycle : ℕ} (run : TrainingRun R)
    (epochs : List (List (Sample R))) {complete : Bool}
    (ends : complete = true ↔ openedCycles storage.opens turns cycle = turns)
    (noCycle : openedCycles storage.opens turns cycle = 0) :
    Yields
      (pure (complete, run, epochs) :
        Traced SampleArray (Bool × TrainingRun R × List (List (Sample R))))
      (CyclesLoadable strtof size storage.dataset records
        (openedCycles storage.opens turns cycle) run.sampler)
      (CyclesMade exp strtof stray storage size records cycle turns run epochs) := by
  refine Yields.congr_valid
    (Yields.pure ⟨ends, rfl, [], ?_, ?_, ?_, .nil _⟩) ?_
  · rw [List.append_nil]
  · rw [noCycle, List.length_nil]
  · intro later samples found
    cases found
  · rw [noCycle]
    simp [CyclesLoadable]

theorem yields_trainCycles {inputs outputs records turns cycle : ℕ}
    {run : TrainingRun R} (epochs : List (List (Sample R)))
    (trainable : Trainable run.neuralnetwork inputs outputs)
    (size : run.label.length = outputs)
    (percentual : run.neuralnetwork.percentualtraining.toNat = records) :
    Yields (trainCycles exp log strtof stray storage turns cycle run epochs)
      (CyclesLoadable strtof (inputs + outputs) storage.dataset records
        (openedCycles storage.opens turns cycle) run.sampler)
      (CyclesMade exp strtof stray storage (inputs + outputs) records cycle turns run
        epochs) := by
  induction turns generalizing cycle run epochs with
  | zero =>
      exact yields_noCycle exp strtof stray storage run epochs (by simp [openedCycles])
        rfl
  | succ turns inductionHypothesis =>
      rw [trainCycles]
      by_cases opens : storage.opens cycle = true
      · have more :
            openedCycles storage.opens (turns + 1) cycle =
              openedCycles storage.opens turns (cycle + 1) + 1 :=
          if_pos opens
        have first :=
          yields_trainEpoch exp log strtof stray storage trainable size
        rw [percentual] at first
        rw [if_pos opens, more, cyclesLoadable_succ_iff]
        refine first.bind fun after epoch => ?_
        have kept : after.neuralnetwork.percentualtraining.toNat = records := by
          rw [epoch.settings]
          exact percentual
        rw [← epoch.sampler]
        refine (inductionHypothesis (epochs ++ [after.samples]) epoch.trainable
          epoch.label kept).mono Iff.rfl fun result made => ⟨?_, ?_, ?_⟩
        · rw [made.complete, more]
          omega
        · exact epoch.settings.trans made.settings
        · rcases made.epochs with ⟨later, appended, count, samples, path⟩
          refine ⟨after.samples :: later, ?_, ?_, ?_, epoch.path.append path⟩
          · rw [appended, List.append_assoc, List.singleton_append]
          · rw [List.length_cons, count, more]
          · apply EpochsFrom.cons strtof epoch.made epoch.samples
            rw [← epoch.sampler]
            exact samples
      · rw [if_neg opens]
        exact yields_noCycle exp strtof stray storage run epochs
          (by simp [openedCycles, opens]) (by simp [openedCycles, opens])

/-! ## A whole training -/

omit [Field R] [LinearOrder R] in
/-- The sampler before the first epoch. -/
def startSampler (size : ℕ) : Sampler R where
  reader := { rest := [], line := storage.garbage, number := none }
  trainingsample := Buffer.allocate size

/-- What a training leaves, by steps on all samples one after the other. -/
structure TrainingDone (size : ℕ)
    (federatedlearninginstance : LearningInstance R) (trained : Trained R) :
    Prop where
  count :
    trained.epochs.length =
      openedCycles storage.opens
        federatedlearninginstance.neuralnetwork.epoch.toNat 0
  epochs :
    EpochsFrom strtof size storage.dataset
      federatedlearninginstance.neuralnetwork.percentualtraining.toNat
      (startSampler storage size) trained.epochs
  path :
    Path (SampleStep exp stray) federatedlearninginstance.neuralnetwork
      trained.epochs.flatten trained.federatedlearninginstance.neuralnetwork
  complete :
    openedCycles storage.opens
          federatedlearninginstance.neuralnetwork.epoch.toNat 0 =
        federatedlearninginstance.neuralnetwork.epoch.toNat →
      trained.federatedlearninginstance.trainingscounter =
        wrappedMul 32 federatedlearninginstance.neuralnetwork.epoch
          federatedlearninginstance.neuralnetwork.percentualtraining
  incomplete :
    openedCycles storage.opens
          federatedlearninginstance.neuralnetwork.epoch.toNat 0 ≠
        federatedlearninginstance.neuralnetwork.epoch.toNat →
      trained.federatedlearninginstance.trainingscounter =
        federatedlearninginstance.trainingscounter

theorem yields_NeuralNetworkTraining
    {federatedlearninginstance : LearningInstance R} {inputs outputs : ℕ}
    (trainable :
      Trainable federatedlearninginstance.neuralnetwork inputs outputs) :
    Yields
      (NeuralNetworkTraining exp log strtof stray storage
        federatedlearninginstance)
      (CyclesLoadable strtof (inputs + outputs) storage.dataset
        federatedlearninginstance.neuralnetwork.percentualtraining.toNat
        (openedCycles storage.opens
          federatedlearninginstance.neuralnetwork.epoch.toNat 0)
        (startSampler storage (inputs + outputs)))
      (TrainingDone exp strtof stray storage (inputs + outputs)
        federatedlearninginstance) := by
  rcases trainable.outerLayers with ⟨firstlayer, lastlayer, outer⟩
  rw [NeuralNetworkTraining]
  refine Yields.seq_eq (Yields.lift (by rw [outer.first]; rfl))
    (Yields.seq_eq (Yields.lift (by rw [outer.last]; rfl)) ?_)
  rw [outer.sizes, outer.labels]
  refine (yields_trainCycles exp log strtof stray storage [] trainable
    List.length_replicate rfl).follow ?_
  rintro ⟨complete, run, epochs⟩ made
  rcases made.epochs with ⟨samples, rfl, count, epochsFrom, path⟩
  have settings : SameSettings _ run.neuralnetwork := made.settings
  refine Yields.pure ⟨count, epochsFrom, path, ?_, ?_⟩
  · intro all
    have ended : complete = true := made.complete.mpr all
    simp only [ended, if_true]
    rw [settings]
  · intro stopped
    have ended : ¬ complete = true := mt made.complete.mp stopped
    simp only [ended]
    rfl

/-- A training makes as many steps as it opens the file, times the records. -/
theorem TrainingDone.steps {size : ℕ}
    {federatedlearninginstance : LearningInstance R} {trained : Trained R}
    (done : TrainingDone exp strtof stray storage size federatedlearninginstance trained) :
    trained.epochs.flatten.length =
      openedCycles storage.opens
          federatedlearninginstance.neuralnetwork.epoch.toNat 0 *
        federatedlearninginstance.neuralnetwork.percentualtraining.toNat := by
  have lengths :
      trained.epochs.map List.length =
        List.replicate trained.epochs.length
          federatedlearninginstance.neuralnetwork.percentualtraining.toNat := by
    rw [List.eq_replicate_iff]
    refine ⟨List.length_map _, fun length member => ?_⟩
    rcases List.mem_map.mp member with ⟨samples, among, rfl⟩
    rcases List.getElem?_of_mem among with ⟨cycle, found⟩
    exact (done.epochs cycle samples found).1
  rw [List.length_flatten, lengths, List.sum_replicate, done.count, smul_eq_mul]

end Epochs

/-! ## The counter -/

/-- All epochs are made when the file opens each time. -/
theorem openedCycles_eq_iff (opens : ℕ → Bool) (turns cycle : ℕ) :
    openedCycles opens turns cycle = turns ↔
      ∀ later < turns, opens (cycle + later) = true := by
  induction turns generalizing cycle with
  | zero => simp [openedCycles]
  | succ turns inductionHypothesis =>
      rw [openedCycles]
      split_ifs with now
      · rw [Nat.add_right_cancel_iff, inductionHypothesis]
        constructor
        · intro all later below
          cases later with
          | zero => exact now
          | succ later =>
              have opened := all later (by omega)
              rw [show cycle + (later + 1) = cycle + 1 + later by omega]
              exact opened
        · intro all later below
          have opened := all (later + 1) (by omega)
          rw [show cycle + (later + 1) = cycle + 1 + later by omega] at opened
          exact opened
      · constructor
        · intro impossible
          exact impossible.elim
        · intro all
          exact absurd (all 0 (by omega)) now

theorem openedCycles_eq_zero_iff (opens : ℕ → Bool) (turns cycle : ℕ) :
    openedCycles opens turns cycle = 0 ↔ turns = 0 ∨ opens cycle = false := by
  cases turns with
  | zero => simp [openedCycles]
  | succ turns =>
      rw [openedCycles]
      split_ifs with now
      · simp [now]
      · simp [now]

/--
When the counter is the number of steps: the file opens for each epoch and the
product is in range, or there is no step before the file does not open.
-/
def CountsSteps (opens : ℕ → Bool) (epoch percentualtraining : ℤ) : Prop :=
  if ∀ cycle < epoch.toNat, opens cycle = true then
    if 0 < epoch ∧ 0 < percentualtraining then
      epoch * percentualtraining < 2 ^ 31
    else (2 ^ 32 : ℤ) ∣ epoch * percentualtraining
  else opens 0 = false ∨ percentualtraining ≤ 0

instance (opens : ℕ → Bool) (epoch percentualtraining : ℤ) :
    Decidable (CountsSteps opens epoch percentualtraining) := by
  unfold CountsSteps
  infer_instance

/-- A 32-bit product and the number of steps which were made. -/
theorem wrappedMul_eq_steps_iff (epoch percentualtraining : ℤ) :
    wrappedMul 32 epoch percentualtraining =
        ((epoch.toNat * percentualtraining.toNat : ℕ) : ℤ) ↔
      if 0 < epoch ∧ 0 < percentualtraining then
        epoch * percentualtraining < 2 ^ 31
      else (2 ^ 32 : ℤ) ∣ epoch * percentualtraining := by
  split_ifs with positive
  · have product : 0 < epoch * percentualtraining :=
      mul_pos positive.1 positive.2
    rw [Nat.cast_mul, Int.toNat_of_nonneg positive.1.le,
      Int.toNat_of_nonneg positive.2.le, wrappedMul_eq_iff (by decide), Fits]
    constructor
    · intro fits
      exact fits.2
    · intro small
      exact ⟨by omega, small⟩
  · have noStep : epoch.toNat * percentualtraining.toNat = 0 := by
      rw [Nat.mul_eq_zero]
      omega
    rw [noStep, Nat.cast_zero, wrappedMul_eq_zero_iff]

/--
A training after a download makes one step for each sample.  The counter is the
number of steps exactly when the file opens for all epochs and the product does
not wrap, or no step is made.
-/
theorem trainingscounter_eq_steps_iff [Field R] [LinearOrder R]
    (exp log : R → R) (strtof : List Char → R) (stray : ℕ → R)
    (storage : Storage) (federatedlearninginstance : LearningInstance R)
    {downloaded : TrainingNetwork R} {inputs outputs : ℕ}
    (trainable : Trainable downloaded inputs outputs) :
    ∃ trained accesses,
      NeuralNetworkTraining exp log strtof stray storage
          (replaceNeuralNetwork federatedlearninginstance downloaded) [] =
          .ok (trained, accesses) ∧
        Path (SampleStep exp stray) downloaded trained.epochs.flatten
          trained.federatedlearninginstance.neuralnetwork ∧
          (trained.federatedlearninginstance.trainingscounter =
              (trained.epochs.flatten.length : ℤ) ↔
            CountsSteps storage.opens downloaded.epoch
              downloaded.percentualtraining) := by
  have training :
      Yields
        (NeuralNetworkTraining exp log strtof stray storage
          (replaceNeuralNetwork federatedlearninginstance downloaded)) _ _ :=
    yields_NeuralNetworkTraining exp log strtof stray storage trainable
  rcases training [] with ⟨trained, accesses, runs, -, done⟩
  refine ⟨trained, accesses, runs, done.path, ?_⟩
  have opened := openedCycles_eq_iff storage.opens downloaded.epoch.toNat 0
  have steps :
      trained.epochs.flatten.length =
        openedCycles storage.opens downloaded.epoch.toNat 0 *
          downloaded.percentualtraining.toNat := done.steps
  simp only [Nat.zero_add] at opened
  rw [steps, CountsSteps]
  by_cases all : ∀ cycle < downloaded.epoch.toNat, storage.opens cycle = true
  · have counter := done.complete (opened.mpr all)
    rw [if_pos all, counter, opened.mpr all]
    exact wrappedMul_eq_steps_iff _ _
  · have stopped := mt opened.mp all
    have counter :
        trained.federatedlearninginstance.trainingscounter = 0 :=
      done.incomplete stopped
    have started : downloaded.epoch.toNat ≠ 0 := by
      intro noEpoch
      apply stopped
      rw [noEpoch]
      rfl
    rw [if_neg all, counter, eq_comm, Nat.cast_eq_zero, Nat.mul_eq_zero,
      openedCycles_eq_zero_iff, or_iff_right started, Int.toNat_eq_zero]

/-- One neuron in each layer, two epochs of one record. -/
def twoEpochsNetwork : TrainingNetwork ℚ :=
  { onesNetwork 1 1 with epoch := 2 }

theorem trainable_twoEpochsNetwork : Trainable twoEpochsNetwork 1 1 where
  wellFormed :=
    ⟨rfl, (wellFormed_onesNetwork 1 1).neurons,
      (wellFormed_onesNetwork 1 1).connected⟩
  first := rfl
  last := rfl

/-- A data set of one record, which opens for the first epoch only. -/
def unreliableStorage : Storage where
  dataset := "1,2,3\n".toList
  opens := fun cycle => cycle = 0
  garbage := []

theorem trainingscounter_eq_steps_iff_sample :
    ∃ trained accesses,
      NeuralNetworkTraining (fun x => 1 + x * x) id (strtof id) (fun _ => 0)
          unreliableStorage
          (replaceNeuralNetwork ⟨7, onesNetwork 1 1⟩ twoEpochsNetwork) [] =
          .ok (trained, accesses) ∧
        Path (SampleStep (fun x => 1 + x * x) fun _ => 0) twoEpochsNetwork
          trained.epochs.flatten
          trained.federatedlearninginstance.neuralnetwork ∧
          (trained.federatedlearninginstance.trainingscounter =
              (trained.epochs.flatten.length : ℤ) ↔
            CountsSteps unreliableStorage.opens twoEpochsNetwork.epoch
              twoEpochsNetwork.percentualtraining) :=
  trainingscounter_eq_steps_iff (fun x => 1 + x * x) id (strtof id)
    (fun _ => 0) unreliableStorage ⟨7, onesNetwork 1 1⟩
    trainable_twoEpochsNetwork

/-- One step is made, and the counter stays zero. -/
theorem step_is_not_counted :
    ∃ trained accesses,
      NeuralNetworkTraining (fun x => 1 + x * x) id (strtof id) (fun _ => 0)
          unreliableStorage
          (replaceNeuralNetwork ⟨7, onesNetwork 1 1⟩ twoEpochsNetwork) [] =
          .ok (trained, accesses) ∧
        Path (SampleStep (fun x => 1 + x * x) fun _ => 0) twoEpochsNetwork
          trained.epochs.flatten
          trained.federatedlearninginstance.neuralnetwork ∧
          trained.federatedlearninginstance.trainingscounter = 0 ∧
            trained.epochs.flatten.length = 1 := by
  have training :
      Yields
        (NeuralNetworkTraining (fun x => 1 + x * x) id (strtof id) (fun _ => 0)
          unreliableStorage
          (replaceNeuralNetwork ⟨7, onesNetwork 1 1⟩ twoEpochsNetwork)) _ _ :=
    yields_NeuralNetworkTraining _ id (strtof id) _ unreliableStorage
      trainable_twoEpochsNetwork
  rcases training [] with ⟨trained, accesses, runs, -, done⟩
  exact ⟨trained, accesses, runs, done.path, done.incomplete (by decide),
    done.steps⟩

end FederatedEdge.Client
