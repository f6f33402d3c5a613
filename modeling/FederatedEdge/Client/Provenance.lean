import FederatedEdge.Client.NeuralNetworkTraining

/-!
# Where the values of a training step come from

The loop over the records neither looks at the result of `fgets` nor at the
number of fields in a line.  At the end of the file, `strtok` finds the first
token of the last line again and no further field, so that the step repeats the
last sample; a short line leaves fields of an earlier line in the array.

Every step uses the fields of one line, and no line twice in an epoch, exactly
when the file has a complete line for each step.
-/

namespace FederatedEdge.Client

open FederatedEdge.Library
open FederatedEdge.Dataset

variable {R : Type}

/-! ## The lines of the samples -/

/-- All fields of a sample are from one line of the file. -/
def FromOneLine (sample : Sample R) : Prop :=
  ∃ line, ∀ field ∈ sample.fields, field.line = some line

/-- No line has a field in both samples. -/
def NoCommonLine (first second : Sample R) : Prop :=
  ∀ field ∈ first.fields, ∀ other ∈ second.fields, ∀ line,
    field.line = some line → other.line ≠ some line

/-- The records which the programs read from a file. -/
def fileRecords (dataset : List Char) : List (ℕ × List Char) :=
  numberLines 0 (buffers 1024 dataset)

/-- The fields of a record after the first one. -/
def recordFields (buffer : List Char) : List (List Char) :=
  (strtok (cString buffer)).drop 1

/--
The file has a record for each of so many steps, each from a line of its own and
with as many fields among the first seven as the array has elements.
-/
structure RecordsFit (dataset : List Char) (size records : ℕ) : Prop where
  enough : records ≤ (fileRecords dataset).length
  distinct : (((fileRecords dataset).take records).map Prod.fst).Nodup
  complete : ∀ record ∈ (fileRecords dataset).take records,
    ((recordFields record.2).take 7).length = size

/-! ## The fields of one step -/

section Step

variable (strtof : List Char → R)

/-- The fields which the loop stores for record `count`. -/
def storedFields (start : Sampler R) (count : ℕ) : List (ParsedField R) :=
  LineReader.values strtof 7 (samplerAfter strtof count start).reader.fgets

theorem samplerAfter_succ (count : ℕ) (start : Sampler R) :
    samplerAfter strtof (count + 1) start =
      (samplerAfter strtof count start).next strtof 7 := by
  rw [samplerAfter, Function.iterate_succ_apply', samplerAfter]

theorem reader_samplerAfter (count : ℕ) (start : Sampler R) :
    (samplerAfter strtof count start).reader =
      LineReader.turn^[count] start.reader := by
  induction count with
  | zero => rfl
  | succ count inductionHypothesis =>
      rw [samplerAfter_succ, Function.iterate_succ_apply',
        ← inductionHypothesis]
      rfl

theorem length_samplerAfter (count : ℕ) (start : Sampler R) :
    (samplerAfter strtof count start).trainingsample.length =
      start.trainingsample.length := by
  induction count with
  | zero => rfl
  | succ count inductionHypothesis =>
      rw [samplerAfter_succ, length_next, inductionHypothesis]

/-- What is stored of a record. -/
theorem storedFields_of_record {dataset : List Char} {start : Sampler R}
    {count : ℕ} {record : ℕ × List Char}
    (fresh : start.reader.rest = fileRecords dataset)
    (found : (fileRecords dataset)[count]? = some record) :
    storedFields strtof start count =
      ((recordFields record.2).take 7).map fun token =>
        ⟨strtof token, some record.1⟩ := by
  rw [← fresh] at found
  rw [storedFields, reader_samplerAfter,
    LineReader.fgets_iterate_turn _ found]
  rfl

/-- The stored fields of a record are from its line. -/
theorem line_storedFields {dataset : List Char} {start : Sampler R}
    {count : ℕ} {record : ℕ × List Char}
    (fresh : start.reader.rest = fileRecords dataset)
    (found : (fileRecords dataset)[count]? = some record) :
    ∀ field ∈ storedFields strtof start count, field.line = some record.1 := by
  intro field member
  rw [storedFields_of_record strtof fresh found] at member
  rcases List.mem_map.mp member with ⟨token, _, rfl⟩
  rfl

/-- Without a record, what is stored is from the buffer as it was. -/
theorem storedFields_of_empty {start : Sampler R}
    (empty : start.reader.rest = []) :
    ∀ field ∈ storedFields strtof start 0, field.line = start.reader.number := by
  intro field member
  have same : start.reader.fgets = start.reader := by
    rw [LineReader.fgets, empty]
  rw [storedFields, samplerAfter, Function.iterate_zero_apply,
    LineReader.values, same] at member
  rcases List.mem_map.mp member with ⟨token, _, rfl⟩
  rfl

/-- After the last record nothing is stored. -/
theorem storedFields_of_ended {dataset : List Char} {start : Sampler R}
    {count : ℕ} (fresh : start.reader.rest = fileRecords dataset)
    (ended : (fileRecords dataset).length ≤ count) (later : 0 < count) :
    storedFields strtof start count = [] := by
  rw [← fresh] at ended
  rw [storedFields, reader_samplerAfter, LineReader.values,
    LineReader.fields_iterate_turn _ ended later]
  rfl

/-! ## Complete records -/

section Complete

variable {strtof} {size count : ℕ} {start : Sampler R}

theorem loadable_samplerAfter (length : start.trainingsample.length = size)
    (complete : (storedFields strtof start count).length = size) :
    (samplerAfter strtof count start).Loadable strtof 7 size :=
  loadable_of_complete ((length_samplerAfter strtof count start).trans length)
    complete

/-- The step after a complete record uses its fields. -/
theorem fields_eq_storedFields {sample : Sample R}
    (length : start.trainingsample.length = size)
    (complete : (storedFields strtof start count).length = size)
    (sampleOf : SampleOf (samplerAfter strtof (count + 1) start) size sample) :
    sample.fields = storedFields strtof start count := by
  rw [samplerAfter_succ] at sampleOf
  exact sampleOf.fields_eq
    ((length_samplerAfter strtof count start).trans length) complete

/-- Behind the stored fields the array is as it was. -/
theorem samplerAfter_kept {i : ℕ}
    (behind : (storedFields strtof start count).length ≤ i) :
    (samplerAfter strtof (count + 1) start).trainingsample[i]? =
      (samplerAfter strtof count start).trainingsample[i]? := by
  rw [samplerAfter_succ]
  exact next_kept strtof 7 _ behind

end Complete

/-! ## Files with a complete record for each step -/

section Fits

variable {strtof} {dataset : List Char} {size records : ℕ} {start : Sampler R}

variable (strtof) in
/-- The record of a step, and what is stored of it. -/
theorem RecordsFit.record (fit : RecordsFit dataset size records)
    (fresh : start.reader.rest = fileRecords dataset) {count : ℕ}
    (below : count < records) :
    ∃ record,
      (fileRecords dataset)[count]? = some record ∧
        (storedFields strtof start count).length = size := by
  have found :=
    List.getElem?_eq_getElem (below.trans_le fit.enough)
  refine ⟨_, found, ?_⟩
  rw [storedFields_of_record strtof fresh found, List.length_map]
  apply fit.complete
  rw [List.mem_iff_getElem?]
  refine ⟨count, ?_⟩
  rw [List.getElem?_take_of_lt below, found]

/-- The fields of the sample of a step are from the line of its record. -/
theorem RecordsFit.line (fit : RecordsFit dataset size records)
    (fresh : start.reader.rest = fileRecords dataset)
    (length : start.trainingsample.length = size)
    {samples : List (Sample R)} (made : samples.length = records)
    (samplesFrom : SamplesFrom strtof size start samples) {count : ℕ}
    {sample : Sample R} (found : samples[count]? = some sample) :
    ∃ number,
      (((fileRecords dataset).take records).map Prod.fst)[count]? =
          some number ∧
        ∀ field ∈ sample.fields, field.line = some number := by
  have below : count < records := by
    rw [← made]
    exact (List.getElem?_eq_some_iff.mp found).1
  rcases fit.record strtof fresh below with ⟨record, isRecord, complete⟩
  refine ⟨record.1, ?_, ?_⟩
  · rw [List.getElem?_map, List.getElem?_take_of_lt below, isRecord]
    rfl
  · rw [fields_eq_storedFields length complete (samplesFrom count sample found)]
    exact line_storedFields strtof fresh isRecord

/-- With such a file, every step of an epoch has a line of its own. -/
theorem RecordsFit.samples (fit : RecordsFit dataset size records)
    (fresh : start.reader.rest = fileRecords dataset)
    (length : start.trainingsample.length = size)
    {samples : List (Sample R)} (made : samples.length = records)
    (samplesFrom : SamplesFrom strtof size start samples) :
    (∀ sample ∈ samples, FromOneLine sample) ∧
      samples.Pairwise NoCommonLine := by
  constructor
  · intro sample member
    rcases List.getElem?_of_mem member with ⟨count, found⟩
    rcases fit.line fresh length made samplesFrom found with ⟨number, -, lines⟩
    exact ⟨number, lines⟩
  · rw [List.pairwise_iff_getElem]
    intro i j iInside jInside earlier
    rcases fit.line fresh length made samplesFrom
      (List.getElem?_eq_getElem iInside) with ⟨first, firstAt, firstLines⟩
    rcases fit.line fresh length made samplesFrom
      (List.getElem?_eq_getElem jInside) with ⟨second, secondAt, secondLines⟩
    intro field member other otherMember line fieldLine otherLine
    rw [firstLines field member, Option.some.injEq] at fieldLine
    rw [secondLines other otherMember, Option.some.injEq] at otherLine
    rw [fieldLine] at firstAt
    rw [otherLine] at secondAt
    exact List.nodup_iff_getElem?_ne_getElem?.mp fit.distinct i j earlier
      (List.getElem?_eq_some_iff.mp secondAt).1 (firstAt.trans secondAt.symm)

end Fits

/-! ## Samples with a line for each step -/

section Samples

variable {strtof} {dataset : List Char} {size records : ℕ} {start : Sampler R}
variable {samples : List (Sample R)}

/--
A step which stores less than a sample uses a field which was not there before,
or which the step before used.
-/
theorem storedFields_complete
    (unwritten : start.trainingsample = Buffer.allocate size)
    (made : samples.length = records)
    (samplesFrom : SamplesFrom strtof size start samples)
    (loadable : ∀ count < records,
      (samplerAfter strtof count start).Loadable strtof 7 size)
    (oneLine : ∀ sample ∈ samples, FromOneLine sample)
    (noCommon : samples.Pairwise NoCommonLine) {count : ℕ}
    (below : count < records) :
    (storedFields strtof start count).length = size := by
  have fits := (loadable count below).1
  have length := length_samplerAfter strtof count start
  rw [unwritten, Buffer.allocate, List.length_replicate] at length
  rw [Sampler.Fits, length] at fits
  by_contra incomplete
  have short : (storedFields strtof start count).length < size :=
    lt_of_le_of_ne fits incomplete
  rcases (loadable count below).2 _ short with ⟨field, found⟩
  rw [← samplerAfter_succ] at found
  have kept := found
  rw [samplerAfter_kept (le_refl _)] at kept
  cases count with
  | zero =>
      rw [samplerAfter, Function.iterate_zero_apply, unwritten, Buffer.allocate,
        List.getElem?_replicate_of_lt short] at kept
      cases kept
  | succ count =>
      have inside : count + 1 < samples.length := made.symm ▸ below
      have before :=
        samplesFrom count _ (List.getElem?_eq_getElem (Nat.lt_of_succ_lt inside))
      have now := samplesFrom (count + 1) _ (List.getElem?_eq_getElem inside)
      rcases oneLine samples[count] (List.getElem_mem _) with ⟨line, lines⟩
      have fieldLine := lines field (before.mem short kept)
      exact List.pairwise_iff_getElem.mp noCommon count (count + 1) _ inside
        (Nat.lt_succ_self count) field (before.mem short kept) field
        (now.mem short found) line fieldLine fieldLine

/-- Samples with lines of their own are only made from such a file. -/
theorem recordsFit_of_samples
    (fresh : start.reader.rest = fileRecords dataset)
    (noLine : start.reader.number = none)
    (unwritten : start.trainingsample = Buffer.allocate size)
    (positive : 0 < size) (made : samples.length = records)
    (samplesFrom : SamplesFrom strtof size start samples)
    (loadable : ∀ count < records,
      (samplerAfter strtof count start).Loadable strtof 7 size)
    (oneLine : ∀ sample ∈ samples, FromOneLine sample)
    (noCommon : samples.Pairwise NoCommonLine) :
    RecordsFit dataset size records := by
  have length : start.trainingsample.length = size := by
    rw [unwritten, Buffer.allocate, List.length_replicate]
  have complete : ∀ count < records,
      (storedFields strtof start count).length = size := fun count below =>
    storedFields_complete unwritten made samplesFrom loadable oneLine noCommon
      below
  have uses : ∀ count (inside : count < samples.length),
      samples[count].fields = storedFields strtof start count := by
    intro count inside
    exact fields_eq_storedFields length (complete count (made ▸ inside))
      (samplesFrom count _ (List.getElem?_eq_getElem inside))
  have someField : ∀ count < records,
      ∃ field, field ∈ storedFields strtof start count := by
    intro count below
    apply List.exists_mem_of_length_pos
    rw [complete count below]
    exact positive
  have enough : records ≤ (fileRecords dataset).length := by
    by_contra few
    have below : (fileRecords dataset).length < records := not_le.mp few
    rcases someField _ below with ⟨field, member⟩
    rcases Nat.eq_zero_or_pos (fileRecords dataset).length with empty | later
    · rw [empty] at below member
      have inside : 0 < samples.length := made.symm ▸ below
      rcases oneLine samples[0] (List.getElem_mem inside) with ⟨line, lines⟩
      rw [uses 0 inside] at lines
      have noNumber :=
        storedFields_of_empty strtof
          (fresh.trans (List.length_eq_zero_iff.mp empty)) field member
      rw [lines field member, noLine] at noNumber
      cases noNumber
    · rw [storedFields_of_ended strtof fresh (le_refl _) later] at member
      cases member
  refine ⟨enough, ?_, ?_⟩
  · rw [List.nodup_iff_getElem?_ne_getElem?]
    intro i j earlier jInside same
    rw [List.length_map, List.length_take] at jInside
    have jBelow : j < records := by omega
    have iBelow : i < records := by omega
    have iRecord := List.getElem?_eq_getElem (iBelow.trans_le enough)
    have jRecord := List.getElem?_eq_getElem (jBelow.trans_le enough)
    rw [List.getElem?_map, List.getElem?_map, List.getElem?_take_of_lt iBelow,
      List.getElem?_take_of_lt jBelow, iRecord, jRecord, Option.map_some,
      Option.map_some, Option.some.injEq] at same
    rcases someField i iBelow with ⟨field, member⟩
    rcases someField j jBelow with ⟨other, otherMember⟩
    have fieldLine := line_storedFields strtof fresh iRecord field member
    have otherLine := line_storedFields strtof fresh jRecord other otherMember
    rw [← same] at otherLine
    have iInside : i < samples.length := made.symm ▸ iBelow
    have jInside : j < samples.length := made.symm ▸ jBelow
    rw [← uses i iInside] at member
    rw [← uses j jInside] at otherMember
    exact List.pairwise_iff_getElem.mp noCommon i j iInside jInside earlier
      field member other otherMember _ fieldLine otherLine
  · intro record among
    rcases List.getElem?_of_mem among with ⟨count, found⟩
    have below : count < records := by
      have inside := (List.getElem?_eq_some_iff.mp found).1
      rw [List.length_take] at inside
      omega
    rw [List.getElem?_take_of_lt below] at found
    have length := complete count below
    rw [storedFields_of_record strtof fresh found, List.length_map] at length
    exact length

end Samples

end Step

/-! ## A whole training -/

/-- The training makes no step. -/
def NoStep (opens : ℕ → Bool) (epoch percentualtraining : ℤ) : Prop :=
  epoch ≤ 0 ∨ percentualtraining ≤ 0 ∨ opens 0 = false

theorem noStep_iff (opens : ℕ → Bool) (epoch percentualtraining : ℤ) :
    NoStep opens epoch percentualtraining ↔
      openedCycles opens epoch.toNat 0 = 0 ∨ percentualtraining.toNat = 0 := by
  rw [NoStep, openedCycles_eq_zero_iff, Int.toNat_eq_zero, Int.toNat_eq_zero]
  constructor
  · rintro (noEpoch | noRecord | closed)
    · exact Or.inl (Or.inl noEpoch)
    · exact Or.inr noRecord
    · exact Or.inl (Or.inr closed)
  · rintro ((noEpoch | closed) | noRecord)
    · exact Or.inl noEpoch
    · exact Or.inr (Or.inr closed)
    · exact Or.inr (Or.inl noRecord)

/-- Every step uses the fields of one line, and no line is used twice. -/
def OwnLines (epochs : List (List (Sample R))) : Prop :=
  ∀ samples ∈ epochs,
    (∀ sample ∈ samples, FromOneLine sample) ∧ samples.Pairwise NoCommonLine

section Training

variable {strtof : List Char → R} {size records cycles : ℕ} {storage : Storage}

theorem length_cycleStart (dataset : List Char) (records cycle : ℕ)
    (start : Sampler R) :
    (cycleStart strtof dataset records cycle start).trainingsample.length =
      start.trainingsample.length := by
  induction cycle with
  | zero => rfl
  | succ cycle inductionHypothesis =>
      rw [cycleStart, Function.iterate_succ_apply', length_samplerAfter]
      exact inductionHypothesis

/-- Without a step there are no accesses and no samples to look at. -/
theorem ownLines_of_noStep {epochs : List (List (Sample R))}
    (noStep : epochs.length = 0 ∨ records = 0) {start : Sampler R}
    {dataset : List Char}
    (made : EpochsFrom strtof size dataset records start epochs) :
    CyclesLoadable strtof size dataset records epochs.length start ∧
      OwnLines epochs := by
  constructor
  · intro cycle inside count below
    omega
  · intro samples member
    rcases List.getElem?_of_mem member with ⟨cycle, found⟩
    have inside := (List.getElem?_eq_some_iff.mp found).1
    have empty : samples = [] := by
      rw [← List.length_eq_zero_iff, (made cycle samples found).1]
      omega
    rw [empty]
    exact ⟨by simp, List.Pairwise.nil⟩

/-- With a fitting file, every epoch loads and uses lines of its own. -/
theorem RecordsFit.ownLines {dataset : List Char} {start : Sampler R}
    {epochs : List (List (Sample R))} (fit : RecordsFit dataset size records)
    (length : start.trainingsample.length = size)
    (made : EpochsFrom strtof size dataset records start epochs) :
    CyclesLoadable strtof size dataset records epochs.length start ∧
      OwnLines epochs := by
  have lengthAt (cycle : ℕ) :
      (reopen dataset
        (cycleStart strtof dataset records cycle start)).trainingsample.length =
        size :=
    (length_cycleStart dataset records cycle start).trans length
  constructor
  · intro cycle inside count below
    have fresh :
        (reopen dataset
          (cycleStart strtof dataset records cycle start)).reader.rest =
            fileRecords dataset := rfl
    rcases fit.record strtof fresh below with ⟨record, -, complete⟩
    exact loadable_samplerAfter (lengthAt cycle) complete
  · intro samples member
    rcases List.getElem?_of_mem member with ⟨cycle, found⟩
    rcases made cycle samples found with ⟨count, samplesFrom⟩
    exact fit.samples rfl (lengthAt cycle) count samplesFrom

/-- The first epoch shows whether the file fits. -/
theorem recordsFit_of_ownLines {epochs : List (List (Sample R))}
    (positive : 0 < size) (started : 0 < epochs.length)
    (made : EpochsFrom strtof size storage.dataset records
      (startSampler storage size) epochs)
    (loadable : CyclesLoadable strtof size storage.dataset records epochs.length
      (startSampler storage size))
    (ownLines : OwnLines epochs) : RecordsFit storage.dataset size records := by
  rcases made 0 epochs[0] (List.getElem?_eq_getElem started)
    with ⟨count, samplesFrom⟩
  rcases ownLines epochs[0] (List.getElem_mem started) with ⟨oneLine, noCommon⟩
  exact recordsFit_of_samples rfl rfl rfl positive count samplesFrom
    (loadable 0 started) oneLine noCommon

/--
The training makes its steps on the noted samples.  Every step uses the fields of
one line, and no line twice in an epoch, exactly when there is no step or the
file has enough complete records.
-/
theorem steps_use_own_lines_iff [Field R] [LinearOrder R] (exp log : R → R)
    (stray : ℕ → R) (strtof : List Char → R) (storage : Storage)
    {federatedlearninginstance : LearningInstance R} {inputs outputs : ℕ}
    (trainable :
      Trainable federatedlearninginstance.neuralnetwork inputs outputs)
    (positive : 0 < inputs + outputs) :
    ∃ trained accesses,
      NeuralNetworkTraining exp log strtof stray storage
          federatedlearninginstance [] =
          .ok (trained, accesses) ∧
        Path (SampleStep exp stray) federatedlearninginstance.neuralnetwork
          trained.epochs.flatten
          trained.federatedlearninginstance.neuralnetwork ∧
        ((∀ access ∈ accesses, access.Valid) ∧ OwnLines trained.epochs ↔
          NoStep storage.opens federatedlearninginstance.neuralnetwork.epoch
              federatedlearninginstance.neuralnetwork.percentualtraining ∨
            RecordsFit storage.dataset (inputs + outputs)
              federatedlearninginstance.neuralnetwork.percentualtraining.toNat) := by
  rcases yields_NeuralNetworkTraining exp log strtof stray storage trainable []
    with ⟨trained, accesses, runs, valid, done⟩
  refine ⟨trained, accesses, runs, done.path, ?_⟩
  rw [valid, noStep_iff, ← done.count]
  constructor
  · rintro ⟨loadable, ownLines⟩
    rcases Nat.eq_zero_or_pos trained.epochs.length with none | started
    · exact Or.inl (Or.inl none)
    · exact Or.inr (recordsFit_of_ownLines positive started done.epochs loadable
        ownLines)
  · rintro (noStep | fit)
    · exact ownLines_of_noStep noStep done.epochs
    · exact fit.ownLines List.length_replicate done.epochs

end Training

/-- A data set of one record, and a training of two steps in each epoch. -/
def oneRecordStorage : Storage where
  dataset := "1,2,3\n".toList
  opens := fun _ => true
  garbage := []

def twoStepsNetwork : TrainingNetwork ℚ :=
  { onesNetwork 1 1 with percentualtraining := 2 }

theorem trainable_twoStepsNetwork : Trainable twoStepsNetwork 1 1 where
  wellFormed :=
    ⟨rfl, (wellFormed_onesNetwork 1 1).neurons,
      (wellFormed_onesNetwork 1 1).connected⟩
  first := rfl
  last := rfl

theorem steps_use_own_lines_iff_sample :
    ∃ trained accesses,
      NeuralNetworkTraining (fun x => 1 + x * x) id (strtof id) (fun _ => 0)
          oneRecordStorage ⟨0, twoStepsNetwork⟩ [] =
          .ok (trained, accesses) ∧
        Path (SampleStep (fun x => 1 + x * x) fun _ => 0) twoStepsNetwork
          trained.epochs.flatten
          trained.federatedlearninginstance.neuralnetwork ∧
        ((∀ access ∈ accesses, access.Valid) ∧ OwnLines trained.epochs ↔
          NoStep oneRecordStorage.opens twoStepsNetwork.epoch
              twoStepsNetwork.percentualtraining ∨
            RecordsFit oneRecordStorage.dataset (1 + 1)
              twoStepsNetwork.percentualtraining.toNat) :=
  steps_use_own_lines_iff (fun x => 1 + x * x) id (fun _ => 0) (strtof id)
    oneRecordStorage trainable_twoStepsNetwork (by decide)

/-- The sample of the only record. -/
def onlySample : Sample ℚ where
  inputs := [⟨2, some 0⟩]
  labels := [⟨3, some 0⟩]

/-- The second step has no record and uses the line of the first one again. -/
theorem second_step_repeats_line :
    ∃ trained accesses,
      NeuralNetworkTraining (fun x => 1 + x * x) id (strtof id) (fun _ => 0)
          oneRecordStorage ⟨0, twoStepsNetwork⟩ [] =
          .ok (trained, accesses) ∧
        (∀ access ∈ accesses, access.Valid) ∧ ¬ OwnLines trained.epochs := by
  have evaluated :
      (NeuralNetworkTraining (fun x => 1 + x * x) id (strtof id) (fun _ => 0)
          oneRecordStorage ⟨0, twoStepsNetwork⟩ []).toOption.map
          (fun result =>
            (result.1.epochs, decide (∀ access ∈ result.2, access.Valid))) =
        some ([[onlySample, onlySample]], true) := by
    decide +kernel
  rcases finishes :
      NeuralNetworkTraining (fun x => 1 + x * x) id (strtof id) (fun _ => 0)
        oneRecordStorage ⟨0, twoStepsNetwork⟩ [] with _ | ⟨trained, accesses⟩
  · rw [finishes] at evaluated
    cases evaluated
  rw [finishes] at evaluated
  have same := Option.some.inj evaluated
  rw [Prod.mk.injEq] at same
  refine ⟨trained, accesses, rfl, of_decide_eq_true same.2, ?_⟩
  rw [same.1]
  intro ownLines
  have noCommon := (ownLines _ (List.mem_singleton_self _)).2
  rw [List.pairwise_pair] at noCommon
  have member : (⟨2, some 0⟩ : ParsedField ℚ) ∈ onlySample.fields := by
    decide
  exact noCommon _ member _ member 0 rfl rfl

end FederatedEdge.Client
