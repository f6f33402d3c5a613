import FederatedEdge.Client.Provenance
import Mathlib.Algebra.Order.Field.Basic

/-!
# The evaluation of a global model

After an aggregation the server reads evaluation records, feeds them forward and
counts the decisions of the output neurons.  Its loop is a copy of the one in
`DeepLearning/main.c` in which two counters have been exchanged: a missed label
counts as a false positive and a wrong one as a false negative.

The counters agree exactly when there are as many of the one as of the other.
Totals, accuracy and F1 score do not show the difference.

A record is stored in an array with room for the inputs and outputs of the
network.  The loop takes seven fields of it, so that the evaluation of a smaller
network writes outside of the array unless the lines of its file are short.
-/

namespace FederatedEdge.Evaluation

open FederatedEdge.Library
open FederatedEdge.Client
open FederatedEdge.Dataset

variable {R : Type}

/-! ## Confusion matrices -/

/--
The counters of an evaluation.  They are natural numbers: an evaluation makes
far fewer decisions than an `int` can count.  The outputs which it judges are
numbers, none of which is a NaN.
-/
structure Confusion where
  total : ℕ
  truepositive : ℕ
  falsepositive : ℕ
  truenegative : ℕ
  falsenegative : ℕ
deriving DecidableEq, Repr

def Confusion.initial : Confusion where
  total := 0
  truepositive := 0
  falsepositive := 0
  truenegative := 0
  falsenegative := 0

section Quotients

variable [Field R]

def Accuracy (matrix : Confusion) : R :=
  ((matrix.truenegative + matrix.truepositive : ℕ) : R) /
    (matrix.truenegative + matrix.truepositive + matrix.falsenegative +
      matrix.falsepositive : ℕ)

def Precision (matrix : Confusion) : R :=
  (matrix.truepositive : R) / (matrix.truepositive + matrix.falsepositive : ℕ)

def Recall (matrix : Confusion) : R :=
  (matrix.truepositive : R) / (matrix.truepositive + matrix.falsenegative : ℕ)

def Specificity (matrix : Confusion) : R :=
  (matrix.truenegative : R) / (matrix.truenegative + matrix.falsepositive : ℕ)

attribute [local instance] two_atLeastTwo in
def F1Score (matrix : Confusion) : R :=
  2 * (Precision matrix * Recall matrix) / (Precision matrix + Recall matrix)

end Quotients

/-! ## Judging -/

/-- The counters after some records, each with its labels and outputs. -/
def judgeRecords (turn : Confusion → R → R → Confusion)
    (records : List (List (R × R))) : Confusion :=
  records.foldl
    (fun matrix record =>
      record.foldl (fun matrix pair => turn matrix pair.1 pair.2) matrix)
    Confusion.initial

theorem judgeRecords_flatten (turn : Confusion → R → R → Confusion)
    (records : List (List (R × R))) :
    judgeRecords turn records =
      records.flatten.foldl (fun matrix pair => turn matrix pair.1 pair.2)
        Confusion.initial := by
  rw [judgeRecords, List.foldl_flatten]

section Judging

variable [Field R] [LinearOrder R] (Threshold : R)

/--
The turn for an output neuron in `PerformanceMetrics` of the server.  The outputs
are elements of an ordered field: a NaN, which is neither above nor below the
threshold, is not among them.
-/
def judge (matrix : Confusion) (label output : R) : Confusion :=
  if label = 1 then
    if output > Threshold then
      { matrix with
        truepositive := matrix.truepositive + 1
        total := matrix.total + 1 }
    else
      { matrix with
        falsepositive := matrix.falsepositive + 1
        total := matrix.total + 1 }
  else
    if output < Threshold then
      { matrix with
        truenegative := matrix.truenegative + 1
        total := matrix.total + 1 }
    else
      { matrix with
        falsenegative := matrix.falsenegative + 1
        total := matrix.total + 1 }

/-- The same turn in `DeepLearning/main.c`. -/
def judgeDeepLearning (matrix : Confusion) (label output : R) : Confusion :=
  if label = 1 then
    if output > Threshold then
      { matrix with
        truepositive := matrix.truepositive + 1
        total := matrix.total + 1 }
    else
      { matrix with
        falsenegative := matrix.falsenegative + 1
        total := matrix.total + 1 }
  else
    if output < Threshold then
      { matrix with
        truenegative := matrix.truenegative + 1
        total := matrix.total + 1 }
    else
      { matrix with
        falsepositive := matrix.falsepositive + 1
        total := matrix.total + 1 }

/-- The confusion matrix of labels and outputs. -/
def confusionMatrix (pairs : List (R × R)) : Confusion where
  total := pairs.length
  truepositive := pairs.countP fun pair => pair.1 = 1 ∧ Threshold < pair.2
  falsepositive := pairs.countP fun pair => pair.1 ≠ 1 ∧ Threshold ≤ pair.2
  truenegative := pairs.countP fun pair => pair.1 ≠ 1 ∧ pair.2 < Threshold
  falsenegative := pairs.countP fun pair => pair.1 = 1 ∧ pair.2 ≤ Threshold

/-- The matrix with the two kinds of wrong decisions exchanged. -/
def Confusion.exchanged (matrix : Confusion) : Confusion :=
  { matrix with
    falsepositive := matrix.falsenegative
    falsenegative := matrix.falsepositive }

theorem judge_eq_exchanged (matrix : Confusion) (label output : R) :
    judge Threshold matrix.exchanged label output =
      (judgeDeepLearning Threshold matrix label output).exchanged := by
  unfold judge judgeDeepLearning
  split_ifs <;> rfl

/-- One more decision, in front of the others. -/
theorem confusionMatrix_concat (pairs : List (R × R)) (label output : R) :
    confusionMatrix Threshold (pairs ++ [(label, output)]) =
      judgeDeepLearning Threshold (confusionMatrix Threshold pairs) label
        output := by
  by_cases positive : label = 1
  · rcases lt_or_ge Threshold output with above | below
    · simp [confusionMatrix, judgeDeepLearning, positive, above,
        not_le_of_gt above]
    · simp [confusionMatrix, judgeDeepLearning, positive, below,
        not_lt_of_ge below]
  · rcases lt_or_ge output Threshold with below | above
    · simp [confusionMatrix, judgeDeepLearning, positive, below,
        not_le_of_gt below]
    · simp [confusionMatrix, judgeDeepLearning, positive, above,
        not_lt_of_ge above]

/-- The stand-alone program counts what it says. -/
theorem judgeRecords_judgeDeepLearning (records : List (List (R × R))) :
    judgeRecords (judgeDeepLearning Threshold) records =
      confusionMatrix Threshold records.flatten := by
  rw [judgeRecords_flatten]
  induction records.flatten using List.reverseRecOn with
  | nil => rfl
  | append_singleton pairs pair inductionHypothesis =>
      rw [List.foldl_append, inductionHypothesis, List.foldl_cons,
        List.foldl_nil, ← confusionMatrix_concat]

/-- The server counts the same with two counters exchanged. -/
theorem judgeRecords_judge (records : List (List (R × R))) :
    judgeRecords (judge Threshold) records =
      (confusionMatrix Threshold records.flatten).exchanged := by
  rw [← judgeRecords_judgeDeepLearning, judgeRecords_flatten,
    judgeRecords_flatten]
  induction records.flatten using List.reverseRecOn with
  | nil => rfl
  | append_singleton pairs pair inductionHypothesis =>
      rw [List.foldl_append, inductionHypothesis, List.foldl_append]
      exact judge_eq_exchanged Threshold _ pair.1 pair.2

/-- As many labels are missed as are wrongly given. -/
def EquallyWrong (pairs : List (R × R)) : Prop :=
  pairs.countP (fun pair => pair.1 = 1 ∧ pair.2 ≤ Threshold) =
    pairs.countP fun pair => pair.1 ≠ 1 ∧ Threshold ≤ pair.2

theorem exchanged_eq_iff (pairs : List (R × R)) :
    (confusionMatrix Threshold pairs).exchanged =
        confusionMatrix Threshold pairs ↔
      EquallyWrong Threshold pairs := by
  simp only [Confusion.exchanged, confusionMatrix, Confusion.mk.injEq,
    EquallyWrong]
  constructor
  · rintro ⟨-, -, same, -, -⟩
    exact same
  · intro same
    exact ⟨trivial, trivial, same, trivial, same.symm⟩

end Judging

/-! ## The metrics of an exchanged matrix -/

section Exchanged

variable [Field R] (matrix : Confusion)

theorem Accuracy_exchanged :
    (Accuracy matrix.exchanged : R) = Accuracy matrix := by
  simp only [Accuracy, Confusion.exchanged, Nat.add_right_comm]

/-- The precision which is printed is the recall of the model. -/
theorem Precision_exchanged :
    (Precision matrix.exchanged : R) = Recall matrix :=
  rfl

theorem Recall_exchanged :
    (Recall matrix.exchanged : R) = Precision matrix :=
  rfl

theorem F1Score_exchanged : (F1Score matrix.exchanged : R) = F1Score matrix := by
  rw [F1Score, Precision_exchanged, Recall_exchanged, F1Score,
    mul_comm (Recall matrix), add_comm (Recall matrix)]

end Exchanged

/-! ## Evaluating a network -/

/-- What an evaluation prints, with the labels and outputs it has compared. -/
structure Metrics (R : Type) where
  matrix : Confusion
  Accuracy : R
  Precision : R
  Recall : R
  Specificity : R
  F1Score : R
  records : List (List (R × R))
deriving DecidableEq, Repr

/-- The variables of an evaluation. -/
structure EvaluationRun (R : Type) where
  neuralnetwork : TrainingNetwork R
  sampler : Sampler R
  label : Buffer (ParsedField R)
  matrix : Confusion
  records : List (List (R × R))
deriving DecidableEq, Repr

section Program

variable [Field R] [LinearOrder R]
variable (exp : R → R) (strtof : List Char → R) (stray : ℕ → R)
variable (Threshold : R)

/-- The loop over the output neurons, which notes what it compares. -/
def judgeOutputs (lastlayer : TrainingLayer R)
    (label : Buffer (ParsedField R)) (matrix : Confusion) :
    Traced SampleArray (Confusion × List (R × R)) :=
  countLoop
    (fun i judged => do
      let expected ←
        Buffer.load SampleArray.label (fun place => ⟨stray place, none⟩) label i
      let currentneuron ← Exec.deref lastlayer.neuronvalues[i]?
      let output := currentneuron.activationfunctionvalue
      pure
        (judge Threshold judged.1 expected.value output,
          judged.2 ++ [(expected.value, output)]))
    lastlayer.neurons.toNat (matrix, [])

/-- One turn of the loop over the records. -/
def evaluateRecord (run : EvaluationRun R) :
    Traced SampleArray (EvaluationRun R) := do
  let loaded ←
    loadEvaluationRecord strtof stray run.neuralnetwork run.sampler run.label
  let neuralnetwork ← FeedFoward exp loaded.neuralnetwork
  let lastlayer ← Exec.deref neuralnetwork.layervalues.getLast?
  let (matrix, record) ←
    judgeOutputs stray Threshold lastlayer loaded.label run.matrix
  pure
    { neuralnetwork := neuralnetwork
      sampler := loaded.sampler
      label := loaded.label
      matrix := matrix
      records := run.records ++ [record] }

/-- `file` is the text of the evaluation data set, if it can be opened. -/
def PerformanceMetrics (file : Option (List Char)) (garbage : List Char)
    (neuralnetwork : TrainingNetwork R) (PercentualEvaluation : ℤ) :
    Traced SampleArray (Option (Metrics R)) := do
  let firstlayer ← Exec.deref neuralnetwork.layervalues.head?
  let lastlayer ← Exec.deref neuralnetwork.layervalues.getLast?
  match file with
  | none => pure none
  | some text => do
      let run ←
        countLoop
          (fun _ run => evaluateRecord exp strtof stray Threshold run)
          PercentualEvaluation.toNat
          { neuralnetwork := neuralnetwork
            sampler :=
              { reader :=
                  LineReader.fopen 1024 text
                    { rest := [], line := garbage, number := none }
                trainingsample :=
                  Buffer.allocate
                    (firstlayer.neurons + lastlayer.neurons).toNat }
            label := Buffer.allocate lastlayer.neurons.toNat
            matrix := Confusion.initial
            records := [] }
      pure
        (some
          { matrix := run.matrix
            Accuracy := Accuracy run.matrix
            Precision := Precision run.matrix
            Recall := Recall run.matrix
            Specificity := Specificity run.matrix
            F1Score := F1Score run.matrix
            records := run.records })

/-! ## What an evaluation compares -/

/-- A run after so many records, which are judged one after the other. -/
structure EvaluationSteps (inputs outputs : ℕ) (start : Sampler R)
    (count : ℕ) (run : EvaluationRun R) : Prop where
  trainable : Trainable run.neuralnetwork inputs outputs
  sampler : run.sampler = samplerAfter strtof count start
  label : run.label.length = outputs
  matrix : run.matrix = judgeRecords (judge Threshold) run.records
  count : run.records.length = count
  sizes : ∀ record ∈ run.records, record.length = outputs

/-- The sampler when the file of an evaluation has been opened. -/
def evaluationStart (text garbage : List Char) (size : ℕ) : Sampler R where
  reader :=
    LineReader.fopen 1024 text { rest := [], line := garbage, number := none }
  trainingsample := Buffer.allocate size

section Checked

variable {sound : Access SampleArray → Prop}
  {readable : Buffer (ParsedField R) → ℕ → Prop}
  (checks : Buffer.Checks sound readable)

include checks

theorem yields_judgeOutputs {lastlayer : TrainingLayer R}
    {labels : List (ParsedField R)} (matrix : Confusion)
    (counted : lastlayer.neurons.toNat = lastlayer.neuronvalues.length)
    (sameLength : labels.length = lastlayer.neuronvalues.length) :
    Yields
      (judgeOutputs stray Threshold lastlayer (labels.map some) matrix) True
      (fun judged =>
        judged.1 =
            judged.2.foldl
              (fun matrix pair => judge Threshold matrix pair.1 pair.2)
              matrix ∧
          judged.2 =
            (labels.map ParsedField.value).zip lastlayer.outputs)
      sound := by
  have pairs :
      ((labels.map ParsedField.value).zip lastlayer.outputs).length =
        lastlayer.neuronvalues.length := by
    simp [TrainingLayer.outputs, sameLength]
  refine (Yields.countLoop
    (fun count judged =>
      judged.1 =
          judged.2.foldl
            (fun matrix pair => judge Threshold matrix pair.1 pair.2) matrix ∧
        judged.2 =
          ((labels.map ParsedField.value).zip lastlayer.outputs).take count)
    (fun _ => True) ⟨rfl, rfl⟩ ?_).mono (by simp) ?_
  · rintro i below ⟨current, compared⟩ ⟨matrixIs, comparedIs⟩
    rw [counted] at below
    have labelFound := List.getElem?_eq_getElem (sameLength.symm ▸ below)
    have neuronFound := List.getElem?_eq_getElem below
    refine (checks.yields_load_value SampleArray.label _ labelFound).seq_eq
      (Yields.seq_eq (Yields.lift (by rw [neuronFound]; rfl))
        (Yields.pure ⟨?_, ?_⟩))
    · show judge Threshold current _ _ = _
      rw [List.foldl_append, ← matrixIs]
      rfl
    · show compared ++ [_] = _
      have pairInside : i <
          ((labels.map ParsedField.value).zip lastlayer.outputs).length := by
        rw [pairs]
        exact below
      rw [List.take_add_one, List.getElem?_eq_getElem pairInside,
        List.getElem_zip, ← comparedIs]
      simp [TrainingLayer.outputs]
  · rintro judged ⟨matrixIs, comparedIs⟩
    refine ⟨matrixIs, ?_⟩
    rw [comparedIs, counted, ← pairs, List.take_length]

theorem yields_evaluateRecord {inputs outputs count : ℕ} {start : Sampler R}
    {run : EvaluationRun R}
    (steps : EvaluationSteps strtof Threshold inputs outputs start count run) :
    Yields (evaluateRecord exp strtof stray Threshold run)
      ((samplerAfter strtof count start).Fits strtof 7 ∧
        ∀ i < inputs + outputs,
          readable (samplerAfter strtof (count + 1) start).trainingsample i)
      (EvaluationSteps strtof Threshold inputs outputs start (count + 1))
      sound := by
  have trainable := steps.trainable
  rw [samplerAfter_succ, ← steps.sampler]
  refine (yields_loadRecord_of_checks stray checks strtof 7 run.sampler
    trainable.wellFormed trainable.first trainable.last steps.label).follow
    fun loaded places => ?_
  rcases feeds_loaded exp trainable places with ⟨fed, feeds, -, fedTrainable⟩
  rcases fedTrainable.outerLayers with ⟨_, lastlayer, outer⟩
  have counted : lastlayer.neurons.toNat = lastlayer.neuronvalues.length := by
    rw [outer.labels, outer.outputs]
  refine Yields.seq_eq (Yields.lift feeds)
    (Yields.seq_eq (Yields.lift (by rw [outer.last]; rfl)) ?_)
  rw [places.label]
  refine (yields_judgeOutputs stray Threshold checks run.matrix counted
    (places.labels.trans outer.outputs.symm)).seq ?_
  rintro ⟨matrix, record⟩ ⟨matrixIs, recordIs⟩
  refine Yields.pure ⟨fedTrainable, ?_, ?_, ?_, ?_, ?_⟩
  · show loaded.sampler = _
    rw [places.same, steps.sampler, samplerAfter_succ]
  · show (loaded.sample.labels.map some).length = outputs
    rw [List.length_map, places.labels]
  · show matrix = judgeRecords _ (run.records ++ [record])
    rw [judgeRecords, List.foldl_append, ← judgeRecords, ← steps.matrix]
    exact matrixIs
  · show (run.records ++ [record]).length = count + 1
    rw [List.length_append, List.length_singleton, steps.count]
  · intro other among
    rcases List.mem_append.mp among with before | now
    · exact steps.sizes other before
    · rw [List.mem_singleton.mp now]
      have compared := congrArg List.length recordIs
      rw [List.length_zip, List.length_map, places.labels,
        TrainingLayer.outputs, List.length_map, outer.outputs,
        Nat.min_self] at compared
      exact compared

/-- An evaluation whose file opens judges so many records. -/
theorem yields_PerformanceMetrics (text garbage : List Char)
    {network : TrainingNetwork R} {inputs outputs : ℕ}
    (trainable : Trainable network inputs outputs) (PercentualEvaluation : ℤ) :
    Yields
      (PerformanceMetrics exp strtof stray Threshold (some text) garbage network
        PercentualEvaluation)
      (∀ count < PercentualEvaluation.toNat,
        (samplerAfter strtof count
            (evaluationStart text garbage (inputs + outputs))).Fits strtof 7 ∧
          ∀ i < inputs + outputs,
            readable
              (samplerAfter strtof (count + 1)
                (evaluationStart text garbage
                  (inputs + outputs))).trainingsample i)
      (fun result => ∃ evaluation, result = some evaluation ∧
        evaluation.matrix =
            judgeRecords (judge Threshold) evaluation.records ∧
          evaluation.records.length = PercentualEvaluation.toNat ∧
            ∀ record ∈ evaluation.records, record.length = outputs)
      sound := by
  rcases trainable.outerLayers with ⟨firstlayer, lastlayer, outer⟩
  rw [PerformanceMetrics]
  refine Yields.seq_eq (Yields.lift (by rw [outer.first]; rfl))
    (Yields.seq_eq (Yields.lift (by rw [outer.last]; rfl)) ?_)
  rw [outer.sizes, outer.labels]
  refine (Yields.countLoop
    (EvaluationSteps strtof Threshold inputs outputs
      (evaluationStart text garbage (inputs + outputs)))
    _ ?_ fun count _ run steps =>
      yields_evaluateRecord exp strtof stray Threshold checks steps).follow ?_
  · refine ⟨trainable, rfl, List.length_replicate, rfl, rfl, ?_⟩
    intro record none
    cases none
  · intro run steps
    exact Yields.pure ⟨_, rfl, steps.matrix, steps.count, steps.sizes⟩

end Checked

/-! ## Room for the records -/

/-- What is in the buffer and in the file after so many records. -/
def evaluationReader (text garbage : List Char) (count : ℕ) : LineReader :=
  LineReader.turn^[count]
    (LineReader.fopen 1024 text { rest := [], line := garbage, number := none })

/-- The array has room for the fields which the loop takes of each record. -/
def RecordsHaveRoom (text garbage : List Char) (size records : ℕ) : Prop :=
  ∀ count < records,
    ((evaluationReader text garbage count).fgets.fields.take 7).length ≤ size

instance (text garbage : List Char) (size records : ℕ) :
    Decidable (RecordsHaveRoom text garbage size records) := by
  unfold RecordsHaveRoom
  infer_instance

/-- There is room for seven fields. -/
theorem recordsHaveRoom_of_le {size : ℕ} (seven : 7 ≤ size)
    (text garbage : List Char) (records : ℕ) :
    RecordsHaveRoom text garbage size records :=
  fun _ _ => (List.length_take_le 7 _).trans seven

omit [Field R] [LinearOrder R] in
theorem fits_evaluationStart_iff (text garbage : List Char) (size count : ℕ) :
    (samplerAfter strtof count (evaluationStart text garbage size)).Fits strtof
        7 ↔
      ((evaluationReader text garbage count).fgets.fields.take 7).length ≤
        size := by
  rw [Sampler.Fits, reader_samplerAfter, length_samplerAfter, LineReader.values,
    List.length_map, evaluationStart, Buffer.allocate, List.length_replicate]
  rfl

/-- An evaluation stays in its arrays exactly when its records have room. -/
theorem inside_PerformanceMetrics (text garbage : List Char)
    {network : TrainingNetwork R} {inputs outputs : ℕ}
    (trainable : Trainable network inputs outputs) (PercentualEvaluation : ℤ) :
    Yields
      (PerformanceMetrics exp strtof stray Threshold (some text) garbage network
        PercentualEvaluation)
      (RecordsHaveRoom text garbage (inputs + outputs)
        PercentualEvaluation.toNat)
      (fun _ => True) Access.Inside := by
  refine (yields_PerformanceMetrics exp strtof stray Threshold
    Buffer.checks_inside text garbage trainable PercentualEvaluation).mono
    (forall₂_congr fun count _ => ?_) fun _ _ => trivial
  rw [fits_evaluationStart_iff, and_iff_left]
  intro i inside
  rw [length_samplerAfter, evaluationStart, Buffer.allocate,
    List.length_replicate]
  exact inside

/--
Both loops give the matrix with all four counters at their places, the one of the
server only when as many labels are missed as are wrongly given; this holds for
any labels and outputs, in particular for those of a whole evaluation.
-/
theorem confusion_matrix_iff (text garbage : List Char)
    {network : TrainingNetwork R} {inputs outputs : ℕ}
    (trainable : Trainable network inputs outputs) (PercentualEvaluation : ℤ) :
    (∀ records : List (List (R × R)),
        judgeRecords (judgeDeepLearning Threshold) records =
          confusionMatrix Threshold records.flatten) ∧
      (∀ records : List (List (R × R)),
        judgeRecords (judge Threshold) records =
            confusionMatrix Threshold records.flatten ↔
          EquallyWrong Threshold records.flatten) ∧
        ∃ evaluation accesses,
          PerformanceMetrics exp strtof stray Threshold (some text) garbage
              network PercentualEvaluation [] =
              .ok (some evaluation, accesses) ∧
            evaluation.records.length = PercentualEvaluation.toNat ∧
              (∀ record ∈ evaluation.records, record.length = outputs) ∧
                (evaluation.matrix =
                    confusionMatrix Threshold evaluation.records.flatten ↔
                  EquallyWrong Threshold evaluation.records.flatten) := by
  have server (records : List (List (R × R))) :
      judgeRecords (judge Threshold) records =
          confusionMatrix Threshold records.flatten ↔
        EquallyWrong Threshold records.flatten := by
    rw [judgeRecords_judge]
    exact exchanged_eq_iff Threshold records.flatten
  refine ⟨judgeRecords_judgeDeepLearning Threshold, server, ?_⟩
  rcases yields_PerformanceMetrics exp strtof stray Threshold
    Buffer.checks_valid text garbage trainable PercentualEvaluation []
    with ⟨_, accesses, runs, -, evaluation, rfl, matrix, count, sizes⟩
  refine ⟨evaluation, accesses, runs, count, sizes, ?_⟩
  rw [matrix]
  exact server evaluation.records

end Program

theorem confusion_matrix_iff_sample :
    (∀ records : List (List (ℚ × ℚ)),
        judgeRecords (judgeDeepLearning (1 / 2)) records =
          confusionMatrix (1 / 2) records.flatten) ∧
      (∀ records : List (List (ℚ × ℚ)),
        judgeRecords (judge (1 / 2)) records =
            confusionMatrix (1 / 2) records.flatten ↔
          EquallyWrong (1 / 2) records.flatten) ∧
        ∃ evaluation accesses,
          PerformanceMetrics (fun x => 1 + x * x) (strtof id) (fun _ => 0)
              (1 / 2) (some "1,2,3\n".toList) [] twoEpochsNetwork 1 [] =
              .ok (some evaluation, accesses) ∧
            evaluation.records.length = (1 : ℤ).toNat ∧
              (∀ record ∈ evaluation.records, record.length = 1) ∧
                (evaluation.matrix =
                    confusionMatrix (1 / 2) evaluation.records.flatten ↔
                  EquallyWrong (1 / 2) evaluation.records.flatten) :=
  confusion_matrix_iff (fun x => 1 + x * x) (strtof id) (fun _ => 0) (1 / 2)
    "1,2,3\n".toList [] trainable_twoEpochsNetwork 1

/-- A wrong label with output 1 is counted as a missed one. -/
theorem wrong_label_is_counted_as_missed :
    ∃ (evaluation : Metrics ℚ) (accesses : List (Access SampleArray)),
      PerformanceMetrics (fun x => 1 + x * x) (strtof id) (fun _ => 0) (1 / 2)
          (some "1,2,3\n".toList) [] twoEpochsNetwork 1 [] =
          .ok (some evaluation, accesses) ∧
        evaluation.records = [[(3, 1)]] ∧
          evaluation.matrix =
            { Confusion.initial with total := 1, falsenegative := 1 } ∧
            confusionMatrix (1 / 2) evaluation.records.flatten =
              { Confusion.initial with total := 1, falsepositive := 1 } := by
  have evaluated :
      (PerformanceMetrics (fun x => 1 + x * x) (strtof id) (fun _ => 0) (1 / 2)
          (some "1,2,3\n".toList) [] twoEpochsNetwork 1 []).toOption.map
          (fun result =>
            result.1.map fun evaluation : Metrics ℚ =>
              (evaluation.records, evaluation.matrix)) =
        some (some ([[(3, 1)]],
          { Confusion.initial with total := 1, falsenegative := 1 })) := by
    decide +kernel
  rcases yields_PerformanceMetrics (fun x => 1 + x * x) (strtof id)
    (fun _ => 0) (1 / 2) Buffer.checks_valid "1,2,3\n".toList []
    trainable_twoEpochsNetwork 1 []
    with ⟨_, accesses, runs, -, evaluation, rfl, -, -, -⟩
  rw [runs] at evaluated
  have same := Option.some.inj (Option.some.inj evaluated)
  rw [Prod.mk.injEq] at same
  refine ⟨evaluation, accesses, runs, same.1, same.2, ?_⟩
  rw [same.1]
  decide +kernel

end FederatedEdge.Evaluation
