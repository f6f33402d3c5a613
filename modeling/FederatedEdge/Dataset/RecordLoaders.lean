import FederatedEdge.Client.Accesses
import FederatedEdge.Dataset.Loader
import FederatedEdge.Dataset.Numerals

/-!
# The record loaders of three programs

A record has an index, a field for each input neuron and one for each output
neuron.  The stand-alone program takes as many fields as the network has input
and output neurons; the ESP32 client and the server take seven, which is right
for the data set they are used with.  For wider networks the rest of the array
is not written, so that it is read before it has a value or keeps the fields of
an earlier record.
-/

namespace FederatedEdge.Dataset

open FederatedEdge.Library
open FederatedEdge.Client

variable {R : Type}

section Loaders

variable (strtof : List Char → R) (stray : ℕ → R)
variable (neuralnetwork : TrainingNetwork R)

/-- The loader in `NeuralNetworkTraining` of the ESP32 client. -/
def loadTrainingRecord (sampler : Sampler R) (label : Buffer (ParsedField R)) :
    Traced SampleArray (Loaded R) :=
  loadRecord strtof stray 7 neuralnetwork sampler label

/-- The loader in `PerformanceMetrics` of the server. -/
def loadEvaluationRecord (sampler : Sampler R) (label : Buffer (ParsedField R)) :
    Traced SampleArray (Loaded R) :=
  loadRecord strtof stray 7 neuralnetwork sampler label

/-- The loader in `NeuralNetworkTraining` of `DeepLearning/main.c`. -/
def loadDeepLearningRecord (sampler : Sampler R) (label : Buffer (ParsedField R)) :
    Traced SampleArray (Loaded R) := do
  let firstlayer ← Exec.deref neuralnetwork.layervalues.head?
  let lastlayer ← Exec.deref neuralnetwork.layervalues.getLast?
  loadRecord strtof stray (firstlayer.neurons + lastlayer.neurons).toNat
    neuralnetwork sampler label

end Loaders

/-! ## Record lines -/

/-- An index and a numeral for each input and output neuron. -/
structure RecordFields (inputs outputs : ℕ) (fields : List (List Char)) :
    Prop where
  columns : fields.length = 1 + inputs + outputs
  numeric : ∀ field ∈ fields, isNumeral field = true

/-- The fields with commas between them, and a line end. -/
def recordLine (fields : List (List Char)) (ending : List Char) : List Char :=
  List.intercalate [','] fields ++ ending

theorem recordLine_concat (fields : List (List Char)) (last ending : List Char) :
    recordLine (fields ++ [last]) ending =
      List.intercalate [','] (fields ++ [last ++ ending]) := by
  rw [recordLine]
  induction fields with
  | nil => simp
  | cons field fields inductionHypothesis =>
      rw [List.cons_append, List.cons_append,
        List.intercalate_cons_of_ne_nil (by simp),
        List.intercalate_cons_of_ne_nil (by simp), List.append_assoc,
        inductionHypothesis]

/-- The tokens of a record line are its fields, the last with the line end. -/
theorem strtok_recordLine {fields : List (List Char)} {last ending : List Char}
    (numeric : ∀ field ∈ fields ++ [last], isNumeral field = true)
    (spaces : ∀ character ∈ ending, isspace character = true) :
    strtok (recordLine (fields ++ [last]) ending) =
      fields ++ [last ++ ending] := by
  have separated : ∀ field ∈ fields ++ [last ++ ending], ',' ∉ field := by
    intro field member comma
    rcases List.mem_append.mp member with early | late
    · have clean := numeralText_of_isNumeral
        (numeric field (List.mem_append_left [last] early)) ',' comma
      exact absurd clean (by decide)
    · rw [List.mem_singleton.mp late] at comma
      rcases List.mem_append.mp comma with inNumeral | inEnding
      · have clean := numeralText_of_isNumeral
          (numeric last (by simp)) ',' inNumeral
        exact absurd clean (by decide)
      · exact absurd (spaces ',' inEnding) (by decide)
  have filled : ∀ field ∈ fields ++ [last ++ ending], field ≠ [] := by
    intro field member
    rcases List.mem_append.mp member with early | late
    · exact ne_nil_of_isNumeral (numeric field (List.mem_append_left _ early))
    · rw [List.mem_singleton.mp late]
      exact List.append_ne_nil_of_left_ne_nil
        (ne_nil_of_isNumeral (numeric last (by simp))) ending
  rw [recordLine_concat, strtok,
    List.splitOn_intercalate ',' separated (by simp), List.filter_eq_self]
  intro field member
  exact decide_eq_true (filled field member)

/-- The values of the tokens are those of the fields. -/
theorem map_strtok_recordLine (round : ℚ → R) {fields : List (List Char)}
    {ending : List Char} (numeric : ∀ field ∈ fields, isNumeral field = true)
    (spaces : ∀ character ∈ ending, isspace character = true)
    (nonempty : fields ≠ []) :
    (strtok (recordLine fields ending)).map (strtof round) =
      fields.map (strtof round) := by
  rcases List.eq_nil_or_concat fields with rfl | ⟨front, last, rfl⟩
  · exact absurd rfl nonempty
  · rw [List.concat_eq_append] at numeric ⊢
    rw [strtok_recordLine numeric spaces, List.map_append, List.map_append,
      List.map_singleton, List.map_singleton, strtof_append round spaces]

/-! ## Loading every field -/

/--
Whatever the array and the label vector hold, a loader which reads this record
next makes valid accesses only, and the activation values of the first layer and
the labels are the fields of the record.
-/
def LoadsFields (round : ℚ → R)
    (load :
      (ℕ → R) → Sampler R → Buffer (ParsedField R) → Traced SampleArray (Loaded R))
    (inputs outputs : ℕ) (fields : List (List Char)) : Prop :=
  ∀ stray sampler label ending,
    sampler.trainingsample.length = inputs + outputs →
    label.length = outputs →
    (∀ character ∈ ending, isspace character = true) →
    sampler.reader.fgets.line = recordLine fields ending →
      ∃ loaded accesses,
        load stray sampler label [] = .ok (loaded, accesses) ∧
          (∀ access ∈ accesses, access.Valid) ∧
          loaded.neuralnetwork.layervalues.head?.map TrainingLayer.outputs =
            some (((fields.drop 1).take inputs).map (strtof round)) ∧
          loaded.label.map (Option.map ParsedField.value) =
            (fields.drop (1 + inputs)).map fun field =>
              some (strtof round field)

/-- The fields which the loop takes from a record line. -/
theorem values_recordLine (round : ℚ → R) (bound : ℕ) {reader : LineReader}
    {fields : List (List Char)} {ending : List Char}
    (numeric : ∀ field ∈ fields, isNumeral field = true)
    (spaces : ∀ character ∈ ending, isspace character = true)
    (nonempty : fields ≠ []) (line : reader.line = recordLine fields ending) :
    LineReader.values (strtof round) bound reader =
      ((fields.drop 1).take bound).map fun field =>
        ⟨strtof round field, reader.number⟩ := by
  have tokens := map_strtok_recordLine round numeric spaces nonempty
  have sameFields := congrArg (fun values => (values.drop 1).take bound) tokens
  have noted :=
    congrArg (List.map fun value : R => (⟨value, reader.number⟩ : ParsedField R))
      sameFields
  simp only [← List.map_drop, ← List.map_take, List.map_map] at noted
  rw [LineReader.values, LineReader.fields, line]
  exact noted

/-- The outputs of the first layer are the values loaded into it. -/
theorem outputs_withInputs {network : TrainingNetwork R}
    {inputs : List (ParsedField R)}
    (first : network.widths.head? = some inputs.length) :
    (withInputs network inputs).layervalues.head?.map TrainingLayer.outputs =
      some (inputs.map ParsedField.value) := by
  rcases layers : network.layervalues with _ | ⟨firstlayer, above⟩
  · rw [TrainingNetwork.widths, layers] at first
    cases first
  · rw [TrainingNetwork.widths, layers, List.map_cons, List.head?_cons,
      Option.some.injEq] at first
    have outputs :
        (List.zipWith setInput firstlayer.neuronvalues inputs).map
            (·.activationfunctionvalue) = inputs.map ParsedField.value := by
      apply List.ext_getElem
      · simp [first]
      · intro i _ _
        simp [setInput]
    rw [withInputs, layers, List.modify_zero_cons, List.head?_cons,
      Option.map_some]
    exact congrArg some outputs

section Bound

variable {network : TrainingNetwork R} {inputs outputs : ℕ}
variable {fields : List (List Char)}

/-- With room for all fields in the loop, every field is loaded. -/
theorem loadsFields_of_le (round : ℚ → R) {bound : ℕ}
    (wellFormed : network.WellFormed)
    (first : network.widths.head? = some inputs)
    (last : network.widths.getLast? = some outputs)
    (record : RecordFields inputs outputs fields)
    (enough : inputs + outputs ≤ bound) :
    LoadsFields round
      (fun stray => loadRecord (strtof round) stray bound network) inputs
      outputs fields := by
  intro stray sampler label ending size labelSize spaces line
  have nonempty : fields ≠ [] := by
    rintro rfl
    have columns := record.columns
    rw [List.length_nil] at columns
    omega
  have values :=
    values_recordLine round bound record.numeric spaces nonempty line
  have all : (fields.drop 1).take bound = fields.drop 1 := by
    apply List.take_of_length_le
    rw [List.length_drop, record.columns]
    omega
  rw [all] at values
  have count :
      (LineReader.values (strtof round) bound sampler.reader.fgets).length =
        inputs + outputs := by
    rw [values, List.length_map, List.length_drop, record.columns]
    omega
  rcases yields_loadRecord stray (strtof round) bound sampler wellFormed first
    last labelSize [] with ⟨loaded, accesses, runs, valid, places⟩
  have loadable := loadable_of_complete size count
  have sameFields := places.sampleOf.fields_eq size count
  rw [values, Sample.fields] at sameFields
  refine ⟨loaded, accesses, runs, valid.mpr loadable, ?_, ?_⟩
  · have taken := congrArg (List.take inputs) sameFields
    rw [List.take_left' places.inputs, ← List.map_take] at taken
    rw [places.neuralnetwork, outputs_withInputs (first.trans (by
      rw [places.inputs])), taken, List.map_map]
    rfl
  · have dropped := congrArg (List.drop inputs) sameFields
    rw [List.drop_left' places.inputs, ← List.map_drop, List.drop_drop]
      at dropped
    rw [places.label, dropped, List.map_map, List.map_map]
    rfl

/-- A sampler which reads a given line next and has stored nothing yet. -/
def freshSampler (size : ℕ) (line : List Char) : Sampler R where
  reader := { rest := [(0, line)], line := [], number := none }
  trainingsample := Buffer.allocate size

theorem mem_intercalate_commas {character : Char}
    (member : character ∈ List.intercalate [','] fields) :
    character = ',' ∨ ∃ field ∈ fields, character ∈ field := by
  induction fields with
  | nil => cases member
  | cons field fields inductionHypothesis =>
      by_cases single : fields = []
      · subst single
        rw [List.intercalate_singleton] at member
        exact Or.inr ⟨field, List.mem_singleton_self field, member⟩
      · rw [List.intercalate_cons_of_ne_nil single, List.mem_append,
          List.mem_append, List.mem_singleton] at member
        rcases member with (inField | isComma) | later
        · exact Or.inr ⟨field, List.mem_cons_self, inField⟩
        · exact Or.inl isComma
        · rcases inductionHypothesis later with isComma | ⟨other, among, inOther⟩
          · exact Or.inl isComma
          · exact Or.inr ⟨other, List.mem_cons_of_mem field among, inOther⟩

/-- The line of a record is read as it is. -/
theorem cString_recordLine
    (numeric : ∀ field ∈ fields, isNumeral field = true) :
    cString (recordLine fields []) = recordLine fields [] := by
  rw [cString, List.takeWhile_eq_self_iff]
  intro character member
  rw [recordLine, List.append_nil] at member
  apply decide_eq_true
  rintro rfl
  rcases mem_intercalate_commas member with isComma | ⟨field, among, inField⟩
  · exact absurd isComma (by decide)
  · have clean := numeralText_of_isNumeral (numeric field among) _ inField
    exact absurd clean (by decide)

/-- With less room than a record has fields, the array is read unwritten. -/
theorem not_loadsFields_of_lt (round : ℚ → R) {bound : ℕ}
    (wellFormed : network.WellFormed)
    (first : network.widths.head? = some inputs)
    (last : network.widths.getLast? = some outputs)
    (record : RecordFields inputs outputs fields)
    (less : bound < inputs + outputs) :
    ¬ LoadsFields round
      (fun stray => loadRecord (strtof round) stray bound network) inputs
      outputs fields := by
  intro loads
  have line :
      (freshSampler (inputs + outputs) (recordLine fields []) :
          Sampler R).reader.fgets.line =
        recordLine fields [] :=
    cString_recordLine record.numeric
  rcases loads (fun _ => round 0) _ (Buffer.allocate outputs) []
    List.length_replicate List.length_replicate (by simp) line
    with ⟨loaded, accesses, runs, valid, -⟩
  have labelSize :
      (Buffer.allocate outputs : Buffer (ParsedField R)).length = outputs :=
    List.length_replicate
  rcases yields_loadRecord (fun _ => round 0) (strtof round) bound
    (freshSampler (inputs + outputs) (recordLine fields [])) wellFormed first
    last labelSize [] with ⟨other, others, otherRuns, otherValid, -⟩
  have same := Exec.result_unique runs otherRuns
  rw [Prod.mk.injEq, List.nil_append] at same
  rcases same with ⟨-, rfl⟩
  rcases (otherValid.mp valid).2 bound less with ⟨field, found⟩
  have few :
      (LineReader.values (strtof round) bound
        (freshSampler (inputs + outputs) (recordLine fields []) :
          Sampler R).reader.fgets).length ≤ bound := by
    rw [LineReader.values, List.length_map]
    exact List.length_take_le _ _
  rw [next_kept _ _ _ few, freshSampler, Buffer.allocate,
    List.getElem?_replicate_of_lt less] at found
  cases found

theorem loadsFields_iff (round : ℚ → R) (bound : ℕ)
    (wellFormed : network.WellFormed)
    (first : network.widths.head? = some inputs)
    (last : network.widths.getLast? = some outputs)
    (record : RecordFields inputs outputs fields) :
    LoadsFields round
        (fun stray => loadRecord (strtof round) stray bound network) inputs
        outputs fields ↔
      inputs + outputs ≤ bound := by
  constructor
  · intro loads
    by_contra less
    exact not_loadsFields_of_lt round wellFormed first last record
      (not_le.mp less) loads
  · exact loadsFields_of_le round wellFormed first last record

end Bound

/-- The stand-alone loader has as many turns as a record has fields. -/
theorem loadDeepLearningRecord_eq (convert : List Char → R) (stray : ℕ → R)
    {network : TrainingNetwork R} {inputs outputs : ℕ}
    (wellFormed : network.WellFormed)
    (first : network.widths.head? = some inputs)
    (last : network.widths.getLast? = some outputs) (sampler : Sampler R)
    (label : Buffer (ParsedField R)) :
    loadDeepLearningRecord convert stray network sampler label =
      loadRecord convert stray (inputs + outputs) network sampler label := by
  rcases wellFormed.firstlayer first with ⟨firstlayer, isFirst, inputsAre, -⟩
  rcases wellFormed.lastlayer last with ⟨lastlayer, isLast, outputsAre, -⟩
  have turns :
      (firstlayer.neurons + lastlayer.neurons).toNat = inputs + outputs := by
    rw [inputsAre, outputsAre]
    omega
  rw [loadDeepLearningRecord, isFirst, isLast, ← turns]
  rfl

/--
For every topology and every record of it, the loaders of the federated programs
load what the stand-alone one does exactly when at most seven fields follow the
index.
-/
theorem loads_every_field_iff (round : ℚ → R) {network : TrainingNetwork R}
    {inputs outputs : ℕ} {fields : List (List Char)}
    (wellFormed : network.WellFormed)
    (first : network.widths.head? = some inputs)
    (last : network.widths.getLast? = some outputs)
    (record : RecordFields inputs outputs fields) :
    LoadsFields round
        (fun stray => loadDeepLearningRecord (strtof round) stray network)
        inputs outputs fields ∧
      (LoadsFields round
          (fun stray => loadTrainingRecord (strtof round) stray network)
          inputs outputs fields ↔
        inputs + outputs ≤ 7) ∧
      (LoadsFields round
          (fun stray => loadEvaluationRecord (strtof round) stray network)
          inputs outputs fields ↔
        inputs + outputs ≤ 7) := by
  refine ⟨?_, loadsFields_iff round 7 wellFormed first last record,
    loadsFields_iff round 7 wellFormed first last record⟩
  have same :
      (fun stray => loadDeepLearningRecord (strtof round) stray network) =
        fun stray =>
          loadRecord (strtof round) stray (inputs + outputs) network := by
    funext stray sampler label
    exact loadDeepLearningRecord_eq _ _ wellFormed first last sampler label
  rw [same]
  exact loadsFields_of_le round wellFormed first last record (le_refl _)

/-- Thirteen features and three classes, as the wine data has them. -/
def wineNetwork : TrainingNetwork ℚ where
  epoch := 1
  alpha := 1
  regularization := 0
  lambda := 0
  percentualtraining := 1
  lossfunctiontype := 2
  layers := 2
  layervalues := [onesLayer 0 0 13, onesLayer 4 13 3]

theorem wellFormed_wineNetwork : wineNetwork.WellFormed where
  layers := rfl
  neurons := by simp [wineNetwork, onesLayer]
  connected := by
    simp [wineNetwork, onesLayer, Connected]

theorem recordFields_sampleRecord :
    RecordFields 13 3 (sampleRecord.splitOn ',') := by
  constructor
  · decide +kernel
  · decide +kernel

theorem loads_every_field_iff_sample :
    LoadsFields id (fun stray => loadDeepLearningRecord (strtof id) stray
          wineNetwork)
        13 3 (sampleRecord.splitOn ',') ∧
      (LoadsFields id (fun stray => loadTrainingRecord (strtof id) stray
            wineNetwork)
          13 3 (sampleRecord.splitOn ',') ↔
        13 + 3 ≤ 7) ∧
      (LoadsFields id (fun stray => loadEvaluationRecord (strtof id) stray
            wineNetwork)
          13 3 (sampleRecord.splitOn ',') ↔
        13 + 3 ≤ 7) :=
  loads_every_field_iff id wellFormed_wineNetwork rfl rfl
    recordFields_sampleRecord

/-- The first record of the wine data is not loaded. -/
theorem wine_record_is_not_loaded :
    wineNetwork.WellFormed ∧ wineNetwork.widths = [13, 3] ∧
      RecordFields 13 3 (sampleRecord.splitOn ',') ∧
        ¬ LoadsFields id
            (fun stray => loadTrainingRecord (strtof id) stray wineNetwork)
            13 3 (sampleRecord.splitOn ',') := by
  refine ⟨wellFormed_wineNetwork, rfl, recordFields_sampleRecord, ?_⟩
  have less : 7 < 13 + 3 := by decide
  exact not_loadsFields_of_lt id wellFormed_wineNetwork rfl rfl
    recordFields_sampleRecord less

end FederatedEdge.Dataset
