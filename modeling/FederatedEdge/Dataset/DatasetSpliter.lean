import FederatedEdge.Json.CJson
import FederatedEdge.Library.CText
import Mathlib.Data.Rat.Floor

/-!
# Splitting a dataset

`split_csv_dataset` reads the lines of a file, shuffles them, and writes the
first of them to one file and the rest to another.  Nothing is skipped but empty
lines.
-/

namespace FederatedEdge.Dataset

open FederatedEdge.Json (truncate)
open FederatedEdge.Library

namespace Spliter

def MAX_LINES : ℕ :=
  1000

def MAX_LINE_LEN : ℕ :=
  512

end Spliter

/-- The lines which are kept, without the empty ones. -/
def readLines (csv : List Char) : List (List Char) :=
  ((fileLines Spliter.MAX_LINE_LEN csv).filter (· ≠ [])).take
    Spliter.MAX_LINES

/-- `temp = lines[i]; lines[i] = lines[j]; lines[j] = temp`. -/
def swapLines (lines : List (List Char)) (i j : ℕ) : List (List Char) :=
  match lines[i]?, lines[j]? with
  | some temp, some other => (lines.set i other).set j temp
  | _, _ => lines

/-- The swaps from index `i` down to index one; `rand i` is drawn at index `i`. -/
def shuffleFrom (rand : ℕ → ℕ) : ℕ → List (List Char) → List (List Char)
  | 0, lines => lines
  | i + 1, lines =>
      shuffleFrom rand i (swapLines lines (i + 1) (rand (i + 1) % (i + 2)))

def shuffle_lines (rand : ℕ → ℕ) (lines : List (List Char)) :
    List (List Char) :=
  shuffleFrom rand (lines.length - 1) lines

/-- The contents of the two files; there are none without a line. -/
def split_csv_dataset (rand : ℕ → ℕ) (eval_ratio : ℚ) (csv : List Char) :
    Option (List Char × List Char) :=
  let lines := readLines csv
  if lines.length = 0 then none
  else
    let shuffled := shuffle_lines rand lines
    let eval_size := truncate (lines.length * eval_ratio)
    let train_size := lines.length - eval_size
    some (writeLines (shuffled.take train_size.toNat),
      writeLines (shuffled.drop train_size.toNat))

/-! ## Shuffling -/

theorem swapLines_perm (lines : List (List Char)) (i j : ℕ) :
    (swapLines lines i j).Perm lines := by
  unfold swapLines
  split
  next temp other first second =>
    rcases List.getElem?_eq_some_iff.mp first with ⟨insideFirst, rfl⟩
    rcases List.getElem?_eq_some_iff.mp second with ⟨insideSecond, rfl⟩
    exact List.set_set_perm insideFirst insideSecond
  next => exact .refl _

theorem shuffleFrom_perm (rand : ℕ → ℕ) (i : ℕ) (lines : List (List Char)) :
    (shuffleFrom rand i lines).Perm lines := by
  induction i generalizing lines with
  | zero => exact .refl _
  | succ i inductionHypothesis =>
      exact (inductionHypothesis _).trans (swapLines_perm _ _ _)

/-- Shuffling keeps all lines. -/
theorem shuffle_lines_perm (rand : ℕ → ℕ) (lines : List (List Char)) :
    (shuffle_lines rand lines).Perm lines :=
  shuffleFrom_perm rand _ lines

/-! ## What the files hold -/

/-- What has been kept can be written and read again. -/
theorem clean_of_mem_readLines {csv line : List Char}
    (member : line ∈ readLines csv) :
    (∀ character ∈ line, endsLine character = false) ∧
      line.length < Spliter.MAX_LINE_LEN := by
  have isLine := (List.mem_filter.mp (List.mem_of_mem_take member)).1
  refine ⟨?_, length_of_mem_fileLines (by decide) isLine⟩
  rcases List.mem_map.mp isLine with ⟨buffer, -, rfl⟩
  exact fun character => mem_cutLine

/-- A part of the shuffled lines can be written and read again. -/
theorem clean_of_part {rand : ℕ → ℕ} {csv line : List Char}
    {lines : List (List Char)}
    (isPart : lines ⊆ shuffle_lines rand (readLines csv))
    (member : line ∈ lines) :
    (∀ character ∈ line, endsLine character = false) ∧
      line.length < Spliter.MAX_LINE_LEN :=
  clean_of_mem_readLines
    ((shuffle_lines_perm rand (readLines csv)).subset (isPart member))

/-- The two files together have the lines which have been read. -/
theorem split_csv_dataset_perm (rand : ℕ → ℕ) (eval_ratio : ℚ) {size : ℕ}
    (space : Spliter.MAX_LINE_LEN + 1 ≤ size) {csv : List Char}
    (nonempty : readLines csv ≠ []) :
    ∃ training evaluation,
      split_csv_dataset rand eval_ratio csv = some (training, evaluation) ∧
        (fileLines size training ++ fileLines size evaluation).Perm
          (readLines csv) := by
  have counted : ¬ (readLines csv).length = 0 :=
    fun zero => nonempty (List.length_eq_zero_iff.mp zero)
  have shuffled := shuffle_lines_perm rand (readLines csv)
  have written {lines : List (List Char)}
      (isPart : lines ⊆ shuffle_lines rand (readLines csv)) :
      fileLines size (writeLines lines) = lines := by
    apply fileLines_writeLines
    · exact fun line member => (clean_of_part isPart member).1
    · intro line member
      have short := (clean_of_part isPart member).2
      omega
  refine ⟨_, _, if_neg counted, ?_⟩
  rw [written (List.take_subset _ _), written (List.drop_subset _ _),
    List.take_append_drop]
  exact shuffled

/-! ## Every line in one of the files -/

/-- What the lines of a file say, up to a carriage return or a null, if any. -/
def lineTexts (csv : List Char) : List (List Char) :=
  ((textLines csv).map cutLine).filter (· ≠ [])

/-- The splitter keeps the texts of all lines of a file which fits. -/
theorem readLines_eq {csv : List Char}
    (few : (textLines csv).length ≤ Spliter.MAX_LINES)
    (short : ∀ line ∈ textLines csv, line.length < Spliter.MAX_LINE_LEN - 1) :
    readLines csv = lineTexts csv := by
  have fits :
      ∀ line ∈ textLines csv, line.length + 1 < Spliter.MAX_LINE_LEN := by
    intro line member
    have less := short line member
    omega
  have room : (lineTexts csv).length ≤ Spliter.MAX_LINES := by
    refine (List.length_filter_le _ _).trans ?_
    rwa [List.length_map]
  rw [readLines, fileLines_eq fits]
  exact List.take_of_length_le room

theorem truncate_of_nonneg {number : ℚ} (nonneg : 0 ≤ number) :
    truncate number = ⌊number⌋₊ := by
  rw [truncate, Int.tdiv_eq_ediv_of_nonneg (Rat.num_nonneg.mpr nonneg),
    Int.natCast_floor_eq_floor nonneg, Rat.floor_def']

/-- The evaluation lines are the floor of their share. -/
theorem length_evaluation {eval_ratio : ℚ} (nonneg : 0 ≤ eval_ratio)
    (atMostAll : eval_ratio ≤ 1) (count : ℕ) :
    count - (count - truncate (count * eval_ratio)).toNat =
      ⌊(count : ℚ) * eval_ratio⌋₊ := by
  have share : 0 ≤ (count : ℚ) * eval_ratio :=
    mul_nonneg count.cast_nonneg nonneg
  have below : ⌊(count : ℚ) * eval_ratio⌋₊ ≤ count := by
    refine Nat.floor_le_of_le ?_
    exact mul_le_of_le_one_right count.cast_nonneg atMostAll
  rw [truncate_of_nonneg share]
  omega

/--
For every file which fits, both output files together have exactly the nonempty
texts of its lines, in a number which the ratio decides; a file without any
leaves the output files alone.
-/
theorem split_csv_dataset_partitions (rand : ℕ → ℕ) (eval_ratio : ℚ)
    (csv : List Char) (few : (textLines csv).length ≤ Spliter.MAX_LINES)
    (short : ∀ line ∈ textLines csv, line.length < Spliter.MAX_LINE_LEN - 1)
    (nonneg : 0 ≤ eval_ratio) (atMostAll : eval_ratio ≤ 1) :
    match split_csv_dataset rand eval_ratio csv with
    | none => lineTexts csv = []
    | some (training, evaluation) =>
        lineTexts csv ≠ [] ∧
          (textLines training ++ textLines evaluation).Perm (lineTexts csv) ∧
          (textLines evaluation).length =
            ⌊((lineTexts csv).length : ℚ) * eval_ratio⌋₊ := by
  have kept := readLines_eq few short
  have shuffled := shuffle_lines_perm rand (readLines csv)
  rw [split_csv_dataset]
  split_ifs with empty
  · rw [← kept]
    exact List.length_eq_zero_iff.mp empty
  · have written {lines : List (List Char)}
        (isPart : lines ⊆ shuffle_lines rand (readLines csv)) :
        textLines (writeLines lines) = lines :=
      textLines_writeLines fun line member =>
        newline_notMem_of_clean (clean_of_part isPart member).1
    refine ⟨?_, ?_, ?_⟩
    · rw [← kept]
      exact mt List.length_eq_zero_iff.mpr empty
    · rw [written (List.take_subset _ _), written (List.drop_subset _ _),
        List.take_append_drop, ← kept]
      exact shuffled
    · rw [written (List.drop_subset _ _), List.length_drop,
        shuffled.length_eq, ← kept]
      exact length_evaluation nonneg atMostAll _

/-- Three lines, one of them empty behind its carriage return. -/
theorem split_csv_dataset_partitions_sample :
    match split_csv_dataset (fun _ => 1) (1 / 2)
        ['a', '\r', '\n', '\r', '\n', 'b', '\n'] with
    | none => lineTexts ['a', '\r', '\n', '\r', '\n', 'b', '\n'] = []
    | some (training, evaluation) =>
        lineTexts ['a', '\r', '\n', '\r', '\n', 'b', '\n'] ≠ [] ∧
          (textLines training ++ textLines evaluation).Perm
            (lineTexts ['a', '\r', '\n', '\r', '\n', 'b', '\n']) ∧
          (textLines evaluation).length =
            ⌊((lineTexts ['a', '\r', '\n', '\r', '\n', 'b', '\n']).length :
                ℚ) * (1 / 2)⌋₊ :=
  split_csv_dataset_partitions (fun _ => 1) (1 / 2)
    ['a', '\r', '\n', '\r', '\n', 'b', '\n'] (by decide) (by decide)
    (by norm_num) (by norm_num)

/-- What follows a carriage return in a line is in neither file. -/
theorem text_after_return_is_lost :
    split_csv_dataset (fun _ => 0) 0 ['x', '\r', 'y', '\n'] =
        some (['x', '\n'], []) ∧
      ¬ (textLines ['x', '\n'] ++ textLines []).Perm
          ((textLines ['x', '\r', 'y', '\n']).filter (· ≠ [])) :=
  ⟨by decide +kernel, by decide⟩

end FederatedEdge.Dataset
