import FederatedEdge.Dataset.DatasetSpliter
import FederatedEdge.Dataset.WineToCsv

/-!
# Records in the split files

The trainer and the evaluator take each line for an index, thirteen features and
three class columns.  The header which `winetocsv` writes is a line like any
other for `split_csv_dataset`, and ends up in one of its two files.
-/

namespace FederatedEdge.Dataset

open FederatedEdge.Library

/-! ## Data records -/

def skipSign : List Char → List Char
  | '-' :: rest => rest
  | '+' :: rest => rest
  | rest => rest

/-- Digits after a point, and what follows them. -/
def fractionDigits : List Char → List Char × List Char
  | '.' :: rest => rest.span Char.isDigit
  | rest => ([], rest)

/-- Nothing, or an exponent with its digits. -/
def endsNumeral : List Char → Bool
  | [] => true
  | letter :: rest =>
      (letter = 'e' || letter = 'E') && skipSign rest ≠ [] &&
        (skipSign rest).all Char.isDigit

/-- A decimal numeral, as `strtof` reads it to its end. -/
def isNumeral (field : List Char) : Bool :=
  let (whole, rest) := (skipSign field).span Char.isDigit
  let (fraction, rest) := fractionDigits rest
  (whole ≠ [] || fraction ≠ []) && endsNumeral rest

/--
An index, thirteen features and three class columns, all numbers, and one of the
class columns is 1.
-/
structure IsRecord (line : List Char) : Prop where
  columns : (line.splitOn ',').length = 1 + 13 + 3
  numeric : ∀ field ∈ line.splitOn ',', isNumeral field = true
  oneClass : ((line.splitOn ',').drop (1 + 13)).count ['1'] = 1

/-- The first record of the wine data. -/
def sampleRecord : List Char :=
  "1,14.23,1.71,2.43,15.6,127,2.8,3.06,.28,2.29,5.64,1.04,3.92,1065,1,0,0".toList

example : IsRecord sampleRecord := by
  constructor <;> decide +kernel

theorem not_isRecord_header : ¬ IsRecord header := by
  intro record
  exact absurd (record.numeric "index".toList (by decide +kernel))
    (by decide +kernel)

/-! ## The way of the header -/

/-- The header is the first line which the splitter keeps. -/
theorem header_mem_readLines (data : List Char) :
    header ∈ readLines (winetocsv data) := by
  have printable :
      (header.all fun character => !endsLine character) = true := by
    decide +kernel
  have clean : ∀ character ∈ header, endsLine character = false := by
    intro character member
    simpa using List.all_eq_true.mp printable character member
  have oneLine := newline_notMem_of_clean clean
  have fits : header.length + 1 < Spliter.MAX_LINE_LEN := by decide +kernel
  have nonempty : header ≠ [] := by decide +kernel
  have first :
      ∃ rest, fileLines Spliter.MAX_LINE_LEN (winetocsv data) =
        header :: rest := by
    rw [winetocsv, writeLines, List.flatMap_cons, List.append_assoc,
      List.singleton_append, fileLines, buffers_line oneLine fits,
      List.map_cons, cutLine_newline, cutLine_of_clean clean]
    exact ⟨_, rfl⟩
  rcases first with ⟨rest, first⟩
  rw [readLines, first, List.filter_cons, if_pos (decide_eq_true nonempty)]
  exact List.mem_cons_self

/--
For every input and every shuffle the files are written, the header is a line of
one of them, and so not all of their lines are data records.
-/
theorem header_among_records (rand : ℕ → ℕ) (eval_ratio : ℚ)
    (data : List Char) :
    ∃ training evaluation,
      split_csv_dataset rand eval_ratio (winetocsv data) =
          some (training, evaluation) ∧
        header ∈ fileLines 1024 training ++ fileLines 1024 evaluation ∧
          ¬ ∀ line ∈ fileLines 1024 training ++ fileLines 1024 evaluation,
            IsRecord line := by
  have isLine := header_mem_readLines data
  have space : Spliter.MAX_LINE_LEN + 1 ≤ 1024 := by decide
  rcases split_csv_dataset_perm rand eval_ratio space
      (List.ne_nil_of_mem isLine)
    with ⟨training, evaluation, splits, sameLines⟩
  have written := sameLines.symm.subset isLine
  exact ⟨training, evaluation, splits, written,
    fun records => not_isRecord_header (records header written)⟩

/-- The first line of the wine data. -/
def sampleData : List Char :=
  "1,14.23,1.71,2.43,15.6,127,2.8,3.06,.28,2.29,5.64,1.04,3.92,1065\n".toList

/-- With draws of zero the header is the last line for training. -/
theorem header_after_record :
    ∃ training,
      split_csv_dataset (fun _ => 0) (1 / 5) (winetocsv sampleData) =
          some (training, []) ∧
        fileLines 1024 training = [sampleRecord, header] ∧
          ¬ ∀ line ∈ fileLines 1024 training, IsRecord line := by
  have lines :
      fileLines 1024 (writeLines [sampleRecord, header]) =
        [sampleRecord, header] := by
    decide +kernel
  refine ⟨writeLines [sampleRecord, header], by decide +kernel, lines, ?_⟩
  rw [lines]
  exact fun records => not_isRecord_header (records header (by simp))

end FederatedEdge.Dataset
