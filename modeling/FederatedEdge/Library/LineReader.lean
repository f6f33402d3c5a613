import FederatedEdge.Library.CText
import Mathlib.Logic.Function.Iterate

/-!
# Reading a file line by line into one buffer

Programs which read records call `fgets` and `strtok` on one buffer.  `strtok`
writes nulls into it, and `fgets` leaves it alone when the file has ended, so
that a program which goes on finds at most one token in it.

A reader also notes which line of the file its buffer was filled from.
-/

namespace FederatedEdge.Library

/-- The part of a buffer which is seen as a C string. -/
def cString (buffer : List Char) : List Char :=
  buffer.takeWhile (· ≠ Char.ofNat 0)

/-- The buffers of a file, each with the number of the line which it is from. -/
def numberLines : ℕ → List (List Char) → List (ℕ × List Char)
  | _, [] => []
  | number, buffer :: rest =>
      (number, buffer) ::
        numberLines
          (if buffer.getLast? = some '\n' then number + 1 else number) rest

/--
An open file with what is left of it, and the buffer: the string in it and the
line it was filled from.
-/
structure LineReader where
  rest : List (ℕ × List Char)
  line : List Char
  number : Option ℕ
deriving DecidableEq, Repr

namespace LineReader

/-- `fopen`, with a buffer of the given size. -/
def fopen (size : ℕ) (csv : List Char) (reader : LineReader) : LineReader :=
  { reader with rest := numberLines 0 (buffers size csv) }

/-- `fgets`; at the end of the file the buffer stays as it is. -/
def fgets (reader : LineReader) : LineReader :=
  match reader.rest with
  | [] => reader
  | (number, buffer) :: rest =>
      { rest := rest
        line := cString buffer
        number := some number }

/-- What the tokens of a line leave in the buffer: the first one of them. -/
def cutAtToken (line : List Char) : List Char :=
  line.takeWhile (· = ',') ++ (line.dropWhile (· = ',')).takeWhile (· ≠ ',')

/-- The buffer after `strtok` has gone through it. -/
def tokenized (reader : LineReader) : LineReader :=
  { reader with line := cutAtToken reader.line }

/-- The tokens after the first one, which `strtok(NULL, ",")` returns. -/
def fields (reader : LineReader) : List (List Char) :=
  (strtok reader.line).drop 1

/-- One turn of a program which reads every field of a line. -/
def turn (reader : LineReader) : LineReader :=
  reader.fgets.tokenized

/-! ## The end of the file -/

theorem strtok_cons_comma (line : List Char) :
    strtok (',' :: line) = strtok line := by
  rw [strtok, strtok, List.splitOn_cons_eq_if_modifyHead]
  simp

theorem strtok_commas_append {commas : List Char}
    (onlyCommas : ∀ character ∈ commas, character = ',') (line : List Char) :
    strtok (commas ++ line) = strtok line := by
  induction commas with
  | nil => rfl
  | cons comma commas inductionHypothesis =>
      rw [onlyCommas comma List.mem_cons_self, List.cons_append,
        strtok_cons_comma]
      exact inductionHypothesis fun character member =>
        onlyCommas character (List.mem_cons_of_mem comma member)

/-- A line which has been gone through has no further tokens. -/
theorem strtok_cutAtToken (line : List Char) :
    (strtok (cutAtToken line)).drop 1 = [] := by
  have onlyCommas : ∀ character ∈ line.takeWhile (· = ','), character = ',' := by
    intro character member
    simpa using List.mem_takeWhile_imp member
  have single : ',' ∉ (line.dropWhile (· = ',')).takeWhile (· ≠ ',') := by
    intro member
    simpa using List.mem_takeWhile_imp member
  have atMostOne :
      (strtok ((line.dropWhile (· = ',')).takeWhile (· ≠ ','))).length ≤ 1 := by
    rw [strtok, List.splitOn_eq_singleton single]
    exact List.length_filter_le _ _
  rw [cutAtToken, strtok_commas_append onlyCommas]
  exact List.drop_eq_nil_of_le atMostOne

/-! ## Turn after turn -/

variable (reader : LineReader)

theorem rest_iterate_turn (count : ℕ) :
    (turn^[count] reader).rest = reader.rest.drop count := by
  induction count with
  | zero => rfl
  | succ count inductionHypothesis =>
      rw [Function.iterate_succ_apply', turn, tokenized, fgets]
      rcases left : (turn^[count] reader).rest with _ | ⟨record, rest⟩
      · rw [left] at inductionHypothesis
        have ended := List.drop_eq_nil_iff.mp inductionHypothesis.symm
        exact left.trans (List.drop_eq_nil_of_le (by omega)).symm
      · rw [left] at inductionHypothesis
        rw [← List.tail_drop, ← inductionHypothesis]
        rfl

/-- As long as there are records, a turn reads the next one. -/
theorem fgets_iterate_turn {count number : ℕ} {buffer : List Char}
    (found : reader.rest[count]? = some (number, buffer)) :
    (turn^[count] reader).fgets =
      { rest := reader.rest.drop (count + 1)
        line := cString buffer
        number := some number } := by
  rcases List.getElem?_eq_some_iff.mp found with ⟨inside, present⟩
  have left := rest_iterate_turn reader count
  rw [List.drop_eq_getElem_cons inside, present] at left
  rw [fgets, left]

/-- After the last record, a turn finds no field. -/
theorem fields_iterate_turn {count : ℕ} (ended : reader.rest.length ≤ count)
    (later : 0 < count) : (turn^[count] reader).fgets.fields = [] := by
  have left := rest_iterate_turn reader count
  rw [List.drop_eq_nil_of_le ended] at left
  rw [fgets, left]
  rcases Nat.exists_eq_succ_of_ne_zero later.ne' with ⟨before, rfl⟩
  rw [Function.iterate_succ_apply', fields]
  exact strtok_cutAtToken _

end LineReader

end FederatedEdge.Library
