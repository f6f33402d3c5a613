import Mathlib.Data.List.TakeWhile

/-!
# Text files read through C buffers

A file is the list of its characters.  `fgets` fills a buffer up to a newline or
up to its size, and the string functions stop at the first null.

Beside what a reader finds stand the lines of the file itself, which no buffer
cuts.
-/

namespace FederatedEdge.Library

/-! ## Reading and writing lines -/

/--
What repeated `fgets` finds: `buffer` is filled so far and has room for `left`
characters more, each new one has `room`.
-/
def fill (room : ℕ) : ℕ → List Char → List Char → List (List Char)
  | _, [], [] => []
  | _, first :: buffer, [] => [first :: buffer]
  | left, buffer, character :: rest =>
      if character = '\n' ∨ left ≤ 1 then
        (buffer ++ [character]) :: fill room room [] rest
      else fill room (left - 1) (buffer ++ [character]) rest

/-- The buffers of `while (fgets(buffer, size, file))`. -/
def buffers (size : ℕ) (text : List Char) : List (List Char) :=
  fill (size - 1) (size - 1) [] text

/-- The characters which a C string does not reach or the line end cuts off. -/
def endsLine (character : Char) : Bool :=
  character = '\r' || character = '\n' || character = Char.ofNat 0

/-- `buffer[strcspn(buffer, "\r\n")] = 0`, read as a C string. -/
def cutLine (buffer : List Char) : List Char :=
  buffer.takeWhile fun character => !endsLine character

/-- Each line with `fprintf(file, "%s\n", line)`. -/
def writeLines (lines : List (List Char)) : List Char :=
  lines.flatMap (· ++ ['\n'])

/-- The lines of a file, as a reader with such a buffer sees them. -/
def fileLines (size : ℕ) (text : List Char) : List (List Char) :=
  (buffers size text).map cutLine

/-- The lines of a text, the last of which may lack its newline. -/
def textLines : List Char → List (List Char)
  | [] => []
  | character :: rest =>
      if character = '\n' then [] :: textLines rest
      else
        match textLines rest with
        | [] => [[character]]
        | line :: lines => (character :: line) :: lines

/-! ## The lines of a text -/

section Lines

variable {line : List Char}

theorem textLines_line (oneLine : '\n' ∉ line) (rest : List Char) :
    textLines (line ++ '\n' :: rest) = line :: textLines rest := by
  induction line with
  | nil => simp [textLines]
  | cons character line inductionHypothesis =>
      rcases not_or.mp (mt List.mem_cons.mpr oneLine) with ⟨other, later⟩
      rw [List.cons_append, textLines, if_neg (Ne.symm other),
        inductionHypothesis later]

/-- The end of a text without a newline is a line if there is anything. -/
theorem textLines_unended (oneLine : '\n' ∉ line) (nonempty : line ≠ []) :
    textLines line = [line] := by
  induction line with
  | nil => exact absurd rfl nonempty
  | cons character line inductionHypothesis =>
      rcases not_or.mp (mt List.mem_cons.mpr oneLine) with ⟨other, later⟩
      rw [textLines, if_neg (Ne.symm other)]
      cases line with
      | nil => rfl
      | cons next line =>
          rw [inductionHypothesis later (List.cons_ne_nil next line)]

theorem textLines_writeLines {lines : List (List Char)}
    (oneLine : ∀ line ∈ lines, '\n' ∉ line) :
    textLines (writeLines lines) = lines := by
  induction lines with
  | nil => rfl
  | cons line lines inductionHypothesis =>
      have written :
          writeLines (line :: lines) = line ++ '\n' :: writeLines lines := by
        simp [writeLines]
      rw [written, textLines_line (oneLine line List.mem_cons_self),
        inductionHypothesis fun other member =>
          oneLine other (List.mem_cons_of_mem line member)]

end Lines

/-! ## What a buffer holds -/

/-- A line which fits comes in one buffer. -/
theorem fill_line (room : ℕ) {line : List Char} (oneLine : '\n' ∉ line)
    {left : ℕ} (fits : line.length < left) (buffer rest : List Char) :
    fill room left buffer (line ++ '\n' :: rest) =
      (buffer ++ line ++ ['\n']) :: fill room room [] rest := by
  induction line generalizing left buffer with
  | nil => simp [fill]
  | cons character line inductionHypothesis =>
      have other : character ≠ '\n' :=
        fun same => oneLine (same ▸ List.mem_cons_self)
      have more : ¬ left ≤ 1 := by
        rw [List.length_cons] at fits
        omega
      have later : '\n' ∉ line :=
        fun member => oneLine (List.mem_cons_of_mem _ member)
      have room : line.length < left - 1 := by
        rw [List.length_cons] at fits
        omega
      rw [List.cons_append, fill, if_neg (not_or.mpr ⟨other, more⟩),
        inductionHypothesis later room]
      simp

theorem buffers_line {size : ℕ} {line : List Char} (oneLine : '\n' ∉ line)
    (fits : line.length + 1 < size) (rest : List Char) :
    buffers size (line ++ '\n' :: rest) =
      (line ++ ['\n']) :: buffers size rest :=
  fill_line (size - 1) oneLine (by omega) [] rest

/-- So does the end of a file without a newline. -/
theorem fill_unended (room : ℕ) {line : List Char} (oneLine : '\n' ∉ line)
    {left : ℕ} (fits : line.length < left) {buffer : List Char}
    (nonempty : buffer ++ line ≠ []) :
    fill room left buffer line = [buffer ++ line] := by
  induction line generalizing left buffer with
  | nil =>
      cases buffer with
      | nil => exact absurd rfl nonempty
      | cons first buffer => rw [fill, List.append_nil]
  | cons character line inductionHypothesis =>
      rcases not_or.mp (mt List.mem_cons.mpr oneLine) with ⟨other, later⟩
      rw [List.length_cons] at fits
      have more : ¬ left ≤ 1 := by omega
      rw [fill, if_neg (not_or.mpr ⟨Ne.symm other, more⟩),
        inductionHypothesis later (by omega) (by simp)]
      simp

theorem mem_cutLine {buffer : List Char} {character : Char}
    (member : character ∈ cutLine buffer) : endsLine character = false := by
  have kept := List.mem_takeWhile_imp member
  simpa using kept

theorem newline_notMem_of_clean {line : List Char}
    (clean : ∀ character ∈ line, endsLine character = false) : '\n' ∉ line :=
  fun member => absurd (clean '\n' member) (by decide)

/-- The newline which `fgets` keeps is cut off. -/
theorem cutLine_newline (line : List Char) :
    cutLine (line ++ ['\n']) = cutLine line := by
  rw [cutLine, cutLine, List.takeWhile_append]
  split_ifs with whole
  · rw [List.takeWhile_cons_of_neg (by decide), List.append_nil]
    exact (List.IsPrefix.eq_of_length (List.takeWhile_prefix _) whole).symm
  · rfl

/-- Nothing is cut off a clean line. -/
theorem cutLine_of_clean {line : List Char}
    (clean : ∀ character ∈ line, endsLine character = false) :
    cutLine line = line := by
  rw [cutLine, List.takeWhile_eq_self_iff]
  intro character member
  rw [clean character member]
  rfl

/-- With room for each line, a reader sees the lines of the text, cut. -/
theorem fileLines_eq {size : ℕ} {text : List Char}
    (fits : ∀ line ∈ textLines text, line.length + 1 < size) :
    fileLines size text = (textLines text).map cutLine := by
  -- The induction is on the lines, of which `text` loses the first one.
  induction length : text.length using Nat.strong_induction_on
    generalizing text with
  | _ _ inductionHypothesis =>
      subst length
      by_cases ended : '\n' ∈ text
      · rcases List.eq_append_cons_of_mem ended with
          ⟨line, rest, rfl, oneLine⟩
        rw [textLines_line oneLine] at fits ⊢
        have shorter : rest.length < (line ++ '\n' :: rest).length := by
          rw [List.length_append, List.length_cons]
          omega
        have later :=
          inductionHypothesis rest.length shorter
            (fun other member => fits other (List.mem_cons_of_mem line member))
            rfl
        rw [fileLines, buffers_line oneLine (fits line List.mem_cons_self),
          List.map_cons, List.map_cons, cutLine_newline]
        exact congrArg (cutLine line :: ·) later
      · cases text with
        | nil => rfl
        | cons first rest =>
            have nonempty := List.cons_ne_nil first rest
            have single := textLines_unended ended nonempty
            rw [single] at fits ⊢
            have room := fits (first :: rest) List.mem_cons_self
            rw [fileLines, buffers, fill_unended _ ended (by omega) nonempty]
            rfl

/-- The lines written to a file are read from it. -/
theorem fileLines_writeLines {size : ℕ} {lines : List (List Char)}
    (clean : ∀ line ∈ lines, ∀ character ∈ line, endsLine character = false)
    (fits : ∀ line ∈ lines, line.length + 1 < size) :
    fileLines size (writeLines lines) = lines := by
  have written : textLines (writeLines lines) = lines :=
    textLines_writeLines fun line member =>
      newline_notMem_of_clean (clean line member)
  have uncut : lines.map cutLine = lines.map id :=
    List.map_congr_left fun line member => cutLine_of_clean (clean line member)
  rw [fileLines_eq (by rwa [written]), written, uncut, List.map_id]

/-- No buffer holds more than there is room for. -/
theorem length_of_mem_fill {room left : ℕ} {buffer text filled : List Char}
    (space : buffer.length + left ≤ room) (unfilled : 1 ≤ left)
    (member : filled ∈ fill room left buffer text) :
    filled.length ≤ room := by
  induction text generalizing left buffer with
  | nil =>
      cases buffer with
      | nil => cases member
      | cons first buffer =>
          rw [fill, List.mem_singleton] at member
          subst member
          omega
  | cons character rest inductionHypothesis =>
      rw [fill] at member
      split_ifs at member with ends
      · rcases List.mem_cons.mp member with rfl | later
        · rw [List.length_append, List.length_singleton]
          omega
        · exact inductionHypothesis (by simp) (by omega) later
      · have more : 1 < left := by omega
        apply inductionHypothesis _ _ member
        · rw [List.length_append, List.length_singleton]
          omega
        · omega

theorem length_of_mem_fileLines {size : ℕ} (space : 2 ≤ size)
    {text line : List Char} (member : line ∈ fileLines size text) :
    line.length < size := by
  rcases List.mem_map.mp member with ⟨buffer, isBuffer, rfl⟩
  have bounded : buffer.length ≤ size - 1 :=
    length_of_mem_fill (by simp) (by omega) isBuffer
  have shorter : (cutLine buffer).length ≤ buffer.length :=
    (List.takeWhile_prefix _).length_le
  omega

/-! ## Tokens -/

def isspace (character : Char) : Bool :=
  character ∈ [' ', '\t', '\n', '\x0b', '\x0c', '\r']

/-- All tokens which `strtok(line, ",")` finds. -/
def strtok (line : List Char) : List (List Char) :=
  (line.splitOn ',').filter (· ≠ [])

/-- The value of leading digits. -/
def leadingDigits (text : List Char) : ℕ :=
  (text.takeWhile Char.isDigit).foldl
    (fun value digit => 10 * value + (digit.toNat - '0'.toNat)) 0

/-- The largest `long`, which has 64 bits. -/
def LONG_MAX : ℤ := 9223372036854775807

def LONG_MIN : ℤ := -9223372036854775808

/-- `strtol` to the base 10, which stops at the ends of a `long`. -/
def strtol (text : List Char) : ℤ :=
  let number : ℤ :=
    match text.dropWhile isspace with
    | '-' :: digits => -(leadingDigits digits : ℤ)
    | '+' :: digits => leadingDigits digits
    | digits => leadingDigits digits
  max LONG_MIN (min number LONG_MAX)

/-- `atoi` keeps the low 32 bits of the `long`. -/
def atoi (text : List Char) : ℤ :=
  (strtol text).bmod 4294967296

end FederatedEdge.Library
