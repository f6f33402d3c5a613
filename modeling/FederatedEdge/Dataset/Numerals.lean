import FederatedEdge.Dataset.Records
import Mathlib.Algebra.Field.Rat

/-!
# Decimal numerals and `strtof`

`strtof` skips white space, reads as much of a decimal numeral as it finds and
ignores what follows.  So the line end behind the last field of a record does
not change its value.
-/

namespace FederatedEdge.Dataset

open FederatedEdge.Library

variable {R : Type}

def isNegative (text : List Char) : Bool :=
  text.head? = some '-'

/-- The exponent which a text starts with, or zero. -/
def readExponent : List Char → ℤ
  | [] => 0
  | letter :: rest =>
      if letter = 'e' ∨ letter = 'E' then
        if isNegative rest then -leadingDigits (skipSign rest)
        else leadingDigits (skipSign rest)
      else 0

/-- The value of the decimal numeral which a text starts with. -/
def numeralValue (text : List Char) : ℚ :=
  let (whole, rest) := (skipSign text).span Char.isDigit
  let (fraction, rest) := fractionDigits rest
  let magnitude : ℚ :=
    leadingDigits (whole ++ fraction) *
      10 ^ (readExponent rest - fraction.length)
  if isNegative text then -magnitude else magnitude

/--
`strtof` for decimal numerals, with the rounding to `float` as a parameter; it
has neither hexadecimal numerals nor infinities and NaNs.
-/
def strtof (round : ℚ → R) (text : List Char) : R :=
  round (numeralValue (text.dropWhile isspace))

example : numeralValue "-.28e1".toList = -14 / 5 := by decide +kernel

/-! ## Text behind a numeral -/

section Ending

variable {ending : List Char}

theorem isspace_cases {character : Char} (space : isspace character = true) :
    character.isDigit = false ∧ character ≠ '.' ∧ character ≠ '-' ∧
      character ≠ '+' ∧ character ≠ 'e' ∧ character ≠ 'E' ∧ character ≠ ',' ∧
        character ≠ Char.ofNat 0 := by
  simp only [isspace, List.mem_cons, List.not_mem_nil, or_false,
    decide_eq_true_eq] at space
  rcases space with rfl | rfl | rfl | rfl | rfl | rfl
  all_goals decide

theorem takeWhile_digits_append
    (spaces : ∀ character ∈ ending, isspace character = true)
    (text : List Char) :
    (text ++ ending).takeWhile Char.isDigit = text.takeWhile Char.isDigit ∧
      (text ++ ending).dropWhile Char.isDigit =
        text.dropWhile Char.isDigit ++ ending := by
  induction text with
  | nil =>
      cases ending with
      | nil => simp
      | cons space ending =>
          have other := (isspace_cases (spaces space List.mem_cons_self)).1
          simp [other]
  | cons character text inductionHypothesis =>
      rw [List.cons_append, List.takeWhile_cons, List.takeWhile_cons,
        List.dropWhile_cons, List.dropWhile_cons]
      split_ifs with digit
      · exact ⟨congrArg _ inductionHypothesis.1, inductionHypothesis.2⟩
      · exact ⟨rfl, rfl⟩

theorem span_digits_append
    (spaces : ∀ character ∈ ending, isspace character = true)
    (text : List Char) :
    (text ++ ending).span Char.isDigit =
      ((text.span Char.isDigit).1, (text.span Char.isDigit).2 ++ ending) := by
  rw [List.span_eq_takeWhile_dropWhile, List.span_eq_takeWhile_dropWhile,
    (takeWhile_digits_append spaces text).1,
    (takeWhile_digits_append spaces text).2]

theorem skipSign_spaces
    (spaces : ∀ character ∈ ending, isspace character = true) :
    skipSign ending = ending := by
  unfold skipSign
  split
  · exact absurd (spaces '-' List.mem_cons_self) (by decide)
  · exact absurd (spaces '+' List.mem_cons_self) (by decide)
  · rfl

theorem skipSign_append
    (spaces : ∀ character ∈ ending, isspace character = true)
    (text : List Char) : skipSign (text ++ ending) = skipSign text ++ ending := by
  rcases text with _ | ⟨first, text⟩
  · exact skipSign_spaces spaces
  · rw [List.cons_append]
    unfold skipSign
    split
    · rename_i same
      cases same
      rfl
    · rename_i same
      cases same
      rfl
    · split
      · simp_all
      · simp_all
      · simp_all

theorem isNegative_append
    (spaces : ∀ character ∈ ending, isspace character = true)
    (text : List Char) : isNegative (text ++ ending) = isNegative text := by
  rcases text with _ | ⟨first, text⟩
  · rcases ending with _ | ⟨space, ending⟩
    · rfl
    · simp [isNegative, (isspace_cases (spaces space List.mem_cons_self)).2.2.1]
  · rfl

theorem fractionDigits_append
    (spaces : ∀ character ∈ ending, isspace character = true)
    (text : List Char) :
    fractionDigits (text ++ ending) =
      ((fractionDigits text).1, (fractionDigits text).2 ++ ending) := by
  rcases text with _ | ⟨point, text⟩
  · unfold fractionDigits
    split
    · rename_i same
      rw [List.nil_append] at same
      rw [same] at spaces
      exact absurd (spaces '.' List.mem_cons_self) (by decide)
    · rfl
  · by_cases isPoint : point = '.'
    · subst isPoint
      exact span_digits_append spaces text
    · simp [fractionDigits, isPoint]

theorem leadingDigits_append
    (spaces : ∀ character ∈ ending, isspace character = true)
    (text : List Char) : leadingDigits (text ++ ending) = leadingDigits text := by
  rw [leadingDigits, (takeWhile_digits_append spaces text).1, leadingDigits]

theorem readExponent_append
    (spaces : ∀ character ∈ ending, isspace character = true)
    (text : List Char) : readExponent (text ++ ending) = readExponent text := by
  rcases text with _ | ⟨letter, text⟩
  · rcases ending with _ | ⟨space, ending⟩
    · rfl
    · rcases isspace_cases (spaces space List.mem_cons_self)
        with ⟨-, -, -, -, lower, upper, -⟩
      simp [readExponent, lower, upper]
  · rw [List.cons_append, readExponent, readExponent,
      isNegative_append spaces, skipSign_append spaces,
      leadingDigits_append spaces]

/-- White space behind a text does not change the value it starts with. -/
theorem numeralValue_append
    (spaces : ∀ character ∈ ending, isspace character = true)
    (text : List Char) : numeralValue (text ++ ending) = numeralValue text := by
  simp only [numeralValue, skipSign_append spaces, span_digits_append spaces,
    fractionDigits_append spaces, readExponent_append spaces,
    isNegative_append spaces]

theorem strtof_append (round : ℚ → R)
    (spaces : ∀ character ∈ ending, isspace character = true)
    (text : List Char) : strtof round (text ++ ending) = strtof round text := by
  rw [strtof, strtof, List.dropWhile_append]
  split_ifs with blank
  · rw [List.isEmpty_iff] at blank
    have gone : ending.dropWhile isspace = [] :=
      List.dropWhile_eq_nil_iff.mpr spaces
    rw [gone, blank]
  · rw [numeralValue_append spaces]

end Ending

/-! ## The characters of a numeral -/

/-- The characters which may stand in a decimal numeral. -/
def numeralCharacter (character : Char) : Bool :=
  character.isDigit || character ∈ ['-', '+', '.', 'e', 'E']

/-- All characters of a text may stand in a numeral. -/
def NumeralText (text : List Char) : Prop :=
  ∀ character ∈ text, numeralCharacter character = true

theorem numeralText_cons {first : Char} {text : List Char}
    (head : numeralCharacter first = true) (tail : NumeralText text) :
    NumeralText (first :: text) := by
  intro character member
  rcases List.mem_cons.mp member with rfl | later
  · exact head
  · exact tail character later

theorem numeralText_of_skipSign {text : List Char}
    (unsigned : NumeralText (skipSign text)) : NumeralText text := by
  unfold skipSign at unsigned
  split at unsigned
  · exact numeralText_cons (by decide) unsigned
  · exact numeralText_cons (by decide) unsigned
  · exact unsigned

theorem numeralText_of_span {text : List Char}
    (rest : NumeralText (text.span Char.isDigit).2) : NumeralText text := by
  rw [List.span_eq_takeWhile_dropWhile] at rest
  intro character member
  rw [← List.takeWhile_append_dropWhile (p := Char.isDigit) (l := text)]
    at member
  rcases List.mem_append.mp member with digit | later
  · rw [numeralCharacter, List.mem_takeWhile_imp digit, Bool.true_or]
  · exact rest character later

theorem numeralText_of_fractionDigits {text : List Char}
    (rest : NumeralText (fractionDigits text).2) : NumeralText text := by
  unfold fractionDigits at rest
  split at rest
  · exact numeralText_cons (by decide) (numeralText_of_span rest)
  · exact rest

theorem numeralText_of_endsNumeral {text : List Char}
    (ends : endsNumeral text = true) : NumeralText text := by
  rcases text with _ | ⟨letter, text⟩
  · intro character member
    cases member
  · simp only [endsNumeral, Bool.and_eq_true, Bool.or_eq_true,
      decide_eq_true_eq, List.all_eq_true] at ends
    rcases ends with ⟨⟨isLetter, -⟩, digits⟩
    apply numeralText_cons
    · rcases isLetter with rfl | rfl
      · decide
      · decide
    · apply numeralText_of_skipSign
      intro character member
      rw [numeralCharacter, digits character member, Bool.true_or]

theorem numeralText_of_isNumeral {field : List Char}
    (numeral : isNumeral field = true) : NumeralText field := by
  simp only [isNumeral, Bool.and_eq_true] at numeral
  apply numeralText_of_skipSign
  apply numeralText_of_span
  apply numeralText_of_fractionDigits
  exact numeralText_of_endsNumeral numeral.2

theorem ne_nil_of_isNumeral {field : List Char}
    (numeral : isNumeral field = true) : field ≠ [] := by
  rintro rfl
  exact absurd numeral (by decide)

end FederatedEdge.Dataset
