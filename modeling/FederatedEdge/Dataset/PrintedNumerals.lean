import FederatedEdge.Dataset.Numerals
import FederatedEdge.Library.Printf

/-!
# Reading printed numerals

What `sprintf` writes for a number is a numeral to its end, and has the value
which the numeral stands for.
-/

namespace FederatedEdge.Dataset

open FederatedEdge.Library

/-- Digits up to the first character which is none. -/
theorem span_digits {digits rest : List Char}
    (areDigits : ∀ digit ∈ digits, digit.isDigit = true)
    (ended : ∀ first ∈ rest.head?, first.isDigit = false) :
    (digits ++ rest).span Char.isDigit = (digits, rest) := by
  rw [List.span_eq_takeWhile_dropWhile]
  have stop : rest.takeWhile Char.isDigit = [] ∧
      rest.dropWhile Char.isDigit = rest := by
    cases rest with
    | nil => exact ⟨rfl, rfl⟩
    | cons first rest =>
        have other := ended first rfl
        simp [other]
  rw [List.takeWhile_append_of_pos areDigits,
    List.dropWhile_append_of_pos areDigits, stop.1, stop.2, List.append_nil]

theorem leadingDigits_eq {digits : List Char}
    (areDigits : ∀ digit ∈ digits, digit.isDigit = true) :
    leadingDigits digits = Nat.ofDigitChars 10 digits 0 := by
  rw [leadingDigits, List.takeWhile_eq_self_iff.mpr areDigits]
  rfl

/-- A sign is skipped, a digit is not. -/
theorem skipSign_digits {digits rest : List Char} (nonempty : digits ≠ [])
    (areDigits : ∀ digit ∈ digits, digit.isDigit = true) :
    skipSign (digits ++ rest) = digits ++ rest := by
  rcases List.exists_cons_of_ne_nil nonempty with ⟨first, others, rfl⟩
  have digit := areDigits first List.mem_cons_self
  rw [List.cons_append]
  unfold skipSign
  split
  · rename_i same
    cases same
    exact absurd digit (by decide)
  · rename_i same
    cases same
    exact absurd digit (by decide)
  · rfl

theorem isNegative_digits {digits rest : List Char} (nonempty : digits ≠ [])
    (areDigits : ∀ digit ∈ digits, digit.isDigit = true) :
    isNegative (digits ++ rest) = false := by
  rcases List.exists_cons_of_ne_nil nonempty with ⟨first, others, rfl⟩
  have digit := areDigits first List.mem_cons_self
  rw [List.cons_append, isNegative, List.head?_cons, decide_eq_false_iff_not,
    Option.some.injEq]
  rintro rfl
  exact absurd digit (by decide)

/-! ## The front of a text

Each part of the reader takes some characters from the front of a text.  On a
shorter text which still has these characters it does the same. -/

/-- A text shortened behind its digits has the same digits. -/
theorem span_take (p : Char → Bool) (text : List Char) (count : ℕ) :
    (text.take ((text.span p).1.length + count)).span p =
      ((text.span p).1, (text.span p).2.take count) := by
  rw [List.span_eq_takeWhile_dropWhile, List.span_eq_takeWhile_dropWhile]
  dsimp only
  induction text with
  | nil => simp
  | cons first rest inductionHypothesis =>
      by_cases holds : p first = true
      · simp only [List.takeWhile_cons, List.dropWhile_cons, if_pos holds,
          List.length_cons, Nat.succ_add, List.take_succ_cons, Prod.mk.injEq,
          List.cons.injEq, true_and] at inductionHypothesis ⊢
        exact inductionHypothesis
      · rw [List.takeWhile_cons_of_neg holds, List.dropWhile_cons_of_neg holds,
          List.length_nil, Nat.zero_add]
        cases count with
        | zero => rfl
        | succ count =>
            rw [List.take_succ_cons, List.takeWhile_cons_of_neg holds,
              List.dropWhile_cons_of_neg holds]

theorem length_span (p : Char → Bool) (text : List Char) :
    (text.span p).1.length + (text.span p).2.length = text.length := by
  rw [List.span_eq_takeWhile_dropWhile, ← List.length_append,
    List.takeWhile_append_dropWhile]

theorem skipSign_cons_of_ne {first : Char} (minus : first ≠ '-')
    (plus : first ≠ '+') (rest : List Char) :
    skipSign (first :: rest) = first :: rest := by
  unfold skipSign
  split
  · rename_i same
    cases same
    exact (minus rfl).elim
  · rename_i same
    cases same
    exact (plus rfl).elim
  · rfl

theorem length_skipSign_le (text : List Char) :
    (skipSign text).length ≤ text.length := by
  unfold skipSign
  split
  · exact Nat.le_succ _
  · exact Nat.le_succ _
  · exact le_rfl

/-- Behind the sign a shortened text is the shortened rest. -/
theorem skipSign_take (text : List Char) (count : ℕ) :
    skipSign (text.take (text.length - (skipSign text).length + count)) =
      (skipSign text).take count := by
  cases text with
  | nil => simp [skipSign]
  | cons first rest =>
      by_cases sign : first = '-' ∨ first = '+'
      · have skipped (others : List Char) : skipSign (first :: others) = others := by
          rcases sign with rfl | rfl
          · rfl
          · rfl
        rw [skipped, List.length_cons, Nat.add_sub_cancel_left, Nat.add_comm,
          List.take_succ_cons, skipped]
      · rcases not_or.mp sign with ⟨minus, plus⟩
        rw [skipSign_cons_of_ne minus plus, Nat.sub_self, Nat.zero_add]
        cases count with
        | zero => rfl
        | succ count =>
            rw [List.take_succ_cons, skipSign_cons_of_ne minus plus]

theorem fractionDigits_cons_of_ne {first : Char} (point : first ≠ '.')
    (rest : List Char) : fractionDigits (first :: rest) = ([], first :: rest) := by
  unfold fractionDigits
  split
  · rename_i same
    cases same
    exact (point rfl).elim
  · rfl

theorem fractionDigits_take (text : List Char) (count : ℕ) :
    fractionDigits
        (text.take (text.length - (fractionDigits text).2.length + count)) =
      ((fractionDigits text).1, (fractionDigits text).2.take count) := by
  cases text with
  | nil => rw [List.take_nil]; simp [fractionDigits]
  | cons first rest =>
      by_cases point : first = '.'
      · subst point
        have pointed (others : List Char) :
            fractionDigits ('.' :: others) = others.span Char.isDigit := rfl
        have length := length_span Char.isDigit rest
        have front :
            ('.' :: rest).length - (rest.span Char.isDigit).2.length + count =
              (rest.span Char.isDigit).1.length + count + 1 := by
          rw [List.length_cons]
          omega
        rw [pointed, front, List.take_succ_cons, pointed, span_take]
      · rw [fractionDigits_cons_of_ne point, Nat.sub_self, Nat.zero_add]
        cases count with
        | zero => rfl
        | succ count =>
            rw [List.take_succ_cons, fractionDigits_cons_of_ne point]

theorem length_fractionDigits_le (text : List Char) :
    (fractionDigits text).1.length + (fractionDigits text).2.length ≤
      text.length := by
  unfold fractionDigits
  split
  · rw [length_span]
    exact Nat.le_succ _
  · simp

theorem leadingDigits_span (text : List Char) :
    leadingDigits text =
      Nat.ofDigitChars 10 (text.span Char.isDigit).1 0 := by
  rw [List.span_eq_takeWhile_dropWhile]
  rfl

theorem isNegative_take (text : List Char) {count : ℕ} (positive : 0 < count) :
    isNegative (text.take count) = isNegative text := by
  rcases Nat.exists_eq_succ_of_ne_zero positive.ne' with ⟨count, rfl⟩
  cases text with
  | nil => rfl
  | cons first rest => rfl

/-! ## Exponents -/

theorem readExponent_exponentText (exponent : Option ℤ) :
    readExponent (Numeral.exponentText exponent) = exponent.getD 0 := by
  cases exponent with
  | none => rfl
  | some exponent =>
      have value :
          leadingDigits (padded 2 exponent.natAbs) = exponent.natAbs := by
        rw [leadingDigits_eq fun _ => isDigit_padded, ofDigitChars_padded]
      rw [Numeral.exponentText, readExponent, if_pos (Or.inl rfl),
        Numeral.exponentDigits]
      by_cases negative : exponent < 0
      · have signs (digits : List Char) :
            isNegative ('-' :: digits) = true := rfl
        have skipped (digits : List Char) :
            skipSign ('-' :: digits) = digits := rfl
        rw [if_pos negative, signs, if_pos rfl, skipped, value,
          Option.getD_some]
        omega
      · have signs (digits : List Char) :
            isNegative ('+' :: digits) = false := rfl
        have skipped (digits : List Char) :
            skipSign ('+' :: digits) = digits := rfl
        rw [if_neg negative, signs, if_neg Bool.false_ne_true, skipped, value,
          Option.getD_some]
        omega

/-- What follows the fraction of a numeral does not start with a digit. -/
theorem head_exponentText (exponent : Option ℤ) :
    ∀ first ∈ (Numeral.exponentText exponent).head?,
      first.isDigit = false ∧ first ≠ '.' := by
  cases exponent with
  | none =>
      intro first member
      cases member
  | some exponent =>
      intro first member
      cases member
      decide

theorem fractionDigits_pointed {fraction : List Char} {rest : List Char}
    (areDigits : ∀ digit ∈ fraction, digit.isDigit = true)
    (ended : ∀ first ∈ rest.head?, first.isDigit = false ∧ first ≠ '.') :
    fractionDigits (Numeral.pointed fraction ++ rest) = (fraction, rest) := by
  cases fraction with
  | nil =>
      rw [Numeral.pointed, List.nil_append]
      unfold fractionDigits
      split
      · exact absurd rfl (ended '.' rfl).2
      · rfl
  | cons digit fraction =>
      exact span_digits areDigits fun first member => (ended first member).1

/-! ## Whole numerals -/

section Text

variable (numeral : Numeral)

theorem text_eq :
    numeral.text =
      (if numeral.negative then ['-'] else []) ++
        (numeral.whole ++
          (Numeral.pointed numeral.fraction ++
            Numeral.exponentText numeral.exponent)) := by
  rw [Numeral.text, List.append_assoc, List.append_assoc]

theorem skipSign_text :
    skipSign numeral.text =
      numeral.whole ++
        (Numeral.pointed numeral.fraction ++
          Numeral.exponentText numeral.exponent) := by
  have areDigits : ∀ digit ∈ numeral.whole, digit.isDigit = true :=
    fun digit member =>
      numeral.digits digit (List.mem_append_left _ member)
  rw [text_eq]
  split_ifs with negative
  · rfl
  · rw [List.nil_append]
    exact skipSign_digits numeral.nonempty areDigits

theorem isNegative_text : isNegative numeral.text = numeral.negative := by
  have areDigits : ∀ digit ∈ numeral.whole, digit.isDigit = true :=
    fun digit member =>
      numeral.digits digit (List.mem_append_left _ member)
  rw [text_eq]
  split_ifs with negative
  · rw [negative]
    rfl
  · rw [List.nil_append, isNegative_digits numeral.nonempty areDigits]
    exact (Bool.eq_false_of_not_eq_true negative).symm

/-- The whole part of a printed numeral, and what is behind it. -/
theorem span_text :
    (skipSign numeral.text).span Char.isDigit =
      (numeral.whole,
        Numeral.pointed numeral.fraction ++
          Numeral.exponentText numeral.exponent) := by
  rw [skipSign_text]
  apply span_digits
  · exact fun digit member =>
      numeral.digits digit (List.mem_append_left _ member)
  · intro first member
    rcases fraction : numeral.fraction with _ | ⟨digit, others⟩
    · rw [fraction] at member
      exact (head_exponentText _ first member).1
    · rw [fraction] at member
      cases member
      rfl

theorem fractionDigits_text :
    fractionDigits
        (Numeral.pointed numeral.fraction ++
          Numeral.exponentText numeral.exponent) =
      (numeral.fraction, Numeral.exponentText numeral.exponent) :=
  fractionDigits_pointed
    (fun digit member => numeral.digits digit (List.mem_append_right _ member))
    (head_exponentText _)

/-- A printed numeral is read as what it stands for. -/
theorem numeralValue_text : numeralValue numeral.text = numeral.value := by
  have magnitude :
      (leadingDigits (numeral.whole ++ numeral.fraction) : ℚ) *
          10 ^ (readExponent (Numeral.exponentText numeral.exponent) -
            numeral.fraction.length) =
        numeral.magnitude := by
    rw [leadingDigits_eq numeral.digits, readExponent_exponentText]
    rfl
  rw [numeralValue]
  simp only [span_text, fractionDigits_text, isNegative_text, magnitude]
  rfl

end Text

end FederatedEdge.Dataset
