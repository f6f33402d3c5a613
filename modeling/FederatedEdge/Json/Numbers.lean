import FederatedEdge.Dataset.PrintedNumerals
import FederatedEdge.Json.CJson
import FederatedEdge.Json.Double

/-!
# Numbers as text

`print_number` writes an integer with `%d`, and any other number with 15
significant digits if the number can be read back from them closely enough, and
with 17 otherwise.  The 17 digits determine a double.  The 15 digits may lead to
a neighbour; what was a `float` before is the same `float` again when it is
stored.
-/

namespace FederatedEdge.Json

open FederatedEdge.Library
open FederatedEdge.Dataset

/-! ## `strtod` -/

/-- What is behind an exponent, if there is one. -/
def skipExponent : List Char → List Char
  | [] => []
  | letter :: rest =>
      if letter = 'e' ∨ letter = 'E' then
        match (skipSign rest).span Char.isDigit with
        | ([], _) => letter :: rest
        | (_, behind) => behind
      else letter :: rest

/-- What is behind the numeral which a text starts with. -/
def skipNumeral (text : List Char) : Option (List Char) :=
  let (whole, rest) := (skipSign text).span Char.isDigit
  let (fraction, rest) := fractionDigits rest
  if whole = [] ∧ fraction = [] then none else some (skipExponent rest)

/--
`strtod` on a text without white space in front: the value, and the number of
characters it was read from; nothing if there is no numeral.
-/
def strtod (text : List Char) : Option (Double × ℕ) :=
  (skipNumeral text).map fun rest =>
    (.ofRat (numeralValue text), text.length - rest.length)

/-! ## `print_number` -/

/-- The size of `number_buffer`. -/
def numberBufferSize : ℕ := 26

/-- The 15 digits lead back to the number, or close to it. -/
def recovered (number : Finite) : Bool :=
  match strtod (sprintf_g 15 number.value).text with
  | some (test, _) => compare_double test (.finite number)
  | none => false

/-- The numeral which is written for a finite number. -/
def numeral (number : Finite) : Numeral :=
  if number.value = valueint number.value then
    sprintf_d (valueint number.value)
  else if recovered number then sprintf_g 15 number.value
  else sprintf_g 17 number.value

/-- The characters which are written for a number. -/
def numberText : Double → List Char
  | .finite number => (numeral number).text
  | .infinite _ => ['n', 'u', 'l', 'l']
  | .nan => ['n', 'u', 'l', 'l']

/-- `print_number`, up to the place it writes to. -/
def print_number (d : Double) : Option (List Char) :=
  if (numberText d).length > numberBufferSize - 1 then none
  else some (numberText d)

/-! ## Reading numerals -/

theorem skipExponent_exponentText (exponent : Option ℤ) :
    skipExponent (Numeral.exponentText exponent) = [] := by
  cases exponent with
  | none => rfl
  | some exponent =>
      have digits := @isDigit_padded 2 exponent.natAbs
      have nonempty : padded 2 exponent.natAbs ≠ [] := by
        apply List.ne_nil_of_length_pos
        have := le_length_padded 2 exponent.natAbs
        omega
      have span :
          (padded 2 exponent.natAbs).span Char.isDigit =
            (padded 2 exponent.natAbs, []) := by
        rw [← List.append_nil (padded 2 exponent.natAbs)]
        exact (span_digits (fun _ => digits) (by simp)).trans (by simp)
      rcases List.exists_cons_of_ne_nil nonempty with ⟨first, others, same⟩
      rw [Numeral.exponentText, skipExponent, if_pos (Or.inl rfl),
        Numeral.exponentDigits]
      have skipped (sign : Char) (either : sign = '-' ∨ sign = '+')
          (text : List Char) : skipSign (sign :: text) = text := by
        rcases either with rfl | rfl
        · rfl
        · rfl
      rw [skipped _ (by split_ifs; exact Or.inl rfl; exact Or.inr rfl), span,
        same]

/-- A printed numeral is read to its end. -/
theorem strtod_text (printed : Numeral) :
    strtod printed.text =
      some (.ofRat printed.value, printed.text.length) := by
  have read : skipNumeral printed.text = some [] := by
    rw [skipNumeral]
    simp only [span_text, fractionDigits_text]
    rw [if_neg fun both => printed.nonempty both.1, skipExponent_exponentText]
  rw [strtod, read, numeralValue_text]
  rfl

/-! ## The characters a numeral is read from -/

theorem length_skipExponent_le (text : List Char) :
    (skipExponent text).length ≤ text.length := by
  cases text with
  | nil => exact le_rfl
  | cons letter rest =>
      have whole := length_span Char.isDigit (skipSign rest)
      have shorter := length_skipSign_le rest
      rw [skipExponent]
      split_ifs
      · split
        · exact le_rfl
        · rename_i scanned
          rw [scanned] at whole
          rw [List.length_cons]
          dsimp only at whole
          omega
      · exact le_rfl

/-- The characters of an exponent are an exponent with the same value. -/
theorem exponent_take (text : List Char) :
    skipExponent (text.take (text.length - (skipExponent text).length)) = [] ∧
      readExponent (text.take (text.length - (skipExponent text).length)) =
        readExponent text := by
  cases text with
  | nil => exact ⟨rfl, rfl⟩
  | cons letter rest =>
      by_cases marked : letter = 'e' ∨ letter = 'E'
      · have all := span_take Char.isDigit (skipSign rest) 0
        have whole := length_span Char.isDigit (skipSign rest)
        have sign := skipSign_take rest ((skipSign rest).span Char.isDigit).1.length
        have shorter := length_skipSign_le rest
        have value := leadingDigits_span (skipSign rest)
        rcases scanned : (skipSign rest).span Char.isDigit with ⟨digits, behind⟩
        rw [scanned, Nat.add_zero, List.take_zero] at all
        rw [scanned] at whole sign value
        cases digits with
        | nil =>
            have unread : readExponent (letter :: rest) = 0 := by
              rw [readExponent, if_pos marked, value]
              simp
            have same : skipExponent (letter :: rest) = letter :: rest := by
              rw [skipExponent, if_pos marked, scanned]
            rw [unread, same, Nat.sub_self]
            exact ⟨rfl, rfl⟩
        | cons digit digits =>
            have skipped : skipExponent (letter :: rest) = behind := by
              rw [skipExponent, if_pos marked, scanned]
            have front : (letter :: rest).length - behind.length =
                rest.length - (skipSign rest).length + (digit :: digits).length
                  + 1 := by
              rw [List.length_cons]
              dsimp only at whole
              omega
            have value' :=
              leadingDigits_span ((skipSign rest).take (digit :: digits).length)
            rw [all] at value'
            dsimp only at sign
            rw [skipped, front, List.take_succ_cons]
            constructor
            · rw [skipExponent, if_pos marked, sign, all]
            · rw [readExponent, if_pos marked, readExponent, if_pos marked, sign,
                isNegative_take _ (by simp), value, value']
      · have unread : readExponent (letter :: rest) = 0 := by
          rw [readExponent, if_neg marked]
        rw [unread, skipExponent, if_neg marked, Nat.sub_self]
        exact ⟨rfl, rfl⟩

/-- A numeral is read from the characters which it consists of. -/
theorem strtod_take {text : List Char} {value : Double} {count : ℕ}
    (read : strtod text = some (value, count)) :
    0 < count ∧ count ≤ text.length ∧
      strtod (text.take count) = some (value, count) := by
  rcases Option.map_eq_some_iff.mp read with ⟨rest, scanned, same⟩
  rw [Prod.mk.injEq] at same
  rcases same with ⟨sameValue, sameCount⟩
  have signs := length_skipSign_le text
  have wholes := length_span Char.isDigit (skipSign text)
  have fractions :=
    length_fractionDigits_le ((skipSign text).span Char.isDigit).2
  have exponents :=
    length_skipExponent_le
      (fractionDigits ((skipSign text).span Char.isDigit).2).2
  have first (amount : ℕ) := skipSign_take text amount
  have second (amount : ℕ) := span_take Char.isDigit (skipSign text) amount
  have third (amount : ℕ) :=
    fractionDigits_take ((skipSign text).span Char.isDigit).2 amount
  have fourth :=
    exponent_take (fractionDigits ((skipSign text).span Char.isDigit).2).2
  have numeral := numeralValue.eq_1 text
  rw [skipNumeral] at scanned
  generalize (skipSign text).span Char.isDigit = spanned
    at scanned wholes fractions exponents second third fourth numeral
  rcases spanned with ⟨whole, afterWhole⟩
  dsimp only at scanned wholes fractions exponents second third fourth numeral
  generalize fractionDigits afterWhole = digits
    at scanned fractions exponents third fourth numeral
  rcases digits with ⟨fraction, afterFraction⟩
  dsimp only at scanned fractions exponents third fourth numeral
  split_ifs at scanned with empty
  rw [Option.some.injEq] at scanned
  subst scanned
  have nonempty : 0 < whole.length + fraction.length := by
    by_contra nothing
    exact empty
      ⟨List.eq_nil_of_length_eq_zero (by omega),
        List.eq_nil_of_length_eq_zero (by omega)⟩
  have split : count =
      text.length - (skipSign text).length +
        (whole.length +
          (afterWhole.length - afterFraction.length +
            (afterFraction.length - (skipExponent afterFraction).length))) := by
    omega
  have positive : 0 < count := by omega
  have within : count ≤ text.length := by omega
  have negative := isNegative_take text positive
  have front := first
    (whole.length +
      (afterWhole.length - afterFraction.length +
        (afterFraction.length - (skipExponent afterFraction).length)))
  rw [← split] at front
  have again : skipNumeral (text.take count) = some [] := by
    rw [skipNumeral, front]
    simp only [second, third]
    rw [if_neg empty, fourth.1]
  have sameNumeral : numeralValue (text.take count) = numeralValue text := by
    rw [numeral, numeralValue, front, negative]
    simp only [second, third, fourth.2]
  refine ⟨positive, within, ?_⟩
  rw [strtod, again, Option.map_some, sameNumeral, sameValue, List.length_take,
    List.length_nil, Nat.min_eq_left within, Nat.sub_zero]

/-! ## Where a numeral is read -/

/-- A numeral has a digit behind its sign, or behind its sign and a point. -/
theorem strtod_isSome_iff {text : List Char} :
    (strtod text).isSome = true ↔
      ∃ digit rest, digit.isDigit = true ∧
        (skipSign text = digit :: rest ∨ skipSign text = '.' :: digit :: rest) := by
  have leads (digits : List Char) :
      (digits.span Char.isDigit).1 ≠ [] ↔
        ∃ digit rest, digit.isDigit = true ∧ digits = digit :: rest := by
    rw [List.span_eq_takeWhile_dropWhile]
    cases digits with
    | nil => simp
    | cons first rest =>
        by_cases isDigit : first.isDigit = true
        · simp [isDigit]
        · simp [isDigit]
  have nothing : fractionDigits [] = ([], []) := rfl
  rw [strtod, Option.isSome_map, skipNumeral]
  generalize skipSign text = unsigned
  have whole := leads unsigned
  by_cases isWhole : (unsigned.span Char.isDigit).1 ≠ []
  · rcases whole.mp isWhole with ⟨digit, rest, isDigit, same⟩
    simp only [isWhole, false_and, if_false, Option.isSome_some, true_iff]
    exact ⟨digit, rest, isDigit, Or.inl same⟩
  · rw [ne_eq, not_not] at isWhole
    have stays : unsigned.span Char.isDigit = ([], unsigned) := by
      have split := List.takeWhile_append_dropWhile (p := Char.isDigit) (l := unsigned)
      rw [List.span_eq_takeWhile_dropWhile] at isWhole ⊢
      dsimp only at isWhole
      rw [isWhole, List.nil_append] at split
      rw [isWhole, split]
    have noDigit : ∀ digit rest, digit.isDigit = true → unsigned ≠ digit :: rest := by
      intro digit rest isDigit same
      exact whole.mpr ⟨digit, rest, isDigit, same⟩ isWhole
    have fraction : (fractionDigits unsigned).1 ≠ [] ↔
        ∃ digit rest, digit.isDigit = true ∧ unsigned = '.' :: digit :: rest := by
      cases unsigned with
      | nil => simp [nothing]
      | cons first rest =>
          by_cases point : first = '.'
          · subst point
            rw [show fractionDigits ('.' :: rest) = rest.span Char.isDigit from rfl, leads]
            simp
          · rw [fractionDigits_cons_of_ne point]
            simp [point]
    rw [stays]
    simp only [true_and]
    constructor
    · intro read
      split_ifs at read with none
      · exact absurd read (by simp)
      · rcases fraction.mp none with ⟨digit, rest, isDigit, same⟩
        exact ⟨digit, rest, isDigit, Or.inr same⟩
    · rintro ⟨digit, rest, isDigit, same | same⟩
      · exact absurd same (noDigit digit rest isDigit)
      · rw [if_neg (fraction.mpr ⟨digit, rest, isDigit, same⟩)]
        rfl

/-- A numeral is read from every text which begins with one. -/
theorem strtod_isSome_append {text : List Char} (read : (strtod text).isSome = true)
    (more : List Char) : (strtod (text ++ more)).isSome = true := by
  rw [strtod_isSome_iff] at read ⊢
  have unsigned : skipSign text ≠ [] → skipSign (text ++ more) = skipSign text ++ more := by
    intro nonempty
    cases text with
    | nil => exact absurd rfl nonempty
    | cons first rest =>
        by_cases minus : first = '-'
        · subst minus
          rfl
        · by_cases plus : first = '+'
          · subst plus
            rfl
          · rw [List.cons_append, skipSign_cons_of_ne minus plus,
              skipSign_cons_of_ne minus plus, List.cons_append]
  rcases read with ⟨digit, rest, isDigit, same | same⟩
  · exact ⟨digit, rest ++ more, isDigit, Or.inl (by rw [unsigned (by simp [same]), same]; rfl)⟩
  · exact ⟨digit, rest ++ more, isDigit, Or.inr (by rw [unsigned (by simp [same]), same]; rfl)⟩

/-! ## The characters of printed numbers -/

theorem two_pow_le_ten_pow (count : ℕ) : (2 : ℚ) ^ (3 * count) ≤ 10 ^ count := by
  rw [pow_mul]
  exact pow_le_pow_left₀ (by norm_num) (by norm_num) count

/-- The leading decimal digit of a double is not far from the point. -/
theorem Finite.exponent_bounded (number : Finite) (nonzero : number.value ≠ 0)
    (count : ℕ) :
    (significantDigits count |number.value|).2.natAbs < 1000 := by
  have positive := abs_pos.mpr nonzero
  have upper : Int.log 10 |number.value| < 342 := by
    rw [← Int.lt_zpow_iff_log_lt (by norm_num) positive]
    refine number.bounded.trans_le ?_
    show (2 : ℚ) ^ (1024 : ℤ) ≤ ((10 : ℕ) : ℚ) ^ ((342 : ℕ) : ℤ)
    rw [zpow_natCast, Nat.cast_ofNat]
    refine le_trans ?_ (two_pow_le_ten_pow 342)
    rw [← zpow_natCast]
    exact zpow_le_zpow_right₀ one_le_two (by norm_num)
  have lower : -359 ≤ Int.log 10 |number.value| := by
    rw [← Int.zpow_le_iff_le_log (by norm_num) positive]
    have least : (-1074 : ℤ) ≤ binary64.quantum number.value :=
      binary64.least_le_quantum number.value
    have log := number.representable.quantum_le_log nonzero
    refine le_trans ?_
      ((zpow_le_zpow_right₀ one_le_two (least.trans log)).trans
        (BinaryFormat.two_zpow_log_le nonzero))
    show ((10 : ℕ) : ℚ) ^ (-((359 : ℕ) : ℤ)) ≤ (2 : ℚ) ^ (-1074 : ℤ)
    rw [zpow_neg, zpow_natCast, Nat.cast_ofNat]
    refine (inv_anti₀ (pow_pos two_pos _) (two_pow_le_ten_pow 359)).trans ?_
    rw [← zpow_natCast, ← zpow_neg]
    exact zpow_le_zpow_right₀ one_le_two (by norm_num)
  rcases exponent_significantDigits count |number.value| with same | next
  · rw [same]
    omega
  · rw [next]
    omega

theorem isInt_valueint_of_eq {x : ℚ} (integer : x = valueint x) :
    IsInt (valueint x) := by
  by_cases atTop : x ≥ INT_MAX
  · rw [valueint, if_pos atTop]
    decide
  · by_cases atBottom : x ≤ INT_MIN
    · rw [valueint, if_neg atTop, if_pos atBottom]
      decide
    · rw [integer] at atTop atBottom
      constructor
      · exact_mod_cast (not_le.mp atBottom).le
      · exact_mod_cast (not_le.mp atTop).le

theorem length_numeral_lt (number : Finite) :
    (numeral number).text.length < numberBufferSize := by
  rw [numeral]
  split_ifs with integer close
  · have digits : (Nat.toDigits 10 (valueint number.value).natAbs).length ≤ 10 := by
      rw [Nat.length_toDigits_le_iff (by norm_num) (by norm_num)]
      have isInt := isInt_valueint_of_eq integer
      unfold IsInt INT_MIN INT_MAX at isInt
      omega
    refine (length_text_le _ (by rintro value ⟨⟩)).trans_lt ?_
    simp only [sprintf_d, List.length_nil, Option.isSome_none,
      Bool.false_eq_true, if_false, numberBufferSize]
    omega
  · have nonzero : number.value ≠ 0 := by
      intro zero
      rw [zero] at integer
      exact integer (by decide)
    have length :=
      length_text_sprintf_g_le (show 0 < 15 by norm_num) nonzero
        (number.exponent_bounded nonzero 15)
    unfold numberBufferSize
    omega
  · have nonzero : number.value ≠ 0 := by
      intro zero
      rw [zero] at integer
      exact integer (by decide)
    have length :=
      length_text_sprintf_g_le (show 0 < 17 by norm_num) nonzero
        (number.exponent_bounded nonzero 17)
    unfold numberBufferSize
    omega

/-- The buffer is large enough for every number. -/
theorem length_numberText_lt (d : Double) :
    (numberText d).length < numberBufferSize := by
  cases d with
  | finite number => exact length_numeral_lt number
  | infinite negative => exact show 4 < 26 by decide
  | nan => exact show 4 < 26 by decide

theorem print_number_eq (d : Double) : print_number d = some (numberText d) := by
  have fits := length_numberText_lt d
  rw [print_number, if_neg (by omega)]

/-- A printed number consists of the characters of numerals. -/
theorem numeralText_text (printed : Numeral) : NumeralText printed.text := by
  have isCharacter {digit : Char} (isDigit : digit.isDigit = true) :
      numeralCharacter digit = true := by
    rw [numeralCharacter, isDigit, Bool.true_or]
  apply numeralText_of_skipSign
  apply numeralText_of_span
  rw [span_text]
  apply numeralText_of_fractionDigits
  rw [fractionDigits_text]
  cases printed.exponent with
  | none => exact fun character member => (List.not_mem_nil member).elim
  | some exponent =>
      apply numeralText_cons (by decide)
      apply numeralText_cons
      · split_ifs
        · decide
        · decide
      · exact fun character member => isCharacter (isDigit_padded member)

/-- It starts with a sign or a digit. -/
theorem exists_cons_text (printed : Numeral) :
    ∃ first rest, printed.text = first :: rest ∧
      (first = '-' ∨ first.isDigit = true) := by
  rcases List.exists_cons_of_ne_nil printed.nonempty with ⟨digit, others, whole⟩
  rw [text_eq, whole]
  split_ifs with negative
  · exact ⟨'-', _, rfl, Or.inl rfl⟩
  · refine ⟨digit, _, rfl, Or.inr ?_⟩
    apply printed.digits
    rw [whole]
    exact List.mem_append_left _ List.mem_cons_self

/-! ## How close the 15 digits lead -/

/-- The 17 digits of a double determine it. -/
theorem ofRat_value_sprintf_g {number : Finite} (nonzero : number.value ≠ 0) :
    Double.ofRat (sprintf_g 17 number.value).value = .finite number := by
  have magnitude : binary64.Representable |number.value| := by
    rcases abs_choice number.value with same | opposite
    · rw [same]
      exact number.representable
    · rw [opposite]
      exact number.representable.neg
  have exact_ :=
    round_significantDigits (abs_pos.mpr nonzero)
      (show 0 < 17 by norm_num) magnitude
      (show 2 ^ 53 < 10 ^ (17 - 1) by norm_num)
  apply ofRat_eq_finite
  rw [value_sprintf_g (by norm_num) nonzero]
  split_ifs with negative
  · rw [BinaryFormat.round_neg, exact_, abs_of_neg negative, neg_neg]
  · rw [exact_, abs_of_nonneg (not_lt.mp negative)]

/-- `compare_double` on finite doubles compares the rounded values. -/
theorem compare_double_finite {a b : Finite}
    (accepted : compare_double (.finite a) (.finite b) = true) :
    |binary64.round (a.value - b.value)| ≤
      binary64.round (max |a.value| |b.value| * 2 ^ (-52 : ℤ)) := by
  have maximum : ∃ largest : Finite,
      (if (Double.fabs (.finite a)).gt (Double.fabs (.finite b)) then
          Double.fabs (.finite a)
        else Double.fabs (.finite b)) = .finite largest ∧
        largest.value = max |a.value| |b.value| := by
    by_cases order : |a.value| ≤ |b.value|
    · refine ⟨_, if_neg ?_, (max_eq_right order).symm⟩
      simp [Double.gt, Double.fabs, Double.le, order]
    · refine ⟨_, if_pos ?_, (max_eq_left (not_le.mp order).le).symm⟩
      simp [Double.gt, Double.fabs, Double.le, not_le.mp order]
  rcases maximum with ⟨largest, chosen, value⟩
  have bound : |largest.value * 2 ^ (-52 : ℤ)| ≤ 2 ^ (972 : ℤ) := by
    rw [abs_mul, abs_of_pos (two_zpow_pos (K := ℚ) (-52)),
      show (972 : ℤ) = binary64.limit + -52 from rfl, zpow_add₀ two_ne_zero]
    exact mul_le_mul_of_nonneg_right largest.bounded.le (two_zpow_pos _).le
  rcases ofRat_of_bounded (by decide) (by decide) bound
    with ⟨epsilon, product, rounded⟩
  rw [compare_double, chosen] at accepted
  simp only [Double.sub, Double.mulEpsilon, product] at accepted
  rw [← value, ← rounded]
  by_cases bounded :
      |binary64.round (a.value - b.value)| < 2 ^ binary64.limit
  · rw [Double.ofRat, dif_pos bounded] at accepted
    simpa [Double.fabs, Double.le] using accepted
  · rw [Double.ofRat, dif_neg bounded] at accepted
    simp [Double.fabs, Double.le] at accepted

/-- Numbers which are not tiny are close to what `compare_double` accepts. -/
theorem near_of_compare_double {read number : Finite}
    (accepted : compare_double (.finite read) (.finite number) = true)
    (large : 2 ^ (-900 : ℤ) ≤ |number.value|) :
    |read.value - number.value| ≤ |number.value| * 2 ^ (-49 : ℤ) := by
  have compared := compare_double_finite accepted
  have larger : |number.value| ≤ max |read.value| |number.value| :=
    le_max_right _ _
  have positive : 0 < max |read.value| |number.value| :=
    (two_zpow_pos _).trans_le (large.trans larger)
  have same := abs_of_pos positive
  have leading : (-900 : ℤ) ≤ Int.log 2 (max |read.value| |number.value|) := by
    rw [← same]
    apply BinaryFormat.le_log_of_le positive.ne'
    rw [same]
    exact large.trans larger
  have lower := BinaryFormat.two_zpow_log_le positive.ne'
  have upper := BinaryFormat.lt_two_zpow_log (max |read.value| |number.value|)
  rw [same] at lower upper
  generalize Int.log 2 (max |read.value| |number.value|) = log
    at leading lower upper
  -- the rounded product is below the next power of two
  have product :
      binary64.round (max |read.value| |number.value| * 2 ^ (-52 : ℤ)) ≤
        2 ^ (log - 51) := by
    apply (BinaryFormat.representable_zpow _).round_le
    · rw [show log - 51 = log + 1 + -52 by ring, zpow_add₀ two_ne_zero]
      exact mul_le_mul_of_nonneg_right upper.le (two_zpow_pos _).le
    · show (-1074 : ℤ) ≤ log - 51
      omega
  have difference : |read.value - number.value| < 2 ^ (log - 50) := by
    by_contra apart
    have above : 2 ^ (log - 50) ≤ binary64.round |read.value - number.value| := by
      apply (BinaryFormat.representable_zpow _).le_round (not_lt.mp apart)
      show (-1074 : ℤ) ≤ log - 50
      omega
    rw [BinaryFormat.abs_round] at compared
    have less : (2 : ℚ) ^ (log - 51) < 2 ^ (log - 50) :=
      zpow_lt_zpow_right₀ one_lt_two (by omega)
    linarith
  have small : |read.value - number.value| ≤
      max |read.value| |number.value| * 2 ^ (-50 : ℤ) := by
    refine difference.le.trans ?_
    rw [sub_eq_add_neg, zpow_add₀ two_ne_zero]
    exact mul_le_mul_of_nonneg_right lower (two_zpow_pos _).le
  have double : max |read.value| |number.value| ≤ 2 * |number.value| := by
    apply max_le
    · have triangle := abs_sub_abs_le_abs_sub read.value number.value
      have notNegative := abs_nonneg number.value
      have tiny : |read.value - number.value| ≤
          max |read.value| |number.value| * (1 / 2) :=
        small.trans (mul_le_mul_of_nonneg_left (by norm_num) positive.le)
      rcases max_choice |read.value| |number.value| with same | same
      · rw [same] at tiny
        linarith
      · rw [same] at tiny
        linarith
    · have notNegative := abs_nonneg number.value
      linarith
  calc
    |read.value - number.value| ≤ 2 * |number.value| * 2 ^ (-50 : ℤ) :=
      small.trans (mul_le_mul_of_nonneg_right double (two_zpow_pos _).le)
    _ = |number.value| * 2 ^ (-49 : ℤ) := by
      rw [show (-49 : ℤ) = 1 + -50 from rfl, zpow_add₀ two_ne_zero]
      ring

/-! ## What is read back -/

/-- The number read from what was written for a finite one. -/
def reread (number : Finite) : Double :=
  .ofRat (numeral number).value

theorem strtod_numeral (number : Finite) :
    strtod (numeral number).text =
      some (reread number, (numeral number).text.length) :=
  strtod_text _

/--
A double is read back, or another one which `compare_double` takes for the
same, and then fifteen digits were written.
-/
theorem reread_cases (number : Finite) :
    reread number = .finite number ∨
      reread number = .ofRat (sprintf_g 15 number.value).value ∧
        compare_double (reread number) (.finite number) = true := by
  rw [reread, numeral]
  split_ifs with integer close
  · left
    rw [value_sprintf_d, ← integer, ofRat_value]
  · right
    rw [recovered, strtod_text] at close
    exact ⟨rfl, close⟩
  · left
    apply ofRat_value_sprintf_g
    intro zero
    rw [zero] at integer
    exact integer (by decide)

/-- Integers in the range of `int` are read back. -/
theorem reread_of_isInt {number : Finite} {value : ℤ} (isInt : IsInt value)
    (same : number.value = value) : reread number = .finite number := by
  have integer : number.value = valueint number.value := by
    rw [same, valueint_intCast isInt]
  rw [reread, numeral, if_pos integer, value_sprintf_d, ← integer, ofRat_value]

/-- The decimal of 15 digits has about the size of the number. -/
theorem abs_value_sprintf_g_bounds {x : ℚ} (nonzero : x ≠ 0) :
    |x| ≤ 2 * |(sprintf_g 15 x).value| ∧ |(sprintf_g 15 x).value| ≤ 2 * |x| := by
  have positive := abs_pos.mpr nonzero
  have near := abs_digitsValue_sub_le positive (show 0 < 15 by norm_num)
  have notNegative : (0 : ℚ) ≤ digitsValue 15 (significantDigits 15 |x|) :=
    mul_nonneg (Nat.cast_nonneg _) (lastDigit_pos _ _).le
  have written :
      |(sprintf_g 15 x).value| = digitsValue 15 (significantDigits 15 |x|) := by
    rw [value_sprintf_g (by norm_num) nonzero]
    split_ifs
    · rw [abs_neg, abs_of_nonneg notNegative]
    · exact abs_of_nonneg notNegative
  have above := le_abs_self (digitsValue 15 (significantDigits 15 |x|) - |x|)
  have below := neg_abs_le (digitsValue 15 (significantDigits 15 |x|) - |x|)
  rw [written]
  norm_num at near
  constructor <;> linarith

/-- Far from the limit of the format, a finite double is read back. -/
theorem exists_reread {number : Finite} (bounded : |number.value| ≤ 2 ^ (1022 : ℤ)) :
    ∃ read : Finite, reread number = .finite read ∧
      (read = number ∨
        reread number = .ofRat (sprintf_g 15 number.value).value ∧
          compare_double (.finite read) (.finite number) = true) := by
  rcases reread_cases number with same | ⟨digits, accepted⟩
  · exact ⟨number, same, Or.inl rfl⟩
  · rcases eq_or_ne number.value 0 with zero | nonzero
    · have isInt : reread number = .finite number :=
        reread_of_isInt (show IsInt 0 by decide) (zero.trans Int.cast_zero.symm)
      exact ⟨number, isInt, Or.inl rfl⟩
    · have small : |(sprintf_g 15 number.value).value| ≤ 2 ^ (1023 : ℤ) := by
        rw [show (1023 : ℤ) = 1 + 1022 from rfl, zpow_add₀ two_ne_zero, zpow_one]
        have twice := (abs_value_sprintf_g_bounds nonzero).2
        linarith
      rcases ofRat_of_bounded (by decide) (by decide) small with ⟨read, finite, -⟩
      rw [← digits] at finite
      refine ⟨read, finite, Or.inr ⟨digits, ?_⟩⟩
      rw [← finite]
      exact accepted

/-! ## Floats -/

/-- The value of a finite `float`. -/
def IsFloat (x : ℚ) : Prop :=
  binary32.round x = x ∧ |x| < 2 ^ binary32.limit

instance (x : ℚ) : Decidable (IsFloat x) := by
  unfold IsFloat
  infer_instance

theorem IsFloat.representable {x : ℚ} (isFloat : IsFloat x) :
    binary32.Representable x :=
  BinaryFormat.round_eq_self_iff.mp isFloat.1

/-- Every `float` is a double. -/
theorem IsFloat.representable_binary64 {x : ℚ} (isFloat : IsFloat x) :
    binary64.Representable x := by
  rcases isFloat.representable with ⟨significand, exponent, small, large, same⟩
  refine ⟨significand, exponent, small.trans (by decide), ?_, same⟩
  exact le_trans (by decide) large

/-- The cast `(double)x`. -/
def IsFloat.toDouble {x : ℚ} (isFloat : IsFloat x) : Finite where
  value := x
  rounded := isFloat.representable_binary64.round_self
  bounded := isFloat.2.trans (zpow_lt_zpow_right₀ one_lt_two (by decide))

theorem IsFloat.large {x : ℚ} (isFloat : IsFloat x) (nonzero : x ≠ 0) :
    2 ^ (-149 : ℤ) ≤ |x| := by
  have least : (-149 : ℤ) ≤ binary32.quantum x := binary32.least_le_quantum x
  have log := isFloat.representable.quantum_le_log nonzero
  exact (zpow_le_zpow_right₀ one_le_two (least.trans log)).trans
    (BinaryFormat.two_zpow_log_le nonzero)

/--
What is read back for a `float` may be another double, but it becomes the same
`float` when it is stored.
-/
theorem reread_float {x : ℚ} (isFloat : IsFloat x) :
    ∃ read : Finite, reread isFloat.toDouble = .finite read ∧
      binary32.round read.value = x := by
  have itself : binary32.round x = x := isFloat.1
  rcases eq_or_ne x 0 with rfl | nonzero
  · refine ⟨_, reread_of_isInt (show IsInt 0 by decide) Int.cast_zero.symm, itself⟩
  have bounded : |isFloat.toDouble.value| ≤ 2 ^ (1022 : ℤ) :=
    isFloat.2.le.trans (zpow_le_zpow_right₀ one_le_two (by decide))
  rcases exists_reread bounded with ⟨read, finite, same | ⟨-, accepted⟩⟩
  · refine ⟨read, finite, ?_⟩
    rw [same]
    exact itself
  · refine ⟨read, finite, isFloat.representable.round_eq ?_⟩
    have close := near_of_compare_double accepted
      ((zpow_le_zpow_right₀ one_le_two (by norm_num)).trans (isFloat.large nonzero))
    have positive := abs_pos.mpr nonzero
    change |read.value - x| ≤ |x| * 2 ^ (-49 : ℤ) at close
    show 2 * |read.value - x| * 2 ^ 24 < |x|
    norm_num at close ⊢
    linarith

/-! ## Through a text -/

/--
Every finite double fits the buffer, and what is read back is itself or what
`compare_double` takes for it; between the extremes it is close.
-/
theorem print_number_reads_back (number : Finite) :
    ∃ text value,
      print_number (.finite number) = some text ∧
        text.length < numberBufferSize ∧
          strtod text = some (value, text.length) ∧
            (value = .finite number ∨ compare_double value (.finite number) = true) ∧
              (2 ^ (-900 : ℤ) ≤ |number.value| → |number.value| ≤ 2 ^ (1022 : ℤ) →
                ∃ read : Finite, value = .finite read ∧
                  |read.value - number.value| ≤ |number.value| * 2 ^ (-49 : ℤ)) := by
  refine ⟨(numeral number).text, reread number, print_number_eq _,
    length_numeral_lt number, strtod_numeral number, ?_, ?_⟩
  · exact (reread_cases number).imp_right And.right
  · intro large bounded
    rcases exists_reread bounded with ⟨read, finite, rfl | ⟨-, accepted⟩⟩
    · refine ⟨read, finite, ?_⟩
      rw [sub_self, abs_zero]
      exact mul_nonneg (abs_nonneg _) (two_zpow_pos _).le
    · exact ⟨read, finite, near_of_compare_double accepted large⟩

/-- A `float` is the same after it was printed, read and stored. -/
theorem float_reads_back {x : ℚ} (isFloat : IsFloat x) :
    ∃ text read,
      print_number (.finite isFloat.toDouble) = some text ∧
        strtod text = some (.finite read, text.length) ∧
          binary32.round read.value = x := by
  rcases reread_float isFloat with ⟨read, finite, rounded⟩
  refine ⟨(numeral isFloat.toDouble).text, read, print_number_eq _, ?_, rounded⟩
  rw [← finite]
  exact strtod_numeral _

/-- The `float` which is nearest to one tenth. -/
theorem float_reads_back_sample :
    ∃ text read,
      strtod text = some (.finite read, text.length) ∧
        binary32.round read.value = 13421773 / 2 ^ 27 := by
  have isFloat : IsFloat (13421773 / 2 ^ 27) := by
    decide +kernel
  rcases float_reads_back isFloat with ⟨text, read, -, reads, rounded⟩
  exact ⟨text, read, reads, rounded⟩

end FederatedEdge.Json
