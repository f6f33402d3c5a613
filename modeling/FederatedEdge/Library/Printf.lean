import FederatedEdge.Library.SignificantDigits
import Mathlib.Data.List.DropRight
import Mathlib.Data.Rat.Floor

/-!
# Decimal numerals and `sprintf`

A numeral has a sign, digits before and behind a point, and maybe an exponent.
The conversions `%d` and `%g` of `sprintf` make such numerals of numbers, and
take the nearest number which has the digits they write.
-/

namespace FederatedEdge.Library

/-! ## Digits -/

theorem isDigit_toDigits {number : ℕ} {digit : Char}
    (member : digit ∈ Nat.toDigits 10 number) : digit.isDigit = true :=
  Nat.isDigit_of_mem_toDigits (by decide) (by decide) member

/-- At least `count` digits, with leading zeros. -/
def padded (count number : ℕ) : List Char :=
  let digits := Nat.toDigits 10 number
  List.replicate (count - digits.length) '0' ++ digits

theorem isDigit_padded {count number : ℕ} {digit : Char}
    (member : digit ∈ padded count number) : digit.isDigit = true := by
  rcases List.mem_append.mp member with zero | later
  · rw [List.eq_of_mem_replicate zero]
    rfl
  · exact isDigit_toDigits later

theorem le_length_padded (count number : ℕ) :
    count ≤ (padded count number).length := by
  rw [padded, List.length_append, List.length_replicate]
  omega

/-- Leading zeros do not count. -/
theorem ofDigitChars_padded (count number : ℕ) :
    Nat.ofDigitChars 10 (padded count number) 0 = number := by
  simp [padded, Nat.ofDigitChars_append]

/-! ## Numerals -/

structure Numeral where
  negative : Bool
  whole : List Char
  fraction : List Char
  exponent : Option ℤ
  nonempty : whole ≠ []
  digits : ∀ digit ∈ whole ++ fraction, digit.isDigit = true

namespace Numeral

/-- The point is there only in front of digits. -/
def pointed : List Char → List Char
  | [] => []
  | fraction => '.' :: fraction

/-- The sign of an exponent, and at least two digits. -/
def exponentDigits (exponent : ℤ) : List Char :=
  (if exponent < 0 then '-' else '+') :: padded 2 exponent.natAbs

def exponentText : Option ℤ → List Char
  | none => []
  | some exponent => 'e' :: exponentDigits exponent

/-- The characters of a numeral. -/
def text (numeral : Numeral) : List Char :=
  (if numeral.negative then ['-'] else []) ++ numeral.whole ++
    pointed numeral.fraction ++ exponentText numeral.exponent

/-- What the digits stand for, without the sign. -/
def magnitude (numeral : Numeral) : ℚ :=
  Nat.ofDigitChars 10 (numeral.whole ++ numeral.fraction) 0 *
    10 ^ (numeral.exponent.getD 0 - numeral.fraction.length)

def value (numeral : Numeral) : ℚ :=
  if numeral.negative then -numeral.magnitude else numeral.magnitude

end Numeral

/-! ## Conversions -/

/-- The conversion `%d`. -/
def sprintf_d (value : ℤ) : Numeral where
  negative := value < 0
  whole := Nat.toDigits 10 value.natAbs
  fraction := []
  exponent := none
  nonempty := Nat.toDigits_ne_nil
  digits := by
    intro digit member
    rw [List.append_nil] at member
    exact isDigit_toDigits member

/-- Digits without the zeros at their end. -/
def stripZeros (digits : List Char) : List Char :=
  digits.rdropWhile (· = '0')

theorem mem_of_mem_stripZeros {digits : List Char} {digit : Char}
    (member : digit ∈ stripZeros digits) : digit ∈ digits :=
  (List.rdropWhile_prefix (fun digit => digit = '0') digits).subset member

/-- The first digits, and the others without the zeros at their end. -/
def splitDigits (negative : Bool) (exponent : Option ℤ) (digits : List Char)
    (before : ℕ) (leading : 0 < before) (nonempty : digits ≠ [])
    (areDigits : ∀ digit ∈ digits, digit.isDigit = true) : Numeral where
  negative := negative
  whole := digits.take before
  fraction := stripZeros (digits.drop before)
  exponent := exponent
  nonempty := by
    rw [ne_eq, List.take_eq_nil_iff]
    exact not_or.mpr ⟨leading.ne', nonempty⟩
  digits := by
    intro digit member
    rcases List.mem_append.mp member with first | later
    · exact areDigits digit (List.mem_of_mem_take first)
    · exact areDigits digit (List.mem_of_mem_drop (mem_of_mem_stripZeros later))

/--
The conversion `%.{precision}g`: an exponent is written only when the point
would be far from the digits, and zeros at the end of the fraction are not.
-/
def sprintf_g (precision : ℕ) (x : ℚ) : Numeral :=
  if x = 0 then sprintf_d 0
  else
    let (significand, exponent) := significantDigits precision |x|
    let digits := Nat.toDigits 10 significand
    if exponent < -4 ∨ precision ≤ exponent then
      splitDigits (x < 0) (some exponent) digits 1 one_pos Nat.toDigits_ne_nil
        (fun _ => isDigit_toDigits)
    else if exponent < 0 then
      { negative := x < 0
        whole := ['0']
        fraction :=
          List.replicate (-exponent - 1).toNat '0' ++ stripZeros digits
        exponent := none
        nonempty := List.cons_ne_nil _ _
        digits := by
          intro digit member
          rcases List.mem_append.mp member with zero | later
          · rw [List.mem_singleton.mp zero]
            rfl
          · rcases List.mem_append.mp later with zero | later
            · rw [List.eq_of_mem_replicate zero]
              rfl
            · exact isDigit_toDigits (mem_of_mem_stripZeros later) }
    else
      splitDigits (x < 0) none digits (exponent.toNat + 1) (Nat.succ_pos _)
        Nat.toDigits_ne_nil (fun _ => isDigit_toDigits)

/-! ## What the conversions write -/

theorem value_sprintf_d (value : ℤ) : (sprintf_d value).value = value := by
  have magnitude : (sprintf_d value).magnitude = |(value : ℚ)| := by
    simp [sprintf_d, Numeral.magnitude, Nat.cast_natAbs]
  rw [Numeral.value, magnitude]
  by_cases negative : value < 0
  · have below : (value : ℚ) < 0 := by exact_mod_cast negative
    simp [sprintf_d, negative, abs_of_neg below]
  · have above : (0 : ℚ) ≤ value := by exact_mod_cast not_lt.mp negative
    simp [sprintf_d, negative, abs_of_nonneg above]

/-- Zeros at the end of a fraction do not count. -/
theorem ofDigitChars_stripZeros (front back : List Char) :
    (Nat.ofDigitChars 10 (front ++ stripZeros back) 0 : ℚ) *
        10 ^ (-(stripZeros back).length : ℤ) =
      Nat.ofDigitChars 10 (front ++ back) 0 * 10 ^ (-back.length : ℤ) := by
  have zeros :
      back.rtakeWhile (· = '0') =
        List.replicate (back.rtakeWhile (· = '0')).length '0' := by
    apply List.eq_replicate_of_mem
    intro digit member
    simpa using List.mem_rtakeWhile_imp member
  have split :
      back = stripZeros back ++
        List.replicate (back.rtakeWhile (· = '0')).length '0' := by
    rw [← zeros]
    exact List.rdropWhile_append_rtakeWhile.symm
  conv_rhs => rw [split]
  rw [← List.append_assoc, Nat.ofDigitChars_append (l := front ++ stripZeros back),
    Nat.ofDigitChars_replicate_zero, List.length_append, List.length_replicate]
  push_cast
  rw [neg_add, zpow_add₀ (by norm_num), zpow_neg, zpow_neg (10 : ℚ)
    (List.length (List.rtakeWhile _ _)), zpow_natCast, zpow_natCast]
  field_simp

theorem magnitude_splitDigits (negative : Bool) (exponent : Option ℤ)
    {digits : List Char} {before : ℕ} (leading : 0 < before)
    (within : before ≤ digits.length) (nonempty : digits ≠ [])
    (areDigits : ∀ digit ∈ digits, digit.isDigit = true) :
    (splitDigits negative exponent digits before leading nonempty
        areDigits).magnitude =
      Nat.ofDigitChars 10 digits 0 *
        10 ^ (exponent.getD 0 + before - digits.length) := by
  have value := ofDigitChars_stripZeros (digits.take before) (digits.drop before)
  rw [List.take_append_drop, List.length_drop] at value
  rw [Numeral.magnitude]
  show (Nat.ofDigitChars 10
      (digits.take before ++ stripZeros (digits.drop before)) 0 : ℚ) *
      10 ^ (exponent.getD 0 - ((stripZeros (digits.drop before)).length : ℤ)) = _
  rw [sub_eq_add_neg, zpow_add₀ (by norm_num), mul_left_comm, value,
    mul_left_comm, ← zpow_add₀ (by norm_num)]
  congr 2
  omega

/-- A number with that many digits is written with that many. -/
theorem length_toDigits {count number : ℕ} (enough : 0 < count)
    (lower : 10 ^ (count - 1) ≤ number) (upper : number < 10 ^ count) :
    (Nat.toDigits 10 number).length = count := by
  apply le_antisymm
  · exact (Nat.length_toDigits_le_iff (by norm_num) enough).mpr upper
  · by_contra less
    rcases Nat.eq_or_lt_of_le (Nat.succ_le_of_lt enough) with one | more
    · have := Nat.length_toDigits_pos (b := 10) (n := number)
      omega
    · have short : (Nat.toDigits 10 number).length ≤ count - 1 := by omega
      rw [Nat.length_toDigits_le_iff (by norm_num) (by omega)] at short
      omega

/-- `%g` writes the significant digits of the number. -/
theorem value_sprintf_g {precision : ℕ} (enough : 0 < precision) {x : ℚ}
    (nonzero : x ≠ 0) :
    (sprintf_g precision x).value =
      if x < 0 then -digitsValue precision (significantDigits precision |x|)
      else digitsValue precision (significantDigits precision |x|) := by
  rcases significantDigits_bounds (abs_pos.mpr nonzero) enough
    with ⟨lower, upper⟩
  have magnitude :
      (sprintf_g precision x).negative = decide (x < 0) ∧
        (sprintf_g precision x).magnitude =
          digitsValue precision (significantDigits precision |x|) := by
    rw [sprintf_g, if_neg nonzero, digitsValue, lastDigit]
    generalize significantDigits precision |x| = written at lower upper
    rcases written with ⟨significand, exponent⟩
    dsimp only at lower upper ⊢
    have length := length_toDigits enough lower upper
    split_ifs with far small
    · refine ⟨rfl, ?_⟩
      rw [magnitude_splitDigits, Nat.ofDigitChars_ten_toDigits, length]
      · simp
      · omega
    · refine ⟨rfl, ?_⟩
      have stripped := ofDigitChars_stripZeros [] (Nat.toDigits 10 significand)
      rw [List.nil_append, List.nil_append, Nat.ofDigitChars_ten_toDigits,
        length] at stripped
      rw [Numeral.magnitude]
      simp only [List.singleton_append, Option.getD_none, List.length_append,
        List.length_replicate]
      rw [Nat.ofDigitChars_cons, Nat.ofDigitChars_append,
        Nat.ofDigitChars_replicate_zero]
      simp only [Nat.mul_zero, Char.reduceToNat, Nat.sub_self, Nat.add_zero]
      have exponents :
          (0 - (((-exponent - 1).toNat +
              (stripZeros (Nat.toDigits 10 significand)).length : ℕ) : ℤ)) =
            -(stripZeros (Nat.toDigits 10 significand)).length +
              (exponent + 1) := by
        omega
      rw [exponents, zpow_add₀ (by norm_num), ← mul_assoc, stripped, mul_assoc,
        ← zpow_add₀ (by norm_num)]
      congr 2
      ring
    · refine ⟨rfl, ?_⟩
      rw [magnitude_splitDigits, Nat.ofDigitChars_ten_toDigits, length]
      · congr 2
        rw [Option.getD_none]
        omega
      · omega
  rw [Numeral.value, magnitude.1, magnitude.2]
  by_cases negative : x < 0
  · rw [decide_eq_true negative, if_pos rfl, if_pos negative]
  · rw [decide_eq_false negative, if_neg Bool.false_ne_true, if_neg negative]

/-! ## Integers as decimals -/

theorem toDigits_mul_pow {number : ℕ} (positive : 0 < number) (count : ℕ) :
    Nat.toDigits 10 (number * 10 ^ count) =
      Nat.toDigits 10 number ++ List.replicate count '0' := by
  induction count with
  | zero => simp
  | succ count inductionHypothesis =>
      have shifted := Nat.toDigits_append_toDigits (b := 10) (by norm_num)
        (show 0 < number * 10 ^ count by positivity) (show 0 < 10 by norm_num)
      have same : 10 * (number * 10 ^ count) + 0 = number * 10 ^ (count + 1) := by
        ring
      rw [same, inductionHypothesis, List.append_assoc] at shifted
      rw [← shifted, List.replicate_succ']
      rfl

theorem stripZeros_replicate (count : ℕ) : stripZeros (List.replicate count '0') = [] := by
  rw [stripZeros, List.rdropWhile_eq_nil_iff]
  intro digit member
  rw [List.eq_of_mem_replicate member]
  rfl

/-- The digits of a natural number, followed by zeros. -/
theorem significantDigits_natCast {precision number : ℕ} (positive : 0 < number)
    (short : (Nat.toDigits 10 number).length ≤ precision) :
    significantDigits precision (number : ℚ) =
      (number * 10 ^ (precision - (Nat.toDigits 10 number).length),
        ((Nat.toDigits 10 number).length : ℤ) - 1) := by
  have nonempty := Nat.length_toDigits_pos (b := 10) (n := number)
  have upper : number < 10 ^ (Nat.toDigits 10 number).length :=
    (Nat.length_toDigits_le_iff (by norm_num) nonempty).mp le_rfl
  have lower : 10 ^ ((Nat.toDigits 10 number).length - 1) ≤ number := by
    rcases Nat.eq_or_lt_of_le (Nat.succ_le_of_lt nonempty) with one | more
    · rw [← one]
      exact positive
    · by_contra less
      have shorter := (Nat.length_toDigits_le_iff (b := 10) (n := number) (by norm_num)
        (show 0 < (Nat.toDigits 10 number).length - 1 by omega)).mpr (not_le.mp less)
      omega
  generalize (Nat.toDigits 10 number).length = length at *
  have scale : (0 : ℕ) < 10 ^ (precision - length) := by positivity
  have value : digitsValue precision
      (number * 10 ^ (precision - length), (length : ℤ) - 1) = (number : ℚ) := by
    rw [digitsValue, lastDigit]
    push_cast
    rw [mul_assoc, ← zpow_natCast, ← zpow_add₀ (by norm_num), Nat.cast_sub short]
    rw [show (precision : ℤ) - length + (length - 1 + 1 - precision) = 0 by ring, zpow_zero,
      mul_one]
  apply significantDigits_eq (by omega)
  · calc
      10 ^ (precision - 1) = 10 ^ (length - 1) * 10 ^ (precision - length) := by
        rw [← pow_add]
        congr 1
        omega
      _ ≤ number * 10 ^ (precision - length) := Nat.mul_le_mul_right _ lower
  · calc
      number * 10 ^ (precision - length) < 10 ^ length * 10 ^ (precision - length) :=
        Nat.mul_lt_mul_of_pos_right upper scale
      _ = 10 ^ precision := by
        rw [← pow_add]
        congr 1
        omega
  · rw [value, sub_self, abs_zero, mul_zero, zero_mul]
    exact_mod_cast positive

/-- With enough digits `%g` writes an integer like `%d`. -/
theorem text_sprintf_g_intCast {precision : ℕ} {value : ℤ}
    (short : (Nat.toDigits 10 value.natAbs).length ≤ precision) :
    (sprintf_g precision value).text = (sprintf_d value).text := by
  by_cases zero : value = 0
  · rw [zero, sprintf_g, if_pos Int.cast_zero]
  have positive : 0 < value.natAbs := Int.natAbs_pos.mpr zero
  have magnitude : |(value : ℚ)| = (value.natAbs : ℚ) := by
    rw [Nat.cast_natAbs, Int.cast_abs]
  have nonempty := Nat.length_toDigits_pos (b := 10) (n := value.natAbs)
  have written := significantDigits_natCast positive short
  have all : (((Nat.toDigits 10 value.natAbs).length : ℤ) - 1).toNat + 1 =
      (Nat.toDigits 10 value.natAbs).length := by
    omega
  have negative : decide ((value : ℚ) < 0) = decide (value < 0) := by
    norm_cast
  rw [sprintf_g, if_neg (by exact_mod_cast zero), magnitude, written]
  dsimp only
  rw [if_neg (by omega), if_neg (by omega), Numeral.text, Numeral.text]
  simp only [splitDigits, sprintf_d, all, toDigits_mul_pow positive, List.take_left,
    List.drop_left, stripZeros_replicate, negative]
  rfl

/-- What `%g` writes depends on the sign and the significant digits. -/
theorem sprintf_g_congr {precision : ℕ} {x y : ℚ} (left : x ≠ 0) (right : y ≠ 0)
    (sign : x < 0 ↔ y < 0)
    (digits : significantDigits precision |x| = significantDigits precision |y|) :
    sprintf_g precision x = sprintf_g precision y := by
  rw [sprintf_g, sprintf_g, if_neg left, if_neg right, digits]
  simp only [sign]

/-! ## How long numerals are -/

theorem length_pointed_le (fraction : List Char) :
    (Numeral.pointed fraction).length ≤ fraction.length + 1 := by
  cases fraction with
  | nil => exact Nat.zero_le _
  | cons digit fraction => exact le_rfl

/-- An exponent below a thousand has at most three digits. -/
theorem length_exponentText_le {exponent : Option ℤ}
    (bounded : ∀ value ∈ exponent, value.natAbs < 1000) :
    (Numeral.exponentText exponent).length ≤ 5 := by
  cases exponent with
  | none => exact Nat.zero_le _
  | some exponent =>
      have digits : (Nat.toDigits 10 exponent.natAbs).length ≤ 3 :=
        (Nat.length_toDigits_le_iff (by norm_num) (by norm_num)).mpr
          (bounded exponent rfl)
      simp only [Numeral.exponentText, Numeral.exponentDigits, List.length_cons,
        padded, List.length_append, List.length_replicate]
      omega

theorem length_text_le (numeral : Numeral)
    (bounded : ∀ value ∈ numeral.exponent, value.natAbs < 1000) :
    numeral.text.length ≤
      numeral.whole.length + numeral.fraction.length +
        if numeral.exponent.isSome then 7 else 2 := by
  have point := length_pointed_le numeral.fraction
  have exponent := length_exponentText_le bounded
  have sign : (if numeral.negative then ['-'] else []).length ≤ 1 := by
    split_ifs
    · exact le_rfl
    · exact Nat.zero_le 1
  rw [Numeral.text, List.length_append, List.length_append, List.length_append]
  cases some_ : numeral.exponent with
  | none =>
      simp only [Numeral.exponentText, List.length_nil, Option.isSome_none,
        Bool.false_eq_true, if_false]
      omega
  | some value =>
      rw [some_] at exponent
      simp only [Option.isSome_some, if_true]
      omega

theorem length_stripZeros_le (digits : List Char) :
    (stripZeros digits).length ≤ digits.length :=
  (List.rdropWhile_prefix (fun digit => digit = '0') digits).length_le

/-- A number whose exponent is below a thousand is written shortly. -/
theorem length_text_sprintf_g_le {precision : ℕ} (enough : 0 < precision) {x : ℚ}
    (nonzero : x ≠ 0)
    (bounded : (significantDigits precision |x|).2.natAbs < 1000) :
    (sprintf_g precision x).text.length ≤ precision + 7 := by
  rcases significantDigits_bounds (abs_pos.mpr nonzero) enough
    with ⟨lower, upper⟩
  rw [sprintf_g, if_neg nonzero]
  generalize significantDigits precision |x| = written at lower upper bounded
  rcases written with ⟨significand, exponent⟩
  dsimp only at lower upper bounded ⊢
  have length := length_toDigits enough lower upper
  have split (before : ℕ) :
      (stripZeros (List.drop before (Nat.toDigits 10 significand))).length ≤
        precision - before := by
    refine (length_stripZeros_le _).trans ?_
    rw [List.length_drop, length]
  split_ifs with far small
  · refine (length_text_le _ ?_).trans ?_
    · rintro value ⟨⟩
      exact bounded
    · have rest := split 1
      simp only [splitDigits, List.length_take, Option.isSome_some, if_true]
      omega
  · refine (length_text_le _ (by rintro value ⟨⟩)).trans ?_
    have rest := split 0
    rw [List.drop_zero] at rest
    simp only [List.length_singleton, List.length_append, List.length_replicate,
      Option.isSome_none, Bool.false_eq_true, if_false]
    omega
  · refine (length_text_le _ (by rintro value ⟨⟩)).trans ?_
    have rest := split (exponent.toNat + 1)
    simp only [splitDigits, List.length_take, length, Option.isSome_none,
      Bool.false_eq_true, if_false]
    omega

example : (sprintf_g 15 (1 / 3)).text = "0.333333333333333".toList := by
  decide +kernel

end FederatedEdge.Library
