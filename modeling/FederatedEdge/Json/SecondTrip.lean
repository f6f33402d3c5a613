import FederatedEdge.Json.PrintedText

/-!
# Printing what was parsed

A number which is read from its text may be another double, but it is printed as
the same text: 15 digits survive a double.  So what was printed and parsed is
printed as the same text again, and is the same tree when it is parsed again.
-/

namespace FederatedEdge.Json

open FederatedEdge.Library
open FederatedEdge.Server
open BinaryFormat

/-! ## The 15 digits of a number -/

theorem compare_double_self (number : Finite) :
    compare_double (.finite number) (.finite number) = true := by
  have difference : Double.sub (.finite number) (.finite number) =
      .finite ⟨0, BinaryFormat.round_zero, by rw [abs_zero]; exact two_zpow_pos _⟩ := by
    rw [Double.sub, sub_self]
    exact ofRat_eq_finite BinaryFormat.round_zero
  have notNegative : 0 ≤ |number.value| * 2 ^ (-52 : ℤ) :=
    mul_nonneg (abs_nonneg _) (two_zpow_pos _).le
  have rounded : 0 ≤ binary64.round (|number.value| * 2 ^ (-52 : ℤ)) :=
    representable_zero.le_round notNegative
  rw [compare_double, ite_self, difference, Double.fabs, Double.fabs, Double.mulEpsilon,
    Double.ofRat]
  split_ifs with bounded
  · simpa [Double.le] using rounded
  · dsimp only
    rw [decide_eq_false (not_lt.mpr notNegative)]
    rfl

/-- Among the smallest doubles none is taken for another one. -/
theorem large_of_compare_double {read number : Finite}
    (accepted : compare_double (.finite read) (.finite number) = true)
    (different : read ≠ number) :
    2 ^ (-1023 : ℤ) ≤ max |read.value| |number.value| := by
  have compared := compare_double_finite accepted
  have unit : (0 : ℚ) < 2 ^ (-1074 : ℤ) := two_zpow_pos _
  have apart : 2 ^ (-1074 : ℤ) ≤ |read.value - number.value| := by
    rcases read.representable.multiple (least_le_quantum binary64 read.value)
      with ⟨left, isLeft⟩
    rcases number.representable.multiple (least_le_quantum binary64 number.value)
      with ⟨right, isRight⟩
    change read.value = left * 2 ^ (-1074 : ℤ) at isLeft
    change number.value = right * 2 ^ (-1074 : ℤ) at isRight
    have one : 1 ≤ |left - right| := by
      apply Int.one_le_abs
      intro same
      apply different
      apply Finite.ext_value
      rw [isLeft, isRight, sub_eq_zero.mp same]
    have one' : (1 : ℚ) ≤ |(left : ℚ) - right| := by
      exact_mod_cast one
    rw [isLeft, isRight, ← sub_mul, abs_mul, abs_of_pos unit]
    exact le_mul_of_one_le_left unit.le one'
  by_contra small
  have notNegative : 0 ≤ max |read.value| |number.value| :=
    (abs_nonneg _).trans (le_max_left _ _)
  have tiny : 2 * |max |read.value| |number.value| * 2 ^ (-52 : ℤ)| <
      2 ^ (-1074 : ℤ) := by
    rw [abs_of_nonneg (mul_nonneg notNegative (two_zpow_pos _).le),
      show (-1074 : ℤ) = 1 + (-1023 + -52) by norm_num, zpow_add₀ two_ne_zero, zpow_one,
      zpow_add₀ two_ne_zero]
    exact mul_lt_mul_of_pos_left
      (mul_lt_mul_of_pos_right (not_le.mp small) (two_zpow_pos _)) two_pos
  have above : 2 ^ (-1074 : ℤ) ≤ binary64.round |read.value - number.value| :=
    (representable_zpow (show binary64.least ≤ -1074 by decide)).le_round apart
  have nothing : binary64.round (max |read.value| |number.value| * 2 ^ (-52 : ℤ)) = 0 :=
    round_eq_zero tiny
  rw [nothing, BinaryFormat.abs_round] at compared
  linarith

/-- The decimal which was read is closer to the double than its 15 digits are apart. -/
theorem near_decimal {read number : Finite} (nonzero : number.value ≠ 0)
    (digits : .finite read = Double.ofRat (sprintf_g 15 number.value).value)
    (accepted : compare_double (.finite read) (.finite number) = true)
    (different : read ≠ number) :
    2 * |read.value - (sprintf_g 15 number.value).value| * 10 ^ 15 <
      |(sprintf_g 15 number.value).value| := by
  have rounded : read.value = binary64.round (sprintf_g 15 number.value).value := by
    rw [Double.ofRat] at digits
    split_ifs at digits
    · rw [Double.finite.injEq] at digits
      rw [digits]
  have half := (abs_value_sprintf_g_bounds nonzero).1
  have large : 2 ^ (-1024 : ℤ) ≤ |(sprintf_g 15 number.value).value| := by
    rcases le_max_iff.mp (large_of_compare_double accepted different) with above | above
    · by_contra small
      have below : |read.value| ≤ 2 ^ (-1024 : ℤ) := by
        rw [rounded]
        exact (representable_zpow (show binary64.least ≤ -1024 by decide)).abs_round_le
          (not_le.mp small).le
      have less : (2 : ℚ) ^ (-1024 : ℤ) < 2 ^ (-1023 : ℤ) :=
        zpow_lt_zpow_right₀ one_lt_two (by norm_num)
      linarith
    · have split : (2 : ℚ) ^ (-1023 : ℤ) = 2 * 2 ^ (-1024 : ℤ) := by
        rw [show (-1023 : ℤ) = 1 + -1024 by norm_num, zpow_add₀ two_ne_zero, zpow_one]
      linarith
  generalize (sprintf_g 15 number.value).value = decimal at *
  have unit : (2 : ℚ) ^ binary64.quantum decimal ≤ |decimal| * 2 ^ (-50 : ℤ) := by
    have notZero : decimal ≠ 0 := abs_pos.mp ((two_zpow_pos _).trans_le large)
    rcases max_choice (Int.log 2 |decimal| + 1 - 53) (-1074) with leading | least
    · have quantum : binary64.quantum decimal = Int.log 2 |decimal| + -52 :=
        leading.trans (by ring)
      rw [quantum, zpow_add₀ two_ne_zero]
      exact mul_le_mul (two_zpow_log_le notZero)
        (zpow_le_zpow_right₀ one_le_two (by norm_num)) (two_zpow_pos _).le (abs_nonneg _)
    · have quantum : binary64.quantum decimal = -1024 + -50 := least
      rw [quantum, zpow_add₀ two_ne_zero]
      exact mul_le_mul_of_nonneg_right large (two_zpow_pos _).le
  have close : 2 * |binary64.round decimal - decimal| ≤ 2 ^ binary64.quantum decimal :=
    abs_round_sub_le decimal
  rw [← rounded] at close
  have positive : 0 < |decimal| := (two_zpow_pos _).trans_le large
  norm_num at unit ⊢
  linarith

/-- A number which is close to the decimal of another one is written like it. -/
theorem sprintf_g_of_near {x y : ℚ} (nonzero : x ≠ 0)
    (near : 2 * |y - (sprintf_g 15 x).value| * 10 ^ 15 < |(sprintf_g 15 x).value|) :
    sprintf_g 15 y = sprintf_g 15 x := by
  have positive := abs_pos.mpr nonzero
  have bounds := significantDigits_bounds positive (show 0 < 15 by norm_num)
  have notNegative : (0 : ℚ) ≤ digitsValue 15 (significantDigits 15 |x|) :=
    mul_nonneg (Nat.cast_nonneg _) (lastDigit_pos _ _).le
  rw [value_sprintf_g (by norm_num) nonzero] at near
  have sameDigits {z : ℚ}
      (close : 2 * |z - digitsValue 15 (significantDigits 15 |x|)| * 10 ^ 15 <
        digitsValue 15 (significantDigits 15 |x|)) :
      significantDigits 15 z = significantDigits 15 |x| ∧ 0 < z := by
    refine ⟨significantDigits_eq (by norm_num) bounds.1 bounds.2 close, ?_⟩
    have below := neg_abs_le (z - digitsValue 15 (significantDigits 15 |x|))
    norm_num at close
    linarith
  by_cases negative : x < 0
  · rw [if_pos negative, abs_neg, abs_of_nonneg notNegative, sub_neg_eq_add, ← abs_neg,
      neg_add, ← sub_eq_add_neg] at near
    rcases sameDigits near with ⟨same, isNegative⟩
    refine sprintf_g_congr (by linarith) nonzero (iff_of_true (by linarith) negative) ?_
    rw [abs_of_neg (by linarith), same]
  · rw [if_neg negative, abs_of_nonneg notNegative] at near
    rcases sameDigits near with ⟨same, isPositive⟩
    refine sprintf_g_congr isPositive.ne' nonzero
      (iff_of_false (not_lt.mpr isPositive.le) negative) ?_
    rw [abs_of_pos isPositive, same]

/-! ## Numbers -/

/-- An integer is written alike by `%d` and with 15 digits. -/
theorem text_sprintf_d_valueint {number : Finite}
    (integer : number.value = valueint number.value) :
    (sprintf_d (valueint number.value)).text = (sprintf_g 15 number.value).text := by
  have short : (Nat.toDigits 10 (valueint number.value).natAbs).length ≤ 15 := by
    rw [Nat.length_toDigits_le_iff (by norm_num) (by norm_num)]
    have isInt := isInt_valueint_of_eq integer
    unfold IsInt INT_MIN INT_MAX at isInt
    omega
  rw [← text_sprintf_g_intCast short, ← integer]

/-- The number which was read is written like the number it was read for. -/
theorem text_numeral_reread {number read : Finite} (again : reread number = .finite read) :
    (numeral read).text = (numeral number).text := by
  by_cases different : read = number
  · rw [different]
  have other : reread number ≠ .finite number := by
    rw [again, ne_eq, Double.finite.injEq]
    exact different
  have fraction : number.value ≠ valueint number.value := fun integer =>
    other (reread_of_isInt (isInt_valueint_of_eq integer) integer)
  have nonzero : number.value ≠ 0 := by
    intro zero
    rw [zero] at fraction
    exact fraction (by decide)
  have found : recovered number = true := by
    by_contra lost
    rw [reread, numeral, if_neg fraction, if_neg lost, ofRat_value_sprintf_g nonzero] at other
    exact other rfl
  have fifteen : numeral number = sprintf_g 15 number.value := by
    rw [numeral, if_neg fraction, if_pos found]
  have digits : .finite read = Double.ofRat (sprintf_g 15 number.value).value := by
    rw [← again, reread, fifteen]
  have accepted := ((reread_cases number).resolve_left other).2
  rw [again] at accepted
  have same := sprintf_g_of_near nonzero (near_decimal nonzero digits accepted different)
  rw [fifteen, ← same]
  by_cases integer : read.value = valueint read.value
  · rw [numeral, if_pos integer]
    exact text_sprintf_d_valueint integer
  · have foundAgain : recovered read = true := by
      rw [recovered, strtod_text, same, ← digits]
      exact compare_double_self read
    rw [numeral, if_neg integer, if_pos foundAgain]

/-! ## Items -/

/-- No number of the item is near the limit of the format. -/
def Item.Moderate : Item → Prop :=
  fold
    { null := True
      bool := fun _ => True
      number := fun
        | .finite valuedouble => |valuedouble.value| ≤ 2 ^ (1022 : ℤ)
        | .infinite _ => True
        | .nan => True
      string := fun _ => True
      array := fun child => ∀ element ∈ child, element
      object := fun child => ∀ member ∈ child, member.2 }

theorem Item.moderate_array {child : List Item} :
    (array child).Moderate ↔ ∀ item ∈ child, item.Moderate := by
  rw [Moderate, fold_array]
  exact List.forall_mem_map

theorem Item.moderate_object {child : List (CString × Item)} :
    (object child).Moderate ↔ ∀ member ∈ child, member.2.Moderate := by
  rw [Moderate, fold_object]
  exact List.forall_mem_map

/-- What is read back is written as the same text. -/
theorem render_reread (format : Bool) {item : Item} (moderate : item.Moderate) :
    item.reread.render format = item.render format := by
  induction item using Item.induction with
  | null => rfl
  | bool value => rfl
  | number valuedouble =>
      cases valuedouble with
      | infinite negative => rfl
      | nan => rfl
      | finite number =>
          rcases exists_reread moderate with ⟨read, again, -⟩
          funext depth
          show (Item.number (reread number)).render format depth = _
          rw [again]
          exact text_numeral_reread again
  | string valuestring => rfl
  | array child inductionHypothesis =>
      rw [Item.moderate_array] at moderate
      have same : (child.map Item.reread).map (Item.render format) =
          child.map (Item.render format) := by
        rw [List.map_map]
        exact List.map_congr_left fun item member =>
          inductionHypothesis item member (moderate item member)
      funext depth
      rw [Item.reread_array, Item.render_array, Item.render_array, same]
  | object child inductionHypothesis =>
      rw [Item.moderate_object] at moderate
      funext depth
      rw [Item.reread_object, Item.render_object, Item.render_object, List.map_map]
      congr 4
      exact List.map_congr_left fun member among =>
        congrArg (Prod.mk member.1)
          (inductionHypothesis member among (moderate member among))

theorem text_reread (format : Bool) {item : Item} (moderate : item.Moderate) :
    item.reread.text format = item.text format := by
  rw [Item.text, Item.text, CString.mk.injEq, render_reread format moderate]

/--
What was printed, parsed and printed again is the same memory, with any allocators:
a second trip changes nothing, even if the first one has changed a number.
-/
theorem prints_the_same_again {allocator other : Allocator} {item again : Item}
    {format : Bool} {printed printedAgain : Buffer Char} (moderate : item.Moderate)
    (shallow : item.nesting ≤ CJSON_NESTING_LIMIT)
    (prints : print allocator item format = .ok printed)
    (parses : cJSON_Parse (CString.read (Buffer.string nul printed)) = .ok again)
    (printsAgain : print other again format = .ok printedAgain) :
    printedAgain = printed := by
  have text := ((ends_print allocator item format).of_ok prints).1
  rw [text, string_printed, CString.read_of_noNull (item.text format).noNull] at parses
  have isAgain : again = item.reread := by
    rw [show cJSON_Parse _ = _ from (parse_text_iff format item).mpr shallow,
      Except.ok.injEq] at parses
    exact parses.symm
  rw [((ends_print other again format).of_ok printsAgain).1, text, isAgain,
    text_reread format moderate]

/-- The sum of 0.1 and 0.2, which is printed as `0.3` and read as another double. -/
def sampleSum : Finite where
  value := 1351079888211149 / 2 ^ 52
  rounded := by decide +kernel
  bounded := by decide +kernel

/-- An array with this sum and a null. -/
def sampleSums : Item :=
  .array [.number (.finite sampleSum), .null]

theorem prints_the_same_again_sample :
    ∃ printedAgain,
      print (fun _ _ => true) sampleSums.reread false = .ok printedAgain ∧
        printedAgain = "[0.3,null]\x00".toList.map some := by
  have grants : ∀ number size : ℕ, (fun _ _ : ℕ => true) number size = true :=
    fun _ _ => rfl
  have moderate : sampleSums.Moderate := by
    rw [sampleSums, Item.moderate_array, List.forall_mem_cons, List.forall_mem_singleton]
    exact ⟨show |sampleSum.value| ≤ 2 ^ (1022 : ℤ) by decide +kernel, trivial⟩
  have shallow : sampleSums.nesting ≤ CJSON_NESTING_LIMIT := by
    decide +kernel
  have written : (sampleSums.text false).characters = "[0.3,null]".toList := by
    decide +kernel
  have short : (sampleSums.text false).characters.length + 2 ≤ maximalSize := by
    rw [written]
    decide
  have prints := (print_eq_ok_iff grants sampleSums false).mpr short
  have parses : cJSON_Parse (CString.read (Buffer.string nul
      (((sampleSums.text false).characters ++ [nul]).map some))) = .ok sampleSums.reread := by
    rw [string_printed, CString.read_of_noNull (sampleSums.text false).noNull]
    exact (parse_text_iff false sampleSums).mpr shallow
  have printsAgain := (print_eq_ok_iff grants sampleSums.reread false).mpr
    (by rw [text_reread false moderate]; exact short)
  refine ⟨_, printsAgain, ?_⟩
  rw [prints_the_same_again moderate shallow prints parses printsAgain, written]
  rfl

end FederatedEdge.Json
