import FederatedEdge.Server.Handlers
import Mathlib.Data.Nat.Bitwise
import Mathlib.Tactic.IntervalCases

/-!
# String literals

A string literal is written with escapes for quotes, backslashes and control
characters.  It is read in two passes: the first one looks for the closing quote
and skips whatever follows a backslash, the second one replaces the escapes.  A
character stands for a byte of the text.

`parse_hex4` takes four characters which are no hexadecimal digits for zero, so
the second pass may take more characters for an escape than the first one did.
-/

namespace FederatedEdge.Json

open FederatedEdge.Server

/-! ## UTF-16 literals -/

/-- The value of a hexadecimal digit in either case. -/
def hexDigit (character : Char) : Option ℕ :=
  if '0' ≤ character ∧ character ≤ '9' then
    some (character.toNat - '0'.toNat)
  else if 'A' ≤ character ∧ character ≤ 'F' then
    some (10 + character.toNat - 'A'.toNat)
  else if 'a' ≤ character ∧ character ≤ 'f' then
    some (10 + character.toNat - 'a'.toNat)
  else none

/-- The number of four hexadecimal digits; zero if there is another character. -/
def parse_hex4 (input : List Char) : ℕ :=
  ((input.take 4).foldlM
    (fun h character => (hexDigit character).map (h <<< 4 + ·)) 0).getD 0

/-- The loop which writes the last bytes first, and then the marked first byte. -/
def encodeBytes (first_byte_mark : ℕ) : ℕ → ℕ → List Char → List Char
  | 0, codepoint, written =>
      Char.ofNat ((codepoint ||| first_byte_mark) &&& 0xFF) :: written
  | utf8_position + 1, codepoint, written =>
      encodeBytes first_byte_mark utf8_position (codepoint >>> 6)
        (Char.ofNat ((codepoint ||| 0x80) &&& 0xBF) :: written)

/-- The bytes of a code point, or nothing beyond the last one. -/
def encodeUtf8 (codepoint : ℕ) : Option (List Char) :=
  if codepoint < 0x80 then some [Char.ofNat (codepoint &&& 0x7F)]
  else if codepoint < 0x800 then some (encodeBytes 0xC0 1 codepoint [])
  else if codepoint < 0x10000 then some (encodeBytes 0xE0 2 codepoint [])
  else if codepoint ≤ 0x10FFFF then some (encodeBytes 0xF0 3 codepoint [])
  else none

/--
The bytes which a UTF-16 literal stands for, and its length.  The input starts
with the backslash and ends with the string.
-/
def utf16_literal_to_utf8 (input : List Char) : Option (List Char × ℕ) :=
  if input.length < 6 then none
  else
    let first_code := parse_hex4 (input.drop 2)
    if 0xDC00 ≤ first_code ∧ first_code ≤ 0xDFFF then none
    else if 0xD800 ≤ first_code ∧ first_code ≤ 0xDBFF then
      let second_sequence := input.drop 6
      if second_sequence.length < 6 then none
      else if second_sequence.take 2 ≠ ['\\', 'u'] then none
      else
        let second_code := parse_hex4 (second_sequence.drop 2)
        if second_code < 0xDC00 ∨ 0xDFFF < second_code then none
        else
          let codepoint :=
            0x10000 + (((first_code &&& 0x3FF) <<< 10) ||| (second_code &&& 0x3FF))
          (encodeUtf8 codepoint).map (·, 12)
    else (encodeUtf8 first_code).map (·, 6)

/-! ## Reading a literal -/

/--
The first pass, from behind the opening quote: the number of characters up to
the closing quote, and how many of them are escaped.
-/
def findQuote : List Char → Option (ℕ × ℕ)
  | [] => none
  | [character] => if character = '"' then some (0, 0) else none
  | character :: next :: rest =>
      if character = '"' then some (0, 0)
      else if character = '\\' then
        (findQuote rest).map fun (length, skipped) => (length + 2, skipped + 1)
      else
        (findQuote (next :: rest)).map fun (length, skipped) =>
          (length + 1, skipped)

/--
What an escape stands for, and its length.  The character behind a backslash at
the end of the string is the closing quote.
-/
def unescapeOne (input : List Char) : Option (List Char × ℕ) :=
  let character := (input.drop 1).headD '"'
  if character = 'b' then some (['\x08'], 2)
  else if character = 'f' then some (['\x0c'], 2)
  else if character = 'n' then some (['\n'], 2)
  else if character = 'r' then some (['\r'], 2)
  else if character = 't' then some (['\t'], 2)
  else if character = '"' ∨ character = '\\' ∨ character = '/' then
    some ([character], 2)
  else if character = 'u' then utf16_literal_to_utf8 input
  else none

/--
The second pass over the characters between the quotes, of which the first ones
belong to an escape and are skipped.
-/
def unescape : ℕ → List Char → Option (List Char)
  | _, [] => some []
  | skip + 1, _ :: rest => unescape skip rest
  | 0, character :: rest =>
      if character ≠ '\\' then (unescape 0 rest).map (character :: ·)
      else
        match unescapeOne (character :: rest) with
        | none => none
        | some (output, sequence_length) =>
            (unescape (sequence_length - 1) rest).map (output ++ ·)

/-- How many bytes the second pass writes before it ends or fails. -/
def writtenBytes : ℕ → List Char → ℕ
  | _, [] => 0
  | skip + 1, _ :: rest => writtenBytes skip rest
  | 0, character :: rest =>
      if character ≠ '\\' then writtenBytes 0 rest + 1
      else
        match unescapeOne (character :: rest) with
        | none => 0
        | some (output, sequence_length) =>
            output.length + writtenBytes (sequence_length - 1) rest

/-! ## Writing a literal -/

/-- The conversion `%04x` of a number of at most four digits. -/
def hex4 (code : ℕ) : List Char :=
  [Nat.digitChar (code / 0x1000 % 0x10), Nat.digitChar (code / 0x100 % 0x10),
    Nat.digitChar (code / 0x10 % 0x10), Nat.digitChar (code % 0x10)]

/-- The characters written for one character of a string. -/
def escape (character : Char) : List Char :=
  if 31 < character.toNat ∧ character ≠ '"' ∧ character ≠ '\\' then [character]
  else if character = '\\' then ['\\', '\\']
  else if character = '"' then ['\\', '"']
  else if character = '\x08' then ['\\', 'b']
  else if character = '\x0c' then ['\\', 'f']
  else if character = '\n' then ['\\', 'n']
  else if character = '\r' then ['\\', 'r']
  else if character = '\t' then ['\\', 't']
  else '\\' :: 'u' :: hex4 character.toNat

/-- What `print_string_ptr` writes. -/
def stringText (input : List Char) : List Char :=
  '"' :: (input.flatMap escape ++ ['"'])

/-! ## UTF-8 -/

/-- The bytes of a character in UTF-8, as characters of a text. -/
def utf8 (character : Char) : List Char :=
  (String.utf8EncodeChar character).map fun byte => Char.ofNat byte.toNat

theorem mark_continuation (codepoint : ℕ) :
    (codepoint ||| 0x80) &&& 0xBF = codepoint % 64 + 0x80 := by
  have small : codepoint % 64 < 2 ^ 7 :=
    (Nat.mod_lt _ (by norm_num)).trans (by norm_num)
  have sum := Nat.two_pow_add_eq_or_of_lt small 1
  rw [mul_one] at sum
  rw [Nat.add_comm, show (0x80 : ℕ) = 2 ^ 7 from rfl, sum]
  apply Nat.eq_of_testBit_eq
  intro bit
  rw [Nat.testBit_and, Nat.testBit_or, Nat.testBit_or,
    show (64 : ℕ) = 2 ^ 6 from rfl, Nat.testBit_mod_two_pow]
  rcases lt_or_ge bit 8 with low | high
  · interval_cases bit <;> simp [Nat.testBit]
  · have outside (number : ℕ) (bounded : number < 2 ^ 8) :
        number.testBit bit = false :=
      Nat.testBit_lt_two_pow (bounded.trans_le (Nat.pow_le_pow_right two_pos high))
    rw [outside 0xBF (by norm_num), outside (2 ^ 7) (by norm_num)]
    simp
    omega

theorem mark_first {mark codepoint : ℕ}
    (room : (mark = 0xC0 ∧ codepoint < 32) ∨ (mark = 0xE0 ∧ codepoint < 16) ∨
      (mark = 0xF0 ∧ codepoint < 8)) :
    (codepoint ||| mark) &&& 0xFF = codepoint + mark := by
  rcases room with ⟨rfl, small⟩ | ⟨rfl, small⟩ | ⟨rfl, small⟩
  · interval_cases codepoint <;> rfl
  · interval_cases codepoint <;> rfl
  · interval_cases codepoint <;> rfl

theorem char_ofNat_byte {number : ℕ} (byte : number < 256) :
    Char.ofNat (UInt8.ofNat number).toNat = Char.ofNat number := by
  rw [UInt8.toNat_ofNat', Nat.mod_eq_of_lt byte]

theorem toNat_le (character : Char) : character.toNat ≤ 0x10FFFF := by
  rcases character.valid with low | ⟨-, high⟩
  · exact le_trans (Nat.le_of_lt low) (by norm_num)
  · exact Nat.le_of_lt_succ high

/-- The arithmetic of the encoding, with divisions for shifts and masks. -/
theorem encodeUtf8_eq {codepoint : ℕ} (limit : codepoint ≤ 0x10FFFF) :
    encodeUtf8 codepoint =
      some (List.map Char.ofNat
        (if codepoint ≤ 0x7F then [codepoint]
        else if codepoint ≤ 0x7FF then
          [codepoint / 64 + 0xC0, codepoint % 64 + 0x80]
        else if codepoint ≤ 0xFFFF then
          [codepoint / 4096 + 0xE0, codepoint / 64 % 64 + 0x80,
            codepoint % 64 + 0x80]
        else
          [codepoint / 262144 + 0xF0, codepoint / 4096 % 64 + 0x80,
            codepoint / 64 % 64 + 0x80, codepoint % 64 + 0x80])) := by
  have shift : codepoint >>> 6 = codepoint / 64 := Nat.shiftRight_eq_div_pow _ 6
  have shift2 : codepoint >>> 6 >>> 6 = codepoint / 4096 := by
    rw [shift, Nat.shiftRight_eq_div_pow, Nat.div_div_eq_div_mul]
  have shift3 : codepoint >>> 6 >>> 6 >>> 6 = codepoint / 262144 := by
    rw [shift2, Nat.shiftRight_eq_div_pow, Nat.div_div_eq_div_mul]
  unfold encodeUtf8
  by_cases one : codepoint ≤ 0x7F
  · rw [if_pos (by omega), if_pos one, show (0x7F : ℕ) = 2 ^ 7 - 1 from rfl,
      Nat.and_two_pow_sub_one_eq_mod, Nat.mod_eq_of_lt (by omega)]
    rfl
  rw [if_neg (by omega), if_neg one]
  by_cases two : codepoint ≤ 0x7FF
  · rw [if_pos (by omega), if_pos two, encodeBytes, encodeBytes,
      mark_continuation, shift, mark_first (Or.inl ⟨rfl, by omega⟩)]
    rfl
  rw [if_neg (by omega), if_neg two]
  by_cases three : codepoint ≤ 0xFFFF
  · rw [if_pos (by omega), if_pos three, encodeBytes, encodeBytes, encodeBytes,
      mark_continuation, mark_continuation, shift2,
      mark_first (Or.inr (Or.inl ⟨rfl, by omega⟩)), shift]
    rfl
  · rw [if_neg (by omega), if_pos limit, if_neg three, encodeBytes, encodeBytes,
      encodeBytes, encodeBytes, mark_continuation, mark_continuation,
      mark_continuation, shift3,
      mark_first (Or.inr (Or.inr ⟨rfl, by omega⟩)), shift2, shift]
    rfl

theorem encodeUtf8_toNat (character : Char) :
    encodeUtf8 character.toNat = some (utf8 character) := by
  have limit := toNat_le character
  have encoded : String.utf8EncodeChar character = _ :=
    String.utf8EncodeChar.eq_1 character
  change String.utf8EncodeChar character =
    (if character.toNat ≤ 0x7f then [.ofNat character.toNat]
    else if character.toNat ≤ 0x7ff then
      [.ofNat (character.toNat / 64 % 0x20 + 0xc0),
        .ofNat (character.toNat % 0x40 + 0x80)]
    else if character.toNat ≤ 0xffff then
      [.ofNat (character.toNat / 4096 % 0x10 + 0xe0),
        .ofNat (character.toNat / 64 % 0x40 + 0x80),
        .ofNat (character.toNat % 0x40 + 0x80)]
    else
      [.ofNat (character.toNat / 262144 % 0x08 + 0xf0),
        .ofNat (character.toNat / 4096 % 0x40 + 0x80),
        .ofNat (character.toNat / 64 % 0x40 + 0x80),
        .ofNat (character.toNat % 0x40 + 0x80)]) at encoded
  rw [encodeUtf8_eq limit, utf8, encoded]
  generalize character.toNat = codepoint at limit
  congr 1
  split_ifs with one two three
  · simp only [List.map_cons, List.map_nil]
    rw [char_ofNat_byte (by omega)]
  · simp only [List.map_cons, List.map_nil]
    rw [char_ofNat_byte (by omega), char_ofNat_byte (by omega),
      Nat.mod_eq_of_lt (show codepoint / 64 < 0x20 by omega)]
  · simp only [List.map_cons, List.map_nil]
    rw [char_ofNat_byte (by omega), char_ofNat_byte (by omega),
      char_ofNat_byte (by omega),
      Nat.mod_eq_of_lt (show codepoint / 4096 < 0x10 by omega)]
  · simp only [List.map_cons, List.map_nil]
    rw [char_ofNat_byte (by omega), char_ofNat_byte (by omega),
      char_ofNat_byte (by omega), char_ofNat_byte (by omega),
      Nat.mod_eq_of_lt (show codepoint / 262144 < 0x08 by omega)]

/-! ## Hexadecimal digits -/

theorem hexDigit_le {character : Char} {digit : ℕ}
    (isDigit : hexDigit character = some digit) : digit < 0x10 := by
  unfold hexDigit at isDigit
  split_ifs at isDigit with decimal upper lower
  all_goals
    rw [Option.some.injEq] at isDigit
    rw [← isDigit]
  · have below : character.toNat ≤ '9'.toNat := decimal.2
    have nine : '9'.toNat = 57 := rfl
    have zero : '0'.toNat = 48 := rfl
    omega
  · have below : character.toNat ≤ 'F'.toNat := upper.2
    have last : 'F'.toNat = 70 := rfl
    have first : 'A'.toNat = 65 := rfl
    omega
  · have below : character.toNat ≤ 'f'.toNat := lower.2
    have last : 'f'.toNat = 102 := rfl
    have first : 'a'.toNat = 97 := rfl
    omega

theorem hexDigit_digitChar {digit : ℕ} (small : digit < 0x10) :
    hexDigit (Nat.digitChar digit) = some digit := by
  interval_cases digit <;> decide

theorem parse_hex4_lt (input : List Char) : parse_hex4 input < 0x10000 := by
  have run (characters : List Char) (h : ℕ) :
      ∀ result,
        characters.foldlM
            (fun h character => (hexDigit character).map (h <<< 4 + ·)) h =
          some result →
        result < (h + 1) * 0x10 ^ characters.length := by
    induction characters generalizing h with
    | nil =>
        rintro result ⟨⟩
        simp
    | cons character characters inductionHypothesis =>
        intro result folded
        rw [List.foldlM_cons] at folded
        rcases Option.bind_eq_some_iff.mp folded with ⟨next, shifted, later⟩
        rcases Option.map_eq_some_iff.mp shifted with ⟨digit, isDigit, rfl⟩
        have small := hexDigit_le isDigit
        refine (inductionHypothesis _ result later).trans_le ?_
        rw [List.length_cons, Nat.pow_succ', ← Nat.mul_assoc, Nat.shiftLeft_eq]
        exact Nat.mul_le_mul_right _ (by omega)
  rw [parse_hex4]
  cases folded : (input.take 4).foldlM
      (fun h character => (hexDigit character).map (h <<< 4 + ·)) 0 with
  | none => exact (by norm_num : 0 < 0x10000)
  | some result =>
      refine (run _ 0 result folded).trans_le ?_
      rw [zero_add, one_mul]
      exact Nat.pow_le_pow_right (by norm_num)
        ((List.length_take_le 4 input).trans le_rfl)

/-- Four printed digits are read as the number. -/
theorem parse_hex4_hex4 {code : ℕ} (small : code < 0x10000) (rest : List Char) :
    parse_hex4 (hex4 code ++ rest) = code := by
  have digit (number : ℕ) :
      hexDigit (Nat.digitChar (number % 0x10)) = some (number % 0x10) :=
    hexDigit_digitChar (Nat.mod_lt _ (by norm_num))
  simp only [parse_hex4, hex4, List.cons_append, List.nil_append,
    List.take_succ_cons, List.take_zero, List.foldlM_cons, List.foldlM_nil,
    digit, Option.map_some, Option.bind_eq_bind, Option.bind_some,
    Nat.shiftLeft_eq]
  show _ = _
  simp only [Option.pure_def, Option.getD_some]
  omega

/-! ## What a literal denotes -/

/-- The UTF-16 literal of a character, with a surrogate pair beyond `\uFFFF`. -/
def utf16 (character : Char) : List Char :=
  let codepoint := character.toNat
  if codepoint < 0x10000 then '\\' :: 'u' :: hex4 codepoint
  else
    '\\' :: 'u' :: hex4 (0xD800 + (codepoint - 0x10000) / 0x400) ++
      '\\' :: 'u' :: hex4 (0xDC00 + (codepoint - 0x10000) % 0x400)

/-- The code point of a surrogate pair, with the arithmetic for the masks. -/
theorem surrogates_eq {first_code second_code : ℕ}
    (first : 0xD800 ≤ first_code ∧ first_code ≤ 0xDBFF)
    (second : 0xDC00 ≤ second_code ∧ second_code ≤ 0xDFFF) :
    0x10000 + (((first_code &&& 0x3FF) <<< 10) ||| (second_code &&& 0x3FF)) =
      0x10000 + (first_code - 0xD800) * 0x400 + (second_code - 0xDC00) := by
  have low (code : ℕ) : code &&& 0x3FF = code % 0x400 :=
    Nat.and_two_pow_sub_one_eq_mod code 10
  have small : second_code % 0x400 < 2 ^ 10 := Nat.mod_lt _ (by norm_num)
  rw [low, low, ← Nat.shiftLeft_add_eq_or_of_lt small, Nat.shiftLeft_eq]
  omega

theorem exists_char_of_valid {codepoint : ℕ} (limit : codepoint ≤ 0x10FFFF)
    (noSurrogate : codepoint < 0xD800 ∨ 0xDFFF < codepoint) :
    ∃ character : Char, character.toNat = codepoint := by
  have valid : codepoint.isValidChar := by
    rcases noSurrogate with low | high
    · exact Or.inl low
    · exact Or.inr ⟨high, by omega⟩
  exact ⟨Char.ofNatAux codepoint valid, rfl⟩

/--
An accepted literal denotes one character and writes its UTF-8: at most three
bytes for a single sequence, and at most four for a surrogate pair.
-/
theorem exists_of_utf16_literal {input output : List Char} {sequence_length : ℕ}
    (accepted : utf16_literal_to_utf8 input = some (output, sequence_length)) :
    ∃ character : Char,
      output = utf8 character ∧ sequence_length ≤ input.length ∧
        ((sequence_length = 6 ∧ character.toNat < 0x10000) ∨
          (sequence_length = 12 ∧ 0x10000 ≤ character.toNat)) := by
  unfold utf16_literal_to_utf8 at accepted
  dsimp only at accepted
  split_ifs at accepted with short second pair shortPair missing invalid
  · rcases Option.map_eq_some_iff.mp accepted with ⟨bytes, encoded, result⟩
    rw [Prod.mk.injEq] at result
    rcases result with ⟨rfl, rfl⟩
    rw [not_or, not_lt, not_lt] at invalid
    rw [surrogates_eq pair invalid] at encoded
    rw [List.length_drop] at shortPair
    rcases @exists_char_of_valid
      (0x10000 + (parse_hex4 (input.drop 2) - 0xD800) * 0x400 +
        (parse_hex4 ((input.drop 6).drop 2) - 0xDC00))
      (by omega) (Or.inr (by omega)) with ⟨character, isCodepoint⟩
    rw [← isCodepoint, encodeUtf8_toNat, Option.some.injEq] at encoded
    exact ⟨character, encoded.symm, by omega, Or.inr ⟨rfl, by omega⟩⟩
  · rcases Option.map_eq_some_iff.mp accepted with ⟨bytes, encoded, result⟩
    rw [Prod.mk.injEq] at result
    rcases result with ⟨rfl, rfl⟩
    have bounded := parse_hex4_lt (input.drop 2)
    rcases @exists_char_of_valid (parse_hex4 (input.drop 2)) (by omega) (by omega)
      with ⟨character, isCodepoint⟩
    rw [← isCodepoint, encodeUtf8_toNat, Option.some.injEq] at encoded
    exact ⟨character, encoded.symm, by omega, Or.inl ⟨rfl, by omega⟩⟩

theorem length_utf8 (character : Char) :
    (utf8 character).length =
      if character.toNat ≤ 0x7F then 1
      else if character.toNat ≤ 0x7FF then 2
      else if character.toNat ≤ 0xFFFF then 3 else 4 := by
  have encoded := (encodeUtf8_toNat character).symm.trans
    (encodeUtf8_eq (toNat_le character))
  rw [Option.some.injEq] at encoded
  rw [encoded, List.length_map]
  split_ifs <;> rfl

theorem utf8_ascii {character : Char} (ascii : character.toNat < 0x80) :
    utf8 character = [character] := by
  have encoded := (encodeUtf8_toNat character).symm.trans
    (encodeUtf8_eq (toNat_le character))
  rw [Option.some.injEq, if_pos (by omega)] at encoded
  rw [encoded, List.map_singleton, Char.ofNat_toNat]

theorem length_hex4 (code : ℕ) : (hex4 code).length = 4 :=
  rfl

/-- The literal of a character is read as its UTF-8, whatever follows. -/
theorem utf16_literal_utf16 (character : Char) (rest : List Char) :
    utf16_literal_to_utf8 (utf16 character ++ rest) =
      some (utf8 character, (utf16 character).length) := by
  have limit := toNat_le character
  have valid : character.toNat < 0xD800 ∨ 0xDFFF < character.toNat := by
    rcases character.valid with low | ⟨high, -⟩
    · exact Or.inl low
    · exact Or.inr high
  unfold utf16 utf16_literal_to_utf8
  by_cases single : character.toNat < 0x10000
  · simp only [if_pos single, List.cons_append, List.length_cons,
      List.length_append, length_hex4, List.drop_succ_cons, List.drop_zero,
      parse_hex4_hex4 single]
    rw [if_neg (by omega), if_neg (by omega), if_neg (by omega),
      encodeUtf8_toNat]
    rfl
  · have high : 0xD800 + (character.toNat - 0x10000) / 0x400 < 0x10000 := by omega
    have low : 0xDC00 + (character.toNat - 0x10000) % 0x400 < 0x10000 := by omega
    have behind (tail : List Char) :
        (hex4 (0xD800 + (character.toNat - 0x10000) / 0x400) ++ tail).drop 4 =
          tail := rfl
    simp only [if_neg single, List.cons_append, List.length_cons,
      List.length_append, length_hex4, List.drop_succ_cons, List.drop_zero,
      List.append_assoc, parse_hex4_hex4 high, parse_hex4_hex4 low, behind,
      List.take_succ_cons, List.take_zero, ne_eq, not_true_eq_false, if_false]
    rw [if_neg (by omega), if_neg (by omega), if_pos (by omega),
      if_neg (by omega), if_neg (by omega),
      surrogates_eq ⟨by omega, by omega⟩ ⟨by omega, by omega⟩,
      show 0x10000 +
          (0xD800 + (character.toNat - 0x10000) / 0x400 - 0xD800) * 0x400 +
          (0xDC00 + (character.toNat - 0x10000) % 0x400 - 0xDC00) =
        character.toNat by omega, encodeUtf8_toNat]
    rfl

/-! ## The second pass -/

theorem unescape_skip (skipped rest : List Char) :
    unescape skipped.length (skipped ++ rest) = unescape 0 rest := by
  induction skipped with
  | nil => rfl
  | cons character skipped inductionHypothesis => exact inductionHypothesis

theorem unescape_plain {character : Char} (plain : character ≠ '\\')
    (rest : List Char) :
    unescape 0 (character :: rest) = (unescape 0 rest).map (character :: ·) := by
  rw [unescape, if_pos plain]

/-- An escape which is complete in the input is replaced by what it stands for. -/
theorem unescape_sequence (sequence rest : List Char) {output : List Char}
    (read : unescapeOne (('\\' :: sequence) ++ rest) =
      some (output, sequence.length + 1)) :
    unescape 0 (('\\' :: sequence) ++ rest) =
      (unescape 0 rest).map (output ++ ·) := by
  rw [List.cons_append] at read ⊢
  rw [unescape, if_neg (by simp), read]
  show (unescape (sequence.length + 1 - 1) (sequence ++ rest)).map _ = _
  rw [Nat.add_sub_cancel, unescape_skip]

theorem unescapeOne_utf16 (character : Char) (rest : List Char) :
    unescapeOne (utf16 character ++ rest) =
      some (utf8 character, (utf16 character).length) := by
  have start : ∃ tail, utf16 character ++ rest = '\\' :: 'u' :: tail := by
    unfold utf16
    dsimp only
    split_ifs
    · exact ⟨_, rfl⟩
    · exact ⟨_, rfl⟩
  rcases start with ⟨tail, isTail⟩
  have read : unescapeOne (utf16 character ++ rest) =
      utf16_literal_to_utf8 (utf16 character ++ rest) := by
    rw [isTail]
    rfl
  rw [read, utf16_literal_utf16]

/-- A character which is written as a literal is read as its UTF-8. -/
theorem unescape_utf16 (character : Char) (rest : List Char) :
    unescape 0 (utf16 character ++ rest) =
      (unescape 0 rest).map (utf8 character ++ ·) := by
  have start : ∃ sequence, utf16 character = '\\' :: sequence := by
    unfold utf16
    dsimp only
    split_ifs
    · exact ⟨_, rfl⟩
    · exact ⟨_, rfl⟩
  rcases start with ⟨sequence, isSequence⟩
  have read := unescapeOne_utf16 character rest
  rw [isSequence] at read ⊢
  exact unescape_sequence sequence rest read

/-- The escape of a character is read as the character. -/
theorem unescape_escape (character : Char) (rest : List Char) :
    unescape 0 (escape character ++ rest) =
      (unescape 0 rest).map (character :: ·) := by
  unfold escape
  split_ifs with plain backslash quote backspace formFeed newline carriage tab
  · exact unescape_plain plain.2.2 rest
  · subst backslash
    exact unescape_sequence ['\\'] rest rfl
  · subst quote
    exact unescape_sequence ['"'] rest rfl
  · subst backspace
    exact unescape_sequence ['b'] rest rfl
  · subst formFeed
    exact unescape_sequence ['f'] rest rfl
  · subst newline
    exact unescape_sequence ['n'] rest rfl
  · subst carriage
    exact unescape_sequence ['r'] rest rfl
  · subst tab
    exact unescape_sequence ['t'] rest rfl
  · -- only a control character gets here
    have control : character.toNat < 0x80 := by
      by_contra large
      exact plain ⟨by omega, quote, backslash⟩
    have literal := unescape_utf16 character rest
    rw [utf8_ascii control, utf16, if_pos (by omega)] at literal
    exact literal

/-- Reading the escaped characters gives the string back. -/
theorem unescape_flatMap_escape (text : List Char) :
    unescape 0 (text.flatMap escape) = some text := by
  induction text with
  | nil => rfl
  | cons character text inductionHypothesis =>
      rw [List.flatMap_cons, unescape_escape, inductionHypothesis]
      rfl

/-! ## The first pass -/

theorem findQuote_plain {character : Char} (noQuote : character ≠ '"')
    (plain : character ≠ '\\') (rest : List Char) :
    findQuote (character :: rest) =
      (findQuote rest).map fun (length, skipped) => (length + 1, skipped) := by
  cases rest with
  | nil => exact if_neg noQuote
  | cons next rest => rw [findQuote, if_neg noQuote, if_neg plain]

theorem findQuote_escaped (escaped : Char) (rest : List Char) :
    findQuote ('\\' :: escaped :: rest) =
      (findQuote rest).map fun (length, skipped) => (length + 2, skipped + 1) := by
  rw [findQuote, if_neg (by simp), if_pos rfl]

theorem findQuote_quote (rest : List Char) : findQuote ('"' :: rest) = some (0, 0) := by
  cases rest <;> rfl

theorem digitChar_ne {digit : ℕ} (small : digit < 0x10) :
    Nat.digitChar digit ≠ '"' ∧ Nat.digitChar digit ≠ '\\' := by
  interval_cases digit <;> decide

theorem findQuote_hex4 (code : ℕ) (rest : List Char) :
    findQuote (hex4 code ++ rest) =
      (findQuote rest).map fun (length, skipped) => (length + 4, skipped) := by
  have digit (number : ℕ) := digitChar_ne (Nat.mod_lt number (by norm_num : 0 < 0x10))
  simp only [hex4, List.cons_append, List.nil_append]
  rw [findQuote_plain (digit _).1 (digit _).2, findQuote_plain (digit _).1 (digit _).2,
    findQuote_plain (digit _).1 (digit _).2, findQuote_plain (digit _).1 (digit _).2]
  cases findQuote rest <;> rfl

/-- The first pass goes over the escape of a character as a whole. -/
theorem findQuote_escape {character : Char} {rest : List Char} {length skipped : ℕ}
    (found : findQuote rest = some (length, skipped)) :
    ∃ more, findQuote (escape character ++ rest) =
      some ((escape character).length + length, more) := by
  unfold escape
  have after (escaped : Char) :
      ∃ more, findQuote (['\\', escaped] ++ rest) = some (2 + length, more) :=
    ⟨skipped + 1, by
      rw [List.cons_append, List.singleton_append, findQuote_escaped, found,
        Nat.add_comm 2]; rfl⟩
  split_ifs with plain
  · exact ⟨skipped, by
      rw [List.singleton_append, findQuote_plain plain.2.1 plain.2.2, found,
        List.length_singleton, Nat.add_comm 1]; rfl⟩
  · exact after _
  · exact after _
  · exact after _
  · exact after _
  · exact after _
  · exact after _
  · exact after _
  · refine ⟨skipped + 1, ?_⟩
    rw [List.cons_append, List.cons_append, findQuote_escaped, findQuote_hex4, found]
    show some (length + 4 + 2, skipped + 1) = _
    rw [List.length_cons, List.length_cons, length_hex4, Nat.add_comm _ length]

theorem findQuote_flatMap_escape (text rest : List Char) :
    ∃ skipped, findQuote (text.flatMap escape ++ '"' :: rest) =
      some ((text.flatMap escape).length, skipped) := by
  induction text with
  | nil => exact ⟨0, findQuote_quote rest⟩
  | cons character text inductionHypothesis =>
      rcases inductionHypothesis with ⟨skipped, found⟩
      rw [List.flatMap_cons, List.append_assoc, List.length_append]
      exact findQuote_escape found

theorem findQuote_utf16 {character : Char} {rest : List Char} {length skipped : ℕ}
    (found : findQuote rest = some (length, skipped)) :
    ∃ more, findQuote (utf16 character ++ rest) =
      some ((utf16 character).length + length, more) := by
  unfold utf16
  dsimp only
  split_ifs
  · refine ⟨skipped + 1, ?_⟩
    rw [List.cons_append, List.cons_append, findQuote_escaped, findQuote_hex4, found]
    show some (length + 4 + 2, skipped + 1) = _
    rw [List.length_cons, List.length_cons, length_hex4, Nat.add_comm _ length]
  · refine ⟨skipped + 2, ?_⟩
    simp only [List.cons_append, List.append_assoc]
    rw [findQuote_escaped, findQuote_hex4, findQuote_escaped, findQuote_hex4, found]
    show some (length + 4 + 2 + 4 + 2, skipped + 2) = _
    simp only [List.length_cons, List.length_append, length_hex4]
    rw [Nat.add_comm _ length]

/-- The characters before the closing quote which are escaped. -/
def skippedBytes : Bool → List Char → ℕ
  | _, [] => 0
  | true, _ :: rest => skippedBytes false rest
  | false, character :: rest =>
      if character = '\\' then 1 + skippedBytes true rest
      else skippedBytes false rest

theorem skippedBytes_le (pending : Bool) (input : List Char) :
    skippedBytes pending input ≤ input.length := by
  induction input generalizing pending with
  | nil => exact le_rfl
  | cons character input inductionHypothesis =>
      cases pending with
      | true => exact (inductionHypothesis false).trans (Nat.le_succ _)
      | false =>
          rw [skippedBytes, List.length_cons]
          split_ifs
          · have later := inductionHypothesis true
            omega
          · exact (inductionHypothesis false).trans (Nat.le_succ _)

/-- What the first pass has found out about the input. -/
theorem findQuote_eq_some {input : List Char} {length skipped : ℕ}
    (found : findQuote input = some (length, skipped)) :
    input[length]? = some '"' ∧ skipped = skippedBytes false (input.take length) := by
  induction input using findQuote.induct generalizing length skipped with
  | case1 => simp [findQuote] at found
  | case2 =>
      rw [findQuote_quote, Option.some.injEq, Prod.mk.injEq] at found
      rcases found with ⟨rfl, rfl⟩
      exact ⟨rfl, rfl⟩
  | case3 character noQuote =>
      rw [findQuote, if_neg noQuote] at found
      exact absurd found (by simp)
  | case4 next rest =>
      rw [findQuote_quote, Option.some.injEq, Prod.mk.injEq] at found
      rcases found with ⟨rfl, rfl⟩
      exact ⟨rfl, rfl⟩
  | case5 next rest noQuote inductionHypothesis =>
      rw [findQuote_escaped] at found
      rcases Option.map_eq_some_iff.mp found with ⟨⟨length', skipped'⟩, later, result⟩
      rw [Prod.mk.injEq] at result
      rcases result with ⟨rfl, rfl⟩
      rcases inductionHypothesis later with ⟨quote, rfl⟩
      refine ⟨quote, ?_⟩
      rw [List.take_succ_cons, List.take_succ_cons, skippedBytes, if_pos rfl,
        skippedBytes, Nat.add_comm]
  | case6 character next rest noQuote plain inductionHypothesis =>
      rw [findQuote_plain noQuote plain] at found
      rcases Option.map_eq_some_iff.mp found with ⟨⟨length', skipped'⟩, later, result⟩
      rw [Prod.mk.injEq] at result
      rcases result with ⟨rfl, rfl⟩
      rcases inductionHypothesis later with ⟨quote, rfl⟩
      refine ⟨quote, ?_⟩
      rw [List.take_succ_cons, skippedBytes, if_neg plain]

/-! ## The allocated size -/

/--
An escape is at least twice as long as what it stands for, up to one byte, and
ends with the input or one character behind it.
-/
theorem unescapeOne_eq_some {rest output : List Char} {sequence_length : ℕ}
    (read : unescapeOne ('\\' :: rest) = some (output, sequence_length)) :
    2 ≤ sequence_length ∧ 2 * output.length ≤ sequence_length ∧
      sequence_length ≤ rest.length + 2 := by
  have short {one : Char} (isShort : some ([one], 2) = some (output, sequence_length)) :
      2 ≤ sequence_length ∧ 2 * output.length ≤ sequence_length ∧
        sequence_length ≤ rest.length + 2 := by
    rw [Option.some.injEq, Prod.mk.injEq] at isShort
    rcases isShort with ⟨rfl, rfl⟩
    exact ⟨le_rfl, le_rfl, by omega⟩
  unfold unescapeOne at read
  dsimp only at read
  split_ifs at read
  · exact short read
  · exact short read
  · exact short read
  · exact short read
  · exact short read
  · exact short read
  · rcases exists_of_utf16_literal read with ⟨character, rfl, within, size⟩
    rw [List.length_cons] at within
    have bytes := length_utf8 character
    have few : (utf8 character).length ≤ 3 ∨ 0x10000 ≤ character.toNat := by
      split_ifs at bytes <;> omega
    have most : (utf8 character).length ≤ 4 := by
      split_ifs at bytes <;> omega
    omega

theorem writtenBytes_plain {character : Char} (plain : character ≠ '\\')
    (rest : List Char) :
    writtenBytes 0 (character :: rest) = writtenBytes 0 rest + 1 := by
  rw [writtenBytes, if_pos plain]

/--
What is still written, with the escapes which the first pass has counted in what
is left, fits; `skip` and `pending` say how far the two passes have read ahead.
-/
theorem writtenBytes_le {input : List Char} :
    ∀ {skip : ℕ} (pending : Bool), skip ≤ input.length + 1 →
      writtenBytes skip input + skippedBytes pending input +
        (skip + pending.toNat) / 2 ≤ input.length + 1 := by
  induction input with
  | nil =>
      intro skip pending bound
      have nothing : writtenBytes skip [] = 0 := by
        cases skip <;> rfl
      have bit : pending.toNat ≤ 1 := Bool.toNat_le pending
      rw [List.length_nil] at bound
      rw [nothing, skippedBytes, List.length_nil]
      omega
  | cons character input inductionHypothesis =>
      intro skip pending bound
      rw [List.length_cons] at bound ⊢
      cases skip with
      | succ skip =>
          rw [writtenBytes]
          cases pending with
          | true =>
              have later := @inductionHypothesis skip false (by omega)
              rw [skippedBytes]
              simp only [Bool.toNat_true, Bool.toNat_false] at later ⊢
              omega
          | false =>
              rw [skippedBytes]
              split_ifs
              · have later := @inductionHypothesis skip true (by omega)
                simp only [Bool.toNat_true, Bool.toNat_false] at later ⊢
                omega
              · have later := @inductionHypothesis skip false (by omega)
                simp only [Bool.toNat_false] at later ⊢
                omega
      | zero =>
          by_cases plain : character = '\\'
          · subst plain
            rw [writtenBytes, if_neg (by simp)]
            cases escape : unescapeOne ('\\' :: input) with
            | none =>
                have bit : pending.toNat ≤ 1 := Bool.toNat_le pending
                have few := skippedBytes_le pending ('\\' :: input)
                rw [List.length_cons] at few
                dsimp only
                omega
            | some replaced =>
                rcases replaced with ⟨first, sequence_length⟩
                rcases unescapeOne_eq_some escape with ⟨long, halved, within⟩
                dsimp only
                cases pending with
                | true =>
                    have later := @inductionHypothesis (sequence_length - 1) false (by omega)
                    rw [skippedBytes]
                    simp only [Bool.toNat_true, Bool.toNat_false] at later ⊢
                    omega
                | false =>
                    have later := @inductionHypothesis (sequence_length - 1) true (by omega)
                    rw [skippedBytes, if_pos rfl]
                    simp only [Bool.toNat_true, Bool.toNat_false] at later ⊢
                    omega
          · have later := @inductionHypothesis 0 false (by omega)
            have same : skippedBytes pending (character :: input) =
                skippedBytes false input := by
              cases pending with
              | true => rfl
              | false => rw [skippedBytes, if_neg plain]
            have bit : pending.toNat ≤ 1 := Bool.toNat_le pending
            rw [writtenBytes_plain plain, same]
            simp only [Bool.toNat_false] at later
            omega

/-- What the second pass writes, and a terminator, fit into the allocation. -/
theorem writtenBytes_lt {input : List Char} {length skipped : ℕ}
    (found : findQuote input = some (length, skipped)) :
    writtenBytes 0 (input.take length) + skipped ≤ length + 1 := by
  rcases findQuote_eq_some found with ⟨quote, rfl⟩
  have within : length < input.length := by
    by_contra beyond
    rw [List.getElem?_eq_none (not_lt.mp beyond)] at quote
    exact absurd quote (by simp)
  have bound := @writtenBytes_le (input.take length) 0 false (Nat.zero_le _)
  rw [List.length_take, min_eq_left within.le] at bound
  simpa using bound

end FederatedEdge.Json
