import FederatedEdge.Json.Completeness

/-!
# Strings in other spellings

A character may be written as its UTF-16 literal, or as the bytes of its UTF-8 with
escapes where a byte needs one; `print_string_ptr` does the latter.  The parser
reads the same bytes from both, in any mixture.
-/

namespace FederatedEdge.Json

open FederatedEdge.Server

/-- The texts for one character in a string. -/
inductive Spells : List Char → Char → Prop
  | literal (character : Char) : Spells (utf16 character) character
  | bytes (character : Char) : Spells ((utf8 character).flatMap escape) character

theorem unescape_bytes (bytes rest : List Char) :
    unescape 0 (bytes.flatMap escape ++ rest) =
      (unescape 0 rest).map (bytes ++ ·) := by
  induction bytes with
  | nil => exact Option.map_id'.symm
  | cons byte bytes inductionHypothesis =>
      rw [List.flatMap_cons, List.append_assoc, unescape_escape, inductionHypothesis,
        Option.map_map]
      rfl

theorem findQuote_bytes (bytes : List Char) {rest : List Char} {length skipped : ℕ}
    (found : findQuote rest = some (length, skipped)) :
    ∃ more, findQuote (bytes.flatMap escape ++ rest) =
      some ((bytes.flatMap escape).length + length, more) := by
  induction bytes with
  | nil => exact ⟨skipped, by rw [List.flatMap_nil, List.length_nil, zero_add]; exact found⟩
  | cons byte bytes inductionHypothesis =>
      rcases inductionHypothesis with ⟨more, behind⟩
      rw [List.flatMap_cons, List.append_assoc, List.length_append, Nat.add_assoc]
      exact findQuote_escape behind

namespace Spells

variable {written : List Char} {character : Char}

theorem unescape (spells : Spells written character) (rest : List Char) :
    Json.unescape 0 (written ++ rest) =
      (Json.unescape 0 rest).map (utf8 character ++ ·) := by
  cases spells with
  | literal => exact unescape_utf16 character rest
  | bytes => exact unescape_bytes (utf8 character) rest

theorem findQuote (spells : Spells written character) {rest : List Char}
    {length skipped : ℕ} (found : Json.findQuote rest = some (length, skipped)) :
    ∃ more, Json.findQuote (written ++ rest) = some (written.length + length, more) := by
  cases spells with
  | literal => exact findQuote_utf16 found
  | bytes => exact findQuote_bytes _ found

end Spells

variable {spellings : List (List Char)} {text : List Char}

/-- The two passes of the parser over a spelled string. -/
theorem literal_spellings (each : List.Forall₂ Spells spellings text) :
    Literal ('"' :: spellings.flatten ++ ['"']) (CString.read (text.flatMap utf8)) := by
  have read : unescape 0 spellings.flatten = some (text.flatMap utf8) := by
    induction each with
    | nil => rfl
    | cons spells _ inductionHypothesis =>
        rw [List.flatten_cons, spells.unescape, inductionHypothesis]
        rfl
  have found : ∃ skipped, findQuote (spellings.flatten ++ ['"']) =
      some (spellings.flatten.length, skipped) := by
    clear read
    induction each with
    | nil => exact ⟨0, rfl⟩
    | cons spells _ inductionHypothesis =>
        rcases inductionHypothesis with ⟨skipped, behind⟩
        rw [List.flatten_cons, List.append_assoc, List.length_append]
        exact spells.findQuote behind
  rcases found with ⟨skipped, found⟩
  exact .mk found read

/-- A spelled string is parsed to its UTF-8, up to a null character. -/
theorem parse_spellings (each : List.Forall₂ Spells spellings text) {value : CString}
    (isText : value.characters = '"' :: spellings.flatten ++ ['"']) :
    cJSON_Parse value = .ok (.string (CString.read (text.flatMap utf8))) := by
  rw [cJSON_Parse_eq_ok_iff]
  refine ⟨_, [], ⟨⟨[], [], ?_, Or.inl rfl, fun _ member => (List.not_mem_nil member).elim⟩,
    .string (literal_spellings each), Nat.zero_le _⟩, fun _ => nofun⟩
  rw [List.append_nil]
  exact isText

/-- The literal of a character beyond `\uFFFF`, and a quote with its escape. -/
theorem parse_spellings_sample :
    cJSON_Parse ⟨"\"\\ud83d\\ude00\\\"\"".toList, by decide⟩ =
      .ok (.string (CString.read (['😀', '"'].flatMap utf8))) := by
  have each : List.Forall₂ Spells [utf16 '😀', (utf8 '"').flatMap escape] ['😀', '"'] :=
    .cons (.literal _) (.cons (.bytes _) .nil)
  exact parse_spellings each (by decide +kernel)

end FederatedEdge.Json
