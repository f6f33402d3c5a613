import FederatedEdge.Json.BracketedTexts
import FederatedEdge.Json.PrintedText
import FederatedEdge.Json.Trees
import FederatedEdge.Server.WebSocketServer

/-!
# Texts of which a part has arrived

A value which is no number ends at its last character: no value starts with the
text of another one.  So a printed text is parsed when the whole of it has
arrived, whatever follows, and rejected before that.  For the text of an object
the braces say the same, if there are none in its strings.
-/

namespace FederatedEdge.Json

open FederatedEdge.Library
open FederatedEdge.Server
open ParseBuffer

/-! ## Where a value ends -/

/-- The text of a value does not start with the text of another value. -/
theorem Value.rest_eq_nil {text rest : List Char} {item other : Item}
    (value : Value (text ++ rest) item) (noNumber : ∀ number, item ≠ .number number)
    (shallow : item.nesting ≤ CJSON_NESTING_LIMIT) (front : Value text other)
    (frontShallow : other.nesting ≤ CJSON_NESTING_LIMIT) : rest = [] := by
  have ahead : ParseBuffer.ahead
      { content := text ++ rest, offset := 0, depth := 0 } = text ++ rest :=
    rfl
  have parsed := parse_value_of_value CJSON_NESTING_LIMIT value shallow (zero_add _)
    (ahead.trans (List.append_nil _).symm) fun number same =>
      absurd same (noNumber number)
  by_cases isNumber : ∃ number, other = .number number
  · rcases isNumber with ⟨number, rfl⟩
    rw [parse_value_number front ahead, parse_number] at parsed
    split at parsed
    · exact absurd parsed (by simp)
    · rw [Except.ok.injEq, Prod.mk.injEq] at parsed
      exact absurd parsed.1.symm (noNumber _)
  · rw [parse_value_of_value CJSON_NESTING_LIMIT front frontShallow (zero_add _) ahead
      fun number same => absurd ⟨number, same⟩ isNumber, Except.ok.injEq,
      Prod.mk.injEq] at parsed
    have ends := congrArg ParseBuffer.offset parsed.2
    simp only [ParseBuffer.advance, List.length_append] at ends
    exact List.eq_nil_of_length_eq_zero (by omega)

/-- A document which is part of a value has nothing in front of its value. -/
theorem Document.eq_append {content text rest : List Char} {item other : Item}
    (document : Document content text other rest) {whole : List Char}
    (value : Value whole item) (early : content <+: whole) :
    content = text ++ rest := by
  rcases document.split with ⟨mark, blank, split, isMark, isBlank⟩
  rcases startsBlack_value whole item value with ⟨first, others, rfl, black, -, -, noMark⟩
  have start : ∀ character tail, content = character :: tail → character = first := by
    rintro character tail rfl
    exact (List.cons_prefix_cons.mp early).1
  have unmarked : mark = [] := by
    rcases isMark with same | same
    · exact same
    · rw [same] at split
      exact absurd (start _ _ split).symm noMark
  subst unmarked
  cases blank with
  | nil => exact split
  | cons character blank =>
      have white := isBlank character List.mem_cons_self
      rw [start _ _ split, black] at white
      exact absurd white (by simp)

section Arrived

variable {item : Item} {value : CString} (format : Bool)

section

variable (noNumber : ∀ number, item.reread ≠ .number number)
  (shallow : item.nesting ≤ CJSON_NESTING_LIMIT)

include noNumber shallow

/-- A printed text is parsed, whatever follows it. -/
theorem cJSON_Parse_of_arrived
    (arrived : (item.text format).characters <+: value.characters) :
    cJSON_Parse value = .ok item.reread := by
  rcases arrived with ⟨rest, whole⟩
  rw [cJSON_Parse_eq_ok_iff]
  refine ⟨item.render format 0, rest,
    ⟨⟨[], [], whole.symm, Or.inl rfl, whitespace_nil⟩, value_render format item 0, ?_⟩,
    fun number same => absurd same (noNumber number)⟩
  rw [Item.nesting_reread]
  exact shallow

/-- The beginning of a printed text is rejected. -/
theorem cJSON_Parse_of_beginning
    (early : value.characters <+: (item.text format).characters)
    (proper : value.characters ≠ (item.text format).characters) :
    cJSON_Parse value = .error .failed := by
  have whole : Value (item.text format).characters item.reread :=
    value_render format item 0
  have rereadShallow : item.reread.nesting ≤ CJSON_NESTING_LIMIT := by
    rw [Item.nesting_reread]
    exact shallow
  cases parsed : cJSON_Parse value with
  | ok other =>
      rcases (cJSON_Parse_eq_ok_iff value other).mp parsed with ⟨text, rest, document, -⟩
      have front := document.eq_append whole early
      rcases early with ⟨missing, split⟩
      rw [front, List.append_assoc] at split
      rw [← split] at whole
      have nothing := whole.rest_eq_nil noNumber rereadShallow document.value
        document.nesting
      rw [List.append_eq_nil_iff] at nothing
      rw [nothing.2, List.append_nil, ← front] at split
      exact absurd split proper
  | error stop =>
      cases stop with
      | failed => rfl
      | undefined => exact absurd parsed (cJSON_Parse_ne_undefined value)

/-- Of the texts which begin like it or continue it, those with all of it are parsed. -/
theorem cJSON_Parse_of_comparable
    (comparable : (item.text format).characters <+: value.characters ∨
      value.characters <+: (item.text format).characters) :
    cJSON_Parse value =
      if (item.text format).characters <+: value.characters then .ok item.reread
      else .error .failed := by
  split_ifs with arrived
  · exact cJSON_Parse_of_arrived format noNumber shallow arrived
  · have early := comparable.resolve_left arrived
    refine cJSON_Parse_of_beginning format noNumber shallow early fun same => ?_
    exact arrived (same ▸ List.prefix_refl _)

/-- What follows a text does not change the tree, and without its end there is none. -/
theorem parseTree_of_comparable {received : List Char}
    (comparable : (item.text format).characters <+: received ∨
      received <+: (item.text format).characters) :
    parseTree received =
      if (item.text format).characters <+: received then
        parseTree (item.text format).characters
      else none := by
  have whole : cJSON_Parse (item.text format) = .ok item.reread :=
    cJSON_Parse_of_arrived format noNumber shallow (List.prefix_refl _)
  split_ifs with arrived
  · have inside : (item.text format).characters <+: (CString.read received).characters := by
      rcases arrived with ⟨rest, rfl⟩
      show _ <+: List.takeWhile (· ≠ nul) _
      rw [List.takeWhile_append_of_pos]
      · exact List.prefix_append _ _
      · intro character member
        exact decide_eq_true fun null => (item.text format).noNull (null ▸ member)
    rw [parseTree, parseTree, cJSON_Parse_of_arrived format noNumber shallow inside,
      CString.read_of_noNull (item.text format).noNull,
      show cJSON_Parse ⟨(item.text format).characters, _⟩ = _ from whole]
  · have early := comparable.resolve_left arrived
    have clean : nul ∉ received := fun null => (item.text format).noNull (early.subset null)
    have rejected : cJSON_Parse ⟨received, clean⟩ = .error .failed :=
      cJSON_Parse_of_beginning format noNumber shallow early fun same =>
        arrived (same ▸ List.prefix_refl _)
    rw [parseTree, CString.read_of_noNull clean, rejected]

end

/--
Of the texts which begin like a printed one or continue it, the parser takes those
which have all of it, if the arrays and objects are not nested too deeply.
-/
theorem parse_printed_iff {allocator : Allocator} {printed : Buffer Char}
    (prints : print allocator item format = .ok printed)
    (noNumber : ∀ number, item.reread ≠ .number number)
    (comparable : Buffer.string nul printed <+: value.characters ∨
      value.characters <+: Buffer.string nul printed) :
    cJSON_Parse value = .ok item.reread ↔
      Buffer.string nul printed <+: value.characters ∧
        item.nesting ≤ CJSON_NESTING_LIMIT := by
  rw [((ends_print allocator item format).of_ok prints).1, string_printed] at *
  constructor
  · intro parsed
    rcases (cJSON_Parse_eq_ok_iff value _).mp parsed with ⟨text, rest, document, -⟩
    have shallow := document.nesting
    rw [Item.nesting_reread] at shallow
    rw [cJSON_Parse_of_comparable format noNumber shallow comparable] at parsed
    split_ifs at parsed with arrived
    · exact ⟨arrived, shallow⟩
  · rintro ⟨arrived, shallow⟩
    exact cJSON_Parse_of_arrived format noNumber shallow arrived

end Arrived

/-- An object with a list in it. -/
def sampleItem : Item :=
  .object [(⟨['k'], by decide⟩, .array [.bool true, .string ⟨['\x7d'], by decide⟩])]

/-- The text of the object, and the beginning of another one. -/
def sampleReceived : CString where
  characters := (sampleItem.text true).characters ++ ['\x7b']
  noNull := by decide +kernel

theorem parse_printed_iff_sample :
    cJSON_Parse sampleReceived = .ok sampleItem.reread := by
  have short : (sampleItem.text true).characters.length + 2 ≤ maximalSize := by
    decide +kernel
  have prints := (print_eq_ok_iff (fun _ _ => rfl) sampleItem true).mpr short
  have whole : Buffer.string nul (((sampleItem.text true).characters ++ [nul]).map some) <+:
      sampleReceived.characters := by
    rw [string_printed]
    exact List.prefix_append _ _
  have shallow : sampleItem.nesting ≤ CJSON_NESTING_LIMIT := by
    decide +kernel
  exact (parse_printed_iff true prints (fun _ => nofun) (Or.inl whole)).mpr
    ⟨whole, shallow⟩

/-! ## Braces -/

end FederatedEdge.Json
