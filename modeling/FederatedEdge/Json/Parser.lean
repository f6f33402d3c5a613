import FederatedEdge.Dataset.Numerals
import FederatedEdge.Json.Items
import FederatedEdge.Json.Numbers
import FederatedEdge.Json.StringLiterals
import FederatedEdge.Library.Outcomes

/-!
# The parser

`cJSON_ParseWithLengthOpts` and what it calls.  The buffer is the array of the
given length and nothing behind it: a read which the source does not guard is
`undefined` outside of the array, and so are a write behind the memory allocated
for a string, a call more than `levels` deep and a loop which does not end.
-/

namespace FederatedEdge.Json

open FederatedEdge.Library
open FederatedEdge.Server
open FederatedEdge.Dataset

/-- The text, how far it has been read, and how deep arrays and objects are nested. -/
structure ParseBuffer where
  content : List Char
  offset : ℕ
  depth : ℕ
deriving DecidableEq

/-- Deeper arrays and objects are refused. -/
def CJSON_NESTING_LIMIT : ℕ := 1000

namespace ParseBuffer

/-- What is left to read. -/
def ahead (input_buffer : ParseBuffer) : List Char :=
  input_buffer.content.drop input_buffer.offset

/-- Move the offset forward. -/
def advance (input_buffer : ParseBuffer) (count : ℕ) : ParseBuffer :=
  { input_buffer with offset := input_buffer.offset + count }

/-- `buffer_at_offset(buffer)[0]`, of which the access is not guarded. -/
def current (input_buffer : ParseBuffer) : Except Stop Char :=
  match input_buffer.content[input_buffer.offset]? with
  | some character => .ok character
  | none => .error .undefined

/-- The guarded comparison of the current character. -/
def currentIs (input_buffer : ParseBuffer) (character : Char) : Prop :=
  input_buffer.content[input_buffer.offset]? = some character

instance (input_buffer : ParseBuffer) (character : Char) :
    Decidable (input_buffer.currentIs character) := by
  unfold currentIs
  infer_instance

/-- `can_read` and `strncmp`. -/
def startsWith (input_buffer : ParseBuffer) (word : List Char) : Bool :=
  word.isPrefixOf input_buffer.ahead

end ParseBuffer

open ParseBuffer

/-- All characters up to the space are skipped, null included. -/
def isWhitespace (character : Char) : Bool :=
  character.toNat ≤ 32

/-- At the end of the text the offset goes back to the last character. -/
def buffer_skip_whitespace (buffer : ParseBuffer) : ParseBuffer :=
  if buffer.content.length ≤ buffer.offset then buffer
  else
    let after := buffer.advance (buffer.ahead.takeWhile isWhitespace).length
    if after.offset = buffer.content.length then
      { after with offset := after.offset - 1 }
    else after

/-- The byte order mark in UTF-8. -/
def byteOrderMark : List Char := ['\xEF', '\xBB', '\xBF']

/-- The mark is skipped only when there is text behind it. -/
def skip_utf8_bom (buffer : ParseBuffer) : ParseBuffer :=
  if buffer.offset + 4 < buffer.content.length ∧
      buffer.startsWith byteOrderMark then
    buffer.advance 3
  else buffer

/-! ## Leaves -/

/-- The characters which are copied to `number_c_string`. -/
def numberCString (input_buffer : ParseBuffer) : List Char :=
  (input_buffer.ahead.takeWhile numeralCharacter).take 63

/-- At most 63 characters of a number are read. -/
def parse_number (input_buffer : ParseBuffer) :
    Except Stop (Item × ParseBuffer) :=
  match strtod (numberCString input_buffer) with
  | none => .error .failed
  | some (number, length) => .ok (.number number, input_buffer.advance length)

/--
The first pass finds the closing quote and counts what escapes save; the second
one writes into memory of that size.
-/
def parse_string (input_buffer : ParseBuffer) :
    Except Stop (CString × ParseBuffer) := do
  let first ← input_buffer.current
  if first ≠ '"' then .error .failed
  else
    let input := (input_buffer.advance 1).ahead
    match findQuote input with
    | none => .error .failed
    | some (length, skipped_bytes) =>
        let allocation_length := length + 1 - skipped_bytes
        if allocation_length < writtenBytes 0 (input.take length) then
          .error .undefined
        else
          match unescape 0 (input.take length) with
          | none => .error .failed
          | some output =>
              .ok (CString.read output, input_buffer.advance (length + 2))

/-! ## Arrays and objects -/

/--
The loops of `parse_array` and `parse_object`, from the character in front of
the first element.
-/
def parse_list {α : Type}
    (parse_one : ParseBuffer → Except Stop (α × ParseBuffer)) :
    ℕ → ParseBuffer → Except Stop (List α × ParseBuffer)
  | 0, _ => .error .undefined
  | turns + 1, input_buffer => do
      let (element, input_buffer) ←
        parse_one (buffer_skip_whitespace (input_buffer.advance 1))
      let input_buffer := buffer_skip_whitespace input_buffer
      if input_buffer.currentIs ',' then
        let (elements, input_buffer) ← parse_list parse_one turns input_buffer
        .ok (element :: elements, input_buffer)
      else .ok ([element], input_buffer)

/-- What `parse_array` and `parse_object` do behind the opening bracket. -/
def parse_container {α : Type} (closing : Char)
    (parse_one : ParseBuffer → Except Stop (α × ParseBuffer))
    (input_buffer : ParseBuffer) : Except Stop (List α × ParseBuffer) :=
  let input_buffer := buffer_skip_whitespace (input_buffer.advance 1)
  let success (elements : List α) (input_buffer : ParseBuffer) :
      Except Stop (List α × ParseBuffer) :=
    .ok (elements,
      { input_buffer with
        depth := input_buffer.depth - 1
        offset := input_buffer.offset + 1 })
  if input_buffer.currentIs closing then success [] input_buffer
  else if input_buffer.content.length ≤ input_buffer.offset then .error .failed
  else do
    let (elements, input_buffer) ←
      parse_list parse_one input_buffer.content.length
        { input_buffer with offset := input_buffer.offset - 1 }
    if input_buffer.currentIs closing then success elements input_buffer
    else .error .failed

/-- An array of values. -/
def parse_array (parse_value : ParseBuffer → Except Stop (Item × ParseBuffer))
    (input_buffer : ParseBuffer) : Except Stop (Item × ParseBuffer) :=
  if CJSON_NESTING_LIMIT ≤ input_buffer.depth then .error .failed
  else do
    let input_buffer := { input_buffer with depth := input_buffer.depth + 1 }
    let first ← input_buffer.current
    if first ≠ '[' then .error .failed
    else do
      let (child, input_buffer) ← parse_container ']' parse_value input_buffer
      .ok (.array child, input_buffer)

/-- A name, a colon and a value. -/
def parse_member (parse_value : ParseBuffer → Except Stop (Item × ParseBuffer))
    (input_buffer : ParseBuffer) :
    Except Stop ((CString × Item) × ParseBuffer) := do
  let (string, input_buffer) ← parse_string input_buffer
  let input_buffer := buffer_skip_whitespace input_buffer
  if ¬input_buffer.currentIs ':' then .error .failed
  else do
    let (value, input_buffer) ←
      parse_value (buffer_skip_whitespace (input_buffer.advance 1))
    .ok ((string, value), input_buffer)

/-- An object of names and values. -/
def parse_object (parse_value : ParseBuffer → Except Stop (Item × ParseBuffer))
    (input_buffer : ParseBuffer) : Except Stop (Item × ParseBuffer) :=
  if CJSON_NESTING_LIMIT ≤ input_buffer.depth then .error .failed
  else
    let input_buffer := { input_buffer with depth := input_buffer.depth + 1 }
    if ¬input_buffer.currentIs '{' then .error .failed
    else do
      let (child, input_buffer) ←
        parse_container '}' (parse_member parse_value) input_buffer
      .ok (.object child, input_buffer)

/-! ## Values -/

/-- `parse_value`, which is called at most `levels` deep. -/
def parse_value : ℕ → ParseBuffer → Except Stop (Item × ParseBuffer)
  | 0, _ => .error .undefined
  | levels + 1, input_buffer =>
      if input_buffer.startsWith ['n', 'u', 'l', 'l'] then
        .ok (.null, input_buffer.advance 4)
      else if input_buffer.startsWith ['f', 'a', 'l', 's', 'e'] then
        .ok (.bool false, input_buffer.advance 5)
      else if input_buffer.startsWith ['t', 'r', 'u', 'e'] then
        .ok (.bool true, input_buffer.advance 4)
      else if input_buffer.currentIs '"' then do
        let (valuestring, input_buffer) ← parse_string input_buffer
        .ok (.string valuestring, input_buffer)
      else
        match input_buffer.content[input_buffer.offset]? with
        | none => .error .failed
        | some first =>
            if first = '-' ∨ ('0' ≤ first ∧ first ≤ '9') then
              parse_number input_buffer
            else if first = '[' then
              parse_array (parse_value levels) input_buffer
            else if first = '{' then
              parse_object (parse_value levels) input_buffer
            else .error .failed

/--
`cJSON_ParseWithLengthOpts`: the item, and where the reading ended.  The call for
the innermost array or object is the deepest one which has elements to read.
-/
def cJSON_ParseWithLengthOpts (value : List Char)
    (require_null_terminated : Bool) : Except Stop (Item × ℕ) :=
  if value.length = 0 then .error .failed
  else do
    let buffer : ParseBuffer := { content := value, offset := 0, depth := 0 }
    let (item, buffer) ←
      parse_value (CJSON_NESTING_LIMIT + 1)
        (buffer_skip_whitespace (skip_utf8_bom buffer))
    if require_null_terminated then
      let buffer := buffer_skip_whitespace buffer
      if ¬buffer.currentIs nul then .error .failed else .ok (item, buffer.offset)
    else .ok (item, buffer.offset)

/-- `cJSON_ParseWithOpts`, which takes a C string with its terminating null. -/
def cJSON_ParseWithOpts (value : CString) (require_null_terminated : Bool) :
    Except Stop (Item × ℕ) :=
  cJSON_ParseWithLengthOpts (value.characters ++ [nul]) require_null_terminated

/-- Text behind the item is allowed. -/
def cJSON_Parse (value : CString) : Except Stop Item :=
  (cJSON_ParseWithOpts value false).map Prod.fst

end FederatedEdge.Json
