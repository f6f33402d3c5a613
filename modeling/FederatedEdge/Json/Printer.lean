import FederatedEdge.Json.Rendering
import FederatedEdge.Library.CStrings

/-!
# The printer

`print_value` and what it calls, on memory which is enlarged as it is needed.
The allocator may refuse any request.  What is written behind the end of the
memory is `undefined`, and so is the length of a string which is not terminated.

Whatever the allocator does, all writes are inside of the memory, and the result
is the rendered text.  It takes one byte more than the text and its terminator
while it is written.
-/

namespace FederatedEdge.Json

open FederatedEdge.Library
open FederatedEdge.Server

/-- Whether a request is granted, by its number and its size. -/
abbrev Allocator := ℕ → ℕ → Bool

/-- `length` is the size of the memory. -/
structure PrintBuffer where
  buffer : Buffer Char
  offset : ℕ
  depth : ℕ
  requests : ℕ

/-- The largest size which `ensure` asks for. -/
def maximalSize : ℕ := INT_MAX.toNat

namespace PrintBuffer

/-- Move the offset forward. -/
def advance (p : PrintBuffer) (count : ℕ) : PrintBuffer :=
  { p with offset := p.offset + count }

/-- `reallocate(p->buffer, newsize)`. -/
def reallocate (allocator : Allocator) (newsize : ℕ) (p : PrintBuffer) :
    Except Stop PrintBuffer :=
  if allocator p.requests newsize then
    .ok { p with buffer := p.buffer.resize newsize, requests := p.requests + 1 }
  else .error .failed

/-- Write behind `position` characters from the offset on. -/
def output (position : ℕ) (text : List Char) (p : PrintBuffer) :
    Except Stop PrintBuffer :=
  if p.buffer.length < p.offset + position + text.length then .error .undefined
  else .ok { p with buffer := p.buffer.overwrite (p.offset + position) text }

end PrintBuffer

open PrintBuffer

/-- The memory for `needed` more characters, and one more. -/
def ensure (allocator : Allocator) (needed : ℕ) (p : PrintBuffer) :
    Except Stop PrintBuffer :=
  if 0 < p.buffer.length ∧ p.buffer.length ≤ p.offset then .error .failed
  else if maximalSize < needed then .error .failed
  else
    let needed := needed + p.offset + 1
    if needed ≤ p.buffer.length then .ok p
    else if maximalSize / 2 < needed then
      if needed ≤ maximalSize then p.reallocate allocator maximalSize
      else .error .failed
    else p.reallocate allocator (needed * 2)

/-- The length of a string in memory. -/
def strlen : Buffer Char → Except Stop ℕ
  | [] => .error .undefined
  | none :: _ => .error .undefined
  | some character :: rest =>
      if character = nul then .ok 0
      else do
        let length ← strlen rest
        .ok (length + 1)

/-- Move the offset behind the string which has been written. -/
def update_offset (p : PrintBuffer) : Except Stop PrintBuffer := do
  let length ← strlen (p.buffer.drop p.offset)
  .ok (p.advance length)

/-- Printing one thing into the memory. -/
abbrev Printing := PrintBuffer → Except Stop PrintBuffer

/-! ## Leaves -/

/-- `null`, `true` and `false`. -/
def print_word (allocator : Allocator) (word : List Char) : Printing := fun p => do
  let p ← ensure allocator (word.length + 1) p
  p.output 0 (word ++ [nul])

/-- A number, by the copy of its characters in `print_number`. -/
def print_number_to (allocator : Allocator) (valuedouble : Double) : Printing :=
  fun p =>
    match print_number valuedouble with
    | none => .error .failed
    | some number_buffer => do
        let p ← ensure allocator (number_buffer.length + 1) p
        let p ← p.output 0 (number_buffer ++ [nul])
        .ok (p.advance number_buffer.length)

/-- How many additional characters the first loop counts. -/
def escapeCharacters (character : Char) : ℕ :=
  if character ∈ ['"', '\\', '\x08', '\x0c', '\n', '\r', '\t'] then 1
  else if character.toNat < 32 then 5
  else 0

/-- A string in quotes, with its special characters escaped. -/
def print_string_ptr (allocator : Allocator) (input : CString) : Printing :=
  fun p => do
    let escape_characters := (input.characters.map escapeCharacters).sum
    let output_length := input.characters.length + escape_characters
    let p ← ensure allocator (output_length + 3) p
    if escape_characters = 0 then
      p.output 0 ('"' :: input.characters ++ ['"', nul])
    else do
      let p ← p.output 0 ('"' :: input.characters.flatMap escape)
      p.output (output_length + 1) ['"', nul]

/-! ## Arrays and objects -/

/-- The elements of an array with commas between them. -/
def print_elements (allocator : Allocator) (format : Bool) :
    List Printing → Printing
  | [], p => .ok p
  | element :: elements, p => do
      let p ← element p
      let p ← update_offset p
      if elements = [] then print_elements allocator format elements p
      else do
        let length := if format then 2 else 1
        let p ← ensure allocator (length + 1) p
        let p ← p.output 0 (',' :: layout format [' '] ++ [nul])
        print_elements allocator format elements (p.advance length)

/-- An array, one level deeper than what is around it. -/
def print_array (allocator : Allocator) (format : Bool) (child : List Printing) :
    Printing := fun p => do
  let p ← ensure allocator 1 p
  let p ← p.output 0 ['[']
  let p := { p.advance 1 with depth := p.depth + 1 }
  let p ← print_elements allocator format child p
  let p ← ensure allocator 2 p
  let p ← p.output 0 [']', nul]
  .ok { p with depth := p.depth - 1 }

/-- The tabs in front of a key. -/
def print_tabs (allocator : Allocator) (format : Bool) : Printing := fun p =>
  if format then do
    let p ← ensure allocator p.depth p
    let p ← p.output 0 (List.replicate p.depth '\t')
    .ok (p.advance p.depth)
  else .ok p

/-- The members of an object, each in a line of its own when formatted. -/
def print_members (allocator : Allocator) (format : Bool) :
    List (CString × Printing) → Printing
  | [], p => .ok p
  | (key, value) :: members, p => do
      let p ← print_tabs allocator format p
      let p ← print_string_ptr allocator key p
      let p ← update_offset p
      let length := if format then 2 else 1
      let p ← ensure allocator length p
      let p ← p.output 0 (':' :: layout format ['\t'])
      let p ← value (p.advance length)
      let p ← update_offset p
      let length := (if format then 1 else 0) + (if members = [] then 0 else 1)
      let p ← ensure allocator (length + 1) p
      let p ←
        p.output 0
          ((if members = [] then [] else [',']) ++ layout format ['\n'] ++ [nul])
      print_members allocator format members (p.advance length)

/-- An object, one level deeper than what is around it. -/
def print_object (allocator : Allocator) (format : Bool)
    (child : List (CString × Printing)) : Printing := fun p => do
  let length := if format then 2 else 1
  let p ← ensure allocator (length + 1) p
  let p ← p.output 0 ('{' :: layout format ['\n'])
  let p := { p.advance length with depth := p.depth + 1 }
  let p ← print_members allocator format child p
  let p ← ensure allocator (if format then p.depth + 1 else 2) p
  let p ← p.output 0 (indentation format (p.depth - 1) ++ ['}', nul])
  .ok { p with depth := p.depth - 1 }

/-! ## Values -/

/-- The cases of `print_value`. -/
def printing (allocator : Allocator) (format : Bool) : Item.Algebra Printing where
  null := print_word allocator ['n', 'u', 'l', 'l']
  bool := fun value =>
    print_word allocator
      (if value then ['t', 'r', 'u', 'e'] else ['f', 'a', 'l', 's', 'e'])
  number := print_number_to allocator
  string := print_string_ptr allocator
  array := print_array allocator format
  object := print_object allocator format

/-- The printing function of an item, put together from those of its parts. -/
def print_value (allocator : Allocator) (format : Bool) (item : Item) : Printing :=
  item.fold (printing allocator format)

/-- The memory which is returned has the size of the text and its terminator. -/
def print (allocator : Allocator) (item : Item) (format : Bool) :
    Except Stop (Buffer Char) :=
  if allocator 0 256 then do
    let p ← print_value allocator format item
      { buffer := Buffer.allocate 256, offset := 0, depth := 0, requests := 1 }
    let p ← update_offset p
    let printed ← p.reallocate allocator (p.offset + 1)
    .ok printed.buffer
  else .error .failed

/-- The formatted text of an item. -/
def cJSON_Print (allocator : Allocator) (item : Item) : Except Stop (Buffer Char) :=
  print allocator item true

end FederatedEdge.Json
