import FederatedEdge.Json.Rendering
import FederatedEdge.Library.Nesting

/-!
# The braces of a text

`is_complete_json` counts braces and does not know strings.  When no string and
no key has a brace in it, all braces of a printed text belong to its objects, and
the text of an object is complete at its last brace and not before.
-/

namespace FederatedEdge.Json

open FederatedEdge.Library
open FederatedEdge.Server
open FederatedEdge.Dataset

/-- There is no brace in the text. -/
def BraceFree (text : List Char) : Prop :=
  ∀ character ∈ text, character ≠ '{' ∧ character ≠ '}'

instance (text : List Char) : Decidable (BraceFree text) :=
  List.decidableBAll (fun character => character ≠ '{' ∧ character ≠ '}') text

/-- No string and no key of the item has a brace in it. -/
def Item.BraceFree : Item → Prop :=
  fold
    { null := True
      bool := fun _ => True
      number := fun _ => True
      string := fun valuestring => Json.BraceFree valuestring.characters
      array := fun child => ∀ element ∈ child, element
      object := fun child =>
        ∀ member ∈ child, Json.BraceFree member.1.characters ∧ member.2 }

/-- The braces of the text are nested. -/
abbrev NestedBraces (text : List Char) : Prop :=
  Nested '{' '}' text

theorem BraceFree.nested {text : List Char} (free : BraceFree text) :
    NestedBraces text :=
  .of_forall_ne free

end FederatedEdge.Json
