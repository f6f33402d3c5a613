import FederatedEdge.Json.Double
import FederatedEdge.Server.Handlers
import Mathlib.Data.List.TakeWhile

/-!
# Items with C strings and doubles

The trees which the parser builds and the printer walks along.  A string is what
stands in memory up to the terminating null, a character for a byte, and a number
is a double, which may be infinite.

A function on items is the `fold` of an algebra, which says what happens at each
kind of item to the results for the children.
-/

namespace FederatedEdge.Json

open FederatedEdge.Server

/-- The characters of a C string, in front of the terminating null. -/
structure CString where
  characters : List Char
  noNull : nul ∉ characters
deriving DecidableEq

/-- What an array holds when it is taken for a C string. -/
def CString.read (characters : List Char) : CString where
  characters := characters.takeWhile (· ≠ nul)
  noNull := fun member => by
    have kept := List.mem_takeWhile_imp member
    simp at kept

theorem CString.read_of_noNull {characters : List Char}
    (noNull : nul ∉ characters) :
    CString.read characters = ⟨characters, noNull⟩ := by
  rw [CString.read, CString.mk.injEq, List.takeWhile_eq_self_iff]
  intro character member
  exact decide_eq_true fun null => noNull (null ▸ member)

/-- An item in memory, whose numbers are any doubles and whose strings are C strings. -/
inductive Item where
  | null
  | bool (value : Bool)
  | number (valuedouble : Double)
  | string (valuestring : CString)
  | array (child : List Item)
  | object (child : List (CString × Item))

namespace Item

/-- What a function does at each kind of item. -/
structure Algebra (α : Type) where
  null : α
  bool : Bool → α
  number : Double → α
  string : CString → α
  array : List α → α
  object : List (CString × α) → α

variable {α : Type}

mutual

/-- Apply the algebra from the leaves up. -/
def fold (algebra : Algebra α) : Item → α
  | null => algebra.null
  | bool value => algebra.bool value
  | number valuedouble => algebra.number valuedouble
  | string valuestring => algebra.string valuestring
  | array child => algebra.array (foldChildren algebra child)
  | object child => algebra.object (foldMembers algebra child)

/-- Apply the algebra to the elements of an array. -/
def foldChildren (algebra : Algebra α) : List Item → List α
  | [] => []
  | item :: child => fold algebra item :: foldChildren algebra child

/-- Apply the algebra to the values of an object. -/
def foldMembers (algebra : Algebra α) :
    List (CString × Item) → List (CString × α)
  | [] => []
  | (key, item) :: child => (key, fold algebra item) :: foldMembers algebra child

end

theorem foldChildren_eq_map (algebra : Algebra α) (child : List Item) :
    foldChildren algebra child = child.map (fold algebra) := by
  induction child with
  | nil => rfl
  | cons item child inductionHypothesis =>
      rw [foldChildren, inductionHypothesis, List.map_cons]

theorem foldMembers_eq_map (algebra : Algebra α) (child : List (CString × Item)) :
    foldMembers algebra child =
      child.map fun member => (member.1, fold algebra member.2) := by
  induction child with
  | nil => rfl
  | cons member child inductionHypothesis =>
      rw [foldMembers, inductionHypothesis, List.map_cons]

@[simp]
theorem fold_array (algebra : Algebra α) (child : List Item) :
    fold algebra (array child) = algebra.array (child.map (fold algebra)) := by
  rw [fold, foldChildren_eq_map]

@[simp]
theorem fold_object (algebra : Algebra α) (child : List (CString × Item)) :
    fold algebra (object child) =
      algebra.object (child.map fun member => (member.1, fold algebra member.2)) := by
  rw [fold, foldMembers_eq_map]

/-- Induction over the children of arrays and objects. -/
@[elab_as_elim]
theorem induction {motive : Item → Prop}
    (null : motive null)
    (bool : ∀ value, motive (bool value))
    (number : ∀ valuedouble, motive (number valuedouble))
    (string : ∀ valuestring, motive (string valuestring))
    (array : ∀ child, (∀ item ∈ child, motive item) → motive (array child))
    (object : ∀ child : List (CString × Item),
      (∀ member ∈ child, motive member.2) → motive (object child)) :
    ∀ item, motive item
  | .null => null
  | .bool value => bool value
  | .number valuedouble => number valuedouble
  | .string valuestring => string valuestring
  | .array child =>
      array child (children child)
  | .object child =>
      object child (members child)
where
  children : ∀ child : List Item, ∀ item ∈ child, motive item
    | [], _, member => (List.not_mem_nil member).elim
    | first :: child, item, member => by
        rcases List.mem_cons.mp member with same | later
        · rw [same]
          exact induction null bool number string array object first
        · exact children child item later
  members : ∀ child : List (CString × Item), ∀ member ∈ child, motive member.2
    | [], _, member => (List.not_mem_nil member).elim
    | (_, first) :: child, entry, member => by
        rcases List.mem_cons.mp member with same | later
        · rw [same]
          exact induction null bool number string array object first
        · exact members child entry later

/-! ## Nesting -/

/-- How deeply arrays and objects are nested. -/
def nesting : Item → ℕ :=
  fold
    { null := 0
      bool := fun _ => 0
      number := fun _ => 0
      string := fun _ => 0
      array := fun child => child.foldr max 0 + 1
      object := fun child => (child.map Prod.snd).foldr max 0 + 1 }

theorem foldr_max_le_iff {values : List ℕ} {limit : ℕ} :
    values.foldr max 0 ≤ limit ↔ ∀ value ∈ values, value ≤ limit := by
  induction values with
  | nil => simp
  | cons value values inductionHypothesis => simp [inductionHypothesis]

theorem nesting_array_le_iff {child : List Item} {limit : ℕ} :
    (array child).nesting ≤ limit ↔
      0 < limit ∧ ∀ item ∈ child, item.nesting ≤ limit - 1 := by
  have value : (array child).nesting = (child.map nesting).foldr max 0 + 1 :=
    fold_array _ child
  rw [value]
  constructor
  · intro bound
    refine ⟨by omega, fun item member => ?_⟩
    exact foldr_max_le_iff.mp (show _ ≤ limit - 1 by omega) _
      (List.mem_map_of_mem member)
  · rintro ⟨positive, each⟩
    have bound : (child.map nesting).foldr max 0 ≤ limit - 1 := by
      rw [foldr_max_le_iff]
      intro value member
      rcases List.mem_map.mp member with ⟨item, among, rfl⟩
      exact each item among
    omega

theorem nesting_object_le_iff {child : List (CString × Item)} {limit : ℕ} :
    (object child).nesting ≤ limit ↔
      0 < limit ∧ ∀ member ∈ child, member.2.nesting ≤ limit - 1 := by
  have value : (object child).nesting =
      (array (child.map Prod.snd)).nesting := by
    rw [nesting, fold_object, fold_array, List.map_map]
    dsimp only
    rw [List.map_map]
    rfl
  rw [value, nesting_array_le_iff, List.forall_mem_map]

end Item

end FederatedEdge.Json
