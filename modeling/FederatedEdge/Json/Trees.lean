import FederatedEdge.Json.Rendering
import FederatedEdge.Json.RoundTrip

/-!
# Trees through a text

The converters work on trees with exact numbers.  Here such a tree becomes an
item with doubles and C strings, and an item without infinite numbers becomes a
tree again.  A tree which is printed and parsed has the same strings and keys;
its numbers are what was read back.
-/

namespace FederatedEdge.Json

open FederatedEdge.Library
open FederatedEdge.Network
open FederatedEdge.Server

/-! ## Trees and items -/

mutual

/-- The item in memory. -/
def CJson.toItem : CJson → Item
  | .null => .null
  | .bool value => .bool value
  | .number valuedouble => .number (.ofRat valuedouble)
  | .string valuestring => .string (CString.read valuestring.toList)
  | .array child => .array (childrenToItems child)
  | .object child => .object (membersToItems child)

/-- The items of the elements of an array. -/
def childrenToItems : List CJson → List Item
  | [] => []
  | json :: child => json.toItem :: childrenToItems child

/-- The items of the members of an object. -/
def membersToItems : List (String × CJson) → List (CString × Item)
  | [] => []
  | (key, json) :: child =>
      (CString.read key.toList, json.toItem) :: membersToItems child

end

theorem CJson.toItem_array (child : List CJson) :
    (array child).toItem = .array (child.map toItem) := by
  have children : childrenToItems child = child.map toItem := by
    induction child with
    | nil => rfl
    | cons json child inductionHypothesis =>
        rw [childrenToItems, inductionHypothesis, List.map_cons]
  rw [toItem, children]

theorem CJson.toItem_object (child : List (String × CJson)) :
    (object child).toItem =
      .object (child.map fun member =>
        (CString.read member.1.toList, member.2.toItem)) := by
  have members : membersToItems child =
      child.map fun member => (CString.read member.1.toList, member.2.toItem) := by
    induction child with
    | nil => rfl
    | cons member child inductionHypothesis =>
        rw [membersToItems, inductionHypothesis, List.map_cons]
  rw [toItem, members]

theorem CJson.nesting_array_le_iff {child : List CJson} {limit : ℕ} :
    (array child).toItem.nesting ≤ limit ↔
      0 < limit ∧ ∀ json ∈ child, json.toItem.nesting ≤ limit - 1 := by
  rw [toItem_array, Item.nesting_array_le_iff, List.forall_mem_map]

theorem CJson.nesting_object_le_iff {child : List (String × CJson)} {limit : ℕ} :
    (object child).toItem.nesting ≤ limit ↔
      0 < limit ∧ ∀ member ∈ child, member.2.toItem.nesting ≤ limit - 1 := by
  rw [toItem_object, Item.nesting_object_le_iff, List.forall_mem_map]

/-- The tree of an item without infinite numbers. -/
def treeing : Item.Algebra (Option CJson) where
  null := some .null
  bool := fun value => some (.bool value)
  number := fun
    | .finite number => some (.number number.value)
    | .infinite _ => none
    | .nan => none
  string := fun valuestring => some (.string (String.ofList valuestring.characters))
  array := fun child => (child.mapM id).map .array
  object := fun child =>
    (child.mapM fun (member : CString × Option CJson) =>
      member.2.map fun json => (String.ofList member.1.characters, json)).map .object

/-- The tree of an item, if all its numbers are finite. -/
def Item.toTree : Item → Option CJson :=
  fold treeing

/-- What is parsed from a text, if all numbers are finite. -/
def parseTree (text : List Char) : Option CJson :=
  match cJSON_Parse (CString.read text) with
  | .ok item => item.toTree
  | .error _ => none

/-! ## Through a text -/

/-- The tree is read from the text of the item. -/
def Item.Reads (item : Item) (again : CJson) : Prop :=
  item.reread.toTree = some again

/-- The same key, and what is read for the value. -/
inductive Item.ReadsMember : CString × Item → String × CJson → Prop
  | mk {key : String} {item : Item} {again : CJson} :
      nul ∉ key.toList → item.Reads again →
        ReadsMember (CString.read key.toList, item) (key, again)

theorem Item.Reads.array {child : List Item} {again : List CJson}
    (each : List.Forall₂ Item.Reads child again) :
    (Item.array child).Reads (.array again) := by
  have children : (child.map fun item => item.reread.toTree).mapM id =
      some again := by
    induction each with
    | nil => rfl
    | cons same each inductionHypothesis =>
        rw [List.map_cons, List.mapM_cons, inductionHypothesis, same]
        rfl
  rw [Reads, Item.reread_array, Item.toTree, Item.fold_array, List.map_map]
  exact congrArg (Option.map CJson.array) children

theorem Item.Reads.object {child : List (CString × Item)}
    {again : List (String × CJson)}
    (each : List.Forall₂ Item.ReadsMember child again) :
    (Item.object child).Reads (.object again) := by
  have members : (child.map fun member =>
      (member.1, member.2.reread.toTree)).mapM
        (fun member => member.2.map fun json =>
          (String.ofList member.1.characters, json)) = some again := by
    induction each with
    | nil => rfl
    | @cons member other child again same each inductionHypothesis =>
        cases same with
        | @mk key item tree noNull reads =>
            rw [List.map_cons, List.mapM_cons, inductionHypothesis]
            dsimp only
            rw [CString.read_of_noNull noNull,
              show item.reread.toTree = some tree from reads]
            show some ((String.ofList key.toList, tree) :: again) = _
            rw [String.ofList_toList]
  rw [Reads, Item.reread_object, Item.toTree, Item.fold_object, List.map_map]
  exact congrArg (Option.map CJson.object) members

/-- An item which is not nested too deeply is parsed from its text. -/
theorem Item.Reads.parseTree_text {item : Item} {again : CJson}
    (reads : item.Reads again) (shallow : item.nesting ≤ CJSON_NESTING_LIMIT)
    (format : Bool) :
    parseTree (item.text format).characters = some again := by
  have parsed := (parse_text_iff format item).mpr shallow
  rw [parseTree, CString.read_of_noNull (item.text format).noNull, parsed]
  exact reads

/-- The second tree is read from the text of the first one. -/
def Rereads (json again : CJson) : Prop :=
  json.toItem.Reads again

/-- The value which is read for a number is another value, or the same. -/
def RereadsNumber (value again : ℚ) : Prop :=
  ∃ number read : Finite, number.value = value ∧ read.value = again ∧
    reread number = .finite read

/-- The same key, and what is read for the value. -/
inductive RereadsMember : String × CJson → String × CJson → Prop
  | mk {key : String} {json again : CJson} :
      nul ∉ key.toList → Rereads json again → RereadsMember (key, json) (key, again)

namespace Rereads

theorem number {value again : ℚ} (rereads : RereadsNumber value again) :
    Rereads (.number value) (.number again) := by
  rcases rereads with ⟨number, read, rfl, rfl, same⟩
  have item : (CJson.number number.value).toItem.reread = .number (.finite read) := by
    rw [CJson.toItem, ofRat_value, Item.reread, Item.fold, rereading]
    dsimp only
    rw [same]
  rw [Rereads, Item.Reads, item]
  rfl

theorem string {valuestring : String} (noNull : nul ∉ valuestring.toList) :
    Rereads (.string valuestring) (.string valuestring) := by
  rw [Rereads, Item.Reads, CJson.toItem, CString.read_of_noNull noNull]
  show some (CJson.string (String.ofList valuestring.toList)) = _
  rw [String.ofList_toList]

theorem array {child again : List CJson}
    (each : List.Forall₂ Rereads child again) :
    Rereads (.array child) (.array again) := by
  rw [Rereads, CJson.toItem_array]
  exact .array (List.forall₂_map_left_iff.mpr each)

theorem object {child again : List (String × CJson)}
    (each : List.Forall₂ RereadsMember child again) :
    Rereads (.object child) (.object again) := by
  rw [Rereads, CJson.toItem_object]
  refine .object (List.forall₂_map_left_iff.mpr (each.imp ?_))
  rintro _ _ ⟨noNull, rereads⟩
  exact .mk noNull rereads

end Rereads

end FederatedEdge.Json
