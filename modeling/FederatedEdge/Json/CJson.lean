import Mathlib.Data.Rat.Floor
import Mathlib.Tactic.Linarith

/-!
# The cJSON trees the converters work on

A `cJSON` item is a tree; the `child` chain of an array or an object is a list
here.  The value of a double is a rational number.  `valueint` is not stored
but computed: `cJSON_CreateNumber` and `parse_number` both derive it from the
double in the same way.
-/

namespace FederatedEdge.Json

/-- A parsed item, whose numbers are finite. -/
inductive CJson where
  | null
  | bool (value : Bool)
  | number (valuedouble : ℚ)
  | string (valuestring : String)
  | array (child : List CJson)
  | object (child : List (String × CJson))

/-- The largest `int`. -/
def INT_MAX : ℤ := 2147483647

/-- The smallest `int`. -/
def INT_MIN : ℤ := -2147483648

/-- A number which a C `int` can hold. -/
def IsInt (value : ℤ) : Prop :=
  INT_MIN ≤ value ∧ value ≤ INT_MAX

instance (value : ℤ) : Decidable (IsInt value) := by
  unfold IsInt
  infer_instance

/-- The cast `(int)num`, which drops the fraction. -/
def truncate (number : ℚ) : ℤ :=
  number.num.tdiv number.den

/-- The saturating conversion of a number item to `valueint`. -/
def valueint (number : ℚ) : ℤ :=
  if number ≥ INT_MAX then INT_MAX
  else if number ≤ INT_MIN then INT_MIN
  else truncate number

@[simp]
theorem truncate_intCast (value : ℤ) : truncate (value : ℚ) = value := by
  simp [truncate]

/-- An `int` survives the detour through a double. -/
theorem valueint_intCast {value : ℤ} (isInt : IsInt value) :
    valueint (value : ℚ) = value := by
  rcases isInt with ⟨low, high⟩
  unfold valueint
  by_cases atTop : (value : ℚ) ≥ INT_MAX
  · have : value = INT_MAX := le_antisymm high (by exact_mod_cast atTop)
    rw [if_pos atTop, this]
  · rw [if_neg atTop]
    by_cases atBottom : (value : ℚ) ≤ INT_MIN
    · have : value = INT_MIN := le_antisymm (by exact_mod_cast atBottom) low
      rw [if_pos atBottom, this]
    · rw [if_neg atBottom, truncate_intCast]

namespace CJson

/-- `valuedouble`, which is zero in every item but a number. -/
def valuedouble : CJson → ℚ
  | .number valuedouble => valuedouble
  | _ => 0

@[simp]
theorem valuedouble_number (value : ℚ) : (number value).valuedouble = value :=
  rfl

end CJson

/-- `case_insensitive_strcmp(left, right) == 0`. -/
def sameKey (left right : String) : Bool :=
  left.toList.map Char.toLower = right.toList.map Char.toLower

/--
`cJSON_GetObjectItem`: the first item under the key, upper and lower case not
distinguished.  Items without keys, and items without children, have none.
-/
def cJSON_GetObjectItem (object : CJson) (name : String) : Option CJson :=
  match object with
  | .object child =>
      (child.find? fun entry => sameKey name entry.1).map Prod.snd
  | _ => none

theorem getObjectItem_head
    {name key : String} (value : CJson) (rest : List (String × CJson))
    (same : sameKey name key = true) :
    cJSON_GetObjectItem (.object ((key, value) :: rest)) name = some value := by
  simp [cJSON_GetObjectItem, same]

theorem getObjectItem_tail
    {name key : String} (value : CJson) (rest : List (String × CJson))
    (different : sameKey name key = false) :
    cJSON_GetObjectItem (.object ((key, value) :: rest)) name =
      cJSON_GetObjectItem (.object rest) name := by
  simp [cJSON_GetObjectItem, different]

end FederatedEdge.Json
