import FederatedEdge.Json.Completeness

/-!
# The text of an item

What the printer writes, apart from the memory it writes to, and what is read
back from it.  Formatted text has line breaks and tabs in objects and spaces in
arrays.  Numbers which are not finite become null, and those which were written
with 15 digits may change a little; everything else is read back as it was.
-/

namespace FederatedEdge.Json

open FederatedEdge.Library
open FederatedEdge.Server
open FederatedEdge.Dataset

/-! ## Rendering -/

/-- What is written between and around elements when the text is formatted. -/
def layout (format : Bool) (text : List Char) : List Char :=
  if format then text else []

/-- The tabs in front of a line at this depth. -/
def indentation (format : Bool) (depth : ℕ) : List Char :=
  layout format (List.replicate depth '\t')

/-- The elements of an array with commas between them. -/
def renderElements (format : Bool) (depth : ℕ) :
    List (ℕ → List Char) → List Char
  | [] => []
  | [element] => element depth
  | element :: next :: elements =>
      element depth ++ ',' :: layout format [' '] ++
        renderElements format depth (next :: elements)

/-- The members of an object with commas between them. -/
def renderMembers (format : Bool) (depth : ℕ) :
    List (CString × (ℕ → List Char)) → List Char
  | [] => []
  | (key, value) :: members =>
      indentation format depth ++ stringText key.characters ++
        ':' :: layout format ['\t'] ++ value depth ++
        (if members = [] then [] else [',']) ++ layout format ['\n'] ++
        renderMembers format depth members

/-- The text of each kind of item, by the depth at which it stands. -/
def rendering (format : Bool) : Item.Algebra (ℕ → List Char) where
  null := fun _ => ['n', 'u', 'l', 'l']
  bool := fun value _ =>
    if value then ['t', 'r', 'u', 'e'] else ['f', 'a', 'l', 's', 'e']
  number := fun valuedouble _ => numberText valuedouble
  string := fun valuestring _ => stringText valuestring.characters
  array := fun child depth =>
    '[' :: renderElements format (depth + 1) child ++ [']']
  object := fun child depth =>
    '{' :: layout format ['\n'] ++ renderMembers format (depth + 1) child ++
      indentation format depth ++ ['}']

/-- The text of an item which stands at this depth. -/
def Item.render (format : Bool) (item : Item) (depth : ℕ) : List Char :=
  item.fold (rendering format) depth

theorem Item.render_array (format : Bool) (child : List Item) (depth : ℕ) :
    (array child).render format depth =
      '[' :: renderElements format (depth + 1) (child.map (render format)) ++ [']'] :=
  congrFun (fold_array (rendering format) child) depth

theorem Item.render_object (format : Bool) (child : List (CString × Item))
    (depth : ℕ) :
    (object child).render format depth =
      '{' :: layout format ['\n'] ++
        renderMembers format (depth + 1)
          (child.map fun member => (member.1, member.2.render format)) ++
        indentation format depth ++ ['}'] :=
  congrFun (fold_object (rendering format) child) depth

/-! ## What is read back -/

/-- A finite number is read as the number of its digits, any other one as null. -/
def rereading : Item.Algebra Item where
  null := .null
  bool := .bool
  number := fun
    | .finite number => .number (Json.reread number)
    | .infinite _ => .null
    | .nan => .null
  string := .string
  array := .array
  object := .object

/-- The item which is read from the text of an item. -/
def Item.reread : Item → Item :=
  fold rereading

theorem Item.reread_array (child : List Item) :
    (array child).reread = array (child.map reread) :=
  fold_array rereading child

theorem Item.reread_object (child : List (CString × Item)) :
    (object child).reread =
      object (child.map fun member => (member.1, member.2.reread)) :=
  fold_object rereading child

theorem Item.nesting_reread (item : Item) : item.reread.nesting = item.nesting := by
  induction item using Item.induction with
  | null => rfl
  | bool value => rfl
  | number valuedouble => cases valuedouble <;> rfl
  | string valuestring => rfl
  | array child inductionHypothesis =>
      apply eq_of_forall_ge_iff
      intro limit
      rw [reread_array, nesting_array_le_iff, nesting_array_le_iff,
        List.forall_mem_map]
      refine and_congr_right fun _ => forall₂_congr fun item member => ?_
      rw [inductionHypothesis item member]
  | object child inductionHypothesis =>
      apply eq_of_forall_ge_iff
      intro limit
      rw [reread_object, nesting_object_le_iff, nesting_object_le_iff,
        List.forall_mem_map]
      refine and_congr_right fun _ => forall₂_congr fun member among => ?_
      rw [inductionHypothesis member among]

/-! ## The rendered text is a value -/

theorem whitespace_nil : Whitespace [] :=
  fun _ member => (List.not_mem_nil member).elim

theorem whitespace_layout (format : Bool) {text : List Char} (blank : Whitespace text) :
    Whitespace (layout format text) := by
  unfold layout
  split_ifs
  · exact blank
  · exact whitespace_nil

theorem whitespace_replicate {character : Char} (white : isWhitespace character = true)
    (count : ℕ) : Whitespace (List.replicate count character) := by
  intro other member
  rw [List.eq_of_mem_replicate member]
  exact white

theorem whitespace_indentation (format : Bool) (depth : ℕ) :
    Whitespace (indentation format depth) :=
  whitespace_layout format (whitespace_replicate (by decide) depth)

theorem numberText_numeral (number : Finite) :
    NumberText (numeral number).text (reread number) where
  characters := numeralText_text _
  length := by
    have short := length_numeral_lt number
    unfold numberBufferSize at short
    omega
  first := by
    rcases exists_cons_text (numeral number) with ⟨first, rest, same, minus | digit⟩
    · exact ⟨first, rest, same, Or.inl minus⟩
    · rw [Char.isDigit, Bool.and_eq_true, decide_eq_true_iff, decide_eq_true_iff] at digit
      exact ⟨first, rest, same, Or.inr digit⟩
  value := strtod_numeral number

theorem literal_stringText (string : CString) :
    Literal (stringText string.characters) string := by
  rcases findQuote_flatMap_escape string.characters [] with ⟨skipped, found⟩
  have literal := Literal.mk found (unescape_flatMap_escape string.characters)
  rw [CString.read_of_noNull string.noNull] at literal
  exact literal

theorem separated_renderElements (format : Bool) (depth : ℕ) {child : List Item}
    (nonempty : child ≠ [])
    (each : ∀ item ∈ child, Value (item.render format depth) item.reread) :
    Separated Value (renderElements format depth (child.map (Item.render format)))
      (child.map Item.reread) := by
  induction child with
  | nil => exact absurd rfl nonempty
  | cons item child inductionHypothesis =>
      have first := each item List.mem_cons_self
      cases child with
      | nil =>
          have separated := Separated.last whitespace_nil first whitespace_nil
          rw [List.nil_append, List.append_nil] at separated
          exact separated
      | cons next child =>
          have later := inductionHypothesis (by simp)
            fun other member => each other (List.mem_cons_of_mem _ member)
          have spaced := later.prepend
            (whitespace_layout format
              (whitespace_replicate (by decide : isWhitespace ' ' = true) 1))
          have separated := Separated.more whitespace_nil first whitespace_nil spaced
          rw [List.nil_append, List.append_nil] at separated
          rw [List.map_cons, List.map_cons, renderElements, List.append_assoc,
            List.cons_append]
          exact separated

theorem separated_renderMembers (format : Bool) (depth : ℕ)
    {child : List (CString × Item)} (nonempty : child ≠ []) {tail : List Char}
    (blank : Whitespace tail)
    (each : ∀ member ∈ child, Value (member.2.render format depth) member.2.reread) :
    Separated (Member Value)
      (renderMembers format depth
        (child.map fun member => (member.1, member.2.render format)) ++ tail)
      (child.map fun member => (member.1, member.2.reread)) := by
  induction child with
  | nil => exact absurd rfl nonempty
  | cons member child inductionHypothesis =>
      have value := each member List.mem_cons_self
      have first := Member.mk (literal_stringText member.1) whitespace_nil
        (whitespace_layout format
          (whitespace_replicate (by decide : isWhitespace '\t' = true) 1)) value
      have tabs := whitespace_indentation format depth
      have newline := whitespace_layout format
        (whitespace_replicate (by decide : isWhitespace '\n' = true) 1)
      cases child with
      | nil =>
          have separated := Separated.last tabs first (newline.append blank)
          simpa [renderMembers] using separated
      | cons next child =>
          have later := inductionHypothesis (by simp)
            fun other among => each other (List.mem_cons_of_mem _ among)
          have separated :=
            Separated.more tabs first whitespace_nil (later.prepend newline)
          simpa [renderMembers] using separated

/-- The text of an item derives from the grammar. -/
theorem value_render (format : Bool) (item : Item) :
    ∀ depth, Value (item.render format depth) item.reread := by
  induction item using Item.induction with
  | null => exact fun _ => .null
  | bool value =>
      intro depth
      cases value with
      | false => exact .false
      | true => exact .true
  | number valuedouble =>
      intro depth
      cases valuedouble with
      | finite number => exact .number (numberText_numeral number)
      | infinite negative => exact .null
      | nan => exact .null
  | string valuestring => exact fun _ => .string (literal_stringText valuestring)
  | array child inductionHypothesis =>
      intro depth
      rw [Item.render_array, Item.reread_array]
      rcases eq_or_ne child [] with rfl | nonempty
      · exact .emptyArray whitespace_nil
      · exact .array (separated_renderElements format (depth + 1) nonempty
          fun item member => inductionHypothesis item member (depth + 1))
  | object child inductionHypothesis =>
      intro depth
      rw [Item.render_object, Item.reread_object]
      have newline := whitespace_layout format
        (whitespace_replicate (by decide : isWhitespace '\n' = true) 1)
      have tabs := whitespace_indentation format depth
      rcases eq_or_ne child [] with rfl | nonempty
      · have empty := Value.emptyObject (newline.append tabs)
        simpa [renderMembers] using empty
      · have separated := (separated_renderMembers format (depth + 1) nonempty tabs
          fun member among => inductionHypothesis member among (depth + 1)).prepend
            newline
        have value := Value.object separated
        simpa using value

/-! ## The round trip -/

theorem null_notMem_layout (format : Bool) {text : List Char} (noNull : nul ∉ text) :
    nul ∉ layout format text := by
  unfold layout
  split_ifs
  · exact noNull
  · exact List.not_mem_nil

theorem null_notMem_indentation (format : Bool) (depth : ℕ) :
    nul ∉ indentation format depth :=
  null_notMem_layout format fun member =>
    absurd (List.eq_of_mem_replicate member) (by decide)

theorem null_notMem_hex4 (code : ℕ) : nul ∉ hex4 code := by
  have digit (number : ℕ) : nul ≠ Nat.digitChar (number % 0x10) := by
    have small : number % 0x10 < 0x10 := Nat.mod_lt _ (by norm_num)
    interval_cases number % 0x10 <;> decide
  simp only [hex4, List.mem_cons, List.not_mem_nil, or_false, not_or]
  exact ⟨digit _, digit _, digit _, digit _⟩

theorem null_notMem_escape {character : Char} (noNull : nul ≠ character) :
    nul ∉ escape character := by
  unfold escape
  split_ifs
  · simpa using noNull
  all_goals try decide
  rw [List.mem_cons, List.mem_cons, not_or, not_or]
  exact ⟨by decide, by decide, null_notMem_hex4 _⟩

theorem null_notMem_stringText (string : CString) :
    nul ∉ stringText string.characters := by
  rw [stringText, List.mem_cons, List.mem_append, List.mem_flatMap, not_or, not_or]
  refine ⟨by decide, ?_, by decide⟩
  rintro ⟨character, member, escaped⟩
  refine null_notMem_escape ?_ escaped
  rintro rfl
  exact string.noNull member

theorem null_notMem_numberText (valuedouble : Double) :
    nul ∉ numberText valuedouble := by
  cases valuedouble with
  | finite number =>
      exact fun member => absurd (numeralText_text (numeral number) nul member) (by decide)
  | infinite negative => exact show nul ∉ ['n', 'u', 'l', 'l'] by decide
  | nan => exact show nul ∉ ['n', 'u', 'l', 'l'] by decide

theorem null_notMem_renderElements (format : Bool) (depth : ℕ)
    {elements : List (ℕ → List Char)} (each : ∀ element ∈ elements, nul ∉ element depth) :
    nul ∉ renderElements format depth elements := by
  induction elements with
  | nil => exact List.not_mem_nil
  | cons element elements inductionHypothesis =>
      have first := each element List.mem_cons_self
      cases elements with
      | nil => exact first
      | cons next elements =>
          have later := inductionHypothesis fun other member =>
            each other (List.mem_cons_of_mem _ member)
          simp only [renderElements, List.mem_append, List.mem_cons, not_or]
          exact ⟨⟨first, by decide, null_notMem_layout format (by decide)⟩, later⟩

theorem null_notMem_renderMembers (format : Bool) (depth : ℕ)
    {members : List (CString × (ℕ → List Char))}
    (each : ∀ member ∈ members, nul ∉ member.2 depth) :
    nul ∉ renderMembers format depth members := by
  induction members with
  | nil => exact List.not_mem_nil
  | cons member members inductionHypothesis =>
      have later := inductionHypothesis fun other among =>
        each other (List.mem_cons_of_mem _ among)
      simp only [renderMembers, List.mem_append, List.mem_cons, not_or]
      refine ⟨⟨⟨⟨⟨⟨null_notMem_indentation format depth,
        null_notMem_stringText member.1⟩, by decide,
        null_notMem_layout format (by decide)⟩, each member List.mem_cons_self⟩, ?_⟩,
        null_notMem_layout format (by decide)⟩, later⟩
      split_ifs
      · exact List.not_mem_nil
      · decide

/-- The text of an item is a C string. -/
theorem null_notMem_render (format : Bool) (item : Item) :
    ∀ depth, nul ∉ item.render format depth := by
  induction item using Item.induction with
  | null => exact fun _ => show nul ∉ ['n', 'u', 'l', 'l'] by decide
  | bool value =>
      intro depth
      cases value with
      | false => exact show nul ∉ ['f', 'a', 'l', 's', 'e'] by decide
      | true => exact show nul ∉ ['t', 'r', 'u', 'e'] by decide
  | number valuedouble => exact fun _ => null_notMem_numberText valuedouble
  | string valuestring => exact fun _ => null_notMem_stringText valuestring
  | array child inductionHypothesis =>
      intro depth
      have inner := null_notMem_renderElements format (depth + 1)
        (List.forall_mem_map.mpr fun item member =>
          inductionHypothesis item member (depth + 1))
      rw [Item.render_array, List.mem_append, List.mem_cons, not_or, not_or]
      exact ⟨⟨by decide, inner⟩, by decide⟩
  | object child inductionHypothesis =>
      intro depth
      have each : ∀ rendered ∈
          child.map fun member => (member.1, member.2.render format),
          nul ∉ rendered.2 (depth + 1) := by
        intro rendered among
        rcases List.mem_map.mp among with ⟨member, original, rfl⟩
        exact inductionHypothesis member original (depth + 1)
      have inner := null_notMem_renderMembers format (depth + 1) each
      simp only [Item.render_object, List.mem_append, List.mem_cons, not_or]
      exact ⟨⟨⟨⟨by decide, null_notMem_layout format (by decide)⟩, inner⟩,
        null_notMem_indentation format depth⟩, by decide, List.not_mem_nil⟩

/-- The text of an item as the C string which `cJSON_Print` returns. -/
def Item.text (format : Bool) (item : Item) : CString where
  characters := item.render format 0
  noNull := null_notMem_render format item 0

/-- What was printed is read back, as long as it is not nested too deeply. -/
theorem parse_text_iff (format : Bool) (item : Item) :
    cJSON_Parse (item.text format) = .ok item.reread ↔
      item.nesting ≤ CJSON_NESTING_LIMIT := by
  rw [cJSON_Parse_eq_ok_iff]
  constructor
  · rintro ⟨text, rest, document, -⟩
    rw [← Item.nesting_reread]
    exact document.nesting
  · intro shallow
    have value := value_render format item 0
    refine ⟨item.render format 0, [], ⟨⟨[], [], ?_, Or.inl rfl, whitespace_nil⟩, value, ?_⟩, ?_⟩
    · rw [List.append_nil]
      rfl
    · rw [Item.nesting_reread]
      exact shallow
    · intro number same
      rw [same] at value
      generalize item.render format 0 = text at value ⊢
      cases value with
      | number isNumber =>
          rw [List.append_nil, List.takeWhile_eq_self_iff.mpr isNumber.characters,
            List.take_of_length_le isNumber.length]
          exact isNumber.value

end FederatedEdge.Json
