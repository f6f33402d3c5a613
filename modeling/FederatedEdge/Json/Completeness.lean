import FederatedEdge.Json.Grammar

/-!
# Every document is parsed

A text which derives from the grammar, and which is not nested too deeply, is
parsed to the item it derives for, wherever it stands in the buffer.  Behind a
number there must not be a character of numerals, which would be read as well.
-/

namespace FederatedEdge.Json

open FederatedEdge.Library
open FederatedEdge.Server
open FederatedEdge.Dataset
open ParseBuffer

/-- Something follows which is no part of a numeral. -/
def Delimited (rest : List Char) : Prop :=
  ∃ next others, rest = next :: others ∧ numeralCharacter next = false

/-- No more characters of a numeral follow. -/
def NumeralEnds (rest : List Char) : Prop :=
  rest.takeWhile numeralCharacter = []

theorem Delimited.numeralEnds {rest : List Char} (delimited : Delimited rest) :
    NumeralEnds rest := by
  rcases delimited with ⟨next, others, rfl, other⟩
  rw [NumeralEnds, List.takeWhile_cons, if_neg (by simp [other])]

theorem not_numeralCharacter_of_isWhitespace {character : Char}
    (white : isWhitespace character = true) : numeralCharacter character = false := by
  rw [isWhitespace_iff] at white
  rw [numeralCharacter, Bool.or_eq_false_iff]
  constructor
  · rw [Char.isDigit, Bool.and_eq_false_iff]
    left
    rw [decide_eq_false_iff_not]
    intro digit
    have large : '0'.toNat ≤ character.toNat := digit
    have zero : '0'.toNat = 48 := rfl
    omega
  · rw [decide_eq_false_iff_not]
    intro member
    simp only [List.mem_cons, List.not_mem_nil, or_false] at member
    rcases member with rfl | rfl | rfl | rfl | rfl
    all_goals exact absurd white (by decide)

theorem delimited_append {blank rest : List Char} (isBlank : Whitespace blank)
    (delimited : Delimited rest) : Delimited (blank ++ rest) := by
  cases blank with
  | nil => exact delimited
  | cons character blank =>
      exact ⟨character, blank ++ rest, rfl,
        not_numeralCharacter_of_isWhitespace (isBlank _ List.mem_cons_self)⟩

/-! ## Leaves -/

theorem current_of_ahead {buffer : ParseBuffer} {first : Char} {rest : List Char}
    (ahead : buffer.ahead = first :: rest) : buffer.current = .ok first := by
  rw [current, ← head?_ahead, ahead]
  rfl

theorem currentIs_of_ahead {buffer : ParseBuffer} {first : Char} {rest : List Char}
    (ahead : buffer.ahead = first :: rest) (character : Char) :
    buffer.currentIs character ↔ first = character := by
  rw [currentIs_iff, ahead]
  constructor
  · rintro ⟨others, same⟩
    rw [List.cons.injEq] at same
    exact same.1
  · rintro rfl
    exact ⟨rest, rfl⟩

theorem ahead_advance_of_ahead {buffer : ParseBuffer} {text rest : List Char}
    (ahead : buffer.ahead = text ++ rest) :
    (buffer.advance text.length).ahead = rest := by
  rw [ahead_advance, ahead, List.drop_left]

theorem parse_string_of_literal {buffer : ParseBuffer} {text rest : List Char}
    {string : CString} (literal : Literal text string)
    (ahead : buffer.ahead = text ++ rest) :
    parse_string buffer = .ok (string, buffer.advance text.length) := by
  cases literal with
  | @mk body output skipped_bytes found read =>
      rw [List.cons_append, List.cons_append, List.append_assoc,
        List.singleton_append] at ahead
      have behind : (buffer.advance 1).ahead = body ++ '"' :: rest :=
        @ahead_advance_of_ahead buffer ['"'] (body ++ '"' :: rest) ahead
      have again := findQuote_take found rest
      have all : (body ++ ['"']).take (body.length + 1) = body ++ ['"'] :=
        List.take_of_length_le (by simp)
      rw [all, List.append_assoc, List.singleton_append] at again
      have fits := writtenBytes_lt again
      rw [List.take_left] at fits
      unfold parse_string
      rw [current_of_ahead ahead, Stop.ok_bind, if_neg (not_not.mpr rfl)]
      dsimp only
      rw [behind, again]
      dsimp only
      rw [List.take_left, if_neg (by omega), read, List.length_append,
        List.length_cons]
      rfl

theorem parse_number_of_numberText {buffer : ParseBuffer} {text rest : List Char}
    {number : Double} (isNumber : NumberText text number)
    (ahead : buffer.ahead = text ++ rest) (ends : NumeralEnds rest) :
    parse_number buffer = .ok (.number number, buffer.advance text.length) := by
  have read : numberCString buffer = text := by
    rw [numberCString, ahead, List.takeWhile_append_of_pos isNumber.characters,
      ends, List.append_nil, List.take_of_length_le isNumber.length]
  rw [parse_number, read, isNumber.value]

/-! ## Arrays and objects -/

section Lists

variable {α : Type} {One : List Char → α → Prop}
  {parse_one : ParseBuffer → Except Stop (α × ParseBuffer)} {depth : ℕ}

/-- What the parser of one element has to do at this depth. -/
def ParsesOne (One : List Char → α → Prop)
    (parse_one : ParseBuffer → Except Stop (α × ParseBuffer)) (depth : ℕ) : Prop :=
  ∀ (buffer : ParseBuffer) (text rest : List Char) (element : α),
    buffer.depth = depth → One text element → buffer.ahead = text ++ rest →
    Delimited rest → parse_one buffer = .ok (element, buffer.advance text.length)

/-- No element starts with white space, a closing bracket or the mark. -/
def StartsBlack (One : List Char → α → Prop) : Prop :=
  ∀ text element, One text element →
    ∃ first others, text = first :: others ∧ isWhitespace first = false ∧
      first ≠ ']' ∧ first ≠ '}' ∧ first ≠ '\xEF'

/-- The white space in front of the first element. -/
theorem Separated.strip (black : StartsBlack One) {text : List Char}
    {elements : List α} (separated : Separated One text elements) :
    ∃ blank first others, text = blank ++ first :: others ∧ Whitespace blank ∧
      isWhitespace first = false ∧ first ≠ ']' ∧ first ≠ '}' ∧
      Separated One (first :: others) elements := by
  have nothing : Whitespace [] := fun _ member => (List.not_mem_nil member).elim
  cases separated with
  | @last before text after element isBefore isOne isAfter =>
      rcases black _ _ isOne with ⟨first, others, rfl, blackFirst, noBracket⟩
      refine ⟨before, first, others ++ after, by simp, isBefore, blackFirst,
        noBracket.1, noBracket.2.1, ?_⟩
      exact .last nothing isOne isAfter
  | @more before text after rest element elements isBefore isOne isAfter separated =>
      rcases black _ _ isOne with ⟨first, others, rfl, blackFirst, noBracket⟩
      refine ⟨before, first, others ++ after ++ ',' :: rest, by simp, isBefore,
        blackFirst, noBracket.1, noBracket.2.1, ?_⟩
      exact .more nothing isOne isAfter separated

theorem Separated.length_le (black : StartsBlack One) {text : List Char}
    {elements : List α} (separated : Separated One text elements) :
    elements.length ≤ text.length := by
  induction separated with
  | last before one after =>
      rcases black _ _ one with ⟨first, others, rfl, -⟩
      simp only [List.length_append, List.length_cons, List.length_nil]
      omega
  | more before one after rest inductionHypothesis =>
      simp only [List.length_append, List.length_cons]
      omega

/-- One turn, up to the character behind the element. -/
theorem parse_turn (one : ParsesOne One parse_one depth) (black : StartsBlack One)
    {before text after rest : List Char} {element : α} {next : Char}
    {buffer : ParseBuffer} (isBefore : Whitespace before) (isOne : One text element)
    (isAfter : Whitespace after) (delimits : numeralCharacter next = false)
    (blackNext : isWhitespace next = false) (sameDepth : buffer.depth = depth)
    (ahead : buffer.ahead = before ++ text ++ after ++ next :: rest) :
    ∃ middle,
      parse_one (buffer_skip_whitespace buffer) = .ok (element, middle) ∧
        buffer_skip_whitespace middle =
          buffer.advance (before ++ text ++ after).length := by
  rcases black text element isOne with ⟨first, others, isText, blackFirst, -⟩
  rw [List.append_assoc, List.append_assoc] at ahead
  have skipped : buffer_skip_whitespace buffer = buffer.advance before.length := by
    rw [isText] at ahead
    exact buffer_skip_whitespace_of_ahead isBefore blackFirst ahead
  have atText := ahead_advance_of_ahead ahead
  have parsed := one (buffer.advance before.length) text _ element sameDepth isOne atText
    (delimited_append isAfter ⟨next, rest, rfl, delimits⟩)
  refine ⟨_, by rw [skipped, parsed], ?_⟩
  have atAfter := ahead_advance_of_ahead atText
  rw [buffer_skip_whitespace_of_ahead isAfter blackNext atAfter, advance_advance,
    advance_advance, List.length_append, List.length_append, Nat.add_assoc]

theorem parse_list_of_separated (one : ParsesOne One parse_one depth)
    (black : StartsBlack One) {text : List Char} {elements : List α}
    (separated : Separated One text elements) {closing : Char}
    (isClosing : closing = ']' ∨ closing = '}') :
    ∀ {turns : ℕ} {buffer : ParseBuffer} {rest : List Char},
      elements.length ≤ turns → buffer.depth = depth →
      (buffer.advance 1).ahead = text ++ closing :: rest →
      parse_list parse_one turns buffer =
        .ok (elements, (buffer.advance 1).advance text.length) := by
  have closes : numeralCharacter closing = false ∧ isWhitespace closing = false ∧
      closing ≠ ',' := by
    rcases isClosing with rfl | rfl
    · decide
    · decide
  induction separated with
  | @last before text after element isBefore isOne isAfter =>
      intro turns buffer rest enough sameDepth ahead
      rcases Nat.exists_eq_succ_of_ne_zero
        (show turns ≠ 0 by rintro rfl; simp at enough) with ⟨turns, rfl⟩
      rcases parse_turn one black isBefore isOne isAfter closes.1 closes.2.1
        (show (buffer.advance 1).depth = depth from sameDepth) ahead
        with ⟨middle, parsed, skipped⟩
      have atClosing := ahead_advance_of_ahead ahead
      rw [parse_list, parsed, Stop.ok_bind]
      dsimp only
      rw [skipped, if_neg]
      rw [currentIs_of_ahead atClosing]
      exact closes.2.2
  | @more before text after others element elements isBefore isOne isAfter separated
      inductionHypothesis =>
      intro turns buffer rest enough sameDepth ahead
      rcases Nat.exists_eq_succ_of_ne_zero
        (show turns ≠ 0 by rintro rfl; simp at enough) with ⟨turns, rfl⟩
      rw [List.append_assoc, List.cons_append] at ahead
      rcases parse_turn one black isBefore isOne isAfter (by decide) (by decide)
        (show (buffer.advance 1).depth = depth from sameDepth) ahead
        with ⟨middle, parsed, skipped⟩
      have atComma := ahead_advance_of_ahead ahead
      have behind := @ahead_advance_of_ahead _ [','] _ atComma
      rw [parse_list, parsed, Stop.ok_bind]
      dsimp only
      rw [skipped, if_pos ((currentIs_of_ahead atComma ',').mpr rfl),
        @inductionHypothesis turns
          ((buffer.advance 1).advance (before ++ text ++ after).length) rest
          (Nat.le_of_succ_le_succ enough) sameDepth behind, Stop.ok_bind]
      dsimp only
      rw [advance_advance, advance_advance, advance_advance, advance_advance,
        @List.length_append _ _ (',' :: others), List.length_cons]
      congr 3
      omega

theorem parse_container_of_separated (one : ParsesOne One parse_one depth)
    (black : StartsBlack One) {opening closing : Char}
    (isClosing : closing = ']' ∨ closing = '}') {text rest : List Char}
    {elements : List α} {buffer : ParseBuffer} (sameDepth : buffer.depth = depth)
    (isText : Whitespace text ∧ elements = [] ∨ Separated One text elements)
    (ahead : buffer.ahead = opening :: text ++ closing :: rest) :
    parse_container closing parse_one buffer =
      .ok (elements,
        { buffer.advance (opening :: text ++ [closing]).length with
          depth := depth - 1 }) := by
  have blackClosing : isWhitespace closing = false := by
    rcases isClosing with rfl | rfl
    · decide
    · decide
  have inside : (buffer.advance 1).ahead = text ++ closing :: rest :=
    @ahead_advance_of_ahead buffer [opening] _ ahead
  have length : (opening :: text ++ [closing]).length = 1 + text.length + 1 := by
    rw [List.length_append, List.length_cons, List.length_singleton,
      Nat.add_comm 1]
  unfold parse_container
  rcases isText with ⟨isBlank, rfl⟩ | separated
  · rw [buffer_skip_whitespace_of_ahead isBlank blackClosing inside]
    have atClosing := ahead_advance_of_ahead inside
    dsimp only
    rw [if_pos ((currentIs_of_ahead atClosing closing).mpr rfl), length,
      advance_advance, ← sameDepth]
    rfl
  · have few := separated.length_le black
    rcases separated.strip black with ⟨blank, first, others, rfl, isBlank, blackFirst,
      noBracket, noBrace, stripped⟩
    rw [List.append_assoc, List.cons_append] at inside
    have atFirst := ahead_advance_of_ahead inside
    rw [buffer_skip_whitespace_of_ahead isBlank blackFirst inside]
    have notClosing : first ≠ closing := by
      rcases isClosing with rfl | rfl
      · exact noBracket
      · exact noBrace
    have outer := length_ahead (buffer.advance 1)
    change _ = buffer.content.length - (buffer.offset + 1) at outer
    rw [inside, List.length_append, List.length_cons, List.length_append,
      List.length_cons] at outer
    rw [List.length_append, List.length_cons] at few
    have enough : elements.length ≤ buffer.content.length := by omega
    have room : ¬((buffer.advance 1).advance blank.length).content.length ≤
        ((buffer.advance 1).advance blank.length).offset := by
      show ¬buffer.content.length ≤ buffer.offset + 1 + blank.length
      omega
    have back : ParseBuffer.advance
        { (buffer.advance 1).advance blank.length with
          offset := ((buffer.advance 1).advance blank.length).offset - 1 } 1 =
        (buffer.advance 1).advance blank.length := by
      have positive : 0 < ((buffer.advance 1).advance blank.length).offset :=
        (Nat.succ_pos _).trans_le (Nat.le_add_right _ blank.length)
      rw [ParseBuffer.advance, Nat.sub_add_cancel positive]
    have list := @parse_list_of_separated α One parse_one depth one black _ _
      stripped closing isClosing
      ((buffer.advance 1).advance blank.length).content.length
      { (buffer.advance 1).advance blank.length with
        offset := ((buffer.advance 1).advance blank.length).offset - 1 }
      rest enough sameDepth (by rw [back, atFirst, List.cons_append])
    have atClosing := @ahead_advance_of_ahead _ (first :: others) (closing :: rest)
      (by rw [atFirst, List.cons_append])
    rw [back] at list
    dsimp only
    rw [if_neg (fun closed => notClosing ((currentIs_of_ahead atFirst closing).mp closed)),
      if_neg room, list, Stop.ok_bind]
    dsimp only
    rw [if_pos ((currentIs_of_ahead atClosing closing).mpr rfl), length,
      advance_advance, advance_advance, ← sameDepth, List.length_append]
    simp only [ParseBuffer.advance, Nat.add_assoc]

end Lists

theorem Literal.exists_cons {text : List Char} {string : CString}
    (literal : Literal text string) : ∃ rest, text = '"' :: rest := by
  cases literal with
  | mk found read => exact ⟨_, rfl⟩

theorem parse_member_of_member {One : List Char → Item → Prop} {depth : ℕ}
    {parse_value : ParseBuffer → Except Stop (Item × ParseBuffer)}
    (one : ParsesOne One parse_value depth) (black : StartsBlack One) :
    ParsesOne (Member One) (parse_member parse_value) depth := by
  rintro buffer text rest ⟨string, value⟩ sameDepth member ahead delimited
  cases member with
  | @mk name before after text string value literal isBefore isAfter isOne =>
      rcases black text value isOne with ⟨first, others, isText, blackFirst, -⟩
      rw [List.append_assoc, List.append_assoc, List.append_assoc] at ahead
      have atBefore := ahead_advance_of_ahead ahead
      have atColon := ahead_advance_of_ahead atBefore
      have atAfter := @ahead_advance_of_ahead _ [':'] _ atColon
      have atText := ahead_advance_of_ahead atAfter
      have skipped := buffer_skip_whitespace_of_ahead isBefore (by decide) atBefore
      have skippedAfter : buffer_skip_whitespace
          (((buffer.advance name.length).advance before.length).advance 1) =
            (((buffer.advance name.length).advance before.length).advance 1).advance
              after.length := by
        rw [isText] at atAfter
        exact buffer_skip_whitespace_of_ahead isAfter blackFirst atAfter
      rw [parse_member, parse_string_of_literal literal ahead, Stop.ok_bind]
      dsimp only
      rw [skipped, if_neg (not_not.mpr ((currentIs_of_ahead atColon ':').mpr rfl)),
        skippedAfter,
        one ((((buffer.advance name.length).advance before.length).advance 1).advance
          after.length) text rest value sameDepth isOne atText delimited,
        Stop.ok_bind]
      dsimp only
      simp only [advance_advance, List.length_append, List.length_cons]
      congr 3
      omega

/-! ## Values -/

theorem startsWith_of_ahead {buffer : ParseBuffer} {word rest : List Char}
    (ahead : buffer.ahead = word ++ rest) : buffer.startsWith word = true := by
  rw [startsWith, List.isPrefixOf_iff_prefix, ahead]
  exact List.prefix_append word rest

theorem startsWith_of_ne {buffer : ParseBuffer} {first letter : Char}
    {rest : List Char} (ahead : buffer.ahead = first :: rest)
    (different : letter ≠ first) (word : List Char) :
    ¬buffer.startsWith (letter :: word) = true := by
  rw [startsWith, ahead, List.isPrefixOf_cons_cons, Bool.and_eq_true, beq_iff_eq]
  exact fun both => different both.1

/-- How `parse_value` goes on when the text is none of the three words. -/
theorem parse_value_of_first {levels : ℕ} {buffer : ParseBuffer} {first : Char}
    {rest : List Char} (ahead : buffer.ahead = first :: rest)
    (noWord : 'n' ≠ first ∧ 'f' ≠ first ∧ 't' ≠ first) :
    parse_value (levels + 1) buffer =
      if first = '"' then do
        let (valuestring, buffer) ← parse_string buffer
        .ok (.string valuestring, buffer)
      else if first = '-' ∨ ('0' ≤ first ∧ first ≤ '9') then parse_number buffer
      else if first = '[' then parse_array (parse_value levels) buffer
      else if first = '{' then parse_object (parse_value levels) buffer
      else .error .failed := by
  rw [parse_value, if_neg (startsWith_of_ne ahead noWord.1 _),
    if_neg (startsWith_of_ne ahead noWord.2.1 _),
    if_neg (startsWith_of_ne ahead noWord.2.2 _), ← head?_ahead, ahead]
  simp only [currentIs_of_ahead ahead, List.head?_cons]

theorem first_of_number {first : Char}
    (isFirst : first = '-' ∨ ('0' ≤ first ∧ first ≤ '9')) :
    isWhitespace first = false ∧ first ≠ ']' ∧ first ≠ '}' ∧ first ≠ '\xEF' ∧
      first ≠ '"' ∧ 'n' ≠ first ∧ 'f' ≠ first ∧ 't' ≠ first := by
  rcases isFirst with rfl | ⟨low, high⟩
  · decide
  · have zero : '0'.toNat ≤ first.toNat := low
    have nine : first.toNat ≤ '9'.toNat := high
    change 48 ≤ first.toNat at zero
    change first.toNat ≤ 57 at nine
    have different {other : Char} (outside : 57 < other.toNat ∨ other.toNat < 48) :
        first ≠ other := by
      rintro rfl
      omega
    refine ⟨?_, different (by decide), different (by decide), different (by decide),
      different (by decide), (different (by decide)).symm, (different (by decide)).symm,
      (different (by decide)).symm⟩
    rw [isWhitespace, decide_eq_false_iff_not]
    omega

theorem startsBlack_value : StartsBlack Value := by
  intro text item value
  cases value with
  | null => exact ⟨'n', _, rfl, by decide⟩
  | false => exact ⟨'f', _, rfl, by decide⟩
  | true => exact ⟨'t', _, rfl, by decide⟩
  | number isNumber =>
      rcases isNumber.first with ⟨first, rest, rfl, isFirst⟩
      have properties := first_of_number isFirst
      exact ⟨first, rest, rfl, properties.1, properties.2.1, properties.2.2.1,
        properties.2.2.2.1⟩
  | string literal =>
      rcases literal.exists_cons with ⟨rest, rfl⟩
      exact ⟨'"', rest, rfl, by decide⟩
  | emptyArray isBlank => exact ⟨'[', _, rfl, by decide⟩
  | array separated => exact ⟨'[', _, rfl, by decide⟩
  | emptyObject isBlank => exact ⟨'{', _, rfl, by decide⟩
  | object separated => exact ⟨'{', _, rfl, by decide⟩

theorem startsBlack_member {α : Type} (One : List Char → α → Prop) :
    StartsBlack (Member One) := by
  rintro text ⟨string, value⟩ member
  cases member with
  | mk literal isBefore isAfter isOne =>
      rcases literal.exists_cons with ⟨rest, rfl⟩
      exact ⟨'"', _, rfl, by decide⟩

/-- Arrays and objects, when their children are parsed one level deeper. -/
theorem parse_nested {α : Type} {One : List Char → α → Prop}
    {opening closing : Char} (isClosing : closing = ']' ∨ closing = '}')
    {parse_one : ParseBuffer → Except Stop (α × ParseBuffer)} {buffer : ParseBuffer}
    (one : ParsesOne One parse_one (buffer.depth + 1)) (black : StartsBlack One)
    {text rest : List Char} {elements : List α}
    (isText : Whitespace text ∧ elements = [] ∨ Separated One text elements)
    (ahead : buffer.ahead = opening :: text ++ closing :: rest) :
    parse_container closing parse_one { buffer with depth := buffer.depth + 1 } =
      .ok (elements, buffer.advance (opening :: text ++ [closing]).length) :=
  @parse_container_of_separated α One parse_one _ one black opening closing isClosing
    text rest elements { buffer with depth := buffer.depth + 1 } rfl isText ahead

theorem parse_value_number {levels : ℕ} {buffer : ParseBuffer}
    {text rest : List Char} {number : Double}
    (value : Value text (.number number)) (ahead : buffer.ahead = text ++ rest) :
    parse_value (levels + 1) buffer = parse_number buffer := by
  cases value with
  | number isNumber =>
      rcases isNumber.first with ⟨first, others, isText, isFirst⟩
      have properties := first_of_number isFirst
      have front : buffer.ahead = first :: (others ++ rest) := by
        rw [ahead, isText, List.cons_append]
      rw [parse_value_of_first front properties.2.2.2.2.2,
        if_neg properties.2.2.2.2.1, if_pos isFirst]

/-- One call of `parse_value`, given what the calls for the children do. -/
theorem parse_value_step {levels : ℕ} {buffer : ParseBuffer} {text rest : List Char}
    {item : Item}
    (deeper : 0 < levels → buffer.depth < CJSON_NESTING_LIMIT ∧
      ParsesOne (NestedValue (levels - 1)) (parse_value levels) (buffer.depth + 1))
    (value : Value text item) (shallow : item.nesting ≤ levels)
    (ahead : buffer.ahead = text ++ rest)
    (ends : ∀ number, item = .number number → NumeralEnds rest) :
    parse_value (levels + 1) buffer = .ok (item, buffer.advance text.length) := by
  have black : StartsBlack (NestedValue (levels - 1)) :=
    fun text item value => startsBlack_value text item value.1
  have array {text : List Char} {child : List Item}
      (isText : Whitespace text ∧ child = [] ∨ Separated Value text child)
      (shallow : (Item.array child).nesting ≤ levels)
      (ahead : buffer.ahead = '[' :: text ++ [']'] ++ rest) :
      parse_value (levels + 1) buffer =
        .ok (.array child, buffer.advance ('[' :: text ++ [']']).length) := by
    rcases Item.nesting_array_le_iff.mp shallow with ⟨positive, each⟩
    rcases deeper positive with ⟨room, children⟩
    rw [List.append_assoc, List.singleton_append, List.cons_append] at ahead
    have current : ParseBuffer.current { buffer with depth := buffer.depth + 1 } =
        .ok '[' := current_of_ahead ahead
    have nested : Whitespace text ∧ child = [] ∨
        Separated (NestedValue (levels - 1)) text child :=
      isText.imp_right fun separated =>
        separated.mono fun _ item member value => ⟨value, each item member⟩
    rw [parse_value_of_first ahead (by decide), if_neg (by decide),
      if_neg (by decide), if_pos rfl, parse_array, if_neg (not_le.mpr room)]
    dsimp only
    rw [current, Stop.ok_bind, if_neg (not_not.mpr rfl),
      parse_nested (Or.inl rfl) children black nested
        (by rw [ahead, List.cons_append]), Stop.ok_bind]
  have object {text : List Char} {child : List (CString × Item)}
      (isText : Whitespace text ∧ child = [] ∨ Separated (Member Value) text child)
      (shallow : (Item.object child).nesting ≤ levels)
      (ahead : buffer.ahead = '{' :: text ++ ['}'] ++ rest) :
      parse_value (levels + 1) buffer =
        .ok (.object child, buffer.advance ('{' :: text ++ ['}']).length) := by
    rcases Item.nesting_object_le_iff.mp shallow with ⟨positive, each⟩
    rcases deeper positive with ⟨room, children⟩
    rw [List.append_assoc, List.singleton_append, List.cons_append] at ahead
    have current : ParseBuffer.currentIs { buffer with depth := buffer.depth + 1 } '{' :=
      (@currentIs_of_ahead { buffer with depth := buffer.depth + 1 } '{' _ ahead
        '{').mpr rfl
    have nested : Whitespace text ∧ child = [] ∨
        Separated (Member (NestedValue (levels - 1))) text child :=
      isText.imp_right fun separated => separated.mono fun _ member among isMember => by
        cases isMember with
        | mk literal isBefore isAfter value =>
            exact .mk literal isBefore isAfter ⟨value, each _ among⟩
    rw [parse_value_of_first ahead (by decide), if_neg (by decide),
      if_neg (by decide), if_neg (by decide), if_pos rfl, parse_object,
      if_neg (not_le.mpr room)]
    dsimp only
    rw [if_neg (not_not.mpr current),
      parse_nested (Or.inr rfl) (parse_member_of_member children black)
        (startsBlack_member _) nested (by rw [ahead, List.cons_append]), Stop.ok_bind]
  cases value with
  | null => rw [parse_value, if_pos (startsWith_of_ahead ahead)]; rfl
  | false =>
      rw [parse_value, if_neg (startsWith_of_ne ahead (by decide) _),
        if_pos (startsWith_of_ahead ahead)]
      rfl
  | true =>
      rw [parse_value, if_neg (startsWith_of_ne ahead (by decide) _),
        if_neg (startsWith_of_ne ahead (by decide) _),
        if_pos (startsWith_of_ahead ahead)]
      rfl
  | number isNumber =>
      rw [parse_value_number (.number isNumber) ahead]
      exact parse_number_of_numberText isNumber ahead (ends _ rfl)
  | string literal =>
      rcases literal.exists_cons with ⟨others, isText⟩
      have front : buffer.ahead = '"' :: (others ++ rest) := by
        rw [ahead, isText, List.cons_append]
      rw [parse_value_of_first front (by decide), if_pos rfl,
        parse_string_of_literal literal ahead, Stop.ok_bind]
  | emptyArray isBlank => exact array (Or.inl ⟨isBlank, rfl⟩) shallow ahead
  | array separated => exact array (Or.inr separated) shallow ahead
  | emptyObject isBlank => exact object (Or.inl ⟨isBlank, rfl⟩) shallow ahead
  | object separated => exact object (Or.inr separated) shallow ahead

theorem parse_value_of_value (levels : ℕ) {buffer : ParseBuffer}
    {text rest : List Char} {item : Item} (value : Value text item)
    (shallow : item.nesting ≤ levels)
    (depth : buffer.depth + levels = CJSON_NESTING_LIMIT)
    (ahead : buffer.ahead = text ++ rest)
    (ends : ∀ number, item = .number number → NumeralEnds rest) :
    parse_value (levels + 1) buffer = .ok (item, buffer.advance text.length) := by
  induction levels generalizing buffer text rest item with
  | zero =>
      exact parse_value_step (fun positive => absurd positive (lt_irrefl 0)) value
        shallow ahead ends
  | succ levels inductionHypothesis =>
      refine parse_value_step (fun _ => ⟨by omega, ?_⟩) value shallow ahead ends
      rintro inner text rest item sameDepth ⟨value, shallow⟩ ahead delimited
      exact inductionHypothesis value shallow (by omega) ahead
        fun _ _ => delimited.numeralEnds

/-! ## Documents -/

theorem takeWhile_append_null (text : List Char) :
    (text ++ [nul]).takeWhile numeralCharacter =
      text.takeWhile numeralCharacter := by
  induction text with
  | nil => rfl
  | cons character text inductionHypothesis =>
      rw [List.cons_append, List.takeWhile_cons, List.takeWhile_cons,
        inductionHypothesis]

/-- A value does not go on into the terminating null. -/
theorem last_ne_null {text : List Char} {item : Item} (value : Value text item) :
    text.getLast? ≠ some nul := by
  cases value with
  | number isNumber =>
      intro last
      have member := List.mem_of_getLast? last
      exact absurd (isNumber.characters nul member) (by decide)
  | string literal =>
      cases literal with
      | mk found read =>
          rw [List.getLast?_concat]
          exact fun same => absurd (Option.some.inj same) (by decide)
  | null => decide
  | false => decide
  | true => decide
  | emptyArray isBlank =>
      rw [List.getLast?_concat]
      exact fun same => absurd (Option.some.inj same) (by decide)
  | array separated =>
      rw [List.getLast?_concat]
      exact fun same => absurd (Option.some.inj same) (by decide)
  | emptyObject isBlank =>
      rw [List.getLast?_concat]
      exact fun same => absurd (Option.some.inj same) (by decide)
  | object separated =>
      rw [List.getLast?_concat]
      exact fun same => absurd (Option.some.inj same) (by decide)

/-- The mark and the white space in front of a value are skipped. -/
theorem start_of_value {mark blank text rest : List Char} {item : Item}
    (isMark : mark = [] ∨ mark = byteOrderMark) (isBlank : Whitespace blank)
    (value : Value text item) (more : rest ≠ []) :
    start (mark ++ blank ++ text ++ rest) =
      ParseBuffer.advance
        { content := mark ++ blank ++ text ++ rest, offset := 0, depth := 0 }
        (mark ++ blank).length := by
  rcases startsBlack_value text item value
    with ⟨first, others, rfl, black, -, -, noMark⟩
  have marked :
      skip_utf8_bom
        { content := mark ++ blank ++ first :: others ++ rest, offset := 0, depth := 0 } =
      ParseBuffer.advance
        { content := mark ++ blank ++ first :: others ++ rest, offset := 0, depth := 0 }
        mark.length := by
    rcases isMark with rfl | rfl
    · have unmarked : ∃ character tail, character ≠ '\xEF' ∧
          blank ++ first :: others ++ rest = character :: tail := by
        cases blank with
        | nil => exact ⟨first, others ++ rest, noMark, rfl⟩
        | cons character blank =>
            refine ⟨character, _, ?_, rfl⟩
            rintro rfl
            exact absurd (isBlank _ List.mem_cons_self) (by decide)
      rcases unmarked with ⟨character, tail, different, same⟩
      rw [List.nil_append, same, skip_utf8_bom, if_neg]
      · rfl
      · rintro ⟨-, starts⟩
        exact @startsWith_of_ne { content := character :: tail, offset := 0, depth := 0 }
          character '\xEF' tail rfl (Ne.symm different) _ starts
    · rw [skip_utf8_bom, if_pos]
      · rfl
      · constructor
        · have longer := List.length_pos_of_ne_nil more
          simp only [List.length_append, List.length_cons, byteOrderMark]
          omega
        · apply @startsWith_of_ahead _ _ (blank ++ first :: others ++ rest)
          simp [ParseBuffer.ahead]
  have ahead : (ParseBuffer.advance
      { content := mark ++ blank ++ first :: others ++ rest, offset := 0, depth := 0 }
      mark.length).ahead = blank ++ first :: (others ++ rest) := by
    apply ahead_advance_of_ahead
    simp [ParseBuffer.ahead]
  rw [start, marked, buffer_skip_whitespace_of_ahead isBlank black ahead,
    advance_advance, List.length_append]

/-- A document in front of the terminator does not contain it. -/
theorem Document.of_terminated {content text rest : List Char} {item : Item}
    (document : Document (content ++ [nul]) text item rest) :
    ∃ before, rest = before ++ [nul] ∧ Document content text item before := by
  rcases document.split with ⟨mark, blank, split, isMark, isBlank⟩
  have more : rest ≠ [] := by
    rintro rfl
    rcases startsBlack_value text item document.value with ⟨first, others, rfl, -⟩
    have last := congrArg List.getLast? split
    rw [List.append_nil, List.getLast?_concat,
      List.getLast?_append_of_ne_nil _ (by simp)] at last
    exact last_ne_null document.value last.symm
  rcases List.eq_nil_or_concat rest with nothing | ⟨before, last, same⟩
  · exact absurd nothing more
  rw [List.concat_eq_append] at same
  rw [same, ← List.append_assoc] at split
  rcases List.append_inj' split rfl with ⟨front, lasts⟩
  rw [same, ← lasts]
  exact ⟨before, rfl, ⟨mark, blank, front, isMark, isBlank⟩, document.value,
    document.nesting⟩

/-- What is read for a number at the beginning of the text is that number. -/
def TakesNumeral (text : List Char) (item : Item) (rest : List Char) : Prop :=
  ∀ number, item = .number number →
    strtod (((text ++ rest).takeWhile numeralCharacter).take 63) =
      some (number, text.length)

/-- The number which is read at the place of a number. -/
theorem NumberText.longer {text : List Char} {number : Double}
    (isNumber : NumberText text number) (rest : List Char) :
    ∃ longer other again, text ++ rest = longer ++ again ∧ NumberText longer other ∧
      TakesNumeral longer (.number other) again := by
  have input : ((text ++ rest).takeWhile numeralCharacter).take 63 =
      text ++ (rest.takeWhile numeralCharacter).take (63 - text.length) := by
    rw [List.takeWhile_append_of_pos isNumber.characters, List.take_append,
      List.take_of_length_le isNumber.length]
  have readable : (strtod text).isSome = true := by
    rw [isNumber.value]
    rfl
  have isPrefix : ((text ++ rest).takeWhile numeralCharacter).take 63 <+: text ++ rest :=
    (List.take_prefix _ _).trans (List.takeWhile_prefix _)
  have isNumeral := numeralText_takeWhile (text ++ rest) 63
  have limit : (((text ++ rest).takeWhile numeralCharacter).take 63).length ≤ 63 :=
    List.length_take_le _ _
  rcases Option.isSome_iff_exists.mp
      (strtod_isSome_append readable ((rest.takeWhile numeralCharacter).take (63 - text.length)))
    with ⟨⟨other, count⟩, read⟩
  rw [← input] at read
  rcases isNumber.first with ⟨first, others, isText, isFirst⟩
  have begins : ∃ tail,
      ((text ++ rest).takeWhile numeralCharacter).take 63 = first :: tail := by
    rw [input, isText]
    exact ⟨_, rfl⟩
  generalize same : ((text ++ rest).takeWhile numeralCharacter).take 63 = all
    at isPrefix isNumeral limit read begins
  rcases strtod_take read with ⟨positive, within, again⟩
  have length : (all.take count).length = count := by
    rw [List.length_take, Nat.min_eq_left within]
  rcases (List.take_prefix count all).trans isPrefix with ⟨behind, split⟩
  refine ⟨all.take count, other, behind, split.symm, ⟨?_, ?_, ?_, ?_⟩, ?_⟩
  · exact fun character member => isNumeral character (List.mem_of_mem_take member)
  · exact (List.length_take_le' _ _).trans limit
  · rcases begins with ⟨tail, rfl⟩
    rcases Nat.exists_eq_succ_of_ne_zero positive.ne' with ⟨count, rfl⟩
    exact ⟨first, tail.take count, rfl, isFirst⟩
  · rw [again, length]
  · intro number isOther
    rw [Item.number.injEq] at isOther
    rw [split, same, read, isOther, length]

theorem cJSON_Parse_eq_ok {value : CString} {item : Item} :
    cJSON_Parse value = .ok item ↔
      ∃ after, parse_value (CJSON_NESTING_LIMIT + 1)
        (start (value.characters ++ [nul])) = .ok (item, after) := by
  rw [cJSON_Parse, cJSON_ParseWithOpts, cJSON_ParseWithLengthOpts, if_neg (by simp)]
  change Except.map Prod.fst (parse_value (CJSON_NESTING_LIMIT + 1)
    (start (value.characters ++ [nul])) >>= _) = _ ↔ _
  cases parse_value (CJSON_NESTING_LIMIT + 1) (start (value.characters ++ [nul])) with
  | error stop =>
      constructor
      · exact fun impossible => absurd impossible (by simp [Except.map, bind, Except.bind])
      · rintro ⟨after, impossible⟩
        exact absurd impossible (by simp)
  | ok result =>
      rcases result with ⟨parsed, after⟩
      simp [Except.map, bind, Except.bind]

/--
A C string is parsed to an item if and only if it starts with a document of the
item, and the number, if it is one, does not go on.
-/
theorem cJSON_Parse_eq_ok_iff (value : CString) (item : Item) :
    cJSON_Parse value = .ok item ↔
      ∃ text rest, Document value.characters text item rest ∧
        TakesNumeral text item rest := by
  rw [cJSON_Parse_eq_ok]
  constructor
  · rintro ⟨after, parsed⟩
    rcases (reads_document (value.characters ++ [nul])).of_ok parsed
      with ⟨text, reads, document⟩
    have isValue := document.value
    rcases document.of_terminated with ⟨rest, same, inside⟩
    dsimp only at same
    refine ⟨text, rest, inside, ?_⟩
    rintro number rfl
    have ahead := reads.ahead_eq
    rw [parse_value_number isValue ahead, parse_number] at parsed
    have input : numberCString (start (value.characters ++ [nul])) =
        ((text ++ rest).takeWhile numeralCharacter).take 63 := by
      rw [numberCString, ahead, same, ← List.append_assoc,
        takeWhile_append_null]
    rw [input] at parsed
    cases read : strtod (((text ++ rest).takeWhile numeralCharacter).take 63) with
    | none =>
        rw [read] at parsed
        exact absurd parsed (by simp)
    | some result =>
        rw [read] at parsed
        dsimp only at parsed
        rw [Except.ok.injEq, Prod.mk.injEq, Item.number.injEq] at parsed
        have offset := congrArg ParseBuffer.offset parsed.2
        rw [reads.offset] at offset
        have length : result.2 = text.length := Nat.add_left_cancel offset
        rw [← parsed.1, ← length]
  · rintro ⟨text, rest, ⟨⟨mark, blank, split, isMark, isBlank⟩, isValue, shallow⟩, takes⟩
    have content : value.characters ++ [nul] =
        mark ++ blank ++ text ++ (rest ++ [nul]) := by
      rw [split, List.append_assoc]
    rw [content, start_of_value isMark isBlank isValue (by simp)]
    have ahead := ahead_advance_of_ahead
      (show ParseBuffer.ahead
        { content := mark ++ blank ++ text ++ (rest ++ [nul]), offset := 0, depth := 0 } =
          mark ++ blank ++ (text ++ (rest ++ [nul])) by simp [ParseBuffer.ahead])
    by_cases isNumber : ∃ number, item = .number number
    · rcases isNumber with ⟨number, rfl⟩
      rw [parse_value_number isValue ahead, parse_number, numberCString, ahead,
        ← List.append_assoc, takeWhile_append_null, takes number rfl]
      exact ⟨_, rfl⟩
    · exact ⟨_, parse_value_of_value _ isValue shallow (by rw [ParseBuffer.advance, zero_add])
        ahead fun number same => absurd ⟨number, same⟩ isNumber⟩

/-- A C string is accepted exactly if it starts with a document. -/
theorem cJSON_Parse_accepts_iff (value : CString) :
    (∃ item, cJSON_Parse value = .ok item) ↔
      ∃ text item rest, Document value.characters text item rest := by
  constructor
  · rintro ⟨item, parsed⟩
    rcases (cJSON_Parse_eq_ok_iff value item).mp parsed with ⟨text, rest, document, -⟩
    exact ⟨text, item, rest, document⟩
  · rintro ⟨text, item, rest, document⟩
    by_cases isNumber : ∃ number, item = .number number
    · rcases isNumber with ⟨number, rfl⟩
      rcases document with ⟨⟨mark, blank, split, isMark, isBlank⟩, isValue, shallow⟩
      cases isValue with
      | number isNumber =>
          -- the number which is read may go on behind this one
          rcases isNumber.longer rest with ⟨longer, other, again, same, isLonger, takes⟩
          refine ⟨.number other, (cJSON_Parse_eq_ok_iff value _).mpr ⟨longer, again,
            ⟨⟨mark, blank, ?_, isMark, isBlank⟩, .number isLonger, shallow⟩, takes⟩⟩
          rw [split, List.append_assoc, same, ← List.append_assoc]
    · exact ⟨item, (cJSON_Parse_eq_ok_iff value item).mpr ⟨text, rest, document,
        fun number same => absurd ⟨number, same⟩ isNumber⟩⟩

/--
The parser accepts a C string or rejects it, and never does anything undefined.
The reading ends within the string, and at its end if the terminator is required.
-/
theorem cJSON_ParseWithOpts_ends (value : CString) (require_null_terminated : Bool) :
    cJSON_ParseWithOpts value require_null_terminated = .error .failed ∨
      ∃ item parse_end text rest,
        cJSON_ParseWithOpts value require_null_terminated = .ok (item, parse_end) ∧
          Document value.characters text item rest ∧
            parse_end ≤ value.characters.length ∧
              (require_null_terminated = true →
                parse_end = value.characters.length ∧ Whitespace rest) := by
  have ends :=
    ends_cJSON_ParseWithLengthOpts (value.characters ++ [nul]) require_null_terminated
  rw [cJSON_ParseWithOpts]
  cases parsed : cJSON_ParseWithLengthOpts (value.characters ++ [nul])
      require_null_terminated with
  | error stop =>
      rw [parsed] at ends
      cases stop with
      | failed => exact Or.inl rfl
      | undefined =>
          have comma : EndsInComma (value.characters ++ [nul]) := ends
          rw [EndsInComma, List.getLast?_concat] at comma
          exact absurd comma (by decide)
  | ok result =>
      rcases result with ⟨item, parse_end⟩
      rcases ends.of_ok parsed with ⟨text, rest, blank, document, isBlank, behind, position⟩
      rcases document.of_terminated with ⟨before, same, inside⟩
      dsimp only at behind position inside
      refine Or.inr ⟨item, parse_end, text, before, rfl, inside, ?_⟩
      cases require_null_terminated with
      | false =>
          rw [if_neg (by simp)] at position
          rw [position, same, List.nil_append] at behind
          have lengths := congrArg List.length behind
          simp only [List.length_drop, List.length_append, List.length_singleton] at lengths
          exact ⟨by omega, fun impossible => absurd impossible (by simp)⟩
      | true =>
          rw [if_pos rfl] at position
          have atEnd : parse_end = value.characters.length := by
            rcases List.getElem?_eq_some_iff.mp position with ⟨within, isNull⟩
            rw [List.length_append, List.length_singleton] at within
            by_contra inner
            have early : parse_end < value.characters.length := by omega
            rw [List.getElem_append_left early] at isNull
            exact value.noNull (isNull ▸ List.getElem_mem early)
          rw [atEnd, List.drop_left, same] at behind
          rw [← (List.append_inj' behind rfl).1]
          exact ⟨atEnd.le, fun _ => ⟨atEnd, isBlank⟩⟩

end FederatedEdge.Json
