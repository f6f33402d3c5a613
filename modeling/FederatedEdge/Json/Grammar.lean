import FederatedEdge.Json.Parser

/-!
# The texts which are parsed

The grammar which `parse_value` follows, apart from what it does to the buffer.
Everything the parser accepts derives from the grammar and is not nested too
deeply.  For a text which does not end in a comma nothing is undefined; a C
string ends in a null.
-/

namespace FederatedEdge.Json

open FederatedEdge.Library
open FederatedEdge.Server
open FederatedEdge.Dataset

/-! ## The grammar -/

/-- Only characters which the parser skips. -/
def Whitespace (text : List Char) : Prop :=
  ∀ character ∈ text, isWhitespace character = true

/-- A number is read from all of the text. -/
structure NumberText (text : List Char) (number : Double) : Prop where
  characters : NumeralText text
  length : text.length ≤ 63
  first : ∃ first rest, text = first :: rest ∧
    (first = '-' ∨ ('0' ≤ first ∧ first ≤ '9'))
  value : strtod text = some (number, text.length)

/-- A string between its quotes, read in two passes. -/
inductive Literal : List Char → CString → Prop
  | mk {body output : List Char} {skipped_bytes : ℕ} :
      findQuote (body ++ ['"']) = some (body.length, skipped_bytes) →
      unescape 0 body = some output →
      Literal ('"' :: body ++ ['"']) (CString.read output)

/-- Elements with commas between them. -/
inductive Separated {α : Type} (One : List Char → α → Prop) :
    List Char → List α → Prop
  | last {before text after : List Char} {element : α} :
      Whitespace before → One text element → Whitespace after →
      Separated One (before ++ text ++ after) [element]
  | more {before text after rest : List Char} {element : α} {elements : List α} :
      Whitespace before → One text element → Whitespace after →
      Separated One rest elements →
      Separated One (before ++ text ++ after ++ ',' :: rest) (element :: elements)

/-- A name, a colon and a value, with blanks around the colon. -/
inductive Member {α : Type} (One : List Char → α → Prop) :
    List Char → CString × α → Prop
  | mk {name before after text : List Char} {string : CString} {value : α} :
      Literal name string → Whitespace before → Whitespace after →
      One text value →
      Member One (name ++ before ++ ':' :: after ++ text) (string, value)

/-- The texts which are read as an item, from their first to their last character. -/
inductive Value : List Char → Item → Prop
  | null : Value ['n', 'u', 'l', 'l'] .null
  | false : Value ['f', 'a', 'l', 's', 'e'] (.bool false)
  | true : Value ['t', 'r', 'u', 'e'] (.bool true)
  | number {text : List Char} {number : Double} :
      NumberText text number → Value text (.number number)
  | string {text : List Char} {valuestring : CString} :
      Literal text valuestring → Value text (.string valuestring)
  | emptyArray {blank : List Char} :
      Whitespace blank → Value ('[' :: blank ++ [']']) (.array [])
  | array {text : List Char} {child : List Item} :
      Separated Value text child → Value ('[' :: text ++ [']']) (.array child)
  | emptyObject {blank : List Char} :
      Whitespace blank → Value ('{' :: blank ++ ['}']) (.object [])
  | object {text : List Char} {child : List (CString × Item)} :
      Separated (Member Value) text child →
      Value ('{' :: text ++ ['}']) (.object child)

theorem Whitespace.append {first second : List Char}
    (firstBlank : Whitespace first) (secondBlank : Whitespace second) :
    Whitespace (first ++ second) := by
  intro character member
  rcases List.mem_append.mp member with inFirst | inSecond
  · exact firstBlank character inFirst
  · exact secondBlank character inSecond

theorem Separated.prepend {α : Type} {One : List Char → α → Prop}
    {blank text : List Char} {elements : List α} (isBlank : Whitespace blank)
    (separated : Separated One text elements) :
    Separated One (blank ++ text) elements := by
  cases separated with
  | last before one after =>
      have later := Separated.last (isBlank.append before) one after
      simpa using later
  | more before one after rest =>
      have later := Separated.more (isBlank.append before) one after rest
      simpa using later

theorem Separated.mono {α : Type} {One Other : List Char → α → Prop}
    {text : List Char} {elements : List α}
    (separated : Separated One text elements)
    (implies : ∀ text, ∀ element ∈ elements, One text element → Other text element) :
    Separated Other text elements := by
  induction separated with
  | last before one after =>
      exact .last before (implies _ _ (List.mem_singleton.mpr rfl) one) after
  | more before one after rest inductionHypothesis =>
      exact .more before (implies _ _ List.mem_cons_self one) after
        (inductionHypothesis fun text element member =>
          implies text element (List.mem_cons_of_mem _ member))

/-! ## Positions -/

namespace ParseBuffer

/-- The parser has gone over the text. -/
structure Reads (before : ParseBuffer) (text : List Char) (after : ParseBuffer) :
    Prop where
  after_eq : after = before.advance text.length
  ahead_eq : before.ahead = text ++ after.ahead

variable {before middle after : ParseBuffer}

theorem ahead_advance (buffer : ParseBuffer) (count : ℕ) :
    (buffer.advance count).ahead = buffer.ahead.drop count := by
  rw [ahead, ahead, List.drop_drop]
  rfl

theorem advance_advance (buffer : ParseBuffer) (first second : ℕ) :
    (buffer.advance first).advance second = buffer.advance (first + second) := by
  simp [advance, Nat.add_assoc]

theorem length_ahead (buffer : ParseBuffer) :
    buffer.ahead.length = buffer.content.length - buffer.offset :=
  List.length_drop

theorem head?_ahead (buffer : ParseBuffer) :
    buffer.ahead.head? = buffer.content[buffer.offset]? :=
  List.head?_drop

theorem currentIs_iff {buffer : ParseBuffer} {character : Char} :
    buffer.currentIs character ↔ ∃ rest, buffer.ahead = character :: rest := by
  rw [currentIs, ← head?_ahead, List.head?_eq_some_iff]

theorem reads_nil (buffer : ParseBuffer) : buffer.Reads [] buffer :=
  ⟨rfl, rfl⟩

theorem reads_of_ahead {text rest : List Char}
    (ahead : before.ahead = text ++ rest) :
    before.Reads text (before.advance text.length) := by
  refine ⟨rfl, ?_⟩
  rw [ahead_advance, ahead, List.drop_left]

theorem Reads.trans {first second : List Char}
    (readFirst : before.Reads first middle) (readSecond : middle.Reads second after) :
    before.Reads (first ++ second) after := by
  refine ⟨?_, ?_⟩
  · rw [readSecond.after_eq, readFirst.after_eq, advance_advance,
      List.length_append]
  · rw [readFirst.ahead_eq, readSecond.ahead_eq, List.append_assoc]

theorem Reads.content {text : List Char} (reads : before.Reads text after) :
    after.content = before.content := by
  rw [reads.after_eq]
  rfl

theorem Reads.depth {text : List Char} (reads : before.Reads text after) :
    after.depth = before.depth := by
  rw [reads.after_eq]
  rfl

theorem Reads.offset {text : List Char} (reads : before.Reads text after) :
    after.offset = before.offset + text.length := by
  rw [reads.after_eq]
  rfl

theorem Reads.within {text : List Char} (reads : before.Reads text after)
    (inside : before.offset ≤ before.content.length) :
    after.offset ≤ after.content.length := by
  have lengths := congrArg List.length reads.ahead_eq
  rw [List.length_append, length_ahead, length_ahead, reads.content,
    reads.offset] at lengths
  rw [reads.content, reads.offset]
  omega

end ParseBuffer

open ParseBuffer

/-- Some of the white space ahead is skipped, but not the last character. -/
theorem buffer_skip_whitespace_eq {buffer : ParseBuffer}
    (inside : buffer.offset < buffer.content.length) :
    ∃ count, buffer_skip_whitespace buffer = buffer.advance count ∧
      count ≤ (buffer.ahead.takeWhile isWhitespace).length ∧
      buffer.offset + count < buffer.content.length ∧
      ((buffer.ahead.takeWhile isWhitespace).length < buffer.ahead.length →
        count = (buffer.ahead.takeWhile isWhitespace).length) := by
  have length := length_ahead buffer
  have bound := (List.takeWhile_prefix isWhitespace (l := buffer.ahead)).length_le
  unfold buffer_skip_whitespace
  rw [if_neg (by omega)]
  generalize (buffer.ahead.takeWhile isWhitespace).length = count at bound
  by_cases last : (buffer.advance count).offset = buffer.content.length
  · have same : buffer.offset + count = buffer.content.length := last
    refine ⟨count - 1, ?_, Nat.sub_le _ _, by omega, by omega⟩
    dsimp only
    rw [if_pos last, ParseBuffer.advance, ParseBuffer.advance,
      ParseBuffer.mk.injEq]
    refine ⟨rfl, ?_, rfl⟩
    dsimp only
    omega
  · have different : buffer.offset + count ≠ buffer.content.length := last
    exact ⟨count, if_neg last, le_rfl, by omega, fun _ => rfl⟩

theorem reads_buffer_skip_whitespace (buffer : ParseBuffer) :
    ∃ blank, Whitespace blank ∧
      buffer.Reads blank (buffer_skip_whitespace buffer) ∧
      (buffer.offset < buffer.content.length →
        (buffer_skip_whitespace buffer).offset < buffer.content.length) := by
  rcases lt_or_ge buffer.offset buffer.content.length with inside | outside
  · rcases buffer_skip_whitespace_eq inside with ⟨count, skipped, few, within, -⟩
    have lead := List.takeWhile_prefix isWhitespace (l := buffer.ahead)
    have front : buffer.ahead.take count =
        (buffer.ahead.takeWhile isWhitespace).take count := by
      conv_lhs =>
        rw [← List.takeWhile_append_dropWhile (p := isWhitespace)
          (l := buffer.ahead), List.take_append_of_le_length few]
    refine ⟨buffer.ahead.take count, ?_, ?_, ?_⟩
    · intro character member
      rw [front] at member
      exact List.mem_takeWhile_imp (List.mem_of_mem_take member)
    · have reads := reads_of_ahead (List.take_append_drop count buffer.ahead).symm
      rw [List.length_take, min_eq_left (few.trans lead.length_le)] at reads
      rw [skipped]
      exact reads
    · rw [skipped]
      exact fun _ => within
  · have same : buffer_skip_whitespace buffer = buffer := if_pos outside
    rw [same]
    exact ⟨[], fun _ member => (List.not_mem_nil member).elim, reads_nil buffer, id⟩

/-- White space in front of something else is skipped. -/
theorem buffer_skip_whitespace_of_ahead {buffer : ParseBuffer}
    {blank rest : List Char} {character : Char} (isBlank : Whitespace blank)
    (other : isWhitespace character = false)
    (ahead : buffer.ahead = blank ++ character :: rest) :
    buffer_skip_whitespace buffer = buffer.advance blank.length := by
  have white : buffer.ahead.takeWhile isWhitespace = blank := by
    rw [ahead, List.takeWhile_append_of_pos isBlank, List.takeWhile_cons,
      if_neg (by simp [other]), List.append_nil]
  have length := length_ahead buffer
  have longer : blank.length < buffer.ahead.length := by
    rw [ahead, List.length_append, List.length_cons]
    omega
  rcases buffer_skip_whitespace_eq (show buffer.offset < buffer.content.length by omega)
    with ⟨count, skipped, -, -, all⟩
  rw [white] at all
  rw [skipped, all longer]

/-! ## What the parser accepts -/

theorem exists_cons_ahead {buffer : ParseBuffer}
    (inside : buffer.offset < buffer.content.length) :
    ∃ first rest, buffer.ahead = first :: rest := by
  apply List.exists_cons_of_ne_nil
  rw [← List.length_pos_iff, length_ahead]
  omega

theorem reads_one {buffer : ParseBuffer} {character : Char}
    (current : buffer.currentIs character) :
    buffer.Reads [character] (buffer.advance 1) := by
  rcases currentIs_iff.mp current with ⟨rest, ahead⟩
  exact @reads_of_ahead buffer [character] rest ahead

theorem reads_word {buffer : ParseBuffer} {word : List Char}
    (starts : buffer.startsWith word = true) :
    buffer.Reads word (buffer.advance word.length) := by
  rcases List.isPrefixOf_iff_prefix.mp starts with ⟨rest, ahead⟩
  exact reads_of_ahead ahead.symm

theorem isWhitespace_iff {character : Char} :
    isWhitespace character = true ↔ character.toNat ≤ 32 := by
  rw [isWhitespace, decide_eq_true_iff]

theorem numeralText_takeWhile (text : List Char) (count : ℕ) :
    NumeralText ((text.takeWhile numeralCharacter).take count) :=
  fun _ member => List.mem_takeWhile_imp (List.mem_of_mem_take member)

theorem reads_parse_number {buffer : ParseBuffer} {first : Char}
    (current : buffer.currentIs first)
    (isFirst : first = '-' ∨ ('0' ≤ first ∧ first ≤ '9')) {excuse : Prop} :
    Ends (parse_number buffer)
      (fun result => ∃ text, buffer.Reads text result.2 ∧
        text ≠ [] ∧ Value text result.1 ∧ result.1.nesting = 0)
      True excuse := by
  unfold parse_number
  cases read : strtod (numberCString buffer) with
  | none => exact .failed trivial
  | some result =>
      rcases result with ⟨number, length⟩
      rcases strtod_take read with ⟨positive, within, again⟩
      have characters := numeralText_takeWhile buffer.ahead 63
      have short : (numberCString buffer).length ≤ 63 := List.length_take_le _ _
      have lead : numberCString buffer <+: buffer.ahead :=
        (List.take_prefix _ _).trans (List.takeWhile_prefix _)
      rcases currentIs_iff.mp current with ⟨rest, ahead⟩
      rcases lead with ⟨others, split⟩
      change NumeralText (numberCString buffer) at characters
      generalize numberCString buffer = numeral at *
      have taken : (numeral.take length).length = length := by
        rw [List.length_take, min_eq_left within]
      refine .ok ⟨numeral.take length, ?_, ?_, .number ⟨?_, ?_, ?_, ?_⟩, rfl⟩
      · have reads := @reads_of_ahead buffer (numeral.take length)
          (numeral.drop length ++ others)
          (by rw [← List.append_assoc, List.take_append_drop, split])
        rw [taken] at reads
        exact reads
      · intro nothing
        rw [nothing, List.length_nil] at taken
        omega
      · exact fun character member => characters character (List.mem_of_mem_take member)
      · rw [taken]
        exact within.trans short
      · cases numeral with
        | nil =>
            rw [List.length_nil] at within
            omega
        | cons character numeral =>
            rcases Nat.exists_eq_succ_of_ne_zero positive.ne' with ⟨less, rfl⟩
            rw [List.cons_append, ahead, List.cons.injEq] at split
            exact ⟨character, numeral.take less, rfl, split.1 ▸ isFirst⟩
      · rw [taken]
        exact again

theorem findQuote_take {input : List Char} {length skipped : ℕ}
    (found : findQuote input = some (length, skipped)) (rest : List Char) :
    findQuote (input.take (length + 1) ++ rest) = some (length, skipped) := by
  induction input using findQuote.induct generalizing length skipped with
  | case1 => simp [findQuote] at found
  | case2 =>
      rw [findQuote_quote, Option.some.injEq, Prod.mk.injEq] at found
      rcases found with ⟨rfl, rfl⟩
      exact findQuote_quote rest
  | case3 character noQuote =>
      rw [findQuote, if_neg noQuote] at found
      exact absurd found (by simp)
  | case4 next others =>
      rw [findQuote_quote, Option.some.injEq, Prod.mk.injEq] at found
      rcases found with ⟨rfl, rfl⟩
      exact findQuote_quote rest
  | case5 next others noQuote inductionHypothesis =>
      rw [findQuote_escaped] at found
      rcases Option.map_eq_some_iff.mp found with ⟨⟨length', skipped'⟩, later, same⟩
      rw [Prod.mk.injEq] at same
      rcases same with ⟨rfl, rfl⟩
      rw [List.take_succ_cons, List.take_succ_cons, List.cons_append,
        List.cons_append, findQuote_escaped, inductionHypothesis later]
      rfl
  | case6 character next others noQuote plain inductionHypothesis =>
      rw [findQuote_plain noQuote plain] at found
      rcases Option.map_eq_some_iff.mp found with ⟨⟨length', skipped'⟩, later, same⟩
      rw [Prod.mk.injEq] at same
      rcases same with ⟨rfl, rfl⟩
      rw [List.take_succ_cons, List.cons_append, findQuote_plain noQuote plain,
        inductionHypothesis later]
      rfl

/-- A string stands inside of the array, and its value in what was allocated. -/
theorem reads_parse_string (buffer : ParseBuffer) :
    Ends (parse_string buffer)
      (fun result => ∃ text, buffer.Reads text result.2 ∧
        text ≠ [] ∧ Literal text result.1)
      True (buffer.content.length ≤ buffer.offset) := by
  unfold parse_string
  rcases lt_or_ge buffer.offset buffer.content.length with inside | outside
  · rcases exists_cons_ahead inside with ⟨first, rest, ahead⟩
    have current : buffer.current = .ok first := by
      rw [ParseBuffer.current, ← head?_ahead, ahead]
      rfl
    have behind : (buffer.advance 1).ahead = rest := by
      rw [ahead_advance, ahead, List.drop_one, List.tail_cons]
    rw [current]
    show Ends (if first ≠ '"' then _ else _) _ _ _
    split_ifs with quote
    · exact .failed trivial
    · rw [not_not] at quote
      subst quote
      dsimp only
      rw [behind]
      cases found : findQuote rest with
      | none => exact .failed trivial
      | some result =>
          rcases result with ⟨length, skipped_bytes⟩
          have fits := writtenBytes_lt found
          dsimp only
          rw [if_neg (by omega)]
          cases read : unescape 0 (rest.take length) with
          | none => exact .failed trivial
          | some output =>
              rcases findQuote_eq_some found with ⟨closing, -⟩
              have within : length < rest.length :=
                (List.getElem?_eq_some_iff.mp closing).1
              have body : (rest.take length).length = length := by
                rw [List.length_take, min_eq_left within.le]
              have front : rest.take (length + 1) = rest.take length ++ ['"'] := by
                rw [List.take_add_one, closing]
                rfl
              have size :
                  ('"' :: rest.take length ++ ['"']).length = length + 2 := by
                rw [List.length_append, List.length_cons, body]
                rfl
              refine .ok ⟨'"' :: rest.take length ++ ['"'], ?_, by simp, ?_⟩
              · have reads := @reads_of_ahead buffer ('"' :: rest.take length ++ ['"'])
                  (rest.drop (length + 1))
                  (by rw [List.cons_append, List.cons_append, ← front,
                    List.take_append_drop, ahead])
                rw [size] at reads
                exact reads
              · have again := findQuote_take found []
                rw [List.append_nil, front] at again
                exact @Literal.mk _ _ skipped_bytes (by rw [again, body]) read
  · have current : buffer.current = .error .undefined := by
      rw [ParseBuffer.current, List.getElem?_eq_none outside]
    rw [current]
    exact .undefined outside

/-! ## Arrays and objects -/

/-- The only texts which are read too far. -/
def EndsInComma (content : List Char) : Prop :=
  content.getLast? = some ','

theorem endsInComma_of_currentIs {buffer : ParseBuffer}
    (comma : buffer.currentIs ',')
    (last : buffer.offset + 1 = buffer.content.length) :
    EndsInComma buffer.content := by
  rw [EndsInComma, List.getLast?_eq_getElem?, ← last, Nat.add_sub_cancel]
  exact comma

theorem offset_lt_of_currentIs {buffer : ParseBuffer} {character : Char}
    (current : buffer.currentIs character) :
    buffer.offset < buffer.content.length :=
  (List.getElem?_eq_some_iff.mp current).1

section Lists

variable {α : Type} {One : List Char → α → Prop}
  {parse_one : ParseBuffer → Except Stop (α × ParseBuffer)}
  {content : List Char} {depth : ℕ}

/-- What the parser of one element has to do at this depth. -/
def ReadsOne (One : List Char → α → Prop)
    (parse_one : ParseBuffer → Except Stop (α × ParseBuffer))
    (content : List Char) (depth : ℕ) : Prop :=
  ∀ buffer : ParseBuffer, buffer.content = content → buffer.depth = depth →
    buffer.offset ≤ content.length →
    Ends (parse_one buffer)
      (fun result => ∃ text, buffer.Reads text result.2 ∧
        text ≠ [] ∧ One text result.1)
      True (EndsInComma content ∨ content.length ≤ buffer.offset)

theorem reads_parse_list (one : ReadsOne One parse_one content depth)
    (turns : ℕ) {buffer : ParseBuffer} (sameContent : buffer.content = content)
    (sameDepth : buffer.depth = depth) (inside : buffer.offset < content.length)
    (enough : content.length ≤ buffer.offset + turns)
    (follows : buffer.currentIs ',' ∨ buffer.offset + 1 < content.length) :
    Ends (parse_list parse_one turns buffer)
      (fun result => ∃ text, (buffer.advance 1).Reads text result.2 ∧
        Separated One text result.1)
      True (EndsInComma content) := by
  induction turns generalizing buffer with
  | zero => omega
  | succ turns inductionHypothesis =>
      subst sameContent
      rcases reads_buffer_skip_whitespace (buffer.advance 1)
        with ⟨before, isBefore, readsBefore, staysInside⟩
      have within := readsBefore.within (show buffer.offset + 1 ≤ _ from inside)
      change buffer.offset + 1 < buffer.content.length →
        (buffer_skip_whitespace (buffer.advance 1)).offset < buffer.content.length
        at staysInside
      have element := one (buffer_skip_whitespace (buffer.advance 1))
        readsBefore.content (readsBefore.depth.trans sameDepth)
        (readsBefore.content ▸ within)
      rw [parse_list]
      refine Ends.bind (element.mono (fun _ holds => holds) id ?_) ?_
      · rintro (comma | beyond)
        · exact comma
        · -- only behind a comma there may be nothing
          rcases follows with comma | more
          · apply endsInComma_of_currentIs comma
            by_contra different
            have still := staysInside (by omega)
            omega
          · have still := staysInside more
            omega
      · rintro ⟨element, middle⟩ ⟨text, readsText, nonempty, isOne⟩
        rcases reads_buffer_skip_whitespace middle with ⟨after, isAfter, readsAfter, -⟩
        have reads := (readsBefore.trans readsText).trans readsAfter
        have sameContent := reads.content
        have longer := List.length_pos_of_ne_nil nonempty
        have offset := reads.offset
        rw [List.length_append, List.length_append] at offset
        have start : (buffer.advance 1).offset = buffer.offset + 1 := rfl
        dsimp only
        refine .ite (fun comma => ?_) fun _ => ?_
        · have isInside := offset_lt_of_currentIs comma
          rw [sameContent] at isInside
          refine Ends.bind (inductionHypothesis sameContent
            (reads.depth.trans sameDepth) isInside (by omega) (Or.inl comma)) ?_
          rintro ⟨elements, last⟩ ⟨rest, readsRest, separated⟩
          refine .ok ⟨before ++ text ++ after ++ ',' :: rest, ?_, ?_⟩
          · have readsComma := reads_one comma
            have all := reads.trans (readsComma.trans readsRest)
            rw [List.singleton_append] at all
            exact all
          · exact .more isBefore isOne isAfter separated
        · exact .ok ⟨before ++ text ++ after, reads, .last isBefore isOne isAfter⟩

theorem reads_parse_container {opening closing : Char}
    (one : ReadsOne One parse_one content depth) {buffer : ParseBuffer}
    (sameContent : buffer.content = content) (sameDepth : buffer.depth = depth)
    (opens : buffer.currentIs opening) :
    Ends (parse_container closing parse_one buffer)
      (fun result => ∃ text,
        buffer.Reads (opening :: text ++ [closing])
          { result.2 with depth := buffer.depth } ∧
        result.2.depth = buffer.depth - 1 ∧
        (Whitespace text ∧ result.1 = [] ∨ Separated One text result.1))
      True (EndsInComma content) := by
  subst sameContent
  rcases reads_buffer_skip_whitespace (buffer.advance 1)
    with ⟨blank, isBlank, readsBlank, -⟩
  have start := (reads_one opens).trans readsBlank
  have sameContent := start.content
  have sameLength := congrArg List.length sameContent
  have offset := start.offset
  rw [List.length_append, List.length_singleton] at offset
  unfold parse_container
  generalize buffer_skip_whitespace (buffer.advance 1) = first at *
  -- how it ends behind the closing bracket
  have closes {text : List Char} {last : ParseBuffer}
      (reads : buffer.Reads (opening :: text) last) (closed : last.currentIs closing) :
      buffer.Reads (opening :: text ++ [closing])
          { content := last.content, offset := last.offset + 1,
            depth := buffer.depth } ∧
        last.depth - 1 = buffer.depth - 1 := by
    refine ⟨?_, by rw [reads.depth]⟩
    have all := reads.trans (reads_one closed)
    rw [← reads.depth]
    exact all
  dsimp only
  refine .ite (fun closed => ?_) fun _ => .ite (fun _ => .failed trivial) fun more => ?_
  · rcases closes start closed with ⟨reads, depths⟩
    exact .ok ⟨blank, reads, depths, Or.inl ⟨isBlank, rfl⟩⟩
  · rw [not_le] at more
    refine Ends.bind (reads_parse_list one _
      (show first.content = buffer.content from sameContent)
      (start.depth.trans sameDepth) ?_ ?_ (Or.inr ?_)) ?_
    · dsimp only
      omega
    · dsimp only
      omega
    · dsimp only
      omega
    · rintro ⟨elements, last⟩ ⟨text, reads, separated⟩
      have back : ParseBuffer.advance
          { first with offset := first.offset - 1 } 1 = first := by
        rw [ParseBuffer.advance, Nat.sub_add_cancel (by omega)]
      rw [back] at reads
      dsimp only
      refine .ite (fun closed => ?_) fun _ => .failed trivial
      rcases closes (start.trans reads) closed with ⟨whole, depths⟩
      exact .ok ⟨blank ++ text, whole, depths, Or.inr (separated.prepend isBlank)⟩

end Lists

theorem Separated.forall {α : Type} {One : List Char → α → Prop} {P : α → Prop}
    {text : List Char} {elements : List α}
    (separated : Separated One text elements)
    (each : ∀ text element, One text element → P element) :
    ∀ element ∈ elements, P element := by
  induction separated with
  | last before one after =>
      intro element member
      rw [List.mem_singleton.mp member]
      exact each _ _ one
  | more before one after rest inductionHypothesis =>
      intro element member
      rcases List.mem_cons.mp member with rfl | later
      · exact each _ _ one
      · exact inductionHypothesis element later

theorem reads_parse_member {One : List Char → Item → Prop} {content : List Char}
    {depth : ℕ} {parse_value : ParseBuffer → Except Stop (Item × ParseBuffer)}
    (one : ∀ buffer : ParseBuffer, buffer.content = content →
      buffer.depth = depth → buffer.offset ≤ content.length →
      Ends (parse_value buffer)
        (fun result => ∃ text, buffer.Reads text result.2 ∧
          text ≠ [] ∧ One text result.1)
        True (EndsInComma content)) :
    ReadsOne (Member One) (parse_member parse_value) content depth := by
  rintro buffer rfl rfl inside
  unfold parse_member
  refine Ends.bind
    ((reads_parse_string buffer).mono (fun _ holds => holds) id Or.inr) ?_
  rintro ⟨string, named⟩ ⟨name, readsName, nonempty, literal⟩
  rcases reads_buffer_skip_whitespace named with ⟨before, isBefore, readsBefore, -⟩
  dsimp only
  refine .ite (fun _ => .failed trivial) fun colon => ?_
  rw [not_not] at colon
  rcases reads_buffer_skip_whitespace
      ((buffer_skip_whitespace named).advance 1) with ⟨after, isAfter, readsAfter, -⟩
  have reads :=
    ((readsName.trans readsBefore).trans (reads_one colon)).trans readsAfter
  have within := reads.within inside
  rw [reads.content] at within
  refine Ends.bind
    ((one _ reads.content reads.depth within).mono (fun _ holds => holds) id Or.inl) ?_
  rintro ⟨value, last⟩ ⟨text, readsText, -, isOne⟩
  have all := reads.trans readsText
  refine .ok ⟨name ++ before ++ ':' :: after ++ text, ?_, ?_, ?_⟩
  · simpa using all
  · simp
  · exact .mk literal isBefore isAfter isOne

/-- An array, or an object, in a buffer which is not too deep. -/
theorem reads_nested {α : Type} {One : List Char → α → Prop} {opening closing : Char}
    {parse_one : ParseBuffer → Except Stop (α × ParseBuffer)} {make : List α → Item}
    {buffer : ParseBuffer} {IsItem : List Char → Item → Prop}
    (one : ReadsOne One parse_one buffer.content (buffer.depth + 1))
    (opens : buffer.currentIs opening)
    (empty : ∀ blank, Whitespace blank →
      IsItem (opening :: blank ++ [closing]) (make []))
    (some : ∀ text elements, Separated One text elements →
      IsItem (opening :: text ++ [closing]) (make elements)) :
    Ends
      (do
        let (child, after) ←
          parse_container closing parse_one { buffer with depth := buffer.depth + 1 }
        .ok (make child, after))
      (fun result => ∃ text, buffer.Reads text result.2 ∧
        text ≠ [] ∧ IsItem text result.1)
      True (EndsInComma buffer.content) := by
  have container := @reads_parse_container α One parse_one _ _ opening closing one
    { buffer with depth := buffer.depth + 1 } rfl rfl opens
  refine Ends.bind container ?_
  rintro ⟨elements, last⟩ ⟨text, reads, depth, isText⟩
  refine .ok ⟨opening :: text ++ [closing], ⟨?_, reads.ahead_eq⟩, by simp, ?_⟩
  · have same := reads.after_eq
    dsimp only [ParseBuffer.advance] at same depth ⊢
    cases last
    simp_all
  · rcases isText with ⟨isBlank, rfl⟩ | separated
    · exact empty text isBlank
    · exact some text elements separated

/-! ## Values -/

/-- A value which is nested at most so deeply. -/
def NestedValue (levels : ℕ) (text : List Char) (item : Item) : Prop :=
  Value text item ∧ item.nesting ≤ levels

/-- One call of `parse_value`, given what the calls for the children do. -/
theorem reads_parse_value_step {levels : ℕ} {buffer : ParseBuffer}
    (deeper : buffer.depth < CJSON_NESTING_LIMIT → 0 < levels ∧
      ∀ inner : ParseBuffer, inner.content = buffer.content →
        inner.depth = buffer.depth + 1 → inner.offset ≤ buffer.content.length →
        Ends (parse_value levels inner)
          (fun result => ∃ text, inner.Reads text result.2 ∧ text ≠ [] ∧
            NestedValue (levels - 1) text result.1)
          True (EndsInComma buffer.content)) :
    Ends (parse_value (levels + 1) buffer)
      (fun result => ∃ text, buffer.Reads text result.2 ∧ text ≠ [] ∧
        NestedValue levels text result.1)
      True (EndsInComma buffer.content) := by
  have leaf {text : List Char} {item : Item} {after : ParseBuffer}
      (reads : buffer.Reads text after) (nonempty : text ≠ [])
      (value : Value text item) (flat : item.nesting = 0) :
      Ends (.ok (item, after))
        (fun result => ∃ text, buffer.Reads text result.2 ∧ text ≠ [] ∧
          NestedValue levels text result.1)
        True (EndsInComma buffer.content) :=
    .ok ⟨text, reads, nonempty, value, flat ▸ Nat.zero_le _⟩
  unfold parse_value
  refine .ite (fun starts => leaf (reads_word starts) (by simp) .null rfl) fun _ => ?_
  refine .ite (fun starts => leaf (reads_word starts) (by simp) .false rfl) fun _ => ?_
  refine .ite (fun starts => leaf (reads_word starts) (by simp) .true rfl) fun _ => ?_
  refine .ite (fun quote => ?_) fun _ => ?_
  · have isInside := offset_lt_of_currentIs quote
    refine Ends.bind ((reads_parse_string buffer).mono (fun _ holds => holds) id
      fun outside => by omega) ?_
    rintro ⟨valuestring, after⟩ ⟨text, reads, nonempty, literal⟩
    exact leaf reads nonempty (.string literal) rfl
  cases current : buffer.content[buffer.offset]? with
  | none => exact .failed trivial
  | some first =>
      dsimp only
      refine .ite (fun isFirst => ?_) fun _ => ?_
      · refine (reads_parse_number current isFirst).mono ?_ id id
        rintro ⟨item, after⟩ ⟨text, reads, nonempty, value, flat⟩
        exact leaf reads nonempty value flat
      refine .ite (fun bracket => ?_) fun _ => .ite (fun brace => ?_) fun _ => .failed trivial
      · subst bracket
        rw [parse_array]
        refine .ite (fun _ => .failed trivial) fun shallow => ?_
        rcases deeper (not_le.mp shallow) with ⟨positive, child⟩
        have same : ParseBuffer.current { buffer with depth := buffer.depth + 1 } =
            .ok '[' := by
          rw [ParseBuffer.current]
          dsimp only
          rw [current]
        dsimp only
        rw [same]
        refine reads_nested (fun inner content depth within =>
          (child inner content depth within).mono (fun _ holds => holds) id Or.inl)
          current (fun blank isBlank => ?_) fun text elements separated => ?_
        · refine ⟨.emptyArray isBlank, ?_⟩
          rw [Item.nesting_array_le_iff]
          exact ⟨positive, fun _ member => (List.not_mem_nil member).elim⟩
        · refine ⟨.array (separated.mono fun _ _ _ one => one.1), ?_⟩
          rw [Item.nesting_array_le_iff]
          exact ⟨positive, separated.forall fun _ _ one => one.2⟩
      · subst brace
        rw [parse_object]
        refine .ite (fun _ => .failed trivial) fun shallow => ?_
        rcases deeper (not_le.mp shallow) with ⟨positive, child⟩
        dsimp only
        rw [if_neg (not_not.mpr (show ParseBuffer.currentIs
          { buffer with depth := buffer.depth + 1 } '{' from current))]
        refine reads_nested (reads_parse_member child) current
          (fun blank isBlank => ?_) fun text elements separated => ?_
        · refine ⟨.emptyObject isBlank, ?_⟩
          rw [Item.nesting_object_le_iff]
          exact ⟨positive, fun _ member => (List.not_mem_nil member).elim⟩
        · refine ⟨.object (separated.mono fun _ _ _ one => ?_), ?_⟩
          · cases one with
            | mk name before after value => exact .mk name before after value.1
          · rw [Item.nesting_object_le_iff]
            refine ⟨positive, separated.forall fun _ _ one => ?_⟩
            cases one with
            | mk name before after value => exact value.2

theorem reads_parse_value (levels : ℕ) {buffer : ParseBuffer}
    (depth : buffer.depth + levels = CJSON_NESTING_LIMIT) :
    Ends (parse_value (levels + 1) buffer)
      (fun result => ∃ text, buffer.Reads text result.2 ∧ text ≠ [] ∧
        NestedValue levels text result.1)
      True (EndsInComma buffer.content) := by
  induction levels generalizing buffer with
  | zero => exact reads_parse_value_step fun shallow => by omega
  | succ levels inductionHypothesis =>
      apply reads_parse_value_step
      refine fun _ => ⟨Nat.succ_pos _, fun inner content deeper _ => ?_⟩
      rw [← content]
      exact inductionHypothesis (by omega)

/-- Where `parse_value` starts to read. -/
def start (value : List Char) : ParseBuffer :=
  buffer_skip_whitespace (skip_utf8_bom { content := value, offset := 0, depth := 0 })

theorem reads_start (value : List Char) :
    ∃ mark blank, (mark = [] ∨ mark = byteOrderMark) ∧ Whitespace blank ∧
      ParseBuffer.Reads { content := value, offset := 0, depth := 0 }
        (mark ++ blank) (start value) := by
  have marked : ∃ mark, (mark = [] ∨ mark = byteOrderMark) ∧
      ParseBuffer.Reads { content := value, offset := 0, depth := 0 } mark
        (skip_utf8_bom { content := value, offset := 0, depth := 0 }) := by
    unfold skip_utf8_bom
    split_ifs with isMarked
    · exact ⟨byteOrderMark, Or.inr rfl, reads_word isMarked.2⟩
    · exact ⟨[], Or.inl rfl, reads_nil _⟩
  rcases marked with ⟨mark, isMark, readsMark⟩
  rcases reads_buffer_skip_whitespace
    (skip_utf8_bom { content := value, offset := 0, depth := 0 })
    with ⟨blank, isBlank, readsBlank, -⟩
  exact ⟨mark, blank, isMark, isBlank, readsMark.trans readsBlank⟩

/-- A text starts with a value behind an optional mark and white space. -/
structure Document (content text : List Char) (item : Item) (rest : List Char) :
    Prop where
  split : ∃ mark blank, content = mark ++ blank ++ text ++ rest ∧
    (mark = [] ∨ mark = byteOrderMark) ∧ Whitespace blank
  value : Value text item
  nesting : item.nesting ≤ CJSON_NESTING_LIMIT

theorem reads_document (value : List Char) :
    Ends (parse_value (CJSON_NESTING_LIMIT + 1) (start value))
      (fun result => ∃ text, (start value).Reads text result.2 ∧
        Document value text result.1 result.2.ahead)
      True (EndsInComma value) := by
  rcases reads_start value with ⟨mark, blank, isMark, isBlank, readsStart⟩
  have body := reads_parse_value CJSON_NESTING_LIMIT
    (by rw [readsStart.depth, zero_add])
  rw [readsStart.content] at body
  refine body.mono ?_ id id
  rintro ⟨item, after⟩ ⟨text, readsText, nonempty, isValue, shallow⟩
  have all := (readsStart.trans readsText).ahead_eq
  exact ⟨text, readsText, ⟨mark, blank, all, isMark, isBlank⟩, isValue, shallow⟩

/--
Only a text which ends in a comma is read behind its end; a loop never runs out
of turns, and a string is never longer than what was allocated for it.
-/
theorem ends_cJSON_ParseWithLengthOpts (value : List Char)
    (require_null_terminated : Bool) :
    Ends (cJSON_ParseWithLengthOpts value require_null_terminated)
      (fun result => ∃ text rest blank, Document value text result.1 rest ∧
        Whitespace blank ∧ blank ++ value.drop result.2 = rest ∧
        if require_null_terminated then value[result.2]? = some nul
        else blank = [])
      True (EndsInComma value) := by
  unfold cJSON_ParseWithLengthOpts
  refine .ite (fun _ => .failed trivial) fun _ => Ends.bind (reads_document value) ?_
  rintro ⟨item, after⟩ ⟨text, readsText, document⟩
  rcases reads_start value with ⟨mark, blank, isMark, isBlank, readsStart⟩
  have content : after.content = value := (readsStart.trans readsText).content
  dsimp only
  refine .ite (fun required => ?_) fun optional => ?_
  · rcases reads_buffer_skip_whitespace after with ⟨white, isWhite, readsWhite, -⟩
    refine .ite (fun _ => .failed trivial) fun terminated => ?_
    rw [not_not] at terminated
    refine .ok ⟨text, after.ahead, white, document, isWhite, ?_, ?_⟩
    · rw [readsWhite.ahead_eq, ahead, readsWhite.content, content]
    · rw [if_pos required]
      have isNull := terminated
      rw [currentIs, readsWhite.content, content] at isNull
      exact isNull
  · refine .ok ⟨text, after.ahead, [], document, ?_, ?_, ?_⟩
    · exact fun _ member => (List.not_mem_nil member).elim
    · rw [ahead, content]
      rfl
    · rw [if_neg optional]

/-- Nothing is undefined for a C string. -/
theorem cJSON_Parse_ne_undefined (value : CString) :
    cJSON_Parse value ≠ .error .undefined := by
  have ends := ends_cJSON_ParseWithLengthOpts (value.characters ++ [nul]) false
  rw [cJSON_Parse, cJSON_ParseWithOpts]
  cases parsed : cJSON_ParseWithLengthOpts (value.characters ++ [nul]) false with
  | ok result => simp [Except.map]
  | error stop =>
      rw [parsed] at ends
      cases stop with
      | failed => simp [Except.map]
      | undefined =>
          have comma : EndsInComma (value.characters ++ [nul]) := ends
          rw [EndsInComma, List.getLast?_concat] at comma
          exact absurd comma (by decide)

end FederatedEdge.Json
