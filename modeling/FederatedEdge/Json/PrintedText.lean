import FederatedEdge.Json.Printer

/-!
# What the printer writes

Every printing function writes its text behind what is there already, and leaves
the offset somewhere in it: the length of the terminated string from the offset
on is what is missing.  It fails only when a request is refused, or when the text
is too long for an `int`.
-/

namespace FederatedEdge.Json

open FederatedEdge.Library
open FederatedEdge.Server
open PrintBuffer

/-- The memory holds `front` up to the offset and `back` behind it. -/
structure Holds (depth : ℕ) (front back : List Char) (p : PrintBuffer) : Prop where
  offset : p.offset = front.length
  content : (front ++ back).map some <+: p.buffer
  room : 0 < p.buffer.length → p.offset < p.buffer.length
  limit : p.buffer.length ≤ maximalSize
  depth : p.depth = depth

variable {depth : ℕ} {front back text : List Char} {p : PrintBuffer}

/-- What is behind the offset will be overwritten. -/
theorem Holds.forget (holds : Holds depth front back p) : Holds depth front [] p := by
  refine ⟨holds.offset, ?_, holds.room, holds.limit, holds.depth⟩
  have content := holds.content
  rw [List.map_append] at content
  rw [List.append_nil]
  exact (List.prefix_append _ _).trans content

theorem Holds.setDepth (holds : Holds depth front back p) (newDepth : ℕ) :
    Holds newDepth front back { p with depth := newDepth } :=
  ⟨holds.offset, holds.content, holds.room, holds.limit, rfl⟩

theorem Holds.advance {moved : List Char} (holds : Holds depth front (moved ++ back) p)
    (inside : front.length + moved.length < p.buffer.length) :
    Holds depth (front ++ moved) back (p.advance moved.length) := by
  refine ⟨?_, ?_, fun _ => ?_, holds.limit, holds.depth⟩
  · rw [PrintBuffer.advance, holds.offset, List.length_append]
  · rw [List.append_assoc]
    exact holds.content
  · rw [PrintBuffer.advance, holds.offset]
    exact inside

/-- When a printing function may fail: the text is too long, or memory is refused. -/
def Refused (allocator : Allocator) (length : ℕ) : Prop :=
  maximalSize < length + 2 ∨ ∃ number size, allocator number size = false

theorem prefix_resize {prior : Buffer Char} {buffer : Buffer Char} {size : ℕ}
    (isPrefix : prior <+: buffer) (larger : buffer.length ≤ size) :
    prior <+: buffer.resize size := by
  refine isPrefix.trans ?_
  rw [Buffer.resize, List.take_of_length_le]
  · exact List.prefix_append _ _
  · rw [List.length_append, Buffer.allocate, List.length_replicate]
    omega

variable {allocator : Allocator}

theorem holds_reallocate {size length : ℕ} (holds : Holds depth front back p)
    (larger : p.buffer.length ≤ size) (room : front.length < size)
    (limit : size ≤ maximalSize) :
    Ends (p.reallocate allocator size)
      (fun after => Holds depth front back after ∧ after.buffer.length = size)
      (Refused allocator length) False := by
  rw [reallocate]
  refine .ite (fun _ => .ok ⟨⟨holds.offset, prefix_resize holds.content larger,
    fun _ => ?_, ?_, holds.depth⟩, Buffer.length_resize _ _⟩) fun refused => ?_
  · dsimp only
    rw [Buffer.length_resize, holds.offset]
    exact room
  · dsimp only
    rw [Buffer.length_resize]
    exact limit
  · exact .failed (Or.inr ⟨_, _, Bool.eq_false_of_not_eq_true refused⟩)

/-- There is room for what is needed, and for one more character. -/
theorem holds_ensure {needed length : ℕ} (holds : Holds depth front back p)
    (enough : front.length + needed + 1 ≤ length + 2) :
    Ends (ensure allocator needed p)
      (fun after => Holds depth front back after ∧
        front.length + needed + 1 ≤ after.buffer.length)
      (Refused allocator length) False := by
  have offset := holds.offset
  have limit := holds.limit
  have value : maximalSize = 2147483647 := rfl
  unfold ensure
  refine .ite (fun outside => ?_) fun _ => .ite (fun large => ?_) fun _ => ?_
  · have inside := holds.room outside.1
    omega
  · exact .failed (Or.inl (by omega))
  dsimp only
  rw [offset]
  refine .ite (fun fits => ?_) fun more => .ite (fun half => ?_) fun few => ?_
  · exact .ok ⟨holds, by omega⟩
  · refine .ite (fun fits => ?_) fun long => .failed (Or.inl (by omega))
    refine (holds_reallocate holds limit (by omega) le_rfl).mono ?_ id id
    rintro after ⟨held, size⟩
    exact ⟨held, by omega⟩
  · refine (holds_reallocate holds (by omega) (by omega) (by omega)).mono ?_ id id
    rintro after ⟨held, size⟩
    exact ⟨held, by omega⟩

theorem prefix_overwrite {buffer prior : Buffer Char} {written : List Char}
    {position : ℕ} (isPrefix : prior <+: buffer) (length : prior.length = position)
    (fits : prior.length + written.length ≤ buffer.length) :
    prior ++ written.map some <+: buffer.overwrite position written := by
  have front : buffer.take position = prior := by
    rw [← length, ← List.prefix_iff_eq_take.mp isPrefix]
  rw [Buffer.overwrite, front, List.prefix_take_iff]
  refine ⟨List.prefix_append _ _, ?_⟩
  rw [List.length_append, List.length_map]
  exact fits

/-- What is written follows what was there up to the position. -/
theorem holds_output {failure : Prop} (holds : Holds depth front (back ++ text) p)
    {written : List Char}
    (fits : front.length + back.length + written.length ≤ p.buffer.length) :
    Ends (p.output back.length written)
      (fun after => Holds depth front (back ++ written) after ∧
        after.buffer.length = p.buffer.length)
      failure False := by
  have offset := holds.offset
  rw [output, if_neg (by omega)]
  have inside : p.offset + back.length ≤ p.buffer.length := by omega
  have length := Buffer.length_overwrite inside written
  refine .ok ⟨⟨offset, ?_, ?_, ?_, holds.depth⟩, length⟩
  · have kept := holds.content
    rw [← List.append_assoc, List.map_append] at kept
    rw [← List.append_assoc, List.map_append]
    refine prefix_overwrite ((List.prefix_append _ _).trans kept) ?_ ?_
    · rw [List.length_map, List.length_append, offset]
    · rw [List.length_map, List.length_append]
      exact fits
  · dsimp only
    rw [length]
    exact holds.room
  · dsimp only
    rw [length]
    exact holds.limit

theorem strlen_terminated {rest : Buffer Char} (noNull : nul ∉ text) :
    strlen ((text ++ [nul]).map some ++ rest) = .ok text.length := by
  induction text with
  | nil => rfl
  | cons character text inductionHypothesis =>
      rw [List.mem_cons, not_or] at noNull
      rw [List.cons_append, List.map_cons, List.cons_append, strlen,
        if_neg (Ne.symm noNull.1), inductionHypothesis noNull.2]
      rfl

theorem holds_update_offset {failure : Prop}
    (holds : Holds depth front (text ++ [nul]) p) (noNull : nul ∉ text) :
    Ends (update_offset p)
      (fun after => Holds depth (front ++ text) [nul] after ∧
        after.buffer.length = p.buffer.length)
      failure False := by
  rcases holds.content with ⟨rest, whole⟩
  have behind : p.buffer.drop p.offset = (text ++ [nul]).map some ++ rest := by
    rw [← whole, holds.offset, List.map_append, List.append_assoc,
      List.drop_left' (List.length_map _)]
  have size := congrArg List.length whole
  rw [List.length_append, List.length_map, List.length_append, List.length_append,
    List.length_singleton] at size
  rw [update_offset, behind, strlen_terminated noNull, Stop.ok_bind]
  exact .ok ⟨holds.advance (by omega), rfl⟩

/-! ## What a printing function does -/

/--
The text is written behind what is there, up to some place before the offset and
from there on behind it.
-/
def Prints (allocator : Allocator) (printed : Printing) (text : ℕ → List Char) : Prop :=
  ∀ (depth length : ℕ) (front : List Char) (p : PrintBuffer),
    Holds depth front [] p → (front ++ text depth).length ≤ length →
    Ends (printed p)
      (fun after => ∃ before behind, text depth = before ++ behind ∧
        Holds depth (front ++ before) (behind ++ [nul]) after ∧
        (front ++ text depth).length + 2 ≤ after.buffer.length)
      (Refused allocator length) False

/-- Ask for memory and write to it. -/
theorem holds_put {length needed : ℕ} {written : List Char}
    (holds : Holds depth front [] p)
    (enough : front.length + needed + 1 ≤ length + 2)
    (fits : written.length ≤ needed + 1) :
    Ends (ensure allocator needed p >>= output 0 written)
      (fun after => Holds depth front written after ∧
        front.length + needed + 1 ≤ after.buffer.length)
      (Refused allocator length) False := by
  refine Ends.bind (holds_ensure holds enough) ?_
  rintro enlarged ⟨held, large⟩
  refine (@holds_output depth front [] [] enlarged _ held written ?_).mono ?_ id id
  · rw [List.length_nil]
    omega
  · rintro after ⟨done, size⟩
    exact ⟨done, by omega⟩

/-- Ask for memory, write to it and go on. -/
theorem holds_put_bind {length needed : ℕ} {written : List Char}
    {next : PrintBuffer → Except Stop PrintBuffer} {final : PrintBuffer → Prop}
    (holds : Holds depth front [] p)
    (enough : front.length + needed + 1 ≤ length + 2)
    (fits : written.length ≤ needed + 1)
    (goesOn : ∀ after, Holds depth front written after →
      front.length + needed + 1 ≤ after.buffer.length →
      Ends (next after) final (Refused allocator length) False) :
    Ends (ensure allocator needed p >>= fun p => p.output 0 written >>= next)
      final (Refused allocator length) False := by
  rw [← bind_assoc]
  exact Ends.bind (holds_put holds enough fits)
    fun after both => goesOn after both.1 both.2

/-- Everything is written in front of the offset or behind it. -/
theorem Holds.printed {front text : List Char} {size : ℕ}
    (holds : Holds depth front (text ++ [nul]) p) (large : size ≤ p.buffer.length) :
    ∃ before behind, text = before ++ behind ∧
      Holds depth (front ++ before) (behind ++ [nul]) p ∧ size ≤ p.buffer.length :=
  ⟨[], text, rfl, by rw [List.append_nil]; exact holds, large⟩

theorem prints_print_word (word : List Char) :
    Prints allocator (print_word allocator word) fun _ => word := by
  intro depth length front p holds bound
  change (front ++ word).length ≤ length at bound
  rw [List.length_append] at bound
  refine (holds_put holds (by omega) (by simp)).mono ?_ id id
  rintro after ⟨done, size⟩
  refine done.printed ?_
  rw [List.length_append]
  omega

theorem prints_print_number_to (valuedouble : Double) :
    Prints allocator (print_number_to allocator valuedouble)
      fun _ => numberText valuedouble := by
  intro depth length front p holds bound
  change (front ++ numberText valuedouble).length ≤ length at bound
  rw [List.length_append] at bound
  rw [print_number_to, print_number_eq]
  refine holds_put_bind holds (by omega) (by simp) fun after done size => ?_
  refine .ok ⟨numberText valuedouble, [], (List.append_nil _).symm,
    done.advance (by omega), ?_⟩
  rw [List.length_append]
  exact size

theorem length_escape (character : Char) :
    (escape character).length = 1 + escapeCharacters character := by
  by_cases special :
      character ∈ ['"', '\\', '\x08', '\x0c', '\n', '\r', '\t']
  · simp only [List.mem_cons, List.not_mem_nil, or_false] at special
    rcases special with rfl | rfl | rfl | rfl | rfl | rfl | rfl
    all_goals rfl
  · rw [escapeCharacters, if_neg special]
    simp only [List.mem_cons, List.not_mem_nil, or_false, not_or] at special
    rcases special with
      ⟨quote, backslash, backspace, formFeed, newline, carriage, tab⟩
    by_cases control : character.toNat < 32
    · rw [if_pos control, escape, if_neg (by omega), if_neg backslash,
        if_neg quote, if_neg backspace, if_neg formFeed, if_neg newline,
        if_neg carriage, if_neg tab]
      rfl
    · rw [if_neg control, escape, if_pos ⟨by omega, quote, backslash⟩]
      rfl

theorem length_flatMap_escape (characters : List Char) :
    (characters.flatMap escape).length =
      characters.length + (characters.map escapeCharacters).sum := by
  induction characters with
  | nil => rfl
  | cons character characters inductionHypothesis =>
      rw [List.flatMap_cons, List.length_append, length_escape, inductionHypothesis,
        List.length_cons, List.map_cons, List.sum_cons]
      omega

theorem flatMap_escape_of_sum_eq_zero {characters : List Char}
    (none : (characters.map escapeCharacters).sum = 0) :
    characters.flatMap escape = characters := by
  induction characters with
  | nil => rfl
  | cons character characters inductionHypothesis =>
      rw [List.map_cons, List.sum_cons, Nat.add_eq_zero_iff] at none
      have single : escape character = [character] := by
        have length := length_escape character
        rw [none.1] at length
        revert length
        unfold escape
        split_ifs
        · exact fun _ => rfl
        all_goals exact fun impossible => absurd impossible (by simp)
      rw [List.flatMap_cons, single, inductionHypothesis none.2]
      rfl

theorem prints_print_string_ptr (input : CString) :
    Prints allocator (print_string_ptr allocator input)
      fun _ => stringText input.characters := by
  intro depth length front p holds bound
  change (front ++ stringText input.characters).length ≤ length at bound
  have size := length_flatMap_escape input.characters
  rw [List.length_append, stringText, List.length_cons, List.length_append,
    List.length_singleton] at bound
  have total : (front ++ stringText input.characters).length + 2 =
      front.length + ((input.characters.flatMap escape).length + 3) + 1 := by
    rw [List.length_append, stringText, List.length_cons, List.length_append,
      List.length_singleton]
    omega
  dsimp only
  rw [total, size]
  unfold print_string_ptr
  dsimp only
  refine Ends.bind (holds_ensure holds (by omega)) ?_
  rintro enlarged ⟨held, large⟩
  refine .ite (fun none => ?_) fun _ => ?_
  · have same := flatMap_escape_of_sum_eq_zero none
    refine (@holds_output depth front [] [] enlarged _ held
      ('"' :: input.characters ++ ['"', nul]) ?_).mono ?_ id id
    · simp only [List.length_append, List.length_cons, List.length_nil]
      omega
    · rintro after ⟨done, unchanged⟩
      rw [stringText, same]
      refine Holds.printed ?_ (by omega)
      simpa using done
  · refine Ends.bind (@holds_output depth front [] [] enlarged _ held
      ('"' :: input.characters.flatMap escape) ?_) ?_
    · simp only [List.length_cons, List.length_nil]
      omega
    · rintro middle ⟨started, unchanged⟩
      have position : input.characters.length +
          (input.characters.map escapeCharacters).sum + 1 =
            ('"' :: input.characters.flatMap escape).length := by
        rw [List.length_cons, size]
      rw [position]
      rw [List.nil_append] at started
      refine (@holds_output depth front _ [] middle _
        (by rw [List.append_nil]; exact started) ['"', nul] ?_).mono ?_ id id
      · simp only [List.length_cons, List.length_nil]
        omega
      · rintro after ⟨done, same⟩
        refine Holds.printed ?_ (by omega)
        simpa [stringText] using done

/-! ## Arrays and objects -/

/-- Printing one thing, and moving on behind it. -/
theorem prints_and_update {printed : Printing} {text : ℕ → List Char} {length : ℕ}
    {β : Type} {next : PrintBuffer → Except Stop β} {final : β → Prop}
    (prints : Prints allocator printed text) (noNull : nul ∉ text depth)
    (holds : Holds depth front [] p) (bound : (front ++ text depth).length ≤ length)
    (goesOn : ∀ after, Holds depth (front ++ text depth) [nul] after →
      (front ++ text depth).length + 2 ≤ after.buffer.length →
      Ends (next after) final (Refused allocator length) False) :
    Ends (printed p >>= fun p => update_offset p >>= next) final
      (Refused allocator length) False := by
  refine Ends.bind (prints depth length front p holds bound) ?_
  rintro middle ⟨before, behind, split, held, large⟩
  rw [split, List.mem_append, not_or] at noNull
  refine Ends.bind (holds_update_offset held noNull.2) ?_
  rintro after ⟨done, size⟩
  rw [List.append_assoc, ← split] at done
  exact goesOn after done (by omega)

theorem length_layout (format : Bool) (text : List Char) :
    (layout format text).length = if format then text.length else 0 := by
  unfold layout
  split_ifs <;> rfl

theorem holds_print_elements (format : Bool) {elements : List Printing}
    {texts : List (ℕ → List Char)}
    (each : List.Forall₂ (Prints allocator) elements texts)
    (noNull : ∀ text ∈ texts, nul ∉ text depth) {length : ℕ}
    (holds : Holds depth front [] p)
    (bound : (front ++ renderElements format depth texts).length ≤ length) :
    Ends (print_elements allocator format elements p)
      (Holds depth (front ++ renderElements format depth texts) [])
      (Refused allocator length) False := by
  induction each generalizing front p with
  | nil =>
      rw [renderElements, List.append_nil]
      exact .ok holds
  | @cons element text elements texts prints each inductionHypothesis =>
      have first := noNull text List.mem_cons_self
      have others := fun text member => noNull text (List.mem_cons_of_mem _ member)
      rw [print_elements]
      cases each with
      | nil =>
          refine prints_and_update prints first holds bound fun after done large => ?_
          rw [if_pos rfl, print_elements]
          exact .ok done.forget
      | @cons next nextText elements texts nextPrints each =>
          have whole : front ++ renderElements format depth (text :: nextText :: texts) =
              front ++ text depth ++ (',' :: layout format [' ']) ++
                renderElements format depth (nextText :: texts) := by
            simp [renderElements]
          rw [whole] at bound ⊢
          have sizes := bound
          rw [List.length_append, List.length_append, List.length_cons,
            length_layout] at sizes
          refine prints_and_update prints first holds (by omega)
            fun after done large => ?_
          have count : (if format then 2 else 1) =
              (',' :: layout format [' ']).length := by
            rw [List.length_cons, length_layout]
            cases format <;> rfl
          rw [if_neg (by simp), count]
          refine holds_put_bind done.forget ?_ ?_ fun written holds large => ?_
          · rw [List.length_cons, length_layout]
            omega
          · rw [List.length_append, List.length_singleton]
            omega
          · have moved := holds.advance (by omega)
            exact inductionHypothesis others (moved.forget) bound

theorem prints_print_array (format : Bool) {elements : List Printing}
    {texts : List (ℕ → List Char)}
    (each : List.Forall₂ (Prints allocator) elements texts)
    (noNull : ∀ depth, ∀ text ∈ texts, nul ∉ text depth) :
    Prints allocator (print_array allocator format elements) fun depth =>
      '[' :: renderElements format (depth + 1) texts ++ [']'] := by
  intro depth length front p holds bound
  dsimp only at bound
  have sizes := bound
  rw [List.length_append, List.length_append, List.length_cons,
    List.length_singleton] at sizes
  unfold print_array
  refine holds_put_bind holds (by omega) (by simp) fun opened holds large => ?_
  have inside := ((@Holds.advance depth front [] opened ['['] holds
    (by rw [List.length_singleton]; omega)).setDepth (depth + 1)).forget
  have assembled : front ++ ('[' :: renderElements format (depth + 1) texts ++ [']']) =
      front ++ ['['] ++ renderElements format (depth + 1) texts ++ [']'] := by simp
  rw [holds.depth]
  refine Ends.bind (holds_print_elements format each (noNull (depth + 1)) inside ?_) ?_
  · rw [List.length_append, List.length_append, List.length_singleton]
    omega
  rintro middle held
  refine holds_put_bind held ?_ (by simp) fun closed holds large => ?_
  · rw [List.length_append, List.length_append, List.length_singleton]
    omega
  rw [holds.depth, Nat.add_sub_cancel]
  refine .ok ⟨'[' :: renderElements format (depth + 1) texts, [']'], rfl, ?_, ?_⟩
  · have done := holds.setDepth depth
    rw [List.append_assoc] at done
    exact done
  · rw [assembled, List.length_append, List.length_singleton]
    exact large

theorem length_indentation (format : Bool) (depth : ℕ) :
    (indentation format depth).length = if format then depth else 0 := by
  rw [indentation, length_layout, List.length_replicate]

theorem holds_print_tabs (format : Bool) {length : ℕ} (holds : Holds depth front [] p)
    (bound : (front ++ indentation format depth).length ≤ length) :
    Ends (print_tabs allocator format p)
      (Holds depth (front ++ indentation format depth) [])
      (Refused allocator length) False := by
  unfold print_tabs
  cases format with
  | false =>
      have nothing : indentation false depth = [] := rfl
      rw [if_neg (by simp), nothing, List.append_nil]
      exact .ok holds
  | true =>
      have tabs : indentation true depth = List.replicate depth '\t' := rfl
      rw [tabs, List.length_append, List.length_replicate] at bound
      rw [if_pos rfl, tabs, holds.depth]
      refine Ends.bind (holds_ensure holds (by omega)) ?_
      rintro enlarged ⟨held, large⟩
      rw [held.depth]
      refine Ends.bind (@holds_output depth front [] [] enlarged _ held
        (List.replicate depth '\t') ?_) ?_
      · rw [List.length_nil, List.length_replicate]
        omega
      · rintro written ⟨done, same⟩
        rw [List.nil_append, ← List.append_nil (List.replicate depth '\t')] at done
        have moved := done.advance (by rw [List.length_replicate]; omega)
        rw [List.length_replicate] at moved
        rw [done.depth]
        exact .ok moved

theorem holds_print_members (format : Bool) {members : List (CString × Printing)}
    {texts : List (CString × (ℕ → List Char))}
    (each : List.Forall₂
      (fun member text => member.1 = text.1 ∧ Prints allocator member.2 text.2)
      members texts)
    (noNull : ∀ text ∈ texts, nul ∉ text.2 depth) {length : ℕ}
    (holds : Holds depth front [] p)
    (bound : (front ++ renderMembers format depth texts).length ≤ length) :
    Ends (print_members allocator format members p)
      (Holds depth (front ++ renderMembers format depth texts) [])
      (Refused allocator length) False := by
  induction each generalizing front p with
  | nil =>
      rw [renderMembers, List.append_nil]
      exact .ok holds
  | @cons member text members texts same each inductionHypothesis =>
      rcases member with ⟨key, value⟩
      rcases text with ⟨name, valueText⟩
      rcases same with ⟨rfl, prints⟩
      have first := noNull _ List.mem_cons_self
      have others := fun text member => noNull text (List.mem_cons_of_mem _ member)
      have isLast : members = [] ↔ texts = [] := by
        cases each <;> simp
      have whole : front ++ renderMembers format depth ((key, valueText) :: texts) =
          front ++ indentation format depth ++ stringText key.characters ++
            (':' :: layout format ['\t']) ++ valueText depth ++
            ((if texts = [] then [] else [',']) ++ layout format ['\n']) ++
            renderMembers format depth texts := by
        simp [renderMembers]
      rw [whole] at bound ⊢
      have sizes := bound
      simp only [List.length_append, List.length_cons, length_layout,
        length_indentation] at sizes
      rw [print_members]
      refine Ends.bind (holds_print_tabs format holds ?_) fun indented holds => ?_
      · rw [List.length_append, length_indentation]
        omega
      refine prints_and_update (prints_print_string_ptr key)
        (null_notMem_stringText key) holds ?_ fun named holds large => ?_
      · simp only [List.length_append, length_indentation]
        omega
      have colon : (if format then 2 else 1) = (':' :: layout format ['\t']).length := by
        rw [List.length_cons, length_layout]
        cases format <;> rfl
      dsimp only
      rw [colon]
      refine holds_put_bind holds.forget ?_ ?_ fun separated holds large => ?_
      · simp only [List.length_append, List.length_cons, length_layout,
          length_indentation]
        omega
      · omega
      have moved := (@Holds.advance depth _ [] separated (':' :: layout format ['\t'])
        (by rw [List.append_nil]; exact holds) (by omega))
      refine prints_and_update prints first moved ?_ fun valued holds large => ?_
      · simp only [List.length_append, List.length_cons, length_layout,
          length_indentation]
        omega
      have ending : (if format then 1 else 0) + (if members = [] then 0 else 1) =
          ((if texts = [] then [] else [',']) ++ layout format ['\n']).length := by
        rw [List.length_append, length_layout, Nat.add_comm]
        simp only [isLast]
        split_ifs <;> rfl
      rw [ending]
      simp only [isLast]
      refine holds_put_bind holds.forget ?_ ?_ fun ended holds large => ?_
      · simp only [List.length_append, List.length_cons, length_layout,
          length_indentation]
        omega
      · exact List.length_append.le.trans (Nat.le_succ _)
      · have moved := holds.advance (by omega)
        exact inductionHypothesis others moved.forget bound

theorem prints_print_object (format : Bool) {members : List (CString × Printing)}
    {texts : List (CString × (ℕ → List Char))}
    (each : List.Forall₂
      (fun member text => member.1 = text.1 ∧ Prints allocator member.2 text.2)
      members texts)
    (noNull : ∀ depth, ∀ text ∈ texts, nul ∉ text.2 depth) :
    Prints allocator (print_object allocator format members) fun depth =>
      '{' :: layout format ['\n'] ++ renderMembers format (depth + 1) texts ++
        indentation format depth ++ ['}'] := by
  intro depth length front p holds bound
  dsimp only at bound
  have assembled : front ++
      ('{' :: layout format ['\n'] ++ renderMembers format (depth + 1) texts ++
        indentation format depth ++ ['}']) =
      front ++ ('{' :: layout format ['\n']) ++ renderMembers format (depth + 1) texts ++
        (indentation format depth ++ ['}']) := by simp
  rw [assembled] at bound ⊢
  have sizes := bound
  simp only [List.length_append, List.length_cons, length_layout,
    length_indentation, List.length_nil] at sizes
  have opening : (if format then 2 else 1) = ('{' :: layout format ['\n']).length := by
    rw [List.length_cons, length_layout]
    cases format <;> rfl
  unfold print_object
  dsimp only
  rw [opening]
  refine holds_put_bind holds ?_ ?_ fun opened holds large => ?_
  · rw [List.length_cons, length_layout]
    simp only [List.length_cons, List.length_nil]
    omega
  · omega
  have inside := ((@Holds.advance depth front [] opened ('{' :: layout format ['\n'])
    (by rw [List.append_nil]; exact holds) (by omega)).setDepth (depth + 1))
  rw [holds.depth]
  refine Ends.bind (holds_print_members format each (noNull (depth + 1)) inside ?_)
    fun middle held => ?_
  · simp only [List.length_append, List.length_cons, length_layout, List.length_nil]
    omega
  have closing : indentation format depth ++ ['}', nul] =
      indentation format depth ++ ['}'] ++ [nul] := by simp
  have needed : (if format then middle.depth + 1 else 2) =
      (indentation format depth).length + 2 := by
    rw [held.depth, length_indentation]
    cases format <;> rfl
  rw [needed]
  refine Ends.bind (holds_ensure held ?_) ?_
  · simp only [List.length_append, List.length_cons, length_layout,
      length_indentation, List.length_nil]
    omega
  rintro enlarged ⟨held, large⟩
  rw [held.depth, Nat.add_sub_cancel, closing]
  refine Ends.bind (@holds_output (depth + 1) _ [] [] enlarged _ held
    (indentation format depth ++ ['}'] ++ [nul]) ?_) ?_
  · simp only [List.length_append, List.length_cons, List.length_nil] at large ⊢
    omega
  rintro closed ⟨done, same⟩
  rw [done.depth, Nat.add_sub_cancel]
  refine .ok ⟨'{' :: layout format ['\n'] ++ renderMembers format (depth + 1) texts,
    indentation format depth ++ ['}'], by simp, ?_, ?_⟩
  · have final := done.setDepth depth
    rw [List.append_assoc front] at final
    exact final
  · simp only [List.length_append, List.length_cons, List.length_nil] at large ⊢
    omega

/-! ## Values -/

/-- Every value is printed as its text. -/
theorem prints_print_value (allocator : Allocator) (format : Bool) (item : Item) :
    Prints allocator (print_value allocator format item) (item.render format) := by
  induction item using Item.induction with
  | null => exact prints_print_word _
  | bool value => exact prints_print_word _
  | number valuedouble => exact prints_print_number_to valuedouble
  | string valuestring => exact prints_print_string_ptr valuestring
  | array child inductionHypothesis =>
      have each : List.Forall₂ (Prints allocator)
          (child.map (print_value allocator format))
          (child.map (Item.render format)) := by
        rw [List.forall₂_map_left_iff, List.forall₂_map_right_iff, List.forall₂_same]
        exact inductionHypothesis
      have noNull : ∀ depth, ∀ text ∈ child.map (Item.render format),
          nul ∉ text depth := by
        intro depth text member
        rcases List.mem_map.mp member with ⟨item, -, rfl⟩
        exact null_notMem_render format item depth
      have prints := prints_print_array format each noNull
      rw [print_value, Item.fold_array]
      exact fun depth length front p => by
        rw [Item.render_array]
        exact prints depth length front p
  | object child inductionHypothesis =>
      have each : List.Forall₂
          (fun member text => member.1 = text.1 ∧ Prints allocator member.2 text.2)
          (child.map fun member => (member.1, print_value allocator format member.2))
          (child.map fun member => (member.1, member.2.render format)) := by
        rw [List.forall₂_map_left_iff, List.forall₂_map_right_iff, List.forall₂_same]
        exact fun member among => ⟨rfl, inductionHypothesis member among⟩
      have noNull : ∀ depth, ∀ text ∈
          child.map fun member => (member.1, member.2.render format),
          nul ∉ text.2 depth := by
        intro depth text among
        rcases List.mem_map.mp among with ⟨member, -, rfl⟩
        exact null_notMem_render format member.2 depth
      have prints := prints_print_object format each noNull
      rw [print_value, Item.fold_object]
      exact fun depth length front p => by
        rw [Item.render_object]
        exact prints depth length front p

/-- The result of `print` is the text with its terminator, and nothing else. -/
theorem ends_print (allocator : Allocator) (item : Item) (format : Bool) :
    Ends (print allocator item format)
      (fun printed =>
        printed = ((item.text format).characters ++ [nul]).map some ∧
          (item.text format).characters.length + 2 ≤ maximalSize)
      (Refused allocator (item.text format).characters.length) False := by
  have size : (Buffer.allocate 256 : Buffer Char).length = 256 := List.length_replicate
  have value : maximalSize = 2147483647 := rfl
  have empty : Holds 0 [] []
      { buffer := Buffer.allocate 256, offset := 0, depth := 0, requests := 1 } := by
    refine ⟨rfl, List.nil_prefix, id, ?_, rfl⟩
    dsimp only
    omega
  unfold print
  refine .ite (fun _ => ?_) fun refused =>
    .failed (Or.inr ⟨_, _, Bool.eq_false_of_not_eq_true refused⟩)
  refine prints_and_update (prints_print_value allocator format item)
    (null_notMem_render format item 0) empty le_rfl fun p holds large => ?_
  rw [List.nil_append] at holds large
  have offset : p.offset = (item.render format 0).length := holds.offset
  unfold reallocate
  by_cases granted : allocator p.requests (p.offset + 1) = true
  · rw [if_pos granted, Stop.ok_bind]
    refine .ok ⟨?_, large.trans holds.limit⟩
    have content := List.prefix_iff_eq_take.mp holds.content
    rw [List.length_map, List.length_append, List.length_singleton] at content
    rw [Buffer.resize, offset, List.take_append_of_le_length (by omega)]
    exact content.symm
  · rw [if_neg granted]
    exact .failed (Or.inr ⟨_, _, Bool.eq_false_of_not_eq_true granted⟩)

/-- A memory with a text and its terminator holds the text as a string. -/
theorem string_printed (item : Item) (format : Bool) :
    Buffer.string nul (((item.text format).characters ++ [nul]).map some) =
      (item.text format).characters := by
  rw [Buffer.string, Buffer.reduceOption_written,
    Buffer.takeWhile_terminated (item.text format).noNull]

/--
With memory for every request the text is printed if and only if its length, with
the terminator and one more byte, is an `int`.
-/
theorem print_eq_ok_iff {allocator : Allocator}
    (grants : ∀ number size, allocator number size = true) (item : Item)
    (format : Bool) :
    print allocator item format =
        .ok (((item.text format).characters ++ [nul]).map some) ↔
      (item.text format).characters.length + 2 ≤ maximalSize := by
  have ends := ends_print allocator item format
  constructor
  · intro printed
    exact (ends.of_ok printed).2
  · intro short
    cases printed : print allocator item format with
    | ok result =>
        rw [(ends.of_ok printed).1]
    | error stop =>
        rw [printed] at ends
        cases stop with
        | failed =>
            rcases ends with long | ⟨number, size, refused⟩
            · omega
            · rw [grants number size] at refused
              exact absurd refused (by simp)
        | undefined => exact absurd ends id

end FederatedEdge.Json
