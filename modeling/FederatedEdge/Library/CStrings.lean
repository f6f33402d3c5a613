import FederatedEdge.Library.Buffers
import Mathlib.Data.List.ReduceOption
import Mathlib.Data.List.TakeWhile

/-!
# C strings in arrays

Writing a run of values into an array, and the string functions which do so.
A string in an array goes up to the first terminator.  Writes behind the end of
the array are recorded as invalid accesses and lost.
-/

namespace FederatedEdge.Library.Buffer

variable {Name α : Type}

/-! ## Runs of values -/

/-- The array after a run of values has been stored from `offset` on. -/
def overwrite (buffer : Buffer α) (offset : ℕ) (values : List α) : Buffer α :=
  (buffer.take offset ++ values.map some ++
    buffer.drop (offset + values.length)).take buffer.length

/-- Store a run of values, one after the other. -/
def write (array : Name) (buffer : Buffer α) (offset : ℕ) (values : List α) :
    Traced Name (Buffer α) :=
  countLoop
    (fun index (buffer : Buffer α) =>
      match values[index]? with
      | some value => buffer.store array (offset + index) value
      | none => pure buffer)
    values.length buffer

theorem getElem?_overwrite {buffer : Buffer α} {offset : ℕ}
    (inside : offset ≤ buffer.length) (values : List α) (index : ℕ) :
    (buffer.overwrite offset values)[index]? =
      if index < buffer.length then
        if index < offset then buffer[index]?
        else if index < offset + values.length then
          values[index - offset]?.map some
        else buffer[index]?
      else none := by
  rw [overwrite, List.getElem?_take]
  by_cases within : index < buffer.length
  · rw [if_pos within, if_pos within, List.getElem?_append,
      List.getElem?_append, List.length_append, List.length_take,
      List.length_map, min_eq_left inside]
    by_cases before : index < offset
    · rw [if_pos (by omega), if_pos before, if_pos before,
        List.getElem?_take_of_lt before]
    · rw [if_neg before, if_neg before]
      by_cases among : index < offset + values.length
      · rw [if_pos among, if_pos among, List.getElem?_map]
      · rw [if_neg among, if_neg among, List.getElem?_drop,
          show offset + values.length + (index - (offset + values.length)) =
            index by omega]
  · rw [if_neg within, if_neg within]

theorem length_overwrite {buffer : Buffer α} {offset : ℕ}
    (inside : offset ≤ buffer.length) (values : List α) :
    (buffer.overwrite offset values).length = buffer.length := by
  rw [overwrite, List.length_take, List.length_append, List.length_append,
    List.length_take, List.length_drop, List.length_map]
  omega

/-- The next value of the run. -/
theorem set_overwrite {buffer : Buffer α} {offset : ℕ}
    (inside : offset ≤ buffer.length) {values : List α} {upto : ℕ} {value : α}
    (next : values[upto]? = some value) :
    (buffer.overwrite offset (values.take upto)).set (offset + upto)
        (some value) =
      buffer.overwrite offset (values.take (upto + 1)) := by
  have below : upto < values.length := (List.getElem?_eq_some_iff.mp next).1
  have sofar : (values.take upto).length = upto := by
    rw [List.length_take]
    omega
  have longer : (values.take (upto + 1)).length = upto + 1 := by
    rw [List.length_take]
    omega
  apply List.ext_getElem?
  intro index
  rw [List.getElem?_set, length_overwrite inside, getElem?_overwrite inside,
    getElem?_overwrite inside, sofar, longer]
  by_cases within : index < buffer.length
  · rw [if_pos within, if_pos within]
    by_cases here : offset + upto = index
    · subst here
      rw [if_pos rfl, if_pos within, if_neg (by omega), if_pos (by omega),
        Nat.add_sub_cancel_left,
        List.getElem?_take_of_lt (Nat.lt_succ_self upto), next]
      rfl
    · rw [if_neg here]
      by_cases before : index < offset
      · rw [if_pos before, if_pos before]
      · rw [if_neg before, if_neg before]
        by_cases among : index < offset + upto
        · rw [if_pos among, if_pos (by omega),
            List.getElem?_take_of_lt (by omega),
            List.getElem?_take_of_lt (by omega)]
        · rw [if_neg among, if_neg (by omega)]
  · rw [if_neg within, if_neg within]
    split
    · exact if_neg (by omega)
    · rfl

/-- A run which begins inside the array is valid when it ends inside. -/
theorem yields_write (array : Name) {buffer : Buffer α} {offset : ℕ}
    (inside : offset ≤ buffer.length) (values : List α) :
    Yields (buffer.write array offset values)
      (offset + values.length ≤ buffer.length)
      (· = buffer.overwrite offset values) := by
  have yields :
      Yields (buffer.write array offset values)
        (∀ index < values.length, offset + index < buffer.length)
        (fun written =>
          written = buffer.overwrite offset
            (values.take values.length)) := by
    refine Yields.countLoop
      (fun upto written =>
        written = buffer.overwrite offset (values.take upto))
      (fun index => offset + index < buffer.length) ?_ ?_
    · apply List.ext_getElem?
      intro index
      rw [getElem?_overwrite inside, List.take_zero, List.length_nil,
        Nat.add_zero]
      by_cases within : index < buffer.length
      · rw [if_pos within]
        split
        · rfl
        · rfl
      · rw [if_neg within, List.getElem?_eq_none (by omega)]
    · rintro index below written rfl
      have next : values[index]? = some values[index] :=
        List.getElem?_eq_getElem below
      rw [next]
      refine (yields_store array _ (offset + index) values[index]).mono ?_ ?_
      · rw [length_overwrite inside]
      · rintro _ rfl
        exact set_overwrite inside next
  refine yields.mono ?_ ?_
  · constructor
    · intro each
      rcases Nat.eq_zero_or_pos values.length with empty | positive
      · omega
      · have last := each (values.length - 1) (by omega)
        omega
    · intro fits index below
      omega
  · rintro _ rfl
    rw [List.take_length]

/-! ## Strings -/

section Strings

variable [DecidableEq α] (terminator : α)

/-- The string in an array: what is written before the first terminator. -/
def string (buffer : Buffer α) : List α :=
  buffer.reduceOption.takeWhile (· ≠ terminator)

/-- Copy a string with its terminator. -/
def strcpy (array : Name) (buffer : Buffer α) (text : List α) :
    Traced Name (Buffer α) :=
  buffer.write array 0 (text ++ [terminator])

/-- Copy at most `count` characters and fill up with terminators. -/
def strncpy (array : Name) (buffer : Buffer α) (text : List α) (count : ℕ) :
    Traced Name (Buffer α) :=
  buffer.write array 0
    ((text ++ List.replicate count terminator).take count)

variable {terminator}

theorem takeWhile_clean {text : List α} (clean : terminator ∉ text) :
    text.takeWhile (· ≠ terminator) = text := by
  rw [List.takeWhile_eq_self_iff]
  intro symbol member
  rw [decide_eq_true_iff]
  rintro rfl
  exact clean member

theorem takeWhile_terminated {text : List α} (clean : terminator ∉ text)
    (rest : List α) :
    (text ++ terminator :: rest).takeWhile (· ≠ terminator) = text := by
  rw [List.takeWhile_append_of_pos, List.takeWhile_cons_of_neg]
  · exact List.append_nil text
  · simp
  · intro symbol member
    rw [decide_eq_true_iff]
    rintro rfl
    exact clean member

omit [DecidableEq α] in
theorem reduceOption_written (values : List α) :
    (values.map some).reduceOption = values := by
  simp [List.reduceOption]

/-- A string without its terminator in an array which it may fill. -/
theorem string_overwrite {buffer : Buffer α} {text : List α}
    (clean : terminator ∉ text) (room : text.length ≤ buffer.length) :
    string terminator (buffer.overwrite 0 (text ++ [terminator])) = text := by
  rcases Nat.eq_or_lt_of_le room with full | fits
  · have stored : buffer.overwrite 0 (text ++ [terminator]) = text.map some := by
      rw [overwrite, List.take_zero, List.nil_append, List.map_append,
        List.append_assoc, List.take_append_of_le_length, List.take_of_length_le]
      · rw [List.length_map, full]
      · rw [List.length_map, full]
    rw [stored, string, reduceOption_written]
    exact takeWhile_clean clean
  · have stored :
        buffer.overwrite 0 (text ++ [terminator]) =
          text.map some ++ some terminator ::
            buffer.drop (text.length + 1) := by
      rw [overwrite, List.take_zero, List.nil_append, List.map_append,
        List.take_of_length_le]
      · simp
      · simp only [List.length_append, List.length_map, List.length_drop,
          List.length_singleton]
        omega
    rw [stored, string, List.reduceOption_append,
      List.reduceOption_cons_of_some, reduceOption_written]
    exact takeWhile_terminated clean _

/-- What `strncpy` and a terminator behind it leave in an array. -/
theorem string_strncpy {buffer : Buffer α} {text : List α} {count : ℕ}
    (clean : terminator ∉ text) (size : buffer.length = count + 1) :
    string terminator
        ((buffer.overwrite 0
          ((text ++ List.replicate count terminator).take count)).set count
            (some terminator)) =
      text.take count := by
  have written :
      (text ++ List.replicate count terminator).take count =
        text.take count ++ List.replicate (count - text.length) terminator := by
    rw [List.take_append, List.take_replicate, min_eq_left (by omega)]
  have length :
      ((text ++ List.replicate count terminator).take count).length =
        count := by
    rw [List.length_take, List.length_append, List.length_replicate]
    omega
  generalize (text ++ List.replicate count terminator).take count = values
    at written length
  have stored :
      (buffer.overwrite 0 values).set count (some terminator) =
        (values ++ [terminator]).map some := by
    rw [overwrite, List.take_zero, List.nil_append, Nat.zero_add, length,
      List.take_of_length_le, List.set_append_right, List.length_map, length,
      Nat.sub_self, List.map_append]
    · have one : (buffer.drop count).length = 1 := by
        rw [List.length_drop]
        omega
      rcases List.length_eq_one_iff.mp one with ⟨last, single⟩
      rw [single]
      rfl
    · rw [List.length_map, length]
    · rw [List.length_append, List.length_map, List.length_drop]
      omega
  have clean : terminator ∉ text.take count :=
    fun member => clean (List.mem_of_mem_take member)
  rw [stored, string, reduceOption_written, written, List.append_assoc,
    ← List.replicate_succ', List.replicate_succ]
  exact takeWhile_terminated clean _

/-- A copied string fits when there is room for its terminator. -/
theorem yields_strcpy (array : Name) (buffer : Buffer α) {text : List α}
    (clean : terminator ∉ text) (room : text.length ≤ buffer.length) :
    Yields (buffer.strcpy terminator array text)
      (text.length < buffer.length)
      (fun copied =>
        copied.length = buffer.length ∧ string terminator copied = text) := by
  refine (yields_write array (Nat.zero_le _) (text ++ [terminator])).mono
    ?_ ?_
  · rw [List.length_append, List.length_singleton, Nat.zero_add]
    exact Iff.rfl
  · rintro _ rfl
    exact ⟨length_overwrite (Nat.zero_le _) _, string_overwrite clean room⟩

end Strings

end FederatedEdge.Library.Buffer
