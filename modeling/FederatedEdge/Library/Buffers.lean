import FederatedEdge.Library.LinkedList
import Mathlib.Order.Basic

/-!
# Allocated arrays and the accesses made to them

A buffer is the array an allocation returned: it has the allocated number of
elements, and an element which has not been written is `none`.  Programs which
use buffers record every access they make.  A read which finds no written
element goes on with an unknown value, so that a program can be followed past
its invalid accesses.

A program `Yields` a predicate on its results together with the condition under
which all of its accesses are valid, or sound in another sense.  The rules of
this relation follow the sequence, the counting loop and the loop which also
walks along a list.
-/

namespace FederatedEdge.Library

/-- One access to an element of an allocated array. -/
structure Access (Name : Type) where
  array : Name
  index : ℕ
  size : ℕ
  reads : Bool
  written : Bool
deriving DecidableEq, Repr

/-- Inside the allocation, and not a read of what was never written. -/
def Access.Valid {Name : Type} (access : Access Name) : Prop :=
  access.index < access.size ∧ (access.reads → access.written)

instance {Name : Type} (access : Access Name) : Decidable access.Valid := by
  unfold Access.Valid
  infer_instance

/-- Inside the allocation, whatever has been written there. -/
def Access.Inside {Name : Type} (access : Access Name) : Prop :=
  access.index < access.size

instance {Name : Type} (access : Access Name) : Decidable access.Inside := by
  unfold Access.Inside
  infer_instance

/-- Computations which record the accesses they make. -/
abbrev Traced (Name : Type) := StateT (List (Access Name)) Exec

/-- An allocated array. -/
abbrev Buffer (α : Type) := List (Option α)

/-- Rows which are allocated one by one. -/
abbrev Table (α : Type) := Buffer (Buffer α)

namespace Buffer

variable {Name α : Type}

/-- A fresh allocation. -/
def allocate (size : ℕ) : Buffer α :=
  List.replicate size none

/-- A reallocation, which keeps what fits. -/
def resize (buffer : Buffer α) (size : ℕ) : Buffer α :=
  (buffer ++ allocate (size - buffer.length)).take size

theorem length_resize (buffer : Buffer α) (size : ℕ) :
    (buffer.resize size).length = size := by
  rw [resize, List.length_take, List.length_append, allocate,
    List.length_replicate]
  omega

/-- The element, or a stray value where no written element is. -/
def load (array : Name) (stray : ℕ → α) (buffer : Buffer α) (index : ℕ) :
    Traced Name α := fun log =>
  .ok (buffer[index]?.join.getD (stray log.length),
    log ++ [⟨array, index, buffer.length, true, buffer[index]?.join.isSome⟩])

/-- The buffer after a write; a write outside of it is lost. -/
def store (array : Name) (buffer : Buffer α) (index : ℕ) (value : α) :
    Traced Name (Buffer α) := fun log =>
  .ok (buffer.set index (some value),
    log ++ [⟨array, index, buffer.length, false, false⟩])

end Buffer

/-- Replacing by index with the values of another list. -/
theorem mapIdx_getD_eq_zipWith {α β γ : Type} (f : α → β → γ) (default : β)
    {values : List α} {others : List β}
    (sameLength : values.length = others.length) :
    values.mapIdx (fun index value => f value (others[index]?.getD default)) =
      List.zipWith f values others := by
  apply List.ext_getElem
  · simp [sameLength]
  · intro index below _
    rw [List.length_mapIdx, sameLength] at below
    simp [List.getElem?_eq_getElem below]

/-! ## Loops -/

section Loops

variable {Name α σ : Type}

/-- Turns `index` to `index + count - 1` of a counting loop. -/
def countFrom (body : ℕ → σ → Traced Name σ) :
    ℕ → ℕ → σ → Traced Name σ
  | 0, _, state => pure state
  | count + 1, index, state => do
      let state ← body index state
      countFrom body count (index + 1) state

/-- A loop of `count` turns. -/
def countLoop (body : ℕ → σ → Traced Name σ) (count : ℕ) (state : σ) :
    Traced Name σ :=
  countFrom body count 0 state

/-- A counting loop whose every turn also moves to the next element. -/
def walkFrom (body : ℕ → α → σ → Traced Name (α × σ)) :
    ℕ → ℕ → List α → σ → Traced Name (List α × σ)
  | 0, _, values, state => pure (values, state)
  | _ + 1, _, [], _ => throw .nullPointer
  | count + 1, index, value :: rest, state => do
      let (value, state) ← body index value state
      let (rest, state) ← walkFrom body count (index + 1) rest state
      pure (value :: rest, state)

/-- A walk of `count` turns from the first element on. -/
def walkLoop (body : ℕ → α → σ → Traced Name (α × σ)) (count : ℕ)
    (values : List α) (state : σ) : Traced Name (List α × σ) :=
  walkFrom body count 0 values state

end Loops

/-! ## Operations on whole buffers -/

namespace Buffer

variable {Name α : Type}

/-- Copying the first `count` elements. -/
def copy (target source : Name) (stray : ℕ → α) (destination buffer : Buffer α)
    (count : ℕ) : Traced Name (Buffer α) :=
  countLoop
    (fun index destination => do
      let value ← buffer.load source stray index
      destination.store target index value)
    count destination

end Buffer

namespace Table

variable {Name α : Type}

/-- A table of `lines` rows of `columns` elements. -/
def allocate (array : Name) (lines columns : ℕ) : Traced Name (Table α) :=
  countLoop
    (fun line table =>
      Buffer.store array table line (Buffer.allocate columns))
    lines (Buffer.allocate lines)

/-- The row pointer; a stray one leads to no elements. -/
def row (array : Name) (table : Table α) (line : ℕ) :
    Traced Name (Buffer α) :=
  Buffer.load array (fun _ => []) table line

def load (array : Name) (stray : ℕ → α) (table : Table α)
    (line column : ℕ) : Traced Name α := do
  let elements ← table.row array line
  elements.load array stray column

/-- A write through the row pointer. -/
def store (array : Name) (table : Table α) (line column : ℕ) (value : α) :
    Traced Name (Table α) := do
  let elements ← table.row array line
  let elements ← elements.store array column value
  pure (table.set line (some elements))

/-- Following the row pointers of the first `lines` rows. -/
def free (array : Name) (table : Table α) (lines : ℕ) : Traced Name Unit :=
  countLoop
    (fun line _ => do
      let _ ← table.row array line
      pure ())
    lines ()

end Table

/-! ## What a program yields -/

/--
The program finishes with a result which is `good`, and all of its accesses are
`sound` exactly when `valid` holds.
-/
def Yields {Name α : Type} (program : Traced Name α) (valid : Prop)
    (good : α → Prop) (sound : Access Name → Prop := Access.Valid) : Prop :=
  ∀ log, ∃ value accesses,
    program log = .ok (value, log ++ accesses) ∧
      ((∀ access ∈ accesses, sound access) ↔ valid) ∧ good value

namespace Yields

variable {Name α β σ : Type} {sound : Access Name → Prop}

theorem pure {value : α} {good : α → Prop} (holds : good value) :
    Yields (Pure.pure value : Traced Name α) True good sound := by
  intro log
  refine ⟨value, [], ?_, by simp, holds⟩
  rw [List.append_nil]
  rfl

theorem lift {computation : Exec α} {value : α}
    (finishes : computation = .ok value) :
    Yields (liftM computation : Traced Name α) True (· = value) sound := by
  intro log
  refine ⟨value, [], ?_, by simp, rfl⟩
  rw [List.append_nil, finishes]
  rfl

theorem bind {program : Traced Name α} {next : α → Traced Name β}
    {valid nextValid : Prop} {middle : α → Prop} {good : β → Prop}
    (first : Yields program valid middle sound)
    (second : ∀ value, middle value → Yields (next value) nextValid good sound) :
    Yields (program >>= next) (valid ∧ nextValid) good sound := by
  intro log
  rcases first log with ⟨value, early, runs, earlyValid, holds⟩
  rcases second value holds (log ++ early)
    with ⟨result, late, continues, lateValid, final⟩
  refine ⟨result, early ++ late, ?_, ?_, final⟩
  · rw [← List.append_assoc, ← continues]
    change (program log >>= fun outcome => next outcome.1 outcome.2) = _
    rw [runs]
    rfl
  · rw [List.forall_mem_append, earlyValid, lateValid]

/-- Another condition for the same validity, and less about the result. -/
theorem mono {program : Traced Name α} {valid other : Prop}
    {good better : α → Prop} (yields : Yields program valid better sound)
    (same : valid ↔ other) (implies : ∀ value, better value → good value) :
    Yields program other good sound := by
  intro log
  rcases yields log with ⟨value, accesses, runs, holds, fine⟩
  exact ⟨value, accesses, runs, holds.trans same, implies value fine⟩

theorem congr_valid {program : Traced Name α} {valid other : Prop}
    {good : α → Prop} (yields : Yields program valid good sound)
    (same : valid ↔ other) : Yields program other good sound :=
  yields.mono same fun _ holds => holds

/-- A sequence whose first part makes valid accesses only. -/
theorem seq {program : Traced Name α} {next : α → Traced Name β}
    {valid : Prop} {middle : α → Prop} {good : β → Prop}
    (first : Yields program True middle sound)
    (second : ∀ value, middle value → Yields (next value) valid good sound) :
    Yields (program >>= next) valid good sound :=
  (first.bind second).congr_valid (by simp)

/-- A sequence whose second part makes valid accesses only. -/
theorem follow {program : Traced Name α} {next : α → Traced Name β}
    {valid : Prop} {middle : α → Prop} {good : β → Prop}
    (first : Yields program valid middle sound)
    (second : ∀ value, middle value → Yields (next value) True good sound) :
    Yields (program >>= next) valid good sound :=
  (first.bind second).congr_valid (by simp)

/-- A sequence whose first part has one possible result. -/
theorem seq_eq {program : Traced Name α} {next : α → Traced Name β}
    {value : α} {valid : Prop} {good : β → Prop}
    (first : Yields program True (· = value) sound)
    (second : Yields (next value) valid good sound) :
    Yields (program >>= next) valid good sound :=
  first.seq fun _ same => same ▸ second

/-- The turns of a counting loop keep an invariant. -/
theorem countFrom {body : ℕ → σ → Traced Name σ} {invariant : ℕ → σ → Prop}
    {valid : ℕ → Prop} {count index : ℕ} {state : σ}
    (turn : ∀ position state, index ≤ position → position < index + count →
      invariant position state →
      Yields (body position state) (valid position) (invariant (position + 1)) sound)
    (start : invariant index state) :
    Yields (Library.countFrom body count index state)
      (∀ position, index ≤ position → position < index + count →
        valid position)
      (invariant (index + count)) sound := by
  induction count generalizing index state with
  | zero =>
      exact (Yields.pure start).congr_valid (by simp; omega)
  | succ count inductionHypothesis =>
      have first := turn index state (by omega) (by omega) start
      refine (first.bind fun state holds =>
        inductionHypothesis
          (fun position state after below =>
            turn position state (by omega) (by omega))
          holds).mono ?_ ?_
      · constructor
        · rintro ⟨atFirst, afterwards⟩ position after below
          rcases Nat.eq_or_lt_of_le after with rfl | later
          · exact atFirst
          · exact afterwards position later (by omega)
        · intro always
          exact ⟨always index (by omega) (by omega), fun position after below =>
            always position (by omega) (by omega)⟩
      · intro state holds
        rw [show index + (count + 1) = index + 1 + count by omega]
        exact holds

theorem countLoop {body : ℕ → σ → Traced Name σ}
    (invariant : ℕ → σ → Prop) (valid : ℕ → Prop) {count : ℕ} {state : σ}
    (start : invariant 0 state)
    (turn : ∀ index < count, ∀ state, invariant index state →
      Yields (body index state) (valid index) (invariant (index + 1)) sound) :
    Yields (Library.countLoop body count state) (∀ index < count, valid index)
      (invariant count) sound := by
  have yields :
      Yields (Library.countFrom body count 0 state) _ (invariant (0 + count)) sound :=
    countFrom (fun position state _ below => turn position (by omega) state)
      start
  refine yields.mono ?_ ?_
  · simp
  · intro state holds
    simpa using holds

/--
A walk along as many elements as it takes turns, with an invariant of the
elements which have been replaced so far.
-/
theorem walkFrom_replaced {body : ℕ → α → σ → Traced Name (α × σ)}
    {invariant : List α → σ → Prop} {valid : ℕ → Prop} {replaced : List α}
    {values : List α} {state : σ}
    (turn : ∀ done value state,
      values[done.length - replaced.length]? = some value →
      replaced.length ≤ done.length → invariant done state →
      Yields (body done.length value state) (valid done.length) (fun result =>
        invariant (done ++ [result.1]) result.2) sound)
    (start : invariant replaced state) :
    Yields (Library.walkFrom body values.length replaced.length values state)
      (∀ position, replaced.length ≤ position →
        position < replaced.length + values.length → valid position)
      (fun result =>
        result.1.length = values.length ∧
          invariant (replaced ++ result.1) result.2) sound := by
  induction values generalizing replaced state with
  | nil =>
      have kept : invariant (replaced ++ []) state := by
        rw [List.append_nil]
        exact start
      refine (Yields.pure ⟨rfl, kept⟩).congr_valid ?_
      simp
      omega
  | cons value rest inductionHypothesis =>
      have first := turn replaced value state (by simp) (le_refl _) start
      have walks : ∀ head : α × σ, invariant (replaced ++ [head.1]) head.2 →
          Yields (do
              let (tail, state) ←
                Library.walkFrom body rest.length (replaced.length + 1) rest
                  head.2
              Pure.pure (head.1 :: tail, state))
            ((∀ position, replaced.length + 1 ≤ position →
                position < replaced.length + 1 + rest.length →
                valid position) ∧ True)
            (fun result =>
              result.1.length = rest.length + 1 ∧
                invariant (replaced ++ result.1) result.2) sound := by
        intro head holds
        have later :
            Yields
              (Library.walkFrom body rest.length
                (replaced ++ [head.1]).length rest head.2)
              (∀ position, (replaced ++ [head.1]).length ≤ position →
                position < (replaced ++ [head.1]).length + rest.length →
                valid position)
              (fun result =>
                result.1.length = rest.length ∧
                  invariant (replaced ++ [head.1] ++ result.1) result.2) sound :=
          inductionHypothesis
            (fun done value state found after =>
              turn done value state
                (by
                  rw [List.length_append, List.length_singleton] at found after
                  rw [show done.length - replaced.length =
                    (done.length - (replaced.length + 1)) + 1 by omega]
                  exact found)
                (by
                  rw [List.length_append, List.length_singleton] at after
                  omega))
            holds
        rw [List.length_append, List.length_singleton] at later
        refine later.bind fun tail remains => Yields.pure ⟨?_, ?_⟩
        · rw [List.length_cons, remains.1]
        · rw [List.append_cons]
          exact remains.2
      refine (first.bind walks).congr_valid ?_
      rw [List.length_cons]
      constructor
      · rintro ⟨atFirst, afterwards, -⟩ position after below
        rcases Nat.eq_or_lt_of_le after with rfl | later
        · exact atFirst
        · exact afterwards position later (by omega)
      · intro always
        exact ⟨always replaced.length (by omega) (by omega),
          fun position after below => always position (by omega) (by omega),
          trivial⟩

theorem walkLoop_replaced {body : ℕ → α → σ → Traced Name (α × σ)}
    (invariant : List α → σ → Prop) (valid : ℕ → Prop) {count : ℕ}
    {values : List α} {state : σ} (complete : count = values.length)
    (start : invariant [] state)
    (turn : ∀ done value state, values[done.length]? = some value →
      invariant done state →
      Yields (body done.length value state) (valid done.length) (fun result =>
        invariant (done ++ [result.1]) result.2) sound) :
    Yields (Library.walkLoop body count values state)
      (∀ index < count, valid index)
      (fun result =>
        result.1.length = values.length ∧ invariant result.1 result.2)
      sound := by
  subst complete
  have yields :
      Yields
        (Library.walkFrom body values.length ([] : List α).length values state)
        _ _ sound :=
    walkFrom_replaced
      (fun done value state found _ => turn done value state found) start
  refine yields.mono ?_ ?_
  · simp
  · intro result holds
    simpa using holds

/--
A walk along as many elements as it takes turns replaces each element by the
result of its turn.
-/
theorem walkLoop {body : ℕ → α → σ → Traced Name (α × σ)}
    (invariant : ℕ → σ → Prop) (valid : ℕ → Prop) (replace : ℕ → α → α)
    {count : ℕ} {values : List α} {state : σ}
    (complete : count = values.length) (start : invariant 0 state)
    (turn : ∀ index value state, values[index]? = some value →
      invariant index state →
      Yields (body index value state) (valid index) (fun result =>
        result.1 = replace index value ∧ invariant (index + 1) result.2) sound) :
    Yields (Library.walkLoop body count values state)
      (∀ index < count, valid index)
      (fun result =>
        result.1 = values.mapIdx replace ∧ invariant count result.2) sound := by
  refine (walkLoop_replaced
    (fun done state =>
      done = (values.take done.length).mapIdx replace ∧
        invariant done.length state)
    valid complete ⟨rfl, start⟩ ?_).mono Iff.rfl ?_
  · rintro done value state found ⟨sofar, holds⟩
    refine (turn done.length value state found holds).mono Iff.rfl ?_
    rintro ⟨replaced, after⟩ ⟨same, next⟩
    have length := congrArg List.length sofar
    rw [List.length_mapIdx] at length
    rw [List.length_append, List.length_singleton]
    refine ⟨?_, next⟩
    rw [List.take_add_one, found, Option.toList_some, List.mapIdx_append,
      ← sofar, ← length, List.mapIdx_singleton, Nat.zero_add]
    exact congrArg (done ++ [·]) same
  · rintro ⟨walked, final⟩ ⟨length, same, holds⟩
    simp only at length same holds
    rw [length, List.take_length] at same
    rw [length, ← complete] at holds
    exact ⟨same, holds⟩

end Yields

/-! ## Single accesses -/

namespace Buffer

variable {Name α : Type} (array : Name) (stray : ℕ → α)

/--
A check of accesses: a write is to be inside of its array, and a read is to be
at a place which is `readable`, as every written element is.
-/
structure Checks (sound : Access Name → Prop)
    (readable : Buffer α → ℕ → Prop) : Prop where
  write : ∀ array index size,
    sound ⟨array, index, size, false, false⟩ ↔ index < size
  read : ∀ array (buffer : Buffer α) index,
    sound ⟨array, index, buffer.length, true, buffer[index]?.join.isSome⟩ ↔
      readable buffer index
  written : ∀ buffer index value,
    buffer[index]? = some (some value) → readable buffer index

/-- Valid accesses read written elements. -/
theorem checks_valid :
    Checks (Access.Valid : Access Name → Prop) fun (buffer : Buffer α) index =>
      ∃ value, buffer[index]? = some (some value) := by
  refine ⟨fun array index size => ?_, fun array buffer index => ?_,
    fun buffer index value found => ⟨value, found⟩⟩
  · simp [Access.Valid]
  · rw [Access.Valid]
    constructor
    · rintro ⟨-, written⟩
      rcases Option.isSome_iff_exists.mp (written rfl) with ⟨value, found⟩
      exact ⟨value, Option.join_eq_some_iff.mp found⟩
    · rintro ⟨value, found⟩
      refine ⟨(List.getElem?_eq_some_iff.mp found).1, fun _ => ?_⟩
      rw [found]
      rfl

/-- Accesses inside of the arrays read any of their elements. -/
theorem checks_inside :
    Checks (Access.Inside : Access Name → Prop) fun (buffer : Buffer α) index =>
      index < buffer.length :=
  ⟨fun _ _ _ => Iff.rfl, fun _ _ _ => Iff.rfl,
    fun _ _ _ found => (List.getElem?_eq_some_iff.mp found).1⟩

namespace Checks

variable {sound : Access Name → Prop} {readable : Buffer α → ℕ → Prop}
  (checks : Checks sound readable)

include checks

/-- A read returns what it finds. -/
theorem yields_load (buffer : Buffer α) (index : ℕ) :
    Yields (buffer.load array stray index) (readable buffer index)
      (fun value =>
        ∀ expected, buffer[index]? = some (some expected) →
          value = expected)
      sound := by
  intro log
  refine ⟨_, _, rfl, ?_, ?_⟩
  · rw [List.forall_mem_singleton]
    exact checks.read array buffer index
  · intro expected found
    rw [found]
    rfl

theorem yields_load_value {values : List α} {index : ℕ} {value : α}
    (found : values[index]? = some value) :
    Yields (Buffer.load array stray (values.map some) index) True
      (· = value) sound := by
  have held : (values.map some)[index]? = some (some value) := by
    rw [List.getElem?_map, found]
    rfl
  exact (checks.yields_load array stray (values.map some) index).mono
    (iff_true_intro (checks.written _ _ _ held)) fun _ holds => holds value held

/-- A write is sound inside the allocation. -/
theorem yields_store (buffer : Buffer α) (index : ℕ) (value : α) :
    Yields (buffer.store array index value) (index < buffer.length)
      (· = buffer.set index (some value)) sound := by
  intro log
  refine ⟨_, _, rfl, ?_, rfl⟩
  rw [List.forall_mem_singleton]
  exact checks.write array index buffer.length

end Checks

/-- A read is valid when it finds a written element, and then returns it. -/
theorem yields_load (buffer : Buffer α) (index : ℕ) :
    Yields (buffer.load array stray index)
      (∃ value, buffer[index]? = some (some value))
      (fun value =>
        ∀ expected, buffer[index]? = some (some expected) →
          value = expected) :=
  checks_valid.yields_load array stray buffer index

theorem yields_load_written {buffer : Buffer α} {index : ℕ} {value : α}
    (found : buffer[index]? = some (some value)) :
    Yields (buffer.load array stray index) True (· = value) :=
  (yields_load array stray buffer index).mono
    (iff_true_intro ⟨value, found⟩) (fun _ holds => holds value found)

/-- A read of an array which holds `values` is valid at their indices. -/
theorem yields_load_values (values : List α) (index : ℕ) :
    Yields (Buffer.load array stray (values.map some) index)
      (index < values.length)
      (fun value =>
        ∀ expected, values[index]? = some expected → value = expected) := by
  refine (yields_load array stray (values.map some) index).mono ?_ ?_
  · rw [List.getElem?_map]
    constructor
    · rintro ⟨value, found⟩
      rcases Option.map_eq_some_iff.mp found with ⟨_, present, -⟩
      exact (List.getElem?_eq_some_iff.mp present).1
    · intro inside
      exact ⟨values[index], by rw [List.getElem?_eq_getElem inside]; rfl⟩
  · intro value loaded expected found
    apply loaded
    rw [List.getElem?_map, found]
    rfl

theorem yields_load_value {values : List α} {index : ℕ} {value : α}
    (found : values[index]? = some value) :
    Yields (Buffer.load array stray (values.map some) index) True
      (· = value) :=
  checks_valid.yields_load_value array stray found

/-- A write is valid inside the allocation. -/
theorem yields_store (buffer : Buffer α) (index : ℕ) (value : α) :
    Yields (buffer.store array index value) (index < buffer.length)
      (· = buffer.set index (some value)) :=
  checks_valid.yields_store array buffer index value

/-! ## Filling a buffer from the front -/

/-- The first `upto` elements are written, each with a `good` value. -/
def FilledTo (buffer : Buffer α) (size upto : ℕ) (good : ℕ → α → Prop) :
    Prop :=
  buffer.length = size ∧
    ∀ index < upto, ∃ value,
      buffer[index]? = some (some value) ∧ good index value

variable {buffer : Buffer α} {size upto : ℕ} {good : ℕ → α → Prop}

theorem filledTo_zero (sameSize : buffer.length = size) :
    buffer.FilledTo size 0 good :=
  ⟨sameSize, fun index below => absurd below (Nat.not_lt_zero index)⟩

theorem FilledTo.store (filled : buffer.FilledTo size upto good) {value : α}
    (inside : upto < size) (holds : good upto value) :
    (Buffer.FilledTo (buffer.set upto (some value))) size (upto + 1) good := by
  constructor
  · rw [List.length_set]
    exact filled.1
  · intro index below
    rcases Nat.lt_succ_iff_lt_or_eq.mp below with earlier | rfl
    · rcases filled.2 index earlier with ⟨early, found, fine⟩
      refine ⟨early, ?_, fine⟩
      rw [List.getElem?_set_ne (by omega)]
      exact found
    · refine ⟨value, ?_, holds⟩
      rw [List.getElem?_set_self (by rw [filled.1]; exact inside)]

/-- A buffer filled to its end holds a list of values. -/
theorem FilledTo.values (filled : buffer.FilledTo size size good) :
    ∃ values : List α, buffer = values.map some ∧ values.length = size ∧
      ∀ index value, values[index]? = some value → good index value := by
  rcases filled with ⟨rfl, written⟩
  have complete : ∀ element ∈ buffer, element.isSome := by
    intro element member
    rcases List.getElem?_of_mem member with ⟨index, found⟩
    rcases written index (List.getElem?_eq_some_iff.mp found).1
      with ⟨value, present, -⟩
    rw [found, Option.some.injEq] at present
    rw [present]
    rfl
  have restored : (buffer.filterMap id).map some = buffer := by
    rw [List.map_filterMap]
    exact (List.filterMap_congr fun element member => by
      rcases Option.isSome_iff_exists.mp (complete element member)
        with ⟨value, rfl⟩
      rfl).trans List.filterMap_some
  refine ⟨buffer.filterMap id, restored.symm, ?_, ?_⟩
  · rw [← List.length_map some, restored]
  · intro index value found
    have held : buffer[index]? = some (some value) := by
      rw [← restored, List.getElem?_map, found]
      rfl
    rcases written index (List.getElem?_eq_some_iff.mp held).1
      with ⟨same, present, fine⟩
    rw [held, Option.some.injEq, Option.some.injEq] at present
    rw [present]
    exact fine

/-- A buffer filled to its end with given values holds them. -/
theorem FilledTo.eq_map {values : List α}
    (filled : buffer.FilledTo values.length values.length fun index value =>
      values[index]? = some value) :
    buffer = values.map some := by
  rcases filled.values with ⟨held, rfl, sameLength, same⟩
  congr 1
  apply List.ext_getElem sameLength
  intro index below inside
  have found := same index _ (List.getElem?_eq_getElem below)
  rw [List.getElem?_eq_getElem inside, Option.some.injEq] at found
  exact found.symm

/-- Copying reads as many elements as were asked for. -/
theorem yields_copy (target source : Name) {destination : Buffer α}
    {count : ℕ} (values : List α) (fits : destination.length = count) :
    Yields (copy target source stray destination (values.map some) count)
      (count ≤ values.length)
      (fun copied => ∃ copies : List α,
        copied = copies.map some ∧ copies.length = count ∧
          (count ≤ values.length → copies = values.take count)) := by
  have yields :
      Yields (copy target source stray destination (values.map some) count)
        (∀ index < count, index < values.length)
        (fun copied => copied.FilledTo count count fun index value =>
          ∀ expected, values[index]? = some expected →
            value = expected) := by
    refine Yields.countLoop
      (fun upto (copied : Buffer α) =>
        copied.FilledTo count upto fun index value =>
          ∀ expected, values[index]? = some expected → value = expected)
      (fun index => index < values.length) (filledTo_zero fits) ?_
    intro index below copied filled
    refine (yields_load_values source stray values index).follow
      fun value loaded => ?_
    refine (yields_store target copied index value).mono
      (iff_true_intro (by rw [filled.1]; exact below)) ?_
    rintro _ rfl
    exact filled.store below loaded
  refine yields.mono forall_lt_iff_le ?_
  · intro copied filled
    rcases filled.values with ⟨copies, rfl, sameLength, fine⟩
    refine ⟨copies, rfl, sameLength, fun enough => ?_⟩
    apply List.ext_getElem
    · rw [List.length_take, sameLength]
      omega
    · intro index below inside
      rw [List.getElem_take]
      exact fine index _ (List.getElem?_eq_getElem below) _
        (List.getElem?_eq_getElem _)

end Buffer

/-! ## Tables -/

namespace Table

variable {Name α : Type} (array : Name)

/-- `lines` allocated rows of `columns` elements, holding `entry`. -/
def Holds (table : Table α) (lines columns : ℕ) (entry : ℕ → ℕ → Option α) :
    Prop :=
  table.length = lines ∧
    ∀ line < lines, ∃ elements : Buffer α,
      table[line]? = some (some elements) ∧ elements.length = columns ∧
        ∀ column < columns, elements[column]? = some (entry line column)

variable {table : Table α} {lines columns : ℕ} {entry : ℕ → ℕ → Option α}

/-- Tables with the same entries in range are the same to every reader. -/
theorem Holds.congr {other : ℕ → ℕ → Option α}
    (holds : table.Holds lines columns entry)
    (same : ∀ line < lines, ∀ column < columns,
      entry line column = other line column) :
    table.Holds lines columns other := by
  refine ⟨holds.1, fun line below => ?_⟩
  rcases holds.2 line below with ⟨elements, found, size, held⟩
  refine ⟨elements, found, size, fun column inside => ?_⟩
  rw [held column inside, same line below column inside]

theorem yields_allocate (lines columns : ℕ) :
    Yields (Table.allocate array lines columns) True
      (fun table : Table α => table.Holds lines columns fun _ _ => none) := by
  refine (Yields.countLoop
    (fun upto (table : Table α) => Buffer.FilledTo table lines upto
      fun _ elements => elements = Buffer.allocate columns)
    (fun _ => True) ?_ ?_).mono (by simp) ?_
  · exact Buffer.filledTo_zero List.length_replicate
  · intro line below table filled
    refine (Buffer.yields_store array table line _).mono
      (iff_true_intro (by rw [filled.1]; exact below)) ?_
    rintro _ rfl
    exact filled.store below rfl
  · intro table filled
    refine ⟨filled.1, fun line below => ?_⟩
    rcases filled.2 line below with ⟨elements, found, rfl⟩
    refine ⟨_, found, List.length_replicate, fun column inside => ?_⟩
    rw [Buffer.allocate, List.getElem?_replicate_of_lt inside]

theorem yields_load (stray : ℕ → α) (holds : table.Holds lines columns entry)
    {line column : ℕ} (below : line < lines) (inside : column < columns)
    {value : α} (held : entry line column = some value) :
    Yields (table.load array stray line column) True (· = value) := by
  rcases holds.2 line below with ⟨elements, found, size, present⟩
  refine (Buffer.yields_load_written array _ found).seq_eq ?_
  apply Buffer.yields_load_written
  rw [present column inside, held]

theorem yields_store (holds : table.Holds lines columns entry)
    {line column : ℕ} (below : line < lines) (inside : column < columns)
    (value : α) :
    Yields (table.store array line column value) True
      (·.Holds lines columns fun l c =>
        if l = line ∧ c = column then some value else entry l c) := by
  rcases holds.2 line below with ⟨elements, found, size, present⟩
  have written :
      Yields (Buffer.store array elements column value) True
        (· = elements.set column (some value)) :=
    (Buffer.yields_store array elements column value).congr_valid
      (iff_true_intro (by rw [size]; exact inside))
  refine (Buffer.yields_load_written array _ found).seq_eq
    (written.seq_eq (Yields.pure ?_))
  refine ⟨?_, fun other otherBelow => ?_⟩
  · rw [List.length_set]
    exact holds.1
  · by_cases here : other = line
    · subst here
      refine ⟨_, List.getElem?_set_self (by rw [holds.1]; exact below), ?_, ?_⟩
      · rw [List.length_set]
        exact size
      · intro place placeInside
        by_cases there : place = column
        · subst there
          rw [List.getElem?_set_self (by rw [size]; exact inside)]
          simp
        · rw [List.getElem?_set_ne (Ne.symm there), present place placeInside]
          simp [there]
    · rcases holds.2 other otherBelow with ⟨kept, keptFound, keptSize, same⟩
      refine ⟨kept, ?_, keptSize, ?_⟩
      · rw [List.getElem?_set_ne (Ne.symm here)]
        exact keptFound
      · intro place placeInside
        rw [same place placeInside]
        simp [here]

theorem yields_free (holds : table.Holds lines columns entry) :
    Yields (table.free array lines) True (fun _ => True) := by
  refine (Yields.countLoop (fun _ _ => True) (fun _ => True) trivial ?_).congr_valid
    (by simp)
  intro line below _ _
  rcases holds.2 line below with ⟨elements, found, -⟩
  exact (Buffer.yields_load_written array _ found).seq_eq (Yields.pure trivial)

end Table

end FederatedEdge.Library
