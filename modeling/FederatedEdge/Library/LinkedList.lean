import Mathlib.Data.List.Basic
import Mathlib.Data.List.Forall2
import Mathlib.Data.List.Zip
import Mathlib.Tactic.Common

/-!
# Doubly linked lists over their allocated cells

A list is modelled by the cells which were allocated for it, in allocation
order, together with its first and last pointers.  A pointer is the index of a
cell, and `none` is the null pointer.  Nothing forces the links to be in
order: a cell may point to itself, or past the end.

The loops of a C program which walk such a list are the functions of this
file.  Each of them takes as many steps as there are cells; a walk which has
not met the null pointer by then visits some cell twice and never ends.

For a list whose next links run forward through all cells, every loop is the
corresponding operation on the sequence of stored values.
-/

namespace FederatedEdge.Library

/-- The ways in which a program goes wrong on its memory. -/
inductive Fault where
  | nullPointer
  | wildPointer
  | uninitialized
  | useAfterFree
  | endlessLoop
  | outOfBounds
deriving DecidableEq, Repr

/-- Computations which either finish or run into a fault. -/
abbrev Exec := Except Fault

namespace Exec

variable {α β : Type}

@[simp]
theorem ok_bind (value : α) (next : α → Exec β) :
    ((Except.ok value : Exec α) >>= next) = next value :=
  rfl

@[simp]
theorem error_bind (fault : Fault) (next : α → Exec β) :
    ((Except.error fault : Exec α) >>= next) = .error fault :=
  rfl

@[simp]
theorem pure_eq_ok (value : α) :
    (pure value : Exec α) = .ok value :=
  rfl

/-- A computation has one result. -/
theorem result_unique {computation : Exec α} {first second : α}
    (finishes : computation = .ok first) (runs : computation = .ok second) :
    first = second :=
  Except.ok.inj (finishes.symm.trans runs)

/-- A sequence finishes exactly when both of its parts do. -/
theorem bind_eq_ok
    {computation : Exec α} {next : α → Exec β} {result : β} :
    (computation >>= next) = .ok result ↔
      ∃ value, computation = .ok value ∧ next value = .ok result := by
  cases computation with
  | error fault => simp
  | ok value => simp

/-- Reading a variable which may never have been assigned. -/
def read : Option α → Exec α
  | none => .error .uninitialized
  | some value => .ok value

@[simp]
theorem read_some (value : α) :
    read (some value) = .ok value :=
  rfl

/-- Following a pointer which may be null. -/
def deref : Option α → Exec α
  | none => .error .nullPointer
  | some value => .ok value

@[simp]
theorem deref_some (value : α) :
    deref (some value) = .ok value :=
  rfl

/-- A mapped sequence finishes exactly when it does at every place. -/
theorem mapM_eq_ok_iff
    {body : α → Exec β} {sources : List α} {results : List β} :
    sources.mapM body = .ok results ↔
      List.Forall₂ (fun source result => body source = .ok result)
        sources results := by
  induction sources generalizing results with
  | nil => cases results <;> simp
  | cons source sources inductionHypothesis =>
      cases results with
      | nil => simp [bind_eq_ok]
      | cons result results =>
          simp only [List.mapM_cons, bind_eq_ok, pure_eq_ok,
            List.forall₂_cons, ← inductionHypothesis, Except.ok.injEq,
            List.cons.injEq]
          constructor
          · rintro ⟨_, head, _, tail, rfl, rfl⟩
            exact ⟨head, tail⟩
          · rintro ⟨head, tail⟩
            exact ⟨_, head, _, tail, rfl, rfl⟩

/-- A loop which appends one result per turn. -/
theorem foldlM_collect
    {body : α → Exec β} {sources : List α} {results : List β}
    (finishes :
      List.Forall₂ (fun source result => body source = .ok result)
        sources results)
    (start : List β) :
    sources.foldlM
        (fun collected source => do
          let result ← body source
          .ok (collected ++ [result]))
        start =
      (.ok (start ++ results) : Exec (List β)) := by
  induction finishes generalizing start with
  | nil => simp
  | cons head _ rest => simp [head, rest]

/-- A loop all of whose turns finish and keep an invariant. -/
theorem foldlM_invariant {σ : Type} {body : σ → α → Exec σ}
    (invariant : σ → Prop) {values : List α} {state : σ}
    (start : invariant state)
    (turn : ∀ value ∈ values, ∀ state, invariant state →
      ∃ next, body state value = .ok next ∧ invariant next) :
    ∃ final, values.foldlM body state = .ok final ∧ invariant final := by
  induction values generalizing state with
  | nil => exact ⟨state, rfl, start⟩
  | cons value values inductionHypothesis =>
      rcases turn value List.mem_cons_self state start with ⟨next, runs, holds⟩
      rw [List.foldlM_cons, runs]
      exact inductionHypothesis holds fun other member =>
        turn other (List.mem_cons_of_mem _ member)

/-- A loop which finishes does what its turns do. -/
theorem foldlM_related {σ : Type} {body : σ → α → Exec σ}
    {related : σ → σ → Prop} (refl : ∀ state, related state state)
    (trans : ∀ {first second third}, related first second →
      related second third → related first third)
    (turn : ∀ {state value next}, body state value = .ok next →
      related state next)
    {values : List α} {before after : σ}
    (finishes : values.foldlM body before = .ok after) :
    related before after := by
  induction values generalizing before with
  | nil =>
      cases finishes
      exact refl _
  | cons value values inductionHypothesis =>
      rw [List.foldlM_cons, bind_eq_ok] at finishes
      rcases finishes with ⟨middle, first, rest⟩
      exact trans (turn first) (inductionHypothesis rest)

/-- A counting loop all of whose turns finish. -/
theorem foldlM_range {σ : Type} {body : σ → ℕ → Exec σ}
    (invariant : ℕ → σ → Prop) {count : ℕ} {state : σ}
    (start : invariant 0 state)
    (turn : ∀ index < count, ∀ state, invariant index state →
      ∃ next, body state index = .ok next ∧ invariant (index + 1) next) :
    ∃ final, (List.range count).foldlM body state = .ok final ∧
      invariant count final := by
  induction count with
  | zero => exact ⟨state, rfl, start⟩
  | succ count inductionHypothesis =>
      rcases inductionHypothesis fun index below => turn index (by omega)
        with ⟨middle, early, holds⟩
      rcases turn count (by omega) middle holds with ⟨final, last, kept⟩
      refine ⟨final, ?_, kept⟩
      rw [List.range_succ, List.foldlM_append, early, ok_bind,
        List.foldlM_cons, last, ok_bind, List.foldlM_nil, pure_eq_ok]

end Exec

/-- One allocated cell: the stored value and its two links. -/
structure Cell (α : Type) where
  value : α
  previous : Option ℕ
  next : Option ℕ
deriving DecidableEq, Repr

/-- The allocated cells of a list with its first and last pointers. -/
structure LinkedList (α : Type) where
  cells : List (Cell α)
  first : Option ℕ
  last : Option ℕ
deriving DecidableEq, Repr

/-- The pointer to the cell at `address` when one of `rest` is there. -/
def pointerTo {β : Type} (address : ℕ) : List β → Option ℕ
  | [] => none
  | _ :: _ => some address

@[simp]
theorem pointerTo_nil {β : Type} (address : ℕ) :
    pointerTo address ([] : List β) = none :=
  rfl

@[simp]
theorem pointerTo_cons {β : Type} (address : ℕ) (head : β) (rest : List β) :
    pointerTo address (head :: rest) = some address :=
  rfl

/-- From `address` on, each next link leads to the following cell. -/
def ForwardFrom {α : Type} : ℕ → List (Cell α) → Prop
  | _, [] => True
  | address, cell :: rest =>
      cell.next = pointerTo (address + 1) rest ∧ ForwardFrom (address + 1) rest

namespace LinkedList

variable {α β σ : Type}

/-- The list without cells. -/
def empty : LinkedList α where
  cells := []
  first := none
  last := none

/-- The stored values in allocation order. -/
def values (list : LinkedList α) : List α :=
  list.cells.map Cell.value

@[simp]
theorem length_values (list : LinkedList α) :
    list.values.length = list.cells.length := by
  simp [values]

/-- The next links run from the first cell through all of them to null. -/
def Forward (list : LinkedList α) : Prop :=
  list.first = pointerTo 0 list.cells ∧ ForwardFrom 0 list.cells

/-! ## Replacing the stored values -/

/-- Store other values in cells, leaving the links alone. -/
def storeAll : List (Cell α) → List β → List (Cell β) :=
  List.zipWith fun cell value => ⟨value, cell.previous, cell.next⟩

theorem pointerTo_storeAll
    (address : ℕ) (cells : List (Cell α)) (values : List β)
    (sameLength : values.length = cells.length) :
    pointerTo address (storeAll cells values) = pointerTo address cells := by
  cases cells with
  | nil => rfl
  | cons cell rest =>
      cases values with
      | nil => simp at sameLength
      | cons value values => rfl

theorem forwardFrom_storeAll
    (address : ℕ) (cells : List (Cell α)) (values : List β)
    (sameLength : values.length = cells.length)
    (forward : ForwardFrom address cells) :
    ForwardFrom address (storeAll cells values) := by
  induction cells generalizing address values with
  | nil => simp [storeAll, ForwardFrom]
  | cons cell rest inductionHypothesis =>
      cases values with
      | nil => simp at sameLength
      | cons value values =>
          have restLength : values.length = rest.length := by
            simpa using sameLength
          refine ⟨?_, inductionHypothesis (address + 1) values restLength forward.2⟩
          rw [show cell.next = _ from forward.1]
          exact (pointerTo_storeAll (address + 1) rest values restLength).symm

/-- The same list with other stored values. -/
def withValues (list : LinkedList α) (values : List β) : LinkedList β where
  cells := storeAll list.cells values
  first := list.first
  last := list.last

theorem values_storeAll
    (cells : List (Cell α)) (values : List β)
    (sameLength : values.length = cells.length) :
    (storeAll cells values).map Cell.value = values := by
  induction cells generalizing values with
  | nil =>
      cases values with
      | nil => rfl
      | cons value values => simp at sameLength
  | cons cell rest inductionHypothesis =>
      cases values with
      | nil => simp at sameLength
      | cons value values =>
          have restLength : values.length = rest.length := by
            simpa using sameLength
          exact congrArg (value :: ·) (inductionHypothesis values restLength)

theorem values_withValues
    (list : LinkedList α) (values : List β)
    (sameLength : values.length = list.cells.length) :
    (list.withValues values).values = values :=
  values_storeAll list.cells values sameLength

theorem forward_withValues
    (list : LinkedList α) (values : List β)
    (sameLength : values.length = list.cells.length)
    (forward : list.Forward) :
    (list.withValues values).Forward := by
  refine ⟨?_, forwardFrom_storeAll 0 list.cells values sameLength forward.2⟩
  rw [withValues, pointerTo_storeAll 0 list.cells values sameLength]
  exact forward.1

theorem withValues_withValues {γ : Type}
    (list : LinkedList α) (values : List β) (later : List γ)
    (sameLength : values.length = list.cells.length) :
    (list.withValues values).withValues later = list.withValues later := by
  have cells : ∀ (cells : List (Cell α)) (values : List β) (later : List γ),
      values.length = cells.length →
        storeAll (storeAll cells values) later = storeAll cells later := by
    intro cells
    induction cells with
    | nil => simp [storeAll]
    | cons cell rest inner =>
        intro values later sameLength
        cases values with
        | nil => simp at sameLength
        | cons value values =>
            cases later with
            | nil => rfl
            | cons next later =>
                have restLength : values.length = rest.length := by
                  simpa using sameLength
                exact congrArg (_ :: ·) (inner values later restLength)
  simp [withValues, cells list.cells values later sameLength]

/-- A list stores its own values. -/
theorem withValues_values (list : LinkedList α) :
    list.withValues list.values = list := by
  have cells : ∀ cells : List (Cell α),
      storeAll cells (cells.map Cell.value) = cells := by
    intro cells
    induction cells with
    | nil => rfl
    | cons cell rest inner => exact congrArg (cell :: ·) inner
  rw [withValues, values, cells]

/-- A list is determined by its links and an injective image of its values. -/
theorem withValues_map_injective {f : α → β} (injective : Function.Injective f)
    {first second : LinkedList α}
    (same :
      first.withValues (first.values.map f) =
        second.withValues (second.values.map f)) :
    first = second := by
  have stored : ∀ list : LinkedList α,
      (list.withValues (list.values.map f)).cells =
        list.cells.map fun cell => ⟨f cell.value, cell.previous, cell.next⟩ := by
    intro list
    rw [withValues, values, storeAll, List.map_map, List.zipWith_map_right,
      List.zipWith_self]
    rfl
  have cellInjective : Function.Injective fun cell : Cell α =>
      (⟨f cell.value, cell.previous, cell.next⟩ : Cell β) := by
    intro left right equal
    rcases Cell.mk.inj equal with ⟨values, previous, next⟩
    cases left
    cases right
    rw [Cell.mk.injEq]
    exact ⟨injective values, previous, next⟩
  have cells := congrArg LinkedList.cells same
  rw [stored, stored] at cells
  have starts : first.first = second.first :=
    congrArg (LinkedList.first (α := β)) same
  have ends : first.last = second.last :=
    congrArg (LinkedList.last (α := β)) same
  cases first
  cases second
  rw [LinkedList.mk.injEq]
  exact ⟨List.map_injective_iff.mpr cellInjective cells, starts, ends⟩

/-! ## Writing through one pointer -/

/-- Change the value in the cell at an address. -/
def modifyAt (address : ℕ) (change : α → α) (list : LinkedList α) :
    LinkedList α :=
  { list with
    cells :=
      list.cells.modify address fun cell =>
        { cell with value := change cell.value } }

theorem modifyAt_eq (address : ℕ) (change : α → α) (list : LinkedList α) :
    list.modifyAt address change =
      list.withValues (list.values.modify address change) := by
  have cells : ∀ (address : ℕ) (cells : List (Cell α)),
      cells.modify address
          (fun cell => { cell with value := change cell.value }) =
        storeAll cells ((cells.map Cell.value).modify address change) := by
    intro address cells
    induction cells generalizing address with
    | nil => simp [storeAll]
    | cons cell rest inner =>
        cases address with
        | zero =>
            have kept : storeAll rest (rest.map Cell.value) = rest := by
              simp [storeAll, List.zipWith_map_right, List.zipWith_self]
            simp only [List.modify_zero_cons, List.map_cons, storeAll,
              List.zipWith_cons_cons, List.cons.injEq, true_and]
            exact kept.symm
        | succ address =>
            exact congrArg (cell :: ·) (inner address)
  simp only [modifyAt, withValues, values, cells address list.cells]

/-! ## Where a loop stands -/

/-- The cell under the cursor comes after the visited ones. -/
theorem getElem?_visited (visited rest : List (Cell α)) (cell : Cell α) :
    (visited ++ cell :: rest)[visited.length]? = some cell := by
  simp

/-- A cell which is replaced joins the visited ones. -/
theorem set_visited (visited rest : List (Cell α)) (cell replacement : Cell α) :
    (visited ++ cell :: rest).set visited.length replacement =
      visited ++ [replacement] ++ rest := by
  simp

/-- Behind the cell under the cursor the links run forward as before. -/
theorem forwardFrom_visited {visited : List (Cell α)} {rest : List (Cell β)}
    {cell : Cell β} (replacement : Cell α)
    (forward : ForwardFrom visited.length (cell :: rest)) :
    cell.next = pointerTo (visited ++ [replacement]).length rest ∧
      ForwardFrom (visited ++ [replacement]).length rest := by
  rw [List.length_append, List.length_singleton]
  exact forward

/-! ## A loop which only reads -/

/--
`while (cursor != NULL) { state = body(state, cursor); cursor = cursor->next }`
with at most `fuel` turns.
-/
def foldFrom (body : σ → α → Exec σ) :
    ℕ → σ → Option ℕ → List (Cell α) → Exec σ
  | _, state, none, _ => .ok state
  | 0, _, some _, _ => .error .endlessLoop
  | fuel + 1, state, some address, cells =>
      match cells[address]? with
      | none => .error .wildPointer
      | some cell => do
          let state ← body state cell.value
          foldFrom body fuel state cell.next cells

/-- Walk the whole list, carrying a state along. -/
def fold (body : σ → α → Exec σ) (state : σ) (list : LinkedList α) : Exec σ :=
  foldFrom body list.cells.length state list.first list.cells

/-- The values met on the way from a pointer to null. -/
def toListFrom : ℕ → Option ℕ → List (Cell α) → Exec (List α)
  | _, none, _ => .ok []
  | 0, some _, _ => .error .endlessLoop
  | fuel + 1, some address, cells =>
      match cells[address]? with
      | none => .error .wildPointer
      | some cell => do
          let rest ← toListFrom fuel cell.next cells
          .ok (cell.value :: rest)

/-- The values met on the way from the first cell to null, if it is reached. -/
def toList (list : LinkedList α) : Exec (List α) :=
  toListFrom list.cells.length list.first list.cells

theorem foldFrom_of_toListFrom
    (body : σ → α → Exec σ) (cells : List (Cell α))
    (fuel : ℕ) (pointer : Option ℕ) (state : σ) {values : List α}
    (walk : toListFrom fuel pointer cells = .ok values) :
    foldFrom body fuel state pointer cells = values.foldlM body state := by
  induction fuel generalizing pointer state values with
  | zero =>
      cases pointer with
      | none =>
          have nothing : [] = values := by simpa [toListFrom] using walk
          subst nothing
          rfl
      | some address => simp [toListFrom] at walk
  | succ fuel inductionHypothesis =>
      cases pointer with
      | none =>
          have nothing : [] = values := by simpa [toListFrom] using walk
          subst nothing
          rfl
      | some address =>
          cases here : cells[address]? with
          | none => simp [toListFrom, here] at walk
          | some cell =>
              simp only [toListFrom, here, Exec.bind_eq_ok,
                Except.ok.injEq] at walk
              rcases walk with ⟨rest, restWalk, rfl⟩
              simp only [foldFrom, here, List.foldlM_cons]
              congr 1
              funext next
              exact inductionHypothesis cell.next next restWalk

/-- On any list which ends with null the loop folds over the values met. -/
theorem fold_of_toList
    (body : σ → α → Exec σ) (state : σ) (list : LinkedList α)
    {values : List α} (walk : list.toList = .ok values) :
    list.fold body state = values.foldlM body state :=
  foldFrom_of_toListFrom body list.cells list.cells.length list.first state walk

theorem toListFrom_forward
    (visited rest : List (Cell α)) (fuel : ℕ)
    (forward : ForwardFrom visited.length rest)
    (enough : rest.length ≤ fuel) :
    toListFrom fuel (pointerTo visited.length rest) (visited ++ rest) =
      .ok (rest.map Cell.value) := by
  induction rest generalizing visited fuel with
  | nil => cases fuel <;> rfl
  | cons cell rest inductionHypothesis =>
      cases fuel with
      | zero => simp at enough
      | succ fuel =>
          rcases forwardFrom_visited cell forward with ⟨link, restForward⟩
          have restEnough : rest.length ≤ fuel := by simpa using enough
          have stepped :=
            inductionHypothesis (visited ++ [cell]) fuel restForward restEnough
          rw [← link] at stepped
          simp only [pointerTo_cons, toListFrom, getElem?_visited]
          rw [List.append_cons, stepped]
          rfl

/-- A forward list meets all of its cells, in order. -/
theorem toList_forward (list : LinkedList α) (forward : list.Forward) :
    list.toList = .ok list.values := by
  have run :=
    toListFrom_forward [] list.cells list.cells.length forward.2 le_rfl
  rw [toList, forward.1]
  simpa [values] using run

/-! ## A loop which searches -/

/--
The address of the first visited cell whose value satisfies `test`; null when
the walk reaches its end.
-/
def findFrom (test : α → Bool) :
    ℕ → Option ℕ → List (Cell α) → Exec (Option ℕ)
  | _, none, _ => .ok none
  | 0, some _, _ => .error .endlessLoop
  | fuel + 1, some address, cells =>
      match cells[address]? with
      | none => .error .wildPointer
      | some cell =>
          if test cell.value then .ok (some address)
          else findFrom test fuel cell.next cells

/-- Search the list from its first cell. -/
def find (test : α → Bool) (list : LinkedList α) : Exec (Option ℕ) :=
  findFrom test list.cells.length list.first list.cells

theorem findFrom_forward
    (test : α → Bool) (visited rest : List (Cell α)) (fuel : ℕ)
    (forward : ForwardFrom visited.length rest)
    (enough : rest.length ≤ fuel) :
    findFrom test fuel (pointerTo visited.length rest) (visited ++ rest) =
      .ok (((rest.map Cell.value).findIdx? test).map (· + visited.length)) := by
  induction rest generalizing visited fuel with
  | nil => cases fuel <;> rfl
  | cons cell rest inductionHypothesis =>
      cases fuel with
      | zero => simp at enough
      | succ fuel =>
          rcases forwardFrom_visited cell forward with ⟨link, restForward⟩
          have restEnough : rest.length ≤ fuel := by simpa using enough
          have stepped :=
            inductionHypothesis (visited ++ [cell]) fuel restForward restEnough
          rw [← link] at stepped
          simp only [pointerTo_cons, findFrom, getElem?_visited, List.map_cons,
            List.findIdx?_cons]
          by_cases found : test cell.value
          · simp [found]
          · rw [List.append_cons, stepped]
            simp only [found, Bool.false_eq_true, if_false, Option.map_map]
            congr 2
            funext index
            simp only [Function.comp_apply, List.length_append,
              List.length_singleton]
            omega

/-- On a forward list the loop finds the first matching index. -/
theorem find_forward
    (test : α → Bool) (list : LinkedList α) (forward : list.Forward) :
    list.find test = .ok (list.values.findIdx? test) := by
  have run :=
    findFrom_forward test [] list.cells list.cells.length forward.2 le_rfl
  rw [find, forward.1]
  simpa [values] using run

/-! ## A loop which updates every cell -/

/-- Run `body` on each visited cell and store what it returns. -/
def updateFrom (body : α → Exec α) :
    ℕ → Option ℕ → List (Cell α) → Exec (List (Cell α))
  | _, none, cells => .ok cells
  | 0, some _, _ => .error .endlessLoop
  | fuel + 1, some address, cells =>
      match cells[address]? with
      | none => .error .wildPointer
      | some cell => do
          let value ← body cell.value
          updateFrom body fuel cell.next
            (cells.set address { cell with value := value })

/-- Update the list in place. -/
def update (body : α → Exec α) (list : LinkedList α) : Exec (LinkedList α) := do
  let cells ← updateFrom body list.cells.length list.first list.cells
  .ok { list with cells := cells }

theorem updateFrom_forward
    (body : α → Exec α) (f : α → α) (visited rest : List (Cell α)) (fuel : ℕ)
    (forward : ForwardFrom visited.length rest)
    (enough : rest.length ≤ fuel)
    (finishes : ∀ cell ∈ rest, body cell.value = .ok (f cell.value)) :
    updateFrom body fuel (pointerTo visited.length rest) (visited ++ rest) =
      .ok (visited ++ storeAll rest (rest.map fun cell => f cell.value)) := by
  induction rest generalizing visited fuel with
  | nil => cases fuel <;> rfl
  | cons cell rest inductionHypothesis =>
      cases fuel with
      | zero => simp at enough
      | succ fuel =>
          let updated : Cell α := { cell with value := f cell.value }
          rcases forwardFrom_visited updated forward with ⟨link, restForward⟩
          have restEnough : rest.length ≤ fuel := by simpa using enough
          have stepped :=
            inductionHypothesis (visited ++ [updated]) fuel restForward
              restEnough (fun other member => finishes other (by simp [member]))
          rw [← link] at stepped
          simp only [pointerTo_cons, updateFrom, getElem?_visited,
            finishes cell (by simp), Exec.ok_bind, set_visited]
          rw [stepped]
          simp [storeAll, updated]

/-- On a forward list every stored value is updated. -/
theorem update_forward
    (body : α → Exec α) (f : α → α) (list : LinkedList α)
    (forward : list.Forward)
    (finishes : ∀ value ∈ list.values, body value = .ok (f value)) :
    list.update body = .ok (list.withValues (list.values.map f)) := by
  have run :=
    updateFrom_forward body f [] list.cells list.cells.length forward.2 le_rfl
      (fun cell member =>
        finishes cell.value (List.mem_map_of_mem member))
  simp only [List.length_nil, List.nil_append] at run
  rw [update, forward.1, run]
  simp [withValues, values, Function.comp_def, forward.1]

theorem updateFrom_finishes
    (body : α → Exec α) (visited rest : List (Cell α)) (fuel : ℕ)
    {result : List (Cell α)}
    (forward : ForwardFrom visited.length rest)
    (finishes :
      updateFrom body fuel (pointerTo visited.length rest) (visited ++ rest) =
        .ok result) :
    ∀ cell ∈ rest, ∃ value, body cell.value = .ok value := by
  induction rest generalizing visited fuel with
  | nil => simp
  | cons cell rest inductionHypothesis =>
      cases fuel with
      | zero => simp [updateFrom] at finishes
      | succ fuel =>
          simp only [pointerTo_cons, updateFrom, getElem?_visited,
            Exec.bind_eq_ok, set_visited] at finishes
          rcases finishes with ⟨value, here, finishes⟩
          rcases forwardFrom_visited { cell with value := value } forward
            with ⟨link, restForward⟩
          rw [List.forall_mem_cons]
          refine ⟨⟨value, here⟩, ?_⟩
          apply inductionHypothesis _ fuel restForward
          rw [← link]
          exact finishes

/-- An update which finishes did so for each stored value. -/
theorem update_finishes
    {body : α → Exec α} {list result : LinkedList α} (forward : list.Forward)
    (finishes : list.update body = .ok result) :
    ∀ value ∈ list.values, ∃ updated, body value = .ok updated := by
  rw [update, forward.1] at finishes
  rcases Exec.bind_eq_ok.mp finishes with ⟨cells, walked, -⟩
  have each :=
    updateFrom_finishes body [] list.cells list.cells.length forward.2 walked
  intro value member
  rcases List.mem_map.mp member with ⟨cell, isCell, rfl⟩
  exact each cell isCell

/-! ## A loop which updates one list along another -/

/--
Run `body` on the cells of two lists in step.  The loop ends with the first
list; it dereferences the cursor of the second one in every turn.
-/
def zipFrom (body : α → β → Exec α) :
    ℕ → Option ℕ → List (Cell α) → Option ℕ → List (Cell β) →
      Exec (List (Cell α))
  | _, none, cells, _, _ => .ok cells
  | 0, some _, _, _, _ => .error .endlessLoop
  | fuel + 1, some address, cells, cursor, others =>
      match cells[address]? with
      | none => .error .wildPointer
      | some cell => do
          let otherAddress ← Exec.deref cursor
          match others[otherAddress]? with
          | none => .error .wildPointer
          | some other => do
              let value ← body cell.value other.value
              zipFrom body fuel cell.next
                (cells.set address { cell with value := value })
                other.next others

/-- Update the first list in place, walking the second one alongside. -/
def zip (body : α → β → Exec α) (list : LinkedList α) (others : LinkedList β) :
    Exec (LinkedList α) := do
  let cells ←
    zipFrom body list.cells.length list.first list.cells
      others.first others.cells
  .ok { list with cells := cells }

theorem zipFrom_forward
    (body : α → β → Exec α) (f : α → β → α)
    (visited rest : List (Cell α)) (passed others : List (Cell β)) (fuel : ℕ)
    (forward : ForwardFrom visited.length rest)
    (otherForward : ForwardFrom passed.length others)
    (sameLength : others.length = rest.length)
    (enough : rest.length ≤ fuel)
    (finishes :
      List.Forall₂
        (fun cell other =>
          body cell.value other.value = .ok (f cell.value other.value))
        rest others) :
    zipFrom body fuel
        (pointerTo visited.length rest) (visited ++ rest)
        (pointerTo passed.length others) (passed ++ others) =
      .ok (visited ++
        storeAll rest
          (List.zipWith (fun cell other => f cell.value other.value)
            rest others)) := by
  induction finishes generalizing visited passed fuel with
  | nil => cases fuel <;> rfl
  | @cons cell other rest others here _ inductionHypothesis =>
      cases fuel with
      | zero => simp at enough
      | succ fuel =>
          let updated : Cell α :=
            { cell with value := f cell.value other.value }
          rcases forwardFrom_visited updated forward with ⟨link, restForward⟩
          rcases forwardFrom_visited other otherForward
            with ⟨otherLink, othersForward⟩
          have restEnough : rest.length ≤ fuel := by simpa using enough
          have restLength : others.length = rest.length := by
            simpa using sameLength
          have stepped :=
            inductionHypothesis (visited ++ [updated]) (passed ++ [other]) fuel
              restForward othersForward restLength restEnough
          rw [← link, ← otherLink] at stepped
          simp only [pointerTo_cons, zipFrom, getElem?_visited, here,
            Exec.deref_some, Exec.ok_bind, set_visited]
          rw [List.append_cons passed, stepped]
          simp [storeAll, updated]

/-- On two forward lists of one length, values are combined position-wise. -/
theorem zip_forward
    (body : α → β → Exec α) (f : α → β → α)
    (list : LinkedList α) (others : LinkedList β)
    (forward : list.Forward) (otherForward : others.Forward)
    (finishes :
      List.Forall₂ (fun value other => body value other = .ok (f value other))
        list.values others.values) :
    list.zip body others =
      .ok (list.withValues
        (List.zipWith f list.values others.values)) := by
  have cellsFinish :
      List.Forall₂
        (fun cell other =>
          body cell.value other.value = .ok (f cell.value other.value))
        list.cells others.cells := by
    simpa [values, List.forall₂_map_left_iff, List.forall₂_map_right_iff]
      using finishes
  have run :=
    zipFrom_forward body f [] list.cells [] others.cells list.cells.length
      forward.2 otherForward.2 cellsFinish.length_eq.symm le_rfl cellsFinish
  simp only [List.length_nil, List.nil_append] at run
  rw [zip, forward.1, otherForward.1, run]
  simp [withValues, values, List.zipWith_map, forward.1]

/-! ## A loop which frees every cell -/

/--
Release each visited cell, taking its successor before it goes.  Arriving at
a cell which was released already is a use after free.
-/
def freeFrom (release : α → Exec Unit) :
    ℕ → List ℕ → Option ℕ → List (Cell α) → Exec Unit
  | _, _, none, _ => .ok ()
  | 0, _, some _, _ => .error .endlessLoop
  | fuel + 1, freed, some address, cells =>
      if address ∈ freed then .error .useAfterFree
      else
        match cells[address]? with
        | none => .error .wildPointer
        | some cell => do
            release cell.value
            freeFrom release fuel (address :: freed) cell.next cells

/-- Free the whole list. -/
def free (release : α → Exec Unit) (list : LinkedList α) : Exec Unit :=
  freeFrom release (list.cells.length + 1) [] list.first list.cells

theorem freeFrom_forward
    (release : α → Exec Unit) (visited rest : List (Cell α))
    (fuel : ℕ) (freed : List ℕ)
    (forward : ForwardFrom visited.length rest)
    (enough : rest.length ≤ fuel)
    (fresh : ∀ address ∈ freed, address < visited.length) :
    freeFrom release fuel freed
        (pointerTo visited.length rest) (visited ++ rest) = .ok () ↔
      ∀ cell ∈ rest, release cell.value = .ok () := by
  induction rest generalizing visited fuel freed with
  | nil => cases fuel <;> simp [freeFrom]
  | cons cell rest inductionHypothesis =>
      cases fuel with
      | zero => simp at enough
      | succ fuel =>
          rcases forwardFrom_visited cell forward with ⟨link, restForward⟩
          have restEnough : rest.length ≤ fuel := by simpa using enough
          have notFreed : visited.length ∉ freed :=
            fun member => lt_irrefl _ (fresh _ member)
          have older :
              ∀ address ∈ visited.length :: freed,
                address < (visited ++ [cell]).length := by
            intro address member
            rw [List.length_append, List.length_singleton]
            rcases List.mem_cons.mp member with rfl | before
            · exact Nat.lt_succ_self _
            · exact Nat.lt_succ_of_lt (fresh address before)
          have stepped :=
            inductionHypothesis (visited ++ [cell]) fuel
              (visited.length :: freed) restForward restEnough older
          rw [← link] at stepped
          simp only [pointerTo_cons, freeFrom, notFreed, if_false,
            getElem?_visited, Exec.bind_eq_ok, List.forall_mem_cons]
          rw [List.append_cons, ← stepped]
          constructor
          · rintro ⟨_, released, rest⟩
            exact ⟨released, rest⟩
          · rintro ⟨released, rest⟩
            exact ⟨(), released, rest⟩

/-- A forward list can be freed when each of its values can be. -/
theorem free_forward
    (release : α → Exec Unit) (list : LinkedList α) (forward : list.Forward) :
    list.free release = .ok () ↔
      ∀ value ∈ list.values, release value = .ok () := by
  have run :=
    freeFrom_forward release [] list.cells (list.cells.length + 1) []
      forward.2 (by omega) (by simp)
  rw [free, forward.1]
  simpa [values] using run

end LinkedList

end FederatedEdge.Library
