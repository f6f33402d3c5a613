import FederatedEdge.Library.HeapQueue
import FederatedEdge.Library.LinkedListAppend

/-!
# Lists in a growing memory

An arena holds the structures of one type in the order of their allocation, and
a pointer is an index into it.  Structures are changed, but never freed.

Cells which are allocated one after the other and linked at once form a block.
A block may be followed by others; it is a list which a reader finds in the
arena, however much is allocated later.
-/

namespace FederatedEdge.Library

/-- The structures of one type which have been allocated. -/
abbrev Arena (β : Type) := List β

namespace Arena

variable {β : Type}

/-- The structure a pointer leads to. -/
def load (arena : Arena β) (pointer : Option ℕ) : Exec β := do
  let address ← Exec.deref pointer
  match arena[address]? with
  | none => .error .wildPointer
  | some found => .ok found

/-- Change the structure a pointer leads to. -/
def store (arena : Arena β) (pointer : Option ℕ) (change : β → β) :
    Exec (Arena β) := do
  let address ← Exec.deref pointer
  if address < arena.length then .ok (arena.modify address change)
  else .error .wildPointer

theorem load_eq {arena : Arena β} {address : ℕ} {found : β}
    (allocated : arena[address]? = some found) :
    arena.load (some address) = .ok found := by
  rw [load, Exec.deref_some, Exec.ok_bind, allocated]

/-- Between what has been allocated before and after it. -/
theorem load_middle (front back : Arena β) (found : β) :
    Arena.load (front ++ found :: back) (some front.length) = .ok found :=
  load_eq (by simp)

theorem load_last (front : Arena β) (found : β) :
    Arena.load (front ++ [found]) (some front.length) = .ok found :=
  load_middle front [] found

theorem store_middle (front back : Arena β) (found : β) (change : β → β) :
    Arena.store (front ++ found :: back) (some front.length) change =
      .ok (front ++ change found :: back) := by
  have inside : front.length < (front ++ found :: back).length := by simp
  rw [store, Exec.deref_some, Exec.ok_bind, if_pos inside, modify_middle]

theorem store_last (front : Arena β) (found : β) (change : β → β) :
    Arena.store (front ++ [found]) (some front.length) change =
      .ok (front ++ [change found]) :=
  store_middle front [] found change

variable {α : Type}

/--
`last->next = new; new->previous = last;`
-/
def linkBehind (arena : Arena (Cell α)) (last : Option ℕ) (new : ℕ) :
    Exec (Arena (Cell α)) := do
  let linked ← arena.store last fun cell => { cell with next := some new }
  linked.store (some new) fun cell => { cell with previous := last }

/-! ## Blocks -/

open LinkedList (linkFrom)

/-- The last of consecutive cells from `address` on, or what was before them. -/
def lastFrom : Option ℕ → ℕ → List α → Option ℕ
  | previous, _, [] => previous
  | _, address, _ :: rest => lastFrom (some address) (address + 1) rest

/-- Cells from `address` on, the last of which leads on to the next address. -/
def openFrom : Option ℕ → ℕ → List α → List (Cell α)
  | _, _, [] => []
  | previous, address, value :: rest =>
      ⟨value, previous, some (address + 1)⟩ ::
        openFrom (some address) (address + 1) rest

section Concat

variable (previous : Option ℕ) (address : ℕ) (values : List α) (value : α)

theorem lastFrom_concat :
    lastFrom previous address (values ++ [value]) =
      some (address + values.length) := by
  induction values generalizing previous address with
  | nil => rfl
  | cons head values inductionHypothesis =>
      rw [List.cons_append, lastFrom, inductionHypothesis, List.length_cons]
      congr 1
      omega

theorem length_openFrom :
    (openFrom previous address values).length = values.length := by
  induction values generalizing previous address with
  | nil => rfl
  | cons head values inductionHypothesis =>
      rw [openFrom, List.length_cons, List.length_cons, inductionHypothesis]

theorem linkFrom_concat_eq :
    linkFrom previous address (values ++ [value]) =
      openFrom previous address values ++
        [⟨value, lastFrom previous address values, none⟩] := by
  induction values generalizing previous address with
  | nil => rfl
  | cons head values inductionHypothesis =>
      have more :
          pointerTo (address + 1) (values ++ [value]) = some (address + 1) := by
        cases values <;> rfl
      rw [List.cons_append, linkFrom, more, inductionHypothesis]
      rfl

theorem openFrom_concat :
    openFrom previous address (values ++ [value]) =
      openFrom previous address values ++
        [⟨value, lastFrom previous address values,
          some (address + values.length + 1)⟩] := by
  induction values generalizing previous address with
  | nil => rfl
  | cons head values inductionHypothesis =>
      rw [List.cons_append, openFrom, inductionHypothesis, List.length_cons,
        show address + 1 + values.length + 1 =
          address + (values.length + 1) + 1 by omega]
      rfl

end Concat

/-- The cells of a list behind everything which was allocated before it. -/
def block (before : Arena (Cell α)) (values : List α) : Arena (Cell α) :=
  before ++ linkFrom none before.length values

/-- The same, when the last cell already leads to the next address. -/
def openBlock (before : Arena (Cell α)) (values : List α) : Arena (Cell α) :=
  before ++ openFrom none before.length values

def blockFirst (before : Arena (Cell α)) (values : List α) : Option ℕ :=
  pointerTo before.length values

def blockLast (before : Arena (Cell α)) (values : List α) : Option ℕ :=
  lastFrom none before.length values

section Block

variable (before : Arena (Cell α)) (values front : List α) (value back : α)

@[simp]
theorem length_block :
    (block before values).length = before.length + values.length := by
  rw [block, List.length_append, LinkedList.linkFrom_length]

@[simp]
theorem length_openBlock :
    (openBlock before values).length = before.length + values.length := by
  rw [openBlock, List.length_append, length_openFrom]

@[simp]
theorem block_nil : block before [] = before :=
  List.append_nil before

@[simp]
theorem openBlock_nil : openBlock before [] = before :=
  List.append_nil before

theorem length_openBlock_eq :
    (openBlock before values).length = (block before values).length := by
  rw [length_openBlock, length_block]

theorem blockFirst_concat :
    blockFirst before (front ++ [back] ++ [value]) =
      blockFirst before (front ++ [back]) := by
  cases front <;> rfl

/-- The pointers do not depend on the values. -/
theorem blockFirst_last (other : α) :
    blockFirst before (values ++ [value]) =
      blockFirst before (values ++ [other]) := by
  cases values <;> rfl

theorem blockLast_concat :
    blockLast before (values ++ [value]) = some (block before values).length := by
  rw [length_block]
  exact lastFrom_concat none before.length values value

theorem block_concat :
    block before (values ++ [value]) =
      openBlock before values ++
        [⟨value, blockLast before values, none⟩] := by
  rw [block, linkFrom_concat_eq, ← List.append_assoc]
  rfl

theorem openBlock_concat :
    openBlock before (values ++ [value]) =
      openBlock before values ++
        [⟨value, blockLast before values,
          some (before.length + values.length + 1)⟩] := by
  rw [openBlock, openFrom_concat, ← List.append_assoc]
  rfl

/-- Linking a new cell behind a block makes it the last one of the block. -/
theorem linkBehind_block :
    Arena.linkBehind (block before (front ++ [back]) ++ [⟨value, none, none⟩])
        (blockLast before (front ++ [back]))
        (block before (front ++ [back])).length =
      .ok (block before (front ++ [back] ++ [value])) := by
  have last :
      blockLast before (front ++ [back]) =
        some (openBlock before front).length := by
    rw [blockLast_concat, length_openBlock_eq]
  have new := (length_openBlock_eq before (front ++ [back])).symm
  have linked :
      Arena.store
          (block before (front ++ [back]) ++ [⟨value, none, none⟩])
          (blockLast before (front ++ [back]))
          (fun cell =>
            { cell with
              next := some (block before (front ++ [back])).length }) =
        .ok (openBlock before (front ++ [back]) ++ [⟨value, none, none⟩]) := by
    rw [last, block_concat, List.append_assoc, List.singleton_append,
      store_middle, openBlock_concat, List.append_assoc, List.singleton_append,
      ← block_concat, length_block, List.length_append, List.length_singleton,
      Nat.add_assoc]
  rw [Arena.linkBehind, linked, Exec.ok_bind, new, store_last,
    ← block_concat]

end Block

/-! ## Lists in an arena -/

/-- Values which are related one by one, by their index. -/
theorem related_at {β : Type} {related : α → β → Prop} {left : List α}
    {right : List β} (each : List.Forall₂ related left right) {i : ℕ} {value : α}
    (found : left[i]? = some value) :
    ∃ other, right[i]? = some other ∧ related value other := by
  induction each generalizing i with
  | nil => simp at found
  | cons head _ inductionHypothesis =>
      cases i with
      | zero =>
          rw [List.getElem?_cons_zero, Option.some.injEq] at found
          subst found
          exact ⟨_, rfl, head⟩
      | succ i => exact inductionHypothesis found

/-- Between the pointers the arena has a list of these values. -/
def ListAt (arena : Arena (Cell α)) (first last : Option ℕ)
    (values : List α) : Prop :=
  ∃ before : Arena (Cell α), block before values <+: arena ∧
    first = blockFirst before values ∧ last = blockLast before values

theorem listAt_block (before : Arena (Cell α)) (values : List α) :
    ListAt (block before values) (blockFirst before values)
      (blockLast before values) values :=
  ⟨before, List.prefix_rfl, rfl, rfl⟩

/-- Later allocations leave the lists alone. -/
theorem ListAt.mono {arena later : Arena (Cell α)} {first last : Option ℕ}
    {values : List α} (listAt : ListAt arena first last values)
    (grows : arena <+: later) : ListAt later first last values := by
  rcases listAt with ⟨before, inside, isFirst, isLast⟩
  exact ⟨before, inside.trans grows, isFirst, isLast⟩

/-- The values with the addresses from `address` on. -/
def addressed : ℕ → List α → List (ℕ × α)
  | _, [] => []
  | address, value :: rest => (address, value) :: addressed (address + 1) rest

section Addressed

variable (address : ℕ) (values : List α)

theorem map_snd_addressed : (addressed address values).map Prod.snd = values := by
  induction values generalizing address with
  | nil => rfl
  | cons value rest inductionHypothesis =>
      rw [addressed, List.map_cons, inductionHypothesis]

theorem map_fst_addressed :
    (addressed address values).map Prod.fst =
      List.range' address values.length := by
  induction values generalizing address with
  | nil => rfl
  | cons value rest inductionHypothesis =>
      rw [addressed, List.map_cons, inductionHypothesis, List.length_cons,
        List.range'_succ]

theorem headAddress_addressed :
    headAddress (addressed address values) = pointerTo address values := by
  cases values <;> rfl

theorem last_addressed (previous : Option ℕ) :
    lastFrom previous address values =
      ((addressed address values).getLast?.map Prod.fst).or previous := by
  induction values generalizing address previous with
  | nil => rfl
  | cons value rest inductionHypothesis =>
      rw [lastFrom, inductionHypothesis, addressed]
      cases rest with
      | nil => rfl
      | cons next rest =>
          rw [addressed, List.getLast?_cons_cons]
          generalize addressed (address + 1 + 1) rest = more
          cases last : ((address + 1, next) :: more).getLast? with
          | none => simp at last
          | some entry => rfl

end Addressed

/-- The cells of an arena, all of whose links have been assigned. -/
def heap (arena : Arena (Cell α)) : Heap (QueueCell α) :=
  fun address =>
    arena[address]?.map fun cell =>
      ⟨cell.value, some cell.previous, some cell.next⟩

/-- What lies between two pointers. -/
def queue (arena : Arena (Cell α)) (first last : Option ℕ) : HeapQueue α where
  heap := arena.heap
  first := first
  last := last

theorem linked_of_cells {arena : Arena (Cell α)} {previous : Option ℕ}
    {address : ℕ} {values : List α}
    (found : ∀ i cell, (linkFrom previous address values)[i]? = some cell →
      arena[address + i]? = some cell) :
    Linked arena.heap previous (addressed address values) := by
  induction values generalizing previous address with
  | nil => trivial
  | cons value rest inductionHypothesis =>
      refine ⟨?_, inductionHypothesis fun i cell present => ?_⟩
      · have here : arena[address]? = _ := found 0 _ rfl
        rw [headAddress_addressed, heap, here]
        rfl
      · have later := found (i + 1) cell present
        rwa [← Nat.add_assoc, Nat.add_right_comm] at later

/-- A list in an arena is a queue: its links are each other's inverse. -/
theorem ListAt.holds {arena : Arena (Cell α)} {first last : Option ℕ}
    {values : List α} (listAt : ListAt arena first last values) :
    ∃ entries, (arena.queue first last).Holds entries ∧
      entries.map Prod.snd = values := by
  rcases listAt with ⟨before, inside, rfl, rfl⟩
  refine ⟨addressed before.length values, ⟨?_, ?_, ?_, ?_⟩,
    map_snd_addressed _ _⟩
  · exact (headAddress_addressed _ _).symm
  · exact (last_addressed _ _ none).trans (Option.or_none)
  · refine linked_of_cells fun i cell present => ?_
    rcases inside with ⟨behind, rfl⟩
    have within := (List.getElem?_eq_some_iff.mp present).1
    rw [block, List.append_assoc, List.getElem?_append_right (by omega),
      Nat.add_sub_cancel_left, List.getElem?_append_left within]
    exact present
  · rw [map_fst_addressed]
    exact List.nodup_range'

/--
Between the pointers lies a list of this length, linked both ways, whose values
have a property at their index.
-/
def HasList (arena : Arena (Cell α)) (first last : Option ℕ) (length : ℕ)
    (property : ℕ → α → Prop) : Prop :=
  ∃ entries, (arena.queue first last).Holds entries ∧
    entries.length = length ∧
    ∀ i entry, entries[i]? = some entry → property i entry.2

theorem ListAt.hasList {arena : Arena (Cell α)} {first last : Option ℕ}
    {values : List α} (listAt : ListAt arena first last values) {length : ℕ}
    (count : values.length = length) {property : ℕ → α → Prop}
    (each : ∀ i value, values[i]? = some value → property i value) :
    HasList arena first last length property := by
  rcases listAt.holds with ⟨entries, holds, rfl⟩
  rw [List.length_map] at count
  refine ⟨entries, holds, count, fun i entry found => ?_⟩
  apply each
  rw [List.getElem?_map, found, Option.map_some]

end Arena

end FederatedEdge.Library
