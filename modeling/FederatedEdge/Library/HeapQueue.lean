import FederatedEdge.Library.LinkedList
import Mathlib.Data.List.Nodup
import Mathlib.Logic.Function.Basic

/-!
# Queues of heap cells

A heap gives the cells which are allocated now, by address.  A queue is a heap
with a first and a last pointer; its cells carry a value and a link in each
direction, and a link which was never assigned is `none`.

A queue holds a sequence of cells when its pointers lead to the ends of the
sequence, each link leads to the neighbour, and the outer links are null.  An
entry can be put behind the last one, and the first one can be taken away.
-/

namespace FederatedEdge.Library

/-- The allocated cells by address. -/
abbrev Heap (β : Type) := ℕ → Option β

namespace Heap

variable {β : Type}

/-- The cell a pointer leads to. -/
def load (heap : Heap β) (pointer : Option ℕ) : Exec β := do
  let address ← Exec.deref pointer
  match heap address with
  | none => .error .useAfterFree
  | some cell => .ok cell

/-- Change the cell a pointer leads to. -/
def modify (heap : Heap β) (pointer : Option ℕ) (change : β → β) :
    Exec (Heap β) := do
  let address ← Exec.deref pointer
  match heap address with
  | none => .error .useAfterFree
  | some cell => .ok (Function.update heap address (some (change cell)))

def allocate (heap : Heap β) (address : ℕ) (cell : β) : Heap β :=
  Function.update heap address (some cell)

/-- Free the cell a pointer leads to. -/
def free (heap : Heap β) (pointer : Option ℕ) : Exec (Heap β) := do
  let address ← Exec.deref pointer
  match heap address with
  | none => .error .useAfterFree
  | some _ => .ok (Function.update heap address none)

variable {heap : Heap β} {address : ℕ} {cell : β}

theorem load_eq (allocated : heap address = some cell) :
    heap.load (some address) = .ok cell := by
  rw [load, Exec.deref_some, Exec.ok_bind, allocated]

theorem modify_eq (allocated : heap address = some cell) (change : β → β) :
    heap.modify (some address) change =
      .ok (Function.update heap address (some (change cell))) := by
  rw [modify, Exec.deref_some, Exec.ok_bind, allocated]

/-- Change a cell which has just been stored. -/
theorem modify_update_self (change : β → β) :
    Heap.modify (Function.update heap address (some cell)) (some address)
        change =
      .ok (Function.update heap address (some (change cell))) := by
  rw [modify_eq (Function.update_self _ _ _), Function.update_idem]

theorem free_eq (allocated : heap address = some cell) :
    heap.free (some address) = .ok (Function.update heap address none) := by
  rw [free, Exec.deref_some, Exec.ok_bind, allocated]

end Heap

/-- A cell of a queue; a link which was never assigned is `none`. -/
structure QueueCell (α : Type) where
  value : α
  previous : Option (Option ℕ)
  next : Option (Option ℕ)
deriving DecidableEq, Repr

structure HeapQueue (α : Type) where
  heap : Heap (QueueCell α)
  first : Option ℕ
  last : Option ℕ

variable {α : Type}

/-- The pointer to the first of some addressed entries. -/
def headAddress (entries : List (ℕ × α)) : Option ℕ :=
  entries.head?.map Prod.fst

/--
The entries lie at their addresses, each next link leads to the following one
or is null, and each previous link leads to the one before, the first to
`previous`.
-/
def Linked (heap : Heap (QueueCell α)) : Option ℕ → List (ℕ × α) → Prop
  | _, [] => True
  | previous, (address, value) :: rest =>
      heap address = some ⟨value, some previous, some (headAddress rest)⟩ ∧
        Linked heap (some address) rest

theorem Linked.congr {heap other : Heap (QueueCell α)} {previous : Option ℕ}
    {entries : List (ℕ × α)} (linked : Linked heap previous entries)
    (same : ∀ entry ∈ entries, other entry.1 = heap entry.1) :
    Linked other previous entries := by
  induction entries generalizing previous with
  | nil => trivial
  | cons entry rest inductionHypothesis =>
      rw [List.forall_mem_cons] at same
      exact ⟨same.1.trans linked.1, inductionHypothesis linked.2 same.2⟩

/-- The last entry of a linked sequence ends with null. -/
theorem Linked.last {heap : Heap (QueueCell α)} {previous : Option ℕ}
    {front : List (ℕ × α)} {address : ℕ} {value : α}
    (linked : Linked heap previous (front ++ [(address, value)])) :
    ∃ before, heap address = some ⟨value, some before, some none⟩ := by
  induction front generalizing previous with
  | nil => exact ⟨previous, linked.1⟩
  | cons entry rest inductionHypothesis => exact inductionHypothesis linked.2

/-- Linking a new cell behind the last one. -/
theorem Linked.concat {heap : Heap (QueueCell α)} {previous : Option ℕ}
    {front : List (ℕ × α)} {address fresh : ℕ} {value new : α}
    (linked : Linked heap previous (front ++ [(address, value)]))
    (distinct : ((front ++ [(address, value)]).map Prod.fst).Nodup)
    (elsewhere : fresh ∉ (front ++ [(address, value)]).map Prod.fst)
    {other : Heap (QueueCell α)} {before : Option ℕ}
    (last : heap address = some ⟨value, some before, some none⟩)
    (relinked : other address = some ⟨value, some before, some (some fresh)⟩)
    (allocated : other fresh = some ⟨new, some (some address), some none⟩)
    (same : ∀ place, place ≠ address → place ≠ fresh →
      other place = heap place) :
    Linked other previous (front ++ [(address, value), (fresh, new)]) := by
  induction front generalizing previous with
  | nil =>
      have here := linked.1
      rw [last, Option.some.injEq, QueueCell.mk.injEq, Option.some.injEq] at here
      rcases here with ⟨-, rfl, -⟩
      exact ⟨relinked, allocated, trivial⟩
  | cons entry rest inductionHypothesis =>
      rw [List.cons_append, List.map_cons, List.nodup_cons] at distinct
      rw [List.cons_append, List.map_cons, List.mem_cons, not_or] at elsewhere
      have notLast : entry.1 ≠ address := by
        rintro rfl
        exact distinct.1 (by simp)
      refine ⟨?_, inductionHypothesis linked.2 distinct.2 elsewhere.2⟩
      rw [same entry.1 notLast (Ne.symm elsewhere.1)]
      have here := linked.1
      cases rest <;> exact here

/-- Taking the first entry away. -/
theorem Linked.tail {heap other : Heap (QueueCell α)} {previous : Option ℕ}
    {address following : ℕ} {value next : α} {rest : List (ℕ × α)}
    (linked :
      Linked heap previous ((address, value) :: (following, next) :: rest))
    (distinct :
      (((address, value) :: (following, next) :: rest).map Prod.fst).Nodup)
    (relinked :
      other following = some ⟨next, some none, some (headAddress rest)⟩)
    (same : ∀ place, place ≠ address → place ≠ following →
      other place = heap place) :
    Linked other none ((following, next) :: rest) := by
  refine ⟨relinked, linked.2.2.congr fun entry member => ?_⟩
  have here : entry.1 ∈ rest.map Prod.fst := List.mem_map_of_mem member
  simp only [List.map_cons, List.nodup_cons, List.mem_cons, not_or] at distinct
  apply same
  · exact ne_of_mem_of_not_mem here distinct.1.2
  · exact ne_of_mem_of_not_mem here distinct.2.1

/-- The cell of an entry, by the entries around it. -/
theorem Linked.cell {heap : Heap (QueueCell α)} {previous : Option ℕ}
    {entries : List (ℕ × α)} (linked : Linked heap previous entries) {i : ℕ}
    {entry : ℕ × α} (found : entries[i]? = some entry) :
    heap entry.1 =
      some
        { value := entry.2
          previous :=
            some (if i = 0 then previous else entries[i - 1]?.map Prod.fst)
          next := some (entries[i + 1]?.map Prod.fst) } := by
  induction entries generalizing previous i with
  | nil => simp at found
  | cons head rest inductionHypothesis =>
      cases i with
      | zero =>
          rw [List.getElem?_cons_zero, Option.some.injEq] at found
          subst found
          rw [linked.1, headAddress, List.head?_eq_getElem?]
          rfl
      | succ i =>
          rw [List.getElem?_cons_succ] at found
          rw [inductionHypothesis linked.2 found]
          cases i <;> rfl

namespace HeapQueue

/-- Where the next link of a cell leads. -/
def nextOf (queue : HeapQueue α) (address : ℕ) : Option ℕ :=
  (queue.heap address).bind fun cell => cell.next.join

/-- Where the previous link of a cell leads. -/
def previousOf (queue : HeapQueue α) (address : ℕ) : Option ℕ :=
  (queue.heap address).bind fun cell => cell.previous.join

/-- A queue without cells. -/
def empty : HeapQueue α where
  heap _ := none
  first := none
  last := none

/-- The queue consists of these entries, in this order. -/
structure Holds (queue : HeapQueue α) (entries : List (ℕ × α)) : Prop where
  first : queue.first = headAddress entries
  last : queue.last = entries.getLast?.map Prod.fst
  linked : Linked queue.heap none entries
  distinct : (entries.map Prod.fst).Nodup

theorem holds_empty : (empty : HeapQueue α).Holds [] :=
  ⟨rfl, rfl, trivial, List.nodup_nil⟩

variable {queue : HeapQueue α} {entries : List (ℕ × α)}

namespace Holds

/-- The last pointer is null exactly when there are no entries. -/
theorem last_eq_none_iff (holds : queue.Holds entries) :
    queue.last = none ↔ entries = [] := by
  rw [holds.last, Option.map_eq_none_iff, List.getLast?_eq_none_iff]

theorem first_eq_none_iff (holds : queue.Holds entries) :
    queue.first = none ↔ entries = [] := by
  rw [holds.first, headAddress, Option.map_eq_none_iff,
    List.head?_eq_none_iff]

/-- Both pointers lead to the same cell exactly when there is one entry. -/
theorem first_eq_last_iff {address : ℕ} {value : α} {rest : List (ℕ × α)}
    (holds : queue.Holds ((address, value) :: rest)) :
    queue.first = queue.last ↔ rest = [] := by
  rw [holds.first, holds.last]
  constructor
  · intro same
    by_contra more
    rw [List.getLast?_cons_of_ne_nil more] at same
    rcases Option.map_eq_some_iff.mp same.symm with ⟨entry, last, here⟩
    have distinct := holds.distinct
    rw [List.map_cons, List.nodup_cons] at distinct
    apply distinct.1
    rw [← here]
    exact List.mem_map_of_mem (List.mem_of_getLast? last)
  · rintro rfl
    rfl

/-- An address which is not in use is none of the entries'. -/
theorem notMem_of_free (holds : queue.Holds entries) {address : ℕ}
    (free : queue.heap address = none) : address ∉ entries.map Prod.fst := by
  intro member
  rcases List.mem_map.mp member with ⟨entry, isEntry, rfl⟩
  rcases List.mem_iff_getElem?.mp isEntry with ⟨i, found⟩
  rw [holds.linked.cell found] at free
  cases free

theorem nextOf_eq (holds : queue.Holds entries) {i : ℕ} {entry : ℕ × α}
    (found : entries[i]? = some entry) :
    queue.nextOf entry.1 = entries[i + 1]?.map Prod.fst := by
  rw [nextOf, holds.linked.cell found]
  rfl

theorem previousOf_eq (holds : queue.Holds entries) {i : ℕ} {entry : ℕ × α}
    (found : entries[i]? = some entry) :
    queue.previousOf entry.1 =
      if i = 0 then none else entries[i - 1]?.map Prod.fst := by
  rw [previousOf, holds.linked.cell found]
  rfl

/-- Entries at the same address are the same. -/
theorem index_unique (holds : queue.Holds entries) {i j : ℕ}
    {first second : ℕ × α} (here : entries[i]? = some first)
    (there : entries[j]? = some second) (same : first.1 = second.1) :
    i = j := by
  have inside : i < (entries.map Prod.fst).length := by
    rw [List.length_map]
    exact (List.getElem?_eq_some_iff.mp here).1
  apply (List.getElem?_inj inside holds.distinct).mp
  rw [List.getElem?_map, List.getElem?_map, here, there, Option.map_some,
    Option.map_some, same]

/-- The previous links are the inverse of the next links. -/
theorem nextOf_eq_some_iff (holds : queue.Holds entries)
    {first second : ℕ × α} (here : first ∈ entries) (there : second ∈ entries) :
    queue.nextOf first.1 = some second.1 ↔
      queue.previousOf second.1 = some first.1 := by
  rcases List.mem_iff_getElem?.mp here with ⟨i, firstFound⟩
  rcases List.mem_iff_getElem?.mp there with ⟨j, secondFound⟩
  rw [holds.nextOf_eq firstFound, holds.previousOf_eq secondFound]
  constructor
  · intro leads
    rcases Option.map_eq_some_iff.mp leads with ⟨entry, found, same⟩
    have next : j = i + 1 :=
      (holds.index_unique found secondFound same).symm
    rw [next, if_neg (Nat.succ_ne_zero i), Nat.add_sub_cancel, firstFound]
    rfl
  · intro leads
    have later : j ≠ 0 := by
      rintro rfl
      simp at leads
    rw [if_neg later] at leads
    rcases Option.map_eq_some_iff.mp leads with ⟨entry, found, same⟩
    have before : j - 1 = i := holds.index_unique found firstFound same
    rw [show i + 1 = j by omega, secondFound]
    rfl

end Holds

end HeapQueue

end FederatedEdge.Library
