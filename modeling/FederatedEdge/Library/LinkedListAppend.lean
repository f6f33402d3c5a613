import FederatedEdge.Library.LinkedList

/-!
# Lists built by appending at the last pointer

`ofList` is the doubly linked list a reader expects for a sequence of values:
one cell for each value, both links in order, null at both ends.  A list equal
to `ofList` of its own values has consistent links.  Appending through the
last pointer keeps a list in this form, so every list which starts empty and
grows by `append` has consistent links.
-/

namespace FederatedEdge.Library

/-- The pointer to the last of the given cells. -/
def lastPointer {β : Type} : List β → Option ℕ
  | [] => none
  | _ :: rest => some rest.length

theorem lastPointer_concat {β : Type} (front : List β) (back : β) :
    lastPointer (front ++ [back]) = some front.length := by
  cases front <;> simp [lastPointer]

/-- Change what follows some others. -/
theorem modify_middle {β : Type} (front back : List β) (value : β)
    (change : β → β) :
    (front ++ value :: back).modify front.length change =
      front ++ change value :: back := by
  induction front with
  | nil => rfl
  | cons head front inductionHypothesis =>
      exact congrArg (head :: ·) inductionHypothesis

namespace LinkedList

variable {α β : Type}

/-- Cells from `address` on, linked to `previous` on their left. -/
def linkFrom : Option ℕ → ℕ → List α → List (Cell α)
  | _, _, [] => []
  | previous, address, value :: rest =>
      ⟨value, previous, pointerTo (address + 1) rest⟩ ::
        linkFrom (some address) (address + 1) rest

/-- The consistently linked list of the given values. -/
def ofList (values : List α) : LinkedList α where
  cells := linkFrom none 0 values
  first := pointerTo 0 values
  last := lastPointer values

/-- First, last, next and previous all agree with the order of the cells. -/
def Consistent (list : LinkedList α) : Prop :=
  list = ofList list.values

@[simp]
theorem linkFrom_length (previous : Option ℕ) (address : ℕ) (values : List α) :
    (linkFrom previous address values).length = values.length := by
  induction values generalizing previous address with
  | nil => rfl
  | cons value rest inductionHypothesis => simp [linkFrom, inductionHypothesis]

@[simp]
theorem linkFrom_values
    (previous : Option ℕ) (address : ℕ) (values : List α) :
    (linkFrom previous address values).map Cell.value = values := by
  induction values generalizing previous address with
  | nil => rfl
  | cons value rest inductionHypothesis => simp [linkFrom, inductionHypothesis]

@[simp]
theorem values_ofList (values : List α) : (ofList values).values = values :=
  linkFrom_values none 0 values

theorem consistent_ofList (values : List α) : (ofList values).Consistent := by
  simp [Consistent]

theorem forwardFrom_linkFrom
    (previous : Option ℕ) (address : ℕ) (values : List α) :
    ForwardFrom address (linkFrom previous address values) := by
  induction values generalizing previous address with
  | nil => trivial
  | cons value rest inductionHypothesis =>
      refine ⟨?_, inductionHypothesis (some address) (address + 1)⟩
      cases rest <;> rfl

theorem forward_ofList (values : List α) : (ofList values).Forward := by
  refine ⟨?_, forwardFrom_linkFrom none 0 values⟩
  cases values <;> rfl

theorem Consistent.forward {list : LinkedList α} (consistent : list.Consistent) :
    list.Forward := by
  rw [Consistent] at consistent
  rw [consistent]
  exact forward_ofList list.values

/-! ## Appending -/

/--
Allocate a cell and hang it behind the last one:

`if (last == NULL) first = last = new;`
`else { last->next = new; new->previous = last; last = new; }`
-/
def append (list : LinkedList α) (value : α) : LinkedList α :=
  let address := list.cells.length
  match list.last with
  | none =>
      { cells := list.cells ++ [⟨value, none, none⟩]
        first := some address
        last := some address }
  | some tail =>
      { cells :=
          list.cells.modify tail
              (fun cell => { cell with next := some address }) ++
            [⟨value, some tail, none⟩]
        first := list.first
        last := some address }

theorem linkFrom_concat
    (previous : Option ℕ) (address : ℕ) (front : List α) (back value : α) :
    linkFrom previous address (front ++ [back] ++ [value]) =
      (linkFrom previous address (front ++ [back])).modify front.length
          (fun cell =>
            { cell with next := some (address + front.length + 1) }) ++
        [⟨value, some (address + front.length), none⟩] := by
  induction front generalizing previous address with
  | nil => simp [linkFrom]
  | cons head front inductionHypothesis =>
      have stepped := inductionHypothesis (some address) (address + 1)
      have shifted : address + 1 + front.length = address + (front.length + 1) := by
        omega
      simp only [List.cons_append, List.append_assoc] at stepped ⊢
      simp only [linkFrom, stepped, List.length_cons, List.modify_succ_cons,
        shifted, List.cons_append]
      cases front <;> simp

/-- Appending to a consistent list gives the consistent longer list. -/
theorem append_ofList (values : List α) (value : α) :
    (ofList values).append value = ofList (values ++ [value]) := by
  rcases List.eq_nil_or_concat values with rfl | ⟨front, back, rfl⟩
  · rfl
  · have linked := linkFrom_concat none 0 front back value
    have first :
        pointerTo 0 (front ++ [back] ++ [value]) =
          pointerTo 0 (front ++ [back]) := by
      cases front <;> rfl
    simp only [List.concat_eq_append]
    simp only [append, ofList, lastPointer_concat, linkFrom_length, first]
    simp only [Nat.zero_add] at linked
    rw [linked]
    simp

/-- Appending a whole sequence, one value at a time. -/
theorem foldl_append_ofList (values more : List α) :
    more.foldl append (ofList values) = ofList (values ++ more) := by
  induction more generalizing values with
  | nil => simp
  | cons value more inductionHypothesis =>
      rw [List.foldl_cons, append_ofList, inductionHypothesis]
      simp

theorem foldl_append_empty (values : List α) :
    values.foldl append empty = ofList values := by
  have built := foldl_append_ofList [] values
  rwa [List.nil_append] at built

/-- A loop which appends something for each element. -/
theorem foldl_append_apply (f : β → α) (values : List β) :
    values.foldl (fun list value => append list (f value)) empty =
      ofList (values.map f) := by
  rw [← foldl_append_empty, List.foldl_map]

/-- A loop which appends something for each element of a mapped sequence. -/
theorem foldl_append_map {γ : Type} (f : β → α) (g : γ → β) (values : List γ) :
    (values.map g).foldl (fun list value => append list (f value)) empty =
      ofList (values.map fun value => f (g value)) := by
  rw [foldl_append_apply, List.map_map]
  rfl

theorem storeAll_linkFrom
    (previous : Option ℕ) (address : ℕ) (old : List α) (values : List β)
    (sameLength : values.length = old.length) :
    storeAll (linkFrom previous address old) values =
      linkFrom previous address values := by
  induction old generalizing previous address values with
  | nil =>
      cases values with
      | nil => rfl
      | cons value values => simp at sameLength
  | cons head old inductionHypothesis =>
      cases values with
      | nil => simp at sameLength
      | cons value values =>
          have restLength : values.length = old.length := by
            simpa using sameLength
          have stepped :=
            inductionHypothesis (some address) (address + 1) values restLength
          simp only [storeAll] at stepped
          simp only [storeAll, linkFrom, List.zipWith_cons_cons, stepped]
          cases old <;> cases values <;> simp_all

/-- Storing other values in a consistent list keeps it consistent. -/
theorem withValues_ofList
    (old : List α) (values : List β)
    (sameLength : values.length = old.length) :
    (ofList old).withValues values = ofList values := by
  have first : pointerTo 0 old = pointerTo 0 values := by
    cases old <;> cases values <;> simp_all
  have last : lastPointer old = lastPointer values := by
    cases old <;> cases values <;> simp_all [lastPointer]
  simp only [withValues, ofList, first, last,
    storeAll_linkFrom none 0 old values sameLength]

end LinkedList

end FederatedEdge.Library
