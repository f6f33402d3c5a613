import FederatedEdge.Library.LinkedList
import Mathlib.Data.List.Forall2

/-!
# Loops which keep the links

A loop which stores values into the cells of a list leaves its links alone,
whether or not they run forward, and even if it visits a cell more than once.
So whatever the loop does to single values, a forward list stays forward, and
it keeps its length.
-/

namespace FederatedEdge.Library.LinkedList

variable {α β : Type} {rel : α → α → Prop}

/-- The same next link, and related values. -/
def KeptCell (rel : α → α → Prop) (before after : Cell α) : Prop :=
  after.next = before.next ∧ rel before.value after.value

/-- The same links from cell to cell, and related values. -/
def SameLinks (rel : α → α → Prop) (before after : LinkedList α) : Prop :=
  after.first = before.first ∧
    List.Forall₂ (KeptCell rel) before.cells after.cells

namespace SameLinks

variable {before after : LinkedList α}

theorem refl (reflexive : ∀ value, rel value value) (list : LinkedList α) :
    SameLinks rel list list :=
  ⟨rfl, List.forall₂_same.mpr fun cell _ => ⟨rfl, reflexive cell.value⟩⟩

theorem trans_cells (transitive : ∀ x y z, rel x y → rel y z → rel x z)
    {first second third : List (Cell α)}
    (earlier : List.Forall₂ (KeptCell rel) first second)
    (later : List.Forall₂ (KeptCell rel) second third) :
    List.Forall₂ (KeptCell rel) first third := by
  induction earlier generalizing third with
  | nil => exact later
  | cons head _ inductionHypothesis =>
      rcases later with _ | ⟨next, rest⟩
      exact .cons ⟨next.1.trans head.1, transitive _ _ _ head.2 next.2⟩
        (inductionHypothesis rest)

theorem trans (transitive : ∀ x y z, rel x y → rel y z → rel x z)
    {first second third : LinkedList α}
    (left : SameLinks rel first second) (right : SameLinks rel second third) :
    SameLinks rel first third :=
  ⟨right.1.trans left.1, trans_cells transitive left.2 right.2⟩

/-- The stored values are related one by one. -/
theorem values (same : SameLinks rel before after) :
    List.Forall₂ rel before.values after.values := by
  rw [LinkedList.values, LinkedList.values, List.forall₂_map_left_iff,
    List.forall₂_map_right_iff]
  exact same.2.imp fun _ _ kept => kept.2

/-- What the relation passes on holds of all values if it did before. -/
theorem forall_values {P : α → Prop} (same : SameLinks rel before after)
    (passes : ∀ {old new}, rel old new → P old → P new)
    (holds : ∀ value ∈ before.values, P value) :
    ∀ value ∈ after.values, P value := by
  have related := same.values
  generalize before.values = old at related holds
  generalize after.values = new at related
  induction related with
  | nil => exact holds
  | cons head _ inductionHypothesis =>
      rw [List.forall_mem_cons] at holds ⊢
      exact ⟨passes head holds.1, inductionHypothesis holds.2⟩

theorem pointerTo_eq {old new : List (Cell α)} (address : ℕ)
    (kept : List.Forall₂ (KeptCell rel) old new) :
    pointerTo address new = pointerTo address old := by
  cases kept <;> rfl

theorem forwardFrom {old new : List (Cell α)} {address : ℕ}
    (kept : List.Forall₂ (KeptCell rel) old new)
    (forward : ForwardFrom address old) :
    ForwardFrom address new := by
  induction kept generalizing address with
  | nil => exact forward
  | cons head rest inductionHypothesis =>
      refine ⟨?_, inductionHypothesis forward.2⟩
      rw [head.1, forward.1, pointerTo_eq _ rest]

/-- A forward list stays one. -/
theorem forward (same : SameLinks rel before after) (forward : before.Forward) :
    after.Forward := by
  refine ⟨?_, forwardFrom same.2 forward.2⟩
  rw [same.1, forward.1, pointerTo_eq _ same.2]

end SameLinks

/-- Storing a related value in a cell. -/
theorem kept_set (reflexive : ∀ value, rel value value) {cells : List (Cell α)}
    {address : ℕ} {cell : Cell α} {value : α}
    (here : cells[address]? = some cell) (related : rel cell.value value) :
    List.Forall₂ (KeptCell rel) cells
      (cells.set address { cell with value := value }) := by
  induction cells generalizing address with
  | nil => cases here
  | cons head rest inductionHypothesis =>
      cases address with
      | zero =>
          rw [List.getElem?_cons_zero, Option.some.injEq] at here
          subst here
          exact .cons ⟨rfl, related⟩
            (List.forall₂_same.mpr fun cell _ => ⟨rfl, reflexive cell.value⟩)
      | succ address =>
          rw [List.getElem?_cons_succ] at here
          exact .cons ⟨rfl, reflexive head.value⟩ (inductionHypothesis here)

section Zip

variable {body : α → β → Exec α} (reflexive : ∀ value, rel value value)
  (transitive : ∀ x y z, rel x y → rel y z → rel x z)
  (keeps : ∀ {value other result}, body value other = .ok result →
    rel value result)

include reflexive transitive keeps

theorem zipFrom_kept {fuel : ℕ} {first cursor : Option ℕ}
    {cells result : List (Cell α)} {others : List (Cell β)}
    (finishes : zipFrom body fuel first cells cursor others = .ok result) :
    List.Forall₂ (KeptCell rel) cells result := by
  induction fuel generalizing first cursor cells with
  | zero =>
      cases first with
      | none =>
          rw [zipFrom, Except.ok.injEq] at finishes
          subst finishes
          exact List.forall₂_same.mpr fun cell _ => ⟨rfl, reflexive cell.value⟩
      | some address => simp [zipFrom] at finishes
  | succ fuel inductionHypothesis =>
      cases first with
      | none =>
          rw [zipFrom, Except.ok.injEq] at finishes
          subst finishes
          exact List.forall₂_same.mpr fun cell _ => ⟨rfl, reflexive cell.value⟩
      | some address =>
          rw [zipFrom] at finishes
          cases here : cells[address]? with
          | none => simp [here] at finishes
          | some cell =>
              simp only [here, Exec.bind_eq_ok] at finishes
              rcases finishes with ⟨otherAddress, -, finishes⟩
              cases there : others[otherAddress]? with
              | none => simp [there] at finishes
              | some other =>
                  simp only [there, Exec.bind_eq_ok] at finishes
                  rcases finishes with ⟨value, stored, finishes⟩
                  exact SameLinks.trans_cells transitive
                    (kept_set reflexive here (keeps stored))
                    (inductionHypothesis finishes)

/-- The loop over two lists keeps the links of the list which it updates. -/
theorem zip_sameLinks {list result : LinkedList α} {others : LinkedList β}
    (finishes : list.zip body others = .ok result) :
    SameLinks rel list result := by
  simp only [zip, Exec.bind_eq_ok, Except.ok.injEq] at finishes
  rcases finishes with ⟨cells, walked, rfl⟩
  exact ⟨rfl, zipFrom_kept reflexive transitive keeps walked⟩

end Zip

end FederatedEdge.Library.LinkedList
