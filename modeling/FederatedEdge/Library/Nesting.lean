import Mathlib.Data.List.Basic
import Mathlib.Data.List.Count
import Mathlib.Data.Int.Basic
import Mathlib.Tactic.Common
import Mathlib.Tactic.Linarith
import Mathlib.Tactic.Ring

/-!
# Nested brackets

Texts over symbols of which one opens and another one closes a group.  In a
nested text all groups are closed; a bracketed text is a single group.  Counting
brackets finds the end of a bracketed text: all of its symbols are needed before
as many groups are closed as are open.
-/

namespace FederatedEdge.Library

variable {α : Type}

/-- All groups are closed, each after it was opened. -/
inductive Nested (opening closing : α) : List α → Prop where
  | nil : Nested opening closing []
  | plain {symbol rest}
      (notOpening : symbol ≠ opening) (notClosing : symbol ≠ closing)
      (tail : Nested opening closing rest) :
      Nested opening closing (symbol :: rest)
  | group {inner rest}
      (inside : Nested opening closing inner)
      (tail : Nested opening closing rest) :
      Nested opening closing (opening :: (inner ++ closing :: rest))

/-- One group, from the first symbol to the last. -/
def Bracketed (opening closing : α) (text : List α) : Prop :=
  ∃ inner, Nested opening closing inner ∧
    text = opening :: (inner ++ [closing])

/-- A text without brackets is nested. -/
theorem Nested.of_forall_ne {opening closing : α} {text : List α}
    (plain : ∀ symbol ∈ text, symbol ≠ opening ∧ symbol ≠ closing) :
    Nested opening closing text := by
  induction text with
  | nil => exact .nil
  | cons head rest inductionHypothesis =>
      have first := plain head List.mem_cons_self
      exact .plain first.1 first.2 (inductionHypothesis fun symbol member =>
        plain symbol (List.mem_cons_of_mem _ member))

/-- One nested text after another. -/
theorem Nested.append {opening closing : α} {left right : List α}
    (first : Nested opening closing left) (second : Nested opening closing right) :
    Nested opening closing (left ++ right) := by
  induction first with
  | nil => exact second
  | plain notOpening notClosing _ inductionHypothesis =>
      exact .plain notOpening notClosing inductionHypothesis
  | @group inner rest inside _ _ tailHypothesis =>
      rw [List.cons_append, List.append_assoc, List.cons_append]
      exact .group inside tailHypothesis

theorem Bracketed.nested {opening closing : α} {text : List α}
    (bracketed : Bracketed opening closing text) : Nested opening closing text := by
  rcases bracketed with ⟨inner, nested, rfl⟩
  exact .group nested .nil

variable [DecidableEq α]

/-- The number of groups which are opened and not closed. -/
def depth (opening closing : α) (text : List α) : ℤ :=
  text.count opening - text.count closing

variable {opening closing : α} {text front : List α}

@[simp]
theorem depth_nil : depth opening closing [] = 0 := by
  simp [depth]

theorem depth_append (left right : List α) :
    depth opening closing (left ++ right) =
      depth opening closing left + depth opening closing right := by
  simp only [depth, List.count_append]
  push_cast
  ring

theorem depth_cons_plain {symbol : α} (rest : List α)
    (notOpening : symbol ≠ opening) (notClosing : symbol ≠ closing) :
    depth opening closing (symbol :: rest) = depth opening closing rest := by
  simp [depth, List.count_cons_of_ne, notOpening, notClosing]

theorem depth_cons_opening (different : opening ≠ closing) (rest : List α) :
    depth opening closing (opening :: rest) =
      depth opening closing rest + 1 := by
  simp only [depth, List.count_cons_self, List.count_cons_of_ne different]
  push_cast
  ring

theorem depth_cons_closing (different : opening ≠ closing) (rest : List α) :
    depth opening closing (closing :: rest) =
      depth opening closing rest - 1 := by
  simp only [depth, List.count_cons_self, List.count_cons_of_ne different.symm]
  push_cast
  ring

/-- As many groups are closed as are opened. -/
theorem Nested.depth_eq_zero (different : opening ≠ closing)
    (nested : Nested opening closing text) :
    depth opening closing text = 0 := by
  induction nested with
  | nil => exact depth_nil
  | plain notOpening notClosing _ inductionHypothesis =>
      rw [depth_cons_plain _ notOpening notClosing]
      exact inductionHypothesis
  | group _ _ insideHypothesis tailHypothesis =>
      rw [depth_cons_opening different, depth_append,
        depth_cons_closing different, insideHypothesis, tailHypothesis]
      norm_num

/-- Nowhere have more groups been closed than opened. -/
theorem Nested.depth_prefix_nonneg (different : opening ≠ closing)
    (nested : Nested opening closing text) (early : front <+: text) :
    0 ≤ depth opening closing front := by
  induction nested generalizing front with
  | nil =>
      rw [List.prefix_nil.mp early, depth_nil]
  | plain notOpening notClosing _ inductionHypothesis =>
      rcases front with _ | ⟨symbol, front⟩
      · rw [depth_nil]
      · rcases List.cons_prefix_cons.mp early with ⟨rfl, within⟩
        rw [depth_cons_plain _ notOpening notClosing]
        exact inductionHypothesis within
  | @group inner rest inside _ insideHypothesis tailHypothesis =>
      rcases front with _ | ⟨symbol, front⟩
      · rw [depth_nil]
      · rcases List.cons_prefix_cons.mp early with ⟨rfl, reach⟩
        rw [depth_cons_opening different]
        rcases List.prefix_or_prefix_of_prefix reach
            (List.prefix_append inner (closing :: rest))
          with within | beyond
        · have inner_nonneg := insideHypothesis within
          linarith
        · -- the prefix reaches behind the end of the first group
          rcases beyond with ⟨front, rfl⟩
          have later := (List.prefix_append_right_inj inner).mp reach
          rw [depth_append, inside.depth_eq_zero different]
          rcases front with _ | ⟨symbol, front⟩
          · rw [depth_nil]
            norm_num
          · rcases List.cons_prefix_cons.mp later with ⟨rfl, behind⟩
            rw [depth_cons_closing different]
            have rest_nonneg := tailHypothesis behind
            linarith

namespace Bracketed

theorem depth_eq_zero (different : opening ≠ closing)
    (bracketed : Bracketed opening closing text) :
    depth opening closing text = 0 := by
  rcases bracketed with ⟨inner, nested, rfl⟩
  rw [depth_cons_opening different, depth_append,
    depth_cons_closing different, nested.depth_eq_zero different, depth_nil]
  norm_num

omit [DecidableEq α] in
theorem ne_nil (bracketed : Bracketed opening closing text) : text ≠ [] := by
  rcases bracketed with ⟨inner, -, rfl⟩
  exact List.cons_ne_nil _ _

/-- Before its end the group of a bracketed text is open. -/
theorem depth_prefix_pos (different : opening ≠ closing)
    (bracketed : Bracketed opening closing text) (early : front <+: text)
    (nonempty : front ≠ []) (proper : front ≠ text) :
    0 < depth opening closing front := by
  rcases bracketed with ⟨inner, nested, rfl⟩
  rcases front with _ | ⟨symbol, front⟩
  · exact (nonempty rfl).elim
  · rcases List.cons_prefix_cons.mp early with ⟨rfl, reach⟩
    rcases List.prefix_concat_iff.mp reach with whole | within
    · exact (proper (by rw [whole])).elim
    · rw [depth_cons_opening different]
      have inner_nonneg := nested.depth_prefix_nonneg different within
      linarith

/-- A text contains a group only if it opens one. -/
theorem count_opening_pos (bracketed : Bracketed opening closing text) :
    0 < text.count opening := by
  rcases bracketed with ⟨inner, -, rfl⟩
  simp

end Bracketed

end FederatedEdge.Library
