import Mathlib.Tactic.SplitIfs

/-!
# Programs which may fail and which may go wrong

A C function which reports failure, and which may also do what has no defined
meaning: an access outside of an array, a loop which does not end.  `Ends`
describes what such a program may end with.  Undefined behaviour has to be
excused; where nothing excuses it there is none.
-/

namespace FederatedEdge.Library

/-- Why there is no result. -/
inductive Stop where
  | failed
  | undefined
deriving DecidableEq, Repr

theorem Stop.ok_bind {α β : Type} (result : α) (next : α → Except Stop β) :
    (Except.ok result >>= next) = next result :=
  rfl

/--
The program has a result as described.  It fails only where `failure` allows it
to, and there is undefined behaviour only where there is an `excuse`.
-/
def Ends {α : Type} (run : Except Stop α) (post : α → Prop)
    (failure excuse : Prop) : Prop :=
  match run with
  | .ok result => post result
  | .error .failed => failure
  | .error .undefined => excuse

namespace Ends

variable {α β : Type} {post : α → Prop} {failure excuse : Prop}

theorem ok {result : α} (holds : post result) :
    Ends (.ok result) post failure excuse :=
  holds

theorem failed (allowed : failure) :
    Ends (.error .failed : Except Stop α) post failure excuse :=
  allowed

theorem undefined (excused : excuse) :
    Ends (.error .undefined : Except Stop α) post failure excuse :=
  excused

theorem mono {run : Except Stop α} {weaker : α → Prop} {other another : Prop}
    (ends : Ends run post failure excuse)
    (implies : ∀ result, post result → weaker result)
    (fails : failure → other) (excuses : excuse → another) :
    Ends run weaker other another := by
  cases run with
  | ok result => exact implies result ends
  | error stop => cases stop with
    | failed => exact fails ends
    | undefined => exact excuses ends

/-- One program after the other. -/
theorem bind {run : Except Stop α} {next : α → Except Stop β}
    {final : β → Prop} (first : Ends run post failure excuse)
    (second : ∀ result, post result → Ends (next result) final failure excuse) :
    Ends (run >>= next) final failure excuse := by
  cases run with
  | ok result => exact second result first
  | error stop => cases stop with
    | failed => exact first
    | undefined => exact first

theorem ite {run other : Except Stop α} {condition : Prop} [Decidable condition]
    (yes : condition → Ends run post failure excuse)
    (no : ¬condition → Ends other post failure excuse) :
    Ends (if condition then run else other) post failure excuse := by
  split_ifs with holds
  · exact yes holds
  · exact no holds

theorem of_ok {run : Except Stop α} {result : α}
    (ends : Ends run post failure excuse) (same : run = .ok result) :
    post result := by
  rw [same] at ends
  exact ends

end Ends

end FederatedEdge.Library
