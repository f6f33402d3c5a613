import Mathlib.Data.Nat.Count
import Mathlib.Logic.Function.Iterate

/-!
# Clocked machines

At every edge of its clock a machine takes a step, which reads the state and the
inputs from before the edge.  The edges are counted from power-on.
-/

namespace FederatedEdge.Library

variable {State Input : Type}

/-- The state before edge number `t`. -/
def stateAt (step : State → Input → State) (start : State) (inputs : ℕ → Input) :
    ℕ → State
  | 0 => start
  | t + 1 => step (stateAt step start inputs t) (inputs t)

variable {step : State → Input → State} {start : State} {inputs : ℕ → Input}

/-- What every step preserves holds before every edge. -/
theorem stateAt_invariant (Inv : State → Prop)
    (preserved : ∀ state input, Inv state → Inv (step state input))
    (holds : Inv start) (t : ℕ) : Inv (stateAt step start inputs t) := by
  induction t with
  | zero => exact holds
  | succ t inductionHypothesis => exact preserved _ _ inductionHypothesis

/-- Phases which follow each other for `n` edges, from edge `t` on. -/
theorem stateAt_phased (Phase : ℕ → State → Prop) {t n : ℕ}
    (begins : Phase 0 (stateAt step start inputs t))
    (advances : ∀ k < n, ∀ state, Phase k state →
      Phase (k + 1) (step state (inputs (t + k)))) :
    Phase n (stateAt step start inputs (t + n)) := by
  induction n with
  | zero => exact begins
  | succ n inductionHypothesis =>
      apply advances n (Nat.lt_succ_self n)
      apply inductionHypothesis
      intro k earlier
      exact advances k (Nat.lt_succ_of_lt earlier)

/-- A part of a machine is a machine on what the whole feeds to it. -/
theorem stateAt_part {Part PartInput : Type} (view : State → Part)
    (feed : State → Input → PartInput) (partStep : Part → PartInput → Part)
    (steps : ∀ state input,
      view (step state input) = partStep (view state) (feed state input))
    (t : ℕ) :
    view (stateAt step start inputs t) =
      stateAt partStep (view start)
        (fun t => feed (stateAt step start inputs t) (inputs t)) t := by
  induction t with
  | zero => rfl
  | succ t inductionHypothesis =>
      rw [stateAt, steps, inductionHypothesis]
      rfl

/-- Edges which change nothing may be left out. -/
theorem stateAt_stalls {step : State → Bool → State}
    (stalls : ∀ state, step state false = state) (start : State)
    (enables : ℕ → Bool) (t : ℕ) :
    stateAt step start enables t =
      (fun state => step state true)^[Nat.count (fun u => enables u = true) t]
        start := by
  induction t with
  | zero => rfl
  | succ t inductionHypothesis =>
      rw [stateAt, Nat.count_succ, inductionHypothesis]
      cases enabled : enables t with
      | false =>
          rw [stalls, if_neg Bool.false_ne_true, Nat.add_zero]
      | true =>
          rw [if_pos rfl, Function.iterate_succ_apply']

/-- A phase which every step brings closer is reached and kept. -/
theorem iterate_countdown (Phase : ℕ → State → Prop) {step : State → State}
    (advances : ∀ left state, Phase (left + 1) state → Phase left (step state))
    (stays : ∀ state, Phase 0 state → Phase 0 (step state)) {left steps : ℕ}
    (enough : left ≤ steps) {start : State} (begins : Phase left start) :
    Phase 0 (step^[steps] start) := by
  induction steps generalizing left start with
  | zero =>
      rw [Nat.le_zero.mp enough] at begins
      exact begins
  | succ steps inductionHypothesis =>
      cases left with
      | zero => exact inductionHypothesis (Nat.zero_le _) (stays _ begins)
      | succ left =>
          exact inductionHypothesis (Nat.le_of_succ_le_succ enough)
            (advances _ _ begins)

end FederatedEdge.Library
