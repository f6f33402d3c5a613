import FederatedEdge.Fpga.Division
import FederatedEdge.Fpga.Exponential

/-!
# What the exponential latches

A series adds one term after the other to the sum, each when the divider has had
the time for two runs.  The edge which latches the result adds once more what
the divider holds then: the last term, a second time.
-/

namespace FederatedEdge.Fpga.NaturalExponential

open FederatedEdge.Library

variable {ITER : ℕ} {A : Word} {exponential : NaturalExponential}

/-! ## The series in the units' arithmetic -/

/-- The powers of `A`, by `M1`. -/
def power (A : Word) : ℕ → Word
  | 0 => one
  | k + 1 => ieee754_multiplier A (power A k)

/-- The numbers, by `A1`. -/
def number : ℕ → Word
  | 0 => 0
  | k + 1 => ieee754_adder one (number k)

/-- The factorials, by `M2`. -/
def factorial : ℕ → Word
  | 0 => one
  | k + 1 => ieee754_multiplier (number (k + 1)) (factorial k)

/-- The quotient of a power and its factorial, by `D1`. -/
def term (A : Word) (k : ℕ) : Word :=
  Divider.quotient 3 (power A k) (factorial k)

/-- The partial sums, by `A2`. -/
def taylorSum (A : Word) : ℕ → Word
  | 0 => one
  | k + 1 => ieee754_adder (term A (k + 1)) (taylorSum A k)

/-- What is divided last; a next power of zero resets the divider. -/
def lastTerm (ITER : ℕ) (A : Word) : Word :=
  if power A (ITER + 2) = 0 then 0 else term A (ITER + 1)

/-! ## The registers in a series -/

/-- The registers after `k` terms. -/
structure Registers (A : Word) (k : ℕ) (exponential : NaturalExponential) :
    Prop where
  pontential_mul : exponential.pontential_mul = power A k
  fatorial_count : exponential.fatorial_count = number k
  fatorial_mul : exponential.fatorial_mul = factorial k
  natural_exponential_sum : exponential.natural_exponential_sum = taylorSum A k

theorem Registers.divided_eq {k : ℕ} (registers : Registers A k exponential) :
    exponential.divided A =
      exponential.D1.posedge 3 exponential.div_enable (power A (k + 1))
        (factorial (k + 1)) := by
  rw [divided, M1_D1, M2_D1, A1_M2, registers.pontential_mul,
    registers.fatorial_count, registers.fatorial_mul]
  rfl

/-- The edge which adds a term to the sum takes every register one further. -/
theorem Registers.posedge_adding {k : ℕ} (quiet : exponential.done = false)
    (state : exponential.natural_exponential_counter = 3)
    (registers : Registers A k exponential)
    (divided : exponential.D1.result = term A (k + 1)) :
    Registers A (k + 1) (exponential.posedge ITER false A) := by
  rw [posedge_adds quiet state]
  refine ⟨?_, ?_, ?_, ?_⟩
  · change exponential.M1_D1 A = _
    rw [M1_D1, registers.pontential_mul]
    rfl
  · change exponential.A1_M2 = _
    rw [A1_M2, registers.fatorial_count]
    rfl
  · change exponential.M2_D1 = _
    rw [M2_D1, A1_M2, registers.fatorial_count, registers.fatorial_mul]
    rfl
  · change exponential.A2_OUT = _
    rw [A2_OUT, divided, registers.natural_exponential_sum]
    rfl

/-- Without enable the divider keeps its result, unless the dividend is zero. -/
theorem result_disabled (dividend B : Word) (divider : Divider) :
    (divider.posedge 3 false dividend B).result =
      if dividend = 0 then 0 else divider.result := by
  split_ifs with zero
  · rw [Divider.posedge, if_pos zero]
  · rw [Divider.posedge_disabled zero]

/-- The registers and the divider, up to the edge which latches. -/
inductive Series (ITER : ℕ) (A : Word) (exponential : NaturalExponential) :
    Prop where
  | cleared (state : exponential.natural_exponential_counter = 0)
      (disabled : exponential.div_enable = false)
  | enabling (state : exponential.natural_exponential_counter = 1)
      (division : exponential.index_division = 0)
      (few : exponential.index_fatorial ≤ ITER + 1)
      (registers : Registers A exponential.index_fatorial exponential)
      (disabled : exponential.div_enable = false)
      (divided :
        exponential.index_fatorial = ITER + 1 →
          exponential.D1.result = term A (ITER + 1))
  | dividing (state : exponential.natural_exponential_counter = 2)
      (division : exponential.index_division ≤ ITER * 2)
      (few : exponential.index_fatorial ≤ ITER)
      (registers : Registers A exponential.index_fatorial exponential)
      (enabled : exponential.div_enable = true)
      (approaching :
        Divider.Approaching 3 (power A (exponential.index_fatorial + 1))
          (factorial (exponential.index_fatorial + 1))
          (12 - exponential.index_division) exponential.D1)
  | latching (state : exponential.natural_exponential_counter = 2)
      (counted : exponential.index_fatorial = ITER + 1)
      (registers : Registers A (ITER + 1) exponential)
      (divided : exponential.D1.result = lastTerm ITER A)
  | adding {k : ℕ} (state : exponential.natural_exponential_counter = 3)
      (division : exponential.index_division = 0)
      (index : exponential.index_fatorial = k + 1) (few : k ≤ ITER)
      (registers : Registers A k exponential)
      (disabled : exponential.div_enable = false)
      (divided : exponential.D1.result = term A (k + 1))

/-- An enabled edge of the divider, with or without edges left to wait for. -/
theorem approaching_next {dividend B : Word} {left : ℕ} {divider : Divider}
    (nonzero : dividend ≠ 0)
    (approaching : Divider.Approaching 3 dividend B left divider) :
    Divider.Approaching 3 dividend B (left - 1)
      (divider.posedge 3 true dividend B) := by
  cases left with
  | zero => exact approaching.settled_posedge nonzero
  | succ left => exact approaching.posedge nonzero

/-- The edge which latches adds what the divider holds. -/
theorem Series.result_posedge (quiet : exponential.done = false)
    (latches : exponential.Latches ITER)
    (series : Series ITER A exponential) :
    (exponential.posedge ITER false A).result =
      ieee754_adder (lastTerm ITER A) (taylorSum A (ITER + 1)) := by
  rw [posedge_latches quiet latches]
  rcases latches with ⟨state, finished⟩
  cases series with
  | cleared wrong => exact absurd (wrong.symm.trans state) (by decide)
  | enabling wrong => exact absurd (wrong.symm.trans state) (by decide)
  | dividing _ _ few => exact absurd finished (Nat.not_lt.mpr few)
  | latching _ _ registers divided =>
      change exponential.A2_OUT = _
      rw [A2_OUT, divided, registers.natural_exponential_sum]
  | adding wrong => exact absurd (wrong.symm.trans state) (by decide)

section Step

variable (enough : 6 ≤ ITER)
  (nonzero : ∀ k ≤ ITER, power A (k + 1) ≠ 0)

include enough nonzero

theorem Series.posedge (quiet : exponential.done = false)
    (notLast : ¬ exponential.Latches ITER)
    (series : Series ITER A exponential) :
    Series ITER A (exponential.posedge ITER false A) := by
  cases series with
  | cleared state disabled =>
      rw [posedge_clears quiet state]
      refine .enabling rfl rfl (Nat.zero_le _) ⟨rfl, rfl, rfl, rfl⟩ disabled ?_
      intro impossible
      exact absurd impossible.symm (Nat.succ_ne_zero ITER)
  | enabling state division few registers disabled divided =>
      rw [posedge_enables quiet state]
      rcases Nat.lt_or_eq_of_le few with more | last
      · refine .dividing rfl (division.trans_le (Nat.zero_le _))
          (Nat.le_of_lt_succ more)
          ⟨registers.1, registers.2, registers.3, registers.4⟩ rfl ?_
        have waiting := Divider.leftover_le 3 (exponential.divided A)
        refine .leftover ?_
        change
          (exponential.divided A).leftover 3 + 3 + 3 ≤
            12 - exponential.index_division
        omega
      · rw [last] at registers
        refine .latching rfl last
          ⟨registers.1, registers.2, registers.3, registers.4⟩ ?_
        change (exponential.divided A).result = _
        rw [registers.divided_eq, disabled, result_disabled, divided last,
          lastTerm]
  | dividing state division few registers enabled approaching =>
      have next :
          Divider.Approaching 3 (power A (exponential.index_fatorial + 1))
            (factorial (exponential.index_fatorial + 1))
            (12 - exponential.index_division - 1) (exponential.divided A) := by
        rw [registers.divided_eq, enabled]
        exact approaching_next (nonzero _ few) approaching
      by_cases more : exponential.index_division < ITER * 2
      · rw [posedge_waits quiet state few more]
        refine .dividing state more few
          ⟨registers.1, registers.2, registers.3, registers.4⟩ enabled ?_
        rw [Nat.sub_sub] at next
        exact next
      · rw [posedge_disables quiet state few (Nat.not_lt.mp more)]
        rw [show 12 - exponential.index_division - 1 = 0 by omega] at next
        exact .adding rfl rfl rfl few
          ⟨registers.1, registers.2, registers.3, registers.4⟩ rfl
          next.result_eq
  | latching state counted registers divided =>
      exact absurd ⟨state, counted.ge⟩ notLast
  | @adding k state division index few registers disabled divided =>
      have added : Registers A (k + 1) (exponential.posedge ITER false A) :=
        registers.posedge_adding quiet state divided
      rw [posedge_adds quiet state] at added ⊢
      have kept : (exponential.divided A).result = term A (k + 1) := by
        rw [registers.divided_eq, disabled, result_disabled,
          if_neg (nonzero k few), divided]
      refine .enabling rfl division (index.trans_le (Nat.succ_le_succ few)) ?_
        disabled ?_
      · change Registers A exponential.index_fatorial _
        rw [index]
        exact ⟨added.1, added.2, added.3, added.4⟩
      · intro last
        change exponential.index_fatorial = _ at last
        have same : k = ITER := by omega
        rw [← same]
        exact kept

/-- A series which began with a reset, before the edge which latches. -/
theorem series_iterate (exponential : NaturalExponential) (other : Word) {n : ℕ}
    (before : n < seriesLength ITER) :
    Series ITER A
      ((NaturalExponential.posedge ITER false A)^[n]
        (exponential.posedge ITER true other)) := by
  induction n with
  | zero => exact .cleared rfl rfl
  | succ n inductionHypothesis =>
      rcases phase_iterate (A := A) exponential other n
        with ⟨phase, quiet⟩
      have series := inductionHypothesis (Nat.lt_of_succ_lt before)
      rw [Function.iterate_succ_apply']
      exact series.posedge enough nonzero quiet
        (phase.latches_iff.not.mpr before.ne)

/-- Whatever is latched after a reset has the last term in it twice. -/
theorem result_latched (exponential : NaturalExponential) (other : Word) {n : ℕ}
    (latches :
      ((NaturalExponential.posedge ITER false A)^[n]
        (exponential.posedge ITER true other)).Latches ITER) :
    ((NaturalExponential.posedge ITER false A)^[n + 1]
        (exponential.posedge ITER true other)).result =
      ieee754_adder (lastTerm ITER A) (taylorSum A (ITER + 1)) := by
  rcases phase_iterate (A := A) exponential other n
    with ⟨phase, quiet⟩
  have last := phase.latches_iff.mp latches
  rw [Function.iterate_succ_apply']
  exact (series_iterate enough nonzero exponential other
    (Nat.lt_of_succ_le last.le)).result_posedge quiet latches

end Step

end FederatedEdge.Fpga.NaturalExponential
