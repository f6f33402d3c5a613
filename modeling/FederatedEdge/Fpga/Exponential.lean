import FederatedEdge.Fpga.Alu
import FederatedEdge.Library.Clocked

/-!
# Runs of the exponential

A series takes a fixed number of edges: one which clears the registers, and for
every term one which enables the divider, those which wait for it and one which
adds; then the divider is enabled once more, and the edge after it latches the
result.  After that the module idles until a reset.

The edge which latches also sets `done`, and takes it back before it ends.
-/

namespace FederatedEdge.Fpga.NaturalExponential

open FederatedEdge.Library

variable {ITER n left : ℕ} {A : Word} {exponential : NaturalExponential}

/-! ## The case statement, state by state -/

theorem advance_clears (state : exponential.natural_exponential_counter = 0) :
    exponential.advance ITER A =
      { exponential.clear with natural_exponential_counter := 1 } :=
  if_pos state

theorem advance_enables (state : exponential.natural_exponential_counter = 1) :
    exponential.advance ITER A =
      { exponential with
        natural_exponential_counter := 2
        div_enable := true } := by
  simp [advance, state]

theorem advance_waits (state : exponential.natural_exponential_counter = 2)
    (terms : exponential.index_fatorial ≤ ITER)
    (more : exponential.index_division < ITER * 2) :
    exponential.advance ITER A =
      { exponential with
        index_division := exponential.index_division + 1 } := by
  simp [advance, count, state, terms, more]

theorem advance_disables (state : exponential.natural_exponential_counter = 2)
    (terms : exponential.index_fatorial ≤ ITER)
    (last : ITER * 2 ≤ exponential.index_division) :
    exponential.advance ITER A =
      { exponential with
        div_enable := false
        index_division := 0
        index_fatorial := exponential.index_fatorial + 1
        natural_exponential_counter := 3 } := by
  simp [advance, count, state, terms, Nat.not_lt.mpr last]

theorem advance_adds (state : exponential.natural_exponential_counter = 3) :
    exponential.advance ITER A =
      { exponential with
        pontential_mul := exponential.M1_D1 A
        fatorial_count := exponential.A1_M2
        fatorial_mul := exponential.M2_D1
        natural_exponential_sum := exponential.A2_OUT
        natural_exponential_counter := 1 } := by
  simp [advance, state]

theorem advance_idles (state : exponential.natural_exponential_counter = 4) :
    exponential.advance ITER A = { exponential with done := false } := by
  simp [advance, state]

/-- The edge stores a result. -/
def Latches (ITER : ℕ) (exponential : NaturalExponential) : Prop :=
  exponential.natural_exponential_counter = 2 ∧
    ITER < exponential.index_fatorial

theorem advance_latches (latches : exponential.Latches ITER) :
    exponential.advance ITER A =
      { exponential with
        result := exponential.A2_OUT
        done := true
        natural_exponential_counter := 4 } := by
  rcases latches with ⟨state, finished⟩
  simp [advance, count, state, Nat.not_le.mpr finished]

/-! ## One edge without a reset -/

/-- The divider after the edge. -/
def divided (A : Word) (exponential : NaturalExponential) : Divider :=
  exponential.D1.posedge 3 exponential.div_enable (exponential.M1_D1 A)
    exponential.M2_D1

theorem posedge_quiet (quiet : (exponential.advance ITER A).done = false) :
    exponential.posedge ITER false A =
      { exponential.advance ITER A with D1 := exponential.divided A } := by
  have keeps :
      ¬ ((exponential.advance ITER A).done = true ∧
        (exponential.advance ITER A).natural_exponential_counter ≠ 2) := by
    rw [quiet]
    exact fun both => Bool.noConfusion both.1
  rw [posedge, if_neg Bool.false_ne_true, takeBack, if_neg keeps]
  rfl

section Edge

variable (quiet : exponential.done = false)

include quiet

theorem posedge_clears (state : exponential.natural_exponential_counter = 0) :
    exponential.posedge ITER false A =
      { exponential.clear with
        natural_exponential_counter := 1
        D1 := exponential.divided A } := by
  rw [posedge_quiet, advance_clears state]
  rw [advance_clears state]
  exact quiet

theorem posedge_enables (state : exponential.natural_exponential_counter = 1) :
    exponential.posedge ITER false A =
      { exponential with
        natural_exponential_counter := 2
        div_enable := true
        D1 := exponential.divided A } := by
  rw [posedge_quiet, advance_enables state]
  rw [advance_enables state]
  exact quiet

theorem posedge_waits (state : exponential.natural_exponential_counter = 2)
    (terms : exponential.index_fatorial ≤ ITER)
    (more : exponential.index_division < ITER * 2) :
    exponential.posedge ITER false A =
      { exponential with
        index_division := exponential.index_division + 1
        D1 := exponential.divided A } := by
  rw [posedge_quiet, advance_waits state terms more]
  rw [advance_waits state terms more]
  exact quiet

theorem posedge_disables (state : exponential.natural_exponential_counter = 2)
    (terms : exponential.index_fatorial ≤ ITER)
    (last : ITER * 2 ≤ exponential.index_division) :
    exponential.posedge ITER false A =
      { exponential with
        div_enable := false
        index_division := 0
        index_fatorial := exponential.index_fatorial + 1
        natural_exponential_counter := 3
        D1 := exponential.divided A } := by
  rw [posedge_quiet, advance_disables state terms last]
  rw [advance_disables state terms last]
  exact quiet

theorem posedge_adds (state : exponential.natural_exponential_counter = 3) :
    exponential.posedge ITER false A =
      { exponential with
        pontential_mul := exponential.M1_D1 A
        fatorial_count := exponential.A1_M2
        fatorial_mul := exponential.M2_D1
        natural_exponential_sum := exponential.A2_OUT
        natural_exponential_counter := 1
        D1 := exponential.divided A } := by
  rw [posedge_quiet, advance_adds state]
  rw [advance_adds state]
  exact quiet

theorem posedge_idles (state : exponential.natural_exponential_counter = 4) :
    exponential.posedge ITER false A =
      { exponential with D1 := exponential.divided A } := by
  rw [posedge_quiet, advance_idles state, ← quiet]
  rw [advance_idles state]

/-- `done` is set and taken back by one edge. -/
theorem posedge_latches (latches : exponential.Latches ITER) :
    exponential.posedge ITER false A =
      { exponential with
        result := exponential.A2_OUT
        natural_exponential_counter := 4
        D1 := exponential.divided A } := by
  rw [posedge, if_neg Bool.false_ne_true, takeBack, advance_latches latches,
    if_pos, ← quiet]
  · rfl
  · exact ⟨rfl, (by decide : (4 : BitVec 3) ≠ 2)⟩

end Edge

/-! ## Counting the edges of a series -/

/-- From the edge which clears to the one which latches. -/
def seriesLength (ITER : ℕ) : ℕ :=
  (2 * ITER + 3) * (ITER + 1) + 3

/-- In the middle of a series, `left` edges before the one which latches. -/
inductive Counting (ITER left : ℕ) (exponential : NaturalExponential) : Prop where
  | enabling {terms : ℕ} (state : exponential.natural_exponential_counter = 1)
      (division : exponential.index_division = 0)
      (counted : exponential.index_fatorial + terms = ITER + 1)
      (remaining : left = (2 * ITER + 3) * terms + 1)
  | dividing {terms : ℕ} (state : exponential.natural_exponential_counter = 2)
      (division : exponential.index_division ≤ ITER * 2)
      (counted : exponential.index_fatorial + (terms + 1) = ITER + 1)
      (remaining :
        left + exponential.index_division = (2 * ITER + 3) * (terms + 1))
  | latching (state : exponential.natural_exponential_counter = 2)
      (counted : exponential.index_fatorial = ITER + 1) (remaining : left = 0)
  | adding {terms : ℕ} (state : exponential.natural_exponential_counter = 3)
      (division : exponential.index_division = 0)
      (counted : exponential.index_fatorial + terms = ITER + 1)
      (remaining : left = (2 * ITER + 3) * terms + 2)

theorem Counting.posedge (quiet : exponential.done = false)
    (counting : Counting ITER (left + 1) exponential) :
    Counting ITER left (exponential.posedge ITER false A) ∧
      (exponential.posedge ITER false A).done = false := by
  cases counting with
  | @enabling terms state division counted remaining =>
      rw [posedge_enables quiet state]
      refine ⟨?_, quiet⟩
      cases terms with
      | zero => exact .latching rfl counted (by omega)
      | succ terms =>
          have none : exponential.index_division ≤ ITER * 2 := by omega
          refine .dividing rfl none counted ?_
          change left + exponential.index_division = _
          omega
  | @dividing terms state division counted remaining =>
      by_cases more : exponential.index_division < ITER * 2
      · rw [posedge_waits quiet state (by omega) more]
        refine ⟨.dividing state more counted ?_, quiet⟩
        change left + (exponential.index_division + 1) = _
        omega
      · rw [posedge_disables quiet state (by omega) (Nat.not_lt.mp more)]
        have next : exponential.index_fatorial + 1 + terms = ITER + 1 := by
          omega
        refine ⟨.adding rfl rfl next ?_, quiet⟩
        rw [Nat.mul_succ] at remaining
        omega
  | latching _ _ remaining => exact absurd remaining (Nat.succ_ne_zero left)
  | adding state division counted remaining =>
      rw [posedge_adds quiet state]
      exact ⟨.enabling rfl division counted (Nat.succ.inj remaining), quiet⟩

theorem Counting.latches_iff (counting : Counting ITER left exponential) :
    exponential.Latches ITER ↔ left = 0 := by
  unfold Latches
  cases counting with
  | enabling state _ _ remaining => simp [state, remaining]
  | dividing state division counted remaining =>
      rw [state, and_iff_right rfl]
      rw [Nat.mul_succ] at remaining
      omega
  | latching state counted remaining => simp [state, counted, remaining]
  | adding state _ _ remaining => simp [state, remaining]

/-- The state after `n` edges without a reset. -/
inductive Phase (ITER n : ℕ) (exponential : NaturalExponential) : Prop where
  | cleared (begins : n = 0)
      (state : exponential.natural_exponential_counter = 0)
  | counting {left : ℕ} (position : n + left + 1 = seriesLength ITER)
      (counting : Counting ITER left exponential)
  | idle (finished : seriesLength ITER ≤ n)
      (state : exponential.natural_exponential_counter = 4)

theorem Phase.posedge (quiet : exponential.done = false)
    (phase : Phase ITER n exponential) :
    Phase ITER (n + 1) (exponential.posedge ITER false A) ∧
      (exponential.posedge ITER false A).done = false := by
  cases phase with
  | cleared begins state =>
      rw [posedge_clears quiet state]
      refine ⟨.counting ?_ (.enabling rfl rfl (Nat.zero_add _) rfl), quiet⟩
      rw [begins, seriesLength]
      omega
  | @counting left position counting =>
      cases left with
      | zero =>
          rw [posedge_latches quiet (counting.latches_iff.mpr rfl)]
          exact ⟨.idle position.ge rfl, quiet⟩
      | succ left =>
          have next := counting.posedge (A := A) quiet
          exact ⟨.counting (by omega) next.1, next.2⟩
  | idle finished state =>
      rw [posedge_idles quiet state]
      exact ⟨.idle (Nat.le_succ_of_le finished) state, quiet⟩

theorem Phase.latches_iff (phase : Phase ITER n exponential) :
    exponential.Latches ITER ↔ n + 1 = seriesLength ITER := by
  cases phase with
  | cleared begins state =>
      rw [Latches, state, begins, seriesLength]
      exact iff_of_false (fun both => absurd both.1 (by decide)) (by omega)
  | counting position counting =>
      rw [counting.latches_iff]
      omega
  | idle finished state =>
      rw [Latches, state]
      exact iff_of_false (fun both => absurd both.1 (by decide)) (by omega)

theorem posedge_reset (exponential : NaturalExponential) :
    Phase ITER 0 (exponential.posedge ITER true A) ∧
      (exponential.posedge ITER true A).done = false :=
  ⟨.cleared rfl rfl, rfl⟩

/-- The edges after one with a reset. -/
theorem phase_iterate (exponential : NaturalExponential) (other : Word) (n : ℕ) :
    Phase ITER n
        ((NaturalExponential.posedge ITER false A)^[n]
          (exponential.posedge ITER true other)) ∧
      ((NaturalExponential.posedge ITER false A)^[n]
          (exponential.posedge ITER true other)).done = false := by
  induction n with
  | zero => exact posedge_reset exponential
  | succ n inductionHypothesis =>
      rw [Function.iterate_succ_apply']
      exact inductionHypothesis.1.posedge inductionHypothesis.2

/-! ## Runs with resets -/

/-- The edges since the last one with a reset, or since power-on. -/
def sinceReset (resets : ℕ → Bool) : ℕ → ℕ
  | 0 => 0
  | t + 1 => if resets t then 0 else sinceReset resets t + 1

/-- Before edge `t`, with the reset and the operand of every edge. -/
abbrev runAt (ITER : ℕ) (start : NaturalExponential)
    (inputs : ℕ → Bool × Word) (t : ℕ) : NaturalExponential :=
  stateAt
    (fun exponential (input : Bool × Word) =>
      exponential.posedge ITER input.1 input.2)
    start inputs t

section Run

variable {start : NaturalExponential} {inputs : ℕ → Bool × Word}

theorem phase_runAt (on : start.PowerOn) (t : ℕ) :
    Phase ITER (sinceReset (fun u => (inputs u).1) t)
        (runAt ITER start inputs t) ∧
      (runAt ITER start inputs t).done = false := by
  induction t with
  | zero => exact ⟨.cleared rfl on.natural_exponential_counter, on.done⟩
  | succ t inductionHypothesis =>
      rcases inductionHypothesis with ⟨phase, quiet⟩
      rw [runAt, stateAt, sinceReset]
      cases reset : (inputs t).1 with
      | true => exact posedge_reset _
      | false => exact phase.posedge quiet

/-- A run of edges has had every shorter length before. -/
theorem exists_sinceReset {resets : ℕ → Bool} {t : ℕ} (length : ℕ)
    (long : length + 1 ≤ sinceReset resets t) :
    ∃ u, resets u = false ∧ sinceReset resets u = length := by
  induction t with
  | zero => exact absurd long (by rw [sinceReset]; omega)
  | succ t inductionHypothesis =>
      rw [sinceReset] at long
      split_ifs at long with reset
      · omega
      · by_cases longer : length + 1 ≤ sinceReset resets t
        · exact inductionHypothesis longer
        · exact ⟨t, Bool.eq_false_iff.mpr reset, by omega⟩

/-- `done` announces every latched result, and nothing else. -/
structure ReportsDone (ITER : ℕ) (states : ℕ → NaturalExponential)
    (resets : ℕ → Bool) : Prop where
  latched :
    ∀ t, resets t = false → (states t).Latches ITER →
      (states (t + 1)).done = true
  completed :
    ∀ t, (states t).done = true →
      ∃ u < t, resets u = false ∧ (states u).Latches ITER ∧
        (∀ v, u < v → v < t → resets v = false) ∧
        (states t).result = (states u).A2_OUT

/--
In a run from power-on `done` does what it should if and only if no result is
latched at all: every series is broken off by a reset before its last edge.
-/
theorem reportsDone_iff (ITER : ℕ) (on : start.PowerOn)
    (inputs : ℕ → Bool × Word) :
    ReportsDone ITER (runAt ITER start inputs) (fun t => (inputs t).1) ↔
      ∀ t, sinceReset (fun u => (inputs u).1) t < seriesLength ITER := by
  constructor
  · intro reports t
    by_contra long
    rcases exists_sinceReset (seriesLength ITER - 1)
        (Nat.le_of_pred_lt (Nat.not_lt.mp long))
      with ⟨u, running, last⟩
    have latches : (runAt ITER start inputs u).Latches ITER := by
      rw [(phase_runAt on u).1.latches_iff, last, seriesLength]
      omega
    have reported := reports.latched u running latches
    rw [(phase_runAt on (u + 1)).2] at reported
    exact Bool.noConfusion reported
  · intro short
    refine ⟨fun t running latches => ?_, fun t done => ?_⟩
    · rw [(phase_runAt on t).1.latches_iff] at latches
      have next := short (t + 1)
      rw [sinceReset, if_neg (by rw [running]; exact Bool.false_ne_true)] at next
      omega
    · rw [(phase_runAt on t).2] at done
      exact Bool.noConfusion done

end Run

def sampleExponential : NaturalExponential where
  index_fatorial := 0
  index_division := 0
  div_enable := false
  natural_exponential_counter := 0
  pontential_mul := one
  fatorial_count := 0
  fatorial_mul := one
  natural_exponential_sum := one
  result := 0
  done := false
  D1 := ⟨0, 0, 0, 0⟩

theorem powerOn_sampleExponential : sampleExponential.PowerOn :=
  ⟨rfl, rfl, rfl, rfl, ⟨rfl, rfl, rfl⟩⟩

/-- With a reset at every edge. -/
theorem reportsDone_iff_sample :
    ReportsDone 10 (runAt 10 sampleExponential (fun _ => (true, one)))
        (fun _ => true) ↔
      ∀ t, sinceReset (fun _ => true) t < seriesLength 10 :=
  reportsDone_iff 10 powerOn_sampleExponential (fun _ => (true, one))

/-- The series for 3.0 of the test bench, after one edge with a reset. -/
def sampleSeries (t : ℕ) : Bool × Word :=
  (decide (t = 0), 0x40400000#32)

/-- The edge 256 of the test bench latches a result, and `done` stays zero. -/
theorem done_taken_back :
    (runAt 10 sampleExponential sampleSeries 256).Latches 10 ∧
      (runAt 10 sampleExponential sampleSeries 257).result = 0x41a0b550#32 ∧
      (runAt 10 sampleExponential sampleSeries 257).done = false ∧
      ¬ ReportsDone 10 (runAt 10 sampleExponential sampleSeries)
        (fun t => (sampleSeries t).1) := by
  have latches : (runAt 10 sampleExponential sampleSeries 256).Latches 10 := by
    constructor <;> decide +kernel
  have silent : (runAt 10 sampleExponential sampleSeries 257).done = false := by
    decide +kernel
  refine ⟨latches, by decide +kernel, silent, fun reports => ?_⟩
  have reported := reports.latched 256 rfl latches
  rw [silent] at reported
  exact Bool.noConfusion reported

end FederatedEdge.Fpga.NaturalExponential
