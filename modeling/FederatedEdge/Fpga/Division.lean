import FederatedEdge.Fpga.Alu
import FederatedEdge.Library.Clocked

/-!
# Runs of the divider

A run takes `ITER + 3` enabled edges: one which starts it, one for the first
approximation of the reciprocal, one for each turn, and one which stores the
quotient.  The operands are read at every edge, so a run during which they
change stores something else; but the run after it begins with new operands
only, and finds nothing of the old ones.
-/

namespace FederatedEdge.Fpga.Divider

open FederatedEdge.Library

variable {ITER k : ℕ} {A B : Word} {divider : Divider}

/-- The approximation of the reciprocal after `n` turns. -/
def approximation (B : Word) (n : ℕ) : Word :=
  (M3_M4 B)^[n] (A1_Xn B)

theorem approximation_zero (B : Word) : approximation B 0 = A1_Xn B := by
  rw [approximation, Function.iterate_zero_apply]

theorem approximation_succ (B : Word) (n : ℕ) :
    approximation B (n + 1) = M3_M4 B (approximation B n) :=
  Function.iterate_succ_apply' _ _ _

/-- What a run on two operands stores. -/
def quotient (ITER : ℕ) (A B : Word) : Word :=
  M4_OUT A B (approximation B ITER)

/-! ## One edge -/

section Edge

variable (nonzero : A ≠ 0)

include nonzero

theorem posedge_disabled : divider.posedge ITER false A B = divider := by
  rw [posedge, if_neg nonzero, if_neg Bool.false_ne_true]

theorem posedge_starts (idle : divider.divider_counter = 0) :
    divider.posedge ITER true A B =
      { divider with divider_counter := 1, index := 0 } := by
  rw [posedge, if_neg nonzero, if_pos rfl, if_pos idle]

theorem posedge_seeds (seeding : divider.divider_counter = 1) :
    divider.posedge ITER true A B =
      { divider with Xn := A1_Xn B, divider_counter := 2 } := by
  have started : divider.divider_counter ≠ 0 := by
    rw [seeding]
    decide
  rw [posedge, if_neg nonzero, if_pos rfl, if_neg started, if_pos seeding,
    seeding]
  rfl

theorem posedge_turns (iterating : divider.divider_counter = 2)
    (more : divider.index < ITER) :
    divider.posedge ITER true A B =
      { divider with Xn := M3_M4 B divider.Xn, index := divider.index + 1 } := by
  rw [posedge, if_neg nonzero, if_pos rfl, if_neg (by rw [iterating]; decide),
    if_neg (by rw [iterating]; decide), if_pos iterating, if_pos more]

theorem posedge_stores (iterating : divider.divider_counter = 2)
    (last : ITER ≤ divider.index) :
    divider.posedge ITER true A B =
      { divider with
        result := M4_OUT A B divider.Xn
        divider_counter := 0
        index := divider.index + 1 } := by
  rw [posedge, if_neg nonzero, if_pos rfl, if_neg (by rw [iterating]; decide),
    if_neg (by rw [iterating]; decide), if_pos iterating,
    if_neg (Nat.not_lt.mpr last)]

theorem posedge_invalid (started : divider.divider_counter ≠ 0)
    (seeded : divider.divider_counter ≠ 1)
    (iterated : divider.divider_counter ≠ 2) :
    divider.posedge ITER true A B = { divider with divider_counter := 0 } := by
  rw [posedge, if_neg nonzero, if_pos rfl, if_neg started, if_neg seeded,
    if_neg iterated]

end Edge

/-! ## A run on the operands -/

/-- `k` edges of a run on the present operands have been made. -/
inductive Running (ITER : ℕ) (B : Word) (k : ℕ) (divider : Divider) : Prop where
  | idle (edges : k = 0) (counter : divider.divider_counter = 0)
  | seeding (edges : k = 1) (counter : divider.divider_counter = 1)
      (index : divider.index = 0)
  | iterating (edges : k = divider.index + 2)
      (counter : divider.divider_counter = 2) (turns : divider.index ≤ ITER)
      (Xn : divider.Xn = approximation B divider.index)

theorem Running.edges_le (running : Running ITER B k divider) : k ≤ ITER + 2 := by
  cases running with
  | idle edges => omega
  | seeding edges => omega
  | iterating edges _ turns => omega

/-- The last edge of a run stores the quotient; the others leave the result. -/
theorem Running.posedge (nonzero : A ≠ 0)
    (running : Running ITER B k divider) :
    if k = ITER + 2 then
      Running ITER B 0 (divider.posedge ITER true A B) ∧
        (divider.posedge ITER true A B).result = quotient ITER A B
    else
      Running ITER B (k + 1) (divider.posedge ITER true A B) ∧
        (divider.posedge ITER true A B).result = divider.result := by
  cases running with
  | idle edges counter =>
      rw [if_neg (by omega), posedge_starts nonzero counter, edges]
      exact ⟨.seeding rfl rfl rfl, rfl⟩
  | seeding edges counter index =>
      rw [if_neg (by omega), posedge_seeds nonzero counter, edges]
      have Xn : A1_Xn B = approximation B divider.index := by
        rw [index, approximation_zero]
      refine ⟨.iterating ?_ rfl ?_ Xn, rfl⟩
      · rw [index]
      · rw [index]
        exact Nat.zero_le _
  | iterating edges counter turns Xn =>
      by_cases more : divider.index < ITER
      · rw [if_neg (by omega), posedge_turns nonzero counter more, edges]
        refine ⟨.iterating rfl counter more ?_, rfl⟩
        rw [approximation_succ, ← Xn]
      · have last : divider.index = ITER := by omega
        rw [if_pos (by omega), posedge_stores nonzero counter last.ge, quotient,
          Xn, last]
        exact ⟨.idle rfl rfl, rfl⟩

/-- A run from its beginning on. -/
theorem running_iterate (nonzero : A ≠ 0) (idle : divider.divider_counter = 0)
    (inside : k ≤ ITER + 2) :
    Running ITER B k ((Divider.posedge ITER true A B)^[k] divider) := by
  induction k with
  | zero => exact .idle rfl idle
  | succ k inductionHypothesis =>
      have step := (inductionHypothesis (by omega)).posedge nonzero
      rw [if_neg (by omega)] at step
      rw [Function.iterate_succ_apply']
      exact step.1

theorem result_run (nonzero : A ≠ 0) (idle : divider.divider_counter = 0) :
    ((Divider.posedge ITER true A B)^[ITER + 3] divider).result =
      quotient ITER A B := by
  have step :=
    (running_iterate (B := B) nonzero idle (le_refl (ITER + 2))).posedge nonzero
  rw [if_pos rfl] at step
  rw [Function.iterate_succ_apply']
  exact step.2

/-! ## From any state -/

/-- The enabled edges before the divider is idle, whatever is left over. -/
def leftover (ITER : ℕ) (divider : Divider) : ℕ :=
  if divider.divider_counter = 0 then 0
  else if divider.divider_counter = 1 then ITER - divider.index + 2
  else if divider.divider_counter = 2 then ITER - divider.index + 1
  else 1

theorem leftover_le (ITER : ℕ) (divider : Divider) :
    divider.leftover ITER ≤ ITER + 2 := by
  rw [leftover]
  split_ifs <;> omega

theorem leftover_posedge (nonzero : A ≠ 0) {edges : ℕ}
    (left : divider.leftover ITER = edges + 1) :
    (divider.posedge ITER true A B).leftover ITER = edges := by
  by_cases idle : divider.divider_counter = 0
  · rw [leftover, if_pos idle] at left
    omega
  by_cases seeding : divider.divider_counter = 1
  · rw [leftover, if_neg idle, if_pos seeding] at left
    rw [posedge_seeds nonzero seeding]
    simp only [leftover]
    simp
    omega
  by_cases iterating : divider.divider_counter = 2
  · rw [leftover, if_neg idle, if_neg seeding, if_pos iterating] at left
    by_cases more : divider.index < ITER
    · rw [posedge_turns nonzero iterating more]
      simp [leftover, iterating]
      omega
    · rw [posedge_stores nonzero iterating (Nat.not_lt.mp more)]
      simp [leftover]
      omega
  · rw [leftover, if_neg idle, if_neg seeding, if_neg iterating] at left
    rw [posedge_invalid nonzero idle seeding iterating]
    simp [leftover]
    omega

/--
At most `left` enabled edges before the result is the quotient, and stays it:
the result is there already, a run on the present operands will store it, or
such a run will begin after what is left over of an old one.
-/
inductive Approaching (ITER : ℕ) (A B : Word) (left : ℕ) (divider : Divider) :
    Prop where
  | settled {k : ℕ} (running : Running ITER B k divider)
      (result : divider.result = quotient ITER A B)
  | running {k : ℕ} (running : Running ITER B k divider)
      (enough : ITER + 3 ≤ left + k)
  | leftover (enough : divider.leftover ITER + ITER + 3 ≤ left)

theorem Approaching.settle {left : ℕ} (nonzero : A ≠ 0)
    (running : Running ITER B k divider)
    (result : divider.result = quotient ITER A B) :
    Approaching ITER A B left (divider.posedge ITER true A B) := by
  have step := running.posedge nonzero
  split_ifs at step with last
  · exact .settled step.1 step.2
  · exact .settled step.1 (step.2.trans result)

theorem Approaching.advance {left : ℕ} (nonzero : A ≠ 0)
    (running : Running ITER B k divider) (enough : ITER + 3 ≤ left + 1 + k) :
    Approaching ITER A B left (divider.posedge ITER true A B) := by
  have step := running.posedge nonzero
  split_ifs at step with last
  · exact .settled step.1 step.2
  · exact .running step.1 (by omega)

theorem Approaching.posedge {left : ℕ} (nonzero : A ≠ 0)
    (approaching : Approaching ITER A B (left + 1) divider) :
    Approaching ITER A B left (divider.posedge ITER true A B) := by
  cases approaching with
  | settled running result => exact .settle nonzero running result
  | running running enough => exact .advance nonzero running enough
  | leftover enough =>
      cases edges : divider.leftover ITER with
      | zero =>
          have idle : divider.divider_counter = 0 := by
            by_contra busy
            rw [Divider.leftover, if_neg busy] at edges
            split_ifs at edges
          exact .advance nonzero (.idle rfl idle) (by omega)
      | succ edges =>
          have next := leftover_posedge (B := B) nonzero edges
          exact .leftover (by omega)

theorem Approaching.settled_posedge (nonzero : A ≠ 0)
    (approaching : Approaching ITER A B 0 divider) :
    Approaching ITER A B 0 (divider.posedge ITER true A B) := by
  cases approaching with
  | settled running result => exact .settle nonzero running result
  | running running enough =>
      have edges := running.edges_le
      omega
  | leftover enough => omega

theorem Approaching.result_eq (approaching : Approaching ITER A B 0 divider) :
    divider.result = quotient ITER A B := by
  cases approaching with
  | settled _ result => exact result
  | running running enough =>
      have edges := running.edges_le
      omega
  | leftover enough => omega

/--
From any state, on operands which are held, the divider has the result of a
fresh run after `2 * (ITER + 3)` enabled edges and at every later point, and an
edge without enable changes nothing.
-/
theorem divider_resynchronises (ITER : ℕ) {A : Word} (nonzero : A ≠ 0)
    (B : Word) (divider : Divider) (enables : ℕ → Bool) :
    (∀ fresh : Divider, fresh.PowerOn → ∀ t,
        2 * (ITER + 3) ≤ Nat.count (fun u => enables u = true) t →
        (stateAt (fun divider enable => divider.posedge ITER enable A B)
            divider enables t).result =
          ((Divider.posedge ITER true A B)^[ITER + 3] fresh).result) ∧
      ∀ t, enables t = false →
        stateAt (fun divider enable => divider.posedge ITER enable A B)
            divider enables (t + 1) =
          stateAt (fun divider enable => divider.posedge ITER enable A B)
            divider enables t := by
  constructor
  · intro fresh on t enough
    have begins : Approaching ITER A B (2 * (ITER + 3)) divider := by
      have left := leftover_le ITER divider
      exact .leftover (by omega)
    have reached :=
      iterate_countdown (Approaching ITER A B)
        (fun _ _ approaching => approaching.posedge nonzero)
        (fun _ approaching => approaching.settled_posedge nonzero) enough begins
    rw [stateAt_stalls (fun _ => posedge_disabled nonzero),
      result_run nonzero on.divider_counter]
    exact reached.result_eq
  · intro t disabled
    rw [stateAt, disabled]
    exact posedge_disabled nonzero

/-- In the middle of another run, with enables at every second edge. -/
theorem divider_resynchronises_sample :
    (stateAt
          (fun (divider : Divider) enable =>
            divider.posedge 3 enable one 0x40400000#32)
          ⟨2, 2, 0x3fc00000#32, 7#32⟩ (fun t => t % 2 = 0) 24).result =
      ((Divider.posedge 3 true one 0x40400000#32)^[6] ⟨0, 0, 0, 0⟩).result :=
  (divider_resynchronises 3 (A := one) (by decide) 0x40400000#32
    ⟨2, 2, 0x3fc00000#32, 7#32⟩ (fun t => t % 2 = 0)).1 ⟨0, 0, 0, 0⟩
    ⟨rfl, rfl, rfl⟩ 24 (by decide)

end FederatedEdge.Fpga.Divider
