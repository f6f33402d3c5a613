import FederatedEdge.Fpga.Exponential
import FederatedEdge.Fpga.Weights

/-!
# The exponential of the softmax neuron

Nothing resets `E1`, so that it computes one exponential after power-on, while
its operand still changes, and idles from then on.  What a pass latches is a
quotient of this one exponential, or of what the register held before: never of
an exponential which was computed after the pass had its weighted sum.
-/

namespace FederatedEdge.Fpga

open FederatedEdge.Library

/-! ## The exponential runs once -/

namespace NaturalExponential

/-- The exponential before edge `t`, without resets. -/
abbrev exponentialAt (start : NaturalExponential) (operands : ℕ → Word)
    (t : ℕ) : NaturalExponential :=
  stateAt (fun exponential A => exponential.posedge 10 false A) start operands t

/-- The edge clears the registers for a new series. -/
def Begins (exponential : NaturalExponential) : Prop :=
  exponential.natural_exponential_counter = 0

/-- The edge stores a result. -/
def Finishes (exponential : NaturalExponential) : Prop :=
  exponential.natural_exponential_counter = 2 ∧ 10 < exponential.index_fatorial

/-- In the middle of a series, with `left` edges before the one that finishes. -/
inductive Working (left : ℕ) (exponential : NaturalExponential) : Prop where
  | enabling (state : exponential.natural_exponential_counter = 1)
      (division : exponential.index_division = 0)
      (terms : exponential.index_fatorial ≤ 11)
      (remaining : left = 23 * (11 - exponential.index_fatorial) + 1)
  | dividing (state : exponential.natural_exponential_counter = 2)
      (division : exponential.index_division ≤ 20)
      (terms : exponential.index_fatorial ≤ 10)
      (remaining :
        left + exponential.index_division =
          23 * (11 - exponential.index_fatorial))
  | finishing (state : exponential.natural_exponential_counter = 2)
      (terms : exponential.index_fatorial = 11) (remaining : left = 0)
  | adding (state : exponential.natural_exponential_counter = 3)
      (division : exponential.index_division = 0)
      (terms : exponential.index_fatorial ≤ 11)
      (remaining : left = 23 * (11 - exponential.index_fatorial) + 2)

section Edge

variable {exponential : NaturalExponential} {A : Word} {left : ℕ}

/-- Without a reset an edge is the case statement, up to `done` and `D1`. -/
theorem posedge_running (exponential : NaturalExponential) (A : Word) :
    ∃ done D1,
      exponential.posedge 10 false A =
        { exponential.advance 10 A with done := done, D1 := D1 } := by
  by_cases back :
      (exponential.advance 10 A).done ∧
        (exponential.advance 10 A).natural_exponential_counter ≠ 2
  · exact ⟨false, _, by rw [posedge, if_neg Bool.false_ne_true, takeBack,
      if_pos back]⟩
  · exact ⟨_, _, by rw [posedge, if_neg Bool.false_ne_true, takeBack,
      if_neg back]⟩

/-- A beginning series has 254 edges before the one which finishes it. -/
theorem Begins.posedge (begins : exponential.Begins) :
    Working 254 (exponential.posedge 10 false A) ∧
      (exponential.posedge 10 false A).result = exponential.result := by
  rcases exponential.posedge_running A with ⟨done, D1, same⟩
  rw [same, advance_clears begins]
  exact ⟨.enabling rfl rfl (Nat.zero_le _) rfl, rfl⟩

/-- Every edge before it brings the end closer and leaves the result alone. -/
theorem Working.posedge (working : Working (left + 1) exponential) :
    Working left (exponential.posedge 10 false A) ∧
      (exponential.posedge 10 false A).result = exponential.result := by
  rcases exponential.posedge_running A with ⟨done, D1, same⟩
  rw [same]
  cases working with
  | enabling state division terms remaining =>
      rw [advance_enables state]
      refine ⟨?_, rfl⟩
      by_cases last : exponential.index_fatorial = 11
      · exact .finishing rfl last (by omega)
      · have term : exponential.index_fatorial ≤ 10 := by omega
        have next :
            left + exponential.index_division =
              23 * (11 - exponential.index_fatorial) := by
          omega
        exact .dividing rfl (division.trans_le (Nat.zero_le _)) term next
  | dividing state division terms remaining =>
      by_cases more : exponential.index_division < 20
      · have next :
            left + (exponential.index_division + 1) =
              23 * (11 - exponential.index_fatorial) := by
          omega
        rw [advance_waits state terms more]
        exact ⟨.dividing state more terms next, rfl⟩
      · have next :
            left = 23 * (11 - (exponential.index_fatorial + 1)) + 2 := by
          omega
        rw [advance_disables state terms (Nat.not_lt.mp more)]
        exact ⟨.adding rfl rfl (Nat.succ_le_succ terms) next, rfl⟩
  | finishing _ _ remaining => exact absurd remaining (Nat.succ_ne_zero left)
  | adding state division terms remaining =>
      rw [advance_adds state]
      exact ⟨.enabling rfl division terms (Nat.succ.inj remaining), rfl⟩

theorem Working.not_begins (working : Working left exponential) :
    ¬ exponential.Begins := by
  unfold Begins
  cases working with
  | enabling state => rw [state]; decide
  | dividing state => rw [state]; decide
  | finishing state => rw [state]; decide
  | adding state => rw [state]; decide

theorem Working.finishes_iff (working : Working left exponential) :
    exponential.Finishes ↔ left = 0 := by
  unfold Finishes
  cases working with
  | enabling state _ _ remaining => simp [state, remaining]
  | dividing state _ terms remaining =>
      rw [state]
      constructor
      · rintro ⟨-, finished⟩
        omega
      · omega
  | finishing state terms remaining => simp [state, terms, remaining]
  | adding state _ _ remaining => simp [state, remaining]

/-- The finishing edge leads to the idle state, which no edge leaves. -/
theorem Working.idle (working : Working 0 exponential) :
    (exponential.posedge 10 false A).natural_exponential_counter = 4 := by
  rcases exponential.posedge_running A with ⟨done, D1, same⟩
  rw [same, advance_latches (working.finishes_iff.mpr rfl)]

theorem idle_posedge (idle : exponential.natural_exponential_counter = 4) :
    (exponential.posedge 10 false A).natural_exponential_counter = 4 ∧
      (exponential.posedge 10 false A).result = exponential.result := by
  rcases exponential.posedge_running A with ⟨done, D1, same⟩
  rw [same, advance_idles idle]
  exact ⟨idle, rfl⟩

end Edge

section Run

variable {start : NaturalExponential} {operands : ℕ → Word}

/-- The first series: 255 edges, during which the result stays. -/
theorem working_exponentialAt (on : start.PowerOn) {t : ℕ} (early : t ≤ 254) :
    Working (254 - t) (exponentialAt start operands (t + 1)) ∧
      (exponentialAt start operands (t + 1)).result = start.result := by
  induction t with
  | zero =>
      have begins : start.Begins := on.natural_exponential_counter
      exact begins.posedge
  | succ t inductionHypothesis =>
      rcases inductionHypothesis (by omega) with ⟨working, result⟩
      rw [show 254 - t = 254 - (t + 1) + 1 by omega] at working
      rcases working.posedge (A := operands (t + 1)) with ⟨next, same⟩
      exact ⟨next, same.trans result⟩

/-- After it the exponential idles, with the result of the first series. -/
theorem idle_exponentialAt (on : start.PowerOn) (t : ℕ) :
    (exponentialAt start operands (256 + t)).natural_exponential_counter = 4 ∧
      (exponentialAt start operands (256 + t)).result =
        (exponentialAt start operands 256).result := by
  induction t with
  | zero => exact ⟨(working_exponentialAt on le_rfl).1.idle, rfl⟩
  | succ t inductionHypothesis =>
      rcases inductionHypothesis with ⟨idle, result⟩
      rcases idle_posedge (A := operands (256 + t)) idle with ⟨still, same⟩
      exact ⟨still, same.trans result⟩

/-- Only the first edge after power-on begins a series. -/
theorem begins_exponentialAt_iff (on : start.PowerOn) (t : ℕ) :
    (exponentialAt start operands t).Begins ↔ t = 0 := by
  constructor
  · intro begins
    by_contra later
    by_cases early : t ≤ 255
    · obtain ⟨u, rfl⟩ : ∃ u, t = u + 1 := Nat.exists_eq_succ_of_ne_zero later
      have working :
          Working (254 - u) (exponentialAt start operands (u + 1)) :=
        (working_exponentialAt on (by omega)).1
      exact working.not_begins begins
    · obtain ⟨u, rfl⟩ : ∃ u, t = 256 + u := Nat.exists_eq_add_of_le (by omega)
      have idle :
          (exponentialAt start operands
            (256 + u)).natural_exponential_counter = 4 :=
        (idle_exponentialAt on u).1
      exact absurd (idle.symm.trans begins) (by decide)
  · rintro rfl
    exact on.natural_exponential_counter

/-- What the result register holds. -/
theorem result_exponentialAt (on : start.PowerOn) (t : ℕ) :
    (exponentialAt start operands t).result =
      if t ≤ 255 then start.result
      else (exponentialAt start operands 256).result := by
  split_ifs with early
  · cases t with
    | zero => rfl
    | succ t => exact (working_exponentialAt on (by omega)).2
  · obtain ⟨u, rfl⟩ : ∃ u, t = 256 + u :=
      Nat.exists_eq_add_of_le (by omega)
    exact (idle_exponentialAt on u).2

end Run

end NaturalExponential

/-! ## What a pass latches -/

section Pass

variable {NUM_INPUTS : ℕ} {unknown : Option ℕ → Word}
  {neurons : ℕ → Neuron NUM_INPUTS} {inputs : ℕ → NeuronInputs NUM_INPUTS}
  {inputdata : BitVec (32 * NUM_INPUTS)} {t : ℕ}

/-- The controller counts its edges, whatever the accumulator does. -/
theorem NeuronRun.counts (run : NeuronRun neurons inputs unknown)
    (pass : Pass neurons inputs inputdata t) {k : ℕ} (early : k ≤ NUM_INPUTS + 1) :
    (neurons (t + 2 + k)).neuron_feedfoward_state = 2 ∧
      (neurons (t + 2 + k)).z_counter = k := by
  induction k with
  | zero =>
      rcases run.steps t with ⟨first, addressed⟩
      rcases run.steps (t + 1) with ⟨second, enabled⟩
      have firstFed : Fed inputdata (inputs t) := pass.fed 0 (by omega)
      have secondFed : Fed inputdata (inputs (t + 1)) := pass.fed 1 (by omega)
      rw [show t + 2 + 0 = t + 1 + 1 from rfl, enabled,
        controller_of_fed secondFed, addressed, controller_of_fed firstFed]
      simp [Controller.feedfoward, pass.begins]
  | succ k inductionHypothesis =>
      rcases inductionHypothesis (by omega) with ⟨state, z_counter⟩
      rcases run.steps (t + 2 + k) with ⟨latched, step⟩
      have fed : Fed inputdata (inputs (t + 2 + k)) := by
        rw [Nat.add_assoc]
        exact pass.fed (2 + k) (by omega)
      have more : k ≤ NUM_INPUTS := by omega
      rw [show t + 2 + (k + 1) = t + 2 + k + 1 from rfl, step,
        controller_of_fed fed]
      simp [Controller.feedfoward, state, z_counter, more]

/-- The last edge of a pass is in state 11. -/
theorem NeuronRun.latching (run : NeuronRun neurons inputs unknown)
    (pass : Pass neurons inputs inputdata t) :
    (neurons (t + (NUM_INPUTS + 4))).neuron_feedfoward_state = 3 := by
  rcases run.counts pass le_rfl with ⟨state, z_counter⟩
  rcases run.steps (t + 2 + (NUM_INPUTS + 1)) with ⟨latched, step⟩
  have fed : Fed inputdata (inputs (t + 2 + (NUM_INPUTS + 1))) := by
    rw [Nat.add_assoc]
    exact pass.fed (2 + (NUM_INPUTS + 1)) (by omega)
  have counted : ¬ NUM_INPUTS + 1 ≤ NUM_INPUTS := Nat.not_succ_le_self _
  rw [show t + (NUM_INPUTS + 4) = t + 2 + (NUM_INPUTS + 1) + 1 by omega, step,
    controller_of_fed fed]
  simp [Controller.feedfoward, state, z_counter, counted]

end Pass

/-- The edge starts a quotient; a zero dividend needs one edge only. -/
def Divider.Begins (A : Word) (divider : Divider) : Prop :=
  A = 0 ∨ divider.divider_counter = 0

/-- The edge stores a quotient. -/
def Divider.Finishes (ITER : ℕ) (A : Word) (divider : Divider) : Prop :=
  A = 0 ∨ divider.divider_counter = 2 ∧ ITER ≤ divider.index

/--
In the pass which begins at edge `t` the weighted sum becomes valid, then `E1`
computes an exponential, then `D1` divides, and then the pass latches.
-/
inductive Fresh {NUM_INPUTS : ℕ} (neurons : ℕ → SoftmaxNeuron NUM_INPUTS)
    (t : ℕ) : Prop where
  | intro {valid begun finished started stored : ℕ}
      (inPass : t ≤ valid)
      (enabled : (neurons valid).enable_Z = true)
      (sum : (neurons valid).Z.index = NUM_INPUTS)
      (afterSum : valid < begun)
      (begins : (neurons begun).E1.Begins)
      (afterBegin : begun < finished)
      (finishes : (neurons finished).E1.Finishes)
      (afterExponential : finished < started)
      (starts : (neurons started).D1.Begins (neurons started).E1.result)
      (afterStart : started ≤ stored)
      (stores : (neurons stored).D1.Finishes 4 (neurons stored).E1.result)
      (latches : stored < t + (NUM_INPUTS + 4))

section Softmax

variable {NUM_INPUTS : ℕ} {unknown : Option ℕ → Word}
  {start : SoftmaxNeuron NUM_INPUTS} {inputs : ℕ → SoftmaxInputs NUM_INPUTS}
  {inputdata : BitVec (32 * NUM_INPUTS)} {t : ℕ}

/-- `E1` runs on the results of `Z`. -/
theorem exponential_softmaxAt (t : ℕ) :
    (softmaxAt unknown start inputs t).E1 =
      NaturalExponential.exponentialAt start.E1
        (fun t => (softmaxAt unknown start inputs t).Z.result) t :=
  stateAt_part SoftmaxNeuron.E1 (fun neuron _ => neuron.Z.result)
    (fun exponential A => exponential.posedge 10 false A) (fun _ _ => rfl) t

theorem not_fresh (on : start.PowerOn) (t : ℕ) :
    ¬ Fresh (softmaxAt unknown start inputs) t := by
  rintro ⟨-, -, -, afterSum, begins, -, -, -, -, -, -, -⟩
  rw [exponential_softmaxAt,
    NaturalExponential.begins_exponentialAt_iff on.E1] at begins
  rw [begins] at afterSum
  exact Nat.not_lt_zero _ afterSum

/--
Every pass latches what `D1` has divided, out of the one exponential which `E1`
computes after power-on, or of what the register held before: it is not fresh.
-/
theorem pass_latches_stale_exponential (unknown : Option ℕ → Word)
    (on : start.PowerOn) (inputs : ℕ → SoftmaxInputs NUM_INPUTS)
    (pass :
      Pass (fun t => (softmaxAt unknown start inputs t).toNeuron)
        (fun t => (inputs t).toNeuronInputs) inputdata t) :
    (softmaxAt unknown start inputs (t + (NUM_INPUTS + 5))).a =
        (softmaxAt unknown start inputs (t + (NUM_INPUTS + 4))).D1.result ∧
      (softmaxAt unknown start inputs (t + (NUM_INPUTS + 4))).E1.result =
        (if t + (NUM_INPUTS + 4) ≤ 255 then start.E1.result
        else (softmaxAt unknown start inputs 256).E1.result) ∧
      ¬ Fresh (softmaxAt unknown start inputs) t := by
  refine ⟨?_, ?_, not_fresh on t⟩
  · exact a_of_fed (pass.fed (NUM_INPUTS + 4) (by omega))
      ((run_softmaxAt on).latching pass)
  · rw [exponential_softmaxAt, exponential_softmaxAt]
    exact NaturalExponential.result_exponentialAt on.E1 _

end Softmax

/-! ## The first pass of a neuron with two inputs -/

def sampleSoftmaxPass (_ : ℕ) : SoftmaxInputs 2 where
  toNeuronInputs := sampleFed sampleBus
  exp_sum := one

theorem pass_sampleSoftmax :
    Pass
      (fun t =>
        (softmaxAt (fun _ => 0) sampleSoftmax sampleSoftmaxPass t).toNeuron)
      (fun t => (sampleSoftmaxPass t).toNeuronInputs) sampleBus 0 where
  begins := rfl
  fed _ _ := ⟨rfl, rfl, rfl⟩

theorem pass_latches_stale_exponential_sample :
    (softmaxAt (fun _ => 0) sampleSoftmax sampleSoftmaxPass 7).a =
        (softmaxAt (fun _ => 0) sampleSoftmax sampleSoftmaxPass 6).D1.result ∧
      (softmaxAt (fun _ => 0) sampleSoftmax sampleSoftmaxPass 6).E1.result = 0 ∧
        ¬ Fresh (softmaxAt (fun _ => 0) sampleSoftmax sampleSoftmaxPass) 0 :=
  pass_latches_stale_exponential (fun _ => 0) powerOn_sampleSoftmax
    sampleSoftmaxPass pass_sampleSoftmax

/--
The first pass latches zero, while the exponential of its weighted sum 1.5 is
about 4.48.
-/
theorem first_pass_latches_zero :
    sampleSoftmax.PowerOn ∧
      (softmaxAt (fun _ => 0) sampleSoftmax sampleSoftmaxPass 7).a = 0 ∧
        (sampleSoftmax.E1.exponentialAt
            (fun _ => weightedSum sampleNeuron.mem.mem (busWord sampleBus))
            256).result =
          0x408f6a00#32 ∧
          ¬ Fresh (softmaxAt (fun _ => 0) sampleSoftmax sampleSoftmaxPass)
            0 := by
  refine ⟨powerOn_sampleSoftmax, by decide +kernel, by decide +kernel, ?_⟩
  exact not_fresh powerOn_sampleSoftmax 0

end FederatedEdge.Fpga
