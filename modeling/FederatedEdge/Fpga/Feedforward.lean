import FederatedEdge.Fpga.Neuron
import FederatedEdge.Library.Clocked
import Mathlib.Data.List.FinRange
import Mathlib.Logic.Function.Basic

/-!
# Feed-forward passes

A pass holds the inputs for `NUM_INPUTS + 5` enabled edges in state 00.  The
controller and the accumulator `Z` count for themselves: a pass enables `Z` for
one edge more than `Z` needs for a sum, so that the next pass finds it in the
middle of one.  A pass which finds `Z` at its beginning, or two edges before it
and still enabled, latches the weighted sum of its own inputs.
-/

namespace FederatedEdge.Fpga

open FederatedEdge.Library

variable {NUM_INPUTS : ℕ}

/-! ## The weighted sum -/

/-- The products of the numbered inputs, added in this order. -/
def accumulate (weights inputs : Fin NUM_INPUTS → Word)
    (numbers : List (Fin NUM_INPUTS)) : Word :=
  numbers.foldl
    (fun Z i => ieee754_adder Z (ieee754_multiplier (weights i) (inputs i))) 0

/-- The sum over all inputs, from number zero on. -/
def weightedSum (weights inputs : Fin NUM_INPUTS → Word) : Word :=
  accumulate weights inputs (List.finRange NUM_INPUTS)

/-- The sum over the first `k` inputs. -/
def partialSum (weights inputs : Fin NUM_INPUTS → Word) (k : ℕ) : Word :=
  accumulate weights inputs ((List.finRange NUM_INPUTS).take k)

theorem partialSum_succ (weights inputs : Fin NUM_INPUTS → Word) {k : ℕ}
    (inside : k < NUM_INPUTS) :
    partialSum weights inputs (k + 1) =
      ieee754_adder (partialSum weights inputs k)
        (ieee754_multiplier (weights ⟨k, inside⟩) (inputs ⟨k, inside⟩)) := by
  have next : k < (List.finRange NUM_INPUTS).length := by
    rw [List.length_finRange]
    exact inside
  rw [partialSum, accumulate, List.take_succ_eq_append_getElem next,
    List.foldl_concat, List.getElem_finRange]
  rfl

theorem partialSum_all (weights inputs : Fin NUM_INPUTS → Word) :
    partialSum weights inputs NUM_INPUTS = weightedSum weights inputs := by
  rw [partialSum, List.take_of_length_le (by rw [List.length_finRange])]
  rfl

/-! ## One edge of a pass -/

/-- The neuron is enabled in state 00, with these inputs. -/
structure Fed (inputdata : BitVec (32 * NUM_INPUTS))
    (inputs : NeuronInputs NUM_INPUTS) : Prop where
  neuron_enable : inputs.neuron_enable = true
  neuron_state : inputs.neuron_state = .feedfoward
  inputdata : inputs.inputdata = inputdata

@[simp]
theorem Controller.write_enable_feedfoward (latched : Word)
    (controller : Controller NUM_INPUTS) :
    (controller.feedfoward latched).write_enable = controller.write_enable := by
  unfold feedfoward
  split_ifs <;> rfl

@[simp]
theorem Controller.bias_feedfoward (latched : Word)
    (controller : Controller NUM_INPUTS) :
    (controller.feedfoward latched).bias = controller.bias := by
  unfold feedfoward
  split_ifs <;> rfl

section Edge

variable {unknown : Option ℕ → Word} {latched bias : Word}
  {weights : Fin NUM_INPUTS → Word} {inputdata : BitVec (32 * NUM_INPUTS)}
  {inputs : NeuronInputs NUM_INPUTS} {neuron : Neuron NUM_INPUTS}

theorem controller_posedge_of_fed (MEM_OUT : Word)
    (controller : Controller NUM_INPUTS) (fed : Fed inputdata inputs) :
    controller.posedge MEM_OUT latched inputs =
      controller.feedfoward latched := by
  rw [Controller.posedge, if_pos fed.neuron_enable, fed.neuron_state]

theorem controller_of_fed (fed : Fed inputdata inputs) :
    (neuron.posedge unknown latched inputs).toController =
      neuron.toController.feedfoward latched :=
  controller_posedge_of_fed _ _ fed

/-- State 11 latches. -/
theorem a_of_fed (fed : Fed inputdata inputs)
    (state : neuron.neuron_feedfoward_state = 3) :
    (neuron.posedge unknown latched inputs).a = latched := by
  have latches :
      (neuron.toController.feedfoward latched).a = latched := by
    simp [Controller.feedfoward, state]
  rw [controller_of_fed fed]
  exact latches

theorem posedge_of_fed (fed : Fed inputdata inputs)
    (write_enable : neuron.write_enable = false) :
    neuron.posedge unknown latched inputs =
      { toController := neuron.toController.feedfoward latched
        mem :=
          neuron.mem.settle unknown false neuron.data_counter
            (neuron.toController.feedfoward latched).data_counter
        Z :=
          neuron.Z.posedge NUM_INPUTS false neuron.enable_Z
            (multiplexer_parametrized unknown inputdata neuron.data_counter)
            neuron.mem.read_data neuron.bias } := by
  rw [Neuron.posedge, controller_posedge_of_fed _ _ fed,
    Controller.write_enable_feedfoward, write_enable, Memory.posedge_idle,
    Neuron.MUX_OUT, fed.inputdata]

/-- Nothing is written, and the weights and the bias are these. -/
structure Kept (weights : Fin NUM_INPUTS → Word) (bias : Word)
    (neuron : Neuron NUM_INPUTS) : Prop where
  write_enable : neuron.write_enable = false
  mem : neuron.mem.mem = weights
  bias_eq : neuron.bias = bias

theorem Kept.posedge (kept : Kept weights bias neuron)
    (fed : Fed inputdata inputs) :
    Kept weights bias (neuron.posedge unknown latched inputs) := by
  rw [posedge_of_fed fed kept.write_enable]
  constructor
  · show (neuron.toController.feedfoward latched).write_enable = false
    rw [Controller.write_enable_feedfoward]
    exact kept.write_enable
  · show (Memory.settle _ _ _ _ _).mem = weights
    rw [Memory.mem_settle]
    exact kept.mem
  · show (neuron.toController.feedfoward latched).bias = bias
    rw [Controller.bias_feedfoward]
    exact kept.bias_eq

/-! ## The phases of a pass -/

/-- After the first edge: address zero is read, `Z` ends an old sum or waits. -/
structure Addressed (unknown : Option ℕ → Word)
    (weights : Fin NUM_INPUTS → Word) (bias : Word)
    (neuron : Neuron NUM_INPUTS) : Prop extends Kept weights bias neuron where
  state : neuron.neuron_feedfoward_state = 1
  z_counter : neuron.z_counter = 0
  data_counter : neuron.data_counter = some 0
  read_data : neuron.mem.read_data = selectWord unknown weights (some 0)
  ending : neuron.enable_Z = true → neuron.Z.index = NUM_INPUTS
  waiting : neuron.enable_Z = false → neuron.Z.index = 0 ∧ neuron.Z.Z = 0

/-- `k` products have been added. -/
structure Accumulating (unknown : Option ℕ → Word)
    (weights : Fin NUM_INPUTS → Word) (bias : Word)
    (inputdata : BitVec (32 * NUM_INPUTS)) (k : ℕ)
    (neuron : Neuron NUM_INPUTS) : Prop extends Kept weights bias neuron where
  state : neuron.neuron_feedfoward_state = 2
  enable_Z : neuron.enable_Z = true
  z_counter : neuron.z_counter = k
  data_counter : neuron.data_counter = some (BitVec.ofNat _ k)
  read_data :
    neuron.mem.read_data = selectWord unknown weights (some (BitVec.ofNat _ k))
  index : neuron.Z.index = k
  Z : neuron.Z.Z = partialSum weights (busWord inputdata) k

/-- The result is there, and the accumulator has started again. -/
structure Summed (weights : Fin NUM_INPUTS → Word) (bias : Word)
    (inputdata : BitVec (32 * NUM_INPUTS)) (neuron : Neuron NUM_INPUTS) :
    Prop extends Kept weights bias neuron where
  state : neuron.neuron_feedfoward_state = 2
  enable_Z : neuron.enable_Z = true
  z_counter : neuron.z_counter = NUM_INPUTS + 1
  index : neuron.Z.index = 0
  result :
    neuron.Z.result =
      ieee754_adder (weightedSum weights (busWord inputdata)) bias

/-- The accumulator has been stopped, one edge late. -/
structure Stopped (weights : Fin NUM_INPUTS → Word) (bias : Word)
    (inputdata : BitVec (32 * NUM_INPUTS)) (neuron : Neuron NUM_INPUTS) :
    Prop extends Kept weights bias neuron where
  state : neuron.neuron_feedfoward_state = 3
  enable_Z : neuron.enable_Z = false
  index : neuron.Z.index = 1
  result :
    neuron.Z.result =
      ieee754_adder (weightedSum weights (busWord inputdata)) bias

/-- The address which follows is another one. -/
theorem address_ne_succ (several : 2 ≤ NUM_INPUTS)
    (address : Address NUM_INPUTS) : some address ≠ some (address + 1#_) := by
  have width : 1 < 2 ^ Nat.clog 2 NUM_INPUTS :=
    Nat.one_lt_two_pow (Nat.clog_pos (by decide) several).ne'
  intro same
  have values := congrArg BitVec.toNat (Option.some.inj same)
  have bound := address.isLt
  rw [BitVec.toNat_add, BitVec.toNat_ofNat, Nat.mod_eq_of_lt width] at values
  by_cases last : address.toNat + 1 < 2 ^ Nat.clog 2 NUM_INPUTS
  · rw [Nat.mod_eq_of_lt last] at values
    exact Nat.ne_of_lt (Nat.lt_succ_self _) values
  · rw [show address.toNat + 1 = 2 ^ Nat.clog 2 NUM_INPUTS by omega,
      Nat.mod_self] at values
    omega

theorem toNat_address {k : ℕ} (inside : k < NUM_INPUTS) :
    (BitVec.ofNat (Nat.clog 2 NUM_INPUTS) k).toNat = k := by
  rw [BitVec.toNat_ofNat]
  apply Nat.mod_eq_of_lt
  exact inside.trans_le (Nat.le_pow_clog (by decide) NUM_INPUTS)

/-- The word with a number below the number of inputs. -/
theorem selectWord_number (unknown : Option ℕ → Word)
    (words : Fin NUM_INPUTS → Word) {k : ℕ} (inside : k < NUM_INPUTS) :
    selectWord unknown words (some (BitVec.ofNat _ k)) = words ⟨k, inside⟩ := by
  have address := toNat_address inside
  rw [selectWord_inside unknown words (by rw [address]; exact inside)]
  simp only [address]

theorem Accumulating.posedge {k : ℕ} (several : 2 ≤ NUM_INPUTS)
    (fed : Fed inputdata inputs) (inside : k < NUM_INPUTS)
    (phase : Accumulating unknown weights bias inputdata k neuron) :
    Accumulating unknown weights bias inputdata (k + 1)
      (neuron.posedge unknown latched inputs) := by
  have kept : Kept weights bias (neuron.posedge unknown latched inputs) :=
    phase.toKept.posedge fed
  have moved :
      neuron.toController.feedfoward latched =
        { neuron.toController with
          z_counter := k + 1
          data_counter := some (BitVec.ofNat _ (k + 1)) } := by
    simp [Controller.feedfoward, phase.state, phase.z_counter,
      phase.data_counter, inside.le, BitVec.ofNat_add]
  have read :
      (neuron.mem.settle unknown false neuron.data_counter
          (some (BitVec.ofNat _ (k + 1)))).read_data =
        selectWord unknown weights (some (BitVec.ofNat _ (k + 1))) := by
    rw [phase.data_counter, BitVec.ofNat_add,
      Memory.read_settle_moved unknown (address_ne_succ several _), phase.mem]
  have added :
      neuron.Z.posedge NUM_INPUTS false neuron.enable_Z
          (multiplexer_parametrized unknown inputdata neuron.data_counter)
          neuron.mem.read_data neuron.bias =
        { neuron.Z with
          Z := partialSum weights (busWord inputdata) (k + 1)
          index := k + 1 } := by
    rw [partialSum_succ _ _ inside, phase.read_data, phase.data_counter,
      multiplexer_parametrized, selectWord_number _ _ inside,
      selectWord_number _ _ inside]
    simp [ZModule.posedge, phase.enable_Z, phase.index, phase.Z, inside]
  rw [posedge_of_fed fed phase.write_enable, moved, added] at kept ⊢
  exact ⟨kept, phase.state, phase.enable_Z, rfl, rfl, read, rfl, rfl⟩

/-- The edge after the last product stores the sum with the bias. -/
theorem Accumulating.summed (fed : Fed inputdata inputs)
    (phase :
      Accumulating unknown weights bias inputdata NUM_INPUTS neuron) :
    Summed weights bias inputdata (neuron.posedge unknown latched inputs) := by
  have kept : Kept weights bias (neuron.posedge unknown latched inputs) :=
    phase.toKept.posedge fed
  have moved :
      neuron.toController.feedfoward latched =
        { neuron.toController with
          z_counter := NUM_INPUTS + 1
          data_counter := neuron.data_counter.map (· + 1) } := by
    simp [Controller.feedfoward, phase.state, phase.z_counter]
  have added (input weight : Word) :
      neuron.Z.posedge NUM_INPUTS false neuron.enable_Z input weight
          neuron.bias =
        { Z := 0
          index := 0
          result :=
            ieee754_adder (weightedSum weights (busWord inputdata)) bias } := by
    simp [ZModule.posedge, phase.enable_Z, phase.index, phase.Z, phase.bias_eq,
      partialSum_all]
  rw [posedge_of_fed fed phase.write_enable, moved, added] at kept ⊢
  exact ⟨kept, phase.state, phase.enable_Z, rfl, rfl, rfl⟩

/-- `Z` is enabled for one edge more, and takes the first product of a new sum. -/
theorem Summed.posedge (several : 2 ≤ NUM_INPUTS) (fed : Fed inputdata inputs)
    (phase : Summed weights bias inputdata neuron) :
    Stopped weights bias inputdata (neuron.posedge unknown latched inputs) := by
  have kept : Kept weights bias (neuron.posedge unknown latched inputs) :=
    phase.toKept.posedge fed
  have moved :
      neuron.toController.feedfoward latched =
        { neuron.toController with
          enable_Z := false
          neuron_feedfoward_state := 3 } := by
    simp [Controller.feedfoward, phase.state, phase.z_counter]
  have unfinished : 0 < NUM_INPUTS := by omega
  have result (input weight : Word) :
      (neuron.Z.posedge NUM_INPUTS false neuron.enable_Z input weight
          neuron.bias).result =
        neuron.Z.result := by
    simp [ZModule.posedge, phase.enable_Z, phase.index, unfinished]
  have index (input weight : Word) :
      (neuron.Z.posedge NUM_INPUTS false neuron.enable_Z input weight
          neuron.bias).index = 1 := by
    simp [ZModule.posedge, phase.enable_Z, phase.index, unfinished]
  rw [posedge_of_fed fed phase.write_enable, moved] at kept ⊢
  exact ⟨kept, rfl, rfl, index _ _, (result _ _).trans phase.result⟩

/-- After the last edge: the pass has latched, `Z` holds one product. -/
structure Latched (latched : Word) (neuron : Neuron NUM_INPUTS) : Prop where
  a : neuron.a = latched
  state : neuron.neuron_feedfoward_state = 0
  enable_Z : neuron.enable_Z = false
  index : neuron.Z.index = 1

theorem Stopped.posedge (fed : Fed inputdata inputs)
    (phase : Stopped weights bias inputdata neuron) :
    Latched latched (neuron.posedge unknown latched inputs) := by
  have moved :
      neuron.toController.feedfoward latched =
        { neuron.toController with
          a := latched
          neuron_feedfoward_state := 0 } := by
    simp [Controller.feedfoward, phase.state]
  have waits (input weight : Word) :
      neuron.Z.posedge NUM_INPUTS false neuron.enable_Z input weight
          neuron.bias =
        neuron.Z := by
    simp [ZModule.posedge, phase.enable_Z]
  rw [posedge_of_fed fed phase.write_enable, moved, waits]
  exact ⟨rfl, rfl, phase.enable_Z, phase.index⟩

/-! ## How a pass must begin -/

/--
`Z` begins a sum, or is still enabled and two edges before it; nothing is
written; and if the address already is zero, so that it does not change, the
word at zero has been read.
-/
structure Ready (unknown : Option ℕ → Word) (neuron : Neuron NUM_INPUTS) :
    Prop where
  write_enable : neuron.write_enable = false
  read_data :
    neuron.data_counter = some 0 →
      neuron.mem.read_data = selectWord unknown neuron.mem.mem (some 0)
  waiting : neuron.enable_Z = false → neuron.Z.index = 0
  ending : neuron.enable_Z = true → neuron.Z.index + 1 = NUM_INPUTS

theorem Ready.posedge (ready : Ready unknown neuron)
    (fed : Fed inputdata inputs)
    (begins : neuron.neuron_feedfoward_state = 0)
    (cleared : neuron.Z.index = 0 → neuron.Z.Z = 0) :
    Addressed unknown neuron.mem.mem neuron.bias
      (neuron.posedge unknown latched inputs) := by
  have kept :
      Kept neuron.mem.mem neuron.bias
        (neuron.posedge unknown latched inputs) :=
    Kept.posedge ⟨ready.write_enable, rfl, rfl⟩ fed
  have moved :
      neuron.toController.feedfoward latched =
        { neuron.toController with
          neuron_feedfoward_state := 1
          data_counter := some 0
          z_counter := 0 } := by
    simp [Controller.feedfoward, begins]
  have read :
      (neuron.mem.settle unknown false neuron.data_counter
          (some 0)).read_data =
        selectWord unknown neuron.mem.mem (some 0) := by
    by_cases already : neuron.data_counter = some 0
    · rw [already, Memory.settle_same]
      exact ready.read_data already
    · exact Memory.read_settle_moved unknown already neuron.mem
  rw [posedge_of_fed fed ready.write_enable, moved] at kept ⊢
  refine ⟨kept, rfl, rfl, rfl, read, ?_, ?_⟩
  · intro enabled
    have index := ready.ending enabled
    have inside : neuron.Z.index < NUM_INPUTS := by omega
    simp [ZModule.posedge, show neuron.enable_Z = true from enabled, inside,
      index]
  · intro disabled
    have index := ready.waiting disabled
    simp [ZModule.posedge, show neuron.enable_Z = false from disabled, index,
      cleared index]

/-- The second edge enables `Z`, with nothing added yet. -/
theorem Addressed.posedge (fed : Fed inputdata inputs)
    (phase : Addressed unknown weights bias neuron) :
    Accumulating unknown weights bias inputdata 0
      (neuron.posedge unknown latched inputs) := by
  have kept : Kept weights bias (neuron.posedge unknown latched inputs) :=
    phase.toKept.posedge fed
  have moved :
      neuron.toController.feedfoward latched =
        { neuron.toController with
          enable_Z := true
          neuron_feedfoward_state := 2 } := by
    simp [Controller.feedfoward, phase.state]
  have read :
      (neuron.mem.settle unknown false neuron.data_counter
          neuron.data_counter).read_data =
        selectWord unknown weights (some 0) := by
    rw [Memory.settle_same]
    exact phase.read_data
  have started (input weight : Word) :
      (neuron.Z.posedge NUM_INPUTS false neuron.enable_Z input weight
          neuron.bias).index = 0 ∧
        (neuron.Z.posedge NUM_INPUTS false neuron.enable_Z input weight
          neuron.bias).Z = 0 := by
    cases enabled : neuron.enable_Z with
    | true => simp [ZModule.posedge, phase.ending enabled]
    | false => simp [ZModule.posedge, phase.waiting enabled]
  rw [posedge_of_fed fed phase.write_enable, moved] at kept ⊢
  exact ⟨kept, rfl, rfl, phase.z_counter, phase.data_counter, read,
    (started _ _).1, (started _ _).2⟩

end Edge

/-! ## Passes in a run -/

/-- `Z` holds nothing when it begins a sum. -/
def ZModule.Cleared (unit : ZModule) : Prop :=
  unit.index = 0 → unit.Z = 0

theorem ZModule.Cleared.posedge {unit : ZModule} (cleared : unit.Cleared)
    (enable : Bool) (neuron_input weight bias : Word) :
    (unit.posedge NUM_INPUTS false enable neuron_input weight bias).Cleared := by
  unfold ZModule.posedge
  split_ifs <;> simp_all [Cleared]

/-- The hidden neuron before edge `t` of a run. -/
abbrev hiddenAt (unknown : Option ℕ → Word) (start : Neuron NUM_INPUTS)
    (inputs : ℕ → NeuronInputs NUM_INPUTS) (t : ℕ) : Neuron NUM_INPUTS :=
  stateAt (hidden_neuron unknown) start inputs t

/-- From edge `t` on a neuron makes a complete pass over the inputs. -/
structure Pass (neurons : ℕ → Neuron NUM_INPUTS)
    (inputs : ℕ → NeuronInputs NUM_INPUTS)
    (inputdata : BitVec (32 * NUM_INPUTS)) (t : ℕ) : Prop where
  begins : (neurons t).neuron_feedfoward_state = 0
  fed : ∀ k < NUM_INPUTS + 5, Fed inputdata (inputs (t + k))

/-- What a neuron should latch: its weights and bias over the inputs. -/
def activation (neuron : Neuron NUM_INPUTS)
    (inputdata : BitVec (32 * NUM_INPUTS)) : Word :=
  relu
    (ieee754_adder (weightedSum neuron.mem.mem (busWord inputdata)) neuron.bias)

section Run

variable {unknown : Option ℕ → Word} {start : Neuron NUM_INPUTS}
  {inputs : ℕ → NeuronInputs NUM_INPUTS}
  {inputdata : BitVec (32 * NUM_INPUTS)} {t : ℕ}

/-- In every run from power-on. -/
theorem cleared_hiddenAt (on : start.PowerOn) (t : ℕ) :
    (hiddenAt unknown start inputs t).Z.Cleared := by
  apply stateAt_invariant fun neuron : Neuron NUM_INPUTS => neuron.Z.Cleared
  · intro neuron inputs cleared
    exact cleared.posedge _ _ _ _
  · intro _
    exact on.Z.Z

/-- A ready pass latches its own activation and leaves one product in `Z`. -/
theorem Pass.latched (several : 2 ≤ NUM_INPUTS) (on : start.PowerOn)
    (pass : Pass (hiddenAt unknown start inputs) inputs inputdata t)
    (ready : Ready unknown (hiddenAt unknown start inputs t)) :
    Latched (activation (hiddenAt unknown start inputs t) inputdata)
      (hiddenAt unknown start inputs (t + (NUM_INPUTS + 5))) := by
  have last : t + (NUM_INPUTS + 5) = t + 2 + NUM_INPUTS + 2 + 1 := by omega
  have fed (k : ℕ) (inside : k < NUM_INPUTS + 3) :
      Fed inputdata (inputs (t + 2 + k)) := by
    rw [Nat.add_assoc]
    exact pass.fed (2 + k) (by omega)
  rw [activation]
  generalize weightsAre :
    (hiddenAt unknown start inputs t).mem.mem = weights
  generalize biasIs : (hiddenAt unknown start inputs t).bias = bias
  have addressed :
      Addressed unknown weights bias (hiddenAt unknown start inputs (t + 1)) := by
    rw [← weightsAre, ← biasIs]
    exact ready.posedge (pass.fed 0 (by omega)) pass.begins
      (cleared_hiddenAt on t)
  have enabled :
      Accumulating unknown weights bias inputdata 0
        (hiddenAt unknown start inputs (t + 2)) :=
    addressed.posedge (pass.fed 1 (by omega))
  have accumulated :
      Accumulating unknown weights bias inputdata NUM_INPUTS
        (hiddenAt unknown start inputs (t + 2 + NUM_INPUTS)) := by
    apply stateAt_phased (Accumulating unknown weights bias inputdata) enabled
    intro k inside neuron phase
    exact phase.posedge several (fed k (by omega)) inside
  have summed :
      Summed weights bias inputdata
        (hiddenAt unknown start inputs (t + 2 + NUM_INPUTS + 1)) :=
    accumulated.summed (fed NUM_INPUTS (by omega))
  have stopped :
      Stopped weights bias inputdata
        (hiddenAt unknown start inputs (t + 2 + NUM_INPUTS + 2)) :=
    summed.posedge several (fed (NUM_INPUTS + 1) (by omega))
  rw [last, ← stopped.result]
  exact stopped.posedge (fed (NUM_INPUTS + 2) (by omega))

/--
In every run, every pass which begins ready latches the activation for its own
inputs and the weights which it found.
-/
theorem ready_pass_latches_activation (several : 2 ≤ NUM_INPUTS)
    (on : start.PowerOn) (inputs : ℕ → NeuronInputs NUM_INPUTS)
    (pass : Pass (hiddenAt unknown start inputs) inputs inputdata t)
    (ready : Ready unknown (hiddenAt unknown start inputs t)) :
    (hiddenAt unknown start inputs (t + (NUM_INPUTS + 5))).a =
      activation (hiddenAt unknown start inputs t) inputdata :=
  (pass.latched several on ready).a

end Run

/-! ## Two passes of a neuron with two inputs -/

/-- A hidden neuron after power-on. -/
def sampleNeuron : Neuron 2 where
  z_counter := 0
  neuron_feedfoward_state := 0
  neuron_deltafunction_state := 0
  neuron_backpropagation_state := 0
  write_enable := false
  enable_Z := false
  bias := 0
  data_counter := none
  weight := 0
  a := 0
  mem := ⟨fun _ => 0x3f000000#32, 0⟩
  Z := ⟨0, 0, 0⟩

theorem powerOn_sampleNeuron : sampleNeuron.PowerOn where
  controller := ⟨rfl, rfl, rfl, rfl, rfl, rfl, rfl, rfl⟩
  mem _ := rfl
  Z := ⟨rfl, rfl⟩

/-- The inputs 1.0 and 2.0. -/
def sampleBus : BitVec (32 * 2) :=
  0x400000003f800000#64

/-- The inputs 1.0 and 1.0. -/
def sampleOnes : BitVec (32 * 2) :=
  0x3f8000003f800000#64

def sampleFed (inputdata : BitVec (32 * 2)) : NeuronInputs 2 where
  neuron_enable := true
  inputdata := inputdata
  alpha := 0
  deltafunction_value := 0
  weight_memory_address := 0
  neuron_state := .feedfoward

/-- A pass over the first bus, then the second bus. -/
def samplePasses (t : ℕ) : NeuronInputs 2 :=
  if t < 7 then sampleFed sampleBus else sampleFed sampleOnes

theorem ready_pass_latches_activation_sample :
    (hiddenAt (fun _ => 0) sampleNeuron samplePasses 7).a =
      activation sampleNeuron sampleBus := by
  have pass :
      Pass (hiddenAt (fun _ => 0) sampleNeuron samplePasses) samplePasses
        sampleBus 0 := by
    refine ⟨rfl, fun k inside => ?_⟩
    rw [Nat.zero_add, samplePasses, if_pos inside]
    exact ⟨rfl, rfl, rfl⟩
  have ready : Ready (fun _ => 0) sampleNeuron :=
    ⟨rfl, nofun, fun _ => rfl, nofun⟩
  exact ready_pass_latches_activation le_rfl powerOn_sampleNeuron samplePasses
    pass ready

/--
The second pass begins with the last product of the first one, and latches 1.5
instead of 1.0.
-/
theorem second_pass_adds_leftover :
    sampleNeuron.PowerOn ∧
      Pass (hiddenAt (fun _ => 0) sampleNeuron samplePasses) samplePasses
          sampleOnes 7 ∧
        (hiddenAt (fun _ => 0) sampleNeuron samplePasses 14).a = 0x3fc00000#32 ∧
          activation (hiddenAt (fun _ => 0) sampleNeuron samplePasses 7)
              sampleOnes =
            0x3f800000#32 := by
  refine ⟨powerOn_sampleNeuron, ⟨by decide +kernel, ?_⟩, by decide +kernel,
    by decide +kernel⟩
  intro k _
  rw [samplePasses, if_neg (by omega)]
  exact ⟨rfl, rfl, rfl⟩

end FederatedEdge.Fpga
