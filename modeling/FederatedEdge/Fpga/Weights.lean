import FederatedEdge.Fpga.Feedforward

/-!
# When the weights change

`write_enable` is set by the first edge of a back-propagation transaction and
falls in the idle state only; until then every edge writes, whatever its state
is.  The weights change in transactions only if every such edge belongs to a
transaction at its own address or writes the same word again.
-/

namespace FederatedEdge.Fpga

open FederatedEdge.Library

variable {NUM_INPUTS : ℕ}

/-! ## Transactions -/

/-- An enabled edge in state 10. -/
structure Propagates (inputs : NeuronInputs NUM_INPUTS) : Prop where
  neuron_enable : inputs.neuron_enable = true
  neuron_state : inputs.neuron_state = .backpropagation

/-- The first edge of a transaction, which stores its address. -/
structure Begins (neuron : Neuron NUM_INPUTS)
    (inputs : NeuronInputs NUM_INPUTS) : Prop extends Propagates inputs where
  state : neuron.neuron_backpropagation_state = 0

/--
An edge after another one belongs to a transaction at an address: it is the
transaction's first edge, or it follows the first edge at once.
-/
inductive Transacts (before : Neuron NUM_INPUTS)
    (previous : NeuronInputs NUM_INPUTS) (neuron : Neuron NUM_INPUTS)
    (inputs : NeuronInputs NUM_INPUTS) : Address NUM_INPUTS → Prop where
  | begins (first : Begins neuron inputs) :
      Transacts before previous neuron inputs inputs.weight_memory_address
  | completes (first : Begins before previous) (second : Propagates inputs) :
      Transacts before previous neuron inputs previous.weight_memory_address

/-- The inputs from which the new weight is computed. -/
structure SameData (previous inputs : NeuronInputs NUM_INPUTS) : Prop where
  inputdata : inputs.inputdata = previous.inputdata
  alpha : inputs.alpha = previous.alpha
  deltafunction_value :
    inputs.deltafunction_value = previous.deltafunction_value

/-- The edge before has written the same word to the same address. -/
structure Repeats (before : Neuron NUM_INPUTS)
    (previous : NeuronInputs NUM_INPUTS) (neuron : Neuron NUM_INPUTS)
    (inputs : NeuronInputs NUM_INPUTS) : Prop where
  write_enable : before.write_enable = true
  data_counter : neuron.data_counter = before.data_counter
  data : SameData previous inputs

section Runs

variable (neurons : ℕ → Neuron NUM_INPUTS)
  (inputs : ℕ → NeuronInputs NUM_INPUTS)

/--
Every edge which begins with `write_enable` belongs to a transaction at the
address in `data_counter`, or repeats the edge before it.
-/
def Guarded : Prop :=
  ∀ t, (neurons (t + 1)).write_enable = true →
    (∃ address, (neurons (t + 1)).data_counter = some address ∧
      Transacts (neurons t) (inputs t) (neurons (t + 1)) (inputs (t + 1))
        address) ∨
    Repeats (neurons t) (inputs t) (neurons (t + 1)) (inputs (t + 1))

/-- Weights change in transactions only, and only at their addresses. -/
def ChangesInTransactions : Prop :=
  ∀ t i, (neurons (t + 1)).mem.mem i ≠ (neurons t).mem.mem i →
    ∃ u address, t = u + 1 ∧ address.toNat = i.val ∧
      Transacts (neurons u) (inputs u) (neurons t) (inputs t) address

/-- What the two neurons have in common, after power-on. -/
structure NeuronRun (unknown : Option ℕ → Word) : Prop where
  powerOn : (neurons 0).PowerOn
  steps : ∀ t, ∃ latched,
    neurons (t + 1) = (neurons t).posedge unknown latched (inputs t)

end Runs

/-! ## What an edge does to the weights -/

section Edge

variable {unknown : Option ℕ → Word} {latched other : Word}
  {neuron : Neuron NUM_INPUTS} {inputs next : NeuronInputs NUM_INPUTS}

theorem mem_posedge (i : Fin NUM_INPUTS) :
    (neuron.posedge unknown latched inputs).mem.mem i =
      if neuron.write_enable = true ∧
          neuron.data_counter.map BitVec.toNat = some i.val then
        neuron.A1_MEM unknown inputs
      else neuron.mem.mem i := by
  rw [Neuron.posedge, Memory.mem_settle]
  cases enabled : neuron.write_enable with
  | false => simp
  | true => simp [Memory.posedge]

/-- While the address stays, so does what has been read. -/
theorem read_data_posedge
    (stays :
      (neuron.posedge unknown latched inputs).data_counter =
        neuron.data_counter) :
    (neuron.posedge unknown latched inputs).mem.read_data =
      neuron.mem.read_data := by
  have address :
      (neuron.toController.posedge neuron.mem.read_data latched
          inputs).data_counter =
        neuron.data_counter := stays
  show (Memory.settle _ _ _ _ _).read_data = _
  rw [address, Memory.settle_same, Memory.posedge]
  split_ifs <;> rfl

/-- Repeating an edge writes the word which is there. -/
theorem mem_posedge_of_repeats
    (repeats :
      Repeats neuron inputs (neuron.posedge unknown latched inputs) next)
    (i : Fin NUM_INPUTS) :
    ((neuron.posedge unknown latched inputs).posedge unknown other
        next).mem.mem i =
      (neuron.posedge unknown latched inputs).mem.mem i := by
  have sameWord :
      (neuron.posedge unknown latched inputs).A1_MEM unknown next =
        neuron.A1_MEM unknown inputs := by
    simp only [Neuron.A1_MEM, Neuron.MUX_OUT, repeats.data_counter,
      read_data_posedge repeats.data_counter, repeats.data.inputdata,
      repeats.data.alpha, repeats.data.deltafunction_value]
  rw [mem_posedge, sameWord, repeats.data_counter]
  split_ifs with written
  · rw [mem_posedge, if_pos ⟨repeats.write_enable, written.2⟩]
  · rfl

end Edge

/-! ## What a run does to the weights -/

section Runs

variable {unknown : Option ℕ → Word} {neurons : ℕ → Neuron NUM_INPUTS}
  {inputs : ℕ → NeuronInputs NUM_INPUTS}

/-- In every guarded run the weights change in transactions only. -/
theorem NeuronRun.changes (run : NeuronRun neurons inputs unknown)
    (guarded : Guarded neurons inputs) :
    ChangesInTransactions neurons inputs := by
  intro t i changed
  rcases run.steps t with ⟨latched, step⟩
  rw [step, mem_posedge] at changed
  have written :
      (neurons t).write_enable = true ∧
        (neurons t).data_counter.map BitVec.toNat = some i.val := by
    by_contra unwritten
    exact changed (if_neg unwritten)
  cases t with
  | zero =>
      rw [run.powerOn.controller.write_enable] at written
      exact absurd written.1 Bool.false_ne_true
  | succ u =>
      rcases guarded u written.1 with ⟨address, stored, transacts⟩ | repeats
      · refine ⟨u, address, rfl, ?_, transacts⟩
        rw [stored, Option.map_some] at written
        exact Option.some.inj written.2
      · rcases run.steps u with ⟨earlier, before⟩
        rw [before] at repeats
        have unchanged :
            (((neurons u).posedge unknown earlier (inputs u)).posedge unknown
                latched (inputs (u + 1))).mem.mem i =
              ((neurons u).posedge unknown earlier (inputs u)).mem.mem i :=
          mem_posedge_of_repeats repeats i
        rw [← before, mem_posedge] at unchanged
        exact absurd unchanged changed

/-- The softmax neuron before edge `t` of a run. -/
abbrev softmaxAt (unknown : Option ℕ → Word) (start : SoftmaxNeuron NUM_INPUTS)
    (inputs : ℕ → SoftmaxInputs NUM_INPUTS) (t : ℕ) :
    SoftmaxNeuron NUM_INPUTS :=
  stateAt (softmax_neuron unknown) start inputs t

theorem run_hiddenAt {start : Neuron NUM_INPUTS} (on : start.PowerOn) :
    NeuronRun (hiddenAt unknown start inputs) inputs unknown where
  powerOn := on
  steps _ := ⟨_, rfl⟩

theorem run_softmaxAt {start : SoftmaxNeuron NUM_INPUTS} (on : start.PowerOn)
    {softmaxInputs : ℕ → SoftmaxInputs NUM_INPUTS} :
    NeuronRun (fun t => (softmaxAt unknown start softmaxInputs t).toNeuron)
      (fun t => (softmaxInputs t).toNeuronInputs) unknown where
  powerOn := on.base
  steps _ := ⟨_, rfl⟩

end Runs

/-- Both neurons, with any number of inputs. -/
theorem weights_change_in_transactions (unknown : Option ℕ → Word) :
    (∀ (start : Neuron NUM_INPUTS) (inputs : ℕ → NeuronInputs NUM_INPUTS),
      start.PowerOn → Guarded (hiddenAt unknown start inputs) inputs →
        ChangesInTransactions (hiddenAt unknown start inputs) inputs) ∧
    ∀ (start : SoftmaxNeuron NUM_INPUTS)
      (inputs : ℕ → SoftmaxInputs NUM_INPUTS),
      start.PowerOn →
        Guarded (fun t => (softmaxAt unknown start inputs t).toNeuron)
          (fun t => (inputs t).toNeuronInputs) →
        ChangesInTransactions
          (fun t => (softmaxAt unknown start inputs t).toNeuron)
          (fun t => (inputs t).toNeuronInputs) := by
  constructor
  · intro start inputs on guarded
    exact (run_hiddenAt on).changes guarded
  · intro start inputs on guarded
    exact (run_softmaxAt on).changes guarded

/-! ## Transactions by themselves -/

/--
Every transaction is made of two edges, which an idle edge with the same data
follows at once.
-/
def Isolated (neurons : ℕ → Neuron NUM_INPUTS)
    (inputs : ℕ → NeuronInputs NUM_INPUTS) : Prop :=
  ∀ t, Begins (neurons t) (inputs t) →
    Propagates (inputs (t + 1)) ∧
      (inputs (t + 2)).neuron_enable = true ∧
        (inputs (t + 2)).neuron_state = .idle ∧
          SameData (inputs (t + 1)) (inputs (t + 2))

section Isolated

variable {unknown : Option ℕ → Word} {latched : Word}
  {neuron : Neuron NUM_INPUTS} {neurons : ℕ → Neuron NUM_INPUTS}
  {inputs : NeuronInputs NUM_INPUTS}
  {allInputs : ℕ → NeuronInputs NUM_INPUTS}

theorem Begins.controller_posedge (first : Begins neuron inputs) :
    (neuron.posedge unknown latched inputs).toController =
      { neuron.toController with
        data_counter := some inputs.weight_memory_address
        neuron_backpropagation_state := 1
        write_enable := true } := by
  simp [Neuron.posedge, Controller.posedge, Controller.backpropagation,
    first.neuron_enable, first.neuron_state, first.state]

theorem Propagates.data_counter_posedge (second : Propagates inputs)
    (state : neuron.neuron_backpropagation_state = 1) :
    (neuron.posedge unknown latched inputs).data_counter =
      neuron.data_counter := by
  simp [Neuron.posedge, Controller.posedge, Controller.backpropagation,
    second.neuron_enable, second.neuron_state, state]

@[simp]
theorem Controller.write_enable_deltafunction (MEM_OUT : Word)
    (weight_memory_address : Address NUM_INPUTS)
    (controller : Controller NUM_INPUTS) :
    (controller.deltafunction MEM_OUT weight_memory_address).write_enable =
      controller.write_enable := by
  unfold deltafunction
  split_ifs <;> rfl

theorem Controller.write_enable_backpropagation (MEM_OUT : Word)
    (weight_memory_address : Address NUM_INPUTS)
    {controller : Controller NUM_INPUTS}
    (later : controller.neuron_backpropagation_state ≠ 0) :
    (controller.backpropagation MEM_OUT weight_memory_address).write_enable =
      controller.write_enable := by
  rw [backpropagation, if_neg later]
  split_ifs <;> rfl

/-- `write_enable` is set at the beginning of a transaction, or it was before. -/
theorem write_enable_posedge
    (enabled : (neuron.posedge unknown latched inputs).write_enable = true) :
    Begins neuron inputs ∨
      (neuron.write_enable = true ∧
        ¬ (inputs.neuron_enable = true ∧ inputs.neuron_state = .idle)) := by
  change (Controller.posedge _ _ _ _).write_enable = true at enabled
  rw [Controller.posedge] at enabled
  split_ifs at enabled with enable
  · cases state : inputs.neuron_state with
    | feedfoward =>
        rw [state, Controller.write_enable_feedfoward] at enabled
        exact Or.inr ⟨enabled, by simp⟩
    | deltafunction =>
        rw [state, Controller.write_enable_deltafunction] at enabled
        exact Or.inr ⟨enabled, by simp⟩
    | backpropagation =>
        rw [state] at enabled
        by_cases first : neuron.neuron_backpropagation_state = 0
        · exact Or.inl ⟨⟨enable, state⟩, first⟩
        · rw [Controller.write_enable_backpropagation _ _ first] at enabled
          exact Or.inr ⟨enabled, by simp⟩
    | idle =>
        rw [state] at enabled
        exact absurd enabled Bool.false_ne_true
  · exact Or.inr ⟨enabled, fun idle => enable idle.1⟩

/-- With isolated transactions `write_enable` is set for two edges each. -/
theorem NeuronRun.begun (run : NeuronRun neurons allInputs unknown)
    (isolated : Isolated neurons allInputs) (t : ℕ)
    (enabled : (neurons t).write_enable = true) :
    ∃ u, Begins (neurons u) (allInputs u) ∧ (t = u + 1 ∨ t = u + 2) := by
  induction t with
  | zero =>
      rw [run.powerOn.controller.write_enable] at enabled
      exact absurd enabled Bool.false_ne_true
  | succ t inductionHypothesis =>
      rcases run.steps t with ⟨latched, step⟩
      rw [step] at enabled
      rcases write_enable_posedge enabled with first | ⟨still, notIdle⟩
      · exact ⟨t, first, Or.inl rfl⟩
      · rcases inductionHypothesis still with ⟨u, first, rfl | rfl⟩
        · exact ⟨u, first, Or.inr rfl⟩
        · rcases isolated u first with ⟨-, enable, idle, -⟩
          exact absurd ⟨enable, idle⟩ notIdle

/-- Runs with isolated transactions are guarded. -/
theorem NeuronRun.guarded (run : NeuronRun neurons allInputs unknown)
    (isolated : Isolated neurons allInputs) : Guarded neurons allInputs := by
  intro t enabled
  rcases run.begun isolated (t + 1) enabled with ⟨u, first, same | next⟩
  · rcases Nat.succ.inj same with rfl
    rcases isolated t first with ⟨second, -⟩
    rcases run.steps t with ⟨latched, step⟩
    left
    refine ⟨_, ?_, .completes first second⟩
    rw [step, first.controller_posedge]
  · rcases Nat.succ.inj next with rfl
    rcases isolated u first with ⟨second, -, -, data⟩
    rcases run.steps u with ⟨latched, step⟩
    rcases run.steps (u + 1) with ⟨later, nextStep⟩
    right
    refine ⟨?_, ?_, data⟩
    · rw [step, first.controller_posedge]
    · rw [nextStep]
      apply second.data_counter_posedge
      rw [step, first.controller_posedge]

end Isolated

/-! ## A transaction of a neuron with two inputs -/

/-- Inputs with the learning rate and all values 1.0, for the weight one. -/
def sampleEdge (neuron_enable : Bool) (neuron_state : NeuronState) :
    NeuronInputs 2 where
  neuron_enable := neuron_enable
  inputdata := sampleOnes
  alpha := one
  deltafunction_value := one
  weight_memory_address := 1
  neuron_state := neuron_state

/-- A transaction, an idle edge, and then nothing. -/
def sampleTransaction : ℕ → NeuronInputs 2
  | 0 => sampleEdge true .backpropagation
  | 1 => sampleEdge true .backpropagation
  | 2 => sampleEdge true .idle
  | _ => sampleEdge false .idle

theorem isolated_sampleTransaction {unknown : Option ℕ → Word}
    {neurons : ℕ → Neuron 2}
    (run : NeuronRun neurons sampleTransaction unknown) :
    Isolated neurons sampleTransaction := by
  rintro (_ | _ | _ | t) first
  · exact ⟨⟨rfl, rfl⟩, rfl, rfl, ⟨rfl, rfl, rfl⟩⟩
  · have zero : Begins (neurons 0) (sampleTransaction 0) :=
      ⟨⟨rfl, rfl⟩, run.powerOn.controller.neuron_backpropagation_state⟩
    rcases run.steps 0 with ⟨latched, step⟩
    have state := first.state
    rw [step, zero.controller_posedge] at state
    change (1 : BitVec 2) = 0 at state
    exact absurd state (by decide)
  · exact absurd first.neuron_state (by decide)
  · exact absurd first.neuron_enable Bool.false_ne_true

/-- A softmax neuron after power-on. -/
def sampleSoftmax : SoftmaxNeuron 2 where
  toNeuron := sampleNeuron
  E1 :=
    { index_fatorial := 0
      index_division := 0
      div_enable := false
      natural_exponential_counter := 0
      pontential_mul := one
      fatorial_count := 0
      fatorial_mul := one
      natural_exponential_sum := one
      result := 0
      done := false
      D1 := ⟨0, 0, 0, 0⟩ }
  D1 := ⟨0, 0, 0, 0⟩

theorem powerOn_sampleSoftmax : sampleSoftmax.PowerOn where
  base := powerOn_sampleNeuron
  E1 := ⟨rfl, rfl, rfl, rfl, ⟨rfl, rfl, rfl⟩⟩
  D1 := ⟨rfl, rfl, rfl⟩

theorem weights_change_in_transactions_sample :
    ChangesInTransactions
        (hiddenAt (fun _ => 0) sampleNeuron sampleTransaction)
        sampleTransaction ∧
      ChangesInTransactions
        (fun t =>
          (softmaxAt (fun _ => 0) sampleSoftmax
            (fun t => ⟨sampleTransaction t, one⟩) t).toNeuron)
        sampleTransaction := by
  have hidden :
      NeuronRun (hiddenAt (fun _ => 0) sampleNeuron sampleTransaction)
        sampleTransaction fun _ => 0 :=
    run_hiddenAt powerOn_sampleNeuron
  have softmax :
      NeuronRun
        (fun t =>
          (softmaxAt (fun _ => 0) sampleSoftmax
            (fun t => ⟨sampleTransaction t, one⟩) t).toNeuron)
        sampleTransaction fun _ => 0 :=
    run_softmaxAt powerOn_sampleSoftmax
  constructor
  · exact (weights_change_in_transactions fun _ => 0).1 sampleNeuron
      sampleTransaction powerOn_sampleNeuron
      (hidden.guarded (isolated_sampleTransaction hidden))
  · exact (weights_change_in_transactions fun _ => 0).2 sampleSoftmax _
      powerOn_sampleSoftmax
      (softmax.guarded (isolated_sampleTransaction softmax))

/-- A transaction at the weight one, and a pass directly after it. -/
def sampleTraining : ℕ → NeuronInputs 2
  | 0 => sampleEdge true .backpropagation
  | 1 => sampleEdge true .backpropagation
  | _ => sampleEdge true .feedfoward

/-- The pass writes to the weight zero. -/
theorem pass_after_transaction_writes :
    sampleNeuron.PowerOn ∧
      (sampleTraining 3).neuron_state = .feedfoward ∧
        (hiddenAt (fun _ => 0) sampleNeuron sampleTraining 3).mem.mem 0 =
            0x3f000000#32 ∧
          (hiddenAt (fun _ => 0) sampleNeuron sampleTraining 4).mem.mem 0 =
              0x3f800000#32 ∧
            ¬ ChangesInTransactions
              (hiddenAt (fun _ => 0) sampleNeuron sampleTraining)
              sampleTraining := by
  refine ⟨powerOn_sampleNeuron, rfl, by decide +kernel, by decide +kernel, ?_⟩
  intro changes
  rcases changes 3 0 (by decide +kernel) with ⟨u, address, same, -, transacts⟩
  rcases Nat.succ.inj same with rfl
  cases transacts with
  | begins first => exact absurd first.neuron_state (by decide)
  | completes _ second => exact absurd second.neuron_state (by decide)

end FederatedEdge.Fpga
