import FederatedEdge.Fpga.Weights

/-!
# The weight which a transaction writes

The first edge of a transaction sets the address and `write_enable` together, so
that the new address is not read.  What the following edges write, again and
again the same, is the increment added to the word which was read last, at
whatever address that was.
-/

namespace FederatedEdge.Fpga

variable {NUM_INPUTS clocks : ℕ} {unknown : Option ℕ → Word} {latched : Word}
  {neuron start : Neuron NUM_INPUTS} {inputs : NeuronInputs NUM_INPUTS}
  {k : Fin NUM_INPUTS} {address : Address NUM_INPUTS}

/-- The data of the inputs, enabled in a state. -/
def held (inputs : NeuronInputs NUM_INPUTS) (neuron_state : NeuronState) :
    NeuronInputs NUM_INPUTS :=
  { inputs with
    neuron_enable := true
    neuron_state := neuron_state }

/-- Some edges in state 10, and then an idle one. -/
def transaction (unknown : Option ℕ → Word) (inputs : NeuronInputs NUM_INPUTS)
    (clocks : ℕ) (neuron : Neuron NUM_INPUTS) : Neuron NUM_INPUTS :=
  hidden_neuron unknown
    ((fun neuron =>
        hidden_neuron unknown neuron (held inputs .backpropagation))^[clocks]
      neuron)
    (held inputs .idle)

/-- What is added to the weight of input `k`. -/
def increment (inputs : NeuronInputs NUM_INPUTS) (k : Fin NUM_INPUTS) : Word :=
  ieee754_multiplier
    (ieee754_multiplier inputs.alpha (busWord inputs.inputdata k))
    inputs.deltafunction_value

/-- Weight `k` has been incremented once, and the others are as before. -/
structure Updated (inputs : NeuronInputs NUM_INPUTS) (k : Fin NUM_INPUTS)
    (before after : Fin NUM_INPUTS → Word) : Prop where
  updated : after k = ieee754_adder (before k) (increment inputs k)
  others : ∀ i, i ≠ k → after i = before i

/-- As an idle edge leaves the neuron. -/
structure Idle (neuron : Neuron NUM_INPUTS) : Prop where
  write_enable : neuron.write_enable = false
  neuron_backpropagation_state : neuron.neuron_backpropagation_state = 0

/-- Every edge writes to address `k`; `start` shows what was read last. -/
structure Writing (start : Neuron NUM_INPUTS) (k : Fin NUM_INPUTS)
    (address : Address NUM_INPUTS) (neuron : Neuron NUM_INPUTS) : Prop where
  write_enable : neuron.write_enable = true
  data_counter : neuron.data_counter = some address
  inside : address.toNat = k.val
  read_data : neuron.mem.read_data = start.mem.read_data
  state :
    neuron.neuron_backpropagation_state = 0 ∨
      neuron.neuron_backpropagation_state = 1

/-- With `write_enable` set nothing is read. -/
theorem read_data_of_write_enable
    (enabled : (neuron.posedge unknown latched inputs).write_enable = true) :
    (neuron.posedge unknown latched inputs).mem.read_data =
      neuron.mem.read_data := by
  change (Controller.posedge _ _ _ _).write_enable = true at enabled
  show (Memory.settle _ _ _ _ _).read_data = _
  rw [enabled, Memory.settle, if_neg (fun both => Bool.noConfusion both.2),
    Memory.posedge]
  split_ifs <;> rfl

/-- The first edge of a transaction writes nothing and reads nothing. -/
theorem Idle.begins (idle : Idle start)
    (address : inputs.weight_memory_address.toNat = k.val) :
    Writing start k inputs.weight_memory_address
        (hidden_neuron unknown start (held inputs .backpropagation)) ∧
      (hidden_neuron unknown start (held inputs .backpropagation)).mem.mem =
        start.mem.mem := by
  have first : Begins start (held inputs .backpropagation) :=
    ⟨⟨rfl, rfl⟩, idle.neuron_backpropagation_state⟩
  have controller :
      (start.posedge unknown (relu start.Z.result)
          (held inputs .backpropagation)).toController = _ :=
    first.controller_posedge
  have enabled :
      (hidden_neuron unknown start (held inputs .backpropagation)).write_enable =
        true := by
    rw [hidden_neuron, controller]
  refine ⟨⟨enabled, ?_, address, read_data_of_write_enable enabled, ?_⟩, ?_⟩
  · rw [hidden_neuron, controller]
    rfl
  · rw [hidden_neuron, controller]
    exact Or.inr rfl
  · funext i
    rw [hidden_neuron, mem_posedge, idle.write_enable,
      if_neg (fun both => Bool.noConfusion both.1)]

/-- Every later edge writes the increment added to what was read before. -/
theorem Writing.mem_posedge (writing : Writing start k address neuron)
    (neuron_state : NeuronState) :
    (hidden_neuron unknown neuron (held inputs neuron_state)).mem.mem =
      Function.update neuron.mem.mem k
        (ieee754_adder start.mem.read_data (increment inputs k)) := by
  have selected :
      neuron.MUX_OUT unknown (held inputs neuron_state) =
        busWord inputs.inputdata k := by
    have inside : address.toNat < NUM_INPUTS := by
      rw [writing.inside]
      exact k.isLt
    rw [Neuron.MUX_OUT, multiplexer_parametrized, writing.data_counter,
      selectWord_inside unknown _ inside]
    exact congrArg _ (Fin.ext writing.inside)
  have written :
      neuron.A1_MEM unknown (held inputs neuron_state) =
        ieee754_adder start.mem.read_data (increment inputs k) := by
    rw [Neuron.A1_MEM, selected, writing.read_data]
    rfl
  have here (i : Fin NUM_INPUTS) :
      neuron.write_enable = true ∧
          neuron.data_counter.map BitVec.toNat = some i.val ↔
        i = k := by
    rw [writing.write_enable, writing.data_counter, Option.map_some,
      writing.inside, Option.some_inj, Fin.ext_iff, eq_comm (a := i.val)]
    exact and_iff_right rfl
  funext i
  rw [hidden_neuron, FederatedEdge.Fpga.mem_posedge, written,
    Function.update_apply]
  exact if_congr (here i) rfl rfl

theorem Writing.posedge (writing : Writing start k address neuron)
    (same : inputs.weight_memory_address = address) :
    Writing start k address
      (hidden_neuron unknown neuron (held inputs .backpropagation)) := by
  have second : Propagates (held inputs .backpropagation) := ⟨rfl, rfl⟩
  have keeps (enabled : (hidden_neuron unknown neuron
        (held inputs .backpropagation)).write_enable = true) :
      (hidden_neuron unknown neuron
          (held inputs .backpropagation)).mem.read_data =
        start.mem.read_data :=
    (read_data_of_write_enable enabled).trans writing.read_data
  rcases writing.state with first | later
  · have controller :
        (neuron.posedge unknown (relu neuron.Z.result)
            (held inputs .backpropagation)).toController = _ :=
      Begins.controller_posedge ⟨second, first⟩
    have enabled :
        (hidden_neuron unknown neuron
          (held inputs .backpropagation)).write_enable = true := by
      rw [hidden_neuron, controller]
    refine ⟨enabled, ?_, writing.inside, keeps enabled, ?_⟩
    · rw [hidden_neuron, controller]
      exact congrArg some same
    · rw [hidden_neuron, controller]
      exact Or.inr rfl
  · have controller :
        (hidden_neuron unknown neuron
            (held inputs .backpropagation)).toController =
          { neuron.toController with
            weight := neuron.mem.read_data
            neuron_backpropagation_state := 0 } := by
      simp [hidden_neuron, Neuron.posedge, Controller.posedge,
        Controller.backpropagation, held, later]
    have enabled :
        (hidden_neuron unknown neuron
          (held inputs .backpropagation)).write_enable = true := by
      rw [controller]
      exact writing.write_enable
    refine ⟨enabled, ?_, writing.inside, keeps enabled, ?_⟩
    · rw [controller]
      exact writing.data_counter
    · rw [controller]
      exact Or.inl rfl

/-- After the first edge and `writes` more, the word stands at its address. -/
theorem writing_iterate (unknown : Option ℕ → Word) (idle : Idle start)
    (address : inputs.weight_memory_address.toNat = k.val) (writes : ℕ) :
    Writing start k inputs.weight_memory_address
        ((fun neuron =>
            hidden_neuron unknown neuron (held inputs .backpropagation))^[writes + 1]
          start) ∧
      ∀ i, i ≠ k →
        ((fun neuron =>
              hidden_neuron unknown neuron (held inputs .backpropagation))^[writes + 1]
            start).mem.mem i =
          start.mem.mem i := by
  induction writes with
  | zero =>
      rcases idle.begins address with ⟨writing, unchanged⟩
      exact ⟨writing, fun i _ => congrFun unchanged i⟩
  | succ writes inductionHypothesis =>
      rcases inductionHypothesis with ⟨writing, others⟩
      rw [Function.iterate_succ_apply']
      refine ⟨writing.posedge rfl, fun i other => ?_⟩
      rw [writing.mem_posedge, Function.update_of_ne other]
      exact others i other

/-- What a transaction leaves in the memory. -/
theorem mem_transaction (idle : Idle start)
    (address : inputs.weight_memory_address.toNat = k.val)
    (begun : 1 ≤ clocks) :
    (transaction unknown inputs clocks start).mem.mem =
      Function.update start.mem.mem k
        (ieee754_adder start.mem.read_data (increment inputs k)) := by
  obtain ⟨writes, rfl⟩ : ∃ writes, clocks = writes + 1 :=
    Nat.exists_eq_add_of_le' begun
  rcases writing_iterate unknown idle address writes
    with ⟨writing, others⟩
  rw [transaction, writing.mem_posedge]
  funext i
  by_cases same : i = k
  · rw [same, Function.update_self, Function.update_self]
  · rw [Function.update_of_ne same, Function.update_of_ne same, others i same]

/--
A transaction increments the weight once if and only if the word which was read
last gives the same sum with the increment; it always does if it is the weight
itself.
-/
theorem transaction_updates_iff (unknown : Option ℕ → Word)
    (neuron : Neuron NUM_INPUTS) (idle : Idle neuron)
    (inputs : NeuronInputs NUM_INPUTS) (k : Fin NUM_INPUTS)
    (address : inputs.weight_memory_address.toNat = k.val) (clocks : ℕ)
    (enough : 2 ≤ clocks) :
    Updated inputs k neuron.mem.mem
        (transaction unknown inputs clocks neuron).mem.mem ↔
      ieee754_adder neuron.mem.read_data (increment inputs k) =
        ieee754_adder (neuron.mem.mem k) (increment inputs k) := by
  rw [mem_transaction idle address (by omega)]
  constructor
  · intro right
    have updated := right.updated
    rw [Function.update_self] at updated
    exact updated
  · intro same
    refine ⟨?_, fun i other => Function.update_of_ne other _ _⟩
    rw [Function.update_self]
    exact same

/-! ## Two transactions of a neuron with two inputs -/

/-- The weight one is read, incremented, and, after an idle edge, incremented. -/
def sampleRepeated : ℕ → NeuronInputs 2
  | 0 => sampleEdge true .deltafunction
  | 1 => sampleEdge true .idle
  | 2 => sampleEdge true .backpropagation
  | 3 => sampleEdge true .backpropagation
  | _ => sampleEdge true .idle

/-- The neuron before the second transaction. -/
def sampleBefore : Neuron 2 :=
  hiddenAt (fun _ => 0) sampleNeuron sampleRepeated 5

theorem idle_sampleBefore : Idle sampleBefore :=
  ⟨by decide +kernel, by decide +kernel⟩

theorem transaction_updates_iff_sample :
    Updated (sampleEdge true .idle) 1 sampleBefore.mem.mem
        (transaction (fun _ => 0) (sampleEdge true .idle) 2
          sampleBefore).mem.mem ↔
      ieee754_adder sampleBefore.mem.read_data
          (increment (sampleEdge true .idle) 1) =
        ieee754_adder (sampleBefore.mem.mem 1)
          (increment (sampleEdge true .idle) 1) :=
  transaction_updates_iff (fun _ => 0) sampleBefore idle_sampleBefore
    (sampleEdge true .idle) 1 (by decide) 2 le_rfl

/-- The second of two increments by 1.0 leaves the weight at 1.5. -/
theorem second_transaction_lost :
    sampleNeuron.PowerOn ∧ Idle sampleBefore ∧
      sampleBefore.mem.mem 1 = 0x3fc00000#32 ∧
      increment (sampleEdge true .idle) 1 = one ∧
      (transaction (fun _ => 0) (sampleEdge true .idle) 2
          sampleBefore).mem.mem 1 = 0x3fc00000#32 ∧
      ¬ Updated (sampleEdge true .idle) 1 sampleBefore.mem.mem
        (transaction (fun _ => 0) (sampleEdge true .idle) 2
          sampleBefore).mem.mem := by
  have before : sampleBefore.mem.mem 1 = 0x3fc00000#32 := by decide +kernel
  have added : increment (sampleEdge true .idle) 1 = one := by decide +kernel
  have after :
      (transaction (fun _ => 0) (sampleEdge true .idle) 2
        sampleBefore).mem.mem 1 = 0x3fc00000#32 := by
    decide +kernel
  refine ⟨powerOn_sampleNeuron, idle_sampleBefore, before, added, after, ?_⟩
  intro right
  have updated := right.updated
  rw [before, added, after] at updated
  exact absurd updated (by decide)

end FederatedEdge.Fpga
