import FederatedEdge.Fpga.Miscellaneous

/-!
# The neurons

`hidden_neuron` and `softmax_neuron` share their controller, their weight memory
and the accumulator `Z`; they differ in what the controller latches into `a`.
Every edge of the clock reads the registers from before it; the read port of the
memory then follows the address.
-/

namespace FederatedEdge.Fpga

/-! ## The accumulator -/

def relu (Z : Word) : Word :=
  if Z.sign then 0 else Z

/-- The registers of the module `Z`. -/
structure ZModule where
  Z : Word
  index : ℕ
  result : Word
  deriving DecidableEq

namespace ZModule

/-- An edge of the clock of the module `Z`. -/
def posedge (NUM_INPUTS : ℕ) (reset enable : Bool)
    (neuron_input weight bias : Word) (unit : ZModule) : ZModule :=
  if reset then { Z := 0, index := 0, result := 0 }
  else if enable then
    if unit.index < NUM_INPUTS then
      { unit with
        Z := ieee754_adder unit.Z (ieee754_multiplier weight neuron_input)
        index := unit.index + 1 }
    else if unit.index = NUM_INPUTS then
      { Z := 0, index := 0, result := ieee754_adder unit.Z bias }
    else unit
  else unit

/-- What the initial block sets. -/
structure PowerOn (unit : ZModule) : Prop where
  Z : unit.Z = 0
  index : unit.index = 0

end ZModule

/-! ## The controller -/

/-- The values of `neuron_state`, as the case labels name them. -/
inductive NeuronState where
  | feedfoward
  | deltafunction
  | backpropagation
  | idle
  deriving DecidableEq

/-- The inputs which both neurons have. -/
structure NeuronInputs (NUM_INPUTS : ℕ) where
  neuron_enable : Bool
  inputdata : BitVec (32 * NUM_INPUTS)
  alpha : Word
  deltafunction_value : Word
  weight_memory_address : Address NUM_INPUTS
  neuron_state : NeuronState

/-- The registers which the controller sets. -/
structure Controller (NUM_INPUTS : ℕ) where
  z_counter : ℕ
  neuron_feedfoward_state : BitVec 2
  neuron_deltafunction_state : BitVec 2
  neuron_backpropagation_state : BitVec 2
  write_enable : Bool
  enable_Z : Bool
  bias : Word
  data_counter : Option (Address NUM_INPUTS)
  weight : Word
  a : Word
  deriving DecidableEq

namespace Controller

variable {NUM_INPUTS : ℕ}

/-- The feed-forward state machine; `latched` is what state 11 stores. -/
def feedfoward (latched : Word) (controller : Controller NUM_INPUTS) :
    Controller NUM_INPUTS :=
  if controller.neuron_feedfoward_state = 0 then
    { controller with
      neuron_feedfoward_state := 1
      data_counter := some 0
      z_counter := 0 }
  else if controller.neuron_feedfoward_state = 1 then
    { controller with enable_Z := true, neuron_feedfoward_state := 2 }
  else if controller.neuron_feedfoward_state = 2 then
    if controller.z_counter ≤ NUM_INPUTS then
      { controller with
        z_counter := controller.z_counter + 1
        data_counter := controller.data_counter.map (· + 1) }
    else
      { controller with
        enable_Z := false
        neuron_feedfoward_state := controller.neuron_feedfoward_state + 1 }
  else { controller with a := latched, neuron_feedfoward_state := 0 }

def deltafunction (MEM_OUT : Word) (weight_memory_address : Address NUM_INPUTS)
    (controller : Controller NUM_INPUTS) : Controller NUM_INPUTS :=
  if controller.neuron_deltafunction_state = 0 then
    { controller with
      data_counter := some weight_memory_address
      neuron_deltafunction_state := 1 }
  else if controller.neuron_deltafunction_state = 1 then
    { controller with weight := MEM_OUT, neuron_deltafunction_state := 0 }
  else controller

def backpropagation (MEM_OUT : Word)
    (weight_memory_address : Address NUM_INPUTS)
    (controller : Controller NUM_INPUTS) : Controller NUM_INPUTS :=
  if controller.neuron_backpropagation_state = 0 then
    { controller with
      data_counter := some weight_memory_address
      neuron_backpropagation_state := 1
      write_enable := true }
  else if controller.neuron_backpropagation_state = 1 then
    { controller with weight := MEM_OUT, neuron_backpropagation_state := 0 }
  else controller

def idle (controller : Controller NUM_INPUTS) : Controller NUM_INPUTS :=
  { controller with
    neuron_feedfoward_state := 0
    neuron_deltafunction_state := 0
    neuron_backpropagation_state := 0
    write_enable := false }

/-- An edge of the clock of the controller. -/
def posedge (MEM_OUT latched : Word) (inputs : NeuronInputs NUM_INPUTS)
    (controller : Controller NUM_INPUTS) : Controller NUM_INPUTS :=
  if inputs.neuron_enable then
    match inputs.neuron_state with
    | .feedfoward => controller.feedfoward latched
    | .deltafunction =>
        controller.deltafunction MEM_OUT inputs.weight_memory_address
    | .backpropagation =>
        controller.backpropagation MEM_OUT inputs.weight_memory_address
    | .idle => controller.idle
  else controller

/-- What the initial block sets; the other registers hold anything. -/
structure PowerOn (controller : Controller NUM_INPUTS) : Prop where
  bias : controller.bias = 0
  weight : controller.weight = 0
  write_enable : controller.write_enable = false
  neuron_feedfoward_state : controller.neuron_feedfoward_state = 0
  neuron_deltafunction_state : controller.neuron_deltafunction_state = 0
  neuron_backpropagation_state : controller.neuron_backpropagation_state = 0
  enable_Z : controller.enable_Z = false
  data_counter : controller.data_counter = none

end Controller

/-! ## What both neurons have in common -/

structure Neuron (NUM_INPUTS : ℕ) extends Controller NUM_INPUTS where
  mem : Memory NUM_INPUTS
  Z : ZModule

namespace Neuron

variable {NUM_INPUTS : ℕ} (unknown : Option ℕ → Word)

def MUX_OUT (neuron : Neuron NUM_INPUTS) (inputs : NeuronInputs NUM_INPUTS) :
    Word :=
  multiplexer_parametrized unknown inputs.inputdata neuron.data_counter

/-- The new weight: `A1` over `M2` and `M1`. -/
def A1_MEM (neuron : Neuron NUM_INPUTS) (inputs : NeuronInputs NUM_INPUTS) :
    Word :=
  ieee754_adder neuron.mem.read_data
    (ieee754_multiplier
      (ieee754_multiplier inputs.alpha (neuron.MUX_OUT unknown inputs))
      inputs.deltafunction_value)

/-- An edge of the clock, with what the controller latches in state 11. -/
def posedge (latched : Word) (neuron : Neuron NUM_INPUTS)
    (inputs : NeuronInputs NUM_INPUTS) : Neuron NUM_INPUTS :=
  let controller :=
    neuron.toController.posedge neuron.mem.read_data latched inputs
  let mem :=
    neuron.mem.posedge false neuron.write_enable
      (neuron.A1_MEM unknown inputs) neuron.data_counter
  { toController := controller
    mem :=
      mem.settle unknown controller.write_enable neuron.data_counter
        controller.data_counter
    Z :=
      neuron.Z.posedge NUM_INPUTS false neuron.enable_Z
        (neuron.MUX_OUT unknown inputs) neuron.mem.read_data neuron.bias }

/-- What the initial blocks set. -/
structure PowerOn (neuron : Neuron NUM_INPUTS) : Prop where
  controller : neuron.toController.PowerOn
  mem : neuron.mem.PowerOn
  Z : neuron.Z.PowerOn

end Neuron

/-! ## The two neurons -/

/-- An edge of the clock of `hidden_neuron`. -/
def hidden_neuron {NUM_INPUTS : ℕ} (unknown : Option ℕ → Word)
    (neuron : Neuron NUM_INPUTS) (inputs : NeuronInputs NUM_INPUTS) :
    Neuron NUM_INPUTS :=
  neuron.posedge unknown (relu neuron.Z.result) inputs

structure SoftmaxInputs (NUM_INPUTS : ℕ) extends NeuronInputs NUM_INPUTS where
  exp_sum : Word

structure SoftmaxNeuron (NUM_INPUTS : ℕ) extends Neuron NUM_INPUTS where
  E1 : NaturalExponential
  D1 : Divider

/--
An edge of the clock of `softmax_neuron`.  Nothing is connected to the reset of
`E1`, and `D1` ignores its enable.
-/
def softmax_neuron {NUM_INPUTS : ℕ} (unknown : Option ℕ → Word)
    (neuron : SoftmaxNeuron NUM_INPUTS) (inputs : SoftmaxInputs NUM_INPUTS) :
    SoftmaxNeuron NUM_INPUTS where
  toNeuron :=
    neuron.toNeuron.posedge unknown neuron.D1.result inputs.toNeuronInputs
  E1 := neuron.E1.posedge 10 false neuron.Z.result
  D1 := neuron.D1.posedge 4 true neuron.E1.result inputs.exp_sum

namespace SoftmaxNeuron

/-- What the initial blocks set. -/
structure PowerOn {NUM_INPUTS : ℕ} (neuron : SoftmaxNeuron NUM_INPUTS) :
    Prop where
  base : neuron.toNeuron.PowerOn
  E1 : neuron.E1.PowerOn
  D1 : neuron.D1.PowerOn

end SoftmaxNeuron

end FederatedEdge.Fpga
