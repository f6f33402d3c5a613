import FederatedEdge.Fpga.AdderBounds
import FederatedEdge.Fpga.Neuron
import Mathlib.Data.Fin.VecNotation
import Mathlib.Data.Multiset.AddSub

/-!
# The softmax layer

The layer concatenates the exponentials of its neurons and a padding word, and
`softmax_sum` adds three of the four words.  The padding is the lowest word of
the concatenation, so that the highest one, the exponential of the third neuron,
is not added.

A sum is described by the neurons whose exponentials it adds, as often as it
adds them, in any order and with any padding.
-/

namespace FederatedEdge.Fpga

open FederatedEdge.Library
open Word

/-! ## The modules -/

/-- `output_data` follows the inputs without a clock. -/
def softmax_sum {NUM_INPUTS : ℕ} (input_data : BitVec (32 * NUM_INPUTS)) : Word :=
  let A1_A2 :=
    ieee754_adder (input_data.extractLsb' 0 32) (input_data.extractLsb' 32 32)
  let A1_A3 := ieee754_adder A1_A2 (input_data.extractLsb' 64 32)
  A1_A3

structure LayerInputs where
  layer_enable : Bool
  alpha : Word
  input_layer : BitVec (32 * 4)
  weight_memory_address : Address 4
  deltafunctions_value : BitVec (32 * 4)
  layer_state : NeuronState

/-- The registers of `output_softmax_layer`, which are those of its neurons. -/
structure OutputSoftmaxLayer where
  sn1 : SoftmaxNeuron 4
  sn2 : SoftmaxNeuron 4
  sn3 : SoftmaxNeuron 4

/-- The wire `ss_n`, for the wires `ns1_ss`, `ns2_ss` and `ns3_ss`. -/
def ss_n (exps : Fin 3 → Word) : Word :=
  @softmax_sum 4 (exps 2 ++ exps 1 ++ exps 0 ++ 0x00000000#32)

namespace OutputSoftmaxLayer

/-- The outputs `exp` of the neurons. -/
def exps (layer : OutputSoftmaxLayer) : Fin 3 → Word :=
  ![layer.sn1.E1.result, layer.sn2.E1.result, layer.sn3.E1.result]

def dividers (layer : OutputSoftmaxLayer) : Fin 3 → Divider :=
  ![layer.sn1.D1, layer.sn2.D1, layer.sn3.D1]

/-- What is connected to the inputs of a neuron. -/
def neuronInputs (layer : OutputSoftmaxLayer) (inputs : LayerInputs)
    (n : Fin 3) : SoftmaxInputs 4 where
  neuron_enable := inputs.layer_enable
  alpha := inputs.alpha
  inputdata := inputs.input_layer
  exp_sum := ss_n layer.exps
  deltafunction_value := inputs.deltafunctions_value.extractLsb' (32 * n) 32
  weight_memory_address := inputs.weight_memory_address
  neuron_state := inputs.layer_state

/-- An edge of the clock of `output_softmax_layer`. -/
def posedge (unknown : Option ℕ → Word) (layer : OutputSoftmaxLayer)
    (inputs : LayerInputs) : OutputSoftmaxLayer where
  sn1 := softmax_neuron unknown layer.sn1 (layer.neuronInputs inputs 0)
  sn2 := softmax_neuron unknown layer.sn2 (layer.neuronInputs inputs 1)
  sn3 := softmax_neuron unknown layer.sn3 (layer.neuronInputs inputs 2)

/-- The layer with other results in its exponentials. -/
def withExps (layer : OutputSoftmaxLayer) (exps : Fin 3 → Word) :
    OutputSoftmaxLayer where
  sn1 := { layer.sn1 with E1 := { layer.sn1.E1 with result := exps 0 } }
  sn2 := { layer.sn2 with E1 := { layer.sn2.E1 with result := exps 1 } }
  sn3 := { layer.sn3 with E1 := { layer.sn3.E1 with result := exps 2 } }

@[simp]
theorem exps_withExps (layer : OutputSoftmaxLayer) (exps : Fin 3 → Word) :
    (layer.withExps exps).exps = exps := by
  funext n
  match n with
  | 0 => rfl
  | 1 => rfl
  | 2 => rfl

/-- At an edge each neuron divides its exponential by the wire `ss_n`. -/
theorem dividers_posedge (unknown : Option ℕ → Word)
    (layer : OutputSoftmaxLayer) (inputs : LayerInputs) (n : Fin 3) :
    (layer.posedge unknown inputs).dividers n =
      (layer.dividers n).posedge 4 true (layer.exps n) (ss_n layer.exps) := by
  match n with
  | 0 => rfl
  | 1 => rfl
  | 2 => rfl

end OutputSoftmaxLayer

/-! ## What is added -/

/-- The lowest three words are the padding and the first two exponentials. -/
theorem ss_n_eq (exps : Fin 3 → Word) :
    ss_n exps = ieee754_adder (ieee754_adder 0 (exps 0)) (exps 1) := by
  have padding :
      (exps 2 ++ exps 1 ++ exps 0 ++ 0x00000000#32).extractLsb' 0 32 = 0 :=
    BitVec.extractLsb'_append_eq_right
  have first :
      (exps 2 ++ exps 1 ++ exps 0 ++ 0x00000000#32).extractLsb' 32 32 =
        exps 0 := by
    rw [BitVec.extractLsb'_append_eq_of_le le_rfl]
    exact BitVec.extractLsb'_append_eq_right
  have second :
      (exps 2 ++ exps 1 ++ exps 0 ++ 0x00000000#32).extractLsb' 64 32 =
        exps 1 := by
    rw [BitVec.extractLsb'_append_eq_of_le (by decide),
      BitVec.extractLsb'_append_eq_of_le (by decide)]
    exact BitVec.extractLsb'_append_eq_right
  rw [ss_n, softmax_sum]
  exact congrArg₂ ieee754_adder (congrArg₂ ieee754_adder padding first) second

/--
The sums by `ieee754_adder` with the neurons whose exponentials they add; the
padding is no neuron's.
-/
inductive SumOf : Multiset (Fin 3) → ((Fin 3 → Word) → Word) → Prop where
  | padding : SumOf 0 fun _ => 0
  | exp (n : Fin 3) : SumOf {n} fun exps => exps n
  | add {first second : Multiset (Fin 3)} {left right : (Fin 3 → Word) → Word}
      (leftSum : SumOf first left) (rightSum : SumOf second right) :
      SumOf (first + second) fun exps => ieee754_adder (left exps) (right exps)

namespace SumOf

variable {summands : Multiset (Fin 3)} {sum : (Fin 3 → Word) → Word}
  {exps : Fin 3 → Word}

/-- A sum depends on its summands only. -/
theorem congr {other : Fin 3 → Word} (isSum : SumOf summands sum)
    (same : ∀ n ∈ summands, exps n = other n) : sum exps = sum other := by
  induction isSum with
  | padding => rfl
  | exp n => exact same n (Multiset.mem_singleton_self n)
  | add _ _ leftSame rightSame =>
      exact congrArg₂ ieee754_adder
        (leftSame fun n inLeft => same n (Multiset.mem_add.mpr (.inl inLeft)))
        (rightSame fun n inRight =>
          same n (Multiset.mem_add.mpr (.inr inRight)))

/-- No positive summand has a larger exponent than the sum. -/
theorem exponent_le (isSum : SumOf summands sum)
    (positive : ∀ n, (exps n).sign = false) :
    (sum exps).sign = false ∧
      ∀ n ∈ summands, (exps n).exponent.toNat ≤ (sum exps).exponent.toNat := by
  induction isSum with
  | padding =>
      have sign : (0 : Word).sign = false := by decide
      exact ⟨sign, fun n member => absurd member (Multiset.notMem_zero n)⟩
  | exp n =>
      refine ⟨positive n, fun other member => ?_⟩
      rw [Multiset.mem_singleton.mp member]
  | add _ _ leftBound rightBound =>
      rcases positive_adder leftBound.1 rightBound.1 with ⟨sign, left, right⟩
      refine ⟨sign, fun n member => ?_⟩
      rcases Multiset.mem_add.mp member with inLeft | inRight
      · exact (leftBound.2 n inLeft).trans left
      · exact (rightBound.2 n inRight).trans right

/-- Twice the largest exponent overflows. -/
theorem exponent_of_repeated (isSum : SumOf summands sum)
    (exps : Fin 3 → Word) (positive : ∀ n, (exps n).sign = false) {n : Fin 3}
    (largest : (exps n).exponent.toNat = 254)
    (repeated : 2 ≤ summands.count n) : 255 ≤ (sum exps).exponent.toNat := by
  induction isSum with
  | padding => simp at repeated
  | exp other =>
      have once := Multiset.count_le_card n {other}
      rw [Multiset.card_singleton] at once
      omega
  | @add first second left right leftSum rightSum leftTwice rightTwice =>
      have leftBound := leftSum.exponent_le positive
      have rightBound := rightSum.exponent_le positive
      rcases positive_adder leftBound.1 rightBound.1 with
        ⟨-, aboveLeft, aboveRight⟩
      change 255 ≤ (ieee754_adder (left exps) (right exps)).exponent.toNat
      rw [Multiset.count_add] at repeated
      by_cases twiceLeft : 2 ≤ first.count n
      · exact (leftTwice twiceLeft).trans aboveLeft
      · by_cases twiceRight : 2 ≤ second.count n
        · exact (rightTwice twiceRight).trans aboveRight
        · -- Once on each side, so that both sums have the largest exponent.
          have inLeft := leftBound.2 n (Multiset.count_pos.mp (by omega))
          have inRight := rightBound.2 n (Multiset.count_pos.mp (by omega))
          by_cases same :
              (left exps).exponent.toNat = (right exps).exponent.toNat
          · by_cases finite : (left exps).exponent.toNat ≤ 254
            · have carried :=
                positive_adder_carry leftBound.1 rightBound.1 same finite
              omega
            · omega
          · omega

end SumOf

theorem sumOf_ss_n : SumOf {0, 1} ss_n := by
  have sum := (SumOf.padding.add (.exp 0)).add (.exp 1)
  rw [show ss_n = _ from funext ss_n_eq]
  exact sum

/-- A third exponential with a larger exponent than what is fed back. -/
theorem ss_n_ne_of_larger {summands : Multiset (Fin 3)}
    {sum : (Fin 3 → Word) → Word} (isSum : SumOf summands sum)
    (third : 2 ∈ summands) (exps : Fin 3 → Word)
    (positive : ∀ n, (exps n).sign = false)
    (larger : (ss_n exps).exponent.toNat < (exps 2).exponent.toNat) :
    ss_n exps ≠ sum exps := by
  intro same
  have bound := (isSum.exponent_le positive).2 2 third
  rw [← same] at bound
  exact absurd larger (Nat.not_lt.mpr bound)

/-- The sum determines how often it adds each of the exponentials. -/
theorem summands_of_ss_n {summands : Multiset (Fin 3)}
    (isSum : SumOf summands ss_n) : summands = {0, 1} := by
  have first : 0 ∈ summands := by
    by_contra missing
    have same :
        ss_n ![0x7f000000#32, 0, 0] = ss_n ![0, 0, 0] := by
      refine isSum.congr fun n member => ?_
      match n with
      | 0 => exact absurd member missing
      | 1 => rfl
      | 2 => rfl
    exact absurd same (by decide)
  have second : 1 ∈ summands := by
    by_contra missing
    have same :
        ss_n ![0, 0x7f000000#32, 0] = ss_n ![0, 0, 0] := by
      refine isSum.congr fun n member => ?_
      match n with
      | 0 => rfl
      | 1 => exact absurd member missing
      | 2 => rfl
    exact absurd same (by decide)
  have third : 2 ∉ summands := fun member =>
    ss_n_ne_of_larger isSum member ![one, one, 0x40800000#32] (by decide)
      (by decide) rfl
  have firstOnce : summands.count 0 < 2 := by
    by_contra repeated
    have overflows :=
      isSum.exponent_of_repeated ![0x7f000000#32, 0, 0] (by decide) rfl
        (Nat.not_lt.mp repeated)
    exact absurd overflows (by decide)
  have secondOnce : summands.count 1 < 2 := by
    by_contra repeated
    have overflows :=
      isSum.exponent_of_repeated ![0, 0x7f000000#32, 0] (by decide) rfl
        (Nat.not_lt.mp repeated)
    exact absurd overflows (by decide)
  have firstCount := Multiset.count_pos.mpr first
  have secondCount := Multiset.count_pos.mpr second
  ext n
  match n with
  | 0 => exact Nat.le_antisymm (Nat.le_of_lt_succ firstOnce) firstCount
  | 1 => exact Nat.le_antisymm (Nat.le_of_lt_succ secondOnce) secondCount
  | 2 => exact Multiset.count_eq_zero.mpr third

/-! ## What the third exponential would change -/

/--
For positive normal exponentials, adding the third one changes nothing exactly
if it is less than the unit in the last place of the sum of the other two.
-/
theorem ss_n_complete_iff {exps : Fin 3 → Word}
    (normal : ∀ n, (exps n).Normal) (positive : ∀ n, (exps n).sign = false)
    (notTiny : 24 ≤ (exps 0).exponent.toNat)
    (noOverflow : (exps 0).value + (exps 1).value < 2 ^ 128) :
    ss_n exps = ieee754_adder (ieee754_adder (exps 0) (exps 1)) (exps 2) ↔
      (exps 2).value < ulp 24 ((exps 0).value + (exps 1).value) := by
  have values (n : Fin 3) : 0 < (exps n).value := by
    rw [value_of_positive (positive n)]
    exact (normal n).abs_value_pos
  have total := add_pos (values 0) (values 1)
  have first : ieee754_adder 0 (exps 0) = exps 0 :=
    ieee754_adder_far (by rwa [show (0 : Word).exponent.toNat = 0 from rfl])
  have encodes :=
    (ieee754_adder_truncates (exps 0) (exps 1) (normal 0) (normal 1)
      ((positive 0).trans (positive 1).symm)
      (by rwa [abs_of_pos total])).1
  have unit :
      ulp 24 ((exps 0).value + (exps 1).value) =
        2 ^ (((ieee754_adder (exps 0) (exps 1)).exponent.toNat : ℤ) - 150) := by
    rw [← ulp_roundTowardZero total 23, ← encodes.2, encodes.1.ulp_value]
  rw [ss_n_eq, first, unit, eq_comm, adder_eq_left_iff encodes.1,
    value_of_positive (positive 2), ← not_le,
    (normal 2).zpow_le_abs_value_iff]
  omega

/-! ## The fed back sum -/

/--
Every neuron gets, and divides by, the sum of a zero, the first and the second
exponential; as a function of the exponentials it is a sum of these two, each
once, and of no other summands.  The sum of all three is the same word only for
a third exponential which is lost in rounding.
-/
theorem output_softmax_layer_adds_two (layer : OutputSoftmaxLayer)
    (inputs : LayerInputs) :
    (∀ n,
        (layer.neuronInputs inputs n).exp_sum =
          ieee754_adder (ieee754_adder 0 (layer.exps 0)) (layer.exps 1)) ∧
      (∀ unknown n,
        (layer.posedge unknown inputs).dividers n =
          (layer.dividers n).posedge 4 true (layer.exps n)
            (ieee754_adder (ieee754_adder 0 (layer.exps 0)) (layer.exps 1))) ∧
      (∀ summands : Multiset (Fin 3),
        (∃ sum, SumOf summands sum ∧
            ∀ exps n,
              ((layer.withExps exps).neuronInputs inputs n).exp_sum =
                sum exps) ↔
          summands = {0, 1}) ∧
      ∀ exps : Fin 3 → Word,
        (∀ n, (exps n).Normal) → (∀ n, (exps n).sign = false) →
          24 ≤ (exps 0).exponent.toNat →
          (exps 0).value + (exps 1).value < 2 ^ 128 →
          ((∀ n,
              ((layer.withExps exps).neuronInputs inputs n).exp_sum =
                ieee754_adder (ieee754_adder (exps 0) (exps 1)) (exps 2)) ↔
            (exps 2).value < ulp 24 ((exps 0).value + (exps 1).value)) := by
  have fed (exps : Fin 3 → Word) (n : Fin 3) :
      ((layer.withExps exps).neuronInputs inputs n).exp_sum = ss_n exps := by
    rw [OutputSoftmaxLayer.neuronInputs, OutputSoftmaxLayer.exps_withExps]
  refine ⟨fun n => ss_n_eq layer.exps, fun unknown n => ?_,
    fun summands => ?_, fun exps => ?_⟩
  · rw [OutputSoftmaxLayer.dividers_posedge, ss_n_eq]
  · constructor
    · rintro ⟨sum, isSum, same⟩
      have function : sum = ss_n :=
        funext fun exps => (same exps 0).symm.trans (fed exps 0)
      subst function
      exact summands_of_ss_n isSum
    · rintro rfl
      exact ⟨ss_n, sumOf_ss_n, fed⟩
  · intro normal positive notTiny noOverflow
    rw [← ss_n_complete_iff normal positive notTiny noOverflow]
    exact ⟨fun same => (fed exps 0).symm.trans (same 0),
      fun same n => (fed exps n).trans same⟩

/-- With the exponentials 1, 1 and 4 the neurons get 2, and no sum of all. -/
theorem third_exponential_is_not_added :
    ss_n ![one, one, 0x40800000#32] = 0x40000000#32 ∧
      ∀ sum, SumOf {0, 1, 2} sum →
        ss_n ![one, one, 0x40800000#32] ≠ sum ![one, one, 0x40800000#32] :=
  ⟨by decide, fun _ isSum =>
    ss_n_ne_of_larger isSum (by decide) _ (by decide) (by decide)⟩

end FederatedEdge.Fpga
