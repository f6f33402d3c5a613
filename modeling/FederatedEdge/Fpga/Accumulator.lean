import FederatedEdge.Fpga.Neuron
import FederatedEdge.Library.Clocked

/-!
# Passes of the accumulator

The module `Z` counts its enabled edges: as many as there are inputs take a
product into the sum, and one more adds the bias and begins again.  What it has
computed is the sum over the list of the products since it began, whatever the
edges between the enabled ones are.
-/

namespace FederatedEdge.Fpga

open FederatedEdge.Library

/-- The inputs of the module `Z` at an edge. -/
structure ZInputs where
  reset : Bool
  enable : Bool
  neuron_input : Word
  weight : Word
  bias : Word

namespace ZModule

variable {NUM_INPUTS : ℕ} {unit start : ZModule} {products : List Word}

/-- `M1_A1`. -/
def product (inputs : ZInputs) : Word :=
  ieee754_multiplier inputs.weight inputs.neuron_input

/-- The sum of products, from zero on. -/
def total (products : List Word) : Word :=
  products.foldl ieee754_adder 0

theorem total_concat (products : List Word) (last : Word) :
    total (products ++ [last]) = ieee754_adder (total products) last :=
  List.foldl_concat ieee754_adder 0 last products

/-- The edge with all inputs. -/
def edge (NUM_INPUTS : ℕ) (unit : ZModule) (inputs : ZInputs) : ZModule :=
  unit.posedge NUM_INPUTS inputs.reset inputs.enable inputs.neuron_input
    inputs.weight inputs.bias

/-- The products since the beginning are in the sum. -/
structure Accumulating (NUM_INPUTS : ℕ) (products : List Word)
    (unit : ZModule) : Prop where
  Z : unit.Z = total products
  index : unit.index = products.length
  few : products.length ≤ NUM_INPUTS

theorem accumulating_nil_iff :
    Accumulating NUM_INPUTS [] unit ↔ unit.PowerOn :=
  ⟨fun accumulating => ⟨accumulating.Z, accumulating.index⟩,
    fun on => ⟨on.Z, on.index, Nat.zero_le _⟩⟩

/-! ## One edge -/

section Edge

variable {inputs : ZInputs}

theorem edge_reset (reset : inputs.reset = true) :
    (edge NUM_INPUTS unit inputs).PowerOn ∧
      (edge NUM_INPUTS unit inputs).result = 0 := by
  rw [edge, posedge, if_pos reset]
  exact ⟨⟨rfl, rfl⟩, rfl⟩

variable (running : inputs.reset = false)

include running

theorem edge_paused (paused : inputs.enable = false) :
    edge NUM_INPUTS unit inputs = unit := by
  rw [edge, posedge, running, paused, if_neg Bool.false_ne_true,
    if_neg Bool.false_ne_true]

theorem Accumulating.edge_product (enabled : inputs.enable = true)
    (accumulating : Accumulating NUM_INPUTS products unit)
    (more : products.length < NUM_INPUTS) :
    Accumulating NUM_INPUTS (products ++ [product inputs])
        (edge NUM_INPUTS unit inputs) ∧
      (edge NUM_INPUTS unit inputs).result = unit.result := by
  have inside : unit.index < NUM_INPUTS := accumulating.index.trans_lt more
  rw [edge, posedge, running, if_neg Bool.false_ne_true, if_pos enabled,
    if_pos inside]
  refine ⟨⟨?_, ?_, ?_⟩, rfl⟩
  · rw [total_concat, ← accumulating.Z]
    rfl
  · rw [List.length_append, List.length_singleton, ← accumulating.index]
  · rw [List.length_append, List.length_singleton]
    exact more

theorem Accumulating.edge_bias (enabled : inputs.enable = true)
    (accumulating : Accumulating NUM_INPUTS products unit)
    (complete : products.length = NUM_INPUTS) :
    (edge NUM_INPUTS unit inputs).PowerOn ∧
      (edge NUM_INPUTS unit inputs).result =
        ieee754_adder (total products) inputs.bias := by
  have last : unit.index = NUM_INPUTS := accumulating.index.trans complete
  rw [edge, posedge, running, if_neg Bool.false_ne_true, if_pos enabled,
    if_neg (by omega), if_pos last, accumulating.Z]
  exact ⟨⟨rfl, rfl⟩, rfl⟩

end Edge

/-! ## Runs -/

/-- The module before edge `t`. -/
abbrev zAt (NUM_INPUTS : ℕ) (start : ZModule) (inputs : ℕ → ZInputs) (t : ℕ) :
    ZModule :=
  stateAt (edge NUM_INPUTS) start inputs t

/-- The products at the enabled ones of `n` edges, from edge `t` on. -/
def sampled (inputs : ℕ → ZInputs) (t n : ℕ) : List Word :=
  ((List.range' t n).filter fun u => (inputs u).enable).map
    fun u => product (inputs u)

theorem sampled_succ (inputs : ℕ → ZInputs) (t n : ℕ) :
    sampled inputs t (n + 1) =
      sampled inputs t n ++
        if (inputs (t + n)).enable then [product (inputs (t + n))] else [] := by
  rw [sampled, sampled, List.range'_concat, Nat.one_mul, List.filter_append,
    List.map_append]
  cases enabled : (inputs (t + n)).enable with
  | true => simp [enabled]
  | false => simp [enabled]

theorem length_sampled_le (inputs : ℕ → ZInputs) (t : ℕ) {k n : ℕ}
    (earlier : k ≤ n) :
    (sampled inputs t k).length ≤ (sampled inputs t n).length := by
  refine monotone_nat_of_le_succ (f := fun n => (sampled inputs t n).length)
    (fun n => ?_) earlier
  rw [sampled_succ, List.length_append]
  exact Nat.le_add_right _ _

section Run

variable {inputs : ℕ → ZInputs} {t n : ℕ}

/-- A pass before its last edge: the products are added, the result stays. -/
theorem accumulating_zAt (begins : (zAt NUM_INPUTS start inputs t).PowerOn)
    (running : ∀ k < n, (inputs (t + k)).reset = false)
    (few : (sampled inputs t n).length ≤ NUM_INPUTS) :
    Accumulating NUM_INPUTS (sampled inputs t n)
        (zAt NUM_INPUTS start inputs (t + n)) ∧
      (zAt NUM_INPUTS start inputs (t + n)).result =
        (zAt NUM_INPUTS start inputs t).result := by
  induction n with
  | zero => exact ⟨accumulating_nil_iff.mpr begins, rfl⟩
  | succ n inductionHypothesis =>
      have now := running n (Nat.lt_succ_self n)
      have before (k : ℕ) (earlier : k < n) : (inputs (t + k)).reset = false :=
        running k (Nat.lt_succ_of_lt earlier)
      rw [sampled_succ] at few ⊢
      rw [← Nat.add_assoc, zAt, stateAt]
      cases enabled : (inputs (t + n)).enable with
      | true =>
          rw [enabled, if_pos rfl, List.length_append, List.length_singleton]
            at few
          rcases inductionHypothesis before (by omega)
            with ⟨accumulating, result⟩
          rcases accumulating.edge_product now enabled few with ⟨next, same⟩
          rw [if_pos rfl]
          exact ⟨next, same.trans result⟩
      | false =>
          rw [enabled, if_neg Bool.false_ne_true, List.append_nil] at few
          rw [if_neg Bool.false_ne_true, List.append_nil,
            edge_paused now enabled]
          exact inductionHypothesis before few

/--
From power-on, a reset or the end of a pass on, the module is at its beginning.
From there the edge which follows as many enabled ones as there are inputs, if
it is enabled itself, stores the sum of their products and its own bias, and
ends at the beginning again; before it the result stays.  Edges with enable and
reset low change nothing.
-/
theorem z_passes (NUM_INPUTS : ℕ) (start : ZModule) (inputs : ℕ → ZInputs) :
    (∀ t, (inputs t).reset = true →
        (zAt NUM_INPUTS start inputs (t + 1)).PowerOn) ∧
      (∀ t, (inputs t).reset = false → (inputs t).enable = false →
        zAt NUM_INPUTS start inputs (t + 1) = zAt NUM_INPUTS start inputs t) ∧
      ∀ t n, (zAt NUM_INPUTS start inputs t).PowerOn →
        (∀ k ≤ n, (inputs (t + k)).reset = false) →
        (sampled inputs t n).length = NUM_INPUTS →
        (inputs (t + n)).enable = true →
          (zAt NUM_INPUTS start inputs (t + n + 1)).result =
              ieee754_adder (total (sampled inputs t n))
                (inputs (t + n)).bias ∧
            (zAt NUM_INPUTS start inputs (t + n + 1)).PowerOn ∧
            ∀ k ≤ n,
              (zAt NUM_INPUTS start inputs (t + k)).result =
                (zAt NUM_INPUTS start inputs t).result := by
  refine ⟨fun t reset => (edge_reset reset).1,
    fun t running paused => edge_paused running paused, ?_⟩
  intro t n begins running complete enabled
  have accumulating :=
    accumulating_zAt begins (fun k earlier => running k earlier.le) complete.le
  have last :=
    accumulating.1.edge_bias (running n le_rfl) enabled complete
  refine ⟨last.2, last.1, fun k earlier => ?_⟩
  refine (accumulating_zAt begins ?_ ?_).2
  · exact fun j before => running j (before.le.trans earlier)
  · exact (length_sampled_le inputs t earlier).trans complete.le

end Run

/-- Two passes over one input, the first one with a pause before its bias. -/
def sampleZInputs (t : ℕ) : ZInputs where
  reset := false
  enable := t ≠ 1
  neuron_input := 0x3f800000
  weight := if t < 3 then 0x3f800000 else 0x40000000
  bias := 0x3f800000

def sampleZ : ZModule where
  Z := 0
  index := 0
  result := 0

theorem z_passes_sample :
    ((zAt 1 sampleZ sampleZInputs 3).result = 0x40000000 ∧
        ∀ k ≤ 2, (zAt 1 sampleZ sampleZInputs k).result = 0) ∧
      (zAt 1 sampleZ sampleZInputs 5).result = 0x40400000 ∧
        ∀ k ≤ 1, (zAt 1 sampleZ sampleZInputs (3 + k)).result = 0x40000000 := by
  rcases z_passes 1 sampleZ sampleZInputs with ⟨-, -, passes⟩
  have first := passes 0 2 ⟨rfl, rfl⟩ (fun _ _ => rfl) rfl rfl
  have second := passes 3 1 first.2.1 (fun _ _ => rfl) rfl rfl
  have firstResult : (zAt 1 sampleZ sampleZInputs 3).result = 0x40000000 :=
    first.1.trans (by decide +kernel)
  refine ⟨⟨firstResult, ?_⟩, second.1.trans (by decide +kernel), ?_⟩
  · intro k early
    have kept := first.2.2 k early
    rw [Nat.zero_add] at kept
    exact kept
  · intro k early
    exact (second.2.2 k early).trans firstResult

end ZModule

end FederatedEdge.Fpga
