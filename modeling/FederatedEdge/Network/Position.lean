import FederatedEdge.Network.Averaging
import Mathlib.Algebra.Module.Pi
import Mathlib.Algebra.Module.LinearMap.Defs
import Mathlib.Tactic.FieldSimp

/-!
# Networks as vectors

A network assigns a number to each position: one position for each bias and
one for each weight.  In this view the three walks of the aggregation are
linear: the sum adds a multiple of a vector, the averaging scales by an
inverse, and the reset is the projection `residue` onto the biases which it
forgets.
-/

namespace FederatedEdge.Network

/-- The place of one bias or one weight in a network. -/
inductive Position where
  | bias (layer neuron : ℕ)
  | weight (layer neuron index : ℕ)
deriving DecidableEq, Repr

variable {R : Type}

namespace Parameters

/-- The parameters of neuron `neuron` of layer `layer`. -/
def neuronAt (parameters : Parameters R) (layer neuron : ℕ) :
    Option (R × List R) :=
  parameters[layer]?.bind (·[neuron]?)

/-- The number at a position, and zero where the network has none. -/
def value [Zero R] (parameters : Parameters R) : Position → R
  | .bias layer neuron =>
      ((parameters.neuronAt layer neuron).map Prod.fst).getD 0
  | .weight layer neuron index =>
      ((parameters.neuronAt layer neuron).bind (·.2[index]?)).getD 0

/-- Two networks of one shape have neurons in the same places. -/
theorem neuronAt_length_eq
    {left right : Parameters R} (sameShape : left.shape = right.shape)
    (layer neuron : ℕ) :
    (left.neuronAt layer neuron).map (fun entry => entry.2.length) =
      (right.neuronAt layer neuron).map (fun entry => entry.2.length) := by
  have layers :
      (left.shape)[layer]? = (right.shape)[layer]? := by
    rw [sameShape]
  have neurons :=
    congrArg (fun found : Option (List ℕ) => found.bind (·[neuron]?)) layers
  simpa [Parameters.shape, neuronAt, Option.map_bind, Option.bind_map,
    Function.comp_def] using neurons

variable [Field R]

theorem neuronAt_divide
    (parameters : Parameters R) (counter : ℤ) (layer neuron : ℕ) :
    (parameters.divide counter).neuronAt layer neuron =
      (parameters.neuronAt layer neuron).map (divideNeuron counter) := by
  simp [divide, neuronAt, Option.map_bind, Option.bind_map]

theorem neuronAt_addScaled
    (sum model : Parameters R) (counter : ℤ) (layer neuron : ℕ) :
    (sum.addScaled model counter).neuronAt layer neuron =
      (sum.neuronAt layer neuron).bind fun left =>
        (model.neuronAt layer neuron).map (addNeuron counter left) := by
  simp only [addScaled, neuronAt, List.getElem?_zipWith]
  cases sum[layer]? with
  | none => rfl
  | some sumLayer =>
      cases model[layer]? with
      | none => simp
      | some modelLayer =>
          simp only [Option.bind_some, List.getElem?_zipWith]
          cases sumLayer[neuron]? with
          | none => rfl
          | some sumNeuron => cases modelLayer[neuron]? <;> rfl

theorem neuronAt_residue
    (parameters : Parameters R) (layer neuron : ℕ) :
    parameters.residue.neuronAt layer neuron =
      (parameters.neuronAt layer neuron).map fun entry =>
        clearWeights (if neuron = 0 then 0 else entry.1, entry.2) := by
  simp only [residue, neuronAt, List.getElem?_map]
  cases parameters[layer]? with
  | none => rfl
  | some entries =>
      cases entries with
      | nil => rfl
      | cons head rest => cases neuron <;> simp [residueLayer]

/-- Averaging scales the vector. -/
theorem value_divide (parameters : Parameters R) (counter : ℤ) :
    (parameters.divide counter).value =
      (counter : R)⁻¹ • parameters.value := by
  funext position
  cases position with
  | bias layer neuron =>
      simp only [value, neuronAt_divide, Pi.smul_apply, smul_eq_mul]
      cases parameters.neuronAt layer neuron with
      | none => simp
      | some entry => simp [divideNeuron, div_eq_inv_mul]
  | weight layer neuron index =>
      simp only [value, neuronAt_divide, Pi.smul_apply, smul_eq_mul]
      cases parameters.neuronAt layer neuron with
      | none => simp
      | some entry =>
          simp only [Option.map_some, Option.bind_some, divideNeuron,
            List.getElem?_map]
          cases entry.2[index]? with
          | none => simp
          | some weight => simp [div_eq_inv_mul]

/-- The sum adds a multiple of the model's vector. -/
theorem value_addScaled
    {sum model : Parameters R} (counter : ℤ)
    (sameShape : model.shape = sum.shape) :
    (sum.addScaled model counter).value =
      sum.value + (counter : R) • model.value := by
  funext position
  cases position with
  | bias layer neuron =>
      have places := neuronAt_length_eq sameShape layer neuron
      simp only [value, neuronAt_addScaled, Pi.add_apply, Pi.smul_apply,
        smul_eq_mul]
      cases left : sum.neuronAt layer neuron with
      | none => simp_all
      | some entry =>
          cases right : model.neuronAt layer neuron with
          | none => simp_all
          | some other => simp [addNeuron, mul_comm]
  | weight layer neuron index =>
      have places := neuronAt_length_eq sameShape layer neuron
      simp only [value, neuronAt_addScaled, Pi.add_apply, Pi.smul_apply,
        smul_eq_mul]
      cases left : sum.neuronAt layer neuron with
      | none => simp_all
      | some entry =>
          cases right : model.neuronAt layer neuron with
          | none => simp_all
          | some other =>
              have sameLength : other.2.length = entry.2.length := by
                simpa [left, right] using places
              simp only [Option.bind_some, Option.map_some, addNeuron,
                List.getElem?_zipWith]
              by_cases inside : index < entry.2.length
              · have otherInside : index < other.2.length := by omega
                simp [List.getElem?_eq_getElem inside,
                  List.getElem?_eq_getElem otherInside, mul_comm]
              · have outside : entry.2.length ≤ index := by omega
                have otherOutside : other.2.length ≤ index := by omega
                simp [List.getElem?_eq_none outside,
                  List.getElem?_eq_none otherOutside]

end Parameters

/-- The positions which the reset does not clear. -/
def Position.Retained : Position → Prop
  | .bias _ neuron => neuron ≠ 0
  | .weight _ _ _ => False

instance (position : Position) : Decidable position.Retained := by
  cases position <;> unfold Position.Retained <;> infer_instance

/-- What the reset leaves of a vector, as a linear map. -/
def residue (R : Type) [Field R] : (Position → R) →ₗ[R] (Position → R) where
  toFun vector position := if position.Retained then vector position else 0
  map_add' left right := by
    funext position
    by_cases retained : position.Retained <;> simp [retained]
  map_smul' factor vector := by
    funext position
    by_cases retained : position.Retained <;> simp [retained]

theorem residue_apply [Field R] (vector : Position → R) (position : Position) :
    residue R vector position =
      if position.Retained then vector position else 0 :=
  rfl

/-- The reset of a network is the projection of its vector. -/
theorem Parameters.value_residue [Field R] (parameters : Parameters R) :
    parameters.residue.value = FederatedEdge.Network.residue R parameters.value := by
  funext position
  rw [residue_apply]
  cases position with
  | bias layer neuron =>
      simp only [value, neuronAt_residue, Position.Retained]
      cases parameters.neuronAt layer neuron with
      | none => simp
      | some entry => by_cases head : neuron = 0 <;> simp [clearWeights, head]
  | weight layer neuron index =>
      simp only [value, neuronAt_residue, Position.Retained]
      cases parameters.neuronAt layer neuron with
      | none => rfl
      | some entry =>
          simp only [Option.map_some, Option.bind_some, clearWeights,
            List.getElem?_map]
          cases entry.2[index]? <;> rfl

end FederatedEdge.Network
