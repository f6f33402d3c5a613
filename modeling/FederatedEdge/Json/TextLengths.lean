import FederatedEdge.Json.CompleteModel
import FederatedEdge.Json.ModelTexts
import Mathlib.Algebra.Order.BigOperators.Group.List

/-!
# How long the text of a model is

A number takes at most 25 characters, so that the numbers of layers, neurons and
weights bound the length of the text, whatever the values are.  No text of a
model of the configured network is too long for the buffer of the server.
-/

namespace FederatedEdge.Json

open FederatedEdge.Library
open FederatedEdge.Network
open FederatedEdge.Server

/-! ## Texts of items -/

theorem length_layout_le (format : Bool) (text : List Char) :
    (layout format text).length ≤ text.length := by
  unfold layout
  split_ifs
  · exact le_rfl
  · exact Nat.zero_le _

theorem length_indentation_le (format : Bool) (depth : ℕ) :
    (indentation format depth).length ≤ depth :=
  (length_layout_le _ _).trans (List.length_replicate).le

/-- Each element is followed by a comma and a space at most. -/
theorem length_renderElements_le (format : Bool) (depth : ℕ)
    (elements : List (ℕ → List Char)) :
    (renderElements format depth elements).length ≤
      (elements.map fun element => (element depth).length + 2).sum := by
  induction elements with
  | nil => exact le_rfl
  | cons element elements inductionHypothesis =>
      cases elements with
      | nil =>
          rw [renderElements, List.map_singleton, List.sum_singleton]
          exact Nat.le_add_right _ 2
      | cons next elements =>
          have space := length_layout_le format [' ']
          rw [List.length_singleton] at space
          rw [renderElements, List.map_cons, List.sum_cons]
          simp only [List.length_append, List.length_cons]
          omega

/-- A member takes its indentation, its key, its value and four characters. -/
theorem length_renderMembers_le (format : Bool) (depth : ℕ)
    (members : List (CString × (ℕ → List Char))) :
    (renderMembers format depth members).length ≤
      (members.map fun member =>
        depth + (stringText member.1.characters).length +
          (member.2 depth).length + 4).sum := by
  induction members with
  | nil => exact le_rfl
  | cons member members inductionHypothesis =>
      have tabs := length_indentation_le format depth
      have tab := length_layout_le format ['\t']
      have line := length_layout_le format ['\n']
      have comma : (if members = [] then [] else [',']).length ≤ 1 := by
        split_ifs
        · exact Nat.zero_le 1
        · exact le_rfl
      rw [List.length_singleton] at tab line
      rw [renderMembers, List.map_cons, List.sum_cons]
      simp only [List.length_append, List.length_cons]
      omega

theorem length_render_array_le (format : Bool) (child : List Item) (depth : ℕ) :
    ((Item.array child).render format depth).length ≤
      2 + (child.map fun item => (item.render format (depth + 1)).length + 2).sum := by
  have elements := length_renderElements_le format (depth + 1)
    (child.map (Item.render format))
  rw [List.map_map] at elements
  rw [Item.render_array]
  simp only [List.length_append, List.length_cons, List.length_nil]
  exact (Nat.add_le_add_right (Nat.add_le_add_right elements 1) 1).trans
    (by simp only [Function.comp_def]; omega)

theorem length_render_object_le (format : Bool) (child : List (CString × Item))
    (depth : ℕ) :
    ((Item.object child).render format depth).length ≤
      3 + depth + (child.map fun member =>
        depth + 5 + (stringText member.1.characters).length +
          (member.2.render format (depth + 1)).length).sum := by
  have members := length_renderMembers_le format (depth + 1)
    (child.map fun member => (member.1, member.2.render format))
  have tabs := length_indentation_le format depth
  have line := length_layout_le format ['\n']
  have same : (child.map fun member =>
      depth + 1 + (stringText member.1.characters).length +
        (member.2.render format (depth + 1)).length + 4) =
      child.map fun member =>
        depth + 5 + (stringText member.1.characters).length +
          (member.2.render format (depth + 1)).length :=
    List.map_congr_left fun member _ => by omega
  rw [List.length_singleton] at line
  rw [List.map_map] at members
  rw [Item.render_object, ← same]
  simp only [List.length_append, List.length_cons, List.length_nil]
  simp only [Function.comp_def] at members
  omega

/-- A number takes at most 25 characters. -/
theorem length_render_number_le (format : Bool) (value : ℚ) (depth : ℕ) :
    ((CJson.number value).toItem.render format depth).length ≤ 25 :=
  Nat.le_of_lt_succ (length_numberText_lt (.ofRat value))

theorem length_escape_le (character : Char) : (escape character).length ≤ 6 := by
  unfold escape
  split_ifs
  all_goals first
    | exact Nat.le_refl 6
    | exact Nat.le_add_left 1 5
    | exact Nat.le_add_left 2 4

/-- A string takes six characters for each of its own, and two quotes. -/
theorem length_stringText_le (text : List Char) :
    (stringText text).length ≤ 2 + 6 * text.length := by
  have escaped : (text.flatMap escape).length ≤ 6 * text.length := by
    rw [List.length_flatMap]
    refine (List.sum_le_card_nsmul _ 6 ?_).trans ?_
    · rw [List.forall_mem_map]
      exact fun character _ => length_escape_le character
    · rw [List.length_map, nsmul_eq_mul, Nat.cast_id, mul_comm]
  rw [stringText, List.length_cons, List.length_append, List.length_singleton]
  omega

/-- The characters which a key takes, with its quotes. -/
def keyLength (key : String) : ℕ :=
  (stringText (CString.read key.toList).characters).length

theorem length_render_members_le (format : Bool) (child : List (String × CJson))
    (depth : ℕ) :
    ((CJson.object child).toItem.render format depth).length ≤
      3 + depth + (child.map fun member =>
        depth + 5 + keyLength member.1 +
          (member.2.toItem.render format (depth + 1)).length).sum := by
  rw [CJson.toItem_object]
  refine (length_render_object_le _ _ _).trans (le_of_eq ?_)
  rw [List.map_map]
  rfl

theorem length_render_children_le {Content : Type} (format : Bool)
    (toJson : Content → CJson) (contents : List Content) (depth : ℕ) :
    ((CJson.array (contents.map toJson)).toItem.render format depth).length ≤
      2 + (contents.map fun content =>
        ((toJson content).toItem.render format (depth + 1)).length + 2).sum := by
  rw [CJson.toItem_array]
  refine (length_render_array_le _ _ _).trans (le_of_eq ?_)
  rw [List.map_map, List.map_map]
  rfl

/-! ## Texts of models -/

theorem length_render_neuron_le (format : Bool) {content : NeuronContent ℚ}
    (short : content.neurontype.toList.length < neurontypeSize) (depth : ℕ) :
    ((NeuronContent.toJson content).toItem.render format depth).length ≤
      232 + 5 * depth + 27 * content.weightvalues.length := by
  have weights :
      ((CJson.array (content.weightvalues.map .number)).toItem.render format
          (depth + 1)).length ≤
        2 + 27 * content.weightvalues.length := by
    refine (length_render_children_le _ _ _ _).trans (Nat.add_le_add_left ?_ 2)
    refine (List.sum_le_card_nsmul _ 27 ?_).trans ?_
    · rw [List.forall_mem_map]
      exact fun weight _ => Nat.add_le_add_right (length_render_number_le _ _ _) 2
    · rw [List.length_map, nsmul_eq_mul, Nat.cast_id, mul_comm]
  have neurontype :
      ((CJson.string content.neurontype).toItem.render format
          (depth + 1)).length ≤ 116 := by
    have cut : (CString.read content.neurontype.toList).characters.length ≤
        content.neurontype.toList.length :=
      (List.takeWhile_prefix _).length_le
    have text :=
      length_stringText_le (CString.read content.neurontype.toList).characters
    unfold neurontypeSize at short
    exact text.trans (by omega)
  have count := length_render_number_le format content.weights (depth + 1)
  have bias := length_render_number_le format content.bias (depth + 1)
  have keys : keyLength "neurontype" = 12 ∧ keyLength "weights" = 9 ∧
      keyLength "bias" = 6 ∧ keyLength "weightsArray" = 14 := by
    decide
  refine (length_render_members_le _ _ _).trans ?_
  simp only [List.map_cons, List.map_nil, List.sum_cons, List.sum_nil]
  omega

/-- What bounds the text of a neuron in an array with a separator behind it. -/
def neuronLength (weights : ℕ) : ℕ :=
  259 + 27 * weights

/-- What bounds the text of a layer in an array. -/
def layerLength (weights : List ℕ) : ℕ :=
  131 + (weights.map neuronLength).sum

/-- The bound for the text of a model with a network of this shape. -/
def modelLength (shape : Shape) : ℕ :=
  446 + (shape.map layerLength).sum

theorem length_render_layer_le (format : Bool) {content : LayerContent ℚ}
    (short : ∀ neuron ∈ content.neuronvalues,
      neuron.neurontype.toList.length < neurontypeSize) :
    ((LayerContent.toJson content).toItem.render format 3).length + 2 ≤
      layerLength (content.neuronvalues.map fun neuron =>
        neuron.weightvalues.length) := by
  have neurons :
      ((CJson.array (content.neuronvalues.map NeuronContent.toJson)).toItem.render
          format (3 + 1)).length ≤
        2 + ((content.neuronvalues.map fun neuron =>
          neuron.weightvalues.length).map neuronLength).sum := by
    refine (length_render_children_le _ _ _ _).trans (Nat.add_le_add_left ?_ 2)
    rw [List.map_map]
    apply List.sum_le_sum
    intro neuron member
    have bound := length_render_neuron_le format (short neuron member) (3 + 1 + 1)
    simp only [Function.comp_apply, neuronLength]
    omega
  have activation :=
    length_render_number_le format content.activationfunctiontype (3 + 1)
  have count := length_render_number_le format content.neurons (3 + 1)
  have keys : keyLength "activationfunctiontype" = 24 ∧ keyLength "neurons" = 9 ∧
      keyLength "neuronsArray" = 14 := by
    decide
  refine (Nat.add_le_add_right (length_render_members_le _ _ _) 2).trans ?_
  simp only [List.map_cons, List.map_nil, List.sum_cons, List.sum_nil, layerLength]
  omega

/--
The text of a model is not longer than its layers, neurons and weights allow,
whatever their values are.
-/
theorem length_modelCharacters_le (globalmodelstatus trainingscounter : ℤ)
    {content : NetworkContent ℚ}
    (short : ∀ layer ∈ content.layervalues, ∀ neuron ∈ layer.neuronvalues,
      neuron.neurontype.toList.length < neurontypeSize) :
    (modelCharacters globalmodelstatus trainingscounter content).length ≤
      modelLength (NetworkContent.shape content) := by
  have layers :
      ((CJson.array (content.layervalues.map LayerContent.toJson)).toItem.render
          true (0 + 1 + 1)).length ≤
        2 + ((NetworkContent.shape content).map layerLength).sum := by
    refine (length_render_children_le _ _ _ _).trans (Nat.add_le_add_left ?_ 2)
    rw [NetworkContent.shape, List.map_map]
    exact List.sum_le_sum fun layer member =>
      length_render_layer_le true (short layer member)
  have number (value : ℚ) (depth : ℕ) := length_render_number_le true value depth
  have keys : keyLength "epoch" = 7 ∧ keyLength "alpha" = 7 ∧
      keyLength "regularization" = 16 ∧ keyLength "lambda" = 8 ∧
      keyLength "percentualtraining" = 20 ∧ keyLength "lossfunctiontype" = 18 ∧
      keyLength "layers" = 8 ∧ keyLength "layersArray" = 13 := by
    decide
  have network := length_render_members_le true
    [("epoch", .number content.epoch),
      ("alpha", .number content.alpha),
      ("regularization", .number content.regularization),
      ("lambda", .number content.lambda),
      ("percentualtraining", .number content.percentualtraining),
      ("lossfunctiontype", .number content.lossfunctiontype),
      ("layers", .number content.layers),
      ("layersArray", .array (content.layervalues.map LayerContent.toJson))] (0 + 1)
  simp only [List.map_cons, List.map_nil, List.sum_cons, List.sum_nil] at network
  have epoch := number content.epoch (0 + 1 + 1)
  have alpha := number content.alpha (0 + 1 + 1)
  have regularization := number content.regularization (0 + 1 + 1)
  have lambda := number content.lambda (0 + 1 + 1)
  have percentualtraining := number content.percentualtraining (0 + 1 + 1)
  have lossfunctiontype := number content.lossfunctiontype (0 + 1 + 1)
  have count := number content.layers (0 + 1 + 1)
  have status := number globalmodelstatus (0 + 1)
  have counter := number trainingscounter (0 + 1)
  have names : keyLength "globalmodelstatus" = 19 ∧
      keyLength "trainingscounter" = 18 ∧ keyLength "neuralnetwork" = 15 := by
    decide
  refine (length_render_members_le _ _ _).trans ?_
  simp only [List.map_cons, List.map_nil, List.sum_cons, List.sum_nil, modelLength]
  omega

end FederatedEdge.Json
