import FederatedEdge.Client.Turns
import Mathlib.Algebra.Field.Rat
import Mathlib.Tactic.Push

/-!
# The accesses of a whole call

The turn for the layer below the output layer always reads what was written.
From there on down, `deltafunctionsnumber` is the width of the layer itself and
the matrix has the width of the layer above as its number of columns, so that
both reads are valid exactly when the two widths are equal.
-/

namespace FederatedEdge.Client

open FederatedEdge.Library

variable {R : Type}

/-! ## The widths of the hidden layers -/

/-- Hidden layers of such widths keep the reads of `BackPropagation` valid. -/
def HiddenWidthsAgree (widths : List ℕ) : Prop :=
  widths.tail.dropLast.IsChain fun lower upper => lower = upper ∨ lower = 0

instance (widths : List ℕ) : Decidable (HiddenWidthsAgree widths) := by
  unfold HiddenWidthsAgree
  infer_instance

/-- Hidden layers of one width agree. -/
theorem hiddenWidthsAgree_of_same {widths : List ℕ} {hidden : ℕ}
    (same : ∀ width ∈ widths.tail.dropLast, width = hidden) :
    HiddenWidthsAgree widths := by
  apply List.Pairwise.isChain
  apply List.pairwise_of_forall_mem_list
  intro lower lowerMember upper upperMember
  rw [same lower lowerMember, same upper upperMember]
  exact Or.inl rfl

theorem turnReads_self_iff (width above : ℕ) :
    TurnReads width above width ↔ width = above ∨ width = 0 := by
  unfold TurnReads
  omega

theorem turnsRead_cons_iff (width above : ℕ) (below : List ℕ) :
    TurnsRead width above (width :: below) ↔
      (above :: (width :: below).dropLast).IsChain
        fun upper lower => lower = upper ∨ lower = 0 := by
  induction below generalizing width above with
  | nil => simp [TurnsRead]
  | cons lower below inductionHypothesis =>
      rw [TurnsRead, turnReads_self_iff, inductionHypothesis,
        List.dropLast_cons_cons, List.isChain_cons_cons]

theorem turnsRead_iff (top : ℕ) (widths : List ℕ) :
    TurnsRead top top widths ↔
      widths.dropLast.IsChain fun upper lower => lower = upper ∨ lower = 0 := by
  rcases widths with _ | ⟨width, _ | ⟨lower, below⟩⟩
  · simp [TurnsRead]
  · simp [TurnsRead]
  · rw [TurnsRead, turnsRead_cons_iff, List.dropLast_cons_cons]
    exact and_iff_right ⟨le_refl top, Or.inr (le_refl top)⟩

/-- The condition on the widths, as the turns meet them. -/
theorem hiddenWidthsAgree_iff {top : ℕ} {widths below : List ℕ}
    (reversed : widths.reverse = top :: below) :
    HiddenWidthsAgree widths ↔ TurnsRead top top below := by
  have inner : widths.tail.dropLast = below.dropLast.reverse := by
    rw [← List.reverse_reverse widths, reversed, List.reverse_cons]
    cases below with
    | nil => rfl
    | cons width below =>
        rw [List.tail_append_of_ne_nil (by simp), List.dropLast_concat,
          List.tail_reverse]
  rw [HiddenWidthsAgree, inner, List.isChain_reverse, turnsRead_iff]

/-! ## One call -/

section Call

variable [Field R] [LinearOrder R]
variable (stray : ℕ → R) (alpha : R) (regularization : ℤ) (lambda : R)

/--
One call on a well-formed network finishes, keeps the form of all layers, and
makes valid accesses only exactly when the widths of the hidden layers agree;
then it computes the descent.
-/
theorem yields_BackPropagation {network : TrainingNetwork R} {label : List R}
    (wellFormed : network.WellFormed)
    (twoLayers : 2 ≤ network.layervalues.length)
    (labels : network.widths.getLast? = some label.length) :
    Yields
      (BackPropagation stray alpha regularization lambda network label)
      (HiddenWidthsAgree network.widths)
      (fun after =>
        after = { network with layervalues := after.layervalues } ∧
          after.layervalues.map TrainingLayer.form =
            network.layervalues.map TrainingLayer.form ∧
          (HiddenWidthsAgree network.widths →
            after.layervalues =
              (descendAll alpha regularization lambda label
                network.layervalues.reverse).reverse)) := by
  rcases reversed : network.layervalues.reverse
    with _ | ⟨lastlayer, _ | ⟨currentlayer, below⟩⟩
  · have empty := congrArg List.length reversed
    rw [List.length_reverse, List.length_nil] at empty
    omega
  · have single := congrArg List.length reversed
    rw [List.length_reverse, List.length_singleton] at single
    omega
  · have widths :
        network.widths.reverse =
          lastlayer.neuronvalues.length ::
            (currentlayer :: below).map (·.neuronvalues.length) := by
      rw [TrainingNetwork.widths, ← List.map_reverse, reversed, List.map_cons]
    have top : label.length = lastlayer.neuronvalues.length := by
      rw [← List.head?_reverse, widths, List.head?_cons, Option.some.injEq]
        at labels
      exact labels.symm
    have counted :
        (network.layers - 1).toNat = below.length + 1 := by
      have sizes := congrArg List.length reversed
      rw [List.length_reverse, List.length_cons, List.length_cons] at sizes
      rw [wellFormed.layers, sizes]
      omega
    have neurons : ∀ layer ∈ lastlayer :: currentlayer :: below,
        layer.neurons = layer.neuronvalues.length := by
      intro layer member
      rw [← reversed, List.mem_reverse] at member
      exact wellFormed.neurons layer member
    have connected :
        (lastlayer :: currentlayer :: below).IsChain fun upper lower =>
          Connected lower upper := by
      rw [← reversed, List.isChain_reverse]
      exact wellFormed.connected
    have turns :=
      yields_layerTurns stray alpha regularization lambda rfl neurons connected
        top
    rw [BackPropagation, counted, reversed, hiddenWidthsAgree_iff widths, ← top]
    refine turns.follow ?_
    rintro ⟨layers, scratch⟩ ⟨forms, descends, columns, entry, holds⟩
    refine (Table.yields_free _ holds).seq fun _ _ =>
      Yields.pure ⟨rfl, ?_, ?_⟩
    · rw [List.map_reverse, show layers.map _ = _ from forms, ← reversed,
        List.map_reverse, List.reverse_reverse]
    · intro reads
      rw [show layers = _ from descends reads]

/-- A call finishes on a single layer too, which has nothing to learn. -/
theorem finishes_BackPropagation {network : TrainingNetwork R}
    {label : List R} (wellFormed : network.WellFormed)
    (labels : network.widths.getLast? = some label.length) :
    ∃ after accesses,
      BackPropagation stray alpha regularization lambda network label [] =
          .ok (after, accesses) ∧
        after = { network with layervalues := after.layervalues } ∧
          after.layervalues.map TrainingLayer.form =
            network.layervalues.map TrainingLayer.form := by
  rcases Nat.lt_or_ge network.layervalues.length 2 with single | twoLayers
  · have noTurn : (network.layers - 1).toNat = 0 := by
      rw [wellFormed.layers]
      omega
    refine ⟨network, [], ?_, rfl, rfl⟩
    rw [BackPropagation, noTurn]
    show Except.ok
      ({ network with
          layervalues := network.layervalues.reverse.reverse }, []) = _
    rw [List.reverse_reverse]
  · rcases yields_BackPropagation stray alpha regularization lambda wellFormed
      twoLayers labels [] with ⟨after, accesses, runs, -, settings, forms, -⟩
    exact ⟨after, accesses, runs, settings, forms⟩

/-- For a well-formed network of any widths, exactly when all accesses hold. -/
theorem accesses_valid_iff {network : TrainingNetwork R} {label : List R}
    (wellFormed : network.WellFormed)
    (twoLayers : 2 ≤ network.layervalues.length)
    (labels : network.widths.getLast? = some label.length) :
    ∃ after accesses,
      BackPropagation stray alpha regularization lambda network label [] =
          .ok (after, accesses) ∧
        ((∀ access ∈ accesses, access.Valid) ↔
          HiddenWidthsAgree network.widths) := by
  rcases yields_BackPropagation stray alpha regularization lambda wellFormed
    twoLayers labels [] with ⟨after, accesses, runs, valid, -⟩
  exact ⟨after, accesses, runs, valid⟩

end Call

/-! ## Networks of all ones -/

/-- A layer whose weights and activation values are one. -/
def onesLayer (activationfunctiontype : ℤ) (lower width : ℕ) :
    TrainingLayer ℚ where
  activationfunctiontype := activationfunctiontype
  neurons := width
  neuronvalues :=
    List.replicate width
      { neurontype := "hidden"
        weights := lower
        bias := 0
        weightvalues := List.replicate lower 1
        activationfunctionvalue := 1 }

/-- Two hidden layers between an input and an output neuron. -/
def onesNetwork (first second : ℕ) : TrainingNetwork ℚ where
  epoch := 1
  alpha := 1
  regularization := 0
  lambda := 0
  percentualtraining := 1
  lossfunctiontype := 2
  layers := 4
  layervalues :=
    [onesLayer 0 0 1, onesLayer 2 1 first, onesLayer 2 first second,
      onesLayer 4 second 1]

theorem wellFormed_onesNetwork (first second : ℕ) :
    (onesNetwork first second).WellFormed where
  layers := rfl
  neurons := by simp [onesNetwork, onesLayer]
  connected := by
    simp [onesNetwork, onesLayer, Connected, List.mem_replicate]

theorem accesses_valid_iff_sample :
    ∃ after accesses,
      BackPropagation (fun _ => 0) 1 0 0 (onesNetwork 2 2) [0] [] =
          .ok (after, accesses) ∧
        ((∀ access ∈ accesses, access.Valid) ↔
          HiddenWidthsAgree (onesNetwork 2 2).widths) :=
  accesses_valid_iff (fun _ => 0) 1 0 0 (wellFormed_onesNetwork 2 2)
    (by decide) rfl

/--
With one neuron below two, the sum reads behind the copy of the deltas, which
has the width of the lower layer.
-/
theorem reads_behind_copied_deltas :
    (onesNetwork 1 2).WellFormed ∧
      2 ≤ (onesNetwork 1 2).layervalues.length ∧
        (onesNetwork 1 2).widths.getLast? = some [(0 : ℚ)].length ∧
          ∃ after accesses,
            BackPropagation (fun _ => 0) 1 0 0 (onesNetwork 1 2) [0] [] =
                .ok (after, accesses) ∧
              ∃ access ∈ accesses, ¬ access.Valid := by
  refine ⟨wellFormed_onesNetwork 1 2, by decide, rfl, ?_⟩
  have labels :
      (onesNetwork 1 2).widths.getLast? = some [(0 : ℚ)].length := rfl
  rcases yields_BackPropagation (fun _ => 0) 1 0 0 (wellFormed_onesNetwork 1 2)
    (by decide) labels [] with ⟨after, accesses, runs, valid, -⟩
  refine ⟨after, accesses, runs, ?_⟩
  by_contra allValid
  push Not at allValid
  exact absurd (valid.mp allValid) (by decide)

end FederatedEdge.Client
