import FederatedEdge.Network.Links
import FederatedEdge.Server.Requests

/-!
# The reachable states

Whatever is sent to the server, in every state it reaches the registry is in
order, both networks have the shape they were initialized with, and the global
network can be freed unless it is a copy with a list of one element.  The counts and the
lengths of the accumulator never change either.
-/

namespace FederatedEdge.Server.FederatedLearning

open FederatedEdge.Library
open FederatedEdge.Network

/-- The invariant of all requests. -/
structure Intact (shape : Shape) (server : FederatedLearning) : Prop where
  registry : server.Registry
  models : server.Models shape
  started : 0 ≤ server.control.barrier.round
  freeable_iff :
    server.Freeable ↔ server.control.barrier.round = 0 ∨ ¬ shape.HasSingleton

variable {platform : Platform} {shape : Shape} {server after : FederatedLearning}
  {ip_addr : String} {clientmodel : DecodedModel ℚ}

theorem Intact.of_fresh (fresh : server.Fresh shape) : Intact shape server :=
  ⟨fresh.registry, fresh.models, fresh.firstRound.ge,
    iff_of_true fresh.freeable (Or.inl fresh.firstRound)⟩

/-- Nothing changes for the networks and the round. -/
theorem Intact.of_sameModels (intact : Intact shape server)
    (registry : after.Registry) (same : SameModels server after)
    (round : after.control.barrier.round = server.control.barrier.round) :
    Intact shape after := by
  refine ⟨registry, same.models intact.models, ?_, ?_⟩
  · rw [round]
    exact intact.started
  · rw [round, same.freeable_iff]
    exact intact.freeable_iff

/-- An aggregation which finishes keeps the invariant, whatever the model is. -/
theorem Intact.aggregate (intact : Intact shape server)
    (finishes : AggregationModel platform server clientmodel = .ok after) :
    Intact shape after ∧ server.accumulator.SameForm after.accumulator := by
  rcases AggregationModel_control intact.registry finishes
    with ⟨registry, control⟩
  by_cases finished : server.control.Finished
  · rw [if_pos finished] at control
    rw [AggregationModel_finished finished, Except.ok.injEq] at finishes
    subst finishes
    exact ⟨intact.of_sameModels registry ⟨rfl, rfl, rfl⟩ (by rw [control]),
      .refl _⟩
  · rw [if_neg finished] at control
    rw [AggregationModel_eq intact.registry finished] at finishes
    simp only [Exec.bind_eq_ok] at finishes
    rcases finishes with ⟨client, -, sum, sums, finishes⟩
    have same := FederatedAveragingSum_sameLinks sums
    have summedModels :
        (storeSum server sum clientmodel.trainingscounter).Models shape :=
      ⟨same.forward intact.models.forward,
        same.shape.trans intact.models.accumulatorShape,
        intact.models.globalShape⟩
    by_cases pending : server.control.barrier.Pending
    · rw [if_pos pending] at control finishes
      rw [Except.ok.injEq] at finishes
      subst finishes
      refine ⟨⟨registry, ⟨summedModels.forward, summedModels.accumulatorShape,
        summedModels.globalShape⟩, ?_, ?_⟩, same.sameForm⟩
      · rw [control]
        exact intact.started
      · rw [control]
        exact intact.freeable_iff
    · rw [if_neg pending] at control finishes
      rcases closed_of_publishModel summedModels finishes
        with ⟨closed, sameForm⟩
      have next :
          after.control.barrier.round = server.control.barrier.round + 1 := by
        rw [control]
        rfl
      have started := intact.started
      refine ⟨⟨registry, closed.models, ?_, ?_⟩, same.sameForm.trans sameForm⟩
      · rw [next]
        linarith
      · rw [closed.freeable_iff, next, or_iff_right]
        intro zero
        linarith

theorem Intact.submit (intact : Intact shape server)
    (finishes : submitModel platform server ip_addr clientmodel = .ok after) :
    Intact shape after ∧ server.accumulator.SameForm after.accumulator := by
  rcases submitModel_control intact.registry finishes with ⟨known, -⟩
  rcases submitModel_registered clientmodel intact.registry known
    with ⟨counted, runs, bumped, registry, same⟩
  have countedIntact : Intact shape counted :=
    intact.of_sameModels registry same (by rw [bumped]; rfl)
  rw [← same.accumulator]
  exact countedIntact.aggregate (runs.symm.trans finishes)

/-- Every request keeps the invariant and the form of the accumulator. -/
theorem Intact.serve {exchange : Exchange} (intact : Intact shape server)
    (serves : Serves platform server exchange after) :
    Intact shape after ∧ server.accumulator.SameForm after.accumulator := by
  rcases exchange with ⟨request, reply⟩
  cases request with
  | register ip_addr =>
      rcases serves_register intact.registry serves
        with ⟨registry, control, same⟩
      refine ⟨intact.of_sameModels registry same
        (by rw [control, Control.round_register]), ?_⟩
      rw [same.accumulator]
      exact .refl _
  | poll ip_addr =>
      rcases serves_poll intact.registry serves with ⟨rfl, -⟩
      exact ⟨intact, .refl _⟩
  | download =>
      rcases serves_download serves with rfl
      exact ⟨intact, .refl _⟩
  | message ip_addr text =>
      rcases serves_message intact.registry serves
        with ⟨-, rfl⟩ | ⟨model, -, finishes⟩
      · exact ⟨intact, .refl _⟩
      · exact intact.submit finishes

/-- The invariant holds in all reachable states. -/
theorem Intact.of_run {start : FederatedLearning} {exchanges : List Exchange}
    (run : Path (Serves platform) start exchanges server)
    (fresh : start.Fresh shape) :
    Intact shape server := by
  refine run.invariant (Intact shape) ?_ (.of_fresh fresh)
  intro source exchange target serves intact
  exact (intact.serve serves).1

/-! ## Which submissions finish -/

/-- The invariant with an accumulator whose counts are those of its lists. -/
structure Sized (shape : Shape) (server : FederatedLearning) : Prop extends
    Intact shape server where
  counted : server.accumulator.Counted

theorem Sized.serve {exchange : Exchange} (sized : Sized shape server)
    (serves : Serves platform server exchange after) : Sized shape after := by
  rcases sized.toIntact.serve serves with ⟨intact, sameForm⟩
  exact ⟨intact, sameForm.counted sized.counted⟩

theorem Sized.of_run {start : FederatedLearning} {exchanges : List Exchange}
    (run : Path (Serves platform) start exchanges server)
    (fresh : start.Fresh shape) (counted : start.accumulator.Counted) :
    Sized shape server := by
  refine run.invariant (Sized shape) ?_ ⟨.of_fresh fresh, counted⟩
  intro source exchange target serves sized
  exact sized.serve serves

/--
The current round can be closed: the networks have layers with neurons, this is
the first round or no list of the networks has exactly one element, and there is
room for the records of the evaluation.
-/
structure CanCloseRound (platform : Platform) (server : FederatedLearning) :
    Prop where
  inhabited : server.neuralnetwork.shape.Inhabited
  frees : server.nodecontrol.currentinteraction = 0 ∨
    ¬ server.neuralnetwork.shape.HasSingleton
  room :
    (platform.evaluation server.nodecontrol.currentinteraction).HasRoom
      server.neuralnetwork.shape.inputsAndOutputs

theorem Intact.closable_iff (intact : Intact shape server) :
    server.Closable platform shape ↔ CanCloseRound platform server := by
  have sameShape := intact.models.globalShape
  subst sameShape
  constructor
  · rintro ⟨inhabited, freeable, room⟩
    exact ⟨inhabited, intact.freeable_iff.mp freeable, room⟩
  · rintro ⟨inhabited, frees, room⟩
    exact ⟨inhabited, intact.freeable_iff.mpr frees, room⟩

variable (platform) in
/-- A complete model finishes, unless it closes a round which cannot be closed. -/
theorem Sized.submit_finishes_iff (sized : Sized shape server)
    (known : ip_addr ∈ server.control.names)
    (complete : clientmodel.Complete shape) :
    (∃ after, submitModel platform server ip_addr clientmodel = .ok after) ↔
      server.control.Finished ∨
        (server.control.barrier.bump ip_addr).Pending ∨
        CanCloseRound platform server := by
  by_cases finished : server.control.Finished
  · rcases submitModel_finished clientmodel sized.registry known finished
      with ⟨after, runs, -⟩
    exact iff_of_true ⟨after, runs⟩ (Or.inl finished)
  · by_cases pending : (server.control.barrier.bump ip_addr).Pending
    · rcases submitModel_absorbs platform sized.registry sized.models known
          complete finished pending
        with ⟨after, runs, -⟩
      exact iff_of_true ⟨after, runs⟩ (Or.inr (Or.inl pending))
    · rw [or_iff_right finished, or_iff_right pending, ← sized.closable_iff]
      exact submitModel_finishes_iff sized.registry sized.models known complete
        sized.counted finished pending

end FederatedEdge.Server.FederatedLearning
