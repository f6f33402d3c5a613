import FederatedEdge.Library.WeightedMean
import FederatedEdge.Network.Position
import FederatedEdge.Server.Control
import Mathlib.Algebra.Module.Rat

/-!
# What accepting a model does

The effect on the control is the same for all models.  The effect on the
networks is that of an accumulator of weighted contributions: while another
node is awaited the model is absorbed, and the model of the last awaited node
also closes the round.  Closing leaves the later biases of the mean behind.

The global network is freed when a round closes.  That fails when the network
is itself a copy and one of its lists has one element.
-/

namespace FederatedEdge.Server.FederatedLearning

open FederatedEdge.Library
open FederatedEdge.Network

/-! ## Effect on the control -/

/-- With distinct keys, changing the first match changes all matches. -/
theorem modify_findIdx {α κ : Type} [DecidableEq κ] {key : α → κ}
    (values : List α) (name : κ) (change : α → α) {address : ℕ}
    (distinct : (values.map key).Nodup)
    (found : values.findIdx? (fun value => key value = name) = some address) :
    values.modify address change =
      values.map fun value => if key value = name then change value else value := by
  induction values generalizing address with
  | nil => simp at found
  | cons head rest inductionHypothesis =>
      rw [List.map_cons, List.nodup_cons] at distinct
      rw [List.findIdx?_cons] at found
      by_cases here : key head = name
      · have first : address = 0 := by simpa [here] using found.symm
        subst first
        have others :
            rest.map (fun value =>
                if key value = name then change value else value) = rest := by
          rw [List.map_congr_left, List.map_id]
          intro value member
          have different : key value ≠ name := by
            rintro same
            exact distinct.1 (List.mem_map.mpr ⟨value, member, same.trans here.symm⟩)
          rw [if_neg different, id]
        rw [List.modify_zero_cons, List.map_cons, if_pos here, others]
      · obtain ⟨restAddress, restFound, rfl⟩ :
            ∃ restAddress,
              rest.findIdx? (fun value => key value = name) = some restAddress ∧
                restAddress + 1 = address := by
          simpa [here] using found
        rw [List.modify_succ_cons, List.map_cons, if_neg here,
          inductionHypothesis distinct.2 restFound]

variable {platform : Platform} {server after : FederatedLearning}
  {ip_addr : String} {clientmodel : DecodedModel ℚ}

theorem nodes_countInteraction (registry : server.Registry) (address : ℕ) :
    (countInteraction server address).nodes =
        server.nodes.modify address
          (fun node => { node with interaction := node.interaction + 1 }) ∧
      (countInteraction server address).nodecontrol.nodelist.Consistent := by
  have consistent := registry.consistent
  rw [LinkedList.Consistent] at consistent
  have stored :
      (countInteraction server address).nodecontrol.nodelist =
        LinkedList.ofList
          (server.nodes.modify address fun node =>
            { node with interaction := node.interaction + 1 }) := by
    rw [countInteraction, LinkedList.modifyAt_eq]
    conv_lhs => rw [consistent]
    rw [LinkedList.withValues_ofList _ _ (by simp), LinkedList.values_ofList]
    rfl
  constructor
  · rw [nodes, stored, LinkedList.values_ofList]
  · rw [stored]
    exact LinkedList.consistent_ofList _

/-- Incrementing the interaction of a node is its arrival. -/
theorem control_countInteraction
    (registry : server.Registry) {address : ℕ}
    (found :
      server.nodes.findIdx? (fun node => node.ip_id = ip_addr) = some address) :
    (countInteraction server address).control =
        { server.control with
          barrier := server.control.barrier.bump ip_addr } ∧
      (countInteraction server address).Registry := by
  rcases nodes_countInteraction registry address with ⟨counted, consistent⟩
  have distinct := registry.distinct
  rw [names_control] at distinct
  have members :
      (countInteraction server address).nodes.map ClientNode.member =
        (server.nodes.map ClientNode.member).map
          (Barrier.Member.bump ip_addr) := by
    rw [counted, modify_findIdx server.nodes ip_addr _ distinct found,
      List.map_map, List.map_map]
    refine List.map_congr_left fun node _ => ?_
    by_cases same : node.ip_id = ip_addr <;>
      simp [ClientNode.member, Barrier.Member.bump, same]
  have bumped :
      (countInteraction server address).control =
        { server.control with
          barrier := server.control.barrier.bump ip_addr } := by
    rw [control, members]
    rfl
  have names :
      (countInteraction server address).control.names =
        server.control.names := by
    rw [bumped]
    exact Barrier.names_bump server.control.barrier ip_addr
  refine ⟨bumped, consistent, ?_, ?_, ?_⟩
  · rw [names]
    exact registry.distinct
  · rw [names]
    exact registry.counted
  · rw [names, bumped]
    exact registry.bounded

/-- The scan for an awaited node. -/
theorem find_awaited (registry : server.Registry) :
    server.nodecontrol.nodelist.find
        (fun node =>
          server.nodecontrol.currentinteraction = node.interaction) =
      .ok (server.nodes.findIdx? fun node =>
        server.nodecontrol.currentinteraction = node.interaction) :=
  LinkedList.find_forward _ _ registry.consistent.forward

theorem findIdx?_awaited_isSome_iff (server : FederatedLearning) :
    (server.nodes.findIdx? fun node =>
        server.nodecontrol.currentinteraction = node.interaction).isSome ↔
      server.control.barrier.Pending := by
  rw [List.findIdx?_isSome, List.any_eq_true, Barrier.Pending, control]
  constructor
  · rintro ⟨node, isNode, current⟩
    exact ⟨node.member, List.mem_map_of_mem isNode,
      (of_decide_eq_true current).symm⟩
  · rintro ⟨member, isMember, current⟩
    rcases List.mem_map.mp isMember with ⟨node, isNode, rfl⟩
    exact ⟨node, isNode, decide_eq_true current.symm⟩

theorem AggregationModel_finished (finished : server.control.Finished) :
    AggregationModel platform server clientmodel =
      .ok { server with globalmodelstatus := 0 } := by
  have ended :
      server.nodecontrol.currentinteraction ≥
        server.nodecontrol.interactioncycle :=
    finished
  rw [AggregationModel, if_pos ended]

/-- Unless the rounds are over, the model is summed up first. -/
theorem AggregationModel_eq
    (registry : server.Registry) (unfinished : ¬ server.control.Finished) :
    AggregationModel platform server clientmodel =
      (do
        let clientneuralnetwork ← Exec.read clientmodel.neuralnetwork
        let sum ←
          FederatedAveragingSum server.accumulator clientneuralnetwork
            clientmodel.trainingscounter
        let summed := storeSum server sum clientmodel.trainingscounter
        if server.control.barrier.Pending then
          .ok { summed with globalmodelstatus := 1 }
        else publishModel platform summed) := by
  have running :
      ¬ server.nodecontrol.currentinteraction ≥
          server.nodecontrol.interactioncycle :=
    unfinished
  rw [AggregationModel, if_neg running, find_awaited registry]
  have scanned := findIdx?_awaited_isSome_iff server
  cases scan :
      server.nodes.findIdx? (fun node =>
        server.nodecontrol.currentinteraction = node.interaction) with
  | none =>
      have settled : ¬ server.control.barrier.Pending := by
        rw [← scanned, scan]
        simp
      simp only [Exec.ok_bind, if_neg settled]
      rfl
  | some address =>
      have pending : server.control.barrier.Pending := by
        rw [← scanned, scan]
        rfl
      simp only [Exec.ok_bind, if_pos pending]
      rfl

/-- Publishing begins the next round and makes the model available. -/
theorem publishModel_control
    (finishes : publishModel platform server = .ok after) :
    after.control =
        { server.control with
          barrier := server.control.barrier.advance
          globalmodelstatus := 1 } ∧
      after.nodecontrol.nodelist = server.nodecontrol.nodelist ∧
      after.nodecontrol.clientnodesregistered =
        server.nodecontrol.clientnodesregistered := by
  simp only [publishModel, Exec.bind_eq_ok, Except.ok.injEq] at finishes
  rcases finishes with ⟨_, -, _, -, _, -, _, -, _, -, rfl⟩
  exact ⟨rfl, rfl, rfl⟩

theorem Registry.of_control
    (registry : server.Registry)
    (nodelist : after.nodecontrol.nodelist = server.nodecontrol.nodelist)
    (registered :
      after.nodecontrol.clientnodesregistered =
        server.nodecontrol.clientnodesregistered)
    (names : after.control.names = server.control.names)
    (clientnodes : after.control.clientnodes = server.control.clientnodes) :
    after.Registry := by
  refine ⟨?_, ?_, ?_, ?_⟩
  · rw [nodelist]
    exact registry.consistent
  · rw [names]
    exact registry.distinct
  · rw [registered, names]
    exact registry.counted
  · rw [names, clientnodes]
    exact registry.bounded

/-- The control after an aggregation which finishes. -/
theorem AggregationModel_control
    (registry : server.Registry)
    (finishes : AggregationModel platform server clientmodel = .ok after) :
    after.Registry ∧
      after.control =
        if server.control.Finished then
          { server.control with globalmodelstatus := 0 }
        else if server.control.barrier.Pending then
          { server.control with globalmodelstatus := 1 }
        else
          { server.control with
            barrier := server.control.barrier.advance
            globalmodelstatus := 1 } := by
  by_cases finished : server.control.Finished
  · rw [AggregationModel_finished finished, Except.ok.injEq] at finishes
    subst finishes
    rw [if_pos finished]
    exact ⟨registry.of_control rfl rfl rfl rfl, rfl⟩
  · rw [AggregationModel_eq registry finished] at finishes
    simp only [Exec.bind_eq_ok] at finishes
    rcases finishes with ⟨client, -, sum, -, finishes⟩
    rw [if_neg finished]
    by_cases pending : server.control.barrier.Pending
    · rw [if_pos pending, Except.ok.injEq] at finishes
      subst finishes
      rw [if_pos pending]
      exact ⟨registry.of_control rfl rfl rfl rfl, rfl⟩
    · rw [if_neg pending] at finishes
      rcases publishModel_control finishes
        with ⟨published, nodelist, registered⟩
      rw [if_neg pending]
      refine ⟨registry.of_control nodelist registered ?_ ?_, published⟩
      · rw [published]
        rfl
      · rw [published]
        rfl

/-- The node which is found is the one whose model is counted. -/
theorem submitModel_found (clientmodel : DecodedModel ℚ)
    (registry : server.Registry) {address : ℕ}
    (found :
      server.nodes.findIdx? (fun node => node.ip_id = ip_addr) = some address) :
    submitModel platform server ip_addr clientmodel =
      AggregationModel platform (countInteraction server address)
        clientmodel := by
  rw [submitModel, registry.find_node, found]
  rfl

/-- A model from an unregistered address follows the null pointer. -/
theorem submitModel_unregistered
    (registry : server.Registry) (unknown : ip_addr ∉ server.control.names) :
    submitModel platform server ip_addr clientmodel = .error .nullPointer := by
  have absent :
      server.nodes.findIdx? (fun node => node.ip_id = ip_addr) = none := by
    rw [← Option.not_isSome_iff_eq_none, findIdx?_isSome_iff]
    exact unknown
  rw [submitModel, registry.find_node, absent]
  rfl

/-- A model from a registered address is counted and aggregated. -/
theorem submitModel_registered
    (clientmodel : DecodedModel ℚ) (registry : server.Registry)
    (known : ip_addr ∈ server.control.names) :
    ∃ counted : FederatedLearning,
      submitModel platform server ip_addr clientmodel =
          AggregationModel platform counted clientmodel ∧
        counted.control =
          { server.control with
            barrier := server.control.barrier.bump ip_addr } ∧
        counted.Registry ∧ SameModels server counted := by
  rcases Option.isSome_iff_exists.mp
      ((findIdx?_isSome_iff server ip_addr).mpr known)
    with ⟨address, found⟩
  rcases control_countInteraction registry found with ⟨bumped, countedRegistry⟩
  exact ⟨countInteraction server address,
    submitModel_found clientmodel registry found, bumped, countedRegistry,
    ⟨rfl, rfl, rfl⟩⟩

/-- Accepting a model refines the abstract acceptance whenever it finishes. -/
theorem submitModel_control
    (registry : server.Registry)
    (finishes : submitModel platform server ip_addr clientmodel = .ok after) :
    ip_addr ∈ server.control.names ∧ after.Registry ∧
      after.control = server.control.accept ip_addr := by
  by_cases known : ip_addr ∈ server.control.names
  · rcases submitModel_registered clientmodel registry known
      with ⟨counted, runs, bumped, countedRegistry, -⟩
    rw [runs] at finishes
    rcases AggregationModel_control countedRegistry finishes
      with ⟨afterRegistry, effect⟩
    refine ⟨known, afterRegistry, ?_⟩
    have sameBarrier :
        counted.control.barrier = server.control.barrier.bump ip_addr := by
      rw [bumped]
    have stillFinished :
        counted.control.Finished ↔ server.control.Finished := by
      rw [bumped]
      rfl
    rw [effect, Control.accept, Barrier.arrive]
    by_cases finished : server.control.Finished
    · rw [if_pos (stillFinished.mpr finished), if_pos finished, bumped]
    · rw [if_neg (mt stillFinished.mp finished), if_neg finished]
      by_cases pending : (server.control.barrier.bump ip_addr).Pending
      · rw [if_pos (sameBarrier ▸ pending), if_pos pending, bumped]
      · rw [if_neg (sameBarrier ▸ pending), if_neg pending, bumped]
  · rw [submitModel_unregistered registry known] at finishes
    cases finishes

end FederatedEdge.Server.FederatedLearning
