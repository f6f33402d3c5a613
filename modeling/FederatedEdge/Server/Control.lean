import FederatedEdge.Library.RoundBarrier
import FederatedEdge.Server.Handlers
import Mathlib.Tactic.Ring

/-!
# The control of the server as a barrier

What the server answers depends on its networks nowhere.  `Control` is the
abstract part: a barrier of rounds whose members are the registered nodes, the
number of nodes to wait for, the number of rounds, and the status of the
global model.

The handlers refine the operations of `Control`: registering, polling, and
accepting a model.  A handler which accepts a model may fail, but when it
finishes its effect on the control does not depend on the model.
-/

namespace FederatedEdge.Server

open FederatedEdge.Library
open FederatedEdge.Network

structure Control where
  barrier : Barrier String
  interactioncycle : ℤ
  clientnodes : ℤ
  globalmodelstatus : ℤ
deriving DecidableEq, Repr

namespace Control

/-- The names of the registered nodes. -/
def names (control : Control) : List String :=
  control.barrier.names

/-- As many nodes are registered as there are clients. -/
def Full (control : Control) : Prop :=
  (control.names.length : ℤ) = control.clientnodes

/-- All rounds have been run. -/
def Finished (control : Control) : Prop :=
  control.interactioncycle ≤ control.barrier.round

instance (control : Control) : Decidable control.Full := by
  unfold Full
  infer_instance

instance (control : Control) : Decidable control.Finished := by
  unfold Finished
  infer_instance

/-- A poll by this node is answered with 1. -/
def Ready (control : Control) (name : String) : Prop :=
  control.Full ∧ control.barrier.Awaited name ∧ control.globalmodelstatus ≠ 0

instance (control : Control) (name : String) : Decidable (control.Ready name) := by
  unfold Ready
  infer_instance

/-- The model becomes available when the last node has registered. -/
def openWhenFull (control : Control) : Control :=
  if control.Full then { control with globalmodelstatus := 1 } else control

/-- Register a node, unless all nodes are there or it is one of them. -/
def register (control : Control) (name : String) : Control :=
  if control.Full ∨ name ∈ control.names then control.openWhenFull
  else
    { control with barrier := control.barrier.join name }.openWhenFull

/-- Accept a model from a node. -/
def accept (control : Control) (name : String) : Control :=
  if control.Finished then
    { control with
      barrier := control.barrier.bump name
      globalmodelstatus := 0 }
  else
    { control with
      barrier := control.barrier.arrive name
      globalmodelstatus := 1 }

@[simp]
theorem barrier_openWhenFull (control : Control) :
    control.openWhenFull.barrier = control.barrier := by
  unfold openWhenFull
  split <;> rfl

@[simp]
theorem interactioncycle_openWhenFull (control : Control) :
    control.openWhenFull.interactioncycle = control.interactioncycle := by
  unfold openWhenFull
  split <;> rfl

@[simp]
theorem clientnodes_openWhenFull (control : Control) :
    control.openWhenFull.clientnodes = control.clientnodes := by
  unfold openWhenFull
  split <;> rfl

theorem full_openWhenFull_iff (control : Control) :
    control.openWhenFull.Full ↔ control.Full := by
  simp [Full, names]

theorem status_openWhenFull {control : Control} (full : control.Full) :
    control.openWhenFull.globalmodelstatus = 1 := by
  rw [openWhenFull, if_pos full]

@[simp]
theorem interactioncycle_register (control : Control) (name : String) :
    (control.register name).interactioncycle = control.interactioncycle := by
  unfold register
  split <;> simp

@[simp]
theorem clientnodes_register (control : Control) (name : String) :
    (control.register name).clientnodes = control.clientnodes := by
  unfold register
  split <;> simp

@[simp]
theorem round_register (control : Control) (name : String) :
    (control.register name).barrier.round = control.barrier.round := by
  unfold register
  split <;> simp [Barrier.join]

theorem accept_of_finished {control : Control} (finished : control.Finished)
    (name : String) :
    control.accept name =
      { control with
        barrier := control.barrier.bump name
        globalmodelstatus := 0 } := by
  rw [accept, if_pos finished]

theorem accept_of_unfinished {control : Control}
    (unfinished : ¬ control.Finished) (name : String) :
    control.accept name =
      { control with
        barrier := control.barrier.arrive name
        globalmodelstatus := 1 } := by
  rw [accept, if_neg unfinished]

@[simp]
theorem clientnodes_accept (control : Control) (name : String) :
    (control.accept name).clientnodes = control.clientnodes := by
  unfold accept
  split <;> rfl

@[simp]
theorem names_accept (control : Control) (name : String) :
    (control.accept name).names = control.names := by
  unfold accept names
  split <;> simp

end Control

/-! ## The control of a server state -/

/-- A client node as a member of the barrier. -/
def ClientNode.member (node : ClientNode) : Member String where
  name := node.ip_id
  count := node.interaction

namespace FederatedLearning

def control (server : FederatedLearning) : Control where
  barrier :=
    { members := server.nodes.map ClientNode.member
      round := server.nodecontrol.currentinteraction }
  interactioncycle := server.nodecontrol.interactioncycle
  clientnodes := server.nodecontrol.clientnodes
  globalmodelstatus := server.globalmodelstatus

/-- The node list is in order, with distinct addresses and a correct count. -/
structure Registry (server : FederatedLearning) : Prop where
  consistent : server.nodecontrol.nodelist.Consistent
  distinct : server.control.names.Nodup
  counted :
    server.nodecontrol.clientnodesregistered = server.control.names.length
  bounded : (server.control.names.length : ℤ) ≤ server.control.clientnodes

variable {server : FederatedLearning}

theorem names_control (server : FederatedLearning) :
    server.control.names = server.nodes.map ClientNode.ip_id := by
  simp [Control.names, Barrier.names, control, ClientNode.member,
    Function.comp_def]

theorem awaited_control_iff (server : FederatedLearning) (ip_addr : String) :
    server.control.barrier.Awaited ip_addr ↔
      ∃ node ∈ server.nodes, node.ip_id = ip_addr ∧
        node.interaction = server.nodecontrol.currentinteraction := by
  simp [Barrier.Awaited, control, ClientNode.member]

theorem Registry.full_iff (registry : server.Registry) :
    server.control.Full ↔
      server.nodecontrol.clientnodesregistered =
        server.nodecontrol.clientnodes := by
  rw [Control.Full, registry.counted]
  rfl

/-- The search for a node succeeds exactly for registered addresses. -/
theorem Registry.find_node (registry : server.Registry) (ip_addr : String) :
    server.nodecontrol.nodelist.find (fun node => node.ip_id = ip_addr) =
      .ok (server.nodes.findIdx? fun node => node.ip_id = ip_addr) :=
  LinkedList.find_forward _ _ registry.consistent.forward

theorem findIdx?_isSome_iff (server : FederatedLearning) (ip_addr : String) :
    (server.nodes.findIdx? fun node => node.ip_id = ip_addr).isSome ↔
      ip_addr ∈ server.control.names := by
  simp [names_control]

/-! ## Registering -/

/-- Another node in the list, counted. -/
theorem control_storeNodes
    (registry : server.Registry) (ip_addr : String)
    (fresh : ip_addr ∉ server.control.names)
    (notFull : ¬ server.control.Full) :
    let stored :=
      storeNodes server
        (LinkedList.ofList
          (server.nodes ++ [{ ip_id := ip_addr, interaction := 0 }]))
    stored.control =
        { server.control with
          barrier := server.control.barrier.join ip_addr } ∧
      stored.Registry := by
  intro stored
  have joined :
      stored.control =
        { server.control with
          barrier := server.control.barrier.join ip_addr } := by
    simp [stored, control, storeNodes, nodes, Barrier.join, ClientNode.member]
  have longer : stored.control.names = server.control.names ++ [ip_addr] := by
    rw [joined]
    exact Barrier.names_join server.control.barrier ip_addr
  have room : (server.control.names.length : ℤ) < server.control.clientnodes :=
    lt_of_le_of_ne registry.bounded notFull
  refine ⟨joined, ?_, ?_, ?_, ?_⟩
  · exact LinkedList.consistent_ofList _
  · rw [longer]
    exact List.nodup_append.mpr
      ⟨registry.distinct, by simp,
        fun left leftName right rightName => by
          rintro rfl
          exact fresh (by rwa [← List.mem_singleton.mp rightName])⟩
  · rw [longer]
    simp [stored, storeNodes, registry.counted]
  · rw [longer]
    simpa [joined] using Int.add_one_le_of_lt room

theorem control_openWhenComplete (registry : server.Registry) :
    (openWhenComplete server).control = server.control.openWhenFull := by
  unfold openWhenComplete Control.openWhenFull
  by_cases full : server.control.Full
  · rw [if_pos full, if_pos (registry.full_iff.mp full)]
    rfl
  · rw [if_neg full, if_neg (mt registry.full_iff.mpr full)]

theorem Registry.openWhenComplete (registry : server.Registry) :
    (openWhenComplete server).Registry := by
  unfold Server.openWhenComplete
  split
  · exact ⟨registry.consistent, registry.distinct, registry.counted,
      registry.bounded⟩
  · exact registry

/-- The networks and the counter sum are the same before and after. -/
structure SameModels (before after : FederatedLearning) : Prop where
  neuralnetwork : after.neuralnetwork = before.neuralnetwork
  accumulator : after.accumulator = before.accumulator
  trainingscounter : after.trainingscounter = before.trainingscounter

theorem SameModels.refl (server : FederatedLearning) : SameModels server server :=
  ⟨rfl, rfl, rfl⟩

theorem SameModels.trans {first second third : FederatedLearning}
    (left : SameModels first second) (right : SameModels second third) :
    SameModels first third :=
  ⟨right.neuralnetwork.trans left.neuralnetwork,
    right.accumulator.trans left.accumulator,
    right.trainingscounter.trans left.trainingscounter⟩

theorem sameModels_openWhenComplete (server : FederatedLearning) :
    SameModels server (Server.openWhenComplete server) := by
  unfold Server.openWhenComplete
  split <;> exact ⟨rfl, rfl, rfl⟩

theorem sameModels_storeNodes (server : FederatedLearning)
    (nodelist : LinkedList ClientNode) :
    SameModels server (storeNodes server nodelist) :=
  ⟨rfl, rfl, rfl⟩

/-- The registration stores a fresh node at the end of the list. -/
theorem handle_get_noderegister_fresh
    (registry : server.Registry) {ip_addr : String}
    (fresh : ip_addr ∉ server.control.names)
    (notFull : ¬ server.control.Full) :
    handle_get_noderegister server ip_addr =
      .ok (Server.openWhenComplete
          (storeNodes server
            (LinkedList.ofList
              (server.nodes ++ [{ ip_id := ip_addr, interaction := 0 }]))),
        .added) := by
  have consistent := registry.consistent
  rw [LinkedList.Consistent] at consistent
  have absent :
      (server.nodes.findIdx? fun node => node.ip_id = ip_addr) = none := by
    rw [← Option.not_isSome_iff_eq_none, findIdx?_isSome_iff]
    exact fresh
  have notCounted := mt registry.full_iff.mpr notFull
  rw [handle_get_noderegister, if_neg notCounted]
  cases stored : server.nodes with
  | nil =>
      have empty : server.nodecontrol.nodelist = LinkedList.ofList [] := by
        rw [consistent]
        exact congrArg LinkedList.ofList stored
      simp only [empty]
      rfl
  | cons head rest =>
      have list :
          server.nodecontrol.nodelist = LinkedList.ofList (head :: rest) := by
        rw [consistent]
        exact congrArg LinkedList.ofList stored
      have first : server.nodecontrol.nodelist.first = some 0 := by
        rw [list]
        rfl
      have last : ∃ tail, server.nodecontrol.nodelist.last = some tail := by
        rw [list]
        exact ⟨rest.length, rfl⟩
      rcases last with ⟨tail, last⟩
      simp only [first, registry.find_node, absent, Exec.ok_bind, last,
        Exec.deref_some]
      rw [list, LinkedList.append_ofList]

/-- The capacity test comes before the search for the address. -/
theorem handle_get_noderegister_full
    (registry : server.Registry) (full : server.control.Full)
    (ip_addr : String) :
    handle_get_noderegister server ip_addr =
      .ok (Server.openWhenComplete server, .limitReached) := by
  rw [handle_get_noderegister, if_pos (registry.full_iff.mp full)]

theorem handle_get_noderegister_known
    (registry : server.Registry) {ip_addr : String}
    (known : ip_addr ∈ server.control.names)
    (notFull : ¬ server.control.Full) :
    handle_get_noderegister server ip_addr =
      .ok (Server.openWhenComplete server, .registred) := by
  rcases Option.isSome_iff_exists.mp
        ((findIdx?_isSome_iff server ip_addr).mpr known)
      with ⟨address, found⟩
  have occupied : server.nodecontrol.nodelist.first = some 0 := by
    have consistent := registry.consistent
    rw [LinkedList.Consistent] at consistent
    rw [names_control] at known
    rcases List.mem_map.mp known with ⟨node, member, -⟩
    rcases List.exists_cons_of_ne_nil (List.ne_nil_of_mem member)
      with ⟨head, rest, split⟩
    rw [consistent]
    exact congrArg (pointerTo 0) split
  rw [handle_get_noderegister, if_neg (mt registry.full_iff.mpr notFull)]
  simp only [occupied, registry.find_node, found, Exec.ok_bind]

/-- Registering refines the abstract registration and keeps the models. -/
theorem handle_get_noderegister_refines
    (registry : server.Registry) (ip_addr : String) :
    ∃ after status,
      handle_get_noderegister server ip_addr = .ok (after, status) ∧
        after.control = server.control.register ip_addr ∧
        after.Registry ∧ SameModels server after := by
  by_cases full : server.control.Full
  · refine ⟨_, _, handle_get_noderegister_full registry full ip_addr, ?_,
      registry.openWhenComplete, sameModels_openWhenComplete server⟩
    rw [control_openWhenComplete registry, Control.register,
      if_pos (Or.inl full)]
  · by_cases known : ip_addr ∈ server.control.names
    · refine ⟨_, _, handle_get_noderegister_known registry known full, ?_,
        registry.openWhenComplete, sameModels_openWhenComplete server⟩
      rw [control_openWhenComplete registry, Control.register,
        if_pos (Or.inr known)]
    · rcases control_storeNodes registry ip_addr known full
        with ⟨joined, stored⟩
      refine ⟨_, .added,
        handle_get_noderegister_fresh registry known full, ?_,
        stored.openWhenComplete,
        (sameModels_storeNodes server _).trans
          (sameModels_openWhenComplete _)⟩
      rw [control_openWhenComplete stored, joined, Control.register,
        if_neg (by simp [full, known])]

/-! ## Polling -/

/-- A poll is answered with 1 exactly when the node is ready. -/
theorem handle_get_checkmodelstatus_eq
    (registry : server.Registry) (ip_addr : String) :
    handle_get_checkmodelstatus server ip_addr =
      .ok (if server.control.Ready ip_addr then 1 else 0) := by
  rw [handle_get_checkmodelstatus, registry.find_node, Exec.ok_bind]
  cases found : server.nodes.findIdx? (fun node => node.ip_id = ip_addr) with
  | none =>
      have unknown : ip_addr ∉ server.control.names := by
        rw [← findIdx?_isSome_iff, found]
        simp
      have notReady : ¬ server.control.Ready ip_addr :=
        fun ready => unknown ready.2.1.mem_names
      simp [notReady]
  | some address =>
      rcases List.findIdx?_eq_some_iff_getElem.mp found
        with ⟨inside, sameName, -⟩
      have sameName : server.nodes[address].ip_id = ip_addr := by
        simpa using sameName
      have awaited :
          server.control.barrier.Awaited ip_addr ↔
            server.nodes[address].interaction =
              server.nodecontrol.currentinteraction := by
        rw [awaited_control_iff]
        constructor
        · rintro ⟨node, member, nodeName, count⟩
          have same : node = server.nodes[address] := by
            have distinct := registry.distinct
            rw [names_control] at distinct
            exact List.inj_on_of_nodup_map distinct member
              (List.getElem_mem inside) (nodeName.trans sameName.symm)
          rw [← same]
          exact count
        · intro count
          exact ⟨_, List.getElem_mem inside, sameName, count⟩
      have ready :
          server.control.Ready ip_addr ↔
            server.nodecontrol.clientnodesregistered =
                server.nodecontrol.clientnodes ∧
              server.nodes[address].interaction =
                server.nodecontrol.currentinteraction ∧
              server.globalmodelstatus ≠ 0 := by
        rw [Control.Ready, registry.full_iff, awaited]
        rfl
      simp only [Option.bind_some, List.getElem?_eq_getElem inside, ready]
      split <;> rfl

end FederatedLearning

end FederatedEdge.Server
