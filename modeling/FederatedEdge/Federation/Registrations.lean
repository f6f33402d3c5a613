import FederatedEdge.Federation.AfterLastRound

/-!
# Registrations

The node list is a function of the register requests so far: the first
occurrences of their addresses, as far as there is room.  Polls, downloads and
model messages leave it alone.

The capacity test comes before the search for the address, so a node which is
already in a full list is told that the limit is reached.
-/

namespace FederatedEdge.Federation

open FederatedEdge.Library
open FederatedEdge.Network
open FederatedEdge.Server
open FederatedEdge.Server.FederatedLearning

variable {platform : Platform} {start server after : FederatedLearning}
  {exchanges : List Exchange} {ip_addr : String}

/-- The address which a request registers. -/
def registering : Request → Option String
  | .register ip_addr => some ip_addr
  | .poll _ => none
  | .download => none
  | .message _ _ => none

/-- The addresses of the register requests, in their order. -/
def registrations (exchanges : List Exchange) : List String :=
  exchanges.filterMap fun exchange => registering exchange.1

/-! ## The names after a request -/

theorem names_register (control : Control) (name : String) :
    (control.register name).names =
      if control.Full ∨ name ∈ control.names then control.names
      else control.names ++ [name] := by
  rw [Control.register, Control.names]
  split
  · rw [Control.barrier_openWhenFull]
    rfl
  · rw [Control.barrier_openWhenFull]
    exact Barrier.names_join control.barrier name

/-- Only a registration touches the names. -/
theorem names_controlAfter (platform : Platform) (control : Control)
    (request : Request) :
    (controlAfter platform control request).names =
      match registering request with
      | some name => (control.register name).names
      | none => control.names := by
  cases request with
  | register ip_addr => rfl
  | poll ip_addr => rfl
  | download => rfl
  | message ip_addr text =>
      rw [controlAfter]
      split
      · exact Control.names_accept control ip_addr
      · rfl

/-- A request keeps the names which are there, in their order. -/
theorem names_prefix_controlAfter (platform : Platform) (control : Control)
    (request : Request) :
    control.names <+: (controlAfter platform control request).names := by
  rw [names_controlAfter]
  cases registering request with
  | none => exact List.prefix_rfl
  | some name =>
      show control.names <+: (control.register name).names
      rw [names_register]
      split
      · exact List.prefix_rfl
      · exact List.prefix_append _ _

theorem clientnodes_controlAfter (platform : Platform) (control : Control)
    (request : Request) :
    (controlAfter platform control request).clientnodes =
      control.clientnodes := by
  cases request with
  | register ip_addr => exact Control.clientnodes_register control ip_addr
  | poll ip_addr => rfl
  | download => rfl
  | message ip_addr text =>
      rw [controlAfter]
      split
      · exact Control.clientnodes_accept control ip_addr
      · rfl

/-! ## The order of first registration -/

/-- Another element is a first occurrence unless it is there already. -/
theorem eraseDups_concat (names : List String) (name : String) :
    (names ++ [name]).eraseDups =
      if name ∈ names then names.eraseDups else names.eraseDups ++ [name] := by
  rw [List.eraseDups_append]
  by_cases known : name ∈ names
  · rw [if_pos known]
    simp [List.removeAll, known]
  · rw [if_neg known]
    simp [List.removeAll, known, List.eraseDups_cons]

/-- The first occurrences, as far as there is room. -/
def admitted (clientnodes : ℤ) (requested : List String) : List String :=
  requested.eraseDups.take clientnodes.toNat

/-- Registering is what another request does to the first occurrences. -/
theorem admitted_concat {control : Control} {requested : List String}
    (clients : 0 ≤ control.clientnodes)
    (names : control.names = admitted control.clientnodes requested)
    (name : String) :
    (control.register name).names =
      admitted control.clientnodes (requested ++ [name]) := by
  have lengths :
      control.names.length =
        min control.clientnodes.toNat requested.eraseDups.length := by
    rw [names, admitted, List.length_take]
  rw [names_register, admitted, eraseDups_concat]
  by_cases full : control.Full
  · rw [if_pos (Or.inl full)]
    rw [Control.Full] at full
    have enough : control.clientnodes.toNat ≤ requested.eraseDups.length := by
      omega
    split
    · exact names
    · rw [List.take_append_of_le_length enough]
      exact names
  · have count : (control.names.length : ℤ) ≠ control.clientnodes := full
    have all : control.names = requested.eraseDups := by
      rw [names, admitted, List.take_of_length_le]
      omega
    have room : requested.eraseDups.length < control.clientnodes.toNat := by
      rw [← all]
      omega
    have known : name ∈ control.names ↔ name ∈ requested := by
      rw [all, List.mem_eraseDups]
    by_cases present : name ∈ requested
    · rw [if_pos (Or.inr (known.mpr present)), if_pos present]
      exact names
    · rw [if_neg (not_or.mpr ⟨full, mt known.mp present⟩), if_neg present,
        all, List.take_of_length_le]
      rw [List.length_append, List.length_singleton]
      omega

/-- The registered names are the first occurrences among the requests. -/
structure Admission (clientnodes : ℤ) (exchanges : List Exchange)
    (server : FederatedLearning) : Prop where
  registry : server.Registry
  configured : server.control.clientnodes = clientnodes
  names :
    server.control.names = admitted clientnodes (registrations exchanges)

theorem Admission.serves {clientnodes : ℤ} {exchange : Exchange}
    (clients : 0 ≤ clientnodes)
    (admission : Admission clientnodes exchanges server)
    (serves : Serves platform server exchange after) :
    Admission clientnodes (exchanges ++ [exchange]) after := by
  rcases serves_refines admission.registry serves
    with ⟨afterRegistry, control⟩
  have configured := admission.configured
  refine ⟨afterRegistry, ?_, ?_⟩
  · rw [control, clientnodes_controlAfter, configured]
  · rw [control, names_controlAfter, registrations, List.filterMap_append]
    cases requested : registering exchange.1 with
    | none =>
        rw [show List.filterMap (fun exchange : Exchange =>
            registering exchange.1) [exchange] = [] by simp [requested],
          List.append_nil]
        exact admission.names
    | some name =>
        rw [show List.filterMap (fun exchange : Exchange =>
            registering exchange.1) [exchange] = [name] by simp [requested]]
        rw [← configured] at clients ⊢
        apply admitted_concat clients
        rw [configured]
        exact admission.names

theorem admission_of_run {clientnodes : ℤ} (clients : 0 ≤ clientnodes)
    (admission : Admission clientnodes [] start)
    (run : Path (Serves platform) start exchanges server) :
    Admission clientnodes exchanges server :=
  run.history (Admission clientnodes)
    (fun serves before => before.serves clients serves) admission

/-- What is registered at some time of a run stays where it is in the list. -/
theorem names_prefix_of_run (registry : server.Registry)
    (run : Path (Serves platform) server exchanges after) :
    server.control.names <+: after.control.names := by
  induction run with
  | nil => exact List.prefix_rfl
  | @cons source event _ _ _ head _ inductionHypothesis =>
      rcases serves_refines registry head with ⟨nextRegistry, control⟩
      have step := names_prefix_controlAfter platform source.control event.1
      rw [← control] at step
      exact step.trans (inductionHypothesis nextRegistry)

theorem admission_startServer (layersconfig : List LayerConfig)
    (rand : ℕ → ℕ → ℕ → ℕ) (interactioncycle : ℤ) {clientnodes : ℤ}
    (clients : 0 ≤ clientnodes) :
    Admission clientnodes []
      (startServer layersconfig rand interactioncycle clientnodes) := by
  have fresh := fresh_startServer layersconfig rand interactioncycle clients
  refine ⟨fresh.registry, rfl, ?_⟩
  rw [fresh.empty]
  simp [admitted, registrations]

/-! ## The node list of any run -/

/-- The node list, its links and its count after some requests. -/
structure Listed (clientnodes : ℤ) (requested : List String)
    (server : FederatedLearning) : Prop where
  links : server.nodecontrol.nodelist.Consistent
  distinct : (server.nodes.map ClientNode.ip_id).Nodup
  ordered :
    server.nodes.map ClientNode.ip_id =
      requested.eraseDups.take clientnodes.toNat
  counted : server.nodecontrol.clientnodesregistered = server.nodes.length
  bounded : server.nodecontrol.clientnodesregistered ≤ clientnodes

theorem Admission.listed {clientnodes : ℤ}
    (admission : Admission clientnodes exchanges server) :
    Listed clientnodes (registrations exchanges) server := by
  have registry := admission.registry
  have counted := registry.counted
  have distinct := registry.distinct
  have bounded := registry.bounded
  have names := admission.names
  rw [admission.configured] at bounded
  rw [names_control] at counted distinct bounded names
  rw [List.length_map] at counted bounded
  exact ⟨registry.consistent, distinct, names, counted, counted ▸ bounded⟩

theorem nodecontrol_openWhenComplete (server : FederatedLearning) :
    (openWhenComplete server).nodecontrol = server.nodecontrol := by
  rw [openWhenComplete]
  split <;> rfl

theorem openWhenComplete_idem (server : FederatedLearning) :
    openWhenComplete (openWhenComplete server) = openWhenComplete server := by
  by_cases complete :
      server.nodecontrol.clientnodesregistered = server.nodecontrol.clientnodes
  · have opened :
        openWhenComplete server = { server with globalmodelstatus := 1 } :=
      if_pos complete
    rw [opened]
    exact if_pos complete
  · have closed : openWhenComplete server = server := if_neg complete
    rw [closed, closed]

/-- Where nothing can be added, a registration only opens a complete server. -/
theorem handle_get_noderegister_closed (registry : server.Registry)
    (closed : server.control.Full ∨ ip_addr ∈ server.control.names) :
    ∃ status, handle_get_noderegister server ip_addr =
      .ok (openWhenComplete server, status) := by
  by_cases full : server.control.Full
  · exact ⟨_, handle_get_noderegister_full registry full ip_addr⟩
  · rcases closed with full' | known
    · exact absurd full' full
    · exact ⟨_, handle_get_noderegister_known registry known full⟩

/--
In every state of every run from the start the nodes are the first occurrences
of the registered addresses, as far as there is room, linked in this order; no
later state changes their places, and a node which is there is not added again.
-/
theorem nodes_in_order_of_registration
    (layersconfig : List LayerConfig) (rand : ℕ → ℕ → ℕ → ℕ)
    (interactioncycle : ℤ) {clientnodes : ℤ} (clients : 0 ≤ clientnodes)
    (run :
      Path (Serves platform)
        (startServer layersconfig rand interactioncycle clientnodes)
        exchanges server) :
    Listed clientnodes (registrations exchanges) server ∧
      (∀ later after, Path (Serves platform) server later after →
        server.nodes.map ClientNode.ip_id <+:
          after.nodes.map ClientNode.ip_id) ∧
      ∀ ip_addr ∈ server.nodes.map ClientNode.ip_id, ∀ reply after,
        Serves platform server (.register ip_addr, reply) after →
          after.nodecontrol = server.nodecontrol := by
  have admission :=
    admission_of_run clients
      (admission_startServer layersconfig rand interactioncycle clients) run
  have registry := admission.registry
  refine ⟨admission.listed, ?_, ?_⟩
  · intro later after path
    rw [← names_control, ← names_control]
    exact names_prefix_of_run registry path
  · intro ip_addr known reply after serves
    rw [← names_control] at known
    rcases handle_get_noderegister_closed registry (Or.inr known)
      with ⟨status, finishes⟩
    simp only [Serves, serve, finishes, Exec.ok_bind, Except.ok.injEq,
      Prod.mk.injEq] at serves
    rw [← serves.1, nodecontrol_openWhenComplete]

/-- One node registers twice before the second one does. -/
def sampleRegistrations : List Exchange :=
  [(.register sampleAddress, .registration .added),
    (.register sampleAddress, .registration .registred),
    (.register "10.0.0.3", .registration .added)]

theorem nodes_in_order_of_registration_sample :
    ∃ server, Path (Serves samplePlatform) (sampleStart 1 2)
        sampleRegistrations server ∧
      Listed 2 [sampleAddress, sampleAddress, "10.0.0.3"] server ∧
        server.nodes.map ClientNode.ip_id = [sampleAddress, "10.0.0.3"] ∧
          (∀ later after, Path (Serves samplePlatform) server later after →
            [sampleAddress, "10.0.0.3"] <+:
              after.nodes.map ClientNode.ip_id) ∧
          ∀ ip_addr ∈ [sampleAddress, "10.0.0.3"], ∀ reply after,
            Serves samplePlatform server (.register ip_addr, reply) after →
              after.nodecontrol = server.nodecontrol := by
  have run :
      ∃ server, Path (Serves samplePlatform) (sampleStart 1 2)
        sampleRegistrations server :=
    ⟨_, .cons rfl (.cons rfl (.single rfl))⟩
  rcases run with ⟨server, run⟩
  rcases nodes_in_order_of_registration sampleConfig (fun _ _ _ => 0) 1
      (by decide) run
    with ⟨listed, kept, known⟩
  have names : server.nodes.map ClientNode.ip_id =
      [sampleAddress, "10.0.0.3"] :=
    listed.ordered.trans (by decide)
  rw [names] at kept known
  exact ⟨server, run, listed, names, kept, known⟩

/-! ## The answers -/

/-- Registering twice in a row does what registering once does. -/
theorem handle_get_noderegister_idempotent (registry : server.Registry)
    (ip_addr : String) :
    ∃ after status again,
      handle_get_noderegister server ip_addr = .ok (after, status) ∧
        handle_get_noderegister after ip_addr = .ok (after, again) := by
  by_cases closed : server.control.Full ∨ ip_addr ∈ server.control.names
  · rcases handle_get_noderegister_closed registry closed
      with ⟨status, first⟩
    have still :
        (openWhenComplete server).control.Full ∨
          ip_addr ∈ (openWhenComplete server).control.names := by
      rw [control_openWhenComplete registry, Control.full_openWhenFull_iff,
        Control.names, Control.barrier_openWhenFull]
      exact closed
    rcases handle_get_noderegister_closed registry.openWhenComplete still
      with ⟨again, second⟩
    rw [openWhenComplete_idem] at second
    exact ⟨_, status, again, first, second⟩
  · rw [not_or] at closed
    rcases control_storeNodes registry ip_addr closed.2 closed.1
      with ⟨joined, storedRegistry⟩
    have first :=
      handle_get_noderegister_fresh registry closed.2 closed.1
    have known :
        ip_addr ∈ (openWhenComplete (storeNodes server
          (LinkedList.ofList
            (server.nodes ++ [⟨ip_addr, 0⟩])))).control.names := by
      rw [control_openWhenComplete storedRegistry, joined, Control.names,
        Control.barrier_openWhenFull, Barrier.names_join]
      exact List.mem_append_right _ (List.mem_singleton_self _)
    rcases handle_get_noderegister_closed storedRegistry.openWhenComplete
        (Or.inr known) with ⟨again, second⟩
    rw [openWhenComplete_idem] at second
    exact ⟨_, .added, again, first, second⟩

/-- The server tells what it found: the node, room for it, or neither. -/
structure TellsRegistration (server : FederatedLearning) (ip_addr : String)
    (status : RegistrationStatus) : Prop where
  registred :
    status = .registred ↔ ip_addr ∈ server.nodes.map ClientNode.ip_id
  added :
    status = .added ↔
      ip_addr ∉ server.nodes.map ClientNode.ip_id ∧
        (server.nodes.length : ℤ) < server.nodecontrol.clientnodes
  limitReached :
    status = .limitReached ↔
      ip_addr ∉ server.nodes.map ClientNode.ip_id ∧
        (server.nodes.length : ℤ) = server.nodecontrol.clientnodes

/-- Only the answer to a node of a full list is another one. -/
theorem tellsRegistration_iff (registry : server.Registry)
    {status : RegistrationStatus}
    (answered : handle_get_noderegister server ip_addr = .ok (after, status)) :
    TellsRegistration server ip_addr status ↔
      ip_addr ∉ server.nodes.map ClientNode.ip_id ∨
        (server.nodes.length : ℤ) < server.nodecontrol.clientnodes := by
  have full_iff :
      server.control.Full ↔
        (server.nodes.length : ℤ) = server.nodecontrol.clientnodes := by
    rw [Control.Full, names_control, List.length_map]
    rfl
  have bounded :
      (server.nodes.length : ℤ) ≤ server.nodecontrol.clientnodes := by
    have names := registry.bounded
    rw [names_control, List.length_map] at names
    exact names
  rw [← names_control]
  by_cases full : server.control.Full
  · have counted := full_iff.mp full
    rw [handle_get_noderegister_full registry full, Except.ok.injEq,
      Prod.mk.injEq] at answered
    rcases answered with ⟨-, rfl⟩
    constructor
    · intro tells
      exact Or.inl (names_control server ▸ (tells.limitReached.mp rfl).1)
    · rintro (unknown | room)
      · rw [names_control] at unknown
        exact ⟨by simp [unknown], by simp [counted],
          by simp [unknown, counted]⟩
      · exact absurd counted room.ne
  · have room := lt_of_le_of_ne bounded (mt full_iff.mpr full)
    refine iff_of_true ?_ (Or.inr room)
    by_cases known : ip_addr ∈ server.control.names
    · rw [handle_get_noderegister_known registry known full, Except.ok.injEq,
        Prod.mk.injEq] at answered
      rcases answered with ⟨-, rfl⟩
      rw [names_control] at known
      exact ⟨by simp [known], by simp [known], by simp [known]⟩
    · rw [handle_get_noderegister_fresh registry known full,
        Except.ok.injEq, Prod.mk.injEq] at answered
      rcases answered with ⟨-, rfl⟩
      rw [names_control] at known
      exact ⟨by simp [known], by simp [known, room],
        by simp [room.ne]⟩

/--
In every reachable state and for every address the registration finishes,
repeating it changes nothing, and its answer tells what was found exactly
unless the address is that of a node in a full list.
-/
theorem registration_answers_iff
    (layersconfig : List LayerConfig) (rand : ℕ → ℕ → ℕ → ℕ)
    (interactioncycle : ℤ) {clientnodes : ℤ} (clients : 0 ≤ clientnodes)
    (run :
      Path (Serves platform)
        (startServer layersconfig rand interactioncycle clientnodes)
        exchanges server)
    (ip_addr : String) :
    ∃ after status again,
      handle_get_noderegister server ip_addr = .ok (after, status) ∧
        handle_get_noderegister after ip_addr = .ok (after, again) ∧
        (TellsRegistration server ip_addr status ↔
          ip_addr ∉ server.nodes.map ClientNode.ip_id ∨
            (server.nodes.length : ℤ) < server.nodecontrol.clientnodes) := by
  have registry :=
    registry_of_run run
      (fresh_startServer layersconfig rand interactioncycle clients).registry
  rcases handle_get_noderegister_idempotent registry ip_addr
    with ⟨after, status, again, first, second⟩
  exact ⟨after, status, again, first, second,
    tellsRegistration_iff registry first⟩

theorem registration_answers_iff_sample :
    ∃ after status again,
      handle_get_noderegister samplePublished sampleAddress =
          .ok (after, status) ∧
        handle_get_noderegister after sampleAddress = .ok (after, again) ∧
        (TellsRegistration samplePublished sampleAddress status ↔
          sampleAddress ∉ samplePublished.nodes.map ClientNode.ip_id ∨
            (samplePublished.nodes.length : ℤ) <
              samplePublished.nodecontrol.clientnodes) :=
  registration_answers_iff sampleConfig (fun _ _ _ => 0) 1 (by decide)
    run_samplePublished sampleAddress

/-- The only node of the sample server registers again. -/
theorem known_node_told_limit_reached :
    ∃ (server after : FederatedLearning),
      Path (Serves samplePlatform) (sampleStart 1 1)
          [(.register sampleAddress, .registration .added)] server ∧
        sampleAddress ∈ server.nodes.map ClientNode.ip_id ∧
        handle_get_noderegister server sampleAddress =
          .ok (after, .limitReached) :=
  ⟨sampleRegistered 1, sampleRegistered 1, .single rfl, by decide, rfl⟩

end FederatedEdge.Federation
