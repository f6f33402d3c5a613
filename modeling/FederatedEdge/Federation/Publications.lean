import FederatedEdge.Federation.Permissions

/-!
# Who is in a publication

The server publishes when no registered node is left at the current
interaction.  It asks neither whether all clients have registered nor who sent
the models.  If before the last round each message comes from a node which is
awaited, and another node is awaited too until all clients are registered,
then every publication has a model of each of the configured clients in it.
-/

namespace FederatedEdge.Federation

open FederatedEdge.Library
open FederatedEdge.Network
open FederatedEdge.Server
open FederatedEdge.Server.FederatedLearning

/-- The registered nodes at a publication, and the senders since the last one. -/
structure Publication where
  registered : List String
  contributors : List String
deriving DecidableEq, Repr

/-- The server, the senders since the last publication, and the publications. -/
structure Collection where
  server : FederatedLearning
  contributors : List String
  published : List Publication

/-- All clients are there, under different names, and have sent a model. -/
structure Publication.Gathers (clientnodes : ℤ) (publication : Publication) :
    Prop where
  everyone : (publication.registered.length : ℤ) = clientnodes
  distinct : publication.registered.Nodup
  contributed : ∀ name ∈ publication.registered, name ∈ publication.contributors

namespace Collection

/-- Take note of a model from an address, and of a publication. -/
def collect (state : Collection) (ip_addr : String) (after : FederatedLearning) :
    Collection :=
  let contributors := state.contributors ++ [ip_addr]
  if after.nodecontrol.currentinteraction =
      state.server.nodecontrol.currentinteraction then
    { state with server := after, contributors := contributors }
  else
    { server := after
      contributors := []
      published :=
        state.published ++ [⟨after.nodes.map ClientNode.ip_id, contributors⟩] }

end Collection

/-- Registrations, and complete models from registered addresses. -/
inductive Collecting (platform : Platform) (shape : Shape) :
    Collection → Exchange → Collection → Prop where
  | register {state : Collection} {ip_addr reply after}
      (serves :
        Serves platform state.server (.register ip_addr, reply) after) :
      Collecting platform shape state (.register ip_addr, reply)
        { state with server := after }
  | message {state : Collection} {ip_addr text reply after}
      (known : ip_addr ∈ state.server.nodes.map ClientNode.ip_id)
      (complete : platform.Carries shape text)
      (serves :
        Serves platform state.server (.message ip_addr text, reply) after) :
      Collecting platform shape state (.message ip_addr text, reply)
        (state.collect ip_addr after)

/--
Before the last round ends, a message comes from a node which has not sent in
the current round; if not all clients are registered, another node has not
sent either.
-/
def InTurn (state : Collection) (exchange : Exchange) : Prop :=
  ∀ ip_addr text, exchange.1 = .message ip_addr text →
    state.server.nodecontrol.currentinteraction <
        state.server.nodecontrol.interactioncycle →
      (∃ node ∈ state.server.nodes, node.ip_id = ip_addr ∧
          node.interaction = state.server.nodecontrol.currentinteraction) ∧
        (state.server.nodecontrol.clientnodesregistered =
            state.server.nodecontrol.clientnodes ∨
          ∃ node ∈ state.server.nodes, node.ip_id ≠ ip_addr ∧
            node.interaction = state.server.nodecontrol.currentinteraction)

/-- The invariant of the round: who is not awaited has contributed. -/
structure Gathering (server : FederatedLearning) (contributors : List String) :
    Prop where
  inStep : server.control.barrier.InStep
  firstRound :
    ¬ server.control.Full → server.control.barrier.round = 0
  contributed : ∀ name ∈ server.control.names,
    ¬ server.control.barrier.Awaited name → name ∈ contributors

/-- The invariant of the collection. -/
structure Collected (state : Collection) : Prop where
  registry : state.server.Registry
  running : ¬ state.server.control.Finished →
    Gathering state.server state.contributors
  published : ∀ publication ∈ state.published,
    publication.Gathers state.server.control.clientnodes

variable {platform : Platform} {shape : Shape} {state next : Collection}
  {server after : FederatedLearning} {contributors : List String}
  {ip_addr : String}

theorem inTurn_message_iff (registry : state.server.Registry) {text : List Char}
    {reply : Reply} :
    InTurn state (.message ip_addr text, reply) ↔
      (¬ state.server.control.Finished →
        state.server.control.barrier.Awaited ip_addr ∧
          (state.server.control.Full ∨
            ∃ other, state.server.control.barrier.Awaited other ∧
              other ≠ ip_addr)) := by
  have others :
      (∃ other, state.server.control.barrier.Awaited other ∧
          other ≠ ip_addr) ↔
        ∃ node ∈ state.server.nodes, node.ip_id ≠ ip_addr ∧
          node.interaction = state.server.nodecontrol.currentinteraction := by
    simp only [awaited_control_iff]
    constructor
    · rintro ⟨other, ⟨node, isNode, rfl, current⟩, different⟩
      exact ⟨node, isNode, different, current⟩
    · rintro ⟨node, isNode, different, current⟩
      exact ⟨node.ip_id, ⟨node, isNode, rfl, current⟩, different⟩
  rw [others, registry.full_iff, awaited_control_iff]
  constructor
  · intro inTurn unfinished
    exact inTurn ip_addr text rfl (not_le.mp unfinished)
  · rintro inTurn sender other ⟨⟩ running
    exact inTurn (not_le.mpr running)

/-! ## Registrations -/

theorem Gathering.register {reply : Reply}
    (registry : server.Registry) (gathering : Gathering server contributors)
    (serves : Serves platform server (.register ip_addr, reply) after) :
    Gathering after contributors := by
  rcases serves_register registry serves with ⟨-, control, -⟩
  by_cases known : server.control.Full ∨ ip_addr ∈ server.control.names
  · rw [Control.register, if_pos known] at control
    have barrier : after.control.barrier = server.control.barrier := by
      rw [control, Control.barrier_openWhenFull]
    refine ⟨?_, ?_, ?_⟩
    · rw [barrier]
      exact gathering.inStep
    · rw [barrier, control, Control.full_openWhenFull_iff]
      exact gathering.firstRound
    · rw [Control.names, barrier]
      exact gathering.contributed
  · rw [Control.register, if_neg known] at control
    have barrier :
        after.control.barrier = server.control.barrier.join ip_addr := by
      rw [control, Control.barrier_openWhenFull]
    have firstRound := gathering.firstRound fun full => known (Or.inl full)
    refine ⟨?_, ?_, ?_⟩
    · rw [barrier]
      exact gathering.inStep.join firstRound fun isName => known (Or.inr isName)
    · intro _
      rw [barrier]
      exact firstRound
    · intro name isName notAwaited
      rw [barrier, Barrier.awaited_join_iff firstRound, not_or] at notAwaited
      rw [Control.names, barrier, Barrier.names_join, List.mem_append,
        List.mem_singleton] at isName
      exact gathering.contributed name (isName.resolve_right notAwaited.2)
        notAwaited.1

/-! ## Models -/

section Message

variable (gathering : Gathering server contributors)
  (awaited : server.control.barrier.Awaited ip_addr)

include gathering awaited

/-- While others are awaited, the sender becomes a contributor. -/
theorem Gathering.absorb {other : String}
    (otherAwaited : server.control.barrier.Awaited other)
    (different : other ≠ ip_addr)
    (control : after.control = server.control.accept ip_addr) :
    Gathering after (contributors ++ [ip_addr]) := by
  have barrier :
      after.control.barrier = server.control.barrier.bump ip_addr := by
    rw [control]
    exact accept_of_other gathering.inStep otherAwaited different
  refine ⟨?_, ?_, ?_⟩
  · rw [barrier]
    exact gathering.inStep.bump awaited
  · rw [barrier, control, Control.Full, Control.names_accept,
      Control.clientnodes_accept]
    exact gathering.firstRound
  · intro name isName notAwaited
    rw [control, Control.names_accept] at isName
    rw [barrier, Barrier.awaited_bump_iff gathering.inStep, not_and_or,
      not_not] at notAwaited
    rw [List.mem_append, List.mem_singleton]
    exact notAwaited.imp_left (gathering.contributed name isName)

/-- After the last awaited model everybody is awaited again. -/
theorem Gathering.close
    (unfinished : ¬ server.control.Finished) (full : server.control.Full)
    (last : ∀ other, server.control.barrier.Awaited other → other = ip_addr)
    (control : after.control = server.control.accept ip_addr) :
    Gathering after [] := by
  have barrier :
      after.control.barrier =
        (server.control.barrier.bump ip_addr).advance := by
    rw [control]
    exact accept_of_last gathering.inStep unfinished last
  have settled := Barrier.not_awaited_bump_of_last gathering.inStep last
  have bumped := gathering.inStep.bump awaited
  refine ⟨?_, ?_, ?_⟩
  · rw [barrier]
    exact bumped.advance settled
  · intro notFull
    rw [control, Control.Full, Control.names_accept,
      Control.clientnodes_accept] at notFull
    exact (notFull full).elim
  · intro name isName notAwaited
    rw [barrier, bumped.awaited_advance_iff settled, Barrier.names_bump]
      at notAwaited
    rw [control, Control.names_accept] at isName
    exact (notAwaited isName).elim

omit awaited in
/-- A round which the sender closes at a full server has everybody in it. -/
theorem Gathering.gathers
    (registry : after.Registry) (full : server.control.Full)
    (last : ∀ other, server.control.barrier.Awaited other → other = ip_addr)
    (control : after.control = server.control.accept ip_addr) :
    Publication.Gathers after.control.clientnodes
      ⟨after.nodes.map ClientNode.ip_id, contributors ++ [ip_addr]⟩ := by
  rw [← names_control]
  refine ⟨?_, registry.distinct, ?_⟩
  · rw [control, Control.names_accept, Control.clientnodes_accept]
    exact full
  · intro name isName
    change name ∈ after.control.names at isName
    rw [control, Control.names_accept] at isName
    show name ∈ contributors ++ [ip_addr]
    rw [List.mem_append, List.mem_singleton]
    by_cases nameAwaited : server.control.barrier.Awaited name
    · exact Or.inr (last name nameAwaited)
    · exact Or.inl (gathering.contributed name isName nameAwaited)

end Message

/-- A message in turn keeps the invariant. -/
theorem Collected.message {text : List Char} {reply : Reply}
    (collected : Collected state) (complete : platform.Carries shape text)
    (inTurn : InTurn state (.message ip_addr text, reply))
    (serves :
      Serves platform state.server (.message ip_addr text, reply) after) :
    Collected (state.collect ip_addr after) := by
  rcases complete with ⟨model, decoded, -⟩
  rcases serves_refines collected.registry serves with ⟨registry, control⟩
  rw [controlAfter, decoded, Option.isSome_some, if_pos rfl] at control
  have sameClients :
      after.control.clientnodes = state.server.control.clientnodes := by
    rw [control, Control.clientnodes_accept]
  have published : ∀ publication ∈ state.published,
      publication.Gathers after.control.clientnodes := by
    rw [sameClients]
    exact collected.published
  have round :
      after.nodecontrol.currentinteraction =
        (state.server.control.accept ip_addr).barrier.round := by
    rw [← control]
    rfl
  by_cases finished : state.server.control.Finished
  · rw [Control.accept_of_finished finished] at control round
    have sameRound :
        after.nodecontrol.currentinteraction =
          state.server.nodecontrol.currentinteraction :=
      round
    rw [Collection.collect, if_pos sameRound]
    refine ⟨registry, ?_, published⟩
    intro unfinished
    change ¬ after.control.Finished at unfinished
    rw [control] at unfinished
    exact (unfinished finished).elim
  · have gathering := collected.running finished
    rcases (inTurn_message_iff collected.registry).mp inTurn finished
      with ⟨awaited, complete⟩
    by_cases more : ∃ other,
        state.server.control.barrier.Awaited other ∧ other ≠ ip_addr
    · rcases more with ⟨other, otherAwaited, different⟩
      have sameRound :
          after.nodecontrol.currentinteraction =
            state.server.nodecontrol.currentinteraction := by
        rw [round, accept_of_other gathering.inStep otherAwaited different]
        rfl
      rw [Collection.collect, if_pos sameRound]
      exact ⟨registry,
        fun _ => gathering.absorb awaited otherAwaited different control,
        published⟩
    · have full := complete.resolve_right more
      have last := Barrier.last_of_no_other more
      have advanced :
          after.nodecontrol.currentinteraction ≠
            state.server.nodecontrol.currentinteraction := by
        rw [round, accept_of_last gathering.inStep finished last]
        exact (lt_add_one _).ne'
      rw [Collection.collect, if_neg advanced]
      refine ⟨registry,
        fun _ => gathering.close awaited finished full last control, ?_⟩
      intro publication member
      rcases List.mem_append.mp member with old | new
      · exact published publication old
      · rw [List.mem_singleton.mp new]
        exact gathering.gathers registry full last control

/-- Every step in turn keeps the invariant. -/
theorem Collected.step {exchange : Exchange} (collected : Collected state)
    (inTurn : InTurn state exchange)
    (step : Collecting platform shape state exchange next) :
    Collected next := by
  cases step with
  | @register ip_addr reply after serves =>
      rcases serves_register collected.registry serves
        with ⟨registry, control, -⟩
      refine ⟨registry, ?_, ?_⟩
      · intro unfinished
        have before : ¬ state.server.control.Finished := by
          intro finished
          apply unfinished
          show after.control.interactioncycle ≤ after.control.barrier.round
          rw [control, Control.interactioncycle_register,
            Control.round_register]
          exact finished
        exact (collected.running before).register collected.registry serves
      · show ∀ publication ∈ state.published,
          publication.Gathers after.control.clientnodes
        rw [control, Control.clientnodes_register]
        exact collected.published
  | message known complete serves =>
      exact collected.message complete inTurn serves

theorem Collected.of_fresh (fresh : server.Fresh shape)
    (clients : 1 ≤ server.nodecontrol.clientnodes) :
    Collected ⟨server, [], []⟩ := by
  have orderly : Orderly shape ⟨server, ∅⟩ := .of_fresh fresh clients
  refine ⟨fresh.registry, fun _ => ⟨orderly.inStep, orderly.firstRound, ?_⟩,
    by rintro publication ⟨⟩⟩
  intro name isName
  change name ∈ server.control.names at isName
  rw [fresh.empty] at isName
  cases isName

/--
In every run of registrations and complete models in which each message before
the end of the last round comes from a node which has not sent in the round,
and, until all clients are registered, not from the only such node: whenever
the server publishes, as many distinct nodes as configured are registered, and
each of them has sent a model since the previous publication.
-/
theorem publications_gather_everyone
    {start : FederatedLearning} {exchanges : List Exchange}
    (fresh : start.Fresh shape) (clients : 1 ≤ start.nodecontrol.clientnodes)
    (run :
      Path (Restricted InTurn (Collecting platform shape)) ⟨start, [], []⟩
        exchanges state) :
    ∀ publication ∈ state.published,
      (publication.registered.length : ℤ) =
          state.server.nodecontrol.clientnodes ∧
        publication.registered.Nodup ∧
          ∀ name ∈ publication.registered,
            name ∈ publication.contributors := by
  have collected : Collected state := by
    refine run.invariant Collected ?_ (.of_fresh fresh clients)
    rintro source exchange target ⟨inTurn, step⟩ sourceCollected
    exact sourceCollected.step inTurn step
  intro publication member
  have gathers := collected.published publication member
  exact ⟨gathers.everyone, gathers.distinct, gathers.contributed⟩

/-! ## One client of two -/

theorem publications_gather_everyone_sample :
    ∃ state : Collection,
      state.published = [⟨[sampleAddress], [sampleAddress]⟩] ∧
        ∀ publication ∈ state.published,
          (publication.registered.length : ℤ) =
              state.server.nodecontrol.clientnodes ∧
            publication.registered.Nodup ∧
              ∀ name ∈ publication.registered,
                name ∈ publication.contributors := by
  have submitted :
      submitModel samplePlatform (sampleRegistered 1) sampleAddress sampleModel =
        .ok samplePublished := by
    decide +kernel
  have registers :
      Serves samplePlatform (sampleStart 1 1)
        (.register sampleAddress, .registration .added) (sampleRegistered 1) :=
    rfl
  have serves :
      Serves samplePlatform (sampleRegistered 1)
        (.message sampleAddress sampleText, .nothing) samplePublished := by
    rw [Serves, serve, handle_clint_model_message_decoded decode_sampleText,
      submitted]
    rfl
  have first :
      Collecting samplePlatform [[0, 0], [2, 2]] ⟨sampleStart 1 1, [], []⟩
        (.register sampleAddress, .registration .added)
        ⟨sampleRegistered 1, [], []⟩ :=
    .register registers
  have second :
      Collecting samplePlatform [[0, 0], [2, 2]] ⟨sampleRegistered 1, [], []⟩
        (.message sampleAddress sampleText, .nothing)
        (Collection.collect ⟨sampleRegistered 1, [], []⟩ sampleAddress
          samplePublished) :=
    .message (List.mem_singleton_self _) carries_sampleText serves
  have inTurn :
      InTurn ⟨sampleRegistered 1, [], []⟩
        (.message sampleAddress sampleText, .nothing) := by
    rintro ip_addr text ⟨⟩ -
    exact ⟨⟨_, List.mem_singleton_self _, rfl, rfl⟩, Or.inl rfl⟩
  refine ⟨_, ?_, publications_gather_everyone (fresh_sampleStart 1 (by decide))
    (by decide) (.cons ⟨by rintro _ _ ⟨⟩, first⟩ (.single ⟨inTurn, second⟩))⟩
  decide +kernel

/-- Of two clients one registers and sends its model, which is published. -/
theorem publication_of_one_client :
    ∃ exchanges state,
      Path (Collecting samplePlatform [[0, 0], [2, 2]])
          ⟨sampleStart 1 2, [], []⟩ exchanges state ∧
        ∃ publication ∈ state.published,
          (publication.registered.length : ℤ) ≠
            state.server.nodecontrol.clientnodes := by
  let alone : FederatedLearning :=
    (submitModel samplePlatform sampleHalf sampleAddress
      sampleModel).toOption.getD sampleHalf
  have submitted :
      submitModel samplePlatform sampleHalf sampleAddress sampleModel =
        .ok alone := by
    decide +kernel
  have registers :
      Serves samplePlatform (sampleStart 1 2)
        (.register sampleAddress, .registration .added) sampleHalf :=
    rfl
  have serves :
      Serves samplePlatform sampleHalf
        (.message sampleAddress sampleText, .nothing) alone := by
    rw [Serves, serve, handle_clint_model_message_decoded decode_sampleText,
      submitted]
    rfl
  have first :
      Collecting samplePlatform [[0, 0], [2, 2]] ⟨sampleStart 1 2, [], []⟩
        (.register sampleAddress, .registration .added) ⟨sampleHalf, [], []⟩ :=
    .register registers
  have second :
      Collecting samplePlatform [[0, 0], [2, 2]] ⟨sampleHalf, [], []⟩
        (.message sampleAddress sampleText, .nothing)
        (Collection.collect ⟨sampleHalf, [], []⟩ sampleAddress alone) :=
    .message (List.mem_singleton_self _) carries_sampleText serves
  have published :
      (Collection.collect ⟨sampleHalf, [], []⟩ sampleAddress alone).published =
        [⟨[sampleAddress], [sampleAddress]⟩] := by
    decide +kernel
  refine ⟨_, _, .cons first (.single second), ⟨[sampleAddress], [sampleAddress]⟩,
    ?_, ?_⟩
  · rw [published]
    exact List.mem_singleton_self _
  · show (1 : ℤ) ≠ alone.nodecontrol.clientnodes
    decide +kernel

end FederatedEdge.Federation
