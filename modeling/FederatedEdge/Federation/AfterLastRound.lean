import FederatedEdge.Server.Requests
import Mathlib.Data.Fintype.EquivFin

/-!
# After the last round

Once the rounds are over no request changes the networks, the counter sum or
the round.  The polls are another matter: a registration sets the status of
the global model again, so a node which has not sent more models than there
were rounds can still be sent off to train.
-/

namespace FederatedEdge.Federation

open FederatedEdge.Library
open FederatedEdge.Network
open FederatedEdge.Server
open FederatedEdge.Server.FederatedLearning

variable {platform : Platform} {server after : FederatedLearning}
  {shape : Shape}

/--
The round and the networks are what they were, and no poll has been answered
with status 1.
-/
structure Quiet (server : FederatedLearning) (exchanges : List Exchange)
    (after : FederatedLearning) : Prop where
  currentinteraction :
    after.nodecontrol.currentinteraction = server.nodecontrol.currentinteraction
  models : SameModels server after
  polls : ∀ ip_addr, (.poll ip_addr, .status 1) ∉ exchanges

/-! ## Invariants of all runs -/

theorem round_le_controlAfter (platform : Platform) (control : Control)
    (request : Request) :
    control.barrier.round ≤
      (controlAfter platform control request).barrier.round := by
  cases request with
  | register ip_addr => simp [controlAfter]
  | poll ip_addr => exact le_refl _
  | download => exact le_refl _
  | message ip_addr text =>
      unfold controlAfter Control.accept Barrier.arrive
      by_cases decoded : (platform.decode text).isSome
      · by_cases finished : control.Finished
        · simp [decoded, finished]
        · by_cases pending : (control.barrier.bump ip_addr).Pending
          · simp [decoded, finished, pending]
          · simp [decoded, finished, pending, Barrier.advance]
      · simp [decoded]

/-- In every reachable state the registry is in order. -/
theorem registry_of_run {exchanges : List Exchange}
    (run : Path (Serves platform) server exchanges after)
    (registry : server.Registry) :
    after.Registry := by
  refine run.invariant Registry ?_ registry
  intro source event target serves sourceRegistry
  exact (serves_refines sourceRegistry serves).1

/-- The round of a run never goes back. -/
theorem round_le_of_run {exchanges : List Exchange}
    (run : Path (Serves platform) server exchanges after)
    (registry : server.Registry) :
    server.control.barrier.round ≤ after.control.barrier.round := by
  induction run with
  | nil => exact le_refl _
  | @cons source event _ _ _ head _ inductionHypothesis =>
      rcases serves_refines registry head with ⟨nextRegistry, control⟩
      have step := round_le_controlAfter platform source.control event.1
      rw [← control] at step
      exact step.trans (inductionHypothesis nextRegistry)

/-! ## What cannot change any more -/

/-- A request after the last round leaves the round and the networks alone. -/
theorem serves_of_finished {exchange : Exchange}
    (registry : server.Registry) (finished : server.control.Finished)
    (serves : Serves platform server exchange after) :
    after.control.Finished ∧
      after.nodecontrol.currentinteraction =
        server.nodecontrol.currentinteraction ∧
      SameModels server after := by
  rcases exchange with ⟨request, reply⟩
  cases request with
  | register ip_addr =>
      rcases serves_register registry serves with ⟨-, control, same⟩
      have round :
          after.control.barrier.round = server.control.barrier.round := by
        rw [control, Control.round_register]
      refine ⟨?_, round, same⟩
      rw [Control.Finished, round, control, Control.interactioncycle_register]
      exact finished
  | poll ip_addr =>
      rcases serves_poll registry serves with ⟨rfl, -⟩
      exact ⟨finished, rfl, .refl _⟩
  | download =>
      rcases serves_download serves with rfl
      exact ⟨finished, rfl, .refl _⟩
  | message ip_addr text =>
      rcases serves_message registry serves
        with ⟨-, rfl⟩ | ⟨model, -, finishes⟩
      · exact ⟨finished, rfl, .refl _⟩
      · rcases submitModel_control registry finishes with ⟨known, -, control⟩
        rcases submitModel_finished model registry known finished
          with ⟨next, nextFinishes, same⟩
        rcases Exec.result_unique finishes nextFinishes with rfl
        rw [Control.accept_of_finished finished] at control
        have round :
            after.control.barrier.round = server.control.barrier.round := by
          rw [control]
          rfl
        refine ⟨?_, round, same⟩
        rw [control]
        exact finished

/-- All nodes are there, and each has sent more models than rounds were run. -/
def Outrun (control : Control) : Prop :=
  control.Full ∧
    ∀ member ∈ control.barrier.members, control.barrier.round < member.count

theorem Outrun.controlAfter {control : Control} (outrun : Outrun control)
    (finished : control.Finished) (request : Request) :
    Outrun (controlAfter platform control request) := by
  rcases outrun with ⟨full, ahead⟩
  cases request with
  | register ip_addr =>
      rw [FederatedLearning.controlAfter, Control.register,
        if_pos (Or.inl full)]
      constructor
      · exact (Control.full_openWhenFull_iff control).mpr full
      · rw [Control.barrier_openWhenFull]
        exact ahead
  | poll ip_addr => exact ⟨full, ahead⟩
  | download => exact ⟨full, ahead⟩
  | message ip_addr text =>
      rw [FederatedLearning.controlAfter]
      by_cases decoded : (platform.decode text).isSome
      · rw [if_pos decoded, Control.accept_of_finished finished]
        constructor
        · show ((control.barrier.bump ip_addr).names.length : ℤ) = _
          rw [Barrier.names_bump]
          exact full
        · intro member isMember
          rcases List.mem_map.mp isMember with ⟨before, isBefore, rfl⟩
          have further := ahead before isBefore
          show control.barrier.round < _
          by_cases same : before.name = ip_addr
          · rw [Barrier.Member.bump, if_pos same]
            exact further.trans (lt_add_one _)
          · rw [Barrier.Member.bump, if_neg same]
            exact further
      · rw [if_neg decoded]
        exact ⟨full, ahead⟩

theorem Outrun.not_ready {control : Control} (outrun : Outrun control)
    (name : String) : ¬ control.Ready name := by
  rintro ⟨-, awaited, -⟩
  exact lt_irrefl _ (outrun.2 _ awaited)

/-- When all nodes have outrun the rounds, nothing happens any more. -/
theorem Outrun.quiet {exchanges : List Exchange}
    (run : Path (Serves platform) server exchanges after)
    (registry : server.Registry) (finished : server.control.Finished)
    (outrun : Outrun server.control) :
    Quiet server exchanges after := by
  induction run with
  | nil state => exact ⟨rfl, .refl state, by simp⟩
  | @cons source event middle events target head tail inductionHypothesis =>
      rcases serves_refines registry head with ⟨middleRegistry, control⟩
      rcases serves_of_finished registry finished head
        with ⟨middleFinished, sameRound, sameModels⟩
      have middleOutrun : Outrun middle.control := by
        rw [control]
        exact outrun.controlAfter finished event.1
      have later := inductionHypothesis middleRegistry middleFinished middleOutrun
      refine ⟨later.currentinteraction.trans sameRound,
        sameModels.trans later.models, ?_⟩
      intro ip_addr member
      rcases List.mem_cons.mp member with rfl | member
      · have answer := (serves_poll registry head).2
        rw [if_neg (outrun.not_ready ip_addr)] at answer
        simp at answer
      · exact later.polls ip_addr member

/-! ## How a poll is still answered with 1 -/

/-- With all nodes there, an awaited node is sent off after a registration. -/
theorem exists_poll_of_awaited {name : String}
    (registry : server.Registry) (full : server.control.Full)
    (awaited : server.control.barrier.Awaited name) :
    ∃ later after, Path (Serves platform) server later after ∧
      (.poll name, .status 1) ∈ later := by
  rcases handle_get_noderegister_refines registry name
    with ⟨next, status, finishes, control, nextRegistry, -⟩
  rw [Control.register, if_pos (Or.inl full)] at control
  have ready : next.control.Ready name := by
    rw [control]
    refine ⟨(Control.full_openWhenFull_iff _).mpr full, ?_, ?_⟩
    · rw [Control.barrier_openWhenFull]
      exact awaited
    · rw [Control.status_openWhenFull full]
      exact one_ne_zero
  have registers :
      Serves platform server (.register name, .registration status) next := by
    rw [Serves, serve, finishes]
    rfl
  have polls :
      Serves platform next (.poll name, .status 1) next := by
    rw [Serves, serve, handle_get_checkmodelstatus_eq nextRegistry,
      if_pos ready]
    rfl
  exact ⟨_, next, .cons registers (.single polls), by simp⟩

/-- A message after the last round counts for its sender, and for nothing else. -/
theorem serves_message_of_finished {name : String} {text : List Char}
    {model : DecodedModel ℚ}
    (registry : server.Registry) (finished : server.control.Finished)
    (known : name ∈ server.control.names)
    (decoded : platform.decode text = some model) :
    ∃ after,
      Serves platform server (.message name text, .nothing) after ∧
        after.Registry ∧
        after.control =
          { server.control with
            barrier := server.control.barrier.bump name
            globalmodelstatus := 0 } := by
  rcases submitModel_finished model registry known finished
    with ⟨after, finishes, -⟩
  rcases submitModel_control registry finishes
    with ⟨-, afterRegistry, control⟩
  rw [Control.accept_of_finished finished] at control
  refine ⟨after, ?_, afterRegistry, control⟩
  rw [Serves, serve, handle_clint_model_message_decoded decoded, finishes]
  rfl

/-- Further messages bring a node which is behind up to the round. -/
theorem exists_awaited_of_behind {text : List Char} {model : DecodedModel ℚ}
    (decoded : platform.decode text = some model) {name : String}
    (missing : ℕ) (registry : server.Registry)
    (finished : server.control.Finished) (full : server.control.Full)
    (behind :
      ⟨name, server.control.barrier.round - missing⟩ ∈
        server.control.barrier.members) :
    ∃ later after, Path (Serves platform) server later after ∧
      after.Registry ∧ after.control.Full ∧
      after.control.barrier.Awaited name := by
  induction missing generalizing server with
  | zero =>
      refine ⟨[], server, .nil server, registry, full, ?_⟩
      simpa [Barrier.Awaited] using behind
  | succ missing inductionHypothesis =>
      have known : name ∈ server.control.names :=
        List.mem_map_of_mem behind
      rcases serves_message_of_finished registry finished known decoded
        with ⟨next, serves, nextRegistry, control⟩
      have nextFinished : next.control.Finished := by
        rw [control]
        exact finished
      have nextFull : next.control.Full := by
        rw [control, Control.Full, Control.names, Barrier.names_bump]
        exact full
      have closer :
          ⟨name, next.control.barrier.round - missing⟩ ∈
            next.control.barrier.members := by
        rw [control]
        refine List.mem_map.mpr ⟨_, behind, ?_⟩
        rw [Barrier.Member.bump, if_pos rfl]
        simp only [Barrier.round_bump, Member.mk.injEq, true_and]
        push_cast
        ring
      rcases inductionHypothesis nextRegistry nextFinished nextFull closer
        with ⟨later, after, path, afterRegistry, afterFull, awaited⟩
      exact ⟨_, after, .cons serves path, afterRegistry, afterFull, awaited⟩

/-- While nodes are missing, a new address can register. -/
theorem exists_registration
    (platform : Platform) (registry : server.Registry)
    (finished : server.control.Finished)
    (notFull : ¬ server.control.Full) :
    ∃ name status after,
      Serves platform server (.register name, .registration status) after ∧
        after.Registry ∧ after.control.Finished ∧
        after.control.clientnodes = server.control.clientnodes ∧
        after.control.barrier = server.control.barrier.join name := by
  rcases Infinite.exists_notMem_finset server.control.names.toFinset
    with ⟨name, fresh⟩
  rw [List.mem_toFinset] at fresh
  rcases handle_get_noderegister_refines registry name
    with ⟨after, status, finishes, control, afterRegistry, -⟩
  have joined :
      after.control.barrier = server.control.barrier.join name := by
    rw [control, Control.register, if_neg (by simp [notFull, fresh]),
      Control.barrier_openWhenFull]
  refine ⟨name, status, after, ?_, afterRegistry, ?_, ?_, joined⟩
  · rw [Serves, serve, finishes]
    rfl
  · rw [Control.Finished, control, Control.interactioncycle_register,
      Control.round_register]
    exact finished
  · rw [control, Control.clientnodes_register]

/-- An incomplete registry can be filled with nodes which have sent nothing. -/
theorem exists_full_of_room (platform : Platform) (room : ℕ)
    (registry : server.Registry)
    (finished : server.control.Finished)
    (missing :
      server.control.clientnodes = server.control.names.length + (room + 1)) :
    ∃ later after name, Path (Serves platform) server later after ∧
      after.Registry ∧ after.control.Finished ∧ after.control.Full ∧
      ⟨name, 0⟩ ∈ after.control.barrier.members ∧
      after.control.barrier.round = server.control.barrier.round := by
  induction room generalizing server with
  | zero =>
      have notFull : ¬ server.control.Full := by
        rw [Control.Full, missing]
        simp
      rcases exists_registration platform registry finished notFull
        with ⟨name, status, after, serves, afterRegistry, afterFinished,
          sameClients, joined⟩
      refine ⟨_, after, name, .single serves, afterRegistry, afterFinished,
        ?_, ?_, ?_⟩
      · rw [Control.Full, Control.names, joined, sameClients, missing,
          Barrier.names_join]
        simp [Control.names]
      · rw [joined]
        simp [Barrier.join]
      · rw [joined]
        rfl
  | succ room inductionHypothesis =>
      have notFull : ¬ server.control.Full := by
        rw [Control.Full, missing]
        push_cast
        linarith
      rcases exists_registration platform registry finished notFull
        with ⟨name, status, next, serves, nextRegistry, nextFinished,
          sameClients, joined⟩
      have nextMissing :
          next.control.clientnodes =
            next.control.names.length + (room + 1) := by
        have longer : next.control.names = server.control.names ++ [name] := by
          rw [Control.names, joined, Barrier.names_join]
          rfl
        rw [sameClients, missing, longer, List.length_append,
          List.length_singleton]
        push_cast
        ring
      rcases inductionHypothesis nextRegistry nextFinished nextMissing
        with ⟨later, after, last, path, afterRegistry, afterFinished, full,
          member, sameRound⟩
      refine ⟨_, after, last, .cons serves path, afterRegistry, afterFinished,
        full, member, ?_⟩
      rw [sameRound, joined]
      rfl

/-- A full registry with a node which is not ahead leads to another poll. -/
theorem exists_poll_of_behind {text : List Char} {model : DecodedModel ℚ}
    (decoded : platform.decode text = some model) {member : Member String}
    (registry : server.Registry) (finished : server.control.Finished)
    (full : server.control.Full)
    (isMember : member ∈ server.control.barrier.members)
    (behind : member.count ≤ server.control.barrier.round) :
    ∃ name later after, Path (Serves platform) server later after ∧
      (.poll name, .status 1) ∈ later := by
  rcases Int.le.dest behind with ⟨missing, distance⟩
  have entry :
      member = ⟨member.name, server.control.barrier.round - missing⟩ := by
    rw [← distance, add_sub_cancel_right]
  rw [entry] at isMember
  rcases exists_awaited_of_behind decoded missing registry finished full
      isMember
    with ⟨early, middle, catchUp, middleRegistry, middleFull, awaited⟩
  rcases exists_poll_of_awaited middleRegistry middleFull awaited
    with ⟨late, after, path, polled⟩
  exact ⟨member.name, early ++ late, after, catchUp.append path,
    List.mem_append_right _ polled⟩

/-- A server which stays quiet has been outrun by all of its nodes. -/
theorem outrun_of_quiet {text : List Char} {model : DecodedModel ℚ}
    (decoded : platform.decode text = some model)
    (registry : server.Registry) (finished : server.control.Finished)
    (started : 0 ≤ server.control.barrier.round)
    (quiet : ∀ later after,
      Path (Serves platform) server later after → Quiet server later after) :
    Outrun server.control := by
  have full : server.control.Full := by
    by_contra notFull
    have fewer := lt_of_le_of_ne registry.bounded notFull
    rcases Int.le.dest (Int.add_one_le_of_lt fewer) with ⟨room, distance⟩
    rcases exists_full_of_room platform room registry finished
        (by linarith)
      with ⟨early, middle, name, fill, middleRegistry, middleFinished,
        middleFull, member, sameRound⟩
    rcases exists_poll_of_behind decoded middleRegistry middleFinished
        middleFull member (by rw [sameRound]; exact started)
      with ⟨other, late, after, path, polled⟩
    exact (quiet _ _ (fill.append path)).polls other
      (List.mem_append_right _ polled)
  refine ⟨full, ?_⟩
  intro member isMember
  by_contra notAhead
  rcases exists_poll_of_behind decoded registry finished full isMember
      (not_lt.mp notAhead)
    with ⟨name, later, after, path, polled⟩
  exact (quiet later after path).polls name polled

/--
After the last round of any run no request changes the round, the networks or
the counter sum, and no poll is answered with status 1, exactly when all
clients are registered and each of them has sent more models than there were
rounds.
-/
theorem quiet_after_last_round_iff
    {start : FederatedLearning} {earlier : List Exchange}
    (fresh : start.Fresh shape)
    (run : Path (Serves platform) start earlier server)
    (finished :
      server.nodecontrol.interactioncycle ≤
        server.nodecontrol.currentinteraction)
    (sendable : ∃ text, (platform.decode text).isSome) :
    (∀ later after,
        Path (Serves platform) server later after →
          Quiet server later after) ↔
      server.nodecontrol.clientnodesregistered =
          server.nodecontrol.clientnodes ∧
        ∀ node ∈ server.nodes,
          server.nodecontrol.currentinteraction < node.interaction := by
  have registry := registry_of_run run fresh.registry
  have started : 0 ≤ server.control.barrier.round := by
    rw [← fresh.firstRound]
    exact round_le_of_run run fresh.registry
  have control :
      Outrun server.control ↔
        server.nodecontrol.clientnodesregistered =
            server.nodecontrol.clientnodes ∧
          ∀ node ∈ server.nodes,
            server.nodecontrol.currentinteraction < node.interaction := by
    rw [Outrun, registry.full_iff]
    exact and_congr_right fun _ => List.forall_mem_map
  rw [← control]
  constructor
  · intro quiet
    rcases sendable with ⟨text, someModel⟩
    rcases Option.isSome_iff_exists.mp someModel with ⟨model, decoded⟩
    exact outrun_of_quiet decoded registry finished started quiet
  · intro outrun later after path
    exact outrun.quiet path registry finished

/-- The sample server after its only round. -/
def samplePublished : FederatedLearning :=
  (submitModel samplePlatform (sampleRegistered 1) sampleAddress
    sampleModel).toOption.getD (sampleRegistered 1)

theorem run_samplePublished :
    Path (Serves samplePlatform) (sampleStart 1 1)
      [(.register sampleAddress, .registration .added),
        (.message sampleAddress sampleText, .nothing)]
      samplePublished := by
  have submitted :
      submitModel samplePlatform (sampleRegistered 1) sampleAddress sampleModel =
        .ok samplePublished := by
    decide +kernel
  have registers :
      Serves samplePlatform (sampleStart 1 1)
        (.register sampleAddress, .registration .added) (sampleRegistered 1) :=
    rfl
  refine .cons registers (.single ?_)
  rw [Serves, serve, handle_clint_model_message_decoded decode_sampleText,
    submitted]
  rfl

theorem quiet_after_last_round_iff_sample :
    (∀ later after,
        Path (Serves samplePlatform) samplePublished later after →
          Quiet samplePublished later after) ↔
      samplePublished.nodecontrol.clientnodesregistered =
          samplePublished.nodecontrol.clientnodes ∧
        ∀ node ∈ samplePublished.nodes,
          samplePublished.nodecontrol.currentinteraction < node.interaction :=
  quiet_after_last_round_iff (fresh_sampleStart 1 (by decide))
    run_samplePublished (by decide +kernel)
    ⟨sampleText, by rw [decode_sampleText]; rfl⟩

/-- After the only round of the sample the client is sent off once more. -/
theorem sent_off_after_last_round :
    ∃ server after,
      Path (Serves samplePlatform) (sampleStart 1 1)
          [(.register sampleAddress, .registration .added),
            (.message sampleAddress sampleText, .nothing)] server ∧
        server.nodecontrol.interactioncycle ≤
          server.nodecontrol.currentinteraction ∧
        Path (Serves samplePlatform) server
          [(.poll sampleAddress, .status 1)] after := by
  have polled :
      handle_get_checkmodelstatus samplePublished sampleAddress = .ok 1 := by
    decide +kernel
  refine ⟨samplePublished, samplePublished, run_samplePublished,
    by decide +kernel, .single ?_⟩
  rw [Serves, serve, polled]
  rfl

end FederatedEdge.Federation
