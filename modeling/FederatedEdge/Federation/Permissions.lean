import FederatedEdge.Federation.AfterLastRound
import FederatedEdge.Federation.ConfiguredForms
import FederatedEdge.Server.Reachable

/-!
# Clients which submit with permission

A poll answered with 1 permits its client one submission.  When clients submit
only with permission, the rounds of the server are a barrier: all counters
stay within one of the round, the round advances only with the submission of the
last awaited client, and while a client has a permission neither the round nor
the global network changes.  The round does advance with that submission exactly
when it can be closed.
-/

namespace FederatedEdge.Federation

open FederatedEdge.Library
open FederatedEdge.Network
open FederatedEdge.Json
open FederatedEdge.Server
open FederatedEdge.Server.FederatedLearning

/-- A server and the clients whose permission has not been used yet. -/
structure Supervised where
  server : FederatedLearning
  permitted : Set String

/-- Any requests, except that models are complete and sent with permission. -/
inductive Disciplined (platform : Platform) (shape : Shape) :
    Supervised → Exchange → Supervised → Prop where
  | register {server after permitted ip_addr reply}
      (serves : Serves platform server (.register ip_addr, reply) after) :
      Disciplined platform shape ⟨server, permitted⟩
        (.register ip_addr, reply) ⟨after, permitted⟩
  | granted {server after permitted ip_addr}
      (serves : Serves platform server (.poll ip_addr, .status 1) after) :
      Disciplined platform shape ⟨server, permitted⟩
        (.poll ip_addr, .status 1) ⟨after, insert ip_addr permitted⟩
  | refused {server after permitted ip_addr}
      (serves : Serves platform server (.poll ip_addr, .status 0) after) :
      Disciplined platform shape ⟨server, permitted⟩
        (.poll ip_addr, .status 0) ⟨after, permitted⟩
  | download {server after permitted reply}
      (serves : Serves platform server (.download, reply) after) :
      Disciplined platform shape ⟨server, permitted⟩
        (.download, reply) ⟨after, permitted⟩
  | submit {server after permitted ip_addr text reply}
      (permission : ip_addr ∈ permitted)
      (complete : platform.Carries shape text)
      (serves : Serves platform server (.message ip_addr text, reply) after) :
      Disciplined platform shape ⟨server, permitted⟩
        (.message ip_addr text, reply) ⟨after, permitted \ {ip_addr}⟩

/-- The invariant of the server together with the permissions. -/
structure Orderly (shape : Shape) (state : Supervised) : Prop where
  registry : state.server.Registry
  models : state.server.Models shape
  inStep : state.server.control.barrier.InStep
  firstRound :
    ¬ state.server.control.Full → state.server.control.barrier.round = 0
  available : state.server.control.Full → ¬ state.server.control.Finished →
    state.server.control.globalmodelstatus ≠ 0
  complete : ∀ name ∈ state.permitted, state.server.control.Full
  awaited : ∀ name ∈ state.permitted,
    state.server.control.barrier.Awaited name

/-- The node which is alone at the current interaction. -/
def LastAwaited (server : FederatedLearning) (ip_addr : String) : Prop :=
  ∀ node ∈ server.nodes,
    node.interaction = server.nodecontrol.currentinteraction →
      node.ip_id = ip_addr

instance (server : FederatedLearning) (ip_addr : String) :
    Decidable (LastAwaited server ip_addr) := by
  unfold LastAwaited
  infer_instance

/-- The exchange is the submission of the last awaited node. -/
def Closes (server : FederatedLearning) (exchange : Exchange) : Prop :=
  ∃ ip_addr text, exchange.1 = .message ip_addr text ∧
    LastAwaited server ip_addr

variable {platform : Platform} {shape : Shape} {server after : FederatedLearning}
  {state next : Supervised} {ip_addr : String} {text : List Char}

theorem lastAwaited_iff (server : FederatedLearning) (ip_addr : String) :
    LastAwaited server ip_addr ↔
      ∀ other, server.control.barrier.Awaited other → other = ip_addr := by
  constructor
  · intro last other awaited
    rcases (awaited_control_iff server other).mp awaited
      with ⟨node, isNode, rfl, current⟩
    exact last node isNode current
  · intro last node isNode current
    exact last node.ip_id
      ((awaited_control_iff server node.ip_id).mpr ⟨node, isNode, rfl, current⟩)

/-! ## A submission with permission -/

/-- What a submission of an awaited node does before the last round ends. -/
structure Submitted (shape : Shape) (ip_addr : String)
    (server after : FederatedLearning) : Prop where
  registry : after.Registry
  models : after.Models shape
  control : after.control = server.control.accept ip_addr
  kept : server.control.Finished ∨ ¬ LastAwaited server ip_addr →
    after.neuralnetwork = server.neuralnetwork

/-- Nobody is awaited after the submission of the last awaited node. -/
theorem pending_bump_iff_not_lastAwaited
    (inStep : server.control.barrier.InStep) (ip_addr : String) :
    (server.control.barrier.bump ip_addr).Pending ↔
      ¬ LastAwaited server ip_addr := by
  rw [Barrier.pending_iff, lastAwaited_iff, not_forall]
  simp only [Barrier.awaited_bump_iff inStep, Classical.not_imp]

/-- A complete model from an awaited node, if the server finishes with it. -/
theorem submitted_of_finishes {model : DecodedModel ℚ}
    (registry : server.Registry) (models : server.Models shape)
    (inStep : server.control.barrier.InStep)
    (complete : model.Complete shape)
    (finishes : submitModel platform server ip_addr model = .ok after) :
    Submitted shape ip_addr server after := by
  rcases submitModel_control registry finishes
    with ⟨known, afterRegistry, control⟩
  by_cases finished : server.control.Finished
  · rcases submitModel_finished model registry known finished
      with ⟨result, runs, same⟩
    rcases Exec.result_unique finishes runs with rfl
    exact ⟨afterRegistry, same.models models, control,
      fun _ => same.neuralnetwork⟩
  · by_cases pending : (server.control.barrier.bump ip_addr).Pending
    · rcases submitModel_absorbs platform registry models known complete finished
          pending
        with ⟨result, runs, absorbed⟩
      rcases Exec.result_unique finishes runs with rfl
      exact ⟨afterRegistry, absorbed.models, control,
        fun _ => absorbed.neuralnetwork⟩
    · rcases closed_of_submitModel registry models known complete finished pending
          finishes
        with ⟨closed, -⟩
      refine ⟨afterRegistry, closed.models, control, ?_⟩
      rw [pending_bump_iff_not_lastAwaited inStep] at pending
      rintro (ended | notLast)
      · exact (finished ended).elim
      · exact (pending notLast).elim

/-! ## The invariant of the steps -/

theorem Orderly.register
    {permitted : Set String} {reply : Reply}
    (orderly : Orderly shape ⟨server, permitted⟩)
    (serves : Serves platform server (.register ip_addr, reply) after) :
    Orderly shape ⟨after, permitted⟩ := by
  rcases serves_register orderly.registry serves
    with ⟨registry, control, same⟩
  by_cases full : server.control.Full
  · rw [Control.register, if_pos (Or.inl full)] at control
    have barrier : after.control.barrier = server.control.barrier := by
      rw [control, Control.barrier_openWhenFull]
    have afterFull : after.control.Full := by
      rw [control]
      exact (Control.full_openWhenFull_iff _).mpr full
    refine ⟨registry, same.models orderly.models, ?_,
      fun notFull => (notFull afterFull).elim, ?_, fun _ _ => afterFull, ?_⟩
    · rw [barrier]
      exact orderly.inStep
    · intro _ _
      rw [control, Control.status_openWhenFull full]
      exact one_ne_zero
    · rw [barrier]
      exact orderly.awaited
  · have nobody : ∀ name, name ∉ permitted :=
      fun name permission => full (orderly.complete name permission)
    have firstRound := orderly.firstRound full
    have afterRound : after.control.barrier.round = 0 := by
      rw [control, Control.round_register]
      exact firstRound
    refine ⟨registry, same.models orderly.models, ?_,
      fun _ => afterRound, ?_,
      fun name permission => (nobody name permission).elim,
      fun name permission => (nobody name permission).elim⟩
    · rw [control, Control.register]
      by_cases known : ip_addr ∈ server.control.names
      · rw [if_pos (Or.inr known), Control.barrier_openWhenFull]
        exact orderly.inStep
      · rw [if_neg (by simp [full, known]), Control.barrier_openWhenFull]
        exact orderly.inStep.join firstRound known
    · intro afterFull _
      rw [control, Control.register] at afterFull ⊢
      by_cases known : ip_addr ∈ server.control.names
      · rw [if_pos (Or.inr known)] at afterFull
        exact (full ((Control.full_openWhenFull_iff _).mp afterFull)).elim
      · rw [if_neg (by simp [full, known])] at afterFull ⊢
        rw [Control.status_openWhenFull
          ((Control.full_openWhenFull_iff _).mp afterFull)]
        exact one_ne_zero

theorem Orderly.granted
    {permitted : Set String}
    (orderly : Orderly shape ⟨server, permitted⟩)
    (ready : server.control.Ready ip_addr) :
    Orderly shape ⟨server, insert ip_addr permitted⟩ := by
  refine ⟨orderly.registry, orderly.models, orderly.inStep, orderly.firstRound,
    orderly.available, fun _ _ => ready.1, ?_⟩
  intro name permission
  rcases permission with rfl | permission
  · exact ready.2.1
  · exact orderly.awaited name permission

section Accept

variable {control : Control} {name other waiting : String}

/-- The submission of the last awaited node begins the next round. -/
theorem accept_of_last (inStep : control.barrier.InStep)
    (unfinished : ¬ control.Finished)
    (last : ∀ waiting, control.barrier.Awaited waiting → waiting = name) :
    (control.accept name).barrier = (control.barrier.bump name).advance := by
  rw [Control.accept_of_unfinished unfinished]
  exact Barrier.arrive_of_last inStep last

/-- Any other submission of the round only counts. -/
theorem accept_of_other (inStep : control.barrier.InStep)
    (awaited : control.barrier.Awaited waiting) (different : waiting ≠ name) :
    (control.accept name).barrier = control.barrier.bump name := by
  by_cases finished : control.Finished
  · rw [Control.accept_of_finished finished]
  · rw [Control.accept_of_unfinished finished]
    exact Barrier.arrive_of_other inStep awaited different

theorem inStep_accept (inStep : control.barrier.InStep)
    (awaited : control.barrier.Awaited name) :
    (control.accept name).barrier.InStep := by
  by_cases finished : control.Finished
  · rw [Control.accept_of_finished finished]
    exact inStep.bump awaited
  · rw [Control.accept_of_unfinished finished]
    exact inStep.arrive awaited

end Accept

/-- A submission uses up the permission and keeps the invariant. -/
theorem Orderly.submit
    {permitted : Set String} {model : DecodedModel ℚ}
    (orderly : Orderly shape ⟨server, permitted⟩)
    (permission : ip_addr ∈ permitted) (complete : model.Complete shape)
    (finishes : submitModel platform server ip_addr model = .ok after) :
    Orderly shape ⟨after, permitted \ {ip_addr}⟩ := by
  have awaited := orderly.awaited ip_addr permission
  have full := orderly.complete ip_addr permission
  have submitted :=
    submitted_of_finishes orderly.registry orderly.models orderly.inStep complete
      finishes
  have control := submitted.control
  have afterFull : after.control.Full := by
    rw [control, Control.Full, Control.names_accept, Control.clientnodes_accept]
    exact full
  refine ⟨submitted.registry, submitted.models, ?_,
    fun notFull => (notFull afterFull).elim, ?_, fun _ _ => afterFull, ?_⟩
  · rw [control]
    exact inStep_accept orderly.inStep awaited
  · intro _ unfinished
    rw [control] at unfinished ⊢
    by_cases finished : server.control.Finished
    · rw [Control.accept_of_finished finished] at unfinished
      exact (unfinished finished).elim
    · rw [Control.accept_of_unfinished finished]
      exact one_ne_zero
  · rintro name ⟨namePermission, different⟩
    have nameAwaited := orderly.awaited name namePermission
    rw [control, accept_of_other orderly.inStep nameAwaited different]
    exact (Barrier.awaited_bump_iff orderly.inStep).mpr
      ⟨nameAwaited, different⟩

/-- Every disciplined step keeps the invariant. -/
theorem Orderly.step {exchange : Exchange}
    (orderly : Orderly shape state)
    (step : Disciplined platform shape state exchange next) :
    Orderly shape next := by
  cases step with
  | register serves => exact orderly.register serves
  | granted serves =>
      rcases serves_poll orderly.registry serves with ⟨rfl, answer⟩
      apply orderly.granted
      by_contra notReady
      rw [if_neg notReady] at answer
      simp at answer
  | refused serves =>
      rcases serves_poll orderly.registry serves with ⟨rfl, -⟩
      exact orderly
  | download serves =>
      rcases serves_download serves with rfl
      exact orderly
  | submit permission complete serves =>
      rcases serves_carried complete serves with ⟨model, complete, finishes⟩
      exact orderly.submit permission complete finishes

/-- A fresh server, which waits for clients, has given no permission. -/
theorem Orderly.of_fresh
    (fresh : server.Fresh shape) (clients : 1 ≤ server.nodecontrol.clientnodes) :
    Orderly shape ⟨server, ∅⟩ := by
  have notFull : ¬ server.control.Full := by
    rw [Control.Full, fresh.empty]
    show ¬ ((0 : ℕ) : ℤ) = server.nodecontrol.clientnodes
    push_cast
    linarith
  refine ⟨fresh.registry, fresh.models, ⟨fresh.registry.distinct, ?_⟩,
    fun _ => fresh.firstRound, fun full => (notFull full).elim, ?_, ?_⟩
  · have nobody : server.control.barrier.members = [] :=
      List.map_eq_nil_iff.mp fresh.empty
    intro member isMember
    rw [nobody] at isMember
    cases isMember
  · rintro name ⟨⟩
  · rintro name ⟨⟩

/-- The invariant holds in every state of a disciplined run. -/
theorem Orderly.of_run {exchanges : List Exchange}
    (run : Path (Disciplined platform shape) state exchanges next)
    (orderly : Orderly shape state) :
    Orderly shape next := by
  refine run.invariant (Orderly shape) ?_ orderly
  intro source exchange target step sourceOrderly
  exact sourceOrderly.step step

/-! ## The rounds as a barrier -/

/-- The message of a step with permission comes from an awaited node. -/
theorem Orderly.message_of_step {reply : Reply}
    (orderly : Orderly shape state)
    (step : Disciplined platform shape state (.message ip_addr text, reply) next) :
    state.server.control.barrier.Awaited ip_addr ∧
      Submitted shape ip_addr state.server next.server := by
  cases step with
  | submit permission complete serves =>
      rcases serves_carried complete serves with ⟨model, complete, finishes⟩
      exact ⟨orderly.awaited ip_addr permission,
        submitted_of_finishes orderly.registry orderly.models orderly.inStep
          complete finishes⟩

/-- The closing submission advances the round by one. -/
theorem Orderly.round_of_closes {exchange : Exchange}
    (orderly : Orderly shape state)
    (step : Disciplined platform shape state exchange next)
    (unfinished : ¬ state.server.control.Finished)
    (closes : Closes state.server exchange) :
    next.server.nodecontrol.currentinteraction =
      state.server.nodecontrol.currentinteraction + 1 := by
  rcases exchange with ⟨request, reply⟩
  rcases closes with ⟨ip_addr, text, rfl, last⟩
  rcases orderly.message_of_step step with ⟨-, submitted⟩
  show next.server.control.barrier.round = _
  rw [submitted.control, accept_of_last orderly.inStep unfinished
    ((lastAwaited_iff _ _).mp last)]
  rfl

/-- Any other step keeps the round and the global network. -/
theorem Orderly.kept_of_step {exchange : Exchange}
    (orderly : Orderly shape state)
    (step : Disciplined platform shape state exchange next)
    (stays : state.server.control.Finished ∨ ¬ Closes state.server exchange) :
    next.server.nodecontrol.currentinteraction =
        state.server.nodecontrol.currentinteraction ∧
      next.server.neuralnetwork = state.server.neuralnetwork := by
  rcases exchange with ⟨request, reply⟩
  cases request with
  | register ip_addr =>
      cases step with
      | register serves =>
          rcases serves_register orderly.registry serves
            with ⟨-, control, same⟩
          refine ⟨?_, same.neuralnetwork⟩
          have round := congrArg (fun control => control.barrier.round) control
          rwa [Control.round_register] at round
  | poll ip_addr =>
      cases step with
      | granted serves =>
          rcases serves_poll orderly.registry serves with ⟨rfl, -⟩
          exact ⟨rfl, rfl⟩
      | refused serves =>
          rcases serves_poll orderly.registry serves with ⟨rfl, -⟩
          exact ⟨rfl, rfl⟩
  | download =>
      cases step with
      | download serves =>
          rcases serves_download serves with rfl
          exact ⟨rfl, rfl⟩
  | message ip_addr text =>
      rcases orderly.message_of_step step with ⟨-, submitted⟩
      have notLast : state.server.control.Finished ∨
          ¬ LastAwaited state.server ip_addr :=
        stays.imp_right fun open_ last => open_ ⟨ip_addr, text, rfl, last⟩
      refine ⟨?_, submitted.kept notLast⟩
      show next.server.control.barrier.round = _
      rw [submitted.control]
      by_cases finished : state.server.control.Finished
      · rw [Control.accept_of_finished finished]
        rfl
      · have more := notLast.resolve_left finished
        rw [lastAwaited_iff] at more
        rcases not_forall.mp more with ⟨other, someone⟩
        rcases Classical.not_imp.mp someone with ⟨awaited, different⟩
        rw [accept_of_other orderly.inStep awaited different]
        rfl

/-- A permission which is not used persists and holds the round open. -/
theorem Orderly.permitted_of_step {exchange : Exchange}
    (orderly : Orderly shape state)
    (permission : ip_addr ∈ state.permitted)
    (step : Disciplined platform shape state exchange next)
    (unused : ∀ text, exchange.1 ≠ .message ip_addr text) :
    ip_addr ∈ next.permitted ∧ ¬ Closes state.server exchange := by
  have awaited := orderly.awaited ip_addr permission
  constructor
  · cases step with
    | register _ => exact permission
    | granted _ => exact Set.mem_insert_of_mem _ permission
    | refused _ => exact permission
    | download _ => exact permission
    | @submit _ _ _ sender text _ _ _ _ =>
        refine ⟨permission, ?_⟩
        rintro rfl
        exact unused text rfl
  · rintro ⟨sender, text, isMessage, last⟩
    have same := (lastAwaited_iff _ _).mp last ip_addr awaited
    subst same
    exact unused text isMessage

/-- While a permission is unused the round and the global network stay. -/
theorem Orderly.kept_of_run {exchanges : List Exchange}
    (run : Path (Disciplined platform shape) state exchanges next)
    (orderly : Orderly shape state)
    (permission : ip_addr ∈ state.permitted)
    (unused : ∀ text reply, (.message ip_addr text, reply) ∉ exchanges) :
    next.server.nodecontrol.currentinteraction =
        state.server.nodecontrol.currentinteraction ∧
      next.server.neuralnetwork = state.server.neuralnetwork := by
  induction run with
  | nil => exact ⟨rfl, rfl⟩
  | @cons source exchange middle exchanges target head tail inductionHypothesis =>
      have notHere : ∀ text, exchange.1 ≠ .message ip_addr text := by
        intro text isMessage
        apply unused text exchange.2
        rw [← isMessage]
        exact List.mem_cons_self
      rcases orderly.permitted_of_step permission head notHere
        with ⟨still, notClosing⟩
      rcases orderly.kept_of_step head (Or.inr notClosing)
        with ⟨sameRound, sameGlobal⟩
      rcases inductionHypothesis (orderly.step head) still
          (fun text reply member =>
            unused text reply (List.mem_cons_of_mem _ member))
        with ⟨laterRound, laterGlobal⟩
      exact ⟨laterRound.trans sameRound, laterGlobal.trans sameGlobal⟩

/-! ## Which submissions with permission are served -/

/-- A disciplined step is one of the server. -/
theorem Disciplined.serves {exchange : Exchange}
    (step : Disciplined platform shape state exchange next) :
    Serves platform state.server exchange next.server := by
  cases step <;> assumption

/-- The networks in every state of a disciplined run. -/
theorem sized_of_run {start : FederatedLearning} {exchanges : List Exchange}
    (fresh : start.Fresh shape) (counted : start.accumulator.Counted)
    (run : Path (Disciplined platform shape) ⟨start, ∅⟩ exchanges state) :
    Sized shape state.server := by
  refine run.invariant (fun reached => Sized shape reached.server) ?_
    ⟨.of_fresh fresh, counted⟩
  intro source exchange target step sized
  exact sized.serve step.serves

/-- A permitted submission is served unless it has to close the round in vain. -/
theorem Orderly.served_iff (orderly : Orderly shape state)
    (sized : Sized shape state.server)
    (unfinished : ¬ state.server.control.Finished)
    (permission : ip_addr ∈ state.permitted)
    (carries : platform.Carries shape text) :
    (∃ next, Disciplined platform shape state
        (.message ip_addr text, .nothing) next) ↔
      (LastAwaited state.server ip_addr →
        CanCloseRound platform state.server) := by
  have known := (orderly.awaited ip_addr permission).mem_names
  rcases carries with ⟨model, decoded, complete⟩
  have finishes :=
    sized.submit_finishes_iff platform known complete
  rw [or_iff_right unfinished,
    pending_bump_iff_not_lastAwaited orderly.inStep, ← imp_iff_not_or]
    at finishes
  rw [← finishes]
  constructor
  · rintro ⟨next, step⟩
    rcases serves_message orderly.registry step.serves
      with ⟨undecoded, -⟩ | ⟨other, sameDecoded, runs⟩
    · rw [decoded] at undecoded
      cases undecoded
    · rw [decoded, Option.some.injEq] at sameDecoded
      subst sameDecoded
      exact ⟨next.server, runs⟩
  · rintro ⟨after, runs⟩
    refine ⟨⟨after, state.permitted \ {ip_addr}⟩,
      .submit permission ⟨model, decoded, complete⟩ ?_⟩
    rw [Serves, serve, handle_clint_model_message_decoded decoded, runs]
    rfl

/-! ## A barrier -/

/--
All counters are within one of the round once all clients are registered;
permitted submissions are served while another node is awaited; the round
advances by one with the submission of the last awaited node, if the server
finishes with it, and with no other step; and from a poll answered with 1 to the
submission neither the round nor the biases and weights of the global network
change.
-/
structure InOrder (platform : Platform) (shape : Shape) (state : Supervised) :
    Prop where
  counters :
    state.server.nodecontrol.clientnodesregistered =
        state.server.nodecontrol.clientnodes →
      ∀ node ∈ state.server.nodes,
        node.interaction = state.server.nodecontrol.currentinteraction ∨
          node.interaction = state.server.nodecontrol.currentinteraction + 1
  absorbs : ∀ ip_addr ∈ state.permitted, ¬ LastAwaited state.server ip_addr →
    ∀ text, platform.Carries shape text →
      ∃ next, Disciplined platform shape state
        (.message ip_addr text, .nothing) next
  stays : ∀ exchange next, Disciplined platform shape state exchange next →
    (Closes state.server exchange →
        next.server.nodecontrol.currentinteraction =
          state.server.nodecontrol.currentinteraction + 1) ∧
      (¬ Closes state.server exchange →
        next.server.nodecontrol.currentinteraction =
          state.server.nodecontrol.currentinteraction)
  kept : ∀ ip_addr next,
    Disciplined platform shape state (.poll ip_addr, .status 1) next →
      ∀ later final,
        Path (Disciplined platform shape) next later final →
          (∀ text reply, (.message ip_addr text, reply) ∉ later) →
            final.server.nodecontrol.currentinteraction =
                state.server.nodecontrol.currentinteraction ∧
              final.server.neuralnetwork.parameters =
                state.server.neuralnetwork.parameters

/--
The rounds are a barrier: besides, the submission of the last awaited node does
advance the round.
-/
structure IsBarrier (platform : Platform) (shape : Shape) (state : Supervised) :
    Prop extends InOrder platform shape state where
  advances : ∀ ip_addr ∈ state.permitted, LastAwaited state.server ip_addr →
    ∀ text, platform.Carries shape text →
      ∃ next, Disciplined platform shape state
          (.message ip_addr text, .nothing) next ∧
        next.server.nodecontrol.currentinteraction =
          state.server.nodecontrol.currentinteraction + 1

section Barrier

variable (orderly : Orderly shape state) (sized : Sized shape state.server)
  (unfinished : ¬ state.server.control.Finished)

include orderly sized unfinished

theorem Orderly.inOrder : InOrder platform shape state := by
  refine ⟨?_, ?_, ?_, ?_⟩
  · intro _ node isNode
    exact orderly.inStep.counts node.member (List.mem_map_of_mem isNode)
  · intro ip_addr permission notLast text carries
    exact (orderly.served_iff sized unfinished permission carries).mpr
      fun last => (notLast last).elim
  · intro exchange next step
    exact ⟨orderly.round_of_closes step unfinished,
      fun notClosing => (orderly.kept_of_step step (Or.inr notClosing)).1⟩
  · intro ip_addr next step later final path unused
    have polled : next.server = state.server ∧ ip_addr ∈ next.permitted := by
      cases step with
      | granted serves =>
          rcases serves_poll orderly.registry serves with ⟨rfl, -⟩
          exact ⟨rfl, Set.mem_insert _ _⟩
    rcases Orderly.kept_of_run path (orderly.step step) polled.2 unused
      with ⟨sameRound, sameGlobal⟩
    rw [sameRound, sameGlobal, polled.1]
    exact ⟨rfl, rfl⟩

/-- Only the submission of the last awaited node may be missing to a barrier. -/
theorem Orderly.isBarrier_iff :
    IsBarrier platform shape state ↔
      ∀ ip_addr ∈ state.permitted, LastAwaited state.server ip_addr →
        (∃ text, platform.Carries shape text) →
          CanCloseRound platform state.server := by
  constructor
  · rintro barrier ip_addr permission last ⟨text, carries⟩
    rcases barrier.advances ip_addr permission last text carries
      with ⟨next, step, -⟩
    exact (orderly.served_iff sized unfinished permission carries).mp
      ⟨next, step⟩ last
  · intro canClose
    refine ⟨orderly.inOrder sized unfinished, ?_⟩
    intro ip_addr permission last text carries
    rcases (orderly.served_iff sized unfinished permission carries).mpr
        fun _ => canClose ip_addr permission last ⟨text, carries⟩
      with ⟨next, step⟩
    exact ⟨next, step,
      orderly.round_of_closes step unfinished ⟨ip_addr, text, rfl, last⟩⟩

end Barrier

/--
In every state of a disciplined run from a fresh and counted server, before the
last round ends, the steps are in order; and the rounds are a barrier exactly when
the last awaited node, if it is permitted to submit a model, does so in a round
which can be closed.
-/
theorem rounds_are_a_barrier
    {start : FederatedLearning} {earlier : List Exchange}
    (fresh : start.Fresh shape) (counted : start.accumulator.Counted)
    (clients : 1 ≤ start.nodecontrol.clientnodes)
    (run : Path (Disciplined platform shape) ⟨start, ∅⟩ earlier state)
    (running :
      state.server.nodecontrol.currentinteraction <
        state.server.nodecontrol.interactioncycle) :
    InOrder platform shape state ∧
      (IsBarrier platform shape state ↔
        ∀ ip_addr ∈ state.permitted, LastAwaited state.server ip_addr →
          (∃ text, platform.Carries shape text) →
            CanCloseRound platform state.server) := by
  have orderly : Orderly shape state :=
    Orderly.of_run run (Orderly.of_fresh fresh clients)
  have sized := sized_of_run fresh counted run
  have unfinished : ¬ state.server.control.Finished := not_le.mpr running
  exact ⟨orderly.inOrder sized unfinished,
    orderly.isBarrier_iff sized unfinished⟩

/-! ## Clients which are alone -/

section Alone

variable {permitted : Set String}

/-- The sample client polls and is told to train. -/
theorem polls_of_ready
    (polled : handle_get_checkmodelstatus server sampleAddress = .ok 1) :
    Disciplined platform shape ⟨server, permitted⟩
      (.poll sampleAddress, .status 1)
      ⟨server, insert sampleAddress permitted⟩ := by
  apply Disciplined.granted
  rw [Serves, serve, polled]
  rfl

/-- It submits with its permission. -/
theorem submits_of_handled (permission : sampleAddress ∈ permitted)
    (carries : platform.Carries shape text)
    (handled :
      handle_clint_model_message platform server text text.length
        sampleAddress = .ok after) :
    Disciplined platform shape ⟨server, permitted⟩
      (.message sampleAddress text, .nothing)
      ⟨after, permitted \ {sampleAddress}⟩ := by
  apply Disciplined.submit permission carries
  rw [Serves, serve, handled]
  rfl

/-- Registering, training and submitting lead to the second permission. -/
theorem secondRound_of_handled {start registered : FederatedLearning}
    (registers :
      Serves platform start (.register sampleAddress, .registration .added)
        registered)
    (polled : handle_get_checkmodelstatus registered sampleAddress = .ok 1)
    (carries : platform.Carries shape text)
    (handled :
      handle_clint_model_message platform registered text text.length
        sampleAddress = .ok after)
    (polledAgain : handle_get_checkmodelstatus after sampleAddress = .ok 1) :
    ∃ state : Supervised, state.server = after ∧
      sampleAddress ∈ state.permitted ∧
        Path (Disciplined platform shape) ⟨start, ∅⟩
          [(.register sampleAddress, .registration .added),
            (.poll sampleAddress, .status 1),
            (.message sampleAddress text, .nothing),
            (.poll sampleAddress, .status 1)]
          state := by
  have submits :=
    submits_of_handled (Set.mem_insert sampleAddress ∅) carries handled
  exact ⟨_, rfl, Set.mem_insert _ _,
    .cons (.register registers) <| .cons (polls_of_ready polled) <|
      .cons submits <| .single (polls_of_ready polledAgain)⟩

end Alone

/-- The sample server after the first of two rounds. -/
def sampleSecondRound : FederatedLearning :=
  (handle_clint_model_message samplePlatform (sampleRegistered 2) sampleText
    sampleText.length sampleAddress).toOption.getD (sampleRegistered 2)

/-- In the second round of the sample the submission of the only client counts. -/
theorem rounds_are_a_barrier_sample :
    ∃ state : Supervised,
      state.server.nodecontrol.currentinteraction = 1 ∧
        sampleAddress ∈ state.permitted ∧
        LastAwaited state.server sampleAddress ∧
        IsBarrier samplePlatform [[0, 0], [2, 2]] state := by
  have computed :
      handle_clint_model_message samplePlatform (sampleRegistered 2) sampleText
            sampleText.length sampleAddress = .ok sampleSecondRound ∧
        handle_get_checkmodelstatus sampleSecondRound sampleAddress = .ok 1 ∧
          sampleSecondRound.nodecontrol.currentinteraction = 1 ∧
            sampleSecondRound.nodecontrol.interactioncycle = 2 ∧
              LastAwaited sampleSecondRound sampleAddress := by
    decide +kernel
  rcases computed with ⟨handled, polled, current, cycle, last⟩
  have fresh := fresh_sampleStart 2 (zero_le_one : (0 : ℤ) ≤ 1)
  have counted := counted_sampleStart 2 1
  have registers :
      Serves samplePlatform (sampleStart 2 1)
        (.register sampleAddress, .registration .added) (sampleRegistered 2) :=
    rfl
  rcases secondRound_of_handled registers rfl carries_sampleText handled polled
    with ⟨state, same, permission, run⟩
  rw [← same] at current cycle last
  have sameShape := (sized_of_run fresh counted run).models.globalShape
  have running :
      state.server.nodecontrol.currentinteraction <
        state.server.nodecontrol.interactioncycle := by
    rw [current, cycle]
    exact one_lt_two
  refine ⟨state, current, permission, last,
    (rounds_are_a_barrier fresh counted le_rfl run running).2.mpr ?_⟩
  rintro ip_addr - - -
  refine ⟨?_, Or.inr ?_, hasRoom_samplePlatform _ _⟩
  · rw [sameShape]
    exact ⟨by decide, by decide⟩
  · rw [sameShape]
    decide

/-! ## Rounds which are not closed -/

/-- The last awaited node submits with permission, and the server goes wrong. -/
structure GoesWrong (platform : Platform) (shape : Shape) (state : Supervised)
    (ip_addr : String) (text : List Char) (fault : Fault) : Prop where
  running :
    state.server.nodecontrol.currentinteraction <
      state.server.nodecontrol.interactioncycle
  permission : ip_addr ∈ state.permitted
  last : LastAwaited state.server ip_addr
  carries : platform.Carries shape text
  fails :
    handle_clint_model_message platform state.server text text.length ip_addr =
      .error fault

theorem GoesWrong.not_isBarrier {fault : Fault}
    (wrong : GoesWrong platform shape state ip_addr text fault) :
    ¬ IsBarrier platform shape state := by
  intro barrier
  rcases barrier.advances ip_addr wrong.permission wrong.last text wrong.carries
    with ⟨next, step, -⟩
  have served := step.serves
  rw [Serves, serve, wrong.fails] at served
  cases served

/-- The text of a model with one output. -/
def singleOutputText : List Char :=
  textWithOutputs "\x7b\"bias\":3,\"weightsArray\":[1,5]\x7d".toList

/-- A platform which parses this text. -/
def singleOutputPlatform : Platform :=
  { samplePlatform with
    cJSON_Parse := fun text =>
      if text = singleOutputText then
        some (jsonWithOutputs [sampleNeuron 3 [1, 5]])
      else none }

/-- A server for two rounds of one client over a network with one output. -/
def singleOutputStart : FederatedLearning :=
  startServer [⟨2, 0⟩, ⟨1, SOFTMAX⟩] (fun _ _ _ => 0) 2 1

def singleOutputRegistered : FederatedLearning :=
  storeNodes { singleOutputStart with globalmodelstatus := 1 }
    (LinkedList.ofList [⟨sampleAddress, 0⟩])

def singleOutputSecondRound : FederatedLearning :=
  (handle_clint_model_message singleOutputPlatform singleOutputRegistered
    singleOutputText singleOutputText.length sampleAddress).toOption.getD
    singleOutputRegistered

theorem carries_singleOutputText :
    singleOutputPlatform.Carries [[0, 0], [2]] singleOutputText := by
  have copied :
      strndup singleOutputText singleOutputText.length = singleOutputText := by
    decide +kernel
  rcases decodeModel_complete singleOutputPlatform.toFloat (fun _ => none)
      (completeModel_jsonWithOutputs
        (.cons (completeNeuron_sampleNeuron 3 [1, 5]) .nil))
    with ⟨model, decoded, complete⟩
  refine ⟨model, ?_, complete⟩
  rw [Platform.decode, copied]
  simp only [singleOutputPlatform, if_true, Option.bind_some]
  exact decoded

/--
With one output the global network which the first round has published is freed
twice at the end of the second round.  With two inputs and two outputs already
the first round ends outside of the array of the evaluation.
-/
theorem last_submission_goes_wrong :
    (∃ events state,
      Path (Disciplined singleOutputPlatform [[0, 0], [2]])
          ⟨singleOutputStart, ∅⟩ events state ∧
        GoesWrong singleOutputPlatform [[0, 0], [2]] state sampleAddress
          singleOutputText .useAfterFree ∧
        ¬ IsBarrier singleOutputPlatform [[0, 0], [2]] state) ∧
    ∃ events state,
      Path (Disciplined evaluatingPlatform [[0, 0], [2, 2]])
          ⟨sampleStart 1 1, ∅⟩ events state ∧
        GoesWrong evaluatingPlatform [[0, 0], [2, 2]] state sampleAddress
          sampleText .outOfBounds ∧
        ¬ IsBarrier evaluatingPlatform [[0, 0], [2, 2]] state := by
  constructor
  · have computed :
        handle_clint_model_message singleOutputPlatform singleOutputRegistered
              singleOutputText singleOutputText.length sampleAddress =
            .ok singleOutputSecondRound ∧
          handle_get_checkmodelstatus singleOutputSecondRound sampleAddress =
              .ok 1 ∧
            singleOutputSecondRound.nodecontrol.currentinteraction <
                singleOutputSecondRound.nodecontrol.interactioncycle ∧
              LastAwaited singleOutputSecondRound sampleAddress ∧
                handle_clint_model_message singleOutputPlatform
                    singleOutputSecondRound singleOutputText
                    singleOutputText.length sampleAddress =
                  .error .useAfterFree := by
      decide +kernel
    rcases computed with ⟨handled, polled, running, last, fails⟩
    have registers :
        Serves singleOutputPlatform singleOutputStart
          (.register sampleAddress, .registration .added)
          singleOutputRegistered :=
      rfl
    rcases secondRound_of_handled registers rfl carries_singleOutputText
        handled polled
      with ⟨state, same, permission, run⟩
    rw [← same] at running last fails
    have wrong :
        GoesWrong singleOutputPlatform [[0, 0], [2]] state sampleAddress
          singleOutputText .useAfterFree :=
      ⟨running, permission, last, carries_singleOutputText, fails⟩
    exact ⟨_, _, run, wrong, wrong.not_isBarrier⟩
  · have registers :
        Serves evaluatingPlatform (sampleStart 1 1)
          (.register sampleAddress, .registration .added)
          (sampleRegistered 1) :=
      rfl
    have wrong :
        GoesWrong evaluatingPlatform [[0, 0], [2, 2]]
          ⟨sampleRegistered 1, insert sampleAddress ∅⟩ sampleAddress sampleText
          .outOfBounds :=
      ⟨by decide, Set.mem_insert _ _, by decide, carries_evaluatingPlatform,
        by decide +kernel⟩
    exact ⟨_, _, .cons (.register registers) (.single (polls_of_ready rfl)),
      wrong, wrong.not_isBarrier⟩

end FederatedEdge.Federation
