import FederatedEdge.Federation.Contributions

/-!
# When clients leave

A client leaves `deep_learning` at the first poll which is answered with 0.
The server gives this answer after the last round, but also while nodes are
missing and while it waits for the models of other clients.  So the clients
stay until all rounds have been run exactly when they poll only where the
server has a model for them.
-/

namespace FederatedEdge.Federation

open FederatedEdge.Library
open FederatedEdge.Network
open FederatedEdge.Server
open FederatedEdge.Server.FederatedLearning

/-- `deep_learning` never polls again after a poll answered with 0. -/
def Event.Loops : Event → Prop
  | .retry _ => False
  | _ => True

/--
The steps of the server and of clients which run `app_main`, as far as every
submission is handled before the next poll of its sender.
-/
def LoopStep (platform : Platform) (shape : Shape) :
    Deployment → Event → Deployment → Prop :=
  Restricted (fun state event => HandledBeforePoll state event ∧ event.Loops)
    (DeploymentStep platform shape)

/-- A client has left only if the server has finished all rounds. -/
def StaysUntilFinished (state : Deployment) : Prop :=
  ∀ ip_addr, state.phase ip_addr = .left →
    state.server.nodecontrol.interactioncycle ≤
      state.server.nodecontrol.currentinteraction

/--
A poll before the end of the last round comes when all clients are registered,
from a client which has not submitted in the current round.
-/
def Prompted (state : Deployment) (event : Event) : Prop :=
  ∀ ip_addr, event.PollOf ip_addr →
    state.server.nodecontrol.currentinteraction <
        state.server.nodecontrol.interactioncycle →
      state.server.nodecontrol.clientnodesregistered =
          state.server.nodecontrol.clientnodes ∧
        ∃ node ∈ state.server.nodes, node.ip_id = ip_addr ∧
          node.interaction = state.server.nodecontrol.currentinteraction

variable {platform : Platform} {shape : Shape} {state next : Deployment}
  {event : Event}

/-- The server of a finished deployment stays finished. -/
theorem finished_of_step (sound : Sound platform shape state)
    (finished : state.server.control.Finished)
    (step : DeploymentStep platform shape state event next) :
    next.server.control.Finished := by
  have registry := sound.orderly.registry
  cases step with
  | register _ serves => exact (serves_of_finished registry finished serves).1
  | grant _ serves => exact (serves_of_finished registry finished serves).1
  | retry _ serves => exact (serves_of_finished registry finished serves).1
  | leave _ serves => exact (serves_of_finished registry finished serves).1
  | download _ serves => exact (serves_of_finished registry finished serves).1
  | send _ _ => exact finished
  | @deliver front back flight reply after inflight serves =>
      show (state.record flight after).server.control.Finished
      rw [server_record]
      exact (serves_of_finished registry finished serves).1

/-- Where a poll is answered with 0, the client is not awaited at a full server. -/
theorem Sound.not_prompted (sound : Sound platform shape state)
    (unfinished : ¬ state.server.control.Finished) {ip_addr : String}
    {after : FederatedLearning}
    (serves :
      Serves platform state.server (.poll ip_addr, .status 0) after) :
    ¬ (state.server.control.Full ∧
      state.server.control.barrier.Awaited ip_addr) := by
  rintro ⟨full, awaited⟩
  have available := sound.orderly.available full unfinished
  rcases serves_poll sound.orderly.registry serves with ⟨-, answer⟩
  rw [if_pos ⟨full, awaited, available⟩] at answer
  simp at answer

theorem prompted_iff (sound : Sound platform shape state) :
    Prompted state event ↔
      ∀ ip_addr, event.PollOf ip_addr → ¬ state.server.control.Finished →
        state.server.control.Full ∧
          state.server.control.barrier.Awaited ip_addr := by
  have registry : state.server.Registry := sound.orderly.registry
  simp only [Prompted, registry.full_iff, awaited_control_iff]
  exact forall₂_congr fun _ _ => imp_congr not_le.symm Iff.rfl

/-- A client enters the phase `left` only by leaving. -/
theorem left_of_step (step : DeploymentStep platform shape state event next)
    {ip_addr : String} (left : next.phase ip_addr = .left) :
    state.phase ip_addr = .left ∨ event = .leave ip_addr := by
  have kept : ∀ {entering : String} {phase : Phase}, phase ≠ .left →
      (state.enter entering phase).phase ip_addr = .left →
        state.phase ip_addr = .left := by
    intro entering phase other isLeft
    by_cases same : ip_addr = entering
    · subst same
      rw [phase_enter_self] at isLeft
      exact (other isLeft).elim
    · rwa [phase_enter_of_ne _ _ same] at isLeft
  cases step with
  | register _ _ => exact Or.inl (kept (by simp) left)
  | grant _ _ => exact Or.inl (kept (by simp) left)
  | retry _ _ => exact Or.inl left
  | @leave entering _ _ _ =>
      by_cases same : ip_addr = entering
      · exact Or.inr (by rw [same])
      · left
        rwa [← phase_enter_of_ne state .left same]
  | download _ _ => exact Or.inl (kept (by simp) left)
  | send _ _ => exact Or.inl (kept (by simp) left)
  | @deliver front back flight reply after _ _ =>
      change (state.record flight after).phase ip_addr = .left at left
      rw [phase_record] at left
      exact Or.inl left

/-- A prompted step lets no client leave too early. -/
theorem StaysUntilFinished.step (sound : Sound platform shape state)
    (stays : StaysUntilFinished state) (prompted : Prompted state event)
    (step : DeploymentStep platform shape state event next) :
    StaysUntilFinished next := by
  intro ip_addr left
  rcases left_of_step step left with before | rfl
  · exact finished_of_step sound (stays ip_addr before) step
  · by_cases finished : state.server.control.Finished
    · exact finished_of_step sound finished step
    · cases step with
      | leave _ serves =>
          have ready := (prompted_iff sound).mp prompted ip_addr rfl finished
          exact (sound.not_prompted finished serves ready).elim

/-- A poll which was not prompted lets its client leave too early. -/
theorem prompted_of_stays (sound : Sound platform shape state)
    (loops : event.Loops)
    (step : DeploymentStep platform shape state event next)
    (stays : StaysUntilFinished next) :
    Prompted state event := by
  have registry : state.server.Registry := sound.orderly.registry
  rw [prompted_iff sound]
  intro ip_addr isPoll unfinished
  cases step with
  | grant _ serves =>
      cases isPoll
      rcases serves_poll registry serves with ⟨-, answer⟩
      by_cases ready : state.server.control.Ready ip_addr
      · exact ⟨ready.1, ready.2.1⟩
      · rw [if_neg ready] at answer
        simp at answer
  | retry _ _ => exact loops.elim
  | leave _ serves =>
      cases isPoll
      rcases serves_poll registry serves with ⟨rfl, -⟩
      exact (unfinished (stays ip_addr (phase_enter_self _ _ _))).elim
  | register _ _ => exact isPoll.elim
  | download _ _ => exact isPoll.elim
  | send _ _ => exact isPoll.elim
  | deliver _ _ => exact isPoll.elim

theorem Sound.of_loops {server : FederatedLearning} {clients : List String}
    {events : List Event} (fresh : server.Fresh shape)
    (configured : 1 ≤ server.nodecontrol.clientnodes)
    (run : Path (LoopStep platform shape) (startDeployment server clients) events
      state) :
    Sound platform shape state := by
  refine run.invariant (Sound platform shape) ?_ (.of_fresh fresh configured)
  rintro source event target ⟨⟨handled, -⟩, step⟩ sound
  exact sound.step ⟨handled, step⟩

/--
In a run of the server and clients which run `app_main`, every client stays
until all rounds have been run exactly when each poll before that is made with
all clients registered, by a client which has not submitted in the current
round.
-/
theorem stays_until_finished_iff
    {start : FederatedLearning} {clients : List String} {events : List Event}
    {final : Deployment} (fresh : start.Fresh shape)
    (configured : 1 ≤ start.nodecontrol.clientnodes)
    (run :
      Path (LoopStep platform shape) (startDeployment start clients) events
        final) :
    (∀ state,
        Path.Visits (LoopStep platform shape) (startDeployment start clients)
            events final state →
          StaysUntilFinished state) ↔
      ∀ state event,
        Path.Takes (LoopStep platform shape) (startDeployment start clients)
            events final state event →
          Prompted state event := by
  constructor
  · rintro stays state event ⟨early, late, next, rfl, leading, step, following⟩
    have sound := Sound.of_loops fresh configured leading
    have visits :
        Path.Visits (LoopStep platform shape) (startDeployment start clients)
          (early ++ event :: late) final next :=
      ⟨early ++ [event], late, by simp, leading.append (.single step), following⟩
    exact prompted_of_stays sound step.1.2 step.2 (stays next visits)
  · rintro prompted state ⟨early, late, rfl, leading, following⟩
    have promptedRun :=
      leading.restricted Prompted fun source event takes =>
        prompted source event (takes.append following)
    have started :
        Sound platform shape (startDeployment start clients) ∧
          StaysUntilFinished (startDeployment start clients) := by
      refine ⟨.of_fresh fresh configured, ?_⟩
      intro ip_addr left
      rw [startDeployment] at left
      by_cases client : ip_addr ∈ clients <;> simp [client] at left
    have both :
        Sound platform shape state ∧ StaysUntilFinished state := by
      refine promptedRun.invariant
        (fun state => Sound platform shape state ∧ StaysUntilFinished state) ?_
        started
      rintro source event target ⟨isPrompted, ⟨handled, -⟩, step⟩ ⟨sound, stays⟩
      exact ⟨sound.step ⟨handled, step⟩, stays.step sound isPrompted step⟩
    exact both.2

/-! ## Two clients, one of which is early -/

/-- The two sample clients; their server runs one round. -/
def samplePair : List String :=
  [sampleAddress, "10.0.0.3"]

/-- The first client registers, polls before the second one is there, and leaves. -/
theorem exists_early_leave :
    ∃ state,
      Path (LoopStep samplePlatform [[0, 0], [2, 2]])
          (startDeployment (sampleStart 1 2) samplePair)
          [.register sampleAddress, .leave sampleAddress] state ∧
        state.phase sampleAddress = .left ∧ state.server = sampleHalf := by
  have registers :
      Serves samplePlatform (sampleStart 1 2)
        (.register sampleAddress, .registration .added) sampleHalf :=
    rfl
  have polled :
      handle_get_checkmodelstatus sampleHalf sampleAddress = .ok 0 := by
    decide +kernel
  have polls :
      Serves samplePlatform sampleHalf (.poll sampleAddress, .status 0)
        sampleHalf := by
    rw [Serves, serve, polled]
    rfl
  let booted : Deployment :=
    { (startDeployment (sampleStart 1 2) samplePair).enter sampleAddress
        .polling with server := sampleHalf }
  have boots :
      DeploymentStep samplePlatform [[0, 0], [2, 2]]
        (startDeployment (sampleStart 1 2) samplePair)
        (.register sampleAddress) booted :=
    .register rfl registers
  have polling : booted.phase sampleAddress = .polling :=
    phase_enter_self (startDeployment (sampleStart 1 2) samplePair)
      sampleAddress .polling
  have leaves :
      DeploymentStep samplePlatform [[0, 0], [2, 2]] booted
        (.leave sampleAddress)
        { booted.enter sampleAddress .left with server := sampleHalf } :=
    .leave polling polls
  exact ⟨_,
    .cons ⟨⟨by rintro flight ⟨⟩, trivial⟩, boots⟩
      (.single ⟨⟨by rintro flight ⟨⟩, trivial⟩, leaves⟩),
    phase_enter_self booted sampleAddress .left, rfl⟩

theorem stays_until_finished_iff_sample :
    ∃ final,
      (∀ state,
          Path.Visits (LoopStep samplePlatform [[0, 0], [2, 2]])
              (startDeployment (sampleStart 1 2) samplePair)
              [.register sampleAddress, .leave sampleAddress] final state →
            StaysUntilFinished state) ↔
        ∀ state event,
          Path.Takes (LoopStep samplePlatform [[0, 0], [2, 2]])
              (startDeployment (sampleStart 1 2) samplePair)
              [.register sampleAddress, .leave sampleAddress] final state
              event →
            Prompted state event := by
  rcases exists_early_leave with ⟨final, run, -, -⟩
  exact ⟨final,
    stays_until_finished_iff (fresh_sampleStart 1 (by decide)) (by decide) run⟩

/-- Of two clients one leaves, although the only round has not been run. -/
theorem client_leaves_before_round :
    ∃ events state,
      (samplePair.length : ℤ) = (sampleStart 1 2).nodecontrol.clientnodes ∧
        Path (LoopStep samplePlatform [[0, 0], [2, 2]])
          (startDeployment (sampleStart 1 2) samplePair) events state ∧
        state.phase sampleAddress = .left ∧
        state.server.nodecontrol.currentinteraction <
          state.server.nodecontrol.interactioncycle := by
  rcases exists_early_leave with ⟨state, run, left, server⟩
  refine ⟨_, state, rfl, run, left, ?_⟩
  rw [server]
  decide +kernel

end FederatedEdge.Federation
