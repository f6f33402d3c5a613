import FederatedEdge.Federation.System

/-!
# What the published rounds contain

If no client polls while a message of its own is in flight, each published
round contains one contribution of each registered client, trained from the
global network of that round.  A client which polls too early can be told to
train again before its message is counted, and then a round takes in a model
which was trained from an older network.
-/

namespace FederatedEdge.Federation

open FederatedEdge.Library
open FederatedEdge.Network
open FederatedEdge.Server
open FederatedEdge.Server.FederatedLearning

/-- One contribution of each client, each from the basis of the round. -/
structure Fair (names : List String) (round : PublishedRound) : Prop where
  everyone : (round.contributions.map Contribution.ip_id).Perm names
  current : ∀ contribution ∈ round.contributions,
    contribution.base = round.basis

/-- The clients which the round no longer waits for have contributed to it. -/
structure Current (state : Deployment) : Prop where
  distinct : (state.contributions.map Contribution.ip_id).Nodup
  arrived : ∀ name, name ∈ state.contributions.map Contribution.ip_id ↔
    name ∈ state.server.control.names ∧
      ¬ state.server.control.barrier.Awaited name
  current : ∀ contribution ∈ state.contributions,
    contribution.base = state.server.neuralnetwork

/-- The invariant of the recorded contributions. -/
structure Recorded (state : Deployment) : Prop where
  holding : ∀ ip_addr base, state.phase ip_addr = .holding base →
    base = state.server.neuralnetwork
  flying : ∀ flight ∈ state.inflight, flight.base = state.server.neuralnetwork
  running : ¬ state.server.control.Finished → Current state
  published : ∀ round ∈ state.published,
    state.server.control.Full ∧ Fair state.server.control.names round

variable {platform : Platform} {shape : Shape} {state next : Deployment}
  {event : Event}

/-- The contribution of a flight. -/
def Flight.contribution (flight : Flight) : Contribution where
  ip_id := flight.ip_id
  base := flight.base

/-! ## Deliveries -/

/-- A delivered model comes from an awaited node. -/
theorem Sound.delivered {flight : Flight} {reply : Reply}
    {after : FederatedLearning} (sound : Sound platform shape state)
    (member : flight ∈ state.inflight)
    (serves :
      Serves platform state.server
        (.message flight.ip_id flight.text, reply) after) :
    state.server.control.barrier.Awaited flight.ip_id ∧
      Submitted shape flight.ip_id state.server after := by
  have disciplined :
      Disciplined platform shape state.supervised
        (.message flight.ip_id flight.text, reply)
        ⟨after, state.supervised.permitted \ {flight.ip_id}⟩ :=
    .submit (Or.inr ⟨flight, member, rfl⟩) (sound.flights.complete flight member)
      serves
  exact sound.orderly.message_of_step disciplined

theorem Sound.inStep (sound : Sound platform shape state) :
    state.server.control.barrier.InStep :=
  sound.orderly.inStep

/-- An awaited client has not contributed to the round yet. -/
theorem Current.distinct_concat {flight : Flight} (current : Current state)
    (awaited : state.server.control.barrier.Awaited flight.ip_id) :
    ((state.contributions ++ [flight.contribution]).map
      Contribution.ip_id).Nodup := by
  rw [List.map_append, List.nodup_append]
  refine ⟨current.distinct, by simp, ?_⟩
  rintro name isContributor single isSingle rfl
  rw [List.map_singleton, List.mem_singleton] at isSingle
  subst isSingle
  exact ((current.arrived _).mp isContributor).2 awaited

/-- With a contribution, one awaited client less is missing. -/
theorem Current.mem_concat {flight : Flight} (current : Current state)
    (awaited : state.server.control.barrier.Awaited flight.ip_id)
    (name : String) :
    name ∈ (state.contributions ++ [flight.contribution]).map
        Contribution.ip_id ↔
      name ∈ state.server.control.names ∧
        ¬ (state.server.control.barrier.Awaited name ∧
          name ≠ flight.ip_id) := by
  rw [List.map_append, List.mem_append, current.arrived, List.map_singleton,
    List.mem_singleton]
  constructor
  · rintro (⟨isName, notAwaited⟩ | rfl)
    · exact ⟨isName, fun both => notAwaited both.1⟩
    · exact ⟨awaited.mem_names, fun both => both.2 rfl⟩
  · rintro ⟨isName, notBoth⟩
    by_cases same : name = flight.ip_id
    · exact Or.inr same
    · exact Or.inl ⟨isName, fun still => notBoth ⟨still, same⟩⟩

section Deliver

variable {front back : List Flight} {flight : Flight} {after : FederatedLearning}
  (sound : Sound platform shape state) (recorded : Recorded state)
  (inflight : state.inflight = front ++ flight :: back)
  (awaited : state.server.control.barrier.Awaited flight.ip_id)
  (submitted : Submitted shape flight.ip_id state.server after)

include sound recorded submitted

omit sound in
theorem Recorded.published_after :
    ∀ round ∈ state.published,
      after.control.Full ∧ Fair after.control.names round := by
  intro round member
  rcases recorded.published round member with ⟨full, fair⟩
  rw [submitted.control, Control.Full, Control.names_accept,
    Control.clientnodes_accept]
  exact ⟨full, fair⟩

include inflight

omit sound submitted in
/-- A model which does not close the round leaves the bases in place. -/
theorem Recorded.deliver_kept
    (kept : after.neuralnetwork = state.server.neuralnetwork)
    {contributions : List Contribution} {published : List PublishedRound}
    (running : ¬ after.control.Finished →
      Current ⟨after, state.phase, front ++ back, contributions, published⟩)
    (closed : ∀ round ∈ published,
      after.control.Full ∧ Fair after.control.names round) :
    Recorded
      ⟨after, state.phase, front ++ back, contributions, published⟩ := by
  refine ⟨?_, ?_, running, closed⟩
  · intro ip_addr base phase
    rw [kept]
    exact recorded.holding ip_addr base phase
  · intro other member
    rw [kept]
    exact recorded.flying other
      ((mem_inflight_iff inflight).mpr (Or.inr member))

include awaited

/-- A model which the round still waits for is taken in. -/
theorem Recorded.deliver_absorbed
    (unfinished : ¬ state.server.control.Finished)
    {other : String} (otherAwaited : state.server.control.barrier.Awaited other)
    (different : other ≠ flight.ip_id) :
    Recorded
      ⟨after, state.phase, front ++ back,
        state.contributions ++ [flight.contribution], state.published⟩ := by
  have notLast : ¬ LastAwaited state.server flight.ip_id := by
    rw [lastAwaited_iff]
    intro last
    exact different (last other otherAwaited)
  have kept := submitted.kept (Or.inr notLast)
  have barrier :=
    accept_of_other sound.inStep otherAwaited different
  refine recorded.deliver_kept inflight kept ?_
    (recorded.published_after submitted)
  intro _
  have running := recorded.running unfinished
  have member := (mem_inflight_iff inflight).mpr (Or.inl rfl)
  refine ⟨?_, ?_, ?_⟩
  · exact running.distinct_concat awaited
  · intro name
    show name ∈ List.map _ (_ ++ _) ↔
      name ∈ after.control.names ∧ ¬ after.control.barrier.Awaited name
    rw [submitted.control, Control.names_accept, barrier,
      Barrier.awaited_bump_iff sound.inStep]
    exact running.mem_concat awaited name
  · intro contribution isContribution
    show contribution.base = after.neuralnetwork
    rw [kept]
    rcases List.mem_append.mp isContribution with old | new
    · exact running.current contribution old
    · rw [List.mem_singleton.mp new]
      exact recorded.flying flight member

/-- The last model of a round completes it, and nothing old remains. -/
theorem Recorded.deliver_closing
    (unfinished : ¬ state.server.control.Finished)
    (last : ∀ other, state.server.control.barrier.Awaited other →
      other = flight.ip_id) :
    Recorded
      ⟨after, state.phase, front ++ back, [],
        state.published ++
          [⟨state.contributions ++ [flight.contribution],
            state.server.neuralnetwork⟩]⟩ := by
  have member := (mem_inflight_iff inflight).mpr (Or.inl rfl)
  have barrier := accept_of_last sound.inStep unfinished last
  have full : after.control.Full := by
    rw [submitted.control, Control.Full, Control.names_accept,
      Control.clientnodes_accept]
    exact sound.orderly.complete flight.ip_id (Or.inr ⟨flight, member, rfl⟩)
  have running := recorded.running unfinished
  refine ⟨?_, ?_, ?_, ?_⟩
  · -- a client which holds a network would still be awaited
    intro ip_addr base phase
    have permission : state.Permits ip_addr := by
      left
      rw [show state.phase ip_addr = _ from phase]
      trivial
    have same := last ip_addr (sound.orderly.awaited ip_addr permission)
    rw [same, show state.phase flight.ip_id = _ from
      sound.flights.polling flight member] at phase
    cases phase
  · -- and so would the client of another message
    intro other isOther
    have otherMember := (mem_inflight_iff inflight).mpr (Or.inr isOther)
    have same := last other.ip_id
      (sound.orderly.awaited other.ip_id (Or.inr ⟨other, otherMember, rfl⟩))
    exact (sound.flights.alone inflight other isOther same).elim
  · intro _
    refine ⟨List.nodup_nil, ?_, by rintro contribution ⟨⟩⟩
    intro name
    show name ∈ [] ↔
      name ∈ after.control.names ∧ ¬ after.control.barrier.Awaited name
    rw [submitted.control, Control.names_accept, barrier,
      (sound.inStep.bump awaited).awaited_advance_iff
        (Barrier.not_awaited_bump_of_last sound.inStep last),
      Barrier.names_bump]
    constructor
    · rintro ⟨⟩
    · rintro ⟨isName, notName⟩
      exact (notName isName).elim
  · intro round isRound
    rcases List.mem_append.mp isRound with old | new
    · exact recorded.published_after submitted round old
    · rw [List.mem_singleton.mp new]
      refine ⟨full, ?_, ?_⟩
      · rw [submitted.control, Control.names_accept]
        apply (List.perm_ext_iff_of_nodup (running.distinct_concat awaited)
          sound.orderly.registry.distinct).mpr
        intro name
        rw [running.mem_concat awaited]
        constructor
        · exact And.left
        · intro isName
          exact ⟨isName, fun still => still.2 (last name still.1)⟩
      · intro contribution isContribution
        rcases List.mem_append.mp isContribution with earlier | final
        · exact running.current contribution earlier
        · rw [List.mem_singleton.mp final]
          exact recorded.flying flight member

end Deliver

/-! ## All steps -/

/-- A request which changes neither the networks nor the control. -/
theorem Recorded.of_sameServer (recorded : Recorded state)
    (server : next.server = state.server)
    (contributions : next.contributions = state.contributions)
    (published : next.published = state.published)
    (holding : ∀ ip_addr base, next.phase ip_addr = .holding base →
      base = state.server.neuralnetwork)
    (flying : ∀ flight ∈ next.inflight,
      flight.base = state.server.neuralnetwork) :
    Recorded next := by
  rcases next with ⟨after, phase, inflight, later, rounds⟩
  cases server
  cases contributions
  cases published
  refine ⟨holding, flying, ?_, recorded.published⟩
  intro unfinished
  have running := recorded.running unfinished
  exact ⟨running.distinct, running.arrived, running.current⟩

/-- Entering a phase without a network leaves the other networks in place. -/
theorem Recorded.holding_enter (recorded : Recorded state) {entering : String}
    {phase : Phase}
    (basis : ∀ base, phase = .holding base → base = state.server.neuralnetwork) :
    ∀ ip_addr base, (state.enter entering phase).phase ip_addr = .holding base →
      base = state.server.neuralnetwork := by
  intro ip_addr base holds
  by_cases same : ip_addr = entering
  · subst same
    rw [phase_enter_self] at holds
    exact basis base holds
  · rw [phase_enter_of_ne _ _ same] at holds
    exact recorded.holding ip_addr base holds

/-- A registration adds an awaited client, or changes nothing. -/
theorem Recorded.register {ip_addr : String} {reply : Reply}
    {after : FederatedLearning}
    (sound : Sound platform shape state) (recorded : Recorded state)
    (serves : Serves platform state.server (.register ip_addr, reply) after) :
    Recorded { state.enter ip_addr .polling with server := after } := by
  rcases serves_register sound.orderly.registry serves
    with ⟨-, control, same⟩
  change after.control = state.server.control.register ip_addr at control
  have sameGlobal : after.neuralnetwork = state.server.neuralnetwork :=
    same.neuralnetwork
  refine ⟨?_, ?_, ?_, ?_⟩
  · rw [sameGlobal]
    exact recorded.holding_enter (by rintro base ⟨⟩)
  · rw [sameGlobal]
    exact recorded.flying
  · intro unfinished
    have before : ¬ state.server.control.Finished := by
      intro finished
      apply unfinished
      show after.control.interactioncycle ≤ after.control.barrier.round
      rw [control, Control.interactioncycle_register, Control.round_register]
      exact finished
    have running := recorded.running before
    refine ⟨running.distinct, ?_, ?_⟩
    · intro name
      show name ∈ state.contributions.map Contribution.ip_id ↔
        name ∈ after.control.barrier.names ∧
          ¬ after.control.barrier.Awaited name
      rw [running.arrived, control, Control.register]
      by_cases known :
          state.server.control.Full ∨ ip_addr ∈ state.server.control.names
      · rw [if_pos known, Control.barrier_openWhenFull]
        rfl
      · have notFull : ¬ state.server.control.Full := fun full =>
          known (Or.inl full)
        have firstRound : state.server.control.barrier.round = 0 :=
          sound.orderly.firstRound notFull
        rw [if_neg known, Control.barrier_openWhenFull, Barrier.names_join,
          Barrier.awaited_join_iff firstRound, List.mem_append,
          List.mem_singleton]
        constructor
        · rintro ⟨isName, notAwaited⟩
          refine ⟨Or.inl isName, ?_⟩
          rintro (awaited | rfl)
          · exact notAwaited awaited
          · exact known (Or.inr isName)
        · rintro ⟨isName | rfl, notEither⟩
          · exact ⟨isName, fun awaited => notEither (Or.inl awaited)⟩
          · exact (notEither (Or.inr rfl)).elim
    · intro contribution isContribution
      show contribution.base = after.neuralnetwork
      rw [sameGlobal]
      exact running.current contribution isContribution
  · intro round isRound
    rcases recorded.published round isRound with ⟨full, fair⟩
    show after.control.Full ∧ Fair after.control.names round
    rw [control, Control.register, if_pos (Or.inl full),
      Control.full_openWhenFull_iff, Control.names,
      Control.barrier_openWhenFull]
    exact ⟨full, fair⟩

/-- Every step in time keeps the records. -/
theorem Recorded.step (sound : Sound platform shape state)
    (recorded : Recorded state)
    (step : DeploymentStep platform shape state event next) :
    Recorded next := by
  have registry : state.server.Registry := sound.orderly.registry
  cases step with
  | @register ip_addr reply after phase serves =>
      exact recorded.register sound serves
  | @grant ip_addr after phase serves =>
      rcases serves_poll registry serves with ⟨rfl, -⟩
      exact recorded.of_sameServer rfl rfl rfl
        (recorded.holding_enter (by rintro base ⟨⟩)) recorded.flying
  | @retry ip_addr after phase serves =>
      rcases serves_poll registry serves with ⟨rfl, -⟩
      exact recorded
  | @leave ip_addr after phase serves =>
      rcases serves_poll registry serves with ⟨rfl, -⟩
      exact recorded.of_sameServer rfl rfl rfl
        (recorded.holding_enter (by rintro base ⟨⟩)) recorded.flying
  | @download ip_addr reply after phase serves =>
      rcases serves_download serves with rfl
      refine recorded.of_sameServer rfl rfl rfl
        (recorded.holding_enter ?_) recorded.flying
      rintro base ⟨⟩
      rfl
  | @send ip_addr text base phase complete =>
      refine recorded.of_sameServer rfl rfl rfl
        (recorded.holding_enter (by rintro base ⟨⟩)) ?_
      intro flight member
      rcases List.mem_append.mp member with old | new
      · exact recorded.flying flight old
      · rw [List.mem_singleton.mp new]
        exact recorded.holding ip_addr base phase
  | @deliver front back flight reply after inflight serves =>
      have member := (mem_inflight_iff inflight).mpr (Or.inl rfl)
      rcases sound.delivered member serves with ⟨awaited, submitted⟩
      have round :
          after.nodecontrol.currentinteraction =
            (state.server.control.accept flight.ip_id).barrier.round := by
        rw [← submitted.control]
        rfl
      rw [Deployment.record]
      by_cases finished : state.server.control.Finished
      · rw [if_pos finished]
        refine recorded.deliver_kept inflight
          (submitted.kept (Or.inl finished)) ?_
          (recorded.published_after submitted)
        intro unfinished
        rw [submitted.control, Control.accept_of_finished finished] at unfinished
        exact (unfinished finished).elim
      · rw [if_neg finished]
        by_cases more : ∃ other,
            state.server.control.barrier.Awaited other ∧ other ≠ flight.ip_id
        · rcases more with ⟨other, otherAwaited, different⟩
          have sameRound :
              after.nodecontrol.currentinteraction =
                state.server.nodecontrol.currentinteraction := by
            rw [round, accept_of_other sound.inStep otherAwaited different]
            rfl
          rw [if_pos sameRound]
          exact recorded.deliver_absorbed sound inflight awaited submitted
            finished otherAwaited different
        · have last := Barrier.last_of_no_other more
          have nextRound :
              after.nodecontrol.currentinteraction =
                state.server.nodecontrol.currentinteraction + 1 := by
            rw [round, accept_of_last sound.inStep finished last]
            rfl
          rw [if_neg (by rw [nextRound]; simp)]
          exact recorded.deliver_closing sound inflight awaited submitted
            finished last

theorem Recorded.of_fresh {server : FederatedLearning} {clients : List String}
    (fresh : server.Fresh shape) :
    Recorded (startDeployment server clients) := by
  have nobody : server.control.names = [] := fresh.empty
  refine ⟨?_, by rintro flight ⟨⟩, fun _ => ⟨List.nodup_nil, ?_,
    by rintro contribution ⟨⟩⟩, by rintro round ⟨⟩⟩
  · intro ip_addr base phase
    rw [startDeployment] at phase
    by_cases client : ip_addr ∈ clients <;> simp [client] at phase
  · intro name
    show name ∈ [] ↔ name ∈ server.control.names ∧ _
    rw [nobody]
    simp

/--
In every run in which no client polls while a message of its own is in flight,
each published round contains exactly one contribution of each registered
client, trained from the global network which was current in that round.
-/
theorem published_rounds_are_fair
    {start : FederatedLearning} {clients : List String} {events : List Event}
    (fresh : start.Fresh shape)
    (configured : 1 ≤ start.nodecontrol.clientnodes)
    (run :
      Path (Restricted HandledBeforePoll (DeploymentStep platform shape))
        (startDeployment start clients) events state) :
    ∀ round ∈ state.published,
      (round.contributions.map Contribution.ip_id).Perm
          (state.server.nodes.map ClientNode.ip_id) ∧
        ∀ contribution ∈ round.contributions,
          contribution.base = round.basis := by
  have both : Sound platform shape state ∧ Recorded state := by
    have started :
        Sound platform shape (startDeployment start clients) ∧
          Recorded (startDeployment start clients) :=
      ⟨.of_fresh fresh configured, .of_fresh fresh⟩
    refine run.invariant
      (fun state => Sound platform shape state ∧ Recorded state) ?_ started
    rintro source event target step ⟨sound, recorded⟩
    exact ⟨sound.step step, recorded.step sound step.2⟩
  intro round isRound
  rcases both.2.published round isRound with ⟨-, fair⟩
  rw [← names_control]
  exact ⟨fair.everyone, fair.current⟩

/-! ## A client which polls too early -/

/-- A client which is told to train does so and sends its model. -/
theorem exists_turn (state : Deployment) {ip_addr : String} {text : List Char}
    {reply : Reply}
    (phase : state.phase ip_addr = .polling)
    (polls :
      Serves platform state.server (.poll ip_addr, .status 1) state.server)
    (downloads :
      Serves platform state.server (.download, reply) state.server)
    (carries : platform.Carries shape text) :
    ∃ next,
      Path
          (Restricted (fun source _ => source.inflight = state.inflight)
            (DeploymentStep platform shape)) state
          [.grant ip_addr, .download ip_addr, .send ip_addr text] next ∧
        next.server = state.server ∧ next.phase ip_addr = .polling ∧
        next.inflight =
          state.inflight ++ [⟨ip_addr, text, state.server.neuralnetwork⟩] ∧
        next.contributions = state.contributions ∧
        next.published = state.published := by
  let told := state.enter ip_addr .granted
  let loaded := told.enter ip_addr (.holding state.server.neuralnetwork)
  have first : DeploymentStep platform shape state (.grant ip_addr) told :=
    .grant phase polls
  have second : DeploymentStep platform shape told (.download ip_addr) loaded :=
    .download (phase_enter_self _ _ _) downloads
  have third := DeploymentStep.send
    (phase_enter_self told ip_addr (.holding state.server.neuralnetwork))
    carries
  refine ⟨_, .cons ⟨rfl, first⟩ (.cons ⟨rfl, second⟩ (.single ⟨rfl, third⟩)),
    rfl, phase_enter_self _ _ _, rfl, rfl, rfl⟩

/-- The sample server for two rounds, after `rounds` submissions. -/
def sampleAfter (rounds : ℕ) : FederatedLearning :=
  (fun server =>
    (submitModel samplePlatform server sampleAddress
      sampleModel).toOption.getD server)^[rounds] (sampleRegistered 2)

/-- The flight of the sample client, from the first global network. -/
def sampleFlight : Flight where
  ip_id := sampleAddress
  text := sampleText
  base := (sampleAfter 0).neuralnetwork

theorem serves_sampleFlight {before after : FederatedLearning}
    (submitted :
      submitModel samplePlatform before sampleAddress sampleModel = .ok after) :
    Serves samplePlatform before
      (.message sampleFlight.ip_id sampleFlight.text, .nothing) after := by
  rw [Serves, serve, sampleFlight,
    handle_clint_model_message_decoded decode_sampleText, submitted]
  rfl

/-- The sample client has booted and sends the first model. -/
theorem exists_sampleFlight :
    ∃ state,
      Path
          (Restricted (fun source _ => source.inflight = [])
            (DeploymentStep samplePlatform [[0, 0], [2, 2]]))
          (startDeployment (sampleStart 2 1) [sampleAddress])
          [.register sampleAddress, .grant sampleAddress,
            .download sampleAddress, .send sampleAddress sampleText] state ∧
        state.server = sampleAfter 0 ∧
        state.phase sampleAddress = .polling ∧
        state.inflight = [sampleFlight] ∧ state.contributions = [] ∧
        state.published = [] := by
  have polled :
      handle_get_checkmodelstatus (sampleAfter 0) sampleAddress = .ok 1 := by
    decide +kernel
  have polls :
      Serves samplePlatform (sampleAfter 0)
        (.poll sampleAddress, .status 1) (sampleAfter 0) := by
    rw [Serves, serve, polled]
    rfl
  have downloads : ∃ reply,
      Serves samplePlatform (sampleAfter 0) (.download, reply)
        (sampleAfter 0) :=
    ⟨_, rfl⟩
  rcases downloads with ⟨reply, downloads⟩
  let booted : Deployment :=
    { (startDeployment (sampleStart 2 1) [sampleAddress]).enter sampleAddress
        .polling with server := sampleAfter 0 }
  have boots :
      DeploymentStep samplePlatform [[0, 0], [2, 2]]
        (startDeployment (sampleStart 2 1) [sampleAddress])
        (.register sampleAddress) booted :=
    .register rfl rfl
  rcases exists_turn booted (phase_enter_self _ _ _) polls downloads
      carries_sampleText
    with ⟨state, path, server, phase, inflight, contributions, published⟩
  exact ⟨state, .cons ⟨rfl, boots⟩ path, server, phase, inflight,
    contributions, published⟩

variable (shape state) in
/-- Delivering the only awaited model publishes its round. -/
theorem deliver_publishes {flight : Flight} {back : List Flight}
    {reply : Reply} {after : FederatedLearning}
    (inflight : state.inflight = flight :: back)
    (serves :
      Serves platform state.server
        (.message flight.ip_id flight.text, reply) after)
    (unfinished : ¬ state.server.control.Finished)
    (closes :
      after.nodecontrol.currentinteraction ≠
        state.server.nodecontrol.currentinteraction) :
    DeploymentStep platform shape state (.deliver flight)
      ⟨after, state.phase, back, [],
        state.published ++
          [⟨state.contributions ++ [flight.contribution],
            state.server.neuralnetwork⟩]⟩ := by
  have step :
      DeploymentStep platform shape state (.deliver flight)
        { state.record flight after with inflight := [] ++ back } :=
    .deliver inflight serves
  rw [Deployment.record, if_neg unfinished, if_neg closes] at step
  exact step

theorem submitModel_sampleAfter_zero :
    submitModel samplePlatform (sampleAfter 0) sampleAddress sampleModel =
      .ok (sampleAfter 1) := by
  decide +kernel

theorem submitModel_sampleAfter_one :
    submitModel samplePlatform (sampleAfter 1) sampleAddress sampleModel =
      .ok (sampleAfter 2) := by
  decide +kernel

theorem published_rounds_are_fair_sample :
    ∃ state : Deployment,
      state.published =
          [⟨[sampleFlight.contribution], (sampleAfter 0).neuralnetwork⟩] ∧
        ∀ round ∈ state.published,
          (round.contributions.map Contribution.ip_id).Perm
              (state.server.nodes.map ClientNode.ip_id) ∧
            ∀ contribution ∈ round.contributions,
              contribution.base = round.basis := by
  rcases exists_sampleFlight
    with ⟨state, path, server, phase, inflight, contributions, published⟩
  have inTime :
      Path
        (Restricted HandledBeforePoll
          (DeploymentStep samplePlatform [[0, 0], [2, 2]]))
        (startDeployment (sampleStart 2 1) [sampleAddress])
        [.register sampleAddress, .grant sampleAddress,
          .download sampleAddress, .send sampleAddress sampleText] state := by
    refine path.mono ?_
    rintro source event target ⟨nothing, step⟩
    refine ⟨?_, step⟩
    intro flight member
    rw [nothing] at member
    cases member
  have serves := serves_sampleFlight submitModel_sampleAfter_zero
  rw [← server] at serves
  have delivers := deliver_publishes [[0, 0], [2, 2]] state inflight serves
    (by rw [server]; decide +kernel) (by rw [server]; decide +kernel)
  have handled : HandledBeforePoll state (.deliver sampleFlight) :=
    fun _ _ => id
  refine ⟨_, ?_, published_rounds_are_fair (fresh_sampleStart 2 (by decide))
    (by decide) (inTime.append (.single ⟨handled, delivers⟩))⟩
  rw [published, contributions, server]
  rfl

/--
The sample client polls again before its first model is handled, is told to
train again, and both models are handled one after the other.  The second
round publishes a model which was trained from the first global network.
-/
theorem early_poll_spoils_round :
    ∃ events state,
      Path (DeploymentStep samplePlatform [[0, 0], [2, 2]])
          (startDeployment (sampleStart 2 1) [sampleAddress]) events state ∧
        ∃ round ∈ state.published, ∃ contribution ∈ round.contributions,
          contribution.base ≠ round.basis := by
  rcases exists_sampleFlight
    with ⟨sent, path, server, phase, inflight, contributions, published⟩
  have polled :
      handle_get_checkmodelstatus (sampleAfter 0) sampleAddress = .ok 1 := by
    decide +kernel
  have polls :
      Serves samplePlatform sent.server
        (.poll sampleAddress, .status 1) sent.server := by
    rw [server, Serves, serve, polled]
    rfl
  have downloads : ∃ reply,
      Serves samplePlatform sent.server (.download, reply) sent.server := by
    rw [server]
    exact ⟨_, rfl⟩
  rcases downloads with ⟨reply, downloads⟩
  -- the second turn, while the first model is still in flight
  rcases exists_turn sent phase polls downloads carries_sampleText
    with ⟨again, turn, sameServer, -, flights, sameContributions, samePublished⟩
  rw [inflight, server] at flights
  have first := serves_sampleFlight submitModel_sampleAfter_zero
  rw [← server, ← sameServer] at first
  have second := serves_sampleFlight submitModel_sampleAfter_one
  have closesFirst := deliver_publishes [[0, 0], [2, 2]] again flights first
    (by rw [sameServer, server]; decide +kernel)
    (by rw [sameServer, server]; decide +kernel)
  have unfinished : ¬ (sampleAfter 1).control.Finished := by
    decide +kernel
  have closes :
      (sampleAfter 2).nodecontrol.currentinteraction ≠
        (sampleAfter 1).nodecontrol.currentinteraction := by
    decide +kernel
  have closesSecond := fun phase published =>
    deliver_publishes [[0, 0], [2, 2]]
      ⟨sampleAfter 1, phase, [sampleFlight], [], published⟩ rfl second
      unfinished closes
  refine ⟨_, _,
    (path.mono fun step => step.2).append
      ((turn.mono fun step => step.2).append
        (.cons closesFirst (.single (closesSecond _ _)))),
    _, List.mem_append_right _ (List.mem_singleton_self _),
    sampleFlight.contribution, List.mem_singleton_self _, ?_⟩
  show (sampleAfter 0).neuralnetwork ≠ (sampleAfter 1).neuralnetwork
  decide +kernel

end FederatedEdge.Federation
