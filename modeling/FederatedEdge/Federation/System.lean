import FederatedEdge.Federation.Permissions

/-!
# The server and its clients

Each client runs `app_main`: it registers and then repeats `deep_learning`,
that is it polls, downloads the global model, trains and sends its own.  HTTP
requests are answered at once.  A sent model stays in flight, over the network
and in the message buffer of the server, and is handled at some later time and
in any order.

A poll answered with 0 ends the loop of a client.  The system also lets a
client poll again instead, so that both readings of the loop are covered.

The published rounds are recorded with the contributions they contain.  When
no client polls while a message of its own is in flight, the system runs with
permissions.
-/

namespace FederatedEdge.Federation

open FederatedEdge.Library
open FederatedEdge.Network
open FederatedEdge.Server
open FederatedEdge.Server.FederatedLearning

/-- Where a client is in `app_main`. -/
inductive Phase where
  | absent
  | booting
  | polling
  | granted
  | holding (base : NeuralNetwork ℚ)
  | left

/-- The client has been told to train and has not sent its model yet. -/
def Phase.Training : Phase → Prop
  | .granted => True
  | .holding _ => True
  | _ => False

/-- A model on its way, with the global network it was trained from. -/
structure Flight where
  ip_id : String
  text : List Char
  base : NeuralNetwork ℚ

/-- A model which the server has aggregated. -/
structure Contribution where
  ip_id : String
  base : NeuralNetwork ℚ

/-- A closed round: its contributions, and the global network during it. -/
structure PublishedRound where
  contributions : List Contribution
  basis : NeuralNetwork ℚ

structure Deployment where
  server : FederatedLearning
  phase : String → Phase
  inflight : List Flight
  contributions : List Contribution
  published : List PublishedRound

inductive Event where
  | register (ip_addr : String)
  | grant (ip_addr : String)
  | retry (ip_addr : String)
  | leave (ip_addr : String)
  | download (ip_addr : String)
  | send (ip_addr : String) (text : List Char)
  | deliver (flight : Flight)

namespace Deployment

/-- A client enters another phase. -/
def enter (state : Deployment) (ip_addr : String) (phase : Phase) : Deployment :=
  { state with phase := Function.update state.phase ip_addr phase }

/--
Record what the server did with a delivered model: it dropped it after the
last round, took it in, or took it in and closed the round.
-/
def record (state : Deployment) (flight : Flight) (after : FederatedLearning) :
    Deployment :=
  let contributions :=
    state.contributions ++ [⟨flight.ip_id, flight.base⟩]
  if state.server.control.Finished then { state with server := after }
  else if after.nodecontrol.currentinteraction =
      state.server.nodecontrol.currentinteraction then
    { state with server := after, contributions := contributions }
  else
    { state with
      server := after
      contributions := []
      published :=
        state.published ++ [⟨contributions, state.server.neuralnetwork⟩] }

end Deployment

/-- The steps of the server and its clients. -/
inductive DeploymentStep (platform : Platform) (shape : Shape) :
    Deployment → Event → Deployment → Prop where
  | register {state : Deployment} {ip_addr reply after}
      (phase : state.phase ip_addr = .booting)
      (serves :
        Serves platform state.server (.register ip_addr, reply) after) :
      DeploymentStep platform shape state (.register ip_addr)
        { state.enter ip_addr .polling with server := after }
  | grant {state : Deployment} {ip_addr after}
      (phase : state.phase ip_addr = .polling)
      (serves :
        Serves platform state.server (.poll ip_addr, .status 1) after) :
      DeploymentStep platform shape state (.grant ip_addr)
        { state.enter ip_addr .granted with server := after }
  | retry {state : Deployment} {ip_addr after}
      (phase : state.phase ip_addr = .polling)
      (serves :
        Serves platform state.server (.poll ip_addr, .status 0) after) :
      DeploymentStep platform shape state (.retry ip_addr)
        { state with server := after }
  | leave {state : Deployment} {ip_addr after}
      (phase : state.phase ip_addr = .polling)
      (serves :
        Serves platform state.server (.poll ip_addr, .status 0) after) :
      DeploymentStep platform shape state (.leave ip_addr)
        { state.enter ip_addr .left with server := after }
  | download {state : Deployment} {ip_addr reply after}
      (phase : state.phase ip_addr = .granted)
      (serves : Serves platform state.server (.download, reply) after) :
      DeploymentStep platform shape state (.download ip_addr)
        { state.enter ip_addr (.holding state.server.neuralnetwork) with
          server := after }
  | send {state : Deployment} {ip_addr text base}
      (phase : state.phase ip_addr = .holding base)
      (complete : platform.Carries shape text) :
      DeploymentStep platform shape state (.send ip_addr text)
        { state.enter ip_addr .polling with
          inflight := state.inflight ++ [⟨ip_addr, text, base⟩] }
  | deliver {state : Deployment} {front back flight reply after}
      (inflight : state.inflight = front ++ flight :: back)
      (serves :
        Serves platform state.server
          (.message flight.ip_id flight.text, reply) after) :
      DeploymentStep platform shape state (.deliver flight)
        { state.record flight after with inflight := front ++ back }

/-- The event is a poll of this client. -/
def Event.PollOf (ip_addr : String) : Event → Prop
  | .grant other => other = ip_addr
  | .retry other => other = ip_addr
  | .leave other => other = ip_addr
  | _ => False

/-- No client polls while a message of its own is in flight. -/
def HandledBeforePoll (state : Deployment) (event : Event) : Prop :=
  ∀ flight ∈ state.inflight, ¬ event.PollOf flight.ip_id

/-- The clients before anything happened. -/
def startDeployment (server : FederatedLearning) (clients : List String) :
    Deployment where
  server := server
  phase ip_addr := if ip_addr ∈ clients then .booting else .absent
  inflight := []
  contributions := []
  published := []

/-! ## Permissions of the clients -/

namespace Deployment

/-- The client has been told to train, and its model is not handled yet. -/
def Permits (state : Deployment) (ip_addr : String) : Prop :=
  (state.phase ip_addr).Training ∨
    ∃ flight ∈ state.inflight, flight.ip_id = ip_addr

/-- The server with the permissions of its clients. -/
def supervised (state : Deployment) : Supervised where
  server := state.server
  permitted := {ip_addr | state.Permits ip_addr}

end Deployment

/-- One message in flight per client, and complete; its client is polling. -/
structure Flights (platform : Platform) (shape : Shape) (state : Deployment) :
    Prop where
  distinct : (state.inflight.map Flight.ip_id).Nodup
  polling : ∀ flight ∈ state.inflight, state.phase flight.ip_id = .polling
  complete : ∀ flight ∈ state.inflight, platform.Carries shape flight.text

variable {platform : Platform} {shape : Shape} {state next : Deployment}
  {event : Event}

theorem phase_enter_self (state : Deployment) (ip_addr : String) (phase : Phase) :
    (state.enter ip_addr phase).phase ip_addr = phase :=
  Function.update_self _ _ _

theorem phase_enter_of_ne (state : Deployment) {ip_addr other : String}
    (phase : Phase) (different : other ≠ ip_addr) :
    (state.enter ip_addr phase).phase other = state.phase other :=
  Function.update_of_ne different _ _

/-- A client in another phase has no message in flight. -/
theorem Flights.none_of_phase (flights : Flights platform shape state)
    (ip_addr : String) (elsewhere : state.phase ip_addr ≠ .polling) :
    ∀ flight ∈ state.inflight, flight.ip_id ≠ ip_addr := by
  rintro flight member rfl
  exact elsewhere (flights.polling flight member)

/-- The messages in flight are the delivered one and the remaining ones. -/
theorem mem_inflight_iff {front back : List Flight} {flight other : Flight}
    (inflight : state.inflight = front ++ flight :: back) :
    other ∈ state.inflight ↔ other = flight ∨ other ∈ front ++ back := by
  rw [inflight, List.mem_append, List.mem_cons, List.mem_append]
  exact or_left_comm

/-- No other message of the client of a delivered one is in flight. -/
theorem Flights.alone (flights : Flights platform shape state)
    {front back : List Flight} {flight : Flight}
    (inflight : state.inflight = front ++ flight :: back) :
    ∀ other ∈ front ++ back, other.ip_id ≠ flight.ip_id := by
  intro other isOther same
  have distinct := flights.distinct
  rw [inflight, List.map_append, List.map_cons] at distinct
  have first := (List.nodup_middle.mp distinct).notMem
  rw [← List.map_append, ← same] at first
  exact first (List.mem_map_of_mem isOther)

@[simp]
theorem phase_record (state : Deployment) (flight : Flight)
    (after : FederatedLearning) :
    (state.record flight after).phase = state.phase := by
  unfold Deployment.record
  split
  · rfl
  · split <;> rfl

@[simp]
theorem server_record (state : Deployment) (flight : Flight)
    (after : FederatedLearning) :
    (state.record flight after).server = after := by
  unfold Deployment.record
  split
  · rfl
  · split <;> rfl

/-- The flights stay in order while nobody polls too early. -/
theorem Flights.step (flights : Flights platform shape state)
    (handled : HandledBeforePoll state event)
    (step : DeploymentStep platform shape state event next) :
    Flights platform shape next := by
  have entering : ∀ {ip_addr : String} {phase : Phase},
      (∀ flight ∈ state.inflight, flight.ip_id ≠ ip_addr) →
        ∀ flight ∈ state.inflight,
          (state.enter ip_addr phase).phase flight.ip_id = .polling := by
    intro ip_addr phase none flight member
    rw [phase_enter_of_ne _ _ (none flight member)]
    exact flights.polling flight member
  cases step with
  | register phase serves =>
      refine ⟨flights.distinct, entering ?_, flights.complete⟩
      exact flights.none_of_phase _ (by rw [phase]; simp)
  | grant phase serves =>
      refine ⟨flights.distinct, entering ?_, flights.complete⟩
      intro flight member same
      exact handled flight member same.symm
  | retry phase serves =>
      exact ⟨flights.distinct, flights.polling, flights.complete⟩
  | leave phase serves =>
      refine ⟨flights.distinct, entering ?_, flights.complete⟩
      intro flight member same
      exact handled flight member same.symm
  | download phase serves =>
      refine ⟨flights.distinct, entering ?_, flights.complete⟩
      exact flights.none_of_phase _ (by rw [phase]; simp)
  | @send ip_addr text base phase complete =>
      have none := flights.none_of_phase ip_addr (by rw [phase]; simp)
      refine ⟨?_, ?_, ?_⟩
      · rw [List.map_append, List.nodup_append]
        refine ⟨flights.distinct, by simp, ?_⟩
        rintro left leftMember right rightMember rfl
        rcases List.mem_map.mp leftMember with ⟨flight, member, same⟩
        exact none flight member (same.trans (List.mem_singleton.mp rightMember))
      · intro flight member
        rcases List.mem_append.mp member with old | new
        · exact entering none flight old
        · rw [List.mem_singleton.mp new]
          exact phase_enter_self _ _ _
      · intro flight member
        rcases List.mem_append.mp member with old | new
        · exact flights.complete flight old
        · rw [List.mem_singleton.mp new]
          exact complete
  | @deliver front back flight reply after inflight serves =>
      have kept : ∀ other ∈ front ++ back, other ∈ state.inflight :=
        fun other remaining => (mem_inflight_iff inflight).mpr (Or.inr remaining)
      have distinct := flights.distinct
      rw [inflight] at distinct
      refine ⟨?_, ?_, fun other member => flights.complete other (kept other member)⟩
      · refine List.Nodup.sublist ?_ distinct
        exact (List.Sublist.append_left (List.sublist_cons_self _ _) _).map _
      · intro other member
        show (state.record flight after).phase other.ip_id = _
        rw [phase_record]
        exact flights.polling other (kept other member)

/-! ## The system runs with permissions -/

/-- Entering a phase of the same kind changes no permission. -/
theorem permits_enter_iff {ip_addr other : String} {phase : Phase}
    (sameKind : phase.Training ↔ (state.phase ip_addr).Training) :
    (state.enter ip_addr phase).Permits other ↔ state.Permits other := by
  by_cases same : other = ip_addr
  · subst same
    rw [Deployment.Permits, phase_enter_self, sameKind]
    rfl
  · rw [Deployment.Permits, phase_enter_of_ne _ _ same]
    rfl

theorem permits_grant_iff (state : Deployment) (ip_addr other : String) :
    (state.enter ip_addr .granted).Permits other ↔
      other = ip_addr ∨ state.Permits other := by
  by_cases same : other = ip_addr
  · subst same
    rw [Deployment.Permits, phase_enter_self]
    simp [Phase.Training]
  · rw [Deployment.Permits, phase_enter_of_ne _ _ same]
    simp [same, Deployment.Permits, Deployment.enter]

theorem supervised_eq (permitted : Set String)
    (same : ∀ ip_addr, next.Permits ip_addr ↔ ip_addr ∈ permitted) :
    next.supervised = ⟨next.server, permitted⟩ := by
  rw [Deployment.supervised]
  congr 1
  ext ip_addr
  exact same ip_addr

theorem disciplined_of_permits {exchange : Exchange} (permitted : Set String)
    (same : ∀ ip_addr, next.Permits ip_addr ↔ ip_addr ∈ permitted)
    (disciplined :
      Disciplined platform shape state.supervised exchange
        ⟨next.server, permitted⟩) :
    ∃ exchange, Disciplined platform shape state.supervised exchange
      next.supervised := by
  rw [supervised_eq permitted same]
  exact ⟨exchange, disciplined⟩

/-- Sending moves the permission from the client to the message. -/
theorem permits_send_iff {ip_addr other : String} {text : List Char}
    {base : NeuralNetwork ℚ} (phase : state.phase ip_addr = .holding base) :
    Deployment.Permits
        { state.enter ip_addr .polling with
          inflight := state.inflight ++ [⟨ip_addr, text, base⟩] } other ↔
      state.Permits other := by
  by_cases same : other = ip_addr
  · subst same
    constructor
    · intro _
      left
      rw [phase]
      trivial
    · intro _
      right
      exact ⟨_, List.mem_append_right _ List.mem_cons_self, rfl⟩
  · have different : ip_addr ≠ other := fun equal => same equal.symm
    simp only [Deployment.Permits, phase_enter_of_ne state .polling same,
      List.mem_append, List.mem_singleton, or_and_right, exists_or,
      exists_eq_left, different, or_false]

/-- Delivering a message uses the permission of its client. -/
theorem permits_deliver_iff (flights : Flights platform shape state)
    {front back : List Flight} {flight : Flight} {other : String}
    (inflight : state.inflight = front ++ flight :: back)
    (after : FederatedLearning) :
    Deployment.Permits
        { state.record flight after with inflight := front ++ back } other ↔
      other ∈ state.supervised.permitted \ {flight.ip_id} := by
  have member : flight ∈ state.inflight :=
    (mem_inflight_iff inflight).mpr (Or.inl rfl)
  show (((state.record flight after).phase other).Training ∨
      ∃ rest ∈ front ++ back, rest.ip_id = other) ↔
    state.Permits other ∧ other ≠ flight.ip_id
  rw [phase_record]
  constructor
  · rintro (training | ⟨rest, restMember, rfl⟩)
    · refine ⟨Or.inl training, ?_⟩
      rintro rfl
      rw [flights.polling flight member] at training
      exact training
    · exact ⟨Or.inr ⟨rest, (mem_inflight_iff inflight).mpr (Or.inr restMember),
        rfl⟩, flights.alone inflight rest restMember⟩
  · rintro ⟨training | ⟨rest, restMember, rfl⟩, different⟩
    · exact Or.inl training
    · rcases (mem_inflight_iff inflight).mp restMember with rfl | remaining
      · exact (different rfl).elim
      · exact Or.inr ⟨rest, remaining, rfl⟩

/-- Each step is a disciplined one, or happens on the side of a client. -/
theorem disciplined_or_same (orderly : Orderly shape state.supervised)
    (flights : Flights platform shape state)
    (step : DeploymentStep platform shape state event next) :
    next.supervised = state.supervised ∨
      ∃ exchange, Disciplined platform shape state.supervised exchange
        next.supervised := by
  cases step with
  | @register ip_addr reply after phase serves =>
      right
      exact disciplined_of_permits state.supervised.permitted
        (fun _ => permits_enter_iff (by rw [phase]; rfl)) (.register serves)
  | @grant ip_addr after phase serves =>
      right
      exact disciplined_of_permits (insert ip_addr state.supervised.permitted)
        (fun other => permits_grant_iff state ip_addr other) (.granted serves)
  | @retry ip_addr after phase serves =>
      left
      rcases serves_poll orderly.registry serves with ⟨rfl, -⟩
      rfl
  | @leave ip_addr after phase serves =>
      right
      exact disciplined_of_permits state.supervised.permitted
        (fun _ => permits_enter_iff (by rw [phase]; rfl)) (.refused serves)
  | @download ip_addr reply after phase serves =>
      right
      exact disciplined_of_permits state.supervised.permitted
        (fun _ => permits_enter_iff (by rw [phase]; rfl)) (.download serves)
  | @send ip_addr text base phase complete =>
      left
      exact supervised_eq state.supervised.permitted
        fun _ => permits_send_iff phase
  | @deliver front back flight reply after inflight serves =>
      right
      have member : flight ∈ state.inflight :=
        (mem_inflight_iff inflight).mpr (Or.inl rfl)
      have disciplined :
          Disciplined platform shape state.supervised
            (.message flight.ip_id flight.text, reply)
            ⟨(state.record flight after).server,
              state.supervised.permitted \ {flight.ip_id}⟩ := by
        rw [server_record]
        exact .submit (Or.inr ⟨flight, member, rfl⟩)
          (flights.complete flight member) serves
      exact disciplined_of_permits
        (state.supervised.permitted \ {flight.ip_id})
        (fun _ => permits_deliver_iff flights inflight after) disciplined

/-- The invariant of the system, as far as the clients poll in time. -/
structure Sound (platform : Platform) (shape : Shape) (state : Deployment) :
    Prop where
  orderly : Orderly shape state.supervised
  flights : Flights platform shape state

theorem Sound.step (sound : Sound platform shape state)
    (step :
      Restricted HandledBeforePoll (DeploymentStep platform shape) state event
        next) :
    Sound platform shape next := by
  refine ⟨?_, sound.flights.step step.1 step.2⟩
  rcases disciplined_or_same sound.orderly sound.flights step.2
    with same | ⟨exchange, disciplined⟩
  · rw [same]
    exact sound.orderly
  · exact sound.orderly.step disciplined

/-- A fresh server whose clients have not booted yet. -/
theorem Sound.of_fresh {server : FederatedLearning} {clients : List String}
    (fresh : server.Fresh shape) (some : 1 ≤ server.nodecontrol.clientnodes) :
    Sound platform shape (startDeployment server clients) := by
  constructor
  · rw [supervised_eq ∅]
    · exact Orderly.of_fresh fresh some
    · intro ip_addr
      rw [Deployment.Permits, startDeployment]
      by_cases client : ip_addr ∈ clients <;> simp [client, Phase.Training]
  · exact ⟨List.nodup_nil, by rintro flight ⟨⟩, by rintro flight ⟨⟩⟩

end FederatedEdge.Federation
