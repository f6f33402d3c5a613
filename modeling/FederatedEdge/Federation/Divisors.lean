import FederatedEdge.Library.WrappedSum
import FederatedEdge.Server.Requests

/-!
# The divisor of the averages

The server keeps the counter sum of a round in a C `int`, and divides by it
when the round is closed.  Here the sum is computed in 32 bits, and the divisor
of each call of `FederatedAveraging` is made visible, whether or not the rest of
the publication succeeds.

The divisor is the mathematical sum of the counters received in the round, it
was computed without overflow and it is positive, exactly when the running sums
of these counters stay in range and their total is positive.  The server checks
neither, and a client which cannot open its dataset sends the counter 0.
-/

namespace FederatedEdge.Federation

open FederatedEdge.Library
open FederatedEdge.Network
open FederatedEdge.Server
open FederatedEdge.Json

/-! ## The server with a counter sum of 32 bits -/

/-- The sum of two C `int`s. -/
def addInt (left right : ℤ) : ℤ :=
  wrappedAdd 32 left right

/-- `storeSum` with a counter sum of 32 bits. -/
def storeSumInt (server : FederatedLearning) (sum : NeuralNetwork ℚ)
    (clienttrainingcounter : ℤ) : FederatedLearning :=
  { server with
    globalmodelstatus := 0
    trainingscounter := addInt server.trainingscounter clienttrainingcounter
    nodecontrol := { server.nodecontrol with neuralnetwork := sum } }

/--
`AggregationModel` with a counter sum of 32 bits.  Before the rest of it, it tells
the divisor with which it calls `FederatedAveraging`, if it does.
-/
def AggregationModelInt (platform : Platform) (server : FederatedLearning)
    (clientmodel : DecodedModel ℚ) :
    Exec (Option ℤ × Exec FederatedLearning) :=
  if server.nodecontrol.currentinteraction ≥
      server.nodecontrol.interactioncycle then
    .ok (none, .ok { server with globalmodelstatus := 0 })
  else do
    let clientneuralnetwork ← Exec.read clientmodel.neuralnetwork
    let sum ←
      FederatedAveragingSum server.nodecontrol.neuralnetwork
        clientneuralnetwork clientmodel.trainingscounter
    let summed := storeSumInt server sum clientmodel.trainingscounter
    let currentclientnode ←
      server.nodecontrol.nodelist.find fun node =>
        server.nodecontrol.currentinteraction = node.interaction
    match currentclientnode with
    | some _ => .ok (none, .ok { summed with globalmodelstatus := 1 })
    | none => .ok (some summed.trainingscounter, publishModel platform summed)

/-- `handle_clint_model_message` over the aggregation in 32 bits. -/
def handle_clint_model_messageInt (platform : Platform)
    (server : FederatedLearning) (message : List Char) (length : ℕ)
    (ip_addr : String) : Exec (Option ℤ × Exec FederatedLearning) :=
  match platform.cJSON_Parse (strndup message length) with
  | none => .ok (none, .ok server)
  | some json_model => do
      let currentclientnode ←
        server.nodecontrol.nodelist.find fun node => node.ip_id = ip_addr
      match JSONToFederatedLearning platform.toFloat json_model with
      | none => .ok (none, .ok server)
      | some clientmodel => do
          let address ← Exec.deref currentclientnode
          AggregationModelInt platform (countInteraction server address)
            clientmodel

/-- Serve a request and tell the divisor, if there is a division. -/
def serveInt (platform : Platform) (server : FederatedLearning) :
    Request → Exec (Option ℤ × Exec FederatedLearning)
  | .message ip_addr text =>
      handle_clint_model_messageInt platform server text text.length ip_addr
  | request => do
      let (after, _) ← serve platform server request
      .ok (none, .ok after)

/-- As long as the counter sum is exact, so is the aggregation. -/
theorem AggregationModelInt_eq {platform : Platform}
    {server : FederatedLearning} {clientmodel : DecodedModel ℚ}
    (exact :
      addInt server.trainingscounter clientmodel.trainingscounter =
        server.trainingscounter + clientmodel.trainingscounter) :
    (AggregationModelInt platform server clientmodel >>= Prod.snd) =
      AggregationModel platform server clientmodel := by
  have sameSum : ∀ sum,
      storeSumInt server sum clientmodel.trainingscounter =
        storeSum server sum clientmodel.trainingscounter := by
    intro sum
    rw [storeSumInt, exact]
    rfl
  unfold AggregationModelInt AggregationModel
  split
  · rfl
  · simp only [sameSum]
    cases Exec.read clientmodel.neuralnetwork with
    | error fault => rfl
    | ok network =>
        simp only [Exec.ok_bind]
        cases FederatedAveragingSum server.nodecontrol.neuralnetwork network
            clientmodel.trainingscounter with
        | error fault => rfl
        | ok sum =>
            simp only [Exec.ok_bind]
            cases server.nodecontrol.nodelist.find fun node =>
                server.nodecontrol.currentinteraction = node.interaction with
            | error fault => rfl
            | ok awaited => cases awaited <;> rfl

/-- The rounds are over. -/
def RoundsOver (server : FederatedLearning) : Prop :=
  server.nodecontrol.currentinteraction ≥ server.nodecontrol.interactioncycle

instance (server : FederatedLearning) : Decidable (RoundsOver server) := by
  unfold RoundsOver
  infer_instance

/-- What an aggregation divides by, and what it can do to the counter sum. -/
theorem AggregationModelInt_cases {platform : Platform}
    {server : FederatedLearning} {clientmodel : DecodedModel ℚ}
    {divisor : Option ℤ} {rest : Exec FederatedLearning}
    (calls :
      AggregationModelInt platform server clientmodel = .ok (divisor, rest)) :
    (RoundsOver server ∧ divisor = none ∧
        ∀ after, rest = .ok after →
          after.trainingscounter = server.trainingscounter) ∨
      ¬ RoundsOver server ∧
        ((divisor = none ∧
            ∀ after, rest = .ok after →
              after.trainingscounter =
                addInt server.trainingscounter clientmodel.trainingscounter) ∨
          (divisor =
              some (addInt server.trainingscounter
                clientmodel.trainingscounter) ∧
            ∀ after, rest = .ok after → after.trainingscounter = 0)) := by
  unfold AggregationModelInt at calls
  by_cases ended : RoundsOver server
  · have ended :
        server.nodecontrol.currentinteraction ≥
          server.nodecontrol.interactioncycle :=
      ended
    rw [if_pos ended, Except.ok.injEq, Prod.mk.injEq] at calls
    rcases calls with ⟨rfl, rfl⟩
    refine Or.inl ⟨ended, rfl, ?_⟩
    rintro after ⟨rfl⟩
    rfl
  · have running :
        ¬ server.nodecontrol.currentinteraction ≥
            server.nodecontrol.interactioncycle :=
      ended
    rw [if_neg running] at calls
    simp only [Exec.bind_eq_ok] at calls
    rcases calls with ⟨_, -, sum, -, awaited, -, calls⟩
    refine Or.inr ⟨ended, ?_⟩
    cases awaited with
    | some address =>
        simp only [Except.ok.injEq, Prod.mk.injEq] at calls
        rcases calls with ⟨rfl, rfl⟩
        refine Or.inl ⟨rfl, ?_⟩
        rintro after ⟨rfl⟩
        rfl
    | none =>
        simp only [Except.ok.injEq, Prod.mk.injEq] at calls
        rcases calls with ⟨rfl, rfl⟩
        refine Or.inr ⟨rfl, ?_⟩
        intro after published
        simp only [publishModel, Exec.bind_eq_ok, Except.ok.injEq] at published
        rcases published with ⟨_, -, _, -, _, -, _, -, _, -, rfl⟩
        rfl

/-! ## The counters of a round -/

/-- The counters received in the current round, and whether a sum overflowed. -/
structure Counters where
  received : List ℤ
  overflowed : Bool
deriving DecidableEq, Repr

namespace Counters

/-- At the beginning of a round. -/
def empty : Counters :=
  ⟨[], false⟩

/-- A counter is added to the counter sum of the server. -/
def receive (counters : Counters) (trainingscounter counter : ℤ) : Counters where
  received := counters.received ++ [counter]
  overflowed :=
    counters.overflowed ||
      decide (addInt trainingscounter counter ≠ trainingscounter + counter)

/-- The counter sum of the server is the one of these counters. -/
structure Tracks (counters : Counters) (trainingscounter : ℤ) : Prop where
  sum : trainingscounter = wrappedSum 32 counters.received
  overflowed : counters.overflowed = false ↔ NoOverflow 32 counters.received

theorem tracks_empty : Counters.empty.Tracks 0 :=
  ⟨rfl, iff_of_true rfl (noOverflow_nil 32)⟩

/-- Receiving a counter keeps track of the sum. -/
theorem Tracks.receive {counters : Counters} {trainingscounter : ℤ}
    (tracks : counters.Tracks trainingscounter) (counter : ℤ) :
    (counters.receive trainingscounter counter).Tracks
      (addInt trainingscounter counter) := by
  constructor
  · rw [Counters.receive, wrappedSum_concat, ← tracks.sum]
    rfl
  · rw [Counters.receive, Bool.or_eq_false_iff, tracks.overflowed,
      decide_eq_false_iff_not, not_not, noOverflow_concat_iff]
    apply and_congr_right
    intro fits
    rw [tracks.sum, wrappedSum_eq_sum (by norm_num) fits]
    exact wrappedAdd_eq_iff (by norm_num) _ _

/-- The division is by the mathematical sum, and by a positive one. -/
def Sound (counters : Counters) (divisor : ℤ) : Prop :=
  divisor = counters.received.sum ∧ counters.overflowed = false ∧ 0 < divisor

theorem Tracks.sound_iff {counters : Counters} {divisor : ℤ}
    (tracks : counters.Tracks divisor) :
    counters.Sound divisor ↔
      NoOverflow 32 counters.received ∧ 0 < counters.received.sum := by
  constructor
  · rintro ⟨sum, exact, positive⟩
    exact ⟨tracks.overflowed.mp exact, sum ▸ positive⟩
  · rintro ⟨fits, positive⟩
    have sum : divisor = counters.received.sum :=
      tracks.sum.trans (wrappedSum_eq_sum (by norm_num) fits)
    exact ⟨sum, tracks.overflowed.mpr fits, sum.symm ▸ positive⟩

end Counters

/-! ## Runs -/

/-- The server, and the counters it has received in the current round. -/
structure Counting where
  server : FederatedLearning
  counters : Counters

/-- The counters once the model of a message has been added. -/
def Counting.added (state : Counting) (clientmodel : DecodedModel ℚ) : Counters :=
  state.counters.receive state.server.trainingscounter
    clientmodel.trainingscounter

/-- The counters after a request; a division begins the next round. -/
def Counting.next (platform : Platform) (state : Counting) (request : Request)
    (divisor : Option ℤ) : Counters :=
  match request with
  | .message _ text =>
      match platform.decode text with
      | none => state.counters
      | some clientmodel =>
          if RoundsOver state.server then state.counters
          else if divisor.isSome then Counters.empty
          else state.added clientmodel
  | _ => state.counters

/-- One request, and the divisor if a round was closed. -/
def CountingStep (platform : Platform) (state : Counting)
    (event : Request × Option ℤ) (after : Counting) : Prop :=
  serveInt platform state.server event.1 = .ok (event.2, .ok after.server) ∧
    after.counters = state.next platform event.1 event.2

/-- The request calls `FederatedAveraging`, whatever happens after this. -/
def Divides (platform : Platform) (state : Counting) (request : Request)
    (divisor : ℤ) : Prop :=
  ∃ rest, serveInt platform state.server request = .ok (some divisor, rest)

/-- A server which has not received anything yet. -/
def startCounting (server : FederatedLearning) : Counting where
  server := server
  counters := Counters.empty

theorem handle_clint_model_messageInt_undecoded {platform : Platform}
    {server : FederatedLearning} {ip_addr : String} {text : List Char}
    {divisor : Option ℤ} {rest : Exec FederatedLearning}
    (undecoded : platform.decode text = none)
    (calls :
      handle_clint_model_messageInt platform server text text.length ip_addr =
        .ok (divisor, rest)) :
    divisor = none ∧ rest = .ok server := by
  rw [Platform.decode] at undecoded
  unfold handle_clint_model_messageInt at calls
  cases parsed : platform.cJSON_Parse (strndup text text.length) with
  | none =>
      simp only [parsed, Except.ok.injEq, Prod.mk.injEq] at calls
      exact ⟨calls.1.symm, calls.2.symm⟩
  | some json =>
      rw [parsed, Option.bind_some] at undecoded
      simp only [parsed, undecoded, Exec.bind_eq_ok, Except.ok.injEq,
        Prod.mk.injEq] at calls
      rcases calls with ⟨_, -, none, same⟩
      exact ⟨none.symm, same.symm⟩

/-- A message with a model counts for a node and is aggregated. -/
theorem handle_clint_model_messageInt_decoded {platform : Platform}
    {server : FederatedLearning} {ip_addr : String} {text : List Char}
    {clientmodel : DecodedModel ℚ} {divisor : Option ℤ}
    {rest : Exec FederatedLearning}
    (decoded : platform.decode text = some clientmodel)
    (calls :
      handle_clint_model_messageInt platform server text text.length ip_addr =
        .ok (divisor, rest)) :
    ∃ address,
      AggregationModelInt platform (countInteraction server address)
          clientmodel =
        .ok (divisor, rest) := by
  rcases Option.bind_eq_some_iff.mp decoded with ⟨json, parsed, decoded⟩
  simp only [handle_clint_model_messageInt, parsed, decoded,
    Exec.bind_eq_ok] at calls
  rcases calls with ⟨_, -, address, -, calls⟩
  exact ⟨address, calls⟩

/-- The other requests leave the counter sum alone. -/
theorem trainingscounter_serve {platform : Platform}
    {server after : FederatedLearning} {request : Request} {reply : Reply}
    (other : ∀ ip_addr text, request ≠ .message ip_addr text)
    (serves : serve platform server request = .ok (after, reply)) :
    after.trainingscounter = server.trainingscounter := by
  have opened : ∀ server : FederatedLearning,
      (openWhenComplete server).trainingscounter = server.trainingscounter := by
    intro server
    unfold openWhenComplete
    split <;> rfl
  cases request with
  | register ip_addr =>
      simp only [serve, Exec.bind_eq_ok, Except.ok.injEq, Prod.mk.injEq,
        Prod.exists] at serves
      rcases serves with ⟨next, status, registers, rfl, -⟩
      unfold handle_get_noderegister at registers
      split at registers
      · cases registers
        exact opened server
      · dsimp only at registers
        split at registers
        · cases registers
          rw [opened]
          rfl
        · simp only [Exec.bind_eq_ok] at registers
          rcases registers with ⟨found, -, registers⟩
          cases found with
          | some address =>
              cases registers
              exact opened server
          | none =>
              simp only [Exec.bind_eq_ok] at registers
              rcases registers with ⟨_, -, registers⟩
              cases registers
              rw [opened]
              rfl
  | poll ip_addr =>
      simp only [serve, Exec.bind_eq_ok, Except.ok.injEq, Prod.mk.injEq]
        at serves
      rcases serves with ⟨_, -, rfl, -⟩
      rfl
  | download =>
      rw [FederatedLearning.serves_download serves]
  | message ip_addr text => exact (other ip_addr text rfl).elim

/-- A request without a message divides nothing and counts nothing. -/
theorem CountingStep.keeps_of_other {platform : Platform}
    {state after : Counting} {event : Request × Option ℤ}
    (step : CountingStep platform state event after)
    (other : ∀ ip_addr text, event.1 ≠ .message ip_addr text) :
    event.2 = none ∧
      after.server.trainingscounter = state.server.trainingscounter ∧
        after.counters = state.counters := by
  rcases step with ⟨serves, counters⟩
  rcases event with ⟨request, divisor⟩
  have dispatch :
      serveInt platform state.server request =
          (serve platform state.server request >>= fun result =>
            .ok (none, .ok result.1)) ∧
        state.next platform request divisor = state.counters := by
    cases request with
    | message ip_addr text => exact (other ip_addr text rfl).elim
    | _ => exact ⟨rfl, rfl⟩
  rw [dispatch.1] at serves
  simp only [Exec.bind_eq_ok, Except.ok.injEq, Prod.mk.injEq, Prod.exists]
    at serves
  rcases serves with ⟨next, reply, served, none, finishes⟩
  rw [finishes] at served
  exact ⟨none.symm, trainingscounter_serve other served,
    counters.trans dispatch.2⟩

/-- What a message with a model does to the counter sum and the counters. -/
theorem CountingStep.cases_of_decoded {platform : Platform}
    {state after : Counting} {ip_addr : String} {text : List Char}
    {divisor : Option ℤ} {clientmodel : DecodedModel ℚ}
    (decoded : platform.decode text = some clientmodel)
    (step :
      CountingStep platform state (.message ip_addr text, divisor) after) :
    (divisor = none ∧
        after.server.trainingscounter = state.server.trainingscounter ∧
        after.counters = state.counters) ∨
      (divisor = none ∧
          after.server.trainingscounter =
            addInt state.server.trainingscounter
              clientmodel.trainingscounter ∧
          after.counters = state.added clientmodel) ∨
        (divisor =
            some (addInt state.server.trainingscounter
              clientmodel.trainingscounter) ∧
          after.server.trainingscounter = 0 ∧
          after.counters = Counters.empty) := by
  rcases step with ⟨serves, counters⟩
  rcases handle_clint_model_messageInt_decoded decoded serves
    with ⟨address, aggregates⟩
  rw [Counting.next, decoded] at counters
  rcases AggregationModelInt_cases aggregates
    with ⟨ended, rfl, same⟩ | ⟨running, ⟨rfl, sum⟩ | ⟨rfl, reset⟩⟩
  · have complete : RoundsOver state.server := ended
    simp only [if_pos complete] at counters
    exact Or.inl ⟨rfl, same _ rfl, counters⟩
  · have unfinished : ¬ RoundsOver state.server := running
    simp only [if_neg unfinished] at counters
    exact Or.inr (Or.inl ⟨rfl, sum _ rfl, counters⟩)
  · have unfinished : ¬ RoundsOver state.server := running
    simp only [if_neg unfinished] at counters
    exact Or.inr (Or.inr ⟨rfl, reset _ rfl, counters⟩)

/-- What a step does to the counter sum and the counters. -/
theorem CountingStep.cases {platform : Platform} {state after : Counting}
    {event : Request × Option ℤ} (step : CountingStep platform state event after) :
    (event.2 = none ∧
        after.server.trainingscounter = state.server.trainingscounter ∧
        after.counters = state.counters) ∨
      ∃ ip_addr text clientmodel,
        event.1 = .message ip_addr text ∧
          platform.decode text = some clientmodel ∧
          ((event.2 = none ∧
              after.server.trainingscounter =
                addInt state.server.trainingscounter
                  clientmodel.trainingscounter ∧
              after.counters = state.added clientmodel) ∨
            (event.2 =
                some (addInt state.server.trainingscounter
                  clientmodel.trainingscounter) ∧
              after.server.trainingscounter = 0 ∧
              after.counters = Counters.empty)) := by
  by_cases isMessage : ∃ ip_addr text, event.1 = .message ip_addr text
  · rcases event with ⟨request, divisor⟩
    rcases isMessage with ⟨ip_addr, text, rfl⟩
    cases decoded : platform.decode text with
    | none =>
        rcases step with ⟨serves, counters⟩
        rcases handle_clint_model_messageInt_undecoded decoded serves
          with ⟨none, same⟩
        rw [Counting.next, decoded] at counters
        exact Or.inl ⟨none, by rw [Except.ok.inj same], counters⟩
    | some clientmodel =>
        exact (step.cases_of_decoded decoded).imp_right fun counts =>
          ⟨ip_addr, text, clientmodel, rfl, decoded, counts⟩
  · exact Or.inl (step.keeps_of_other fun ip_addr text same =>
      isMessage ⟨ip_addr, text, same⟩)

/-- The counters keep track of the counter sum of the server. -/
def Counting.Tracked (state : Counting) : Prop :=
  state.counters.Tracks state.server.trainingscounter

theorem Counting.Tracked.step {platform : Platform} {state after : Counting}
    {event : Request × Option ℤ} (tracked : state.Tracked)
    (step : CountingStep platform state event after) : after.Tracked := by
  rcases step.cases
    with ⟨-, same, counters⟩ | ⟨_, _, clientmodel, -, -, gained | closed⟩
  · rw [Counting.Tracked, same, counters]
    exact tracked
  · rcases gained with ⟨-, sum, counters⟩
    rw [Counting.Tracked, sum, counters]
    exact tracked.receive clientmodel.trainingscounter
  · rcases closed with ⟨-, reset, counters⟩
    rw [Counting.Tracked, reset, counters]
    exact Counters.tracks_empty

/--
In every run of the server, each division is by the sum of the counters
received in its round, computed without overflow and positive, exactly when no
running sum of these counters leaves the range of an `int` and their total is
positive.
-/
theorem divisor_sound_iff {platform : Platform}
    (layersconfig : List LayerConfig) (rand : ℕ → ℕ → ℕ → ℕ)
    (interactioncycle clientnodes : ℤ)
    {events : List (Request × Option ℤ)} {state : Counting}
    (run :
      Path (CountingStep platform)
        (startCounting
          (startServer layersconfig rand interactioncycle clientnodes))
        events state)
    {ip_addr : String} {text : List Char} {clientmodel : DecodedModel ℚ}
    {divisor : ℤ} (decoded : platform.decode text = some clientmodel)
    (divides : Divides platform state (.message ip_addr text) divisor) :
    (state.added clientmodel).Sound divisor ↔
      NoOverflow 32 (state.added clientmodel).received ∧
        0 < (state.added clientmodel).received.sum := by
  have tracked : state.Tracked := by
    apply run.invariant Counting.Tracked _ Counters.tracks_empty
    intro source event target step tracked
    exact tracked.step step
  apply Counters.Tracks.sound_iff
  rcases divides with ⟨rest, calls⟩
  rcases handle_clint_model_messageInt_decoded decoded calls
    with ⟨address, aggregates⟩
  rcases AggregationModelInt_cases aggregates
    with ⟨-, none, -⟩ | ⟨-, ⟨none, -⟩ | ⟨some, -⟩⟩
  · cases none
  · cases none
  · rw [Option.some.inj some]
    exact tracked.receive clientmodel.trainingscounter

/-! ## A client without a dataset -/

/-- The sample model with another training counter. -/
def counterJson (trainingscounter : ℚ) : CJson :=
  match sampleJson with
  | .object (_ :: fields) =>
      .object (("trainingscounter", .number trainingscounter) :: fields)
  | json => json

/-- The sample text with the training counter 0. -/
def zeroText : List Char :=
  sampleText.set 20 '0'

/-- A platform which parses the sample text with either counter. -/
def counterPlatform : Platform :=
  { samplePlatform with
    cJSON_Parse := fun text =>
      if text = sampleText then some (counterJson 2)
      else if text = zeroText then some (counterJson 0)
      else none }

/-- The sample client after its registration. -/
def countingRegistered : Counting where
  server := sampleRegistered 1
  counters := Counters.empty

theorem countingRegistered_run :
    Path (CountingStep counterPlatform) (startCounting (sampleStart 1 1))
      [(.register sampleAddress, none)] countingRegistered :=
  .single ⟨rfl, rfl⟩

/-- What the first component of an outcome says. -/
theorem divides_of_fst {platform : Platform} {state : Counting}
    {request : Request} {divisor : ℤ}
    (divides :
      (serveInt platform state.server request).map Prod.fst =
        .ok (some divisor)) :
    Divides platform state request divisor := by
  cases served : serveInt platform state.server request with
  | error fault =>
      rw [served] at divides
      cases divides
  | ok result =>
      rw [served] at divides
      exact ⟨result.2, by rw [served, ← Except.ok.inj divides]⟩

/-- The address of a second client. -/
def secondAddress : String :=
  "10.0.0.3"

/-- Two clients have registered. -/
def countingBoth : Counting where
  server :=
    { storeNodes sampleHalf
        (LinkedList.ofList [⟨sampleAddress, 0⟩, ⟨secondAddress, 0⟩]) with
      globalmodelstatus := 1 }
  counters := Counters.empty

/-- The first of them has sent its model. -/
def countingHalf : Counting where
  server :=
    (handle_clint_model_message counterPlatform countingBoth.server sampleText
      sampleText.length sampleAddress).toOption.getD sampleHalf
  counters := ⟨[2], false⟩

theorem countingHalf_run :
    Path (CountingStep counterPlatform) (startCounting (sampleStart 1 2))
      [(.register sampleAddress, none), (.register secondAddress, none),
        (.message sampleAddress sampleText, none)] countingHalf := by
  have first :
      CountingStep counterPlatform (startCounting (sampleStart 1 2))
        (.register sampleAddress, none) ⟨sampleHalf, Counters.empty⟩ :=
    ⟨rfl, rfl⟩
  have second :
      CountingStep counterPlatform ⟨sampleHalf, Counters.empty⟩
        (.register secondAddress, none) countingBoth :=
    ⟨by decide +kernel, rfl⟩
  have third :
      CountingStep counterPlatform countingBoth
        (.message sampleAddress sampleText, none) countingHalf :=
    ⟨by decide +kernel, by decide +kernel⟩
  exact .cons first (.cons second (.single third))

/-- Two clients with the counter 2 make a division by 4. -/
theorem divisor_sound_iff_sample :
    ∃ clientmodel, counterPlatform.decode sampleText = some clientmodel ∧
      Divides counterPlatform countingHalf
          (.message secondAddress sampleText) 4 ∧
        (countingHalf.added clientmodel).Sound 4 := by
  have divides :
      Divides counterPlatform countingHalf
        (.message secondAddress sampleText) 4 :=
    divides_of_fst (by decide +kernel)
  have counter :
      (counterPlatform.decode sampleText).map DecodedModel.trainingscounter =
        some 2 := by
    decide +kernel
  rcases Option.map_eq_some_iff.mp counter with ⟨clientmodel, decoded, two⟩
  have received : (countingHalf.added clientmodel).received = [2, 2] := by
    rw [Counting.added, Counters.receive, two]
    rfl
  refine ⟨clientmodel, decoded, divides,
    (divisor_sound_iff sampleConfig (fun _ _ _ => 0) 1 2 countingHalf_run decoded
      divides).mpr ?_⟩
  rw [received]
  have fits : NoOverflow 32 ([] ++ [2] ++ [2]) :=
    noOverflow_concat_iff.mpr
      ⟨noOverflow_concat_iff.mpr ⟨noOverflow_nil 32, by decide⟩, by decide⟩
  exact ⟨fits, by decide⟩

/-- With the counter 0 the round is closed by a division by zero. -/
theorem division_by_zero :
    ∃ clientmodel,
      counterPlatform.decode zeroText = some clientmodel ∧
        clientmodel.trainingscounter = 0 ∧
        Path (CountingStep counterPlatform) (startCounting (sampleStart 1 1))
          [(.register sampleAddress, none)] countingRegistered ∧
        Divides counterPlatform countingRegistered
          (.message sampleAddress zeroText) 0 ∧
        ¬ (countingRegistered.added clientmodel).Sound 0 := by
  have divides :
      Divides counterPlatform countingRegistered
        (.message sampleAddress zeroText) 0 :=
    divides_of_fst (by decide +kernel)
  have counter :
      (counterPlatform.decode zeroText).map DecodedModel.trainingscounter =
        some 0 := by
    decide +kernel
  rcases Option.map_eq_some_iff.mp counter with ⟨clientmodel, decoded, zero⟩
  refine ⟨clientmodel, decoded, zero, countingRegistered_run, divides, ?_⟩
  rintro ⟨-, -, positive⟩
  exact lt_irrefl _ positive

end FederatedEdge.Federation
