import FederatedEdge.Federation.ConfiguredForms
import FederatedEdge.Server.Requests
import Mathlib.Tactic.Linarith

/-!
# Rounds of averages

Every registered client submits one complete model per round.  The server
publishes the weighted mean of each round, and its accumulator always holds
the weighted sum of the current round, exactly when nothing is left over from
one round to the next: when the weighted sums of the biases which the reset
forgets vanish in every closed round, and when the rounds can be closed at all:
the old global network can be freed, and the evaluation of the new one has room
for the fields of its records.
-/

namespace FederatedEdge.Federation

open FederatedEdge.Library
open FederatedEdge.Network
open FederatedEdge.Server
open FederatedEdge.Server.FederatedLearning

/-- A decoded model and the address it came from. -/
structure Submission where
  ip_id : String
  model : DecodedModel ℚ

/-- The training counter and the vector of the submitted model. -/
def Submission.contribution (submission : Submission) : ℚ × (Position → ℚ) :=
  submission.model.contribution

/-- Handle the submissions in order. -/
def submitAll (platform : Platform) (server : FederatedLearning)
    (submissions : List Submission) : Exec FederatedLearning :=
  submissions.foldlM
    (fun server submission =>
      submitModel platform server submission.ip_id submission.model)
    server

/-- Each of the named clients submits one complete model. -/
structure Round (names : List String) (shape : Shape)
    (round : List Submission) : Prop where
  everyone : (round.map Submission.ip_id).Perm names
  complete : ∀ submission ∈ round, submission.model.Complete shape
  positive : ∀ submission ∈ round, 0 < submission.model.trainingscounter

/-- Some but not all of the named clients submit one complete model each. -/
structure Begun (names : List String) (shape : Shape)
    (pending : List Submission) : Prop where
  distinct : (pending.map Submission.ip_id).Nodup
  known : ∀ submission ∈ pending, submission.ip_id ∈ names
  unclosed : ∃ name ∈ names, name ∉ pending.map Submission.ip_id
  complete : ∀ submission ∈ pending, submission.model.Complete shape
  positive : ∀ submission ∈ pending, 0 < submission.model.trainingscounter

/-- All clients are registered and awaited, and nothing has been summed up. -/
structure Configured (shape : Shape) (server : FederatedLearning) : Prop where
  registry : server.Registry
  occupied : server.control.names ≠ []
  awaited : ∀ name ∈ server.control.names, server.control.barrier.Awaited name
  models : server.Models shape
  counted : server.accumulator.Counted
  clean : server.ledger = Accumulator.zero
  freeable : server.Freeable

/--
The server got here, its accumulator holds the weighted sum of the current
round, and its global network is the weighted mean of the last closed one.
-/
def Exact (platform : Platform) (server : FederatedLearning)
    (done : List (List Submission)) (part : List Submission) : Prop :=
  ∃ after,
    submitAll platform server (done.flatten ++ part) = .ok after ∧
      after.accumulator.parameters.value =
        weightedSum (part.map Submission.contribution) ∧
      ∀ round, done.getLast? = some round →
        after.published = weightedMean (round.map Submission.contribution)

/--
What closing a round asks for when `number` rounds have been closed before: layers
with neurons, no list with exactly one element when the global network is a copy,
and room for the records of the evaluation.
-/
structure ClosesAfter (platform : Platform) (shape : Shape)
    (server : FederatedLearning) (number : ℕ) : Prop where
  inhabited : shape.Inhabited
  frees : number = 0 ∨ ¬ shape.HasSingleton
  room :
    (platform.evaluation
      (server.nodecontrol.currentinteraction + number)).HasRoom
        shape.inputsAndOutputs

/-- Clients register at a fresh server, and no model has arrived. -/
structure Enrolling (shape : Shape) (server : FederatedLearning) : Prop where
  registry : server.Registry
  firstRound : server.control.barrier.round = 0
  awaited : ∀ name ∈ server.control.names, server.control.barrier.Awaited name
  models : server.Models shape
  counted : server.accumulator.Counted
  clean : server.ledger = Accumulator.zero
  freeable : server.Freeable

theorem Enrolling.of_fresh {shape : Shape} {server : FederatedLearning}
    (fresh : server.Fresh shape) (counted : server.accumulator.Counted) :
    Enrolling shape server := by
  refine ⟨fresh.registry, fresh.firstRound, ?_, fresh.models, counted,
    fresh.clean, fresh.freeable⟩
  intro name isName
  rw [fresh.empty] at isName
  cases isName

theorem Enrolling.register {platform : Platform} {shape : Shape}
    {server after : FederatedLearning} {ip_addr : String} {reply : Reply}
    (enrolling : Enrolling shape server)
    (serves : Serves platform server (.register ip_addr, reply) after) :
    Enrolling shape after := by
  rcases serves_register enrolling.registry serves
    with ⟨registry, control, same⟩
  refine ⟨registry, ?_, ?_, same.models enrolling.models,
    same.accumulator ▸ enrolling.counted, same.ledger.trans enrolling.clean,
    same.freeable_iff.mpr enrolling.freeable⟩
  · rw [control, Control.round_register]
    exact enrolling.firstRound
  · rw [control, Control.register]
    by_cases known : server.control.Full ∨ ip_addr ∈ server.control.names
    · rw [if_pos known, Control.names, Control.barrier_openWhenFull]
      exact enrolling.awaited
    · rw [if_neg known, Control.names, Control.barrier_openWhenFull]
      intro name isName
      rw [Barrier.names_join, List.mem_append, List.mem_singleton] at isName
      exact (Barrier.awaited_join_iff enrolling.firstRound).mpr
        (isName.imp_left (enrolling.awaited name))

/-- Requests without models lead from a fresh server to a configured one. -/
theorem Configured.of_run {platform : Platform} {shape : Shape}
    {start server : FederatedLearning} {exchanges : List Exchange}
    (fresh : start.Fresh shape) (counted : start.accumulator.Counted)
    (run :
      Path
        (Restricted
          (fun _ exchange => ∀ ip_addr text, exchange.1 ≠ .message ip_addr text)
          (Serves platform)) start exchanges server)
    (full : server.control.Full) (clients : 1 ≤ server.control.clientnodes) :
    Configured shape server := by
  have enrolling : Enrolling shape server := by
    refine run.invariant (Enrolling shape) ?_ (.of_fresh fresh counted)
    rintro source ⟨request, reply⟩ target ⟨noMessage, serves⟩ enrolling
    cases request with
    | register ip_addr => exact enrolling.register serves
    | poll ip_addr =>
        rcases serves_poll enrolling.registry serves with ⟨rfl, -⟩
        exact enrolling
    | download =>
        rcases serves_download serves with rfl
        exact enrolling
    | message ip_addr text => exact (noMessage ip_addr text rfl).elim
  refine ⟨enrolling.registry, ?_, enrolling.awaited, enrolling.models,
    enrolling.counted, enrolling.clean, enrolling.freeable⟩
  intro nobody
  rw [Control.Full, nobody] at full
  rw [← full] at clients
  simp at clients

/-! ## One round -/

/-- The clients in `earlier` have submitted in the current round. -/
structure Within (names : List String) (shape : Shape) (earlier : List String)
    (server : FederatedLearning) : Prop where
  registry : server.Registry
  models : server.Models shape
  counted : server.accumulator.Counted
  inStep : server.control.barrier.InStep
  sameNames : server.control.names = names
  awaited : ∀ name,
    server.control.barrier.Awaited name ↔ name ∈ names ∧ name ∉ earlier

/-- The same number of rounds, and as many of them run. -/
structure SameRound (before after : FederatedLearning) : Prop where
  interactioncycle :
    after.control.interactioncycle = before.control.interactioncycle
  round : after.control.barrier.round = before.control.barrier.round

variable {platform : Platform} {names earlier : List String} {shape : Shape}
  {server after : FederatedLearning} {submission : Submission}

theorem submitAll_cons (server : FederatedLearning) (submission : Submission)
    (rest : List Submission) :
    submitAll platform server (submission :: rest) =
      (submitModel platform server submission.ip_id submission.model) >>=
        fun next => submitAll platform next rest :=
  List.foldlM_cons

variable (platform) in
/-- A submission before the last one of its round. -/
theorem Within.absorb
    (within : Within names shape earlier server)
    (unfinished : ¬ server.control.Finished)
    (due : submission.ip_id ∈ names ∧ submission.ip_id ∉ earlier)
    (complete : submission.model.Complete shape)
    (more : ∃ other ∈ names, other ∉ earlier ∧ other ≠ submission.ip_id) :
    ∃ after,
      submitModel platform server submission.ip_id submission.model = .ok after ∧
        Within names shape (earlier ++ [submission.ip_id]) after ∧
        SameRound server after ∧
        after.ledger = server.ledger.absorb submission.contribution ∧
        after.neuralnetwork = server.neuralnetwork := by
  rcases more with ⟨other, otherName, otherDue, different⟩
  have awaited := (within.awaited submission.ip_id).mpr due
  have otherAwaited := (within.awaited other).mpr ⟨otherName, otherDue⟩
  have known : submission.ip_id ∈ server.control.names :=
    within.sameNames ▸ due.1
  have pending : (server.control.barrier.bump submission.ip_id).Pending :=
    (Barrier.pending_iff _).mpr
      ⟨other, (Barrier.awaited_bump_iff within.inStep).mpr
        ⟨otherAwaited, different⟩⟩
  rcases submitModel_absorbs platform within.registry within.models known
      complete unfinished pending
    with ⟨after, finishes, absorbed⟩
  rcases submitModel_control within.registry finishes
    with ⟨-, registry, control⟩
  rw [Control.accept, if_neg unfinished,
    Barrier.arrive_of_other within.inStep otherAwaited different] at control
  refine ⟨after, finishes, ⟨registry, absorbed.models,
    absorbed.sameForm.counted within.counted, ?_, ?_, ?_⟩, ⟨?_, ?_⟩,
    absorbed.ledger, absorbed.neuralnetwork⟩
  · rw [control]
    exact within.inStep.bump awaited
  · rw [control, ← within.sameNames]
    exact Barrier.names_bump _ _
  · intro name
    rw [control, Barrier.awaited_bump_iff within.inStep, within.awaited]
    simp [and_assoc]
  · rw [control]
  · rw [control]
    rfl

/-- After the submission of the last client nobody is awaited. -/
theorem Within.settled
    (within : Within names shape earlier server)
    (last : ∀ other ∈ names, other ∉ earlier → other = submission.ip_id) :
    ¬ (server.control.barrier.bump submission.ip_id).Pending := by
  rw [Barrier.pending_iff]
  rintro ⟨other, otherAwaited⟩
  rcases (Barrier.awaited_bump_iff within.inStep).mp otherAwaited
    with ⟨before, different⟩
  rcases (within.awaited other).mp before with ⟨isName, absent⟩
  exact different (last other isName absent)

/-- The submission of the last client closes the round. -/
theorem Within.close
    (within : Within names shape earlier server)
    (unfinished : ¬ server.control.Finished)
    (due : submission.ip_id ∈ names ∧ submission.ip_id ∉ earlier)
    (complete : submission.model.Complete shape)
    (last : ∀ other ∈ names, other ∉ earlier → other = submission.ip_id)
    (finishes :
      submitModel platform server submission.ip_id submission.model =
        .ok after) :
    Within names shape [] after ∧
      after.control.interactioncycle = server.control.interactioncycle ∧
      after.control.barrier.round = server.control.barrier.round + 1 ∧
      Closed shape (server.ledger.absorb submission.contribution) after := by
  have awaited := (within.awaited submission.ip_id).mpr due
  have known : submission.ip_id ∈ server.control.names :=
    within.sameNames ▸ due.1
  have onlyOne :
      ∀ other, server.control.barrier.Awaited other →
        other = submission.ip_id := by
    intro other otherAwaited
    rcases (within.awaited other).mp otherAwaited with ⟨isName, absent⟩
    exact last other isName absent
  rcases closed_of_submitModel within.registry within.models known complete
      unfinished (within.settled last) finishes
    with ⟨closed, sameForm⟩
  rcases submitModel_control within.registry finishes
    with ⟨-, registry, control⟩
  rw [Control.accept, if_neg unfinished] at control
  refine ⟨⟨registry, closed.models, sameForm.counted within.counted, ?_, ?_,
    ?_⟩, ?_, ?_, closed⟩
  · rw [control]
    exact within.inStep.arrive awaited
  · rw [control, ← within.sameNames]
    exact Barrier.names_arrive _ _
  · intro name
    rw [control, Barrier.awaited_arrive_of_last within.inStep awaited onlyOne,
      ← within.sameNames]
    simp [Control.names]
  · rw [control]
  · rw [control, Barrier.arrive_of_last within.inStep onlyOne]
    rfl

/-- A round with clients ends with the submission of the last of them. -/
theorem Round.split {round : List Submission}
    (isRound : Round names shape round) (occupied : names ≠ []) :
    ∃ front final, round = front ++ [final] := by
  have nonempty : round ≠ [] := by
    rintro rfl
    exact occupied (List.nil_perm.mp isRound.everyone)
  exact ⟨round.dropLast, round.getLast nonempty,
    (List.dropLast_append_getLast nonempty).symm⟩

/-- What is known of the submissions of a round which is split in two. -/
theorem Round.parts {front back : List Submission}
    (isRound : Round names shape (front ++ back)) (distinct : names.Nodup) :
    (front.map Submission.ip_id).Nodup ∧
      (∀ submission ∈ front, submission.ip_id ∈ names) ∧
      (∀ submission ∈ front, submission.model.Complete shape) ∧
      ∀ submission ∈ back, submission.ip_id ∈ names ∧
        submission.ip_id ∉ front.map Submission.ip_id := by
  have everyone := isRound.everyone
  have allDistinct := everyone.nodup_iff.mpr distinct
  rw [List.map_append] at everyone allDistinct
  rcases List.nodup_append.mp allDistinct with ⟨frontDistinct, -, disjoint⟩
  refine ⟨frontDistinct, ?_, ?_, ?_⟩
  · intro submission member
    apply everyone.mem_iff.mp
    exact List.mem_append_left _ (List.mem_map_of_mem member)
  · intro submission member
    exact isRound.complete submission (List.mem_append_left _ member)
  · intro submission member
    constructor
    · apply everyone.mem_iff.mp
      exact List.mem_append_right _ (List.mem_map_of_mem member)
    · intro early
      exact disjoint _ early _ (List.mem_map_of_mem member) rfl

/-- The contributions of a round. -/
def contributions (round : List Submission) : List (ℚ × (Position → ℚ)) :=
  round.map Submission.contribution

/-- A sequence of rounds has been absorbed and closed, one after the other. -/
structure RoundsLater (names : List String) (shape : Shape)
    (done : List (List Submission)) (server after : FederatedLearning) :
    Prop where
  within : Within names shape [] after
  interactioncycle :
    after.control.interactioncycle = server.control.interactioncycle
  round :
    after.control.barrier.round = server.control.barrier.round + done.length
  ledger :
    after.ledger =
      (done.map contributions).foldl (Accumulator.closeRound (residue ℚ))
        server.ledger
  freeable_iff : after.Freeable ↔ done = [] ∨ ¬ shape.HasSingleton
  published : ∀ front final, done = front ++ [final] →
    after.published =
      ((contributions final).foldl Accumulator.absorb
        ((front.map contributions).foldl
          (Accumulator.closeRound (residue ℚ)) server.ledger)).mean

/-- Between two rounds, the next one can be closed as its number says. -/
theorem RoundsLater.closable_iff {done : List (List Submission)}
    (later : RoundsLater names shape done server after) :
    after.Closable platform shape ↔
      ClosesAfter platform shape server done.length := by
  have interaction :
      after.nodecontrol.currentinteraction =
        server.nodecontrol.currentinteraction + done.length :=
    later.round
  have freeable :
      after.Freeable ↔ done.length = 0 ∨ ¬ shape.HasSingleton := by
    rw [later.freeable_iff, List.length_eq_zero_iff]
  constructor
  · rintro ⟨inhabited, freed, room⟩
    exact ⟨inhabited, freeable.mp freed, interaction ▸ room⟩
  · rintro ⟨inhabited, frees, room⟩
    exact ⟨inhabited, freeable.mpr frees, interaction.symm ▸ room⟩

theorem RoundsLater.unfinished {done : List (List Submission)}
    (later : RoundsLater names shape done server after)
    (more :
      server.control.barrier.round + done.length <
        server.control.interactioncycle) :
    ¬ after.control.Finished := by
  rw [Control.Finished, later.interactioncycle, later.round]
  linarith

section Rounds

variable (within : Within names shape [] server) (occupied : names ≠ [])

include within occupied

end Rounds

/-! ## Exactness -/

theorem Configured.within (configured : Configured shape server) :
    Within server.control.names shape [] server := by
  refine ⟨configured.registry, configured.models, configured.counted, ⟨?_, ?_⟩,
    rfl, ?_⟩
  · exact configured.registry.distinct
  · intro member isMember
    left
    have awaited :=
      configured.awaited member.name (List.mem_map_of_mem isMember)
    have same :=
      List.inj_on_of_nodup_map configured.registry.distinct isMember awaited rfl
    exact congrArg Member.count same
  · intro name
    constructor
    · intro awaited
      exact ⟨awaited.mem_names, by simp⟩
    · rintro ⟨isName, -⟩
      exact configured.awaited name isName

/-- A proper beginning of a round has only begun. -/
theorem Round.begun {round part : List Submission}
    (isRound : Round names shape round) (distinct : names.Nodup)
    (early : part <+: round) (unclosed : part ≠ round) :
    Begun names shape part := by
  rcases early with ⟨back, rfl⟩
  have more : back ≠ [] := by
    rintro rfl
    exact unclosed (by simp)
  rcases isRound.parts distinct with ⟨partDistinct, known, complete, due⟩
  rcases List.exists_cons_of_ne_nil more with ⟨next, later, rfl⟩
  rcases due next (by simp) with ⟨nextName, nextDue⟩
  exact ⟨partDistinct, known, ⟨next.ip_id, nextName, nextDue⟩, complete,
    fun submission member =>
      isRound.positive submission (List.mem_append_left _ member)⟩

section Run

variable {rounds : List (List Submission)} {pending : List Submission}
  (configured : Configured shape server)
  (areRounds : ∀ round ∈ rounds, Round server.control.names shape round)
  (enough :
    server.control.barrier.round + rounds.length ≤
      server.control.interactioncycle)

include configured areRounds enough

end Run

end FederatedEdge.Federation
