import FederatedEdge.Federation.Averages

/-!
# The order of the models of a round

In a round every registered client sends one model.  Whatever the order in
which the server handles these messages, it ends in the same state: the sum,
the counter sum and the interactions of the nodes do not depend on the order,
and before the last message the server does not look at the sum.

States are compared as they are, cell by cell.  Where handling fails, it fails
in the same way for all orders.
-/

namespace FederatedEdge.Federation

open FederatedEdge.Library
open FederatedEdge.Network
open FederatedEdge.Server
open FederatedEdge.Server.FederatedLearning

/-- A message text and the address it came from. -/
structure Message where
  ip_id : String
  text : List Char
deriving DecidableEq, Repr

/-- Handle the messages in order. -/
def handleAll (platform : Platform) (server : FederatedLearning)
    (messages : List Message) : Exec FederatedLearning :=
  messages.foldlM
    (fun server message =>
      handle_clint_model_message platform server message.text
        message.text.length message.ip_id)
    server

/-- The parameters of the submitted network. -/
def Submission.parameters (submission : Submission) : Parameters ℚ :=
  (submission.model.neuralnetwork.map DecodedNetwork.parameters).getD []

/-! ## What is gathered from some submissions -/

/-- The sum of the parameters after some submissions. -/
def sumAll (sum : Parameters ℚ) (batch : List Submission) : Parameters ℚ :=
  batch.foldl
    (fun sum submission =>
      sum.addScaled submission.parameters submission.model.trainingscounter)
    sum

/-- A node after some submissions, each of which counts for its node. -/
def countAll (batch : List Submission) (node : ClientNode) : ClientNode :=
  { node with
    interaction :=
      node.interaction + (batch.map Submission.ip_id).count node.ip_id }

/-- The server with the submissions counted in the node list. -/
def counted (server : FederatedLearning) (batch : List Submission) :
    FederatedLearning :=
  { server with
    nodecontrol :=
      { server.nodecontrol with
        nodelist := LinkedList.ofList (server.nodes.map (countAll batch)) } }

/-- The server with the submissions counted and summed up. -/
def gathered (server : FederatedLearning) (batch : List Submission) :
    FederatedLearning :=
  { counted server batch with
    trainingscounter :=
      server.trainingscounter +
        (batch.map fun submission => submission.model.trainingscounter).sum
    nodecontrol :=
      { (counted server batch).nodecontrol with
        neuralnetwork :=
          server.accumulator.withParameters
            (sumAll server.accumulator.parameters batch) } }

/-- The server with another status of the global model. -/
def withStatus (server : FederatedLearning) (status : ℤ) : FederatedLearning :=
  { server with globalmodelstatus := status }

/-! ## The order does not matter for what is gathered -/

/-- Two lists with factors can be added in either order. -/
theorem zipWith_right_comm {α β κ : Type} {f : κ → α → β → α}
    (commutes : ∀ sum x y c d, f d (f c sum x) y = f c (f d sum y) x)
    (c d : κ) (sums : List α) (left right : List β) :
    List.zipWith (f d) (List.zipWith (f c) sums left) right =
      List.zipWith (f c) (List.zipWith (f d) sums right) left := by
  induction sums generalizing left right with
  | nil => simp
  | cons sum sums inductionHypothesis =>
      cases left with
      | nil => simp
      | cons x left =>
          cases right with
          | nil => simp
          | cons y right => simp [commutes sum x y c d, inductionHypothesis]

theorem addNeuron_right_comm (sum x y : ℚ × List ℚ) (c d : ℤ) :
    Parameters.addNeuron d (Parameters.addNeuron c sum x) y =
      Parameters.addNeuron c (Parameters.addNeuron d sum y) x := by
  rw [Parameters.addNeuron, Parameters.addNeuron, Parameters.addNeuron,
    Parameters.addNeuron]
  congr 1
  · exact add_right_comm _ _ _
  · exact zipWith_right_comm
      (f := fun (c : ℤ) (x y : ℚ) => x + y * (c : ℚ))
      (fun _ _ _ _ _ => add_right_comm _ _ _) c d _ _ _

/-- Two scaled models can be added in either order. -/
theorem addScaled_right_comm (sum x y : Parameters ℚ) (c d : ℤ) :
    (sum.addScaled x c).addScaled y d = (sum.addScaled y d).addScaled x c := by
  rw [Parameters.addScaled, Parameters.addScaled, Parameters.addScaled,
    Parameters.addScaled]
  exact zipWith_right_comm
    (f := fun (c : ℤ) => List.zipWith (Parameters.addNeuron c))
    (fun sums left right c d =>
      zipWith_right_comm addNeuron_right_comm c d sums left right)
    c d sum x y

variable {server : FederatedLearning} {first second batch : List Submission}
  {submission : Submission} {shape : Shape}

theorem sumAll_perm (sum : Parameters ℚ) (reordered : first.Perm second) :
    sumAll sum first = sumAll sum second := by
  apply reordered.foldl_eq'
  intro x _ y _ sum
  exact addScaled_right_comm _ _ _ _ _

theorem countAll_perm (reordered : first.Perm second) :
    countAll first = countAll second := by
  funext node
  rw [countAll, countAll, (reordered.map Submission.ip_id).count_eq]

theorem counted_perm (server : FederatedLearning)
    (reordered : first.Perm second) :
    counted server first = counted server second := by
  rw [counted, countAll_perm reordered]
  rfl

/-- What is gathered does not depend on the order. -/
theorem gathered_perm (server : FederatedLearning)
    (reordered : first.Perm second) :
    gathered server first = gathered server second := by
  have sameCounter :=
    (reordered.map fun submission => submission.model.trainingscounter).sum_eq
  rw [gathered, counted_perm server reordered, sumAll_perm _ reordered,
    sameCounter]
  rfl

/-! ## Handling one more submission -/

@[simp]
theorem nodes_counted (server : FederatedLearning) (batch : List Submission) :
    (counted server batch).nodes = server.nodes.map (countAll batch) :=
  LinkedList.values_ofList _

@[simp]
theorem nodes_gathered (server : FederatedLearning) (batch : List Submission) :
    (gathered server batch).nodes = server.nodes.map (countAll batch) :=
  LinkedList.values_ofList _

theorem names_map_countAll (nodes : List ClientNode) (batch : List Submission) :
    (nodes.map (countAll batch)).map ClientNode.ip_id =
      nodes.map ClientNode.ip_id := by
  rw [List.map_map]
  rfl

theorem countAll_append (first second : List Submission) :
    countAll second ∘ countAll first = countAll (first ++ second) := by
  funext node
  simp [countAll, add_assoc]

/-- Counting one submission is an increment in one cell. -/
theorem countInteraction_eq (registry : server.Registry) {address : ℕ}
    (found :
      server.nodes.findIdx? (fun node => node.ip_id = submission.ip_id) =
        some address) :
    countInteraction server address = counted server [submission] := by
  have distinct := registry.distinct
  rw [names_control] at distinct
  rcases nodes_countInteraction registry address with ⟨nodes, consistent⟩
  have sameNode :
      (fun node : ClientNode =>
          if node.ip_id = submission.ip_id then
            { node with interaction := node.interaction + 1 }
          else node) =
        countAll [submission] := by
    funext node
    by_cases same : node.ip_id = submission.ip_id
    · simp [countAll, same]
    · have other : submission.ip_id ≠ node.ip_id := fun equal => same equal.symm
      simp [countAll, same, other]
  have nodelist :
      (countInteraction server address).nodecontrol.nodelist =
        LinkedList.ofList (server.nodes.map (countAll [submission])) := by
    rw [LinkedList.Consistent] at consistent
    rw [consistent]
    congr 1
    rw [← sameNode, ← modify_findIdx server.nodes submission.ip_id _ distinct found]
    exact nodes
  rw [counted, ← nodelist]
  rfl

/-- A submission is counted first, and then its model is aggregated. -/
theorem submitModel_counted (registry : server.Registry)
    (known : submission.ip_id ∈ server.control.names) :
    submitModel platform server submission.ip_id submission.model =
      AggregationModel platform (counted server [submission]) submission.model := by
  rcases Option.isSome_iff_exists.mp
      ((findIdx?_isSome_iff server submission.ip_id).mpr known)
    with ⟨address, found⟩
  rw [submitModel_found submission.model registry found,
    countInteraction_eq registry found]

/-- Counting keeps the registry. -/
theorem registry_counted (registry : server.Registry) (batch : List Submission) :
    (counted server batch).Registry := by
  have names :
      (counted server batch).control.names = server.control.names := by
    rw [names_control, names_control, nodes_counted, names_map_countAll]
  refine ⟨LinkedList.consistent_ofList _, ?_, ?_, ?_⟩
  · rw [names]
    exact registry.distinct
  · rw [names]
    exact registry.counted
  · rw [names]
    exact registry.bounded

/-- The sum of complete models keeps the shape. -/
theorem shape_sumAll {sum : Parameters ℚ} (sameShape : sum.shape = shape)
    (complete : ∀ submission ∈ batch, submission.model.Complete shape) :
    (sumAll sum batch).shape = shape := by
  induction batch generalizing sum with
  | nil => exact sameShape
  | cons submission batch inductionHypothesis =>
      rcases complete submission (by simp) with ⟨network, assigned, -, matching⟩
      have submitted : submission.parameters = network.parameters := by
        rw [Submission.parameters, assigned]
        rfl
      apply inductionHypothesis
      · show (sum.addScaled submission.parameters _).shape = shape
        rw [submitted,
          Parameters.shape_addScaled _ (matching.trans sameShape.symm)]
        exact sameShape
      · exact fun other member => complete other (by simp [member])

/-- What is gathered is gathered over networks of the same shape. -/
theorem models_gathered (models : server.Models shape)
    (complete : ∀ submission ∈ batch, submission.model.Complete shape) :
    (gathered server batch).Models shape ∧
      (gathered server batch).accumulator.parameters =
        sumAll server.accumulator.parameters batch := by
  have fits : server.accumulator.Fits
      (sumAll server.accumulator.parameters batch) := by
    rw [NeuralNetwork.fits_iff_shape, models.accumulatorShape]
    exact shape_sumAll models.accumulatorShape complete
  refine ⟨⟨?_, ?_, models.globalShape⟩, ?_⟩
  · exact NeuralNetwork.forward_withParameters fits models.forward
  · exact (NeuralNetwork.shape_withParameters fits).trans
      models.accumulatorShape
  · exact NeuralNetwork.parameters_withParameters fits

/-- The state which the check for awaited nodes finds. -/
theorem storeSum_gathered (server : FederatedLearning)
    (batch : List Submission) (submission : Submission) (status : ℤ) :
    storeSum
        (counted (withStatus (gathered server batch) status) [submission])
        (server.accumulator.withParameters
          (sumAll server.accumulator.parameters (batch ++ [submission])))
        submission.model.trainingscounter =
      withStatus (gathered server (batch ++ [submission])) 0 := by
  have nodes :
      (gathered server batch).nodes.map (countAll [submission]) =
        server.nodes.map (countAll (batch ++ [submission])) := by
    rw [nodes_gathered, List.map_map, countAll_append]
  have counter :
      (gathered server batch).trainingscounter +
          submission.model.trainingscounter =
        (gathered server (batch ++ [submission])).trainingscounter := by
    simp [gathered, add_assoc]
  simp only [storeSum, counted, gathered, withStatus,
    FederatedLearning.mk.injEq, NodeControl.mk.injEq, true_and]
  exact ⟨counter, congrArg LinkedList.ofList nodes⟩

theorem registry_gathered (registry : server.Registry)
    (batch : List Submission) (status : ℤ) :
    (withStatus (gathered server batch) status).Registry := by
  have counted := registry_counted registry batch
  exact ⟨counted.consistent, counted.distinct, counted.counted, counted.bounded⟩

theorem names_gathered (server : FederatedLearning) (batch : List Submission) :
    (gathered server batch).control.names = server.control.names := by
  rw [names_control, names_control, nodes_gathered, names_map_countAll]

/-- One more submission is gathered, and then the server looks who is missing. -/
theorem submitModel_gathered
    (registry : server.Registry) (models : server.Models shape)
    (unfinished : ¬ server.control.Finished) (status : ℤ)
    (complete :
      ∀ other ∈ batch ++ [submission], other.model.Complete shape)
    (known : submission.ip_id ∈ server.control.names) :
    submitModel platform (withStatus (gathered server batch) status)
        submission.ip_id submission.model =
      if (gathered server (batch ++ [submission])).control.barrier.Pending then
        .ok (withStatus (gathered server (batch ++ [submission])) 1)
      else publishModel platform (gathered server (batch ++ [submission])) := by
  rcases complete submission (by simp) with ⟨network, assigned, readable, matching⟩
  have earlier : ∀ other ∈ batch, other.model.Complete shape :=
    fun other member => complete other (by simp [member])
  rcases models_gathered models earlier with ⟨gatheredModels, parameters⟩
  have sumFits : server.accumulator.Fits
      (sumAll server.accumulator.parameters batch) := by
    rw [NeuralNetwork.fits_iff_shape, models.accumulatorShape]
    exact shape_sumAll models.accumulatorShape earlier
  have submitted : submission.parameters = network.parameters := by
    rw [Submission.parameters, assigned]
    rfl
  -- the sum is stored over what was gathered before
  have sums :
      FederatedAveragingSum (gathered server batch).accumulator network
          submission.model.trainingscounter =
        .ok (server.accumulator.withParameters
          (sumAll server.accumulator.parameters (batch ++ [submission]))) := by
    have clientFits :
        (gathered server batch).accumulator.Fits network.parameters := by
      rw [NeuralNetwork.fits_iff_shape, gatheredModels.accumulatorShape]
      exact matching
    have added :
        sumAll server.accumulator.parameters (batch ++ [submission]) =
          (sumAll server.accumulator.parameters batch).addScaled
            network.parameters submission.model.trainingscounter := by
      rw [sumAll, List.foldl_append, ← submitted]
      rfl
    rw [FederatedAveragingSum_eq _ gatheredModels.forward readable clientFits,
      parameters, added]
    exact congrArg _ (NeuralNetwork.withParameters_withParameters _ _ _ sumFits)
  have currentRegistry := registry_gathered registry batch status
  have currentKnown :
      submission.ip_id ∈
        (withStatus (gathered server batch) status).control.names := by
    rw [← names_gathered server batch] at known
    exact known
  rw [submitModel_counted currentRegistry currentKnown,
    AggregationModel_eq (registry_counted currentRegistry [submission]) unfinished,
    assigned, Exec.read_some, Exec.ok_bind]
  have sumsCounted :
      FederatedAveragingSum
          (counted (withStatus (gathered server batch) status)
            [submission]).accumulator network
          submission.model.trainingscounter = _ := sums
  rw [sumsCounted, Exec.ok_bind, storeSum_gathered]
  have samePending :
      (counted (withStatus (gathered server batch) status)
          [submission]).control.barrier =
        (gathered server (batch ++ [submission])).control.barrier := by
    have stored := storeSum_gathered server batch submission status
    exact congrArg (fun state => state.control.barrier) stored
  rw [samePending]
  rfl

/-! ## Handling all submissions of a round -/

/-- Every registered node is at the current interaction. -/
def AtCurrentRound (server : FederatedLearning) : Prop :=
  ∀ node ∈ server.nodes,
    node.interaction = server.nodecontrol.currentinteraction

/-- A node without a submission is awaited. -/
theorem pending_gathered (atCurrent : AtCurrentRound server) {name : String}
    (known : name ∈ server.control.names)
    (absent : name ∉ batch.map Submission.ip_id) :
    (gathered server batch).control.barrier.Pending := by
  rw [names_control] at known
  rcases List.mem_map.mp known with ⟨node, member, rfl⟩
  refine (Barrier.pending_iff _).mpr ⟨node.ip_id, ?_⟩
  rw [awaited_control_iff, nodes_gathered]
  refine ⟨countAll batch node, List.mem_map_of_mem member, rfl, ?_⟩
  rw [countAll, List.count_eq_zero_of_not_mem absent, atCurrent node member]
  exact add_zero _

theorem counted_nil (registry : server.Registry) :
    counted server [] = server := by
  have sameNode : countAll [] = id := by
    funext node
    simp [countAll]
  have nodelist :
      LinkedList.ofList (server.nodes.map (countAll [])) =
        server.nodecontrol.nodelist := by
    rw [sameNode, List.map_id]
    exact registry.consistent.symm
  rw [counted, nodelist]

theorem gathered_nil (registry : server.Registry) :
    gathered server [] = server := by
  rw [gathered, counted_nil registry, sumAll, List.foldl_nil,
    NeuralNetwork.withParameters_parameters]
  simp [accumulator]

/-- After the last round a submission is only counted. -/
theorem submitModel_finished_counted (registry : server.Registry)
    (finished : server.control.Finished) (status : ℤ)
    (known : submission.ip_id ∈ server.control.names) :
    submitModel platform (withStatus (counted server batch) status)
        submission.ip_id submission.model =
      .ok (withStatus (counted server (batch ++ [submission])) 0) := by
  have countedRegistry := registry_counted registry batch
  have currentRegistry :
      (withStatus (counted server batch) status).Registry :=
    ⟨countedRegistry.consistent, countedRegistry.distinct,
      countedRegistry.counted, countedRegistry.bounded⟩
  have currentKnown :
      submission.ip_id ∈
        (withStatus (counted server batch) status).control.names := by
    rw [names_control, ← names_map_countAll server.nodes batch,
      ← nodes_counted] at known
    rw [names_control]
    exact known
  have nodes :
      (counted server batch).nodes.map (countAll [submission]) =
        server.nodes.map (countAll (batch ++ [submission])) := by
    rw [nodes_counted, List.map_map, countAll_append]
  have ended :
      (counted (withStatus (counted server batch) status)
        [submission]).control.Finished :=
    finished
  rw [submitModel_counted currentRegistry currentKnown,
    AggregationModel_finished ended]
  simp only [withStatus, counted, Except.ok.injEq, FederatedLearning.mk.injEq,
    NodeControl.mk.injEq, true_and]
  exact congrArg LinkedList.ofList nodes

/-- After the last round submissions are only counted. -/
theorem submitAll_finished (registry : server.Registry)
    (finished : server.control.Finished) (rest : List Submission) (status : ℤ)
    (known : ∀ other ∈ rest, other.ip_id ∈ server.control.names) :
    submitAll platform (withStatus (counted server batch) status) rest =
      .ok (withStatus (counted server (batch ++ rest))
        (if rest = [] then status else 0)) := by
  induction rest generalizing batch status with
  | nil => rw [List.append_nil, if_pos rfl]; rfl
  | cons submission rest inductionHypothesis =>
      rw [submitAll_cons,
        submitModel_finished_counted registry finished status
          (known submission (by simp)),
        Exec.ok_bind,
        inductionHypothesis 0 fun other member => known other (by simp [member]),
        List.append_assoc, List.singleton_append, if_neg (List.cons_ne_nil _ _),
        ite_self]

/--
Before the end of the rounds, submissions are gathered as long as a node is
awaited, and after the last one the round is closed.
-/
theorem submitAll_gathered
    (registry : server.Registry) (models : server.Models shape)
    (unfinished : ¬ server.control.Finished) (atCurrent : AtCurrentRound server)
    (rest : List Submission) (status : ℤ)
    (known : ∀ other ∈ rest ++ [submission], other.ip_id ∈ server.control.names)
    (distinct : ((batch ++ (rest ++ [submission])).map Submission.ip_id).Nodup)
    (complete :
      ∀ other ∈ batch ++ (rest ++ [submission]), other.model.Complete shape) :
    submitAll platform (withStatus (gathered server batch) status)
        (rest ++ [submission]) =
      if (gathered server
          (batch ++ (rest ++ [submission]))).control.barrier.Pending then
        .ok (withStatus (gathered server (batch ++ (rest ++ [submission]))) 1)
      else
        publishModel platform
          (gathered server (batch ++ (rest ++ [submission]))) := by
  induction rest generalizing batch status with
  | nil =>
      rw [List.nil_append, submitAll_cons,
        submitModel_gathered registry models unfinished status complete
          (known submission (by simp))]
      exact bind_pure _
  | cons next rest inductionHypothesis =>
      have regroup :
          batch ++ (next :: rest ++ [submission]) =
            batch ++ [next] ++ (rest ++ [submission]) := by
        simp
      rw [regroup] at distinct complete ⊢
      -- the last submission is missing, so its node is awaited
      have absent :
          submission.ip_id ∉ (batch ++ [next]).map Submission.ip_id := by
        intro member
        rw [List.map_append] at distinct
        exact (List.nodup_append.mp distinct).2.2 _ member _
          (List.mem_map_of_mem (by simp)) rfl
      have pending :=
        pending_gathered atCurrent (known submission (by simp)) absent
      rw [List.cons_append, submitAll_cons,
        submitModel_gathered registry models unfinished status
          (fun other member => complete other (List.mem_append_left _ member))
          (known next (by simp)),
        if_pos pending, Exec.ok_bind]
      exact inductionHypothesis 1
        (fun other member => known other (List.mem_cons_of_mem _ member))
        distinct complete

/-! ## Any order -/

/-- One submission from each registered client. -/
structure FullRound (server : FederatedLearning) (shape : Shape)
    (batch : List Submission) : Prop where
  everyone : (batch.map Submission.ip_id).Perm server.control.names
  complete : ∀ submission ∈ batch, submission.model.Complete shape

theorem FullRound.perm (round : FullRound server shape first)
    (reordered : first.Perm second) : FullRound server shape second :=
  ⟨(reordered.map Submission.ip_id).symm.trans round.everyone,
    fun submission member =>
      round.complete submission (reordered.mem_iff.mpr member)⟩

/-- What handling a round amounts to. -/
theorem submitAll_fullRound
    (registry : server.Registry) (models : server.Models shape)
    (atCurrent : AtCurrentRound server) (round : FullRound server shape batch)
    (nonempty : batch ≠ []) :
    submitAll platform server batch =
      if server.control.Finished then
        .ok (withStatus (counted server batch) 0)
      else if (gathered server batch).control.barrier.Pending then
        .ok (withStatus (gathered server batch) 1)
      else publishModel platform (gathered server batch) := by
  have known : ∀ submission ∈ batch,
      submission.ip_id ∈ server.control.names := fun submission member =>
    round.everyone.mem_iff.mp (List.mem_map_of_mem member)
  have distinct : (batch.map Submission.ip_id).Nodup :=
    round.everyone.nodup_iff.mpr registry.distinct
  by_cases finished : server.control.Finished
  · have runs :
        submitAll platform
            (withStatus (counted server []) server.globalmodelstatus) batch =
          _ :=
      submitAll_finished registry finished batch server.globalmodelstatus known
    rw [counted_nil registry, List.nil_append, if_neg nonempty] at runs
    rw [if_pos finished]
    exact runs
  · rw [if_neg finished]
    rcases List.eq_nil_or_concat batch with none | ⟨front, last, rfl⟩
    · exact (nonempty none).elim
    · rw [List.concat_eq_append] at known distinct round ⊢
      have runs :
          submitAll platform
              (withStatus (gathered server []) server.globalmodelstatus)
              (front ++ [last]) =
            _ :=
        submitAll_gathered registry models finished atCurrent
          front server.globalmodelstatus known distinct round.complete
      rw [gathered_nil registry, List.nil_append] at runs
      exact runs

theorem submitAll_perm
    (registry : server.Registry) (models : server.Models shape)
    (atCurrent : AtCurrentRound server) (round : FullRound server shape first)
    (reordered : first.Perm second) :
    submitAll platform server first = submitAll platform server second := by
  by_cases nonempty : first = []
  · subst nonempty
    rw [reordered.nil_eq]
  · have otherNonempty : second ≠ [] := by
      rintro rfl
      exact nonempty reordered.eq_nil
    rw [submitAll_fullRound registry models atCurrent round nonempty,
      submitAll_fullRound registry models atCurrent (round.perm reordered)
        otherNonempty,
      counted_perm server reordered, gathered_perm server reordered]

/-- A round finishes when it is only counted, or can be closed. -/
theorem submitAll_finishes
    (registry : server.Registry) (models : server.Models shape)
    (counted : server.accumulator.Counted) (atCurrent : AtCurrentRound server)
    (round : FullRound server shape batch)
    (possible : server.control.Finished ∨ server.Closable platform shape) :
    ∃ after, submitAll platform server batch = .ok after := by
  by_cases nonempty : batch = []
  · subst nonempty
    exact ⟨server, rfl⟩
  · rw [submitAll_fullRound registry models atCurrent round nonempty]
    by_cases finished : server.control.Finished
    · exact ⟨_, if_pos finished⟩
    · rw [if_neg finished]
      have gatheredModels := (models_gathered models round.complete).1
      have sumFits : server.accumulator.Fits
          (sumAll server.accumulator.parameters batch) := by
        rw [NeuralNetwork.fits_iff_shape, models.accumulatorShape]
        exact shape_sumAll models.accumulatorShape round.complete
      have sameForm :
          server.accumulator.SameForm (gathered server batch).accumulator :=
        .withParameters sumFits
      have sameClosable :
          (gathered server batch).Closable platform shape ↔
            server.Closable platform shape :=
        closable_congr rfl rfl
      rcases (publishModel_finishes_iff gatheredModels
          (sameForm.counted counted)).mpr
          (sameClosable.mpr (possible.resolve_left finished))
        with ⟨after, finishes⟩
      split
      · exact ⟨_, rfl⟩
      · exact ⟨after, finishes⟩

/-! ## Any order of the messages -/

/-- What the server decodes from a message, if it decodes a model. -/
def Message.decoded (platform : Platform) (message : Message) : Submission where
  ip_id := message.ip_id
  model := (platform.decode message.text).getD ⟨0, 0, none⟩

theorem handleAll_eq {platform : Platform} {messages : List Message}
    (carries : ∀ message ∈ messages, platform.Carries shape message.text) :
    handleAll platform server messages =
      submitAll platform server (messages.map (Message.decoded platform)) := by
  induction messages generalizing server with
  | nil => rfl
  | cons message messages inductionHypothesis =>
      rcases carries message (by simp) with ⟨model, decoded, -⟩
      have sameModel : (message.decoded platform).model = model := by
        rw [Message.decoded, decoded]
        rfl
      rw [List.map_cons, submitAll_cons, sameModel, handleAll, List.foldlM_cons,
        handle_clint_model_message_decoded decoded]
      congr 1
      funext next
      exact inductionHypothesis fun other member => carries other (by simp [member])

/--
At a server whose clients are all at the current round, the messages of a
round lead to the same result in any two orders.  Over a counted network they
lead to a state, unless this would have to close a round which cannot be closed.
-/
theorem handleAll_perm {platform : Platform} {messages reordered : List Message}
    (registry : server.Registry) (models : server.Models shape)
    (atCurrent : AtCurrentRound server)
    (everyone : (messages.map Message.ip_id).Perm server.control.names)
    (carries : ∀ message ∈ messages, platform.Carries shape message.text)
    (order : reordered.Perm messages) :
    handleAll platform server reordered = handleAll platform server messages ∧
      (server.accumulator.Counted →
        server.control.Finished ∨ server.Closable platform shape →
          ∃ after, handleAll platform server messages = .ok after) := by
  have round :
      FullRound server shape (messages.map (Message.decoded platform)) := by
    constructor
    · rw [List.map_map]
      exact everyone
    · rintro submission member
      rcases List.mem_map.mp member with ⟨message, isMessage, rfl⟩
      rcases carries message isMessage with ⟨model, decoded, complete⟩
      rw [Message.decoded, decoded]
      exact complete
  have carriesReordered : ∀ message ∈ reordered,
      platform.Carries shape message.text := fun message member =>
    carries message (order.mem_iff.mp member)
  rw [handleAll_eq carries, handleAll_eq carriesReordered]
  constructor
  · exact (submitAll_perm registry models atCurrent round
      (order.map (Message.decoded platform)).symm).symm
  · intro counted
    exact submitAll_finishes registry models counted atCurrent round

/-- The sample server for two clients, both of which have registered. -/
def sampleBoth : FederatedLearning :=
  storeNodes sampleHalf
    (LinkedList.ofList [⟨sampleAddress, 0⟩, ⟨"10.0.0.3", 0⟩])

theorem registry_sampleBoth : sampleBoth.Registry := by
  refine ⟨LinkedList.consistent_ofList _, ?_, ?_, ?_⟩
  · rw [names_control]
    decide
  · rw [names_control]
    rfl
  · rw [names_control]
    decide

/-- Both orders of the models of two clients lead to the same state. -/
theorem handleAll_perm_sample :
    handleAll samplePlatform sampleBoth
          [⟨"10.0.0.3", sampleText⟩, ⟨sampleAddress, sampleText⟩] =
        handleAll samplePlatform sampleBoth
          [⟨sampleAddress, sampleText⟩, ⟨"10.0.0.3", sampleText⟩] ∧
      ∃ after,
        handleAll samplePlatform sampleBoth
          [⟨sampleAddress, sampleText⟩, ⟨"10.0.0.3", sampleText⟩] =
            .ok after := by
  have same : SameModels (sampleStart 1 2) sampleBoth := ⟨rfl, rfl, rfl⟩
  have fresh := fresh_sampleStart 1 zero_le_two
  have models := same.models fresh.models
  have counted : sampleBoth.accumulator.Counted :=
    counted_sampleStart 1 2
  have closable : sampleBoth.Closable samplePlatform [[0, 0], [2, 2]] := by
    exact ⟨⟨by decide, by decide⟩, same.freeable_iff.mpr fresh.freeable,
      hasRoom_samplePlatform _ _⟩
  have atCurrent : AtCurrentRound sampleBoth := by
    intro node member
    rw [nodes, sampleBoth, storeNodes, LinkedList.values_ofList] at member
    simp only [List.mem_cons, List.not_mem_nil, or_false] at member
    rcases member with rfl | rfl <;> rfl
  have carries : ∀ message ∈ ([⟨sampleAddress, sampleText⟩,
      ⟨"10.0.0.3", sampleText⟩] : List Message),
      samplePlatform.Carries [[0, 0], [2, 2]] message.text := by
    intro message member
    simp only [List.mem_cons, List.not_mem_nil, or_false] at member
    rcases member with rfl | rfl <;> exact carries_sampleText
  have perm :=
    handleAll_perm registry_sampleBoth models atCurrent
      (by rw [names_control]; exact .refl _) carries (.swap _ _ _)
  exact ⟨perm.1, perm.2 counted (Or.inr closable)⟩

end FederatedEdge.Federation
