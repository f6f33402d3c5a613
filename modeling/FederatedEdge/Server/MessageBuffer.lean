import FederatedEdge.Library.HeapQueue
import FederatedEdge.Library.Path
import FederatedEdge.Server.WebSocketServer

/-!
# The list of client messages in memory

`insert_buffer_client_message` puts a message behind the last one, and
`remove_buffer_client_message` passes the first one to the handler and frees its
cell.  Over any calls the cells are a queue, linked in both directions, and each
message is handled once, in the order in which the messages were inserted.

Allocation does not fail and returns any address which is not in use.  The
handler is a parameter: it changes a state of its own, or does not return.
-/

namespace FederatedEdge.Server

open FederatedEdge.Library

/-- The buffer with its allocated cells. -/
abbrev MessageQueue := HeapQueue ClientMessage

namespace MessageQueue

def is_buffer_client_message_empty (buffer : MessageQueue) : Bool :=
  buffer.last = none

/-- `address` is what `malloc` returns. -/
def insert_buffer_client_message (address : ℕ) (buffer : MessageQueue)
    (message : List Char) (length : ℕ) (ip_addr : List Char) :
    Exec MessageQueue := do
  let new_client_message := some address
  let heap :=
    buffer.heap.allocate address
      { value := { message := strdup message, length := length, ip_id := ip_addr }
        previous := none
        next := none }
  if is_buffer_client_message_empty buffer then do
    let heap ←
      heap.modify new_client_message fun cell => { cell with next := some none }
    let heap ←
      heap.modify new_client_message fun cell =>
        { cell with previous := some none }
    .ok { heap := heap, first := new_client_message, last := new_client_message }
  else do
    let heap ←
      heap.modify buffer.last fun cell =>
        { cell with next := some new_client_message }
    let heap ←
      heap.modify new_client_message fun cell =>
        { cell with previous := some buffer.last }
    let heap ←
      heap.modify new_client_message fun cell => { cell with next := some none }
    .ok { buffer with heap := heap, last := new_client_message }

section Handler

variable {σ : Type} (handle : σ → ClientMessage → Exec σ)

/-- Pass the first message on, unlink its cell and free it. -/
def remove_buffer_client_message (state : σ) (buffer : MessageQueue) :
    Exec (σ × MessageQueue) :=
  if is_buffer_client_message_empty buffer then .ok (state, buffer)
  else do
    let removed_message := buffer.first
    let cell ← buffer.heap.load removed_message
    let state ← handle state cell.value
    if buffer.first = buffer.last then do
      let heap ← buffer.heap.free removed_message
      .ok (state, { heap := heap, first := none, last := none })
    else do
      let cell ← buffer.heap.load buffer.first
      let first ← Exec.read cell.next
      let heap ←
        buffer.heap.modify first fun cell => { cell with previous := some none }
      let heap ← heap.free removed_message
      .ok (state, { heap := heap, first := first, last := buffer.last })

/-- The loop may take `turns` turns. -/
def handle_message (turns : ℕ) (state : σ) (buffer : MessageQueue) :
    Exec (σ × MessageQueue) :=
  if is_buffer_client_message_empty buffer then .ok (state, buffer)
  else
    match turns with
    | 0 => .error .endlessLoop
    | turns + 1 => do
        let (state, buffer) ← remove_buffer_client_message handle state buffer
        handle_message turns state buffer

end Handler

end MessageQueue

/-! ## What each call does -/

namespace MessageQueue

variable {buffer : MessageQueue} {entries : List (ℕ × ClientMessage)}

theorem is_empty_iff (holds : buffer.Holds entries) :
    is_buffer_client_message_empty buffer = true ↔ entries = [] := by
  rw [is_buffer_client_message_empty, decide_eq_true_iff,
    holds.last_eq_none_iff]

/-- A message is inserted behind the others. -/
theorem insert_eq (holds : buffer.Holds entries) {address : ℕ}
    (fresh : buffer.heap address = none) (message : List Char)
    (length : ℕ) (ip_addr : List Char) :
    ∃ after,
      insert_buffer_client_message address buffer message length ip_addr =
          .ok after ∧
        after.Holds
          (entries ++ [(address, ⟨strdup message, length, ip_addr⟩)]) := by
  rw [insert_buffer_client_message]
  rcases List.eq_nil_or_concat' entries with rfl | ⟨front, ⟨place, value⟩, rfl⟩
  · have empty : is_buffer_client_message_empty buffer = true :=
      (is_empty_iff holds).mpr rfl
    simp only [empty, if_true, Heap.allocate, Heap.modify_update_self,
      Exec.ok_bind]
    refine ⟨_, rfl, rfl, rfl, ⟨Function.update_self _ _ _, trivial⟩, ?_⟩
    exact List.nodup_singleton _
  · have notEmpty : is_buffer_client_message_empty buffer = false := by
      rw [Bool.eq_false_iff, Ne, is_empty_iff holds]
      exact List.append_ne_nil_of_right_ne_nil _ (List.cons_ne_nil _ _)
    have last : buffer.last = some place := by
      rw [holds.last, List.getLast?_append]
      rfl
    rcases holds.linked.last with ⟨before, lastCell⟩
    have absent := holds.notMem_of_free fresh
    have different : place ≠ address := by
      rintro rfl
      exact absent (by simp)
    simp only [notEmpty, Bool.false_eq_true, if_false, last, Heap.allocate]
    rw [Heap.modify_eq
        ((Function.update_of_ne different _ _).trans lastCell),
      Exec.ok_bind, Function.update_comm (Ne.symm different), Heap.modify_update_self,
      Exec.ok_bind, Heap.modify_update_self, Exec.ok_bind]
    refine ⟨_, rfl, ?_, ?_, ?_, ?_⟩
    · rw [holds.first]
      cases front <;> rfl
    · simp
    · rw [List.append_assoc]
      refine holds.linked.concat holds.distinct absent lastCell ?_
        (Function.update_self _ _ _) ?_
      · exact (Function.update_of_ne different _ _).trans
          (Function.update_self _ _ _)
      · intro other notPlace notFresh
        exact (Function.update_of_ne notFresh _ _).trans
          (Function.update_of_ne notPlace _ _)
    · rw [List.map_append, List.nodup_append]
      refine ⟨holds.distinct, List.nodup_singleton _, ?_⟩
      intro used isUsed other isNew
      rw [List.map_singleton, List.mem_singleton] at isNew
      rw [isNew]
      exact ne_of_mem_of_not_mem isUsed absent

section Handler

variable {σ : Type} (handle : σ → ClientMessage → Exec σ)

/-- The first message is handled and its cell is freed. -/
theorem remove_eq {address : ℕ} {value : ClientMessage}
    (holds : buffer.Holds ((address, value) :: entries)) :
    ∃ after : MessageQueue, after.Holds entries ∧ ∀ state,
      remove_buffer_client_message handle state buffer =
        handle state value >>= fun state => .ok (state, after) := by
  have notEmpty : is_buffer_client_message_empty buffer = false := by
    rw [Bool.eq_false_iff, Ne, is_empty_iff holds]
    exact List.cons_ne_nil _ _
  have first : buffer.first = some address := holds.first
  have firstCell := holds.linked.1
  have loaded := Heap.load_eq firstCell
  rw [← first] at loaded
  simp only [remove_buffer_client_message, notEmpty, Bool.false_eq_true,
    if_false, loaded, Exec.ok_bind]
  rcases entries with _ | ⟨⟨following, next⟩, rest⟩
  · have freed := Heap.free_eq firstCell
    rw [← first] at freed
    simp only [if_pos ((holds.first_eq_last_iff).mpr rfl), freed, Exec.ok_bind]
    exact ⟨_, ⟨rfl, rfl, trivial, List.nodup_nil⟩, fun _ => rfl⟩
  · have more : ¬ buffer.first = buffer.last := by
      rw [holds.first_eq_last_iff]
      exact List.cons_ne_nil _ _
    have nextCell := holds.linked.2.1
    have distinct := holds.distinct
    rw [List.map_cons, List.nodup_cons] at distinct
    have different : address ≠ following := by
      rintro rfl
      exact distinct.1 (by simp)
    have freed (cell : QueueCell ClientMessage) :=
      Heap.free_eq ((Function.update_of_ne different (some cell) _).trans firstCell)
    simp only [← first] at freed
    simp only [if_neg more, headAddress, List.head?_cons, Option.map_some,
      Exec.read_some, Exec.ok_bind, Heap.modify_eq nextCell, freed]
    refine ⟨_, ⟨rfl, ?_, ?_, distinct.2⟩, fun _ => rfl⟩
    · show buffer.last = _
      rw [holds.last, List.getLast?_cons_cons]
    · refine holds.linked.tail holds.distinct ?_ ?_
      · exact (Function.update_of_ne (Ne.symm different) _ _).trans
          (Function.update_self _ _ _)
      · intro place notAddress notFollowing
        exact (Function.update_of_ne notAddress _ _).trans
          (Function.update_of_ne notFollowing _ _)

/-- With enough turns the loop handles all messages and empties the buffer. -/
theorem handle_message_eq (holds : buffer.Holds entries) {turns : ℕ}
    (enough : entries.length ≤ turns) :
    ∃ after : MessageQueue, after.Holds [] ∧ ∀ state,
      handle_message handle turns state buffer =
        (entries.map Prod.snd).foldlM handle state >>= fun state =>
          .ok (state, after) := by
  induction entries generalizing buffer turns with
  | nil =>
      have empty : is_buffer_client_message_empty buffer = true :=
        (is_empty_iff holds).mpr rfl
      refine ⟨buffer, holds, fun state => ?_⟩
      unfold handle_message
      exact if_pos empty
  | cons entry rest inductionHypothesis =>
      cases turns with
      | zero => exact absurd enough (Nat.not_succ_le_zero _)
      | succ turns =>
          have notEmpty : ¬ is_buffer_client_message_empty buffer = true := by
            rw [is_empty_iff holds]
            exact List.cons_ne_nil _ _
          rcases remove_eq handle holds with ⟨middle, middleHolds, removes⟩
          rcases inductionHypothesis middleHolds (Nat.le_of_succ_le_succ enough)
            with ⟨after, afterHolds, drains⟩
          refine ⟨after, afterHolds, fun state => ?_⟩
          unfold handle_message
          rw [if_neg notEmpty, removes, List.map_cons, List.foldlM_cons]
          cases handle state entry.2 with
          | error fault => rfl
          | ok next =>
              simp only [Exec.ok_bind]
              exact drains next

/-- The loop does not return before it has handled all messages. -/
theorem turns_of_handle_message (holds : buffer.Holds entries) {turns : ℕ}
    {state : σ} {after : σ × MessageQueue}
    (finishes : handle_message handle turns state buffer = .ok after) :
    entries.length ≤ turns := by
  induction entries generalizing buffer turns state with
  | nil => exact Nat.zero_le _
  | cons entry rest inductionHypothesis =>
      have notEmpty : ¬ is_buffer_client_message_empty buffer = true := by
        rw [is_empty_iff holds]
        exact List.cons_ne_nil _ _
      unfold handle_message at finishes
      rw [if_neg notEmpty] at finishes
      cases turns with
      | zero => cases finishes
      | succ turns =>
          rcases remove_eq handle holds with ⟨middle, middleHolds, removes⟩
          simp only [removes, Exec.bind_eq_ok, Except.ok.injEq] at finishes
          rcases finishes with ⟨_, ⟨_, -, rfl⟩, drains⟩
          exact Nat.succ_le_succ (inductionHypothesis middleHolds drains)

end Handler

end MessageQueue

theorem handle_message_eq_foldlM (platform : Platform)
    (server : FederatedLearning) (messages : List ClientMessage) :
    handle_message platform server messages =
      messages.foldlM
        (fun server message =>
          handle_clint_model_message platform server message.message
            message.length (String.ofList message.ip_id))
        server := by
  induction messages generalizing server with
  | nil => rfl
  | cons message rest inductionHypothesis =>
      rw [handle_message, List.foldlM_cons]
      cases handle_clint_model_message platform server message.message
          message.length (String.ofList message.ip_id) with
      | error fault => rfl
      | ok after => exact inductionHypothesis after

namespace MessageQueue

variable {buffer : MessageQueue} {entries : List (ℕ × ClientMessage)}

/-- The loop over the cells is the loop over the list of messages. -/
theorem handle_message_refines (platform : Platform)
    (server : FederatedLearning) (holds : buffer.Holds entries) {turns : ℕ}
    (enough : entries.length ≤ turns) :
    ∃ after : MessageQueue, after.Holds [] ∧
      handle_message
          (fun server message =>
            handle_clint_model_message platform server message.message
              message.length (String.ofList message.ip_id))
          turns server buffer =
        Server.handle_message platform server (entries.map Prod.snd) >>=
          fun server => .ok (server, after) := by
  rcases handle_message_eq _ holds enough with ⟨after, empty, drains⟩
  exact ⟨after, empty, by rw [drains, handle_message_eq_foldlM]⟩

/-! ## Runs -/

inductive BufferCall where
  | insert (message : List Char) (length : ℕ) (ip_addr : List Char)
  | remove
  | handleMessage

/-- The message which a call inserts. -/
def BufferCall.inserted : BufferCall → List ClientMessage
  | .insert message length ip_addr =>
      [{ message := strdup message, length := length, ip_id := ip_addr }]
  | .remove => []
  | .handleMessage => []

/-- A handler which records what has been passed to it. -/
def pass (handled : List ClientMessage) (message : ClientMessage) :
    Exec (List ClientMessage) :=
  .ok (handled ++ [message])

theorem foldlM_pass (handled messages : List ClientMessage) :
    messages.foldlM pass handled = .ok (handled ++ messages) := by
  induction messages generalizing handled with
  | nil => rw [List.foldlM_nil, List.append_nil, Exec.pure_eq_ok]
  | cons message rest inductionHypothesis =>
      rw [List.foldlM_cons, pass, Exec.ok_bind, inductionHypothesis,
        List.append_assoc, List.singleton_append]

/-- A call, on the messages passed on so far and the buffer. -/
inductive BufferStep : List ClientMessage × MessageQueue → BufferCall →
    List ClientMessage × MessageQueue → Prop where
  | insert {handled buffer address message length ip_addr after}
      (fresh : buffer.heap address = none)
      (finishes :
        insert_buffer_client_message address buffer message length ip_addr =
          .ok after) :
      BufferStep (handled, buffer) (.insert message length ip_addr)
        (handled, after)
  | remove {handled buffer after}
      (finishes : remove_buffer_client_message pass handled buffer = .ok after) :
      BufferStep (handled, buffer) .remove after
  | handleMessage {handled buffer turns after}
      (finishes : handle_message pass turns handled buffer = .ok after) :
      BufferStep (handled, buffer) .handleMessage after

/-- The buffer holds what has been inserted and not passed on, in order. -/
def Queued (calls : List BufferCall)
    (state : List ClientMessage × MessageQueue) : Prop :=
  ∃ entries, state.2.Holds entries ∧
    state.1 ++ entries.map Prod.snd = calls.flatMap BufferCall.inserted

theorem remove_of_empty {σ : Type} (handle : σ → ClientMessage → Exec σ)
    (state : σ) (holds : buffer.Holds []) :
    remove_buffer_client_message handle state buffer = .ok (state, buffer) :=
  if_pos ((is_empty_iff holds).mpr rfl)

/-- Every call keeps the messages in order. -/
theorem Queued.step {calls : List BufferCall} {call : BufferCall}
    {state next : List ClientMessage × MessageQueue}
    (step : BufferStep state call next) (queued : Queued calls state) :
    Queued (calls ++ [call]) next := by
  rcases queued with ⟨entries, holds, sofar⟩
  rw [Queued, List.flatMap_append, List.flatMap_singleton, ← sofar]
  cases step with
  | insert fresh finishes =>
      rcases insert_eq holds fresh _ _ _ with ⟨after, inserts, afterHolds⟩
      rw [Exec.result_unique finishes inserts]
      refine ⟨_, afterHolds, ?_⟩
      rw [List.map_append, ← List.append_assoc]
      rfl
  | remove finishes =>
      rw [show BufferCall.inserted .remove = [] from rfl, List.append_nil]
      rcases entries with _ | ⟨⟨address, value⟩, rest⟩
      · rw [Exec.result_unique finishes (remove_of_empty pass _ holds)]
        exact ⟨[], holds, rfl⟩
      · rcases remove_eq pass holds with ⟨after, afterHolds, removes⟩
        rw [Exec.result_unique finishes (removes _)]
        refine ⟨rest, afterHolds, ?_⟩
        rw [List.map_cons, List.append_assoc, List.singleton_append]
  | handleMessage finishes =>
      rw [show BufferCall.inserted .handleMessage = [] from rfl,
        List.append_nil]
      have enough := turns_of_handle_message pass holds finishes
      rcases handle_message_eq pass holds enough
        with ⟨after, afterHolds, drains⟩
      rw [drains, foldlM_pass, Exec.ok_bind, Except.ok.injEq] at finishes
      subst finishes
      exact ⟨[], afterHolds, List.append_nil _⟩

/--
After any calls the cells are linked in both directions from the first to the
last, and each inserted message has been passed on once, in the order of the
insertions, or is still waiting in that order.  Every call returns, and
`handle_message` passes all waiting messages on and leaves an empty buffer.
-/
theorem message_buffer_is_fifo {calls : List BufferCall}
    {handled : List ClientMessage}
    (path :
      Path BufferStep ([], HeapQueue.empty) calls (handled, buffer)) :
    ∃ entries, buffer.Holds entries ∧
      handled ++ entries.map Prod.snd = calls.flatMap BufferCall.inserted ∧
        (buffer.first = none ↔ buffer.last = none) ∧
          (∀ first ∈ entries, ∀ second ∈ entries,
            buffer.nextOf first.1 = some second.1 ↔
              buffer.previousOf second.1 = some first.1) ∧
            (∀ address message length ip_addr, buffer.heap address = none →
              ∃ after,
                insert_buffer_client_message address buffer message length
                  ip_addr = .ok after) ∧
              (∃ after,
                remove_buffer_client_message pass handled buffer = .ok after) ∧
                ∀ turns ≥ entries.length, ∃ after,
                  handle_message pass turns handled buffer =
                      .ok (calls.flatMap BufferCall.inserted, after) ∧
                    after.first = none ∧ after.last = none := by
  have queued : Queued calls (handled, buffer) :=
    path.history Queued Queued.step
      ⟨[], HeapQueue.holds_empty, List.append_nil _⟩
  rcases queued with ⟨entries, holds, sofar⟩
  refine ⟨entries, holds, sofar, ?_, ?_, ?_, ?_, ?_⟩
  · rw [holds.first_eq_none_iff, holds.last_eq_none_iff]
  · exact fun first here second there => holds.nextOf_eq_some_iff here there
  · intro address message length ip_addr fresh
    rcases insert_eq holds fresh message length ip_addr with ⟨after, inserts, -⟩
    exact ⟨after, inserts⟩
  · rcases entries with _ | ⟨⟨address, value⟩, rest⟩
    · exact ⟨_, remove_of_empty pass handled holds⟩
    · rcases remove_eq pass holds with ⟨after, -, removes⟩
      exact ⟨_, removes handled⟩
  · intro turns enough
    rcases handle_message_eq pass holds enough with ⟨after, empty, drains⟩
    refine ⟨after, ?_, empty.first_eq_none_iff.mpr rfl,
      empty.last_eq_none_iff.mpr rfl⟩
    rw [drains, foldlM_pass, Exec.ok_bind, ← sofar]

def sampleMessage (text : String) : ClientMessage :=
  ⟨text.toList, text.length, "10.0.0.2".toList⟩

def sampleInsert (text : String) : BufferCall :=
  .insert text.toList text.length "10.0.0.2".toList

/-- One message is taken out, two are handled by the loop, and one is left. -/
def sampleCalls : List BufferCall :=
  [sampleInsert "a", sampleInsert "b", .remove, sampleInsert "c",
    .handleMessage, sampleInsert "d"]

theorem message_buffer_is_fifo_sample :
    ∃ buffer entries,
      Path BufferStep ([], HeapQueue.empty) sampleCalls
          (["a", "b", "c"].map sampleMessage, buffer) ∧
        buffer.Holds entries ∧
          ["a", "b", "c"].map sampleMessage ++ entries.map Prod.snd =
            ["a", "b", "c", "d"].map sampleMessage := by
  have path :
      ∃ buffer, Path BufferStep ([], HeapQueue.empty) sampleCalls
        (["a", "b", "c"].map sampleMessage, buffer) :=
    ⟨_, .cons (@BufferStep.insert _ _ 0 _ _ _ _ rfl rfl) <|
      .cons (@BufferStep.insert _ _ 1 _ _ _ _ rfl rfl) <|
        .cons (.remove rfl) <|
          .cons (@BufferStep.insert _ _ 0 _ _ _ _ rfl rfl) <|
            .cons (@BufferStep.handleMessage _ _ 2 _ rfl) <|
              .single (@BufferStep.insert _ _ 0 _ _ _ _ rfl rfl)⟩
  rcases path with ⟨buffer, path⟩
  rcases message_buffer_is_fifo path with ⟨entries, holds, inOrder, -⟩
  exact ⟨buffer, entries, path, holds, inOrder⟩

end MessageQueue

end FederatedEdge.Server
