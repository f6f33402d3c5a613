import FederatedEdge.Federation.Reassembly
import FederatedEdge.Server.ReceivedJson

/-!
# The texts of one session

A session sends fragments until the callback closes it.  A session which finds
the buffer empty gets all of its texts through, each with its last character.

A session which is rejected or closed leaves its characters in the buffer, as
nothing but the completion of a text resets `received_json_len`.  The next text
comes through if and only if nothing was left.
-/

namespace FederatedEdge.Federation

open FederatedEdge.Library
open FederatedEdge.Server

/-! ## The fragments of a session -/

/--
A session sends fragments one after the other, until it is closed: whether it
still is connected, the buffers, and what it has stored.
-/
def sendAll (full_ip : List Char) :
    List (List Char) → List Char → Reception → Bool × Reception × List Char
  | [], client_ip, reception => (true, reception, client_ip)
  | fragment :: rest, client_ip, reception =>
      let (code, reception, client_ip) :=
        callback_echo full_ip .receive client_ip reception fragment
      if code = 0 then sendAll full_ip rest client_ip reception
      else (false, reception, client_ip)

/-- The same on the array. -/
def receiveAll (full_ip : List Char) :
    List (List Char) → List Char → ReceiveBuffer →
      Traced ReceiveArray (Bool × ReceiveBuffer × List Char)
  | [], client_ip, state => pure (true, state, client_ip)
  | fragment :: rest, client_ip, state => do
      let (code, state, client_ip) ←
        receiveFragment full_ip client_ip state fragment
      if code = 0 then receiveAll full_ip rest client_ip state
      else pure (false, state, client_ip)

variable {full_ip client_ip : List Char} {reception : Reception}

theorem yields_receiveAll {fragments : List (List Char)}
    {state : ReceiveBuffer} (represents : Represents state reception) :
    Yields (receiveAll full_ip fragments client_ip state) True (fun result =>
      result.1 = (sendAll full_ip fragments client_ip reception).1 ∧
        Represents result.2.1
          (sendAll full_ip fragments client_ip reception).2.1) := by
  induction fragments generalizing client_ip state reception with
  | nil => exact Yields.pure ⟨rfl, represents⟩
  | cons fragment rest inductionHypothesis =>
      refine (yields_receiveFragment represents).seq ?_
      rintro ⟨code, after, stored⟩ ⟨sameCode, holds, same⟩
      simp only at sameCode holds same
      subst sameCode same
      simp only [sendAll]
      split_ifs
      · exact inductionHypothesis holds
      · exact Yields.pure ⟨rfl, holds⟩

/-- As long as the session is connected, it goes on sending. -/
theorem sendAll_append {early late : List (List Char)} {middle : Reception}
    {stored : List Char}
    (sends :
      sendAll full_ip early client_ip reception = (true, middle, stored)) :
    sendAll full_ip (early ++ late) client_ip reception =
      sendAll full_ip late stored middle := by
  induction early generalizing client_ip reception with
  | nil =>
      cases sends
      rfl
  | cons fragment early inductionHypothesis =>
      simp only [List.cons_append, sendAll] at sends ⊢
      split_ifs at sends ⊢ with accepted
      · exact inductionHypothesis sends
      · cases sends

/-- The message made of a text. -/
def messageOf (full_ip text : List Char) : ClientMessage where
  message := text
  length := text.length
  ip_id := get_client_ip full_ip IPV4_MAX_LEN

/-- The messages made of texts which come in fragments. -/
def messagesOf (full_ip : List Char) (texts : List (List (List Char))) :
    List ClientMessage :=
  texts.map fun fragments => messageOf full_ip fragments.flatten

/-- A session stores nothing, or the address found for it. -/
def Stored (full_ip client_ip : List Char) : Prop :=
  client_ip = [] ∨ client_ip = get_client_ip full_ip IPV4_MAX_LEN

/-! ## One text -/

/-- A fragment before the end of a text is kept. -/
theorem callback_of_incomplete (full_ip client_ip : List Char)
    {input : List Char}
    (fits :
      (reception.received_json ++ input).length ≤ MAX_JSON_SIZE)
    (incomplete : ¬ is_complete_json (reception.received_json ++ input)) :
    callback_echo full_ip .receive client_ip reception input =
      (0,
        { reception with received_json := reception.received_json ++ input },
        client_ip) := by
  have small :
      ¬ reception.received_json.length + input.length > MAX_JSON_SIZE := by
    rw [← List.length_append]
    exact not_lt.mpr fits
  simp only [callback_echo, if_neg small, if_neg incomplete]

/-- The fragment at the end of a text makes it a message. -/
theorem callback_of_complete {input : List Char}
    (text : ModelText (reception.received_json ++ input))
    (stored : Stored full_ip client_ip) :
    ∃ address, Stored full_ip address ∧
      callback_echo full_ip .receive client_ip reception input =
        (0,
          { received_json := []
            buffer :=
              reception.buffer ++
                [messageOf full_ip (reception.received_json ++ input)] },
          address) := by
  have small :
      ¬ reception.received_json.length + input.length > MAX_JSON_SIZE := by
    rw [← List.length_append]
    exact not_lt.mpr text.fits
  have address :
      (if client_ip = [] then get_client_ip full_ip IPV4_MAX_LEN
        else client_ip) = get_client_ip full_ip IPV4_MAX_LEN := by
    rcases stored with nothing | same
    · rw [if_pos nothing]
    · rw [same]
      exact ite_self _
  refine ⟨_, Or.inr rfl, ?_⟩
  simp only [callback_echo, if_neg small, if_pos text.complete, address,
    insert_buffer_client_message, strdup_of_notMem text.terminated, messageOf]

/-- Empty fragments change nothing in an empty buffer. -/
theorem sendAll_of_nothing {fragments : List (List Char)}
    (nothing : fragments.flatten = []) (empty : reception.received_json = []) :
    sendAll full_ip fragments client_ip reception =
      (true, reception, client_ip) := by
  induction fragments with
  | nil => rfl
  | cons fragment rest inductionHypothesis =>
      rw [List.flatten_cons, List.append_eq_nil_iff] at nothing
      have kept :
          callback_echo full_ip .receive client_ip reception fragment =
            (0, reception, client_ip) := by
        rw [callback_of_incomplete, empty, nothing.1, List.append_nil, ← empty]
        · rw [empty, nothing.1]
          exact Nat.zero_le _
        · rw [empty, nothing.1]
          decide
      simp only [sendAll, kept, if_true]
      exact inductionHypothesis nothing.2

/-- What fragments of one text make of the buffer. -/
theorem sendAll_text {text : List Char} (isText : ModelText text)
    {fragments : List (List Char)}
    (early : reception.received_json ++ fragments.flatten <+: text)
    (unfinished : reception.received_json ≠ text)
    (stored : Stored full_ip client_ip) :
    ∃ address, Stored full_ip address ∧
      sendAll full_ip fragments client_ip reception =
        (true,
          if reception.received_json ++ fragments.flatten = text then
            { received_json := []
              buffer := reception.buffer ++ [messageOf full_ip text] }
          else
            { reception with
              received_json := reception.received_json ++ fragments.flatten },
          address) := by
  induction fragments generalizing client_ip reception with
  | nil =>
      refine ⟨client_ip, stored, ?_⟩
      rw [List.flatten_nil, List.append_nil, if_neg unfinished]
      rfl
  | cons fragment rest inductionHypothesis =>
      rw [List.flatten_cons, ← List.append_assoc] at early ⊢
      by_cases completes : reception.received_json ++ fragment = text
      · have nothing : rest.flatten = [] := by
          rw [completes] at early
          have short := early.length_le
          rw [List.length_append] at short
          exact List.eq_nil_of_length_eq_zero (by omega)
        rcases callback_of_complete (completes ▸ isText) stored
          with ⟨address, isStored, completed⟩
        refine ⟨address, isStored, ?_⟩
        simp only [sendAll, completed, if_true]
        rw [sendAll_of_nothing nothing rfl, nothing, List.append_nil,
          if_pos completes, completes]
      · have front : reception.received_json ++ fragment <+: text :=
          (List.prefix_append _ _).trans early
        have kept :=
          callback_of_incomplete full_ip client_ip
            (front.length_le.trans isText.fits)
            (isText.not_complete_of_prefix front completes)
        simp only [sendAll, kept, if_true]
        exact inductionHypothesis early completes stored

/-- A session which finds the buffer empty gets its texts through. -/
theorem sendAll_texts {texts : List (List (List Char))}
    (isText : ∀ fragments ∈ texts, ModelText fragments.flatten)
    (empty : reception.received_json = []) (stored : Stored full_ip client_ip) :
    ∃ address, Stored full_ip address ∧
      sendAll full_ip texts.flatten client_ip reception =
        (true,
          { received_json := []
            buffer := reception.buffer ++ messagesOf full_ip texts },
          address) := by
  induction texts generalizing client_ip reception with
  | nil =>
      refine ⟨client_ip, stored, ?_⟩
      rw [List.flatten_nil, messagesOf, List.map_nil, List.append_nil, ← empty]
      rfl
  | cons fragments texts inductionHypothesis =>
      rw [List.forall_mem_cons] at isText
      have unfinished : reception.received_json ≠ fragments.flatten := by
        rw [empty]
        exact Ne.symm isText.1.object.ne_nil
      have whole :
          reception.received_json ++ fragments.flatten <+:
            fragments.flatten := by
        rw [empty]
        exact List.prefix_rfl
      rcases sendAll_text isText.1 whole unfinished stored
        with ⟨address, isStored, sends⟩
      rw [if_pos (by rw [empty]; rfl)] at sends
      have reset :
          (Reception.mk [] (reception.buffer ++
            [messageOf full_ip fragments.flatten])).received_json = [] := rfl
      rcases inductionHypothesis isText.2 reset isStored
        with ⟨last, lastStored, continues⟩
      refine ⟨last, lastStored, ?_⟩
      rw [List.flatten_cons, sendAll_append sends, continues, List.append_assoc,
        List.singleton_append]
      rfl

/--
A session which starts with an empty buffer has sent the texts `sent`, each in
any fragments, and of one more text the fragments `front`.  All accesses were
inside of `received_json`, the texts have been inserted in order and unmodified,
the last one if its last character has been sent, and otherwise the buffer holds
its beginning.
-/
theorem single_session_enqueues (full_ip : List Char)
    {sent : List (List (List Char))} {front back : List (List Char)}
    (texts : ∀ fragments ∈ sent, ModelText fragments.flatten)
    (text : ModelText (front ++ back).flatten) :
    ∃ state address accesses,
      receiveAll full_ip (sent.flatten ++ front) [] .empty [] =
          .ok ((true, state, address), accesses) ∧
        (∀ access ∈ accesses, access.Valid) ∧
          if back.flatten = [] then
            state.received_json_len = 0 ∧
              state.buffer = messagesOf full_ip (sent ++ [front])
          else
            state.received_json.take state.received_json_len =
                front.flatten.map some ∧
              state.received_json_len = front.flatten.length ∧
                state.buffer = messagesOf full_ip sent := by
  have sends : ∃ address, Stored full_ip address ∧
      sendAll full_ip sent.flatten [] ⟨[], []⟩ =
        (true, ⟨[], messagesOf full_ip sent⟩, address) :=
    sendAll_texts texts rfl (Or.inl rfl)
  rcases sends with ⟨middle, isStored, sends⟩
  have early : [] ++ front.flatten <+: (front ++ back).flatten := by
    rw [List.flatten_append]
    exact List.prefix_append _ _
  have unfinished :
      (Reception.mk [] (messagesOf full_ip sent)).received_json ≠
        (front ++ back).flatten :=
    Ne.symm text.object.ne_nil
  rcases sendAll_text text early unfinished isStored
    with ⟨address, -, continues⟩
  rcases yields_receiveAll represents_empty []
    with ⟨⟨connected, state, stored⟩, accesses, runs, valid, sameEnd, holds⟩
  rw [sendAll_append sends, continues] at sameEnd holds
  simp only at sameEnd holds
  subst sameEnd
  refine ⟨state, stored, accesses, runs, valid.mpr trivial, ?_⟩
  have finished :
      [] ++ front.flatten = (front ++ back).flatten ↔ back.flatten = [] := by
    rw [List.nil_append, List.flatten_append, List.self_eq_append_right]
  simp only [finished] at holds
  split_ifs at holds ⊢ with ends
  · refine ⟨holds.length, ?_⟩
    rw [holds.buffer, List.flatten_append, ends, List.append_nil, messagesOf,
      messagesOf, List.map_append]
    rfl
  · exact ⟨holds.content, holds.length, holds.buffer⟩

/-- Two texts, the second one in two fragments. -/
theorem single_session_enqueues_sample :
    ∃ state address accesses,
      receiveAll "10.0.0.2".toList
            [sampleFront ++ sampleBack, sampleFront] [] .empty [] =
          .ok ((true, state, address), accesses) ∧
        (∀ access ∈ accesses, access.Valid) ∧
          state.buffer =
            [messageOf "10.0.0.2".toList (sampleFront ++ sampleBack)] := by
  have texts : ∀ fragments ∈ [[sampleFront ++ sampleBack]],
      ModelText fragments.flatten := by
    intro fragments member
    rw [List.mem_singleton.mp member, List.flatten_singleton]
    exact modelText_sample
  have text : ModelText ([sampleFront] ++ [sampleBack]).flatten :=
    modelText_sample
  rcases single_session_enqueues "10.0.0.2".toList texts text
    with ⟨state, address, accesses, runs, valid, holds⟩
  rw [if_neg (by decide)] at holds
  exact ⟨state, address, accesses, runs, valid, holds.2.2⟩

/-! ## After a session is lost -/

/-- The buffers, what each session has stored, and the sessions which are gone. -/
structure Connections (Session : Type) where
  reception : Reception
  client_ip : Session → List Char
  gone : List Session

inductive ConnectionEvent (Session : Type) where
  | receive (session : Session) (fragment : List Char)
  | close (session : Session)
  | service

namespace Connections

variable {Session : Type} [DecidableEq Session]

def start : Connections Session where
  reception := { received_json := [], buffer := [] }
  client_ip _ := []
  gone := []

/--
The callback returns another code than zero to close its session.  For a
connection which closes it is called with a reason it has no case for.
-/
def after (peers : Session → List Char) (state : Connections Session) :
    ConnectionEvent Session → Connections Session
  | .receive session fragment =>
      if session ∈ state.gone then state
      else
        let (code, reception, client_ip) :=
          callback_echo (peers session) .receive (state.client_ip session)
            state.reception fragment
        { reception := reception
          client_ip := Function.update state.client_ip session client_ip
          gone := if code = 0 then state.gone else state.gone ++ [session] }
  | .close session =>
      let (_, reception, client_ip) :=
        callback_echo (peers session) .other (state.client_ip session)
          state.reception []
      { reception := reception
        client_ip := Function.update state.client_ip session client_ip
        gone := state.gone ++ [session] }
  | .service =>
      { state with reception := { state.reception with buffer := [] } }

/-- The event rejects a session, or closes it. -/
def Loses (state : Connections Session) : ConnectionEvent Session → Prop
  | .receive session fragment =>
      session ∉ state.gone ∧
        MAX_JSON_SIZE <
          state.reception.received_json.length + fragment.length
  | .close _ => True
  | .service => False

/-- A lost session leaves in the buffer what was there. -/
theorem reception_of_loses (peers : Session → List Char)
    {state : Connections Session} {event : ConnectionEvent Session}
    (loses : state.Loses event) :
    (state.after peers event).reception = state.reception := by
  cases event with
  | receive session fragment =>
      rcases loses with ⟨connected, large⟩
      simp only [after, if_neg connected, callback_echo, if_pos large]
  | close session => rfl
  | service => exact loses.elim

end Connections

/-- All characters are in the buffer or were counted in a message. -/
def Reception.amount (reception : Reception) : ℕ :=
  reception.received_json.length + (reception.buffer.map (·.length)).sum

/-- What is accepted is kept, or counted in a message. -/
theorem amount_callback {input client_ip' : List Char} {after : Reception}
    (accepts :
      callback_echo full_ip .receive client_ip reception input =
        (0, after, client_ip')) :
    Reception.amount after = Reception.amount reception + input.length := by
  simp only [callback_echo] at accepts
  split_ifs at accepts
  · cases accepts
  all_goals
    rcases accepts with ⟨⟩
    simp [Reception.amount, insert_buffer_client_message]
    omega

theorem amount_sendAll {fragments : List (List Char)} {after : Reception}
    {stored : List Char}
    (sends :
      sendAll full_ip fragments client_ip reception = (true, after, stored)) :
    Reception.amount after =
      Reception.amount reception + fragments.flatten.length := by
  induction fragments generalizing client_ip reception with
  | nil =>
      cases sends
      rfl
  | cons fragment rest inductionHypothesis =>
      simp only [sendAll] at sends
      split_ifs at sends with accepted
      · rw [inductionHypothesis sends, amount_callback (Prod.ext accepted rfl),
          List.flatten_cons, List.length_append, Nat.add_assoc]
      · cases sends

/-- The fragments do what they do when the buffer is empty. -/
def AsIfEmpty (full_ip : List Char) (fragments : List (List Char))
    (reception : Reception) : Prop :=
  sendAll full_ip fragments [] reception =
    sendAll full_ip fragments [] { reception with received_json := [] }

/-- A new session finds an empty buffer: its text is enqueued. -/
theorem sendAll_of_empty {fragments : List (List Char)}
    (text : ModelText fragments.flatten) (buffer : List ClientMessage) :
    ∃ stored,
      sendAll full_ip fragments [] { received_json := [], buffer := buffer } =
        (true,
          { received_json := []
            buffer := buffer ++ [messageOf full_ip fragments.flatten] },
          stored) := by
  have unfinished :
      (Reception.mk [] buffer).received_json ≠ fragments.flatten :=
    Ne.symm text.object.ne_nil
  rcases sendAll_text text List.prefix_rfl unfinished (Or.inl rfl)
    with ⟨stored, -, sends⟩
  rw [if_pos (List.nil_append _)] at sends
  exact ⟨stored, sends⟩

/-- Characters which are left in the buffer are not lost. -/
theorem asIfEmpty_iff {fragments : List (List Char)}
    (text : ModelText fragments.flatten) (reception : Reception) :
    AsIfEmpty full_ip fragments reception ↔ reception.received_json = [] := by
  constructor
  · intro same
    rcases sendAll_of_empty text reception.buffer with ⟨stored, sends⟩
    rw [AsIfEmpty, sends] at same
    have counted := amount_sendAll same
    simp only [Reception.amount, messageOf, List.length_nil, List.map_append,
      List.sum_append, List.map_singleton, List.sum_singleton] at counted
    exact List.eq_nil_of_length_eq_zero (by omega)
  · intro empty
    rw [AsIfEmpty, ← empty]

/-- The state after some events. -/
def Connections.reached {Session : Type} [DecidableEq Session]
    (peers : Session → List Char) (events : List (ConnectionEvent Session)) :
    Connections Session :=
  events.foldl (Connections.after peers) .start

/-- After a session is lost, the next text comes through if nothing was left. -/
theorem asIfEmpty_of_loses {Session : Type} [DecidableEq Session]
    (peers : Session → List Char) (events : List (ConnectionEvent Session))
    (full_ip : List Char) {fragments : List (List Char)}
    (text : ModelText fragments.flatten) (event : ConnectionEvent Session)
    (loses : (Connections.reached peers events).Loses event) :
    AsIfEmpty full_ip fragments
        (Connections.reached peers (events ++ [event])).reception ↔
      (Connections.reached peers events).reception.received_json = [] := by
  rw [Connections.reached, List.foldl_append]
  show AsIfEmpty full_ip fragments
    ((Connections.reached peers events).after peers event).reception ↔ _
  rw [Connections.reception_of_loses peers loses]
  exact asIfEmpty_iff text _

/--
After any events the next text of a new session is treated as if the buffer had
been empty, which means that it is enqueued, exactly when nothing was left in
the buffer.  So a rejected or closed session does no harm exactly when it left
nothing there.
-/
theorem next_text_enqueued_iff {Session : Type} [DecidableEq Session]
    (peers : Session → List Char) (events : List (ConnectionEvent Session))
    (full_ip : List Char) {fragments : List (List Char)}
    (text : ModelText fragments.flatten) :
    (∃ stored,
      sendAll full_ip fragments []
          { (Connections.reached peers events).reception with
            received_json := [] } =
        (true,
          { received_json := []
            buffer :=
              (Connections.reached peers events).reception.buffer ++
                [messageOf full_ip fragments.flatten] },
          stored)) ∧
      (AsIfEmpty full_ip fragments
          (Connections.reached peers events).reception ↔
        (Connections.reached peers events).reception.received_json = []) ∧
        ∀ event, (Connections.reached peers events).Loses event →
          (AsIfEmpty full_ip fragments
              (Connections.reached peers (events ++ [event])).reception ↔
            (Connections.reached peers events).reception.received_json = []) :=
  ⟨sendAll_of_empty text _, asIfEmpty_iff text _,
    asIfEmpty_of_loses peers events full_ip text⟩

theorem next_text_enqueued_iff_sample :
    AsIfEmpty "10.0.0.3".toList [sampleFront ++ sampleBack]
        (Connections.reached (fun _ => "10.0.0.2".toList)
          [.receive true (sampleFront ++ sampleBack), .close true]).reception ↔
      (Connections.reached (fun _ => "10.0.0.2".toList)
        [.receive true (sampleFront ++ sampleBack),
          .close true]).reception.received_json = [] := by
  have text : ModelText [sampleFront ++ sampleBack].flatten := modelText_sample
  exact (next_text_enqueued_iff (fun _ => "10.0.0.2".toList)
    [.receive true (sampleFront ++ sampleBack), .close true]
    "10.0.0.3".toList text).2.1

/--
A session closes in the middle of its text, and another one is rejected in the
middle of its text.  The text which follows is lost both times.
-/
theorem next_text_is_lost :
    ModelText [sampleFront ++ sampleBack].flatten ∧
      ¬ AsIfEmpty "10.0.0.3".toList [sampleFront ++ sampleBack]
          (Connections.reached (fun _ => "10.0.0.2".toList)
            [.receive true sampleFront, .close true]).reception ∧
        ¬ AsIfEmpty "10.0.0.3".toList [sampleFront ++ sampleBack]
            (Connections.reached (fun _ => "10.0.0.2".toList)
              [.receive true sampleFront,
                .receive true (List.replicate MAX_JSON_SIZE 'x')]).reception := by
  have text : ModelText [sampleFront ++ sampleBack].flatten := modelText_sample
  have left :
      (Connections.reached (fun _ => "10.0.0.2".toList)
        [.receive true sampleFront]).reception.received_json = sampleFront := by
    decide
  have nonempty : sampleFront ≠ [] := by decide
  have lost :=
    asIfEmpty_of_loses (fun _ => "10.0.0.2".toList)
      [.receive true sampleFront] "10.0.0.3".toList text
  refine ⟨text, ?_, ?_⟩
  · intro recovers
    exact nonempty (left.symm.trans ((lost (.close true) trivial).mp recovers))
  · intro recovers
    have rejected :
        (Connections.reached (fun _ => "10.0.0.2".toList)
          [.receive true sampleFront]).Loses
          (.receive true (List.replicate MAX_JSON_SIZE 'x')) := by
      refine ⟨by decide, ?_⟩
      rw [left, List.length_replicate]
      decide
    exact nonempty (left.symm.trans ((lost _ rejected).mp recovers))

end FederatedEdge.Federation
