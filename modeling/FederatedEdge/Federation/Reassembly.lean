import FederatedEdge.Library.Path
import FederatedEdge.Server.Requests
import FederatedEdge.Server.WebSocketServer

/-!
# Messages out of fragments

Sessions send model texts in fragments.  The server collects the fragments of
all sessions in one buffer.  As long as no session sends while the text of
another one is unfinished, each text becomes one message under the address of
its session.  When two texts overlap, their fragments end up in one message.
-/

namespace FederatedEdge.Federation

open FederatedEdge.Library
open FederatedEdge.Server

/--
An object whose braces all belong to its structure, without a null character
and within the size limit.
-/
structure ModelText (text : List Char) : Prop where
  object : Bracketed openBrace closeBrace text
  terminated : nul ∉ text
  fits : text.length ≤ MAX_JSON_SIZE

/--
The server with its buffers, what each session has stored and which sessions
were closed; the messages handled so far; and, on the side of the sessions,
the part of its text which each of them has sent, and the finished texts.
-/
structure Transmission (Session : Type) where
  server : FederatedLearning
  reception : Reception
  client_ip : Session → List Char
  closed : List Session
  handled : List ClientMessage
  begun : Session → List Char
  sent : List ClientMessage

inductive Delivery (Session : Type) where
  | fragment (session : Session) (characters : List Char)
  | service

namespace Transmission

variable {Session : Type} [DecidableEq Session]

/-- Nothing has been received, and no session has sent anything. -/
def start (server : FederatedLearning) : Transmission Session where
  server := server
  reception := { received_json := [], buffer := [] }
  client_ip _ := []
  closed := []
  handled := []
  begun _ := []
  sent := []

/-- All messages which were inserted into the list of client messages. -/
def inserted (state : Transmission Session) : List ClientMessage :=
  state.handled ++ state.reception.buffer

/-- The callback for a fragment, which closes the session by another code. -/
def receive (peers : Session → Peer) (state : Transmission Session)
    (session : Session) (characters : List Char) : Transmission Session :=
  let (code, reception, client_ip) :=
    callback_echo (peers session).full_ip .receive (state.client_ip session)
      state.reception characters
  { state with
    reception := reception
    client_ip := Function.update state.client_ip session client_ip
    closed := if code = 0 then state.closed else state.closed ++ [session] }

/-- The session is in the middle of a text. -/
def continueText (state : Transmission Session) (session : Session)
    (text : List Char) : Transmission Session :=
  { state with begun := Function.update state.begun session text }

/-- The session has sent a whole text. -/
def finishText (state : Transmission Session) (session : Session)
    (text address : List Char) : Transmission Session :=
  { state with
    begun := Function.update state.begun session []
    sent := state.sent ++ [⟨text, text.length, address⟩] }

end Transmission

/--
A session sends a fragment of its text, the last one or another one, or the
server handles the messages of the list.
-/
inductive TransmissionStep {Session : Type} [DecidableEq Session]
    (platform : Platform) (peers : Session → Peer) :
    Transmission Session → Delivery Session → Transmission Session → Prop where
  | continued {state : Transmission Session} {session characters rest}
      (connected : session ∉ state.closed) (unfinished : rest ≠ [])
      (text : ModelText (state.begun session ++ characters ++ rest)) :
      TransmissionStep platform peers state (.fragment session characters)
        ((state.receive peers session characters).continueText session
          (state.begun session ++ characters))
  | finished {state : Transmission Session} {session characters}
      (connected : session ∉ state.closed)
      (text : ModelText (state.begun session ++ characters)) :
      TransmissionStep platform peers state (.fragment session characters)
        ((state.receive peers session characters).finishText session
          (state.begun session ++ characters) (peers session).address)
  | service {state : Transmission Session} {after}
      (handles :
        handle_message platform state.server state.reception.buffer =
          .ok after) :
      TransmissionStep platform peers state .service
        { state with
          server := after
          reception := { state.reception with buffer := [] }
          handled := state.inserted }

/-- While a session sends, no other session is in the middle of a text. -/
def Alone {Session : Type} (state : Transmission Session)
    (delivery : Delivery Session) : Prop :=
  ∀ session characters, delivery = .fragment session characters →
    characters ≠ [] → ∀ other, other ≠ session → state.begun other = []

variable {Session : Type} [DecidableEq Session] {platform : Platform}
  {peers : Session → Peer} {state next : Transmission Session}
  {delivery : Delivery Session} {session : Session}
  {characters : List Char}

/-! ## Complete and incomplete texts -/

theorem openBrace_ne_closeBrace : openBrace ≠ closeBrace := by
  decide

theorem ModelText.complete {text : List Char} (isText : ModelText text) :
    is_complete_json text :=
  (is_complete_json_iff text).mpr
    ⟨isText.object.depth_eq_zero openBrace_ne_closeBrace,
      isText.object.count_opening_pos⟩

/-- The beginning of a text is not complete. -/
theorem ModelText.not_complete_of_prefix {text front : List Char}
    (isText : ModelText text) (early : front <+: text) (proper : front ≠ text) :
    ¬ is_complete_json front := by
  rw [is_complete_json_iff]
  rintro ⟨balanced, opened⟩
  by_cases empty : front = []
  · rw [empty] at opened
    simp at opened
  · have open_ :=
      isText.object.depth_prefix_pos openBrace_ne_closeBrace early empty proper
    rw [balanced] at open_
    exact lt_irrefl _ open_

/-! ## One fragment -/

/-- The buffer holds what the sending session has sent of its text. -/
structure Assembled (peers : Session → Peer) (state : Transmission Session) :
    Prop where
  inserted : state.inserted = state.sent
  connected : state.closed = []
  stored : ∀ session, state.client_ip session = [] ∨
    state.client_ip session = (peers session).address
  beginning : ∀ session, state.begun session ≠ [] →
    state.reception.received_json = state.begun session ∧
      ∃ text, ModelText text ∧ state.begun session <+: text ∧
        state.begun session ≠ text
  idle : (∀ session, state.begun session = []) →
    state.reception.received_json = []

/-- A fragment which leaves the text in the buffer incomplete. -/
theorem receive_of_incomplete
    (fits :
      (state.reception.received_json ++ characters).length ≤ MAX_JSON_SIZE)
    (incomplete :
      ¬ is_complete_json (state.reception.received_json ++ characters)) :
    state.receive peers session characters =
      { state with
        reception :=
          { state.reception with
            received_json := state.reception.received_json ++ characters } } := by
  have small : ¬ state.reception.received_json.length + characters.length >
      MAX_JSON_SIZE := by
    rw [List.length_append] at fits
    exact not_lt.mpr fits
  simp only [Transmission.receive, callback_echo, if_neg small,
    if_neg incomplete, Function.update_eq_self, if_true]

/-- A fragment which completes the text in the buffer. -/
theorem receive_of_complete
    (stored : state.client_ip session = [] ∨
      state.client_ip session = (peers session).address)
    (text : ModelText (state.reception.received_json ++ characters)) :
    state.receive peers session characters =
      { state with
        reception :=
          { received_json := []
            buffer :=
              state.reception.buffer ++
                [⟨state.reception.received_json ++ characters,
                  (state.reception.received_json ++ characters).length,
                  (peers session).address⟩] }
        client_ip :=
          Function.update state.client_ip session (peers session).address } := by
  have small : ¬ state.reception.received_json.length + characters.length >
      MAX_JSON_SIZE := by
    rw [← List.length_append]
    exact not_lt.mpr text.fits
  have address :
      (if state.client_ip session = [] then
          get_client_ip (peers session).full_ip IPV4_MAX_LEN
        else state.client_ip session) = (peers session).address := by
    rw [(peers session).get_client_ip_eq]
    rcases stored with nothing | same
    · rw [if_pos nothing]
    · rw [same]
      exact ite_self _
  simp only [Transmission.receive, callback_echo, if_neg small,
    if_pos text.complete, address, insert_buffer_client_message,
    strdup_of_notMem text.terminated, if_true]

/-- A sending session which is alone finds its own text in the buffer. -/
theorem Assembled.received_of_alone (assembled : Assembled peers state)
    (alone : ∀ other, other ≠ session → state.begun other = []) :
    state.reception.received_json = state.begun session := by
  by_cases empty : state.begun session = []
  · rw [empty]
    apply assembled.idle
    intro other
    by_cases same : other = session
    · rw [same]
      exact empty
    · exact alone other same
  · exact (assembled.beginning session empty).1

theorem begun_continueText_self (state : Transmission Session)
    (session : Session) (text : List Char) :
    (state.continueText session text).begun session = text :=
  Function.update_self _ _ _

theorem begun_continueText_of_ne (text : List Char) {other : Session}
    (different : other ≠ session) :
    (state.continueText session text).begun other = state.begun other :=
  Function.update_of_ne different _ _

/-- A fragment before the last one is appended to the text in the buffer. -/
theorem Assembled.continued {rest : List Char}
    (assembled : Assembled peers state)
    (alone : characters ≠ [] →
      ∀ other, other ≠ session → state.begun other = [])
    (unfinished : rest ≠ [])
    (text : ModelText (state.begun session ++ characters ++ rest)) :
    Assembled peers
      ((state.receive peers session characters).continueText session
        (state.begun session ++ characters)) := by
  have early : state.begun session ++ characters <+:
      state.begun session ++ characters ++ rest :=
    List.prefix_append _ _
  have proper : state.begun session ++ characters ≠
      state.begun session ++ characters ++ rest := by
    intro same
    exact unfinished (List.append_right_eq_self.mp same.symm)
  by_cases empty : characters = []
  · -- nothing arrives, and the buffer keeps the text of whoever sends
    subst empty
    have pending : ∃ whole, ModelText whole ∧
        state.reception.received_json <+: whole ∧
          state.reception.received_json ≠ whole := by
      by_cases idle : ∀ other, state.begun other = []
      · rw [assembled.idle idle]
        exact ⟨_, text, List.nil_prefix, Ne.symm text.object.ne_nil⟩
      · rcases not_forall.mp idle with ⟨other, busy⟩
        rcases assembled.beginning other busy with ⟨same, whole⟩
        rw [same]
        exact whole
    rcases pending with ⟨whole, isText, wholeEarly, wholeProper⟩
    have same : (state.receive peers session []).continueText session
        (state.begun session ++ []) = state := by
      rw [receive_of_incomplete]
      · simp [Transmission.continueText]
      · rw [List.append_nil]
        exact wholeEarly.length_le.trans isText.fits
      · rw [List.append_nil]
        exact isText.not_complete_of_prefix wholeEarly wholeProper
    rw [same]
    exact assembled
  · have received := assembled.received_of_alone (alone empty)
    have appended :
        state.receive peers session characters =
          { state with
            reception :=
              { state.reception with
                received_json := state.begun session ++ characters } } := by
      rw [receive_of_incomplete, received]
      · rw [received]
        exact early.length_le.trans text.fits
      · rw [received]
        exact text.not_complete_of_prefix early proper
    rw [appended]
    refine ⟨assembled.inserted, assembled.connected, assembled.stored, ?_, ?_⟩
    · intro other busy
      by_cases same : other = session
      · subst same
        rw [begun_continueText_self]
        exact ⟨rfl, _, text, early, proper⟩
      · rw [begun_continueText_of_ne _ same] at busy
        exact (busy (alone empty other same)).elim
    · intro idle
      have nothing := idle session
      rw [begun_continueText_self] at nothing
      exact (empty (List.append_eq_nil_iff.mp nothing).2).elim

/-- The last fragment of a text makes it a message. -/
theorem Assembled.finished (assembled : Assembled peers state)
    (alone : characters ≠ [] →
      ∀ other, other ≠ session → state.begun other = [])
    (text : ModelText (state.begun session ++ characters)) :
    Assembled peers
      ((state.receive peers session characters).finishText session
        (state.begun session ++ characters) (peers session).address) := by
  have nonempty : characters ≠ [] := by
    rintro rfl
    rw [List.append_nil] at text
    rcases assembled.beginning session text.object.ne_nil
      with ⟨-, whole, isText, early, proper⟩
    exact isText.not_complete_of_prefix early proper text.complete
  have received := assembled.received_of_alone (alone nonempty)
  have complete :
      ModelText (state.reception.received_json ++ characters) := by
    rw [received]
    exact text
  rw [receive_of_complete (assembled.stored session) complete, received]
  refine ⟨?_, assembled.connected, ?_, ?_, fun _ => rfl⟩
  · show state.handled ++ (state.reception.buffer ++ _) = state.sent ++ _
    rw [← List.append_assoc]
    exact congrArg (· ++ _) assembled.inserted
  · intro other
    show Function.update state.client_ip session (peers session).address
          other = [] ∨
        Function.update state.client_ip session (peers session).address
          other = (peers other).address
    by_cases same : other = session
    · subst same
      rw [Function.update_self]
      exact Or.inr rfl
    · rw [Function.update_of_ne same]
      exact assembled.stored other
  · intro other busy
    change Function.update state.begun session [] other ≠ [] at busy
    by_cases same : other = session
    · subst same
      rw [Function.update_self] at busy
      exact (busy rfl).elim
    · rw [Function.update_of_ne same] at busy
      exact (busy (alone nonempty other same)).elim

/-- Every step with a lone sender keeps the invariant. -/
theorem Assembled.step (assembled : Assembled peers state)
    (alone : Alone state delivery)
    (step : TransmissionStep platform peers state delivery next) :
    Assembled peers next := by
  cases step with
  | continued _ unfinished text =>
      exact assembled.continued (alone _ _ rfl) unfinished text
  | finished _ text => exact assembled.finished (alone _ _ rfl) text
  | service handles =>
      refine ⟨?_, assembled.connected, assembled.stored, assembled.beginning,
        assembled.idle⟩
      rw [Transmission.inserted, List.append_nil]
      exact assembled.inserted

/--
If no session sends while another one is in the middle of a text, then at every
moment the inserted messages are the finished texts, each once and unmodified,
under the address of its session, and no session is closed.
-/
theorem messages_are_the_texts
    {server : FederatedLearning} {deliveries : List (Delivery Session)}
    (run :
      Path (Restricted Alone (TransmissionStep platform peers))
        (Transmission.start server) deliveries state) :
    state.inserted = state.sent ∧ state.closed = [] := by
  have started : Assembled peers (Transmission.start server) :=
    ⟨rfl, rfl, fun _ => Or.inl rfl, fun _ busy => (busy rfl).elim,
      fun _ => rfl⟩
  have assembled : Assembled peers state := by
    refine run.invariant (Assembled peers) ?_ started
    rintro source delivery target ⟨alone, step⟩ sourceAssembled
    exact sourceAssembled.step alone step
  exact ⟨assembled.inserted, assembled.connected⟩

/-! ## Two sessions -/

/-- A small object in two fragments. -/
def sampleFront : List Char :=
  "\x7b\"status\"".toList

def sampleBack : List Char :=
  ":1\x7d".toList

theorem modelText_sample : ModelText (sampleFront ++ sampleBack) := by
  have noOpening : openBrace ∉ "\"status\":1".toList := by
    decide
  have noClosing : closeBrace ∉ "\"status\":1".toList := by
    decide
  have plain :
      ∀ symbol ∈ "\"status\":1".toList,
        symbol ≠ openBrace ∧ symbol ≠ closeBrace := by
    intro symbol member
    exact ⟨ne_of_mem_of_not_mem member noOpening,
      ne_of_mem_of_not_mem member noClosing⟩
  constructor
  · exact ⟨"\"status\":1".toList, .of_forall_ne plain, rfl⟩
  · show nul ∉ "\x7b\"status\":1\x7d".toList
    decide
  · show 12 ≤ 16384
    norm_num

/-- The peers of the two sessions. -/
def samplePeers (session : Bool) : Peer :=
  if session then
    { full_ip := "10.0.0.2".toList
      address := "10.0.0.2".toList
      short := by decide
      plain := by decide
      assigned := by decide
      named := Or.inl rfl }
  else
    { full_ip := "::ffff:10.0.0.3".toList
      address := "10.0.0.3".toList
      short := by decide
      plain := by decide
      assigned := by decide
      named := Or.inr ⟨"::ffff".toList, by decide⟩ }

/-- The first session has sent the first fragment of its text. -/
def sampleBegun : Transmission Bool :=
  let started : Transmission Bool := .start (sampleStart 1 2)
  (started.receive samplePeers true sampleFront).continueText true sampleFront

theorem step_sampleBegun :
    TransmissionStep samplePlatform samplePeers (.start (sampleStart 1 2))
      (.fragment true sampleFront) sampleBegun := by
  have text :
      ModelText
        ((Transmission.start (sampleStart 1 2)).begun true ++ sampleFront ++
          sampleBack) :=
    modelText_sample
  exact .continued List.not_mem_nil (by decide) text

/-- The first session has sent its whole text. -/
def sampleFinished : Transmission Bool :=
  (sampleBegun.receive samplePeers true sampleBack).finishText true
    (sampleFront ++ sampleBack) (samplePeers true).address

/-- The second session has sent the first fragment of its text. -/
def sampleTakenOver : Transmission Bool :=
  (sampleFinished.receive samplePeers false sampleFront).continueText false
    sampleFront

theorem step_sampleFinished :
    TransmissionStep samplePlatform samplePeers sampleBegun
      (.fragment true sampleBack) sampleFinished := by
  have text : ModelText (sampleBegun.begun true ++ sampleBack) :=
    modelText_sample
  exact .finished List.not_mem_nil text

theorem step_sampleTakenOver :
    TransmissionStep samplePlatform samplePeers sampleFinished
      (.fragment false sampleFront) sampleTakenOver := by
  have text :
      ModelText (sampleFinished.begun false ++ sampleFront ++ sampleBack) :=
    modelText_sample
  exact .continued (by decide) (by decide) text

theorem messages_are_the_texts_sample :
    ∃ state : Transmission Bool,
      state.sent =
          [⟨sampleFront ++ sampleBack, 12, (samplePeers true).address⟩,
            ⟨sampleFront ++ sampleBack, 12, (samplePeers false).address⟩] ∧
        state.inserted = state.sent ∧ state.closed = [] := by
  have first : Alone (Transmission.start (sampleStart 1 2))
      (.fragment true sampleFront) :=
    fun _ _ _ _ _ _ => rfl
  have second : Alone sampleBegun (.fragment true sampleBack) := by
    rintro session characters ⟨⟩ - other different
    exact begun_continueText_of_ne _ different
  have third : Alone sampleFinished (.fragment false sampleFront) := by
    rintro session characters - - other -
    cases other <;> rfl
  have fourth : Alone sampleTakenOver (.fragment false sampleBack) := by
    rintro session characters ⟨⟩ - other different
    cases other
    · exact absurd rfl different
    · rfl
  have text : ModelText (sampleTakenOver.begun false ++ sampleBack) :=
    modelText_sample
  exact ⟨_, rfl, messages_are_the_texts
    (.cons ⟨first, step_sampleBegun⟩ <|
      .cons ⟨second, step_sampleFinished⟩ <|
        .cons ⟨third, step_sampleTakenOver⟩ <|
          .single ⟨fourth, .finished (by decide) text⟩)⟩

/--
The second session sends its whole text between the two fragments of the first.
All that arrives goes into one message, although two texts were sent.
-/
theorem overlapping_texts_are_mixed :
    ∃ deliveries, ∃ state : Transmission Bool,
      Path (TransmissionStep samplePlatform samplePeers)
          (.start (sampleStart 1 2)) deliveries state ∧
        (∀ session, state.begun session = []) ∧ state.closed = [] ∧
        ¬ state.inserted.Perm state.sent := by
  let between : Transmission Bool :=
    (sampleBegun.receive samplePeers false (sampleFront ++ sampleBack)).finishText
      false (sampleFront ++ sampleBack) (samplePeers false).address
  let final : Transmission Bool :=
    (between.receive samplePeers true sampleBack).finishText true
      (sampleFront ++ sampleBack) (samplePeers true).address
  have second :
      TransmissionStep samplePlatform samplePeers sampleBegun
        (.fragment false (sampleFront ++ sampleBack)) between := by
    have text :
        ModelText (sampleBegun.begun false ++ (sampleFront ++ sampleBack)) :=
      modelText_sample
    exact .finished (by decide) text
  have third :
      TransmissionStep samplePlatform samplePeers between
        (.fragment true sampleBack) final := by
    have text : ModelText (between.begun true ++ sampleBack) :=
      modelText_sample
    exact .finished (by decide) text
  refine ⟨_, final, .cons step_sampleBegun (.cons second (.single third)),
    by decide, by decide, ?_⟩
  intro same
  have lengths := same.length_eq
  have one : final.inserted.length = 1 := by
    decide
  rw [one] at lengths
  exact absurd lengths (by decide)

end FederatedEdge.Federation
