import FederatedEdge.Library.Buffers
import FederatedEdge.Server.WebSocketServer

/-!
# The static buffer of the callback

`received_json` is an array of `MAX_JSON_SIZE + 1` characters, which are zero at
first.  Here every access of the callback to it is recorded.  All of them are
inside of the array, and what the callback does is what `callback_echo` does to
the characters up to `received_json_len`.
-/

namespace FederatedEdge.Server

open FederatedEdge.Library

inductive ReceiveArray where
  | received_json
deriving DecidableEq, Repr

/-- The static variables, and the list of client messages. -/
structure ReceiveBuffer where
  received_json : Buffer Char
  received_json_len : ℕ
  buffer : List ClientMessage
deriving DecidableEq, Repr

/-- What static memory holds at first. -/
def ReceiveBuffer.empty : ReceiveBuffer where
  received_json := List.replicate (MAX_JSON_SIZE + 1) (some nul)
  received_json_len := 0
  buffer := []

/-- The characters of the array. -/
def characters (received_json : Buffer Char) : List Char :=
  received_json.map fun character => character.getD nul

/-- `memcpy(received_json + offset, input, length of input)`. -/
def memcpy : ℕ → List Char → Buffer Char → Traced ReceiveArray (Buffer Char)
  | _, [], received_json => pure received_json
  | offset, character :: input, received_json => do
      let received_json ←
        received_json.store ReceiveArray.received_json offset character
      memcpy (offset + 1) input received_json

/-- `is_complete_json` on the first characters of the array. -/
def scanJson (json : Buffer Char) (len : ℕ) : Traced ReceiveArray Bool := do
  let counts ←
    countLoop
      (fun i counts => do
        let character ← json.load ReceiveArray.received_json (fun _ => nul) i
        pure (countBrace counts character))
      len (0, 0)
  pure (counts.1 = counts.2 && 0 < counts.1)

/-- The case `LWS_CALLBACK_RECEIVE` of `callback_echo`. -/
def receiveFragment (full_ip client_ip : List Char) (state : ReceiveBuffer)
    (input : List Char) :
    Traced ReceiveArray (ℤ × ReceiveBuffer × List Char) :=
  if state.received_json_len + input.length > MAX_JSON_SIZE then
    pure (-1, state, client_ip)
  else do
    let received_json ←
      memcpy state.received_json_len input state.received_json
    let received_json_len := state.received_json_len + input.length
    let complete ← scanJson received_json received_json_len
    if complete then do
      let client_ip :=
        if client_ip = [] then get_client_ip full_ip IPV4_MAX_LEN else client_ip
      let received_json ←
        received_json.store ReceiveArray.received_json received_json_len nul
      let buffer :=
        insert_buffer_client_message state.buffer (characters received_json)
          received_json_len client_ip
      pure
        (0,
          { received_json := received_json
            received_json_len := 0
            buffer := buffer },
          client_ip)
    else
      pure
        (0,
          { received_json := received_json
            received_json_len := received_json_len
            buffer := state.buffer },
          client_ip)

/-- The array holds the received characters at its beginning. -/
structure Represents (state : ReceiveBuffer) (reception : Reception) : Prop where
  size : state.received_json.length = MAX_JSON_SIZE + 1
  length : state.received_json_len = reception.received_json.length
  content :
    state.received_json.take state.received_json_len =
      reception.received_json.map some
  buffer : state.buffer = reception.buffer

theorem represents_empty :
    Represents .empty { received_json := [], buffer := [] } :=
  ⟨List.length_replicate, rfl, rfl, rfl⟩

/-! ## What each part does -/

theorem yields_memcpy {offset : ℕ} {input : List Char}
    {received_json : Buffer Char} {front : List Char}
    (fits : offset + input.length ≤ received_json.length)
    (content : received_json.take offset = front.map some) :
    Yields (memcpy offset input received_json) True (fun after =>
      after.length = received_json.length ∧
        after.take (offset + input.length) = (front ++ input).map some) := by
  induction input generalizing offset received_json front with
  | nil =>
      refine Yields.pure ⟨rfl, ?_⟩
      rw [List.length_nil, Nat.add_zero, List.append_nil]
      exact content
  | cons character input inductionHypothesis =>
      rw [List.length_cons] at fits
      have written :
          Yields
            (received_json.store ReceiveArray.received_json offset character)
            True (· = received_json.set offset (some character)) :=
        (Buffer.yields_store _ _ _ _).congr_valid
          (iff_true_intro (by omega))
      refine written.seq_eq ?_
      have extended :
          (received_json.set offset (some character)).take (offset + 1) =
            (front ++ [character]).map some := by
        rw [List.take_add_one, List.getElem?_set_self (by omega),
          List.take_set_of_le le_rfl, content]
        simp
      refine (inductionHypothesis ?_ extended).mono Iff.rfl ?_
      · rw [List.length_set]
        omega
      · rintro after ⟨sameSize, holds⟩
        rw [List.length_set] at sameSize
        refine ⟨sameSize, ?_⟩
        rw [List.length_cons, show offset + (input.length + 1) =
          offset + 1 + input.length by omega, holds, List.append_assoc,
          List.singleton_append]

theorem yields_scanJson {received_json : Buffer Char} {text : List Char}
    (content : received_json.take text.length = text.map some) :
    Yields (scanJson received_json text.length) True
      (· = is_complete_json text) := by
  refine Yields.seq
    ((Yields.countLoop
      (fun i counts => counts = (text.take i).foldl countBrace (0, 0))
      (fun _ => True) rfl ?_).congr_valid (by simp)) ?_
  · rintro i below counts rfl
    have found : received_json[i]? = some (some text[i]) := by
      have here := congrArg (·[i]?) content
      simp only [List.getElem?_take_of_lt below, List.getElem?_map,
        List.getElem?_eq_getElem below] at here
      exact here
    refine (Buffer.yields_load_written _ _ found).seq_eq (Yields.pure ?_)
    rw [List.take_add_one, List.getElem?_eq_getElem below, List.foldl_append]
    rfl
  · rintro counts rfl
    rw [List.take_length]
    exact Yields.pure rfl

theorem takeWhile_append_of_neg {α : Type} {test : α → Bool} {front : List α}
    {stop : α} {back : List α} (stops : test stop = false) :
    (front ++ stop :: back).takeWhile test = front.takeWhile test := by
  rw [List.takeWhile_append]
  split
  next whole =>
    rw [List.takeWhile_cons, stops,
      (List.takeWhile_prefix test).eq_of_length whole]
    exact List.append_nil _
  next => rfl

/-- The copy of the terminated text is the text up to its first null. -/
theorem strdup_characters {received_json : Buffer Char} {text : List Char}
    (content :
      received_json.take (text.length + 1) = (text ++ [nul]).map some) :
    strdup (characters received_json) = strdup text := by
  have beginning :
      characters received_json =
        text ++ nul :: characters (received_json.drop (text.length + 1)) := by
    conv_lhs => rw [characters, ← List.take_append_drop (text.length + 1)
      received_json, List.map_append, content, List.map_map]
    simp [characters, Function.comp_def]
  rw [beginning]
  exact takeWhile_append_of_neg (by simp)

/-- The callback on the array is the callback on the received characters. -/
theorem yields_receiveFragment {full_ip client_ip input : List Char}
    {state : ReceiveBuffer} {reception : Reception}
    (represents : Represents state reception) :
    Yields (receiveFragment full_ip client_ip state input) True (fun result =>
      result.1 =
          (callback_echo full_ip .receive client_ip reception input).1 ∧
        Represents result.2.1
            (callback_echo full_ip .receive client_ip reception input).2.1 ∧
          result.2.2 =
            (callback_echo full_ip .receive client_ip reception input).2.2) := by
  rw [receiveFragment, callback_echo, represents.length]
  by_cases large :
      reception.received_json.length + input.length > MAX_JSON_SIZE
  · simp only [if_pos large]
    exact Yields.pure ⟨rfl, represents, rfl⟩
  · simp only [if_neg large]
    have fits :
        reception.received_json.length + input.length ≤
          state.received_json.length := by
      rw [represents.size]
      omega
    have content := represents.content
    rw [represents.length] at content
    refine (yields_memcpy fits content).seq ?_
    rintro received_json ⟨sameSize, holds⟩
    rw [← List.length_append] at holds ⊢
    refine (yields_scanJson holds).seq_eq ?_
    split
    next complete =>
      have inside :
          (reception.received_json ++ input).length < received_json.length := by
        rw [sameSize, represents.size, List.length_append]
        omega
      refine Yields.seq_eq
        ((Buffer.yields_store _ _ _ _).congr_valid (iff_true_intro inside)) ?_
      have terminated :
          (received_json.set (reception.received_json ++ input).length
              (some nul)).take ((reception.received_json ++ input).length + 1) =
            (reception.received_json ++ input ++ [nul]).map some := by
        rw [List.take_add_one, List.getElem?_set_self inside,
          List.take_set_of_le le_rfl, holds]
        simp
      refine Yields.pure ⟨rfl, ⟨?_, rfl, List.take_zero, ?_⟩, rfl⟩
      · rw [List.length_set]
        exact sameSize.trans represents.size
      · simp only [insert_buffer_client_message, represents.buffer,
          strdup_characters terminated]
    next =>
      refine Yields.pure ⟨rfl, ⟨?_, ?_, ?_, ?_⟩, rfl⟩
      · exact sameSize.trans represents.size
      · rfl
      · exact holds
      · exact represents.buffer

end FederatedEdge.Server
