import FederatedEdge.Library.Nesting
import FederatedEdge.Server.Handlers
import Mathlib.Data.List.TakeWhile

/-!
# The WebSocket server

Fragments of messages arrive in `callback_echo`, for all sessions in the same
static buffer.  When the braces in it balance, its content goes into the list
of client messages, under the address of the session whose fragment completed
it.  After each service of the library the list is emptied into the handler.

A character stands for a byte, and `received_json` for the bytes up to
`received_json_len`.  Allocation does not fail.
-/

namespace FederatedEdge.Server

open FederatedEdge.Library

/-- `ip_id` has room for any IPv4 address; its null falls into the padding. -/
structure ClientMessage where
  message : List Char
  length : ℕ
  ip_id : List Char
deriving DecidableEq, Repr

/-- The characters up to the terminating null. -/
def strdup (message : List Char) : List Char :=
  message.takeWhile (· ≠ nul)

def insert_buffer_client_message (buffer : List ClientMessage)
    (message : List Char) (length : ℕ) (ip_addr : List Char) :
    List ClientMessage :=
  buffer ++ [{ message := strdup message, length := length, ip_id := ip_addr }]

/-- `remove_buffer_client_message` while there are messages. -/
def handle_message (platform : Platform) (server : FederatedLearning) :
    List ClientMessage → Exec FederatedLearning
  | [] => .ok server
  | removed_message :: rest => do
      let after ←
        handle_clint_model_message platform server removed_message.message
          removed_message.length (String.ofList removed_message.ip_id)
      handle_message platform after rest

/-! ## Receiving fragments -/

def openBrace : Char :=
  '\x7b'

def closeBrace : Char :=
  '\x7d'

/-- The numbers of opening and closing braces after another character. -/
def countBrace (counts : ℕ × ℕ) (character : Char) : ℕ × ℕ :=
  if character = openBrace then (counts.1 + 1, counts.2)
  else if character = closeBrace then (counts.1, counts.2 + 1)
  else counts

def is_complete_json (json : List Char) : Bool :=
  let counts := json.foldl countBrace (0, 0)
  counts.1 = counts.2 && 0 < counts.1

def MAX_JSON_SIZE : ℕ :=
  16384

def IPV4_MAX_LEN : ℕ :=
  16

/-- The text from the last occurrence of a character on. -/
def strrchr (character : Char) : List Char → Option (List Char)
  | [] => none
  | head :: rest =>
      match strrchr character rest with
      | some part => some part
      | none => if head = character then some (head :: rest) else none

/-- The address behind the last colon of the peer's name. -/
def get_client_ip (full_ip : List Char) (len : ℕ) : List Char :=
  match strrchr ':' full_ip with
  | some ipv4_part =>
      if ipv4_part.tail.length < len then ipv4_part.tail.take (len - 1)
      else full_ip.take (len - 1)
  | none => full_ip.take (len - 1)

/-- The static buffer and the list of client messages. -/
structure Reception where
  received_json : List Char
  buffer : List ClientMessage
deriving DecidableEq, Repr

inductive CallbackReason where
  | established
  | receive
  | serverWriteable
  | other
deriving DecidableEq, Repr

/--
The callback returns its code, the buffers, and the address stored in the
session; an address which is not stored yet is empty.
-/
def callback_echo (full_ip : List Char) (reason : CallbackReason)
    (client_ip : List Char) (reception : Reception) (input : List Char) :
    ℤ × Reception × List Char :=
  match reason with
  | .receive =>
      if reception.received_json.length + input.length > MAX_JSON_SIZE then
        -- received message too big: the library closes the session
        (-1, reception, client_ip)
      else
        let received_json := reception.received_json ++ input
        if is_complete_json received_json then
          let client_ip :=
            if client_ip = [] then get_client_ip full_ip IPV4_MAX_LEN
            else client_ip
          let buffer :=
            insert_buffer_client_message reception.buffer received_json
              received_json.length client_ip
          (0, { received_json := [], buffer := buffer }, client_ip)
        else (0, { reception with received_json := received_json }, client_ip)
  | .established => (0, reception, client_ip)
  | .serverWriteable => (0, reception, client_ip)
  | .other => (0, reception, client_ip)

/-! ## What the functions compute -/

theorem strdup_of_notMem {message : List Char} (terminated : nul ∉ message) :
    strdup message = message := by
  rw [strdup, List.takeWhile_eq_self_iff]
  intro character member
  rw [decide_eq_true_iff]
  rintro rfl
  exact terminated member

theorem foldl_countBrace (json : List Char) (counts : ℕ × ℕ) :
    json.foldl countBrace counts =
      (counts.1 + json.count openBrace, counts.2 + json.count closeBrace) := by
  induction json generalizing counts with
  | nil => simp
  | cons head rest inductionHypothesis =>
      rw [List.foldl_cons, inductionHypothesis, countBrace]
      by_cases opens : head = openBrace
      · subst opens
        have notClosing : openBrace ≠ closeBrace := by decide
        simp only [if_true, List.count_cons_self,
          List.count_cons_of_ne notClosing, Prod.mk.injEq, and_true]
        ring
      · by_cases closes : head = closeBrace
        · subst closes
          simp only [opens, if_false, if_true, List.count_cons_self,
            List.count_cons_of_ne opens, Prod.mk.injEq, true_and]
          ring
        · simp [opens, closes]

/-- A text is complete when braces were opened and all of them are closed. -/
theorem is_complete_json_iff (json : List Char) :
    is_complete_json json ↔
      depth openBrace closeBrace json = 0 ∧ 0 < json.count openBrace := by
  rw [is_complete_json, foldl_countBrace, depth]
  simp only [zero_add, Bool.and_eq_true, decide_eq_true_iff, sub_eq_zero,
    Nat.cast_inj]

theorem strrchr_append {character : Char} {front back : List Char}
    (absent : character ∉ back) :
    strrchr character (front ++ character :: back) =
      some (character :: back) := by
  have nothing : strrchr character back = none := by
    induction back with
    | nil => rfl
    | cons head rest inductionHypothesis =>
        rw [List.mem_cons, not_or] at absent
        rw [strrchr, inductionHypothesis absent.2]
        exact if_neg (Ne.symm absent.1)
  induction front with
  | nil =>
      show strrchr character (character :: back) = _
      rw [strrchr, nothing]
      exact if_pos rfl
  | cons head rest inductionHypothesis =>
      rw [List.cons_append, strrchr, inductionHypothesis]

theorem strrchr_of_notMem {character : Char} {text : List Char}
    (absent : character ∉ text) :
    strrchr character text = none := by
  induction text with
  | nil => rfl
  | cons head rest inductionHypothesis =>
      rw [List.mem_cons, not_or] at absent
      rw [strrchr, inductionHypothesis absent.2]
      exact if_neg (Ne.symm absent.1)

/-! ## The peers -/

/--
The name of an IPv4 peer: its address, possibly behind the prefix of a mapped
address.
-/
structure Peer where
  full_ip : List Char
  address : List Char
  short : address.length < IPV4_MAX_LEN
  plain : ':' ∉ address
  assigned : address ≠ []
  named : full_ip = address ∨ ∃ front, full_ip = front ++ ':' :: address

theorem Peer.get_client_ip_eq (peer : Peer) :
    get_client_ip peer.full_ip IPV4_MAX_LEN = peer.address := by
  have whole : peer.address.take (IPV4_MAX_LEN - 1) = peer.address :=
    List.take_of_length_le (Nat.le_sub_one_of_lt peer.short)
  rcases peer.named with direct | ⟨front, mapped⟩
  · rw [get_client_ip, direct, strrchr_of_notMem peer.plain]
    exact whole
  · rw [get_client_ip, mapped, strrchr_append peer.plain]
    show (if peer.address.length < IPV4_MAX_LEN then _ else _) = _
    rw [if_pos peer.short]
    exact whole

end FederatedEdge.Server
