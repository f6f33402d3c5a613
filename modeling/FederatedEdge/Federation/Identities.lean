import FederatedEdge.Federation.Registrations
import FederatedEdge.Library.CStrings
import FederatedEdge.Server.WebSocketServer

/-!
# The identity of a node on both transports

A registration copies the text of `inet_ntop` into `ClientNode.ip_id`.  A model
message gets its identity from the name of the peer: `get_client_ip` copies it
into the session and `insert_buffer_client_message` into the message.  The two
`ip_id` arrays are one character shorter than the arrays before them.
-/

namespace FederatedEdge.Federation

open FederatedEdge.Library
open FederatedEdge.Network
open FederatedEdge.Server
open FederatedEdge.Server.FederatedLearning

/-- `struct in_addr`, the bytes of an IPv4 address. -/
structure InAddr where
  a : UInt8
  b : UInt8
  c : UInt8
  d : UInt8
deriving DecidableEq, Repr

/-- A byte as `%u` prints it. -/
def decimal (byte : UInt8) : List Char :=
  Nat.toDigits 10 byte.toNat

/-- The text a.b.c.d. -/
def InAddr.text (sin_addr : InAddr) : List Char :=
  decimal sin_addr.a ++ '.' :: (decimal sin_addr.b ++ '.' ::
    (decimal sin_addr.c ++ '.' :: decimal sin_addr.d))

/-! ## The copies -/

/-- The arrays which hold an identity. -/
inductive Holder where
  | client_ip
  | node
  | session
  | message
deriving DecidableEq, Repr

def INET_ADDRSTRLEN : ℕ :=
  16

/-- The size of `ip_id`, in `ClientNode` and in `client_message`. -/
def ipIdSize : ℕ :=
  15

/-- `inet_ntop` writes nothing when the text with its null exceeds `size`. -/
def inet_ntop (sin_addr : InAddr) (client_ip : Buffer Char) (size : ℕ) :
    Traced Holder (Buffer Char) :=
  if sin_addr.text.length < size then
    client_ip.strcpy nul .client_ip sin_addr.text
  else pure client_ip

/-- From the accepted connection to the `ip_id` of a new `ClientNode`. -/
def storeRegistered (sin_addr : InAddr) : Traced Holder (Buffer Char) := do
  let client_ip ←
    inet_ntop sin_addr (Buffer.allocate INET_ADDRSTRLEN) INET_ADDRSTRLEN
  (Buffer.allocate ipIdSize).strcpy nul .node (client_ip.string nul)

/-- What the library calls an IPv4 peer. -/
inductive PeerForm where
  | plain
  | mapped
deriving DecidableEq, Repr

def lws_get_peer_simple (form : PeerForm) (sin_addr : InAddr) : List Char :=
  match form with
  | .plain => sin_addr.text
  | .mapped => "::ffff:".toList ++ sin_addr.text

/-- What `get_client_ip` copies of the name of the peer. -/
def ipv4Part (full_ip : List Char) (len : ℕ) : List Char :=
  match strrchr ':' full_ip with
  | some ipv4_part =>
      if ipv4_part.tail.length < len then ipv4_part.tail else full_ip
  | none => full_ip

/-- The writes of `get_client_ip`. -/
def storeClientIp (full_ip : List Char) (client_ip : Buffer Char) (len : ℕ) :
    Traced Holder (Buffer Char) := do
  let copied ←
    client_ip.strncpy nul .session (ipv4Part full_ip len) (len - 1)
  copied.store .session (len - 1) nul

/-- From a new session, which is all zero, to the `ip_id` of its message. -/
def storeReceived (form : PeerForm) (sin_addr : InAddr) :
    Traced Holder (Buffer Char) := do
  let client_ip ←
    storeClientIp (lws_get_peer_simple form sin_addr)
      (List.replicate IPV4_MAX_LEN (some nul)) IPV4_MAX_LEN
  (Buffer.allocate ipIdSize).strcpy nul .message (client_ip.string nul)

/-! ## The text of an address -/

theorem length_decimal_le (byte : UInt8) : (decimal byte).length ≤ 3 := by
  rw [decimal, Nat.length_toDigits_le_iff (by norm_num) (by norm_num)]
  have below := byte.toNat_lt
  omega

theorem length_decimal_eq_three_iff (byte : UInt8) :
    (decimal byte).length = 3 ↔ 100 ≤ byte.toNat := by
  have short : (decimal byte).length ≤ 2 ↔ byte.toNat < 10 ^ 2 := by
    rw [decimal, Nat.length_toDigits_le_iff (by norm_num) (by norm_num)]
  have atMost := length_decimal_le byte
  omega

/-- All bytes need three digits. -/
def InAddr.ThreeDigits (sin_addr : InAddr) : Prop :=
  100 ≤ sin_addr.a.toNat ∧ 100 ≤ sin_addr.b.toNat ∧
    100 ≤ sin_addr.c.toNat ∧ 100 ≤ sin_addr.d.toNat

theorem InAddr.length_text (sin_addr : InAddr) :
    sin_addr.text.length =
      (decimal sin_addr.a).length + (decimal sin_addr.b).length +
        (decimal sin_addr.c).length + (decimal sin_addr.d).length + 3 := by
  simp only [InAddr.text, List.length_append, List.length_cons]
  omega

theorem InAddr.length_text_le (sin_addr : InAddr) :
    sin_addr.text.length ≤ 15 := by
  have a := length_decimal_le sin_addr.a
  have b := length_decimal_le sin_addr.b
  have c := length_decimal_le sin_addr.c
  have d := length_decimal_le sin_addr.d
  rw [sin_addr.length_text]
  omega

theorem InAddr.length_text_lt_iff (sin_addr : InAddr) :
    sin_addr.text.length < 15 ↔ ¬ sin_addr.ThreeDigits := by
  have a := length_decimal_le sin_addr.a
  have b := length_decimal_le sin_addr.b
  have c := length_decimal_le sin_addr.c
  have d := length_decimal_le sin_addr.d
  rw [sin_addr.length_text, InAddr.ThreeDigits,
    ← length_decimal_eq_three_iff, ← length_decimal_eq_three_iff,
    ← length_decimal_eq_three_iff, ← length_decimal_eq_three_iff]
  omega

theorem isDigit_of_mem_decimal {byte : UInt8} {symbol : Char}
    (member : symbol ∈ decimal byte) : symbol.isDigit = true :=
  Nat.isDigit_of_mem_toDigits (by norm_num) (by norm_num) member

/-- Neither a digit nor a dot does not occur. -/
theorem InAddr.notMem_text {symbol : Char} (noDigit : symbol.isDigit = false)
    (noDot : symbol ≠ '.') (sin_addr : InAddr) : symbol ∉ sin_addr.text := by
  have absent (byte : UInt8) : symbol ∉ decimal byte := by
    intro member
    rw [isDigit_of_mem_decimal member] at noDigit
    exact absurd noDigit (by decide)
  simp [InAddr.text, absent, noDot]

/-- A decimal number up to the next dot is read back. -/
theorem decimal_append_inj {left right : UInt8} {leftRest rightRest : List Char}
    (same :
      decimal left ++ '.' :: leftRest = decimal right ++ '.' :: rightRest) :
    left = right ∧ leftRest = rightRest := by
  have noDot (byte : UInt8) : '.' ∉ decimal byte :=
    fun member => absurd (isDigit_of_mem_decimal member) (by decide)
  have digits : decimal left = decimal right := by
    have front := congrArg (List.takeWhile (· ≠ '.')) same
    rw [Buffer.takeWhile_terminated (noDot left),
      Buffer.takeWhile_terminated (noDot right)] at front
    exact front
  constructor
  · have numbers := congrArg (fun text => Nat.ofDigitChars 10 text 0) digits
    simp only [decimal, Nat.ofDigitChars_ten_toDigits] at numbers
    exact UInt8.toNat_inj.mp numbers
  · rw [digits] at same
    exact List.cons_injective (List.append_cancel_left same)

/-- Different addresses have different texts. -/
theorem InAddr.text_injective : Function.Injective InAddr.text := by
  rintro ⟨a, b, c, d⟩ ⟨a', b', c', d'⟩ same
  rcases decimal_append_inj same with ⟨rfl, same⟩
  rcases decimal_append_inj same with ⟨rfl, same⟩
  rcases decimal_append_inj same with ⟨rfl, same⟩
  have last : decimal d ++ '.' :: [] = decimal d' ++ '.' :: [] := by
    rw [same]
  rcases decimal_append_inj last with ⟨rfl, -⟩
  rfl

theorem InAddr.nul_notMem (sin_addr : InAddr) : nul ∉ sin_addr.text :=
  InAddr.notMem_text (by decide) (by decide) sin_addr

/-- An address under either name is a peer of the WebSocket server. -/
def InAddr.peer (sin_addr : InAddr) (form : PeerForm) : Peer where
  full_ip := lws_get_peer_simple form sin_addr
  address := sin_addr.text
  short := Nat.lt_succ_of_le sin_addr.length_text_le
  plain := InAddr.notMem_text (by decide) (by decide) sin_addr
  assigned := by
    rw [← List.length_pos_iff, sin_addr.length_text]
    exact Nat.succ_pos _
  named := by
    cases form with
    | plain => exact Or.inl rfl
    | mapped => exact Or.inr ⟨"::ffff".toList, rfl⟩

/-! ## What the copies hold -/

/-- The text in `ip_id`, which has room for it and perhaps for its null. -/
theorem yields_ip_id (holder : Holder) (sin_addr : InAddr) :
    Yields
      ((Buffer.allocate ipIdSize).strcpy nul holder sin_addr.text)
      (¬ sin_addr.ThreeDigits)
      (fun ip_id => ip_id.string nul = sin_addr.text) := by
  have size : (Buffer.allocate ipIdSize : Buffer Char).length = 15 := by
    rw [Buffer.allocate, List.length_replicate]
    rfl
  refine (Buffer.yields_strcpy holder _ sin_addr.nul_notMem ?_).mono ?_ ?_
  · rw [size]
    exact sin_addr.length_text_le
  · rw [size]
    exact sin_addr.length_text_lt_iff
  · intro ip_id copied
    exact copied.2

/-- The array of `handle_request` has room for every address. -/
theorem yields_inet_ntop (sin_addr : InAddr) :
    Yields
      (inet_ntop sin_addr (Buffer.allocate INET_ADDRSTRLEN) INET_ADDRSTRLEN)
      True (fun client_ip => client_ip.string nul = sin_addr.text) := by
  have size :
      (Buffer.allocate INET_ADDRSTRLEN : Buffer Char).length = 16 := by
    rw [Buffer.allocate, List.length_replicate]
    rfl
  have fits : sin_addr.text.length < INET_ADDRSTRLEN :=
    Nat.lt_succ_of_le sin_addr.length_text_le
  rw [inet_ntop, if_pos fits]
  refine (Buffer.yields_strcpy _ _ sin_addr.nul_notMem ?_).mono ?_ ?_
  · rw [size]
    exact fits.le
  · rw [size, iff_true]
    exact fits
  · intro client_ip copied
    exact copied.2

theorem yields_storeRegistered (sin_addr : InAddr) :
    Yields (storeRegistered sin_addr) (¬ sin_addr.ThreeDigits)
      (fun ip_id => ip_id.string nul = sin_addr.text) := by
  refine (yields_inet_ntop sin_addr).seq fun client_ip same => ?_
  rw [same]
  exact yields_ip_id .node sin_addr

theorem get_client_ip_eq_take (full_ip : List Char) (len : ℕ) :
    get_client_ip full_ip len = (ipv4Part full_ip len).take (len - 1) := by
  rw [get_client_ip, ipv4Part]
  cases strrchr ':' full_ip with
  | none => rfl
  | some ipv4_part =>
      show (if _ then _ else _) = List.take (len - 1) (if _ then _ else _)
      split <;> rfl

theorem strrchr_suffix {symbol : Char} {text part : List Char}
    (found : strrchr symbol text = some part) : part <:+ text := by
  induction text with
  | nil => cases found
  | cons head rest inductionHypothesis =>
      rw [strrchr] at found
      cases later : strrchr symbol rest with
      | some _ =>
          rw [later] at found
          exact (inductionHypothesis (later.trans found)).trans
            (List.suffix_cons head rest)
      | none =>
          rw [later] at found
          by_cases here : head = symbol
          · rw [if_pos here] at found
            exact Option.some.inj found ▸ List.suffix_rfl
          · rw [if_neg here] at found
            cases found

theorem ipv4Part_suffix (full_ip : List Char) (len : ℕ) :
    ipv4Part full_ip len <:+ full_ip := by
  rw [ipv4Part]
  cases found : strrchr ':' full_ip with
  | none => exact List.suffix_rfl
  | some ipv4_part =>
      show (if _ then _ else _) <:+ full_ip
      split
      · exact (List.tail_suffix ipv4_part).trans (strrchr_suffix found)
      · exact List.suffix_rfl

/-- Copying into the session stays inside and stores what was computed. -/
theorem yields_storeClientIp {full_ip : List Char} {client_ip : Buffer Char}
    (clean : nul ∉ full_ip) (size : client_ip.length = IPV4_MAX_LEN) :
    Yields (storeClientIp full_ip client_ip IPV4_MAX_LEN) True
      (fun client_ip =>
        client_ip.string nul = get_client_ip full_ip IPV4_MAX_LEN) := by
  have count : client_ip.length = IPV4_MAX_LEN - 1 + 1 := size
  have part : nul ∉ ipv4Part full_ip IPV4_MAX_LEN :=
    fun member => clean ((ipv4Part_suffix full_ip IPV4_MAX_LEN).mem member)
  have copy :=
    Buffer.yields_write Holder.session (Nat.zero_le client_ip.length)
      ((ipv4Part full_ip IPV4_MAX_LEN ++
        List.replicate (IPV4_MAX_LEN - 1) nul).take (IPV4_MAX_LEN - 1))
  refine (copy.congr_valid ?_).seq_eq ?_
  · rw [iff_true, List.length_take, List.length_append,
      List.length_replicate]
    omega
  · refine (Buffer.yields_store Holder.session _ _ nul).mono ?_ ?_
    · rw [iff_true, Buffer.length_overwrite (Nat.zero_le _)]
      omega
    · rintro _ rfl
      rw [get_client_ip_eq_take]
      exact Buffer.string_strncpy part count

theorem yields_storeReceived (form : PeerForm) (sin_addr : InAddr) :
    Yields (storeReceived form sin_addr) (¬ sin_addr.ThreeDigits)
      (fun ip_id => ip_id.string nul = sin_addr.text) := by
  have clean : nul ∉ lws_get_peer_simple form sin_addr := by
    cases form with
    | plain => exact sin_addr.nul_notMem
    | mapped =>
        intro member
        rcases List.mem_append.mp member with atFront | later
        · exact absurd atFront (by decide)
        · exact sin_addr.nul_notMem later
  refine (yields_storeClientIp clean List.length_replicate).seq
    fun client_ip stored => ?_
  have derived := (sin_addr.peer form).get_client_ip_eq
  rw [stored, show get_client_ip (lws_get_peer_simple form sin_addr)
    IPV4_MAX_LEN = sin_addr.text from derived]
  exact yields_ip_id .message sin_addr

/-! ## One identity -/

/-- The search for an identity in the registry finds the node with this one. -/
theorem find_registered {server : FederatedLearning}
    (registry : server.Registry) {ip_addr : String}
    (registered : ip_addr ∈ server.nodes.map ClientNode.ip_id) :
    ∃ address node,
      server.nodecontrol.nodelist.find (fun node => node.ip_id = ip_addr) =
          .ok (some address) ∧
        server.nodes[address]? = some node ∧ node.ip_id = ip_addr := by
  rw [← names_control, ← findIdx?_isSome_iff] at registered
  rcases Option.isSome_iff_exists.mp registered with ⟨address, found⟩
  rcases List.findIdx?_eq_some_iff_getElem.mp found with ⟨inside, same, -⟩
  exact ⟨address, server.nodes[address],
    (registry.find_node ip_addr).trans (congrArg Except.ok found),
    List.getElem?_eq_getElem inside, of_decide_eq_true same⟩

/--
For every address and both names of its peer the identities on the two
transports are the text of the address, which no other address has and by which
the registered node is found; all copies stay inside their arrays exactly when
some byte of the address is below 100.
-/
theorem identities_fit_iff (sin_addr : InAddr) (form : PeerForm) :
    ∃ registered registering received receiving,
      storeRegistered sin_addr [] = .ok (registered, registering) ∧
        storeReceived form sin_addr [] = .ok (received, receiving) ∧
        registered.string nul = sin_addr.text ∧
        received.string nul = registered.string nul ∧
        (∀ other : InAddr, other.text = sin_addr.text → other = sin_addr) ∧
        (∀ server : FederatedLearning, server.Registry →
          String.ofList (registered.string nul) ∈
              server.nodes.map ClientNode.ip_id →
            ∃ address node,
              server.nodecontrol.nodelist.find
                  (fun node =>
                    node.ip_id = String.ofList (received.string nul)) =
                  .ok (some address) ∧
                server.nodes[address]? = some node ∧
                node.ip_id = String.ofList (registered.string nul)) ∧
        ((∀ access ∈ registering ++ receiving, access.Valid) ↔
          sin_addr.a < 100 ∨ sin_addr.b < 100 ∨ sin_addr.c < 100 ∨
            sin_addr.d < 100) := by
  rcases yields_storeRegistered sin_addr []
    with ⟨registered, registering, registers, fits, registeredText⟩
  rcases yields_storeReceived form sin_addr []
    with ⟨received, receiving, receives, receivedFits, receivedText⟩
  refine ⟨registered, registering, received, receiving, registers, receives,
    registeredText, receivedText.trans registeredText.symm,
    fun other same => InAddr.text_injective same, ?_, ?_⟩
  · intro server registry isRegistered
    rw [registeredText] at isRegistered ⊢
    rw [receivedText]
    exact find_registered registry isRegistered
  · rw [List.forall_mem_append, fits, receivedFits, and_self,
      InAddr.ThreeDigits]
    simp only [UInt8.lt_iff_toNat_lt]
    have hundred : (100 : UInt8).toNat = 100 := rfl
    rw [hundred]
    omega

/-- The null of 192.168.100.100 is written behind both `ip_id` arrays. -/
theorem null_behind_ip_id :
    ∃ (registered received : Buffer Char)
      (registering receiving : List (Access Holder)),
      storeRegistered ⟨192, 168, 100, 100⟩ [] =
          .ok (registered, registering) ∧
        storeReceived .plain ⟨192, 168, 100, 100⟩ [] =
          .ok (received, receiving) ∧
        (∃ access ∈ registering, access.array = .node ∧ ¬ access.Valid) ∧
        ∃ access ∈ receiving, access.array = .message ∧ ¬ access.Valid :=
  ⟨_, _, _, _, rfl, rfl, by decide, by decide⟩

end FederatedEdge.Federation
