import FederatedEdge.Server.Handlers
import Mathlib.Data.List.Infix
import Mathlib.Data.List.TakeWhile

/-!
# Routing of HTTP requests

`handle_request` reads what has arrived into a buffer of zeros and looks for the
request lines of the endpoints, one after the other, anywhere in it.  The first
one which occurs decides about the handler.  So the headers and the body decide
as well, if they contain the request line of an endpoint which is asked for
earlier.
-/

namespace FederatedEdge.Server

def BUFFER_SIZE : ℕ :=
  4096

/-- The text from the first occurrence of a pattern on. -/
def strstr : List Char → List Char → Option (List Char)
  | [], pattern => if pattern = [] then some [] else none
  | head :: rest, pattern =>
      if pattern.isPrefixOf (head :: rest) then some (head :: rest)
      else strstr rest pattern

/-- The call with which a request ends. -/
inductive HandlerCall where
  | handle_get_checkmodelstatus (client_ip : List Char)
  | handle_get_noderegister (client_ip : List Char)
  | handle_get_globalmodel
  | handle_post_globalmodel (request_body : List Char)
  | handle_testpost_request (request_body : List Char)
  | handle_testget_request
  | handle_root_request
  | handle_not_found_request
deriving DecidableEq, Repr

/-- What the string functions see of the bytes which `read` delivers. -/
def seen (received : List Char) : List Char :=
  (received.take (BUFFER_SIZE - 1)).takeWhile (· ≠ nul)

def checkglobalmodel : List Char :=
  "GET /api/checkglobalmodel HTTP/1.1".toList

def noderegister : List Char :=
  "GET /api/noderegister HTTP/1.1".toList

def getglobalmodel : List Char :=
  "GET /api/getglobalmodel HTTP/1.1".toList

def postglobalmodel : List Char :=
  "POST /api/postglobalmodel HTTP/1.1".toList

def testpost : List Char :=
  "POST /api/testpost".toList

def testget : List Char :=
  "GET /api/testget HTTP/1.1".toList

def root : List Char :=
  "GET / HTTP/1.1".toList

def handle_request (received client_ip : List Char) : HandlerCall :=
  let buffer := seen received
  let request_body :=
    match strstr buffer "\r\n\r\n".toList with
    | some body_start => body_start.drop 4
    | none => []
  if (strstr buffer checkglobalmodel).isSome then
    .handle_get_checkmodelstatus client_ip
  else if (strstr buffer noderegister).isSome then
    .handle_get_noderegister client_ip
  else if (strstr buffer getglobalmodel).isSome then .handle_get_globalmodel
  else if (strstr buffer postglobalmodel).isSome then
    .handle_post_globalmodel request_body
  else if (strstr buffer testpost).isSome then
    .handle_testpost_request request_body
  else if (strstr buffer testget).isSome then .handle_testget_request
  else if (strstr buffer root).isSome then .handle_root_request
  else .handle_not_found_request

/-! ## The first pattern which occurs -/

inductive Handler where
  | checkmodelstatus
  | noderegister
  | getglobalmodel
  | postglobalmodel
  | testpost
  | testget
  | root
  | notFound
deriving DecidableEq, Repr

def HandlerCall.handler : HandlerCall → Handler
  | .handle_get_checkmodelstatus _ => .checkmodelstatus
  | .handle_get_noderegister _ => .noderegister
  | .handle_get_globalmodel => .getglobalmodel
  | .handle_post_globalmodel _ => .postglobalmodel
  | .handle_testpost_request _ => .testpost
  | .handle_testget_request => .testget
  | .handle_root_request => .root
  | .handle_not_found_request => .notFound

/-- The patterns in the order of the chain, with their handlers. -/
def routes : List (List Char × Handler) :=
  [(checkglobalmodel, .checkmodelstatus), (noderegister, .noderegister),
    (getglobalmodel, .getglobalmodel), (postglobalmodel, .postglobalmodel),
    (testpost, .testpost), (testget, .testget), (root, .root)]

theorem strstr_isSome_iff (text pattern : List Char) :
    (strstr text pattern).isSome ↔ pattern <:+: text := by
  induction text with
  | nil =>
      rw [strstr, List.infix_nil]
      split <;> simp_all
  | cons head rest inductionHypothesis =>
      rw [strstr, List.infix_cons_iff, ← inductionHypothesis]
      by_cases here : pattern.isPrefixOf (head :: rest)
      · rw [if_pos here]
        simp [List.isPrefixOf_iff_prefix.mp here]
      · rw [if_neg here]
        rw [List.isPrefixOf_iff_prefix] at here
        simp [here]

/-- The handler of the first route which meets a condition. -/
def routed (meets : List Char → Prop) [DecidablePred meets] :
    List (List Char × Handler) → Handler
  | [] => .notFound
  | (pattern, handler) :: rest =>
      if meets pattern then handler else routed meets rest

theorem handler_handle_request (received client_ip : List Char) :
    (handle_request received client_ip).handler =
      routed (· <:+: seen received) routes := by
  simp only [handle_request, strstr_isSome_iff,
    apply_ite HandlerCall.handler]
  rfl

section Routes

variable {meets weaker : List Char → Prop} [DecidablePred meets]
  [DecidablePred weaker]

/-- The answer is the handler of some route, or none was found. -/
theorem routed_mem (table : List (List Char × Handler)) :
    routed meets table ∈ table.map Prod.snd ++ [Handler.notFound] := by
  induction table with
  | nil => exact List.mem_singleton_self _
  | cons route rest inductionHypothesis =>
      rw [routed]
      split
      · exact List.mem_cons_self
      · exact List.mem_cons_of_mem _ inductionHypothesis

/--
A weaker condition leads to the same handler exactly when every route which
meets it comes with or after one which meets the other.
-/
theorem routed_eq_iff (implies : ∀ pattern, meets pattern → weaker pattern)
    {table : List (List Char × Handler)}
    (distinct : (table.map Prod.snd ++ [Handler.notFound]).Nodup) :
    routed weaker table = routed meets table ↔
      ∀ early route late, table = early ++ route :: late → weaker route.1 →
        ∃ earlier ∈ early ++ [route], meets earlier.1 := by
  induction table with
  | nil =>
      refine iff_of_true rfl ?_
      intro early route late split
      exact absurd split (by simp)
  | cons head rest inductionHypothesis =>
      rw [List.map_cons, List.cons_append, List.nodup_cons] at distinct
      rw [routed, routed]
      by_cases met : meets head.1
      · rw [if_pos met, if_pos (implies _ met)]
        refine iff_of_true rfl ?_
        rintro (_ | ⟨first, early⟩) route late split weakly
        · rw [List.nil_append, List.cons.injEq] at split
          exact ⟨route, List.mem_singleton_self _, split.1 ▸ met⟩
        · rw [List.cons_append, List.cons.injEq] at split
          exact ⟨first, List.mem_cons_self, split.1 ▸ met⟩
      · rw [if_neg met]
        by_cases weakly : weaker head.1
        · rw [if_pos weakly]
          refine iff_of_false ?_ ?_
          · intro same
            exact distinct.1 (same ▸ routed_mem rest)
          · intro preceded
            rcases preceded [] head rest rfl weakly with ⟨earlier, member, meet⟩
            rw [List.nil_append, List.mem_singleton] at member
            exact met (member ▸ meet)
        · rw [if_neg weakly, inductionHypothesis distinct.2]
          constructor
          · rintro preceded (_ | ⟨first, early⟩) route late split later
            · rw [List.nil_append, List.cons.injEq] at split
              exact absurd (split.1 ▸ later) weakly
            · rw [List.cons_append, List.cons.injEq] at split
              rcases preceded early route late split.2 later
                with ⟨earlier, member, meet⟩
              exact ⟨earlier, List.mem_cons_of_mem _ member, meet⟩
          · intro preceded early route late split later
            rcases preceded (head :: early) route late
                (congrArg (head :: ·) split) later
              with ⟨earlier, member, meet⟩
            rcases List.mem_cons.mp member with rfl | member
            · exact absurd meet met
            · exact ⟨earlier, member, meet⟩

end Routes

/-! ## The request line and what follows it -/

/-- A request by its first line and what comes after the line end. -/
def request (line rest : List Char) : List Char :=
  line ++ '\r' :: '\n' :: rest

/-- What is seen of a request behind its first line. -/
def seenBehind (line rest : List Char) : List Char :=
  (seen (request line rest)).drop (line.length + 2)

theorem take_takeWhile (test : Char → Bool) (count : ℕ) (text : List Char) :
    (text.takeWhile test).take count = (text.take count).takeWhile test := by
  induction text generalizing count with
  | nil => simp
  | cons head rest inductionHypothesis =>
      cases count with
      | zero => simp
      | succ count =>
          rw [List.take_succ_cons, List.takeWhile_cons, List.takeWhile_cons]
          by_cases kept : test head
          · rw [if_pos kept, if_pos kept, List.take_succ_cons,
              inductionHypothesis]
          · rw [if_neg kept, if_neg kept, List.take_nil]

/-- What is seen of the first line does not depend on the rest. -/
theorem take_seen (line rest : List Char) :
    (seen (line ++ rest)).take line.length = seen line := by
  rw [seen, take_takeWhile, List.take_take, min_comm, ← List.take_take,
    List.take_left, seen]

/-- A separator which does not occur in the pattern separates occurrences. -/
theorem infix_append_cons_iff {pattern : List Char} {separator : Char}
    (absent : separator ∉ pattern) (nonempty : pattern ≠ [])
    (front back : List Char) :
    pattern <:+: front ++ separator :: back ↔
      pattern <:+: front ∨ pattern <:+: back := by
  induction front with
  | nil =>
      rw [List.nil_append, List.infix_cons_iff, List.infix_nil,
        or_congr_left]
      refine iff_of_false ?_ nonempty
      rintro ⟨later, whole⟩
      rcases List.exists_cons_of_ne_nil nonempty with ⟨first, others, rfl⟩
      rw [List.cons_append, List.cons.injEq] at whole
      exact absent (whole.1 ▸ List.mem_cons_self)
  | cons head front inductionHypothesis =>
      have early :
          pattern <+: head :: front ++ separator :: back ↔
            pattern <+: head :: front := by
        refine ⟨fun isPrefix => ?_, fun isPrefix =>
          isPrefix.trans (List.prefix_append _ _)⟩
        rcases Nat.lt_or_ge (head :: front).length pattern.length
          with longer | shorter
        · have ends : head :: front ++ [separator] <+: pattern := by
            refine List.prefix_of_prefix_length_le ?_ isPrefix ?_
            · exact ⟨back, by simp⟩
            · rw [List.length_append]
              exact longer
          exact absurd (ends.mem (by simp)) absent
        · exact List.prefix_of_prefix_length_le isPrefix
            (List.prefix_append _ _) shorter
      rw [List.cons_append, List.infix_cons_iff, List.infix_cons_iff,
        inductionHypothesis, ← List.cons_append, early, or_assoc]

/-- A pattern without line ends is seen in the first line or behind it. -/
theorem infix_seen_request_iff {pattern : List Char}
    (noReturn : '\r' ∉ pattern) (noNewline : '\n' ∉ pattern)
    (nonempty : pattern ≠ []) (line rest : List Char) :
    pattern <:+: seen (request line rest) ↔
      pattern <:+: seen line ∨ pattern <:+: seenBehind line rest := by
  have whole : seen (request line rest) <+: request line rest :=
    (List.takeWhile_prefix _).trans (List.take_prefix _ _)
  have front : (seen (request line rest)).take line.length = seen line :=
    take_seen line _
  rw [seenBehind]
  generalize seen (request line rest) = text at whole front
  rw [← front]
  rcases Nat.le_total text.length line.length with short | long
  · rw [List.take_of_length_le short, List.drop_of_length_le (by omega),
      List.infix_nil, or_iff_left nonempty]
  · have isLine : line <+: text :=
      List.prefix_of_prefix_length_le (List.prefix_append _ _) whole long
    rcases isLine with ⟨behind, rfl⟩
    rw [request, List.prefix_append_right_inj] at whole
    rw [List.take_left, ← List.drop_drop, List.drop_left]
    match behind, whole with
    | [], _ => simp [nonempty]
    | [first], whole =>
        rw [List.cons_prefix_cons] at whole
        rcases whole with ⟨rfl, -⟩
        rw [infix_append_cons_iff noReturn nonempty]
        rfl
    | first :: second :: behind, whole =>
        simp only [List.cons_prefix_cons] at whole
        rcases whole with ⟨rfl, rfl, -⟩
        have separated :=
          infix_append_cons_iff noNewline nonempty [] behind
        rw [List.nil_append, List.infix_nil, or_iff_right nonempty]
          at separated
        rw [infix_append_cons_iff noReturn nonempty, separated]
        rfl

theorem pattern_of_mem_routes {route : List Char × Handler}
    (member : route ∈ routes) :
    '\r' ∉ route.1 ∧ '\n' ∉ route.1 ∧ route.1 ≠ [] := by
  revert route
  decide

/--
A request line of an endpoint which is seen behind the first line comes, in the
order of the chain, with or after one which is seen in the first line.
-/
def Undisturbed (line rest : List Char) : Prop :=
  ∀ early route late, routes = early ++ route :: late →
    route.1 <:+: seenBehind line rest →
      ∃ earlier ∈ early ++ [route], earlier.1 <:+: seen line

theorem routed_congr {meets same : List Char → Prop} [DecidablePred meets]
    [DecidablePred same] {table : List (List Char × Handler)}
    (agree : ∀ route ∈ table, meets route.1 ↔ same route.1) :
    routed meets table = routed same table := by
  induction table with
  | nil => rfl
  | cons head rest inductionHypothesis =>
      rw [List.forall_mem_cons] at agree
      rw [routed, routed, inductionHypothesis agree.2]
      exact if_congr agree.1 rfl rfl

/-- The headers and the body leave the routing by the first line alone. -/
theorem handler_request_eq_iff (line rest client_ip : List Char) :
    (handle_request (request line rest) client_ip).handler =
        routed (· <:+: seen line) routes ↔
      Undisturbed line rest := by
  have either :
      (handle_request (request line rest) client_ip).handler =
        routed (fun pattern =>
          pattern <:+: seen line ∨ pattern <:+: seenBehind line rest)
          routes := by
    rw [handler_handle_request]
    refine routed_congr fun route member => ?_
    rcases pattern_of_mem_routes member with ⟨noReturn, noNewline, nonempty⟩
    exact infix_seen_request_iff noReturn noNewline nonempty line rest
  rw [either, routed_eq_iff (fun _ => Or.inl) (by decide), Undisturbed]
  constructor
  · intro preceded early route late split behind
    exact preceded early route late split (Or.inr behind)
  · rintro undisturbed early route late split (inLine | behind)
    · exact ⟨route, List.mem_append_right _ (List.mem_singleton_self _), inLine⟩
    · exact undisturbed early route late split behind

/-- Without headers and body there is nothing to disturb the routing. -/
theorem undisturbed_nil (line : List Char) : Undisturbed line [] := by
  intro early route late split behind
  have nothing : seenBehind line [] = [] := by
    apply List.drop_of_length_le
    refine ((List.takeWhile_prefix _).trans
      (List.take_prefix _ _)).length_le.trans ?_
    simp [request]
  rw [nothing, List.infix_nil] at behind
  have member : route ∈ routes := by
    rw [split]
    exact List.mem_append_right _ List.mem_cons_self
  exact absurd behind (pattern_of_mem_routes member).2.2

/--
A request goes to the same handler as every other one with the same first line
and headers and body which do not disturb, exactly when its own headers and
body do not.
-/
theorem same_line_same_handler_iff (line rest client_ip : List Char) :
    (∀ other, Undisturbed line other →
        (handle_request (request line rest) client_ip).handler =
          (handle_request (request line other) client_ip).handler) ↔
      Undisturbed line rest := by
  constructor
  · intro same
    have bare := same [] (undisturbed_nil line)
    rw [(handler_request_eq_iff line [] client_ip).mpr (undisturbed_nil line)]
      at bare
    exact (handler_request_eq_iff line rest client_ip).mp bare
  · intro undisturbed other otherUndisturbed
    rw [(handler_request_eq_iff line rest client_ip).mpr undisturbed,
      (handler_request_eq_iff line other client_ip).mpr otherUndisturbed]

/-- The body of a test request registers its sender. -/
theorem body_registers_node :
    ∃ (line header body client_ip : List Char),
      line = "POST /api/testpost HTTP/1.1".toList ∧
        handle_request
            (request line (header ++ "\r\n\r\n".toList ++ body)) client_ip =
          .handle_get_noderegister client_ip ∧
        handle_request (request line header) client_ip =
          .handle_testpost_request [] :=
  ⟨_, "Host: a".toList, "GET /api/noderegister HTTP/1.1".toList,
    "10.0.0.2".toList, rfl, by decide, by decide⟩

end FederatedEdge.Server
