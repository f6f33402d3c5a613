import FederatedEdge.Json.Converter
import FederatedEdge.Library.CStrings

/-!
# The HTTP client of the board

`perform_get_request` calls `esp_http_client_perform` until it succeeds or the
retries are used up.  The library delivers the body in pieces to
`client_event_get_handler`, which appends them to a static buffer.  The buffer
is reset once, before the first attempt, and an attempt counts as a retry only
when it has failed after more than `TIMEOUT_MS`.

What the library does in each attempt is an infinite sequence here, of which
the loop uses as much as it needs.  Allocation does not fail.
-/

namespace FederatedEdge.Client

open FederatedEdge.Library
open FederatedEdge.Network
open FederatedEdge.Json

def MAX_RETRIES : ℕ :=
  3

def TIMEOUT_MS : ℤ :=
  1000

def terminator : Char :=
  '\x00'

/-! ## The program -/

inductive ClientEvent where
  | onData (data : List Char)
  | error
  | onFinish
  | disconnected
  | other
deriving DecidableEq, Repr

/-- The static variables of the response. -/
structure Response where
  response_buffer : Option (Buffer Char)
  response_buffer_length : ℕ
deriving DecidableEq, Repr

def client_event_get_handler (response : Response) :
    ClientEvent → Response
  | .onData data =>
      if 0 < data.length then
        let length := response.response_buffer_length
        let new_buf :=
          (response.response_buffer.getD []).resize (length + data.length + 1)
        { response_buffer :=
            some ((new_buf.overwrite length data).overwrite
              (length + data.length) [terminator])
          response_buffer_length := length + data.length }
      else response
  | .error => response
  | .onFinish => response
  | .disconnected => response
  | .other => response

/-- What one call of `esp_http_client_perform` does, between two times. -/
structure Attempt where
  events : List ClientEvent
  succeeds : Bool
  start_time : ℤ
  current_time : ℤ
deriving DecidableEq, Repr

/-- The attempt has taken longer than the timeout; the timer counts microseconds. -/
def Attempt.Slow (attempt : Attempt) : Prop :=
  TIMEOUT_MS < (attempt.current_time - attempt.start_time).tdiv 1000

instance (attempt : Attempt) : Decidable attempt.Slow := by
  unfold Attempt.Slow
  infer_instance

/-- The static variables, the retries, and whether the loop was left by a break. -/
structure GetRequest where
  response : Response
  retries : ℕ
  succeeded : Bool
deriving DecidableEq, Repr

namespace GetRequest

/-- The state before the loop. -/
def start : GetRequest where
  response := { response_buffer := none, response_buffer_length := 0 }
  retries := 0
  succeeded := false

/-- The condition of the loop, which has not been left. -/
def Running (request : GetRequest) : Prop :=
  request.succeeded = false ∧ request.retries < MAX_RETRIES

instance (request : GetRequest) : Decidable request.Running := by
  unfold Running
  infer_instance

/-- The body of the loop. -/
def turn (request : GetRequest) (attempt : Attempt) : GetRequest :=
  let response := attempt.events.foldl client_event_get_handler request.response
  if attempt.succeeds then
    { request with response := response, succeeded := true }
  else if attempt.Slow then
    { request with response := response, retries := request.retries + 1 }
  else { request with response := response }

end GetRequest

/-- The state of `perform_get_request` after so many attempts, if it makes them. -/
def perform_get_request (attempts : ℕ → Attempt) : ℕ → GetRequest
  | 0 => .start
  | made + 1 =>
      let request := perform_get_request attempts made
      if request.Running then request.turn (attempts made) else request

/-- The callers give the buffer to `cJSON_Parse`, unless it is null. -/
def getglobalmodel (cJSON_Parse : List Char → Option CJson) (toFloat : ℚ → ℚ)
    (response : Response) : Option (DecodedModel ℚ) :=
  match response.response_buffer with
  | some response_buffer =>
      (cJSON_Parse (response_buffer.string terminator)).bind
        (JSONToFederatedLearning toFloat)
  | none => none

/-- The status in the response; without one the status is 0. -/
def getglobalmodelstatus (cJSON_Parse : List Char → Option CJson)
    (response : Response) : ℤ :=
  match response.response_buffer with
  | some response_buffer =>
      match cJSON_Parse (response_buffer.string terminator) with
      | some req => (intField req "status").getD 0
      | none => 0
  | none => 0

/-! ## How many attempts are made -/

variable (attempts : ℕ → Attempt)

/-- The failures which count among the first attempts. -/
def slowFailures (made : ℕ) : ℕ :=
  (List.range made).countP fun index =>
    (attempts index).succeeds = false ∧ (attempts index).Slow

theorem slowFailures_succ (made : ℕ) :
    slowFailures attempts (made + 1) =
      slowFailures attempts made +
        if (attempts made).succeeds = false ∧ (attempts made).Slow then 1
        else 0 := by
  rw [slowFailures, List.range_succ, List.countP_append,
    List.countP_singleton, slowFailures]
  simp only [decide_eq_true_iff]

theorem turn_of_success {attempt : Attempt} (success : attempt.succeeds = true)
    (request : GetRequest) : ¬ (request.turn attempt).Running := by
  rw [GetRequest.turn, if_pos success]
  exact fun running => Bool.noConfusion running.1

/-- A failed attempt is counted when it was slow. -/
theorem turn_of_failure {attempt : Attempt} (failure : attempt.succeeds = false)
    (request : GetRequest) :
    (request.turn attempt).succeeded = request.succeeded ∧
      (request.turn attempt).retries =
        request.retries + if attempt.Slow then 1 else 0 := by
  rw [GetRequest.turn, if_neg (by simp [failure])]
  by_cases slow : attempt.Slow
  · rw [if_pos slow, if_pos slow]
    exact ⟨rfl, rfl⟩
  · rw [if_neg slow, if_neg slow]
    exact ⟨rfl, rfl⟩

/-- The first attempts fail, and too few of them count to end the loop. -/
def GoesOn (made : ℕ) : Prop :=
  (∀ index < made, (attempts index).succeeds = false) ∧
    slowFailures attempts made < MAX_RETRIES

theorem GoesOn.before {made : ℕ} (goesOn : GoesOn attempts (made + 1)) :
    GoesOn attempts made := by
  refine ⟨fun index below => goesOn.1 index (Nat.lt_succ_of_lt below), ?_⟩
  have few := goesOn.2
  rw [slowFailures_succ] at few
  exact lt_of_le_of_lt (Nat.le_add_right _ _) few

/-- The loop runs on as long as its attempts fail and too few of them count. -/
theorem running_iff (made : ℕ) :
    ((perform_get_request attempts made).Running ↔ GoesOn attempts made) ∧
      ((perform_get_request attempts made).Running →
        (perform_get_request attempts made).retries =
          slowFailures attempts made) := by
  induction made with
  | zero =>
      have first : GetRequest.start.Running := by
        decide
      refine ⟨iff_of_true first ⟨?_, Nat.succ_pos 2⟩, fun _ => rfl⟩
      intro index below
      exact absurd below (Nat.not_lt_zero index)
  | succ made inductionHypothesis =>
      rcases inductionHypothesis with ⟨continues, counted⟩
      rw [perform_get_request]
      by_cases running : (perform_get_request attempts made).Running
      · rw [if_pos running]
        rcases continues.mp running with ⟨failed, few⟩
        cases outcome : (attempts made).succeeds with
        | true =>
            have ended := turn_of_success outcome
              (perform_get_request attempts made)
            refine ⟨iff_of_false ended fun goesOn => ?_,
              fun still => absurd still ended⟩
            rw [goesOn.1 made (Nat.lt_succ_self made)] at outcome
            cases outcome
        | false =>
            rcases turn_of_failure outcome (perform_get_request attempts made)
              with ⟨succeeded, retries⟩
            have total :
                ((perform_get_request attempts made).turn
                    (attempts made)).retries =
                  slowFailures attempts (made + 1) := by
              rw [retries, counted running, slowFailures_succ]
              simp only [outcome, true_and]
            refine ⟨?_, fun _ => total⟩
            rw [GetRequest.Running, succeeded, total, GoesOn]
            refine and_congr_left fun _ => iff_of_true running.1 ?_
            intro index below
            rcases Nat.lt_succ_iff_lt_or_eq.mp below with earlier | rfl
            · exact failed index earlier
            · exact outcome
      · rw [if_neg running]
        exact ⟨iff_of_false running fun goesOn =>
            running (continues.mpr (goesOn.before attempts)),
          fun still => absurd still running⟩

/--
The loop has ended after `MAX_RETRIES` attempts exactly when one of these
succeeds or all of them fail after more than the timeout.
-/
theorem ends_within_max_retries_iff :
    ¬ (perform_get_request attempts MAX_RETRIES).Running ↔
      (∃ index < MAX_RETRIES, (attempts index).succeeds = true) ∨
        ∀ index < MAX_RETRIES, (attempts index).Slow := by
  rw [(running_iff attempts MAX_RETRIES).1, GoesOn]
  have allSlow :
      slowFailures attempts MAX_RETRIES = MAX_RETRIES ↔
        ∀ index < MAX_RETRIES,
          (attempts index).succeeds = false ∧ (attempts index).Slow := by
    have full :
        slowFailures attempts MAX_RETRIES = (List.range MAX_RETRIES).length ↔
          _ :=
      List.countP_eq_length
    rw [List.length_range] at full
    rw [full]
    simp only [List.mem_range, decide_eq_true_iff]
  have bounded : slowFailures attempts MAX_RETRIES ≤ MAX_RETRIES := by
    have counted :
        slowFailures attempts MAX_RETRIES ≤ (List.range MAX_RETRIES).length :=
      List.countP_le_length
    rw [List.length_range] at counted
    exact counted
  by_cases someSucceeds :
      ∃ index < MAX_RETRIES, (attempts index).succeeds = true
  · refine iff_of_true ?_ (Or.inl someSucceeds)
    rintro ⟨failed, -⟩
    rcases someSucceeds with ⟨index, below, success⟩
    rw [failed index below] at success
    cases success
  · have failed :
        ∀ index < MAX_RETRIES, (attempts index).succeeds = false := by
      intro index below
      exact Bool.eq_false_iff.mpr fun success =>
        someSucceeds ⟨index, below, success⟩
    rw [not_and, or_iff_right someSucceeds]
    constructor
    · intro ends index below
      have all := le_antisymm bounded (not_lt.mp (ends failed))
      exact (allSlow.mp all index below).2
    · intro slow _ few
      have all := allSlow.mpr fun index below =>
        ⟨failed index below, slow index below⟩
      exact few.ne all

/-- With a server which refuses connections at once the loop never ends. -/
theorem refused_connections_never_end :
    ∃ attempts : ℕ → Attempt,
      (∀ index, (attempts index).succeeds = false) ∧
        ∀ made, (perform_get_request attempts made).Running := by
  refine ⟨fun _ => ⟨[.error], false, 0, 2000⟩, fun _ => rfl, fun made => ?_⟩
  refine (running_iff _ made).1.mpr ⟨fun _ _ => rfl, ?_⟩
  have none : slowFailures (fun _ => ⟨[.error], false, 0, 2000⟩) made = 0 := by
    rw [slowFailures, List.countP_eq_zero]
    intro index _
    decide
  rw [none]
  decide

/-! ## What the buffer holds -/

/-- The piece of the body which an event delivers. -/
def ClientEvent.data : ClientEvent → List Char
  | .onData data => data
  | .error => []
  | .onFinish => []
  | .disconnected => []
  | .other => []

/-- The body which an attempt delivers. -/
def Attempt.body (attempt : Attempt) : List Char :=
  attempt.events.flatMap ClientEvent.data

/-- A buffer of exactly these characters with a null, or none without any. -/
def Response.holding (body : List Char) : Response where
  response_buffer :=
    if body = [] then none else some ((body ++ [terminator]).map some)
  response_buffer_length := body.length

theorem Response.holding_injective :
    Function.Injective Response.holding := by
  intro left right same
  have buffers := congrArg Response.response_buffer same
  rw [Response.holding, Response.holding] at buffers
  by_cases leftEmpty : left = []
  · by_cases rightEmpty : right = []
    · rw [leftEmpty, rightEmpty]
    · simp [leftEmpty, rightEmpty] at buffers
  · by_cases rightEmpty : right = []
    · simp [leftEmpty, rightEmpty] at buffers
    · simp only [leftEmpty, rightEmpty, if_false, Option.some.injEq]
        at buffers
      exact List.append_cancel_right
        (List.map_injective_iff.mpr (Option.some_injective _) buffers)

theorem Response.holding_buffer_eq_none_iff (body : List Char) :
    (Response.holding body).response_buffer = none ↔ body = [] := by
  rw [Response.holding]
  by_cases empty : body = []
  · simp [empty]
  · simp [empty]

/-- A piece is copied behind what the buffer holds, over the null. -/
theorem overwrite_resize (body data : List Char) (buffer : Buffer Char)
    (held : buffer = [] ∧ body = [] ∨
      buffer = (body ++ [terminator]).map some) :
    ((buffer.resize (body.length + data.length + 1)).overwrite body.length
        data).overwrite (body.length + data.length) [terminator] =
      (body ++ data ++ [terminator]).map some := by
  have size :
      (buffer.resize (body.length + data.length + 1)).length =
        body.length + data.length + 1 :=
    Buffer.length_resize _ _
  have kept :
      ∀ index < body.length,
        (buffer.resize (body.length + data.length + 1))[index]? =
          body[index]?.map some := by
    intro index below
    rcases held with ⟨-, rfl⟩ | rfl
    · exact absurd below (Nat.not_lt_zero index)
    · rw [Buffer.resize, List.getElem?_take_of_lt (by omega),
        List.getElem?_append_left (by simp; omega), List.getElem?_map,
        List.getElem?_append_left below]
  apply List.ext_getElem?
  intro index
  rw [Buffer.getElem?_overwrite
      (by rw [Buffer.length_overwrite (by omega)]; omega),
    Buffer.length_overwrite (by omega), size,
    Buffer.getElem?_overwrite (by omega), size, List.getElem?_map]
  by_cases inBody : index < body.length
  · rw [if_pos (by omega), if_pos (by omega), if_pos (by omega),
      if_pos inBody, kept index inBody, List.append_assoc,
      List.getElem?_append_left inBody]
  · by_cases inData : index < body.length + data.length
    · rw [if_pos (by omega), if_pos inData, if_pos (by omega),
        if_neg inBody, if_pos inData, List.append_assoc,
        List.getElem?_append_right (by omega),
        List.getElem?_append_left (by omega)]
    · by_cases last : index = body.length + data.length
      · subst last
        simp
      · rw [if_neg (by omega), List.getElem?_eq_none (by simp; omega)]
        rfl

/-- An event appends its piece. -/
theorem client_event_get_handler_holding (body : List Char)
    (event : ClientEvent) :
    client_event_get_handler (.holding body) event =
      .holding (body ++ event.data) := by
  cases event with
  | onData data =>
      rw [client_event_get_handler, ClientEvent.data]
      by_cases empty : data = []
      · subst empty
        rw [if_neg (by simp), List.append_nil]
      · have positive : 0 < data.length := List.length_pos_iff.mpr empty
        have nonempty : body ++ data ≠ [] := by simp [empty]
        have appended :=
          overwrite_resize body data
            ((Response.holding body).response_buffer.getD []) <| by
              by_cases noBody : body = []
              · exact Or.inl ⟨by rw [Response.holding, if_pos noBody]; rfl,
                  noBody⟩
              · exact Or.inr (by rw [Response.holding, if_neg noBody]; rfl)
        have after :
            Response.holding (body ++ data) =
              ⟨some ((body ++ data ++ [terminator]).map some),
                body.length + data.length⟩ := by
          rw [Response.holding, if_neg nonempty, List.length_append]
        rw [if_pos positive, after, ← appended]
        rfl
  | error => exact congrArg Response.holding (List.append_nil body).symm
  | onFinish => exact congrArg Response.holding (List.append_nil body).symm
  | disconnected => exact congrArg Response.holding (List.append_nil body).symm
  | other => exact congrArg Response.holding (List.append_nil body).symm

theorem foldl_client_event_get_handler (events : List ClientEvent)
    (body : List Char) :
    events.foldl client_event_get_handler (.holding body) =
      .holding (body ++ events.flatMap ClientEvent.data) := by
  induction events generalizing body with
  | nil => rw [List.foldl_nil, List.flatMap_nil, List.append_nil]
  | cons event events inductionHypothesis =>
      rw [List.foldl_cons, client_event_get_handler_holding,
        inductionHypothesis, List.flatMap_cons, List.append_assoc]

theorem response_turn (request : GetRequest) (attempt : Attempt) :
    (request.turn attempt).response =
      attempt.events.foldl client_event_get_handler request.response := by
  rw [GetRequest.turn]
  split
  · rfl
  · split <;> rfl

/-- What the first attempts have delivered, one after the other. -/
def delivered (made : ℕ) : List Char :=
  (List.range made).flatMap fun index => (attempts index).body

theorem delivered_succ (made : ℕ) :
    delivered attempts (made + 1) =
      delivered attempts made ++ (attempts made).body := by
  rw [delivered, List.range_succ, List.flatMap_append, List.flatMap_singleton,
    delivered]

/-- As long as the loop runs, the buffer holds what all attempts delivered. -/
theorem response_perform_get_request {made : ℕ}
    (running : GoesOn attempts made) :
    (perform_get_request attempts made).response =
      .holding (delivered attempts made) := by
  induction made with
  | zero => rfl
  | succ made inductionHypothesis =>
      have before := running.before attempts
      rw [perform_get_request, if_pos ((running_iff attempts made).1.mpr before),
        response_turn, inductionHypothesis before,
        foldl_client_event_get_handler, delivered_succ]
      rfl

/--
The response of a call is right after its last attempt: the body of this
attempt when it succeeds, and no response when it fails.
-/
structure Presents (last : Attempt) (response : Response) : Prop where
  success : last.succeeds = true → response = .holding last.body
  failure : last.succeeds = false → response.response_buffer = none

/-- The body of a successful attempt is right with nothing before it. -/
theorem presents_of_success_iff {last : Attempt} (success : last.succeeds = true)
    (before : List Char) :
    Presents last (.holding (before ++ last.body)) ↔ before = [] := by
  constructor
  · intro presents
    exact List.append_left_eq_self.mp
      (Response.holding_injective (presents.success success))
  · intro empty
    refine ⟨fun _ => by rw [empty, List.nil_append], fun failure => ?_⟩
    rw [success] at failure
    cases failure

/-- A failed attempt is right with nothing at all. -/
theorem presents_of_failure_iff {last : Attempt}
    (failure : last.succeeds = false) (before : List Char) :
    Presents last (.holding (before ++ last.body)) ↔
      before = [] ∧ last.body = [] := by
  rw [← List.append_eq_nil_iff, ← Response.holding_buffer_eq_none_iff]
  constructor
  · intro presents
    exact presents.failure failure
  · intro empty
    refine ⟨fun success => ?_, fun _ => empty⟩
    rw [failure] at success
    cases success

/--
After the attempt which ends the loop the response is right exactly when no
failed attempt has delivered a part of a body.
-/
theorem presents_iff {made : ℕ}
    (running : (perform_get_request attempts made).Running)
    (ended : ¬ (perform_get_request attempts (made + 1)).Running) :
    Presents (attempts made) (perform_get_request attempts (made + 1)).response ↔
      ∀ index ≤ made, (attempts index).succeeds = false →
        (attempts index).body = [] := by
  have goesOn := (running_iff attempts made).1.mp running
  have response :
      (perform_get_request attempts (made + 1)).response =
        .holding (delivered attempts made ++ (attempts made).body) := by
    rw [perform_get_request, if_pos running, response_turn,
      response_perform_get_request attempts goesOn,
      foldl_client_event_get_handler]
    rfl
  have nothing :
      delivered attempts made = [] ↔
        ∀ index < made, (attempts index).body = [] := by
    simp [delivered]
  rw [response]
  cases outcome : (attempts made).succeeds with
  | true =>
      rw [presents_of_success_iff outcome, nothing]
      constructor
      · intro empty index upto failure
        rcases Nat.eq_or_lt_of_le upto with rfl | below
        · rw [outcome] at failure
          cases failure
        · exact empty index below
      · intro empty index below
        exact empty index below.le (goesOn.1 index below)
  | false =>
      rw [presents_of_failure_iff outcome, nothing]
      constructor
      · rintro ⟨empty, last⟩ index upto -
        rcases Nat.eq_or_lt_of_le upto with rfl | below
        · exact last
        · exact empty index below
      · intro empty
        exact ⟨fun index below => empty index below.le (goesOn.1 index below),
          empty made le_rfl outcome⟩

/-- A first attempt which loses the connection, then attempts which succeed. -/
def sampleAttempts (index : ℕ) : Attempt :=
  if index = 0 then ⟨[.onData "\x7b\"st".toList, .error], false, 0, 5000⟩
  else ⟨[.onData "\x7b\x7d".toList, .onFinish], true, 0, 5000⟩

theorem presents_iff_sample :
    Presents (sampleAttempts 1)
        (perform_get_request sampleAttempts 2).response ↔
      ∀ index ≤ 1, (sampleAttempts index).succeeds = false →
        (sampleAttempts index).body = [] :=
  presents_iff sampleAttempts (by decide) (by decide)

/-- The callers parse the string in the buffer, if there is one. -/
theorem getglobalmodel_holding (cJSON_Parse : List Char → Option CJson)
    (toFloat : ℚ → ℚ) {body : List Char} (nonempty : body ≠ [])
    (clean : terminator ∉ body) :
    getglobalmodel cJSON_Parse toFloat (.holding body) =
      (cJSON_Parse body).bind (JSONToFederatedLearning toFloat) := by
  rw [getglobalmodel, Response.holding, if_neg nonempty]
  simp only [Buffer.string, Buffer.reduceOption_written,
    Buffer.takeWhile_terminated clean]

/--
The second attempt succeeds with a body of its own, but what is parsed begins
with the piece which the first one has left; and three failed attempts are
parsed as a response.
-/
theorem failed_pieces_are_parsed :
    (¬ Presents (sampleAttempts 1)
        (perform_get_request sampleAttempts 2).response ∧
      ∀ cJSON_Parse toFloat,
        getglobalmodel cJSON_Parse toFloat
            (perform_get_request sampleAttempts 2).response =
          (cJSON_Parse "\x7b\"st\x7b\x7d".toList).bind
            (JSONToFederatedLearning toFloat)) ∧
      ∃ attempts : ℕ → Attempt,
        (∀ index, (attempts index).succeeds = false) ∧
          ¬ (perform_get_request attempts 3).Running ∧
          ∀ cJSON_Parse toFloat,
            getglobalmodel cJSON_Parse toFloat
                (perform_get_request attempts 3).response =
              (cJSON_Parse "\x7b\x7b\x7b".toList).bind
                (JSONToFederatedLearning toFloat) := by
  have mixed :
      (perform_get_request sampleAttempts 2).response =
        .holding "\x7b\"st\x7b\x7d".toList := by
    decide
  let failing (_ : ℕ) : Attempt :=
    ⟨[.onData "\x7b".toList, .error], false, 0, 1001000⟩
  have kept :
      (perform_get_request failing 3).response =
        .holding "\x7b\x7b\x7b".toList := by
    decide
  refine ⟨⟨fun presents => ?_, fun cJSON_Parse toFloat => ?_⟩,
    failing, fun _ => rfl, by decide, fun cJSON_Parse toFloat => ?_⟩
  · exact absurd (presents.success (by decide)) (by decide)
  · rw [mixed]
    exact getglobalmodel_holding _ _ (by decide) (by decide)
  · rw [kept]
    exact getglobalmodel_holding _ _ (by decide) (by decide)

end FederatedEdge.Client
