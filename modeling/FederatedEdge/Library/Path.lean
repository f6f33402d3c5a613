import Mathlib.Data.List.Basic

/-!
# Paths of a labelled transition system

A path lists the events which lead from one state to another.  Invariants of
single steps carry over to paths, and a system may be restricted to the steps
which meet a condition on the state before them.
-/

namespace FederatedEdge.Library

variable {State Event : Type}

/-- The events lead from the first state to the second. -/
inductive Path (Step : State → Event → State → Prop) :
    State → List Event → State → Prop where
  | nil (state) : Path Step state [] state
  | cons {source event middle events target}
      (head : Step source event middle)
      (tail : Path Step middle events target) :
      Path Step source (event :: events) target

/-- Only the steps whose source state and event meet a condition. -/
def Restricted (condition : State → Event → Prop)
    (Step : State → Event → State → Prop) (source : State) (event : Event)
    (target : State) : Prop :=
  condition source event ∧ Step source event target

namespace Path

variable {Step : State → Event → State → Prop}

/-- What each step preserves, a path preserves. -/
theorem invariant (Inv : State → Prop)
    (preserved :
      ∀ {source event target},
        Step source event target → Inv source → Inv target)
    {source target : State} {events : List Event}
    (path : Path Step source events target) (holds : Inv source) :
    Inv target := by
  induction path with
  | nil => exact holds
  | cons head _ inductionHypothesis =>
      exact inductionHypothesis (preserved head holds)

/-- What each step preserves about the events so far holds of all events. -/
theorem history (Inv : List Event → State → Prop)
    (preserved :
      ∀ {early source event target},
        Step source event target → Inv early source →
          Inv (early ++ [event]) target)
    {source target : State} {events : List Event}
    (path : Path Step source events target) (holds : Inv [] source) :
    Inv events target := by
  have later : ∀ early, Inv early source → Inv (early ++ events) target := by
    clear holds
    induction path with
    | nil =>
        intro early sofar
        rw [List.append_nil]
        exact sofar
    | cons head _ inductionHypothesis =>
        intro early sofar
        rw [List.append_cons]
        exact inductionHypothesis _ (preserved head sofar)
  exact later [] holds

theorem append {first second third : State} {early late : List Event}
    (left : Path Step first early second)
    (right : Path Step second late third) :
    Path Step first (early ++ late) third := by
  induction left with
  | nil => exact right
  | cons head _ inductionHypothesis =>
      exact .cons head (inductionHypothesis right)

theorem single {source target : State} {event : Event}
    (step : Step source event target) :
    Path Step source [event] target :=
  .cons step (.nil target)

/-- A path through related systems, one step at a time. -/
theorem mono {Other : State → Event → State → Prop}
    (included :
      ∀ {source event target},
        Step source event target → Other source event target)
    {source target : State} {events : List Event}
    (path : Path Step source events target) :
    Path Other source events target := by
  induction path with
  | nil state => exact .nil state
  | cons head _ inductionHypothesis =>
      exact .cons (included head) inductionHypothesis

/-- The path passes through a state. -/
def Visits (Step : State → Event → State → Prop) (source : State)
    (events : List Event) (target state : State) : Prop :=
  ∃ early late, events = early ++ late ∧ Path Step source early state ∧
    Path Step state late target

/-- The path takes a step with an event from a state. -/
def Takes (Step : State → Event → State → Prop) (source : State)
    (events : List Event) (target state : State) (event : Event) : Prop :=
  ∃ early late next, events = early ++ event :: late ∧
    Path Step source early state ∧ Step state event next ∧
      Path Step next late target

/-- The steps of a beginning are steps of the whole path. -/
theorem Takes.append {source middle target state : State}
    {early late : List Event} {event : Event}
    (takes : Takes Step source early middle state event)
    (path : Path Step middle late target) :
    Takes Step source (early ++ late) target state event := by
  rcases takes with ⟨front, back, next, rfl, leading, step, following⟩
  exact ⟨front, back ++ late, next, by simp, leading, step,
    following.append path⟩

/-- If all its steps meet a condition, the path is one of the restricted system. -/
theorem restricted (condition : State → Event → Prop)
    {source target : State} {events : List Event}
    (path : Path Step source events target)
    (meets : ∀ state event,
      Takes Step source events target state event → condition state event) :
    Path (Restricted condition Step) source events target := by
  induction path with
  | nil state => exact .nil state
  | @cons source event middle events target head tail inductionHypothesis =>
      have first : condition source event :=
        meets source event ⟨[], events, middle, rfl, .nil source, head, tail⟩
      refine .cons ⟨first, head⟩ (inductionHypothesis ?_)
      rintro state later ⟨early, late, next, rfl, leading, step, following⟩
      exact meets state later
        ⟨event :: early, late, next, rfl, .cons head leading, step, following⟩

end Path

end FederatedEdge.Library
