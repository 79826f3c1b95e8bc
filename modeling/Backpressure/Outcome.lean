/-!
# Outcomes

An operation turns a state into a state, reports events in order, and may end
early with a fault.  A fault takes nothing back: the state and the events up to
it stand.
-/

namespace Backpressure

/-- What an operation leaves behind. -/
structure Outcome (Event Reason State : Type) where
  /-- The state at the end, or at the fault. -/
  state : State
  /-- What was reported, in order. -/
  events : List Event
  /-- The fault that ended the operation early. -/
  fault : Option Reason

namespace Outcome

variable {Event Reason State : Type}

/-- An operation that reports nothing. -/
def done (state : State) : Outcome Event Reason State :=
  ⟨state, [], none⟩

/-- An operation that reports events. -/
def reporting (events : List Event) (state : State) :
    Outcome Event Reason State :=
  ⟨state, events, none⟩

/-- An operation that ends early. -/
def failed (reason : Reason) (state : State) : Outcome Event Reason State :=
  ⟨state, [], some reason⟩

/-- One operation and then another, unless the first one ends early. -/
def andThen
    (first : Outcome Event Reason State)
    (second : State → Outcome Event Reason State) :
    Outcome Event Reason State :=
  match first.fault with
  | some _ => first
  | none =>
    let rest := second first.state
    ⟨rest.state, first.events ++ rest.events, rest.fault⟩

/-- An operation on a part, seen as one on the whole. -/
def within {WholeEvent Whole : Type}
    (outcome : Outcome Event Reason State)
    (report : Event → WholeEvent)
    (embed : State → Whole) :
    Outcome WholeEvent Reason Whole :=
  ⟨embed outcome.state, outcome.events.map report, outcome.fault⟩

@[simp] theorem andThen_done (state : State)
    (second : State → Outcome Event Reason State) :
    (done state).andThen second = second state := rfl

@[simp] theorem andThen_reporting (events : List Event) (state : State)
    (second : State → Outcome Event Reason State) :
    (reporting events state).andThen second =
      ⟨(second state).state, events ++ (second state).events,
        (second state).fault⟩ := rfl

@[simp] theorem andThen_failed (reason : Reason) (state : State)
    (second : State → Outcome Event Reason State) :
    (failed reason state).andThen second = failed reason state := rfl

@[simp] theorem state_done (state : State) :
    (done state : Outcome Event Reason State).state = state := rfl

@[simp] theorem events_done (state : State) :
    (done state : Outcome Event Reason State).events = [] := rfl

@[simp] theorem fault_done (state : State) :
    (done state : Outcome Event Reason State).fault = none := rfl

@[simp] theorem state_reporting (events : List Event) (state : State) :
    (reporting events state : Outcome Event Reason State).state = state := rfl

@[simp] theorem events_reporting (events : List Event) (state : State) :
    (reporting events state : Outcome Event Reason State).events = events := rfl

@[simp] theorem fault_reporting (events : List Event) (state : State) :
    (reporting events state : Outcome Event Reason State).fault = none := rfl

@[simp] theorem fault_within {WholeEvent Whole : Type}
    (outcome : Outcome Event Reason State)
    (report : Event → WholeEvent)
    (embed : State → Whole) :
    (outcome.within report embed).fault = outcome.fault := rfl

/-- Operations on a part, one after the other, seen as operations on the
whole. -/
theorem within_andThen {WholeEvent Whole : Type}
    {report : Event → WholeEvent}
    {embed : State → Whole}
    {first : Outcome Event Reason State}
    {second : State → Outcome Event Reason State}
    (wholeSecond : Whole → Outcome WholeEvent Reason Whole)
    (same : ∀ state,
      wholeSecond (embed state) = (second state).within report embed) :
    (first.andThen second).within report embed =
      (first.within report embed).andThen wholeSecond := by
  obtain ⟨state, events, fault⟩ := first
  cases fault with
  | none => simp [andThen, same, within]
  | some reason => rfl

/-- After a faultless operation the next one runs. -/
theorem andThen_of_faultless
    {first : Outcome Event Reason State}
    (faultless : first.fault = none)
    (second : State → Outcome Event Reason State) :
    first.andThen second =
      ⟨(second first.state).state,
        first.events ++ (second first.state).events,
        (second first.state).fault⟩ := by
  unfold andThen
  rw [faultless]

/-- A faulty operation is the last one of a sequence. -/
theorem andThen_of_faulty
    {first : Outcome Event Reason State}
    {reason : Reason}
    (faulty : first.fault = some reason)
    (second : State → Outcome Event Reason State) :
    first.andThen second = first := by
  unfold andThen
  rw [faulty]

theorem state_andThen_of_faultless
    {first : Outcome Event Reason State}
    (faultless : first.fault = none)
    (second : State → Outcome Event Reason State) :
    (first.andThen second).state = (second first.state).state := by
  rw [andThen_of_faultless faultless]

/-- Nothing done afterwards changes nothing. -/
@[simp] theorem andThen_nothing (first : Outcome Event Reason State) :
    first.andThen done = first := by
  obtain ⟨state, events, fault⟩ := first
  cases fault with
  | none => simp [andThen]
  | some reason => rfl

/-- A sequence is faultless if both of its operations are. -/
@[simp] theorem fault_andThen_eq_none_iff
    (first : Outcome Event Reason State)
    (second : State → Outcome Event Reason State) :
    (first.andThen second).fault = none ↔
      first.fault = none ∧ (second first.state).fault = none := by
  unfold andThen
  cases given : first.fault <;> simp [given]

/-- What a first operation establishes and a second one keeps holds after
both, faulty or not. -/
theorem state_andThen
    {motive : State → Prop}
    {first : Outcome Event Reason State}
    {second : State → Outcome Event Reason State}
    (holds : motive first.state)
    (keeps : motive first.state → motive (second first.state).state) :
    motive (first.andThen second).state := by
  unfold andThen
  cases first.fault with
  | none => exact keeps holds
  | some reason => exact holds

end Outcome
end Backpressure
