import Backpressure.Gate.Flush
import Backpressure.Timers.Elapse

/-!
# Using a gate

Chunks and answers come in, the gate may be closed or connected, and its alarm
rings.
-/

namespace Backpressure
namespace Gate

/-- What can happen to a gate. -/
inductive Action (α : Type) where
  /-- A chunk comes in. -/
  | dataIn (chunk : Chunk)
  /-- The peer has answered the oldest pending probe. -/
  | probeAnswered
  /-- No further attempts are wanted. -/
  | close
  /-- A receiver takes the chunks from now on. -/
  | connect
  /-- The earliest timer of the alarm expires, if there is one. -/
  | retry

variable {α : Type} [Arithmetic α]

/-- Put a chunk at the end of the queue. -/
def enqueue (chunk : Chunk) (gate : Gate α) : Gate α :=
  { gate with
    queue := gate.queue ++ [chunk]
    queuedBytes := gate.queuedBytes + (chunk.size : α) }

/-- Take a chunk in. -/
def dataIn (clock : α) (chunk : Chunk) (gate : Gate α) : Result α :=
  (gate.enqueue chunk).flush clock

/-- Take in the answer to the oldest pending probe. -/
def probeAnswered (clock : α) (gate : Gate α) : Result α :=
  (gate.withController
    (gate.controller.probeAnswered (gate.reading clock))).andThen (flush clock)

/-- Make no further attempt to hand over chunks by itself. -/
def close (gate : Gate α) : Result α :=
  gate.resetRetry

/-- Let a receiver take the chunks from now on. -/
def connect (gate : Gate α) : Gate α :=
  { gate with link := gate.link.connect }

/-- Make an attempt for each listener of the alarm that has rung. -/
def attempt (clock : α) : List Unit → Gate α → Result α
  | [], gate => .done gate
  | () :: rest, gate =>
    (gate.resetRetry.andThen (flush clock)).andThen (attempt clock rest)

/-- The alarm rings, as one of its timers has expired. -/
def expire (timer : Timer α) (clock : α) (gate : Gate α) : Result α :=
  attempt clock gate.retry.listeners
    { gate with retry := gate.retry.ring timer }

/-- How a gate takes part in passing time. -/
def owner : TimerOwner α (Event α) (Fault α) (Gate α) where
  timers gate := gate.retry.timers
  report := .timer
  expire := expire

/-- Let something happen to a gate at a reading of its timers' clock. -/
def perform (gate : Gate α) (clock : α) : Action α → Result α
  | .dataIn chunk => gate.dataIn clock chunk
  | .probeAnswered => gate.probeAnswered clock
  | .close => gate.close
  | .connect => .done gate.connect
  | .retry =>
    match Timers.earliest? gate.retry.timers.armed with
    | none => .done gate
    | some timer => gate.expire timer clock

/-- The outcomes of a history of actions, one after the other.  A fault ends
only the action that it happens in. -/
def outcomes (gate : Gate α) : List (α × Action α) → List (Result α)
  | [] => []
  | (clock, action) :: rest =>
    let outcome := gate.perform clock action
    outcome :: outcomes outcome.state rest

/-- The state after a history of actions. -/
def after (gate : Gate α) (history : List (α × Action α)) : Gate α :=
  history.foldl (fun current step => (current.perform step.1 step.2).state) gate

@[simp] theorem after_nil (gate : Gate α) : gate.after [] = gate := rfl

@[simp] theorem after_cons (gate : Gate α)
    (step : α × Action α) (history : List (α × Action α)) :
    gate.after (step :: history) =
      (gate.perform step.1 step.2).state.after history := rfl

theorem after_append (gate : Gate α) (first second : List (α × Action α)) :
    gate.after (first ++ second) = (gate.after first).after second :=
  List.foldl_append

end Gate
end Backpressure
