import Backpressure.Alarm
import Backpressure.Controller.Answer
import Backpressure.Link

/-!
# The gate

A gate holds chunks back while its controller says that the window is full.
-/

namespace Backpressure

/-- A gate in front of a link. -/
structure Gate (α : Type) where
  /-- The controller that the gate obeys and informs. -/
  controller : Controller α
  /-- The chunks held back, oldest first. -/
  queue : List Chunk
  /-- The bytes held back, as far as the numbers of the gate count them. -/
  queuedBytes : α
  /-- The bytes handed over so far, modulo the size of the ring.  This is a
  plain natural number, as a position and one chunk never leave the whole
  numbers that a double has. -/
  position : Nat
  /-- The alarm for the next attempt to hand over chunks.  Its listeners have
  nothing to tell them apart. -/
  retry : Alarm α Unit
  /-- Where chunks and probes go. -/
  link : Link
  /-- What the clock of the controller shows at a reading of the clock that
  timers run by. -/
  reading : α → α

namespace Gate

/-- What can be seen of a gate. -/
inductive Event (α : Type) where
  /-- The controller reported something. -/
  | notice (notice : Notice α)
  /-- A chunk was given to the receiver. -/
  | forwarded (chunk : Chunk)
  /-- A chunk was dropped for want of a receiver. -/
  | dropped (chunk : Chunk)
  /-- A probe was given to the link. -/
  | probed
  /-- So many bytes wait for an attempt after this delay. -/
  | retryPlanned (queuedBytes delay : α)
  /-- Something happened to a timer. -/
  | timer (event : Timers.Event α)

/-- What an operation of a gate leaves behind. -/
abbrev Result (α : Type) :=
  Outcome (Event α) (Fault α) (Gate α)

variable {α : Type}

/-- A gate without chunks. -/
def fresh [Arithmetic α]
    (controller : Controller α) (link : Link) (reading : α → α) : Gate α where
  controller := controller
  queue := []
  queuedBytes := 0
  position := 0
  retry := Alarm.unused
  link := link
  reading := reading

/-- Something that the controller did, as something the gate did. -/
def withController (gate : Gate α) (result : Controller.Result α) :
    Result α :=
  result.within .notice fun controller => { gate with controller }

/-- Something that the alarm did, as something the gate did. -/
def withRetry (gate : Gate α)
    (result : Outcome (Timers.Event α) (Fault α) (Alarm α Unit)) : Result α :=
  result.within .timer fun retry => { gate with retry }

end Gate
end Backpressure
