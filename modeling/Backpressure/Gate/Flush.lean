import Backpressure.Gate.Basic

/-!
# Flushing

A flush hands over chunks until the queue is empty or the window is full.  A
probe follows whatever was handed over, and an alarm is set for what is left.
-/

namespace Backpressure
namespace Gate

variable {α : Type} [Arithmetic α]

/-- The delay before the next attempt while the time until the window has room
is unknown, in milliseconds. -/
def retryInterval : Nat := 100

/-- Tell the controller how much was handed over. -/
def report (now : α) (gate : Gate α) : Result α :=
  gate.withController
    (gate.controller.recordProgress now (gate.position : α))

/-- Give a chunk to the receiver, or drop it if there is none. -/
def forward (chunk : Chunk) (gate : Gate α) : Result α :=
  if gate.link.connected then
    let given := { gate with link := gate.link.afterChunk }
    (Outcome.reporting [.forwarded chunk] given).andThen fun given =>
      if gate.link.chunkFails then .failed .forwardFailed given
      else .done given
  else .reporting [.dropped chunk] gate

/-- Take a chunk from the front of the queue.  The position moves before the
receiver gets to see the chunk. -/
def take (chunk : Chunk) (rest : List Chunk) (gate : Gate α) : Gate α :=
  { gate with
    queue := rest
    queuedBytes := gate.queuedBytes - (chunk.size : α)
    position := (gate.position + chunk.size) % Arithmetic.ringSize }

/-- Hand over the chunk at the front of the queue and report it. -/
def pass (now : α) (chunk : Chunk) (rest : List Chunk) (gate : Gate α) :
    Result α :=
  ((gate.take chunk rest).forward chunk).andThen (report now)

/-- Hand over the chunks of the queue, one by one, until the window is
full. -/
def handOver (now : α) : List Chunk → Gate α → Result α
  | [], gate => .done gate
  | chunk :: rest, gate =>
    if gate.controller.isCongested now then .done gate
    else (gate.pass now chunk rest).andThen (handOver now rest)

/-- Send a probe; the controller learns of it first. -/
def probe (now : α) (gate : Gate α) : Result α :=
  (gate.withController (gate.controller.probeSent now)).andThen fun noted =>
    let given := { noted with link := noted.link.afterProbe }
    (Outcome.reporting [.probed] given).andThen fun given =>
      if noted.link.probeFails then .failed .probeFailed given
      else .done given

/-- The delay before the next attempt: until the window has room, as far as
that can be told, but at least a millisecond. -/
def retryDelay (now : α) (gate : Gate α) : α :=
  match gate.controller.untilUncongested now with
  | none => (retryInterval : α)
  | some wait => Arithmetic.larger 1 wait

/-- Set the alarm for the next attempt, unless it is set already. -/
def scheduleRetry (clock now : α) (gate : Gate α) : Result α :=
  if gate.retry.running then .done gate
  else
    let delay := gate.retryDelay now
    (Outcome.reporting [.retryPlanned gate.queuedBytes delay] gate).andThen
      fun gate => gate.withRetry ((gate.retry.listen ()).start clock delay)

/-- Stop the alarm. -/
def resetRetry (gate : Gate α) : Result α :=
  gate.withRetry gate.retry.reset

/-- Set the alarm if chunks are left, and stop it otherwise. -/
def settle (clock now : α) (gate : Gate α) : Result α :=
  if gate.queue.isEmpty then
    if gate.retry.running then gate.resetRetry else .done gate
  else gate.scheduleRetry clock now

/-- Hand over what the window has room for.  The controller's estimates are
refreshed first.  The clock is read once: every report, every question and the
probe of one flush see the same reading, as if no time passed during it. -/
def flush (clock : α) (gate : Gate α) : Result α :=
  let now := gate.reading clock
  (gate.report now).andThen fun reported =>
    (reported.handOver now reported.queue).andThen fun sent =>
      let probed :=
        if sent.queue.length < reported.queue.length then sent.probe now
        else .done sent
      probed.andThen (settle clock now)

end Gate
end Backpressure
