import Backpressure.Buffering
import Backpressure.Controller.Basic

/-!
# Estimates

How much is on its way can only be estimated.  Between two answers the peer is
taken to receive at a steady rate, and without a pending probe the surplus is
taken to drain at the rate of one window per wire latency.
-/

namespace Backpressure
namespace Controller

variable {α : Type} [Arithmetic α]

/-- The bytes from an earlier position to a later one. -/
def distance (controller : Controller α) (later earlier : α) : α :=
  controller.config.counting.distance later earlier

/-- Whether the first position is ahead of the second. -/
def isAfter (controller : Controller α) (first second : α) : Bool :=
  controller.config.counting.isAfter first second

/-- The expected time from the answer to a probe to the answer to another. -/
def interval (controller : Controller α) (base : α)
    (origin probe : Probe α) : α :=
  Buffering.interval controller.window base origin probe.sentAt probe.extra

/-! ## Bytes on their way -/

/-- The position that the peer has reached while the answer to the oldest
pending probe is on its way.  An overdue answer is taken to arrive at any
moment. -/
def reachedTowards (controller : Controller α) (now base : α)
    (next : Probe α) : α :=
  let origin := controller.answered
  let expected := controller.interval base origin next
  let elapsed := Time.elapsed controller.answeredAt now
  if expected ≤ elapsed then next.position
  else
    let span := controller.distance next.position origin.position
    controller.config.counting.position
      (origin.position + Arithmetic.floor (span * elapsed / expected))

/-- What has left the buffers since the last report and reached the peer, who
receives nothing within the first wire latency. -/
def receivedSince (controller : Controller α) (base now : α) : α :=
  let elapsed := Time.elapsed controller.updatedAt now
  if elapsed ≤ base then 0
  else Buffering.drained controller.window base (elapsed - base)

/-- The position that the peer has reached if no probe is pending: what the
buffers held is received from one wire latency after the last report on. -/
def reachedByDraining (controller : Controller α) (now base : α) : α :=
  controller.config.counting.position
    (controller.position - controller.extra +
      Arithmetic.smaller (controller.receivedSince base now) controller.extra)

/-- The bytes handed over that the peer has probably not received yet. -/
def inFlight (controller : Controller α) (now : α) : α :=
  if controller.position == controller.answered.position then 0
  else
    match controller.base, controller.pending with
    | none, next :: _ => controller.distance controller.position next.position
    | none, [] => 0
    | some base, next :: _ =>
      controller.distance controller.position
        (controller.reachedTowards now base next)
    | some base, [] =>
      controller.distance controller.position
        (controller.reachedByDraining now base)

/-- Whether the window is full. -/
def isCongested (controller : Controller α) (now : α) : Bool :=
  decide (controller.window ≤ controller.inFlight now)

/-- The surplus that is left of the stored one by now. -/
def extraNow (controller : Controller α) (now : α) : α :=
  match controller.base with
  | none => 0
  | some base =>
    let drained := Buffering.drained controller.window base
      (Time.elapsed controller.updatedAt now)
    if controller.extra ≤ drained then 0 else controller.extra - drained

/-! ## Time until the window has room -/

/-- The position that must be reached for the window to have room. -/
def target (controller : Controller α) : α :=
  controller.config.counting.position (controller.position - controller.window)

/-- The part of an interval that ends at `position` which is left at the
target, as bytes are received at a steady rate. -/
def shareBeyondTarget (controller : Controller α)
    (interval position previous : α) : α :=
  Arithmetic.floor
    (interval * controller.distance position controller.target /
      controller.distance position previous)

/-- The expected time from the last answer until the window has room.  Each
pending probe that does not make room adds its interval; if none does, one more
probe is imagined at the last report. -/
def arrival (controller : Controller α) (base : α)
    (previous : Probe α) (waited : α) : List (Probe α) → α
  | [] =>
    let interval := Buffering.interval controller.window base previous
      controller.updatedAt controller.extra
    waited +
      controller.shareBeyondTarget interval controller.position previous.position
  | probe :: rest =>
    let interval := controller.interval base previous probe
    if controller.isAfter probe.position controller.target then
      waited +
        controller.shareBeyondTarget interval probe.position previous.position
    else controller.arrival base probe (waited + interval) rest

/-- The milliseconds until the window has room, which are unknown as long as
the wire latency is. -/
def untilUncongested (controller : Controller α) (now : α) : Option α :=
  if controller.isAfter controller.answered.position controller.target then
    some 0
  else
    controller.base.map fun base =>
      let arrival :=
        controller.arrival base controller.answered 0 controller.pending
      let elapsed := Time.elapsed controller.answeredAt now
      if arrival < elapsed then 0 else arrival - elapsed

/-! ## All at once -/

/-- Everything that a controller can be asked for at a clock reading. -/
structure Readout (α : Type) where
  /-- The bytes on their way. -/
  inFlight : α
  /-- Whether the window is full. -/
  congested : Bool
  /-- The surplus that is left. -/
  extra : α
  /-- The milliseconds until the window has room. -/
  wait : Option α
  /-- The bytes that may be on their way. -/
  window : α
  /-- The wire latency. -/
  base : Option α
  /-- How many probes wait for an answer. -/
  pending : Nat
  deriving DecidableEq

/-- Ask a controller for everything. -/
def readout (controller : Controller α) (now : α) : Readout α where
  inFlight := controller.inFlight now
  congested := controller.isCongested now
  extra := controller.extraNow now
  wait := controller.untilUncongested now
  window := controller.window
  base := controller.base
  pending := controller.pending.length

end Controller
end Backpressure
