import Backpressure.Controller.Estimate

/-!
# Progress

Every hand-over of bytes is reported to the controller, and so is every probe.
A report after a long pause resets what was learned of the path.
-/

namespace Backpressure
namespace Controller

variable {α : Type} [Arithmetic α]

/-- The shortest idle timeout, in milliseconds, which holds while the wire
latency is unknown. -/
def idleTimeoutFloor : Nat := 100

/-- A notice is due whenever the pending probes fill another batch of this
size. -/
def backlogBatch : Nat := 64

/-- The pause after which a connection counts as idle: two wire latencies, and
never less than the floor. -/
def idleTimeout (controller : Controller α) : α :=
  match controller.base with
  | none => (idleTimeoutFloor : α)
  | some base => Arithmetic.larger (base * 2) (idleTimeoutFloor : α)

/-- Forget the wire latency and all samples, and close the window down to the
initial one. -/
def resetAfterIdle (controller : Controller α) (now idle : α) : Result α :=
  let window :=
    Arithmetic.smaller controller.config.initialWindow controller.window
  .reporting [.idleReset idle controller.window window]
    { controller with
      window
      base := none
      samples := 0
      adjustedAt := now
      lowest := none
      lowestCongested := none }

/-- Note the time if there is something to send: new bytes, or a surplus of
old ones. -/
def noteActivity (controller : Controller α) (now added : α) : Controller α :=
  if 0 < added ∨ 0 < controller.extra then { controller with busyAt := now }
  else controller

/-- Reset the controller if it has been idle for too long. -/
def checkIdle (controller : Controller α) (now : α) : Result α :=
  let idle := Time.elapsed controller.busyAt now
  if controller.idleTimeout < idle then controller.resetAfterIdle now idle
  else .done controller

/-- The surplus after new bytes were added to it and the time since the last
report has drained it.  It is not tracked before the wire latency is known. -/
def surplusAfter (controller : Controller α) (now added : α) : α :=
  match controller.base with
  | none => controller.extra
  | some base =>
    let drained := Buffering.drained controller.window base
      (Time.elapsed controller.updatedAt now)
    Arithmetic.larger 0 (controller.extra + added - drained)

/-- Report the total of bytes handed over so far. -/
def recordProgress (controller : Controller α) (now total : α) : Result α :=
  let position := controller.config.counting.position total
  let added := controller.distance position controller.position
  ((controller.noteActivity now added).checkIdle now).andThen fun checked =>
    .done { checked with
      extra := checked.surplusAfter now added
      position
      updatedAt := now }

/-- The probe that would be sent now. -/
def probeNow (controller : Controller α) (now : α) : Probe α where
  sentAt := now
  position := controller.position
  extra := controller.extraNow now
  congested := controller.isCongested now

/-- Report a probe that is about to be written.  All that the probe notes is of one
clock reading. -/
def probeSent (controller : Controller α) (now : α) : Result α :=
  let pending := controller.pending ++ [controller.probeNow now]
  let notices :=
    if pending.length % backlogBatch = 0 then
      [Notice.backlog (pending.length : α)]
    else []
  .reporting notices { controller with pending }

end Controller
end Backpressure
