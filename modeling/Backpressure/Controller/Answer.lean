import Backpressure.Controller.Progress

/-!
# Answers

Every answer measures a round trip.  It can lower the wire latency, and unless
its probe is older than the current window it is a sample of the delay that the
window causes.  Enough samples adjust the window.
-/

namespace Backpressure
namespace Controller

variable {α : Type} [Arithmetic α]

/-- The smaller of a value and a bound that may not be known yet. -/
def lowered (known : Option α) (value : α) : α :=
  match known with
  | none => value
  | some known => Arithmetic.smaller known value

/-- The first broken order among the measured round trips, which are all at
least the wire latency. -/
def violation (controller : Controller α) (base lowest : α) :
    Option (Fault α) :=
  if base ≤ lowest then
    match controller.lowestCongested with
    | none => none
    | some congested =>
      if base ≤ congested then none
      else some (.congestedBelowBase congested base)
  else some (.lowestBelowBase lowest base)

/-- Adjust the window to a measurement period and begin a new one. -/
def adjust (controller : Controller α) (now : α)
    (measurement : Measurement α) : Result α :=
  let window := Window.next measurement controller.window
  .reporting
    [.adjusted (Window.adjustment measurement) controller.window window
      measurement]
    { controller with
      window
      samples := 0
      adjustedAt := now
      lowest := none
      lowestCongested := none }

/-- Adjust the window if there are enough samples, after checking their order
if that is asked for. -/
def adjustWindow (controller : Controller α) (now base lowest : α) :
    Result α :=
  if controller.samples < (Window.samplesPerAdjustment : α) then
    .done controller
  else
    let fault :=
      if controller.config.verifyInvariants then
        controller.violation base lowest
      else none
    match fault with
    | some reason => .failed reason controller
    | none =>
      controller.adjust now ⟨base, lowest, controller.lowestCongested⟩

/-- The round trip of a sample without the delay of its own surplus.  Less
than the wire latency means that the surplus was misjudged, and the wire latency
is taken instead. -/
def compensated (controller : Controller α) (base roundTrip extra : α) : α :=
  let delay := Buffering.delay controller.window base extra
  Arithmetic.larger (if delay < roundTrip then roundTrip - delay else 1) base

/-- Count a sample. -/
def addSample (controller : Controller α) (roundTrip : α)
    (congested : Bool) : Controller α :=
  { controller with
    samples := controller.samples + 1
    lowest := some (lowered controller.lowest roundTrip)
    lowestCongested :=
      if congested then some (lowered controller.lowestCongested roundTrip)
      else controller.lowestCongested }

/-- Use the answer to a probe that was sent under the current window. -/
def sample (controller : Controller α) (now base roundTrip : α)
    (probe : Probe α) : Result α :=
  let roundTrip := controller.compensated base roundTrip probe.extra
  let sampled := controller.addSample roundTrip probe.congested
  sampled.adjustWindow now base (lowered controller.lowest roundTrip)

/-- Report an answer, which belongs to the oldest pending probe.  A probe
sent before the last adjustment tells nothing of the current window. -/
def probeAnswered (controller : Controller α) (now : α) : Result α :=
  match controller.pending with
  | [] => .reporting [.strayAnswer] controller
  | probe :: rest =>
    let roundTrip :=
      Arithmetic.larger 1 (Time.elapsed probe.sentAt now)
    let base := lowered controller.base roundTrip
    let measured := { controller with
      base := some base
      answered := probe
      answeredAt := now
      pending := rest }
    if probe.sentAt < controller.adjustedAt then .done measured
    else measured.sample now base roundTrip probe

end Controller
end Backpressure
