import Backpressure.Counting
import Backpressure.Failure
import Backpressure.Outcome
import Backpressure.Probe
import Backpressure.Window

/-!
# The controller

A controller decides how much of a reliable, ordered byte stream may be on its
way.  The transport loses nothing, so the only sign of congestion is delay,
seen through probes that the peer answers in the order they were sent.
-/

namespace Backpressure

/-- What is fixed for the life of a controller. -/
structure Config (α : Type) where
  /-- The window to start with, and the most that an idle period leaves. -/
  initialWindow : α
  /-- Whether the order of the measured round trips is checked. -/
  verifyInvariants : Bool
  /-- How byte positions are counted. -/
  counting : Counting

/-- What a caller may ask of a new controller. -/
structure Options (α : Type) where
  /-- The window to start with. -/
  initialWindow : Option α
  /-- Whether the order of the measured round trips is checked. -/
  verifyInvariants : Option Bool

/-- The state of congestion control for one byte stream. -/
structure Controller (α : Type) where
  /-- What is fixed for the life of the controller. -/
  config : Config α
  /-- The last reported byte position. -/
  position : α
  /-- The bytes believed to wait in buffers when the position was reported. -/
  extra : α
  /-- The wire latency: the lowest round trip since it was last forgotten. -/
  base : Option α
  /-- The bytes that may be on their way. -/
  window : α
  /-- The samples counted since the last adjustment. -/
  samples : α
  /-- The lowest round trip of these samples. -/
  lowest : Option α
  /-- The lowest round trip of those taken while congested. -/
  lowestCongested : Option α
  /-- When the position was last reported. -/
  updatedAt : α
  /-- When there was last something to send. -/
  busyAt : α
  /-- When the window was last adjusted or reset. -/
  adjustedAt : α
  /-- When the last answer arrived. -/
  answeredAt : α
  /-- The probe that was answered last. -/
  answered : Probe α
  /-- The probes without an answer, oldest first. -/
  pending : List (Probe α)

/-- What a controller reports to its observer. -/
inductive Notice (α : Type) where
  /-- The window was adjusted after a measurement period. -/
  | adjusted (adjustment : Adjustment) (previous window : α)
      (measurement : Measurement α)
  /-- The connection was idle for this long, and the window was reset. -/
  | idleReset (idle previous window : α)
  /-- This many probes wait for an answer. -/
  | backlog (pending : α)
  /-- An answer arrived while no probe was waiting for one. -/
  | strayAnswer

/-- What an operation of a controller leaves behind. -/
abbrev Controller.Result (α : Type) :=
  Outcome (Notice α) (Fault α) (Controller α)

namespace Controller

variable {α : Type} [Arithmetic α]

/-- The controller of a fresh stream. -/
def fresh (config : Config α) (now : α) : Controller α where
  config := config
  position := 0
  extra := 0
  base := none
  window := config.initialWindow
  samples := 0
  lowest := none
  lowestCongested := none
  updatedAt := now
  busyAt := now
  adjustedAt := now
  answeredAt := now
  answered := ⟨now, 0, 0, false⟩
  pending := []

/-- The controller that options ask for, if its window is accepted.  What is
not asked for has a default. -/
def start (options : Options α) (verifyByDefault : Bool) (now : α) :
    Except (Fault α) (Controller α) :=
  let initialWindow := options.initialWindow.getD (Window.initial : α)
  if Window.Accepted initialWindow then
    .ok (fresh
      { initialWindow
        verifyInvariants := options.verifyInvariants.getD verifyByDefault
        counting := .wrapping } now)
  else .error (.windowRefused initialWindow)

end Controller
end Backpressure
