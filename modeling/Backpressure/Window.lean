import Backpressure.Arithmetic

/-!
# The congestion window

The window is how many bytes may be on their way at a time.  It follows the
delay that the transport adds to the wire latency: a long queue shrinks it, and
a short one lets it grow if the sender was held back by it.  A slightly too
large window is the aim, because a perfect one cannot be told from one that is
too small.
-/

namespace Backpressure

/-- What an adjustment does to the window. -/
inductive Adjustment where
  /-- Scale by the part of the round trip that is wire latency. -/
  | shrinkMultiplicative
  /-- Take one step down. -/
  | shrink
  /-- Take a double step up. -/
  | growFast
  /-- Take one step up. -/
  | grow
  /-- Keep the window. -/
  | hold
  deriving DecidableEq, Repr

/-- The delays of a measurement period. -/
structure Measurement (α : Type) where
  /-- The wire latency. -/
  base : α
  /-- The lowest round trip of all samples. -/
  lowest : α
  /-- The lowest round trip of the samples taken while congested. -/
  lowestCongested : Option α

namespace Window

/-! ## Constants -/

/-- The window to start with. -/
def initial : Nat := 16384

/-- The smallest window. -/
def minimum : Nat := 4096

/-- The largest window. -/
def maximum : Nat := 4194304

/-- The samples an adjustment needs, to keep the noise down. -/
def samplesPerAdjustment : Nat := 3

/-- Added delay, in milliseconds, beyond which the window is scaled down. -/
def wayTooLargeDelay : Nat := 100

/-- Added delay beyond which the window takes a step down. -/
def tooLargeDelay : Nat := 50

/-- Added delay below which the window takes a double step up. -/
def wayTooSmallDelay : Nat := 5

/-- Added delay below which the window takes a step up. -/
def tooSmallDelay : Nat := 25

/-- A step down in bytes. -/
def decrement : Nat := 4096

/-- A step up in bytes. -/
def increment : Nat := 4096

/-- A double step up in bytes. -/
def fastIncrement : Nat := 8192

variable {α : Type} [Arithmetic α]

/-! ## The rule -/

/-- Whether a window may be asked for: a whole number within the bounds. -/
def Accepted (window : α) : Prop :=
  (Arithmetic.floor window == window) = true ∧
    ((minimum : Nat) : α) ≤ window ∧ window ≤ ((maximum : Nat) : α)

instance (window : α) : Decidable (Accepted window) :=
  inferInstanceAs (Decidable (_ ∧ _ ∧ _))

/-- The window kept within its bounds. -/
def clamp (window : α) : α :=
  Arithmetic.smaller (maximum : α) (Arithmetic.larger (minimum : α) window)

/-- The adjustment that added delays call for.  Whether the window is too
large is judged by all samples, whether it is too small only by those that it
limited. -/
def adjustment (measurement : Measurement α) : Adjustment :=
  let added := measurement.lowest - measurement.base
  if (wayTooLargeDelay : α) < added then .shrinkMultiplicative
  else if (tooLargeDelay : α) < added then .shrink
  else
    match measurement.lowestCongested with
    | none => .hold
    | some lowestCongested =>
      let added := lowestCongested - measurement.base
      if added < (wayTooSmallDelay : α) then .growFast
      else if added < (tooSmallDelay : α) then .grow
      else .hold

/-- The window after an adjustment, before it is kept within bounds. -/
def apply (measurement : Measurement α) (window : α) : Adjustment → α
  | .shrinkMultiplicative =>
    Arithmetic.floor (window * measurement.base / measurement.lowest)
  | .shrink => window - (decrement : α)
  | .growFast => window + (fastIncrement : α)
  | .grow => window + (increment : α)
  | .hold => window

/-- The window that follows from a measurement period. -/
def next (measurement : Measurement α) (window : α) : α :=
  clamp (apply measurement window (adjustment measurement))

@[simp] theorem apply_hold (measurement : Measurement α) (window : α) :
    apply measurement window .hold = window := rfl

end Window
end Backpressure
