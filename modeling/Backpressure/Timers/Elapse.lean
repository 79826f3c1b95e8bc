import Backpressure.Outcome
import Backpressure.Timers

/-!
# Passing time

While the clock advances, the timers that become due expire one by one.  What
happens at an expiry is up to the owner of the timers, and may arm new ones.
-/

namespace Backpressure

/-- How the owner of a table of timers takes part in passing time. -/
structure TimerOwner (α Event Reason State : Type) where
  /-- The owner's timers. -/
  timers : State → Timers α
  /-- How an expiry is reported. -/
  report : Timers.Event α → Event
  /-- What happens when a timer expires at a clock reading. -/
  expire : Timer α → α → State → Outcome Event Reason State

namespace TimerOwner

variable {α Event Reason State : Type} [Arithmetic α]

/-- Let the first timer that is due by `target` expire, then the next, for a
number of expiries at most.  The clock never goes back for a timer that is
overdue, and a fault stops it at the expiry. -/
def advanceWithin (owner : TimerOwner α Event Reason State) (target : α) :
    Nat → α → State → Outcome Event Reason (α × State)
  | 0, _, state => .done (target, state)
  | expiries + 1, clock, state =>
    match (owner.timers state).nextDue? target with
    | none => .done (target, state)
    | some timer =>
      let clock := Arithmetic.larger clock timer.due
      let expiry : Outcome Event Reason State :=
        (Outcome.reporting [owner.report (.expired clock)] state).andThen
          (owner.expire timer clock)
      (expiry.within id fun state => (clock, state)).andThen
        fun reached => owner.advanceWithin target expiries reached.1 reached.2

/-- More expiries than a span of time has room for. -/
def expiryBudget : Nat := 1099511627776

/-- Advance the clock by a span of time. -/
def advance (owner : TimerOwner α Event Reason State) (span clock : α)
    (state : State) : Outcome Event Reason (α × State) :=
  owner.advanceWithin (clock + span) expiryBudget clock state

end TimerOwner
end Backpressure
