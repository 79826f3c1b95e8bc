import Backpressure.Arithmetic

/-!
# Timers

A table of armed timers.  A timer leaves the table when it is cancelled or when
it expires, and of all due timers the one with the earliest due time expires
first.
-/

namespace Backpressure

/-- An armed timer. -/
structure Timer (α : Type) where
  /-- What tells it from all other timers of its table. -/
  handle : Nat
  /-- The clock reading from which on it may expire. -/
  due : α
  deriving DecidableEq

/-- A table of timers. -/
structure Timers (α : Type) where
  /-- The armed timers, oldest first. -/
  armed : List (Timer α)
  /-- How many timers were ever armed. -/
  issued : Nat

namespace Timers

/-- What can be seen of timers from outside. -/
inductive Event (α : Type) where
  /-- A timer was armed with this delay. -/
  | armed (delay : α)
  /-- An armed timer was cancelled. -/
  | cancelled
  /-- A timer expired at this clock reading. -/
  | expired (clock : α)

variable {α : Type}

/-- The table without timers. -/
def empty : Timers α :=
  ⟨[], 0⟩

/-- The handle of the next timer to be armed. -/
def nextHandle (timers : Timers α) : Nat :=
  timers.issued

/-- Arm a timer that is due at a clock reading. -/
def arm (timers : Timers α) (due : α) : Timers α where
  armed := timers.armed ++ [⟨timers.nextHandle, due⟩]
  issued := timers.issued + 1

/-- Take a timer from the table. -/
def remove (timers : Timers α) (handle : Nat) : Timers α :=
  { timers with
    armed := timers.armed.filter fun timer => timer.handle != handle }

@[simp] theorem armed_empty : (empty : Timers α).armed = [] := rfl

@[simp] theorem armed_arm (timers : Timers α) (due : α) :
    (timers.arm due).armed = timers.armed ++ [⟨timers.issued, due⟩] := rfl

@[simp] theorem mem_armed_remove
    (timers : Timers α)
    (handle : Nat)
    (timer : Timer α) :
    timer ∈ (timers.remove handle).armed ↔
      timer ∈ timers.armed ∧ timer.handle ≠ handle := by
  simp [remove]

variable [Arithmetic α]

/-- The earlier of two timers, and the first of them on a tie. -/
def sooner (first second : Timer α) : Timer α :=
  if second.due < first.due then second else first

/-- The earliest of some timers, and the oldest of them on a tie. -/
def earliest? : List (Timer α) → Option (Timer α)
  | [] => none
  | first :: rest => some (rest.foldl sooner first)

/-- The timer that expires first when the clock advances to a reading. -/
def nextDue? (timers : Timers α) (clock : α) : Option (Timer α) :=
  earliest? (timers.armed.filter fun timer => timer.due ≤ clock)

/-- A due time put into its place among ones in descending order. -/
def insertDue (due : α) : List α → List α
  | [] => [due]
  | last :: rest =>
    if due < last then last :: insertDue due rest else due :: last :: rest

/-- The due times of the armed timers in ascending order. -/
def dueTimes (timers : Timers α) : List α :=
  (timers.armed.foldl (fun sorted timer => insertDue timer.due sorted) []).reverse

end Timers
end Backpressure
