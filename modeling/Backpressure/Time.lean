import Backpressure.Arithmetic

/-!
# Time

Clock readings are milliseconds on a clock that need not be whole, and may
even run backwards; spans between readings are whole and never negative.
-/

namespace Backpressure

/-- A reading of a monotonic clock in seconds and nanoseconds. -/
structure Timestamp (α : Type) where
  /-- The seconds. -/
  seconds : α
  /-- The nanoseconds beyond them. -/
  nanoseconds : α

namespace Time

variable {α : Type} [Arithmetic α]

/-- The whole milliseconds from one reading to a later one, and none if the
later reading comes first. -/
def elapsed (earlier later : α) : α :=
  Arithmetic.larger 0 (Arithmetic.floor (later - earlier))

end Time

namespace Timestamp

variable {α : Type} [Arithmetic α]

/-- The timestamp as milliseconds. -/
def toMilliseconds (stamp : Timestamp α) : α :=
  stamp.seconds * 1000 + stamp.nanoseconds / 1000000

/-- The timestamp, to the nanosecond, of a reading in milliseconds. -/
def ofMilliseconds (reading : α) : Timestamp α :=
  let seconds := Arithmetic.floor (reading / 1000)
  { seconds
    nanoseconds := Arithmetic.nearest ((reading - seconds * 1000) * 1000000) }

end Timestamp
end Backpressure
