import Backpressure.Arithmetic

/-!
# Counting bytes

Byte positions live on a ring of `2 ^ 32` values, so that a counter may wrap
any number of times.  The same questions have a plain answer on unbounded
totals, against which the ring can be compared.
-/

namespace Backpressure

/-- How byte positions are counted. -/
inductive Counting where
  /-- Modulo `2 ^ 32`. -/
  | wrapping
  /-- As totals that never wrap. -/
  | unbounded
  deriving DecidableEq, Repr

namespace Counting

/-- Positions less than this many bytes apart have an order on the ring. -/
def halfRing : Nat := 2147483648

variable {α : Type} [Arithmetic α]

/-- The position that a byte total stands for. -/
def position (counting : Counting) (total : α) : α :=
  match counting with
  | wrapping => Arithmetic.residue total
  | unbounded => total

/-- The bytes from an earlier position forward to a later one. -/
def distance (counting : Counting) (later earlier : α) : α :=
  counting.position (later - earlier)

/-- Whether the first position is ahead of the second.  On the ring, that is
by a positive distance below half a turn. -/
def isAfter (counting : Counting) (first second : α) : Bool :=
  match counting with
  | wrapping =>
    let ahead := wrapping.distance first second
    ahead != 0 && decide (ahead < (halfRing : α))
  | unbounded => decide (second < first)

@[simp] theorem position_unbounded (total : α) :
    unbounded.position total = total := rfl

@[simp] theorem distance_unbounded (later earlier : α) :
    unbounded.distance later earlier = later - earlier := rfl

@[simp] theorem isAfter_unbounded (first second : α) :
    unbounded.isAfter first second = decide (second < first) := rfl

end Counting
end Backpressure
