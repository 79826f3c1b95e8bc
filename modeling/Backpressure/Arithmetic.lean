/-!
# Arithmetic for clocks, positions and windows

The controller computes with times, byte positions and byte counts.  It is
written once, over any type of numbers with the operations collected here, and
runs on two of them: the rationals, where every operation is exact, and the
binary floating-point doubles of `Backpressure.Binary64`, where every operation
rounds.
-/

namespace Backpressure

/-- Numbers a controller can compute with.  No law is required: rounding
breaks most of them, and exact statements are made over `Rat`. -/
class Arithmetic (α : Type) extends
    Add α, Sub α, Mul α, Div α, NatCast α, BEq α, LT α, LE α where
  /-- A numeral denotes the number it spells. -/
  literal (value : Nat) : OfNat α value
  /-- Strict comparison is decidable. -/
  decidableLT : DecidableLT α
  /-- Weak comparison is decidable. -/
  decidableLE : DecidableLE α
  /-- The greatest whole number that is not above the argument. -/
  floor : α → α
  /-- The nearest whole number, where a half goes to the greater neighbour. -/
  nearest : α → α
  /-- The argument without its fraction, reduced to its residue modulo
  `2 ^ 32`. -/
  residue : α → α
  /-- The smaller of two numbers. -/
  smaller : α → α → α
  /-- The larger of two numbers. -/
  larger : α → α → α

attribute [reducible, instance] Arithmetic.literal Arithmetic.decidableLT
  Arithmetic.decidableLE

namespace Arithmetic

/-- The number of positions on the ring of 32-bit byte counters. -/
def ringSize : Nat := 4294967296

/-- The whole part of a rational, rounding towards zero. -/
def truncate (value : Rat) : Int :=
  value.num.tdiv value.den

/-- The residue of a rational's whole part modulo the ring's size. -/
def ringResidue (value : Rat) : Int :=
  truncate value % ringSize

/-- The residue lies on the ring. -/
theorem ringResidue_bounds (value : Rat) :
    0 ≤ ringResidue value ∧ ringResidue value < 4294967296 := by
  unfold ringResidue ringSize
  omega

/-- Exact arithmetic: no operation rounds. -/
instance exact : Arithmetic Rat where
  literal _ := inferInstance
  decidableLT := inferInstance
  decidableLE := inferInstance
  floor value := (value.floor : Rat)
  nearest value := ((value + 1 / 2).floor : Rat)
  residue value := (ringResidue value : Rat)
  smaller first second := if first ≤ second then first else second
  larger first second := if first ≤ second then second else first

end Arithmetic
end Backpressure
