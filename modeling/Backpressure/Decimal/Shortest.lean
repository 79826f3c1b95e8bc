import Backpressure.Binary64

/-!
# Shortest decimals

A double is written with the fewest significant digits that still read back as
the same double.  Among decimals of that length that do, the nearest one is
taken.
-/

namespace Backpressure

/-- A decimal `digits * 10 ^ exponent`. -/
structure Decimal where
  /-- The significant digits as one whole number. -/
  digits : Nat
  /-- The power of ten that scales them. -/
  exponent : Int
  deriving DecidableEq, Repr

namespace Decimal

/-- The exact value of a decimal. -/
def value (decimal : Decimal) : Rat :=
  decimal.digits * (10 : Rat) ^ decimal.exponent

/-- The number of decimal digits of a whole number. -/
def digitCount (number : Nat) : Nat :=
  (Nat.toDigits 10 number).length

/-- The exponent of the power of ten at or below a positive rational. -/
def leadingExponent (value : Rat) : Int :=
  if 1 ≤ value then (digitCount value.floor.toNat : Int) - 1
  else -(digitCount ((1 / value).ceil.toNat - 1) : Int)

/-- Whether a decimal rounds to the double of this positive value. -/
def readsBack (value : Rat) (decimal : Decimal) : Bool :=
  decide (Binary64.round decimal.value = Binary64.finite value)

/-- The nearest decimal with a given number of significant digits that reads
back as a positive value.  Only the two neighbours of the value on that grid
can be it. -/
def ofLength? (value : Rat) (length : Nat) : Option Decimal :=
  let exponent := leadingExponent value + 1 - length
  let below : Decimal :=
    ⟨(value / (10 : Rat) ^ exponent).floor.toNat, exponent⟩
  let above : Decimal := ⟨below.digits + 1, exponent⟩
  match readsBack value below, readsBack value above with
  | false, false => none
  | true, false => some below
  | false, true => some above
  | true, true =>
    let belowGap := value - below.value
    let aboveGap := above.value - value
    if belowGap < aboveGap then some below
    else if aboveGap < belowGap then some above
    else if below.digits % 2 = 0 then some below
    else some above

/-- The same decimal without trailing zeros among its digits. -/
def withoutTrailingZeros (decimal : Decimal) : Decimal :=
  if decimal.digits ≠ 0 ∧ decimal.digits % 10 = 0 then
    withoutTrailingZeros ⟨decimal.digits / 10, decimal.exponent + 1⟩
  else decimal
  termination_by decimal.digits
  decreasing_by omega

/-- The shortest decimal that reads back as the double of a positive value;
seventeen digits always suffice. -/
def shortest (value : Rat) : Decimal :=
  let found := (List.range 17).findSome? fun index =>
    ofLength? value (index + 1)
  (found.getD ⟨0, 0⟩).withoutTrailingZeros

end Decimal
end Backpressure
