import Backpressure.Decimal.Shortest

/-!
# Text of numbers

How numbers appear in messages: by default in the shortest decimal that reads
back, positional in a middle range and scientific outside it, or with a fixed
number of places.
-/

namespace Backpressure
namespace Decimal

/-- Where positional notation ends. -/
structure Layout where
  /-- The longest whole part that is written out. -/
  wholeDigits : Nat
  /-- The most zeros between the point and the first significant digit. -/
  leadingZeros : Nat

/-- Whole parts have up to 21 digits, and up to five zeros may follow the
point before the digits begin. -/
def Layout.standard : Layout :=
  ⟨21, 5⟩

/-- A run of zeros. -/
def zeros (count : Nat) : String :=
  String.ofList (List.replicate count '0')

/-- The digits with a point after the first `place` of them, and no point if
no digit follows it. -/
def pointAfter (place : Nat) (digits : String) : String :=
  let whole := String.ofList (digits.toList.take place)
  let fraction := String.ofList (digits.toList.drop place)
  if fraction.isEmpty then whole else whole ++ "." ++ fraction

/-- The power of ten of scientific notation, always with its sign. -/
def exponentText (exponent : Int) : String :=
  let sign := if exponent < 0 then "-" else "+"
  "e" ++ sign ++ toString exponent.natAbs

/-- A decimal in a given notation. -/
def write (layout : Layout) (decimal : Decimal) : String :=
  let digits := toString decimal.digits
  let point : Int := digits.length + decimal.exponent
  if 0 < point ∧ point ≤ layout.wholeDigits then
    pointAfter point.toNat
      (digits ++ zeros (point.toNat - digits.length))
  else if point ≤ 0 ∧ -point ≤ layout.leadingZeros then
    "0." ++ zeros (-point).toNat ++ digits
  else
    pointAfter 1 digits ++ exponentText (point - 1)

/-- A nonnegative value with a fixed number of places; a half goes up. -/
def writeFixed (places : Nat) (value : Rat) : String :=
  let units := (value * (10 : Rat) ^ (places : Int) + 1 / 2).floor.toNat
  let digits := toString units
  let padded := zeros (places + 1 - digits.length) ++ digits
  pointAfter (padded.length - places) padded

end Decimal

namespace Binary64

/-- The default text of a double.  Both zeros are written alike. -/
def text : Binary64 → String
  | nan => "NaN"
  | infinity negative => if negative then "-Infinity" else "Infinity"
  | negativeZero => "0"
  | finite value =>
    if value = 0 then "0"
    else
      let sign := if value < 0 then "-" else ""
      sign ++ (Decimal.shortest (magnitude value)).write Decimal.Layout.standard

/-- The text of a double with a fixed number of places, where a half goes
away from zero and a negative value keeps its sign.  From `10 ^ 21` on, and
without a finite value, it is the default text. -/
def fixedText (places : Nat) (number : Binary64) : String :=
  match number with
  | finite value =>
    if (10 : Rat) ^ (21 : Int) ≤ magnitude value then number.text
    else
      let sign := if value < 0 then "-" else ""
      sign ++ Decimal.writeFixed places (magnitude value)
  | negativeZero => Decimal.writeFixed places 0
  | other => other.text

end Binary64
end Backpressure
