import Backpressure.Binary64

/-!
# Interchange words

The 64-bit word of a double: a sign bit, eleven bits of biased exponent, and
the fraction of the significand in the low 52 bits.
-/

namespace Backpressure
namespace Binary64

/-- The number of fractions: 52 bits. -/
def fractionSize : Nat := 4503599627370496

/-- The word of the positive infinity: all exponent bits are set. -/
def infinityWord : Nat := 9218868437227405312

/-- The word of what is not a number: the highest fraction bit is set too. -/
def nanWord : Nat := 9221120237041090560

/-- The sign bit. -/
def signWord : Nat := 9223372036854775808

/-- The word without its sign bit for a finite magnitude.  Below the smallest
normal number the exponent bits are zero and the fraction counts units of the
smallest subnormal number. -/
def magnitudeWord (value : Rat) : Nat :=
  if value = 0 then 0
  else
    let exponent := binaryExponent value
    if exponent < -1022 then
      (value * (2 : Rat) ^ (1074 : Int)).floor.toNat
    else
      let significand := (value * (2 : Rat) ^ (52 - exponent)).floor.toNat
      (exponent + 1023).toNat * fractionSize + (significand - fractionSize)

/-- The interchange word of a double. -/
def toWord (value : Binary64) : Nat :=
  let sign := if value.isNegative then signWord else 0
  match value with
  | nan => nanWord
  | infinity _ => sign + infinityWord
  | finite value => sign + magnitudeWord (magnitude value)
  | negativeZero => sign

end Binary64
end Backpressure
