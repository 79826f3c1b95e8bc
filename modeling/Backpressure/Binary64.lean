/-!
# Binary floating-point doubles

A double is plain data: a rational value, one of the two infinities, the
negative zero, or not a number.  Every operation computes its exact rational
result first and rounds it once, to the nearest value of 53 significant bits,
so that facts about doubles reduce to facts about rationals and `round`.
-/

namespace Backpressure

/-- A double-precision number. -/
inductive Binary64 where
  /-- The result of an operation without a value. -/
  | nan
  /-- An infinity with its sign. -/
  | infinity (negative : Bool)
  /-- A finite value; the rational zero stands for the positive zero. -/
  | finite (value : Rat)
  /-- The zero that counts as negative in products and quotients. -/
  | negativeZero
  deriving DecidableEq

namespace Binary64

/-- The magnitude of a rational. -/
def magnitude (value : Rat) : Rat :=
  if value < 0 then -value else value

/-- The zero of a given sign. -/
def zero (negative : Bool) : Binary64 :=
  if negative then negativeZero else finite 0

/-! ## Rounding -/

/-- The exponent of the power of two at or below a positive rational. -/
def binaryExponent (value : Rat) : Int :=
  let estimate : Int := (value.num.natAbs.log2 : Int) - (value.den.log2 : Int)
  if (2 : Rat) ^ estimate ≤ value then estimate else estimate - 1

/-- The nearest whole number, where a half goes to the even neighbour. -/
def nearestEven (value : Rat) : Int :=
  let below := value.floor
  let rest := value - below
  if rest < 1 / 2 then below
  else if 1 / 2 < rest then below + 1
  else if below % 2 = 0 then below
  else below + 1

/-- The spacing of doubles around a positive rational: 53 significant bits,
and never finer than the smallest subnormal number. -/
def spacing (value : Rat) : Rat :=
  let exponent := binaryExponent value - 52
  if exponent < -1074 then (2 : Rat) ^ (-1074 : Int) else (2 : Rat) ^ exponent

/-- Magnitudes from here on round to an infinity. -/
def overflow : Rat :=
  (2 : Rat) ^ (1024 : Int)

/-- The double nearest to a rational.  Ties go to the even neighbour, a
result too large becomes an infinity, and a negative rational that vanishes
becomes the negative zero. -/
def round (value : Rat) : Binary64 :=
  if value = 0 then finite 0
  else
    let unit := spacing (magnitude value)
    let rounded := (nearestEven (value / unit) : Rat) * unit
    if overflow ≤ magnitude rounded then infinity (value < 0)
    else if rounded = 0 then zero (value < 0)
    else finite rounded

/-! ## Views -/

/-- The rational value of a number; numbers without one count as zero. -/
def toRat : Binary64 → Rat
  | finite value => value
  | _ => 0

/-- Whether the sign of a number is negative. -/
def isNegative : Binary64 → Bool
  | nan => false
  | infinity negative => negative
  | finite value => value < 0
  | negativeZero => true

@[simp] theorem toRat_finite (value : Rat) :
    (finite value).toRat = value := rfl

@[simp] theorem toRat_negativeZero : negativeZero.toRat = 0 := rfl

@[simp] theorem toRat_zero (negative : Bool) : (zero negative).toRat = 0 := by
  cases negative <;> rfl

@[simp] theorem round_zero : round 0 = finite 0 := by
  simp [round]

/-! ## Operations -/

/-- The number of the same magnitude and the other sign. -/
def negate : Binary64 → Binary64
  | nan => nan
  | infinity negative => infinity (!negative)
  | finite value => if value = 0 then negativeZero else finite (-value)
  | negativeZero => finite 0

/-- The rounded sum.  Infinities of different signs have none, and only two
negative zeros sum up to the negative zero. -/
def add : Binary64 → Binary64 → Binary64
  | nan, _ | _, nan => nan
  | infinity first, infinity second =>
    if first = second then infinity first else nan
  | infinity negative, _ | _, infinity negative => infinity negative
  | negativeZero, negativeZero => negativeZero
  | first, second => round (first.toRat + second.toRat)

/-- The rounded difference. -/
def subtract (first second : Binary64) : Binary64 :=
  first.add second.negate

/-- The rounded product.  An infinity times zero has none, and a zero takes
the sign of the product. -/
def multiply (first second : Binary64) : Binary64 :=
  let negative := first.isNegative != second.isNegative
  match first, second with
  | nan, _ | _, nan => nan
  | infinity _, infinity _ => infinity negative
  | infinity _, finite value | finite value, infinity _ =>
    if value = 0 then nan else infinity negative
  | infinity _, negativeZero | negativeZero, infinity _ => nan
  | _, _ =>
    let product := first.toRat * second.toRat
    if product = 0 then zero negative else round product

/-- The rounded quotient.  Two zeros and two infinities have none, and any
other number divided by zero is an infinity. -/
def divide (first second : Binary64) : Binary64 :=
  let negative := first.isNegative != second.isNegative
  match first, second with
  | nan, _ | _, nan => nan
  | infinity _, infinity _ => nan
  | infinity _, _ => infinity negative
  | _, infinity _ => zero negative
  | _, _ =>
    if second.toRat = 0 then
      if first.toRat = 0 then nan else infinity negative
    else if first.toRat = 0 then zero negative
    else round (first.toRat / second.toRat)

/-- Equality of values: the zeros are equal, and what is not a number
differs from everything. -/
def equal : Binary64 → Binary64 → Bool
  | nan, _ | _, nan => false
  | infinity first, infinity second => first == second
  | infinity _, _ | _, infinity _ => false
  | first, second => decide (first.toRat = second.toRat)

/-- Strict order of values; what is not a number compares to nothing. -/
def less : Binary64 → Binary64 → Bool
  | nan, _ | _, nan => false
  | infinity first, infinity second => first && !second
  | infinity negative, _ => negative
  | _, infinity negative => !negative
  | first, second => first.toRat < second.toRat

/-- Weak order of values. -/
def lessOrEqual (first second : Binary64) : Bool :=
  first.less second || first.equal second

/-- The greatest whole number not above the argument. -/
def floor : Binary64 → Binary64
  | finite value => finite value.floor
  | other => other

/-- The nearest whole number, where a half goes to the greater neighbour and
a result of zero keeps the sign of the argument. -/
def nearest : Binary64 → Binary64
  | finite value =>
    let whole := (value + 1 / 2).floor
    if whole = 0 then zero (value < 0) else finite whole
  | other => other

/-- The smaller number; the negative zero is below the positive one, and
what is not a number prevails. -/
def smaller : Binary64 → Binary64 → Binary64
  | nan, _ | _, nan => nan
  | first, second =>
    if first.less second then first
    else if second.less first then second
    else if first.isNegative then first
    else second

/-- The larger number, with the same conventions. -/
def larger : Binary64 → Binary64 → Binary64
  | nan, _ | _, nan => nan
  | first, second =>
    if first.less second then second
    else if second.less first then first
    else if first.isNegative then second
    else first

end Binary64
end Backpressure
