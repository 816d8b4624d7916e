import DeskCalc.Number.Power

/-!
# Doubles as integers times powers of two

A finite double is exactly `± mantissa · 2 ^ exponent`.  Decoding its bits gives this exact value;
`nearest` goes the other way and gives the double closest to a quotient of two natural numbers.
Everything that reads or writes numbers is built on these two.
-/

namespace DeskCalc.Number

/-- The magnitude of a finite double, `mantissa · 2 ^ exponent`. -/
structure Binary where
  mantissa : Nat
  exponent : Int
deriving Repr, DecidableEq

/-- The sign bit. -/
def signBit (x : Float) : Bool :=
  x.toBits.toNat / twoTo 63 == 1

/-- The magnitude of a finite double.  Infinities and NaN have none and must be told apart
before. -/
def magnitude (x : Float) : Binary :=
  let bits : Nat := x.toBits.toNat
  let low : Nat := bits % twoTo 52
  let field : Nat := bits / twoTo 52 % twoTo 11
  if field = 0 then ⟨low, -1074⟩ else ⟨twoTo 52 + low, (field : Int) - 1075⟩

/-- Numerator of the magnitude as a quotient. -/
def Binary.num (b : Binary) : Nat :=
  b.mantissa * twoTo b.exponent.toNat

/-- Denominator of the magnitude as a quotient. -/
def Binary.den (b : Binary) : Nat :=
  twoTo (-b.exponent).toNat

/-- The exact value of a finite double as a signed numerator over `(magnitude x).den`. -/
def signedNum (x : Float) : Int :=
  if signBit x then -((magnitude x).num : Int) else (magnitude x).num

/-- The quotient rounded to the nearest natural number, a half to the even neighbour. -/
def halfEven (num den : Nat) : Nat :=
  let q := num / den
  let twice := 2 * (num % den)
  if twice < den then q
  else if den < twice then q + 1
  else q + q % 2

/-- The quotient rounded to the nearest natural number, a half upwards. -/
def halfUp (num den : Nat) : Nat :=
  (2 * num + den) / (2 * den)

/-- The bits of positive infinity. -/
def infinityBits : Nat :=
  2047 * twoTo 52

/-- The power of two that a quotient's mantissa of at most 53 bits is counted in, where the
subnormal doubles set the least one. -/
def mantissaExponent (num den : Nat) : Int :=
  let guess : Int := (num.log2 : Int) - den.log2 - 52
  let fits := twoTo 52 * (den * twoTo guess.toNat) ≤ num * twoTo (-guess).toNat
  max (if fits then guess else guess - 1) (-1074)

/-- The bits of the double nearest to `num / den`.  A mantissa that is rounded up to the next
power of two carries into the exponent, and past the largest double lies infinity. -/
def nearestBits (num den : Nat) : Nat :=
  if num = 0 then 0
  else
    let q := mantissaExponent num den
    let m := halfEven (num * twoTo (-q).toNat) (den * twoTo q.toNat)
    min ((q + 1074).toNat * twoTo 52 + m) infinityBits

/-- The double nearest to `± num / den`; of two equally near ones the one with the even
mantissa. -/
def nearest (negative : Bool) (num den : Nat) : Float :=
  Float.ofBits (UInt64.ofNat (nearestBits num den + if negative then twoTo 63 else 0))

/-- The double nearest to an integer, if the integer is not beyond all of them. -/
def ofInt? (n : Int) : Option Float :=
  let x := nearest (n < 0) n.natAbs 1
  if x.isFinite then some x else none

/-- The double nearest to a quotient of natural numbers, if it is not beyond all of them. -/
def ofQuotient? (num den : Nat) : Option Float :=
  let x := nearest false num den
  if x.isFinite then some x else none

/-- The double nearest to `± digits · 10 ^ exponent`.  Exponents at which the result can only be
infinite or zero are not raised to a power. -/
def ofDecimal (negative : Bool) (digits : Nat) (exponent : Int) : Float :=
  if digits = 0 then nearest negative 0 1
  else if 400 < exponent then nearest negative (tenTo 400) 1
  else if exponent + (digits.log2 / 3 + 1 : Nat) < -400 then nearest negative 0 1
  else nearest negative (digits * tenTo exponent.toNat) (tenTo (-exponent).toNat)

/-- The largest integer that does not exceed a finite double. -/
def floorInt (x : Float) : Int :=
  signedNum x / ((magnitude x).den : Int)

/-- The smallest integer that a finite double does not exceed. -/
def ceilInt (x : Float) : Int :=
  -(-signedNum x / ((magnitude x).den : Int))

/-- The integer part of the magnitude of a finite double. -/
def wholePart (x : Float) : Nat :=
  (magnitude x).num / (magnitude x).den

/-- An integer that came from a double, as a double again. -/
def ofInt (n : Int) : Float :=
  nearest (n < 0) n.natAbs 1

/-- The constant NaN. -/
def notANumber : Float :=
  0.0 / 0.0

/-- Positive infinity. -/
def infinity : Float :=
  1.0 / 0.0

end DeskCalc.Number
