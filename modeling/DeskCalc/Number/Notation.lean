import DeskCalc.Attempt
import DeskCalc.Number.Layout

/-!
# Fixed places and significant digits

Both notations round the exact value of a double, a half away from zero.
-/

namespace DeskCalc.Number

/-- The digits of `k` with the last `places` of them after a point. -/
def withPlaces (k places : Nat) : Text :=
  let digits := natText k
  let padded := zeros (places + 1 - digits.length) ++ digits
  if places = 0 then padded
  else padded.take (padded.length - places) ++ '.' :: padded.drop (padded.length - places)

/-- A number with a fixed number of decimals.  From `1e21` on, and where a number is not finite,
its shortest text takes that place. -/
def fixed (x : Float) (places : Nat) : Text :=
  if !x.isFinite || x.abs ≥ 1e21 then numberText x
  else
    let b := magnitude x
    signed (x < 0) (withPlaces (halfUp (b.num * tenTo places) b.den) places)

/-- A number rounded to a multiple of `10 ^ dropped`, where that many digits before the point are
dropped.  Of a number that is written out no more than twenty-one stand there. -/
def rounded (x : Float) (dropped : Nat) : Text :=
  if !x.isFinite || x.abs ≥ 1e21 then numberText x
  else
    let b := magnitude x
    let k := halfUp b.num (b.den * tenTo (min dropped 22))
    signed (x < 0) (if k = 0 then ['0'] else natText k ++ zeros dropped)

/-- The most digits of a number that are worked out. -/
def exactDigits : Nat := 1100

/-- The highest power of ten at which a decimal may have its leading digit. -/
def highestPower : Nat := 999999

/-- The most places by which a decimal may be shifted. -/
def shiftLimit : Nat :=
  2 * (highestPower + exactDigits)

/-- The most zeros that zero is given after the point. -/
def zeroPlaces : Nat :=
  highestPower + exactDigits - 1

/-- A shift by so many places is refused if it is too far, or if it puts the leading digit at a
power of ten that is too high. -/
def checkShift (places power : Int) : Except Fault Unit :=
  if shiftLimit < places.natAbs then .error .tooPrecise
  else if highestPower < power then .error .tooHigh
  else .ok ()

/-- A number with a fixed number of decimals, or of zeros before the point if that is negative. -/
def fixedAt (x : Float) (places : Int) : Except Fault Text :=
  if !x.isFinite || x.abs ≥ 1e21 then .ok (numberText x)
  else do
    checkShift places (-places)
    let b := magnitude x
    if x != 0 && exactDigits < leadingPower b.num b.den + 1 + places then throw .tooPrecise
    return if places < 0 then rounded x places.natAbs else fixed x (min places.toNat zeroPlaces)

/-- The quotient rounded to `count` significant digits: those digits and the power of ten of the
first one, which grows when rounding carries. -/
def significantDigits (num den count : Nat) : Nat × Int :=
  let round (power : Int) : Nat :=
    let shift := (count : Int) - 1 - power
    halfUp (num * tenTo shift.toNat) (den * tenTo (-shift).toNat)
  let power := leadingPower num den
  let k := round power
  if tenTo count ≤ k then (round (power + 1), power + 1) else (k, power)

/-- A number with a fixed count of significant digits, with an exponent where its leading digit
stands below `1e-6` or left of all the digits shown. -/
def significant (x : Float) (count : Nat) : Text :=
  if !x.isFinite then numberText x
  else if x == 0 then
    if count = 1 then ['0'] else '0' :: '.' :: zeros (count - 1)
  else
    let b := magnitude x
    let (k, power) := significantDigits b.num b.den count
    let digits := natText k
    signed (x < 0) <|
      if power < -6 ∨ (count : Int) ≤ power then scientific 1 digits power
      else positional false digits power

/-- A number with a fixed count of significant digits, if they can be worked out. -/
def significantAt (x : Float) (count : Nat) : Except Fault Text :=
  if !x.isFinite || x == 0 then .ok (significant x count)
  else do
    let b := magnitude x
    let power : Int := count - 1
    checkShift (power - leadingPower b.num b.den) power
    if exactDigits < count then throw .tooPrecise
    return significant x count

end DeskCalc.Number
