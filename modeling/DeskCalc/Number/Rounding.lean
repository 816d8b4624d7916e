import DeskCalc.Attempt
import DeskCalc.Number.Binary

/-!
# Rounding doubles

Halves are rounded upwards, towards positive infinity.  The half is added in doubles and the floor
of the sum is exact.
-/

namespace DeskCalc.Number

/-- The integer nearest to `x`, a half upwards; infinities and NaN stay as they are. -/
def roundHalfUp (x : Float) : Float :=
  if x.isFinite then ofInt (floorInt (x + 0.5)) else x

/-- `10 ^ places` as a double. -/
def tenPower (places : Nat) : Float :=
  nearest false (tenTo places) 1

/-- `x` rounded at `places` decimals: scaled, rounded half up and scaled back, each in doubles. -/
def roundScaled (x : Float) (places : Nat) : Float :=
  roundHalfUp (x * tenPower places) / tenPower places

/-- `x` rounded at `places` decimals.  There is no double for the scale beyond 308 places. -/
def roundTo (x : Float) (places : Nat) : Except Fault Float :=
  if places = 0 then .ok (roundHalfUp x)
  else if 308 < places then .error .tooLarge
  else .ok (roundScaled x places)

end DeskCalc.Number
