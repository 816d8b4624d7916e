import DeskCalc.Attempt
import DeskCalc.Number.Layout
import DeskCalc.Number.Reader

/-!
# Sums of decimals

Numbers that a user has typed are added as the decimals they show, not as the doubles that stand
for them, so that `0.1 + 0.2` is exactly `0.3`.
-/

namespace DeskCalc.Number

/-- The decimal that the shortest text of a finite number shows; zero has no digits. -/
def shownDecimal (x : Float) : Decimal :=
  if x == 0 then ⟨0, 0⟩ else shortest x

/-- The number of decimals after the point. -/
def Decimal.places (d : Decimal) : Nat :=
  (-d.exponent).toNat

/-- The decimal counted in units of `10 ^ -width`, for a width of at least its places. -/
def Decimal.scaledBy (d : Decimal) (width : Nat) : Nat :=
  d.digits * tenTo (d.exponent + width).toNat

/-- The number of digits before the point, at least one. -/
def Decimal.wholeLength (d : Decimal) : Nat :=
  (digitsIn 10 (d.digits * tenTo d.exponent.toNat / tenTo d.places)).length

/-- The signed amount of a number in units of `10 ^ -width`, given the decimal that it shows. -/
def signedAmount (x : Float) (d : Decimal) (width : Nat) : Int :=
  if x < 0 then -(d.scaledBy width : Int) else d.scaledBy width

/-- A total in units of `10 ^ -width` as a number, unless it has too many digits. -/
def ofTotal (total : Int) (width : Nat) : Except Fault Float :=
  if digitLimit < (digitsIn 10 total.natAbs).length then .error .tooLong
  else .ok (ofDecimal (total < 0) total.natAbs (-width))

/-- The number of decimals that are shown of a number, if it is finite. -/
def shownPlaces (x : Float) : Nat :=
  if x.isFinite then (shownDecimal x).places else 0

/-- A sum is refused if it would be wider than any text can be, or if its width has no number of 64
bits. -/
def checkWidth (width : Nat) : Except Fault Unit :=
  if twoTo 63 ≤ width then .error .tooLarge
  else if twoTo 40 ≤ width then .error .noRoom
  else .ok ()

/-- The sum of two finite numbers in units of `10 ^ -width`, for a width of at least their
places. -/
def sumAt (width : Nat) (a b : Float) : Except Fault Float :=
  let da := shownDecimal a
  let db := shownDecimal b
  if digitLimit < max da.wholeLength db.wholeLength + width then .error .tooLong
  else ofTotal (signedAmount a da width + signedAmount b db width) width

/-- The sum of two numbers as decimals, and the larger of their precisions.  A precision that is
not given is the number of decimals shown; one that is given only adds zeros. -/
def decimalAdd (a b : Float) (precisionA precisionB : Option Int) :
    Except Fault (Float × Int) := do
  let precision := max (precisionA.getD (shownPlaces a)) (precisionB.getD (shownPlaces b))
  let width := max precision.toNat (max (shownPlaces a) (shownPlaces b))
  checkWidth width
  if !a.isFinite || !b.isFinite then throw .notFinite
  return (← sumAt width a b, precision)

/-- The difference of two numbers as decimals. -/
def decimalSub (a b : Float) (precisionA precisionB : Option Int) :
    Except Fault (Float × Int) :=
  decimalAdd a (-b) precisionA precisionB

end DeskCalc.Number
