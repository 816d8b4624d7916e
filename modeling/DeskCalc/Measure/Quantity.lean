import DeskCalc.Attempt
import DeskCalc.Measure.Token
import DeskCalc.Number.Reader
import DeskCalc.Text.Shape

/-!
# Written quantities

A quantity is a number followed by a unit.  The number may be a decimal, a fraction, or a whole
number with a fraction behind it.
-/

namespace DeskCalc.Measure

open Text (Shape)

/-- The characters of unit names: letters, hyphens and raised digits. -/
def isUnitChar (c : Char) : Bool :=
  Text.isLetter c || c == '-' || c == '²' || c == '³'

/-- The characters of unit names and the micro sign. -/
def isMicroUnitChar (c : Char) : Bool :=
  isUnitChar c || c == 'µ'

/-- The characters of unit names, with letters in either case. -/
def isUnitCharAnyCase (c : Char) : Bool :=
  Text.isLetterAnyCase c || c == '-' || c == '²' || c == '³'

/-- A decimal number: digits, and perhaps a point with further digits. -/
def decimal : Shape Number.Numeral := do
  let whole ← Shape.digits
  let fraction ← Shape.opt do
    let _ ← Shape.char '.'
    Shape.digits
  return ⟨whole, fraction.getD [], 0⟩

/-- A decimal as it was written. -/
def decimalText (n : Number.Numeral) : Text :=
  if n.fraction.isEmpty then n.whole else n.whole ++ '.' :: n.fraction

/-- Numerator and denominator. -/
def fraction : Shape (Text × Text) := do
  let numerator ← Shape.digits
  let _ ← Shape.char '/'
  let denominator ← Shape.digits
  return (numerator, denominator)

/-- A unit's name, up to the end of the text. -/
def unitToEnd : Shape Text := do
  let unit ← Shape.run1 isMicroUnitChar
  Shape.atEnd
  return unit

/-- A whole number, a fraction and a unit. -/
def mixedFractionQuantity : Shape (Text × (Text × Text) × Text) := do
  let whole ← Shape.digits
  let _ ← Shape.blanks1
  let parts ← fraction
  let _ ← Shape.blanks1
  let unit ← unitToEnd
  return (whole, parts, unit)

/-- A fraction and a unit. -/
def fractionQuantity : Shape ((Text × Text) × Text) := do
  let parts ← fraction
  let _ ← Shape.blanks
  let unit ← unitToEnd
  return (parts, unit)

/-- A decimal number and a unit. -/
def decimalQuantity : Shape (Number.Numeral × Text) := do
  let n ← decimal
  let _ ← Shape.blanks
  let unit ← unitToEnd
  return (n, unit)

/-- Digits as a natural number. -/
def natural (digits : Text) : Attempt Nat :=
  Attempt.orBreak .tooLong (Number.readNat? digits)

/-- The number that a fraction denotes, if its denominator is not zero. -/
def fractionValue (parts : Text × Text) : Attempt Float := do
  let denominator ← natural parts.2
  Attempt.require (denominator ≠ 0)
  let numerator ← natural parts.1
  Attempt.orBreak .tooLarge (Number.ofQuotient? numerator denominator)

/-- The number that a whole number with a fraction denotes. -/
def mixedFractionValue (whole : Text) (parts : Text × Text) : Attempt Float := do
  let denominator ← natural parts.2
  Attempt.require (denominator ≠ 0)
  let whole ← natural whole
  let quotient ← fractionValue parts
  let whole ← Attempt.orBreak .tooLarge (Number.ofInt? whole)
  return whole + quotient

end DeskCalc.Measure
