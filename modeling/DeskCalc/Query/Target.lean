import DeskCalc.Measure.Quantity

/-!
# Targets of conversions

A conversion ends in a keyword and a target.  Keywords and the letters of units may be written in
either case.
-/

namespace DeskCalc.Query

open Text (Shape)

/-- A keyword between blanks. -/
def keyword (w : String) : Shape Unit := do
  let _ ← Shape.blanks1
  let _ ← Shape.word w.toList
  let _ ← Shape.blanks1
  return ()

/-- A unit at the end of the text, its letters in either case. -/
def targetUnit : Shape Text := do
  let unit ← Shape.run1 Measure.isUnitCharAnyCase
  Shape.atEnd
  return unit

/-- The characters of targets that may also be speeds or begin with a micro sign. -/
def isTargetChar (c : Char) : Bool :=
  Measure.isUnitCharAnyCase c || Text.letterKey c == 'µ' || c == '/'

/-- Any character but a line break. -/
def isOnLine (c : Char) : Bool :=
  c ≠ '\n'

/-- Anything on one line, a keyword and a target: what is to be converted, and into what. -/
def conversionTo (w : String) : Shape (Text × Text) := do
  let value ← Shape.many1 isOnLine
  keyword w
  let target ← Shape.run1 isTargetChar
  Shape.atEnd
  return (value, target)

end DeskCalc.Query
