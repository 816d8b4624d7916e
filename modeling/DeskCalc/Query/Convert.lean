import DeskCalc.Measure.MixedSum
import DeskCalc.Query.BaseSum
import DeskCalc.Query.Outcome
import DeskCalc.Query.Target

/-!
# Queries with units

A query may ask for a quantity, a sum of quantities or a product of two lengths in another unit.
Sums are worked out first and then converted as the text that they are shown by.
-/

namespace DeskCalc.Query

open Text (Shape)

/-- Feet, inches, and the unit asked for. -/
def feetInchesShape : Shape (Text × Text × Text) := do
  let feet ← Shape.digits
  let _ ← Shape.blanks
  let _ ← Shape.char '\''
  let _ ← Shape.blanks
  let inches ← Shape.digits
  let _ ← Shape.blanks
  let _ ← Shape.char '"'
  let _ ← Shape.blanks1
  let _ ← Shape.exactly "in".toList
  let _ ← Shape.blanks1
  let target ← Measure.unitToEnd
  return (feet, inches, target)

/-- A height in feet and inches. -/
def answerFeetInches (s : Text) : Outcome :=
  match feetInchesShape.read? s with
  | none => .pass
  | some (feet, inches, target) =>
    let x := countValue feet * 12 + countValue inches
    Outcome.ofAttempt
      (Measure.convertQuantity (Measure.withUnit (Number.numberText x) ['i', 'n']) target)

/-- Two quantities with a multiplication sign between them, and the unit asked for. -/
def productShape :
    Shape ((Number.Numeral × Text) × (Number.Numeral × Text) × Text) := do
  let n ← Measure.decimal
  let _ ← Shape.blanks
  let u ← Shape.run1 Measure.isUnitCharAnyCase
  timesSign
  let m ← Measure.decimal
  let _ ← Shape.blanks
  let v ← Shape.run1 Measure.isUnitCharAnyCase
  keyword "in"
  let target ← targetUnit
  return ((n, u), (m, v), target)

/-- The product of two quantities of one dimension, in base units, shown in any unit. -/
def answerProduct (s : Text) : Outcome :=
  Outcome.ofOption do
    let ((n, u), (m, v), target) ← productShape.read? s
    let (x, d) ← Measure.toBase? n.value u
    let (y, e) ← Measure.toBase? m.value v
    if d = e then Measure.ofBase? (x * y) target else none

/-- The text of a sum as it is read again: digits and points, blanks and a unit of the class
`p`. -/
def shownSum (p : Char → Bool) : Shape (Text × Text) := do
  let amount ← Shape.run1 fun c => Text.isDigit c || c == '.'
  let _ ← Shape.blanks1
  let unit ← Shape.run1 p
  Shape.atEnd
  return (amount, unit)

/-- A sum of quantities, times a number, in another unit.  A sum whose amount is negative or has an
exponent, or whose base unit has a slash, is not read again. -/
def convertSum (sum target : Text) (multiplier : Float) : Attempt Text := do
  let shown ← Measure.mixedSum sum
  let (amount, unit) ← Attempt.ofOption ((shownSum Measure.isUnitChar).read? shown)
  let x ← Attempt.ofOption (Number.leadingNumber? amount)
  Measure.convertQuantity
    (Measure.withUnit (Number.numberText (x * multiplier)) unit) target

/-- A text in parentheses, which may hold others, and the unit asked for. -/
def enclosed : Shape (Text × Text) := do
  let _ ← Shape.char '('
  let inside ← Shape.many isOnLine
  let _ ← Shape.char ')'
  keyword "in"
  let target ← targetUnit
  return (inside, target)

/-- A whole number times a group. -/
def scaledGroup : Shape (Text × Text) := do
  let count ← Shape.digits
  timesSign
  let inside ← loneGroup
  return (count, inside)

/-- A text in one or more parentheses, and the unit asked for. -/
def nestedGroup : Shape (Text × Text) := do
  let _ ← Shape.many1 (· == '(')
  let inside ← Shape.run1 isInside
  let _ ← Shape.run1 (· == ')')
  keyword "in" <|> keyword "to"
  let target ← targetUnit
  return (inside, target)

/-- A sum of quantities in parentheses. -/
def answerGroup (s : Text) : Outcome :=
  let scaled : Attempt Text := do
    let (inside, target) ← Attempt.ofOption (enclosed.read? s)
    let (count, sum) ← Attempt.ofOption (scaledGroup.read? inside)
    convertSum sum target (countValue count)
  let whole : Attempt Text := do
    let (inside, target) ← Attempt.ofOption (enclosed.read? s)
    convertSum inside target 1
  let nested : Attempt Text := do
    let (inside, target) ← Attempt.ofOption (nestedGroup.read? s)
    convertSum (inside.filter fun c => !(c == '(' || c == ')')) target 1
  Outcome.ofAttempt (scaled <|> whole <|> nested)

/-- Digits and points. -/
def pointedDigits : Shape Text :=
  Shape.run1 fun c => Text.isDigit c || c == '.'

/-- A sum without blanks, and the unit asked for. -/
def compactIn : Shape (Text × Text) := do
  let a ← pointedDigits
  let u ← Shape.many Measure.isUnitCharAnyCase
  let operator ← Shape.one fun c => c == '+' || c == '-'
  let b ← pointedDigits
  let v ← Shape.run Measure.isUnitCharAnyCase
  keyword "in"
  let target ← targetUnit
  return (a ++ u ++ operator :: b ++ v, target)

/-- An operation on two numbers without blanks, of which the second one may have a unit, and the
unit asked for. -/
def compactTo : Shape (Text × Text) := do
  let a ← pointedDigits
  let operator ← Shape.one fun c => "+-*/".toList.contains c
  let b ← pointedDigits
  let v ← Shape.run Measure.isUnitCharAnyCase
  keyword "to"
  let target ← targetUnit
  return (a ++ operator :: b ++ v, target)

/-- Two whole quantities around a sign, without blanks. -/
def compactUnits : Shape Unit := do
  let _ ← Shape.digits
  let _ ← Shape.many1 Measure.isUnitChar
  let _ ← Shape.one fun c => c == '+' || c == '-'
  let _ ← Shape.digits
  let _ ← Shape.run1 Measure.isUnitChar
  Shape.atEnd

/-- Two numbers around an operator, without blanks. -/
def compactNumbers : Shape (Text × Char × Text) := do
  let a ← pointedDigits
  let operator ← Shape.one fun c => "+-*/".toList.contains c
  let b ← pointedDigits
  Shape.atEnd
  return (a, operator, b)

/-- The result of an operation on two numbers.  A division by zero halts the search. -/
def operate (s : Text) : Outcome :=
  match compactNumbers.read? s with
  | none => .pass
  | some (a, operator, b) =>
    match Number.leadingNumber? a, Number.leadingNumber? b with
    | some x, some y =>
      if operator == '/' && y == 0 then .halt
      else
        let z :=
          if operator == '+' then x + y
          else if operator == '-' then x - y
          else if operator == '*' then x * y
          else x / y
        if z.isNaN then .pass else .answer (Number.display z)
    | _, _ => .pass

/-- The outcome for an operation without blanks and the unit asked for, which a number without
units disregards. -/
def answerPair (s target : Text) : Outcome :=
  let sum : Attempt Text := do
    Attempt.require (compactUnits.fits s)
    let shown ← Measure.mixedSum s
    Measure.convertQuantity shown target
  Outcome.ofAttempt sum <|> operate s

/-- An operation without blanks. -/
def answerCompact (s : Text) : Outcome :=
  let answerAs (shape : Shape (Text × Text)) : Outcome :=
    match shape.read? s with
    | some (pair, target) => answerPair pair target
    | none => .pass
  answerAs compactIn <|> answerAs compactTo

/-- Letters in either case and hyphens. -/
def plainUnit : Shape Text :=
  Shape.run1 fun c => Text.isLetterAnyCase c || c == '-'

/-- Two whole quantities one after the other, and the unit asked for. -/
def twoUnitsShape : Shape ((Text × Text) × (Text × Text) × Text) := do
  let n ← Shape.digits
  let _ ← Shape.blanks1
  let u ← plainUnit
  let _ ← Shape.blanks1
  let m ← Shape.digits
  let _ ← Shape.blanks1
  let v ← plainUnit
  keyword "in"
  let target ← targetUnit
  return ((n, u), (m, v), target)

/-- Two quantities of one dimension together. -/
def answerTwoUnits (s : Text) : Outcome :=
  Outcome.ofOption do
    let ((n, u), (m, v), target) ← twoUnitsShape.read? s
    let (x, d) ← Measure.toBase? (countValue n) u
    let (y, e) ← Measure.toBase? (countValue m) v
    if d = e then Measure.ofBase? (x + y) target else none

/-- A decimal number and a unit that may be a speed. -/
def speedQuantity : Shape (Number.Numeral × Text) := do
  let n ← Measure.decimal
  let _ ← Shape.blanks
  let unit ← Shape.run1 fun c => Text.isLetter c || c == 'µ' || c == '/' || c == '-'
  Shape.atEnd
  return (n, unit)

/-- A decimal number, blanks and a unit. -/
def spacedQuantity : Shape (Number.Numeral × Text) := do
  let n ← Measure.decimal
  let _ ← Shape.blanks1
  let unit ← Measure.unitToEnd
  return (n, unit)

/-- The text with one space for each run of blanks, where `within` tells that a run has begun. -/
def singleSpaces (within : Bool) : Text → Text
  | [] => []
  | c :: rest =>
    if Text.isBlank c then
      if within then singleSpaces true rest else ' ' :: singleSpaces true rest
    else c :: singleSpaces false rest

/-- A sum, a speed or another quantity in the unit asked for. -/
def convertValue (value target : Text) : Attempt Text :=
  let sum : Attempt Text := do
    Attempt.require (value.any fun c => c == '+' || c == '-')
    let shown ← Measure.mixedSum value
    let (amount, unit) ← Attempt.ofOption ((shownSum Measure.isMicroUnitChar).read? shown)
    Measure.convertQuantity (Measure.withUnit amount unit) target
  let direct : Attempt Text := do
    let (n, unit) ← Attempt.ofOption (speedQuantity.read? value)
    Attempt.ofOption (Measure.convertSpeed? n.value unit target) <|>
      Measure.convertQuantity (Measure.withUnit (Number.numberText n.value) unit) target
  let clean := Text.strip (singleSpaces false value)
  let speed : Attempt Text := do
    let (n, unit) ← Attempt.ofOption (speedQuantity.read? clean)
    Attempt.ofOption (Measure.convertSpeed? n.value unit target)
  let spaced : Attempt Text := do
    let (n, unit) ← Attempt.ofOption (spacedQuantity.read? clean)
    Measure.convertQuantity (Measure.withUnit (Measure.decimalText n) unit) target
  sum <|> direct <|> speed <|> spaced <|> Measure.convertQuantity value target

/-- A conversion.  Whatever has this form is answered here or not at all. -/
def answerConversion (s : Text) : Outcome :=
  match (conversionTo "in").read? s with
  | some (value, target) => Outcome.decide (convertValue value target)
  | none =>
    match (conversionTo "to").read? s with
    | some (value, target) => Outcome.decide (convertValue value target)
    | none => .pass

/-- A whole number or a fraction, and a unit. -/
def bareQuantity : Shape Unit := do
  let _ ← Shape.digits
  let _ ← Shape.opt do
    let _ ← Shape.char '/'
    Shape.digits
  let _ ← Shape.blanks
  let _ ← Measure.unitToEnd
  return ()

/-- A quantity alone asks for nothing. -/
def answerBareQuantity (s : Text) : Outcome :=
  if bareQuantity.fits s then .halt else .pass

/-- A sum of quantities alone. -/
def answerSum (s : Text) : Outcome :=
  Outcome.ofAttempt (Measure.mixedSum s)

end DeskCalc.Query
