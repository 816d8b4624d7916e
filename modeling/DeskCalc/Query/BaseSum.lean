import DeskCalc.Measure.MixedSum
import DeskCalc.Number.BasedNumeral

/-!
# Sums shown in a base

Operands of any base are added and subtracted, and the total is shown in the base asked for.  A
group in parentheses may be multiplied by a whole number, and may be a sum of quantities whose
amount counts.
-/

namespace DeskCalc.Query

open Text (Shape)

/-- Any character but a closing parenthesis. -/
def isInside (c : Char) : Bool :=
  c ≠ ')'

/-- A group in parentheses. -/
def group : Shape Text := do
  let _ ← Shape.char '('
  let inside ← Shape.run1 isInside
  let _ ← Shape.char ')'
  return inside

/-- A multiplication sign with blanks around it. -/
def timesSign : Shape Unit := do
  let _ ← Shape.blanks
  let _ ← Shape.char '*'
  let _ ← Shape.blanks
  return ()

/-- A group times a whole number. -/
def groupTimes : Shape (Text × Text) := do
  let inside ← group
  timesSign
  let count ← Shape.digits
  Shape.atEnd
  return (inside, count)

/-- A group alone. -/
def loneGroup : Shape Text := do
  let inside ← group
  Shape.atEnd
  return inside

/-- A whole number times a group, in parentheses. -/
def nestedTimes : Shape (Text × Text) := do
  let _ ← Shape.char '('
  let count ← Shape.digits
  timesSign
  let inside ← group
  let _ ← Shape.char ')'
  Shape.atEnd
  return (count, inside)

/-- The double that a row of decimal digits denotes. -/
def countValue (digits : Text) : Float :=
  Number.Numeral.value ⟨digits, [], 0⟩

/-- The operands of a sum with the sign of each, where `taken` holds the characters of the current
one, last first.  Of several signs in a row the last one counts. -/
def signedOperands (negative : Bool) (taken : Text) : Text → List (Bool × Text)
  | [] => [(negative, taken.reverse)]
  | '+' :: rest => (negative, taken.reverse) :: signedOperands false [] rest
  | '-' :: rest => (negative, taken.reverse) :: signedOperands true [] rest
  | c :: rest => signedOperands negative (c :: taken) rest

/-- The operands of a sum that are more than blanks. -/
def operands (s : Text) : List (Bool × Text) :=
  (signedOperands false [] s).filter fun o => !o.2.all Text.isBlank

/-- Adds operands to a total. -/
def addOperands (total : Float) : List (Bool × Text) → Attempt Float
  | [] => .found total
  | (negative, s) :: rest => do
    let x ← Number.readOperand s
    addOperands (total + (if negative then -x else x)) rest

/-- The total of a sum of operands. -/
def plainTotal (s : Text) : Attempt Float :=
  addOperands 0 (operands s)

/-- The amount at the beginning of the text of a sum of quantities; there is none if it is
negative. -/
def leadingAmount (s : Text) : Attempt Float := do
  let sum ← Measure.mixedSum s
  let digits := sum.takeWhile fun c => Text.isDigit c || c == '.'
  Attempt.ofOption (Number.leadingNumber? digits)

/-- The number that a sum denotes when it is to be shown in a base. -/
def baseTotal (s : Text) : Attempt Float :=
  let times : Attempt Float := do
    let (inside, count) ← Attempt.ofOption (groupTimes.read? s)
    let total ← plainTotal inside
    let total ← Attempt.ofOption (Number.leadingNumber? (Number.numberText total))
    return total * countValue count
  let alone : Attempt Float := do
    let inside ← Attempt.ofOption (loneGroup.read? s)
    leadingAmount inside
  let nested : Attempt Float := do
    let (count, inside) ← Attempt.ofOption (nestedTimes.read? s)
    let amount ← leadingAmount inside
    return amount * countValue count
  times <|> alone <|> nested <|> plainTotal s

/-- The text of a sum in the base that a word names.  Without such a base nothing is shown, but the
sum may still break off. -/
def baseSum (s base : Text) : Attempt Text := do
  let total ← baseTotal s
  let r ← Attempt.ofOption (Number.Radix.ofName? base)
  return r.text total

end DeskCalc.Query
