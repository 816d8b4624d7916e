import DeskCalc.Measure.Conversion
import DeskCalc.Number.DecimalSum
import DeskCalc.Number.Rounding

/-!
# Sums of quantities

Quantities of one dimension, written in any of its units, can be added and subtracted.  The sum is
given in the base unit, with as many decimals as the first number was written with.
-/

namespace DeskCalc.Measure

open Text (Shape)

/-- A part of a sum. -/
inductive Piece where
  | operand (s : Text)
  | operator (c : Char)

/-- Whether a sign separates operands.  Between two letters a hyphen belongs to a unit's name. -/
def separates (before : Option Char) (c : Char) (after : Option Char) : Bool :=
  (c == '+' || c == '-') && !(before.any Text.isLetter && after.any Text.isLetter)

/-- The parts of a sum, where `taken` holds the characters of the current operand, last first, and
`before` is the character last passed. -/
def splitFrom (before : Option Char) (taken : Text) : Text → List Piece
  | [] => [.operand taken.reverse]
  | c :: rest =>
    if separates before c rest.head? then
      .operand taken.reverse :: .operator c :: splitFrom (some c) [] rest
    else splitFrom (some c) (c :: taken) rest

/-- Whether a part is more than blanks. -/
def Piece.isSolid : Piece → Bool
  | .operand s => !s.all Text.isBlank
  | .operator _ => true

/-- The parts of a sum without blank operands. -/
def pieces (s : Text) : List Piece :=
  (splitFrom none [] s).filter Piece.isSolid

/-- An operand as it is written: a decimal, perhaps a fraction, the blanks between the two, and a
unit. -/
structure WrittenOperand where
  number : Number.Numeral
  fraction : Option (Text × Text × Text)
  unit : Text

/-- The shape of an operand. -/
def operandShape : Shape WrittenOperand := do
  let number ← decimal
  let fraction ← Shape.opt do
    let gap ← Shape.blanks1
    let (numerator, denominator) ← fraction
    return (gap, numerator, denominator)
  let _ ← Shape.blanks
  let unit ← unitToEnd
  return ⟨number, fraction, unit⟩

/-- The number of an operand as it is written. -/
def WrittenOperand.literal (o : WrittenOperand) : Text :=
  match o.fraction with
  | some (gap, numerator, denominator) =>
    decimalText o.number ++ gap ++ numerator ++ '/' :: denominator
  | none => decimalText o.number

/-- The number of an operand. -/
def WrittenOperand.amount (o : WrittenOperand) : Attempt Float :=
  match o.fraction with
  | some (_, numerator, denominator) => do
    let quotient ← fractionValue (numerator, denominator)
    return o.number.value + quotient
  | none => .found o.number.value

/-- A summand: its unit, its amount in base units, and the decimals it was written with. -/
structure Summand where
  unit : Found
  amount : Float
  places : Nat

/-- The summand that an operand denotes. -/
def readSummand (s : Text) : Attempt Summand := do
  let o ← Attempt.ofOption (operandShape.read? (Text.strip s))
  let x ← o.amount
  let unit ← Attempt.ofOption (find? o.unit)
  return ⟨unit, x * unit.factor, Number.placesShown o.literal⟩

/-- A decimal sum or difference, as the operator asks. -/
def combine (operator : Char) (a b : Float) (pa pb : Int) : Attempt (Float × Int) :=
  let sum :=
    if operator == '+' then Number.decimalAdd a b (some pa) (some pb)
    else Number.decimalSub a b (some pa) (some pb)
  match sum with
  | .ok r => .found r
  | .error e => .broken e

/-- Adds the operands that follow to a total.  An operator that nothing follows adds nothing. -/
def addPieces (d : Dimension) (total : Float) (places : Int) : List Piece → Attempt Float
  | [] => .found total
  | [_] => .found total
  | .operator c :: .operand s :: rest => do
    let x ← readSummand s
    Attempt.require (x.unit.dimension == d)
    let (total, places) ← combine c total x.amount places x.places
    addPieces d total places rest
  | _ => .nothing

/-- The sum of a list of parts. -/
def sumPieces : List Piece → Attempt Text
  | .operand s :: rest => do
    Attempt.require (2 ≤ rest.length)
    let x ← readSummand s
    let total ← addPieces x.unit.dimension x.amount x.places rest
    match Number.roundTo total (min x.places 10) with
    | .ok rounded =>
      return withUnit (Number.fixed rounded (min x.places 6)) x.unit.dimension.base.toList
    | .error e => .broken e
  | _ => .nothing

/-- Two quantities around an operator, without blanks. -/
def compactPair : Shape ((Number.Numeral × Text) × Char × (Number.Numeral × Text)) := do
  let first ← decimal
  let firstUnit ← Shape.many1 isMicroUnitChar
  let operator ← Shape.one fun c => c == '+' || c == '-'
  let second ← decimal
  let secondUnit ← unitToEnd
  return ((first, firstUnit), operator, (second, secondUnit))

/-- The sum of a compact pair of one dimension, with six decimals. -/
def sumCompact? (s : Text) : Option Text := do
  let ((n, u), operator, (m, v)) ← compactPair.read? s
  let (x, d) ← toBase? n.value u
  let (y, e) ← toBase? m.value v
  if d = e then
    let total := if operator == '+' then x + y else x - y
    some (withUnit (Number.fixed total 6) d.base.toList)
  else none

/-- The sum that a text denotes.  A whole number with a fraction and a unit counts as a sum of its
own, and stays in its unit. -/
def mixedSum (s : Text) : Attempt Text :=
  match mixedFractionQuantity.read? s with
  | some (whole, parts, unit) => do
    let x ← mixedFractionValue whole parts
    return withUnit (Number.fixed x 6) unit
  | none =>
    match sumCompact? s with
    | some answer => .found answer
    | none => sumPieces (pieces s)

end DeskCalc.Measure
