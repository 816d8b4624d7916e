import DeskCalc.Measure.Quantity
import DeskCalc.Number.Display

/-!
# Conversions

A quantity is converted by way of its base unit.  Both units have to belong to one dimension; only
amounts that are already in base units may be expressed in units of any dimension.
-/

namespace DeskCalc.Measure

/-- An amount followed by a unit. -/
def withUnit (amount : Text) (unit : Text) : Text :=
  amount ++ ' ' :: unit

/-- A quantity in base units: the amount and the dimension. -/
def toBase? (x : Float) (unit : Text) : Option (Float × Dimension) :=
  (find? unit).map fun u => (x * u.factor, u.dimension)

/-- An amount of base units expressed in a unit of any dimension, so that a product of two lengths
can be shown as an area. -/
def ofBase? (x : Float) (unit : Text) : Option Text :=
  (find? unit).map fun u => withUnit (Number.conversionText (x / u.factor)) u.name.toList

/-- An amount of a unit expressed in another unit of the same dimension. -/
def convert? (x : Float) (source target : Text) : Option Text :=
  Dimension.all.findSome? fun d =>
    match d.find? source, d.find? target with
    | some (_, f), some (name, g) => some (withUnit (Number.conversionText (x * f / g)) name.toList)
    | _, _ => none

/-- The tokens of the litre. -/
def isLitre (token : Text) : Bool :=
  ["l", "liter", "litre", "liters", "litres"].contains (String.ofList token)

/-- A decimal quantity expressed in another unit.  Litres that are asked for in `m` are shown as
the same number of `m`. -/
def convertDecimal? (quantity target : Text) : Option Text :=
  match decimalQuantity.read? quantity with
  | none => none
  | some (n, unit) =>
    match convert? n.value unit target with
    | some answer => some answer
    | none =>
      if isLitre (canonical unit) && canonical target == ['m'] then
        some (withUnit (Number.numberText n.value) ['m'])
      else none

/-- A quantity, possibly with a fraction, expressed in another unit.  A fraction is first replaced
by the decimal text of its value. -/
def convertQuantity (quantity target : Text) : Attempt Text :=
  match mixedFractionQuantity.read? quantity with
  | some (whole, parts, unit) => do
    let x ← mixedFractionValue whole parts
    Attempt.ofOption (convertDecimal? (withUnit (Number.numberText x) unit) target)
  | none =>
    match fractionQuantity.read? quantity with
    | some (parts, unit) => do
      let x ← fractionValue parts
      Attempt.ofOption (convertDecimal? (withUnit (Number.numberText x) unit) target)
    | none => Attempt.ofOption (convertDecimal? quantity target)

/-- A speed expressed in another unit of speed, with six decimals.  Only canonical tokens count,
and the answer shows the target's. -/
def convertSpeed? (x : Float) (source target : Text) : Option Text :=
  let source := canonical source
  let target := canonical target
  match Dimension.speed.entries.lookup (String.ofList source),
      Dimension.speed.entries.lookup (String.ofList target) with
  | some f, some g => some (withUnit (Number.fixed (x * f / g) 6) target)
  | _, _ => none

end DeskCalc.Measure
