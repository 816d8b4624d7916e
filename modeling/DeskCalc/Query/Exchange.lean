import DeskCalc.Constant
import DeskCalc.Currency
import DeskCalc.Measure.Conversion
import DeskCalc.Query.Outcome
import DeskCalc.Query.Target

/-!
# Constants, temperatures and money

Queries for the value of a constant, for a temperature on another scale and for an amount of money
in another currency.
-/

namespace DeskCalc.Query

open Text (Shape)

/-- The name of a constant, in any case; of constants that differ in case only the first one
counts. -/
def answerConstant (s : Text) : Outcome :=
  let name := Text.lower s
  match Constant.all.find? fun c => c.1.toList.map Char.toLower == name with
  | some (_, x) => .answer (Number.numberText x)
  | none => .pass

/-- Whether a character is, in either case, the letter of a temperature scale. -/
def isScaleLetter (c : Char) : Bool :=
  ['c', 'f', 'k', 'r'].contains (Text.letterKey c)

/-- A temperature, and the letters of its scale and of the target. -/
def temperatureShape : Shape (Bool × Number.Numeral × Char × Char) := do
  let sign ← Shape.opt (Shape.char '-')
  let n ← Measure.decimal
  let _ ← Shape.blanks
  let source ← Shape.one isScaleLetter
  keyword "to"
  let target ← Shape.one isScaleLetter
  Shape.atEnd
  return (sign.isSome, n, source, target)

/-- The scale of a letter in either case. -/
def scaleOf? (c : Char) : Option TemperatureScale :=
  TemperatureScale.ofSymbol? (String.ofList (Text.capital c))

/-- A temperature on another scale, with six decimals. -/
def answerTemperature (s : Text) : Outcome :=
  Outcome.ofOption do
    let (negative, n, source, target) ← temperatureShape.read? s
    let source ← scaleOf? source
    let target ← scaleOf? target
    let t := source.convert target (Number.applySign negative n.value)
    return Measure.withUnit (Number.fixed t 6) target.symbol.toList

/-- Three letters in either case. -/
def currencyCode : Shape Text := do
  let a ← Shape.one Text.isLetterAnyCase
  let b ← Shape.one Text.isLetterAnyCase
  let c ← Shape.one Text.isLetterAnyCase
  return [a, b, c]

/-- An amount, its currency and the target currency. -/
def currencyShape : Shape (Number.Numeral × Text × Text) := do
  let n ← Measure.decimal
  let _ ← Shape.blanks1
  let source ← currencyCode
  keyword "to"
  let target ← currencyCode
  Shape.atEnd
  return (n, source, target)

/-- An amount of money in another currency. -/
def answerCurrency (s : Text) : Outcome :=
  Outcome.ofOption do
    let (n, source, target) ← currencyShape.read? s
    let code (letters : Text) := String.ofList (Text.capitals letters)
    Currency.convert? n.value (code source) (code target)

end DeskCalc.Query
