import DeskCalc.Query.Arithmetic
import DeskCalc.Query.Exchange
import DeskCalc.Query.Resolve

/-!
# Telling queries from expressions

A line is offered to the rules for queries only if it looks like one.  Most signs of a query may
stand anywhere in the line; a call, a single word and a bare quantity have to be the whole line.
-/

namespace DeskCalc.Query

open Text (Shape)

/-- A letter or a hyphen, as in the names of units. -/
def isPlainUnitChar (c : Char) : Bool :=
  Text.isLetter c || c == '-'

/-- A digit, behind which a unit may stand. -/
def lastDigit : Shape Char :=
  Shape.one Text.isDigit

/-- Two quantities around a sign. -/
def looksLikeSum : Shape Unit := do
  let _ ← lastDigit
  let _ ← Shape.blanks
  let _ ← Shape.many1 isPlainUnitChar
  let _ ← Shape.blanks
  let _ ← Shape.one fun c => c == '+' || c == '-'
  let _ ← Shape.blanks
  let _ ← Shape.digits
  let _ ← Shape.blanks
  let _ ← Shape.one isPlainUnitChar
  return ()

/-- A quantity and a target. -/
def looksLikeConversion : Shape Unit := do
  let _ ← lastDigit
  let _ ← Shape.blanks
  let _ ← Shape.run1 isPlainUnitChar
  let _ ← Shape.blanks1
  let _ ← Shape.exactly "in".toList
  let _ ← Shape.blanks1
  let _ ← Shape.one isPlainUnitChar
  return ()

/-- A temperature and a scale. -/
def looksLikeTemperature : Shape Unit := do
  let _ ← lastDigit
  let _ ← Shape.blanks
  let _ ← Shape.one isScaleLetter
  keyword "to"
  let _ ← Shape.one isScaleLetter
  return ()

/-- An amount of money and a currency. -/
def looksLikeCurrency : Shape Unit := do
  let _ ← lastDigit
  let _ ← Shape.blanks1
  let _ ← currencyCode
  keyword "to"
  let _ ← currencyCode
  return ()

/-- Anything and the name of a base. -/
def looksLikeBase : Shape Unit := do
  let _ ← Shape.one isOnLine
  keyword "in"
  let _ ← Shape.anyWord ["hex".toList, "octal".toList, "binary".toList, "decimal".toList]
  return ()

/-- A single word. -/
def singleWord : Shape Unit := do
  let _ ← plainUnit
  Shape.atEnd

/-- A whole number or a fraction, and a unit without special characters. -/
def plainQuantity : Shape Unit := do
  let _ ← Shape.digits
  let _ ← Shape.opt do
    let _ ← Shape.char '/'
    Shape.digits
  let _ ← Shape.blanks
  let _ ← Shape.run1 isPlainUnitChar
  Shape.atEnd

/-- Whether a line is offered to the rules for queries. -/
def looksLikeQuery (s : Text) : Bool :=
  (Text.occursIn " in ".toList s && s.any Text.isLetter) ||
    looksLikeSum.fitsWithin s || looksLikeConversion.fitsWithin s ||
    looksLikeTemperature.fitsWithin s || looksLikeCurrency.fitsWithin s ||
    looksLikeBase.fitsWithin s ||
    functionCall.fits s || singleWord.fits s || plainQuantity.fits s

end DeskCalc.Query
