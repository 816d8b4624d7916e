import DeskCalc.Number.Layout
import DeskCalc.Text.Lowercase

/-!
# Numbers in other bases

A double is an integer times a power of two, so in the bases two, eight and sixteen its fraction
ends, and the text shows its exact value.
-/

namespace DeskCalc.Number

/-- The bases in which numbers are read and written. -/
inductive Radix where
  | binary
  | octal
  | decimal
  | hex
deriving Repr, DecidableEq

/-- The base itself. -/
def Radix.base : Radix → Nat
  | .binary => 2
  | .octal => 8
  | .decimal => 10
  | .hex => 16

/-- The word that asks for a base. -/
def Radix.name : Radix → String
  | .binary => "binary"
  | .octal => "octal"
  | .decimal => "decimal"
  | .hex => "hex"

/-- All bases. -/
def Radix.all : List Radix :=
  [.hex, .octal, .binary, .decimal]

/-- The base that a word in any case names. -/
def Radix.ofName? (name : Text) : Option Radix :=
  Radix.all.find? fun r => r.name.toList == Text.lower name

/-- The letter that marks a numeral of a base after its zero. -/
def Radix.mark : Radix → Char
  | .binary => 'b'
  | .octal => 'o'
  | .decimal => 'd'
  | .hex => 'x'

/-- The digits of the proper fraction `num / den` in a base, up to the last one that is not zero
and at most as many as `fuel` allows. -/
def fractionDigits (base : Nat) : Nat → Nat → Nat → List Nat
  | 0, _, _ => []
  | fuel + 1, num, den =>
    if num = 0 then []
    else num * base / den :: fractionDigits base fuel (num * base % den) den

/-- The magnitude of a finite double in a base.  No double has more than 1074 binary places, so
1100 are enough. -/
def radixMagnitude (base : Nat) (x : Float) : List Char :=
  let b := magnitude x
  let whole := (digitsIn base (b.num / b.den)).map digitChar
  match fractionDigits base 1100 (b.num % b.den) b.den with
  | [] => whole
  | fraction => whole ++ '.' :: fraction.map digitChar

/-- A number in a base, with the base's mark; decimal and numbers that are not finite are
written as everywhere else. -/
def Radix.text (r : Radix) (x : Float) : Text :=
  if r = .decimal || !x.isFinite then numberText x
  else
    let digits := signed (x < 0) (radixMagnitude r.base x)
    '0' :: r.mark :: (if r = .hex then digits.map Char.toUpper else digits)

end DeskCalc.Number
