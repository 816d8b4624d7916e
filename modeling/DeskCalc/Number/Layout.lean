import DeskCalc.Number.Shortest
import DeskCalc.Text.Basic

/-!
# Laying out shortest decimals

Where the digits of a number are chosen, a layout decides how they are written: which magnitudes
are written positionally, whether an integer gets a fraction, and how wide an exponent is.  Answers
use one layout and stored documents another.
-/

namespace DeskCalc.Number

/-- The decisions about the form of a number's text. -/
structure Layout where
  /-- the least power of ten of a leading digit that is written positionally -/
  plainFrom : Int
  /-- the least power of ten from there on that is not -/
  plainBelow : Int
  /-- whether a positional integer is followed by a point and a zero -/
  pointZero : Bool
  /-- the least number of digits of an exponent -/
  exponentWidth : Nat
  /-- the text of NaN -/
  nan : Text
  /-- the text of positive infinity -/
  infinity : Text
  /-- whether negative zero keeps its sign -/
  signedZero : Bool

/-- `n` zeros. -/
def zeros (n : Nat) : Text :=
  List.replicate n '0'

/-- A minus sign in front of a negative number's text. -/
def signed (negative : Bool) (s : Text) : Text :=
  if negative then '-' :: s else s

/-- A point between the first digit and the others, if there are others. -/
def pointAfterFirst : Text → Text
  | d :: e :: ds => d :: '.' :: e :: ds
  | ds => ds

/-- Digits with a power of ten written as a signed exponent. -/
def scientific (width : Nat) (digits : Text) (power : Int) : Text :=
  let p := natText power.natAbs
  pointAfterFirst digits ++ 'e' :: (if power < 0 then '-' else '+') :: zeros (width - p.length) ++ p

/-- Digits of which the first one stands at the given power of ten, written with a point. -/
def positional (pointZero : Bool) (digits : Text) (power : Int) : Text :=
  if power < 0 then '0' :: '.' :: zeros (-power - 1).toNat ++ digits
  else
    let whole := power.toNat + 1
    if digits.length ≤ whole then
      digits ++ zeros (whole - digits.length) ++ (if pointZero then ['.', '0'] else [])
    else digits.take whole ++ '.' :: digits.drop whole

/-- The text of a decimal in this layout. -/
def Layout.decimal (l : Layout) (d : Decimal) : Text :=
  let digits := natText d.digits
  let power := digits.length + d.exponent - 1
  if l.plainFrom ≤ power ∧ power < l.plainBelow then positional l.pointZero digits power
  else scientific l.exponentWidth digits power

/-- The shortest text of a number in this layout. -/
def Layout.text (l : Layout) (x : Float) : Text :=
  if x.isNaN then l.nan
  else if x.isInf then signed (x < 0) l.infinity
  else if x == 0 then
    signed (l.signedZero && signBit x) (positional l.pointZero ['0'] 0)
  else signed (x < 0) (l.decimal (shortest x))

/-- Answers are positional from `1e-6` up to below `1e21`, and show neither a fraction of integers
nor the sign of zero. -/
def answerLayout : Layout where
  plainFrom := -6
  plainBelow := 21
  pointZero := false
  exponentWidth := 1
  nan := "NaN".toList
  infinity := "Infinity".toList
  signedZero := false

/-- In running text a number of a document is positional from `1e-4` up to below `1e16`; its
fraction tells it from an integer. -/
def recordLayout : Layout where
  plainFrom := -4
  plainBelow := 16
  pointZero := true
  exponentWidth := 2
  nan := "nan".toList
  infinity := "inf".toList
  signedZero := true

/-- Stored documents differ from running text in the names of the numbers that are not finite. -/
def documentLayout : Layout :=
  { recordLayout with nan := "NaN".toList, infinity := "Infinity".toList }

/-- The shortest text that identifies a number, as answers show it. -/
def numberText (x : Float) : Text :=
  answerLayout.text x

end DeskCalc.Number
