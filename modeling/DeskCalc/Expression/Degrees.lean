import DeskCalc.Constant
import DeskCalc.Number.Layout
import DeskCalc.Text.Blank
import DeskCalc.Text.Digit

/-!
# Preparing expressions

Blanks and the commas between thousands are dropped, and a number of degrees becomes a product
that gives radians.
-/

namespace DeskCalc.Expression

/-- The text of one degree in radians. -/
def degreeText : Text :=
  Number.numberText (Constant.pi / 180)

/-- What follows the word for degrees, if the text begins with it. -/
def afterDegrees? (s : Text) : Option Text :=
  if "degrees".toList.isPrefixOf s then some (s.drop 7)
  else if "degree".toList.isPrefixOf s then some (s.drop 6)
  else none

/-- After the digits of a number: its fraction, if it has one, and what follows the word for
degrees behind it. -/
def fractionAndDegrees? (s : Text) : Option (Text × Text) :=
  match afterDegrees? s with
  | some rest => some ([], rest)
  | none =>
    match s with
    | '.' :: t =>
      let digits := t.takeWhile Text.isDigit
      if digits.isEmpty then none
      else (afterDegrees? (t.dropWhile Text.isDigit)).map ('.' :: digits, ·)
    | _ => none

/-- The text with every number of degrees replaced; `fuel` bounds the number of steps. -/
def replaceDegrees : Nat → Text → Text
  | 0, s => s
  | _ + 1, [] => []
  | fuel + 1, c :: rest =>
    if Text.isDigit c then
      let digits := c :: rest.takeWhile Text.isDigit
      let after := rest.dropWhile Text.isDigit
      match fractionAndDegrees? after with
      | some (fraction, after) =>
        '(' :: digits ++ fraction ++ '*' :: degreeText ++ ')' :: replaceDegrees fuel after
      | none => digits ++ replaceDegrees fuel after
    else c :: replaceDegrees fuel rest

/-- The text of an expression as it is read: without blanks and commas, and with degrees
replaced. -/
def prepare (s : Text) : Text :=
  let compact := s.filter fun c => !(Text.isBlank c || c == ',')
  replaceDegrees compact.length compact

end DeskCalc.Expression
