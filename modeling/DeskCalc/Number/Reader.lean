import DeskCalc.Number.Binary
import DeskCalc.Text.Blank
import DeskCalc.Text.Digit
import DeskCalc.Text.Half

/-!
# Reading numbers

A numeral has digits with at most one point among them and may end in an exponent.  Several
readers share it: one that takes the longest number at the beginning of a text, one that wants the
whole text to be a number, and one for integers.
-/

namespace DeskCalc.Number

/-- The parts of a numeral. -/
structure Numeral where
  whole : Text
  fraction : Text
  exponent : Int

/-- The double nearest to a numeral. -/
def Numeral.value (n : Numeral) : Float :=
  ofDecimal false (Text.digitsValue (n.whole ++ n.fraction)) (n.exponent - n.fraction.length)

/-- A number with a sign in front. -/
def applySign (negative : Bool) (x : Float) : Float :=
  if negative then -x else x

/-- An optional sign, and what follows. -/
def readSign : Text → Bool × Text
  | '+' :: rest => (false, rest)
  | '-' :: rest => (true, rest)
  | s => (false, s)

/-- The exponent at the beginning of a text, zero if there is no complete one, and what
follows. -/
def readExponent (s : Text) : Int × Text :=
  match s with
  | c :: rest =>
    if c == 'e' || c == 'E' then
      let (negative, digits) := readSign rest
      match digits.takeWhile Text.isDigit with
      | [] => (0, s)
      | power =>
        let n : Int := Text.digitsValue power
        (if negative then -n else n, digits.dropWhile Text.isDigit)
    else (0, s)
  | [] => (0, s)

/-- The longest numeral without a sign at the beginning of a text, and what follows it. -/
def readNumeral? (s : Text) : Option (Numeral × Text) :=
  let whole := s.takeWhile Text.isDigit
  let afterWhole := s.dropWhile Text.isDigit
  let fraction := match afterWhole with
    | '.' :: rest => rest.takeWhile Text.isDigit
    | _ => []
  if whole.isEmpty && fraction.isEmpty then none
  else
    let rest := match afterWhole with
      | '.' :: rest => rest.dropWhile Text.isDigit
      | rest => rest
    let (exponent, rest) := readExponent rest
    some (⟨whole, fraction, exponent⟩, rest)

/-- The longest number at the beginning of a text, after blanks and a sign.  Infinity is one. -/
def leadingNumber? (s : Text) : Option Float :=
  let (negative, body) := readSign (Text.stripLeft s)
  if "Infinity".toList.isPrefixOf body then some (applySign negative infinity)
  else (readNumeral? body).map fun (n, _) => applySign negative n.value

/-- The text without its underscores, each of which has to stand between two digits. -/
def dropUnderscores? : Text → Option Text
  | a :: '_' :: b :: rest =>
    if a ≠ '_' ∧ Text.isDigit a ∧ Text.isDigit b then (dropUnderscores? (b :: rest)).map (a :: ·)
    else none
  | c :: rest => if c == '_' then none else (dropUnderscores? rest).map (c :: ·)
  | [] => some []

/-- A text that is a number as a whole.  Blanks around it, underscores between digits and the
names of infinity and NaN in any case are accepted. -/
def wholeNumber? (s : Text) : Option Float := do
  let (negative, body) := readSign (← dropUnderscores? (Text.trim Text.isNumberBlank s))
  let name := String.ofList (body.map Char.toLower)
  if name == "inf" || name == "infinity" then some (applySign negative infinity)
  else if name == "nan" then some notANumber
  else match readNumeral? body with
    | some (n, []) => some (applySign negative n.value)
    | _ => none

/-- The number of characters between the first point of a text and the next one, blanks at the
ends aside. -/
def placesShown (s : Text) : Nat :=
  let fraction := ((Text.strip s).dropWhile (· ≠ '.')).drop 1 |>.takeWhile (· ≠ '.')
  (Text.codes fraction).length

/-- Decimal numerals of integers are read and written up to this many digits. -/
def digitLimit : Nat := 4300

/-- A row of digits as a natural number, unless it is too long to be read. -/
def readNat? (digits : Text) : Option Nat :=
  if digitLimit < digits.length then none else some (Text.digitsValue digits)

/-- A text that is an integer as a whole, with the same liberties as `wholeNumber?`. -/
def wholeInt? (s : Text) : Option Int := do
  let (negative, body) := readSign (← dropUnderscores? (Text.trim Text.isNumberBlank s))
  if body.isEmpty || !body.all Text.isDigit then none
  else
    let n ← readNat? body
    some (if negative then -(n : Int) else n)

end DeskCalc.Number
