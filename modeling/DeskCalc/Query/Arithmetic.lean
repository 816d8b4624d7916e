import DeskCalc.Constant
import DeskCalc.Expression.Evaluate
import DeskCalc.Number.Display
import DeskCalc.Query.BaseSum
import DeskCalc.Query.Outcome
import DeskCalc.Text.Replace

/-!
# Arithmetic in queries

Expressions in queries may name constants, which are replaced by their values, and call more
functions than expressions elsewhere.
-/

namespace DeskCalc.Query

open Text (Shape)

/-- A value in parentheses. -/
def bracketed (x : Float) : Text :=
  '(' :: Number.numberText x ++ [')']

/-- The expression with `e` as a word of its own replaced. -/
def replaceEuler (s : Text) : Text :=
  Text.replaceWordAnyCase ['e'] (bracketed Constant.euler) s

/-- The expression with `pi`, inside of words too, and `e` replaced. -/
def replacePiAnywhere (s : Text) : Text :=
  replaceEuler (Text.replaceAnywhere ['p', 'i'] (bracketed Constant.pi) s)

/-- The expression with `pi` and `e` replaced where they are words of their own. -/
def replacePiWords (s : Text) : Text :=
  replaceEuler (Text.replaceWordAnyCase ['p', 'i'] (bracketed Constant.pi) s)

/-- The value of an expression with the functions of queries. -/
def value? (s : Text) : Option Float :=
  (Expression.evaluateWith Expression.extendedTable s).toOption

/-- A name with an argument in parentheses. -/
def functionCall : Shape (Text × Text) := do
  let name ← Shape.run1 Text.isLetterAnyCase
  let argument ← loneGroup
  return (name, argument)

/-- The text before the first comma, and the one behind it if there is no other comma. -/
def splitPair? (s : Text) : Option (Text × Text) :=
  match s.dropWhile (· ≠ ',') with
  | _ :: rest => if rest.contains ',' then none else some (s.takeWhile (· ≠ ','), rest)
  | [] => none

/-- A power whose base and exponent are the numbers at the beginning of the two arguments. -/
def powerOf? (argument : Text) : Option Float := do
  let (a, b) ← splitPair? argument
  let x ← Number.leadingNumber? a
  let y ← Number.leadingNumber? b
  return Expression.power x y

/-- The product of the numbers up to `n`. -/
def factorial : Nat → Nat
  | 0 => 1
  | n + 1 => (n + 1) * factorial n

/-- The largest number whose factorial is shown. -/
def maxFactorial : Nat := 170

/-- The factorial of the integer at the beginning of the argument. -/
def factorialOf (argument : Text) : Attempt Float :=
  let (negative, body) := Number.readSign (Text.stripLeft argument)
  match body.takeWhile Text.isDigit with
  | [] => .nothing
  | digits => do
    let n ← Measure.natural digits
    Attempt.require (n ≤ maxFactorial && !(negative && n ≠ 0))
    return Number.ofInt (factorial n)

/-- A function of queries at an argument.  The sine of a number close to `pi` is zero. -/
def applyTo? (name argument : Text) : Option Float := do
  let f ← Expression.extendedTable name
  let x ← value? (replacePiAnywhere argument)
  if name = "sin".toList ∧ (x - Constant.pi).abs < 1e-10 then some 0 else some (f x)

/-- The value of a function call. -/
def callValue (name argument : Text) : Attempt Float :=
  match String.ofList name with
  | "pow" => Attempt.ofOption (powerOf? argument)
  | "factorial" => factorialOf argument
  | "fact" => factorialOf argument
  | _ => Attempt.ofOption (applyTo? name argument)

/-- A call of a function, alone on the line. -/
def answerCall (s : Text) : Outcome :=
  match functionCall.read? s with
  | none => .pass
  | some (name, argument) =>
    Outcome.ofAttempt do
      let x ← callValue (Text.lower name) argument
      Attempt.require !x.isNaN
      return Number.display x

/-- The characters of arithmetic with names. -/
def isArithmeticChar (c : Char) : Bool :=
  ('0' ≤ c && c ≤ '9') || "+-*/^().".toList.contains c || Text.isBlank c || Text.isLetter c

/-- The signs of operators. -/
def isOperatorChar (c : Char) : Bool :=
  "+-*/^".toList.contains c

/-- The text of an expression's value as a query shows it. -/
def shownValue (s : Text) : Outcome :=
  match value? s with
  | some x => .answer (Number.display x)
  | none => .pass

/-- Arithmetic with operators, in which constants are named as they are written. -/
def answerArithmetic (s : Text) : Outcome :=
  if s.all isArithmeticChar && s.any isOperatorChar then
    let named := Constant.all.foldl (fun t c => Text.replaceWord c.1.toList (bracketed c.2) t) s
    shownValue (replacePiWords named)
  else .pass

/-- The characters of expressions that are tried at last. -/
def isExpressionChar (c : Char) : Bool :=
  isArithmeticChar c || c == 'µ'

/-- Any other expression, in which constants are named in either case. -/
def answerExpression (s : Text) : Outcome :=
  if !s.isEmpty && s.all isExpressionChar then
    let named :=
      Constant.byLength.foldl
        (fun t c => Text.replaceWordAnyCase c.1.toList (bracketed c.2) t) s
    shownValue (replacePiAnywhere named)
  else .pass

end DeskCalc.Query
