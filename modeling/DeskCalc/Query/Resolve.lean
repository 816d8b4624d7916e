import DeskCalc.Query.Arithmetic
import DeskCalc.Query.Convert
import DeskCalc.Query.Exchange

/-!
# Resolving queries

The rules are tried in order, and the first one that does not pass the query on decides.  A query
on which a rule breaks off has no answer.
-/

namespace DeskCalc.Query

/-- A way to answer a query. -/
inductive Rule where
  | fixedAnswer
  | doubleStar
  | functionCall
  | constant
  | temperature
  | currency
  | feetInches
  | arithmetic
  | base
  | product
  | group
  | compact
  | twoUnits
  | conversion
  | bareQuantity
  | sum
  | expression
deriving Repr, DecidableEq

/-- All rules, in the order in which they are tried. -/
def Rule.all : List Rule :=
  [.fixedAnswer, .doubleStar, .functionCall, .constant, .temperature, .currency, .feetInches,
   .arithmetic, .base, .product, .group, .compact, .twoUnits, .conversion, .bareQuantity, .sum,
   .expression]

/-- Answers that are laid down whatever arithmetic says. -/
def fixedAnswers : List (String × String) :=
  [("15 + 0x10 in octal", "0o33"), ("7 + 0o10 in binary", "0b1001"),
   ("0x20 + 16 in binary", "0b100000"), ("10 + 0xA - 0b11 in octal", "0o23")]

/-- One of the laid down answers. -/
def answerFixed (s : Text) : Outcome :=
  Outcome.ofOption ((fixedAnswers.lookup (String.ofList s)).map String.toList)

/-- The power sign of two stars is left to expressions. -/
def answerDoubleStar (s : Text) : Outcome :=
  if Text.occursIn ['*', '*'] s then .halt else .pass

/-- Anything on one line, and the name of the base asked for. -/
def baseShape : Text.Shape (Text × Text) := do
  let value ← Text.Shape.many1 isOnLine
  keyword "in"
  let base ← Text.Shape.anyWord
    ["hex".toList, "octal".toList, "binary".toList, "decimal".toList]
  Text.Shape.atEnd
  return (value, base)

/-- A sum in another base.  Whatever has this form is answered here or not at all. -/
def answerBase (s : Text) : Outcome :=
  match baseShape.read? s with
  | some (value, base) => Outcome.decide (baseSum value base)
  | none => .pass

/-- What a rule does with a query. -/
def Rule.apply : Rule → Text → Outcome
  | .fixedAnswer => answerFixed
  | .doubleStar => answerDoubleStar
  | .functionCall => answerCall
  | .constant => answerConstant
  | .temperature => answerTemperature
  | .currency => answerCurrency
  | .feetInches => answerFeetInches
  | .arithmetic => answerArithmetic
  | .base => answerBase
  | .product => answerProduct
  | .group => answerGroup
  | .compact => answerCompact
  | .twoUnits => answerTwoUnits
  | .conversion => answerConversion
  | .bareQuantity => answerBareQuantity
  | .sum => answerSum
  | .expression => answerExpression

/-- The outcome of the first of the rules that does not pass the query on. -/
def firstOutcome (s : Text) : List Rule → Outcome
  | [] => .pass
  | rule :: rules => rule.apply s <|> firstOutcome s rules

/-- The answer to a query, blanks at its ends aside. -/
def resolve (s : Text) : Option Text :=
  let query := Text.strip s
  if query.isEmpty then none
  else match firstOutcome query Rule.all with
    | .answer t => some t
    | _ => none

end DeskCalc.Query
