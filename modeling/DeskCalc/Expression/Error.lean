import DeskCalc.Text.Half

/-!
# Errors of expressions

An expression is refused because of its form, or because it has no finite value.
-/

namespace DeskCalc.Expression

/-- Why an expression has no value. -/
inductive Error where
  /-- text that does not continue the expression -/
  | unexpected (rest : Text)
  /-- a group without its closing parenthesis -/
  | unclosedGroup
  /-- no number, function or group where one is needed -/
  | noOperand
  /-- digits and points that are no number -/
  | badNumber (literal : Text)
  /-- a name without an argument -/
  | noArgument
  /-- an argument without its closing parenthesis -/
  | unclosedArgument
  /-- a name that is no function -/
  | unknownFunction (name : Text)
  /-- more groups, arguments and signs inside each other than are followed -/
  | tooDeep
  | divisionByZero
  | notFinite
deriving Repr, DecidableEq

namespace Error

/-- Whether the form of the expression is at fault, rather than its value. -/
def isFormal : Error → Bool
  | divisionByZero => false
  | notFinite => false
  | _ => true

/-- The wording of an error. -/
def message : Error → String
  | unexpected rest => "Unexpected character: " ++ String.ofList (Text.firstSign rest)
  | unclosedGroup => "Missing closing parenthesis"
  | noOperand => "Expected number, function, or parenthesized expression"
  | badNumber literal => "Invalid number: " ++ String.ofList literal
  | noArgument => "Expected ( after function name"
  | unclosedArgument => "Expected )"
  | unknownFunction name => "Unknown function: " ++ String.ofList name
  | tooDeep => "Expression is nested too deeply"
  | divisionByZero => "Division by zero"
  | notFinite => "Result is not finite"

end Error
end DeskCalc.Expression
