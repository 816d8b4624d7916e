import DeskCalc.Expression.Evaluate
import DeskCalc.Query.Detect
import DeskCalc.Session.Basic
import DeskCalc.Session.Substitution

/-!
# Submitting lines

A line is an assignment, a query or an expression, tried in this order.  What it gives is added to
the log, and a number becomes the last result.  Submitting gives the next session along with the
new entry, also when it breaks off on a value that is no number.
-/

namespace DeskCalc.Session

open Text (Shape)

/-- Why a session has no value for an expression. -/
inductive Failure where
  /-- the expression is at fault -/
  | expression (e : Expression.Error)
  /-- a variable is at fault -/
  | fault (f : Fault)
deriving Repr, DecidableEq

/-- An assignment: the name and the text of its value. -/
def assignmentShape : Shape (Text × Text) := do
  let sign ← Shape.opt (Shape.char '@')
  let name ← Shape.run1 isNameChar
  let _ ← Shape.run Text.isPlainBlank
  let _ ← Shape.char '='
  let _ ← Shape.many Text.isPlainBlank
  let value ← Shape.run1 Query.isOnLine
  Shape.atEnd
  return (sign.toList ++ name, value)

/-- The name and the text of the value, if a line is an assignment. -/
def assignment? (line : Text) : Option (String × Text) :=
  (assignmentShape.read? line).map fun (name, value) => (String.ofList name, Text.strip value)

/-- The value of an expression with the session's variables. -/
def evaluate (s : Session) (expression : Text) : Except Failure Float :=
  match substitute s.bindings expression with
  | .error f => .error (.fault f)
  | .ok prepared =>
    match Expression.evaluate prepared with
    | .error e => .error (.expression e)
    | .ok x => .ok x

/-- The answer to a line that looks like a query. -/
def queryAnswer? (line : Text) : Option Text :=
  if Query.looksLikeQuery line then Query.resolve line else none

/-- The number of an answer, if it begins with a finite one. -/
def finiteAnswer (answer : Text) : Except Fault (Option Float) :=
  match Number.answerValue answer with
  | .found x => .ok (if x.isFinite then some x else none)
  | .nothing => .ok none
  | .broken e => .error e

/-- The session after a line, and the entry that the line gave. -/
abbrev Submitted := Session × Except Fault (Option Entry)

/-- Adds an entry to the log and gives it. -/
def conclude (s : Session) (e : Entry) : Submitted :=
  (s.addResult e, .ok (some e))

/-- Assigns the number of an answer to a name and to the last result.  An answer without a finite
number is not assigned, and the last result becomes zero. -/
def assignAnswer (s : Session) (line : String) (name : String) (answer : Text) : Submitted :=
  match finiteAnswer answer with
  | .error e => (s, .error e)
  | .ok number =>
    let s := match number with
      | some x => (s.setVariable name (.float x)).setLast x
      | none => s.setLast 0
    s.conclude ⟨line, name ++ " = " ++ String.ofList answer, Entry.units, .null⟩

/-- Assigns the value of an expression to a name and to the last result. -/
def assignValue (s : Session) (line : String) (name : String) (expression : Text) : Submitted :=
  match s.evaluate expression with
  | .error (.fault f) => (s, .error f)
  | .error (.expression e) => s.conclude (Entry.ofFailure line e.message)
  | .ok x =>
    ((s.setVariable name (.float x)).setLast x).conclude
      ⟨line, name ++ " = " ++ String.ofList (Number.numberText x), Entry.assignment, .null⟩

/-- Carries out a line that is an assignment; any other line gives no entry. -/
def assign (s : Session) (line : Text) : Submitted :=
  match assignment? line with
  | none => (s, .ok none)
  | some (name, expression) =>
    match queryAnswer? expression with
    | some answer => s.assignAnswer (String.ofList line) name answer
    | none => s.assignValue (String.ofList line) name expression

/-- Logs the answer to a query, and makes its number the last result. -/
def concludeAnswer (s : Session) (line : String) (answer : Text) : Submitted :=
  match finiteAnswer answer with
  | .error e => (s, .error e)
  | .ok number =>
    (s.setLast (number.getD 0)).conclude ⟨line, String.ofList answer, Entry.units, .null⟩

/-- Whether a line continues from the last result. -/
def continuesLast : Text → Bool
  | c :: _ => Query.isOperatorChar c
  | [] => false

/-- The session in which a last result that is no finite number has become zero. -/
def mendLast (s : Session) : Except Fault Session :=
  match ((s.value? lastName).getD .null).isFiniteNumber with
  | .ok true => .ok s
  | .ok false => .ok (s.setLast 0)
  | .error e => .error e

/-- Logs the value of an expression, and makes it the last result. -/
def concludeExpression (s : Session) (line : Text) : Submitted :=
  match s.evaluate (if continuesLast line then '@' :: line else line) with
  | .error (.fault f) => (s, .error f)
  | .error (.expression e) =>
    match s.mendLast with
    | .ok s => s.conclude (Entry.ofFailure (String.ofList line) e.message)
    | .error f => (s, .error f)
  | .ok x =>
    (s.setLast x).conclude
      ⟨String.ofList line, String.ofList (Number.numberText x), Entry.normal, .null⟩

/-- Carries out a line that is no assignment. -/
def answerLine (s : Session) (line : Text) : Submitted :=
  match queryAnswer? line with
  | some answer => s.concludeAnswer (String.ofList line) answer
  | none => s.concludeExpression line

/-- Submits a line.  Blank lines are ignored, and `clear` clears the session. -/
def submit (s : Session) (raw : String) : Submitted :=
  let line := Text.strip raw.toList
  if line.isEmpty then (s, .ok none)
  else
    let s := { s.addHistory (String.ofList line) with inputValue := "" }
    if line = "clear".toList then (s.clear, .ok none)
    else
      match s.assign line with
      | (s, .ok (some e)) => (s.limitVariables, .ok (some e))
      | (s, .error f) => (s, .error f)
      | (s, .ok none) => s.answerLine line

end DeskCalc.Session
