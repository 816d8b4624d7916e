import DeskCalc.Attempt
import DeskCalc.Json.Basic
import DeskCalc.Text.Half

/-!
# Sessions

A session keeps the variables, the lines that were entered and the log of their results.  The
variable `@` holds the last numeric result.  Values are documents, because a stored session may
hold any; all operations put doubles there.
-/

namespace DeskCalc

/-- How much a session keeps. -/
structure Limits where
  history : Nat
  /-- how many variables besides the last result -/
  bindings : Nat
  results : Nat
deriving Repr, DecidableEq

/-- A line of the result log.  Its kind is one of the four names below unless it was restored. -/
structure Entry where
  input : String
  output : String
  kind : String
  error : Json

namespace Entry

/-- The kind of a number. -/
def normal : String := "normal"

/-- The kind of an answer to a query. -/
def units : String := "units"

/-- The kind of an assignment. -/
def assignment : String := "variable"

/-- The kind of a failure. -/
def failure : String := "error"

/-- Whether the line failed. -/
def isFailure (e : Entry) : Bool :=
  e.kind == failure

/-- The entry of a line that failed. -/
def ofFailure (line message : String) : Entry :=
  ⟨line, "Error: " ++ message, failure, .str message⟩

end Entry

/-- A position in the history or in the input field.  A stored session may give the positions zero
and one as truth values, and they are stored as such again. -/
inductive Mark where
  | at (n : Int)
  | flag (b : Bool)
deriving Repr, DecidableEq

namespace Mark

/-- The position itself. -/
def place : Mark → Int
  | .at n => n
  | .flag b => if b then 1 else 0

/-- The position as it is stored. -/
def toJson : Mark → Json
  | .at n => .int n
  | .flag b => .bool b

/-- The position that a document gives, if it is of the right kind. -/
def ofJson? : Json → Option Mark
  | .int n => some (.at n)
  | .bool b => some (.flag b)
  | _ => none

end Mark

/-- The state of a session. -/
structure Session where
  limits : Limits
  history : List String
  cursor : Mark
  /-- the variables with their values, in the order in which they came -/
  bindings : List (String × Json)
  results : List Entry
  inputValue : String
  cursorStart : Mark
  cursorEnd : Mark

namespace Session

/-- The name of the last result. -/
def lastName : String := "@"

/-- A session in which nothing has happened. -/
def fresh (limits : Limits) : Session where
  limits := limits
  history := []
  cursor := .at 0
  bindings := [(lastName, .float 0)]
  results := []
  inputValue := ""
  cursorStart := .at 0
  cursorEnd := .at 0

/-- The last `n` elements of a list. -/
def lastOf {α : Type} (n : Nat) (xs : List α) : List α :=
  xs.drop (xs.length - n)

/-- The value of a variable. -/
def value? (s : Session) (name : String) : Option Json :=
  s.bindings.lookup name

/-- Sets a variable.  A new one goes to the end. -/
def setVariable (s : Session) (name : String) (value : Json) : Session :=
  { s with bindings := Json.setMember name value s.bindings }

/-- Sets the last result. -/
def setLast (s : Session) (x : Float) : Session :=
  s.setVariable lastName (.float x)

/-- The names of the variables besides the last result, in the order in which they came. -/
def names (s : Session) : List String :=
  (s.bindings.map Prod.fst).filter (· ≠ lastName)

/-- The names of the variables besides the last result, sorted by the numbers of their
characters. -/
def sortedNames (s : Session) : List String :=
  s.names.mergeSort fun a b => Text.sortsBefore a.toList b.toList

/-- Drops the first ones of the sorted names that are more than the session keeps. -/
def limitVariables (s : Session) : Session :=
  let sorted := s.sortedNames
  let dropped := sorted.take (sorted.length - s.limits.bindings)
  { s with bindings := s.bindings.filter fun v => !dropped.contains v.1 }

/-- Adds a line to the history and moves the cursor behind it. -/
def addHistory (s : Session) (line : String) : Session :=
  let history := lastOf s.limits.history (s.history ++ [line])
  { s with history := history, cursor := .at history.length }

/-- Adds an entry to the log. -/
def addResult (s : Session) (e : Entry) : Session :=
  { s with results := lastOf s.limits.results (s.results ++ [e]) }

/-- Forgets everything but the limits. -/
def clear (s : Session) : Session :=
  fresh s.limits

/-- Moves the cursor through the history and recalls the line there; behind the last line there is
the empty input.  Without a history nothing moves. -/
def navigate (s : Session) (step : Int) : Session × String :=
  if s.history.isEmpty then (s, s.inputValue)
  else
    let target := s.cursor.place + step
    let place := min (max target 0) s.history.length
    let line := (s.history[place.toNat]?).getD ""
    ({ s with cursor := .at place, inputValue := line }, line)

end Session
end DeskCalc
