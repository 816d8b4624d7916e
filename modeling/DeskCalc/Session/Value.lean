import DeskCalc.Attempt
import DeskCalc.Json.Plain
import DeskCalc.Number.Reader

/-!
# Numbers in documents

Two ways to take a document as a number: by the number at the beginning of its text, as stored
variables are restored, and by its whole text, as variables are used.
-/

namespace DeskCalc.Json

/-- The number of a document, or the one at the beginning of its text.  Null and truth values have
none, and an integer may be too large for one. -/
def leadingNumber : Json → Attempt Float
  | null => .nothing
  | bool _ => .nothing
  | int n => Attempt.orBreak .tooLarge (Number.ofInt? n)
  | float x => .found x
  | j => Attempt.ofOption (Number.leadingNumber? j.plain)

/-- The number of a document that is used as one. -/
def wholeNumber : Json → Except Fault Float
  | bool b => .ok (if b then 1 else 0)
  | int n =>
    match Number.ofInt? n with
    | some x => .ok x
    | none => .error .tooLarge
  | float x => .ok x
  | str s =>
    match Number.wholeNumber? s.toList with
    | some x => .ok x
    | none => .error .notNumeric
  | _ => .error .noNumber

/-- Whether a document is a finite number as it stands.  An integer may be too large to tell. -/
def isFiniteNumber : Json → Except Fault Bool
  | bool _ => .ok true
  | int n => if (Number.ofInt? n).isSome then .ok true else .error .tooLarge
  | float x => .ok x.isFinite
  | _ => .ok false

end DeskCalc.Json
