import DeskCalc.Number.Notation
import DeskCalc.Store
import DeskCalc.Text.Utf8

/-!
# Names of rows

The name of a row is a text.  A session that is asked for by a number is found under the text of
that number: all the digits of an integer, and fifteen significant digits of a double.  Null and NaN
have no text, so a row that is kept under them is never found, and lists and objects are no names.
-/

namespace DeskCalc.Store

/-- The power of ten from which on the leading digit of a double is written with an exponent. -/
def namePrecision : Nat := 15

/-- The digits of a name before an exponent; there are at least two. -/
def mantissaDigits (digits : Text) : Text :=
  if digits.length = 1 then digits ++ ['0'] else digits

/-- The name that a double stands for, if it is a number.  It shows a point in any case, but no
zeros at the end that are not needed for that. -/
def nameOfDouble? (x : Float) : Option Text :=
  if x.isNaN then none
  else if x.isInf then some (Number.signed (x < 0) "Inf".toList)
  else if x == 0 then some "0.0".toList
  else
    let b := Number.magnitude x
    let (k, power) := Number.significantDigits b.num b.den namePrecision
    let digits := Number.natText (Number.stripZeros namePrecision ⟨k, 0⟩).digits
    some <| Number.signed (x < 0) <|
      if power < -4 ∨ namePrecision ≤ power then
        Number.scientific 2 (mantissaDigits digits) power
      else Number.positional true digits power

/-- What a document that is used as the name of a row comes to. -/
inductive RowKey where
  /-- the name of a row -/
  | name (s : String)
  /-- a name under which rows may be kept, but never found again -/
  | missing
  /-- nothing that the store can be asked for -/
  | unfit
deriving Repr, DecidableEq

/-- The name of a row, if it is one. -/
def RowKey.name? : RowKey → Option String
  | name s => some s
  | _ => none

/-- What a document comes to as the name of a row.  An integer of more than 64 bits and a text with
halves of characters break the question off. -/
def rowKey : Json → Except Fault RowKey
  | .str s => (Text.toUtf8? s.toList).map fun _ => .name s
  | .int n =>
    if -(Number.twoTo 63 : Int) ≤ n ∧ n < Number.twoTo 63 then
      .ok (.name (String.ofList (Number.intText n)))
    else .error .tooLarge
  | .bool b => .ok (.name (if b then "1" else "0"))
  | .float x =>
    .ok (match nameOfDouble? x with
      | some name => .name (String.ofList name)
      | none => .missing)
  | .null => .ok .missing
  | .list _ => .ok .unfit
  | .object _ => .ok .unfit

/-! ### Rows by any name

As long as the store cannot be read, no name is even looked at. -/

/-- The document that is kept under the name that a document gives. -/
def loadBy (s : Store) (id : Json) : Except Fault (Option Json) := do
  if s.canRead then
    match ← rowKey id with
    | .name name => s.load name
    | _ => return none
  else return none

/-- Keeps a document under the name that a document gives, and tells whether that was possible. -/
def saveBy (s : Store) (id j : Json) : Except Fault (Store × Bool) := do
  if s.canRead then
    match ← rowKey id with
    | .name name => return s.save name j
    | .missing => return (s, s.canWrite)
    | .unfit => return (s, false)
  else return (s, false)

/-- Drops the document under the name that a document gives, and tells whether there was one that
could be dropped. -/
def deleteBy (s : Store) (id : Json) : Except Fault (Store × Bool) := do
  if s.canRead then
    match ← rowKey id with
    | .name name => return s.delete name
    | _ => return (s, false)
  else return (s, false)

end DeskCalc.Store
