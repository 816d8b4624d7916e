import DeskCalc.Attempt
import DeskCalc.Number.Radix
import DeskCalc.Number.Reader

/-!
# Reading numbers of other bases

Numerals of the bases two, eight and sixteen begin with a zero and the mark of their base.  They
may have any number of digits, but not a value beyond all doubles.
-/

namespace DeskCalc.Number

/-- The value of a digit of up to sixteen, in either case. -/
def digitOf? (c : Char) : Option Nat :=
  if c.isDigit then some (c.toNat - 48)
  else if 'a' ≤ c ∧ c ≤ 'f' then some (c.toNat - 87)
  else if 'A' ≤ c ∧ c ≤ 'F' then some (c.toNat - 55)
  else none

/-- The number that a row of digits denotes in a base, if there are any and all belong to it. -/
def readDigits? (base : Nat) (digits : Text) : Option Nat :=
  match digits.mapM digitOf? with
  | some (d :: ds) => if (d :: ds).all (· < base) then some (ofDigits base (d :: ds)) else none
  | _ => none

/-- The base that a mark in either case announces. -/
def Radix.ofMark? (c : Char) : Option Radix :=
  [Radix.hex, .octal, .binary].find? fun r => r.mark == c.toLower

/-- An operand: a numeral with the mark of its base, or the number at the beginning of the
text. -/
def readOperand (s : Text) : Attempt Float :=
  let s := Text.strip s
  let based := match s with
    | '0' :: mark :: digits => (Radix.ofMark? mark).map (·, digits)
    | _ => none
  match based with
  | some (r, digits) => do
    let n ← Attempt.ofOption (readDigits? r.base digits)
    Attempt.orBreak .tooLarge (ofInt? n)
  | none => Attempt.ofOption (leadingNumber? s)

/-- A numeral with the mark of its base, with a sign behind the mark: base, sign and digits. -/
def marked? (s : Text) : Option (Radix × Bool × Text) :=
  match s with
  | '0' :: mark :: rest => do
    let r ← Radix.ofMark? mark
    let (negative, digits) := match rest with
      | '-' :: digits => (true, digits)
      | digits => (false, digits)
    if !digits.isEmpty && digits.all fun c => (digitOf? c).isSome then some (r, negative, digits)
    else none
  | _ => none

/-- The digits behind a mark.  A mark that is a digit itself may stand before them once more, behind
another zero. -/
def Radix.dropMark (r : Radix) : Text → Text
  | '0' :: mark :: digits => if r.mark = mark.toLower then digits else '0' :: mark :: digits
  | digits => digits

/-- The number that an answer begins with.  If the whole answer has the form of an integer of
another base, its digits have to belong to that base. -/
def answerValue (s : Text) : Attempt Float :=
  let s := Text.strip s
  match marked? s with
  | some (r, negative, digits) => do
    let n ← Attempt.ofOption (readDigits? r.base (r.dropMark digits))
    Attempt.orBreak .tooLarge (ofInt? (if negative then -(n : Int) else n))
  | none => Attempt.ofOption (leadingNumber? s)

end DeskCalc.Number
