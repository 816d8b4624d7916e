import DeskCalc.Attempt
import DeskCalc.Json.Basic
import DeskCalc.Number.Reader
import DeskCalc.Text.Half

/-!
# Reading documents

A document is read from the left.  Besides the usual form, the names of NaN and the infinities are
accepted.  A name that an object has twice keeps its first place and its last value.
-/

namespace DeskCalc.Json

/-- Why a text is no document that can be used. -/
inductive ReadError where
  /-- the text does not have the form of a document -/
  | malformed
  /-- an integer has more digits than are read -/
  | tooLong
  /-- lists and objects are nested too deeply -/
  | tooDeep
deriving Repr, DecidableEq

/-- What a text breaks reading off with.  A text without the form of a document does not: it only
is none. -/
def ReadError.fault? : ReadError → Option Fault
  | malformed => none
  | tooLong => some .tooLong
  | tooDeep => some .tooDeep

/-- A reader gives what stands at the beginning of a text, and what follows it. -/
abbrev Reader (α : Type) := Text → Except ReadError (α × Text)

/-- Blanks between the parts of a document. -/
def isSpace (c : Char) : Bool :=
  c == ' ' || c == '\t' || c == '\n' || c == '\r'

/-- The text without the blanks that precede it. -/
def skipSpace (s : Text) : Text :=
  s.dropWhile isSpace

/-- The value of a hexadecimal digit. -/
def hexValue? (c : Char) : Option Nat :=
  if c.isDigit then some (c.toNat - 48)
  else if 'a' ≤ c ∧ c ≤ 'f' then some (c.toNat - 87)
  else if 'A' ≤ c ∧ c ≤ 'F' then some (c.toNat - 55)
  else none

/-- Four hexadecimal digits. -/
def readHex? : Text → Option (Nat × Text)
  | a :: b :: c :: d :: rest => do
    let n := ((← hexValue? a) * 16 + (← hexValue? b)) * 256
    return (n + (← hexValue? c) * 16 + (← hexValue? d), rest)
  | _ => none

/-- The character that a single letter after a backslash stands for. -/
def escape? : Char → Option Char
  | '"' => some '"'
  | '\\' => some '\\'
  | '/' => some '/'
  | 'b' => some '\x08'
  | 'f' => some '\x0c'
  | 'n' => some '\n'
  | 'r' => some '\r'
  | 't' => some '\t'
  | _ => none

/-- The number of a numeric escape at the beginning of a text, if it is the second half of a
pair. -/
def readLowHalf? : Text → Option (Nat × Text)
  | '\\' :: 'u' :: rest => (readHex? rest).filter fun (n, _) => Text.isLowHalf n
  | _ => none

/-- The text of a numeric escape with the number `n`.  Two halves of a pair give one character. -/
def pairUp (n : Nat) (rest : Text) : Text × Text :=
  match if Text.isHighHalf n then readLowHalf? rest else none with
  | some (low, after) => (Text.ofCode (Text.ofHalves n low), after)
  | none => (Text.ofCode n, rest)

/-- The characters of a string up to its closing quote; `fuel` bounds their number. -/
def readStringBody : Nat → Reader Text
  | 0, _ => .error .malformed
  | _ + 1, [] => .error .malformed
  | fuel + 1, c :: rest =>
    if c = '"' then .ok ([], rest)
    else if c = '\\' then
      match rest with
      | 'u' :: more =>
        match readHex? more with
        | some (n, after) =>
          let (sign, after) := pairUp n after
          (readStringBody fuel after).map fun (s, r) => (sign ++ s, r)
        | none => .error .malformed
      | e :: more =>
        match escape? e with
        | some d => (readStringBody fuel more).map fun (s, r) => (d :: s, r)
        | none => .error .malformed
      | [] => .error .malformed
    else if c.toNat < 32 then .error .malformed
    else (readStringBody fuel rest).map fun (s, r) => (c :: s, r)

/-- A string, after its opening quote. -/
def readString (s : Text) : Except ReadError (String × Text) :=
  (readStringBody (s.length + 1) s).map fun (cs, rest) => (String.ofList cs, rest)

/-- The digits of an integer at the beginning of a text: a zero, or digits that do not begin with
one. -/
def readWhole? (s : Text) : Option (Text × Text) :=
  match s with
  | '0' :: rest => some (['0'], rest)
  | _ =>
    match s.takeWhile Char.isDigit with
    | [] => none
    | digits => some (digits, s.dropWhile Char.isDigit)

/-- A fraction at the beginning of a text, empty if there is none. -/
def readFraction (s : Text) : Text × Text :=
  match s with
  | '.' :: rest =>
    match rest.takeWhile Char.isDigit with
    | [] => ([], s)
    | digits => (digits, rest.dropWhile Char.isDigit)
  | _ => ([], s)

/-- An exponent at the beginning of a text, if there is a complete one. -/
def readPower? (s : Text) : Option (Int × Text) :=
  match s with
  | c :: rest =>
    if c = 'e' ∨ c = 'E' then
      let (negative, digits) := Number.readSign rest
      match digits.takeWhile Char.isDigit with
      | [] => none
      | power =>
        let n : Int := Text.digitsValue power
        some (if negative then -n else n, digits.dropWhile Char.isDigit)
    else none
  | [] => none

/-- A number without its sign.  It is an integer unless it has a fraction or an exponent. -/
def readMagnitude (negative : Bool) (s : Text) : Except ReadError (Json × Text) :=
  match readWhole? s with
  | none => .error .malformed
  | some (whole, rest) =>
    let (fraction, rest) := readFraction rest
    let power := readPower? rest
    if fraction.isEmpty && power.isNone then
      match Number.readNat? whole with
      | some n => .ok (int (if negative then -(n : Int) else n), rest)
      | none => .error .tooLong
    else
      let (exponent, rest) := power.getD (0, rest)
      let numeral : Number.Numeral := ⟨whole, fraction, exponent⟩
      .ok (float (Number.applySign negative numeral.value), rest)

/-- The words that are documents. -/
def words : List (Text × Json) :=
  [("null".toList, null), ("true".toList, bool true), ("false".toList, bool false),
   ("NaN".toList, float Number.notANumber), ("Infinity".toList, float Number.infinity),
   ("-Infinity".toList, float (-Number.infinity))]

/-- A word or a number. -/
def readAtom (s : Text) : Except ReadError (Json × Text) :=
  match words.find? fun w => w.1.isPrefixOf s with
  | some (w, j) => .ok (j, s.drop w.length)
  | none =>
    match s with
    | '-' :: rest => readMagnitude true rest
    | _ => readMagnitude false s

/-- How deeply lists and objects may be nested. -/
def nestingRoom : Nat := 980

mutual

/-- A document at the beginning of a text; `fuel` bounds how far its parts are followed, and `room`
how deeply they are nested. -/
def readValue : (fuel room : Nat) → Reader Json
  | 0, _, _ => .error .malformed
  | fuel + 1, room, s =>
    match s with
    | [] => .error .malformed
    | c :: rest =>
      if c = '"' then (readString rest).map fun (t, r) => (str t, r)
      else if c = '[' then
        if room = 0 then .error .tooDeep
        else
          match skipSpace rest with
          | ']' :: after => .ok (list [], after)
          | first => (readItems fuel (room - 1) first).map fun (items, r) => (list items, r)
      else if c = '\x7b' then
        if room = 0 then .error .tooDeep
        else
          match skipSpace rest with
          | '\x7d' :: after => .ok (object [], after)
          | first =>
            (readMembers fuel (room - 1) [] first).map fun (members, r) => (object members, r)
      else readAtom s

/-- The items of a list from one of them up to its closing bracket. -/
def readItems : (fuel room : Nat) → Reader (List Json)
  | 0, _, _ => .error .malformed
  | fuel + 1, room, s => do
    let (item, rest) ← readValue fuel room s
    match skipSpace rest with
    | ',' :: after =>
      (readItems fuel room (skipSpace after)).map fun (items, r) => (item :: items, r)
    | ']' :: after => .ok ([item], after)
    | _ => .error .malformed

/-- The members of an object from one of them up to its closing brace, added to those already
read. -/
def readMembers : (fuel room : Nat) → List (String × Json) → Reader (List (String × Json))
  | 0, _, _, _ => .error .malformed
  | fuel + 1, room, members, s =>
    match s with
    | '"' :: rest => do
      let (name, rest) ← readString rest
      match skipSpace rest with
      | ':' :: rest => do
        let (value, rest) ← readValue fuel room (skipSpace rest)
        let members := setMember name value members
        match skipSpace rest with
        | ',' :: after => readMembers fuel room members (skipSpace after)
        | '\x7d' :: after => .ok (members, after)
        | _ => .error .malformed
      | _ => .error .malformed
    | _ => .error .malformed

end

/-- The document that a text consists of, blanks around it aside. -/
def read (s : Text) : Except ReadError Json := do
  let (j, rest) ← readValue (s.length + 1) nestingRoom (skipSpace s)
  if (skipSpace rest).isEmpty then .ok j else .error .malformed

/-- The document that a string consists of. -/
def parse (s : String) : Except ReadError Json :=
  read s.toList

/-- The document that a text consists of, if it has the form of one. -/
def read? (s : Text) : Except Fault (Option Json) :=
  match read s with
  | .ok j => .ok (some j)
  | .error e =>
    match e.fault? with
    | none => .ok none
    | some f => .error f

/-- The document that a string consists of, or another one if the string has the form of none. -/
def parseOr (default : Json) (s : String) : Except Fault Json :=
  (read? s.toList).map fun j => j.getD default

end DeskCalc.Json
