import DeskCalc.Json.Basic
import DeskCalc.Number.Layout
import DeskCalc.Text.Half

/-!
# Writing documents

A document is written on one line.  Strings escape quotes, backslashes, controls and halves of
pairs only, and a double always shows a point, an exponent or a name, so that it is read back as a
double.
-/

namespace DeskCalc.Json

/-- `n` in hexadecimal with at least `width` digits. -/
def hexText (width n : Nat) : Text :=
  let digits := (Number.digitsIn 16 n).map Number.digitChar
  Number.zeros (width - digits.length) ++ digits

/-- A character or a half inside a string, given by its number. -/
def writeCode (n : Nat) : Text :=
  if n = '"'.toNat then ['\\', '"']
  else if n = '\\'.toNat then ['\\', '\\']
  else if n < 32 || Text.isHalf n then '\\' :: 'u' :: hexText 4 n
  else Text.ofCode n

/-- A string in quotes. -/
def writeString (s : String) : Text :=
  '"' :: (Text.codes s.toList).flatMap writeCode ++ ['"']

mutual

/-- The text of a document. -/
def write : Json → Text
  | null => "null".toList
  | bool true => "true".toList
  | bool false => "false".toList
  | int n => Number.intText n
  | float x => Number.documentLayout.text x
  | str s => writeString s
  | list items => '[' :: writeItems items ++ [']']
  | object members => '\x7b' :: writeMembers members ++ ['\x7d']

/-- The items of a list, with commas between them. -/
def writeItems : List Json → Text
  | [] => []
  | item :: items =>
    write item ++ (if items.isEmpty then [] else [',', ' ']) ++ writeItems items

/-- The members of an object, with commas between them. -/
def writeMembers : List (String × Json) → Text
  | [] => []
  | (name, value) :: members =>
    writeString name ++ [':', ' '] ++ write value ++
      (if members.isEmpty then [] else [',', ' ']) ++ writeMembers members

end

/-- The text of a document, as a string. -/
def render (j : Json) : String :=
  String.ofList (write j)

end DeskCalc.Json
