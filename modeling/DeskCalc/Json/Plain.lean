import DeskCalc.Json.Writer
import DeskCalc.Text.Printable

/-!
# Documents as running text

A field that holds text may be restored from any document.  A string stands for itself; every
other document is written out, with strings inside of it in quotes.
-/

namespace DeskCalc.Json

/-- The escape of a character or a half that is not printable. -/
def hiddenCode (n : Nat) : Text :=
  if n < 0x100 then '\\' :: 'x' :: hexText 2 n
  else if n < 0x10000 then '\\' :: 'u' :: hexText 4 n
  else '\\' :: 'U' :: hexText 8 n

/-- A character or a half inside quotes, given by its number: quotes of the kind around it,
backslashes and what is not printable are escaped. -/
def quotedCode (quote : Char) (n : Nat) : Text :=
  let c := Char.ofNat n
  if Text.isHalf n then hiddenCode n
  else if c = quote || c = '\\' then ['\\', c]
  else if c = '\n' then ['\\', 'n']
  else if c = '\r' then ['\\', 'r']
  else if c = '\t' then ['\\', 't']
  else if Text.isPrintable c then [c]
  else hiddenCode n

/-- A string in quotes: single ones, unless they and no double ones occur in it. -/
def quoted (s : Text) : Text :=
  let quote := if s.contains '\'' && !s.contains '"' then '"' else '\''
  quote :: (Text.codes s).flatMap (quotedCode quote) ++ [quote]

mutual

/-- A document that is part of another one. -/
def inner : Json → Text
  | null => "None".toList
  | bool true => "True".toList
  | bool false => "False".toList
  | int n => Number.intText n
  | float x => Number.recordLayout.text x
  | str s => quoted s.toList
  | list items => '[' :: innerItems items ++ [']']
  | object members => '\x7b' :: innerMembers members ++ ['\x7d']

/-- The items of a list, with commas between them. -/
def innerItems : List Json → Text
  | [] => []
  | item :: items =>
    inner item ++ (if items.isEmpty then [] else [',', ' ']) ++ innerItems items

/-- The members of an object, with commas between them. -/
def innerMembers : List (String × Json) → Text
  | [] => []
  | (name, value) :: members =>
    quoted name.toList ++ [':', ' '] ++ inner value ++
      (if members.isEmpty then [] else [',', ' ']) ++ innerMembers members

end

/-- The text that a document stands for. -/
def plain : Json → Text
  | str s => s.toList
  | j => inner j

end DeskCalc.Json
