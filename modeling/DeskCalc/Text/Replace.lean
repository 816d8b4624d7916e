import DeskCalc.Text.Letter
import DeskCalc.Text.Word

/-!
# Replacing names

A name is replaced where it stands as a word of its own: at its ends, a word character must not
meet another one.  Text that was put in is not looked at again.
-/

namespace DeskCalc.Text

/-- Whether a place between two characters is the end or the beginning of a word. -/
def isBoundary (before after : Option Char) : Bool :=
  before.any isWord != after.any isWord

/-- How a name is looked for. -/
structure NameSearch where
  name : Text
  /-- whether letters match in either case -/
  anyCase : Bool
  /-- whether the name has to be a word of its own -/
  asWord : Bool

/-- Whether the name stands at the beginning of `s`, when `before` is the character in front. -/
def NameSearch.standsAt (n : NameSearch) (before : Option Char) (s : Text) : Bool :=
  let here := s.take n.name.length
  (if n.anyCase then sameLetters here n.name else here == n.name) &&
    (!n.asWord ||
      isBoundary before s.head? && isBoundary here.getLast? (s.drop n.name.length).head?)

/-- Replaces the name in a text that follows the character `before`; the first `skip` characters
belong to a name already replaced. -/
def NameSearch.replaceFrom (n : NameSearch) (value : Text) (before : Option Char) (skip : Nat) :
    Text → Text
  | [] => []
  | c :: rest =>
    if 0 < skip then n.replaceFrom value (some c) (skip - 1) rest
    else if n.standsAt before (c :: rest) then
      value ++ n.replaceFrom value (some c) (n.name.length - 1) rest
    else c :: n.replaceFrom value (some c) 0 rest

/-- The text with `value` in every place where the name is found. -/
def NameSearch.replace (n : NameSearch) (value s : Text) : Text :=
  n.replaceFrom value none 0 s

/-- Replaces a word, exactly as it is written. -/
def replaceWord (name value s : Text) : Text :=
  NameSearch.replace ⟨name, false, true⟩ value s

/-- Replaces a word in either case. -/
def replaceWordAnyCase (name value s : Text) : Text :=
  NameSearch.replace ⟨name, true, true⟩ value s

/-- Replaces a name in either case, inside of words too. -/
def replaceAnywhere (name value s : Text) : Text :=
  NameSearch.replace ⟨name, true, false⟩ value s

end DeskCalc.Text
