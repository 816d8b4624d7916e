import DeskCalc.Text.Basic

/-!
# Letters in either case

Keywords and unit words of a query may be written in either case.  Letters are compared by a key,
which besides the two cases of the basic alphabet joins the few characters that share a case with
one of its letters: the long s, the Kelvin sign, the dotless and the dotted i, and the Greek mu
with the micro sign.
-/

namespace DeskCalc.Text

/-- Two characters are the same letter when their keys agree. -/
def letterKey (c : Char) : Char :=
  if c.toNat < 128 then c.toLower
  else match c.toNat with
    | 0x17F => 's'
    | 0x212A => 'k'
    | 0x130 => 'i'
    | 0x131 => 'i'
    | 0x3BC => 'µ'
    | 0x39C => 'µ'
    | _ => c

/-- Whether two characters are the same letter, up to case. -/
def sameLetter (a b : Char) : Bool :=
  letterKey a == letterKey b

/-- Whether `c` is a letter of the basic alphabet. -/
def isLetter (c : Char) : Bool :=
  c.isAlpha

/-- Whether `c` is, up to case, a letter of the basic alphabet. -/
def isLetterAnyCase (c : Char) : Bool :=
  isLetter (letterKey c)

/-- Whether two texts agree letter by letter, up to case. -/
def sameLetters : Text → Text → Bool
  | [], [] => true
  | a :: s, b :: t => sameLetter a b && sameLetters s t
  | _, _ => false

/-- The upper-case form of a character as far as capitals of the basic alphabet occur in it; all
other characters stay as they are. -/
def capital (c : Char) : Text :=
  if c.toNat < 128 then [c.toUpper]
  else match c.toNat with
    | 0xDF => ['S', 'S']
    | 0x131 => ['I']
    | 0x149 => [Char.ofNat 0x2BC, 'N']
    | 0x17F => ['S']
    | 0x1F0 => ['J', Char.ofNat 0x30C]
    | 0x1E96 => ['H', Char.ofNat 0x331]
    | 0x1E97 => ['T', Char.ofNat 0x308]
    | 0x1E98 => ['W', Char.ofNat 0x30A]
    | 0x1E99 => ['Y', Char.ofNat 0x30A]
    | 0x1E9A => ['A', Char.ofNat 0x2BE]
    | 0xFB00 => ['F', 'F']
    | 0xFB01 => ['F', 'I']
    | 0xFB02 => ['F', 'L']
    | 0xFB03 => ['F', 'F', 'I']
    | 0xFB04 => ['F', 'F', 'L']
    | 0xFB05 => ['S', 'T']
    | 0xFB06 => ['S', 'T']
    | _ => [c]

/-- The text in capitals. -/
def capitals (s : Text) : Text :=
  s.flatMap capital

end DeskCalc.Text
