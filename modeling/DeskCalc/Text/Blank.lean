import DeskCalc.Text.Basic

/-!
# Blanks

Blanks are the characters of Unicode's white space together with the four separators U+001C to
U+001F.  Lines are stripped of them at both ends before they are read.
-/

namespace DeskCalc.Text

/-- All blanks. -/
def blankRanges : Ranges :=
  [(0x09, 0x0D), (0x1C, 0x20), (0x85, 0x85), (0xA0, 0xA0), (0x1680, 0x1680), (0x2000, 0x200A),
   (0x2028, 0x2029), (0x202F, 0x202F), (0x205F, 0x205F), (0x3000, 0x3000)]

/-- Whether `c` is a blank. -/
def isBlank (c : Char) : Bool :=
  blankRanges.contains c

/-- Whether `c` is a blank of the basic alphabet that is not a separator. -/
def isPlainBlank (c : Char) : Bool :=
  c == ' ' || (9 ≤ c.toNat && c.toNat ≤ 13)

/-- Whether `c` is a blank that may stand around a number: any but the four separators. -/
def isNumberBlank (c : Char) : Bool :=
  isBlank c && !(0x1C ≤ c.toNat && c.toNat ≤ 0x1F)

/-- The text without the characters of the class `p` at its ends. -/
def trim (p : Char → Bool) (s : Text) : Text :=
  ((s.dropWhile p).reverse.dropWhile p).reverse

/-- The text without the blanks that precede it. -/
def stripLeft (s : Text) : Text :=
  s.dropWhile isBlank

/-- The text without the blanks at its ends. -/
def strip (s : Text) : Text :=
  trim isBlank s

end DeskCalc.Text
