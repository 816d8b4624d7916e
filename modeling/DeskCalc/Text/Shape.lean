import DeskCalc.Text.Blank
import DeskCalc.Text.Choices
import DeskCalc.Text.Digit
import DeskCalc.Text.Letter

/-!
# Shapes of text

A shape describes what a line, or a part of it, may look like.  Reading a text by a shape gives
the ways in which the shape fits the beginning of the text, each with what was read and with the
text that is left; repetitions prefer to take as much as possible.  Shapes are put together with
`do`, one part after the other, and with `<|>` for alternatives.

Of repetitions there are two kinds.  A run takes all the characters of its class that stand there;
this is enough wherever what follows cannot begin with such a character.  The others take as much
as they can and give back what the following parts need.
-/

namespace DeskCalc.Text

/-- A shape that yields an `α` for each way to fit it. -/
structure Shape (α : Type) where
  ways : Text → Choices (α × Text)

namespace Shape

variable {α β : Type}

instance : Monad Shape where
  pure a := ⟨fun s => .one (a, s)⟩
  bind x f := ⟨fun s => (x.ways s).bind fun r => (f r.1).ways r.2⟩

instance : OrElse (Shape α) where
  orElse x y := ⟨fun s => (x.ways s).orElse fun _ => (y ()).ways s⟩

/-- What the preferred way to fit the beginning of the text yields. -/
def read? (x : Shape α) (s : Text) : Option α :=
  (x.ways s).first?.map Prod.fst

/-- Whether the shape fits the beginning of the text. -/
def fits (x : Shape α) (s : Text) : Bool :=
  (x.ways s).first?.isSome

/-- Whether the shape fits somewhere in the text. -/
def fitsWithin (x : Shape α) : Text → Bool
  | [] => x.fits []
  | c :: rest => x.fits (c :: rest) || fitsWithin x rest

/-- A single character of the class `p`. -/
def one (p : Char → Bool) : Shape Char :=
  ⟨fun s => match s with
    | [] => .none
    | c :: rest => if p c then .one (c, rest) else .none⟩

/-- All the characters of the class `p` that stand here, at least one. -/
def run1 (p : Char → Bool) : Shape Text :=
  ⟨fun s => match s.takeWhile p with
    | [] => .none
    | w => .one (w, s.dropWhile p)⟩

/-- All the characters of the class `p` that stand here, if any. -/
def run (p : Char → Bool) : Shape Text :=
  ⟨fun s => .one (s.takeWhile p, s.dropWhile p)⟩

/-- The non-empty beginnings of `taken`, which is held last character first, with what is left
when `rest` follows; the longest first. -/
def backOff : (taken : Text) → (rest : Text) → Choices (Text × Text)
  | [], _ => .none
  | c :: taken, rest => .more ((c :: taken).reverse, rest) fun _ => backOff taken (c :: rest)

/-- One or more characters of the class `p`, the more the better. -/
def many1 (p : Char → Bool) : Shape Text :=
  ⟨fun s => backOff (s.takeWhile p).reverse (s.dropWhile p)⟩

/-- Any number of characters of the class `p`, the more the better. -/
def many (p : Char → Bool) : Shape Text :=
  many1 p <|> pure []

/-- The text `part`, exactly. -/
def exactly (part : Text) : Shape Text :=
  ⟨fun s => if part.isPrefixOf s then .one (part, s.drop part.length) else .none⟩

/-- The word `w`, in either case; yields it as it is written. -/
def word (w : Text) : Shape Text :=
  ⟨fun s =>
    let here := s.take w.length
    if sameLetters here w then .one (here, s.drop w.length) else .none⟩

/-- The first of the words that fits, in either case. -/
def anyWord : List Text → Shape Text
  | [] => ⟨fun _ => .none⟩
  | w :: ws => word w <|> anyWord ws

/-- `x`, or else nothing at all. -/
def opt (x : Shape α) : Shape (Option α) :=
  (some <$> x) <|> pure none

/-- The end of the text; a single line break may still follow. -/
def atEnd : Shape Unit :=
  ⟨fun s => if s.isEmpty || s == ['\n'] then .one ((), s) else .none⟩

/-- A run of decimal digits. -/
def digits : Shape Text :=
  run1 isDigit

/-- A run of blanks. -/
def blanks1 : Shape Text :=
  run1 isBlank

/-- A run of blanks, or none. -/
def blanks : Shape Text :=
  run isBlank

/-- A single character, exactly. -/
def char (c : Char) : Shape Char :=
  one (· == c)

end Shape
end DeskCalc.Text
