import DeskCalc.Number.Notation
import DeskCalc.Number.Rounding

/-!
# Numbers without noise

Answers of arithmetic and of conversions are rounded to a number of digits that hides the noise of
computing in doubles, and shown without the zeros that rounding leaves.
-/

namespace DeskCalc.Number

/-- What stands after the point of a text, if it has one. -/
def fractionOf (s : Text) : Text :=
  (s.dropWhile (· ≠ '.')).drop 1

/-- The number of zeros at the end of a text. -/
def trailingZeros (s : Text) : Nat :=
  (s.reverse.takeWhile (· == '0')).length

/-- The text without a fraction of zeros only. -/
def dropZeroFraction (s : Text) : Text :=
  let fraction := fractionOf s
  if !fraction.isEmpty && fraction.all (· == '0') then s.takeWhile (· ≠ '.') else s

/-- The text without the zeros at the end of a fraction that is not followed by an exponent. -/
def trimFraction (s : Text) : Text :=
  let fraction := fractionOf s
  if fraction.all Char.isDigit && fraction.any (· ≠ '0') then
    s.take (s.length - trailingZeros fraction)
  else dropZeroFraction s

/-- Whether the text ends in five or more zeros and a stray one or two. -/
def endsInArtifact (s : Text) : Bool :=
  match s.reverse with
  | d :: rest => (d == '1' || d == '2') && 5 ≤ (rest.takeWhile (· == '0')).length
  | [] => false

/-- A rounding of a number that may be shown in its place. -/
structure Candidate where
  places : Nat
  rounded : Float

/-- The text of a candidate, with all its places. -/
def Candidate.text (c : Candidate) : Text :=
  fixed c.rounded c.places

/-- The zeros at the end of a candidate's fraction. -/
def Candidate.zeros (c : Candidate) : Nat :=
  trailingZeros (fractionOf c.text)

/-- The rounding at `places` decimals, if it stays within `1e-9` of the number and does not look
like noise. -/
def candidate? (x : Float) (places : Nat) : Option Candidate :=
  let c : Candidate := ⟨places, roundScaled x places⟩
  if (x - c.rounded).abs ≥ 1e-9 then none
  else if 2 ≤ c.zeros || endsInArtifact c.text then none
  else some c

/-- Whether a candidate takes the place of the best one before it.  One without zeros is best, and
then one with fewer places; after more than one zero, a single one or more places are better. -/
def Candidate.beats (c best : Candidate) : Bool :=
  (c.zeros == 0 && best.zeros != 0) ||
    (c.zeros == 0 && best.zeros == 0 && c.places < best.places) ||
    (c.zeros == 1 && 1 < best.zeros) ||
    (1 < best.zeros && best.places < c.places)

/-- The better one of the best candidate so far and the next one. -/
def better (best c : Candidate) : Candidate :=
  if c.beats best then c else best

/-- A computed number as answers show it: the best of the roundings at up to six decimals, or six
decimals without the zeros at their end if none of them is close. -/
def display (x : Float) : Text :=
  if !x.isFinite then numberText x
  else match (List.range 7).filterMap (candidate? x) with
    | [] => trimFraction (fixed (roundScaled x 6) 6)
    | first :: others => dropZeroFraction (others.foldl better first).text

/-- The result of a conversion: twelve digits after the point or in all, fifteen for small
amounts. -/
def conversionText (x : Float) : Text :=
  let size := x.abs
  trimFraction <|
    if size < 1e-9 then significant x 15
    else if size < 1e-4 then fixed x 15
    else if size ≥ 1e5 then significant x 12
    else fixed x 12

end DeskCalc.Number
