/-!
# Digits of natural numbers

Natural numbers in positional notation: the digits of a number in a base, and back.
-/

namespace DeskCalc.Number

/-- The digits of `n` in front of the digits `low`, for as many rounds as `fuel` allows. -/
def digitsOnto (base : Nat) : Nat → Nat → List Nat → List Nat
  | 0, _, low => low
  | fuel + 1, n, low =>
    if n < base then n :: low else digitsOnto base fuel (n / base) (n % base :: low)

/-- The digits of `n` in a base of at least two, most significant first; zero has one digit. -/
def digitsIn (base n : Nat) : List Nat :=
  digitsOnto base (n.log2 + 1) n []

/-- The number that a row of digits denotes. -/
def ofDigits (base : Nat) (digits : List Nat) : Nat :=
  digits.foldl (fun n d => base * n + d) 0

/-- The character of a digit below sixteen. -/
def digitChar (d : Nat) : Char :=
  if d < 10 then Char.ofNat (48 + d) else Char.ofNat (87 + d)

/-- A natural number in decimal notation. -/
def natText (n : Nat) : List Char :=
  (digitsIn 10 n).map digitChar

/-- An integer in decimal notation. -/
def intText (n : Int) : List Char :=
  if n < 0 then '-' :: natText n.natAbs else natText n.natAbs

end DeskCalc.Number
