import DeskCalc.Number.Binary
import DeskCalc.Number.Digits

/-!
# Shortest decimals

The shortest decimal of a double is the one with the fewest digits among those that read back to
it; of several with that many digits the one nearest to the double's exact value, and of two
equally near ones the one with the even last digit.
-/

namespace DeskCalc.Number

/-- The decimal number `digits · 10 ^ exponent`. -/
structure Decimal where
  digits : Nat
  exponent : Int
deriving Repr, DecidableEq

/-- How often `num` has to be multiplied by ten to reach `den`. -/
def tensToReach : Nat → Nat → Nat → Nat
  | 0, _, _ => 0
  | fuel + 1, num, den => if den ≤ num then 0 else tensToReach fuel (10 * num) den + 1

/-- The power of ten at which the positive quotient `num / den` has its first digit. -/
def leadingPower (num den : Nat) : Int :=
  if den ≤ num then ((digitsIn 10 (num / den)).length : Int) - 1
  else -(tensToReach (den.log2 + 1) num den : Int)

/-- Whether a decimal, read as a number, is the double with these magnitude bits. -/
def Decimal.readsAs (d : Decimal) (bits : Nat) : Bool :=
  nearestBits (d.digits * tenTo d.exponent.toNat) (tenTo (-d.exponent).toNat) == bits

/-- On the grid of the multiples of `10 ^ exponent`, the neighbour of `num / den` that reads back
to the double with these bits, and the nearer one if both do. -/
def onGrid? (bits num den : Nat) (exponent : Int) : Option Decimal :=
  let top := num * tenTo (-exponent).toNat
  let bottom := den * tenTo exponent.toNat
  let below : Decimal := ⟨top / bottom, exponent⟩
  let above : Decimal := ⟨top / bottom + 1, exponent⟩
  match below.readsAs bits, above.readsAs bits with
  | true, true => some ⟨halfEven top bottom, exponent⟩
  | true, false => some below
  | false, true => some above
  | false, false => none

/-- The same decimal without zeros at the end of its digits. -/
def stripZeros : Nat → Decimal → Decimal
  | 0, d => d
  | fuel + 1, d =>
    if d.digits ≠ 0 ∧ d.digits % 10 = 0 then stripZeros fuel ⟨d.digits / 10, d.exponent + 1⟩ else d

/-- The exact decimal value of a magnitude. -/
def Binary.exactDecimal (b : Binary) : Decimal :=
  if b.exponent < 0 then ⟨b.mantissa * fiveTo (-b.exponent).toNat, b.exponent⟩ else ⟨b.num, 0⟩

/-- The shortest decimal of the magnitude of a finite double other than zero.  Up to seventeen
digits are tried; the exact value stands in reserve. -/
def shortest (x : Float) : Decimal :=
  let b := magnitude x
  let bits := x.toBits.toNat % twoTo 63
  let power := leadingPower b.num b.den
  let found := (List.range 17).findSome? fun (n : Nat) => onGrid? bits b.num b.den (power - n)
  let d := found.getD b.exactDecimal
  stripZeros (d.digits.log2 + 1) d

end DeskCalc.Number
