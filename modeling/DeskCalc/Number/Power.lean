/-!
# Powers

The powers that the notations of numbers are made of.
-/

namespace DeskCalc.Number

/-- `2 ^ n` -/
def twoTo (n : Nat) : Nat :=
  Nat.pow 2 n

/-- `5 ^ n` -/
def fiveTo (n : Nat) : Nat :=
  Nat.pow 5 n

/-- `10 ^ n` -/
def tenTo (n : Nat) : Nat :=
  Nat.pow 10 n

end DeskCalc.Number
