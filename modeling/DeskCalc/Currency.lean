import DeskCalc.Number.Notation

/-!
# Currencies

Amounts of money are converted by way of the dollar, at fixed rates, and shown with two decimals.
-/

namespace DeskCalc.Currency

/-- What one dollar is worth in each currency. -/
def rates : List (String × Float) :=
  [("USD", 1), ("EUR", 0.85), ("GBP", 0.73), ("JPY", 110.0), ("CAD", 1.25), ("AUD", 1.35),
   ("CHF", 0.92), ("CNY", 6.45)]

/-- The codes of all currencies. -/
def codes : List String :=
  rates.map Prod.fst

/-- An amount of one currency in another one, if both are known. -/
def convert? (amount : Float) (source target : String) : Option Text :=
  match rates.lookup source, rates.lookup target with
  | some r, some s => some (Number.fixed (amount / r * s) 2 ++ ' ' :: target.toList)
  | _, _ => none

end DeskCalc.Currency
