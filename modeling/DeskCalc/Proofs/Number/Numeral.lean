import DeskCalc.Number.Reader
import DeskCalc.Proofs.Number.Digits
import DeskCalc.Proofs.Number.Readback
import DeskCalc.Proofs.Number.Values
import DeskCalc.Proofs.Text.Run

/-!
# Numerals and what follows them

Where a numeral stands at the beginning of a text, its parts are the runs of digits around the
point, and an exponent is looked for in what follows them.  A numeral stands for a number, and its
value is the double nearest to it.
-/

namespace DeskCalc.Number

open Text (StopsBefore takeWhile_run dropWhile_run)

theorem readNumeral?_whole {whole tail : Text} (hwhole : ∀ c ∈ whole, Text.isDigit c = true)
    (hne : whole ≠ []) (htail : StopsBefore Text.isDigit tail)
    (hpoint : StopsBefore (· == '.') tail) :
    readNumeral? (whole ++ tail) =
      some (⟨whole, [], (readExponent tail).1⟩, (readExponent tail).2) := by
  have hempty : whole.isEmpty = false := List.isEmpty_eq_false_iff.mpr hne
  simp only [readNumeral?, takeWhile_run hwhole htail, dropWhile_run hwhole htail, hempty]
  cases tail with
  | nil => rfl
  | cons c tail =>
    have hc : c ≠ '.' := by simpa using Text.stopsBefore_cons.mp hpoint
    split <;> split <;> simp_all

theorem readNumeral?_pointed {whole fraction tail : Text}
    (hwhole : ∀ c ∈ whole, Text.isDigit c = true)
    (hfraction : ∀ c ∈ fraction, Text.isDigit c = true)
    (hne : whole ≠ [] ∨ fraction ≠ []) (htail : StopsBefore Text.isDigit tail) :
    readNumeral? (whole ++ '.' :: (fraction ++ tail)) =
      some (⟨whole, fraction, (readExponent tail).1⟩, (readExponent tail).2) := by
  have hpoint : StopsBefore Text.isDigit ('.' :: (fraction ++ tail)) := by
    rw [Text.stopsBefore_cons]
    decide
  have hempty : (whole.isEmpty && fraction.isEmpty) = false := by
    rcases hne with hne | hne
    · simp [hne]
    · simp [hne]
  simp only [readNumeral?, takeWhile_run hwhole hpoint, dropWhile_run hwhole hpoint,
    takeWhile_run hfraction htail, dropWhile_run hfraction htail, hempty]
  rfl

/-- A point with no digit beside it is no numeral. -/
theorem readNumeral?_point {tail : Text} (htail : StopsBefore Text.isDigit tail) :
    readNumeral? ('.' :: tail) = none := by
  have hpoint : StopsBefore Text.isDigit ('.' :: tail) := by
    rw [Text.stopsBefore_cons]
    decide
  simp [readNumeral?, Text.takeWhile_of_stops hpoint, Text.dropWhile_of_stops hpoint,
    Text.takeWhile_of_stops htail]

/-- Without a digit or a point there is no numeral. -/
theorem readNumeral?_none {tail : Text} (htail : StopsBefore Text.isDigit tail)
    (hpoint : StopsBefore (· == '.') tail) : readNumeral? tail = none := by
  cases tail with
  | nil => rfl
  | cons c tail =>
    have hc : c ≠ '.' := by simpa using Text.stopsBefore_cons.mp hpoint
    simp only [readNumeral?, Text.takeWhile_of_stops htail, Text.dropWhile_of_stops htail]
    split <;> simp_all

/-! ## The number that a numeral stands for -/

namespace Numeral

/-- The number that a numeral stands for. -/
def number (n : Numeral) : ℚ :=
  (Text.digitsValue n.whole + Text.digitsValue n.fraction / 10 ^ n.fraction.length) *
    10 ^ n.exponent

variable (n : Numeral)

theorem number_eq : n.number =
    Text.digitsValue (n.whole ++ n.fraction) * 10 ^ (n.exponent - n.fraction.length) := by
  have hten : (10 : ℚ) ≠ 0 := by norm_num
  rw [number, digitsValue_append, zpow_sub₀ hten, zpow_natCast]
  push_cast
  field_simp

theorem number_eq_value : n.number =
    Decimal.value ⟨Text.digitsValue (n.whole ++ n.fraction), n.exponent - n.fraction.length⟩ :=
  n.number_eq

theorem number_nonneg : 0 ≤ n.number := by
  rw [number_eq]
  positivity

/-- Reading a numeral gives the double nearest to the number that it stands for. -/
theorem value_eq : n.value = nearestTo n.number := by
  rw [value, ofDecimal_eq]
  apply nearest_eq_nearestTo (Nat.pow_pos (by norm_num))
  · exact (decide_eq_false n.number_nonneg.not_gt).symm
  · rw [abs_of_nonneg n.number_nonneg, number_eq_value]
    exact (Decimal.quotient_eq _).symm

end Numeral

end DeskCalc.Number
