import DeskCalc.Proofs.Number.Conversions
import DeskCalc.Proofs.Number.Fractions
import DeskCalc.Proofs.Number.Integers

/-!
# Sums of whole numbers

Whole numbers up to `2 ^ 52` are added alike as doubles and as the decimals that they show.  Rounding
them changes nothing, and however many places they are written with, the same number is read back.
-/

namespace DeskCalc.Number

variable {x y : Float} {m k n : ℤ}

/-- Infinities and what is no number have the bits of much larger values. -/
theorem isFinite_of_abs_le (h : |exactValue x| ≤ 2 ^ 53) : x.isFinite = true := by
  rw [isFinite_iff_field]
  intro hfull
  have hmagnitude : magnitude x = ⟨2 ^ 52 + mantissaField x.toBits.toNat, 972⟩ := by
    rw [magnitude_eq, if_neg (by omega), hfull]
    rfl
  have hmantissa : (2 : ℚ) ^ 52 ≤ (2 ^ 52 + mantissaField x.toBits.toNat : ℕ) := by
    exact_mod_cast Nat.le_add_right _ _
  have hpower : (2 : ℚ) ^ (2 : ℤ) ≤ 2 ^ (972 : ℤ) := zpow_le_zpow_right₀ (by norm_num) (by norm_num)
  have hlarge : (2 : ℚ) ^ 52 * 2 ^ (2 : ℤ) ≤ |exactValue x| := by
    rw [abs_exactValue_eq, hmagnitude]
    exact mul_le_mul hmantissa hpower (by positivity) (by positivity)
  have hbound : (2 : ℚ) ^ 53 < 2 ^ 52 * 2 ^ (2 : ℤ) := by norm_num
  exact absurd (hlarge.trans h) (not_le.mpr hbound)

theorem isFinite_of_nat {n : ℕ} (hn : exactValue x = n) (hsmall : n ≤ 2 ^ 53) :
    x.isFinite = true := by
  apply isFinite_of_abs_le
  rw [hn, Nat.abs_cast]
  exact_mod_cast hsmall

theorem add_whole (hx : x.isFinite = true) (hy : y.isFinite = true) (hm : exactValue x = m)
    (hk : exactValue y = k) (hsmall : (m + k).natAbs ≤ 2 ^ 53) :
    (x + y).isFinite = true ∧ exactValue (x + y) = (m + k : ℤ) := by
  obtain ⟨hfinite, hvalue⟩ := representable_int hsmall
  have hagree := add_agree hx hy
  rw [hm, hk, ← Int.cast_add] at hagree
  exact ⟨hagree.isFinite.mpr hfinite, hagree.2.trans hvalue⟩

theorem shownValue_of_int (hx : x.isFinite = true) (hn : exactValue x = n)
    (hsmall : n.natAbs ≤ 2 ^ 53) : shownValue x = n := by
  rw [shownValue, hn]
  by_cases hzero : n = 0
  · subst hzero
    rw [shownDecimal_of_zero hx hn, Decimal.value]
    simp [Expression.withSign]
  · have hne : exactValue x ≠ 0 := by
      rw [hn]
      exact_mod_cast hzero
    have habs : |exactValue x| = n.natAbs := by
      rw [hn, Nat.cast_natAbs, Int.cast_abs]
    rw [shownDecimal_of_ne_zero hx hne, value_shortest_of_int hx habs hsmall, Nat.cast_natAbs,
      Int.cast_abs, Expression.withSign]
    split
    next hneg => rw [abs_of_neg (of_decide_eq_true hneg), neg_neg]
    next hnonneg => exact abs_of_nonneg (not_lt.mp (mt decide_eq_true hnonneg))

theorem roundHalfUp_whole (hx : x.isFinite = true) (hn : exactValue x = n)
    (hsmall : n.natAbs ≤ 2 ^ 52) :
    (roundHalfUp x).isFinite = true ∧ exactValue (roundHalfUp x) = n := by
  obtain ⟨hfinite, hround, -⟩ := exactValue_roundHalfUp hx
  have hkept : ¬Slips (exactValue x) := by
    rw [hn, slips_int_iff]
    omega
  rw [hround.mpr hkept, hn, floor_add_half_int]
  exact ⟨hfinite, rfl⟩

theorem toPlaces_whole (places n : ℕ) : toPlaces places n = n := by
  have hscaled : (n : ℚ) / 10 ^ (-places : ℤ) = (n * 10 ^ places : ℕ) := by
    rw [zpow_neg, zpow_natCast, div_inv_eq_mul, Nat.cast_mul, Nat.cast_pow, Nat.cast_ofNat]
  have hfloor : ⌊((n * 10 ^ places : ℕ) : ℚ) + 1 / 2⌋₊ = n * 10 ^ places := by
    rw [Nat.floor_eq_iff (by positivity)]
    constructor <;> linarith
  rw [toPlaces, roundedTo, hscaled, hfloor, ← hscaled]
  exact div_mul_cancel₀ _ (by positivity)

/-- A whole number is written in digits and points, whatever the places, and it is read again. -/
theorem fixed_whole {n : ℕ} (hx : x.isFinite = true) (hn : exactValue x = n) (hlt : n < 10 ^ 21)
    (places : ℕ) : (∀ c ∈ fixed x places, Text.isDigit c = true ∨ c = '.') ∧
      leadingNumber? (fixed x places) = some (nearestTo n) := by
  have habs : |exactValue x| = n := by rw [hn, Nat.abs_cast]
  have hlt' : |exactValue x| < 10 ^ 21 := by
    rw [habs]
    exact_mod_cast hlt
  have hpositive : decide (exactValue x < 0) = false := by
    rw [hn]
    exact decide_eq_false (Nat.cast_nonneg n).not_gt
  constructor
  · obtain ⟨whole, fraction, htext, hform⟩ :=
      withPlaces_eq ⌊|exactValue x| * 10 ^ places + 1 / 2⌋₊ places
    rw [fixed_eq hx hlt', hpositive, htext]
    intro c hc
    have hmem : c ∈ whole ++ '.' :: fraction := by
      have hpointed : (pointed whole fraction).Sublist (whole ++ '.' :: fraction) := by
        rw [pointed]
        split
        · exact List.sublist_append_left _ _
        · exact List.Sublist.refl _
      exact hpointed.mem hc
    rw [List.mem_append, List.mem_cons] at hmem
    rcases hmem with hmem | rfl | hmem
    · exact .inl (Expression.isDigit_of_basic (hform.digits c (List.mem_append_left _ hmem)))
    · exact .inr rfl
    · exact .inl (Expression.isDigit_of_basic (hform.digits c (List.mem_append_right _ hmem)))
  · obtain ⟨spelling, htext, hnumber⟩ := exists_fixed hx hlt' places
    have hsign : false = true → 0 < spelling.number := fun h => absurd h Bool.false_ne_true
    have hend : Expression.Spaced [] := by simp [Expression.Spaced]
    have hread := Expression.leadingNumber?_signed hsign hend
    rw [List.append_nil] at hread
    rw [htext, hpositive, hread, Expression.withSign, if_neg Bool.false_ne_true, hnumber, habs, toPlaces_whole]

end DeskCalc.Number
