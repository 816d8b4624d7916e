import DeskCalc.Proofs.Expression.Settling
import DeskCalc.Proofs.Session.Splicing

/-!
# Integers that are entered

The digits of an integer are read as the integer, and the result is what the integer is settled to.
Small integers stay as they are; of the larger ones up to `2 ^ 53` those that do not survive the
scaling come to a double next to them.
-/

namespace DeskCalc.Session

open Expression (Spelling settle)
open Number (SurvivesScaling exactValue intText magnitude natText ofInt)

/-- The digits of a natural number as a spelling. -/
def natSpelling (n : ℕ) : Spelling :=
  ⟨⟨natText n, Number.natText_ne_nil n, fun _ hc => Number.isDigit_of_mem_natText hc⟩, none, none⟩

theorem text_natSpelling (n : ℕ) : (natSpelling n).text = natText n := by
  simp [natSpelling, Spelling.text, Spelling.fractionText, Spelling.powerText]

theorem value_natSpelling (n : ℕ) : (natSpelling n).numeral.value = ofInt n := by
  have hvalue : (natSpelling n).numeral.value =
      Number.ofDecimal false (Text.digitsValue (natText n ++ [])) (0 - ([] : Text).length) := rfl
  rw [hvalue, List.append_nil, Number.digitsValue_natText, Number.ofDecimal_eq]
  have hone : (Number.tenTo 0) = 1 := rfl
  have hpositive : decide ((n : ℤ) < 0) = false := decide_eq_false (by omega)
  rw [ofInt, hpositive]
  simp [hone]

/-- The negative of an integer in doubles. -/
theorem neg_ofInt {n : ℕ} (hn : n ≠ 0) (hsmall : n ≤ 2 ^ 53) : -ofInt n = ofInt (-n) := by
  have hfinite : (ofInt n).isFinite = true := by
    rw [Number.ofInt_eq]
    exact (Number.representable_int (by omega)).1
  obtain ⟨hsign, hbits⟩ := Number.neg_parts hfinite
  have hparts : Number.signBit (ofInt n) = false := by
    rw [Number.ofInt_eq, Number.signBit_nearestTo]
    exact decide_eq_false (by push_cast; exact not_lt.mpr (Nat.cast_nonneg n))
  apply Number.eq_of_parts
  · rw [hsign, hparts, Number.ofInt_eq, Number.signBit_nearestTo]
    have hneg : ((-(n : ℤ) : ℤ) : ℚ) < 0 := by exact_mod_cast (by omega : -(n : ℤ) < 0)
    rw [decide_eq_true hneg]
    rfl
  · rw [hbits, Number.ofInt_eq, Number.ofInt_eq, Int.cast_neg, Number.unsignedBits_nearestTo_neg]

theorem stands_intText {n : ℤ} (hsmall : n.natAbs ≤ 2 ^ 53) :
    Stands .factor (intText n) (some (ofInt n)) (if n < 0 then 1 else 0) := by
  have hstands (k : ℕ) : Stands .factor (natText k) (some (ofInt k)) 0 := by
    have hspelled := stands_spelling (natSpelling k)
    rwa [text_natSpelling, value_natSpelling] at hspelled
  rw [intText]
  split
  next hneg =>
    obtain ⟨k, rfl⟩ : ∃ k : ℕ, n = -k := ⟨n.natAbs, by omega⟩
    have hminus := (hstands k).minus
    rw [Option.map_some, neg_ofInt (by omega) (by omega)] at hminus
    rwa [Int.natAbs_neg, Int.natAbs_natCast]
  next hnonneg =>
    obtain ⟨k, rfl⟩ := Int.eq_ofNat_of_zero_le (not_lt.mp hnonneg)
    exact hstands k

/-- An integer is read exactly, so what remains is to settle it. -/
theorem evaluate_intText {n : ℤ} (hsmall : n.natAbs ≤ 2 ^ 53) :
    Expression.evaluate (intText n) = settle (ofInt n) := by
  have hkept : ∀ c ∈ intText n, isKept c = true := by
    intro c hc
    rw [intText] at hc
    split at hc
    · rcases List.mem_cons.mp hc with rfl | hc
      · rfl
      · exact isKept_of_isDigit (Number.isDigit_of_mem_natText hc)
    · exact isKept_of_isDigit (Number.isDigit_of_mem_natText hc)
  have hroom : (if n < 0 then 1 else 0) ≤ Expression.nestingRoom := by
    split <;> decide
  exact evaluate_of_stands ((stands_intText hsmall).lower (Nat.zero_le _)) hroom hkept

/-- Integers of this size are not too large to be scaled. -/
theorem isFinite_mul_trillion {x : Float} {n : ℤ} (hx : x.isFinite = true) (hn : exactValue x = n)
    (hsmall : n.natAbs ≤ 2 ^ 53) : (x * 1e12).isFinite = true := by
  rw [(Number.mul_trillion hx).isFinite, hn]
  obtain ⟨hfinite, hvalue⟩ := @Number.representable_scaled (2 ^ 53) 40 (by norm_num) (by norm_num)
    (by norm_num)
  apply Number.isFinite_nearestTo_of_le hfinite
  have hcast : (n.natAbs : ℚ) ≤ 2 ^ 53 := by exact_mod_cast hsmall
  rw [hvalue, abs_mul, ← Int.cast_abs, Int.abs_eq_natAbs, Int.cast_natCast,
    abs_of_pos (by norm_num : (0 : ℚ) < 10 ^ 12), abs_of_pos (by positivity)]
  calc (n.natAbs : ℚ) * 10 ^ 12 ≤ 2 ^ 53 * 10 ^ 12 := by gcongr
    _ ≤ ((2 ^ 53 : ℤ) : ℚ) * 2 ^ (40 : ℤ) + 1 := by norm_num

/-- An integer that is entered comes to itself exactly if it survives the scaling, as the smaller
ones do, and else to a double next to it; and so does every double that is an integer when it is
settled, unless it is too large to be scaled. -/
theorem evaluate_integer_iff (n : ℤ) :
    (n.natAbs ≤ 2 ^ 53 → ∃ y, Expression.evaluate (intText n) = .ok y ∧ y.isFinite = true ∧
      (exactValue y = n ↔ SurvivesScaling (ofInt n)) ∧ (n.natAbs ≤ 36893488 → exactValue y = n) ∧
      |exactValue y - n| ≤ 2 ^ (magnitude (ofInt n)).exponent) ∧
    ∀ x : Float, x.isFinite = true → exactValue x = n →
      ∃ y, settle x = .ok y ∧ y.isFinite = true ∧
        (exactValue y = n ↔ ((x * 1e12).isFinite = true → SurvivesScaling x)) ∧
        |exactValue y - n| ≤ 2 ^ (magnitude x).exponent := by
  refine ⟨fun hsmall => ?_, fun x hx hn => Expression.settle_int hx hn⟩
  obtain ⟨hfinite, hvalue⟩ := Number.representable_int hsmall
  rw [← Number.ofInt_eq] at hfinite hvalue
  have hscaled := isFinite_mul_trillion hfinite hvalue hsmall
  obtain ⟨y, hy, hyfinite, hiff, hnear⟩ := Expression.settle_int hfinite hvalue
  rw [forall_prop_of_true hscaled] at hiff
  refine ⟨y, (evaluate_intText hsmall).trans hy, hyfinite, hiff, fun hless => ?_, hnear⟩
  exact hiff.mpr (Expression.survivesScaling_of_le hfinite hvalue hless)

/-- The last negative integer down to which none is lost. -/
theorem evaluate_integer_iff_small : (-36893488 : ℤ).natAbs ≤ 2 ^ 53 ∧
    ∃ y, Expression.evaluate (intText (-36893488)) = .ok y ∧ exactValue y = -36893488 := by
  have hsmall : (-36893488 : ℤ).natAbs ≤ 2 ^ 53 := by norm_num
  obtain ⟨y, hy, -, -, hkept, -⟩ := (evaluate_integer_iff (-36893488)).1 hsmall
  exact ⟨hsmall, y, hy, by exact_mod_cast hkept (by norm_num)⟩

/-- The least positive integer that does not come to itself. -/
theorem evaluate_integer_lost : (36893489 : ℤ).natAbs ≤ 2 ^ 53 ∧
    Expression.evaluate (intText 36893489) = .ok 36893488.99999999 ∧
    exactValue 36893488.99999999 ≠ 36893489 := by
  have hunpack : (36893488.99999999 : Float).toModel.unpack =
      .finite .positive (36893489 * 2 ^ 27 - 1) (-27) (by decide) := by rfl
  refine ⟨by norm_num, by decide +kernel, ?_⟩
  rw [Number.exactValue_of_unpack rfl hunpack]
  show (((36893489 * 2 ^ 27 - 1 : ℕ) : ℤ) : ℚ) * 2 ^ (-27 : ℤ) ≠ 36893489
  norm_num

end DeskCalc.Session
