import DeskCalc.Proofs.Measure.Quantities
import DeskCalc.Proofs.Measure.Units
import DeskCalc.Proofs.Number.Exponents

/-!
# Fractions of a unit

Before a fraction of a unit is converted, it is replaced by the text of the double that it denotes,
which is read again as a decimal.  Decimals are read without exponents, so that the fraction
converts like its number if and only if that is plain.  Besides, the digits have to be few enough to
be read, and the unit has to be written in the characters of quantities.
-/

namespace DeskCalc

namespace Measure

open Attempt (bind_eq_found ofOption_eq_found)
open Number (IsPlain Unsigned natText)
open Text (isBlank)

/-! ## Digits that are read -/

/-- The digits of the number are few enough to be read. -/
def Readable (n : ℕ) : Prop :=
  (natText n).length ≤ Number.digitLimit

/-- What has a double near to it is readable. -/
theorem readable_of_ofInt? {n : ℕ} {x : Float} (h : Number.ofInt? n = some x) : Readable n := by
  have hlt : n < (2 ^ 54 - 1) * 2 ^ 970 := by
    by_contra hle
    rw [Number.ofInt?_eq_none_iff.mpr (by rwa [Int.natAbs_natCast, ← not_lt])] at h
    cases h
  have hfew (k : ℕ) : (2 ^ 54 - 1) * 2 ^ k ≤ 10 ^ (54 + k) :=
    calc (2 ^ 54 - 1) * 2 ^ k ≤ 2 ^ 54 * 2 ^ k := Nat.mul_le_mul_right _ (Nat.sub_le _ _)
      _ = 2 ^ (54 + k) := (pow_add 2 54 k).symm
      _ ≤ 10 ^ (54 + k) := Nat.pow_le_pow_left (by norm_num) _
  have hmore : 54 + 970 ≤ Number.digitLimit := by decide
  exact (Number.length_natText_le (by norm_num) (hlt.trans_le (hfew 970))).trans hmore

theorem fractionValue_natText_eq_found {n k : ℕ} (hk : 0 < k) {x : Float} :
    fractionValue (natText n, natText k) = .found x ↔
      Readable n ∧ Readable k ∧ Number.ofQuotient? n k = some x := by
  rw [fractionValue_eq_found, Number.digitsValue_natText, Number.digitsValue_natText]
  simp [Readable, hk.ne']

theorem mixedFractionValue_eq_found {m n k : ℕ} (hk : 0 < k) {x : Float} :
    mixedFractionValue (natText m) (natText n, natText k) = .found x ↔
      Readable m ∧ Readable n ∧ Readable k ∧ ∃ y z, Number.ofInt? m = some y ∧
        Number.ofQuotient? n k = some z ∧ y + z = x := by
  simp only [mixedFractionValue, bind_eq_found, natural_eq_found, orBreak_eq_found,
    fractionValue_natText_eq_found hk, Number.digitsValue_natText, Attempt.pure_eq_found,
    Attempt.found.injEq]
  constructor
  · rintro ⟨k', ⟨-, rfl⟩, -, -, m', ⟨hwhole, rfl⟩, z, ⟨hn, hk, hz⟩, y, hy, hsum⟩
    exact ⟨hwhole, hn, hk, y, z, hy, hz, hsum⟩
  · rintro ⟨hwhole, hn, hk', y, z, hy, hz, hsum⟩
    exact ⟨k, ⟨hk', rfl⟩, (), by simp [Attempt.require, hk.ne'], m, ⟨hwhole, rfl⟩, z, ⟨hn, hk', hz⟩,
      y, hy, hsum⟩

/-! ## Conversions -/

section Conversion

variable {d : Dimension} {unit target : Text} {s t : String} {f g x : Float}

/-- An amount of one unit shown in another. -/
def converted (f g : Float) (t : String) (x : Float) : Text :=
  withUnit (Number.conversionText (x * f / g)) t.toList

/-- The text of a number is converted if and only if the number is plain. -/
theorem convertDecimal?_numberText (hx : Unsigned x) (hunit : ∀ c ∈ unit, isMicroUnitChar c = true)
    (hsource : d.find? unit = some (s, f)) (htarget : d.find? target = some (t, g))
    (answer : Text) :
    convertDecimal? (withUnit (Number.numberText x) unit) target = some answer ↔
      IsPlain x ∧ converted f g t x = answer := by
  have hne := ne_nil_of_find? hsource
  have hvisible : ∀ c ∈ unit, isBlank c = false := fun c hc => isBlank_of_isMicroUnitChar (hunit c hc)
  by_cases hplain : IsPlain x
  · obtain ⟨n, hpower, htext, hvalue⟩ := hplain.exists_spelling hx
    have hread : decimalQuantity.read? (withUnit (Number.numberText x) unit) =
        some (n.numeral, unit) := by
      rw [htext]
      exact read?_decimalQuantity hpower isBlank_of_mem_space hne hunit
    simp only [convertDecimal?, hread, hvalue, convert?_eq hsource htarget, hplain,
      true_and, Option.some.injEq, converted]
  · have hread : decimalQuantity.read? (withUnit (Number.numberText x) unit) = none := by
      rw [Option.eq_none_iff_forall_ne_some]
      rintro ⟨m, written⟩ hread
      have hamount := (of_read?_withUnit hne hvisible hread).1
      apply hplain
      rw [Number.isPlain_iff hx]
      constructor
      · by_contra hinfinite
        rcases Number.finite_or_infinite hx.notNaN with hfinite | rfl | rfl
        · exact hinfinite hfinite
        · have hletter := hamount 'I' (by decide)
          revert hletter
          decide
        · cases hx.sign
      · intro hmark
        have hletter := hamount 'e' hmark
        revert hletter
        decide
    simp [convertDecimal?, hread, hplain]

/-- Whatever an amount is replaced by is converted as such. -/
theorem attempt_eq_found {value : Attempt Float} {answer : Text} :
    (value >>= fun x => Attempt.ofOption
        (convertDecimal? (withUnit (Number.numberText x) unit) target)) = .found answer ↔
      ∃ x, value = .found x ∧
        convertDecimal? (withUnit (Number.numberText x) unit) target = some answer := by
  simp only [bind_eq_found, ofOption_eq_found]

theorem digits_natText (n : ℕ) :
    natText n ≠ [] ∧ ∀ c ∈ natText n, Text.isDigit c = true :=
  ⟨Number.natText_ne_nil n, fun _ hc =>
    Expression.isDigit_of_basic (Number.isDigit_of_mem_natText hc)⟩

theorem convertQuantity_fraction_eq_found (hvisible : ∀ c ∈ unit, isBlank c = false)
    (hsource : d.find? unit = some (s, f)) (htarget : d.find? target = some (t, g)) {n k : ℕ}
    (hk : 0 < k) (hx : Number.ofQuotient? n k = some x) (answer : Text) :
    convertQuantity (withUnit (ratioText (natText n) (natText k)) unit) target = .found answer ↔
      (Readable n ∧ Readable k ∧ (∀ c ∈ unit, isMicroUnitChar c = true) ∧ IsPlain x) ∧
        converted f g t x = answer := by
  have hne := ne_nil_of_find? hsource
  obtain ⟨hunsigned, -⟩ := Number.unsigned_ofQuotient? hk hx
  by_cases hunit : ∀ c ∈ unit, isMicroUnitChar c = true
  · obtain ⟨hmixed, hread⟩ :=
      read?_fractionQuantity (digits_natText n) (digits_natText k) hne hunit
    simp only [convertQuantity, hmixed, hread, attempt_eq_found, fractionValue_natText_eq_found hk]
    constructor
    · rintro ⟨x', ⟨hn, hk', hx'⟩, hconverted⟩
      cases hx.symm.trans hx'
      obtain ⟨hplain, hanswer⟩ :=
        (convertDecimal?_numberText hunsigned hunit hsource htarget answer).mp hconverted
      exact ⟨⟨hn, hk', hunit, hplain⟩, hanswer⟩
    · rintro ⟨⟨hn, hk', -, hplain⟩, hanswer⟩
      exact ⟨x, ⟨hn, hk', hx⟩,
        (convertDecimal?_numberText hunsigned hunit hsource htarget answer).mpr ⟨hplain, hanswer⟩⟩
  · rw [convertQuantity_of_strange hne hvisible hunit]
    simp [hunit]

theorem convertQuantity_mixed_eq_found (hvisible : ∀ c ∈ unit, isBlank c = false)
    (hsource : d.find? unit = some (s, f)) (htarget : d.find? target = some (t, g)) {m n k : ℕ}
    (hk : 0 < k) (hx : Number.ofQuotient? n k = some x) {y : Float}
    (hy : Number.ofInt? m = some y) (answer : Text) :
    convertQuantity (withUnit (withUnit (natText m) (ratioText (natText n) (natText k))) unit)
        target = .found answer ↔
      (Readable n ∧ Readable k ∧ (∀ c ∈ unit, isMicroUnitChar c = true) ∧ IsPlain (y + x)) ∧
        converted f g t (y + x) = answer := by
  have hne := ne_nil_of_find? hsource
  obtain ⟨hunsigned, hfinite⟩ := Number.unsigned_ofQuotient? hk hx
  obtain ⟨hunsigned', hfinite'⟩ := Number.unsigned_ofInt? hy
  have hsum := hunsigned'.add hunsigned hfinite' hfinite
  by_cases hunit : ∀ c ∈ unit, isMicroUnitChar c = true
  · have hread := read?_mixedFractionQuantity (digits_natText m) (digits_natText n)
      (digits_natText k) hne hunit
    simp only [convertQuantity, hread, attempt_eq_found, mixedFractionValue_eq_found hk]
    constructor
    · rintro ⟨z, ⟨-, hn, hk', y', x', hy', hx', rfl⟩, hconverted⟩
      cases hx.symm.trans hx'
      cases hy.symm.trans hy'
      obtain ⟨hplain, hanswer⟩ :=
        (convertDecimal?_numberText hsum hunit hsource htarget answer).mp hconverted
      exact ⟨⟨hn, hk', hunit, hplain⟩, hanswer⟩
    · rintro ⟨⟨hn, hk', -, hplain⟩, hanswer⟩
      exact ⟨y + x, ⟨readable_of_ofInt? hy, hn, hk', y, x, hy, hx, rfl⟩,
        (convertDecimal?_numberText hsum hunit hsource htarget answer).mpr ⟨hplain, hanswer⟩⟩
  · rw [convertQuantity_of_strange hne hvisible hunit]
    simp [hunit]

/-- What fractions of a unit, alone or behind a whole number, are converted to is always the double
that they denote, converted.  There is such an answer if and only if that double is plain, the
digits of the fraction can be read, and the unit is written in the characters of quantities. -/
theorem convertQuantity_fraction_iff (hvisible : ∀ c ∈ unit, isBlank c = false)
    (hsource : d.find? unit = some (s, f)) (htarget : d.find? target = some (t, g)) {n k : ℕ}
    (hk : 0 < k) (hx : Number.ofQuotient? n k = some x) (answer : Text) :
    (convertQuantity (withUnit (ratioText (natText n) (natText k)) unit) target = .found answer ↔
      (Readable n ∧ Readable k ∧ (∀ c ∈ unit, isMicroUnitChar c = true) ∧ IsPlain x) ∧
        converted f g t x = answer) ∧
    ∀ (m : ℕ) (y : Float), Number.ofInt? m = some y →
      (convertQuantity
          (withUnit (withUnit (natText m) (ratioText (natText n) (natText k))) unit) target =
          .found answer ↔
        (Readable n ∧ Readable k ∧ (∀ c ∈ unit, isMicroUnitChar c = true) ∧ IsPlain (y + x)) ∧
          converted f g t (y + x) = answer) :=
  ⟨convertQuantity_fraction_eq_found hvisible hsource htarget hk hx answer,
    fun _ _ hy => convertQuantity_mixed_eq_found hvisible hsource htarget hk hx hy answer⟩

/-- A half kilometre, alone and behind one kilometre. -/
theorem convertQuantity_fraction_iff_half :
    Dimension.length.find? "km".toList = some ("km", 1000) ∧
      Dimension.length.find? "m".toList = some ("m", 1) ∧
      Number.ofQuotient? 1 2 = some 0.5 ∧ Number.ofInt? (1 : ℕ) = some 1 ∧
      convertQuantity "1/2 km".toList "m".toList = .found "500 m".toList ∧
      convertQuantity "1 1/2 km".toList "m".toList = .found "1500 m".toList := by
  have hsource : Dimension.length.find? "km".toList = some ("km", 1000) := by decide +kernel
  have htarget : Dimension.length.find? "m".toList = some ("m", 1) := by decide +kernel
  have hunit : ∀ c ∈ "km".toList, isMicroUnitChar c = true := List.all_eq_true.mp (by decide)
  have hvisible : ∀ c ∈ "km".toList, isBlank c = false :=
    fun c hc => isBlank_of_isMicroUnitChar (hunit c hc)
  have hhalf : Number.ofQuotient? 1 2 = some 0.5 := by decide +kernel
  have hone : Number.ofInt? (1 : ℕ) = some 1 := by decide +kernel
  have hreadable : Readable 1 ∧ Readable 2 := by
    constructor <;> (rw [Readable]; decide)
  have hplain : IsPlain 0.5 ∧ IsPlain (1 + 0.5) :=
    ⟨.inr (by decide +kernel), .inr (by decide +kernel)⟩
  have hanswers : converted 1000 1 "m" 0.5 = "500 m".toList ∧
      converted 1000 1 "m" (1 + 0.5) = "1500 m".toList := by decide +kernel
  refine ⟨hsource, htarget, hhalf, hone, ?_, ?_⟩
  · exact (convertQuantity_fraction_iff hvisible hsource htarget Nat.two_pos hhalf _).1.mpr
      ⟨⟨hreadable.1, hreadable.2, hunit, hplain.1⟩, hanswers.1⟩
  · exact (convertQuantity_fraction_iff hvisible hsource htarget Nat.two_pos hhalf _).2 1 1 hone |>.mpr
      ⟨⟨hreadable.1, hreadable.2, hunit, hplain.2⟩, hanswers.2⟩

/-- A small fraction of a kilometre has no answer in metres, although its number has one. -/
theorem small_fraction_unread :
    Dimension.length.find? "km".toList = some ("km", 1000) ∧
      Dimension.length.find? "m".toList = some ("m", 1) ∧
      Number.ofQuotient? 1 10000000 = some 1e-7 ∧
      converted 1000 1 "m" 1e-7 = "0.0001 m".toList ∧
      convertQuantity "1/10000000 km".toList "m".toList = .nothing := by
  decide +kernel

end Conversion

end Measure
end DeskCalc
