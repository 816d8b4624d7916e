import DeskCalc.Number.Notation
import DeskCalc.Proofs.Number.Arithmetic
import DeskCalc.Proofs.Number.Digits
import Mathlib.Algebra.Order.Floor.Semifield
import Mathlib.Data.Rat.Floor

/-!
# Fixed places

Below `1e21` a finite double is written with as many decimals as are asked for, and what is written
is its exact value rounded to a multiple of the last place, a half away from zero.
-/

namespace DeskCalc.Number

/-! ## Texts with places -/

/-- A whole part and a fraction of so many places that denote `k / 10 ^ places`. -/
structure Places (whole fraction : Text) (places k : ℕ) : Prop where
  nonempty : whole ≠ []
  digits : ∀ c ∈ whole ++ fraction, c.isDigit = true
  lead : whole.head? = some '0' → whole = ['0']
  length : fraction.length = places
  value : (Text.digitsValue whole : ℚ) + Text.digitsValue fraction / 10 ^ places = k / 10 ^ places

/-- The text of a whole part and a fraction, if there is one. -/
def pointed (whole fraction : Text) : Text :=
  if fraction = [] then whole else whole ++ '.' :: fraction

section WithPlaces

variable (k places : ℕ)

/-- The digits of a number with zeros before them for the places and one digit more. -/
def paddedDigits : Text :=
  zeros (places + 1 - (natText k).length) ++ natText k

theorem length_paddedDigits :
    (paddedDigits k places).length = max (places + 1) (natText k).length := by
  rw [paddedDigits, List.length_append, zeros, List.length_replicate]
  omega

theorem digitsValue_paddedDigits : Text.digitsValue (paddedDigits k places) = k := by
  rw [paddedDigits, digitsValue_append, digitsValue_zeros, digitsValue_natText, Nat.zero_mul,
    Nat.zero_add]

theorem isDigit_of_mem_paddedDigits {c : Char} (hc : c ∈ paddedDigits k places) :
    c.isDigit = true := by
  rcases List.mem_append.mp hc with hc | hc
  · obtain rfl := List.eq_of_mem_replicate hc
    rfl
  · exact isDigit_of_mem_natText hc

/-- The zeros in front stop before the last digit of the whole part. -/
theorem paddedDigits_lead (h : ((paddedDigits k places).take
    ((paddedDigits k places).length - places)).head? = some '0') :
    (paddedDigits k places).length - places = 1 := by
  have hlength := length_paddedDigits k places
  rcases le_or_gt (natText k).length (places + 1) with hshort | hlong
  · omega
  · -- Without zeros in front the first digit is that of the number.
    have hpadded : paddedDigits k places = natText k := by
      rw [paddedDigits, Nat.sub_eq_zero_of_le hlong.le]
      rfl
    have hzero : k = 0 := by
      by_contra hne
      obtain ⟨c, rest, htext, hc⟩ := natText_head hne
      rw [hpadded, htext, List.head?_take, if_neg (by rw [htext] at hlong; omega)] at h
      exact hc (Option.some.inj h)
    have hone : (natText 0).length = 1 := by decide
    rw [hzero, hone] at hlong
    omega

theorem places_paddedDigits :
    Places ((paddedDigits k places).take ((paddedDigits k places).length - places))
      ((paddedDigits k places).drop ((paddedDigits k places).length - places)) places k := by
  have hlength := length_paddedDigits k places
  have hvalue := digitsValue_paddedDigits k places
  have hdigits := @isDigit_of_mem_paddedDigits k places
  have hlead := paddedDigits_lead k places
  generalize paddedDigits k places = padded at *
  have hfraction : (padded.drop (padded.length - places)).length = places := by
    rw [List.length_drop]
    omega
  refine ⟨?_, ?_, fun hzero => ?_, hfraction, ?_⟩
  · rw [ne_eq, List.take_eq_nil_iff, ← List.length_eq_zero_iff]
    omega
  · rw [List.take_append_drop]
    exact fun c hc => hdigits hc
  · have hone := hlead hzero
    rw [hone] at hzero ⊢
    cases padded with
    | nil => cases hzero
    | cons c rest =>
      cases hzero
      rfl
  · rw [← List.take_append_drop (padded.length - places) padded, digitsValue_append,
      hfraction] at hvalue
    rw [← hvalue]
    push_cast
    field_simp

theorem withPlaces_eq : ∃ whole fraction, withPlaces k places = pointed whole fraction ∧
    Places whole fraction places k := by
  refine ⟨_, _, ?_, places_paddedDigits k places⟩
  have hlength := (places_paddedDigits k places).length
  have hdef : withPlaces k places = if places = 0 then paddedDigits k places
      else (paddedDigits k places).take ((paddedDigits k places).length - places) ++
        '.' :: (paddedDigits k places).drop ((paddedDigits k places).length - places) := rfl
  rw [hdef, pointed]
  by_cases hzero : places = 0
  · have hempty := List.length_eq_zero_iff.mp (hlength.trans hzero)
    rw [if_pos hzero, if_pos hempty, hzero, Nat.sub_zero, List.take_length]
  · have hfraction := mt List.length_eq_zero_iff.mpr fun hempty =>
      hzero (hlength.symm.trans hempty)
    rw [if_neg hzero, if_neg hfraction]

end WithPlaces

/-! ## Rounding -/

theorem halfUp_eq {num den : ℕ} (hden : 0 < den) : halfUp num den = ⌊(num : ℚ) / den + 1 / 2⌋₊ := by
  have hpos : (den : ℚ) ≠ 0 := by exact_mod_cast hden.ne'
  have hvalue : (num : ℚ) / den + 1 / 2 = ((2 * num + den : ℕ) : ℚ) / (2 * den : ℕ) := by
    push_cast
    field_simp
  rw [hvalue, Nat.floor_div_eq_div]
  rfl

section Double

variable {x : Float}

theorem abs_of_finite (hx : x.isFinite = true) :
    x.abs.isFinite = true ∧ exactValue x.abs = |exactValue x| := by
  obtain ⟨hsign, hbits⟩ := abs_parts hx
  refine ⟨?_, ?_⟩
  · rw [isFinite_iff, hbits, ← isFinite_iff]
    exact hx
  · rw [exactValue_eq, if_neg (by rw [hsign]; exact Bool.false_ne_true), abs_exactValue_congr hbits]

theorem exactValue_plainBound : exactValue 1e21 = 10 ^ 21 := by
  have hunpack : (1e21 : Float).toModel.unpack =
      .finite .positive 7629394531250000 17 (by decide) := by rfl
  rw [exactValue_of_unpack rfl hunpack]
  show (((7629394531250000 : ℕ) : ℤ) : ℚ) * 2 ^ (17 : ℤ) = 10 ^ 21
  norm_num

/-- The shortest text takes the place of the decimals from `1e21` on. -/
theorem ge_plainBound_iff (hx : x.isFinite = true) : x.abs ≥ 1e21 ↔ 10 ^ 21 ≤ |exactValue x| := by
  obtain ⟨hfinite, hvalue⟩ := abs_of_finite hx
  rw [ge_iff_le, le_iff rfl hfinite, exactValue_plainBound, hvalue]

theorem lt_zero_iff_exactValue (hx : x.isFinite = true) : x < 0 ↔ exactValue x < 0 :=
  (lt_zero_iff hx).trans exactValue_neg_iff.symm

/-- A number below `1e21` has at most twenty-one digits before the point. -/
theorem leadingPower_le (hlt : |exactValue x| < 10 ^ 21) :
    leadingPower (magnitude x).num (magnitude x).den ≤ 20 := by
  rw [leadingPower]
  split
  · have hquotient : (magnitude x).num / (magnitude x).den < 10 ^ 21 := by
      have hden : (0 : ℚ) < (magnitude x).den := by exact_mod_cast magnitude_den_pos x
      rw [abs_exactValue, div_lt_iff₀ hden] at hlt
      rw [Nat.div_lt_iff_lt_mul (magnitude_den_pos x)]
      exact_mod_cast hlt
    have hlength := length_digitsIn_le (by norm_num : 2 ≤ 10) (by norm_num) hquotient
    omega
  · omega

theorem not_plain (hx : x.isFinite = true) (hlt : |exactValue x| < 10 ^ 21) :
    ¬(!x.isFinite || decide (x.abs ≥ 1e21)) = true := by
  rw [hx, Bool.not_true, Bool.false_or, decide_eq_true_iff, ge_plainBound_iff hx, not_le]
  exact hlt

theorem fixed_eq (hx : x.isFinite = true) (hlt : |exactValue x| < 10 ^ 21) (places : ℕ) :
    fixed x places = signed (decide (exactValue x < 0))
      (withPlaces ⌊|exactValue x| * 10 ^ places + 1 / 2⌋₊ places) := by
  have hrounded : halfUp ((magnitude x).num * tenTo places) (magnitude x).den =
      ⌊|exactValue x| * 10 ^ places + 1 / 2⌋₊ := by
    rw [halfUp_eq (magnitude_den_pos x), abs_exactValue, tenTo_eq]
    push_cast
    rw [div_mul_eq_mul_div]
  simp only [fixed, if_neg (not_plain hx hlt), hrounded, lt_zero_iff_exactValue hx]

/-- Up to a thousand places are worked out. -/
theorem fixedAt_eq {places : ℕ} (hx : x.isFinite = true) (hlt : |exactValue x| < 10 ^ 21)
    (hplaces : places ≤ 1000) : fixedAt x places = .ok (fixed x places) := by
  have hshift : checkShift places (-places) = .ok () := by
    have hfar : ¬shiftLimit < (places : ℤ).natAbs := by
      rw [shiftLimit, highestPower, exactDigits]
      omega
    have hhigh : ¬(highestPower : ℤ) < -places := by
      rw [highestPower]
      omega
    rw [checkShift, if_neg hfar, if_neg hhigh]
  have hdigits : ¬(x != 0 && decide ((exactDigits : ℤ) <
      leadingPower (magnitude x).num (magnitude x).den + 1 + places)) = true := by
    have hpower := leadingPower_le hlt
    have hfew : ¬(exactDigits : ℤ) <
        leadingPower (magnitude x).num (magnitude x).den + 1 + places := by
      rw [exactDigits]
      omega
    rw [decide_eq_false hfew, Bool.and_false]
    exact Bool.false_ne_true
  have hpositive : ¬(places : ℤ) < 0 := by omega
  have hlimit : min (places : ℤ).toNat zeroPlaces = places := by
    rw [zeroPlaces, highestPower, exactDigits]
    omega
  rw [fixedAt, if_neg (not_plain hx hlt), hshift]
  show (if _ then _ else _) = _
  rw [if_neg hdigits, if_neg hpositive, hlimit]
  rfl

/-- A finite double below `1e21` is written with all the places that are asked for, and the text
denotes its exact value rounded to that many places, a half away from zero. -/
theorem fixedAt_exact {places : ℕ} (hx : x.isFinite = true) (hlt : |exactValue x| < 10 ^ 21)
    (hplaces : places ≤ 1000) :
    ∃ whole fraction, fixedAt x places =
        .ok (signed (decide (exactValue x < 0)) (pointed whole fraction)) ∧
      Places whole fraction places ⌊|exactValue x| * 10 ^ places + 1 / 2⌋₊ := by
  obtain ⟨whole, fraction, htext, hform⟩ :=
    withPlaces_eq ⌊|exactValue x| * 10 ^ places + 1 / 2⌋₊ places
  rw [fixedAt_eq hx hlt hplaces, fixed_eq hx hlt, htext]
  exact ⟨whole, fraction, rfl, hform⟩

/-- The half below minus two with one place. -/
theorem fixedAt_exact_minus_five_halves : (-2.5 : Float).isFinite = true ∧
    |exactValue (-2.5)| < 10 ^ 21 ∧
    ∃ whole fraction, fixedAt (-2.5) (1 : ℕ) = .ok ('-' :: pointed whole fraction) ∧
      Places whole fraction 1 25 := by
  have hfinite : (-2.5 : Float).isFinite = true := rfl
  have hunpack : (-2.5 : Float).toModel.unpack =
      .finite .negative (5 * 2 ^ 50) (-51) (by decide) := rfl
  have hvalue : exactValue (-2.5) = -(5 / 2) := by
    rw [exactValue_of_unpack hfinite hunpack]
    show ((-((5 * 2 ^ 50 : ℕ) : ℤ) : ℤ) : ℚ) * 2 ^ (-51 : ℤ) = -(5 / 2)
    norm_num
  have habs : |exactValue (-2.5)| = 5 / 2 := by
    rw [hvalue, abs_neg, abs_of_pos (by norm_num)]
  have hless : |exactValue (-2.5)| < 10 ^ 21 := by
    rw [habs]
    norm_num
  have hfloor : ⌊(5 / 2 * 10 ^ 1 + 1 / 2 : ℚ)⌋₊ = 25 := by
    rw [Nat.floor_eq_iff (by norm_num)]
    norm_num
  have hexact := fixedAt_exact hfinite hless (by norm_num : 1 ≤ 1000)
  rw [habs, hvalue, decide_eq_true (by norm_num), hfloor] at hexact
  exact ⟨hfinite, hless, hexact⟩

end Double

end DeskCalc.Number
