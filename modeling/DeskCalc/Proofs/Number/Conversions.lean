import DeskCalc.Number.Display
import DeskCalc.Proofs.Number.Significant
import Mathlib.Data.List.DropRight

/-!
# Results of conversions

The amount of a conversion is rounded to digits or to places, as its size asks for, and the zeros at
the end of its fraction are left out.  That changes the text and not the number it shows, and the
number is what is read back in front of the unit.

The main definitions are `Trimmed` and `converted`.
-/

namespace DeskCalc.Number

open Expression (AreDigits Digits Power Shows Spelling withSign)

/-! ## Trimming -/

/-- There is no zero at the end of the fraction and no point at the end of the text, unless there is
an exponent. -/
def Trimmed (s : Text) : Prop :=
  'e' ∉ s → (fractionOf s).getLast? ≠ some '0' ∧ s.getLast? ≠ some '.'

/-- What stands before the zeros at the end. -/
theorem exists_append_zeros (s : Text) :
    ∃ t : Text, s = t ++ zeros (trailingZeros s) ∧ t.getLast? ≠ some '0' := by
  have hzeros : s.rtakeWhile (· == '0') = zeros (trailingZeros s) := by
    rw [zeros, List.eq_replicate_iff, trailingZeros, List.rtakeWhile, List.length_reverse]
    refine ⟨rfl, fun c hc => ?_⟩
    have hzero := List.mem_takeWhile_imp (List.mem_reverse.mp hc)
    exact eq_of_beq hzero
  refine ⟨s.rdropWhile (· == '0'), ?_, fun hlast => ?_⟩
  · rw [← hzeros]
    exact List.rdropWhile_append_rtakeWhile.symm
  · have hne : s.rdropWhile (· == '0') ≠ [] := by
      intro hempty
      rw [hempty] at hlast
      cases hlast
    apply List.rdropWhile_last_not (· == '0') s hne
    rw [List.getLast?_eq_some_getLast hne] at hlast
    rw [Option.some.inj hlast]
    rfl

section Pointed

variable {lead rest : Text}

theorem fractionOf_of_no_point {s : Text} (hs : ∀ c ∈ s, c ≠ '.') : fractionOf s = [] := by
  have hdrop : s.dropWhile (· ≠ '.') = [] := by
    rw [List.dropWhile_eq_nil_iff]
    exact fun c hc => decide_eq_true (hs c hc)
  rw [fractionOf, hdrop]
  rfl

theorem fractionOf_pointed (hlead : ∀ c ∈ lead, c ≠ '.') :
    fractionOf (lead ++ '.' :: rest) = rest := by
  rw [fractionOf, Text.dropWhile_run (fun c hc => decide_eq_true (hlead c hc))
    (Text.stopsBefore_cons.mpr rfl)]
  rfl

theorem trimFraction_of_no_point {s : Text} (hs : ∀ c ∈ s, c ≠ '.') : trimFraction s = s := by
  rw [trimFraction, dropZeroFraction, fractionOf_of_no_point hs]
  rfl

/-- What stands behind the point is left as it is if it is not digits only. -/
theorem trimFraction_of_not_digits (hlead : ∀ c ∈ lead, c ≠ '.') {c : Char} (hc : c ∈ rest)
    (hdigit : c.isDigit = false) : trimFraction (lead ++ '.' :: rest) = lead ++ '.' :: rest := by
  have hdigits : rest.all Char.isDigit = false :=
    List.all_eq_false.mpr ⟨c, hc, by rw [hdigit]; exact Bool.false_ne_true⟩
  have hzeros : rest.all (· == '0') = false := by
    refine List.all_eq_false.mpr ⟨c, hc, fun hzero => ?_⟩
    rw [eq_of_beq hzero] at hdigit
    cases hdigit
  rw [trimFraction, dropZeroFraction, fractionOf_pointed hlead, hdigits, hzeros, Bool.false_and,
    Bool.and_false]
  rfl

/-- Of digits behind the point only the zeros at the end are left out, and the point with them if
there is nothing else. -/
theorem trimFraction_pointed (hlead : ∀ c ∈ lead, c ≠ '.') (hne : rest ≠ [])
    (hdigits : AreDigits rest) :
    ∃ t k, rest = t ++ zeros k ∧ t.getLast? ≠ some '0' ∧
      trimFraction (lead ++ '.' :: rest) = pointed lead t := by
  obtain ⟨t, ht, hlast⟩ := exists_append_zeros rest
  refine ⟨t, _, ht, hlast, ?_⟩
  have hall : rest.all Char.isDigit = true := List.all_eq_true.mpr hdigits
  rw [trimFraction, dropZeroFraction, fractionOf_pointed hlead, hall, Bool.true_and, pointed]
  by_cases hempty : t = []
  · -- There is nothing but zeros.
    have hzeros : rest.all (· == '0') = true := by
      rw [ht, hempty, List.nil_append, List.all_eq_true]
      intro c hc
      rw [List.eq_of_mem_replicate hc]
      rfl
    have hany : rest.any (· ≠ '0') = false := by
      rw [List.any_eq_false]
      intro c hc
      rw [decide_eq_true_iff, not_not]
      exact eq_of_beq (List.all_eq_true.mp hzeros c hc)
    have hsome : rest.isEmpty = false := List.isEmpty_eq_false_iff.mpr hne
    rw [if_pos hempty, hany, hzeros, hsome]
    exact Text.takeWhile_run (fun c hc => decide_eq_true (hlead c hc))
      (Text.stopsBefore_cons.mpr rfl)
  · have hany : rest.any (· ≠ '0') = true := by
      rw [List.any_eq_true]
      refine ⟨t.getLast hempty, ?_, decide_eq_true fun hzero => hlast ?_⟩
      · rw [ht]
        exact List.mem_append_left _ (List.getLast_mem hempty)
      · rw [List.getLast?_eq_some_getLast hempty, hzero]
    have hsplit : lead ++ '.' :: rest = (lead ++ '.' :: t) ++ zeros (trailingZeros rest) := by
      conv_lhs => rw [ht]
      rw [List.append_assoc, List.cons_append]
    have hlength : (lead ++ '.' :: rest).length - trailingZeros rest =
        (lead ++ '.' :: t).length := by
      rw [hsplit, List.length_append, zeros, List.length_replicate, Nat.add_sub_cancel]
    rw [if_neg hempty, hany, if_pos rfl, hlength, hsplit, List.take_left]

end Pointed

section Signed

variable {negative : Bool} {n : Spelling}

theorem signed_append (s t : Text) : signed negative (s ++ t) = signed negative s ++ t := by
  cases negative <;> rfl

theorem signed_pointed (s t : Text) :
    signed negative (pointed s t) = pointed (signed negative s) t := by
  rw [pointed, pointed]
  split
  · rfl
  · exact signed_append _ _

theorem ne_point_of_isDigit {c : Char} (h : c.isDigit = true) : c ≠ '.' := by
  rintro rfl
  cases h

theorem ne_point_of_mem_whole : ∀ c ∈ signed negative n.whole.text, c ≠ '.' := by
  have hwhole : ∀ c ∈ n.whole.text, c ≠ '.' :=
    fun c hc => ne_point_of_isDigit (n.whole.areDigits c hc)
  cases negative with
  | false => exact hwhole
  | true => exact List.forall_mem_cons.mpr ⟨by decide, hwhole⟩

theorem ne_point_of_mem_power (p : Power) : ∀ c ∈ p.text, c ≠ '.' := by
  have hdigits : ∀ c ∈ p.digits.text, c ≠ '.' :=
    fun c hc => ne_point_of_isDigit (p.digits.areDigits c hc)
  rw [Power.text]
  rcases p.negative? with _ | _ | _
  · exact List.forall_mem_cons.mpr ⟨by decide, hdigits⟩
  · exact List.forall_mem_cons.mpr ⟨by decide, List.forall_mem_cons.mpr ⟨by decide, hdigits⟩⟩
  · exact List.forall_mem_cons.mpr ⟨by decide, List.forall_mem_cons.mpr ⟨by decide, hdigits⟩⟩

theorem mark_mem_power (p : Power) : 'e' ∈ p.text := by
  rw [Power.text]
  split <;> exact List.mem_cons_self

/-- Zeros at the end of the fraction do not count. -/
theorem number_of_append_zeros {m : Spelling} {k : ℕ} (hdigits : n.digits = m.digits ++ zeros k)
    (hlength : n.fraction.length = m.fraction.length + k) (hpower : n.power = m.power) :
    n.number = m.number := by
  have hten : (10 : ℚ) ≠ 0 := by norm_num
  rw [n.number_eq, m.number_eq, hdigits, hlength, hpower, digitsValue_append, digitsValue_zeros,
    zeros, List.length_replicate]
  push_cast
  rw [← sub_sub, zpow_sub₀ hten _ (k : ℤ), zpow_natCast]
  field_simp
  ring

/-- Trimming keeps the number. -/
theorem exists_trimmed (negative : Bool) (n : Spelling) :
    ∃ m : Spelling, trimFraction (signed negative n.text) = signed negative m.text ∧
      m.number = n.number ∧ (m.power? = none → m.fraction.getLast? ≠ some '0') := by
  obtain ⟨whole, fraction?, power?⟩ := n
  have hlead := @ne_point_of_mem_whole negative ⟨whole, fraction?, power?⟩
  rcases fraction? with _ | digits
  · -- Without a fraction nothing is left out.
    refine ⟨_, trimFraction_of_no_point ?_, rfl, fun _ => (Option.some_ne_none '0').symm⟩
    rw [Spelling.text, signed_append]
    intro c hc
    rcases List.mem_append.mp hc with hc | hc
    · exact hlead c hc
    · rcases power? with _ | p
      · cases hc
      · exact ne_point_of_mem_power p c hc
  · rcases power? with _ | p
    · obtain ⟨t, k, ht, hlast, htrim⟩ :=
        trimFraction_pointed hlead digits.ne_nil digits.areDigits
      have hdigits : AreDigits t := fun c hc =>
        digits.areDigits c (by rw [ht]; exact List.mem_append_left _ hc)
      refine ⟨.ofParts whole t hdigits none, ?_, ?_, fun _ => ?_⟩
      · rw [Spelling.text_ofParts, Option.elim_none, List.append_nil, signed_pointed, ← htrim,
          Spelling.text, signed_append]
        simp [Spelling.fractionText, Spelling.powerText]
      · symm
        apply number_of_append_zeros
        · rw [Spelling.digits_ofParts, List.append_assoc, ← ht]
          rfl
        · rw [Spelling.fraction_ofParts, ← List.length_replicate (n := k) (a := '0'),
            ← List.length_append]
          exact congrArg List.length ht
        · rfl
      · rw [Spelling.fraction_ofParts]
        exact hlast
    · -- In front of an exponent nothing is left out.
      refine ⟨_, ?_, rfl, fun hnone => absurd hnone (Option.some_ne_none p)⟩
      have htext : signed negative (Spelling.text ⟨whole, some digits, some p⟩) =
          signed negative whole.text ++ '.' :: (digits.text ++ p.text) := signed_append _ _
      rw [htext]
      exact trimFraction_of_not_digits hlead (List.mem_append_right _ (mark_mem_power p)) rfl

/-- What is trimmed shows the same number as before. -/
theorem shows_trimFraction {s : Text} {q : ℚ} (h : Shows s q) : Shows (trimFraction s) q := by
  obtain ⟨negative, n, rfl, rfl⟩ := h
  obtain ⟨m, htext, hnumber, -⟩ := exists_trimmed negative n
  exact ⟨negative, m, htext, by rw [hnumber]⟩

theorem trimmed_signed {m : Spelling} (hm : m.power? = none → m.fraction.getLast? ≠ some '0') :
    Trimmed (signed negative m.text) := by
  intro hplain
  obtain ⟨whole, fraction?, power?⟩ := m
  have hlead := @ne_point_of_mem_whole negative ⟨whole, fraction?, power?⟩
  have hpoint {s : Text} (hs : AreDigits s) : s.getLast? ≠ some '.' := fun hlast =>
    ne_point_of_isDigit (hs _ (List.mem_of_getLast? hlast)) rfl
  rcases power? with _ | p
  · rcases fraction? with _ | digits
    · have htext : signed negative (Spelling.text ⟨whole, none, none⟩) =
          signed negative whole.text := by
        simp [Spelling.text, Spelling.fractionText, Spelling.powerText]
      rw [htext, fractionOf_of_no_point hlead]
      exact ⟨(Option.some_ne_none '0').symm, fun hlast => hlead _ (List.mem_of_getLast? hlast) rfl⟩
    · have htext : signed negative (Spelling.text ⟨whole, some digits, none⟩) =
          signed negative whole.text ++ '.' :: digits.text := by
        simp [Spelling.text, Spelling.fractionText, Spelling.powerText, signed_append]
      rw [htext, fractionOf_pointed hlead]
      refine ⟨hm rfl, ?_⟩
      rw [List.append_cons, List.getLast?_append_of_ne_nil _ digits.ne_nil]
      exact hpoint digits.areDigits
  · refine absurd ?_ hplain
    rw [Spelling.text, signed_append]
    exact List.mem_append_right _ (List.mem_append_right _ (mark_mem_power p))

end Signed

/-! ## Rounded amounts -/

/-- A number that is not negative, rounded to so many places, a half upwards. -/
def toPlaces (places : ℕ) (v : ℚ) : ℚ :=
  roundedTo (-places) v

theorem exists_fixed {x : Float} (hx : x.isFinite = true) (hlt : |exactValue x| < 10 ^ 21)
    (places : ℕ) :
    ∃ n : Spelling, fixed x places = signed (decide (exactValue x < 0)) n.text ∧
      n.number = toPlaces places |exactValue x| := by
  obtain ⟨whole, fraction, htext, hform⟩ :=
    withPlaces_eq ⌊|exactValue x| * 10 ^ places + 1 / 2⌋₊ places
  have hwhole : AreDigits whole := fun c hc => hform.digits c (List.mem_append_left _ hc)
  have hfraction : AreDigits fraction := fun c hc => hform.digits c (List.mem_append_right _ hc)
  refine ⟨.ofParts ⟨whole, hform.nonempty, hwhole⟩ fraction hfraction none, ?_, ?_⟩
  · rw [fixed_eq hx hlt, htext, Spelling.text_ofParts, Option.elim_none, List.append_nil]
  · rw [Spelling.number, Spelling.fraction_ofParts, hform.length]
    have hpower : (Spelling.ofParts ⟨whole, hform.nonempty, hwhole⟩ fraction hfraction none).power =
        0 := rfl
    have hvalue := hform.value
    rw [hpower, zpow_zero, mul_one, toPlaces, roundedTo, zpow_neg, zpow_natCast, div_inv_eq_mul,
      ← div_eq_mul_inv]
    exact hvalue

theorem roundedTo_pos {power : ℤ} {v : ℚ} (h : 10 ^ power ≤ v) : 0 < roundedTo power v := by
  have hunit : (0 : ℚ) < 10 ^ power := by positivity
  have hone : 1 ≤ v / 10 ^ power := (one_le_div₀ hunit).mpr h
  have hfloor : 1 ≤ ⌊v / 10 ^ power + 1 / 2⌋₊ := Nat.le_floor (by push_cast; linarith)
  have hfloor' : (0 : ℚ) < ⌊v / 10 ^ power + 1 / 2⌋₊ := by exact_mod_cast hfloor
  exact mul_pos hfloor' hunit

theorem toSignificant_pos {count : ℕ} {v : ℚ} (hcount : 1 ≤ count) (hv : 0 < v) :
    0 < toSignificant count v := by
  apply roundedTo_pos
  calc (10 : ℚ) ^ (Int.log 10 v - (count - 1)) ≤ 10 ^ Int.log 10 v :=
        zpow_le_zpow_right₀ (by norm_num) (by omega)
    _ ≤ v := (log_bounds hv).1

theorem roundedTo_zero (power : ℤ) : roundedTo power 0 = 0 := by
  have hfloor : ⌊(1 / 2 : ℚ)⌋₊ = 0 := by
    rw [Nat.floor_eq_zero]
    norm_num
  rw [roundedTo, zero_div, zero_add, hfloor, Nat.cast_zero, zero_mul]

/-! ## Bounds of size -/

section Bounds

variable {x t : Float} {den m : ℕ} {e : ℤ} {hm : 0 < m}

/-- The double nearest to a unit fraction bounds the same doubles as the fraction, if it is not
below it. -/
theorem abs_lt_unitFraction_iff (hx : x.isFinite = true) (ht : t.isFinite = true) (hden : 0 < den)
    (hnearest : nearest false 1 den = t) (hunpack : t.toModel.unpack = .finite .positive m e hm)
    (hup : (1 / den : ℚ) ≤ m * 2 ^ e) : x.abs < t ↔ |exactValue x| < 1 / den := by
  have hbound : exactValue t = m * 2 ^ e := exactValue_of_unpack ht hunpack
  have hsame : nearestTo (1 / den) = t := by
    have hpos : (0 : ℚ) < 1 / den := by positivity
    rw [← hnearest]
    symm
    apply nearest_eq_nearestTo hden (decide_eq_false hpos.not_gt).symm
    rw [abs_of_pos hpos, Nat.cast_one]
  obtain ⟨hfinite, hvalue⟩ := abs_of_finite hx
  rw [lt_iff hfinite ht, hvalue]
  constructor
  · intro hlt
    by_contra hge
    have hbetween := (representable_exactValue hfinite).nearest_le (hsame ▸ ht)
      (hvalue ▸ not_lt.mp hge)
    rw [hsame, hvalue] at hbetween
    exact hbetween.not_gt hlt
  · exact fun hlt => hlt.trans_le (hup.trans_eq hbound.symm)

theorem abs_lt_billionth_iff (hx : x.isFinite = true) :
    x.abs < 1e-9 ↔ |exactValue x| < 1 / 10 ^ 9 := by
  have hnearest : nearest false 1 (10 ^ 9) = (1e-9 : Float) := rfl
  have hunpack : (1e-9 : Float).toModel.unpack =
      .finite .positive 4835703278458517 (-82) (by decide) := rfl
  have hiff := abs_lt_unitFraction_iff hx rfl (by norm_num) hnearest hunpack (by norm_num)
  exact_mod_cast hiff

theorem abs_lt_tenThousandth_iff (hx : x.isFinite = true) :
    x.abs < 1e-4 ↔ |exactValue x| < 1 / 10 ^ 4 := by
  have hnearest : nearest false 1 (10 ^ 4) = (1e-4 : Float) := rfl
  have hunpack : (1e-4 : Float).toModel.unpack =
      .finite .positive 7378697629483821 (-66) (by decide) := rfl
  have hiff := abs_lt_unitFraction_iff hx rfl (by norm_num) hnearest hunpack (by norm_num)
  exact_mod_cast hiff

theorem abs_ge_hundredThousand_iff (hx : x.isFinite = true) :
    x.abs ≥ 1e5 ↔ 10 ^ 5 ≤ |exactValue x| := by
  have hunpack : (1e5 : Float).toModel.unpack =
      .finite .positive (3125 * 2 ^ 41) (-36) (by decide) := rfl
  have hvalue : exactValue 1e5 = 10 ^ 5 := by
    rw [exactValue_of_unpack rfl hunpack]
    show (((3125 * 2 ^ 41 : ℕ) : ℤ) : ℚ) * 2 ^ (-36 : ℤ) = 10 ^ 5
    norm_num
  obtain ⟨hfinite, habs⟩ := abs_of_finite hx
  rw [ge_iff_le, le_iff rfl hfinite, hvalue, habs]

end Bounds

/-! ## Conversions -/

/-- The number that a conversion shows of an amount that is not negative. -/
def converted (v : ℚ) : ℚ :=
  if v < 1 / 10 ^ 9 then toSignificant 15 v
  else if v < 1 / 10 ^ 4 then toPlaces 15 v
  else if v < 10 ^ 5 then toPlaces 12 v
  else toSignificant 12 v

theorem converted_pos {v : ℚ} (hv : 0 < v) : 0 < converted v := by
  rw [converted]
  split
  next => exact toSignificant_pos (by norm_num) hv
  next hlarge =>
    have hplaces {places : ℕ} (h : 9 ≤ places) : 0 < toPlaces places v := by
      apply roundedTo_pos
      calc (10 : ℚ) ^ (-places : ℤ) ≤ 10 ^ (-9 : ℤ) :=
            zpow_le_zpow_right₀ (by norm_num) (by omega)
        _ = 1 / 10 ^ 9 := by norm_num
        _ ≤ v := not_lt.mp hlarge
    split
    next => exact hplaces (by norm_num)
    next =>
      split
      · exact hplaces (by norm_num)
      · exact toSignificant_pos (by norm_num) hv

section Double

variable {x : Float}

/-- Zero has digits behind the point as well. -/
theorem exists_significant_zero (hx : x.isFinite = true) (hzero : exactValue x = 0) {count : ℕ}
    (hcount : 1 ≤ count) : ∃ n : Spelling, significant x count = n.text ∧ n.number = 0 := by
  have hequal : (x == 0) = true := (beq_zero_iff_exactValue hx).mpr hzero
  have hdigit : AreDigits ['0'] := List.forall_mem_singleton.mpr rfl
  have hdigits : AreDigits (zeros (count - 1)) := fun _ => isDigit_of_mem_zeros
  refine ⟨.ofParts ⟨['0'], List.cons_ne_nil _ _, hdigit⟩ (zeros (count - 1)) hdigits none, ?_, ?_⟩
  · have hempty : zeros (count - 1) = [] ↔ count = 1 := by
      rw [zeros, List.replicate_eq_nil_iff]
      omega
    simp [significant, hx, hequal, pointed, hempty]
  · have hvalue : Text.digitsValue ['0'] = 0 := digitsValue_zeros 1
    rw [Spelling.number_eq, Spelling.digits_ofParts, digitsValue_append, digitsValue_zeros, hvalue,
      Nat.zero_mul, Nat.cast_zero, zero_mul]

/-- A finite double is written with significant digits, zero as well. -/
theorem exists_significant_or_zero (hx : x.isFinite = true) {count : ℕ} (hcount : 1 ≤ count) :
    ∃ n : Spelling, significant x count = signed (decide (exactValue x < 0)) n.text ∧
      n.number = toSignificant count |exactValue x| := by
  by_cases hzero : exactValue x = 0
  · obtain ⟨n, htext, hnumber⟩ := exists_significant_zero hx hzero hcount
    rw [hzero, abs_zero, toSignificant, roundedTo_zero, decide_eq_false (lt_irrefl _)]
    exact ⟨n, htext, hnumber⟩
  · obtain ⟨n, htext, -, hnumber⟩ := exists_significant hx hzero hcount
    exact ⟨n, htext, hnumber⟩

/-- Before its zeros are left out, the text of a conversion shows the rounded amount. -/
theorem exists_converted (hx : x.isFinite = true) :
    ∃ n : Spelling, conversionText x =
        trimFraction (signed (decide (exactValue x < 0)) n.text) ∧
      n.number = converted |exactValue x| := by
  simp only [conversionText, converted, abs_lt_billionth_iff hx, abs_lt_tenThousandth_iff hx,
    abs_ge_hundredThousand_iff hx]
  have hplaces (hlt : |exactValue x| < 10 ^ 5) (places : ℕ) :=
    exists_fixed hx (hlt.trans (by norm_num)) places
  split
  next =>
    obtain ⟨n, htext, hnumber⟩ := exists_significant_or_zero hx (by norm_num : 1 ≤ 15)
    exact ⟨n, by rw [htext], hnumber⟩
  next =>
    split
    next hsmall =>
      obtain ⟨n, htext, hnumber⟩ := hplaces (hsmall.trans (by norm_num)) 15
      exact ⟨n, by rw [htext], hnumber⟩
    next =>
      by_cases hlarge : 10 ^ 5 ≤ |exactValue x|
      · rw [if_pos hlarge, if_neg hlarge.not_gt]
        obtain ⟨n, htext, hnumber⟩ := exists_significant_or_zero hx (by norm_num : 1 ≤ 12)
        exact ⟨n, by rw [htext], hnumber⟩
      · rw [if_neg hlarge, if_pos (not_le.mp hlarge)]
        obtain ⟨n, htext, hnumber⟩ := hplaces (not_le.mp hlarge) 12
        exact ⟨n, by rw [htext], hnumber⟩

/-- The text of a conversion shows the exact amount rounded as its size asks for, a half away from
zero, without zeros at the end that do not count, and in front of a unit it is read as the double
nearest to the number it shows. -/
theorem conversionText_exact (hx : x.isFinite = true) :
    (∃ n : Spelling, conversionText x = signed (decide (exactValue x < 0)) n.text ∧
      n.number = converted |exactValue x|) ∧
    (∀ s q, Shows s q → Shows (trimFraction s) q) ∧ Trimmed (conversionText x) ∧
    ∀ unit : Text, leadingNumber? (conversionText x ++ ' ' :: unit) =
      some (nearestTo (withSign (decide (exactValue x < 0)) (converted |exactValue x|))) := by
  obtain ⟨n, hconversion, hnumber⟩ := exists_converted hx
  obtain ⟨m, htext, hsame, hlast⟩ := exists_trimmed (decide (exactValue x < 0)) n
  rw [hconversion, htext]
  rw [← hsame] at hnumber
  refine ⟨⟨m, rfl, hnumber⟩, fun s q => shows_trimFraction, trimmed_signed hlast, fun unit => ?_⟩
  have hspaced : Expression.Spaced (' ' :: unit) := by
    rintro c ⟨⟩
    rfl
  have hpositive : decide (exactValue x < 0) = true → 0 < m.number := by
    intro hneg
    rw [hnumber]
    exact converted_pos (abs_pos.mpr (of_decide_eq_true hneg).ne)
  rw [Expression.leadingNumber?_signed hpositive hspaced, hnumber]

/-- Minus a half, in front of a unit. -/
theorem conversionText_exact_minus_half : (-0.5 : Float).isFinite = true ∧
    (∃ n : Spelling, conversionText (-0.5) = '-' :: n.text ∧ n.number = 1 / 2) ∧
    Trimmed (conversionText (-0.5)) ∧
    leadingNumber? (conversionText (-0.5) ++ " km".toList) = some (-0.5) := by
  have hfinite : (-0.5 : Float).isFinite = true := rfl
  have hunpack : (-0.5 : Float).toModel.unpack = .finite .negative (2 ^ 52) (-53) (by decide) := rfl
  have hvalue : exactValue (-0.5) = -(1 / 2) := by
    rw [exactValue_of_unpack hfinite hunpack]
    show ((-((2 ^ 52 : ℕ) : ℤ) : ℤ) : ℚ) * 2 ^ (-53 : ℤ) = -(1 / 2)
    norm_num
  have habs : |exactValue (-0.5)| = 1 / 2 := by
    rw [hvalue, abs_neg, abs_of_pos (by norm_num)]
  have hconverted : converted (1 / 2) = 1 / 2 := by
    have hfloor : ⌊(1 / 2 / 10 ^ (-(12 : ℕ) : ℤ) + 1 / 2 : ℚ)⌋₊ = 5 * 10 ^ 11 := by
      rw [Nat.floor_eq_iff (by norm_num)]
      norm_num
    rw [converted, if_neg (by norm_num), if_neg (by norm_num), if_pos (by norm_num), toPlaces,
      roundedTo, hfloor]
    norm_num
  have hnearest : nearestTo (-(1 / 2)) = -0.5 := by
    rw [← hvalue]
    exact nearestTo_exactValue hfinite (by rw [hvalue]; norm_num)
  obtain ⟨hshows, -, htrimmed, hread⟩ := conversionText_exact hfinite
  rw [habs, hconverted] at hshows hread
  rw [hvalue, decide_eq_true (by norm_num)] at hshows
  have hkilometre := hread "km".toList
  rw [hvalue, decide_eq_true (by norm_num), withSign, if_pos rfl, hnearest] at hkilometre
  exact ⟨hfinite, hshows, htrimmed, hkilometre⟩

end Double

end DeskCalc.Number
