import DeskCalc.Number.DecimalSum
import DeskCalc.Proofs.Number.Significant

/-!
# Sums of shown decimals

Two finite doubles are added as the decimals that their texts show.  Those are integers in units of
a common last place, so the sum is exact, and only the result is brought to the nearest double.
Precisions that are given add zeros and change nothing.

The main definition is `shownValue`.
-/

namespace DeskCalc.Number

open Expression (Shows Spelling withSign)

/-! ## Shown decimals -/

/-- The number that the shortest text of a finite double shows. -/
def shownValue (x : Float) : ℚ :=
  withSign (decide (exactValue x < 0)) (shownDecimal x).value

/-- The least number of decimals with which a number can be written. -/
def IsPlaces (q : ℚ) (n : ℕ) : Prop :=
  IsLeast {places : ℕ | ∃ k : ℤ, q * 10 ^ places = k} n

section Shown

variable {x : Float}

theorem shownDecimal_of_zero (hx : x.isFinite = true) (hzero : exactValue x = 0) :
    shownDecimal x = ⟨0, 0⟩ := by
  rw [shownDecimal, if_pos ((beq_zero_iff_exactValue hx).mpr hzero)]

theorem shownDecimal_of_ne_zero (hx : x.isFinite = true) (hne : exactValue x ≠ 0) :
    shownDecimal x = shortest x := by
  rw [shownDecimal, beq_zero_eq hx hne]
  rfl

theorem shows_numberText (hx : x.isFinite = true) : Shows (numberText x) (shownValue x) := by
  have hkind : numberText x = if x == 0 then ['0'] else
      signed (x < 0) (answerLayout.decimal (shortest x)) := by
    simp only [numberText, Layout.text, isNaN_of_isFinite hx, isInf_of_isFinite hx,
      Bool.false_eq_true, if_false]
    rfl
  by_cases hzero : exactValue x = 0
  · have hequal : (x == 0) = true := (beq_zero_iff_exactValue hx).mpr hzero
    refine ⟨false, ⟨⟨['0'], List.cons_ne_nil _ _, List.forall_mem_singleton.mpr rfl⟩, none, none⟩,
      ?_, ?_⟩
    · rw [hkind, if_pos hequal]
      rfl
    · have hdigits : Text.digitsValue ['0'] = 0 := digitsValue_zeros 1
      rw [shownValue, shownDecimal_of_zero hx hzero, hzero, decide_eq_false (lt_irrefl _),
        Spelling.number_eq, Spelling.digits, Spelling.fraction, Option.elim_none, List.append_nil,
        hdigits, Decimal.value]
      simp [withSign]
  · obtain ⟨n, htext, hvalue⟩ := Expression.exists_spelling_decimal
      (shortest_digits_ne_zero hx (mt exactValue_eq_zero_iff.mpr hzero))
    refine ⟨decide (exactValue x < 0), n, ?_, ?_⟩
    · simp only [hkind, beq_zero_eq hx hzero, htext, lt_zero_iff_exactValue hx, Bool.false_eq_true,
        if_false]
    · rw [shownValue, shownDecimal_of_ne_zero hx hzero, n.number_eq_value, hvalue]

end Shown

/-! ## The size of shown decimals -/

section Size

variable {x : Float} {d : Decimal}

theorem exponent_le_stripZeros (fuel : ℕ) (d : Decimal) :
    d.exponent ≤ (stripZeros fuel d).exponent := by
  induction fuel generalizing d with
  | zero => exact le_rfl
  | succ fuel ih =>
    rw [stripZeros]
    split
    · exact (Int.le_add_of_nonneg_right Int.one_nonneg).trans (ih _)
    · exact le_rfl

/-- With fuel enough the last digit is not zero. -/
theorem stripZeros_digits {fuel : ℕ} (hfuel : d.digits < 10 ^ fuel) :
    (stripZeros fuel d).digits % 10 = 0 → (stripZeros fuel d).digits = 0 := by
  induction fuel generalizing d with
  | zero =>
    intro _
    rw [stripZeros]
    omega
  | succ fuel ih =>
    rw [stripZeros]
    split
    next => exact ih (by rw [pow_succ] at hfuel; simp only; omega)
    next hstop =>
      intro hlast
      by_contra hne
      exact hstop ⟨hne, hlast⟩

theorem shortest_last (x : Float) : (shortest x).digits % 10 = 0 → (shortest x).digits = 0 :=
  stripZeros_digits (lt_pow_fuel (by norm_num) _)

theorem exponent_of_onGrid? {b num den : ℕ} {exponent : ℤ}
    (h : onGrid? b num den exponent = some d) : d.exponent = exponent := by
  simp only [onGrid?] at h
  split at h <;> cases h <;> rfl

theorem le_shortest_exponent (hx : x.isFinite = true) : -1100 ≤ (shortest x).exponent := by
  obtain ⟨hpower, -⟩ := leadingPower_bounds hx
  refine le_trans ?_ (exponent_le_stripZeros _ _)
  cases hfound : (List.range 17).findSome? fun (n : ℕ) =>
      onGrid? (x.toBits.toNat % twoTo 63) (magnitude x).num (magnitude x).den
        (leadingPower (magnitude x).num (magnitude x).den - n) with
  | some d =>
    obtain ⟨n, hn, hgrid⟩ := List.exists_of_findSome?_eq_some hfound
    have hlast := List.mem_range.mp hn
    rw [Option.getD_some, exponent_of_onGrid? hgrid]
    omega
  | none =>
    have hleast := (canonical_magnitude x).least
    rw [Option.getD_none, Binary.exactDecimal]
    split <;> simp only <;> omega

/-- What is read as a finite double is not beyond all of them. -/
theorem value_shortest_lt (hx : x.isFinite = true) : (shortest x).value < 2 ^ 1024 := by
  by_contra hlarge
  have hden : 0 < tenTo (-(shortest x).exponent).toNat := Nat.pow_pos (by norm_num)
  have hpos : (0 : ℚ) < tenTo (-(shortest x).exponent).toNat := by exact_mod_cast hden
  rw [← Decimal.quotient_eq, not_lt, le_div_iff₀ hpos] at hlarge
  have hbits := bits_shortest hx
  rw [Decimal.bits, nearestBits_of_le hden (by exact_mod_cast hlarge)] at hbits
  rw [isFinite_iff, ← hbits] at hx
  exact lt_irrefl _ hx

/-- A decimal as texts show it: it ends in no zero, and it has neither too many decimals nor too
many digits before them. -/
structure Decimal.Shown (d : Decimal) : Prop where
  last : d.exponent = 0 ∨ d.digits % 10 ≠ 0
  places_le : d.places ≤ 1100
  value_lt : d.value < 10 ^ 309

theorem shown_shownDecimal (hx : x.isFinite = true) : (shownDecimal x).Shown := by
  by_cases hzero : exactValue x = 0
  · rw [shownDecimal_of_zero hx hzero]
    refine ⟨.inl rfl, Nat.zero_le _, ?_⟩
    rw [Decimal.value, Nat.cast_zero, zero_mul]
    positivity
  · have hdigits := shortest_digits_ne_zero hx (mt exactValue_eq_zero_iff.mpr hzero)
    have hexponent := le_shortest_exponent hx
    rw [shownDecimal_of_ne_zero hx hzero]
    refine ⟨.inr fun hlast => hdigits (shortest_last x hlast), ?_, ?_⟩
    · rw [Decimal.places]
      omega
    · refine (value_shortest_lt hx).trans ?_
      have hpower : 2 ^ 1024 < 10 ^ 309 := by decide +kernel
      exact_mod_cast hpower

namespace Decimal.Shown

variable {width : ℕ}

/-- In units of a place that is not before its last one, a decimal is an integer. -/
theorem scaledBy_eq (hwidth : d.places ≤ width) :
    (d.scaledBy width : ℚ) = d.value * 10 ^ width := by
  have hten : (10 : ℚ) ≠ 0 := by norm_num
  obtain ⟨k, hk⟩ : ∃ k : ℕ, d.exponent + width = k := by
    apply Int.eq_ofNat_of_zero_le
    rw [Decimal.places] at hwidth
    omega
  rw [Decimal.scaledBy, Decimal.value, tenTo_eq, mul_assoc, ← zpow_natCast (10 : ℚ) width,
    ← zpow_add₀ hten, hk, Int.toNat_natCast, zpow_natCast]
  push_cast
  rfl

theorem isPlaces (h : d.Shown) : IsPlaces d.value d.places := by
  have hten : (10 : ℚ) ≠ 0 := by norm_num
  refine ⟨⟨d.scaledBy d.places, ?_⟩, ?_⟩
  · exact_mod_cast (scaledBy_eq le_rfl).symm
  · rintro n ⟨k, hk⟩
    by_contra hless
    obtain ⟨m, hm⟩ : ∃ m, d.places = n + (m + 1) := ⟨d.places - n - 1, by omega⟩
    have hexponent : d.exponent = -(n + (m + 1) : ℕ) := by
      rw [← hm, Decimal.places] at *
      omega
    -- With fewer places the digits would be a multiple of ten.
    have hdigits : (d.digits : ℤ) = k * 10 ^ m * 10 := by
      have hmultiple : (d.digits : ℚ) = k * 10 ^ m * 10 := by
        rw [← hk, Decimal.value, hexponent, zpow_neg, zpow_natCast, pow_add, pow_succ]
        field_simp
      exact_mod_cast hmultiple
    rcases h.last with hzero | hlast
    · omega
    · omega

theorem scaledBy_lt (h : d.Shown) (hwidth : d.places ≤ width) :
    d.scaledBy width < 10 ^ (309 + width) := by
  have hlt : (d.scaledBy width : ℚ) < 10 ^ 309 * 10 ^ width := by
    rw [scaledBy_eq hwidth]
    have hvalue := h.value_lt
    gcongr
  rw [← pow_add] at hlt
  exact_mod_cast hlt

theorem wholeLength_le (h : d.Shown) : d.wholeLength ≤ 309 := by
  have hden : 0 < tenTo (-d.exponent).toNat := Nat.pow_pos (by norm_num)
  have hpos : (0 : ℚ) < tenTo (-d.exponent).toNat := by exact_mod_cast hden
  apply length_digitsIn_le (by norm_num) (by norm_num)
  have hvalue := h.value_lt
  rw [← Decimal.quotient_eq, div_lt_iff₀ hpos] at hvalue
  rw [Decimal.places, Nat.div_lt_iff_lt_mul hden]
  exact_mod_cast hvalue

end Decimal.Shown

end Size

/-! ## Sums -/

section Sums

variable {a b x : Float} {width : ℕ}

theorem shownPlaces_eq (hx : x.isFinite = true) : shownPlaces x = (shownDecimal x).places :=
  if_pos hx

theorem shownPlaces_le (hx : x.isFinite = true) : shownPlaces x ≤ 1100 :=
  (shownPlaces_eq hx).trans_le (shown_shownDecimal hx).places_le

theorem signedAmount_eq (hx : x.isFinite = true) (hwidth : shownPlaces x ≤ width) :
    (signedAmount x (shownDecimal x) width : ℚ) = shownValue x * 10 ^ width := by
  have hscaled := Decimal.Shown.scaledBy_eq ((shownPlaces_eq hx).symm.trans_le hwidth)
  simp only [signedAmount, shownValue, withSign, lt_zero_iff_exactValue hx, decide_eq_true_iff]
  split
  · push_cast
    rw [hscaled, neg_mul]
  · push_cast
    exact hscaled

theorem natAbs_signedAmount_lt (hx : x.isFinite = true) (hwidth : shownPlaces x ≤ width) :
    (signedAmount x (shownDecimal x) width).natAbs < 10 ^ (309 + width) := by
  have hlt := (shown_shownDecimal hx).scaledBy_lt ((shownPlaces_eq hx).symm.trans_le hwidth)
  rw [signedAmount]
  split <;> omega

/-- The total is brought to the nearest double. -/
theorem ofTotal_eq {total : ℤ} (htotal : total.natAbs < 10 ^ digitLimit) :
    ofTotal total width = .ok (nearestTo (total / 10 ^ width)) := by
  have hlength := length_digitsIn_le (by norm_num : 2 ≤ 10) (by rw [digitLimit]; norm_num) htotal
  have hpow : (0 : ℚ) < 10 ^ width := by positivity
  rw [ofTotal, if_neg (not_lt.mpr hlength), ofDecimal_eq]
  congr 1
  apply nearest_eq_nearestTo (Nat.pow_pos (by norm_num))
  · rw [decide_eq_decide, div_lt_iff₀ hpow, zero_mul]
    exact Int.cast_lt_zero.symm
  · have hsign : (-(width : ℤ)).toNat = 0 := by omega
    rw [hsign, neg_neg, Int.toNat_natCast, tenTo_eq, pow_zero, Nat.mul_one, abs_div,
      abs_of_pos hpow, ← Int.cast_abs, Int.abs_eq_natAbs, Int.cast_natCast, Nat.cast_pow,
      Nat.cast_ofNat]

theorem sumAt_eq (ha : a.isFinite = true) (hb : b.isFinite = true) (hwidth : width ≤ 3900)
    (hplaces : shownPlaces a ≤ width) (hplaces' : shownPlaces b ≤ width) :
    sumAt width a b = .ok (nearestTo (shownValue a + shownValue b)) := by
  have hwhole := (shown_shownDecimal ha).wholeLength_le
  have hwhole' := (shown_shownDecimal hb).wholeLength_le
  have hfits : ¬digitLimit <
      max (shownDecimal a).wholeLength (shownDecimal b).wholeLength + width := by
    rw [digitLimit]
    omega
  have htotal : (signedAmount a (shownDecimal a) width +
      signedAmount b (shownDecimal b) width).natAbs < 10 ^ digitLimit := by
    have hamount := natAbs_signedAmount_lt ha hplaces
    have hamount' := natAbs_signedAmount_lt hb hplaces'
    calc (signedAmount a (shownDecimal a) width +
          signedAmount b (shownDecimal b) width).natAbs < 10 ^ (309 + width) * 10 := by omega
      _ = 10 ^ (309 + width + 1) := (pow_succ _ _).symm
      _ ≤ 10 ^ digitLimit := Nat.pow_le_pow_right (by norm_num) (by rw [digitLimit]; omega)
  have hpow : (10 : ℚ) ^ width ≠ 0 := by positivity
  simp only [sumAt, if_neg hfits]
  rw [ofTotal_eq htotal]
  congr 2
  rw [Int.cast_add, signedAmount_eq ha hplaces, signedAmount_eq hb hplaces', ← add_mul,
    mul_div_cancel_right₀ _ hpow]

theorem checkWidth_eq (hwidth : width ≤ 3900) : checkWidth width = .ok () := by
  have hsmall : ¬twoTo 40 ≤ width := by
    rw [twoTo_eq]
    omega
  have hsmall' : ¬twoTo 63 ≤ width := by
    rw [twoTo_eq]
    omega
  rw [checkWidth, if_neg hsmall', if_neg hsmall]

/-- Precisions within the limits change nothing but the one that is given back. -/
theorem decimalAdd_eq (ha : a.isFinite = true) (hb : b.isFinite = true) {pa pb : Option ℤ}
    (hpa : ∀ k ∈ pa, k ≤ 3900) (hpb : ∀ k ∈ pb, k ≤ 3900) :
    decimalAdd a b pa pb = .ok (nearestTo (shownValue a + shownValue b),
      max (pa.getD (shownPlaces a)) (pb.getD (shownPlaces b))) := by
  have hle {x : Float} (hx : x.isFinite = true) {p : Option ℤ} (hp : ∀ k ∈ p, k ≤ 3900) :
      p.getD (shownPlaces x) ≤ 3900 := by
    have hplaces := shownPlaces_le hx
    cases p with
    | none => simp only [Option.getD_none]; omega
    | some k => exact hp k rfl
  have hwidth : max (max (pa.getD (shownPlaces a)) (pb.getD (shownPlaces b))).toNat
      (max (shownPlaces a) (shownPlaces b)) ≤ 3900 := by
    have hplaces := shownPlaces_le ha
    have hplaces' := shownPlaces_le hb
    have hprecision := hle ha hpa
    have hprecision' := hle hb hpb
    omega
  simp only [decimalAdd, checkWidth_eq hwidth, ha, hb]
  rw [sumAt_eq ha hb hwidth (by omega) (by omega)]
  rfl

end Sums

/-! ## Differences -/

section Differences

variable {a b x : Float}

theorem isFinite_neg (hx : x.isFinite = true) : (-x).isFinite = true := by
  rw [isFinite_iff, (neg_parts hx).2, ← isFinite_iff]
  exact hx

theorem shownDecimal_neg (hx : x.isFinite = true) : shownDecimal (-x) = shownDecimal x := by
  have hbits := (neg_parts hx).2
  have hzero : (-x == 0) = (x == 0) := by
    rw [Bool.eq_iff_iff, beq_zero_iff hx, beq_zero_iff (isFinite_neg hx), hbits]
  have hlow : (-x).toBits.toNat % twoTo 63 = x.toBits.toNat % twoTo 63 := hbits
  rw [shownDecimal, shownDecimal, hzero, shortest, shortest, magnitude_congr hbits, hlow]

theorem shownValue_neg (hx : x.isFinite = true) : shownValue (-x) = -shownValue x := by
  rw [shownValue, shownValue, shownDecimal_neg hx, exactValue_neg hx]
  rcases lt_trichotomy (exactValue x) 0 with hneg | hzero | hpos
  · rw [decide_eq_false (by linarith), decide_eq_true hneg]
    exact (neg_neg _).symm
  · rw [shownDecimal_of_zero hx hzero, hzero, neg_zero, decide_eq_false (lt_irrefl _),
      Decimal.value]
    simp [withSign]
  · rw [decide_eq_true (by linarith), decide_eq_false (by linarith)]
    rfl

theorem isPlaces_shownValue (hx : x.isFinite = true) : IsPlaces (shownValue x) (shownPlaces x) := by
  have hplaces := (shown_shownDecimal hx).isPlaces
  rw [shownPlaces_eq hx, shownValue, withSign]
  split
  · have hsame (n : ℕ) : (∃ k : ℤ, -(shownDecimal x).value * 10 ^ n = k) ↔
        ∃ k : ℤ, (shownDecimal x).value * 10 ^ n = k := by
      constructor
      · rintro ⟨k, hk⟩
        exact ⟨-k, by rw [Int.cast_neg, ← hk]; ring⟩
      · rintro ⟨k, hk⟩
        exact ⟨-k, by rw [Int.cast_neg, ← hk]; ring⟩
    simp only [IsPlaces, hsame]
    exact hplaces
  · exact hplaces

theorem nearestTo_zero : nearestTo 0 = 0 :=
  eq_of_parts ((signBit_nearestTo 0).trans (by decide))
    (unsignedBits_nearestTo_zero.trans (by decide))

/-- Finite doubles are added and subtracted as the decimals that their texts show: the result is the
double nearest to the exact sum or difference, infinite only beyond the doubles, whatever the
precisions are, and the larger precision is given back with it.  The difference of equal doubles is
zero. -/
theorem decimalAdd_exact (ha : a.isFinite = true) (hb : b.isFinite = true) :
    ∃ p q : ℚ, ∃ m n : ℕ, Shows (numberText a) p ∧ IsPlaces p m ∧ Shows (numberText b) q ∧
      IsPlaces q n ∧
      (∀ pa pb : Option ℤ, (∀ k ∈ pa, 0 ≤ k ∧ k ≤ 3900) → (∀ k ∈ pb, 0 ≤ k ∧ k ≤ 3900) →
        decimalAdd a b pa pb = .ok (nearestTo (p + q), max (pa.getD m) (pb.getD n)) ∧
        decimalAdd b a pb pa = decimalAdd a b pa pb ∧
        decimalSub a b pa pb = .ok (nearestTo (p - q), max (pa.getD m) (pb.getD n))) ∧
      IsNearest (nearestTo (p + q)) (p + q) ∧ IsNearest (nearestTo (p - q)) (p - q) ∧
      ((a == b) = true → nearestTo (p - q) = 0) := by
  refine ⟨shownValue a, shownValue b, shownPlaces a, shownPlaces b, shows_numberText ha,
    isPlaces_shownValue ha, shows_numberText hb, isPlaces_shownValue hb, ?_,
    isNearest_nearestTo _, isNearest_nearestTo _, ?_⟩
  · intro pa pb hpa hpb
    have hpa' : ∀ k ∈ pa, k ≤ 3900 := fun k hk => (hpa k hk).2
    have hpb' : ∀ k ∈ pb, k ≤ 3900 := fun k hk => (hpb k hk).2
    refine ⟨decimalAdd_eq ha hb hpa' hpb', ?_, ?_⟩
    · rw [decimalAdd_eq ha hb hpa' hpb', decimalAdd_eq hb ha hpb' hpa', add_comm, max_comm]
    · have hplaces : shownPlaces (-b) = shownPlaces b := by
        rw [shownPlaces_eq hb, shownPlaces_eq (isFinite_neg hb), shownDecimal_neg hb]
      rw [decimalSub, decimalAdd_eq ha (isFinite_neg hb) hpa' hpb', shownValue_neg hb, hplaces,
        ← sub_eq_add_neg]
  · intro hequal
    have hsame : shownValue a = shownValue b := by
      have hshows := shows_numberText ha
      rw [numberText_congr ha hb hequal] at hshows
      exact hshows.unique (shows_numberText hb)
    rw [hsame, sub_self, nearestTo_zero]

/-- One tenth and two tenths, with one precision that is too small and one that is larger than it
has to be. -/
theorem decimalAdd_exact_tenths : (0.1 : Float).isFinite = true ∧ (0.2 : Float).isFinite = true ∧
    decimalAdd 0.1 0.2 (some 0) (some 3) = .ok (0.3, 3) := by
  have hfinite : (0.1 : Float).isFinite = true := rfl
  have hfinite' : (0.2 : Float).isFinite = true := rfl
  have htenths {s : Text} {c : Char} (hs : s = ['0', '.', c]) (hc : Expression.AreDigits [c]) :
      Shows s (Text.digitsValue ['0', c] / 10) := by
    refine ⟨false, .ofParts ⟨['0'], List.cons_ne_nil _ _, List.forall_mem_singleton.mpr rfl⟩ [c] hc
      none, ?_, ?_⟩
    · rw [Spelling.text_ofParts]
      exact hs
    · have hpower : (Spelling.ofParts ⟨['0'], List.cons_ne_nil _ _,
          List.forall_mem_singleton.mpr rfl⟩ [c] hc none).power = 0 := rfl
      rw [Spelling.number_eq, Spelling.digits_ofParts, Spelling.fraction_ofParts, hpower]
      simp [withSign, zpow_neg, div_eq_mul_inv]
  have hone := htenths (by decide +kernel : numberText 0.1 = ['0', '.', '1'])
    (List.forall_mem_singleton.mpr rfl)
  have htwo := htenths (by decide +kernel : numberText 0.2 = ['0', '.', '2'])
    (List.forall_mem_singleton.mpr rfl)
  obtain ⟨p, q, m, n, hp, -, hq, -, hsums, -⟩ := decimalAdd_exact hfinite hfinite'
  have hsum : nearestTo (p + q) = 0.3 := by
    have hbits : nearest false 3 10 = (0.3 : Float) := rfl
    have hvalue : Text.digitsValue ['0', '1'] = 1 := by decide
    have hvalue' : Text.digitsValue ['0', '2'] = 2 := by decide
    rw [← hbits, hp.unique hone, hq.unique htwo, hvalue, hvalue']
    exact (nearest_eq_nearestTo (by norm_num) (by norm_num) (by norm_num)).symm
  obtain ⟨hadd, -, -⟩ := hsums (some 0) (some 3) (by rintro k ⟨⟩; norm_num)
    (by rintro k ⟨⟩; norm_num)
  rw [hsum] at hadd
  exact ⟨hfinite, hfinite', hadd⟩

end Differences

end DeskCalc.Number
