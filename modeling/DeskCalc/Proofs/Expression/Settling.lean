import DeskCalc.Expression.Evaluate
import DeskCalc.Proofs.Number.Halves

/-!
# Settled results

Results are scaled by `10 ^ 12`, rounded and scaled back in doubles.  An integer is not changed by
the rounding, but by the scaling: it survives exactly if its product with `10 ^ 12` is rounded by
less than half of what the factor makes of its unit in the last place.
-/

namespace DeskCalc.Number

/-! ## Scaling by a trillion and back -/

section Scaling

variable {m : ℕ} {e f : ℤ}

theorem CountsIn.abs_sub_le {q : ℚ} (hq : 0 < q) (he : CountsIn q e)
    (hfinite : (nearestTo q).isFinite = true) : |exactValue (nearestTo q) - q| ≤ 2 ^ e / 2 := by
  have hpow : (0 : ℚ) < 2 ^ e := by positivity
  have hround := abs_roundEven_sub_le (div_nonneg hq.le hpow.le)
  rw [he.exactValue_nearestTo_of_pos hq hfinite]
  calc |(roundEven (q / 2 ^ e) : ℚ) * 2 ^ e - q|
      = |(roundEven (q / 2 ^ e) : ℚ) - q / 2 ^ e| * 2 ^ e := by
        rw [← abs_of_pos hpow, ← abs_mul, abs_of_pos hpow, sub_mul, div_mul_cancel₀ _ hpow.ne']
    _ ≤ 1 / 2 * 2 ^ e := by gcongr
    _ = 2 ^ e / 2 := by ring

/-- The factor lies between two powers of two, and so do the exponents that a mantissa and its
product are counted in. -/
theorem CountsIn.scaled (hm : 2 ^ 52 ≤ m) (hm' : m < 2 ^ 53) (he : -1074 ≤ e)
    (hf : CountsIn (m * 2 ^ e * 10 ^ 12) f) : e + 39 ≤ f ∧ f ≤ e + 40 := by
  have hpow : (0 : ℚ) < 2 ^ e := by positivity
  have hlow : (2 : ℚ) ^ 52 ≤ m := by exact_mod_cast hm
  have hhigh : (m : ℚ) < 2 ^ 53 := by exact_mod_cast hm'
  constructor
  · have hlt : (2 : ℚ) ^ (91 + e) < 2 ^ (53 + f) := by
      calc (2 : ℚ) ^ (91 + e) = 2 ^ 52 * 2 ^ e * 2 ^ 39 := by
            rw [zpow_add₀ two_ne_zero]
            norm_num
            ring
        _ < 2 ^ 52 * 2 ^ e * 10 ^ 12 := by
            gcongr
            norm_num
        _ ≤ m * 2 ^ e * 10 ^ 12 := by gcongr
        _ < 2 ^ 53 * 2 ^ f := hf.upper
        _ = 2 ^ (53 + f) := by
            rw [zpow_add₀ two_ne_zero]
            rfl
    have := (zpow_lt_zpow_iff_right₀ (by norm_num : (1 : ℚ) < 2)).mp hlt
    omega
  · rcases hf.lower with hleast | hlower
    · omega
    · have hlt : (2 : ℚ) ^ (52 + f) < 2 ^ (93 + e) := by
        calc (2 : ℚ) ^ (52 + f) = 2 ^ 52 * 2 ^ f := zpow_add₀ two_ne_zero _ _
          _ ≤ m * 2 ^ e * 10 ^ 12 := hlower
          _ < 2 ^ 53 * 2 ^ e * 2 ^ 40 := by
            gcongr
            norm_num
          _ = 2 ^ (93 + e) := by
            rw [zpow_add₀ two_ne_zero]
            norm_num
            ring
      have := (zpow_lt_zpow_iff_right₀ (by norm_num : (1 : ℚ) < 2)).mp hlt
      omega

/-- A power of two is scaled exactly. -/
theorem exactValue_scaled_power (hf : CountsIn (2 ^ 52 * 2 ^ e * 10 ^ 12) f) (hle : f ≤ e + 40)
    (hfinite : (nearestTo (2 ^ 52 * 2 ^ e * 10 ^ 12)).isFinite = true) :
    exactValue (nearestTo (2 ^ 52 * 2 ^ e * 10 ^ 12)) = 2 ^ 52 * 2 ^ e * 10 ^ 12 := by
  have hpow : (0 : ℚ) < 2 ^ f := by positivity
  have hquotient : (2 ^ 52 * 2 ^ e * 10 ^ 12 / 2 ^ f : ℚ) =
      ((5 ^ 12 * 2 ^ (e + 64 - f).toNat : ℕ) : ℚ) := by
    rw [div_eq_iff hpow.ne']
    push_cast
    rw [mul_assoc _ _ (2 ^ f), ← zpow_natCast 2 (e + 64 - f).toNat, ← zpow_add₀ two_ne_zero]
    have hexponent : ((e + 64 - f).toNat : ℤ) + f = e + 64 := by omega
    rw [hexponent, zpow_add₀ two_ne_zero]
    norm_num
    ring
  rw [hf.exactValue_nearestTo_of_pos (by positivity) hfinite, hquotient, roundEven_natCast,
    ← hquotient, div_mul_cancel₀ _ hpow.ne']

/-- What is lost by the scaling is not half of the unit. -/
theorem scaled_error_ne {r : ℕ} (hle : e + 39 ≤ f) :
    2 * |(r * 2 ^ f - m * 2 ^ e * 10 ^ 12 : ℚ)| ≠ 10 ^ 12 * 2 ^ e := by
  obtain ⟨j, rfl⟩ : ∃ j : ℕ, f = e + 12 + j := ⟨(f - e - 12).toNat, by omega⟩
  have hunit : (0 : ℚ) < 2 ^ (e + 12) := by positivity
  have herror : (r * 2 ^ (e + 12 + (j : ℤ)) - m * 2 ^ e * 10 ^ 12 : ℚ) =
      ((r * 2 ^ j - m * 5 ^ 12 : ℤ) : ℚ) * 2 ^ (e + 12) := by
    push_cast
    rw [zpow_add₀ two_ne_zero, zpow_add₀ two_ne_zero, zpow_natCast]
    norm_num
    ring
  have hfactor : (10 ^ 12 * 2 ^ e : ℚ) = ((5 ^ 12 : ℤ) : ℚ) * 2 ^ (e + 12) := by
    rw [zpow_add₀ two_ne_zero]
    norm_num
    ring
  intro heq
  rw [herror, hfactor, abs_mul, abs_of_pos hunit, ← mul_assoc, mul_left_inj' hunit.ne'] at heq
  -- Twice an integer would be a power of five.
  have hint : 2 * |(r * 2 ^ j - m * 5 ^ 12 : ℤ)| = 5 ^ 12 := by exact_mod_cast heq
  generalize |(r * 2 ^ j - m * 5 ^ 12 : ℤ)| = z at hint
  omega

theorem scaled_distance (p : ℚ) : p / 10 ^ 12 / 2 ^ e - m =
    (p - m * 2 ^ e * 10 ^ 12) / (10 ^ 12 * 2 ^ e) := by
  field_simp

/-- The scaling and its inverse lose less than one unit. -/
theorem scaled_close {p : ℚ} (hhigh : f ≤ e + 40)
    (herror : |p - m * 2 ^ e * 10 ^ 12| ≤ 2 ^ f / 2) : |p / 10 ^ 12 / 2 ^ e - m| < 3 / 5 := by
  have hbound : (2 : ℚ) ^ f / 2 ≤ 2 ^ 39 * 2 ^ e := by
    have hmono : (2 : ℚ) ^ f ≤ 2 ^ (e + 40) := zpow_le_zpow_right₀ (by norm_num) hhigh
    rw [zpow_add₀ two_ne_zero] at hmono
    calc (2 : ℚ) ^ f / 2 ≤ 2 ^ e * 2 ^ (40 : ℤ) / 2 := by gcongr
      _ = 2 ^ 39 * 2 ^ e := by
        norm_num
        ring
  rw [scaled_distance, abs_div, abs_of_pos (by positivity : (0 : ℚ) < 10 ^ 12 * 2 ^ e),
    div_lt_iff₀ (by positivity)]
  calc |p - m * 2 ^ e * 10 ^ 12| ≤ 2 ^ 39 * 2 ^ e := herror.trans hbound
    _ < 3 / 5 * (10 ^ 12 * 2 ^ e) := by
      rw [← mul_assoc]
      gcongr
      norm_num

/-- What is close to a mantissa above the least one is counted in the same unit. -/
theorem nearestTo_of_close {q : ℚ} (hm : 2 ^ 52 < m) (hm' : m < 2 ^ 53) (he : -1074 ≤ e)
    (hclose : |q / 2 ^ e - m| < 3 / 5) (hfinite : (nearestTo q).isFinite = true) :
    exactValue (nearestTo q) = roundEven (q / 2 ^ e) * 2 ^ e ∧
      |(roundEven (q / 2 ^ e) : ℚ) - m| ≤ 1 := by
  have hpow : (0 : ℚ) < 2 ^ e := by positivity
  have hlow : (2 : ℚ) ^ 52 + 1 ≤ m := by exact_mod_cast hm
  have hhigh : (m : ℚ) + 1 ≤ 2 ^ 53 := by exact_mod_cast hm'
  obtain ⟨hleft, hright⟩ := abs_lt.mp hclose
  have hupper : q / 2 ^ e < 2 ^ 53 := by linarith
  have hlower : 2 ^ 52 ≤ q / 2 ^ e := by linarith
  have hcounts : CountsIn q e := by
    refine ⟨he, ?_, .inr ?_⟩
    · rwa [div_lt_iff₀ hpow] at hupper
    · rwa [le_div_iff₀ hpow] at hlower
  have hpos : 0 < q := by
    have hquotient : 0 < q / 2 ^ e := by linarith
    exact (div_pos_iff_of_pos_right hpow).mp hquotient
  refine ⟨hcounts.exactValue_nearestTo_of_pos hpos hfinite, ?_⟩
  have hround := abs_le.mp (abs_roundEven_sub_le (div_nonneg hpos.le hpow.le))
  -- Two integers that differ by less than two differ by one at most.
  generalize roundEven (q / 2 ^ e) = r at hround
  have hless : (r : ℚ) < (m + 2 : ℕ) := by
    push_cast
    linarith
  have hmore : (m : ℚ) < (r + 2 : ℕ) := by
    push_cast
    linarith
  have hless' : r ≤ m + 1 := Nat.lt_succ_iff.mp (by exact_mod_cast hless)
  have hmore' : m ≤ r + 1 := Nat.lt_succ_iff.mp (by exact_mod_cast hmore)
  have hcast : (r : ℚ) ≤ m + 1 := by exact_mod_cast hless'
  have hcast' : (m : ℚ) ≤ r + 1 := by exact_mod_cast hmore'
  rw [abs_le]
  constructor <;> linarith

/-- A mantissa above the least one is scaled and scaled back. -/
theorem exactValue_scaled_back_of_lt (hm : 2 ^ 52 < m) (hm' : m < 2 ^ 53) (he : -1074 ≤ e)
    (hf : CountsIn (m * 2 ^ e * 10 ^ 12) f) (hlow : e + 39 ≤ f) (hhigh : f ≤ e + 40) {p : ℚ}
    (hscaled : (nearestTo (m * 2 ^ e * 10 ^ 12)).isFinite = true)
    (hp : exactValue (nearestTo (m * 2 ^ e * 10 ^ 12)) = p)
    (hback : (nearestTo (p / 10 ^ 12)).isFinite = true) :
    (exactValue (nearestTo (p / 10 ^ 12)) = m * 2 ^ e ↔
      2 * |p - m * 2 ^ e * 10 ^ 12| < 10 ^ 12 * 2 ^ e) ∧
    |exactValue (nearestTo (p / 10 ^ 12)) - m * 2 ^ e| ≤ 2 ^ e := by
  have hpow : (0 : ℚ) < 2 ^ e := by positivity
  have hunit : (0 : ℚ) < 10 ^ 12 * 2 ^ e := by positivity
  have hpos : 0 < m := by omega
  have hproduct : (0 : ℚ) < m * 2 ^ e * 10 ^ 12 := by positivity
  have herror := hf.abs_sub_le hproduct hscaled
  have hvalue := hf.exactValue_nearestTo_of_pos hproduct hscaled
  rw [hp] at herror hvalue
  have hdistance := @scaled_distance m e p
  obtain ⟨hresult, hnear⟩ := nearestTo_of_close hm hm' he (scaled_close hhigh herror) hback
  have hnonneg : 0 ≤ p / 10 ^ 12 / 2 ^ e := by
    have hp0 : 0 ≤ p := hp ▸ exactValue_nearestTo_nonneg hproduct.le
    positivity
  have hround := abs_roundEven_sub_le hnonneg
  have hne := @scaled_error_ne m e f (roundEven (m * 2 ^ e * 10 ^ 12 / 2 ^ f)) hlow
  rw [← hvalue] at hne
  rw [hresult, mul_left_inj' hpow.ne', Nat.cast_inj, ← sub_mul, abs_mul, abs_of_pos hpow]
  refine ⟨⟨fun hsame => ?_, fun hless => ?_⟩, mul_le_of_le_one_left hpow.le hnear⟩
  · rw [hsame, abs_sub_comm, hdistance, abs_div, abs_of_pos hunit, div_le_iff₀ hunit] at hround
    rw [one_div, ← div_eq_inv_mul, le_div_iff₀ two_pos, mul_comm] at hround
    exact lt_of_le_of_ne hround hne
  · apply roundEven_eq hnonneg
    rw [hdistance, abs_div, abs_of_pos hunit, div_lt_iff₀ hunit, one_div, ← div_eq_inv_mul,
      lt_div_iff₀ two_pos, mul_comm]
    exact hless

/-- A number that is scaled and scaled back comes to one of the doubles next to it, and to itself
exactly if the scaling loses less than half of its unit. -/
theorem exactValue_scaled_back (hm : 2 ^ 52 ≤ m) (hm' : m < 2 ^ 53) (he : -1074 ≤ e)
    (hself : Representable (m * 2 ^ e)) {p : ℚ}
    (hscaled : (nearestTo (m * 2 ^ e * 10 ^ 12)).isFinite = true)
    (hp : exactValue (nearestTo (m * 2 ^ e * 10 ^ 12)) = p)
    (hback : (nearestTo (p / 10 ^ 12)).isFinite = true) :
    (exactValue (nearestTo (p / 10 ^ 12)) = m * 2 ^ e ↔
      2 * |p - m * 2 ^ e * 10 ^ 12| < 10 ^ 12 * 2 ^ e) ∧
    |exactValue (nearestTo (p / 10 ^ 12)) - m * 2 ^ e| ≤ 2 ^ e := by
  have hpos : 0 < m := by omega
  have hproduct : (0 : ℚ) < m * 2 ^ e * 10 ^ 12 := by positivity
  obtain ⟨f, hf⟩ := exists_countsIn hproduct.ne'
  rw [abs_of_pos hproduct] at hf
  obtain ⟨hlow, hhigh⟩ := hf.scaled hm hm' he
  rcases hm.lt_or_eq with hlarge | hpower
  · exact exactValue_scaled_back_of_lt hlarge hm' he hf hlow hhigh hscaled hp hback
  · -- The least mantissa is a power of two, from which the doubles below have a smaller unit.
    have hcast : (m : ℚ) = 2 ^ 52 := by exact_mod_cast hpower.symm
    rw [hcast] at hf hscaled hp hself ⊢
    have hexact := exactValue_scaled_power hf hhigh hscaled
    rw [hp] at hexact
    have hquotient : p / 10 ^ 12 = 2 ^ 52 * 2 ^ e := by
      rw [hexact, mul_div_cancel_right₀ _ (by norm_num)]
    rw [hquotient, hself.2, hexact, sub_self, sub_self, abs_zero, mul_zero]
    exact ⟨iff_of_true rfl (by positivity), by positivity⟩

/-- The same for numbers of either sign. -/
theorem exactValue_scaled_back_of_abs {v p : ℚ} (hv : |v| = m * 2 ^ e) (hm : 2 ^ 52 ≤ m)
    (hm' : m < 2 ^ 53) (he : -1074 ≤ e) (hself : Representable v)
    (hscaled : (nearestTo (v * 10 ^ 12)).isFinite = true)
    (hp : exactValue (nearestTo (v * 10 ^ 12)) = p)
    (hback : (nearestTo (p / 10 ^ 12)).isFinite = true) :
    (exactValue (nearestTo (p / 10 ^ 12)) = v ↔ 2 * |p - v * 10 ^ 12| < 10 ^ 12 * 2 ^ e) ∧
    |exactValue (nearestTo (p / 10 ^ 12)) - v| ≤ 2 ^ e := by
  rcases abs_choice v with hsign | hsign
  · rw [hsign] at hv
    rw [hv] at hself hscaled hp ⊢
    exact exactValue_scaled_back hm hm' he hself hscaled hp hback
  · obtain rfl : v = -(m * 2 ^ e) := by rw [← hv, hsign, neg_neg]
    obtain ⟨q, rfl⟩ : ∃ q, p = -q := ⟨-p, (neg_neg p).symm⟩
    rw [neg_mul, isFinite_nearestTo_neg] at hscaled
    rw [neg_mul, exactValue_nearestTo_neg, neg_inj] at hp
    rw [neg_div, isFinite_nearestTo_neg] at hback
    rw [representable_neg] at hself
    obtain ⟨hiff, hnear⟩ := exactValue_scaled_back hm hm' he hself hscaled hp hback
    have herror : -q - -(m * 2 ^ e) * 10 ^ 12 = -(q - m * 2 ^ e * 10 ^ 12) := by ring
    have hstep : -exactValue (nearestTo (q / 10 ^ 12)) - -(m * 2 ^ e) =
        -(exactValue (nearestTo (q / 10 ^ 12)) - m * 2 ^ e) := by ring
    rw [neg_div, exactValue_nearestTo_neg, neg_inj, herror, hstep, abs_neg, abs_neg]
    exact ⟨hiff, hnear⟩

end Scaling

/-! ## Integers -/

section Integers

variable {x : Float} {n : ℤ}

/-- An integer that is a double and not zero has a full mantissa. -/
theorem mantissa_of_int (hn : exactValue x = n) (hne : n ≠ 0) :
    2 ^ 52 ≤ (magnitude x).mantissa := by
  obtain ⟨hsmall, hleast, hlarge⟩ := canonical_magnitude x
  refine hlarge.resolve_left fun hexponent => ?_
  have hone : (1 : ℚ) ≤ |exactValue x| := by
    rw [hn, ← Int.cast_abs]
    exact_mod_cast Int.one_le_abs hne
  rw [abs_exactValue_eq, hexponent] at hone
  have hcast : ((magnitude x).mantissa : ℚ) < 2 ^ 53 := by exact_mod_cast hsmall
  have hmono : (2 : ℚ) ^ (-1074 : ℤ) ≤ 2 ^ (-53 : ℤ) :=
    zpow_le_zpow_right₀ (by norm_num) (by norm_num)
  have hless : ((magnitude x).mantissa : ℚ) * 2 ^ (-1074 : ℤ) < 1 := by
    calc ((magnitude x).mantissa : ℚ) * 2 ^ (-1074 : ℤ) < 2 ^ 53 * 2 ^ (-1074 : ℤ) := by gcongr
      _ ≤ 2 ^ 53 * 2 ^ (-53 : ℤ) := mul_le_mul_of_nonneg_left hmono (by positivity)
      _ = 1 := by norm_num
  exact hless.not_ge hone

/-- The nearest double of an integer is an integer, and so even that no half slips at it if the
integer is even. -/
theorem exists_int_nearestTo {k : ℤ} (hfinite : (nearestTo (2 * k : ℤ)).isFinite = true) :
    ∃ n : ℤ, exactValue (nearestTo (2 * k : ℤ)) = n ∧ ¬Slips (n : ℚ) := by
  rcases le_or_gt (2 * k).natAbs (2 ^ 53) with hsmall | hlarge
  · refine ⟨2 * k, (representable_int hsmall).2, ?_⟩
    rw [slips_int_iff]
    omega
  · have hfar : (2 : ℚ) ^ 53 ≤ |exactValue (nearestTo (2 * k : ℤ))| := by
      obtain ⟨hfinite', hvalue⟩ := @representable_int (2 ^ 53) (by norm_num)
      have hle : |((2 ^ 53 : ℤ) : ℚ)| ≤ |((2 * k : ℤ) : ℚ)| := by
        rw [← Int.cast_abs, ← Int.cast_abs, Int.abs_eq_natAbs, Int.abs_eq_natAbs]
        exact_mod_cast hlarge.le
      have hmono := abs_exactValue_nearestTo_mono hfinite' hfinite hle
      rw [hvalue, abs_of_pos (by norm_num)] at hmono
      exact_mod_cast hmono
    obtain ⟨j, e, hvalue, hj, -, -⟩ := exists_mantissa (nearestTo (2 * k : ℤ))
    have he : 0 ≤ e := by
      by_contra hneg
      rw [hvalue] at hfar
      have hless := abs_scaled_lt hj (not_le.mp hneg)
      linarith
    obtain ⟨n, hn⟩ := @exists_int_of_nonneg j e he
    have hint := hvalue.trans hn
    exact ⟨n, hint, not_slips_of_large (hint ▸ hfar)⟩

/-- Whether the product with `10 ^ 12` is rounded by less than half of what the factor makes of the
unit in the last place. -/
def SurvivesScaling (x : Float) : Prop :=
  2 * |exactValue (x * 1e12) - exactValue x * 10 ^ 12| < 10 ^ 12 * 2 ^ (magnitude x).exponent

/-- A product of an integer is not changed by rounding. -/
theorem roundHalfUp_mul_trillion (hx : x.isFinite = true) (hn : exactValue x = n)
    (hscaled : (x * 1e12).isFinite = true) : (roundHalfUp (x * 1e12)).isFinite = true ∧
      exactValue (roundHalfUp (x * 1e12)) = exactValue (x * 1e12) := by
  have hproduct : exactValue x * 10 ^ 12 = (2 * (n * (5 * 10 ^ 11)) : ℤ) := by
    rw [hn]
    push_cast
    ring
  have hagree := mul_trillion hx
  rw [hproduct] at hagree
  obtain ⟨k, hk, hslips⟩ := exists_int_nearestTo (hagree.isFinite.mp hscaled)
  rw [← hagree.2] at hk
  obtain ⟨hkept, -⟩ := floor_add_half hscaled
  obtain ⟨hfinite, hvalue⟩ := roundHalfUp_value hscaled
  rw [hk] at hkept ⊢
  rw [hvalue, hkept hslips, floor_add_half_int]
  exact ⟨hfinite, rfl⟩

/-- An integer that is scaled, rounded and scaled back. -/
theorem exactValue_rounded_back (hx : x.isFinite = true) (hn : exactValue x = n)
    (hscaled : (x * 1e12).isFinite = true) :
    (exactValue (roundHalfUp (x * 1e12) / 1e12) = exactValue x ↔ SurvivesScaling x) ∧
      |exactValue (roundHalfUp (x * 1e12) / 1e12) - exactValue x| ≤ 2 ^ (magnitude x).exponent := by
  have hmul := mul_trillion hx
  obtain ⟨hrounded, hvalue⟩ := roundHalfUp_mul_trillion hx hn hscaled
  have hback := isFinite_div_trillion hrounded
  have hdiv := div_trillion hrounded
  rw [hvalue] at hdiv
  rw [hdiv.isFinite] at hback
  rw [SurvivesScaling, hdiv.2]
  by_cases hzero : n = 0
  · rw [hzero, Int.cast_zero] at hn
    have hproduct : exactValue (x * 1e12) = 0 := by
      rw [hmul.2, hn, zero_mul, exactValue_nearestTo_zero]
    rw [hproduct, zero_div, exactValue_nearestTo_zero, hn, zero_mul, sub_zero, abs_zero, mul_zero]
    exact ⟨iff_of_true rfl (by positivity), by positivity⟩
  · obtain ⟨hsmall, hleast, -⟩ := canonical_magnitude x
    exact exactValue_scaled_back_of_abs (abs_exactValue_eq x) (mantissa_of_int hn hzero) hsmall
      hleast (representable_exactValue hx) (hmul.isFinite.mp hscaled) hmul.2.symm hback

end Integers

end DeskCalc.Number

namespace DeskCalc.Expression

open Number

variable {x : Float} {n : ℤ}

/-- A result that is settled is finite. -/
theorem isFinite_settle {y : Float} (h : settle x = .ok y) : y.isFinite = true := by
  simp only [settle] at h
  split at h
  · cases h
  next hx =>
    have hfinite : x.isFinite = true := by simpa using hx
    split at h
    next hscaled =>
      cases h
      rw [roundHalfUp, if_pos hscaled]
      exact isFinite_div_trillion (isFinite_ofInt_floorInt (isFinite_add_half hscaled))
    next =>
      cases h
      exact hfinite

theorem settle_eq (hx : x.isFinite = true) :
    settle x = .ok (if (x * 1e12).isFinite then roundHalfUp (x * 1e12) / 1e12 else x) := by
  have hnot : ¬(!x.isFinite) = true := by
    rw [hx]
    exact Bool.false_ne_true
  rw [settle, if_neg hnot]
  show (if _ then _ else _) = _
  split <;> rfl

/-- A double that is an integer is settled to itself or to one of the doubles next to it, and to
itself exactly if it survives the scaling. -/
theorem settle_int (hx : x.isFinite = true) (hn : exactValue x = n) :
    ∃ y, settle x = .ok y ∧ y.isFinite = true ∧
      (exactValue y = n ↔ ((x * 1e12).isFinite = true → SurvivesScaling x)) ∧
      |exactValue y - n| ≤ 2 ^ (magnitude x).exponent := by
  have hsettle := settle_eq hx
  refine ⟨_, hsettle, isFinite_settle hsettle, ?_⟩
  by_cases hscaled : (x * 1e12).isFinite = true
  · obtain ⟨hiff, hnear⟩ := exactValue_rounded_back hx hn hscaled
    rw [if_pos hscaled, ← hn, hiff]
    exact ⟨⟨fun hkept _ => hkept, fun hkept => hkept hscaled⟩, hnear⟩
  · rw [if_neg hscaled, hn, sub_self, abs_zero]
    exact ⟨iff_of_true rfl fun hfinite => absurd hfinite hscaled, by positivity⟩

/-- Integers up to this one are scaled exactly. -/
theorem survivesScaling_of_le (hx : x.isFinite = true) (hn : exactValue x = n)
    (hsmall : n.natAbs ≤ 36893488) : SurvivesScaling x := by
  have hscaled : Representable (exactValue x * 10 ^ 12) := by
    have hvalue : exactValue x * 10 ^ 12 = (n * 5 ^ 12 : ℤ) * 2 ^ (12 : ℤ) := by
      rw [hn]
      push_cast
      norm_num
      ring
    rw [hvalue]
    exact representable_scaled (by omega) (by norm_num) (by norm_num)
  rw [SurvivesScaling, (mul_trillion hx).2, hscaled.2, sub_self, abs_zero, mul_zero]
  positivity

end DeskCalc.Expression
