import DeskCalc.Number.Rounding
import DeskCalc.Proofs.Number.Arithmetic
import Mathlib.Data.Rat.Floor

/-!
# Rounding halves upwards

The half is added in doubles, so its sum is rounded before its floor is taken.  That changes the
floor right below a half, and at the odd integers between which there are no halves any more; every
other finite double is rounded to the nearest integer, and halves upwards.
-/

namespace DeskCalc.Number

/-! ## Floors -/

section Floor

variable {x : Float}

theorem floorInt_eq (x : Float) : floorInt x = ⌊exactValue x⌋ := by
  rw [exactValue, Rat.floor_intCast_div_natCast]
  rfl

theorem ofInt_eq (n : ℤ) : ofInt n = nearestTo n := by
  apply nearest_eq_nearestTo Nat.one_pos
  · rw [decide_eq_decide, Int.cast_lt_zero]
  · rw [Nat.cast_one, div_one, ← Int.cast_abs, Int.abs_eq_natAbs, Int.cast_natCast]

/-- The value of a double as a multiple of the power of two that its mantissa is counted in. -/
theorem exists_mantissa (x : Float) : ∃ k e : ℤ, exactValue x = k * 2 ^ e ∧ k.natAbs < 2 ^ 53 ∧
    -1074 ≤ e ∧ (e = -1074 ∨ 2 ^ 52 ≤ k.natAbs) := by
  obtain ⟨hsmall, hleast, hlarge⟩ := canonical_magnitude x
  rw [exactValue_eq, abs_exactValue_eq]
  by_cases hsign : signBit x = true
  · refine ⟨-(magnitude x).mantissa, (magnitude x).exponent, ?_, by omega, hleast, by omega⟩
    rw [if_pos hsign]
    push_cast
    ring
  · refine ⟨(magnitude x).mantissa, (magnitude x).exponent, ?_, by omega, hleast, by omega⟩
    rw [if_neg hsign]
    push_cast
    rfl

theorem representable_int {n : ℤ} (hn : n.natAbs ≤ 2 ^ 53) : Representable n := by
  have hscaled := representable_scaled hn (by norm_num : (-1074 : ℤ) ≤ 0) (by norm_num)
  rwa [zpow_zero, mul_one] at hscaled

theorem representable_floor_of_abs {q : ℚ} (h : |q| ≤ 2 ^ 53) : Representable ⌊q⌋ := by
  obtain ⟨hlow, hhigh⟩ := abs_le.mp h
  apply representable_int
  have hlow' : -2 ^ 53 ≤ ⌊q⌋ := Int.le_floor.mpr (by exact_mod_cast hlow)
  have hhigh' : ⌊q⌋ ≤ 2 ^ 53 := Int.floor_le_iff.mpr (by push_cast; linarith)
  omega

/-- A number counted in units or more is an integer. -/
theorem exists_int_of_nonneg {k e : ℤ} (he : 0 ≤ e) : ∃ n : ℤ, (k * 2 ^ e : ℚ) = n := by
  obtain ⟨j, rfl⟩ := Int.eq_ofNat_of_zero_le he
  refine ⟨k * 2 ^ j, ?_⟩
  push_cast
  rfl

theorem abs_scaled_lt {k e : ℤ} (hk : k.natAbs < 2 ^ 53) (he : e < 0) :
    |(k * 2 ^ e : ℚ)| < 2 ^ 52 := by
  have hhalf : (2 : ℚ) ^ e ≤ 2 ^ (-1 : ℤ) := zpow_le_zpow_right₀ (by norm_num) (by omega)
  rw [abs_scaled]
  calc (k.natAbs : ℚ) * 2 ^ e < 2 ^ 53 * 2 ^ e := by
        gcongr
        exact_mod_cast hk
    _ ≤ 2 ^ 53 * 2 ^ (-1 : ℤ) := by gcongr
    _ = 2 ^ 52 := by norm_num

/-- The floor of a finite double is the value of a double. -/
theorem representable_floor (hx : x.isFinite = true) : Representable ⌊exactValue x⌋ := by
  obtain ⟨k, e, hvalue, hk, -, -⟩ := exists_mantissa x
  rcases le_or_gt 0 e with he | he
  · obtain ⟨n, hn⟩ := @exists_int_of_nonneg k e he
    rw [hvalue, hn, Int.floor_intCast, ← hn, ← hvalue]
    exact representable_exactValue hx
  · apply representable_floor_of_abs
    rw [hvalue]
    exact (abs_scaled_lt hk he).le.trans (by norm_num)

end Floor

/-! ## Adding a half -/

/-- Where a half that is added is rounded up: right below a half, and at the odd integers from where
on there are no halves. -/
def Slips (v : ℚ) : Prop :=
  v = 1 / 2 - 1 / 2 ^ 54 ∨ ∃ n : ℤ, v = n ∧ n % 2 = 1 ∧ 2 ^ 52 < n.natAbs ∧ n.natAbs < 2 ^ 53

theorem not_slips_of_large {v : ℚ} (hv : 2 ^ 53 ≤ |v|) : ¬Slips v := by
  rintro (rfl | ⟨n, rfl, -, -, hnear⟩)
  · rw [abs_of_pos (by norm_num)] at hv
    norm_num at hv
  · rw [← Int.cast_abs, Int.abs_eq_natAbs, Int.cast_natCast] at hv
    exact hnear.not_ge (by exact_mod_cast hv)

theorem slips_int_iff {n : ℤ} : Slips n ↔ n % 2 = 1 ∧ 2 ^ 52 < n.natAbs ∧ n.natAbs < 2 ^ 53 := by
  constructor
  · rintro (hhalf | ⟨k, hk, hslip⟩)
    · have hpos : (0 : ℚ) < n := by
        rw [hhalf]
        norm_num
      have hless : (n : ℚ) < 1 := by
        rw [hhalf]
        norm_num
      have hpos' : 0 < n := by exact_mod_cast hpos
      have hless' : n < 1 := by exact_mod_cast hless
      omega
    · obtain rfl : n = k := by exact_mod_cast hk
      exact hslip
  · exact fun hslip => .inr ⟨n, rfl, hslip⟩

section AddHalf

variable {k e : ℤ}

/-- Among fractions only the number right below a half slips. -/
theorem slips_fraction_iff (hk : k.natAbs < 2 ^ 53) (he : e < 0) :
    Slips (k * 2 ^ e) ↔ (k * 2 ^ e : ℚ) = 1 / 2 - 1 / 2 ^ 54 := by
  refine or_iff_left ?_
  rintro ⟨n, hn, -, hfar, -⟩
  have hless := abs_scaled_lt hk he
  rw [hn, ← Int.cast_abs, Int.abs_eq_natAbs, Int.cast_natCast] at hless
  exact hfar.not_gt (by exact_mod_cast hless)

theorem two_le_zpow (he : 1 ≤ e) : (2 : ℚ) ≤ 2 ^ e := by
  calc (2 : ℚ) = 2 ^ (1 : ℤ) := (zpow_one 2).symm
    _ ≤ 2 ^ e := zpow_le_zpow_right₀ (by norm_num) he

/-- Beyond the numbers that are counted in units nothing slips. -/
theorem not_slips_multiple (hlarge : 2 ^ 52 ≤ k.natAbs) (he : 1 ≤ e) : ¬Slips (k * 2 ^ e) := by
  apply not_slips_of_large
  have hunit := two_le_zpow he
  rw [abs_scaled]
  calc (2 : ℚ) ^ 53 = 2 ^ 52 * 2 := pow_succ 2 52
    _ ≤ k.natAbs * 2 ^ e := by
      gcongr
      exact_mod_cast hlarge

/-- A number that is rounded to a double in the same unit. -/
theorem floor_nearestTo_eq {q : ℚ} (hq : (nearestTo q).isFinite = true) (hfloor : Representable ⌊q⌋)
    (h : ∃ z, Representable z ∧ q ≤ z ∧ z < ⌊q⌋ + 1) : ⌊exactValue (nearestTo q)⌋ = ⌊q⌋ := by
  obtain ⟨z, hz, hle, hlt⟩ := h
  rw [Int.floor_eq_iff]
  exact ⟨hfloor.le_nearest hq (Int.floor_le q), (hz.nearest_le hq hle).trans_lt hlt⟩

section Fractions

variable {j : ℕ}

/-- A half is a multiple of every unit that is not greater. -/
theorem scaled_add_half (k : ℤ) (j : ℕ) :
    (k * 2 ^ (-1 - (j : ℤ)) + 1 / 2 : ℚ) = ((k + 2 ^ j : ℤ) : ℚ) * 2 ^ (-1 - (j : ℤ)) := by
  have hhalf : ((2 ^ j : ℤ) : ℚ) * 2 ^ (-1 - (j : ℤ)) = 1 / 2 := by
    push_cast
    rw [← zpow_natCast, ← zpow_add₀ two_ne_zero, add_sub_cancel]
    norm_num
  rw [← hhalf]
  push_cast
  ring

/-- Where the half leads beyond a power of two that is an integer, the middle above that integer is
the value of a double. -/
theorem exists_representable_of_crossing (hk : k < 2 ^ 53) (hcross : 2 ^ 53 < k + 2 ^ j)
    (hj : j ≤ 52) : ∃ z, Representable z ∧ k * 2 ^ (-1 - (j : ℤ)) + 1 / 2 ≤ z ∧
      z < ⌊(k * 2 ^ (-1 - (j : ℤ)) + 1 / 2 : ℚ)⌋ + 1 := by
  obtain ⟨b, hb⟩ : ∃ b : ℤ, b = 2 ^ (52 - j) := ⟨_, rfl⟩
  have hend : (b : ℚ) = 2 ^ 53 * 2 ^ (-1 - (j : ℤ)) := by
    rw [hb]
    push_cast
    rw [← zpow_natCast, ← zpow_natCast, ← zpow_add₀ two_ne_zero]
    congr 1
    omega
  have hj' : 1 ≤ j := by
    by_contra hzero
    obtain rfl : j = 0 := by omega
    omega
  have hsmall : b ≤ 2 ^ 51 := hb ▸ pow_le_pow_right₀ (by norm_num) (by omega)
  have hpos : 0 < b := hb ▸ by positivity
  have hbelow : (k * 2 ^ (-1 - (j : ℤ)) : ℚ) < b := by
    have hcast : (k : ℚ) < 2 ^ 53 := by exact_mod_cast hk
    rw [hend]
    gcongr
  have habove : (b : ℚ) < k * 2 ^ (-1 - (j : ℤ)) + 1 / 2 := by
    have hcast : (2 ^ 53 : ℚ) < ((k + 2 ^ j : ℤ) : ℚ) := by exact_mod_cast hcross
    rw [hend, scaled_add_half]
    gcongr
  have hfloor : ⌊(k * 2 ^ (-1 - (j : ℤ)) + 1 / 2 : ℚ)⌋ = b := by
    rw [Int.floor_eq_iff]
    constructor <;> linarith
  have hmiddle : ((2 * b + 1 : ℤ) : ℚ) * 2 ^ (-1 : ℤ) = b + 1 / 2 := by
    push_cast
    ring
  refine ⟨((2 * b + 1 : ℤ) : ℚ) * 2 ^ (-1 : ℤ), ?_, ?_, ?_⟩
  · exact representable_scaled (by omega) (by norm_num) (by norm_num)
  · rw [hmiddle]
    linarith
  · rw [hmiddle, hfloor]
    linarith

/-- Below one the last value of a double is not exceeded, unless the number is the one right below a
half. -/
theorem exists_representable_below_one (hk : k < 2 ^ 53) (hcross : 2 ^ 53 < k + 2 ^ j)
    (hj : 53 ≤ j) (hslip : (k * 2 ^ (-1 - (j : ℤ)) : ℚ) ≠ 1 / 2 - 1 / 2 ^ 54) :
    ∃ z, Representable z ∧ k * 2 ^ (-1 - (j : ℤ)) + 1 / 2 ≤ z ∧
      z < ⌊(k * 2 ^ (-1 - (j : ℤ)) + 1 / 2 : ℚ)⌋ + 1 := by
  have hfar : (k * 2 ^ (-1 - (j : ℤ)) : ℚ) ≤ 1 / 2 - 1 / 2 ^ 53 := by
    rcases eq_or_lt_of_le hj with rfl | hlt
    · have hne : k ≠ 2 ^ 53 - 1 := by
        rintro rfl
        apply hslip
        norm_num
      have hless : (k : ℚ) ≤ 2 ^ 53 - 2 := by exact_mod_cast (by omega : k ≤ 2 ^ 53 - 2)
      calc (k * 2 ^ (-1 - ((53 : ℕ) : ℤ)) : ℚ) ≤ (2 ^ 53 - 2) * 2 ^ (-1 - ((53 : ℕ) : ℤ)) := by
            gcongr
        _ = 1 / 2 - 1 / 2 ^ 53 := by norm_num
    · have hcast : (k : ℚ) ≤ 2 ^ 53 := by exact_mod_cast hk.le
      have hsmall : (2 : ℚ) ^ (-1 - (j : ℤ)) ≤ 2 ^ (-55 : ℤ) :=
        zpow_le_zpow_right₀ (by norm_num) (by omega)
      calc (k * 2 ^ (-1 - (j : ℤ)) : ℚ) ≤ 2 ^ 53 * 2 ^ (-1 - (j : ℤ)) := by gcongr
        _ ≤ 2 ^ 53 * 2 ^ (-55 : ℤ) := by gcongr
        _ ≤ 1 / 2 - 1 / 2 ^ 53 := by norm_num
  have hfloor : ⌊(k * 2 ^ (-1 - (j : ℤ)) + 1 / 2 : ℚ)⌋ = 0 := by
    rw [Int.floor_eq_zero_iff]
    constructor
    · have hcast : (0 : ℚ) ≤ ((k + 2 ^ j : ℤ) : ℚ) := by exact_mod_cast (by omega : 0 ≤ k + 2 ^ j)
      rw [scaled_add_half]
      positivity
    · have hpositive : (0 : ℚ) < 1 / 2 ^ 53 := by norm_num
      linarith
  have hlast : ((2 ^ 53 - 1 : ℤ) : ℚ) * 2 ^ (-53 : ℤ) = 1 - 1 / 2 ^ 53 := by norm_num
  refine ⟨((2 ^ 53 - 1 : ℤ) : ℚ) * 2 ^ (-53 : ℤ), ?_, ?_, ?_⟩
  · exact representable_scaled (by norm_num) (by norm_num) (by norm_num)
  · rw [hlast]
    linarith
  · rw [hlast, hfloor]
    norm_num

/-- Below the doubles that are integers the floor of the sum is right, unless it is next to one. -/
theorem floor_add_half_fraction (hk : k.natAbs < 2 ^ 53) (hleast : -1074 ≤ e) (he : e < 0)
    (hslip : (k * 2 ^ e : ℚ) ≠ 1 / 2 - 1 / 2 ^ 54)
    (hfinite : (nearestTo (k * 2 ^ e + 1 / 2)).isFinite = true)
    (hfloor : Representable ⌊(k * 2 ^ e + 1 / 2 : ℚ)⌋) :
    ⌊exactValue (nearestTo (k * 2 ^ e + 1 / 2))⌋ = ⌊(k * 2 ^ e + 1 / 2 : ℚ)⌋ := by
  obtain ⟨j, rfl⟩ : ∃ j : ℕ, e = -1 - j := ⟨(-1 - e).toNat, by omega⟩
  have hpower : (1 : ℤ) ≤ 2 ^ j := one_le_pow₀ (by norm_num)
  apply floor_nearestTo_eq hfinite hfloor
  by_cases hexact : (k + 2 ^ j).natAbs ≤ 2 ^ 53
  · rw [scaled_add_half]
    exact ⟨_, representable_scaled hexact hleast (by omega), le_rfl, Int.lt_floor_add_one _⟩
  · have hcross : 2 ^ 53 < k + 2 ^ j := by omega
    rcases le_or_gt j 52 with hj | hj
    · exact exists_representable_of_crossing (by omega) hcross hj
    · exact exists_representable_below_one (by omega) hcross hj hslip

end Fractions

/-! ## Integers -/

/-- Between two integers that are counted in units lies no double. -/
theorem exactValue_middle {n : ℕ} (hlow : 2 ^ 52 ≤ n) (hhigh : n < 2 ^ 53)
    (hfinite : (nearestTo (n + 1 / 2)).isFinite = true) :
    exactValue (nearestTo (n + 1 / 2)) = (n + n % 2 : ℕ) := by
  have hcounts : CountsIn (n + 1 / 2 : ℚ) 0 := by
    have hupper : (n : ℚ) + 1 ≤ 2 ^ 53 := by exact_mod_cast hhigh
    have hlower : (2 : ℚ) ^ 52 ≤ n := by exact_mod_cast hlow
    refine ⟨by norm_num, ?_, .inr ?_⟩ <;> linarith
  rw [hcounts.exactValue_nearestTo_of_pos (by positivity) hfinite, zpow_zero, div_one, mul_one,
    roundEven_add_half]

/-- In units the sum lies in the middle between two doubles. -/
theorem floor_add_half_unit (hk : k.natAbs < 2 ^ 53) (hlarge : 2 ^ 52 ≤ k.natAbs)
    (hfinite : (nearestTo (k + 1 / 2)).isFinite = true) :
    ⌊exactValue (nearestTo (k + 1 / 2))⌋ = k + k % 2 := by
  rcases le_or_gt 0 k with hsign | hsign
  · obtain ⟨n, rfl⟩ := Int.eq_ofNat_of_zero_le hsign
    rw [Int.cast_natCast] at hfinite ⊢
    rw [exactValue_middle (by omega) (by omega) hfinite, Int.floor_natCast]
    rfl
  · obtain ⟨n, rfl⟩ : ∃ n : ℕ, k = -(n + 1) := ⟨(-k - 1).toNat, by omega⟩
    have hvalue : (((-(n + 1) : ℤ) : ℚ) + 1 / 2) = -(n + 1 / 2) := by
      push_cast
      ring
    rw [hvalue] at hfinite ⊢
    by_cases hpower : n + 1 = 2 ^ 52
    · -- Next to a power of two there are still halves towards zero.
      have hn : (n : ℚ) = 2 ^ 52 - 1 := by exact_mod_cast (by omega : (n : ℤ) = 2 ^ 52 - 1)
      have hscaled : (-(n + 1 / 2) : ℚ) = ((-(2 ^ 53 - 1) : ℤ) : ℚ) * 2 ^ (-1 : ℤ) := by
        rw [hn]
        norm_num
      have hrepresentable : Representable (-(n + 1 / 2)) := by
        rw [hscaled]
        exact representable_scaled (by norm_num) (by norm_num) (by norm_num)
      rw [hrepresentable.2, Int.floor_eq_iff]
      have heven : (-((n : ℤ) + 1)) % 2 = 0 := by omega
      rw [heven]
      push_cast
      constructor <;> linarith
    · rw [isFinite_nearestTo_neg] at hfinite
      rw [exactValue_nearestTo_neg, exactValue_middle (by omega) (by omega) hfinite,
        ← Int.cast_natCast, ← Int.cast_neg, Int.floor_intCast]
      omega

/-- What is at most a half is lost in larger units. -/
theorem roundEven_add_small {n : ℕ} {r : ℚ} (hunit : 2 ≤ (2 : ℚ) ^ e) (hr : |r| ≤ 1 / 2)
    (hnonneg : 0 ≤ n * 2 ^ e + r) : roundEven ((n * 2 ^ e + r) / 2 ^ e) = n := by
  have hpow : (0 : ℚ) < 2 ^ e := by positivity
  apply roundEven_eq (div_nonneg hnonneg hpow.le)
  rw [add_div, mul_div_cancel_right₀ _ hpow.ne', add_sub_cancel_left, abs_div, abs_of_pos hpow,
    div_lt_iff₀ hpow]
  linarith

/-- Below a power of two the half is lost as well, although the unit there is smaller. -/
theorem exactValue_sub_half_power (he : 1 ≤ e)
    (hfinite : (nearestTo (2 ^ 52 * 2 ^ e + -(1 / 2))).isFinite = true) :
    exactValue (nearestTo (2 ^ 52 * 2 ^ e + -(1 / 2))) = 2 ^ 52 * 2 ^ e := by
  obtain ⟨d, hd⟩ : ∃ d : ℚ, d = 2 ^ (e - 1) := ⟨_, rfl⟩
  have hdouble : (2 : ℚ) ^ e = 2 * d := by
    rw [hd, ← zpow_one_add₀ two_ne_zero, add_sub_cancel]
  have hone : (1 : ℚ) ≤ d := hd ▸ one_le_zpow₀ (by norm_num) (by omega)
  have hvalue : (2 ^ 52 * 2 ^ e + -(1 / 2) : ℚ) = (2 ^ 53 : ℕ) * d + -(1 / 2) := by
    rw [hdouble]
    push_cast
    ring
  rw [hvalue] at hfinite ⊢
  have hpos : (0 : ℚ) < (2 ^ 53 : ℕ) * d + -(1 / 2) := by
    push_cast
    linarith
  have hcounts : CountsIn ((2 ^ 53 : ℕ) * d + -(1 / 2)) (e - 1) := by
    refine ⟨by omega, ?_, .inr ?_⟩ <;> rw [← hd] <;> push_cast <;> linarith
  have hhalf : |(-(1 / 2) : ℚ)| ≤ 1 / 2 := by rw [abs_neg, abs_of_pos one_half_pos]
  have hround : roundEven (((2 ^ 53 : ℕ) * d + -(1 / 2)) / d) = 2 ^ 53 := by
    rcases he.lt_or_eq with hlt | rfl
    · rw [hd] at hpos ⊢
      exact roundEven_add_small (two_le_zpow (by omega)) hhalf hpos.le
    · have hmiddle : ((2 ^ 53 : ℕ) * d + -(1 / 2)) / d = ((2 ^ 53 - 1 : ℕ) : ℚ) + 1 / 2 := by
        rw [hd]
        norm_num
      rw [hmiddle, roundEven_add_half]
      norm_num
  rw [hcounts.exactValue_nearestTo_of_pos hpos hfinite, ← hd, hround, hdouble]
  push_cast
  ring

/-- In larger units the half is lost. -/
theorem exactValue_add_half_large (hk : k.natAbs < 2 ^ 53) (hlarge : 2 ^ 52 ≤ k.natAbs) (he : 1 ≤ e)
    (hfinite : (nearestTo (k * 2 ^ e + 1 / 2)).isFinite = true) :
    exactValue (nearestTo (k * 2 ^ e + 1 / 2)) = k * 2 ^ e := by
  have hunit := two_le_zpow he
  obtain ⟨n, hn⟩ : ∃ n : ℕ, n = k.natAbs := ⟨_, rfl⟩
  have hupper : ((n : ℚ) + 1) * 2 ^ e ≤ 2 ^ 53 * 2 ^ e := by
    gcongr
    exact_mod_cast (by omega : n + 1 ≤ 2 ^ 53)
  have hlower : 2 ^ 52 * 2 ^ e ≤ (n : ℚ) * 2 ^ e := by
    gcongr
    exact_mod_cast (by omega : 2 ^ 52 ≤ n)
  rcases le_or_gt 0 k with hsign | hsign
  · obtain rfl : k = n := by omega
    rw [Int.cast_natCast] at hfinite ⊢
    have hpos : (0 : ℚ) < n * 2 ^ e + 1 / 2 := by positivity
    have hcounts : CountsIn (n * 2 ^ e + 1 / 2 : ℚ) e := by
      refine ⟨by omega, ?_, .inr ?_⟩ <;> linarith
    rw [hcounts.exactValue_nearestTo_of_pos hpos hfinite,
      roundEven_add_small hunit (abs_of_pos one_half_pos).le hpos.le]
  · obtain rfl : k = -n := by omega
    have hvalue : (((-n : ℤ) : ℚ) * 2 ^ e + 1 / 2) = -(n * 2 ^ e + -(1 / 2)) := by
      push_cast
      ring
    rw [hvalue, isFinite_nearestTo_neg] at hfinite
    rw [hvalue, exactValue_nearestTo_neg, Int.cast_neg, Int.cast_natCast, neg_mul, neg_inj]
    by_cases hpower : n = 2 ^ 52
    · have hcast : (n : ℚ) = 2 ^ 52 := by exact_mod_cast hpower
      rw [hcast] at hfinite ⊢
      exact exactValue_sub_half_power he hfinite
    · have hpos : (0 : ℚ) < n * 2 ^ e + -(1 / 2) := by linarith
      have hlower' : (2 ^ 52 + 1) * 2 ^ e ≤ (n : ℚ) * 2 ^ e := by
        gcongr
        exact_mod_cast (by omega : 2 ^ 52 + 1 ≤ n)
      have hcounts : CountsIn (n * 2 ^ e + -(1 / 2)) e := by
        refine ⟨by omega, ?_, .inr ?_⟩ <;> linarith
      have hhalf : |(-(1 / 2) : ℚ)| ≤ 1 / 2 := by rw [abs_neg, abs_of_pos one_half_pos]
      rw [hcounts.exactValue_nearestTo_of_pos hpos hfinite,
        roundEven_add_small hunit hhalf hpos.le]

end AddHalf

/-! ## Rounding -/

section Rounding

variable {x : Float}

theorem floor_add_half_next_to_one : ⌊exactValue (nearestTo (1 / 2 - 1 / 2 ^ 54 + 1 / 2))⌋ = 1 := by
  have hvalue : (1 / 2 - 1 / 2 ^ 54 + 1 / 2 : ℚ) = (2 ^ 53 - 1 + 1 / 2) * 2 ^ (-53 : ℤ) := by
    norm_num
  have hfinite : (nearestTo (1 / 2 - 1 / 2 ^ 54 + 1 / 2)).isFinite = true := by
    apply isFinite_nearestTo_of_le isFinite_half
    rw [exactValue_half, abs_of_pos] <;> norm_num
  have hcounts : CountsIn (1 / 2 - 1 / 2 ^ 54 + 1 / 2) (-53) :=
    ⟨by norm_num, by norm_num, .inr (by norm_num)⟩
  have hround : roundEven ((1 / 2 - 1 / 2 ^ 54 + 1 / 2) / 2 ^ (-53 : ℤ)) = 2 ^ 53 := by
    have hmiddle : ((1 / 2 - 1 / 2 ^ 54 + 1 / 2) / 2 ^ (-53 : ℤ) : ℚ) =
      (2 ^ 53 - 1 : ℕ) + 1 / 2 := by
      norm_num
    rw [hmiddle, roundEven_add_half]
    norm_num
  rw [hcounts.exactValue_nearestTo_of_pos (by norm_num) hfinite, hround]
  norm_num

theorem floor_add_half_int (n : ℤ) : ⌊(n + 1 / 2 : ℚ)⌋ = n := by
  rw [Int.floor_eq_iff]
  constructor <;> linarith

/-- Adding a half in doubles changes the floor only where the half slips. -/
theorem floor_add_half (hx : x.isFinite = true) :
    (¬Slips (exactValue x) → ⌊exactValue (x + 0.5)⌋ = ⌊exactValue x + 1 / 2⌋) ∧
      (Slips (exactValue x) → ⌊exactValue (x + 0.5)⌋ = ⌊exactValue x + 1 / 2⌋ + 1) := by
  obtain ⟨k, e, hvalue, hk, hleast, hlarge⟩ := exists_mantissa x
  have hfinite := isFinite_add_half hx
  rw [add_half_eq hx] at hfinite ⊢
  rw [hvalue] at hfinite ⊢
  rcases lt_trichotomy e 0 with he | rfl | he
  · rw [slips_fraction_iff hk he]
    constructor
    · intro hslip
      apply floor_add_half_fraction hk hleast he hslip hfinite
      apply representable_floor_of_abs
      have hless := abs_scaled_lt hk he
      calc |(k * 2 ^ e + 1 / 2 : ℚ)| ≤ |(k * 2 ^ e : ℚ)| + |1 / 2| := abs_add_le _ _
        _ ≤ 2 ^ 53 := by
          rw [abs_of_pos (by norm_num : (0 : ℚ) < 1 / 2)]
          linarith
    · intro hslip
      rw [hslip, floor_add_half_next_to_one]
      norm_num
  · -- Among the integers that are counted in units the odd ones slip.
    have hlarge := hlarge.resolve_left (by norm_num)
    rw [zpow_zero, mul_one] at hfinite ⊢
    have hslips : Slips k ↔ k % 2 = 1 := by
      rw [slips_int_iff]
      omega
    rw [hslips, floor_add_half_unit hk hlarge hfinite, floor_add_half_int]
    omega
  · -- Beyond them the sum is rounded back.
    have hlarge := hlarge.resolve_left (by omega)
    refine ⟨fun _ => ?_, fun hslip => absurd hslip (not_slips_multiple hlarge he)⟩
    obtain ⟨n, hn⟩ := @exists_int_of_nonneg k e he.le
    rw [exactValue_add_half_large hk hlarge he hfinite, hn, Int.floor_intCast, floor_add_half_int]

theorem roundHalfUp_value (hx : x.isFinite = true) :
    (roundHalfUp x).isFinite = true ∧ exactValue (roundHalfUp x) = ⌊exactValue (x + 0.5)⌋ := by
  rw [roundHalfUp, if_pos hx, ofInt_eq, floorInt_eq]
  exact representable_floor (isFinite_add_half hx)

/-- Every finite double is rounded to the nearest integer, and halves upwards, unless the half
slips; then it is rounded to the integer above. -/
theorem exactValue_roundHalfUp (hx : x.isFinite = true) :
    (roundHalfUp x).isFinite = true ∧
      (exactValue (roundHalfUp x) = ⌊exactValue x + 1 / 2⌋ ↔ ¬Slips (exactValue x)) ∧
      (Slips (exactValue x) → exactValue (roundHalfUp x) = ⌊exactValue x + 1 / 2⌋ + 1) := by
  obtain ⟨hright, hslip⟩ := floor_add_half hx
  obtain ⟨hfinite, hvalue⟩ := roundHalfUp_value hx
  rw [hvalue]
  refine ⟨hfinite, ⟨fun hsame hslips => ?_, fun hkept => by rw [hright hkept]⟩, fun hslips => ?_⟩
  · rw [hslip hslips] at hsame
    push_cast at hsame
    linarith
  · rw [hslip hslips]
    push_cast
    rfl

/-- Five halves, of which the integer above is as near as the one below. -/
theorem exactValue_roundHalfUp_five_halves :
    (2.5 : Float).isFinite = true ∧ exactValue (roundHalfUp 2.5) = 3 := by
  have hfinite : (2.5 : Float).isFinite = true := rfl
  have hunpack : (2.5 : Float).toModel.unpack =
      .finite .positive (5 * 2 ^ 50) (-51) (by decide) := rfl
  have hvalue : exactValue 2.5 = 5 / 2 := by
    rw [exactValue_of_unpack hfinite hunpack]
    show (((5 * 2 ^ 50 : ℕ) : ℤ) : ℚ) * 2 ^ (-51 : ℤ) = 5 / 2
    norm_num
  have hslips : ¬Slips (5 / 2) := by
    rintro (hhalf | ⟨n, hn, -⟩)
    · norm_num at hhalf
    · have hdouble : (5 : ℤ) = 2 * n := by
        have hcast : (5 : ℚ) = 2 * n := by linarith
        exact_mod_cast hcast
      omega
  obtain ⟨-, hiff, -⟩ := exactValue_roundHalfUp hfinite
  rw [hvalue] at hiff
  refine ⟨hfinite, (hiff.mpr hslips).trans ?_⟩
  have hfloor : ⌊(5 / 2 + 1 / 2 : ℚ)⌋ = 3 := by
    rw [Int.floor_eq_iff]
    norm_num
  rw [hfloor]
  rfl

/-- The number right below a half is rounded to one, although it is nearer to zero. -/
theorem roundHalfUp_below_half : (0.49999999999999994 : Float).isFinite = true ∧
    exactValue (roundHalfUp 0.49999999999999994) = 1 ∧
    ⌊exactValue 0.49999999999999994 + 1 / 2⌋ = 0 := by
  have hfinite : (0.49999999999999994 : Float).isFinite = true := rfl
  have hunpack : (0.49999999999999994 : Float).toModel.unpack =
      .finite .positive (2 ^ 53 - 1) (-54) (by decide) := rfl
  have hone : (roundHalfUp 0.49999999999999994).toModel.unpack =
      .finite .positive (2 ^ 52) (-52) (by decide) := rfl
  have hvalue : exactValue 0.49999999999999994 = 1 / 2 - 1 / 2 ^ 54 := by
    rw [exactValue_of_unpack hfinite hunpack]
    show (((2 ^ 53 - 1 : ℕ) : ℤ) : ℚ) * 2 ^ (-54 : ℤ) = 1 / 2 - 1 / 2 ^ 54
    norm_num
  refine ⟨hfinite, ?_, ?_⟩
  · rw [exactValue_of_unpack rfl hone]
    show (((2 ^ 52 : ℕ) : ℤ) : ℚ) * 2 ^ (-52 : ℤ) = 1
    norm_num
  · rw [hvalue, Int.floor_eq_iff]
    norm_num

end Rounding

end DeskCalc.Number
