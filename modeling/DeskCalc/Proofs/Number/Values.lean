import DeskCalc.Proofs.Number.Nearest
import Mathlib.Algebra.Order.Field.Power
import Mathlib.Data.Rat.Lemmas

/-!
# The values of doubles

A finite double has an exact value, and every rational number has a nearest double.  Going to the
nearest double keeps the order and leaves the values of finite doubles as they are, so no double
lies between a number and the double nearest to it.

The main definitions are `exactValue`, `nearestTo`, `IsNearest` and `IsRounded`.
-/

namespace DeskCalc.Number

/-! ## Rounding rational numbers -/

/-- A rational number that is not negative, rounded to the nearest natural number; a half goes to
the even neighbour. -/
def roundEven (v : ℚ) : ℕ :=
  halfEven v.num.natAbs v.den

theorem abs_eq_num_div_den (q : ℚ) : |q| = (q.num.natAbs : ℚ) / q.den := by
  conv_lhs => rw [← Rat.num_div_den q, abs_div, Nat.abs_cast]
  rw [← Int.cast_abs, Int.abs_eq_natAbs, Int.cast_natCast]

section RoundEven

variable {num den n : ℕ} {v w : ℚ}

theorem halfEven_eq_roundEven (hden : 0 < den) : halfEven num den = roundEven (num / den) := by
  have hvalue := abs_eq_num_div_den ((num : ℚ) / den)
  rw [abs_of_nonneg (by positivity), div_eq_div_iff (by positivity)
    (by exact_mod_cast ((num : ℚ) / den).den_pos.ne')] at hvalue
  exact halfEven_congr hden (Rat.den_pos _) (by exact_mod_cast hvalue)

/-- Rounding changes a number by a half at most. -/
theorem abs_halfEven_sub_le (hden : 0 < den) : |(halfEven num den : ℚ) - num / den| ≤ 1 / 2 := by
  have hpos : (0 : ℚ) < den := by exact_mod_cast hden
  have hvalue : (num : ℚ) / den = (num / den : ℕ) + ((num % den : ℕ) : ℚ) / den := by
    have hsplit : (num : ℚ) = (num / den : ℕ) * den + (num % den : ℕ) := by
      exact_mod_cast (Nat.div_add_mod' num den).symm
    rw [← mul_div_cancel_right₀ ((num / den : ℕ) : ℚ) hpos.ne', ← add_div, ← hsplit]
  have hlow : (0 : ℚ) ≤ ((num % den : ℕ) : ℚ) / den := by positivity
  have hhigh : ((num % den : ℕ) : ℚ) / den ≤ 1 := by
    rw [div_le_one hpos]
    exact_mod_cast (Nat.mod_lt num hden).le
  rw [hvalue, abs_le, halfEven]
  generalize num / den = q
  generalize num % den = rest at hlow hhigh ⊢
  split
  next hdown =>
    have hless : (rest : ℚ) / den ≤ 1 / 2 := by
      rw [div_le_div_iff₀ hpos two_pos]
      exact_mod_cast (by omega : rest * 2 ≤ 1 * den)
    constructor <;> linarith
  next hup =>
    have hmore : 1 / 2 ≤ (rest : ℚ) / den := by
      rw [div_le_div_iff₀ two_pos hpos]
      exact_mod_cast (by omega : 1 * den ≤ rest * 2)
    split
    next =>
      push_cast
      constructor <;> linarith
    next htie =>
      have hless : (rest : ℚ) / den ≤ 1 / 2 := by
        rw [div_le_div_iff₀ hpos two_pos]
        exact_mod_cast (by omega : rest * 2 ≤ 1 * den)
      have hbit : ((q % 2 : ℕ) : ℚ) ≤ 1 := by exact_mod_cast (by omega : q % 2 ≤ 1)
      have hbit' : (0 : ℚ) ≤ ((q % 2 : ℕ) : ℚ) := by positivity
      push_cast at hbit hbit' ⊢
      constructor <;> linarith

theorem abs_roundEven_sub_le (hv : 0 ≤ v) : |(roundEven v : ℚ) - v| ≤ 1 / 2 := by
  have hbound := @abs_halfEven_sub_le v.num.natAbs v.den v.den_pos
  rwa [← abs_eq_num_div_den, abs_of_nonneg hv] at hbound

/-- What is nearer than a half is what is rounded to. -/
theorem roundEven_eq (hv : 0 ≤ v) (h : |v - n| < 1 / 2) : roundEven v = n := by
  have hbound := abs_le.mp (abs_roundEven_sub_le hv)
  have hnear := abs_lt.mp h
  have hless : (roundEven v : ℚ) < (n + 1 : ℕ) := by push_cast; linarith
  have hmore : (n : ℚ) < (roundEven v + 1 : ℕ) := by push_cast; linarith
  have hless' : roundEven v < n + 1 := by exact_mod_cast hless
  have hmore' : n < roundEven v + 1 := by exact_mod_cast hmore
  omega

theorem roundEven_natCast (n : ℕ) : roundEven n = n :=
  roundEven_eq (Nat.cast_nonneg n) (by simp)

theorem roundEven_add_half (n : ℕ) : roundEven (n + 1 / 2) = n + n % 2 := by
  have hvalue : (n : ℚ) + 1 / 2 = ((2 * n + 1 : ℕ) : ℚ) / (2 : ℕ) := by
    push_cast
    ring
  have hdiv : (2 * n + 1) / 2 = n := by omega
  have hmod : (2 * n + 1) % 2 = 1 := by omega
  rw [hvalue, ← halfEven_eq_roundEven two_pos, halfEven, hdiv, hmod]
  rfl

/-- No integer is nearer than the one that is rounded to. -/
theorem abs_roundEven_sub_le_int (hv : 0 ≤ v) (k : ℤ) :
    |(roundEven v : ℚ) - v| ≤ |(k : ℚ) - v| := by
  by_cases hsame : k = roundEven v
  · rw [hsame, Int.cast_natCast]
  · have hbound := abs_roundEven_sub_le hv
    have hapart : (1 : ℚ) ≤ |(k : ℚ) - roundEven v| := by
      exact_mod_cast Int.one_le_abs (sub_ne_zero.mpr hsame)
    have htriangle := abs_sub_le (k : ℚ) v (roundEven v)
    rw [abs_sub_comm v] at htriangle
    linarith

theorem roundEven_mono (hv : 0 ≤ v) (h : v ≤ w) : roundEven v ≤ roundEven w := by
  have hleft := abs_le.mp (abs_roundEven_sub_le hv)
  have hright := abs_le.mp (abs_roundEven_sub_le (hv.trans h))
  by_contra hlt
  -- Both numbers lie in the middle between the two that they are rounded to.
  have hstep : (roundEven w : ℚ) + 1 ≤ roundEven v := by exact_mod_cast Nat.lt_of_not_le hlt
  have hsame : v = w := by linarith
  rw [hsame] at hlt
  exact hlt le_rfl

end RoundEven

/-! ## The order of nearest doubles -/

section Order

variable {num den num' den' : ℕ}

/-- A larger number has no smaller nearest double. -/
theorem nearestBits_mono (hden : 0 < den) (hden' : 0 < den')
    (h : (num : ℚ) / den ≤ num' / den') : nearestBits num den ≤ nearestBits num' den' := by
  by_cases hzero : num = 0
  · simp [nearestBits, hzero]
  · have hnum := Nat.pos_of_ne_zero hzero
    have hnum' : 0 < num' := by
      rw [Nat.pos_iff_ne_zero]
      rintro rfl
      have hpos : (0 : ℚ) < num / den := by positivity
      rw [Nat.cast_zero, zero_div] at h
      linarith
    have hq := countsIn_mantissaExponent hnum hden
    have hr := countsIn_mantissaExponent hnum' hden'
    have hmono := hq.mono hr h
    rw [nearestBits_eq hnum hden hq, nearestBits_eq hnum' hden' hr]
    generalize mantissaExponent num den = q at hq hmono
    generalize mantissaExponent num' den' = r at hr hmono
    apply min_le_min_right
    rcases hmono.lt_or_eq with hlt | rfl
    · have hupper := hq.mantissa_le hden
      have hlower := hr.le_mantissa hden' (by have := hq.least; omega)
      have hfield : (q + 1074).toNat + 1 ≤ (r + 1074).toNat := by
        have := hq.least
        omega
      omega
    · apply Nat.add_le_add_left
      rw [halfEven_eq_roundEven (by positivity), halfEven_eq_roundEven (by positivity), scale_eq,
        scale_eq]
      exact roundEven_mono (by positivity) (by gcongr)

end Order

/-! ## Exact values -/

/-- The exact value of a finite double. -/
def exactValue (x : Float) : ℚ :=
  signedNum x / (magnitude x).den

section Values

variable {x y : Float}

theorem abs_exactValue (x : Float) :
    |exactValue x| = ((magnitude x).num : ℚ) / (magnitude x).den := by
  rw [exactValue, signedNum, abs_div, Nat.abs_cast]
  split
  · rw [Int.cast_neg, abs_neg, Int.cast_natCast, Nat.abs_cast]
  · rw [Int.cast_natCast, Nat.abs_cast]

theorem abs_exactValue_eq (x : Float) :
    |exactValue x| = (magnitude x).mantissa * 2 ^ (magnitude x).exponent := by
  rw [abs_exactValue, Binary.num_div_den]

theorem exactValue_eq (x : Float) :
    exactValue x = if signBit x then -|exactValue x| else |exactValue x| := by
  rw [abs_exactValue, exactValue, signedNum]
  split
  · push_cast
    ring
  · push_cast
    ring

theorem exactValue_eq_zero_iff : exactValue x = 0 ↔ unsignedBits x = 0 := by
  have hcanonical := canonical_magnitude x
  rw [← abs_eq_zero, abs_exactValue_eq, mul_eq_zero, or_iff_left (zpow_ne_zero _ two_ne_zero),
    Nat.cast_eq_zero, ← bits_magnitude]
  have hlarge := hcanonical.large
  omega

theorem exactValue_neg_iff : exactValue x < 0 ↔ signBit x = true ∧ unsignedBits x ≠ 0 := by
  have hvalue := exactValue_eq x
  have hnonneg := abs_nonneg (exactValue x)
  rw [ne_eq, ← exactValue_eq_zero_iff]
  constructor
  · intro hneg
    refine ⟨?_, hneg.ne⟩
    by_contra hsign
    rw [if_neg hsign] at hvalue
    linarith
  · rintro ⟨hsign, hne⟩
    rw [if_pos hsign] at hvalue
    exact lt_of_le_of_ne (by linarith) hne

theorem exactValue_nonneg_of_signBit (h : signBit x = false) : 0 ≤ exactValue x := by
  rw [← not_lt, exactValue_neg_iff, h]
  exact fun hboth => Bool.false_ne_true hboth.1

theorem exactValue_nonpos_of_signBit (h : signBit x = true) : exactValue x ≤ 0 := by
  rw [exactValue_eq, if_pos h]
  exact neg_nonpos.mpr (abs_nonneg _)

theorem abs_exactValue_congr (h : unsignedBits x = unsignedBits y) :
    |exactValue x| = |exactValue y| := by
  rw [abs_exactValue, abs_exactValue, magnitude_congr h]

/-- The negative of a finite double has the negative value. -/
theorem exactValue_neg (hx : x.isFinite = true) : exactValue (-x) = -exactValue x := by
  obtain ⟨hsign, hbits⟩ := neg_parts hx
  rw [exactValue_eq, abs_exactValue_congr hbits, hsign, exactValue_eq x]
  cases signBit x <;> simp

/-- The bits of finite doubles are in the order of their magnitudes. -/
theorem abs_exactValue_le_iff (hx : x.isFinite = true) (hy : y.isFinite = true) :
    |exactValue x| ≤ |exactValue y| ↔ unsignedBits x ≤ unsignedBits y := by
  have hmono {x y : Float} (hx : x.isFinite = true) (hy : y.isFinite = true)
      (h : |exactValue x| ≤ |exactValue y|) : unsignedBits x ≤ unsignedBits y := by
    rw [abs_exactValue, abs_exactValue] at h
    rw [← nearestBits_magnitude hx, ← nearestBits_magnitude hy]
    exact nearestBits_mono (magnitude_den_pos x) (magnitude_den_pos y) h
  constructor
  · exact hmono hx hy
  · intro h
    by_contra hlt
    have hback := hmono hy hx (le_of_not_ge hlt)
    exact hlt (abs_exactValue_congr (le_antisymm h hback)).le

end Values

/-! ## Nearest doubles -/

/-- The double nearest to a rational number. -/
def nearestTo (q : ℚ) : Float :=
  nearest (q < 0) q.num.natAbs q.den

section NearestTo

variable {x z : Float} {p q : ℚ}

theorem signBit_nearestTo (q : ℚ) : signBit (nearestTo q) = decide (q < 0) :=
  nearest_parts.1

theorem unsignedBits_nearestTo {num den : ℕ} (hden : 0 < den) (h : |q| = (num : ℚ) / den) :
    unsignedBits (nearestTo q) = nearestBits num den := by
  have hpos : (q.den : ℚ) ≠ 0 := by exact_mod_cast q.den_pos.ne'
  rw [abs_eq_num_div_den, div_eq_div_iff hpos (by positivity)] at h
  exact nearest_parts.2.trans (nearestBits_congr q.den_pos hden (by exact_mod_cast h))

theorem nearest_eq_nearestTo {negative : Bool} {num den : ℕ} (hden : 0 < den)
    (hsign : negative = decide (q < 0)) (h : |q| = (num : ℚ) / den) :
    nearest negative num den = nearestTo q := by
  apply eq_of_parts
  · rw [signBit_nearestTo, ← hsign]
    exact nearest_parts.1
  · rw [unsignedBits_nearestTo hden h]
    exact nearest_parts.2

theorem isFinite_nearestTo (h : |q| < ((2 ^ 54 - 1) * twoTo 970 : ℕ)) :
    (nearestTo q).isFinite = true := by
  apply isFinite_nearest.mpr
  apply nearestBits_lt q.den_pos
  have hpos : (0 : ℚ) < q.den := by exact_mod_cast q.den_pos
  rw [abs_eq_num_div_den, div_lt_iff₀ hpos] at h
  exact_mod_cast h

theorem abs_exactValue_le_largest (hx : x.isFinite = true) : |exactValue x| ≤ (largest : ℚ) := by
  have hden : (1 : ℚ) ≤ (magnitude x).den := by exact_mod_cast magnitude_den_pos x
  calc |exactValue x| = ((magnitude x).num : ℚ) / (magnitude x).den := abs_exactValue x
    _ ≤ (magnitude x).num := div_le_self (Nat.cast_nonneg _) hden
    _ ≤ largest := by exact_mod_cast num_le hx

/-- The range of doubles ends more than a unit beyond the largest one. -/
theorem isFinite_nearestTo_of_le (hx : x.isFinite = true) (h : |q| ≤ |exactValue x| + 1) :
    (nearestTo q).isFinite = true := by
  apply isFinite_nearestTo
  have hlargest : (largest : ℚ) + 1 < ((2 ^ 54 - 1) * twoTo 970 : ℕ) := by
    exact_mod_cast largest_add_one_lt
  linarith [abs_exactValue_le_largest hx]

/-- A finite double is nearest to its own value, except for negative zero. -/
theorem nearestTo_exactValue (hx : x.isFinite = true) (hne : exactValue x ≠ 0) :
    nearestTo (exactValue x) = x := by
  apply eq_of_parts
  · rw [signBit_nearestTo, Bool.eq_iff_iff, decide_eq_true_iff, exactValue_neg_iff,
      and_iff_left (mt exactValue_eq_zero_iff.mpr hne)]
  · rw [unsignedBits_nearestTo (magnitude_den_pos x) (abs_exactValue x)]
    exact nearestBits_magnitude hx

theorem unsignedBits_nearestTo_zero : unsignedBits (nearestTo 0) = 0 := by
  have hvalue : |(0 : ℚ)| = ((0 : ℕ) : ℚ) / (1 : ℕ) := by simp
  exact unsignedBits_nearestTo Nat.one_pos hvalue

theorem exactValue_nearestTo_zero : exactValue (nearestTo 0) = 0 :=
  exactValue_eq_zero_iff.mpr unsignedBits_nearestTo_zero

theorem isFinite_nearestTo_exactValue (hx : x.isFinite = true) :
    (nearestTo (exactValue x)).isFinite = true := by
  rw [isFinite_iff, unsignedBits_nearestTo (magnitude_den_pos x) (abs_exactValue x),
    nearestBits_magnitude hx, ← isFinite_iff]
  exact hx

/-- The values of finite doubles are left as they are. -/
theorem exactValue_nearestTo (hx : x.isFinite = true) :
    exactValue (nearestTo (exactValue x)) = exactValue x := by
  by_cases hzero : exactValue x = 0
  · rw [hzero, exactValue_nearestTo_zero]
  · rw [nearestTo_exactValue hx hzero]

theorem exactValue_nearestTo_nonneg (h : 0 ≤ q) : 0 ≤ exactValue (nearestTo q) :=
  exactValue_nonneg_of_signBit ((signBit_nearestTo q).trans (decide_eq_false (not_lt.mpr h)))

theorem exactValue_nearestTo_nonpos (h : q ≤ 0) : exactValue (nearestTo q) ≤ 0 := by
  rcases h.lt_or_eq with hneg | rfl
  · exact exactValue_nonpos_of_signBit ((signBit_nearestTo q).trans (decide_eq_true hneg))
  · exact exactValue_nearestTo_zero.le

theorem unsignedBits_nearestTo_neg (q : ℚ) :
    unsignedBits (nearestTo (-q)) = unsignedBits (nearestTo q) := by
  rw [unsignedBits_nearestTo q.den_pos ((abs_neg q).trans (abs_eq_num_div_den q)),
    unsignedBits_nearestTo q.den_pos (abs_eq_num_div_den q)]

theorem isFinite_nearestTo_neg (q : ℚ) :
    (nearestTo (-q)).isFinite = true ↔ (nearestTo q).isFinite = true := by
  rw [isFinite_iff, isFinite_iff, unsignedBits_nearestTo_neg]

/-- The nearest doubles of negatives are negatives. -/
theorem exactValue_nearestTo_neg (q : ℚ) :
    exactValue (nearestTo (-q)) = -exactValue (nearestTo q) := by
  have habs := abs_exactValue_congr (unsignedBits_nearestTo_neg q)
  rcases le_total 0 q with hq | hq
  · rw [abs_of_nonpos (exactValue_nearestTo_nonpos (neg_nonpos.mpr hq)),
      abs_of_nonneg (exactValue_nearestTo_nonneg hq)] at habs
    exact neg_eq_iff_eq_neg.mp habs
  · rwa [abs_of_nonneg (exactValue_nearestTo_nonneg (neg_nonneg.mpr hq)),
      abs_of_nonpos (exactValue_nearestTo_nonpos hq)] at habs

/-- Going to the nearest double keeps the order of magnitudes. -/
theorem abs_exactValue_nearestTo_mono (hp : (nearestTo p).isFinite = true)
    (hq : (nearestTo q).isFinite = true) (h : |p| ≤ |q|) :
    |exactValue (nearestTo p)| ≤ |exactValue (nearestTo q)| := by
  rw [abs_exactValue_le_iff hp hq, unsignedBits_nearestTo p.den_pos (abs_eq_num_div_den p),
    unsignedBits_nearestTo q.den_pos (abs_eq_num_div_den q)]
  rw [abs_eq_num_div_den, abs_eq_num_div_den] at h
  exact nearestBits_mono p.den_pos q.den_pos h

/-- Going to the nearest double keeps the order. -/
theorem exactValue_nearestTo_mono (hp : (nearestTo p).isFinite = true)
    (hq : (nearestTo q).isFinite = true) (h : p ≤ q) :
    exactValue (nearestTo p) ≤ exactValue (nearestTo q) := by
  rcases le_total 0 p with hnonneg | hnonpos
  · have habs : |p| ≤ |q| := by rwa [abs_of_nonneg hnonneg, abs_of_nonneg (hnonneg.trans h)]
    have hmono := abs_exactValue_nearestTo_mono hp hq habs
    rwa [abs_of_nonneg (exactValue_nearestTo_nonneg hnonneg),
      abs_of_nonneg (exactValue_nearestTo_nonneg (hnonneg.trans h))] at hmono
  · rcases le_total 0 q with hnonneg | hnonpos'
    · exact (exactValue_nearestTo_nonpos hnonpos).trans (exactValue_nearestTo_nonneg hnonneg)
    · have habs : |q| ≤ |p| := by
        rw [abs_of_nonpos hnonpos, abs_of_nonpos hnonpos']
        exact neg_le_neg h
      have hmono := abs_exactValue_nearestTo_mono hq hp habs
      rw [abs_of_nonpos (exactValue_nearestTo_nonpos hnonpos),
        abs_of_nonpos (exactValue_nearestTo_nonpos hnonpos')] at hmono
      exact neg_le_neg_iff.mp hmono

/-- Doubles that agree apart from the sign of zero. -/
def Agree (x y : Float) : Prop :=
  unsignedBits x = unsignedBits y ∧ exactValue x = exactValue y

theorem Agree.isFinite {y : Float} (h : Agree x y) : x.isFinite = true ↔ y.isFinite = true := by
  rw [isFinite_iff, isFinite_iff, h.1]

/-- A number that is the value of a finite double. -/
def Representable (q : ℚ) : Prop :=
  (nearestTo q).isFinite = true ∧ exactValue (nearestTo q) = q

@[simp]
theorem representable_neg : Representable (-q) ↔ Representable q := by
  rw [Representable, Representable, isFinite_nearestTo_neg, exactValue_nearestTo_neg, neg_inj]

theorem representable_exactValue (hx : x.isFinite = true) : Representable (exactValue x) :=
  ⟨isFinite_nearestTo_exactValue hx, exactValue_nearestTo hx⟩

/-- No value of a finite double lies between a number and the double nearest to it. -/
theorem Representable.le_nearest (hp : Representable p) (hq : (nearestTo q).isFinite = true)
    (h : p ≤ q) : p ≤ exactValue (nearestTo q) := by
  rw [← hp.2]
  exact exactValue_nearestTo_mono hp.1 hq h

theorem Representable.nearest_le (hp : Representable p) (hq : (nearestTo q).isFinite = true)
    (h : q ≤ p) : exactValue (nearestTo q) ≤ p := by
  rw [← hp.2]
  exact exactValue_nearestTo_mono hq hp.1 h

/-! ## The nearest double by its mantissa -/

theorem exists_countsIn (hq : q ≠ 0) : ∃ e, CountsIn |q| e := by
  rw [abs_eq_num_div_den]
  exact ⟨_, countsIn_mantissaExponent (Int.natAbs_pos.mpr (Rat.num_ne_zero.mpr hq)) q.den_pos⟩

section CountsIn

variable {e : ℤ}

theorem halfEven_scaled (e : ℤ) (q : ℚ) :
    halfEven (q.num.natAbs * 2 ^ (-e).toNat) (q.den * 2 ^ e.toNat) = roundEven (|q| / 2 ^ e) := by
  rw [halfEven_eq_roundEven (Nat.mul_pos q.den_pos (Nat.two_pow_pos _)), scale_eq,
    ← abs_eq_num_div_den]

/-- The mantissa that a number is rounded to has fifty-three bits, or fewer at the least exponent,
or is the next power of two. -/
theorem CountsIn.roundEven_bounds (he : CountsIn |q| e) :
    roundEven (|q| / 2 ^ e) ≤ 2 ^ 53 ∧ (e = -1074 ∨ 2 ^ 52 ≤ roundEven (|q| / 2 ^ e)) := by
  rw [abs_eq_num_div_den] at he
  rw [← halfEven_scaled, or_iff_not_imp_left]
  exact ⟨he.mantissa_le q.den_pos, he.le_mantissa q.den_pos⟩

theorem CountsIn.unsignedBits_eq (hq : q ≠ 0) (he : CountsIn |q| e) :
    unsignedBits (nearestTo q) =
      min ((e + 1074).toNat * 2 ^ 52 + roundEven (|q| / 2 ^ e)) infinityBits := by
  have hnum : 0 < q.num.natAbs := Int.natAbs_pos.mpr (Rat.num_ne_zero.mpr hq)
  rw [abs_eq_num_div_den] at he
  rw [unsignedBits_nearestTo q.den_pos (abs_eq_num_div_den q), nearestBits_eq hnum q.den_pos he,
    halfEven_scaled]

/-- The nearest double has the mantissa that the number is rounded to. -/
theorem CountsIn.abs_exactValue_nearestTo (hq : q ≠ 0) (he : CountsIn |q| e)
    (hfinite : (nearestTo q).isFinite = true) :
    |exactValue (nearestTo q)| = roundEven (|q| / 2 ^ e) * 2 ^ e := by
  have hbits := he.unsignedBits_eq hq
  obtain ⟨hsmall, hlarge⟩ := he.roundEven_bounds
  have hleast := he.least
  rw [isFinite_iff, hbits, min_lt_iff, or_iff_left (lt_irrefl _)] at hfinite
  rw [min_eq_left hfinite.le] at hbits
  generalize roundEven (|q| / 2 ^ e) = n at *
  rw [abs_exactValue_eq]
  rcases hsmall.lt_or_eq with hlt | rfl
  · have hcanonical : Binary.Canonical ⟨n, e⟩ := ⟨hlt, hleast, hlarge⟩
    rw [hcanonical.magnitude_eq hbits.symm]
  · -- A mantissa that was rounded up to the next power of two belongs to the next exponent.
    have hcanonical : Binary.Canonical ⟨2 ^ 52, e + 1⟩ :=
      ⟨by norm_num, by simp only; omega, .inr le_rfl⟩
    rw [hcanonical.magnitude_eq (by rw [hbits]; simp only; omega), zpow_add_one₀ two_ne_zero]
    push_cast
    ring

end CountsIn

theorem CountsIn.exactValue_nearestTo_of_pos {e : ℤ} (hq : 0 < q) (he : CountsIn q e)
    (hfinite : (nearestTo q).isFinite = true) :
    exactValue (nearestTo q) = roundEven (q / 2 ^ e) * 2 ^ e := by
  rw [← abs_of_pos hq] at he
  have hvalue := he.abs_exactValue_nearestTo hq.ne' hfinite
  rwa [abs_of_nonneg (exactValue_nearestTo_nonneg hq.le), abs_of_pos hq] at hvalue

theorem exactValue_nearestTo_of_abs (h : |exactValue (nearestTo q)| = |q|) :
    exactValue (nearestTo q) = q := by
  rcases le_total 0 q with hnonneg | hnonpos
  · rwa [abs_of_nonneg hnonneg, abs_of_nonneg (exactValue_nearestTo_nonneg hnonneg)] at h
  · rw [abs_of_nonpos hnonpos, abs_of_nonpos (exactValue_nearestTo_nonpos hnonpos)] at h
    exact neg_injective h

theorem abs_scaled (k e : ℤ) : |(k * 2 ^ e : ℚ)| = k.natAbs * 2 ^ e := by
  rw [abs_mul, abs_of_pos (by positivity : (0 : ℚ) < 2 ^ e), ← Int.cast_abs, Int.abs_eq_natAbs,
    Int.cast_natCast]

/-- A mantissa of fifty-three bits is enough for the value of a double. -/
theorem representable_scaled {a e : ℤ} (ha : a.natAbs ≤ 2 ^ 53) (he : -1074 ≤ e) (he' : e ≤ 970) :
    Representable (a * 2 ^ e) := by
  have habs := abs_scaled a e
  have hle : |(a * 2 ^ e : ℚ)| ≤ 2 ^ 53 * 2 ^ e := by
    rw [habs]
    gcongr
    exact_mod_cast ha
  have hfinite : (nearestTo (a * 2 ^ e)).isFinite = true := by
    apply isFinite_nearestTo
    calc |(a * 2 ^ e : ℚ)| ≤ 2 ^ 53 * 2 ^ e := hle
      _ ≤ 2 ^ 53 * 2 ^ (970 : ℤ) := by gcongr; norm_num
      _ < ((2 ^ 54 - 1) * twoTo 970 : ℕ) := by
        rw [twoTo_eq, zpow_ofNat, Nat.cast_mul, Nat.cast_pow, Nat.cast_ofNat]
        gcongr
        norm_num
  refine ⟨hfinite, ?_⟩
  by_cases hzero : (a * 2 ^ e : ℚ) = 0
  · rw [hzero, exactValue_nearestTo_zero]
  · obtain ⟨f, hf⟩ := exists_countsIn hzero
    apply exactValue_nearestTo_of_abs
    rw [hf.abs_exactValue_nearestTo hzero hfinite]
    -- The number is a multiple of the power of two that its mantissa is counted in.
    obtain ⟨n, hn⟩ : ∃ n : ℕ, |(a * 2 ^ e : ℚ)| = n * 2 ^ f := by
      rcases le_or_gt f e with hfe | hfe
      · refine ⟨a.natAbs * 2 ^ (e - f).toNat, ?_⟩
        rw [habs]
        push_cast
        rw [mul_assoc, ← zpow_natCast, ← zpow_add₀ two_ne_zero]
        congr 2
        omega
      · refine ⟨2 ^ 52, le_antisymm ?_ ?_⟩
        · have hstep : (2 : ℚ) ^ (e + 1) ≤ 2 ^ f := zpow_le_zpow_right₀ (by norm_num) hfe
          rw [zpow_add_one₀ two_ne_zero] at hstep
          push_cast
          linarith
        · exact_mod_cast hf.lower.resolve_left (by omega)
    rw [hn, mul_div_cancel_right₀ _ (by positivity), roundEven_natCast]

/-! ## Nearest of all doubles -/

/-- The double is as near to the number as any finite one, or it is infinite and the number lies
beyond them. -/
structure IsNearest (x : Float) (q : ℚ) : Prop where
  closest : x.isFinite = true →
    ∀ y : Float, y.isFinite = true → |exactValue x - q| ≤ |exactValue y - q|
  beyond : x.isFinite = false → ((2 ^ 54 - 1) * twoTo 970 : ℕ) ≤ |q|

/-- A finite double is a multiple of the power of two that a number is counted in, or it lies below
the least number of fifty-three bits, and the number does not. -/
theorem CountsIn.multiple_or_below {e : ℤ} (he : CountsIn q e) (y : Float) :
    (∃ k : ℤ, exactValue y = k * 2 ^ e) ∨ 2 ^ 52 * 2 ^ e ≤ q ∧ exactValue y < 2 ^ 52 * 2 ^ e := by
  have hcanonical := canonical_magnitude y
  have hvalue := exactValue_eq y
  rw [abs_exactValue_eq] at hvalue
  generalize magnitude y = b at hcanonical hvalue
  obtain ⟨m, f⟩ := b
  simp only at hvalue
  rcases le_or_gt e f with hfine | hcoarse
  · have hscale : (2 : ℚ) ^ f = 2 ^ (f - e).toNat * 2 ^ e := by
      rw [← zpow_natCast, ← zpow_add₀ two_ne_zero]
      congr 1
      omega
    rw [hscale] at hvalue
    refine .inl ⟨if signBit y then -(m * 2 ^ (f - e).toNat) else m * 2 ^ (f - e).toNat, ?_⟩
    rw [hvalue]
    split <;> push_cast <;> ring
  · refine .inr ⟨he.lower.resolve_left (by have := hcanonical.least; simp only at this; omega), ?_⟩
    have hstep : (2 : ℚ) ^ (f + 1) ≤ 2 ^ e := zpow_le_zpow_right₀ (by norm_num) hcoarse
    rw [zpow_add_one₀ two_ne_zero] at hstep
    have habs : (m : ℚ) * 2 ^ f < 2 ^ 52 * 2 ^ e := by
      calc (m : ℚ) * 2 ^ f < 2 ^ 53 * 2 ^ f := by
            gcongr
            exact_mod_cast hcanonical.small
        _ = 2 ^ 52 * (2 ^ f * 2) := by ring
        _ ≤ 2 ^ 52 * 2 ^ e := by gcongr
    have hnonneg : (0 : ℚ) ≤ m * 2 ^ f := by positivity
    rw [hvalue]
    split <;> linarith

/-- On the way from a finite double to a number lies a multiple of the power of two that the number
is counted in. -/
theorem CountsIn.exists_multiple {e : ℤ} (he : CountsIn q e) (y : Float) :
    ∃ k : ℤ, |k * 2 ^ e - q| ≤ |exactValue y - q| := by
  rcases he.multiple_or_below y with ⟨k, hk⟩ | ⟨hlower, hbelow⟩
  · exact ⟨k, by rw [hk]⟩
  · refine ⟨2 ^ 52, ?_⟩
    push_cast
    rw [abs_of_nonpos (by linarith), abs_of_nonpos (by linarith)]
    linarith

theorem closest_of_pos (hq : 0 < q) (hfinite : (nearestTo q).isFinite = true) (y : Float) :
    |exactValue (nearestTo q) - q| ≤ |exactValue y - q| := by
  obtain ⟨e, he⟩ := exists_countsIn hq.ne'
  rw [abs_of_pos hq] at he
  have hpow : (0 : ℚ) < 2 ^ e := by positivity
  have hunits (n : ℚ) : |n * 2 ^ e - q| = |n - q / 2 ^ e| * 2 ^ e := by
    rw [← abs_of_pos hpow, ← abs_mul, abs_of_pos hpow, sub_mul, div_mul_cancel₀ _ hpow.ne']
  obtain ⟨k, hk⟩ := he.exists_multiple y
  calc |exactValue (nearestTo q) - q| = |(roundEven (q / 2 ^ e) : ℚ) * 2 ^ e - q| := by
        rw [he.exactValue_nearestTo_of_pos hq hfinite]
    _ ≤ |k * 2 ^ e - q| := by
        rw [hunits, hunits]
        exact mul_le_mul_of_nonneg_right (abs_roundEven_sub_le_int (by positivity) k) hpow.le
    _ ≤ |exactValue y - q| := hk

/-- The nearest double is nearest. -/
theorem isNearest_nearestTo (q : ℚ) : IsNearest (nearestTo q) q := by
  refine ⟨fun hfinite y hy => ?_, fun hinfinite => ?_⟩
  · rcases lt_trichotomy q 0 with hneg | rfl | hpos
    · have hclosest := closest_of_pos (neg_pos.mpr hneg)
        ((isFinite_nearestTo_neg q).mpr hfinite) (-y)
      rwa [exactValue_nearestTo_neg, exactValue_neg hy, neg_sub_neg, neg_sub_neg, abs_sub_comm,
        abs_sub_comm q] at hclosest
    · rw [exactValue_nearestTo_zero, sub_self, abs_zero]
      exact abs_nonneg _
    · exact closest_of_pos hpos hfinite y
  · by_contra hless
    rw [isFinite_nearestTo (not_le.mp hless)] at hinfinite
    cases hinfinite

/-- A number is rounded to the nearest double, to the one with the even mantissa if two are equally
near, and to infinity beyond the doubles; zero is positive. -/
structure IsRounded (x : Float) (q : ℚ) : Prop extends IsNearest x q where
  even : x.isFinite = true → ∀ y : Float, y.isFinite = true → exactValue y ≠ exactValue x →
    |exactValue y - q| = |exactValue x - q| → unsignedBits x % 2 = 0
  overflow : ((2 ^ 54 - 1) * twoTo 970 : ℕ) ≤ |q| → unsignedBits x = infinityBits
  sign : signBit x = decide (q < 0)

/-- What lies in the middle between two integers is rounded to the even one. -/
theorem roundEven_of_tie {v : ℚ} (hv : 0 ≤ v) {k : ℤ} (hne : (k : ℚ) ≠ roundEven v)
    (htie : (k : ℚ) - v = v - roundEven v) : roundEven v % 2 = 0 := by
  have hbound := abs_le.mp (abs_roundEven_sub_le hv)
  have hsmall : |(k : ℚ) - roundEven v| ≤ 1 := abs_le.mpr ⟨by linarith, by linarith⟩
  have hlarge : (1 : ℚ) ≤ |(k : ℚ) - roundEven v| := by
    have hint : k ≠ roundEven v := by exact_mod_cast hne
    exact_mod_cast Int.one_le_abs (sub_ne_zero.mpr hint)
  -- The lower one of the two is a natural number, since a middle below zero is negative.
  obtain ⟨m, hm⟩ : ∃ m : ℕ, v = m + 1 / 2 := by
    rcases abs_eq_abs.mp ((le_antisymm hsmall hlarge).trans abs_one.symm) with habove | hbelow
    · exact ⟨roundEven v, by linarith⟩
    · have hnonneg : (0 : ℚ) < k + 1 := by linarith
      have hnonneg' : 0 ≤ k := by
        have hint : 0 < k + 1 := by exact_mod_cast hnonneg
        omega
      obtain ⟨m, rfl⟩ := Int.eq_ofNat_of_zero_le hnonneg'
      refine ⟨m, ?_⟩
      push_cast at hbelow htie ⊢
      linarith
  rw [hm, roundEven_add_half]
  omega

/-- If another double is equally near, the nearest one has an even mantissa. -/
theorem CountsIn.even_of_tie {e : ℤ} (hq : 0 < q) (he : CountsIn q e)
    (hfinite : (nearestTo q).isFinite = true) {y : Float}
    (hne : exactValue y ≠ exactValue (nearestTo q))
    (htie : |exactValue y - q| = |exactValue (nearestTo q) - q|) :
    roundEven (q / 2 ^ e) % 2 = 0 := by
  have hpow : (0 : ℚ) < 2 ^ e := by positivity
  have hv : 0 ≤ q / 2 ^ e := by positivity
  have hbound := abs_le.mp (abs_roundEven_sub_le hv)
  have hvalue := he.exactValue_nearestTo_of_pos hq hfinite
  have hopposite : exactValue y - q = q - exactValue (nearestTo q) := by
    rcases abs_eq_abs.mp htie with hsame | hopposite
    · exact absurd (sub_left_inj.mp hsame) hne
    · rw [hopposite, neg_sub]
  have hscaled : q = q / 2 ^ e * 2 ^ e := (div_mul_cancel₀ q hpow.ne').symm
  rw [hvalue] at hne hopposite
  rcases he.multiple_or_below y with ⟨k, hk⟩ | ⟨hlower, hbelow⟩
  · rw [hk] at hne hopposite
    refine roundEven_of_tie hv (fun heq => hne (by rw [heq])) ?_
    apply mul_right_cancel₀ hpow.ne'
    rw [sub_mul, sub_mul, ← hscaled]
    exact hopposite
  · -- Above the least number of fifty-three bits the next double below is a multiple, too.
    exfalso
    have hlower' : (2 : ℚ) ^ 52 ≤ q / 2 ^ e := (le_div_iff₀ hpow).mpr hlower
    have hmore : q / 2 ^ e < roundEven (q / 2 ^ e) := by
      rw [div_lt_iff₀ hpow]
      linarith
    have hnext : (2 : ℚ) ^ 52 + 1 ≤ roundEven (q / 2 ^ e) := by
      have hlt : ((2 ^ 52 : ℕ) : ℚ) < roundEven (q / 2 ^ e) := by
        push_cast
        linarith
      exact_mod_cast Nat.succ_le_of_lt (by exact_mod_cast hlt)
    have hfar : (2 ^ 52 : ℚ) * 2 ^ e ≤ (2 * (q / 2 ^ e) - roundEven (q / 2 ^ e)) * 2 ^ e := by
      gcongr
      linarith
    rw [sub_mul, mul_assoc, ← hscaled] at hfar
    linarith

theorem even_of_tie_of_pos (hq : 0 < q) (hfinite : (nearestTo q).isFinite = true) {y : Float}
    (hne : exactValue y ≠ exactValue (nearestTo q))
    (htie : |exactValue y - q| = |exactValue (nearestTo q) - q|) :
    unsignedBits (nearestTo q) % 2 = 0 := by
  obtain ⟨e, he⟩ := exists_countsIn hq.ne'
  have hbits := he.unsignedBits_eq hq.ne'
  rw [abs_of_pos hq] at he hbits
  have heven := he.even_of_tie hq hfinite hne htie
  rw [isFinite_iff, hbits, min_lt_iff, or_iff_left (lt_irrefl _)] at hfinite
  rw [hbits, min_eq_left hfinite.le]
  omega

/-- The nearest double is what a number is rounded to. -/
theorem isRounded_nearestTo (q : ℚ) : IsRounded (nearestTo q) q where
  toIsNearest := isNearest_nearestTo q
  even := by
    intro hfinite y hy hne htie
    rcases lt_trichotomy q 0 with hneg | rfl | hpos
    · rw [← unsignedBits_nearestTo_neg]
      apply even_of_tie_of_pos (neg_pos.mpr hneg) ((isFinite_nearestTo_neg q).mpr hfinite)
        (y := -y)
      · rw [exactValue_nearestTo_neg, exactValue_neg hy, ne_eq, neg_inj]
        exact hne
      · rwa [exactValue_nearestTo_neg, exactValue_neg hy, neg_sub_neg, neg_sub_neg, abs_sub_comm,
          abs_sub_comm q]
    · rw [unsignedBits_nearestTo_zero]
    · exact even_of_tie_of_pos hpos hfinite hne htie
  overflow := by
    intro h
    have hpos : (0 : ℚ) < q.den := by exact_mod_cast q.den_pos
    rw [abs_eq_num_div_den, le_div_iff₀ hpos] at h
    rw [unsignedBits_nearestTo q.den_pos (abs_eq_num_div_den q)]
    exact nearestBits_of_half_le q.den_pos (by exact_mod_cast h)
  sign := signBit_nearestTo q

end NearestTo

end DeskCalc.Number
