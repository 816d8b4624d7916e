import DeskCalc.Proofs.Number.Values

/-!
# Arithmetic of doubles

The sum, the product and the quotient of two finite doubles are the doubles nearest to the exact
results, products and quotients up to the sign of zero.  So adding a half to a finite double and
dividing it by a trillion leave it finite.
-/

namespace DeskCalc.Number

open Float.Model Float.Model.UnpackedFloat

/-! ## Mantissas with what has been cut off -/

/-- The number that a mantissa and the bits for what has been cut off stand for. -/
def Describes (em : ExtendedMantissa) (v : ℚ) : Prop :=
  match em.accuracy with
  | .exact => v = em.mantissa
  | .inexact .lt => em.mantissa < v ∧ v < em.mantissa + 1 / 2
  | .inexact .eq => v = em.mantissa + 1 / 2
  | .inexact .gt => em.mantissa + 1 / 2 < v ∧ v < em.mantissa + 1

namespace Describes

variable {em : ExtendedMantissa} {v : ℚ}

theorem bounds (h : Describes em v) : (em.mantissa : ℚ) ≤ v ∧ v < em.mantissa + 1 := by
  obtain ⟨m, r, t⟩ := em
  cases r <;> cases t <;> simp only [Describes, ExtendedMantissa.accuracy] at h ⊢ <;>
    constructor <;> linarith

/-- Rounding to nearest needs no more than is described. -/
theorem roundedMantissa_eq (h : Describes em v) : em.roundedMantissa = roundEven v := by
  have hnonneg : 0 ≤ v := (Nat.cast_nonneg _).trans h.bounds.1
  obtain ⟨m, r, t⟩ := em
  cases r <;> cases t <;>
    simp only [Describes, ExtendedMantissa.accuracy, ExtendedMantissa.roundedMantissa,
      Accuracy.roundToNearestEven] at h ⊢
  · rw [h, roundEven_natCast]
  · rw [roundEven_eq hnonneg]
    rw [abs_lt]
    constructor <;> linarith
  · rw [h, roundEven_add_half]
  · rw [roundEven_eq hnonneg]
    rw [abs_lt]
    push_cast
    constructor <;> linarith

theorem shiftRightOne (h : Describes em v) : Describes em.shiftRightOne (v / 2) := by
  obtain ⟨m, r, t⟩ := em
  have hhalf : (m : ℚ) = 2 * (m / 2 : ℕ) + (m % 2 : ℕ) := by
    exact_mod_cast (Nat.div_add_mod m 2).symm
  rcases Nat.mod_two_eq_zero_or_one m with hbit | hbit <;> rw [hbit] at hhalf <;>
    cases r <;> cases t <;>
    simp [Describes, ExtendedMantissa.accuracy, ExtendedMantissa.shiftRightOne,
      hbit] at h hhalf ⊢ <;>
    first
      | constructor <;> linarith
      | linarith

theorem shiftRight (h : Describes em v) (k : ℕ) : Describes (em >>> k) (v / 2 ^ k) := by
  induction k with
  | zero =>
    rw [pow_zero, div_one]
    exact h
  | succ k ih =>
    rw [pow_succ, ← div_div]
    exact ih.shiftRightOne

end Describes

/-! ## Rounding -/

/-- The exponent that a mantissa is brought to. -/
def target (m : ℕ) (e : ℤ) : ℤ :=
  max ((m.log2 : ℤ) + 1 + e - 53) (-1074)

section Rounding

variable {q : ℚ} {m : ℕ} {e : ℤ} {a : Accuracy}

/-- A mantissa that is not too short is brought to the exponent that its value is counted in. -/
theorem countsIn_target (hq : (m : ℚ) ≤ |q| / 2 ^ e ∧ |q| / 2 ^ e < m + 1) (he : e ≤ target m e) :
    CountsIn |q| (target m e) := by
  have hpow : (0 : ℚ) < 2 ^ e := by positivity
  rw [le_div_iff₀ hpow, div_lt_iff₀ hpow] at hq
  obtain ⟨hlow, hhigh⟩ := hq
  refine ⟨le_max_right _ _, ?_, ?_⟩
  · have hlong : (m : ℚ) + 1 ≤ 2 ^ (m.log2 + 1) := by exact_mod_cast Nat.lt_log2_self
    calc |q| < (m + 1) * 2 ^ e := hhigh
      _ ≤ 2 ^ (m.log2 + 1) * 2 ^ e := by gcongr
      _ = 2 ^ ((m.log2 : ℤ) + 1 + e) := by
        rw [zpow_add₀ two_ne_zero, ← zpow_natCast]
        push_cast
        rfl
      _ ≤ 2 ^ (53 + target m e) := zpow_le_zpow_right₀ (by norm_num) (by rw [target]; omega)
      _ = 2 ^ 53 * 2 ^ target m e := zpow_add₀ two_ne_zero _ _
  · rw [or_iff_not_imp_left]
    intro hne
    have hexponent : target m e = (m.log2 : ℤ) + 1 + e - 53 := by
      rw [target] at hne ⊢
      omega
    have hzero : m ≠ 0 := by
      rintro rfl
      rw [hexponent, Nat.log2_zero] at he
      omega
    have hlong : (2 : ℚ) ^ m.log2 ≤ m := by exact_mod_cast Nat.log2_self_le hzero
    calc (2 : ℚ) ^ 52 * 2 ^ target m e = 2 ^ (52 + target m e) := (zpow_add₀ two_ne_zero _ _).symm
      _ = 2 ^ ((m.log2 : ℤ) + e) := by
        rw [hexponent]
        congr 1
        ring
      _ = 2 ^ m.log2 * 2 ^ e := by rw [zpow_add₀ two_ne_zero, zpow_natCast]
      _ ≤ m * 2 ^ e := by gcongr
      _ ≤ |q| := hlow

/-- A mantissa that has been rounded is shifted once more where it has one bit too many. -/
def trimmed (s : Sign) (r : ℕ) (f : ℤ) : UnpackedFloat :=
  if h : (ExtendedMantissa.ofMantissaAndAccuracy r .exact >>> (target r f - f).toNat).mantissa = 0
  then .zero s
  else .finite s _ (f + (target r f - f).toNat) (Nat.pos_of_ne_zero h)

theorem roundWithAccuracy_eq {s : Sign} {r : ℕ} {f : ℤ}
    (hr : (ExtendedMantissa.ofMantissaAndAccuracy m a >>>
      (target m e - e).toNat).roundedMantissa = r)
    (hf : e + (target m e - e).toNat = f) :
    roundWithAccuracy Format.binary64 s m e a = trimmed s r f := by
  subst hr hf
  rfl

section Trimmed

variable {s : Sign} {negative : Bool} {r : ℕ} {f : ℤ}

theorem target_sub_of_lt (hsmall : r < 2 ^ 53) (hleast : -1074 ≤ f) :
    (target r f - f).toNat = 0 := by
  have hlog : r.log2 ≤ 52 := by
    by_cases hzero : r = 0
    · rw [hzero, Nat.log2_zero]
      exact Nat.zero_le _
    · exact Nat.le_of_lt_succ ((Nat.log2_lt hzero).mpr hsmall)
  rw [target]
  omega

theorem trimmed_eq {k : ℕ} (hk : (target r f - f).toNat = k) :
    trimmed s r f =
      if h : (ExtendedMantissa.ofMantissaAndAccuracy r .exact >>> k).mantissa = 0 then .zero s
      else .finite s _ (f + k) (Nat.pos_of_ne_zero h) := by
  subst hk
  rfl

theorem trimmed_zero (hleast : -1074 ≤ f) : trimmed s 0 f = .zero s := by
  rw [trimmed_eq (target_sub_of_lt (by norm_num) hleast)]
  exact dif_pos rfl

theorem trimmed_of_lt (hpos : 0 < r) (hsmall : r < 2 ^ 53) (hleast : -1074 ≤ f) :
    trimmed s r f = .finite s r f hpos := by
  rw [trimmed_eq (target_sub_of_lt hsmall hleast)]
  exact (dif_neg hpos.ne').trans (finite_congr rfl (Int.add_zero f))

/-- A mantissa that was rounded up to the next power of two belongs to the next exponent. -/
theorem trimmed_carry (hleast : -1074 ≤ f) :
    trimmed s (2 ^ 53) f = .finite s (2 ^ 52) (f + 1) (Nat.two_pow_pos 52) := by
  have hshift : (target (2 ^ 53) f - f).toNat = 1 := by
    rw [target, Nat.log2_two_pow]
    omega
  have hhalf : (ExtendedMantissa.ofMantissaAndAccuracy (2 ^ 53) .exact >>> 1).mantissa =
      2 ^ 52 := by rfl
  rw [trimmed_eq hshift]
  exact (dif_neg (hhalf ▸ (Nat.two_pow_pos 52).ne')).trans (finite_congr hhalf rfl)

/-- The bits count on over the powers of two. -/
theorem parts_packed_trimmed (hsmall : r ≤ 2 ^ 53) (hleast : -1074 ≤ f)
    (hlarge : f = -1074 ∨ 2 ^ 52 ≤ r) :
    signBit (packed (trimmed (signOf negative) r f)) = negative ∧
      unsignedBits (packed (trimmed (signOf negative) r f)) =
        min ((f + 1074).toNat * 2 ^ 52 + r) infinityBits := by
  rcases hsmall.lt_or_eq with hlt | rfl
  · rcases Nat.eq_zero_or_pos r with rfl | hpos
    · obtain rfl := hlarge.resolve_right (by norm_num)
      rw [trimmed_zero hleast]
      exact parts_packed_zero
    · have hcanonical : Binary.Canonical ⟨r, f⟩ := ⟨hlt, hleast, hlarge⟩
      rw [trimmed_of_lt hpos hlt hleast]
      exact parts_packed_finite hcanonical _
  · have hcanonical : Binary.Canonical ⟨2 ^ 52, f + 1⟩ :=
      ⟨by norm_num, by simp only; omega, .inr le_rfl⟩
    have hbits : (f + 1 + 1074).toNat * 2 ^ 52 + 2 ^ 52 = (f + 1074).toNat * 2 ^ 52 + 2 ^ 53 := by
      omega
    rw [trimmed_carry hleast, ← hbits]
    exact parts_packed_finite hcanonical _

end Trimmed

/-- What a mantissa and the bits behind it describe is rounded to the nearest double. -/
theorem packed_round (hdescribes : Describes (.ofMantissaAndAccuracy m a) (|q| / 2 ^ e))
    (hq : q ≠ 0) (he : e ≤ target m e) :
    packed (roundWithAccuracy Format.binary64 (signOf (decide (q < 0))) m e a) = nearestTo q := by
  have hmantissa : (ExtendedMantissa.ofMantissaAndAccuracy m a).mantissa = m := by
    rcases a with _ | (_ | _ | _) <;> rfl
  have hbounds := hdescribes.bounds
  rw [hmantissa] at hbounds
  have hcounts := countsIn_target hbounds he
  obtain ⟨hsmall, hlarge⟩ := hcounts.roundEven_bounds
  have hexponent : e + (target m e - e).toNat = target m e := by omega
  have hrounded : (ExtendedMantissa.ofMantissaAndAccuracy m a >>>
      (target m e - e).toNat).roundedMantissa = roundEven (|q| / 2 ^ target m e) := by
    rw [(hdescribes.shiftRight _).roundedMantissa_eq, div_div, ← zpow_natCast,
      ← zpow_add₀ two_ne_zero, hexponent]
  obtain ⟨hsign, hparts⟩ := @parts_packed_trimmed (decide (q < 0)) _ _ hsmall hcounts.least hlarge
  rw [roundWithAccuracy_eq hrounded hexponent]
  exact eq_of_parts (hsign.trans (signBit_nearestTo q).symm)
    (hparts.trans (hcounts.unsignedBits_eq hq).symm)

theorem log2_shiftLeft (hm : m ≠ 0) (k : ℕ) : (m <<< k).log2 = m.log2 + k := by
  have hpos : m * 2 ^ k ≠ 0 := by positivity
  rw [Nat.shiftLeft_eq, Nat.log2_eq_iff hpos, Nat.add_right_comm, pow_add, pow_add _ (_ + 1)]
  constructor
  · exact Nat.mul_le_mul_right _ (Nat.log2_self_le hm)
  · exact Nat.mul_lt_mul_of_pos_right Nat.lt_log2_self (Nat.two_pow_pos k)

/-- An integer times a power of two is brought to a nearest double. -/
theorem packed_round_exact (hq : q ≠ 0) (hvalue : |q| = m * 2 ^ e) :
    packed (UnpackedFloat.round Format.binary64 (signOf (decide (q < 0))) m e) = nearestTo q := by
  have hround : UnpackedFloat.round Format.binary64 (signOf (decide (q < 0))) m e =
      roundWithAccuracy Format.binary64 (signOf (decide (q < 0))) (m <<< (e - target m e).toNat)
        (e - (e - target m e).toNat) .exact := rfl
  have hpos : m ≠ 0 := by
    rintro rfl
    rw [Nat.cast_zero, zero_mul, abs_eq_zero] at hvalue
    exact hq hvalue
  rw [hround]
  apply packed_round _ hq
  · rw [target, target, log2_shiftLeft hpos]
    omega
  · show |q| / 2 ^ (e - ((e - target m e).toNat : ℤ)) = ((m <<< (e - target m e).toNat : ℕ) : ℚ)
    rw [div_eq_iff (by positivity), hvalue, Nat.shiftLeft_eq, Nat.cast_mul, mul_assoc, Nat.cast_pow,
      ← zpow_natCast, Nat.cast_ofNat, ← zpow_add₀ two_ne_zero]
    congr 2
    ring

theorem packed_normalize (n e : ℤ) :
    packed (normalize Format.binary64 n e .positive) = nearestTo (n * 2 ^ e) := by
  have hpow : (0 : ℚ) < 2 ^ e := by positivity
  rw [UnpackedFloat.normalize]
  cases hcompare : compare n 0 with
  | lt =>
    have hneg := Int.compare_eq_lt.mp hcompare
    have hq : (n * 2 ^ e : ℚ) < 0 := mul_neg_of_neg_of_pos (by exact_mod_cast hneg) hpow
    have hsign : signOf (decide ((n * 2 ^ e : ℚ) < 0)) = .negative := by
      rw [decide_eq_true hq]
      rfl
    simp only
    rw [← hsign]
    apply packed_round_exact hq.ne
    rw [abs_of_neg hq, neg_mul_eq_neg_mul]
    congr 1
    exact_mod_cast (Int.toNat_of_nonneg (by omega : 0 ≤ -n)).symm
  | eq =>
    have hzero := Int.compare_eq_eq.mp hcompare
    obtain ⟨hsign, hbits⟩ := @parts_packed_zero false
    rw [hzero, Int.cast_zero, zero_mul]
    apply eq_of_parts
    · rw [signBit_nearestTo]
      exact hsign
    · rw [unsignedBits_nearestTo_zero]
      exact hbits
  | gt =>
    have hgt := Int.compare_eq_gt.mp hcompare
    have hq : (0 : ℚ) < n * 2 ^ e := mul_pos (by exact_mod_cast hgt) hpow
    have hsign : signOf (decide ((n * 2 ^ e : ℚ) < 0)) = .positive := by
      rw [decide_eq_false (not_lt.mpr hq.le)]
      rfl
    simp only
    rw [← hsign]
    apply packed_round_exact hq.ne'
    rw [abs_of_pos hq]
    congr 1
    exact_mod_cast (Int.toNat_of_nonneg hgt.le).symm

end Rounding

/-! ## Sums, products and quotients -/

section Operations

variable {x y : Float}

theorem signBit_eq (hx : exactValue x ≠ 0) : signBit x = decide (exactValue x < 0) := by
  rw [Bool.eq_iff_iff, decide_eq_true_iff, exactValue_neg_iff,
    and_iff_left (mt exactValue_eq_zero_iff.mpr hx)]

/-- A finite double that is not zero is unpacked to a canonical magnitude and the sign of its
value. -/
theorem unpack_of_ne_zero (hfinite : x.isFinite = true) (hx : exactValue x ≠ 0) :
    ∃ m e hpos, x.toModel.unpack = .finite (signOf (decide (exactValue x < 0))) m e hpos ∧
      |exactValue x| = m * 2 ^ e ∧ Binary.Canonical ⟨m, e⟩ := by
  obtain ⟨hzero, -⟩ | ⟨hpos, -, hunpack⟩ := unpack_of_isFinite hfinite
  · exact absurd (exactValue_eq_zero_iff.mpr hzero) hx
  · rw [signBit_eq hx] at hunpack
    exact ⟨_, _, hpos, hunpack, abs_exactValue_eq x, canonical_magnitude x⟩

theorem unpack_of_eq_zero (hfinite : x.isFinite = true) (hx : exactValue x = 0) :
    x.toModel.unpack = .zero (signOf (signBit x)) := by
  obtain ⟨-, hunpack⟩ | ⟨-, hne, -⟩ := unpack_of_isFinite hfinite
  · exact hunpack
  · exact absurd (exactValue_eq_zero_iff.mp hx) hne

theorem apply_signOf {v : ℚ} {m : ℕ} {e : ℤ} (h : |v| = m * 2 ^ e) :
    (((signOf (decide (v < 0))).apply m : ℤ) : ℚ) * 2 ^ e = v := by
  by_cases hneg : v < 0
  · rw [abs_of_neg hneg] at h
    rw [decide_eq_true hneg]
    show ((-(m : ℤ) : ℤ) : ℚ) * 2 ^ e = v
    push_cast
    linarith
  · rw [abs_of_nonneg (not_lt.mp hneg)] at h
    rw [decide_eq_false hneg]
    exact h.symm

theorem add_finite (s t : Sign) {m n : ℕ} (e f : ℤ) (hm : 0 < m) (hn : 0 < n) :
    UnpackedFloat.add Format.binary64 (.finite s m e hm) (.finite t n f hn) =
      normalize Format.binary64 (s.apply ((m <<< (e - min e f).toNat : ℕ) : ℤ) +
        t.apply ((n <<< (f - min e f).toNat : ℕ) : ℤ)) (min e f) .positive :=
  rfl

/-- A sum is rounded once. -/
theorem add_eq (hx : x.isFinite = true) (hy : y.isFinite = true) (hne : exactValue y ≠ 0) :
    x + y = nearestTo (exactValue x + exactValue y) := by
  have hadd : x + y = packed (UnpackedFloat.add Format.binary64 x.toModel.unpack
      y.toModel.unpack) := rfl
  obtain ⟨n, f, hn, hunpack, hvalue, -⟩ := unpack_of_ne_zero hy hne
  rw [hadd]
  by_cases hzero : exactValue x = 0
  · have hright : UnpackedFloat.add Format.binary64 x.toModel.unpack y.toModel.unpack =
        y.toModel.unpack := by
      rw [unpack_of_eq_zero hx hzero, hunpack]
      rfl
    rw [hright, hzero, zero_add, nearestTo_exactValue hy hne]
    exact ofModel_pack hy
  · obtain ⟨m, e, hm, hunpack', hvalue', -⟩ := unpack_of_ne_zero hx hzero
    rw [hunpack, hunpack', add_finite, packed_normalize]
    congr 1
    have hscaled (k : ℕ) (g : ℤ) (hg : min e f ≤ g) :
        ((k <<< (g - min e f).toNat : ℕ) : ℚ) * 2 ^ min e f = k * 2 ^ g := by
      rw [Nat.shiftLeft_eq, Nat.cast_mul, Nat.cast_pow, Nat.cast_ofNat, mul_assoc, ← zpow_natCast,
        ← zpow_add₀ two_ne_zero]
      congr 2
      omega
    rw [Int.cast_add, add_mul, apply_signOf (hvalue'.trans (hscaled m e (min_le_left _ _)).symm),
      apply_signOf (hvalue.trans (hscaled n f (min_le_right _ _)).symm)]

theorem signOf_mul (hx : exactValue x ≠ 0) (hy : exactValue y ≠ 0) :
    signOf (decide (exactValue x < 0)) * signOf (decide (exactValue y < 0)) =
      signOf (decide (exactValue x * exactValue y < 0)) := by
  rcases lt_or_gt_of_ne hx with hx | hx <;> rcases lt_or_gt_of_ne hy with hy | hy
  all_goals simp only [mul_neg_iff, hx, hy, hx.not_gt, hy.not_gt]
  all_goals rfl

theorem signOf_div (hx : exactValue x ≠ 0) (hy : exactValue y ≠ 0) :
    signOf (decide (exactValue x < 0)) / signOf (decide (exactValue y < 0)) =
      signOf (decide (exactValue x / exactValue y < 0)) := by
  rcases lt_or_gt_of_ne hx with hx | hx <;> rcases lt_or_gt_of_ne hy with hy | hy
  all_goals simp only [div_neg_iff, hx, hy, hx.not_gt, hy.not_gt]
  all_goals rfl

/-- A product is rounded once. -/
theorem mul_eq (hx : x.isFinite = true) (hy : y.isFinite = true) (hx' : exactValue x ≠ 0)
    (hy' : exactValue y ≠ 0) : x * y = nearestTo (exactValue x * exactValue y) := by
  have hmul : x * y = packed (UnpackedFloat.mul Format.binary64 x.toModel.unpack
      y.toModel.unpack) := rfl
  obtain ⟨m, e, hm, hunpack, hvalue, hcanonical⟩ := unpack_of_ne_zero hx hx'
  obtain ⟨n, f, hn, hunpack', hvalue', hcanonical'⟩ := unpack_of_ne_zero hy hy'
  have hfinite (s t : Sign) :
      UnpackedFloat.mul Format.binary64 (.finite s m e hm) (.finite t n f hn) =
        roundWithAccuracy Format.binary64 (s * t) (m * n) (e + f) .exact := rfl
  rw [hmul, hunpack, hunpack', hfinite, signOf_mul hx' hy']
  apply packed_round _ (mul_ne_zero hx' hy')
  · -- The product is too short only if both factors are below the least normal number.
    have hlog : m.log2 + n.log2 ≤ (m * n).log2 := by
      rw [Nat.le_log2 (by positivity), pow_add]
      exact Nat.mul_le_mul (Nat.log2_self_le hm.ne') (Nat.log2_self_le hn.ne')
    have hlong (hle : 2 ^ 52 ≤ m) : 52 ≤ m.log2 := (Nat.le_log2 hm.ne').mpr hle
    have hlong' (hle : 2 ^ 52 ≤ n) : 52 ≤ n.log2 := (Nat.le_log2 hn.ne').mpr hle
    obtain ⟨-, -, hlarge⟩ := hcanonical
    obtain ⟨-, -, hlarge'⟩ := hcanonical'
    simp only at hlarge hlarge'
    rw [target]
    omega
  · show _ = ((m * n : ℕ) : ℚ)
    rw [div_eq_iff (by positivity), abs_mul, hvalue, hvalue', Nat.cast_mul, zpow_add₀ two_ne_zero]
    ring

/-- The mantissa of a quotient, with the place of what is left in the last unit. -/
theorem describes_fraction (num : ℕ) {den : ℕ} (hden : 0 < den) :
    Describes (.ofMantissaAndAccuracy (num / den) (accuracyOfFraction (num % den) den))
      (num / den) := by
  have hpos : (0 : ℚ) < den := by exact_mod_cast hden
  have hvalue : (num : ℚ) = (num / den : ℕ) * den + (num % den : ℕ) := by
    exact_mod_cast (Nat.div_add_mod' num den).symm
  have hlt : ((num % den : ℕ) : ℚ) < den := by exact_mod_cast Nat.mod_lt num hden
  rw [accuracyOfFraction]
  generalize num / den = k at hvalue ⊢
  generalize num % den = rest at hvalue hlt ⊢
  split
  next hzero =>
    show (num : ℚ) / den = k
    rw [div_eq_iff hpos.ne', hvalue, hzero, Nat.cast_zero, add_zero]
  next hne =>
    have hrest : (0 : ℚ) < rest := by exact_mod_cast Nat.pos_of_ne_zero hne
    cases hcompare : compare (2 * rest) den with
    | lt =>
      have hless : (2 : ℚ) * rest < den := by exact_mod_cast Nat.compare_eq_lt.mp hcompare
      show (k : ℚ) < num / den ∧ num / den < (k : ℚ) + 1 / 2
      rw [lt_div_iff₀ hpos, div_lt_iff₀ hpos]
      constructor <;> linarith
    | eq =>
      have hsame : (2 : ℚ) * rest = den := by exact_mod_cast Nat.compare_eq_eq.mp hcompare
      show (num : ℚ) / den = k + 1 / 2
      rw [div_eq_iff hpos.ne']
      linarith
    | gt =>
      have hmore : (den : ℚ) < 2 * rest := by exact_mod_cast Nat.compare_eq_gt.mp hcompare
      show (k : ℚ) + 1 / 2 < num / den ∧ num / den < (k : ℚ) + 1
      rw [lt_div_iff₀ hpos, div_lt_iff₀ hpos]
      constructor <;> linarith

theorem le_log2_quotient {m n k : ℕ} (hm : 0 < m) (hn : 0 < n)
    (hlong : 52 + (n.log2 + 1) ≤ m.log2 + k) : 52 ≤ (m <<< k / n).log2 := by
  have hquotient : 2 ^ 52 ≤ m <<< k / n := by
    rw [Nat.le_div_iff_mul_le hn, Nat.shiftLeft_eq]
    calc 2 ^ 52 * n ≤ 2 ^ 52 * 2 ^ (n.log2 + 1) := Nat.mul_le_mul_left _ Nat.lt_log2_self.le
      _ = 2 ^ (52 + (n.log2 + 1)) := (pow_add _ _ _).symm
      _ ≤ 2 ^ (m.log2 + k) := Nat.pow_le_pow_right Nat.two_pos hlong
      _ = 2 ^ m.log2 * 2 ^ k := pow_add _ _ _
      _ ≤ m * 2 ^ k := Nat.mul_le_mul_right _ (Nat.log2_self_le hm.ne')
  exact (Nat.le_log2 (by omega)).mpr hquotient

/-- A quotient is rounded once. -/
theorem div_eq (hx : x.isFinite = true) (hy : y.isFinite = true) (hx' : exactValue x ≠ 0)
    (hy' : exactValue y ≠ 0) : x / y = nearestTo (exactValue x / exactValue y) := by
  have hdiv : x / y = packed (UnpackedFloat.div Format.binary64 x.toModel.unpack
      y.toModel.unpack) := rfl
  obtain ⟨m, e, hm, hunpack, hvalue, -⟩ := unpack_of_ne_zero hx hx'
  obtain ⟨n, f, hn, hunpack', hvalue', -⟩ := unpack_of_ne_zero hy hy'
  have hfinite (s t : Sign) :
      UnpackedFloat.div Format.binary64 (.finite s m e hm) (.finite t n f hn) =
        roundWithAccuracy Format.binary64 (s / t) (divCore Format.binary64 m e n f).1
          (divCore Format.binary64 m e n f).2.1 (divCore Format.binary64 m e n f).2.2 := rfl
  set g : ℤ := min (e - f) (max ((m.log2 : ℤ) + 1 + e - (n.log2 + 1 + f) - 53) (-1074)) with hg
  set k : ℕ := (e - f - g).toNat with hk
  have hcore : divCore Format.binary64 m e n f =
      (m <<< k / n, g, accuracyOfFraction (m <<< k % n) n) := rfl
  rw [hdiv, hunpack, hunpack', hfinite, hcore, signOf_div hx' hy']
  apply packed_round _ (div_ne_zero hx' hy')
  · -- The numerator was made long enough for a quotient of fifty-three bits.
    show g ≤ target (m <<< k / n) g
    rw [target]
    by_cases hleast : g ≤ -1074
    · omega
    · have hlong := @le_log2_quotient m n k hm hn (by omega)
      omega
  · have hquotient : |exactValue x / exactValue y| / 2 ^ g = ((m <<< k : ℕ) : ℚ) / n := by
      have hscale : (2 : ℚ) ^ e = 2 ^ k * (2 ^ f * 2 ^ g) := by
        rw [← zpow_natCast, ← zpow_add₀ two_ne_zero, ← zpow_add₀ two_ne_zero]
        congr 1
        omega
      rw [abs_div, hvalue, hvalue', hscale, Nat.shiftLeft_eq]
      push_cast
      field_simp
    rw [hquotient]
    exact describes_fraction _ hn

theorem agree_zero (s : Sign) : Agree (packed (.zero s)) (nearestTo 0) := by
  have hbits : unsignedBits (packed (.zero s)) = 0 := by
    cases s with
    | negative => exact (@parts_packed_zero true).2
    | positive => exact (@parts_packed_zero false).2
  refine ⟨hbits.trans unsignedBits_nearestTo_zero.symm, ?_⟩
  rw [exactValue_eq_zero_iff.mpr hbits, exactValue_nearestTo_zero]

/-- A zero has the product zero, of either sign. -/
theorem mul_agree (hx : x.isFinite = true) (hy : y.isFinite = true) (hne : exactValue y ≠ 0) :
    Agree (x * y) (nearestTo (exactValue x * exactValue y)) := by
  by_cases hzero : exactValue x = 0
  · have hmul : x * y = packed (UnpackedFloat.mul Format.binary64 x.toModel.unpack
        y.toModel.unpack) := rfl
    obtain ⟨n, f, hn, hunpack, -, -⟩ := unpack_of_ne_zero hy hne
    rw [hmul, unpack_of_eq_zero hx hzero, hunpack, hzero, zero_mul]
    exact agree_zero _
  · rw [mul_eq hx hy hzero hne]
    exact ⟨rfl, rfl⟩

theorem div_agree (hx : x.isFinite = true) (hy : y.isFinite = true) (hne : exactValue y ≠ 0) :
    Agree (x / y) (nearestTo (exactValue x / exactValue y)) := by
  by_cases hzero : exactValue x = 0
  · have hdiv : x / y = packed (UnpackedFloat.div Format.binary64 x.toModel.unpack
        y.toModel.unpack) := rfl
    obtain ⟨n, f, hn, hunpack, -, -⟩ := unpack_of_ne_zero hy hne
    rw [hdiv, unpack_of_eq_zero hx hzero, hunpack, hzero, zero_div]
    exact agree_zero _
  · rw [div_eq hx hy hzero hne]
    exact ⟨rfl, rfl⟩

end Operations

/-! ## Comparisons -/

section Comparison

variable {x y : Float}

/-- The order of magnitudes is the order of their exponents, and of their mantissas at the same
exponent. -/
theorem isLE_magnitude (x y : Float) :
    ((compare (magnitude x).exponent (magnitude y).exponent).then
      (compare (magnitude x).mantissa (magnitude y).mantissa)).isLE = true ↔
    unsignedBits x ≤ unsignedBits y := by
  obtain ⟨hsmall, hleast, hlarge⟩ := canonical_magnitude x
  obtain ⟨hsmall', hleast', hlarge'⟩ := canonical_magnitude y
  rw [← bits_magnitude x, ← bits_magnitude y]
  rcases lt_trichotomy (magnitude x).exponent (magnitude y).exponent with hlt | heq | hgt
  · rw [compare_lt_iff_lt.mpr hlt]
    refine iff_of_true rfl ?_
    omega
  · rw [compare_eq_iff_eq.mpr heq, heq, Nat.add_le_add_iff_left]
    exact Nat.isLE_compare
  · rw [compare_gt_iff_gt.mpr hgt]
    refine iff_of_false Bool.false_ne_true ?_
    omega

theorem isLE_swap_magnitude (x y : Float) :
    ((compare (magnitude x).exponent (magnitude y).exponent).then
      (compare (magnitude x).mantissa (magnitude y).mantissa)).swap.isLE = true ↔
    unsignedBits y ≤ unsignedBits x := by
  rw [Ordering.swap_then, ← Std.OrientedOrd.eq_swap, ← Std.OrientedOrd.eq_swap]
  exact isLE_magnitude y x

/-- Finite doubles are in the order of their values. -/
theorem le_iff (hx : x.isFinite = true) (hy : y.isFinite = true) :
    x ≤ y ↔ exactValue x ≤ exactValue y := by
  have hunpack : x ≤ y ↔ x.toModel.unpack.le y.toModel.unpack = true := decide_eq_true_iff
  have hvalue := exactValue_eq x
  have hvalue' := exactValue_eq y
  rw [hunpack]
  obtain ⟨hzero, hux⟩ | ⟨_, hne, hux⟩ := unpack_of_isFinite hx <;>
    obtain ⟨hzero', huy⟩ | ⟨_, hne', huy⟩ := unpack_of_isFinite hy <;> rw [hux, huy]
  · rw [exactValue_eq_zero_iff.mpr hzero, exactValue_eq_zero_iff.mpr hzero']
    exact iff_of_true rfl le_rfl
  · rw [exactValue_eq_zero_iff.mpr hzero]
    cases hsign : signBit y with
    | false => exact iff_of_true rfl (exactValue_nonneg_of_signBit hsign)
    | true => exact iff_of_false Bool.false_ne_true (exactValue_neg_iff.mpr ⟨hsign, hne'⟩).not_ge
  · rw [exactValue_eq_zero_iff.mpr hzero']
    cases hsign : signBit x with
    | false =>
      have hnonzero := mt exactValue_eq_zero_iff.mp hne
      have hpos := (exactValue_nonneg_of_signBit hsign).lt_of_ne (Ne.symm hnonzero)
      exact iff_of_false Bool.false_ne_true hpos.not_ge
    | true => exact iff_of_true rfl (exactValue_nonpos_of_signBit hsign)
  · have habs := abs_exactValue_le_iff hx hy
    have habs' := abs_exactValue_le_iff hy hx
    cases hsign : signBit x <;> cases hsign' : signBit y <;>
      rw [hsign] at hvalue <;> rw [hsign'] at hvalue'
    · rw [hvalue, hvalue', if_neg Bool.false_ne_true, if_neg Bool.false_ne_true, habs]
      exact isLE_magnitude x y
    · have hneg := exactValue_neg_iff.mpr ⟨hsign', hne'⟩
      have hnonneg := exactValue_nonneg_of_signBit hsign
      exact iff_of_false Bool.false_ne_true (by linarith)
    · have hnonpos := exactValue_nonpos_of_signBit hsign
      have hnonneg := exactValue_nonneg_of_signBit hsign'
      exact iff_of_true rfl (hnonpos.trans hnonneg)
    · rw [hvalue, hvalue', if_pos rfl, if_pos rfl, neg_le_neg_iff, habs']
      exact isLE_swap_magnitude x y

theorem exists_compare {u v : UnpackedFloat} (hu : u.isNaN = false) (hv : v.isNaN = false) :
    ∃ o, u.compare v = some o := by
  rcases u with (_ | _) | _ | (_ | _) | ⟨_ | _, m, e, hm⟩ <;>
    rcases v with (_ | _) | _ | (_ | _) | ⟨_ | _, n, f, hn⟩ <;>
    first
      | exact ⟨_, rfl⟩
      | exact absurd hu.symm Bool.false_ne_true
      | exact absurd hv.symm Bool.false_ne_true

theorem compare_swap (u v : UnpackedFloat) : (u.compare v).map Ordering.swap = v.compare u := by
  rcases u with (_ | _) | _ | (_ | _) | ⟨_ | _, m, e, hm⟩ <;>
    rcases v with (_ | _) | _ | (_ | _) | ⟨_ | _, n, f, hn⟩ <;>
    try rfl
  · show some ((compare e f).then (compare m n)).swap.swap =
      some ((compare f e).then (compare n m)).swap
    rw [Ordering.swap_then (compare f e), ← Std.OrientedOrd.eq_swap, ← Std.OrientedOrd.eq_swap,
      Ordering.swap_swap]
  · show some ((compare e f).then (compare m n)).swap = some ((compare f e).then (compare n m))
    rw [Ordering.swap_then, ← Std.OrientedOrd.eq_swap, ← Std.OrientedOrd.eq_swap]

/-- Two doubles that are numbers are in order one way or the other. -/
theorem lt_iff_not_le (hx : x.isNaN = false) (hy : y.isNaN = false) : x < y ↔ ¬y ≤ x := by
  have hlt : x < y ↔ x.toModel.unpack.lt y.toModel.unpack = true := decide_eq_true_iff
  have hle : y ≤ x ↔ y.toModel.unpack.le x.toModel.unpack = true := decide_eq_true_iff
  obtain ⟨o, ho⟩ := @exists_compare x.toModel.unpack y.toModel.unpack hx hy
  rw [hlt, hle, UnpackedFloat.lt, UnpackedFloat.le, ← compare_swap x.toModel.unpack, ho]
  cases o <;> decide

theorem lt_iff (hx : x.isFinite = true) (hy : y.isFinite = true) :
    x < y ↔ exactValue x < exactValue y := by
  rw [lt_iff_not_le (isNaN_of_isFinite hx) (isNaN_of_isFinite hy), le_iff hy hx, not_le]

end Comparison

/-! ## Results that are numbers -/

section Numbers

variable {x y : Float} {q : ℚ}

/-- The bits of infinity are the last ones that are a number. -/
theorem isNaN_of_bits_le (h : unsignedBits x ≤ infinityBits) : x.isNaN = false := by
  rcases h.lt_or_eq with hlt | heq
  · exact isNaN_of_isFinite ((isFinite_iff x).mpr hlt)
  · cases hsign : signBit x with
    | false =>
      rw [eq_of_parts (hsign.trans parts_infinity.1.symm) (heq.trans parts_infinity.2.symm)]
      decide
    | true =>
      rw [eq_of_parts (hsign.trans parts_neg_infinity.1.symm) (heq.trans parts_neg_infinity.2.symm)]
      decide

theorem isNaN_nearestTo (q : ℚ) : (nearestTo q).isNaN = false :=
  isNaN_of_bits_le (nearest_parts.2.trans_le nearestBits_le)

theorem Agree.isNaN (h : Agree x (nearestTo q)) : x.isNaN = false :=
  isNaN_of_bits_le (h.1.trans_le (nearest_parts.2.trans_le nearestBits_le))

theorem isNaN_packed_infinity (s : Sign) : (packed (.infinity s)).isNaN = false := by
  cases s <;> rfl

theorem isNaN_packed_zero (s : Sign) : (packed (.zero s)).isNaN = false := by
  cases s <;> rfl

/-- A quotient is a number if the divisor is finite and not zero. -/
theorem isNaN_div (hx : x.isNaN = false) (hy : y.isFinite = true) (hne : exactValue y ≠ 0) :
    (x / y).isNaN = false := by
  have hdiv : x / y = packed (UnpackedFloat.div Format.binary64 x.toModel.unpack
      y.toModel.unpack) := rfl
  obtain ⟨n, f, hn, hunpack, -, -⟩ := unpack_of_ne_zero hy hne
  rcases finite_or_infinite hx with hfinite | rfl | rfl
  · exact (div_agree hfinite hy hne).isNaN
  · rw [hdiv, hunpack]
    exact isNaN_packed_infinity _
  · rw [hdiv, hunpack]
    exact isNaN_packed_infinity _

theorem sub_finite (s t : Sign) {m n : ℕ} (e f : ℤ) (hm : 0 < m) (hn : 0 < n) :
    UnpackedFloat.sub Format.binary64 (.finite s m e hm) (.finite t n f hn) =
      normalize Format.binary64 (s.apply ((m <<< (e - min e f).toNat : ℕ) : ℤ) -
        t.apply ((n <<< (f - min e f).toNat : ℕ) : ℤ)) (min e f) .positive :=
  rfl

/-- A difference is a number if it is taken from a finite one. -/
theorem isNaN_sub (hx : x.isFinite = true) (hy : y.isNaN = false) : (x - y).isNaN = false := by
  have hsub : x - y = packed (UnpackedFloat.sub Format.binary64 x.toModel.unpack
      y.toModel.unpack) := rfl
  obtain ⟨hzero, hu⟩ | ⟨hm, -, hu⟩ := unpack_of_isFinite hx
  · have hneg (hright : UnpackedFloat.sub Format.binary64 x.toModel.unpack y.toModel.unpack =
        y.toModel.unpack.neg) : x - y = -y := by
      rw [hsub, hright]
      rfl
    rcases finite_or_infinite hy with hfinite | rfl | rfl
    · obtain ⟨-, hv⟩ | ⟨hn, -, hv⟩ := unpack_of_isFinite hfinite
      · rw [hsub, hu, hv]
        cases signBit x <;> cases signBit y <;> exact isNaN_packed_zero _
      · rw [hneg (by rw [hu, hv]; rfl)]
        apply isNaN_of_bits_le
        rw [(neg_parts hfinite).2]
        exact ((isFinite_iff y).mp hfinite).le
    · rw [hsub, hu]
      exact isNaN_packed_infinity _
    · rw [hsub, hu]
      exact isNaN_packed_infinity _
  · rcases finite_or_infinite hy with hfinite | rfl | rfl
    · obtain ⟨-, hv⟩ | ⟨hn, -, hv⟩ := unpack_of_isFinite hfinite
      · have hleft : UnpackedFloat.sub Format.binary64 x.toModel.unpack y.toModel.unpack =
            x.toModel.unpack := by
          rw [hu, hv]
          rfl
        rw [hsub, hleft, packed, ofModel_pack hx]
        exact isNaN_of_isFinite hx
      · rw [hsub, hu, hv, sub_finite, packed_normalize]
        exact isNaN_nearestTo _
    · rw [hsub, hu]
      exact isNaN_packed_infinity _
    · rw [hsub, hu]
      exact isNaN_packed_infinity _

theorem isNaN_abs (hx : x.isNaN = false) : x.abs.isNaN = false := by
  rcases finite_or_infinite hx with hfinite | rfl | rfl
  · apply isNaN_of_bits_le
    rw [(abs_parts hfinite).2]
    exact ((isFinite_iff x).mp hfinite).le
  · decide
  · decide

end Numbers

/-! ## Half a unit and twelve decimals -/

section Constants

variable {x : Float}

theorem exactValue_of_unpack {s : Sign} {m : ℕ} {e : ℤ} {hm : 0 < m} (hx : x.isFinite = true)
    (h : x.toModel.unpack = .finite s m e hm) : exactValue x = s.apply m * 2 ^ e := by
  obtain ⟨-, hunpack⟩ | ⟨hpos, -, hunpack⟩ := unpack_of_isFinite hx
  · rw [h] at hunpack
    cases hunpack
  · rw [h] at hunpack
    injection hunpack with hsign hmantissa hexponent
    rw [exactValue_eq, abs_exactValue_eq, hsign, hmantissa, hexponent, signOf]
    split
    · show _ = ((-((magnitude x).mantissa : ℤ) : ℤ) : ℚ) * _
      push_cast
      ring
    · rfl

theorem isFinite_half : (0.5 : Float).isFinite = true := by
  rfl

theorem exactValue_half : exactValue 0.5 = 1 / 2 := by
  have hunpack : (0.5 : Float).toModel.unpack =
      .finite .positive (2 ^ 52) (-53) (by decide) := by rfl
  rw [exactValue_of_unpack isFinite_half hunpack]
  show (((2 ^ 52 : ℕ) : ℤ) : ℚ) * 2 ^ (-53 : ℤ) = 1 / 2
  norm_num

theorem isFinite_trillion : (1e12 : Float).isFinite = true := by
  rfl

theorem exactValue_trillion : exactValue 1e12 = 10 ^ 12 := by
  have hunpack : (1e12 : Float).toModel.unpack =
      .finite .positive 8192000000000000 (-13) (by decide) := by rfl
  rw [exactValue_of_unpack isFinite_trillion hunpack]
  show (((8192000000000000 : ℕ) : ℤ) : ℚ) * 2 ^ (-13 : ℤ) = 10 ^ 12
  norm_num

theorem add_half_eq (hx : x.isFinite = true) : x + 0.5 = nearestTo (exactValue x + 1 / 2) := by
  rw [add_eq hx isFinite_half (by rw [exactValue_half]; norm_num), exactValue_half]

/-- Half a unit can be added to every finite double. -/
theorem isFinite_add_half (hx : x.isFinite = true) : (x + 0.5).isFinite = true := by
  rw [add_half_eq hx]
  apply isFinite_nearestTo_of_le hx
  calc |exactValue x + 1 / 2| ≤ |exactValue x| + |1 / 2| := abs_add_le _ _
    _ ≤ |exactValue x| + 1 := by
      rw [abs_of_pos (by norm_num : (0 : ℚ) < 1 / 2)]
      linarith

theorem mul_trillion (hx : x.isFinite = true) :
    Agree (x * 1e12) (nearestTo (exactValue x * 10 ^ 12)) := by
  have hagree := mul_agree hx isFinite_trillion (by rw [exactValue_trillion]; norm_num)
  rwa [exactValue_trillion] at hagree

theorem div_trillion (hx : x.isFinite = true) :
    Agree (x / 1e12) (nearestTo (exactValue x / 10 ^ 12)) := by
  have hagree := div_agree hx isFinite_trillion (by rw [exactValue_trillion]; norm_num)
  rwa [exactValue_trillion] at hagree

/-- Division by a large constant stays finite. -/
theorem isFinite_div_trillion (hx : x.isFinite = true) : (x / 1e12).isFinite = true := by
  rw [(div_trillion hx).isFinite]
  apply isFinite_nearestTo_of_le hx
  rw [abs_div, abs_of_pos (by norm_num : (0 : ℚ) < 10 ^ 12)]
  calc |exactValue x| / 10 ^ 12 ≤ |exactValue x| := div_le_self (abs_nonneg _) (by norm_num)
    _ ≤ |exactValue x| + 1 := by linarith

end Constants

end DeskCalc.Number
