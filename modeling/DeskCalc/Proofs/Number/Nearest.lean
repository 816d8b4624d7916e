import DeskCalc.Proofs.Number.Doubles
import Mathlib.Algebra.Order.Field.Basic
import Mathlib.Tactic.FieldSimp
import Mathlib.Tactic.Linarith
import Mathlib.Tactic.Positivity

/-!
# The double nearest to a quotient

The power of two that a mantissa is counted in is fixed by the value of the quotient alone, and so
is the double nearest to it.  A double is the nearest one to its own magnitude.
-/

namespace DeskCalc.Number

/-! ## Rounding to the nearest natural number -/

section HalfEven

variable {num den n : Nat}

theorem halfEven_mul {k : Nat} (hk : 0 < k) :
    halfEven (num * k) (den * k) = halfEven num den := by
  have hless (a b : Nat) : 2 * (a * k) < b * k ↔ 2 * a < b := by
    rw [← Nat.mul_assoc]
    exact Nat.mul_lt_mul_right hk
  have hmore (a b : Nat) : b * k < 2 * (a * k) ↔ b < 2 * a := by
    rw [← Nat.mul_assoc]
    exact Nat.mul_lt_mul_right hk
  simp only [halfEven, Nat.mul_div_mul_right _ _ hk, Nat.mul_mod_mul_right, hless, hmore]

/-- Rounding depends on the quotient only. -/
theorem halfEven_congr {num' den' : Nat} (hden : 0 < den) (hden' : 0 < den')
    (h : num * den' = num' * den) : halfEven num den = halfEven num' den' := by
  rw [← halfEven_mul hden', h, Nat.mul_comm den den', halfEven_mul hden]

theorem le_halfEven (hden : 0 < den) (h : n * den ≤ num) : n ≤ halfEven num den := by
  have hdiv : n ≤ num / den := (Nat.le_div_iff_mul_le hden).mpr h
  simp only [halfEven]
  split
  · exact hdiv
  · split
    · omega
    · omega

theorem halfEven_le (hden : 0 < den) (h : 2 * num < (2 * n + 1) * den) :
    halfEven num den ≤ n := by
  have hsplit := Nat.div_add_mod num den
  have hmod := Nat.mod_lt num hden
  have hdiv : num / den ≤ n := by
    by_contra hlt
    have hle : (n + 1) * den ≤ num := (Nat.le_div_iff_mul_le hden).mp (Nat.lt_of_not_le hlt)
    nlinarith
  -- The quotient is rounded up only if it is less than `n`.
  have hup : den ≤ 2 * (num % den) → num / den < n := by
    intro hhalf
    by_contra hge
    have heq : num / den = n := by omega
    rw [heq] at hsplit
    nlinarith
  simp only [halfEven]
  split
  · exact hdiv
  · split
    · have := hup (by omega)
      omega
    · have := hup (by omega)
      omega

/-- From the middle on, the number above an odd one is nearer, or even. -/
theorem succ_le_halfEven (hden : 0 < den) (hodd : n % 2 = 1) (h : (2 * n + 1) * den ≤ 2 * num) :
    n + 1 ≤ halfEven num den := by
  by_cases hle : (n + 1) * den ≤ num
  · exact le_halfEven hden hle
  · have hdiv : num / den = n := by
      apply Nat.div_eq_of_lt_le
      · nlinarith
      · exact Nat.lt_of_not_le hle
    have hsplit := Nat.div_add_mod num den
    rw [hdiv] at hsplit
    have hhalf : den ≤ 2 * (num % den) := by nlinarith
    simp only [halfEven, hdiv]
    split
    · omega
    · split
      · omega
      · omega

theorem halfEven_exact (hden : 0 < den) : halfEven (n * den) den = n := by
  apply Nat.le_antisymm
  · apply halfEven_le hden
    nlinarith
  · exact le_halfEven hden le_rfl

end HalfEven

/-! ## The power of two of a mantissa -/

/-- The power of two that the mantissa of the double nearest to `v` is counted in: the mantissa has
fifty-three bits, or fewer at the least power. -/
structure CountsIn (v : ℚ) (q : Int) : Prop where
  least : -1074 ≤ q
  upper : v < 2 ^ 53 * 2 ^ q
  lower : q = -1074 ∨ 2 ^ 52 * 2 ^ q ≤ v

theorem CountsIn.mono {v w : ℚ} {q r : Int} (hq : CountsIn v q) (hr : CountsIn w r)
    (h : v ≤ w) : q ≤ r := by
  by_contra hlt
  have hlower := hq.lower.resolve_left (by have := hr.least; omega)
  have hstep : (2 : ℚ) ^ (r + 1) ≤ 2 ^ q := zpow_le_zpow_right₀ (by norm_num) (by omega)
  rw [zpow_add_one₀ (by norm_num)] at hstep
  have hupper := hr.upper
  linarith

theorem CountsIn.unique {v : ℚ} {q r : Int} (hq : CountsIn v q) (hr : CountsIn v r) : q = r :=
  le_antisymm (hq.mono hr le_rfl) (hr.mono hq le_rfl)

theorem scale_eq (num den : Nat) (q : Int) :
    ((num * 2 ^ (-q).toNat : Nat) : ℚ) / ((den * 2 ^ q.toNat : Nat) : ℚ) =
      (num : ℚ) / den / 2 ^ q := by
  push_cast
  rcases le_total 0 q with hq | hq
  · obtain ⟨n, rfl⟩ := Int.eq_ofNat_of_zero_le hq
    simp [div_div]
  · obtain ⟨n, hn⟩ := Int.eq_ofNat_of_zero_le (Int.neg_nonneg.mpr hq)
    obtain rfl : q = -(n : Int) := by omega
    simp
    ring

/-- The value of a magnitude. -/
theorem Binary.num_div_den (b : Binary) : (b.num : ℚ) / b.den = b.mantissa * 2 ^ b.exponent := by
  have hscale := scale_eq b.mantissa 1 (-b.exponent)
  rw [neg_neg, Nat.one_mul, zpow_neg, div_inv_eq_mul, Nat.cast_one, div_one] at hscale
  exact hscale

theorem scale_le_iff {num den k : Nat} (hden : 0 < den) (q : Int) :
    k * (den * 2 ^ q.toNat) ≤ num * 2 ^ (-q).toNat ↔ (k : ℚ) * 2 ^ q ≤ (num : ℚ) / den := by
  have hpos : (0 : ℚ) < ((den * 2 ^ q.toNat : Nat) : ℚ) := by positivity
  have hq : (0 : ℚ) < 2 ^ q := zpow_pos (by norm_num) q
  rw [← Nat.cast_le (α := ℚ), Nat.cast_mul, ← le_div_iff₀ hpos, scale_eq, le_div_iff₀ hq]

/-- The guess from the lengths of both numbers is right or one too large. -/
theorem quotient_bounds {num den : Nat} (hnum : 0 < num) (hden : 0 < den) {guess : Int}
    (hguess : guess = (num.log2 : Int) - den.log2 - 52) :
    2 ^ 51 * 2 ^ guess ≤ (num : ℚ) / den ∧ (num : ℚ) / den < 2 ^ 53 * 2 ^ guess := by
  have hden' : (0 : ℚ) < den := by exact_mod_cast hden
  have hnumlow : (2 : ℚ) ^ num.log2 ≤ num := by exact_mod_cast Nat.log2_self_le hnum.ne'
  have hnumhigh : (num : ℚ) < 2 ^ (num.log2 + 1) := by exact_mod_cast Nat.lt_log2_self
  have hdenlow : (2 : ℚ) ^ den.log2 ≤ den := by exact_mod_cast Nat.log2_self_le hden.ne'
  have hdenhigh : (den : ℚ) < 2 ^ (den.log2 + 1) := by exact_mod_cast Nat.lt_log2_self
  have hscale : (2 : ℚ) ^ 52 * 2 ^ guess * 2 ^ den.log2 = 2 ^ num.log2 := by
    rw [← zpow_natCast, ← zpow_natCast, ← zpow_natCast, ← zpow_add₀ (by norm_num),
      ← zpow_add₀ (by norm_num)]
    congr 1
    push_cast
    omega
  have hpow : (0 : ℚ) < 2 ^ guess := zpow_pos (by norm_num) guess
  constructor
  · rw [le_div_iff₀ hden']
    calc (2 : ℚ) ^ 51 * 2 ^ guess * den ≤ 2 ^ 51 * 2 ^ guess * 2 ^ (den.log2 + 1) := by
          gcongr
      _ = 2 ^ num.log2 := by rw [pow_succ, ← hscale]; ring
      _ ≤ num := hnumlow
  · rw [div_lt_iff₀ hden']
    calc (num : ℚ) < 2 ^ (num.log2 + 1) := hnumhigh
      _ = 2 ^ 53 * 2 ^ guess * 2 ^ den.log2 := by rw [pow_succ, ← hscale]; ring
      _ ≤ 2 ^ 53 * 2 ^ guess * den := by gcongr

/-- A mantissa of fifty-three bits has fewer if its power lies below the least one. -/
theorem countsIn_max {v : ℚ} {q : Int} (hlower : 2 ^ 52 * 2 ^ q ≤ v)
    (hupper : v < 2 ^ 53 * 2 ^ q) : CountsIn v (max q (-1074)) := by
  rcases le_total (-1074) q with hleast | hleast
  · rw [max_eq_left hleast]
    exact ⟨hleast, hupper, .inr hlower⟩
  · rw [max_eq_right hleast]
    have hmono : (2 : ℚ) ^ q ≤ 2 ^ (-1074 : Int) := zpow_le_zpow_right₀ (by norm_num) hleast
    exact ⟨le_rfl, by linarith, .inl rfl⟩

theorem countsIn_mantissaExponent {num den : Nat} (hnum : 0 < num) (hden : 0 < den) :
    CountsIn ((num : ℚ) / den) (mantissaExponent num den) := by
  set guess : Int := (num.log2 : Int) - den.log2 - 52 with hguess
  obtain ⟨hlower, hupper⟩ := quotient_bounds hnum hden hguess
  have hdown : (2 : ℚ) ^ guess = 2 * 2 ^ (guess - 1) := by
    rw [zpow_sub_one₀ (by norm_num)]
    ring
  have hfits : 2 ^ 52 * (den * 2 ^ guess.toNat) ≤ num * 2 ^ (-guess).toNat ↔
      (2 : ℚ) ^ 52 * 2 ^ guess ≤ (num : ℚ) / den := by
    have hiff := @scale_le_iff num den (2 ^ 52) hden guess
    push_cast at hiff
    exact hiff
  have hexponent : mantissaExponent num den =
      max (if (2 : ℚ) ^ 52 * 2 ^ guess ≤ (num : ℚ) / den then guess else guess - 1) (-1074) := by
    rw [← if_congr hfits rfl rfl]
    rfl
  rw [hexponent]
  split
  next hle => exact countsIn_max hle hupper
  next hlt => exact countsIn_max (by linarith) (by linarith)

/-! ## The bits of the nearest double -/

section NearestBits

variable {num den : Nat}

theorem nearestBits_eq (hnum : 0 < num) (hden : 0 < den) {q : Int}
    (hq : CountsIn ((num : ℚ) / den) q) :
    nearestBits num den = min ((q + 1074).toNat * 2 ^ 52 +
      halfEven (num * 2 ^ (-q).toNat) (den * 2 ^ q.toNat)) infinityBits := by
  obtain rfl := (countsIn_mantissaExponent hnum hden).unique hq
  simp only [nearestBits, if_neg hnum.ne']
  rfl

/-- The nearest double depends on the quotient only. -/
theorem nearestBits_congr {num' den' : Nat} (hden : 0 < den) (hden' : 0 < den')
    (h : num * den' = num' * den) : nearestBits num den = nearestBits num' den' := by
  by_cases hzero : num = 0
  · have hzero' : num' = 0 := by
      rw [hzero, Nat.zero_mul] at h
      exact (Nat.mul_eq_zero.mp h.symm).resolve_right hden.ne'
    simp [nearestBits, hzero, hzero']
  · have hnum := Nat.pos_of_ne_zero hzero
    have hnum' : 0 < num' := by
      rw [Nat.pos_iff_ne_zero]
      rintro rfl
      rw [Nat.zero_mul] at h
      exact hzero ((Nat.mul_eq_zero.mp h).resolve_right hden'.ne')
    have hvalue : (num : ℚ) / den = (num' : ℚ) / den' := by
      rw [div_eq_div_iff (by positivity) (by positivity)]
      exact_mod_cast h
    have hq := countsIn_mantissaExponent hnum hden
    have hq' := hvalue ▸ hq
    rw [nearestBits_eq hnum hden hq, nearestBits_eq hnum' hden' hq']
    congr 2
    apply halfEven_congr (by positivity) (by positivity)
    calc _ = num * den' * (2 ^ (-mantissaExponent num den).toNat *
            2 ^ (mantissaExponent num den).toNat) := by ring
      _ = num' * den * (2 ^ (-mantissaExponent num den).toNat *
            2 ^ (mantissaExponent num den).toNat) := by rw [h]
      _ = _ := by ring

theorem nearestBits_le : nearestBits num den ≤ infinityBits := by
  unfold nearestBits
  split
  · exact Nat.zero_le _
  · exact Nat.min_le_right _ _

theorem CountsIn.mantissa_le (hden : 0 < den) {q : Int} (hq : CountsIn ((num : ℚ) / den) q) :
    halfEven (num * 2 ^ (-q).toNat) (den * 2 ^ q.toNat) ≤ 2 ^ 53 := by
  have hupper := hq.upper
  have hiff := @scale_le_iff num den (2 ^ 53) hden q
  push_cast at hiff
  have hlt := Nat.lt_of_not_le (mt hiff.mp (not_le.mpr hupper))
  have hpos : 0 < den * 2 ^ q.toNat := by positivity
  apply halfEven_le hpos
  nlinarith

theorem CountsIn.le_mantissa (hden : 0 < den) {q : Int} (hq : CountsIn ((num : ℚ) / den) q)
    (hne : q ≠ -1074) : 2 ^ 52 ≤ halfEven (num * 2 ^ (-q).toNat) (den * 2 ^ q.toNat) := by
  have hlower := hq.lower.resolve_left hne
  have hiff := @scale_le_iff num den (2 ^ 52) hden q
  push_cast at hiff
  exact le_halfEven (by positivity) (hiff.mpr hlower)

/-- Beyond the doubles lies infinity. -/
theorem nearestBits_of_le (hden : 0 < den) (h : 2 ^ 1024 * den ≤ num) :
    nearestBits num den = infinityBits := by
  have hnum : 0 < num := lt_of_lt_of_le (by positivity) h
  have hq := countsIn_mantissaExponent hnum hden
  generalize mantissaExponent num den = q at hq
  have hvalue : (2 : ℚ) ^ (1024 : Int) ≤ (num : ℚ) / den := by
    rw [le_div_iff₀ (by positivity)]
    exact_mod_cast h
  have hlarge : 971 < q := by
    have hlt : (2 : ℚ) ^ (1024 : Int) < 2 ^ (53 + q) := by
      rw [zpow_add₀ (by norm_num)]
      exact lt_of_le_of_lt hvalue hq.upper
    have := (zpow_lt_zpow_iff_right₀ (by norm_num : (1 : ℚ) < 2)).mp hlt
    omega
  have hmantissa := hq.le_mantissa hden (by omega)
  rw [nearestBits_eq hnum hden hq]
  apply min_eq_right
  rw [infinityBits_eq]
  have hfield : 2046 ≤ (q + 1074).toNat := by omega
  calc 2047 * 2 ^ 52 = 2046 * 2 ^ 52 + 2 ^ 52 := by norm_num
    _ ≤ _ := Nat.add_le_add (Nat.mul_le_mul_right _ hfield) hmantissa

/-- What is less than half of the least double is nearest to zero. -/
theorem nearestBits_of_lt (hden : 0 < den) (h : 2 * (num * 2 ^ 1074) < den) :
    nearestBits num den = 0 := by
  by_cases hzero : num = 0
  · simp [nearestBits, hzero]
  · have hnum := Nat.pos_of_ne_zero hzero
    have hq := countsIn_mantissaExponent hnum hden
    generalize mantissaExponent num den = q at hq
    have hvalue : 2 * ((num : ℚ) / den) < 2 ^ (-1074 : Int) := by
      rw [zpow_neg, ← one_div, ← mul_div_assoc,
        div_lt_div_iff₀ (by positivity) (zpow_pos (by norm_num) _), one_mul, mul_assoc]
      exact_mod_cast h
    have hleast : q = -1074 := by
      by_contra hne
      have hlower := hq.lower.resolve_left hne
      have hlt : (2 : ℚ) ^ (53 + q) < 2 ^ (-1074 : Int) := by
        rw [zpow_add₀ (by norm_num)]
        refine lt_of_le_of_lt ?_ hvalue
        calc (2 : ℚ) ^ (53 : Int) * 2 ^ q = 2 * (2 ^ 52 * 2 ^ q) := by norm_num; ring
          _ ≤ _ := by gcongr
      have := (zpow_lt_zpow_iff_right₀ (by norm_num : (1 : ℚ) < 2)).mp hlt
      have := hq.least
      omega
    subst hleast
    have hround : halfEven (num * 2 ^ (-(-1074 : Int)).toNat) (den * 2 ^ (-1074 : Int).toNat) ≤ 0 := by
      apply halfEven_le (by positivity)
      have hscale : (-(-1074 : Int)).toNat = 1074 := rfl
      have hone : (-1074 : Int).toNat = 0 := rfl
      rw [hscale, hone]
      calc 2 * (num * 2 ^ 1074) < den := h
        _ = _ := by ring
    rw [nearestBits_eq hnum hden hq, Nat.le_zero.mp hround]
    rfl

/-- Up to the middle between the largest double and the next power of two the nearest double is
finite. -/
theorem nearestBits_lt (hden : 0 < den) (h : num < (2 ^ 54 - 1) * twoTo 970 * den) :
    nearestBits num den < infinityBits := by
  rw [twoTo_eq] at h
  by_cases hzero : num = 0
  · rw [nearestBits, if_pos hzero, infinityBits_eq]
    norm_num
  · have hnum := Nat.pos_of_ne_zero hzero
    have hq := countsIn_mantissaExponent hnum hden
    generalize mantissaExponent num den = q at hq
    have hvalue : (num : ℚ) / den < 2 ^ (1024 : Int) := by
      rw [div_lt_iff₀ (by positivity)]
      have hlt : num < 2 ^ 1024 * den := by
        refine h.trans_le (Nat.mul_le_mul_right den ?_)
        calc (2 ^ 54 - 1) * 2 ^ 970 ≤ 2 ^ 54 * 2 ^ 970 := Nat.mul_le_mul_right _ (by norm_num)
          _ = 2 ^ 1024 := by rw [← pow_add]
      exact_mod_cast hlt
    have hlarge : q ≤ 971 := by
      rcases hq.lower with hleast | hlower
      · omega
      · have hlt : (2 : ℚ) ^ (52 + q) < 2 ^ (1024 : Int) := by
          rw [zpow_add₀ (by norm_num)]
          exact lt_of_le_of_lt hlower hvalue
        have := (zpow_lt_zpow_iff_right₀ (by norm_num : (1 : ℚ) < 2)).mp hlt
        omega
    have hmantissa := hq.mantissa_le hden
    rw [nearestBits_eq hnum hden hq]
    apply min_lt_of_left_lt
    rw [infinityBits_eq]
    by_cases htop : q = 971
    · subst htop
      have hround : halfEven (num * 2 ^ (-(971 : Int)).toNat) (den * 2 ^ (971 : Int).toNat) ≤
          2 ^ 53 - 1 := by
        apply halfEven_le (by positivity)
        have hscale : (971 : Int).toNat = 971 := rfl
        have hone : (-(971 : Int)).toNat = 0 := rfl
        rw [hscale, hone, pow_zero, Nat.mul_one, pow_succ 2 970]
        generalize 2 ^ 970 = p at h ⊢
        calc 2 * num < 2 * ((2 ^ 54 - 1) * p * den) := by omega
          _ = (2 ^ 54 - 1) * (den * (p * 2)) := by ring
          _ = _ := by norm_num
      have hfield : ((971 : Int) + 1074).toNat = 2045 := rfl
      rw [hfield]
      omega
    · have hfield : (q + 1074).toNat ≤ 2044 := by omega
      omega

/-- From that middle on the nearest double is infinite. -/
theorem nearestBits_of_half_le (hden : 0 < den) (h : (2 ^ 54 - 1) * twoTo 970 * den ≤ num) :
    nearestBits num den = infinityBits := by
  rw [twoTo_eq] at h
  by_cases hbeyond : 2 ^ 1024 * den ≤ num
  · exact nearestBits_of_le hden hbeyond
  · have hnum : 0 < num := lt_of_lt_of_le (by positivity) h
    have hq : CountsIn ((num : ℚ) / den) 971 := by
      have htop : (1024 : Int) = 53 + 971 := rfl
      have hhalf : (1023 : Int) = 52 + 971 := rfl
      have hupper : (num : ℚ) / den < 2 ^ (1024 : Int) := by
        have hlt : num < 2 ^ 1024 * den := Nat.lt_of_not_le hbeyond
        rw [div_lt_iff₀ (by positivity)]
        exact_mod_cast hlt
      have hlower : (2 : ℚ) ^ (1023 : Int) ≤ num / den := by
        have hle : 2 ^ 1023 * den ≤ num := by
          refine (Nat.mul_le_mul_right den ?_).trans h
          calc 2 ^ 1023 = 2 ^ 53 * 2 ^ 970 := pow_add 2 53 970
            _ ≤ (2 ^ 54 - 1) * 2 ^ 970 := Nat.mul_le_mul_right _ (by norm_num)
        rw [le_div_iff₀ (by positivity)]
        exact_mod_cast hle
      rw [htop, zpow_add₀ (by norm_num)] at hupper
      rw [hhalf, zpow_add₀ (by norm_num)] at hlower
      exact ⟨by norm_num, hupper, .inr hlower⟩
    rw [nearestBits_eq hnum hden hq]
    apply min_eq_right
    have hround : 2 ^ 53 - 1 + 1 ≤
        halfEven (num * 2 ^ (-(971 : Int)).toNat) (den * 2 ^ (971 : Int).toNat) := by
      apply succ_le_halfEven (by positivity) (by norm_num)
      have hscale : (971 : Int).toNat = 971 := rfl
      have hone : (-(971 : Int)).toNat = 0 := rfl
      rw [hscale, hone, pow_zero, Nat.mul_one, pow_succ 2 970]
      generalize 2 ^ 970 = p at h ⊢
      calc (2 * (2 ^ 53 - 1) + 1) * (den * (p * 2)) = 2 * ((2 ^ 54 - 1) * p * den) := by
            norm_num
            ring
        _ ≤ 2 * num := Nat.mul_le_mul_left 2 h
    have hfield : ((971 : Int) + 1074).toNat = 2045 := rfl
    rw [infinityBits_eq, hfield]
    omega

theorem Binary.Canonical.countsIn {b : Binary} (hb : b.Canonical) :
    CountsIn ((b.num : ℚ) / b.den) b.exponent := by
  have hpow : (0 : ℚ) < 2 ^ b.exponent := zpow_pos (by norm_num) _
  rw [b.num_div_den]
  refine ⟨hb.least, ?_, hb.large.imp_right fun hle => ?_⟩
  · have hcast : (b.mantissa : ℚ) < 2 ^ 53 := by exact_mod_cast hb.small
    gcongr
  · have hcast : (2 : ℚ) ^ 52 ≤ b.mantissa := by exact_mod_cast hle
    gcongr

/-- A finite double is nearest to its own magnitude. -/
theorem nearestBits_magnitude {x : Float} (hx : x.isFinite = true) :
    nearestBits (magnitude x).num (magnitude x).den = unsignedBits x := by
  have hlt := (isFinite_iff x).mp hx
  have hbits := bits_magnitude x
  have hcanonical := canonical_magnitude x
  generalize magnitude x = b at *
  have hden : 0 < b.den := Nat.two_pow_pos _
  by_cases hzero : b.mantissa = 0
  · have hleast := hcanonical.large.resolve_right (by omega)
    have hnum : b.num = 0 := by rw [Binary.num, hzero, Nat.zero_mul]
    rw [← hbits, hzero, hleast, hnum]
    rfl
  · have hnum : 0 < b.num := Nat.mul_pos (Nat.pos_of_ne_zero hzero) (Nat.two_pow_pos _)
    have hround : halfEven (b.num * 2 ^ (-b.exponent).toNat) (b.den * 2 ^ b.exponent.toNat) =
        b.mantissa := by
      have hscale : b.num * 2 ^ (-b.exponent).toNat =
          b.mantissa * (b.den * 2 ^ b.exponent.toNat) := by
        simp only [Binary.num, Binary.den, twoTo_eq]
        ring
      rw [hscale, halfEven_exact (by positivity)]
    rw [nearestBits_eq hnum hden hcanonical.countsIn, hround, hbits]
    exact min_eq_left hlt.le

end NearestBits

/-! ## The nearest double -/

section NearestDouble

variable {negative : Bool} {num den : Nat}

theorem nearest_parts : signBit (nearest negative num den) = negative ∧
    unsignedBits (nearest negative num den) = nearestBits num den :=
  signBit_ofBits nearestBits_le

theorem isFinite_nearest :
    (nearest negative num den).isFinite = true ↔ nearestBits num den < infinityBits := by
  rw [isFinite_iff, nearest_parts.2]

/-- Integers up to the largest double and somewhat beyond have a nearest double. -/
theorem isFinite_ofInt {n : Int} (h : n.natAbs < (2 ^ 54 - 1) * twoTo 970) :
    (ofInt n).isFinite = true := by
  rw [ofInt, isFinite_nearest]
  apply nearestBits_lt Nat.one_pos
  rwa [Nat.mul_one]

theorem ofInt?_eq {n : Int} (h : n.natAbs < (2 ^ 54 - 1) * twoTo 970) :
    ofInt? n = some (ofInt n) :=
  if_pos (isFinite_ofInt h)

/-- Integers from the middle between the largest double and the next power of two on have none. -/
theorem ofInt?_eq_none_iff {n : Int} :
    ofInt? n = none ↔ (2 ^ 54 - 1) * 2 ^ 970 ≤ n.natAbs := by
  rw [← twoTo_eq 970]
  constructor
  · intro hnone
    by_contra hlt
    rw [ofInt?_eq (Nat.lt_of_not_le hlt)] at hnone
    cases hnone
  · intro hle
    have hbits : nearestBits n.natAbs 1 = infinityBits := by
      apply nearestBits_of_half_le Nat.one_pos
      rwa [Nat.mul_one]
    apply if_neg
    rw [isFinite_nearest, hbits]
    exact lt_irrefl _

end NearestDouble

/-! ## Integers in doubles -/

/-- The largest finite double, which is an integer. -/
def largest : Nat :=
  (2 ^ 53 - 1) * twoTo 971

theorem largest_add_one_lt : largest + 1 < (2 ^ 54 - 1) * twoTo 970 := by
  have hpos : 0 < twoTo 969 := twoTo_pos 969
  rw [largest, twoTo_succ 970, twoTo_succ 969]
  generalize twoTo 969 = p at hpos ⊢
  omega

theorem magnitude_den_pos (x : Float) : 0 < (magnitude x).den :=
  Nat.two_pow_pos _

theorem num_le {x : Float} (hx : x.isFinite = true) : (magnitude x).num ≤ largest := by
  obtain ⟨hmantissa, -, hexponent⟩ := magnitude_lt hx
  rw [Binary.num, largest]
  exact Nat.mul_le_mul (Nat.le_sub_one_of_lt hmantissa) (twoTo_le (by omega))

theorem wholePart_le {x : Float} (hx : x.isFinite = true) : wholePart x ≤ largest :=
  (Nat.div_le_self _ _).trans (num_le hx)

theorem natAbs_floorInt_le (x : Float) : (floorInt x).natAbs ≤ wholePart x + 1 := by
  have hden := magnitude_den_pos x
  rw [floorInt, signedNum, wholePart]
  generalize (magnitude x).den = den at *
  generalize (magnitude x).num = num at *
  split
  · have hneg : -((num / den : Nat) : Int) - 1 ≤ -(num : Int) / den := by
      rw [Int.le_ediv_iff_mul_le (by omega)]
      have hmod := Nat.div_add_mod num den
      have hlt := Nat.mod_lt num hden
      push_cast
      nlinarith
    have hnonpos : -(num : Int) / den ≤ 0 := by
      apply Int.ediv_le_of_le_mul (by omega)
      omega
    omega
  · rw [← Int.natCast_ediv, Int.natAbs_natCast]
    exact Nat.le_succ _

theorem isFinite_ofInt_floorInt {x : Float} (hx : x.isFinite = true) :
    (ofInt (floorInt x)).isFinite = true := by
  apply isFinite_ofInt
  calc (floorInt x).natAbs ≤ wholePart x + 1 := natAbs_floorInt_le x
    _ ≤ largest + 1 := Nat.add_le_add_right (wholePart_le hx) 1
    _ < _ := largest_add_one_lt

end DeskCalc.Number
