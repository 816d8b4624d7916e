import DeskCalc.Proofs.Number.Shown
import Mathlib.Data.Int.Log

/-!
# Significant digits

A finite double that is not zero is written with as many significant digits as are asked for, and
what is written is its exact value rounded to that many digits, a half away from zero.  Rounding may
carry into the next power of ten; the power that decides between the notations is the one after
that.
-/

namespace DeskCalc.Number

open Expression (Digits Spelling)

/-! ## Rounding to powers of ten -/

/-- A number that is not negative, rounded to a multiple of a power of ten, a half upwards. -/
def roundedTo (power : ℤ) (v : ℚ) : ℚ :=
  ⌊v / 10 ^ power + 1 / 2⌋₊ * 10 ^ power

/-- A number that is not negative, rounded to so many significant digits, a half upwards. -/
def toSignificant (count : ℕ) (v : ℚ) : ℚ :=
  roundedTo (Int.log 10 v - (count - 1)) v

section Log

variable {v : ℚ}

theorem log_eq {e : ℤ} (hlow : 10 ^ e ≤ v) (hhigh : v < 10 ^ (e + 1)) : Int.log 10 v = e := by
  have hv : 0 < v := lt_of_lt_of_le (by positivity) hlow
  have hten : 1 < 10 := by norm_num
  apply le_antisymm
  · have hlt := (Int.lt_zpow_iff_log_lt hten hv).mp (by exact_mod_cast hhigh)
    omega
  · exact (Int.zpow_le_iff_le_log hten hv).mp (by exact_mod_cast hlow)

theorem log_bounds (hv : 0 < v) : 10 ^ Int.log 10 v ≤ v ∧ v < 10 ^ (Int.log 10 v + 1) := by
  have hten : 1 < 10 := by norm_num
  exact ⟨by exact_mod_cast Int.zpow_log_le_self hten hv,
    by exact_mod_cast Int.lt_zpow_succ_log_self hten v⟩

end Log

/-! ## The power of the first digit -/

section LeadingPower

variable {num den : ℕ}

theorem natText_bounds {n : ℕ} (hn : n ≠ 0) :
    10 ^ ((natText n).length - 1) ≤ n ∧ n < 10 ^ (natText n).length := by
  refine ⟨?_, ?_⟩
  · obtain ⟨d, ds, hdigits, hzero⟩ := digitsIn_head (by norm_num : 2 ≤ 10) n
    have hd : d ≠ 0 := fun hd => hn (hzero hd).1
    rw [natText_eq, List.length_map, hdigits, List.length_cons, Nat.add_sub_cancel]
    calc 10 ^ ds.length ≤ ofDigits 10 (d :: ds) := pow_le_ofDigits hd ds
      _ = n := by rw [← hdigits, ofDigits_digitsIn (by norm_num)]
  · calc n = Text.digitsValue (natText n) := (digitsValue_natText n).symm
      _ < _ := digitsValue_lt _

theorem length_natText {n k : ℕ} (hlow : 10 ^ k ≤ n) (hhigh : n < 10 ^ (k + 1)) :
    (natText n).length = k + 1 := by
  obtain ⟨hlow', hhigh'⟩ := natText_bounds (Nat.ne_of_gt (lt_of_lt_of_le (by positivity) hlow))
  have hless := (Nat.pow_lt_pow_iff_right (by norm_num : 1 < 10)).mp (hlow'.trans_lt hhigh)
  have hmore := (Nat.pow_lt_pow_iff_right (by norm_num : 1 < 10)).mp (hlow.trans_lt hhigh')
  omega

/-- The steps that are made until the denominator is reached, if there is fuel enough. -/
theorem tensToReach_spec {fuel : ℕ} (hfuel : den ≤ num * 10 ^ fuel) :
    den ≤ num * 10 ^ tensToReach fuel num den ∧
      ∀ k < tensToReach fuel num den, num * 10 ^ k < den := by
  induction fuel generalizing num with
  | zero => exact ⟨hfuel, nofun⟩
  | succ fuel ih =>
    rw [tensToReach]
    split
    next hle => exact ⟨by rwa [pow_zero, Nat.mul_one], nofun⟩
    next hlt =>
      have hstep (k : ℕ) : num * 10 ^ (k + 1) = 10 * num * 10 ^ k := by ring
      obtain ⟨hreach, hbefore⟩ := ih (by rwa [← hstep])
      refine ⟨by rwa [hstep], fun k hk => ?_⟩
      cases k with
      | zero => rw [pow_zero, Nat.mul_one]; exact Nat.lt_of_not_le hlt
      | succ k => rw [hstep]; exact hbefore k (by omega)

theorem leadingPower_of_le (hden : 0 < den) (hle : den ≤ num) :
    leadingPower num den = Int.log 10 ((num : ℚ) / den) := by
  have hpos : (0 : ℚ) < den := by exact_mod_cast hden
  have hquotient : num / den ≠ 0 := (Nat.div_pos hle hden).ne'
  obtain ⟨hlow, hhigh⟩ := natText_bounds hquotient
  have hlength : (digitsIn 10 (num / den)).length = (natText (num / den)).length :=
    (List.length_map _).symm
  have hone := List.length_pos_iff.mpr (natText_ne_nil (num / den))
  obtain ⟨k, hk⟩ : ∃ k, (natText (num / den)).length = k + 1 :=
    ⟨_, (Nat.sub_add_cancel hone).symm⟩
  rw [hk, Nat.add_sub_cancel, Nat.le_div_iff_mul_le hden] at hlow
  rw [hk, Nat.div_lt_iff_lt_mul hden] at hhigh
  rw [leadingPower, if_pos hle, hlength, hk, Nat.cast_succ, add_sub_cancel_right]
  symm
  apply log_eq
  · rw [zpow_natCast, le_div_iff₀ hpos]
    exact_mod_cast hlow
  · rw [← Nat.cast_succ, zpow_natCast, div_lt_iff₀ hpos]
    exact_mod_cast hhigh

theorem leadingPower_of_lt (hnum : 0 < num) (hlt : num < den) :
    leadingPower num den = Int.log 10 ((num : ℚ) / den) := by
  have hpos : (0 : ℚ) < den := by exact_mod_cast hnum.trans hlt
  have hfuel : den ≤ num * 10 ^ (den.log2 + 1) := by
    calc den ≤ 2 ^ (den.log2 + 1) := Nat.lt_log2_self.le
      _ ≤ 10 ^ (den.log2 + 1) := Nat.pow_le_pow_left (by norm_num) _
      _ ≤ num * 10 ^ (den.log2 + 1) := Nat.le_mul_of_pos_left _ hnum
  obtain ⟨hreach, hbefore⟩ := tensToReach_spec hfuel
  rw [leadingPower, if_neg hlt.not_ge]
  generalize tensToReach (den.log2 + 1) num den = t at hreach hbefore
  obtain ⟨k, rfl⟩ : ∃ k, t = k + 1 := by
    refine ⟨t - 1, (Nat.sub_add_cancel (Nat.pos_of_ne_zero ?_)).symm⟩
    rintro rfl
    rw [pow_zero, Nat.mul_one] at hreach
    exact hlt.not_ge hreach
  have hlast := hbefore k (Nat.lt_succ_self k)
  symm
  apply log_eq
  · rw [zpow_neg, zpow_natCast, inv_le_iff_one_le_mul₀ (by positivity), div_mul_eq_mul_div,
      le_div_iff₀ hpos, one_mul]
    exact_mod_cast hreach
  · have hexponent : -((k + 1 : ℕ) : ℤ) + 1 = -k := by push_cast; ring
    rw [hexponent, zpow_neg, zpow_natCast, ← one_div, div_lt_div_iff₀ hpos (by positivity),
      one_mul]
    exact_mod_cast hlast

theorem leadingPower_eq (hnum : 0 < num) (hden : 0 < den) :
    leadingPower num den = Int.log 10 ((num : ℚ) / den) := by
  rcases le_or_gt den num with hle | hlt
  · exact leadingPower_of_le hden hle
  · exact leadingPower_of_lt hnum hlt

end LeadingPower

/-! ## The digits -/

section SignificantDigits

variable {num den count : ℕ}

/-- Digits at a power of ten are taken from the number in units of that power. -/
theorem halfUp_scaled (num : ℕ) (hden : 0 < den) (s : ℤ) :
    halfUp (num * tenTo s.toNat) (den * tenTo (-s).toNat) =
      ⌊(num : ℚ) / den / 10 ^ (-s) + 1 / 2⌋₊ := by
  have hten : (10 : ℚ) ≠ 0 := by norm_num
  have hpos : 0 < den * tenTo (-s).toNat := Nat.mul_pos hden (Nat.pow_pos (by norm_num))
  have hscale : (10 : ℚ) ^ (-s) = 10 ^ (-s).toNat / 10 ^ s.toNat := by
    rw [← zpow_natCast, ← zpow_natCast, ← zpow_sub₀ hten]
    congr 1
    omega
  rw [halfUp_eq hpos, hscale, tenTo_eq, tenTo_eq]
  push_cast
  field_simp

/-- In units of the last digit, a number is less than the next power of ten, but it may be rounded
to that; then it is rounded to a power of ten from the next digit on as well. -/
theorem floor_carry {w : ℚ} {k : ℕ} (hlow : 10 ^ k ≤ w) (hhigh : w < 10 ^ (k + 1)) :
    10 ^ k ≤ ⌊w + 1 / 2⌋₊ ∧ (⌊w + 1 / 2⌋₊ < 10 ^ (k + 1) ∨
      ⌊w + 1 / 2⌋₊ = 10 ^ (k + 1) ∧ ⌊w / 10 + 1 / 2⌋₊ = 10 ^ k) := by
  have hnonneg : 0 ≤ w := le_trans (by positivity) hlow
  refine ⟨Nat.le_floor ?_, ?_⟩
  · push_cast
    linarith
  · rw [or_iff_not_imp_left, not_lt]
    intro hcarry
    have hcarry' := (Nat.le_floor_iff (by linarith)).mp hcarry
    rw [Nat.floor_eq_iff (by linarith), Nat.floor_eq_iff (by linarith)]
    push_cast at hcarry' ⊢
    rw [pow_succ] at hhigh hcarry' ⊢
    refine ⟨⟨?_, ?_⟩, ?_, ?_⟩ <;> linarith

/-- As many digits as are asked for, at the power of ten of the rounded number. -/
theorem significantDigits_eq (hnum : 0 < num) (hden : 0 < den) (hcount : 0 < count) :
    ∃ k power, significantDigits num den count = (k, power) ∧ 10 ^ (count - 1) ≤ k ∧
      k < 10 ^ count ∧ k * (10 : ℚ) ^ (power - (count - 1)) = toSignificant count (num / den) := by
  obtain ⟨d, rfl⟩ : ∃ d, count = d + 1 := ⟨count - 1, (Nat.sub_add_cancel hcount).symm⟩
  have hten : (10 : ℚ) ≠ 0 := by norm_num
  obtain ⟨v, hv⟩ : ∃ v : ℚ, v = num / den := ⟨_, rfl⟩
  obtain ⟨hlow, hhigh⟩ := log_bounds (v := v) (by rw [hv]; positivity)
  obtain ⟨e, he⟩ : ∃ e, e = Int.log 10 v := ⟨_, rfl⟩
  rw [← he] at hlow hhigh
  have hlast : ((d + 1 : ℕ) : ℤ) - 1 = d := by push_cast; ring
  have hround (power : ℤ) : halfUp (num * tenTo (d - power).toNat)
      (den * tenTo (-(d - power)).toNat) = ⌊v / 10 ^ (power - d) + 1 / 2⌋₊ := by
    rw [halfUp_scaled num hden, neg_sub, hv]
  have hunit : (0 : ℚ) < 10 ^ (e - d) := by positivity
  have hscaled (k : ℕ) : (10 : ℚ) ^ k * 10 ^ (e - d) = 10 ^ (k + (e - d)) := by
    rw [zpow_add₀ hten, zpow_natCast]
  obtain ⟨hmany, hcarry⟩ : 10 ^ d ≤ ⌊v / 10 ^ (e - d) + 1 / 2⌋₊ ∧ _ := by
    apply floor_carry
    · rwa [le_div_iff₀ hunit, hscaled, add_sub_cancel]
    · rwa [div_lt_iff₀ hunit, hscaled, Nat.cast_succ, add_right_comm, add_sub_cancel]
  simp only [significantDigits, hlast, hround, leadingPower_eq hnum hden, ← hv, ← he,
    toSignificant, roundedTo, Nat.add_sub_cancel]
  rcases hcarry with hfew | ⟨hfull, hnext⟩
  · rw [tenTo_eq, if_neg hfew.not_ge]
    exact ⟨_, _, rfl, hmany, hfew, rfl⟩
  · have hstep : e + 1 - (d : ℤ) = e - d + 1 := by ring
    rw [tenTo_eq, if_pos hfull.ge, hstep, zpow_add_one₀ hten, ← div_div, hnext]
    refine ⟨_, _, rfl, le_rfl, Nat.pow_lt_pow_right (by norm_num) (Nat.lt_succ_self d), ?_⟩
    rw [hfull, hstep, zpow_add_one₀ hten]
    push_cast
    ring

end SignificantDigits

/-! ## The texts -/

/-- A spelling that shows `count` digits from the first one on that is not zero.  An exponent, which
is that of the number, is written where the first digit would stand below `1e-6` or left of all the
digits shown. -/
structure Figures (n : Spelling) (count : ℕ) : Prop where
  length : n.significant.length = count
  lead : n.whole.text.head? = some '0' → n.whole.text = ['0']
  scientific : n.power?.isSome ↔ Int.log 10 n.number < -6 ∨ count ≤ Int.log 10 n.number
  power : ∀ p ∈ n.power?, p.value = Int.log 10 n.number ∧ n.whole.text.length = 1

section Texts

variable {k count : ℕ} {power : ℤ}

/-- The digits of a number with so many digits, of which the first is not zero. -/
theorem exists_digits (hlow : 10 ^ (count - 1) ≤ k) (hhigh : k < 10 ^ count) (hcount : 0 < count) :
    ∃ ds : Digits, ds.text = natText k ∧ ds.text.length = count ∧ ds.text.head? ≠ some '0' ∧
      Text.digitsValue ds.text = k := by
  have hlength := length_natText hlow (by rwa [Nat.sub_add_cancel hcount])
  rw [Nat.sub_add_cancel hcount] at hlength
  obtain ⟨c, t, htext, hc⟩ := natText_head (Nat.ne_of_gt (lt_of_lt_of_le (by positivity) hlow))
  refine ⟨⟨natText k, natText_ne_nil k, fun _ hd => isDigit_of_mem_natText hd⟩, rfl, hlength, ?_,
    digitsValue_natText k⟩
  simp [htext, hc]

theorem dropWhile_zeros {s : Text} (n : ℕ) (hs : s.head? ≠ some '0') :
    (zeros n ++ s).dropWhile (· == '0') = s := by
  apply Text.dropWhile_run
  · intro c hc
    rw [List.eq_of_mem_replicate hc]
    rfl
  · cases s with
    | nil => exact Text.stopsBefore_nil _
    | cons c s => simpa [Text.stopsBefore_cons] using hs

/-- The first of so many digits stands at the power of ten. -/
theorem log_digits (hlow : 10 ^ (count - 1) ≤ k) (hhigh : k < 10 ^ count) (hcount : 0 < count) :
    Int.log 10 (k * 10 ^ (power - (count - 1)) : ℚ) = power := by
  have hten : (10 : ℚ) ≠ 0 := by norm_num
  have hunit : (0 : ℚ) < 10 ^ (power - (count - 1)) := by positivity
  apply log_eq
  · calc (10 : ℚ) ^ power = 10 ^ (count - 1) * 10 ^ (power - (count - 1)) := by
          rw [← zpow_natCast, ← zpow_add₀ hten, Nat.cast_pred hcount, add_sub_cancel]
      _ ≤ k * 10 ^ (power - (count - 1)) := by
          gcongr
          exact_mod_cast hlow
  · calc (k : ℚ) * 10 ^ (power - (count - 1)) < 10 ^ count * 10 ^ (power - (count - 1)) := by
          gcongr
          exact_mod_cast hhigh
      _ = 10 ^ (power + 1) := by
          rw [← zpow_natCast, ← zpow_add₀ hten]
          congr 1
          ring

variable {ds : Digits}

theorem figures_scientific (hhead : ds.text.head? ≠ some '0')
    (hlog : Int.log 10 (Text.digitsValue ds.text * 10 ^ (power - (ds.text.length - 1)) : ℚ) = power)
    (hfar : power < -6 ∨ ds.text.length ≤ power) :
    ∃ n : Spelling, n.text = scientific 1 ds.text power ∧
      n.number = Text.digitsValue ds.text * 10 ^ (power - (ds.text.length - 1)) ∧
      Figures n ds.text.length := by
  obtain ⟨n, hn, hdigits, hone, p, hp, hpower⟩ := Spelling.exists_scientific ds power
  have hfraction : (n.fraction.length : ℤ) = ds.text.length - 1 := by
    rw [← hdigits, Spelling.digits, List.length_append, hone]
    push_cast
    ring
  have hnumber : n.number = Text.digitsValue ds.text * 10 ^ (power - (ds.text.length - 1)) := by
    rw [n.number_eq, hdigits, hfraction, Spelling.power, hp, Option.elim_some, hpower]
  refine ⟨n, hn, hnumber, ?_, fun hzero => ?_, ?_, ?_⟩
  · rw [Spelling.significant, hdigits]
    exact congrArg List.length (dropWhile_zeros 0 hhead)
  · obtain ⟨c, hc⟩ := List.length_eq_one_iff.mp hone
    rw [hc] at hzero ⊢
    rw [Option.some.inj hzero]
  · rw [hnumber, hlog, hp]
    exact iff_of_true rfl hfar
  · rw [hnumber, hlog, hp]
    rintro q ⟨⟩
    exact ⟨hpower, hone⟩

theorem figures_positional (hhead : ds.text.head? ≠ some '0')
    (hlog : Int.log 10 (Text.digitsValue ds.text * 10 ^ (power - (ds.text.length - 1)) : ℚ) = power)
    (hnear : ¬(power < -6 ∨ ds.text.length ≤ power)) :
    ∃ n : Spelling, n.text = positional false ds.text power ∧
      n.number = Text.digitsValue ds.text * 10 ^ (power - (ds.text.length - 1)) ∧
      Figures n ds.text.length := by
  obtain ⟨n, hn, hdigits, hfraction, hp, hlead⟩ :=
    Spelling.exists_positional ds (p := power) (by omega)
  have hnumber : n.number = Text.digitsValue ds.text * 10 ^ (power - (ds.text.length - 1)) := by
    rw [n.number_eq, hdigits, digitsValue_append, digitsValue_zeros, hfraction, Spelling.power, hp,
      Nat.zero_mul, Nat.zero_add]
    congr 2
    simp
  refine ⟨n, hn, hnumber, ?_, fun hzero => ?_, ?_, ?_⟩
  · rw [Spelling.significant, hdigits, dropWhile_zeros _ hhead]
  · exact hlead.resolve_right fun hsame => hhead (hsame ▸ hzero)
  · rw [hnumber, hlog, hp]
    exact iff_of_false Bool.false_ne_true hnear
  · rw [hp]
    rintro q ⟨⟩

/-- Both notations spell the digits at their power of ten. -/
theorem exists_figures (hlow : 10 ^ (count - 1) ≤ k) (hhigh : k < 10 ^ count) (hcount : 0 < count) :
    ∃ n : Spelling, n.text = (if power < -6 ∨ (count : ℤ) ≤ power then
        scientific 1 (natText k) power else positional false (natText k) power) ∧
      n.number = k * 10 ^ (power - (count - 1)) ∧ Figures n count := by
  obtain ⟨ds, htext, hlength, hhead, hvalue⟩ := exists_digits hlow hhigh hcount
  have hlog := @log_digits _ _ power hlow hhigh hcount
  rw [← hlength, ← hvalue] at hlog
  rw [← htext, ← hlength, ← hvalue]
  split
  next hfar => exact figures_scientific hhead hlog hfar
  next hnear => exact figures_positional hhead hlog hnear

end Texts

section Double

variable {x : Float} {count : ℕ}

theorem num_pos (hne : exactValue x ≠ 0) : 0 < (magnitude x).num := by
  rw [Nat.pos_iff_ne_zero]
  intro hzero
  have habs := abs_exactValue x
  rw [hzero, Nat.cast_zero, zero_div, abs_eq_zero] at habs
  exact hne habs

theorem beq_zero_iff_exactValue (hx : x.isFinite = true) : (x == 0) = true ↔ exactValue x = 0 :=
  (beq_zero_iff hx).trans exactValue_eq_zero_iff.symm

theorem beq_zero_eq (hx : x.isFinite = true) (hne : exactValue x ≠ 0) : (x == 0) = false := by
  rwa [Bool.eq_false_iff, ne_eq, beq_zero_iff_exactValue hx]

theorem exists_significant (hx : x.isFinite = true) (hne : exactValue x ≠ 0) (hcount : 0 < count) :
    ∃ n : Spelling, significant x count = signed (decide (exactValue x < 0)) n.text ∧
      Figures n count ∧ n.number = toSignificant count |exactValue x| := by
  obtain ⟨k, power, hdigits, hlow, hhigh, hvalue⟩ :=
    significantDigits_eq (num_pos hne) (magnitude_den_pos x) hcount
  obtain ⟨n, htext, hnumber, hfigures⟩ := @exists_figures _ _ power hlow hhigh hcount
  refine ⟨n, ?_, hfigures, ?_⟩
  · simp only [significant, hx, beq_zero_eq hx hne, hdigits, htext, lt_zero_iff_exactValue hx,
      Bool.not_true, Bool.false_eq_true, if_false]
  · rw [hnumber, hvalue, abs_exactValue]

theorem tensToReach_le (fuel num den : ℕ) : tensToReach fuel num den ≤ fuel := by
  induction fuel generalizing num with
  | zero => exact le_rfl
  | succ fuel ih =>
    rw [tensToReach]
    split
    · exact Nat.zero_le _
    · exact Nat.succ_le_succ (ih _)

/-- Doubles have their first digits between the powers that the exponents of two leave. -/
theorem leadingPower_bounds (hx : x.isFinite = true) :
    -1075 ≤ leadingPower (magnitude x).num (magnitude x).den ∧
      leadingPower (magnitude x).num (magnitude x).den < 400 := by
  rw [leadingPower]
  split
  · have hquotient : (magnitude x).num / (magnitude x).den < 10 ^ 400 := by
      calc (magnitude x).num / (magnitude x).den ≤ (magnitude x).num := Nat.div_le_self _ _
        _ ≤ largest := num_le hx
        _ < 10 ^ 400 := by decide +kernel
    have hlength := length_digitsIn_le (by norm_num : 2 ≤ 10) (by norm_num) hquotient
    omega
  · have hlog : (magnitude x).den.log2 = (-(magnitude x).exponent).toNat := by
      rw [Binary.den, twoTo_eq, Nat.log2_two_pow]
    have hsteps := tensToReach_le ((magnitude x).den.log2 + 1) (magnitude x).num (magnitude x).den
    have hleast := (canonical_magnitude x).least
    omega

/-- Up to a thousand digits are worked out. -/
theorem significantAt_eq (hx : x.isFinite = true) (hcount : count ≤ 1000) :
    significantAt x count = .ok (significant x count) := by
  obtain ⟨hlow, hhigh⟩ := leadingPower_bounds hx
  rw [significantAt]
  split
  · rfl
  · have hshift : checkShift (count - 1 - leadingPower (magnitude x).num (magnitude x).den)
        (count - 1) = .ok () := by
      have hnear : ¬shiftLimit < ((count : ℤ) - 1 -
          leadingPower (magnitude x).num (magnitude x).den).natAbs := by
        rw [shiftLimit, highestPower, exactDigits]
        omega
      have hlimit : ¬(highestPower : ℤ) < count - 1 := by
        rw [highestPower]
        omega
      rw [checkShift, if_neg hnear, if_neg hlimit]
    have hfew : ¬exactDigits < count := by
      rw [exactDigits]
      omega
    dsimp only
    rw [hshift]
    show (if _ then _ else _) = _
    rw [if_neg hfew]
    rfl

/-- A finite double that is not zero is written with all the significant digits that are asked for,
in the notation that the rounded number asks for, and the text denotes its exact value rounded to
that many digits, a half away from zero. -/
theorem significantAt_exact (hx : x.isFinite = true) (hne : exactValue x ≠ 0) (hcount : 1 ≤ count)
    (hlimit : count ≤ 1000) :
    ∃ n : Spelling, significantAt x count = .ok (signed (decide (exactValue x < 0)) n.text) ∧
      Figures n count ∧ n.number = toSignificant count |exactValue x| := by
  obtain ⟨n, htext, hn⟩ := exists_significant hx hne hcount
  rw [significantAt_eq hx hlimit, htext]
  exact ⟨n, rfl, hn⟩

/-- The half below a thousand with three digits, where rounding carries to the power from which on
there is an exponent. -/
theorem significantAt_exact_carry : (999.5 : Float).isFinite = true ∧ exactValue 999.5 ≠ 0 ∧
    ∃ n : Spelling, significantAt 999.5 3 = .ok n.text ∧ Figures n 3 ∧ n.number = 10 ^ 3 := by
  have hfinite : (999.5 : Float).isFinite = true := rfl
  have hunpack : (999.5 : Float).toModel.unpack =
      .finite .positive (1999 * 2 ^ 42) (-43) (by decide) := rfl
  have hvalue : exactValue 999.5 = 1999 / 2 := by
    rw [exactValue_of_unpack hfinite hunpack]
    show (((1999 * 2 ^ 42 : ℕ) : ℤ) : ℚ) * 2 ^ (-43 : ℤ) = 1999 / 2
    norm_num
  have hne : exactValue 999.5 ≠ 0 := by
    rw [hvalue]
    norm_num
  have hlog : Int.log 10 (1999 / 2 : ℚ) = 2 := log_eq (by norm_num) (by norm_num)
  have hrounded : toSignificant 3 (1999 / 2) = 10 ^ 3 := by
    have hfloor : ⌊(1999 / 2 / 10 ^ (0 : ℤ) + 1 / 2 : ℚ)⌋₊ = 1000 := by
      rw [Nat.floor_eq_iff (by norm_num)]
      norm_num
    have hpower : (2 : ℤ) - ((3 : ℕ) - 1) = 0 := by norm_num
    rw [toSignificant, roundedTo, hlog, hpower, hfloor]
    norm_num
  have hexact := significantAt_exact hfinite hne (by norm_num : 1 ≤ 3) (by norm_num)
  rw [hvalue, abs_of_pos (by norm_num), hrounded, decide_eq_false (by norm_num)] at hexact
  exact ⟨hfinite, hne, hexact⟩

end Double

end DeskCalc.Number
