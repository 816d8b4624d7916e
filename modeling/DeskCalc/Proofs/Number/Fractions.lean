import DeskCalc.Number.Radix
import DeskCalc.Proofs.Number.Fixed
import DeskCalc.Proofs.Number.Halves

/-!
# Fractions in other bases

The digits of a fraction in a base end once a power of the base clears its denominator, and they
denote the fraction.  The denominator of a double is a power of two of at most `2 ^ 1074`, so in an
even base at most 1074 digits stand behind the point.

The same digits come out if the fraction is multiplied and the whole part taken away in doubles: in
the bases of powers of two no step is rounded.
-/

namespace DeskCalc.Number

/-! ## Digits behind the point -/

/-- The number that a row of digits denotes behind the point. -/
def fractionValue (base : ℕ) (digits : List ℕ) : ℚ :=
  ofDigits base digits / base ^ digits.length

section FractionDigits

variable {base num den n fuel : ℕ}

theorem fractionValue_cons (hbase : 0 < base) (d : ℕ) (ds : List ℕ) :
    fractionValue base (d :: ds) = (d + fractionValue base ds) / base := by
  have hpos : (base : ℚ) ≠ 0 := by exact_mod_cast hbase.ne'
  rw [fractionValue, fractionValue, ofDigits_cons, List.length_cons, pow_succ]
  push_cast
  field_simp

/-- What is left behind one digit needs one power of the base less. -/
theorem dvd_rest (h : den ∣ num * base ^ (n + 1)) : den ∣ num * base % den * base ^ n := by
  have hsplit : num * base ^ (n + 1) =
      den * (num * base / den * base ^ n) + num * base % den * base ^ n := by
    calc num * base ^ (n + 1) = num * base * base ^ n := by ring
      _ = (den * (num * base / den) + num * base % den) * base ^ n := by rw [Nat.div_add_mod]
      _ = _ := by ring
  rw [hsplit] at h
  exact (Nat.dvd_add_right (Nat.dvd_mul_right _ _)).mp h

theorem eq_zero_of_dvd_pow_zero (hlt : num < den) (h : den ∣ num * base ^ 0) : num = 0 := by
  rw [pow_zero, Nat.mul_one] at h
  exact Nat.eq_zero_of_dvd_of_lt h hlt

theorem length_fractionDigits_le (hlt : num < den) (h : den ∣ num * base ^ n) :
    (fractionDigits base fuel num den).length ≤ n := by
  induction fuel generalizing num n with
  | zero => exact Nat.zero_le n
  | succ fuel ih =>
    rw [fractionDigits]
    split
    · exact Nat.zero_le n
    next hnum =>
      cases n with
      | zero => exact absurd (eq_zero_of_dvd_pow_zero hlt h) hnum
      | succ n => exact Nat.succ_le_succ (ih (Nat.mod_lt _ (by omega)) (dvd_rest h))

/-- More fuel than there are digits changes nothing. -/
theorem fractionDigits_fuel (hlt : num < den) (h : den ∣ num * base ^ n) (hn : n ≤ fuel) :
    fractionDigits base fuel num den = fractionDigits base n num den := by
  induction n generalizing num fuel with
  | zero =>
    rw [eq_zero_of_dvd_pow_zero hlt h]
    cases fuel <;> rfl
  | succ n ih =>
    obtain ⟨fuel, rfl⟩ : ∃ k, fuel = k + 1 := ⟨fuel - 1, by omega⟩
    rw [fractionDigits, fractionDigits, ih (Nat.mod_lt _ (by omega)) (dvd_rest h) (by omega)]

theorem fractionValue_fractionDigits (hbase : 0 < base) (hlt : num < den)
    (h : den ∣ num * base ^ fuel) :
    fractionValue base (fractionDigits base fuel num den) = num / den := by
  induction fuel generalizing num with
  | zero =>
    rw [eq_zero_of_dvd_pow_zero hlt h]
    simp [fractionDigits, fractionValue, ofDigits]
  | succ fuel ih =>
    rw [fractionDigits]
    split
    next hnum => simp [hnum, fractionValue, ofDigits]
    · have hden : (den : ℚ) ≠ 0 := by exact_mod_cast (by omega : den ≠ 0)
      have hpos : (base : ℚ) ≠ 0 := by exact_mod_cast hbase.ne'
      have hsplit : ((num * base : ℕ) : ℚ) =
          den * (num * base / den : ℕ) + (num * base % den : ℕ) := by
        exact_mod_cast (Nat.div_add_mod (num * base) den).symm
      rw [fractionValue_cons hbase, ih (Nat.mod_lt _ (by omega)) (dvd_rest h),
        div_eq_div_iff hpos hden, add_mul, div_mul_cancel₀ _ hden, mul_comm _ (den : ℚ), ← hsplit]
      push_cast
      ring

/-- The digits stop at the last one that is not zero. -/
theorem getLast?_fractionDigits (hbase : 0 < base) (hlt : num < den) (h : den ∣ num * base ^ fuel) :
    (fractionDigits base fuel num den).getLast? ≠ some 0 := by
  induction fuel generalizing num with
  | zero => exact nofun
  | succ fuel ih =>
    rw [fractionDigits]
    split
    · exact nofun
    next hnum =>
      have hless := Nat.mod_lt (num * base) (by omega : 0 < den)
      have hvalue := fractionValue_fractionDigits hbase hless (dvd_rest h)
      have hrest := ih hless (dvd_rest h)
      cases htail : fractionDigits base fuel (num * base % den) den with
      | nil =>
        -- Nothing is left behind this digit, so the digit itself is not zero.
        have hden : (den : ℚ) ≠ 0 := by exact_mod_cast (by omega : den ≠ 0)
        have hzero : num * base % den = 0 := by
          rw [htail, eq_comm, div_eq_iff hden] at hvalue
          simpa [fractionValue, ofDigits] using hvalue
        have hproduct : 0 < num * base := Nat.mul_pos (Nat.pos_of_ne_zero hnum) hbase
        have hdivides := Nat.dvd_of_mod_eq_zero hzero
        have hdigit := Nat.div_pos (Nat.le_of_dvd hproduct hdivides) (by omega)
        rw [List.getLast?_singleton]
        exact fun hlast => hdigit.ne' (Option.some.inj hlast)
      | cons d ds =>
        rw [htail] at hrest
        rwa [List.getLast?_cons_cons]

theorem fractionDigits_eq_nil_iff : fractionDigits base (fuel + 1) num den = [] ↔ num = 0 := by
  rw [fractionDigits]
  split
  next hnum => simp [hnum]
  next hnum => simp [hnum]

end FractionDigits

/-! ## Sums and differences of doubles -/

section Sums

variable {x y : Float}

open Float.Model

theorem Agree.refl (x : Float) : Agree x x :=
  ⟨rfl, rfl⟩

/-- A sum of finite doubles is the double nearest to the sum of their values, up to the sign of
zero. -/
theorem add_agree (hx : x.isFinite = true) (hy : y.isFinite = true) :
    Agree (x + y) (nearestTo (exactValue x + exactValue y)) := by
  by_cases hzero : exactValue y = 0
  · have hadd : x + y = packed (UnpackedFloat.add Format.binary64 x.toModel.unpack
        y.toModel.unpack) := rfl
    have hright := unpack_of_eq_zero hy hzero
    rw [hzero, add_zero]
    by_cases hzero' : exactValue x = 0
    · rw [hadd, unpack_of_eq_zero hx hzero', hright, hzero']
      cases signBit x <;> cases signBit y <;> exact agree_zero _
    · obtain ⟨m, e, hm, hleft, -, -⟩ := unpack_of_ne_zero hx hzero'
      have hsame : UnpackedFloat.add Format.binary64 x.toModel.unpack y.toModel.unpack =
          x.toModel.unpack := by
        rw [hleft, hright]
        rfl
      rw [hadd, hsame, packed, ofModel_pack hx, nearestTo_exactValue hx hzero']
      exact Agree.refl x
  · rw [add_eq hx hy hzero]
    exact Agree.refl _

theorem unpack_neg (hy : y.isNaN = false) : (-y).toModel.unpack = y.toModel.unpack.neg := by
  rcases finite_or_infinite hy with hfinite | rfl | rfl
  · obtain ⟨hsign, hbits⟩ := neg_parts hfinite
    have hneg : (-y).isFinite = true := by
      rw [isFinite_iff, hbits, ← isFinite_iff]
      exact hfinite
    obtain ⟨hzero, hunpack⟩ | ⟨hpos, hne, hunpack⟩ := unpack_of_isFinite hfinite
    · obtain ⟨-, hunpack'⟩ | ⟨-, hne, -⟩ := unpack_of_isFinite hneg
      · rw [hunpack, hunpack', hsign]
        exact congrArg _ (neg_signOf _).symm
      · exact absurd (hbits.trans hzero) hne
    · obtain ⟨hzero, -⟩ | ⟨hpos', -, hunpack'⟩ := unpack_of_isFinite hneg
      · exact absurd (hbits.symm.trans hzero) hne
      · have hmagnitude := magnitude_congr hbits
        rw [hunpack, hunpack', hsign, ← neg_signOf]
        exact finite_congr (by rw [hmagnitude]) (by rw [hmagnitude])
  · rfl
  · rfl

/-- A difference is the sum with the negative. -/
theorem sub_eq_add (hy : y.isNaN = false) : x - y = x + -y := by
  have hsub : x - y = packed (UnpackedFloat.sub Format.binary64 x.toModel.unpack
      y.toModel.unpack) := rfl
  have hadd : x + -y = packed (UnpackedFloat.add Format.binary64 x.toModel.unpack
      (-y).toModel.unpack) := rfl
  rw [hsub, hadd, unpack_neg hy]
  generalize x.toModel.unpack = u
  generalize y.toModel.unpack = v
  rcases u with s | _ | s | ⟨s, m, e, hm⟩ <;> rcases v with t | _ | t | ⟨t, n, f, hn⟩ <;> try rfl
  -- Both are finite and not zero, and the signed mantissas are subtracted.
  have happly (k : ℤ) : (-t).apply k = -t.apply k := by
    cases t with
    | negative => exact (Int.neg_neg k).symm
    | positive => rfl
  have hneg : (UnpackedFloat.finite t n f hn).neg = .finite (-t) n f hn := rfl
  rw [hneg, sub_finite, add_finite, happly, Int.sub_eq_add_neg]

/-- Where the value of a difference is that of a double, nothing is rounded. -/
theorem exactValue_sub (hx : x.isFinite = true) (hy : y.isFinite = true)
    (h : Representable (exactValue x - exactValue y)) :
    (x - y).isFinite = true ∧ exactValue (x - y) = exactValue x - exactValue y := by
  have hneg : (-y).isFinite = true := by
    rw [isFinite_iff, (neg_parts hy).2, ← isFinite_iff]
    exact hy
  have hagree := add_agree hx hneg
  rw [exactValue_neg hy, ← sub_eq_add (isNaN_of_isFinite hy), ← sub_eq_add_neg] at hagree
  exact ⟨hagree.isFinite.mpr h.1, hagree.2.trans h.2⟩

end Sums

/-! ## Digits worked out in doubles -/

/-- The digits of a fraction, worked out in doubles: the fraction is multiplied by the base, and the
whole part of the product is the next digit and is taken away. -/
def digitsInDoubles (base : ℕ) : ℕ → Float → List ℕ
  | 0, _ => []
  | fuel + 1, f =>
    if f == 0 then []
    else
      let product := f * ofInt base
      wholePart product :: digitsInDoubles base fuel (product - ofInt (wholePart product))

/-- What stands behind the point of a double, as a double. -/
def fractionalPart (x : Float) : Float :=
  x.abs - ofInt (wholePart x.abs)

section Loop

variable {x : Float}

theorem wholePart_eq (hx : 0 ≤ exactValue x) : (wholePart x : ℤ) = ⌊exactValue x⌋ := by
  rw [← abs_of_nonneg hx, abs_exactValue, Rat.floor_natCast_div_natCast]
  rfl

/-- The fraction of a number with a mantissa of fifty-three bits has no more bits. -/
theorem representable_fract (hx : 0 ≤ exactValue x) : Representable (Int.fract (exactValue x)) := by
  obtain ⟨k, e, hvalue, hk, hleast, -⟩ := exists_mantissa x
  have hpow : (0 : ℚ) < 2 ^ e := by positivity
  rcases le_or_gt 0 e with he | he
  · obtain ⟨n, hn⟩ := @exists_int_of_nonneg k e he
    rw [hvalue, hn, Int.fract_intCast]
    exact_mod_cast representable_int (by norm_num : (0 : ℤ).natAbs ≤ 2 ^ 53)
  · have hnonneg : 0 ≤ k := by
      rw [hvalue] at hx
      exact_mod_cast nonneg_of_mul_nonneg_left hx hpow
    obtain ⟨j, hj⟩ : ∃ j : ℕ, e = -j := ⟨e.natAbs, by omega⟩
    obtain ⟨m, rfl⟩ := Int.eq_ofNat_of_zero_le hnonneg
    have hdiv : ((m : ℤ) * 2 ^ e : ℚ) = (m : ℚ) / (2 ^ j : ℕ) := by
      rw [hj, zpow_neg, zpow_natCast]
      push_cast
      rfl
    have hrest : m % 2 ^ j ≤ m := Nat.mod_le _ _
    rw [hvalue, hdiv, Int.fract_div_natCast_eq_div_natCast_mod]
    have hscaled := representable_scaled (a := (m % 2 ^ j : ℕ)) (by omega) hleast (by omega)
    rw [hj, zpow_neg, zpow_natCast] at hscaled
    push_cast at hscaled ⊢
    exact hscaled

theorem fract_value (hx : x.isFinite = true) (hnonneg : 0 ≤ exactValue x) :
    (x - ofInt (wholePart x)).isFinite = true ∧
      exactValue (x - ofInt (wholePart x)) = Int.fract (exactValue x) := by
  have hfloor : ofInt (wholePart x) = nearestTo ⌊exactValue x⌋ := by
    rw [ofInt_eq, wholePart_eq hnonneg]
  have hrepresentable := representable_floor hx
  have hsub : exactValue x - exactValue (nearestTo ⌊exactValue x⌋) = Int.fract (exactValue x) := by
    rw [hrepresentable.2]
    rfl
  have hdifference := exactValue_sub hx hrepresentable.1 (hsub ▸ representable_fract hnonneg)
  rw [hfloor]
  exact ⟨hdifference.1, hdifference.2.trans hsub⟩

/-- A fraction may be multiplied by a small power of two. -/
theorem representable_mul_pow {s : ℕ} (hs : s ≤ 4) (hlt : |exactValue x| < 1) :
    Representable (exactValue x * 2 ^ s) := by
  obtain ⟨k, e, hvalue, hk, hleast, -⟩ := exists_mantissa x
  by_cases hzero : k = 0
  · rw [hvalue, hzero, Int.cast_zero, zero_mul, zero_mul]
    exact_mod_cast representable_int (by norm_num : (0 : ℤ).natAbs ≤ 2 ^ 53)
  · have he : e < 0 := by
      by_contra hnonneg
      have hone : (1 : ℚ) ≤ k.natAbs := by exact_mod_cast Int.natAbs_pos.mpr hzero
      have hpow : (1 : ℚ) ≤ 2 ^ e := one_le_zpow₀ (by norm_num) (not_lt.mp hnonneg)
      rw [hvalue, abs_scaled] at hlt
      nlinarith
    rw [hvalue, mul_assoc, ← zpow_natCast, ← zpow_add₀ two_ne_zero]
    exact representable_scaled hk.le (by omega) (by omega)

theorem mul_pow_value {s : ℕ} (hs : s ≤ 4) (hx : x.isFinite = true) (hlt : |exactValue x| < 1) :
    (x * ofInt (2 ^ s : ℕ)).isFinite = true ∧
      exactValue (x * ofInt (2 ^ s : ℕ)) = exactValue x * 2 ^ s := by
  have hfactor : Representable ((2 ^ s : ℕ) : ℤ) := by
    have hpow : 2 ^ s ≤ 2 ^ 4 := Nat.pow_le_pow_right two_pos hs
    exact representable_int (by rw [Int.natAbs_natCast]; omega)
  have hvalue : exactValue (nearestTo ((2 ^ s : ℕ) : ℤ)) = 2 ^ s := by
    rw [hfactor.2]
    push_cast
    rfl
  have hproduct := @representable_mul_pow x s hs hlt
  have hagree := mul_agree hx hfactor.1 (by rw [hvalue]; positivity)
  rw [hvalue] at hagree
  rw [ofInt_eq]
  exact ⟨hagree.isFinite.mpr hproduct.1, hagree.2.trans hproduct.2⟩

/-- No step of the loop in doubles is rounded. -/
theorem digitsInDoubles_eq {base s : ℕ} (hbase : base = 2 ^ s) (hs : s ≤ 4) {num den fuel : ℕ}
    (hx : x.isFinite = true) (hvalue : exactValue x = num / den) (hlt : num < den) :
    digitsInDoubles base fuel x = fractionDigits base fuel num den := by
  induction fuel generalizing x num with
  | zero => rfl
  | succ fuel ih =>
    have hden : (0 : ℚ) < den := by exact_mod_cast (by omega : 0 < den)
    have hzero : (x == 0) = true ↔ num = 0 := by
      rw [beq_zero_iff hx, ← exactValue_eq_zero_iff, hvalue, div_eq_zero_iff, or_iff_left hden.ne',
        Nat.cast_eq_zero]
    rw [digitsInDoubles, fractionDigits]
    by_cases hnum : num = 0
    · rw [if_pos (hzero.mpr hnum), if_pos hnum]
    · rw [if_neg (mt hzero.mp hnum), if_neg hnum]
      have hless : |exactValue x| < 1 := by
        rw [hvalue, abs_of_nonneg (by positivity), div_lt_one hden]
        exact_mod_cast hlt
      obtain ⟨hfinite, hproduct⟩ := mul_pow_value hs hx hless
      rw [← hbase] at hfinite hproduct
      have hexact : exactValue (x * ofInt base) = (num * base : ℕ) / den := by
        rw [hproduct, hvalue, hbase]
        push_cast
        ring
      have hnonneg : 0 ≤ exactValue (x * ofInt base) := by
        rw [hexact]
        positivity
      have hdigit : wholePart (x * ofInt base) = num * base / den := by
        have hwhole := wholePart_eq hnonneg
        rw [hexact, Rat.floor_natCast_div_natCast] at hwhole
        exact_mod_cast hwhole
      obtain ⟨hrest, hfract⟩ := fract_value hfinite hnonneg
      rw [hexact, Int.fract_div_natCast_eq_div_natCast_mod] at hfract
      simp only
      rw [ih hrest hfract (Nat.mod_lt _ (by omega)), hdigit]

/-- The digits behind the point of a double may be worked out in doubles. -/
theorem digitsInDoubles_fractionalPart {base s fuel : ℕ} (hbase : base = 2 ^ s) (hs : s ≤ 4)
    (hx : x.isFinite = true) :
    digitsInDoubles base fuel (fractionalPart x) =
      fractionDigits base fuel ((magnitude x).num % (magnitude x).den) (magnitude x).den := by
  obtain ⟨habs, hvalue⟩ := abs_of_finite hx
  have hnonneg : 0 ≤ exactValue x.abs := hvalue ▸ abs_nonneg _
  obtain ⟨hfinite, hfract⟩ := fract_value habs hnonneg
  rw [hvalue, abs_exactValue, Int.fract_div_natCast_eq_div_natCast_mod] at hfract
  exact digitsInDoubles_eq hbase hs hfinite hfract (Nat.mod_lt _ (magnitude_den_pos x))

/-- A power of two that clears the denominators of all doubles. -/
theorem den_dvd (hx : x.isFinite = true) {base s : ℕ} (hbase : base = 2 ^ s) (hs : 1 ≤ s) (n : ℕ) :
    (magnitude x).den ∣ n * base ^ 1074 := by
  have hleast := (magnitude_lt hx).2.1
  apply Nat.dvd_mul_left_of_dvd
  rw [Binary.den, twoTo_eq, hbase, ← pow_mul]
  apply Nat.pow_dvd_pow
  omega

end Loop

end DeskCalc.Number
