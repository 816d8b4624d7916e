import DeskCalc.Proofs.Number.Sums

/-!
# Texts of integers

Integers up to `2 ^ 53` are all doubles, so none but the integer itself reads back to one of them
on a grid of integers, apart from `2 ^ 53 + 1`, which is halfway to the next double and no multiple
of ten.  So the shortest decimal of such a double is the integer, and its text has all of its
digits and nothing else.

The main statement is `numberText_eq_of_int`.
-/

namespace DeskCalc.Number

section Shortest

variable {x : Float} {n : ℕ}

/-- Of the integers up to `2 ^ 53` and beyond the one next to it, only the integer itself reads
back. -/
theorem eq_of_bits {d : Decimal} {v : ℕ} (hx : x.isFinite = true) (hn : |exactValue x| = n)
    (hsmall : n ≤ 2 ^ 53) (hvalue : d.value = v) (hbits : d.bits = unsignedBits x)
    (hv : v ≠ 2 ^ 53 + 1) : v = n := by
  have hquotient : ((v : ℕ) : ℚ) / (1 : ℕ) = d.value := by rw [hvalue, Nat.cast_one, div_one]
  have hsame : unsignedBits (nearestTo v) = unsignedBits x := by
    rw [← hbits, Decimal.bits_eq_nearestBits Nat.one_pos hquotient]
    exact unsignedBits_nearestTo Nat.one_pos (by rw [Nat.abs_cast, Nat.cast_one, div_one])
  have hfinite : (nearestTo v).isFinite = true := by
    rw [isFinite_iff, hsame, ← isFinite_iff]
    exact hx
  have hexact : exactValue (nearestTo v) = n := by
    rw [← abs_of_nonneg (exactValue_nearestTo_nonneg (Nat.cast_nonneg v)),
      abs_exactValue_congr hsame, hn]
  rcases le_or_gt v (2 ^ 53) with hle | hgt
  · have hrepresentable := @representable_scaled v 0 (by omega) (by norm_num) (by norm_num)
    rw [zpow_zero, mul_one, Int.cast_natCast] at hrepresentable
    exact_mod_cast hrepresentable.2.symm.trans hexact
  · have hrepresentable := @representable_scaled (2 ^ 52 + 1) 1 (by norm_num) (by norm_num)
      (by norm_num)
    have hle : (((2 ^ 52 + 1 : ℤ) : ℚ) * 2 ^ (1 : ℤ)) ≤ v := by
      have hnat : (2 ^ 52 + 1) * 2 ≤ v := by omega
      rw [zpow_one]
      exact_mod_cast hnat
    have hnear := hrepresentable.le_nearest hfinite hle
    rw [hexact, zpow_one] at hnear
    have hcast : (2 ^ 52 + 1) * 2 ≤ n := by exact_mod_cast hnear
    omega

variable (hx : x.isFinite = true) (hn : |exactValue x| = n) (hsmall : n ≤ 2 ^ 53)

include hn in
theorem num_eq_of_int : (magnitude x).num = n * (magnitude x).den := by
  rw [abs_exactValue, div_eq_iff (by exact_mod_cast (magnitude_den_pos x).ne')] at hn
  exact_mod_cast hn

include hx hn hsmall

/-- On a grid of multiples of a power of ten a decimal that reads back is the integer. -/
theorem value_onGrid?_coarse {k : ℕ} (hk : k ≠ 0) {d : Decimal}
    (h : onGrid? (unsignedBits x) (magnitude x).num (magnitude x).den k = some d) :
    d.value = n := by
  have hten : tenTo (-(k : ℤ)).toNat = 1 := by
    rw [show (-(k : ℤ)).toNat = 0 by omega]
    rfl
  have hpow : tenTo (k : ℤ).toNat = 10 ^ k := by rw [Int.toNat_natCast, tenTo_eq]
  have hquotient : (magnitude x).num * tenTo (-(k : ℤ)).toNat /
      ((magnitude x).den * tenTo (k : ℤ).toNat) = n / 10 ^ k := by
    rw [hten, Nat.mul_one, hpow, num_eq_of_int hn, Nat.mul_comm n,
      Nat.mul_div_mul_left _ _ (magnitude_den_pos x)]
  have hvalue (g : ℕ) : (⟨g, k⟩ : Decimal).value = (g * 10 ^ k : ℕ) := by
    simp only [Decimal.value]
    push_cast
    rfl
  have hmultiple (g : ℕ) : g * 10 ^ k ≠ 2 ^ 53 + 1 := by
    obtain ⟨j, rfl⟩ := Nat.exists_eq_succ_of_ne_zero hk
    rw [pow_succ, ← Nat.mul_assoc]
    omega
  have hread (g : ℕ) (hg : (⟨g, k⟩ : Decimal).readsAs (unsignedBits x) = true) :
      g * 10 ^ k = n :=
    eq_of_bits hx hn hsmall (hvalue g) (Decimal.readsAs_iff.mp hg) (hmultiple g)
  have habove : (⟨n / 10 ^ k + 1, k⟩ : Decimal).readsAs (unsignedBits x) = false := by
    by_contra hnot
    rw [Bool.not_eq_false] at hnot
    have hlt := Nat.lt_div_mul_add (a := n) (b := 10 ^ k) (by positivity)
    have heq := hread _ hnot
    rw [Nat.add_mul, Nat.one_mul] at heq
    omega
  simp only [onGrid?, hquotient, habove] at h
  split at h
  next h' => cases h'
  next hbelow _ =>
    cases h
    rw [hvalue, hread _ hbelow]
  next h' => cases h'
  next => cases h

omit hsmall in
/-- A grid that has the integer gives it. -/
theorem value_onGrid?_fine {e : ℤ} (he : e ≤ 0) {d : Decimal}
    (h : onGrid? (unsignedBits x) (magnitude x).num (magnitude x).den e = some d) :
    d.value = n := by
  obtain ⟨j, rfl⟩ : ∃ j : ℕ, e = -j := ⟨(-e).toNat, by omega⟩
  have hten : tenTo (-(j : ℤ)).toNat = 1 := by
    rw [show (-(j : ℤ)).toNat = 0 by omega]
    rfl
  have hpow : tenTo (- -(j : ℤ)).toNat = 10 ^ j := by rw [neg_neg, Int.toNat_natCast, tenTo_eq]
  have htop : (magnitude x).num * 10 ^ j = n * 10 ^ j * (magnitude x).den := by
    rw [num_eq_of_int hn]
    ring
  have hden := magnitude_den_pos x
  have hvalue : (⟨n * 10 ^ j, -j⟩ : Decimal).value = n := by
    simp only [Decimal.value]
    push_cast
    rw [zpow_neg, zpow_natCast, mul_inv_cancel_right₀ (by positivity)]
  have hbelow : (⟨n * 10 ^ j, -j⟩ : Decimal).readsAs (unsignedBits x) = true := by
    rw [Decimal.readsAs_iff, ← nearestBits_magnitude hx]
    apply Decimal.bits_eq_nearestBits hden
    rw [hvalue, ← hn, abs_exactValue]
  simp only [onGrid?, hpow, hten, Nat.mul_one, htop, Nat.mul_div_cancel _ hden,
    halfEven_exact hden] at h
  split at h
  next =>
    cases h
    exact hvalue
  next =>
    cases h
    exact hvalue
  next h' _ =>
    rw [hbelow] at h'
    cases h'
  next => cases h

/-- The shortest decimal of an integer is the integer. -/
theorem value_shortest_of_int : (shortest x).value = n := by
  rw [shortest, value_stripZeros]
  cases hfound : (List.range 17).findSome? fun (k : ℕ) =>
      onGrid? (x.toBits.toNat % twoTo 63) (magnitude x).num (magnitude x).den
        (leadingPower (magnitude x).num (magnitude x).den - k) with
  | some d =>
    obtain ⟨k, -, hgrid⟩ := List.exists_of_findSome?_eq_some hfound
    rw [Option.getD_some]
    rcases le_or_gt (leadingPower (magnitude x).num (magnitude x).den - k) 0 with hfine | hcoarse
    · exact value_onGrid?_fine hx hn hfine hgrid
    · obtain ⟨j, hj⟩ := Int.eq_ofNat_of_zero_le hcoarse.le
      rw [hj] at hgrid hcoarse
      exact value_onGrid?_coarse hx hn hsmall (by omega) hgrid
  | none => rw [Option.getD_none, value_exactDecimal, ← hn, abs_exactValue]

/-- The digits of the shortest decimal of an integer stand in front of zeros. -/
theorem exists_shortest_of_int (hne : n ≠ 0) :
    ∃ m k : ℕ, shortest x = ⟨m, k⟩ ∧ m * 10 ^ k = n := by
  have hvalue := value_shortest_of_int hx hn hsmall
  have hlast := shortest_last x
  generalize shortest x = d at hvalue hlast ⊢
  obtain ⟨m, e⟩ := d
  simp only [Decimal.value] at hvalue hlast
  rcases le_or_gt 0 e with he | he
  · obtain ⟨k, rfl⟩ := Int.eq_ofNat_of_zero_le he
    exact ⟨m, k, rfl, by exact_mod_cast hvalue⟩
  · -- With a fraction the digits would end in a zero.
    obtain ⟨j, rfl⟩ : ∃ j : ℕ, e = -(j + 1 : ℕ) := ⟨(-e).toNat - 1, by omega⟩
    rw [zpow_neg, zpow_natCast, ← div_eq_mul_inv, div_eq_iff (by positivity)] at hvalue
    have hdigits : m = n * 10 ^ (j + 1) := by exact_mod_cast hvalue
    have hzero : m % 10 = 0 := by
      rw [hdigits, pow_succ, ← Nat.mul_assoc]
      exact Nat.mul_mod_left _ _
    have hproduct : n * 10 ^ (j + 1) ≠ 0 := Nat.mul_ne_zero hne (by positivity)
    exact absurd (hdigits.symm.trans (hlast hzero)) hproduct

/-- An integer up to `2 ^ 53` is written with its digits alone. -/
theorem numberText_eq_of_int (hne : n ≠ 0) : ∃ m k : ℕ, m ≠ 0 ∧ m * 10 ^ k = n ∧
    numberText x = signed (decide (exactValue x < 0)) (natText m ++ zeros k) := by
  obtain ⟨m, k, hshortest, hproduct⟩ := exists_shortest_of_int hx hn hsmall hne
  have hm : m ≠ 0 := by
    rintro rfl
    exact hne (by rw [← hproduct, Nat.zero_mul])
  have hvalue : exactValue x ≠ 0 := by
    rw [← abs_ne_zero, hn]
    exact_mod_cast hne
  have hlength : 1 ≤ (natText m).length := List.length_pos_iff.mpr (natText_ne_nil m)
  have hshort : (natText m).length + k ≤ 16 := by
    have hlow : 10 ^ ((natText m).length - 1 + k) ≤ n := by
      rw [pow_add, ← hproduct]
      exact Nat.mul_le_mul_right _ (natText_bounds hm).1
    have hless := (Nat.pow_lt_pow_iff_right (by norm_num : 1 < 10)).mp
      (hlow.trans_lt (hsmall.trans_lt (by norm_num : 2 ^ 53 < 10 ^ 16)))
    omega
  have hpower : ((natText m).length : ℤ) + k - 1 = ((natText m).length + k - 1 : ℕ) := by omega
  have hplain : answerLayout.plainFrom ≤ ((natText m).length + k - 1 : ℕ) ∧
      (((natText m).length + k - 1 : ℕ) : ℤ) < answerLayout.plainBelow := by
    have hfrom : answerLayout.plainFrom = -6 := rfl
    have hbelow : answerLayout.plainBelow = 21 := rfl
    omega
  have hdecimal : answerLayout.decimal ⟨m, k⟩ = natText m ++ zeros k := by
    have hwhole : (natText m).length + k - 1 + 1 = (natText m).length + k := by omega
    simp only [Layout.decimal, hpower, if_pos hplain, positional,
      if_neg (not_lt.mpr (Int.natCast_nonneg _)), Int.toNat_natCast, hwhole,
      if_pos (Nat.le_add_right _ _), Nat.add_sub_cancel_left]
    exact List.append_nil _
  refine ⟨m, k, hm, hproduct, ?_⟩
  simp only [numberText, Layout.text, isNaN_of_isFinite hx, isInf_of_isFinite hx,
    beq_zero_eq hx hvalue, hshortest, hdecimal, lt_zero_iff_exactValue hx, Bool.false_eq_true,
    if_false]

end Shortest

end DeskCalc.Number
