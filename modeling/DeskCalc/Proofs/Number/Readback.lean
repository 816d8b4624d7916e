import DeskCalc.Number.Shortest
import DeskCalc.Proofs.Number.Nearest

/-!
# Shortest decimals read back

The shortest decimal of a finite double has the double as its nearest one.  It is found on a grid
only if it does, the exact value that stands in reserve does, and zeros at the end of the digits
make no difference.
-/

namespace DeskCalc.Number

/-! ## The value of a decimal -/

theorem nearestBits_zero (den : Nat) : nearestBits 0 den = 0 :=
  if_pos rfl

namespace Decimal

/-- The value of a decimal. -/
def value (d : Decimal) : ℚ :=
  d.digits * (10 : ℚ) ^ d.exponent

/-- The bits of the double nearest to a decimal, its sign aside. -/
def bits (d : Decimal) : Nat :=
  nearestBits (d.digits * tenTo d.exponent.toNat) (tenTo (-d.exponent).toNat)

theorem readsAs_iff {d : Decimal} {b : Nat} : d.readsAs b = true ↔ d.bits = b :=
  beq_iff_eq

theorem quotient_eq (d : Decimal) :
    ((d.digits * tenTo d.exponent.toNat : Nat) : ℚ) / (tenTo (-d.exponent).toNat : Nat) =
      d.value := by
  have hten : (10 : ℚ) ≠ 0 := by norm_num
  rw [value, tenTo_eq, tenTo_eq]
  push_cast
  rw [mul_div_assoc, ← zpow_natCast, ← zpow_natCast, ← zpow_sub₀ hten]
  congr 2
  omega

theorem bits_eq_nearestBits {d : Decimal} {num den : Nat} (hden : 0 < den)
    (h : (num : ℚ) / den = d.value) : d.bits = nearestBits num den := by
  have hpos : 0 < tenTo (-d.exponent).toNat := Nat.pow_pos (by omega)
  apply nearestBits_congr hpos hden
  rw [← quotient_eq, div_eq_div_iff (by positivity) (by positivity)] at h
  exact_mod_cast h.symm

theorem bits_congr {d d' : Decimal} (h : d.value = d'.value) : d.bits = d'.bits :=
  bits_eq_nearestBits (Nat.pow_pos (by omega)) ((quotient_eq d').trans h.symm)

theorem bits_eq_zero {d : Decimal} (h : d.digits = 0) : d.bits = 0 := by
  rw [bits, h, Nat.zero_mul, nearestBits_zero]

end Decimal

/-! ## Reading decimals -/

theorem two_pow_le_ten_pow (n : Nat) : 2 ^ (3 * n) ≤ 10 ^ n := by
  rw [pow_mul]
  exact Nat.pow_le_pow_left (by norm_num) n

/-- From `10 ^ 400` on there is only infinity. -/
theorem nearestBits_of_huge {n e : Nat} (hn : n ≠ 0) (he : 400 ≤ e) :
    nearestBits (n * tenTo e) 1 = infinityBits := by
  apply nearestBits_of_le Nat.one_pos
  rw [Nat.mul_one]
  calc 2 ^ 1024 ≤ 2 ^ (3 * e) := Nat.pow_le_pow_right Nat.two_pos (by omega)
    _ ≤ 10 ^ e := two_pow_le_ten_pow e
    _ ≤ n * tenTo e := Nat.le_mul_of_pos_left _ (Nat.pos_of_ne_zero hn)

theorem two_mul_mul_two_pow (n k : Nat) : 2 * (n * 2 ^ k) = n * 2 ^ (k + 1) := by
  rw [pow_succ]
  ring

/-- Below `10 ^ -400` there is only zero. -/
theorem nearestBits_of_tiny {n e : Nat} (he : n.log2 / 3 + 1 + 400 < e) :
    nearestBits n (tenTo e) = 0 := by
  apply nearestBits_of_lt (Nat.pow_pos (by omega))
  rw [two_mul_mul_two_pow]
  obtain ⟨k, rfl⟩ : ∃ k, e = n.log2 / 3 + 1 + k := ⟨e - (n.log2 / 3 + 1), by omega⟩
  calc n * 2 ^ (1074 + 1) < 2 ^ (n.log2 + 1) * 2 ^ (1074 + 1) :=
        Nat.mul_lt_mul_of_pos_right Nat.lt_log2_self (Nat.two_pow_pos _)
    _ ≤ 2 ^ (3 * (n.log2 / 3 + 1)) * 2 ^ (3 * k) :=
        Nat.mul_le_mul (Nat.pow_le_pow_right Nat.two_pos (by omega))
          (Nat.pow_le_pow_right Nat.two_pos (by omega))
    _ ≤ 10 ^ (n.log2 / 3 + 1) * 10 ^ k :=
        Nat.mul_le_mul (two_pow_le_ten_pow _) (two_pow_le_ten_pow k)
    _ = tenTo (n.log2 / 3 + 1 + k) := (pow_add _ _ _).symm

theorem nearest_congr {negative : Bool} {num den num' den' : Nat}
    (h : nearestBits num den = nearestBits num' den') :
    nearest negative num den = nearest negative num' den' := by
  rw [nearest, nearest, h]

/-- Exponents that are not raised to a power make no difference. -/
theorem ofDecimal_eq (negative : Bool) (digits : Nat) (exponent : Int) :
    ofDecimal negative digits exponent =
      nearest negative (digits * tenTo exponent.toNat) (tenTo (-exponent).toNat) := by
  rw [ofDecimal]
  split
  next hzero =>
    apply nearest_congr
    rw [hzero, Nat.zero_mul, nearestBits_zero, nearestBits_zero]
  next hdigits =>
    split
    next hhuge =>
      have hone : tenTo (-exponent).toNat = 1 := by
        rw [show (-exponent).toNat = 0 by omega]
        rfl
      apply nearest_congr
      rw [hone, nearestBits_of_huge hdigits (by omega), ← Nat.one_mul (tenTo 400)]
      exact nearestBits_of_huge Nat.one_ne_zero le_rfl
    · split
      next htiny =>
        have hone : tenTo exponent.toNat = 1 := by
          rw [show exponent.toNat = 0 by omega]
          rfl
        apply nearest_congr
        rw [hone, Nat.mul_one, nearestBits_of_tiny (by omega), nearestBits_zero]
      · rfl

theorem ofDecimal_parts (negative : Bool) (digits : Nat) (exponent : Int) :
    signBit (ofDecimal negative digits exponent) = negative ∧
      unsignedBits (ofDecimal negative digits exponent) = Decimal.bits ⟨digits, exponent⟩ := by
  rw [ofDecimal_eq]
  exact nearest_parts

/-! ## Finding decimals -/

theorem halfEven_cases (num den : Nat) :
    halfEven num den = num / den ∨ halfEven num den = num / den + 1 := by
  simp only [halfEven]
  split
  · exact .inl rfl
  · split
    · exact .inr rfl
    · omega

theorem bits_of_onGrid? {b num den : Nat} {exponent : Int} {d : Decimal}
    (h : onGrid? b num den exponent = some d) : d.bits = b := by
  simp only [onGrid?] at h
  split at h
  next hbelow habove =>
    cases h
    rcases halfEven_cases (num * tenTo (-exponent).toNat) (den * tenTo exponent.toNat) with
      heq | heq
    · rw [heq]
      exact Decimal.readsAs_iff.mp hbelow
    · rw [heq]
      exact Decimal.readsAs_iff.mp habove
  next hbelow _ =>
    cases h
    exact Decimal.readsAs_iff.mp hbelow
  next _ habove =>
    cases h
    exact Decimal.readsAs_iff.mp habove
  · cases h

theorem value_stripZeros (fuel : Nat) (d : Decimal) : (stripZeros fuel d).value = d.value := by
  induction fuel generalizing d with
  | zero => rfl
  | succ fuel ih =>
    rw [stripZeros]
    split
    next h =>
      rw [ih]
      have hdigits : d.digits = d.digits / 10 * 10 := by omega
      simp only [Decimal.value]
      rw [zpow_add_one₀ (by norm_num)]
      conv_rhs => rw [hdigits]
      push_cast
      ring
    · rfl

theorem value_exactDecimal (b : Binary) : b.exactDecimal.value = (b.num : ℚ) / b.den := by
  rw [Binary.exactDecimal, Binary.num, Binary.den]
  split
  next h =>
    have htwo : (2 : ℚ) ≠ 0 := by norm_num
    have hfive : (5 : ℚ) ≠ 0 := by norm_num
    obtain ⟨n, hn⟩ : ∃ n : Nat, b.exponent = -n := ⟨(-b.exponent).toNat, by omega⟩
    have hpow : (10 : ℚ) ^ b.exponent = ((2 : ℚ) ^ n)⁻¹ * ((5 : ℚ) ^ n)⁻¹ := by
      rw [hn, zpow_neg, zpow_natCast, ← mul_inv, ← mul_pow]
      norm_num
    simp only [Decimal.value]
    rw [hpow, hn, show (-(n : Int)).toNat = 0 by omega, show (-(-(n : Int))).toNat = n by omega,
      fiveTo_eq, twoTo_eq, twoTo_eq]
    push_cast
    field_simp
  next h =>
    rw [show (-b.exponent).toNat = 0 by omega]
    simp [Decimal.value, twoTo_eq]

/-- The shortest decimal of a finite double reads back as that double. -/
theorem bits_shortest {x : Float} (hx : x.isFinite = true) :
    (shortest x).bits = unsignedBits x := by
  rw [shortest, Decimal.bits_congr (value_stripZeros _ _)]
  cases hfound : (List.range 17).findSome? fun (n : Nat) =>
      onGrid? (x.toBits.toNat % twoTo 63) (magnitude x).num (magnitude x).den
        (leadingPower (magnitude x).num (magnitude x).den - n) with
  | some d =>
    obtain ⟨n, -, hgrid⟩ := List.exists_of_findSome?_eq_some hfound
    exact bits_of_onGrid? hgrid
  | none =>
    rw [Option.getD_none, ← nearestBits_magnitude hx]
    exact Decimal.bits_eq_nearestBits (magnitude_den_pos x) (value_exactDecimal _).symm

theorem shortest_digits_ne_zero {x : Float} (hx : x.isFinite = true)
    (hne : unsignedBits x ≠ 0) : (shortest x).digits ≠ 0 := by
  intro hzero
  rw [← bits_shortest hx, Decimal.bits_eq_zero hzero] at hne
  exact hne rfl

end DeskCalc.Number
