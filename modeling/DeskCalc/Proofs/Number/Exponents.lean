import DeskCalc.Proofs.Number.Conversions
import DeskCalc.Proofs.Number.Texts

/-!
# Texts with an exponent

A finite number is written with an exponent if and only if its magnitude is not zero and either
below `1e-6` or not below `1e21`.  The shortest decimals stand in the order of the doubles that
they identify, so that the power of ten of the first digit tells on which side of a bound a double
lies.
-/

namespace DeskCalc.Number

open Expression (Spelling)

/-! ## The order of shortest decimals -/

section Shortest

variable {x y : Float}

theorem unsignedBits_nearestTo_value (d : Decimal) :
    unsignedBits (nearestTo d.value) = d.bits := by
  have hnonneg : 0 ≤ d.value := by
    rw [Decimal.value]
    positivity
  apply unsignedBits_nearestTo (Nat.pow_pos (by norm_num))
  rw [abs_of_nonneg hnonneg]
  exact d.quotient_eq.symm

/-- A finite double and its shortest decimal differ in the sign only, as far as they are told
apart. -/
theorem nearestTo_value_shortest (hx : x.isFinite = true) :
    (nearestTo (shortest x).value).isFinite = true ∧
      exactValue (nearestTo (shortest x).value) = |exactValue x| := by
  have hbits : unsignedBits (nearestTo (shortest x).value) = unsignedBits x :=
    (unsignedBits_nearestTo_value _).trans (bits_shortest hx)
  have hnonneg : 0 ≤ (shortest x).value := by
    rw [Decimal.value]
    positivity
  constructor
  · rw [isFinite_iff, hbits, ← isFinite_iff]
    exact hx
  · rw [← abs_exactValue_congr hbits, abs_of_nonneg (exactValue_nearestTo_nonneg hnonneg)]

theorem shortest_congr (h : unsignedBits x = unsignedBits y) : shortest x = shortest y := by
  have hlow : x.toBits.toNat % twoTo 63 = y.toBits.toNat % twoTo 63 := by
    rw [twoTo_eq]
    exact h
  rw [shortest, shortest, magnitude_congr h, hlow]

theorem value_shortest_lt_iff (hx : x.isFinite = true) (hy : y.isFinite = true) :
    (shortest x).value < (shortest y).value ↔ |exactValue x| < |exactValue y| := by
  obtain ⟨hfinite, hvalue⟩ := nearestTo_value_shortest hx
  obtain ⟨hfinite', hvalue'⟩ := nearestTo_value_shortest hy
  constructor
  · intro hlt
    have hle := exactValue_nearestTo_mono hfinite hfinite' hlt.le
    rw [hvalue, hvalue'] at hle
    refine lt_of_le_of_ne hle fun heq => hlt.ne ?_
    have hbits : unsignedBits x = unsignedBits y := le_antisymm
      ((abs_exactValue_le_iff hx hy).mp heq.le) ((abs_exactValue_le_iff hy hx).mp heq.ge)
    rw [shortest_congr hbits]
  · intro hlt
    by_contra hge
    have hle := exactValue_nearestTo_mono hfinite' hfinite (not_lt.mp hge)
    rw [hvalue, hvalue'] at hle
    exact hle.not_gt hlt

end Shortest

/-! ## The power of the first digit -/

/-- The power of ten at which a decimal has its first digit. -/
def Decimal.power (d : Decimal) : ℤ :=
  (natText d.digits).length + d.exponent - 1

theorem Decimal.value_bounds {d : Decimal} (hd : d.digits ≠ 0) :
    10 ^ d.power ≤ d.value ∧ d.value < 10 ^ (d.power + 1) := by
  have hten : (10 : ℚ) ≠ 0 := by norm_num
  set n := (natText d.digits).length with hn
  have hpos : 0 < n := List.length_pos_iff.mpr (natText_ne_nil _)
  have hbelow : 10 ^ (n - 1) ≤ d.digits := by
    by_contra hlt
    rw [not_le] at hlt
    rcases Nat.eq_zero_or_pos (n - 1) with hone | hmore
    · rw [hone] at hlt
      omega
    · have hlength := length_natText_le hmore hlt
      omega
  have habove : d.digits < 10 ^ n := by
    have hlt := digitsValue_lt (natText d.digits)
    rwa [digitsValue_natText] at hlt
  have hpower : d.power = (n - 1 : ℕ) + d.exponent := by
    rw [power]
    omega
  have hnext : d.power + 1 = n + d.exponent := by
    rw [power]
    omega
  rw [value, hnext, hpower, zpow_add₀ hten, zpow_add₀ hten, zpow_natCast, zpow_natCast]
  constructor
  · gcongr
    exact_mod_cast hbelow
  · gcongr
    exact_mod_cast habove

theorem Decimal.power_lt_iff {d : Decimal} (hd : d.digits ≠ 0) (p : ℤ) :
    d.power < p ↔ d.value < 10 ^ p := by
  obtain ⟨hbelow, habove⟩ := d.value_bounds hd
  constructor
  · intro hlt
    exact habove.trans_le (zpow_le_zpow_right₀ (by norm_num) hlt)
  · intro hlt
    exact (zpow_lt_zpow_iff_right₀ (by norm_num : (1 : ℚ) < 10)).mp (hbelow.trans_lt hlt)

/-! ## The mark of an exponent -/

theorem mark_not_mem_digits {s : Text} (h : ∀ c ∈ s, c.isDigit = true) : 'e' ∉ s := by
  intro hmem
  cases h 'e' hmem

theorem mark_not_mem_positional {digits : Text} (h : ∀ c ∈ digits, c.isDigit = true)
    (power : ℤ) : 'e' ∉ positional false digits power := by
  have hdigits := mark_not_mem_digits h
  have hzeros (k : ℕ) : 'e' ∉ zeros k := mark_not_mem_digits fun c hc => isDigit_of_mem_zeros hc
  rw [positional]
  simp only
  split
  · simp [hdigits, hzeros]
  · split
    · simp [hdigits, hzeros]
    · simp only [List.mem_append, List.mem_cons, not_or]
      refine ⟨fun hmem => hdigits (List.mem_of_mem_take hmem), by decide, fun hmem => ?_⟩
      exact hdigits (List.mem_of_mem_drop hmem)

theorem mark_mem_decimal_iff (d : Decimal) :
    'e' ∈ answerLayout.decimal d ↔ d.power < -6 ∨ ¬d.power < 21 := by
  have hdigits : ∀ c ∈ natText d.digits, c.isDigit = true := fun _ hc => isDigit_of_mem_natText hc
  simp only [Layout.decimal]
  rw [show ((natText d.digits).length + d.exponent - 1 : ℤ) = d.power from rfl]
  split
  next hplain =>
    obtain ⟨hlow, hhigh⟩ : -6 ≤ d.power ∧ d.power < 21 := hplain
    simp [answerLayout, mark_not_mem_positional hdigits, hhigh, not_lt.mpr hlow]
  next hplain =>
    have hbounds : ¬(-6 ≤ d.power ∧ d.power < 21) := hplain
    have hpower : d.power < -6 ∨ ¬d.power < 21 := by omega
    simp only [hpower, iff_true]
    simp [scientific]

theorem mark_mem_signed (negative : Bool) (s : Text) : 'e' ∈ signed negative s ↔ 'e' ∈ s := by
  cases negative <;> simp [signed]

/-- The text of a finite number has an exponent if and only if the number is small or large. -/
theorem mark_mem_numberText_iff {x : Float} (hx : x.isFinite = true) : 'e' ∈ numberText x ↔
    exactValue x ≠ 0 ∧ (|exactValue x| < exactValue 1e-6 ∨ 10 ^ 21 ≤ |exactValue x|) := by
  rw [numberText, Layout.text, isNaN_of_isFinite hx, isInf_of_isFinite hx]
  simp only [Bool.false_eq_true, if_false]
  by_cases hzero : exactValue x = 0
  · have hbits := exactValue_eq_zero_iff.mp hzero
    rw [if_pos ((beq_zero_iff hx).mpr hbits), mark_mem_signed]
    simp only [hzero, ne_eq, not_true_eq_false, false_and, iff_false]
    exact mark_not_mem_positional (List.forall_mem_singleton.mpr rfl) 0
  · have hbits := mt exactValue_eq_zero_iff.mpr hzero
    rw [if_neg (mt (beq_zero_iff hx).mp hbits), mark_mem_signed, mark_mem_decimal_iff]
    have hdigits := shortest_digits_ne_zero hx hbits
    have hlow : (shortest 1e-6).value = 10 ^ (-6 : ℤ) := by
      have hshortest : shortest 1e-6 = ⟨1, -6⟩ := by decide +kernel
      rw [hshortest, Decimal.value, Nat.cast_one, one_mul]
    have hhigh : (shortest 1e21).value = 10 ^ (21 : ℤ) := by
      have hshortest : shortest 1e21 = ⟨1, 21⟩ := by decide +kernel
      rw [hshortest, Decimal.value, Nat.cast_one, one_mul]
    have hpositive : |exactValue 1e-6| = exactValue 1e-6 := abs_of_nonneg
      (exactValue_nonneg_of_signBit (by decide +kernel))
    rw [Decimal.power_lt_iff hdigits, Decimal.power_lt_iff hdigits, ← hlow, ← hhigh,
      value_shortest_lt_iff hx rfl, value_shortest_lt_iff hx rfl, exactValue_plainBound, hpositive,
      not_lt, abs_of_nonneg (by norm_num : (0 : ℚ) ≤ 10 ^ 21)]
    simp [hzero]

/-! ## Numbers without a minus -/

section Unsigned

variable {x y : Float}

/-- The double is a number without a minus. -/
structure Unsigned (x : Float) : Prop where
  notNaN : x.isNaN = false
  sign : signBit x = false

theorem unsigned_nearestTo {q : ℚ} (hq : 0 ≤ q) : Unsigned (nearestTo q) :=
  ⟨isNaN_nearestTo q, (signBit_nearestTo q).trans (decide_eq_false hq.not_gt)⟩

theorem unsigned_ofQuotient? {num den : ℕ} (hden : 0 < den) (h : ofQuotient? num den = some x) :
    Unsigned x ∧ x.isFinite = true := by
  have hnonneg : (0 : ℚ) ≤ num / den := by positivity
  have hnearest : nearest false num den = nearestTo (num / den) :=
    nearest_eq_nearestTo hden (decide_eq_false hnonneg.not_gt).symm (abs_of_nonneg hnonneg)
  simp only [ofQuotient?] at h
  split at h
  next hfinite =>
    cases h
    exact ⟨hnearest ▸ unsigned_nearestTo hnonneg, hfinite⟩
  next => cases h

theorem unsigned_ofInt? {n : ℕ} (h : ofInt? n = some x) : Unsigned x ∧ x.isFinite = true := by
  have hsign : decide ((n : ℤ) < 0) = false := decide_eq_false (by omega)
  have hquotient : ofQuotient? n 1 = some x := by
    rw [← h, ofInt?, ofQuotient?, hsign, Int.natAbs_natCast]
  exact unsigned_ofQuotient? Nat.one_pos hquotient

section Zero

open Float.Model

/-- To add zero changes nothing, but for a negative zero. -/
theorem add_zero_of_unsigned (hx : Unsigned x) (hx' : x.isFinite = true) (hy : Unsigned y)
    (hy' : y.isFinite = true) (hzero : exactValue y = 0) : x + y = x := by
  have hadd : x + y = packed (UnpackedFloat.add Format.binary64 x.toModel.unpack
      y.toModel.unpack) := rfl
  have hsame : UnpackedFloat.add Format.binary64 x.toModel.unpack (.zero .positive) =
      x.toModel.unpack := by
    by_cases hzero : exactValue x = 0
    · rw [unpack_of_eq_zero hx' hzero, hx.sign]
      rfl
    · obtain ⟨m, e, hm, hunpack, -, -⟩ := unpack_of_ne_zero hx' hzero
      rw [hunpack]
      rfl
  have hpositive : y.toModel.unpack = .zero .positive := by
    rw [unpack_of_eq_zero hy' hzero, hy.sign]
    rfl
  rw [hadd, hpositive, hsame]
  exact ofModel_pack hx'

end Zero

/-- To multiply by one changes nothing. -/
theorem mul_one_of_unsigned (hx : Unsigned x) : x * 1 = x := by
  have hone : exactValue 1 = 1 := by
    have hunpack : (1 : Float).toModel.unpack =
        .finite .positive 4503599627370496 (-52) (by decide) := by
      rfl
    rw [exactValue_of_unpack rfl hunpack]
    show (((4503599627370496 : ℕ) : ℤ) : ℚ) * 2 ^ (-52 : ℤ) = 1
    norm_num
  rcases finite_or_infinite hx.notNaN with hfinite | rfl | rfl
  · by_cases hzero : exactValue x = 0
    · have hbits : x = 0 := eq_of_parts (hx.sign.trans (by decide))
        ((exactValue_eq_zero_iff.mp hzero).trans (by decide))
      rw [hbits]
      decide
    · rw [mul_eq hfinite rfl hzero (by rw [hone]; exact one_ne_zero), hone, mul_one,
        nearestTo_exactValue hfinite hzero]
  · decide
  · cases hx.sign

/-- Sums of doubles without a minus are without a minus. -/
theorem Unsigned.add (hx : Unsigned x) (hy : Unsigned y) (hx' : x.isFinite = true)
    (hy' : y.isFinite = true) : Unsigned (x + y) := by
  by_cases hzero : exactValue y = 0
  · rwa [add_zero_of_unsigned hx hx' hy hy' hzero]
  · rw [add_eq hx' hy' hzero]
    exact unsigned_nearestTo (add_nonneg (exactValue_nonneg_of_signBit hx.sign)
      (exactValue_nonneg_of_signBit hy.sign))

end Unsigned

/-! ## Plain numbers -/

section Plain

variable {x : Float}

/-- Zero, and what lies from `1e-6` up to below `1e21`. -/
def IsPlain (x : Float) : Prop :=
  (x == 0) = true ∨ 1e-6 ≤ x ∧ x < 1e21

/-- A number without a minus is plain if and only if its text is finite and has no exponent. -/
theorem isPlain_iff (hx : Unsigned x) : IsPlain x ↔ x.isFinite = true ∧ 'e' ∉ numberText x := by
  rcases finite_or_infinite hx.notNaN with hfinite | rfl | rfl
  · have hnonneg : |exactValue x| = exactValue x :=
      abs_of_nonneg (exactValue_nonneg_of_signBit hx.sign)
    rw [IsPlain, mark_mem_numberText_iff hfinite, hnonneg, beq_zero_iff_exactValue hfinite,
      le_iff rfl hfinite, lt_iff hfinite rfl, exactValue_plainBound, not_and, not_or, not_lt,
      not_le, or_iff_not_imp_left, and_iff_right hfinite]
  · have hplain : ¬IsPlain infinity := by
      rintro (hzero | ⟨-, hlt⟩)
      · revert hzero
        decide
      · revert hlt
        decide
    have hfinite : infinity.isFinite = false := by decide
    simp [hplain, hfinite]
  · cases hx.sign

theorem mark_mem_text_iff (n : Spelling) : 'e' ∈ n.text ↔ n.power? ≠ none := by
  obtain ⟨whole, fraction?, power?⟩ := n
  have hwhole := mark_not_mem_digits whole.areDigits
  have hfraction : 'e' ∉ Spelling.fractionText ⟨whole, fraction?, power?⟩ := by
    rw [Spelling.fractionText]
    cases fraction? with
    | none => exact List.not_mem_nil
    | some digits => simp [mark_not_mem_digits digits.areDigits]
  rw [Spelling.text, List.mem_append, List.mem_append, Spelling.powerText]
  cases power? with
  | none => simp [hwhole, hfraction]
  | some power => simp [mark_mem_power power]

/-- The text of a plain number is spelled without an exponent. -/
theorem IsPlain.exists_spelling (h : IsPlain x) (hx : Unsigned x) :
    ∃ n : Spelling, n.power? = none ∧ numberText x = n.text ∧ n.numeral.value = x := by
  obtain ⟨hfinite, hmark⟩ := (isPlain_iff hx).mp h
  obtain ⟨n, htext, hvalue⟩ := Expression.exists_spelling hfinite
  have hnonneg : decide (x < 0) = false := by
    rw [decide_eq_false_iff_not, lt_zero_iff_exactValue hfinite, not_lt]
    exact exactValue_nonneg_of_signBit hx.sign
  rw [hnonneg] at htext hvalue
  refine ⟨n, ?_, htext, hvalue.trans ?_⟩
  · rw [htext] at hmark
    exact not_not.mp (mt (mark_mem_text_iff n).mpr hmark)
  · rw [Expression.plainZero]
    split
    next hzero =>
      have hbits := (beq_zero_iff hfinite).mp hzero
      exact eq_of_parts (Eq.trans (by decide) hx.sign.symm) (Eq.trans (by decide) hbits.symm)
    next => rfl

/-- If decimals are digits and points only, they are spelled without an exponent. -/
theorem exists_spelling_fixed {places : ℕ}
    (h : ∀ c ∈ fixed x places, Text.isDigit c = true ∨ c = '.') :
    ∃ n : Spelling, n.power? = none ∧ fixed x places = n.text := by
  have hnot {c : Char} (hdigit : Text.isDigit c = false) (hpoint : c ≠ '.') : c ∉ fixed x places := by
    intro hc
    rcases h c hc with hc | hc
    · rw [hdigit] at hc
      cases hc
    · exact hpoint hc
  have hfinite : x.isFinite = true := by
    by_contra hinfinite
    have htext : fixed x places = numberText x := by simp [fixed, hinfinite]
    rw [htext] at hnot
    cases hnan : x.isNaN with
    | true =>
      have hletter : 'N' ∈ numberText x := by
        rw [numberText, Layout.text, if_pos hnan]
        decide
      exact hnot (by decide) (by decide) hletter
    | false =>
      have hletter : 'I' ∈ numberText x := by
        rcases finite_or_infinite hnan with hfinite | rfl | rfl
        · exact absurd hfinite hinfinite
        · decide
        · decide
      exact hnot (by decide) (by decide) hletter
  obtain ⟨negative, n, htext⟩ : ∃ (negative : Bool) (n : Spelling),
      fixed x places = signed negative n.text := by
    by_cases hlt : |exactValue x| < 10 ^ 21
    · obtain ⟨n, htext, -⟩ := exists_fixed hfinite hlt places
      exact ⟨_, n, htext⟩
    · obtain ⟨n, htext, -⟩ := Expression.exists_spelling hfinite
      have hlarge := (ge_plainBound_iff hfinite).mpr (not_lt.mp hlt)
      refine ⟨_, n, Eq.trans ?_ htext⟩
      rw [fixed, decide_eq_true hlarge, Bool.or_true, if_pos rfl]
  cases negative with
  | true =>
    have hminus : '-' ∈ fixed x places := by
      rw [htext]
      exact List.mem_cons_self
    exact absurd hminus (hnot (by decide) (by decide))
  | false =>
    have hmark : 'e' ∉ n.text := by
      intro hmem
      rw [signed, if_neg Bool.false_ne_true] at htext
      exact hnot (by decide) (by decide) (htext ▸ hmem)
    exact ⟨n, not_not.mp (mt (mark_mem_text_iff n).mpr hmark), htext⟩

end Plain

end DeskCalc.Number
