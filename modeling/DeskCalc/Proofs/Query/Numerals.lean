import DeskCalc.Proofs.Number.Fractions
import DeskCalc.Proofs.Query.Answers

/-!
# Numerals of other bases

A finite double is written exactly in the bases two, eight and sixteen: behind the mark of the base
stand its sign, its whole part without a zero in front, and its fraction if it has one, which ends
with its last digit that is not zero.

The main statement is `radix_text_exact`.
-/

namespace DeskCalc.Query

open Number (Radix digitChar digitOf? digitsIn digitsInDoubles exactValue fractionDigits
  fractionValue fractionalPart magnitude ofDigits pointed signed wholePart)

/-! ## Rows of digits -/

/-- Digits as a base writes them. -/
def written (r : Radix) (digits : List ℕ) : Text :=
  (digits.map digitChar).map (writtenDigit r)

/-- The number that a row of written digits denotes in a base. -/
def numeralValue (base : ℕ) (digits : Text) : ℕ :=
  ofDigits base (digits.map fun c => (digitOf? c).getD 0)

/-- A whole part and a fraction that denote a number in a base, the one without a zero in front and
the other without a zero at its end. -/
structure IsNumeral (r : Radix) (whole fraction : Text) (v : ℚ) : Prop where
  nonempty : whole ≠ []
  digits : ∀ c ∈ whole ++ fraction, c ∈ "0123456789ABCDEF".toList.take r.base
  lead : whole.head? = some '0' → whole = ['0']
  last : fraction.getLast? ≠ some '0'
  value : (numeralValue r.base whole : ℚ) +
    numeralValue r.base fraction / r.base ^ fraction.length = v

section Written

variable {r : Radix} {digits : List ℕ}

@[simp]
theorem length_written : (written r digits).length = digits.length := by
  rw [written, List.length_map, List.length_map]

@[simp]
theorem written_eq_nil_iff : written r digits = [] ↔ digits = [] := by
  rw [written, List.map_eq_nil_iff, List.map_eq_nil_iff]

theorem mem_written_iff {c : Char} :
    c ∈ written r digits ↔ ∃ d ∈ digits, writtenDigit r (digitChar d) = c := by
  simp only [written, List.mem_map, exists_exists_and_eq_and]

theorem numeralValue_written (h : ∀ d ∈ digits, d < 16) :
    numeralValue r.base (written r digits) = ofDigits r.base digits := by
  rw [numeralValue, written, List.map_map, List.map_map]
  congr 1
  refine (List.map_congr_left fun d hd => ?_).trans (List.map_id digits)
  rw [Function.comp, Function.comp, digitOf?_writtenDigit r (h d hd)]
  rfl

theorem mem_digits_of_lt {d : ℕ} (hd : d < r.base) :
    writtenDigit r (digitChar d) ∈ "0123456789ABCDEF".toList.take r.base := by
  have hall : ∀ r ∈ Radix.all, ∀ d < r.base,
      writtenDigit r (digitChar d) ∈ "0123456789ABCDEF".toList.take r.base := by decide
  exact hall r (by cases r <;> decide) d hd

theorem writtenDigit_eq_zero {d : ℕ} (hd : d < 16) (h : writtenDigit r (digitChar d) = '0') :
    d = 0 := by
  have hread := digitOf?_writtenDigit r hd
  rw [h] at hread
  exact (Option.some.inj hread).symm

end Written

/-- The digits of a whole number and those of a fraction are a numeral. -/
theorem isNumeral_written (r : Radix) (n : ℕ) {fraction : List ℕ}
    (hdigits : ∀ d ∈ fraction, d < r.base) (hlast : fraction.getLast? ≠ some 0) :
    IsNumeral r (written r (digitsIn r.base n)) (written r fraction)
      (n + fractionValue r.base fraction) := by
  obtain ⟨hlow, hhigh⟩ := base_bounds r
  have hwhole {d : ℕ} (hd : d ∈ digitsIn r.base n) : d < r.base := Number.lt_of_mem_digitsIn hlow hd
  have hfraction {d : ℕ} (hd : d ∈ fraction) : d < 16 := (hdigits d hd).trans_le hhigh
  refine ⟨?_, fun c hc => ?_, fun hlead => ?_, fun hzero => ?_, ?_⟩
  · rw [ne_eq, written_eq_nil_iff]
    exact Number.digitsIn_ne_nil hlow n
  · rcases List.mem_append.mp hc with hc | hc
    · obtain ⟨d, hd, rfl⟩ := mem_written_iff.mp hc
      exact mem_digits_of_lt (hwhole hd)
    · obtain ⟨d, hd, rfl⟩ := mem_written_iff.mp hc
      exact mem_digits_of_lt (hdigits d hd)
  · obtain ⟨d, ds, heq, honly⟩ := Number.digitsIn_head hlow n
    have hmem : d < r.base := hwhole (heq ▸ List.mem_cons_self)
    rw [heq] at hlead ⊢
    have hd : d = 0 := writtenDigit_eq_zero (hmem.trans_le hhigh) (Option.some.inj hlead)
    rw [(honly hd).2, hd]
    cases r <;> rfl
  · rw [written, List.getLast?_map, List.getLast?_map, Option.map_map] at hzero
    obtain ⟨d, hd, hchar⟩ := Option.map_eq_some_iff.mp hzero
    rw [writtenDigit_eq_zero (hfraction (List.mem_of_getLast? hd)) hchar] at hd
    exact hlast hd
  · rw [numeralValue_written fun d hd => (hwhole hd).trans_le hhigh,
      numeralValue_written fun d hd => hfraction hd, Number.ofDigits_digitsIn hlow, length_written]
    rfl

/-! ## Texts of doubles -/

section Text

variable {r : Radix} {x : Float}

/-- The digits behind the point of a double. -/
def fractionOfDouble (base : ℕ) (x : Float) : List ℕ :=
  fractionDigits base 1100 ((magnitude x).num % (magnitude x).den) (magnitude x).den

theorem radixMagnitude_eq (base : ℕ) (x : Float) : Number.radixMagnitude base x =
    pointed ((digitsIn base (wholePart x)).map digitChar)
      ((fractionOfDouble base x).map digitChar) := by
  rw [Number.radixMagnitude, pointed, wholePart, fractionOfDouble]
  simp only [List.map_eq_nil_iff]
  split
  next h => rw [if_pos h]
  next h => rw [if_neg h]

theorem map_pointed (r : Radix) (whole fraction : Text) :
    (pointed whole fraction).map (writtenDigit r) =
      pointed (whole.map (writtenDigit r)) (fraction.map (writtenDigit r)) := by
  have hpoint : writtenDigit r '.' = '.' := by cases r <;> decide
  rw [pointed, pointed]
  simp only [List.map_eq_nil_iff]
  split
  · rfl
  · rw [List.map_append, List.map_cons, hpoint]

theorem radix_text_eq (hr : r ≠ .decimal) (hx : x.isFinite = true) :
    r.text x = '0' :: r.mark :: signed (decide (exactValue x < 0))
      (pointed (written r (digitsIn r.base (wholePart x)))
        (written r (fractionOfDouble r.base x))) := by
  have hplain : ¬(decide (r = .decimal) || !x.isFinite) = true := by
    rw [hx, decide_eq_false hr]
    exact Bool.false_ne_true
  simp only [Radix.text, if_neg hplain, written_signed, radixMagnitude_eq, map_pointed,
    Number.lt_zero_iff_exactValue hx]
  rfl

theorem exists_base_eq (hr : r ≠ .decimal) : ∃ s, 1 ≤ s ∧ s ≤ 4 ∧ r.base = 2 ^ s := by
  cases r with
  | binary => exact ⟨1, by decide⟩
  | octal => exact ⟨3, by decide⟩
  | decimal => exact absurd rfl hr
  | hex => exact ⟨4, by decide⟩

/-- A double is an integer if its denominator divides its numerator. -/
theorem exists_int_iff :
    (∃ n : ℤ, exactValue x = n) ↔ (magnitude x).num % (magnitude x).den = 0 := by
  have hden : ((magnitude x).den : ℚ) ≠ 0 := by exact_mod_cast (Number.magnitude_den_pos x).ne'
  have habs := Number.abs_exactValue x
  constructor
  · rintro ⟨n, hn⟩
    rw [hn, eq_div_iff hden, ← Int.cast_abs, Int.abs_eq_natAbs, Int.cast_natCast] at habs
    have hproduct : n.natAbs * (magnitude x).den = (magnitude x).num := by exact_mod_cast habs
    exact Nat.mod_eq_zero_of_dvd ⟨n.natAbs, by rw [← hproduct, Nat.mul_comm]⟩
  · intro hzero
    obtain ⟨n, hn⟩ := Nat.dvd_of_mod_eq_zero hzero
    rw [hn, Nat.cast_mul, mul_div_cancel_left₀ _ hden] at habs
    rcases abs_eq (Nat.cast_nonneg n) |>.mp habs with h | h
    · exact ⟨n, by rw [h, Int.cast_natCast]⟩
    · exact ⟨-n, by rw [h, Int.cast_neg, Int.cast_natCast]⟩

/-- The fraction that is written ends, in every base with a power of two. -/
theorem dvd_fraction (hr : r ≠ .decimal) (hx : x.isFinite = true) :
    (magnitude x).den ∣ (magnitude x).num % (magnitude x).den * r.base ^ 1074 := by
  obtain ⟨s, hone, -, hbase⟩ := exists_base_eq hr
  exact Number.den_dvd hx hbase hone _

/-- From 1074 digits on, it does not matter how many are allowed. -/
theorem fractionOfDouble_eq (hr : r ≠ .decimal) (hx : x.isFinite = true) {cap : ℕ}
    (hcap : 1074 ≤ cap) : fractionOfDouble r.base x =
      fractionDigits r.base cap ((magnitude x).num % (magnitude x).den) (magnitude x).den := by
  have hlt := Nat.mod_lt (magnitude x).num (Number.magnitude_den_pos x)
  have hdvd := dvd_fraction hr hx
  exact (Number.fractionDigits_fuel hlt hdvd (by norm_num)).trans
    (Number.fractionDigits_fuel hlt hdvd hcap).symm

/-- What stands behind the mark and the sign of a finite double is a numeral of its magnitude. -/
theorem isNumeral_radix (hr : r ≠ .decimal) (hx : x.isFinite = true) :
    IsNumeral r (written r (digitsIn r.base (wholePart x))) (written r (fractionOfDouble r.base x))
      |exactValue x| := by
  obtain ⟨hlow, -⟩ := base_bounds r
  have hpos : 0 < r.base := by omega
  have hden := Number.magnitude_den_pos x
  have hlt := Nat.mod_lt (magnitude x).num hden
  have hdvd := dvd_fraction hr hx
  have hnumeral := isNumeral_written r (wholePart x)
    (lt_of_mem_fractionDigits hpos hden hlt) (Number.getLast?_fractionDigits hpos hlt hdvd)
  rw [Number.fractionValue_fractionDigits hpos hlt hdvd,
    ← fractionOfDouble_eq hr hx le_rfl] at hnumeral
  have hvalue : (wholePart x : ℚ) +
      ((magnitude x).num % (magnitude x).den : ℕ) / (magnitude x).den = |exactValue x| := by
    have hne : ((magnitude x).den : ℚ) ≠ 0 := by exact_mod_cast hden.ne'
    rw [Number.abs_exactValue, wholePart, eq_div_iff hne, add_mul, div_mul_cancel₀ _ hne]
    exact_mod_cast Nat.div_add_mod' _ _
  rwa [hvalue] at hnumeral

theorem written_fraction_eq_nil_iff :
    written r (fractionOfDouble r.base x) = [] ↔ ∃ n : ℤ, exactValue x = n := by
  rw [written_eq_nil_iff, exists_int_iff]
  exact Number.fractionDigits_eq_nil_iff

/-- A finite double is written exactly in every base but ten: a numeral of its magnitude stands
behind the mark and the sign, with a fraction of at most 1074 digits if the double is no integer.
The digits of the fraction are also those that come out in doubles, if their number is not limited
to less. -/
theorem radix_text_exact (hr : r ≠ .decimal) (hx : x.isFinite = true) :
    ∃ whole fraction, r.text x = '0' :: r.mark ::
        signed (decide (exactValue x < 0)) (pointed whole fraction) ∧
      IsNumeral r whole fraction |exactValue x| ∧
      (fraction = [] ↔ ∃ n : ℤ, exactValue x = n) ∧ fraction.length ≤ 1074 ∧
      ∀ cap, 1074 ≤ cap → fraction = written r (digitsInDoubles r.base cap (fractionalPart x)) := by
  obtain ⟨s, -, hfour, hbase⟩ := exists_base_eq hr
  have hlt := Nat.mod_lt (magnitude x).num (Number.magnitude_den_pos x)
  refine ⟨_, _, radix_text_eq hr hx, isNumeral_radix hr hx, written_fraction_eq_nil_iff, ?_,
    fun cap hcap => ?_⟩
  · rw [length_written, fractionOfDouble_eq hr hx le_rfl]
    exact Number.length_fractionDigits_le hlt (dvd_fraction hr hx)
  · rw [Number.digitsInDoubles_fractionalPart hbase hfour hx, fractionOfDouble_eq hr hx hcap]

/-- Two and a half in binary is written with one digit behind the point. -/
theorem radix_text_exact_five_halves : Radix.binary ≠ .decimal ∧ (2.5 : Float).isFinite = true ∧
    ∃ whole fraction, Radix.binary.text 2.5 = '0' :: 'b' :: pointed whole fraction ∧
      IsNumeral .binary whole fraction (5 / 2) ∧ fraction ≠ [] ∧
      ∀ cap, 1074 ≤ cap → fraction = written .binary (digitsInDoubles 2 cap (fractionalPart 2.5)) := by
  have hfinite : (2.5 : Float).isFinite = true := rfl
  have hunpack : (2.5 : Float).toModel.unpack =
      .finite .positive (5 * 2 ^ 50) (-51) (by decide) := rfl
  have hvalue : exactValue 2.5 = 5 / 2 := by
    rw [Number.exactValue_of_unpack hfinite hunpack]
    show (((5 * 2 ^ 50 : ℕ) : ℤ) : ℚ) * 2 ^ (-51 : ℤ) = 5 / 2
    norm_num
  have hfraction : ¬∃ n : ℤ, (5 / 2 : ℚ) = n := by
    rintro ⟨n, hn⟩
    rw [div_eq_iff two_ne_zero] at hn
    have hodd : (5 : ℤ) = n * 2 := by exact_mod_cast hn
    omega
  have hbase : Radix.binary ≠ .decimal := by decide
  obtain ⟨whole, fraction, htext, hnumeral, hempty, -, hloop⟩ := radix_text_exact hbase hfinite
  rw [hvalue, decide_eq_false (by norm_num)] at htext
  rw [hvalue, abs_of_pos (by norm_num)] at hnumeral
  rw [hvalue] at hempty
  exact ⟨hbase, hfinite, whole, fraction, htext, hnumeral, mt hempty.mp hfraction, hloop⟩

end Text

end DeskCalc.Query
