import DeskCalc.Measure.MixedSum
import DeskCalc.Proofs.Measure.Quantities
import DeskCalc.Proofs.Measure.Units
import DeskCalc.Proofs.Number.Values
import DeskCalc.Proofs.Text.Strip

/-!
# Operands of sums

An operand is a decimal, perhaps a fraction behind it, and a unit.  Its shape reads exactly the
texts that are put together from such parts, and reads them as these parts.  No sign inside an
operand separates, since the units that are known have hyphens between letters only.
-/

namespace DeskCalc.Measure

open Number (Numeral)
open Text (Shape StopsBefore isBlank isDigit)
open Text.Shape (Fits FitsFirst FitsOnly fits_atEnd fits_bind fits_char fits_opt fits_pure
  fitsFirst_opt fitsOnly_opt_none fitsOnly_pure fitsOnly_run fitsOnly_run1 not_fits_run1
  of_fits_run of_fits_run1)

/-- A fraction behind a number, with the blanks between the two. -/
def behindNumber : Shape (Text × Text × Text) := do
  let gap ← Shape.blanks1
  let (numerator, denominator) ← fraction
  return (gap, numerator, denominator)

/-- Blanks in front of a unit are no gap in front of a fraction. -/
theorem not_fits_behindNumber {gap unit rest : Text} {r : Text × Text × Text}
    (hgap : ∀ c ∈ gap, isBlank c = true) (hunit : ∀ c ∈ unit, isMicroUnitChar c = true) :
    ¬Fits behindNumber (gap ++ unit) r rest := by
  intro hfits
  simp only [behindNumber, fraction, fits_bind] at hfits
  obtain ⟨w, t, hblanks, parts, t', ⟨numerator, t'', hnumerator, -⟩, -⟩ := hfits
  obtain ⟨-, rfl⟩ := eq_of_fits_run1 hblanks hgap
    (stopsBefore_unit (fun _ => isBlank_of_isMicroUnitChar) hunit)
  exact not_fits_run1 (stopsBefore_unit (fun _ => isDigit_of_isMicroUnitChar) hunit) hnumerator

theorem fitsOnly_behindNumber {gap numerator denominator rest : Text} (hgap : IsRow isBlank gap)
    (hnumerator : IsRow isDigit numerator) (hdenominator : IsRow isDigit denominator)
    (hrest : StopsBefore isDigit rest) :
    FitsOnly behindNumber (gap ++ (ratioText numerator denominator ++ rest))
      (gap, numerator, denominator) rest := by
  have hstart : StopsBefore isBlank (ratioText numerator denominator ++ rest) := by
    obtain ⟨c, t, rfl⟩ := List.exists_cons_of_ne_nil hnumerator.1
    exact Text.stopsBefore_cons.mpr (Text.isBlank_of_isDigit (hnumerator.2 c List.mem_cons_self))
  exact (fitsOnly_run1 hgap.1 hgap.2 hstart).bind
    ((fitsOnly_fraction hnumerator hdenominator hrest).bind (fitsOnly_pure _ _))

namespace WrittenOperand

/-- The parts of an operand are written in their characters. -/
structure WellFormed (o : WrittenOperand) : Prop where
  whole : IsRow isDigit o.number.whole
  places : ∀ c ∈ o.number.fraction, isDigit c = true
  exponent : o.number.exponent = 0
  ratio : ∀ r ∈ o.fraction, IsRow isBlank r.1 ∧ IsRow isDigit r.2.1 ∧ IsRow isDigit r.2.2
  unit : IsRow isMicroUnitChar o.unit

/-- The text of an operand, with `gap` in front of its unit. -/
def textWith (o : WrittenOperand) (gap : Text) : Text :=
  o.literal ++ (gap ++ o.unit)

variable {o : WrittenOperand} {gap s rest : Text}

namespace WellFormed

theorem number_eq (h : o.WellFormed) : o.number = ⟨o.number.whole, o.number.fraction, 0⟩ := by
  obtain ⟨⟨whole, places, exponent⟩, fraction, unit⟩ := o
  obtain rfl : exponent = 0 := h.exponent
  rfl

/-- The texts of well-formed operands are read as what they are put together from. -/
theorem read? (h : o.WellFormed) (hgap : ∀ c ∈ gap, isBlank c = true) :
    operandShape.read? (o.textWith gap) = some o := by
  have hnumber := h.number_eq
  obtain ⟨number, fraction?, unit⟩ := o
  have hunit : IsRow isMicroUnitChar unit := h.unit
  obtain ⟨hdigit, hpoint⟩ := stopsBefore_gap hgap hunit.2
  have hend : FitsFirst (do let _ ← Shape.blanks; let unit ← unitToEnd
                            return (⟨number, fraction?, unit⟩ : WrittenOperand))
      (gap ++ unit) ⟨number, fraction?, unit⟩ [] :=
    (fitsOnly_run hgap (stopsBefore_unit (fun _ => isBlank_of_isMicroUnitChar) hunit.2)).fitsFirst.bind
      ((fitsOnly_unitToEnd hunit.1 hunit.2).fitsFirst.bind (fitsOnly_pure _ _).fitsFirst)
  have hdecimal {rest : Text} (hdigit : StopsBefore isDigit rest)
      (hpoint : StopsBefore (· == '.') rest) :
      FitsFirst decimal (decimalText number ++ rest) number rest := by
    have hfirst := fitsFirst_decimal h.whole h.places hdigit hpoint
    rwa [← hnumber] at hfirst
  have hall : FitsFirst operandShape (textWith ⟨number, fraction?, unit⟩ gap)
      ⟨number, fraction?, unit⟩ [] := by
    cases fraction? with
    | none =>
      have hnone : FitsFirst (Shape.opt behindNumber) (gap ++ unit) none (gap ++ unit) :=
        (fitsOnly_opt_none fun _ _ => not_fits_behindNumber hgap hunit.2).fitsFirst
      exact (hdecimal hdigit hpoint).bind (hnone.bind hend)
    | some ratio =>
      obtain ⟨g, numerator, denominator⟩ := ratio
      obtain ⟨hg, hnumerator, hdenominator⟩ := h.ratio _ rfl
      have htext : textWith ⟨number, some (g, numerator, denominator), unit⟩ gap =
          decimalText number ++ (g ++ (ratioText numerator denominator ++ (gap ++ unit))) := by
        simp [textWith, literal, ratioText]
      obtain ⟨c, t, rfl⟩ := List.exists_cons_of_ne_nil hg.1
      have hc := hg.2 c List.mem_cons_self
      have hpoint' : (c == '.') = false := by
        rw [beq_eq_false_iff_ne]
        rintro rfl
        cases hc
      have hsome : FitsFirst (Shape.opt behindNumber)
          (c :: t ++ (ratioText numerator denominator ++ (gap ++ unit)))
          (some (c :: t, numerator, denominator)) (gap ++ unit) :=
        fitsFirst_opt (fitsOnly_behindNumber hg hnumerator hdenominator hdigit).fitsFirst
      rw [htext]
      exact (hdecimal (Text.stopsBefore_cons.mpr (Text.isDigit_of_isBlank hc))
        (Text.stopsBefore_cons.mpr hpoint')).bind (hsome.bind hend)
  exact hall.read?

end WellFormed

/-- Nothing else is read as an operand, apart from a line break behind it. -/
theorem of_read? (h : operandShape.read? s = some o) : o.WellFormed ∧ ∃ gap tail,
    (∀ c ∈ gap, isBlank c = true) ∧ (tail = [] ∨ tail = ['\n']) ∧ s = o.textWith gap ++ tail := by
  obtain ⟨rest, hfits⟩ := Shape.fits_of_read? h
  simp only [operandShape, fits_bind, fits_pure, fits_opt] at hfits
  obtain ⟨n, t, hdecimal, fraction?, t', hfraction, gap, u, hgap, v, r, hunit, rfl, rfl⟩ := hfits
  obtain ⟨hwhole, hplaces, hexponent, rfl⟩ := eq_of_fits_decimal hdecimal
  obtain ⟨hblanks, rfl⟩ := of_fits_run hgap
  obtain ⟨hchars, tail, rfl, htail⟩ := isMicroUnitChar_of_unitToEnd hunit
  have hrow : IsRow isMicroUnitChar v := ⟨(Query.of_fits_unitToEnd hunit).1, hchars⟩
  rcases hfraction with ⟨ratio, rfl, g, t'', hg, parts, w, hparts, rfl, rfl⟩ | ⟨rfl, rfl⟩
  · obtain ⟨hne, hfirst, rfl⟩ := of_fits_run1 hg
    obtain ⟨hnumerator, hdenominator, rfl⟩ := eq_of_fits_fraction hparts
    refine ⟨⟨hwhole, hplaces, hexponent, ?_, hrow⟩, gap, tail, hblanks, htail, ?_⟩
    · rintro _ ⟨⟩
      exact ⟨⟨hne, hfirst⟩, hnumerator, hdenominator⟩
    · simp [textWith, literal, ratioText]
  · refine ⟨⟨hwhole, hplaces, hexponent, ?_, hrow⟩, gap, tail, hblanks, htail, ?_⟩
    · intro ratio hratio
      exact absurd hratio (Option.not_mem_none ratio)
    · simp [textWith, literal]

/-! ## The characters of operands -/

theorem isAmountChar_of_isRow {w : Text} (h : IsRow isDigit w) :
    ∀ c ∈ w, Query.isAmountChar c = true :=
  fun c hc => Query.isAmountChar_of_isDigit (h.2 c hc)

theorem WellFormed.isAmountChar_literal (h : o.WellFormed) :
    ∀ c ∈ o.literal, Query.isAmountChar c = true := by
  obtain ⟨⟨whole, places, exponent⟩, fraction?, unit⟩ := o
  have hplaces : ∀ c ∈ places, Query.isAmountChar c = true :=
    fun c hc => Query.isAmountChar_of_isDigit (h.places c hc)
  have hnumber : ∀ c ∈ decimalText ⟨whole, places, exponent⟩, Query.isAmountChar c = true := by
    simp only [decimalText]
    split
    · exact isAmountChar_of_isRow h.whole
    · exact List.forall_mem_append.mpr ⟨isAmountChar_of_isRow h.whole,
        List.forall_mem_cons.mpr ⟨by decide, hplaces⟩⟩
  cases fraction? with
  | none => exact hnumber
  | some ratio =>
    obtain ⟨hgap, hnumerator, hdenominator⟩ := h.ratio ratio rfl
    have hblanks : ∀ c ∈ ratio.1, Query.isAmountChar c = true :=
      fun c hc => Query.isAmountChar_of_isBlank (hgap.2 c hc)
    exact List.forall_mem_append.mpr ⟨List.forall_mem_append.mpr
      ⟨List.forall_mem_append.mpr ⟨hnumber, hblanks⟩, isAmountChar_of_isRow hnumerator⟩,
      List.forall_mem_cons.mpr ⟨by decide, isAmountChar_of_isRow hdenominator⟩⟩

/-- An operand begins with a digit. -/
theorem WellFormed.literal_head (h : o.WellFormed) :
    ∃ c t, o.literal = c :: t ∧ isDigit c = true := by
  obtain ⟨c, w, hwhole⟩ := List.exists_cons_of_ne_nil h.whole.1
  have hc : isDigit c = true := h.whole.2 c (by rw [hwhole]; exact List.mem_cons_self)
  have hnumber : ∃ t, decimalText o.number = c :: t := by
    rw [decimalText, hwhole]
    split
    · exact ⟨w, rfl⟩
    · exact ⟨_, rfl⟩
  obtain ⟨t, ht⟩ := hnumber
  rw [literal, ht]
  split
  · exact ⟨c, _, rfl, hc⟩
  · exact ⟨c, t, rfl, hc⟩

/-- There are no blanks at the ends of an operand. -/
theorem WellFormed.visible_ends (h : o.WellFormed) (gap : Text) :
    StopsBefore isBlank (o.textWith gap) ∧ StopsBefore isBlank (o.textWith gap).reverse := by
  constructor
  · obtain ⟨c, t, ht, hc⟩ := h.literal_head
    rw [textWith, ht, List.cons_append]
    exact Text.stopsBefore_cons.mpr (Text.isBlank_of_isDigit hc)
  · rw [textWith, List.reverse_append, List.reverse_append, List.append_assoc]
    obtain ⟨c, t, ht⟩ := List.exists_cons_of_ne_nil (List.reverse_ne_nil_iff.mpr h.unit.1)
    have hc : c ∈ o.unit := List.mem_reverse.mp (by rw [ht]; exact List.mem_cons_self)
    rw [ht, List.cons_append]
    exact Text.stopsBefore_cons.mpr (isBlank_of_isMicroUnitChar (h.unit.2 c hc))

end WrittenOperand

namespace WrittenOperand

variable {o : WrittenOperand} {x : Float}

/-! ## The numbers of operands -/

/-- The number of an operand, a fraction behind it included. -/
def value (o : WrittenOperand) : Float :=
  match o.fraction with
  | some (_, numerator, denominator) => o.number.value +
      Number.nearest false (Text.digitsValue numerator) (Text.digitsValue denominator)
  | none => o.number.value

/-- The denominator of a fraction behind the number is not zero. -/
def Divides (o : WrittenOperand) : Prop :=
  ∀ r ∈ o.fraction, Text.digitsValue r.2.2 ≠ 0

theorem ofQuotient?_eq_some {n k : ℕ} : Number.ofQuotient? n k = some x ↔
    (Number.nearest false n k).isFinite = true ∧ Number.nearest false n k = x := by
  simp [Number.ofQuotient?]

/-- Three digits are worth no more than ten doublings. -/
theorem digitsValue_lt_twoTo {digits : Text} {n k : ℕ} (hlength : digits.length ≤ 3 * n)
    (h : 10 * n ≤ 30 + k) : Text.digitsValue digits < (2 ^ 54 - 1) * Number.twoTo k :=
  calc Text.digitsValue digits < 10 ^ digits.length := Number.digitsValue_lt digits
    _ ≤ 10 ^ (3 * n) := Nat.pow_le_pow_right Nat.ofNat_pos hlength
    _ = (10 ^ 3) ^ n := pow_mul 10 3 n
    _ ≤ (2 ^ 10) ^ n := Nat.pow_le_pow_left (by norm_num) n
    _ = 2 ^ (10 * n) := (pow_mul 2 10 n).symm
    _ ≤ 2 ^ (30 + k) := Nat.pow_le_pow_right Nat.ofNat_pos h
    _ = 2 ^ 30 * Number.twoTo k := by rw [Number.twoTo_eq, pow_add]
    _ ≤ (2 ^ 54 - 1) * Number.twoTo k := Nat.mul_le_mul_right _ (by norm_num)

/-- A numerator of so few digits divided by anything is a finite double. -/
theorem isFinite_quotient {numerator : Text} {k : ℕ} (hnumerator : numerator.length ≤ 300)
    (hk : k ≠ 0) : (Number.nearest false (Text.digitsValue numerator) k).isFinite = true := by
  have hnonneg : (0 : ℚ) ≤ Text.digitsValue numerator / k := by positivity
  have hlength : numerator.length ≤ 3 * 100 := hnumerator
  have hsmall : Text.digitsValue numerator < (2 ^ 54 - 1) * Number.twoTo 970 :=
    digitsValue_lt_twoTo hlength (by norm_num)
  have hnearest : Number.nearest false (Text.digitsValue numerator) k =
      Number.nearestTo (Text.digitsValue numerator / k) :=
    Number.nearest_eq_nearestTo (Nat.pos_of_ne_zero hk) (decide_eq_false hnonneg.not_gt).symm
      (abs_of_nonneg hnonneg)
  rw [hnearest]
  apply Number.isFinite_nearestTo
  have hquotient : (Text.digitsValue numerator : ℚ) / k ≤ Text.digitsValue numerator :=
    div_le_self (Nat.cast_nonneg _) (by exact_mod_cast Nat.one_le_iff_ne_zero.mpr hk)
  rw [abs_of_nonneg hnonneg]
  exact hquotient.trans_lt (by exact_mod_cast hsmall)

/-- What is found as the number of an operand is its value. -/
theorem of_amount (h : o.amount = .found x) : o.Divides ∧ o.value = x := by
  obtain ⟨number, fraction?, unit⟩ := o
  cases fraction? with
  | none => exact ⟨nofun, Attempt.found.inj h⟩
  | some ratio =>
    obtain ⟨quotient, hquotient, hsum⟩ := Attempt.bind_eq_found.mp h
    obtain ⟨-, -, hne, hquotient⟩ := fractionValue_eq_found.mp hquotient
    obtain ⟨-, rfl⟩ := ofQuotient?_eq_some.mp hquotient
    constructor
    · rintro _ ⟨⟩
      exact hne
    · exact Attempt.found.inj hsum

/-- The number of a short operand is found unless it is divided by zero. -/
theorem amount_of_short (h : o.Divides) (hshort : o.literal.length ≤ 300) :
    o.amount = .found o.value := by
  obtain ⟨number, fraction?, unit⟩ := o
  cases fraction? with
  | none => rfl
  | some ratio =>
    obtain ⟨gap, numerator, denominator⟩ := ratio
    have hne : Text.digitsValue denominator ≠ 0 := h _ rfl
    have hlength : numerator.length ≤ 300 ∧ denominator.length ≤ 300 := by
      simp only [literal, List.length_append, List.length_cons] at hshort
      omega
    have hlimit : 300 ≤ Number.digitLimit := by decide
    have hquotient : fractionValue (numerator, denominator) = .found
        (Number.nearest false (Text.digitsValue numerator) (Text.digitsValue denominator)) :=
      fractionValue_eq_found.mpr ⟨hlength.1.trans hlimit, hlength.2.trans hlimit, hne,
        ofQuotient?_eq_some.mpr ⟨isFinite_quotient hlength.1 hne, rfl⟩⟩
    simp [amount, value, hquotient]

end WrittenOperand

/-! ## Operands -/

/-- An operand as it stands in a sum, with blanks around it and in front of its unit. -/
structure Operand where
  before : Text
  written : WrittenOperand
  gap : Text
  behind : Text
  unit : Found
  blanks : ∀ c ∈ before ++ (gap ++ behind), isBlank c = true
  wellFormed : written.WellFormed
  known : find? written.unit = some unit
  divides : written.Divides

namespace Operand

/-- How the operand is written. -/
def text (o : Operand) : Text :=
  o.before ++ (o.written.textWith o.gap ++ o.behind)

/-- The operand as a summand: its amount in base units, and the decimals that it is written
with. -/
def summand (o : Operand) : Summand :=
  ⟨o.unit, o.written.value * o.unit.factor, Number.placesShown o.written.literal⟩

variable (o : Operand)

theorem blank_before : ∀ c ∈ o.before, isBlank c = true :=
  fun c hc => o.blanks c (List.mem_append_left _ hc)

theorem blank_gap : ∀ c ∈ o.gap, isBlank c = true :=
  fun c hc => o.blanks c (List.mem_append_right _ (List.mem_append_left _ hc))

theorem blank_behind : ∀ c ∈ o.behind, isBlank c = true :=
  fun c hc => o.blanks c (List.mem_append_right _ (List.mem_append_right _ hc))

theorem strip_text : Text.strip o.text = o.written.textWith o.gap :=
  Text.strip_between o.blank_before o.blank_behind (o.wellFormed.visible_ends _).1
    (o.wellFormed.visible_ends _).2

theorem isSign_of_isAmountChar {c : Char} (h : Query.isAmountChar c = true) : isSign c = false := by
  by_contra hsign
  rw [Bool.not_eq_false, isSign, Bool.or_eq_true, beq_iff_eq, beq_iff_eq] at hsign
  rcases hsign with rfl | rfl
  · revert h
    decide
  · revert h
    decide

/-- No sign in an operand separates. -/
theorem hyphenated_text (before : Option Char) : hyphenated before o.text = true := by
  have hblanks {w : Text} (hw : ∀ c ∈ w, isBlank c = true) (before : Option Char) :
      hyphenated before w = true := hyphenated_of_not_sign fun c hc =>
    isSign_of_isAmountChar (Query.isAmountChar_of_isBlank (hw c hc))
  have hliteral : hyphenated none o.written.literal = true := hyphenated_of_not_sign fun c hc =>
    isSign_of_isAmountChar (o.wellFormed.isAmountChar_literal c hc)
  have hunit : hyphenated none o.written.unit = true := by
    apply hyphenated_of_find? (d := o.unit.dimension) o.wellFormed.unit.2
    rw [find?_dimension o.known]
    rfl
  have hcore : hyphenated none (o.written.textWith o.gap) = true :=
    hyphenated_append hliteral (hyphenated_append (hblanks o.blank_gap none) hunit)
  exact hyphenated_append (hblanks o.blank_before before)
    (hyphenated_append hcore (hblanks o.blank_behind none))

/-! ## Reading -/

/-- A text that is read as a summand is an operand. -/
theorem of_readSummand {s : Text} {x : Summand} (h : readSummand s = .found x) :
    ∃ o : Operand, o.text = s ∧ o.summand = x := by
  obtain ⟨w, hread, h⟩ := Attempt.bind_eq_found.mp h
  obtain ⟨amount, hamount, h⟩ := Attempt.bind_eq_found.mp h
  obtain ⟨unit, hunit, h⟩ := Attempt.bind_eq_found.mp h
  cases h
  obtain ⟨before, behind, hs, hbefore, hbehind, hlast⟩ := Text.exists_strip s
  obtain ⟨hwell, gap, tail, hgap, htail, hstrip⟩ :=
    WrittenOperand.of_read? (Attempt.ofOption_eq_found.mp hread)
  obtain rfl : tail = [] := by
    rcases htail with rfl | rfl
    · rfl
    · rw [hstrip, List.reverse_append] at hlast
      cases hlast
  obtain ⟨hdivides, rfl⟩ := WrittenOperand.of_amount hamount
  rw [hstrip, List.append_nil] at hs
  exact ⟨{ before := before, written := w, gap := gap, behind := behind, unit := unit
           blanks := List.forall_mem_append.mpr ⟨hbefore, List.forall_mem_append.mpr ⟨hgap, hbehind⟩⟩
           wellFormed := hwell, known := Attempt.ofOption_eq_found.mp hunit
           divides := hdivides }, hs.symm, rfl⟩

/-- A short operand is read as its summand. -/
theorem readSummand_text (hshort : o.text.length ≤ 300) : readSummand o.text = .found o.summand := by
  have hread : operandShape.read? (Text.strip o.text) = some o.written := by
    rw [strip_text]
    exact o.wellFormed.read? o.blank_gap
  have hliteral : o.written.literal.length ≤ 300 := by
    simp only [text, WrittenOperand.textWith, List.length_append] at hshort
    omega
  have hamount := WrittenOperand.amount_of_short o.divides hliteral
  simp [readSummand, hread, hamount, o.known, Attempt.ofOption, summand]

end Operand

end DeskCalc.Measure
