import DeskCalc.Measure.Conversion
import DeskCalc.Proofs.Expression.Readback
import DeskCalc.Proofs.Query.Dimensions

/-!
# Reading quantities

A number without a sign and without an exponent, followed by a unit, is read as it was meant, and a
text that is put together from an amount and a unit is read in no other way than as these two.  The
same is true of fractions, with or without a whole number in front of them.
-/

namespace DeskCalc.Measure

open Expression (Spelling isDigit_of_basic)
open Number (Numeral)
open Text (Shape StopsBefore isBlank isDigit takeWhile_run dropWhile_run)
open Text.Shape (Fits FitsFirst FitsOnly fits_atEnd fits_bind fits_char fits_opt fits_pure fits_run
  fits_run1 fitsFirst_opt fitsOnly_atEnd fitsOnly_char fitsOnly_opt_none fitsOnly_pure fitsOnly_run
  fitsOnly_run1 not_fits_run1 of_fits_run of_fits_run1)

variable {unit gap s t rest : Text}

/-! ## Runs -/

/-- One or more characters of a class. -/
def IsRow (p : Char → Bool) (w : Text) : Prop :=
  w ≠ [] ∧ ∀ c ∈ w, p c = true

section Runs

variable {p : Char → Bool} {run w : Text}

/-- Of a run that is followed by something else, nothing else is read. -/
theorem eq_of_fits_run1 (h : Fits (Shape.run1 p) (run ++ rest) w t)
    (hrun : ∀ c ∈ run, p c = true) (hrest : StopsBefore p rest) : w = run ∧ t = rest := by
  obtain ⟨-, rfl, rfl⟩ := fits_run1.mp h
  exact ⟨takeWhile_run hrun hrest, dropWhile_run hrun hrest⟩

theorem eq_of_fits_run (h : Fits (Shape.run p) (run ++ rest) w t)
    (hrun : ∀ c ∈ run, p c = true) (hrest : StopsBefore p rest) : w = run ∧ t = rest := by
  obtain ⟨rfl, rfl⟩ := fits_run.mp h
  exact ⟨takeWhile_run hrun hrest, dropWhile_run hrun hrest⟩

end Runs

/-! ## Units -/

theorem isBlank_of_isMicroUnitChar {c : Char} (h : isMicroUnitChar c = true) : isBlank c = false :=
  Query.isBlank_of_isTargetChar (Query.isTargetChar_of_isMicroUnitChar h)

theorem isDigit_of_isMicroUnitChar {c : Char} (h : isMicroUnitChar c = true) : isDigit c = false :=
  Query.isDigit_of_isTargetChar (Query.isTargetChar_of_isMicroUnitChar h)

theorem isBlank_of_mem_space : ∀ c ∈ [' '], isBlank c = true :=
  List.forall_mem_singleton.mpr (by decide)

/-- A unit begins with none of the characters that a class without unit characters has. -/
theorem stopsBefore_unit {p : Char → Bool} (hp : ∀ c, isMicroUnitChar c = true → p c = false)
    (hunit : ∀ c ∈ unit, isMicroUnitChar c = true) : StopsBefore p unit := by
  cases unit with
  | nil => rfl
  | cons c unit => exact Text.stopsBefore_cons.mpr (hp c (hunit c List.mem_cons_self))

theorem fitsOnly_unitToEnd (hne : unit ≠ []) (hunit : ∀ c ∈ unit, isMicroUnitChar c = true) :
    FitsOnly unitToEnd unit unit [] := by
  have hrun : FitsOnly (Shape.run1 isMicroUnitChar) unit unit [] := by
    simpa using fitsOnly_run1 hne hunit (Text.stopsBefore_nil _)
  exact hrun.bind ((fitsOnly_atEnd (.inl rfl)).bind (fitsOnly_pure _ _))

/-! ## Decimals -/

theorem not_fits_decimalPoint (hrest : StopsBefore (· == '.') s) (places : Text) :
    ¬Fits (do let _ ← Shape.char '.'; Shape.digits) s places rest := by
  intro hfits
  simp only [fits_bind, fits_char] at hfits
  obtain ⟨c, u, ⟨rfl, rfl⟩, -⟩ := hfits
  cases hrest

/-- Digits, and perhaps a point with digits behind it, are read as a decimal up to what does not
continue them. -/
theorem fitsFirst_decimal {whole places : Text} (hwhole : IsRow isDigit whole)
    (hplaces : ∀ c ∈ places, isDigit c = true) (hdigit : StopsBefore isDigit rest)
    (hpoint : StopsBefore (· == '.') rest) :
    FitsFirst decimal (decimalText ⟨whole, places, 0⟩ ++ rest) ⟨whole, places, 0⟩ rest := by
  cases places with
  | nil =>
    have hrun : FitsOnly Shape.digits (whole ++ rest) whole rest :=
      fitsOnly_run1 hwhole.1 hwhole.2 hdigit
    exact hrun.fitsFirst.bind
      ((fitsOnly_opt_none fun places _ => not_fits_decimalPoint hpoint places).fitsFirst.bind
        (fitsOnly_pure _ _).fitsFirst)
  | cons c places =>
    have htext : decimalText ⟨whole, c :: places, 0⟩ ++ rest =
        whole ++ ('.' :: (c :: places ++ rest)) := by
      simp [decimalText]
    rw [htext]
    have hrun : FitsOnly Shape.digits (whole ++ ('.' :: (c :: places ++ rest))) whole
        ('.' :: (c :: places ++ rest)) :=
      fitsOnly_run1 hwhole.1 hwhole.2 (Text.stopsBefore_cons.mpr (by decide))
    have hbehind : FitsOnly (do let _ ← Shape.char '.'; Shape.digits)
        ('.' :: (c :: places ++ rest)) (c :: places) rest :=
      (fitsOnly_char '.' _).bind (fitsOnly_run1 (List.cons_ne_nil _ _) hplaces hdigit)
    exact hrun.fitsFirst.bind
      ((fitsFirst_opt hbehind.fitsFirst).bind (fitsOnly_pure _ _).fitsFirst)

theorem eq_of_fits_decimal {n : Numeral} (h : Fits decimal s n rest) :
    IsRow isDigit n.whole ∧ (∀ c ∈ n.fraction, isDigit c = true) ∧ n.exponent = 0 ∧
      s = decimalText n ++ rest := by
  simp only [decimal, fits_bind, fits_pure, fits_opt] at h
  obtain ⟨whole, t, hwhole, fraction, u, hfraction, rfl, rfl⟩ := h
  obtain ⟨hne, hdigits, rfl⟩ := of_fits_run1 hwhole
  rcases hfraction with ⟨places, rfl, c, v, hpoint, hplaces⟩ | ⟨rfl, rfl⟩
  · obtain ⟨rfl, rfl⟩ := fits_char.mp hpoint
    obtain ⟨hne', hall, rfl⟩ := of_fits_run1 hplaces
    refine ⟨⟨hne, hdigits⟩, hall, rfl, ?_⟩
    simp [decimalText, hne']
  · exact ⟨⟨hne, hdigits⟩, List.forall_mem_nil _, rfl, rfl⟩

/-- Without an exponent, a spelling is a decimal. -/
theorem numeral_of_spelling {n : Spelling} (hn : n.power? = none) :
    n.numeral = ⟨n.whole.text, n.fraction, 0⟩ ∧
      decimalText ⟨n.whole.text, n.fraction, 0⟩ = n.text := by
  obtain ⟨whole, fraction?, power?⟩ := n
  obtain rfl : power? = none := hn
  refine ⟨rfl, ?_⟩
  cases fraction? with
  | none => simp [decimalText, Spelling.text, Spelling.fraction, Spelling.fractionText,
      Spelling.powerText]
  | some digits => simp [decimalText, Spelling.text, Spelling.fraction, Spelling.fractionText,
      Spelling.powerText, digits.ne_nil]

theorem isDigit_spelling (n : Spelling) :
    IsRow isDigit n.whole.text ∧ ∀ c ∈ n.fraction, isDigit c = true := by
  refine ⟨⟨n.whole.ne_nil, fun c hc => isDigit_of_basic (n.whole.areDigits c hc)⟩, ?_⟩
  rw [Spelling.fraction]
  cases n.fraction? with
  | none => exact List.forall_mem_nil _
  | some digits => exact fun c hc => isDigit_of_basic (digits.areDigits c hc)

/-- Neither blanks nor a unit begin with a character of numbers. -/
theorem stopsBefore_gap (hgap : ∀ c ∈ gap, isBlank c = true)
    (hunit : ∀ c ∈ unit, isMicroUnitChar c = true) :
    StopsBefore isDigit (gap ++ unit) ∧ StopsBefore (· == '.') (gap ++ unit) := by
  have hpoint {p : Char → Bool} (hp : p '.' = false) (c : Char) (hc : p c = true) :
      (c == '.') = false := by
    rw [beq_eq_false_iff_ne]
    rintro rfl
    rw [hp] at hc
    cases hc
  cases gap with
  | nil => exact ⟨stopsBefore_unit (fun _ => isDigit_of_isMicroUnitChar) hunit,
      stopsBefore_unit (hpoint (by decide)) hunit⟩
  | cons c gap =>
    have hc := hgap c List.mem_cons_self
    have hblank : isBlank '.' = false := by decide
    exact ⟨Text.stopsBefore_cons.mpr (Text.isDigit_of_isBlank hc),
      Text.stopsBefore_cons.mpr (hpoint hblank c hc)⟩

/-- A decimal, blanks and a unit are read as the decimal and the unit. -/
theorem read?_decimalQuantity {n : Spelling} (hn : n.power? = none)
    (hgap : ∀ c ∈ gap, isBlank c = true) (hne : unit ≠ [])
    (hunit : ∀ c ∈ unit, isMicroUnitChar c = true) :
    decimalQuantity.read? (n.text ++ (gap ++ unit)) = some (n.numeral, unit) := by
  have hdecimal : FitsFirst decimal (n.text ++ (gap ++ unit)) n.numeral (gap ++ unit) := by
    obtain ⟨hnumeral, htext⟩ := numeral_of_spelling hn
    obtain ⟨hwhole, hplaces⟩ := isDigit_spelling n
    obtain ⟨hdigit, hpoint⟩ := stopsBefore_gap hgap hunit
    rw [hnumeral, ← htext]
    exact fitsFirst_decimal hwhole hplaces hdigit hpoint
  have hblanks := fitsOnly_run hgap (stopsBefore_unit (fun _ => isBlank_of_isMicroUnitChar) hunit)
  have hwhole : FitsFirst decimalQuantity (n.text ++ (gap ++ unit)) (n.numeral, unit) [] :=
    hdecimal.bind (hblanks.fitsFirst.bind
      ((fitsOnly_unitToEnd hne hunit).fitsFirst.bind (fitsOnly_pure _ _).fitsFirst))
  exact hwhole.read?

/-! ## An amount with a unit -/

section WithUnit

variable {amount written : Text}

theorem isMicroUnitChar_of_unitToEnd (h : Fits unitToEnd s written rest) :
    (∀ c ∈ written, isMicroUnitChar c = true) ∧ ∃ tail, s = written ++ tail ∧
      (tail = [] ∨ tail = ['\n']) := by
  simp only [unitToEnd, fits_bind, fits_pure] at h
  obtain ⟨w, t, hrun, e, v, hend, rfl, rfl⟩ := h
  obtain ⟨-, hchars, rfl⟩ := of_fits_run1 hrun
  exact ⟨hchars, t, rfl, (fits_atEnd.mp hend).1⟩

/-- The unit that a text ends in is the one that it was put together with. -/
theorem isMicroUnitChar_of_endsIn (hne : unit ≠ []) (hvisible : ∀ c ∈ unit, isBlank c = false)
    (hwritten : ∀ c ∈ written, isMicroUnitChar c = true)
    (h : Query.EndsIn written (withUnit amount unit)) : ∀ c ∈ unit, isMicroUnitChar c = true := by
  have hsame : written = unit :=
    h.unit_eq (fun c hc => isBlank_of_isMicroUnitChar (hwritten c hc)) hne hvisible
  exact hsame ▸ hwritten

/-- In front of the unit that a text ends in stands the amount. -/
theorem front_of_withUnit {front tail : Text} (hne : unit ≠ [])
    (hvisible : ∀ c ∈ unit, isBlank c = false) (htail : tail = [] ∨ tail = ['\n'])
    (h : front ++ (unit ++ tail) = withUnit amount unit) : front = amount ++ [' '] := by
  have hmiddle : withUnit amount unit = (amount ++ [' ']) ++ unit := by
    rw [withUnit, List.append_assoc, List.singleton_append]
  rcases htail with rfl | rfl
  · rw [hmiddle, List.append_nil] at h
    exact List.append_cancel_right h
  · -- The line break would be the last character of the unit.
    have hlast : some '\n' = unit.getLast? := by
      have hends := congrArg List.getLast? h
      rw [hmiddle, List.getLast?_append_of_ne_nil _ hne] at hends
      simpa using hends
    have hvisible := hvisible '\n' (List.mem_of_getLast? hlast.symm)
    have hblank : isBlank '\n' = true := by decide
    rw [hvisible] at hblank
    cases hblank

/-- An amount with a unit is read as a decimal quantity only if the amount is written in the
characters of amounts. -/
theorem of_read?_withUnit {m : Numeral} (hne : unit ≠ []) (hvisible : ∀ c ∈ unit, isBlank c = false)
    (h : decimalQuantity.read? (withUnit amount unit) = some (m, written)) :
    (∀ c ∈ amount, Query.isAmountChar c = true) ∧ ∀ c ∈ unit, isMicroUnitChar c = true := by
  have hends := (Query.of_decimalQuantity h).2
  obtain ⟨rest, hfits⟩ := Shape.fits_of_read? h
  simp only [decimalQuantity, fits_bind, fits_pure] at hfits
  obtain ⟨m', t, hdecimal, gap, u, hgap, v, r, hunit, heq, rfl⟩ := hfits
  cases heq
  obtain ⟨w, hsplit, hw⟩ := Query.of_fits_decimal hdecimal
  obtain ⟨hblanks, rfl⟩ := of_fits_run hgap
  obtain ⟨hchars, tail, rfl, htail⟩ := isMicroUnitChar_of_unitToEnd hunit
  obtain rfl : written = unit :=
    hends.unit_eq (fun c hc => isBlank_of_isMicroUnitChar (hchars c hc)) hne hvisible
  have hsplit' : (w ++ gap) ++ (written ++ tail) = withUnit amount written := by
    rw [List.append_assoc]
    exact hsplit
  have hfront := front_of_withUnit hne hvisible htail hsplit'
  refine ⟨fun c hc => ?_, hchars⟩
  have hmem : c ∈ w ++ gap := hfront ▸ List.mem_append_left _ hc
  rcases List.mem_append.mp hmem with hmem | hmem
  · exact hw.amountChar (by decide) c hmem
  · exact Query.isAmountChar_of_isBlank (hblanks c hmem)

theorem isMicroUnitChar_of_fractionQuantity {parts : Text × Text}
    (h : fractionQuantity.read? s = some (parts, written)) :
    ∀ c ∈ written, isMicroUnitChar c = true := by
  obtain ⟨rest, hfits⟩ := Shape.fits_of_read? h
  simp only [fractionQuantity, fits_bind, fits_pure] at hfits
  obtain ⟨_, _, -, _, _, -, v, r, hunit, heq, -⟩ := hfits
  cases heq
  exact (isMicroUnitChar_of_unitToEnd hunit).1

theorem isMicroUnitChar_of_mixedFractionQuantity {whole : Text} {parts : Text × Text}
    (h : mixedFractionQuantity.read? s = some (whole, parts, written)) :
    ∀ c ∈ written, isMicroUnitChar c = true := by
  obtain ⟨rest, hfits⟩ := Shape.fits_of_read? h
  simp only [mixedFractionQuantity, fits_bind, fits_pure] at hfits
  obtain ⟨_, _, -, _, _, -, _, _, -, _, _, -, v, r, hunit, heq, -⟩ := hfits
  cases heq
  exact (isMicroUnitChar_of_unitToEnd hunit).1

/-- A unit in other characters is not read behind an amount, whatever the amount. -/
theorem convertQuantity_of_strange (hne : unit ≠ []) (hvisible : ∀ c ∈ unit, isBlank c = false)
    (hstrange : ¬∀ c ∈ unit, isMicroUnitChar c = true) (target : Text) :
    convertQuantity (withUnit amount unit) target = .nothing := by
  have hmixed : mixedFractionQuantity.read? (withUnit amount unit) = none := by
    rw [Option.eq_none_iff_forall_ne_some]
    rintro ⟨whole, parts, written⟩ hread
    exact hstrange (isMicroUnitChar_of_endsIn hne hvisible
      (isMicroUnitChar_of_mixedFractionQuantity hread) (Query.of_mixedFractionQuantity hread).2)
  have hfraction : fractionQuantity.read? (withUnit amount unit) = none := by
    rw [Option.eq_none_iff_forall_ne_some]
    rintro ⟨parts, written⟩ hread
    exact hstrange (isMicroUnitChar_of_endsIn hne hvisible
      (isMicroUnitChar_of_fractionQuantity hread) (Query.of_fractionQuantity hread).2)
  have hdecimal : decimalQuantity.read? (withUnit amount unit) = none := by
    rw [Option.eq_none_iff_forall_ne_some]
    rintro ⟨m, written⟩ hread
    exact hstrange (of_read?_withUnit hne hvisible hread).2
  rw [convertQuantity, hmixed, hfraction, convertDecimal?, hdecimal]
  rfl

end WithUnit

/-! ## Fractions -/

section Fractions

variable {numerator denominator whole : Text}

/-- A fraction is written as its numerator and its denominator. -/
def ratioText (numerator denominator : Text) : Text :=
  numerator ++ '/' :: denominator

theorem eq_of_fits_fraction {parts : Text × Text} (h : Fits fraction s parts rest) :
    IsRow isDigit parts.1 ∧ IsRow isDigit parts.2 ∧ s = ratioText parts.1 parts.2 ++ rest := by
  simp only [fraction, fits_bind, fits_pure] at h
  obtain ⟨numerator, t, hnumerator, c, u, hslash, denominator, v, hdenominator, rfl, rfl⟩ := h
  obtain ⟨hne, hdigits, rfl⟩ := of_fits_run1 hnumerator
  obtain ⟨rfl, rfl⟩ := fits_char.mp hslash
  obtain ⟨hne', hdigits', rfl⟩ := of_fits_run1 hdenominator
  refine ⟨⟨hne, hdigits⟩, ⟨hne', hdigits'⟩, ?_⟩
  simp [ratioText]

theorem fitsOnly_fraction (hnumerator : IsRow isDigit numerator)
    (hdenominator : IsRow isDigit denominator)
    (hrest : StopsBefore isDigit rest) :
    FitsOnly fraction (ratioText numerator denominator ++ rest) (numerator, denominator) rest := by
  have htext : ratioText numerator denominator ++ rest =
      numerator ++ ('/' :: (denominator ++ rest)) := by
    rw [ratioText, List.append_assoc, List.cons_append]
  rw [htext]
  have hfirst : FitsOnly Shape.digits (numerator ++ ('/' :: (denominator ++ rest))) numerator
      ('/' :: (denominator ++ rest)) :=
    fitsOnly_run1 hnumerator.1 hnumerator.2 (Text.stopsBefore_cons.mpr (by decide))
  exact hfirst.bind ((fitsOnly_char '/' _).bind
    ((fitsOnly_run1 hdenominator.1 hdenominator.2 hrest).bind (fitsOnly_pure _ _)))

/-- A fraction of a unit is read as its parts, and not as a whole number with a fraction. -/
theorem read?_fractionQuantity (hnumerator : IsRow isDigit numerator)
    (hdenominator : IsRow isDigit denominator) (hne : unit ≠ [])
    (hunit : ∀ c ∈ unit, isMicroUnitChar c = true) :
    mixedFractionQuantity.read? (withUnit (ratioText numerator denominator) unit) = none ∧
      fractionQuantity.read? (withUnit (ratioText numerator denominator) unit) =
        some ((numerator, denominator), unit) := by
  constructor
  · rw [Shape.read?_eq_none_iff]
    rintro ⟨whole, parts, written⟩ rest hfits
    simp only [mixedFractionQuantity, fits_bind] at hfits
    obtain ⟨whole, t, hdigits, gap, u, hgap, -⟩ := hfits
    have htext : withUnit (ratioText numerator denominator) unit =
        numerator ++ ('/' :: (denominator ++ ' ' :: unit)) := by
      rw [withUnit, ratioText, List.append_assoc, List.cons_append]
    rw [htext] at hdigits
    obtain ⟨-, rfl⟩ := eq_of_fits_run1 hdigits hnumerator.2
      (Text.stopsBefore_cons.mpr (by decide))
    exact not_fits_run1 (Text.stopsBefore_cons.mpr (by decide)) hgap
  · have hgap : FitsOnly Shape.blanks ([' '] ++ unit) [' '] unit :=
      fitsOnly_run isBlank_of_mem_space (stopsBefore_unit (fun _ => isBlank_of_isMicroUnitChar) hunit)
    have hwhole : FitsOnly fractionQuantity
        (ratioText numerator denominator ++ ([' '] ++ unit)) ((numerator, denominator), unit) [] :=
      (fitsOnly_fraction hnumerator hdenominator (Text.stopsBefore_cons.mpr (by decide))).bind
        (hgap.bind ((fitsOnly_unitToEnd hne hunit).bind (fitsOnly_pure _ _)))
    exact hwhole.read?

theorem orBreak_eq_found {α : Type} {e : Fault} {o : Option α} {a : α} :
    Attempt.orBreak e o = .found a ↔ o = some a := by
  cases o with
  | none => simp [Attempt.orBreak]
  | some b => simp [Attempt.orBreak]

theorem natural_eq_found {digits : Text} {n : ℕ} : natural digits = .found n ↔
    digits.length ≤ Number.digitLimit ∧ Text.digitsValue digits = n := by
  rw [natural, Number.readNat?, orBreak_eq_found]
  by_cases hlong : Number.digitLimit < digits.length
  · simp [hlong]
  · simp [hlong, not_lt.mp hlong]

/-- A fraction has a value if its digits can be read, its denominator is not zero, and its quotient
is not beyond all doubles. -/
theorem fractionValue_eq_found {x : Float} : fractionValue (numerator, denominator) = .found x ↔
    numerator.length ≤ Number.digitLimit ∧ denominator.length ≤ Number.digitLimit ∧
      Text.digitsValue denominator ≠ 0 ∧
      Number.ofQuotient? (Text.digitsValue numerator) (Text.digitsValue denominator) = some x := by
  simp only [fractionValue, Attempt.bind_eq_found, natural_eq_found, orBreak_eq_found]
  constructor
  · rintro ⟨k, ⟨hdenominator, rfl⟩, _, hne, n, ⟨hnumerator, rfl⟩, hquotient⟩
    exact ⟨hnumerator, hdenominator, by simpa using Query.require_eq_found hne, hquotient⟩
  · rintro ⟨hnumerator, hdenominator, hne, hquotient⟩
    exact ⟨_, ⟨hdenominator, rfl⟩, (), by simp [Attempt.require, hne], _, ⟨hnumerator, rfl⟩,
      hquotient⟩

/-- A whole number with a fraction of a unit is read as its parts. -/
theorem read?_mixedFractionQuantity (hwhole : IsRow isDigit whole)
    (hnumerator : IsRow isDigit numerator)
    (hdenominator : IsRow isDigit denominator) (hne : unit ≠ [])
    (hunit : ∀ c ∈ unit, isMicroUnitChar c = true) :
    mixedFractionQuantity.read?
        (withUnit (withUnit whole (ratioText numerator denominator)) unit) =
      some (whole, (numerator, denominator), unit) := by
  have htext : withUnit (withUnit whole (ratioText numerator denominator)) unit =
      whole ++ ([' '] ++ (ratioText numerator denominator ++ ([' '] ++ unit))) := by
    simp [withUnit]
  have hstart : StopsBefore isBlank (ratioText numerator denominator ++ ([' '] ++ unit)) := by
    obtain ⟨c, t, rfl⟩ := List.exists_cons_of_ne_nil hnumerator.1
    exact Text.stopsBefore_cons.mpr
      (Text.isBlank_of_isDigit (hnumerator.2 c List.mem_cons_self))
  have hgap : FitsOnly Shape.blanks1 ([' '] ++ unit) [' '] unit :=
    fitsOnly_run1 (by simp) isBlank_of_mem_space
      (stopsBefore_unit (fun _ => isBlank_of_isMicroUnitChar) hunit)
  rw [htext]
  have hall : FitsOnly mixedFractionQuantity
      (whole ++ ([' '] ++ (ratioText numerator denominator ++ ([' '] ++ unit))))
      (whole, (numerator, denominator), unit) [] :=
    (fitsOnly_run1 hwhole.1 hwhole.2 (Text.stopsBefore_cons.mpr (by decide))).bind
      ((fitsOnly_run1 (by simp) isBlank_of_mem_space hstart).bind
        ((fitsOnly_fraction hnumerator hdenominator (Text.stopsBefore_cons.mpr (by decide))).bind
          (hgap.bind ((fitsOnly_unitToEnd hne hunit).bind (fitsOnly_pure _ _)))))
  exact hall.read?

end Fractions

end DeskCalc.Measure
