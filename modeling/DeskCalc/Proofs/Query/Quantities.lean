import DeskCalc.Proofs.Query.Characters
import DeskCalc.Proofs.Text.Shapes
import Mathlib.Data.List.DropRight

/-!
# The quantities that a query names

The rules for units read a query by shapes of their own.  Whatever the shape, what is read is a
sequence of quantities: numbers and signs, then a unit, then numbers and signs again.  Blanks and
parentheses may stand anywhere in it.
-/

namespace DeskCalc.Query

open Text (Shape isBlank isDigit)
open Text.Shape (Fits fits_bind fits_pure fits_opt fits_one fits_char fits_atEnd of_fits_run
  of_fits_run1 of_fits_many1 of_fits_many)

/-! ## Sequences of quantities -/

/-- The text is a sequence of quantities in the units `us`: each unit is without digits, and what
stands in front of it holds a digit and nothing of another unit. -/
inductive Quantities : List Text → Text → Prop
  | done {s : Text} (hmarks : ∀ c ∈ s, isUnitMark c = false)
    (hdigits : ∀ c ∈ s, isDigit c = false) : Quantities [] s
  | more {amount unit rest : Text} {us : List Text} (hmarks : ∀ c ∈ amount, isUnitMark c = false)
    (hdigit : ∃ c ∈ amount, isDigit c = true) (hne : unit ≠ [])
    (hunit : ∀ c ∈ unit, isDigit c = false) (hrest : Quantities us rest) :
    Quantities (unit :: us) (amount ++ (unit ++ rest))

namespace Quantities

theorem nil : Quantities [] [] :=
  done nofun nofun

/-- What stands in front of quantities may be counted to the number of the first. -/
theorem prepend {front s : Text} {us : List Text} (hfront : ∀ c ∈ front, isUnitMark c = false)
    (h : Quantities us s) (hus : us ≠ []) : Quantities us (front ++ s) := by
  cases h with
  | done => exact absurd rfl hus
  | more hmarks hdigit hne hunit hrest =>
    rw [← List.append_assoc]
    obtain ⟨c, hc, hdigit⟩ := hdigit
    refine .more ?_ ⟨c, List.mem_append_right _ hc, hdigit⟩ hne hunit hrest
    intro d hd
    exact (List.mem_append.mp hd).elim (hfront d) (hmarks d)

theorem append {s t : Text} {us vs : List Text} (hs : Quantities us s) (ht : Quantities vs t) :
    Quantities (us ++ vs) (s ++ t) := by
  induction hs with
  | done hmarks hdigits =>
    rw [List.nil_append]
    cases ht with
    | done hmarks' hdigits' =>
      refine .done ?_ ?_
      · intro c hc
        exact (List.mem_append.mp hc).elim (hmarks c) (hmarks' c)
      · intro c hc
        exact (List.mem_append.mp hc).elim (hdigits c) (hdigits' c)
    | more hmarks' hdigit hne hunit hrest =>
      exact prepend hmarks (.more hmarks' hdigit hne hunit hrest) (List.cons_ne_nil _ _)
  | more hmarks hdigit hne hunit _ ih =>
    rw [List.append_assoc, List.append_assoc, List.cons_append]
    exact .more hmarks hdigit hne hunit ih

/-- A whole number of a unit in front of other quantities. -/
theorem counted {w unit s : Text} {us : List Text} (hw : w ≠ [])
    (hdigits : ∀ c ∈ w, isDigit c = true) (hne : unit ≠ []) (hunit : ∀ c ∈ unit, isDigit c = false)
    (h : Quantities us s) : Quantities (unit :: us) (w ++ (unit ++ s)) := by
  obtain ⟨c, hc⟩ := List.exists_mem_of_ne_nil w hw
  exact .more (fun d hd => isUnitMark_of_isDigit (hdigits d hd)) ⟨c, hc, hdigits c hc⟩ hne hunit h

/-- Signs between quantities belong to the numbers. -/
theorem signed {c : Char} (hc : isUnitMark c = false) (hdigit : isDigit c = false) {s : Text}
    {us : List Text} (h : Quantities us s) : Quantities us (c :: s) :=
  append (done (List.forall_mem_singleton.mpr hc) (List.forall_mem_singleton.mpr hdigit)) h

end Quantities

/-! ## Single quantities -/

/-- The text is a number, in which blanks and a fraction may stand, and a unit. -/
inductive Quantity (unit : Text) : Text → Prop
  | mk {amount tail : Text} (hamount : ∀ c ∈ amount, isAmountChar c = true)
    (hdigit : ∃ c ∈ amount, isDigit c = true) (hne : unit ≠ [])
    (hunit : ∀ c ∈ unit, isTargetChar c = true) (htail : ∀ c ∈ tail, isBlank c = true) :
    Quantity unit (amount ++ (unit ++ tail))

theorem Quantity.quantities {unit s : Text} (h : Quantity unit s) : Quantities [unit] (bare s) := by
  cases h with
  | mk hamount hdigit hne hunit htail =>
    rw [bare_append, bare_append, bare_unit hunit, bare_eq_nil htail]
    refine .more ?_ ?_ hne (fun c hc => isDigit_of_isTargetChar (hunit c hc)) .nil
    · intro c hc
      exact isUnitMark_of_isAmountChar (hamount c (mem_bare.mp hc).1)
    · obtain ⟨c, hc, hdigit⟩ := hdigit
      exact ⟨c, mem_bare.mpr ⟨hc, isSpacing_of_isDigit hdigit⟩, hdigit⟩

theorem Quantity.ne_nil {unit s : Text} (h : Quantity unit s) : unit ≠ [] := by
  cases h with
  | mk _ _ hne _ _ => exact hne

theorem Quantity.visible {unit s : Text} (h : Quantity unit s) : ∀ c ∈ unit, isBlank c = false := by
  cases h with
  | mk _ _ _ hunit _ => exact fun c hc => isBlank_of_isTargetChar (hunit c hc)

/-- The text ends in `unit`, and a blank stands in front of that, if there are any blanks. -/
inductive EndsIn (unit : Text) : Text → Prop
  | joined {front tail : Text} (hfront : ∀ c ∈ front, isBlank c = false)
    (htail : ∀ c ∈ tail, isBlank c = true) : EndsIn unit (front ++ (unit ++ tail))
  | spaced {front gap tail : Text} (hne : gap ≠ []) (hgap : ∀ c ∈ gap, isBlank c = true)
    (htail : ∀ c ∈ tail, isBlank c = true) : EndsIn unit (front ++ (gap ++ (unit ++ tail)))

theorem EndsIn.of_gap {unit front gap tail : Text} (hfront : ∀ c ∈ front, isBlank c = false)
    (hgap : ∀ c ∈ gap, isBlank c = true) (htail : ∀ c ∈ tail, isBlank c = true) :
    EndsIn unit (front ++ (gap ++ (unit ++ tail))) := by
  by_cases hne : gap = []
  · subst hne
    exact .joined hfront htail
  · exact .spaced hne hgap htail

/-- What stands behind the last blank. -/
def lastWord (s : Text) : Text :=
  s.rtakeWhile fun c => !isBlank c

theorem lastWord_append {c : Char} (hc : isBlank c = true) {w : Text}
    (hw : ∀ d ∈ w, isBlank d = false) (front : Text) : lastWord (front ++ c :: w) = w := by
  have hreverse : ∀ d ∈ w.reverse, (!isBlank d) = true := by
    intro d hd
    simp [hw d (List.mem_reverse.mp hd)]
  rw [lastWord, List.rtakeWhile, List.reverse_append, List.reverse_cons, List.append_assoc,
    List.takeWhile_append_of_pos hreverse]
  simp [hc]

theorem lastWord_blanks {tail : Text} (hne : tail ≠ []) (htail : ∀ c ∈ tail, isBlank c = true)
    (front : Text) : lastWord (front ++ tail) = [] := by
  obtain ⟨t, c, rfl⟩ := List.eq_nil_or_concat tail |>.resolve_left hne
  rw [List.concat_eq_append, ← List.append_assoc]
  exact lastWord_append (htail c (by simp)) (fun d hd => by cases hd) _

/-- A text that ends in a unit, if it was put together with a unit, ends in that. -/
theorem EndsIn.unit_eq {amount unit written : Text}
    (h : EndsIn written (Measure.withUnit amount unit)) (hwritten : ∀ c ∈ written, isBlank c = false)
    (hne : unit ≠ []) (hunit : ∀ c ∈ unit, isBlank c = false) : written = unit := by
  have hblank : isBlank ' ' = true := by decide
  have hlast : lastWord (Measure.withUnit amount unit) = unit := lastWord_append hblank hunit amount
  have hmem : ' ' ∈ Measure.withUnit amount unit := by simp [Measure.withUnit]
  have htail {front tail : Text} (heq : Measure.withUnit amount unit = front ++ tail)
      (hblanks : ∀ c ∈ tail, isBlank c = true) : tail = [] := by
    by_contra htail
    rw [heq, lastWord_blanks htail hblanks] at hlast
    exact hne hlast.symm
  generalize Measure.withUnit amount unit = s at *
  cases h with
  | @joined front tail hfront hblanks =>
    obtain rfl : tail = [] := htail (List.append_assoc _ _ _).symm hblanks
    exfalso
    simp only [List.append_nil, List.mem_append] at hmem
    rcases hmem with hmem | hmem
    · simp [hfront _ hmem] at hblank
    · simp [hwritten _ hmem] at hblank
  | @spaced front gap tail hgapne hgap hblanks =>
    obtain rfl : tail = [] :=
      @htail (front ++ (gap ++ written)) tail (by simp only [List.append_assoc]) hblanks
    obtain ⟨g, c, rfl⟩ := List.eq_nil_or_concat gap |>.resolve_left hgapne
    rw [List.append_nil, List.concat_eq_append, List.append_assoc, ← List.append_assoc,
      List.singleton_append, lastWord_append (hgap c (by simp)) hwritten] at hlast
    exact hlast

/-! ## Amounts -/

theorem isAmountChar_of_isBlank {c : Char} (h : isBlank c = true) : isAmountChar c = true := by
  simp [isAmountChar, h]

theorem isAmountChar_of_isDigit {c : Char} (h : isDigit c = true) : isAmountChar c = true := by
  simp [isAmountChar, h]

/-- Digits, among which `mark` may stand. -/
structure IsAmount (mark : Char) (w : Text) : Prop where
  chars : ∀ c ∈ w, isDigit c = true ∨ c = mark
  digit : ∃ c ∈ w, isDigit c = true

namespace IsAmount

variable {mark : Char} {w : Text}

theorem whole (hne : w ≠ []) (hw : ∀ c ∈ w, isDigit c = true) : IsAmount mark w := by
  obtain ⟨c, hc⟩ := List.exists_mem_of_ne_nil w hne
  exact ⟨fun d hd => .inl (hw d hd), c, hc, hw c hc⟩

theorem marked (hne : w ≠ []) (hw : ∀ c ∈ w, isDigit c = true) {t : Text}
    (ht : ∀ c ∈ t, isDigit c = true) : IsAmount mark (w ++ mark :: t) := by
  obtain ⟨c, hc⟩ := List.exists_mem_of_ne_nil w hne
  refine ⟨fun d hd => ?_, c, List.mem_append_left _ hc, hw c hc⟩
  simp only [List.mem_append, List.mem_cons] at hd
  rcases hd with hd | rfl | hd
  · exact .inl (hw d hd)
  · exact .inr rfl
  · exact .inl (ht d hd)

theorem amountChar (h : IsAmount mark w) (hmark : isAmountChar mark = true) :
    ∀ c ∈ w, isAmountChar c = true := by
  intro c hc
  rcases h.chars c hc with hdigit | rfl
  · exact isAmountChar_of_isDigit hdigit
  · exact hmark

theorem visible (h : IsAmount mark w) (hmark : isBlank mark = false) :
    ∀ c ∈ w, isBlank c = false := by
  intro c hc
  rcases h.chars c hc with hdigit | rfl
  · exact Text.isBlank_of_isDigit hdigit
  · exact hmark

end IsAmount

theorem of_fits_decimal {s rest : Text} {n : Number.Numeral}
    (h : Fits Measure.decimal s n rest) : ∃ w, w ++ rest = s ∧ IsAmount '.' w := by
  simp only [Measure.decimal, fits_bind, fits_pure, fits_opt] at h
  obtain ⟨whole, t, hwhole, fraction, u, hfraction, -, rfl⟩ := h
  obtain ⟨hne, hdigits, rfl⟩ := of_fits_run1 hwhole
  rcases hfraction with ⟨places, -, c, v, hpoint, hplaces⟩ | ⟨-, rfl⟩
  · obtain ⟨rfl, rfl⟩ := fits_char.mp hpoint
    obtain ⟨-, hall, rfl⟩ := of_fits_run1 hplaces
    exact ⟨whole ++ '.' :: places, by simp, .marked hne hdigits hall⟩
  · exact ⟨whole, rfl, .whole hne hdigits⟩

theorem of_fits_fraction {s rest : Text} {parts : Text × Text}
    (h : Fits Measure.fraction s parts rest) : ∃ w, w ++ rest = s ∧ IsAmount '/' w := by
  simp only [Measure.fraction, fits_bind, fits_pure] at h
  obtain ⟨numerator, t, hnumerator, c, u, hslash, denominator, v, hdenominator, -, rfl⟩ := h
  obtain ⟨hne, hdigits, rfl⟩ := of_fits_run1 hnumerator
  obtain ⟨rfl, rfl⟩ := fits_char.mp hslash
  obtain ⟨-, hall, rfl⟩ := of_fits_run1 hdenominator
  exact ⟨numerator ++ '/' :: denominator, by simp, .marked hne hdigits hall⟩

/-! ## What the shapes of quantities read -/

theorem isBlank_of_atEnd {s rest : Text} {u : Unit} (h : Fits Shape.atEnd s u rest) :
    ∀ c ∈ s, isBlank c = true := by
  rcases (fits_atEnd.mp h).1 with rfl | rfl
  · exact nofun
  · intro c hc
    rw [List.mem_singleton.mp hc]
    decide

theorem of_fits_unitToEnd {s unit rest : Text} (h : Fits Measure.unitToEnd s unit rest) :
    unit ≠ [] ∧ (∀ c ∈ unit, isTargetChar c = true) ∧
      ∃ tail, unit ++ tail = s ∧ ∀ c ∈ tail, isBlank c = true := by
  simp only [Measure.unitToEnd, fits_bind, fits_pure] at h
  obtain ⟨w, t, hrun, e, v, hend, rfl, rfl⟩ := h
  obtain ⟨hne, hchars, rfl⟩ := of_fits_run1 hrun
  exact ⟨hne, fun c hc => isTargetChar_of_isMicroUnitChar (hchars c hc), t, rfl,
    isBlank_of_atEnd hend⟩

/-- A number, blanks and a unit that ends the text make up a quantity. -/
theorem Quantity.of_parts {w gap unit tail : Text} (hw : ∀ c ∈ w, isAmountChar c = true)
    (hdigit : ∃ c ∈ w, isDigit c = true) (hgap : ∀ c ∈ gap, isBlank c = true) (hne : unit ≠ [])
    (hunit : ∀ c ∈ unit, isTargetChar c = true) (htail : ∀ c ∈ tail, isBlank c = true) :
    Quantity unit (w ++ (gap ++ (unit ++ tail))) := by
  rw [← List.append_assoc]
  refine .mk ?_ ?_ hne hunit htail
  · intro c hc
    exact (List.mem_append.mp hc).elim (hw c) fun hc => isAmountChar_of_isBlank (hgap c hc)
  · obtain ⟨c, hc, hdigit⟩ := hdigit
    exact ⟨c, List.mem_append_left _ hc, hdigit⟩

theorem of_decimalQuantity {s unit : Text} {n : Number.Numeral}
    (h : Measure.decimalQuantity.read? s = some (n, unit)) :
    Quantity unit s ∧ EndsIn unit s := by
  obtain ⟨rest, hfits⟩ := Text.Shape.fits_of_read? h
  simp only [Measure.decimalQuantity, fits_bind, fits_pure] at hfits
  obtain ⟨m, t, hdecimal, gap, u, hgap, v, r, hunit, heq, rfl⟩ := hfits
  cases heq
  obtain ⟨w, rfl, hw⟩ := of_fits_decimal hdecimal
  obtain ⟨hblanks, rfl⟩ := of_fits_run hgap
  obtain ⟨hne, hchars, tail, rfl, htail⟩ := of_fits_unitToEnd hunit
  constructor
  · exact .of_parts (hw.amountChar (by decide)) hw.digit hblanks hne hchars htail
  · exact .of_gap (hw.visible (by decide)) hblanks htail

theorem of_fractionQuantity {s unit : Text} {parts : Text × Text}
    (h : Measure.fractionQuantity.read? s = some (parts, unit)) :
    Quantity unit s ∧ EndsIn unit s := by
  obtain ⟨rest, hfits⟩ := Text.Shape.fits_of_read? h
  simp only [Measure.fractionQuantity, fits_bind, fits_pure] at hfits
  obtain ⟨p, t, hfraction, gap, u, hgap, v, r, hunit, heq, rfl⟩ := hfits
  cases heq
  obtain ⟨w, rfl, hw⟩ := of_fits_fraction hfraction
  obtain ⟨hblanks, rfl⟩ := of_fits_run hgap
  obtain ⟨hne, hchars, tail, rfl, htail⟩ := of_fits_unitToEnd hunit
  constructor
  · exact .of_parts (hw.amountChar (by decide)) hw.digit hblanks hne hchars htail
  · exact .of_gap (hw.visible (by decide)) hblanks htail

/-- A number with a fraction behind it, where blanks stand between the two. -/
theorem isAmountChar_mixed {whole gap w : Text} (hwhole : ∀ c ∈ whole, isAmountChar c = true)
    (hgap : ∀ c ∈ gap, isBlank c = true) (hw : IsAmount '/' w) :
    ∀ c ∈ whole ++ (gap ++ w), isAmountChar c = true := by
  intro c hc
  simp only [List.mem_append] at hc
  rcases hc with hc | hc | hc
  · exact hwhole c hc
  · exact isAmountChar_of_isBlank (hgap c hc)
  · exact hw.amountChar (by decide) c hc

theorem of_mixedFractionQuantity {s whole unit : Text} {parts : Text × Text}
    (h : Measure.mixedFractionQuantity.read? s = some (whole, parts, unit)) :
    Quantity unit s ∧ EndsIn unit s := by
  obtain ⟨rest, hfits⟩ := Text.Shape.fits_of_read? h
  simp only [Measure.mixedFractionQuantity, fits_bind, fits_pure] at hfits
  obtain ⟨d, t, hdigits, g, t', hg, p, t'', hfraction, gap, u, hgap, v, r, hunit, heq, rfl⟩ := hfits
  cases heq
  obtain ⟨-, hwhole, rfl⟩ := of_fits_run1 hdigits
  obtain ⟨-, hfirst, rfl⟩ := of_fits_run1 hg
  obtain ⟨w, rfl, hw⟩ := of_fits_fraction hfraction
  obtain ⟨c, hc, hdigit⟩ := hw.digit
  obtain ⟨hgapne, hblanks, rfl⟩ := of_fits_run1 hgap
  obtain ⟨hne, hchars, tail, rfl, htail⟩ := of_fits_unitToEnd hunit
  have hamount := isAmountChar_mixed (fun c hc => isAmountChar_of_isDigit (hwhole c hc)) hfirst hw
  have hsplit : whole ++ (g ++ (w ++ (gap ++ (unit ++ tail)))) =
      (whole ++ (g ++ w)) ++ (gap ++ (unit ++ tail)) := by
    simp only [List.append_assoc]
  rw [hsplit]
  constructor
  · exact .of_parts hamount ⟨c, by simp [hc], hdigit⟩ hblanks hne hchars htail
  · exact .spaced hgapne hblanks htail

theorem of_operandShape {s : Text} {o : Measure.WrittenOperand}
    (h : Measure.operandShape.read? s = some o) : Quantity o.unit s := by
  obtain ⟨rest, hfits⟩ := Text.Shape.fits_of_read? h
  simp only [Measure.operandShape, fits_bind, fits_pure, fits_opt] at hfits
  obtain ⟨n, t, hdecimal, fraction, t', hfraction, gap, u, hgap, v, r, hunit, rfl, rfl⟩ := hfits
  obtain ⟨w, rfl, hw⟩ := of_fits_decimal hdecimal
  obtain ⟨c, hc, hdigit⟩ := hw.digit
  obtain ⟨hblanks, rfl⟩ := of_fits_run hgap
  obtain ⟨hne, hchars, tail, rfl, htail⟩ := of_fits_unitToEnd hunit
  have hdecimals := hw.amountChar (by decide)
  rcases hfraction with ⟨a, -, g, t'', hg, p, x, hparts, -, rfl⟩ | ⟨-, rfl⟩
  · obtain ⟨-, hfirst, rfl⟩ := of_fits_run1 hg
    obtain ⟨y, rfl, hy⟩ := of_fits_fraction hparts
    have hsplit : w ++ (g ++ (y ++ (gap ++ (v ++ tail)))) =
        (w ++ (g ++ y)) ++ (gap ++ (v ++ tail)) := by
      simp only [List.append_assoc]
    rw [hsplit]
    exact .of_parts (isAmountChar_mixed hdecimals hfirst hy) ⟨c, by simp [hc], hdigit⟩ hblanks hne
      hchars htail
  · exact .of_parts hdecimals ⟨c, hc, hdigit⟩ hblanks hne hchars htail

theorem of_speedQuantity {s unit : Text} {n : Number.Numeral}
    (h : speedQuantity.read? s = some (n, unit)) : Quantity unit s := by
  obtain ⟨rest, hfits⟩ := Text.Shape.fits_of_read? h
  simp only [speedQuantity, fits_bind, fits_pure] at hfits
  obtain ⟨m, t, hdecimal, gap, u, hgap, v, r, hunit, e, r', hend, heq, rfl⟩ := hfits
  cases heq
  obtain ⟨w, rfl, hw⟩ := of_fits_decimal hdecimal
  obtain ⟨hblanks, rfl⟩ := of_fits_run hgap
  obtain ⟨hne, hchars, rfl⟩ := of_fits_run1 hunit
  refine .of_parts (hw.amountChar (by decide)) hw.digit hblanks hne ?_ (isBlank_of_atEnd hend)
  intro c hc
  have hchar := hchars c hc
  simp only [Bool.or_eq_true, beq_iff_eq] at hchar
  rcases hchar with ((hletter | rfl) | rfl) | rfl
  · exact isTargetChar_of_isLetter hletter
  all_goals decide

theorem of_spacedQuantity {s unit : Text} {n : Number.Numeral}
    (h : spacedQuantity.read? s = some (n, unit)) : Quantity unit s := by
  obtain ⟨rest, hfits⟩ := Text.Shape.fits_of_read? h
  simp only [spacedQuantity, fits_bind, fits_pure] at hfits
  obtain ⟨m, t, hdecimal, gap, u, hgap, v, r, hunit, heq, rfl⟩ := hfits
  cases heq
  obtain ⟨w, rfl, hw⟩ := of_fits_decimal hdecimal
  obtain ⟨-, hblanks, rfl⟩ := of_fits_run1 hgap
  obtain ⟨hne, hchars, tail, rfl, htail⟩ := of_fits_unitToEnd hunit
  exact .of_parts (hw.amountChar (by decide)) hw.digit hblanks hne hchars htail

theorem of_shownSum {p : Char → Bool} (hp : ∀ c, p c = true → isTargetChar c = true)
    {s amount unit : Text} (h : (shownSum p).read? s = some (amount, unit)) :
    EndsIn unit s ∧ ∀ c ∈ unit, isTargetChar c = true := by
  obtain ⟨rest, hfits⟩ := Text.Shape.fits_of_read? h
  simp only [shownSum, fits_bind, fits_pure] at hfits
  obtain ⟨w, t, hamount, gap, t', hgap, v, tail, hunit, e, r, hend, heq, rfl⟩ := hfits
  cases heq
  obtain ⟨-, hw, rfl⟩ := of_fits_run1 hamount
  obtain ⟨hgapne, hblanks, rfl⟩ := of_fits_run1 hgap
  obtain ⟨-, hchars, rfl⟩ := of_fits_run1 hunit
  exact ⟨.spaced hgapne hblanks (isBlank_of_atEnd hend), fun c hc => hp c (hchars c hc)⟩

/-! ## Sums -/

/-- The characters of a part of a sum. -/
def pieceText : Measure.Piece → Text
  | .operand s => s
  | .operator c => [c]

/-- The parts of a sum take turns, where operands may be left out; `next` tells whether an operand
may come next. -/
inductive TakeTurns : Bool → List Measure.Piece → Prop
  | nil {next : Bool} : TakeTurns next []
  | operand {s : Text} {ps : List Measure.Piece} (h : TakeTurns false ps) :
    TakeTurns true (.operand s :: ps)
  | operator {next : Bool} {c : Char} {ps : List Measure.Piece} (hc : c = '+' ∨ c = '-')
    (h : TakeTurns true ps) : TakeTurns next (.operator c :: ps)

theorem takeTurns_splitFrom (before : Option Char) (taken s : Text) :
    TakeTurns true (Measure.splitFrom before taken s) := by
  induction s generalizing before taken with
  | nil => exact .operand .nil
  | cons c s ih =>
    rw [Measure.splitFrom]
    split
    next hc =>
      simp only [Measure.separates, Bool.and_eq_true, Bool.or_eq_true, beq_iff_eq] at hc
      exact .operand (.operator hc.1 (ih _ _))
    · exact ih _ _

theorem TakeTurns.mono {ps : List Measure.Piece} (h : TakeTurns false ps) : TakeTurns true ps := by
  cases h with
  | nil => exact .nil
  | operator hc h => exact .operator hc h

theorem TakeTurns.filter {next : Bool} {ps : List Measure.Piece} (h : TakeTurns next ps) :
    TakeTurns next (ps.filter Measure.Piece.isSolid) := by
  induction h with
  | nil => exact .nil
  | @operand s ps h ih =>
    rw [List.filter_cons]
    split
    · exact .operand ih
    · exact ih.mono
  | operator hc h ih => exact .operator hc ih

theorem flatMap_splitFrom (before : Option Char) (taken s : Text) :
    (Measure.splitFrom before taken s).flatMap pieceText = taken.reverse ++ s := by
  induction s generalizing before taken with
  | nil => simp [Measure.splitFrom, pieceText]
  | cons c s ih =>
    rw [Measure.splitFrom]
    split
    · simp [pieceText, ih]
    · simp [ih]

theorem bare_flatMap_filter (ps : List Measure.Piece) :
    bare ((ps.filter Measure.Piece.isSolid).flatMap pieceText) = bare (ps.flatMap pieceText) := by
  induction ps with
  | nil => rfl
  | cons p ps ih =>
    rw [List.filter_cons, List.flatMap_cons, bare_append]
    split
    · rw [List.flatMap_cons, bare_append, ih]
    next hblank =>
      cases p with
      | operand s =>
        simp only [Measure.Piece.isSolid, Bool.not_eq_true', Bool.not_eq_false,
          List.all_eq_true] at hblank
        rw [ih, pieceText, bare_eq_nil hblank, List.nil_append]
      | operator c => exact absurd rfl hblank

/-- Blanks aside, the parts of a sum are its text. -/
theorem bare_pieces (s : Text) : bare ((Measure.pieces s).flatMap pieceText) = bare s := by
  rw [Measure.pieces, bare_flatMap_filter, flatMap_splitFrom]
  rfl

theorem takeTurns_pieces (s : Text) : TakeTurns true (Measure.pieces s) :=
  (takeTurns_splitFrom none [] s).filter

theorem quantities_operator {c : Char} (hc : c = '+' ∨ c = '-') {s : Text} {us : List Text}
    (h : Quantities us (bare s)) : Quantities us (bare (c :: s)) := by
  have hspacing : isSpacing c = false := by rcases hc with rfl | rfl <;> decide
  rw [bare_cons_of_not hspacing]
  refine .signed ?_ ?_ h
  · rcases hc with rfl | rfl <;> decide
  · rcases hc with rfl | rfl <;> decide

theorem of_compactPair {s u v : Text} {n m : Number.Numeral} {operator : Char}
    (h : Measure.compactPair.read? s = some ((n, u), operator, (m, v))) :
    Quantities [u, v] (bare s) := by
  obtain ⟨rest, hfits⟩ := Text.Shape.fits_of_read? h
  simp only [Measure.compactPair, fits_bind, fits_pure, fits_one] at hfits
  obtain ⟨a, t, hfirst, b, t', hunit, c, t'', ⟨rfl, hsign⟩, d, r, hsecond, e, r', hlast, heq,
    rfl⟩ := hfits
  cases heq
  obtain ⟨w, rfl, hw⟩ := of_fits_decimal hfirst
  obtain ⟨hne, hchars, rfl⟩ := of_fits_many1 hunit
  obtain ⟨x, rfl, hx⟩ := of_fits_decimal hsecond
  obtain ⟨hne', hchars', tail, rfl, htail⟩ := of_fits_unitToEnd hlast
  simp only [Bool.or_eq_true, beq_iff_eq] at hsign
  have hleft : Quantity u (w ++ (u ++ [])) :=
    .mk (hw.amountChar (by decide)) hw.digit hne
      (fun c hc => isTargetChar_of_isMicroUnitChar (hchars c hc)) nofun
  have hright : Quantity v (x ++ (v ++ tail)) :=
    .mk (hx.amountChar (by decide)) hx.digit hne' hchars' htail
  have hboth := hleft.quantities.append (quantities_operator hsign hright.quantities)
  rwa [List.append_nil, ← bare_append, List.append_assoc] at hboth

/-! ## Lines with a target -/

/-- The keyword `w` in either case, with blanks around it. -/
inductive Keyword (w : String) : Text → Prop
  | mk {before word behind : Text} (hbefore : before ≠ []) (hblanks : ∀ c ∈ before, isBlank c = true)
    (hword : Text.sameLetters word w.toList = true) (hbehind : behind ≠ [])
    (hblanks' : ∀ c ∈ behind, isBlank c = true) : Keyword w (before ++ (word ++ behind))

theorem of_keyword {w : String} {s rest : Text} {u : Unit} (h : Fits (keyword w) s u rest) :
    ∃ key, Keyword w key ∧ key ++ rest = s := by
  simp only [keyword, fits_bind, fits_pure] at h
  obtain ⟨before, t, hbefore, word, t', hword, behind, t'', hbehind, -, rfl⟩ := h
  obtain ⟨hne, hblanks, rfl⟩ := of_fits_run1 hbefore
  obtain ⟨hsame, rfl⟩ := Text.Shape.of_fits_word hword
  obtain ⟨hne', hblanks', rfl⟩ := of_fits_run1 hbehind
  exact ⟨_, .mk hne hblanks hsame hne' hblanks', by simp only [List.append_assoc]⟩

/-- What a line asks for: the text that is to be converted, and the target, if it names one. -/
inductive Asks : Text → Text → Option Text → Prop
  | alone (s : Text) : Asks s s none
  | within {value key target tail : Text} (hkey : ∃ w ∈ ["in", "to"], Keyword w key)
    (htarget : target ≠ []) (hchars : ∀ c ∈ target, isTargetChar c = true)
    (htail : ∀ c ∈ tail, isBlank c = true) :
    Asks (value ++ (key ++ (target ++ tail))) value (some target)

/-- A keyword and a target behind what is to be converted. -/
theorem Asks.of_target {w : String} (hw : w ∈ ["in", "to"]) {s t rest target : Text} {u : Unit}
    (hkeyword : Fits (keyword w) s u t) (htarget : Fits targetUnit t target rest) (value : Text) :
    Asks (value ++ s) value (some target) := by
  simp only [targetUnit, fits_bind, fits_pure] at htarget
  obtain ⟨unit, t', hrun, e, r, hend, rfl, rfl⟩ := htarget
  obtain ⟨hne, hchars, rfl⟩ := of_fits_run1 hrun
  obtain ⟨key, hkey, rfl⟩ := of_keyword hkeyword
  exact .within ⟨w, hw, hkey⟩ hne (fun c hc => isTargetChar_of_anyCase (hchars c hc))
    (isBlank_of_atEnd hend)

theorem of_conversionTo {w : String} (hw : w ∈ ["in", "to"]) {s value target : Text}
    (h : (conversionTo w).read? s = some (value, target)) : Asks s value (some target) := by
  obtain ⟨rest, hfits⟩ := Text.Shape.fits_of_read? h
  simp only [conversionTo, fits_bind, fits_pure] at hfits
  obtain ⟨v, t, hvalue, u, t', hkeyword, x, t'', htarget, e, r, hend, heq, rfl⟩ := hfits
  cases heq
  obtain ⟨-, -, rfl⟩ := of_fits_many1 hvalue
  obtain ⟨hne, hchars, rfl⟩ := of_fits_run1 htarget
  obtain ⟨key, hkey, rfl⟩ := of_keyword hkeyword
  exact .within ⟨w, hw, hkey⟩ hne hchars (isBlank_of_atEnd hend)

theorem of_feetInchesShape {s feet inches target : Text}
    (h : feetInchesShape.read? s = some (feet, inches, target)) :
    ∃ value, Asks s value (some target) ∧ Quantities [['\''], ['"']] (bare value) := by
  obtain ⟨rest, hfits⟩ := Text.Shape.fits_of_read? h
  simp only [feetInchesShape, fits_bind, fits_pure] at hfits
  obtain ⟨d, t, hfeet, g, t₁, hgap, c, t₂, hfoot, g', t₃, hgap', d', t₄, hinches, g'', t₅, hgap'',
    c', t₆, hinch, before, t₇, hbefore, word, t₈, hword, behind, t₉, hbehind, unit, t₁₀, hunit,
    heq, rfl⟩ := hfits
  cases heq
  obtain ⟨hne, hdigits, rfl⟩ := of_fits_run1 hfeet
  obtain ⟨hblanks, rfl⟩ := of_fits_run hgap
  obtain ⟨rfl, rfl⟩ := fits_char.mp hfoot
  obtain ⟨hblanks', rfl⟩ := of_fits_run hgap'
  obtain ⟨hne', hdigits', rfl⟩ := of_fits_run1 hinches
  obtain ⟨hblanks'', rfl⟩ := of_fits_run hgap''
  obtain ⟨rfl, rfl⟩ := fits_char.mp hinch
  obtain ⟨hbeforene, hbeforeblank, rfl⟩ := of_fits_run1 hbefore
  obtain ⟨rfl, rfl⟩ := Text.Shape.of_fits_exactly hword
  obtain ⟨hbehindne, hbehindblank, rfl⟩ := of_fits_run1 hbehind
  obtain ⟨htarget, hchars, tail, rfl, htail⟩ := of_fits_unitToEnd hunit
  refine ⟨feet ++ (g ++ '\'' :: (g' ++ (inches ++ (g'' ++ ['"'])))), ?_, ?_⟩
  · have hkey : Keyword "in" (before ++ ("in".toList ++ behind)) :=
      .mk hbeforene hbeforeblank (by decide) hbehindne hbehindblank
    have hasks := @Asks.within (feet ++ (g ++ '\'' :: (g' ++ (inches ++ (g'' ++ ['"']))))) _
      target tail ⟨"in", by simp, hkey⟩ htarget hchars htail
    simpa using hasks
  · have hfootsign : isSpacing '\'' = false := by decide
    have hinchsign : isSpacing '"' = false := by decide
    have hshape : bare (feet ++ (g ++ '\'' :: (g' ++ (inches ++ (g'' ++ ['"']))))) =
        feet ++ (['\''] ++ (inches ++ (['"'] ++ []))) := by
      simp only [bare_append, bare_cons_of_not hfootsign, bare_cons_of_not hinchsign,
        bare_digits hdigits, bare_digits hdigits', bare_eq_nil hblanks, bare_eq_nil hblanks',
        bare_eq_nil hblanks'', bare_nil, List.nil_append, List.singleton_append, List.append_nil]
    have hsign {c : Char} (hc : isDigit c = false) : ∀ d ∈ [c], isDigit d = false :=
      List.forall_mem_singleton.mpr hc
    rw [hshape]
    exact .counted hne hdigits (List.cons_ne_nil _ _) (hsign (by decide))
      (.counted hne' hdigits' (List.cons_ne_nil _ _) (hsign (by decide)) .nil)

theorem isTargetChar_of_plainUnit {c : Char} (h : (Text.isLetterAnyCase c || c == '-') = true) :
    isTargetChar c = true := by
  rw [Bool.or_eq_true, beq_iff_eq] at h
  rcases h with h | rfl
  · simp [isTargetChar, Measure.isUnitCharAnyCase, h]
  · decide

theorem of_twoUnitsShape {s n u m v target : Text}
    (h : twoUnitsShape.read? s = some ((n, u), (m, v), target)) :
    ∃ value, Asks s value (some target) ∧ Quantities [u, v] (bare value) := by
  obtain ⟨rest, hfits⟩ := Text.Shape.fits_of_read? h
  simp only [twoUnitsShape, fits_bind, fits_pure] at hfits
  obtain ⟨d, t, hfirst, g, t₁, hgap, x, t₂, hunit, g', t₃, hgap', d', t₄, hsecond, g'', t₅, hgap'',
    x', t₆, hunit', e, t₇, hkeyword, y, t₈, htarget, heq, rfl⟩ := hfits
  cases heq
  obtain ⟨hn, hdigits, rfl⟩ := of_fits_run1 hfirst
  obtain ⟨-, hblanks, rfl⟩ := of_fits_run1 hgap
  obtain ⟨hu, hchars, rfl⟩ := of_fits_run1 hunit
  obtain ⟨-, hblanks', rfl⟩ := of_fits_run1 hgap'
  obtain ⟨hm, hdigits', rfl⟩ := of_fits_run1 hsecond
  obtain ⟨-, hblanks'', rfl⟩ := of_fits_run1 hgap''
  obtain ⟨hv, hchars', rfl⟩ := of_fits_run1 hunit'
  have hunitchars : ∀ c ∈ u, isTargetChar c = true :=
    fun c hc => isTargetChar_of_plainUnit (hchars c hc)
  have hunitchars' : ∀ c ∈ v, isTargetChar c = true :=
    fun c hc => isTargetChar_of_plainUnit (hchars' c hc)
  refine ⟨n ++ (g ++ (u ++ (g' ++ (m ++ (g'' ++ v))))), ?_, ?_⟩
  · have hasks := Asks.of_target (by simp) hkeyword htarget
      (n ++ (g ++ (u ++ (g' ++ (m ++ (g'' ++ v))))))
    simpa only [List.append_assoc] using hasks
  · have hshape : bare (n ++ (g ++ (u ++ (g' ++ (m ++ (g'' ++ v)))))) =
        n ++ (u ++ (m ++ (v ++ []))) := by
      simp only [bare_append, bare_digits hdigits, bare_digits hdigits', bare_eq_nil hblanks,
        bare_eq_nil hblanks', bare_eq_nil hblanks'', bare_unit hunitchars, bare_unit hunitchars',
        List.nil_append, List.append_nil]
    rw [hshape]
    exact .counted hn hdigits hu (fun c hc => isDigit_of_isTargetChar (hunitchars c hc))
      (.counted hm hdigits' hv (fun c hc => isDigit_of_isTargetChar (hunitchars' c hc)) .nil)

/-- A sign of multiplication between the quantities of two texts. -/
theorem of_timesSign {s rest : Text} {u : Unit} (h : Fits timesSign s u rest) :
    ∃ sign, sign ++ rest = s ∧ bare sign = ['*'] := by
  simp only [timesSign, fits_bind, fits_pure] at h
  obtain ⟨g, t, hgap, c, t', hsign, g', t'', hgap', -, rfl⟩ := h
  obtain ⟨hblanks, rfl⟩ := of_fits_run hgap
  obtain ⟨rfl, rfl⟩ := fits_char.mp hsign
  obtain ⟨hblanks', rfl⟩ := of_fits_run hgap'
  have hspacing : isSpacing '*' = false := by decide
  refine ⟨g ++ '*' :: g', by simp, ?_⟩
  rw [bare_append, bare_cons_of_not hspacing, bare_eq_nil hblanks, bare_eq_nil hblanks']
  rfl

theorem of_productShape {s u v target : Text} {n m : Number.Numeral}
    (h : productShape.read? s = some ((n, u), (m, v), target)) :
    ∃ value, Asks s value (some target) ∧ Quantities [u, v] (bare value) := by
  obtain ⟨rest, hfits⟩ := Text.Shape.fits_of_read? h
  simp only [productShape, fits_bind, fits_pure] at hfits
  obtain ⟨a, t, hfirst, g, t₁, hgap, x, t₂, hunit, e, t₃, htimes, b, t₄, hsecond, g', t₅, hgap',
    x', t₆, hunit', e', t₇, hkeyword, y, t₈, htarget, heq, rfl⟩ := hfits
  cases heq
  obtain ⟨w, rfl, hw⟩ := of_fits_decimal hfirst
  obtain ⟨hblanks, rfl⟩ := of_fits_run hgap
  obtain ⟨hu, hchars, rfl⟩ := of_fits_run1 hunit
  obtain ⟨sign, rfl, hsign⟩ := of_timesSign htimes
  obtain ⟨w', rfl, hw'⟩ := of_fits_decimal hsecond
  obtain ⟨hblanks', rfl⟩ := of_fits_run hgap'
  obtain ⟨hv, hchars', rfl⟩ := of_fits_run1 hunit'
  have hleft : Quantity u (w ++ (g ++ (u ++ []))) :=
    .of_parts (hw.amountChar (by decide)) hw.digit hblanks hu
      (fun c hc => isTargetChar_of_anyCase (hchars c hc)) nofun
  have hright : Quantity v (w' ++ (g' ++ (v ++ []))) :=
    .of_parts (hw'.amountChar (by decide)) hw'.digit hblanks' hv
      (fun c hc => isTargetChar_of_anyCase (hchars' c hc)) nofun
  refine ⟨w ++ (g ++ (u ++ (sign ++ (w' ++ (g' ++ v))))), ?_, ?_⟩
  · have hasks := Asks.of_target (by simp) hkeyword htarget
      (w ++ (g ++ (u ++ (sign ++ (w' ++ (g' ++ v))))))
    simpa only [List.append_assoc] using hasks
  · have htimes : Quantities [v] ('*' :: bare (w' ++ (g' ++ (v ++ [])))) :=
      hright.quantities.signed (by decide) (by decide)
    have hboth := hleft.quantities.append htimes
    simpa [hsign] using hboth

/-! ## Groups and compact sums -/

theorem of_enclosed {s inside target : Text} (h : enclosed.read? s = some (inside, target)) :
    ∃ value, Asks s value (some target) ∧ bare value = bare inside := by
  obtain ⟨rest, hfits⟩ := Text.Shape.fits_of_read? h
  simp only [enclosed, fits_bind, fits_pure] at hfits
  obtain ⟨a, t, hopen, x, t₁, hinside, b, t₂, hclose, e, t₃, hkeyword, y, t₄, htarget, heq, rfl⟩ :=
    hfits
  cases heq
  obtain ⟨rfl, rfl⟩ := fits_char.mp hopen
  obtain ⟨-, rfl⟩ := of_fits_many hinside
  obtain ⟨rfl, rfl⟩ := fits_char.mp hclose
  have hopening : isSpacing '(' = true := by decide
  have hclosing : isSpacing ')' = true := by decide
  refine ⟨'(' :: (inside ++ [')']), ?_, ?_⟩
  · have hasks := Asks.of_target (by simp) hkeyword htarget ('(' :: (inside ++ [')']))
    simpa using hasks
  · rw [bare_cons_of_spacing hopening, bare_append, bare_cons_of_spacing hclosing, bare_nil,
      List.append_nil]

theorem of_scaledGroup {s count sum : Text} (h : scaledGroup.read? s = some (count, sum))
    {us : List Text} (hus : us ≠ []) (hsum : Quantities us (bare sum)) :
    Quantities us (bare s) := by
  obtain ⟨rest, hfits⟩ := Text.Shape.fits_of_read? h
  simp only [scaledGroup, loneGroup, group, fits_bind, fits_pure] at hfits
  obtain ⟨d, t, hcount, e, t₁, htimes, i, t₂, ⟨x, t₃, ⟨a, t₄, hopen, y, t₅, hinside, b, t₆, hclose,
    rfl, rfl⟩, e', t₇, hend, rfl, rfl⟩, heq, rfl⟩ := hfits
  cases heq
  obtain ⟨-, hdigits, rfl⟩ := of_fits_run1 hcount
  obtain ⟨sign, rfl, hsign⟩ := of_timesSign htimes
  obtain ⟨rfl, rfl⟩ := fits_char.mp hopen
  obtain ⟨-, -, rfl⟩ := of_fits_run1 hinside
  obtain ⟨rfl, rfl⟩ := fits_char.mp hclose
  have hopening : isSpacing '(' = true := by decide
  have hclosing : isSpacing ')' = true := by decide
  rw [bare_append, bare_append, hsign, bare_cons_of_spacing hopening, bare_append,
    bare_cons_of_spacing hclosing, bare_eq_nil (isBlank_of_atEnd hend), List.append_nil,
    bare_digits hdigits]
  have htimes : Quantities us ('*' :: bare sum) := hsum.signed (by decide) (by decide)
  exact htimes.prepend (fun c hc => isUnitMark_of_isDigit (hdigits c hc)) hus

theorem of_nestedGroup {s inside target : Text}
    (h : nestedGroup.read? s = some (inside, target)) :
    ∃ value, Asks s value (some target) ∧
      bare value = bare (inside.filter fun c => !(c == '(' || c == ')')) := by
  obtain ⟨rest, hfits⟩ := Text.Shape.fits_of_read? h
  simp only [nestedGroup, fits_bind, fits_pure, Text.Shape.fits_orElse] at hfits
  obtain ⟨a, t, hopen, x, t₁, hinside, b, t₂, hclose, e, t₃, hkeyword, y, t₄, htarget, heq, rfl⟩ :=
    hfits
  cases heq
  obtain ⟨-, hopens, rfl⟩ := of_fits_many1 hopen
  obtain ⟨-, -, rfl⟩ := of_fits_run1 hinside
  obtain ⟨-, hcloses, rfl⟩ := of_fits_run1 hclose
  refine ⟨a ++ (inside ++ b), ?_, ?_⟩
  · have hasks : Asks ((a ++ (inside ++ b)) ++ t₂) (a ++ (inside ++ b)) (some target) := by
      rcases hkeyword with hkeyword | hkeyword
      · exact .of_target (by simp) hkeyword htarget _
      · exact .of_target (by simp) hkeyword htarget _
    simpa only [List.append_assoc] using hasks
  · have hopenspace : ∀ c ∈ a, isSpacing c = true := by
      intro c hc
      simp [isSpacing, beq_iff_eq.mp (hopens c hc)]
    have hclosespace : ∀ c ∈ b, isSpacing c = true := by
      intro c hc
      simp [isSpacing, beq_iff_eq.mp (hcloses c hc)]
    rw [bare_filter_brackets, bare_append, bare_append, bare_spacing hopenspace,
      bare_spacing hclosespace, List.nil_append, List.append_nil]

theorem of_compactIn {s pair target : Text} (h : compactIn.read? s = some (pair, target)) :
    Asks s pair (some target) := by
  obtain ⟨rest, hfits⟩ := Text.Shape.fits_of_read? h
  simp only [compactIn, fits_bind, fits_pure, fits_one] at hfits
  obtain ⟨a, t, hleft, u, t₁, hunit, operator, t₂, ⟨rfl, -⟩, b, t₃, hright, v, t₄, hunit', e, t₅,
    hkeyword, y, t₆, htarget, heq, rfl⟩ := hfits
  cases heq
  obtain ⟨-, -, rfl⟩ := of_fits_run1 hleft
  obtain ⟨-, rfl⟩ := of_fits_many hunit
  obtain ⟨-, -, rfl⟩ := of_fits_run1 hright
  obtain ⟨-, rfl⟩ := of_fits_run hunit'
  have hasks := Asks.of_target (by simp) hkeyword htarget (a ++ u ++ operator :: b ++ v)
  simpa using hasks

theorem of_compactTo {s pair target : Text} (h : compactTo.read? s = some (pair, target)) :
    Asks s pair (some target) := by
  obtain ⟨rest, hfits⟩ := Text.Shape.fits_of_read? h
  simp only [compactTo, fits_bind, fits_pure, fits_one] at hfits
  obtain ⟨a, t, hleft, operator, t₂, ⟨rfl, -⟩, b, t₃, hright, v, t₄, hunit', e, t₅, hkeyword, y, t₆,
    htarget, heq, rfl⟩ := hfits
  cases heq
  obtain ⟨-, -, rfl⟩ := of_fits_run1 hleft
  obtain ⟨-, -, rfl⟩ := of_fits_run1 hright
  obtain ⟨-, rfl⟩ := of_fits_run hunit'
  have hasks := Asks.of_target (by simp) hkeyword htarget (a ++ operator :: b ++ v)
  simpa using hasks

end DeskCalc.Query
