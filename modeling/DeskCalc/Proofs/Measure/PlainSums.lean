import DeskCalc.Proofs.Measure.Sums

/-!
# Plain sums

The operands of a plain sum are decimals with units of letters.  Either there is a blank between any
two parts of such a sum, or there are no blanks in it at all.

The main definition is `PlainSum`.
-/

namespace DeskCalc.Measure

open Attempt (bind_eq_found)
open Number (Numeral)
open Text (Shape StopsBefore isBlank isDigit)
open Text.Shape (Fits fits_bind fits_char fits_opt fits_pure not_fits_run1 of_fits_many1 of_fits_run1 read?_eq_none_iff)

theorem stopsBefore_append {p : Char → Bool} {s : Text} (h : StopsBefore p s) (hne : s ≠ [])
    (t : Text) : StopsBefore p (s ++ t) := by
  obtain ⟨c, s, rfl⟩ := List.exists_cons_of_ne_nil hne
  exact Text.stopsBefore_cons.mpr (Text.stopsBefore_cons.mp h)

/-! ## Terms -/

/-- Letters and the micro sign. -/
def isUnitLetter (c : Char) : Bool :=
  Text.isLetter c || c == 'µ'

/-- A decimal number and a unit of letters. -/
structure PlainTerm where
  whole : Text
  places : Text
  unit : Text
  digits : IsRow isDigit whole
  decimals : ∀ c ∈ places, isDigit c = true
  letters : IsRow isUnitLetter unit

variable {gap : Text} {c : Char}

theorem isMicroUnitChar_of_isUnitLetter (h : isUnitLetter c = true) : isMicroUnitChar c = true := by
  rw [isUnitLetter, Bool.or_eq_true] at h
  rcases h with hletter | hmicro
  · simp [isMicroUnitChar, isUnitChar, hletter]
  · simp [isMicroUnitChar, hmicro]

theorem isTargetChar_of_isUnitLetter (h : isUnitLetter c = true) : Query.isTargetChar c = true :=
  Query.isTargetChar_of_isMicroUnitChar (isMicroUnitChar_of_isUnitLetter h)

theorem isDigit_of_isSign (h : isSign c = true) : isDigit c = false := by
  rw [isSign, Bool.or_eq_true, beq_iff_eq, beq_iff_eq] at h
  rcases h with rfl | rfl <;> decide

theorem isSign_of_isUnitLetter (h : isUnitLetter c = true) : isSign c = false := by
  by_contra hsign
  rw [Bool.not_eq_false, isSign, Bool.or_eq_true, beq_iff_eq, beq_iff_eq] at hsign
  rcases hsign with rfl | rfl <;> cases h

namespace PlainTerm

variable (t : PlainTerm)

def number : Numeral :=
  ⟨t.whole, t.places, 0⟩

/-- The term as an operand. -/
def written : WrittenOperand :=
  ⟨t.number, none, t.unit⟩

/-- The term with `gap` in front of its unit. -/
def text (gap : Text) : Text :=
  decimalText t.number ++ (gap ++ t.unit)

theorem wellFormed : t.written.WellFormed where
  whole := t.digits
  places := t.decimals
  exponent := rfl
  ratio := by
    intro ratio hratio
    exact absurd hratio (Option.not_mem_none ratio)
  unit := ⟨t.letters.1, fun c hc => isMicroUnitChar_of_isUnitLetter (t.letters.2 c hc)⟩

theorem visible_unit : ∀ c ∈ t.unit, isBlank c = false :=
  fun c hc => isBlank_of_isMicroUnitChar (t.wellFormed.unit.2 c hc)

theorem exists_head : ∃ c s, decimalText t.number = c :: s ∧ isDigit c = true :=
  t.wellFormed.literal_head

theorem exists_unit_head : ∃ c s, t.unit = c :: s ∧ isUnitLetter c = true := by
  obtain ⟨c, s, hunit⟩ := List.exists_cons_of_ne_nil t.letters.1
  exact ⟨c, s, hunit, t.letters.2 c (hunit ▸ List.mem_cons_self)⟩

/-- The number is written as its whole digits and perhaps a point with the others. -/
theorem decimalText_cases : decimalText t.number = t.whole ∧ t.places = [] ∨
    decimalText t.number = t.whole ++ '.' :: t.places ∧ t.places ≠ [] := by
  by_cases hplaces : t.places = []
  · exact .inl ⟨if_pos (List.isEmpty_iff.mpr hplaces), hplaces⟩
  · exact .inr ⟨if_neg (mt List.isEmpty_iff.mp hplaces), hplaces⟩

/-- The characters of numbers. -/
theorem digit_or_point : ∀ c ∈ decimalText t.number, isDigit c = true ∨ c = '.' := by
  intro c hc
  rcases t.decimalText_cases with ⟨htext, -⟩ | ⟨htext, -⟩
  · exact .inl (t.digits.2 c (htext ▸ hc))
  · rw [htext, List.mem_append, List.mem_cons] at hc
    rcases hc with hc | rfl | hc
    · exact .inl (t.digits.2 c hc)
    · exact .inr rfl
    · exact .inl (t.decimals c hc)

/-- A decimal at the beginning of a text is all of the number in front, or it ends at the point. -/
theorem rest_of_decimal {s rest : Text} {n : Numeral}
    (h : Fits decimal (decimalText t.number ++ s) n rest) (hdigit : StopsBefore isDigit s)
    (hpoint : StopsBefore (· == '.') s) : rest = s ∨ ∃ u, rest = '.' :: u := by
  simp only [decimal, fits_bind, fits_opt, fits_pure] at h
  obtain ⟨whole, u, hwhole, fraction, v, hfraction, -, rfl⟩ := h
  rcases t.decimalText_cases with ⟨htext, -⟩ | ⟨htext, -⟩
  · rw [htext] at hwhole
    obtain ⟨-, rfl⟩ := eq_of_fits_run1 hwhole t.digits.2 hdigit
    rcases hfraction with ⟨places, -, hpointed⟩ | ⟨-, rfl⟩
    · exact absurd (fits_bind.mpr hpointed) (not_fits_decimalPoint hpoint places)
    · exact .inl rfl
  · rw [htext, List.append_assoc, List.cons_append] at hwhole
    obtain ⟨-, rfl⟩ := eq_of_fits_run1 hwhole t.digits.2 (Text.stopsBefore_cons.mpr (by decide))
    rcases hfraction with ⟨places, -, c, w, hchar, hplaces⟩ | ⟨-, rfl⟩
    · obtain ⟨hsplit, -⟩ := fits_char.mp hchar
      obtain ⟨-, rfl⟩ := List.cons.inj hsplit
      exact .inl (eq_of_fits_run1 hplaces t.decimals hdigit).2
    · exact .inr ⟨_, rfl⟩

/-- Neither digits nor a point begin what follows a number. -/
theorem stopsBefore_text (hgap : ∀ c ∈ gap, isBlank c = true) (s : Text) :
    StopsBefore isDigit (gap ++ (t.unit ++ s)) ∧ StopsBefore (· == '.') (gap ++ (t.unit ++ s)) := by
  obtain ⟨hdigit, hpoint⟩ := stopsBefore_gap hgap t.wellFormed.unit.2
  have hne : gap ++ t.unit ≠ [] := List.append_ne_nil_of_right_ne_nil gap t.letters.1
  rw [← List.append_assoc]
  exact ⟨stopsBefore_append hdigit hne s, stopsBefore_append hpoint hne s⟩

/-- A unit stops what none of its letters belongs to. -/
theorem stopsBefore_unit {p : Char → Bool} (hp : ∀ c ∈ t.unit, p c = false) (s : Text) :
    StopsBefore p (t.unit ++ s) := by
  obtain ⟨c, u, hunit, -⟩ := t.exists_unit_head
  rw [hunit] at hp ⊢
  exact Text.stopsBefore_cons.mpr (hp c List.mem_cons_self)

theorem hyphenated_text (hgap : ∀ c ∈ gap, isBlank c = true) (before : Option Char) :
    hyphenated before (t.text gap) = true := by
  apply hyphenated_of_not_sign
  intro c hc
  rcases List.mem_append.mp hc with hc | hc
  · exact Operand.isSign_of_isAmountChar (t.wellFormed.isAmountChar_literal c hc)
  · rcases List.mem_append.mp hc with hc | hc
    · exact not_sign_of_isBlank (hgap c hc)
    · exact isSign_of_isUnitLetter (t.letters.2 c hc)

/-- A term in a known unit is read as a summand, whatever blanks stand around it. -/
theorem readSummand_text {before behind : Text} (hbefore : ∀ c ∈ before, isBlank c = true)
    (hbehind : ∀ c ∈ behind, isBlank c = true) (hgap : ∀ c ∈ gap, isBlank c = true) :
    readSummand (before ++ (t.text gap ++ behind)) = Attempt.ofOption ((find? t.unit).map fun u =>
      ⟨u, t.number.value * u.factor, Number.placesShown (decimalText t.number)⟩) := by
  have hstrip : Text.strip (before ++ (t.text gap ++ behind)) = t.written.textWith gap :=
    Text.strip_between hbefore hbehind (t.wellFormed.visible_ends gap).1
      (t.wellFormed.visible_ends gap).2
  have hamount : t.written.amount = .found t.number.value := rfl
  rw [readSummand, hstrip, t.wellFormed.read? hgap, Attempt.ofOption_some_bind, hamount,
    Attempt.found_bind]
  have hunit : find? t.written.unit = find? t.unit := rfl
  rw [hunit]
  cases find? t.unit with
  | none => rfl
  | some u => rfl

end PlainTerm

/-! ## Sums -/

/-- The sign of a term. -/
def signOf (negative : Bool) : Char :=
  if negative then '-' else '+'

/-- Terms with signs between them. -/
structure PlainSum where
  first : PlainTerm
  others : List (Bool × PlainTerm)
  nonempty : others ≠ []

namespace PlainSum

variable (x : PlainSum)

/-- The sum with `gap` between any two parts. -/
def text (gap : Text) : Text :=
  x.first.text gap ++ x.others.flatMap fun p => gap ++ signOf p.1 :: (gap ++ p.2.text gap)

theorem isSign_signOf (negative : Bool) : isSign (signOf negative) = true := by
  cases negative <;> rfl

/-- A sum begins with its first term, and a sign and another number follow. -/
theorem exists_opening (gap : Text) : ∃ c d s, isSign c = true ∧ isDigit d = true ∧
    x.text gap = x.first.text gap ++ (gap ++ c :: (gap ++ d :: s)) := by
  obtain ⟨⟨negative, t⟩, others, hothers⟩ := List.exists_cons_of_ne_nil x.nonempty
  obtain ⟨d, s, hs, hd⟩ := t.exists_head
  have htext : t.text gap = d :: (s ++ (gap ++ t.unit)) := by
    rw [PlainTerm.text, hs, List.cons_append]
  refine ⟨signOf negative, d, (s ++ (gap ++ t.unit)) ++
    others.flatMap fun p => gap ++ signOf p.1 :: (gap ++ p.2.text gap), isSign_signOf negative, hd, ?_⟩
  simp [text, hothers, htext]

/-- A sum ends in a letter of the last unit. -/
theorem exists_end (gap : Text) : ∃ s c, x.text gap = s ++ [c] ∧ isUnitLetter c = true := by
  obtain ⟨others, ⟨negative, t⟩, hothers⟩ := (List.eq_nil_or_concat x.others).resolve_left x.nonempty
  obtain ⟨unit, c, hunit⟩ := (List.eq_nil_or_concat t.unit).resolve_left t.letters.1
  refine ⟨x.first.text gap ++ (others.flatMap fun p => gap ++ signOf p.1 :: (gap ++ p.2.text gap)) ++
    (gap ++ signOf negative :: (gap ++ (decimalText t.number ++ (gap ++ unit)))), c, ?_, ?_⟩
  · simp [text, hothers, PlainTerm.text, hunit]
  · exact t.letters.2 c (by simp [hunit])

/-- The characters of sums. -/
def isSumChar (c : Char) : Bool :=
  isDigit c || isUnitLetter c || isSign c || c == '.' || c == ' '

theorem isSumChar_term (t : PlainTerm) (hgap : ∀ c ∈ gap, c = ' ') :
    ∀ c ∈ t.text gap, isSumChar c = true := by
  intro c hc
  rcases List.mem_append.mp hc with hc | hc
  · rcases t.digit_or_point c hc with hdigit | rfl
    · simp [isSumChar, hdigit]
    · rfl
  · rcases List.mem_append.mp hc with hc | hc
    · rw [hgap c hc]
      rfl
    · simp [isSumChar, t.letters.2 c hc]

theorem isSumChar_text (hgap : ∀ c ∈ gap, c = ' ') : ∀ c ∈ x.text gap, isSumChar c = true := by
  have hblank : ∀ c ∈ gap, isSumChar c = true := by
    intro c hc
    rw [hgap c hc]
    rfl
  refine List.forall_mem_append.mpr ⟨isSumChar_term _ hgap, ?_⟩
  intro c hc
  obtain ⟨⟨negative, t⟩, -, hc⟩ := List.mem_flatMap.mp hc
  have hsign : isSumChar (signOf negative) = true := by simp [isSumChar, isSign_signOf]
  have hterm : ∀ c ∈ gap ++ signOf negative :: (gap ++ t.text gap), isSumChar c = true :=
    List.forall_mem_append.mpr ⟨hblank, List.forall_mem_cons.mpr ⟨hsign,
      List.forall_mem_append.mpr ⟨hblank, isSumChar_term t hgap⟩⟩⟩
  exact hterm c hc

end PlainSum

/-! ## Adding up -/

section Adding

variable {s w rest : Text} (x : PlainSum)

/-- A text without a slash names no fractions. -/
theorem fractions_eq_none (h : '/' ∉ s) :
    mixedFractionQuantity.read? s = none ∧ fractionQuantity.read? s = none := by
  constructor
  · rw [read?_eq_none_iff]
    rintro ⟨whole, parts, unit⟩ rest hfits
    simp only [mixedFractionQuantity, fits_bind] at hfits
    obtain ⟨digits, t, hdigits, gap, u, hgap, ratio, v, hratio, -⟩ := hfits
    obtain ⟨-, -, rfl⟩ := of_fits_run1 hdigits
    obtain ⟨-, -, rfl⟩ := of_fits_run1 hgap
    obtain ⟨-, -, rfl⟩ := eq_of_fits_fraction hratio
    exact h (by simp [ratioText])
  · rw [read?_eq_none_iff]
    rintro ⟨parts, unit⟩ rest hfits
    simp only [fractionQuantity, fits_bind] at hfits
    obtain ⟨ratio, v, hratio, -⟩ := hfits
    obtain ⟨-, -, rfl⟩ := eq_of_fits_fraction hratio
    exact h (by simp [ratioText])

/-- A text is cut at a sign that a number or a blank follows. -/
theorem splitFrom_sign (hw : hyphenated none w = true) (hc : isSign c = true)
    (hrest : StopsBefore Text.isLetter rest) : splitFrom none [] (w ++ c :: rest) =
      .operand w :: .operator c :: splitFrom (some c) [] rest := by
  rw [splitFrom_append hw, splitFrom, if_pos (separates_of_sign hc hrest), List.append_nil,
    List.reverse_reverse]

theorem splitFrom_operand {before : Option Char} (hw : hyphenated before w = true) :
    splitFrom before [] w = [.operand w] := by
  have hsplit : splitFrom before [] (w ++ []) = splitFrom (w.getLast?.or before) (w.reverse ++ []) [] :=
    splitFrom_append hw
  rwa [List.append_nil, List.append_nil, splitFrom, List.reverse_reverse] at hsplit

namespace PlainSum

theorem slash_not_mem (hgap : ∀ c ∈ gap, c = ' ') : '/' ∉ x.text gap := by
  intro hmem
  have hchar := x.isSumChar_text hgap '/' hmem
  revert hchar
  decide

/-- What follows the number of the first term. -/
theorem rest_of_decimal {n : Numeral} (hgap : ∀ c ∈ gap, isBlank c = true)
    (h : Fits decimal (x.first.text gap ++ s) n rest) :
    rest = gap ++ (x.first.unit ++ s) ∨ ∃ u, rest = '.' :: u := by
  obtain ⟨hdigit, hpoint⟩ := x.first.stopsBefore_text hgap s
  rw [PlainTerm.text, List.append_assoc, List.append_assoc] at h
  exact x.first.rest_of_decimal h hdigit hpoint

/-- A sum with blanks is no compact pair. -/
theorem compactPair_eq_none : compactPair.read? (x.text [' ']) = none := by
  obtain ⟨c, d, s, -, -, htext⟩ := x.exists_opening [' ']
  rw [read?_eq_none_iff, htext]
  rintro pair rest hfits
  simp only [compactPair, fits_bind] at hfits
  obtain ⟨n, t, hn, u, v, hunit, -⟩ := hfits
  obtain ⟨hne, hchars, hsplit⟩ := of_fits_many1 hunit
  obtain ⟨b, u, rfl⟩ := List.exists_cons_of_ne_nil hne
  have hb := hchars b List.mem_cons_self
  rcases x.rest_of_decimal isBlank_of_mem_space hn with rfl | ⟨w, rfl⟩
  · obtain ⟨rfl, -⟩ := List.cons.inj hsplit
    cases hb
  · obtain ⟨rfl, -⟩ := List.cons.inj hsplit
    cases hb

theorem pieces_text (hgap : ∀ c ∈ gap, isBlank c = true) : ∃ c rest,
    pieces (x.text gap) = .operand (x.first.text gap ++ gap) :: .operator c :: rest := by
  obtain ⟨c, d, s, hc, hd, htext⟩ := x.exists_opening gap
  have hhyphens : hyphenated none (x.first.text gap ++ gap) = true :=
    hyphenated_append (x.first.hyphenated_text hgap none)
      (hyphenated_of_not_sign fun b hb => not_sign_of_isBlank (hgap b hb))
  have hrest : StopsBefore Text.isLetter (gap ++ d :: s) := by
    cases gap with
    | nil => exact Text.stopsBefore_cons.mpr (not_letter_of_isDigit hd)
    | cons b gap => exact Text.stopsBefore_cons.mpr (not_letter_of_isBlank (hgap b List.mem_cons_self))
  have hsolid : (Piece.operand (x.first.text gap ++ gap)).isSolid = true := by
    obtain ⟨e, t, ht, he⟩ := x.first.exists_head
    simp [Piece.isSolid, PlainTerm.text, ht, Text.isBlank_of_isDigit he]
  refine ⟨c, (splitFrom (some c) [] (gap ++ d :: s)).filter Piece.isSolid, ?_⟩
  rw [pieces, htext, ← List.append_assoc, splitFrom_sign hhyphens hc hrest,
    List.filter_cons_of_pos hsolid, List.filter_cons_of_pos rfl]

/-- If a sum with blanks has a value, its first unit is known, and the value is an amount of the base
unit. -/
theorem of_mixedSum (h : mixedSum (x.text [' ']) = .found s) : ∃ u y places,
    find? x.first.unit = some u ∧ s = withUnit (Number.fixed y places) u.dimension.base.toList := by
  have hslash : '/' ∉ x.text [' '] := x.slash_not_mem (List.forall_mem_singleton.mpr rfl)
  obtain ⟨c, ps, hpieces⟩ := x.pieces_text isBlank_of_mem_space
  have hread := x.first.readSummand_text (List.forall_mem_nil _) isBlank_of_mem_space
    isBlank_of_mem_space
  rw [mixedSum, (fractions_eq_none hslash).1] at h
  simp only [sumCompact?_eq_none x.compactPair_eq_none, hpieces, sumPieces] at h
  obtain ⟨_, -, h⟩ := bind_eq_found.mp h
  obtain ⟨summand, hsummand, h⟩ := bind_eq_found.mp h
  obtain ⟨total, -, h⟩ := bind_eq_found.mp h
  rw [List.nil_append] at hread
  rw [hread] at hsummand
  obtain ⟨u, hu, rfl⟩ := Option.map_eq_some_iff.mp (Attempt.ofOption_eq_found.mp hsummand)
  split at h
  next rounded _ => exact ⟨u, _, _, hu, (Attempt.found.inj h).symm⟩
  · cases h

end PlainSum

end Adding

end DeskCalc.Measure
