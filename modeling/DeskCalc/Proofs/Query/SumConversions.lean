import DeskCalc.Proofs.Measure.Fractions
import DeskCalc.Proofs.Query.SumArithmetic

/-!
# Conversions of plain sums

A sum that is to be converted is worked out first, and its text is read again.  This second reading
knows neither signs nor exponents, and no unit with a slash.  So there is an answer if and only if
the amount is written in digits and points and the sum is no speed; the answer is then the amount
shown, converted from the base unit.
-/

namespace DeskCalc.Query

open Attempt (orElse_eq_found)
open Expression (Spelling)
open DeskCalc.Measure (IsRow PlainSum PlainTerm isMicroUnitChar isSign isUnitLetter mixedSum
  withUnit)
open Text (Shape StopsBefore isBlank isDigit)
open Text.Shape (Fits FitsOnly fits_bind fits_char fits_many1_append fits_one fits_pure
  fits_run1_append fits_word_append fitsOnly_atEnd fitsOnly_pure fitsOnly_run1 not_fits_run1
  of_fits_many of_fits_many1 of_fits_run1 of_fits_word read?_eq_none_iff read?_of_unique)

section Rules

variable {x : PlainSum} {gap target s rest : Text} {c : Char} {d : Dimension}

/-! ## Compact and paired quantities -/

/-- What stands behind the first number of a sum neither goes on with it nor is an operator. -/
theorem behind_number (x : PlainSum) (hgap : IsGap gap) (s : Text) : ∃ b u,
    gap ++ (x.first.unit ++ s) = b :: u ∧ (isDigit b || b == '.') = false ∧
      "+-*/".toList.contains b = false := by
  rcases hgap with rfl | rfl
  · obtain ⟨l, letters, hunit, hl⟩ := x.first.exists_unit_head
    refine ⟨l, letters ++ s, by rw [hunit]; rfl, ?_⟩
    by_contra hnot
    rw [← Bool.not_eq_true, ← Bool.not_eq_true, ← not_or, not_not, Bool.or_eq_true, beq_iff_eq,
      List.contains_iff_mem] at hnot
    rcases hnot with (hdigit | rfl) | hoperator
    · rw [isDigit_of_isTargetChar (Measure.isTargetChar_of_isUnitLetter hl)] at hdigit
      cases hdigit
    · cases hl
    · have hall : "+-*/".toList.all (fun c => !isUnitLetter c) = true := by decide
      have hnot := List.all_eq_true.mp hall l hoperator
      rw [hl] at hnot
      cases hnot
  · exact ⟨' ', x.first.unit ++ s, rfl, by decide, by decide⟩

theorem rest_of_pointedDigits {a t : Text} (hgap : IsGap gap)
    (h : Fits pointedDigits (x.first.text gap ++ s) a t) : t = gap ++ (x.first.unit ++ s) := by
  have hnumber : ∀ c ∈ Measure.decimalText x.first.number, (isDigit c || c == '.') = true := by
    intro c hc
    simpa using x.first.digit_or_point c hc
  obtain ⟨b, u, hbehind, hb, -⟩ := behind_number x hgap s
  rw [PlainTerm.text, List.append_assoc, List.append_assoc] at h
  refine (Measure.eq_of_fits_run1 h hnumber ?_).2
  rw [hbehind]
  exact Text.stopsBefore_cons.mpr hb

/-- No operator stands behind the first number of a sum. -/
theorem not_fits_operator {a t : Text} (hgap : IsGap gap)
    (h : Fits pointedDigits (x.first.text gap ++ s) a t) :
    ¬Fits (Shape.one fun c => "+-*/".toList.contains c) t c rest := by
  intro hoperator
  obtain ⟨rfl, hc⟩ := fits_one.mp hoperator
  obtain ⟨b, u, hbehind, -, hb⟩ := behind_number x hgap s
  rw [← rest_of_pointedDigits hgap h] at hbehind
  obtain ⟨rfl, -⟩ := List.cons.inj hbehind
  rw [hb] at hc
  cases hc

theorem exists_behind_first (x : PlainSum) (gap target : Text) :
    ∃ s, sumLine x gap target = x.first.text gap ++ s :=
  ⟨_, List.append_assoc _ _ _⟩

theorem compactTo_eq_none (hgap : IsGap gap) : compactTo.read? (sumLine x gap target) = none := by
  obtain ⟨s, hline⟩ := exists_behind_first x gap target
  rw [read?_eq_none_iff, hline]
  rintro parts rest hfits
  simp only [compactTo, fits_bind] at hfits
  obtain ⟨a, t, ha, operator, t', hoperator, -⟩ := hfits
  exact not_fits_operator hgap ha hoperator

/-- With blanks, a sum is not compact. -/
theorem answerCompact_sumLine : answerCompact (sumLine x [' '] target) = .pass := by
  have hin : compactIn.read? (sumLine x [' '] target) = none := by
    obtain ⟨s, hline⟩ := exists_behind_first x [' '] target
    rw [read?_eq_none_iff, hline]
    rintro parts rest hfits
    simp only [compactIn, fits_bind, fits_one] at hfits
    obtain ⟨a, t, ha, u, t', hu, operator, t'', ⟨rfl, hoperator⟩, -⟩ := hfits
    obtain rfl := rest_of_pointedDigits (.inr rfl) ha
    obtain ⟨hunit, hsplit⟩ := of_fits_many hu
    cases u with
    | nil =>
      obtain ⟨rfl, -⟩ := List.cons.inj hsplit
      cases hoperator
    | cons b u =>
      obtain ⟨rfl, -⟩ := List.cons.inj hsplit
      have hspace := hunit ' ' List.mem_cons_self
      revert hspace
      decide
  simp only [answerCompact, hin, compactTo_eq_none (.inr rfl)]
  rfl

/-- Behind the first unit of a sum stands a sign, and no number. -/
theorem answerTwoUnits_sumLine (hgap : IsGap gap) :
    answerTwoUnits (sumLine x gap target) = .pass := by
  have hnone : twoUnitsShape.read? (sumLine x gap target) = none := by
    rw [read?_eq_none_iff]
    rintro parts rest hfits
    simp only [twoUnitsShape, fits_bind] at hfits
    obtain ⟨n, t₁, hn, g, t₂, hg, u, t₃, hu, g', t₄, hg', m, t₅, hm, -⟩ := hfits
    obtain ⟨c, s, hc, hline⟩ := exists_sumLine x gap target
    have hunit := x.first.visible_unit
    rw [hline] at hn
    rcases x.first.decimalText_cases with ⟨htext, -⟩ | ⟨htext, -⟩
    · rw [htext] at hn
      obtain ⟨-, rfl⟩ := Measure.eq_of_fits_run1 hn x.first.digits.2
        (x.first.stopsBefore_text hgap.isBlank (gap ++ c :: s)).1
      rcases hgap with rfl | rfl
      · exact not_fits_run1 (x.first.stopsBefore_unit hunit _) hg
      · obtain ⟨-, rfl⟩ := Measure.eq_of_fits_run1 hg Measure.isBlank_of_mem_space
          (x.first.stopsBefore_unit hunit _)
        obtain ⟨-, hletters, hsplit⟩ := of_fits_run1 hu
        obtain ⟨v, hv, rfl⟩ := exists_rest hletters (Text.stopsBefore_cons.mpr (by decide)) hsplit
        obtain ⟨-, rfl⟩ := eq_of_fits_blanks (.inr rfl) hc (fun b hb => hunit b (hv b hb)) hg'
        exact not_fits_run1 (Text.stopsBefore_cons.mpr (Measure.isDigit_of_isSign hc)) hm
    · rw [htext, List.append_assoc, List.cons_append] at hn
      obtain ⟨-, rfl⟩ := Measure.eq_of_fits_run1 hn x.first.digits.2
        (Text.stopsBefore_cons.mpr (by decide))
      exact not_fits_run1 (Text.stopsBefore_cons.mpr (by decide)) hg
  rw [answerTwoUnits, hnone]
  rfl

/-! ## What is converted -/

theorem fits_keyword_in (hrest : StopsBefore isBlank rest) :
    Fits (keyword "in") (" in ".toList ++ rest) () rest := by
  simp only [keyword, fits_bind, fits_pure]
  refine ⟨[' '], 'i' :: 'n' :: ' ' :: rest, ?_, ['i', 'n'], ' ' :: rest, ?_, [' '], rest, ?_, trivial, rfl⟩
  · exact fits_run1_append (List.cons_ne_nil _ _) Measure.isBlank_of_mem_space
      (Text.stopsBefore_cons.mpr (by decide))
  · exact fits_word_append (by decide) _
  · exact fits_run1_append (List.cons_ne_nil _ _) Measure.isBlank_of_mem_space hrest

/-- Blanks behind a visible end are all of the blanks there. -/
theorem eq_of_blanks {front value before : Text} (hfront : StopsBefore isBlank front.reverse)
    (hne : before ≠ []) (hbefore : ∀ c ∈ before, isBlank c = true)
    (h : value ++ before = front ++ [' ']) : value = front := by
  rcases List.append_eq_append_iff.mp h with ⟨v, rfl, rfl⟩ | ⟨v, rfl, hv⟩
  · rcases List.eq_nil_or_concat v with rfl | ⟨v, c, rfl⟩
    · rw [List.append_nil]
    · have hc := hbefore c (by simp)
      simp only [List.concat_eq_append, List.reverse_append, List.reverse_singleton,
        List.cons_append, Text.stopsBefore_cons] at hfront
      rw [hfront] at hc
      cases hc
  · cases v with
    | nil => exact List.append_nil _
    | cons c v =>
      obtain ⟨-, hnil⟩ := List.cons.inj hv
      exact absurd (List.append_eq_nil_iff.mp hnil.symm).2 hne

theorem visible_end (x : PlainSum) (gap : Text) : StopsBefore isBlank (x.text gap).reverse := by
  obtain ⟨s, c, htext, hc⟩ := x.exists_end gap
  rw [htext, List.reverse_append]
  exact Text.stopsBefore_cons.mpr
    (isBlank_of_isTargetChar (Measure.isTargetChar_of_isUnitLetter hc))

/-- A line asks for its sum in its target, and for nothing else. -/
theorem eq_of_asks {value last : Text} (htarget : IsRow isTargetChar target)
    (h : Asks (sumLine x gap target) value (some last)) : value = x.text gap ∧ last = target := by
  have hvisible : ∀ c ∈ target, isBlank c = false :=
    fun c hc => isBlank_of_isTargetChar (htarget.2 c hc)
  generalize hline : sumLine x gap target = s at h
  cases h with
  | within hkey hne hchars htail =>
    obtain ⟨w, hw, hkeyword⟩ := hkey
    obtain ⟨rfl, hfront⟩ := eq_of_ends htarget.1 hvisible hkeyword
      (fun c hc => isBlank_of_isTargetChar (hchars c hc)) htail hline
    cases hkeyword with
    | @mk before word behind hbefore hblanks hword hbehind hblanks' =>
      have hfront : value ++ (before ++ word) = x.text gap ++ [' ', 'i', 'n'] := by
        refine eq_of_blanks ?_ hbehind hblanks' (by simpa using hfront)
        rw [List.reverse_append]
        exact Text.stopsBefore_cons.mpr (by decide)
      have hlength : word.length = ['i', 'n'].length := by
        have hsame := Text.Shape.length_of_sameLetters hword
        rcases List.mem_pair.mp hw with rfl | rfl <;> exact hsame
      have hsame : value ++ before = x.text gap ++ [' '] := by
        have hassoc : (value ++ before) ++ word = (x.text gap ++ [' ']) ++ ['i', 'n'] := by
          simpa using hfront
        exact (List.append_inj' hassoc hlength).1
      exact ⟨eq_of_blanks (visible_end x gap) hbefore hblanks hsame, rfl⟩

/-- A line is read as the sum and its target, and as nothing else. -/
theorem read?_conversionTo (hgap : IsGap gap) (htarget : IsRow isTargetChar target) :
    (conversionTo "in").read? (sumLine x gap target) = some (x.text gap, target) := by
  have hline : ∀ c ∈ x.text gap, isOnLine c = true := by
    intro c hc
    rw [isOnLine, decide_eq_true_eq]
    rintro rfl
    cases x.isSumChar_text hgap.eq_space _ hc
  have hne : x.text gap ≠ [] := by
    obtain ⟨s, c, htext, -⟩ := x.exists_end gap
    rw [htext]
    exact List.append_ne_nil_of_right_ne_nil s (List.cons_ne_nil c [])
  have hstart : StopsBefore isBlank target := by
    obtain ⟨c, t, rfl⟩ := List.exists_cons_of_ne_nil htarget.1
    exact Text.stopsBefore_cons.mpr (isBlank_of_isTargetChar (htarget.2 c List.mem_cons_self))
  have hfits : Fits (conversionTo "in") (sumLine x gap target) (x.text gap, target) [] := by
    have hunit : Fits (Shape.run1 isTargetChar) (target ++ []) target [] :=
      fits_run1_append htarget.1 htarget.2 rfl
    rw [List.append_nil] at hunit
    simp only [conversionTo, fits_bind, fits_pure]
    exact ⟨x.text gap, _, fits_many1_append hne hline _, (), target, fits_keyword_in hstart, target,
      [], hunit, (), [], Text.Shape.fits_atEnd.mpr ⟨.inl rfl, rfl⟩, rfl, rfl⟩
  cases hread : (conversionTo "in").read? (sumLine x gap target) with
  | none => exact absurd hfits (read?_eq_none_iff.mp hread _ _)
  | some r =>
    obtain ⟨value, last⟩ := r
    obtain ⟨rfl, rfl⟩ := eq_of_asks htarget (of_conversionTo (by simp) hread)
    rfl

/-! ## The first rule that answers -/

/-- Whatever precedes the rules for compact sums and for conversions has nothing to say to a line
with known units. -/
theorem firstOutcome_sumLine (hgap : IsGap gap) (hknown : (d.find? x.first.unit).isSome = true)
    (htarget : IsRow isTargetChar target) {e : Dimension} (hfound : (e.find? target).isSome = true) :
    firstOutcome (sumLine x gap target) Rule.all =
      (answerCompact (sumLine x gap target) <|>
        Outcome.decide (convertValue (x.text gap) target)) := by
  have hpass (o : Outcome) : (Outcome.pass <|> o) = o := rfl
  have hdecide (y : Attempt Text) (o : Outcome) : (Outcome.decide y <|> o) = Outcome.decide y := by
    cases y <;> rfl
  simp only [Rule.all, firstOutcome, Rule.apply, answerFixed_sumLine hgap,
    answerDoubleStar_sumLine hgap htarget.2, answerCall_sumLine, answerConstant_sumLine,
    answerTemperature_sumLine hgap, answerCurrency_sumLine hgap, answerFeetInches_sumLine hgap,
    answerArithmetic_sumLine hgap hknown, answerBase_sumLine htarget hfound,
    answerProduct_sumLine hgap htarget.2, answerGroup_sumLine, answerTwoUnits_sumLine hgap,
    answerConversion, read?_conversionTo hgap htarget, hpass, hdecide]

/-- A line with known units is answered by the rule for compact sums or by that for conversions. -/
theorem resolve_sumLine (hgap : IsGap gap) (hknown : (d.find? x.first.unit).isSome = true)
    (htarget : IsRow isTargetChar target) {e : Dimension} (hfound : (e.find? target).isSome = true)
    (answer : Text) : resolve (sumLine x gap target) = some answer ↔
      (answerCompact (sumLine x gap target) <|>
        Outcome.decide (convertValue (x.text gap) target)) = .answer answer := by
  have hvisible : ∀ c ∈ target, isBlank c = false :=
    fun c hc => isBlank_of_isTargetChar (htarget.2 c hc)
  obtain ⟨b, s, hline, hb⟩ := exists_digit_sumLine x gap target
  have hfirst : StopsBefore isBlank (sumLine x gap target) := by
    rw [hline]
    exact Text.stopsBefore_cons.mpr (Text.isBlank_of_isDigit hb)
  have hlast : StopsBefore isBlank (sumLine x gap target).reverse := by
    obtain ⟨t, c, htail⟩ := (List.eq_nil_or_concat target).resolve_left htarget.1
    rw [sumLine, htail]
    simp only [List.concat_eq_append, List.reverse_append, List.reverse_singleton,
      List.cons_append]
    exact Text.stopsBefore_cons.mpr (hvisible c (by simp [htail]))
  have hstrip : Text.strip (sumLine x gap target) = sumLine x gap target := by
    have hbetween := Text.strip_between (List.forall_mem_nil fun c => isBlank c = true)
      (List.forall_mem_nil fun c => isBlank c = true) hfirst hlast
    rwa [List.nil_append, List.append_nil] at hbetween
  have hne : (sumLine x gap target).isEmpty = false := by
    rw [hline]
    rfl
  rw [resolve, hstrip]
  simp only [hne, Bool.false_eq_true, if_false]
  rw [firstOutcome_sumLine hgap hknown htarget hfound]
  split
  next t ht => rw [ht, Option.some.injEq, Outcome.answer.injEq]
  next hother =>
    constructor
    · rintro ⟨⟩
    · intro hanswer
      exact absurd hanswer (hother answer)

end Rules

/-! ## Reading a sum again -/

/-- Behind the unit of a single quantity stands no digit. -/
theorem Quantity.no_digit_behind {unit s : Text} (h : Quantity unit s) :
    ∀ c ∈ (bare s).dropWhile isAmountChar, isDigit c = false := by
  obtain @⟨amount, tail, hamount, -, -, hunit, htail⟩ := h
  have hbare : ∀ c ∈ bare amount, isAmountChar c = true :=
    fun c hc => hamount c (mem_bare.mp hc).1
  rw [bare_append, bare_append, bare_unit hunit, bare_eq_nil htail, List.append_nil,
    List.dropWhile_append_of_pos hbare]
  exact fun c hc => isDigit_of_isTargetChar (hunit c ((List.dropWhile_sublist _).mem hc))

section Again

variable {x : PlainSum} {gap target amount unit answer : Text} {d : Dimension}

/-- A sum is no single quantity, whatever becomes of its blanks. -/
theorem not_quantity (hgap : IsGap gap) {s : Text} (hs : bare s = bare (x.text gap)) :
    ¬Quantity unit s := by
  intro h
  obtain ⟨c, b, t, -, hb, htext⟩ := x.exists_opening gap
  obtain ⟨l, letters, hunit, hl⟩ := x.first.exists_unit_head
  have hnumber : ∀ c ∈ bare (Measure.decimalText x.first.number), isAmountChar c = true := by
    intro c hc
    rcases x.first.digit_or_point c (mem_bare.mp hc).1 with hdigit | rfl
    · exact isAmountChar_of_isDigit hdigit
    · decide
  have hvisible : bare x.first.unit = x.first.unit :=
    bare_unit fun c hc => Measure.isTargetChar_of_isUnitLetter (x.first.letters.2 c hc)
  have hdigit := h.no_digit_behind b
  rw [hs, htext, PlainTerm.text] at hdigit
  simp only [bare_append, hvisible, bare_eq_nil hgap.isBlank, List.nil_append,
    List.append_assoc] at hdigit
  rw [List.dropWhile_append_of_pos hnumber, hunit, List.cons_append,
    List.dropWhile_cons_of_neg (by rw [isAmountChar_of_isUnitLetter hl]; exact Bool.false_ne_true)]
    at hdigit
  have hmem : b ∈ bare (c :: (gap ++ b :: t)) :=
    mem_bare.mpr ⟨by simp, isSpacing_of_isDigit hb⟩
  rw [hdigit (by simp [hmem])] at hb
  cases hb

/-- Only as a sum is a sum converted. -/
theorem convertValue_eq_found (hgap : IsGap gap) : convertValue (x.text gap) target = .found answer ↔
    ∃ shown amount unit, mixedSum (x.text gap) = .found shown ∧
      (shownSum isMicroUnitChar).read? shown = some (amount, unit) ∧
      Measure.convertQuantity (withUnit amount unit) target = .found answer := by
  have hclean : bare (Text.strip (singleSpaces false (x.text gap))) = bare (x.text gap) := by simp
  have hsign : (x.text gap).any (fun c => c == '+' || c == '-') = true := by
    obtain ⟨c, b, t, hc, -, htext⟩ := x.exists_opening gap
    rw [List.any_eq_true]
    exact ⟨c, by simp [htext], hc⟩
  simp only [convertValue, orElse_eq_found, hsign, Attempt.require, if_true, Attempt.found_bind,
    Attempt.bind_eq_found, Attempt.ofOption_eq_found]
  constructor
  · rintro (⟨shown, hshown, ⟨amount, unit⟩, hread, hconvert⟩ | ⟨-, hother⟩)
    · exact ⟨shown, amount, unit, hshown, hread, hconvert⟩
    · exfalso
      rcases hother with ⟨q, hread, -⟩ | ⟨-, ⟨q, hread, -⟩ | ⟨-, ⟨q, hread, -⟩ | ⟨-, hconvert⟩⟩⟩
      · exact not_quantity hgap rfl (of_speedQuantity hread)
      · exact not_quantity hgap hclean (of_speedQuantity hread)
      · exact not_quantity hgap hclean (of_spacedQuantity hread)
      · obtain ⟨source, unit, hquantity, -⟩ := of_convertQuantity hconvert
        exact not_quantity hgap rfl hquantity
  · rintro ⟨shown, amount, unit, hshown, hread, hconvert⟩
    exact .inl ⟨shown, hshown, ⟨amount, unit⟩, hread, hconvert⟩

/-- The digits and points of an amount. -/
def isPointedDigit (c : Char) : Bool :=
  isDigit c || c == '.'

/-- What is shown for a sum is read again if the amount consists of digits and points, and the unit
of characters of the class. -/
theorem read?_shownSum {p : Char → Bool} (hp : ∀ c, p c = true → isTargetChar c = true)
    (hamount : ∀ c ∈ amount, isBlank c = false) (hne : unit ≠ [])
    (hunit : ∀ c ∈ unit, isBlank c = false) {r : Text × Text} :
    (shownSum p).read? (withUnit amount unit) = some r ↔
      IsRow isPointedDigit amount ∧ (∀ c ∈ unit, p c = true) ∧ r = (amount, unit) := by
  constructor
  · intro h
    obtain ⟨hends, hchars⟩ := @of_shownSum p hp _ r.1 r.2 h
    obtain ⟨rest, hfits⟩ := Shape.fits_of_read? h
    simp only [shownSum, fits_bind, fits_pure] at hfits
    obtain ⟨w, t, hw, blanks, u, hblanks, v, tail, hv, _, _, hend, heq, -⟩ := hfits
    subst heq
    obtain ⟨hwne, hpointed, hwhole⟩ := of_fits_run1 hw
    obtain ⟨hbne, hblank, rfl⟩ := of_fits_run1 hblanks
    obtain ⟨-, hrun, rfl⟩ := of_fits_run1 hv
    obtain rfl : v = unit :=
      hends.unit_eq (fun c hc => isBlank_of_isTargetChar (hchars c hc)) hne hunit
    have hfront : w ++ blanks = amount ++ [' '] := by
      refine Measure.front_of_withUnit hne hunit (Text.Shape.fits_atEnd.mp hend).1 ?_
      rw [List.append_assoc]
      exact hwhole
    have hvisible : StopsBefore isBlank amount.reverse := by
      cases hreverse : amount.reverse with
      | nil => rfl
      | cons c s =>
        exact Text.stopsBefore_cons.mpr (hamount c (List.mem_reverse.mp (by simp [hreverse])))
    obtain rfl := eq_of_blanks hvisible hbne hblank hfront
    exact ⟨⟨hwne, hpointed⟩, hrun, rfl⟩
  · rintro ⟨⟨hane, hpointed⟩, hchars, rfl⟩
    have hblank : StopsBefore isBlank unit := by
      obtain ⟨c, s, rfl⟩ := List.exists_cons_of_ne_nil hne
      exact Text.stopsBefore_cons.mpr (hunit c List.mem_cons_self)
    have hrun : FitsOnly (Shape.run1 p) (unit ++ []) unit [] := fitsOnly_run1 hne hchars rfl
    rw [List.append_nil] at hrun
    have hall : FitsOnly (shownSum p) (amount ++ ([' '] ++ unit)) (amount, unit) [] :=
      (fitsOnly_run1 hane hpointed (Text.stopsBefore_cons.mpr (by decide))).bind
        ((fitsOnly_run1 (List.cons_ne_nil _ _) Measure.isBlank_of_mem_space hblank).bind
          (hrun.bind ((fitsOnly_atEnd (.inl rfl)).bind (fitsOnly_pure _ _))))
    exact hall.read?

/-! ## The amount that is converted -/

/-- An amount and a unit are told apart. -/
theorem withUnit_inj {amount' unit' : Text} (hunit : ∀ c ∈ unit, isBlank c = false)
    (hunit' : ∀ c ∈ unit', isBlank c = false) (h : withUnit amount unit = withUnit amount' unit') :
    amount = amount' ∧ unit = unit' := by
  have hblank : isBlank ' ' = true := by decide
  have hlast := congrArg lastWord h
  rw [withUnit, withUnit, lastWord_append hblank hunit, lastWord_append hblank hunit'] at hlast
  subst hlast
  exact ⟨List.append_cancel_right h, rfl⟩

theorem base_entry (d : Dimension) : d.find? d.base.toList = some (d.base, 1) := by
  cases d <;> rfl

/-- Of the base units only that of speeds has a slash. -/
theorem isMicroUnitChar_base : (∀ c ∈ d.base.toList, isMicroUnitChar c = true) ↔ d ≠ .speed := by
  rw [← List.all_eq_true]
  cases d <;> decide

/-- A decimal quantity is converted to any unit of its dimension. -/
theorem convertQuantity_spelling {n : Spelling} {source target : Text} {s name : String}
    {f g : Float} (hn : n.power? = none) (hchars : ∀ c ∈ source, isMicroUnitChar c = true)
    (hsource : d.find? source = some (s, f)) (htarget : d.find? target = some (name, g)) :
    Measure.convertQuantity (withUnit n.text source) target =
      .found (Measure.converted f g name n.numeral.value) := by
  have hslash : '/' ∉ withUnit n.text source := by
    simp only [withUnit, List.mem_append, List.mem_cons, not_or]
    refine ⟨fun hmem => ?_, by decide, fun hmem => ?_⟩
    · cases n.isChar_text _ hmem
    · cases hchars _ hmem
  have hread : Measure.decimalQuantity.read? (withUnit n.text source) = some (n.numeral, source) :=
    Measure.read?_decimalQuantity hn Measure.isBlank_of_mem_space (Measure.ne_nil_of_find? hsource)
      hchars
  simp only [Measure.convertQuantity, (Measure.fractions_eq_none hslash).1,
    (Measure.fractions_eq_none hslash).2, Measure.convertDecimal?, hread,
    Measure.convert?_eq hsource htarget]
  rfl

/-- The decimals of a number are read as the number that they spell. -/
theorem exists_amount {y : Float} {places : ℕ}
    (h : ∀ c ∈ Number.fixed y places, isPointedDigit c = true) :
    ∃ n : Spelling, n.power? = none ∧ Number.fixed y places = n.text ∧
      Number.leadingNumber? (Number.fixed y places) = some n.numeral.value := by
  obtain ⟨n, hpower, htext⟩ :=
    Number.exists_spelling_fixed fun c hc => by simpa [isPointedDigit] using h c hc
  have hread := @Expression.leadingNumber?_spelling false n [] nofun
  refine ⟨n, hpower, htext, ?_⟩
  rw [htext]
  simpa [Number.signed, Number.applySign] using hread

theorem value_mul_one (n : Spelling) : n.numeral.value * 1 = n.numeral.value := by
  rw [n.value_numeral]
  exact Number.mul_one_of_unsigned (Number.unsigned_nearestTo n.number_nonneg)

/-- An amount of the base unit that is written in digits and points is converted to any unit. -/
theorem convertQuantity_base {y v g : Float} {places : ℕ} {name : String}
    (hchars : ∀ c ∈ d.base.toList, isMicroUnitChar c = true)
    (hpointed : ∀ c ∈ Number.fixed y places, isPointedDigit c = true)
    (hv : Number.leadingNumber? (Number.fixed y places) = some v)
    (hfound : d.find? target = some (name, g)) :
    Measure.convertQuantity (withUnit (Number.fixed y places) d.base.toList) target =
      .found (withUnit (Number.conversionText (v / g)) name.toList) := by
  obtain ⟨n, hpower, htext, hvalue⟩ := exists_amount hpointed
  obtain rfl : n.numeral.value = v := Option.some.inj (hvalue.symm.trans hv)
  rw [htext, convertQuantity_spelling hpower hchars (base_entry d) hfound, Measure.converted,
    value_mul_one]

/-- A sum that is shown in digits and points, and is no speed, is read again and converted. -/
theorem convertValue_shown {y v g : Float} {places : ℕ} {name : String} (hgap : IsGap gap)
    (hsum : mixedSum (x.text gap) = .found (withUnit (Number.fixed y places) d.base.toList))
    (hspeed : d ≠ .speed) (hpointed : ∀ c ∈ Number.fixed y places, isPointedDigit c = true)
    (hv : Number.leadingNumber? (Number.fixed y places) = some v)
    (hfound : d.find? target = some (name, g)) :
    convertValue (x.text gap) target =
      .found (withUnit (Number.conversionText (v / g)) name.toList) := by
  have hchars := isMicroUnitChar_base.mpr hspeed
  have hrow : IsRow isPointedDigit (Number.fixed y places) := by
    refine ⟨?_, hpointed⟩
    obtain ⟨n, -, htext, -⟩ := exists_amount hpointed
    obtain ⟨c, t, hn, -⟩ := n.head
    rw [htext, hn]
    exact List.cons_ne_nil c t
  have hread := (@read?_shownSum _ _ isMicroUnitChar (fun _ => isTargetChar_of_isMicroUnitChar)
    (isBlank_of_isNumberText (Number.isNumberText_fixed y places))
    (Measure.ne_nil_of_find? (base_entry d)) (Dimension.visible_base d).2 _).mpr ⟨hrow, hchars, rfl⟩
  exact (convertValue_eq_found hgap).mpr
    ⟨_, _, _, hsum, hread, convertQuantity_base hchars hpointed hv hfound⟩

/-- A sum with blanks that has a value is converted if and only if the amount shown is written in
digits and points and the sum is no speed; the answer is then this amount of the base unit, in the
other unit. -/
theorem resolve_sum_iff {name : String} {g : Float}
    (hsum : mixedSum (x.text [' ']) = .found (withUnit amount d.base.toList))
    (htarget : IsRow isTargetChar target) (hfound : d.find? target = some (name, g)) :
    resolve (sumLine x [' '] target) = some answer ↔
      ((∀ c ∈ amount, isPointedDigit c = true) ∧ d ≠ .speed) ∧
        ∃ v, Number.leadingNumber? amount = some v ∧
          answer = withUnit (Number.conversionText (v / g)) name.toList := by
  obtain ⟨⟨e, first, factor⟩, y, places, hfirst, hshown⟩ := x.of_mixedSum hsum
  obtain ⟨rfl, hbase⟩ := withUnit_inj (Dimension.visible_base d).2 (Dimension.visible_base e).2 hshown
  obtain rfl : d = e := Dimension.eq_of_find?_base (by rw [← hbase, base_entry]; rfl)
  have hknown : (d.find? x.first.unit).isSome = true := by
    rw [Measure.find?_dimension hfirst]
    rfl
  have hpass (o : Outcome) : (Outcome.pass <|> o) = o := rfl
  rw [resolve_sumLine (.inr rfl) hknown htarget (by rw [hfound]; rfl), answerCompact_sumLine, hpass,
    Outcome.decide_eq_answer]
  constructor
  · rw [convertValue_eq_found (.inr rfl), hsum]
    rintro ⟨shown, amount, unit, hsame, hagain, hconvert⟩
    cases hsame
    obtain ⟨hrow, hchars, heq⟩ := (@read?_shownSum _ _ isMicroUnitChar
      (fun _ => isTargetChar_of_isMicroUnitChar)
      (isBlank_of_isNumberText (Number.isNumberText_fixed y places))
      (Measure.ne_nil_of_find? (base_entry d)) (Dimension.visible_base d).2 _).mp hagain
    cases heq
    obtain ⟨n, -, -, hvalue⟩ := exists_amount hrow.2
    rw [convertQuantity_base hchars hrow.2 hvalue hfound] at hconvert
    exact ⟨⟨hrow.2, isMicroUnitChar_base.mp hchars⟩, _, hvalue, (Attempt.found.inj hconvert).symm⟩
  · rintro ⟨⟨hpointed, hspeed⟩, v, hv, rfl⟩
    exact convertValue_shown (.inr rfl) hsum hspeed hpointed hv hfound

theorem resolve_sum_iff_kilometres :
    mixedSum "5 km + 300 m".toList = .found (withUnit "5300".toList Dimension.length.base.toList) ∧
      Dimension.length.find? "km".toList = some ("km", 1000) ∧
      resolve "5 km + 300 m in km".toList = some "5.3 km".toList := by
  have hletters (s : String) (hs : s ∈ ["km", "m"]) : IsRow isUnitLetter s.toList := by
    simp only [List.mem_cons, List.not_mem_nil, or_false] at hs
    rcases hs with rfl | rfl <;> exact ⟨by decide, List.all_eq_true.mp (by decide)⟩
  have hdigits (s : String) (hs : s ∈ ["5", "300"]) : IsRow isDigit s.toList := by
    simp only [List.mem_cons, List.not_mem_nil, or_false] at hs
    rcases hs with rfl | rfl <;> exact ⟨by decide, List.all_eq_true.mp (by decide)⟩
  let x : PlainSum :=
    ⟨⟨"5".toList, [], "km".toList, hdigits _ (by simp), nofun, hletters _ (by simp)⟩,
      [(false, ⟨"300".toList, [], "m".toList, hdigits _ (by simp), nofun, hletters _ (by simp)⟩)],
      List.cons_ne_nil _ _⟩
  have hsum : mixedSum "5 km + 300 m".toList =
      .found (withUnit "5300".toList Dimension.length.base.toList) := rfl
  have hfound : Dimension.length.find? "km".toList = some ("km", 1000) := rfl
  have htarget : IsRow isTargetChar "km".toList := ⟨by decide, List.all_eq_true.mp (by decide)⟩
  refine ⟨hsum, hfound, (resolve_sum_iff (x := x) hsum htarget hfound).mpr ?_⟩
  exact ⟨⟨List.all_eq_true.mp (by decide), by decide⟩, 5300, rfl, by decide⟩

/-- A total below zero is shown and not converted, and so is a sum of speeds. -/
theorem total_unread :
    mixedSum "300 m - 5 km".toList = .found "-4700 m".toList ∧
      Number.leadingNumber? "-4700".toList = some (-4700) ∧
      Dimension.length.find? "km".toList = some ("km", 1000) ∧
      withUnit (Number.conversionText (-4700 / 1000)) "km".toList = "-4.7 km".toList ∧
      resolve "300 m - 5 km in km".toList = none ∧
      mixedSum "10 mph + 5 mph".toList = .found "7 m/s".toList ∧
      resolve "10 mph + 5 mph in kmh".toList = none := by
  decide +kernel

end Again

end DeskCalc.Query
